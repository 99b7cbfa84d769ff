import ServiceMetadata.Vocabulary.Basic

/-! # The standard vocabulary -/
namespace ServiceMetadata.Vocabulary.Standard

def site : String := "http://vocab.lappsgrid.org/"

def usageRestrictions : List (String × String) := [
  ("any", "ns/allow#any"), ("all", "ns/allow#any"), ("commercial", "ns/allow#commercial"),
  ("research", "ns/allow#research"), ("education", "ns/allow#education")]

def licenses : List (String × String) := [
  ("apache2", "ns/license#apache-2.0"), ("gpl", "ns/license#gpl"), ("lgpl", "ns/license#lgpl"),
  ("mit", "ns/license#mit"), ("public-domain", "ns/license#public-domain")]

def mediaFormats : List (String × String) := [
  ("text", "ns/media/text"), ("xml", "ns/media/xml"), ("json", "ns/media/json"),
  ("jsonld", "ns/media/jsonld"), ("lif", "ns/media/jsonld#lif"), ("gate", "ns/media/xml#gate"),
  ("uima", "ns/media/xml#uima-cas"), ("tcf", "ns/media/xml#tcf")]

def annotationTypes : List (String × String) := [
  ("token", "Token"), ("pos", "Token#pos"), ("lemma", "Token#lemma"), ("sentence", "Sentence"),
  ("paragraph", "Paragraph"), ("ne", "NamedEntity"), ("person", "Person"),
  ("location", "Location"), ("organization", "Organization"), ("date", "Date"),
  ("noun-chunk", "NounChunk"), ("verb-chunk", "VerbChunk"), ("constituent", "Constituent"),
  ("phrase-structure", "PhraseStructure"), ("dependency", "Dependency"),
  ("dependency-structure", "DependencyStructure"), ("coref", "Coreference"),
  ("markable", "Markable")]

def tagsets : List (String × String) := [
  ("tags-pos-penntb", "ns/tagset/pos#penntb"), ("tags-pos-ud", "ns/tagset/pos#ud"),
  ("tags-ner-stanford", "ns/tagset/ner#stanford"), ("tags-ner-opennlp", "ns/tagset/ner#opennlp"),
  ("tags-dep-stanford", "ns/tagset/dep#stanford")]

def entries : List VocabularyEntry :=
  (usageRestrictions ++ licenses ++ mediaFormats ++ annotationTypes ++ tagsets).map
    fun (name, path) => { name, uri := site ++ path }

end ServiceMetadata.Vocabulary.Standard

namespace ServiceMetadata.Vocabulary

def standard : Vocabulary := ofEntries Standard.entries

end ServiceMetadata.Vocabulary
