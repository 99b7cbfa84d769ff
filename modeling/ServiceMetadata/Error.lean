import ServiceMetadata.FileTree.Error
import ServiceMetadata.Json.Shape
import ServiceMetadata.Vocabulary.Basic
import ServiceMetadata.Xml.Error

/-! # What can go wrong -/
namespace ServiceMetadata

inductive ManifestError where
  | blankName
  | repeatedName (name : String)
  deriving DecidableEq, Repr

inductive Error where
  | file (path : String) (cause : FileError)
  | json (cause : Json.ReadError)
  /-- The bytes of a JSON file cannot be had although it could be opened. -/
  | jsonBytes (cause : FileError)
  | xml (path : String) (cause : Xml.Error)
  | outputRoot (path : String) (cause : FileError)
  | manifest (cause : ManifestError)
  | blankEntry (entry : VocabularyEntry)

def ManifestError.message : ManifestError → String
  | .blankName => "class with an empty name"
  | .repeatedName name => "class `" ++ name ++ "` is declared more than once"

def VocabularyEntry.shown (e : VocabularyEntry) : String :=
  "VocabularyEntry \x7b name: " ++ Text.quote e.name ++ ", uri: " ++ Text.quote e.uri ++ " \x7d"

def Error.message : Error → String
  | .file path cause => "I/O error on " ++ path ++ ": " ++ cause.message
  | .json cause => "JSON error: " ++ cause.message
  | .jsonBytes cause => "JSON error: " ++ cause.message
  | .xml path cause => "failed to parse " ++ path ++ ": " ++ cause.message
  | .outputRoot path cause => "could not create output directory " ++ path ++ ": " ++ cause.message
  | .manifest cause => "invalid manifest: " ++ cause.message
  | .blankEntry entry => "invalid vocabulary: entry with empty name or uri: " ++ entry.shown

end ServiceMetadata
