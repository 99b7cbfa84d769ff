/-! # Vocabularies

A vocabulary gives short names their canonical URIs. It is a table in the order of first insertion,
one entry to a name, with two indexes: one tells where a name stands, the other which entry answers
for a URI. Several names may carry one URI; the entry inserted last answers for it or, when that one
moves on to another URI, the first that still has it.
-/
namespace ServiceMetadata

structure VocabularyEntry where
  name : String
  uri : String
  deriving DecidableEq, Repr

abbrev EntryIndex := List (String × Nat)

namespace EntryIndex

def erase (index : EntryIndex) (key : String) : EntryIndex := List.filter (·.1 ≠ key) index

def set (index : EntryIndex) (key : String) (i : Nat) : EntryIndex := (key, i) :: index.erase key

end EntryIndex

structure Vocabulary where
  entries : List VocabularyEntry
  places : EntryIndex
  /-- The entry that answers for each URI. -/
  holders : EntryIndex
  deriving DecidableEq, Repr

namespace Vocabulary

def empty : Vocabulary := { entries := [], places := [], holders := [] }

def firstWithUri (entries : List VocabularyEntry) (uri : String) : Option Nat :=
  entries.findIdx? (·.uri = uri)

/-- The index after the entry with number `i` has given up `uri`: if it answered for `uri`, the
first other entry that carries it does so now. -/
def release (holders : EntryIndex) (entries : List VocabularyEntry) (uri : String) (i : Nat) :
    EntryIndex :=
  if holders.lookup uri = some i then
    match firstWithUri entries uri with
    | some j => holders.set uri j
    | none => holders.erase uri
  else holders

def insert (v : Vocabulary) (e : VocabularyEntry) : Vocabulary :=
  match v.places.lookup e.name with
  | none =>
    { entries := v.entries ++ [e]
      places := v.places.set e.name v.entries.length
      holders := v.holders.set e.uri v.entries.length }
  | some i =>
    let entries := v.entries.set i e
    match v.entries[i]? with
    | none => v
    | some old =>
      { v with entries, holders := (release v.holders entries old.uri i).set e.uri i }

def insertAll (v : Vocabulary) (es : List VocabularyEntry) : Vocabulary := es.foldl insert v

def ofEntries (es : List VocabularyEntry) : Vocabulary := empty.insertAll es

/-- Lays `w` over `v`: its entries win where names clash. -/
def extend (v w : Vocabulary) : Vocabulary := v.insertAll w.entries

def getByName (v : Vocabulary) (name : String) : Option VocabularyEntry :=
  (v.places.lookup name).bind fun i => v.entries[i]?

def getByUri (v : Vocabulary) (uri : String) : Option VocabularyEntry :=
  (v.holders.lookup uri).bind fun i => v.entries[i]?

def uriStart : List Char := ['h', 't', 't', 'p']

def isUri (key : String) : Bool := uriStart.isPrefixOf key.toList

/-- The URI that a name or URI stands for. What is not in the vocabulary stands for itself. -/
def resolve (v : Vocabulary) (key : String) : String :=
  if isUri key then key
  else
    match (v.getByName key).or (v.getByUri key) with
    | some e => e.uri
    | none => key

def resolve? (v : Vocabulary) (key : String) : Option String :=
  if key = "" then none else some (v.resolve key)

def resolveAll (v : Vocabulary) (keys : List String) : List String :=
  (keys.filter (· ≠ "")).map v.resolve

def size (v : Vocabulary) : Nat := v.entries.length

end Vocabulary
end ServiceMetadata
