import ServiceMetadata.Error
import ServiceMetadata.FileTree.Basic
import ServiceMetadata.Vocabulary.Basic

/-! # Vocabulary files

A vocabulary file is JSON: a list of entries, each an object with a name and a URI or a list of the
two, or else an object from names to URIs, whose entries come in the order of their names. -/
namespace ServiceMetadata
open ServiceMetadata.Json (Value)

def Json.onlyValue (key : String) (members : List (String × Value)) : Option Value :=
  match members.filter (·.1 = key) with
  | [(_, v)] => some v
  | _ => none

def VocabularyEntry.ofValue? : Value → Option VocabularyEntry
  | .object members =>
    match Json.onlyValue "name" members, Json.onlyValue "uri" members with
    | some (.string name), some (.string uri) => some { name, uri }
    | _, _ => none
  | .array [.string name, .string uri] => some { name, uri }
  | _ => none

inductive VocabularyFile where
  | list (entries : List VocabularyEntry)
  | table (rows : Text.SortedTable)
  deriving DecidableEq

namespace VocabularyFile

def ofMember? : String × Value → Option (String × String)
  | (name, .string uri) => some (name, uri)
  | _ => none

def ofValue? : Value → Option VocabularyFile
  | .array items => (items.mapM VocabularyEntry.ofValue?).map .list
  | .object members =>
    (members.mapM ofMember?).map fun rows => .table (Text.SortedTable.ofRows rows)
  | _ => none

def isBlankEntry (e : VocabularyEntry) : Bool := e.name = "" || e.uri = ""

def vocabulary : VocabularyFile → Except Error Vocabulary
  | .list entries =>
    match entries.find? isBlankEntry with
    | some e => .error (.blankEntry e)
    | none => .ok (Vocabulary.ofEntries entries)
  | .table t => .ok (Vocabulary.ofEntries (t.rows.map fun (name, uri) => { name, uri }))

end VocabularyFile

namespace Vocabulary

/-- The vocabulary in a file with the given symbols. The whole of its first value is read before it
is taken for one form or the other. -/
def ofSymbols (symbols : List Text.Symbol) : Except Error Vocabulary := do
  let reading := Json.readSymbolsAsNode symbols
  match reading.root.value 0 with
  | .error e => throw (.json (.spelling e))
  | .ok value =>
    match VocabularyFile.ofValue? value with
    | none => throw (.json (.data (.noVariant "VocabularyFile")))
    | some file =>
      if reading.more then throw (.json (.spelling .trailingCharacters))
      file.vocabulary

def ofBytes (bytes : ByteArray) : Except Error Vocabulary := ofSymbols (Text.symbols bytes)

def ofString (text : String) : Except Error Vocabulary := ofSymbols (Text.symbolsOfString text)

/-- The vocabulary in a file of the tree. A directory can be opened, but has no bytes. -/
def load (t : FileTree) (path : String) : Except Error Vocabulary :=
  match t.find path with
  | .error e => .error (.file path e)
  | .ok (_, .directory) => .error (.jsonBytes .isDirectory)
  | .ok (_, .file bytes) => ofBytes bytes

end Vocabulary
end ServiceMetadata
