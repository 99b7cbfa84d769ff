import ServiceMetadata.Command.Arguments
import ServiceMetadata.Vocabulary.File
import ServiceMetadata.Vocabulary.Standard

/-! # Running commands

A command reads what it needs from a file tree, may change the tree, and answers with an exit code,
what it prints, and what it reports line by line. -/
namespace ServiceMetadata

structure Response where
  exitCode : Nat
  output : String
  messages : List String
  deriving DecidableEq

namespace Response

def printed (output : String) : Response := { exitCode := 0, output, messages := [] }

def aborted (doing : String) (cause : Error) : Response :=
  { exitCode := 1
    output := ""
    messages := ["Error: " ++ doing, "", "Caused by:", "    " ++ cause.message] }

end Response

def programVersion : String := "lappsmeta 0.3.0"

def programHelp : List String := [
  "Generate LAPPS service and data source metadata descriptors",
  "",
  "Usage: lappsmeta [-v]... <COMMAND>",
  "",
  "Commands:",
  "  generate <MANIFEST> [-o <OUT>] [--workdir <DIR>] [--vocab <FILE>]",
  "  vocab lookup <KEY> [--vocab <FILE>]",
  "  vocab list [--vocab <FILE>]",
  "  version [--workdir <DIR>] [--kind service|data-source]"]

namespace Command

def nameColumn : Nat := 24

def padName (name : String) : String :=
  String.ofList (name.toList ++ List.replicate (nameColumn - name.toList.length) ' ')

def entryLine (e : VocabularyEntry) : String := padName e.name ++ " " ++ e.uri ++ "\n"

/-- The standard vocabulary, with the one in a file laid over it if a file is given. -/
def vocabularyWith (t : FileTree) : Option String → Except Error Vocabulary
  | none => .ok Vocabulary.standard
  | some path =>
    match Vocabulary.load t path with
    | .ok v => .ok (Vocabulary.standard.extend v)
    | .error e => .error e

def loadingVocabulary (path : Option String) : String := "loading vocabulary " ++ path.getD ""

def summary (r : Report) : String :=
  (if r.isClean then "ok" else "done") ++ " " ++ toString r.written.length ++ " written, " ++
    toString r.skipped.length ++ " skipped, " ++ toString r.failed.length ++ " failed"

def reportLines (r : Report) : List String :=
  (r.written.map fun path => "wrote " ++ path) ++
    (r.skipped.map fun name => "skipped " ++ name ++ " (not a concrete class)") ++
    (r.failed.map fun (name, cause) => "failed " ++ name ++ ": " ++ cause.message) ++ [summary r]

def runGenerate (t : FileTree) (manifest outputRoot workingDirectory : String)
    (vocabularyPath : Option String) : Response × FileTree :=
  match Manifest.load t manifest with
  | .error e => (.aborted ("reading manifest " ++ manifest) e, t)
  | .ok m =>
    match vocabularyWith t vocabularyPath with
    | .error e => (.aborted (loadingVocabulary vocabularyPath) e, t)
    | .ok vocabulary =>
      match ({ vocabulary, outputRoot, workingDirectory } : Batch).run t m.elements with
      | (.error e, t) => (.aborted "metadata generation aborted" e, t)
      | (.ok r, t) => ({ exitCode := 0, output := "", messages := reportLines r }, t)

def run (t : FileTree) : Command → Response × FileTree
  | .generate manifest outputRoot workingDirectory vocabulary =>
    runGenerate t manifest outputRoot workingDirectory vocabulary
  | .lookup key path =>
    match vocabularyWith t path with
    | .error e => (.aborted (loadingVocabulary path) e, t)
    | .ok v => (.printed (v.resolve key ++ "\n"), t)
  | .list path =>
    match vocabularyWith t path with
    | .error e => (.aborted (loadingVocabulary path) e, t)
    | .ok v => (.printed (String.join (v.entries.map entryLine)), t)
  | .version workingDirectory kind =>
    let version := ({ tree := t, directory := workingDirectory } : Project).version kind none
    (.printed (version.getD "unknown" ++ "\n"), t)

def reads : Command → List String
  | .generate manifest _ workingDirectory vocabulary =>
    manifest :: vocabulary.toList ++ versionPaths workingDirectory
  | .lookup _ vocabulary | .list vocabulary => vocabulary.toList
  | .version workingDirectory _ => versionPaths workingDirectory

/-- The paths that a command may write, given the files that it reads. -/
def writes (t : FileTree) : Command → List String
  | .generate manifest outputRoot _ _ =>
    match Manifest.load t manifest with
    | .error _ => []
    | .ok m => outputRoot :: m.classes.map fun d => Batch.pathOf outputRoot d.name
  | _ => []

end Command

def Request.run (t : FileTree) : Request → Response × FileTree
  | .command c => c.run t
  | .showVersion => (.printed (programVersion ++ "\n"), t)
  | .showHelp => (.printed ("\n".intercalate programHelp ++ "\n"), t)
  | .misuse =>
    let messages := "error: the arguments make no command" :: "" :: programHelp
    ({ exitCode := 2, output := "", messages }, t)

end ServiceMetadata
