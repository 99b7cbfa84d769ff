import ServiceMetadata.Batch

/-! # Command lines

A command line names a command, then its options and operands. Options may stand anywhere after the
command they belong to; `--` ends them. `-v` may stand anywhere and be repeated. An option with a
value is given once at the most. -/
namespace ServiceMetadata

inductive Command where
  | generate (manifest outputRoot workingDirectory : String) (vocabulary : Option String)
  | lookup (key : String) (vocabulary : Option String)
  | list (vocabulary : Option String)
  | version (workingDirectory : String) (kind : DescriptorKind)
  deriving DecidableEq

inductive Request where
  | command (c : Command)
  | showVersion
  | showHelp
  | misuse
  deriving DecidableEq

namespace Command

inductive Level where
  | program | generate | vocabulary | lookup | list | version
  deriving DecidableEq

inductive ValueOption where
  | out | workdir | vocab | kind
  deriving DecidableEq

def ValueOption.long : ValueOption → String
  | .out => "out"
  | .workdir => "workdir"
  | .vocab => "vocab"
  | .kind => "kind"

def Level.options : Level → List ValueOption
  | .program | .vocabulary => []
  | .generate => [.out, .workdir, .vocab]
  | .lookup | .list => [.vocab]
  | .version => [.workdir, .kind]

def Level.commands : Level → List (String × Level)
  | .program => [("generate", .generate), ("vocab", .vocabulary), ("version", .version)]
  | .vocabulary => [("lookup", .lookup), ("list", .list)]
  | _ => []

def Level.takesOperand : Level → Bool
  | .generate | .lookup => true
  | _ => false

/-- The program can be asked for its version, but its commands cannot. -/
def Level.showsVersion (l : Level) : Bool := l = .program

def serviceKind : String := "service"
def dataSourceKind : String := "data-source"

def kindNamed (s : String) : Option DescriptorKind :=
  if s = serviceKind then some .service else if s = dataSourceKind then some .dataSource else none

def ValueOption.accepts (o : ValueOption) (value : String) : Bool :=
  match o with
  | .kind => (kindNamed value).isSome
  | _ => value ≠ ""

def Level.acceptsOperand (l : Level) (value : String) : Bool := l = .lookup || value ≠ ""

structure Given where
  level : Level
  values : List (ValueOption × String)
  operand : Option String
  pending : Option ValueOption
  ended : Bool

def Given.nothing : Given :=
  { level := .program, values := [], operand := none, pending := none, ended := false }

def Given.set (g : Given) (o : ValueOption) (value : String) : Except Request Given :=
  if (g.values.lookup o).isSome || !o.accepts value then .error .misuse
  else .ok { g with values := (o, value) :: g.values, pending := none }

def Given.setOperand (g : Given) (value : String) : Except Request Given :=
  if g.level.takesOperand && g.operand.isNone && g.level.acceptsOperand value then
    .ok { g with operand := some value }
  else .error .misuse

def Given.readLong (g : Given) (text : List Char) : Except Request Given :=
  let name := String.ofList (text.takeWhile (· ≠ '='))
  let value := (text.dropWhile (· ≠ '=')).tail?.map String.ofList
  match name, value with
  | "verbose", none => .ok g
  | "help", none => .error .showHelp
  | "version", none => .error (if g.level.showsVersion then .showVersion else .misuse)
  | _, _ =>
    match g.level.options.find? (·.long = name), value with
    | none, _ => .error .misuse
    | some o, some v => g.set o v
    | some o, none => .ok { g with pending := some o }

/-- Short options, which may share one dash; the rest of the text after `o` is its value. -/
def Given.readShort (g : Given) : List Char → Except Request Given
  | [] => .ok g
  | 'v' :: rest => g.readShort rest
  | 'h' :: _ => .error .showHelp
  | 'V' :: _ => .error (if g.level.showsVersion then .showVersion else .misuse)
  | 'o' :: rest =>
    if .out ∈ g.level.options then
      match rest with
      | [] => .ok { g with pending := some .out }
      | '=' :: value => g.set .out (String.ofList value)
      | value => g.set .out (String.ofList value)
    else .error .misuse
  | _ :: _ => .error .misuse

def Given.read (g : Given) (arg : String) : Except Request Given :=
  if g.ended then g.setOperand arg
  else
    match arg.toList, g.pending with
    | ['-', '-'], none => .ok { g with ended := true }
    | '-' :: '-' :: text, none => g.readLong text
    | '-' :: c :: text, none => g.readShort (c :: text)
    | '-' :: _ :: _, some _ => .error .misuse
    | _, some o => g.set o arg
    | _, none => g.setOperand arg

def helpOn (l : Level) : List String → Request
  | [] => .showHelp
  | name :: rest =>
    match l.commands.lookup name with
    | some below => helpOn below rest
    | none => if name = "help" && !l.commands.isEmpty && rest.isEmpty then .showHelp else .misuse

def Given.request (g : Given) : Request :=
  let vocabulary := g.values.lookup .vocab
  let workdir := (g.values.lookup .workdir).getD defaultWorkingDirectory
  if g.pending.isSome then .misuse
  else
    match g.level, g.operand with
    | .generate, some manifest =>
      let out := (g.values.lookup .out).getD defaultOutputRoot
      .command (.generate manifest out workdir vocabulary)
    | .lookup, some key => .command (.lookup key vocabulary)
    | .list, _ => .command (.list vocabulary)
    | .version, _ =>
      .command (.version workdir (((g.values.lookup .kind).bind kindNamed).getD .service))
    | _, _ => .misuse

def Given.readAll (g : Given) : List String → Request
  | [] => g.request
  | arg :: rest =>
    let command := if g.ended || g.pending.isSome then none else g.level.commands.lookup arg
    match command with
    | some below => Given.readAll { g with level := below } rest
    | none =>
      if !g.ended && g.pending.isNone && !g.level.commands.isEmpty && arg = "help" then
        helpOn g.level rest
      else
        match g.read arg with
        | .ok g => g.readAll rest
        | .error r => r

end Command

def Request.ofArguments (args : List String) : Request :=
  Command.Given.nothing.readAll args

end ServiceMetadata
