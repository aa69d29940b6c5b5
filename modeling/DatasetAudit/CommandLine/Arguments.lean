import DatasetAudit.Decimal.Reading
import DatasetAudit.Severity
/-!
The commands of the program and how they are given on the command line. Options have long names;
the value of an option follows it as the next argument or after an equals sign, and does not begin
with a minus sign unless it is one. No option is given twice, except the one for splits.
-/

namespace DatasetAudit.CommandLine

/-- The form in which a result is printed. -/
inductive OutputFormat where
  | json
  | text
deriving DecidableEq, Repr

/-- Audits a dataset and leaves the files of the run in a directory. The number of workers has no
effect on the result, but the system may not grant them. -/
structure AuditCommand where
  data : String
  out : String
  config : Option String := none
  splits : List Split := []
  workers : Nat := 0
  maxImages : Nat := 0
  nearDup : Bool := false
  failOn : Option Severity := none
  noCache : Bool := false
  format : OutputFormat := .json
deriving DecidableEq, Repr

/-- Compares the findings of two runs. -/
structure DiffCommand where
  old : String
  new : String
  threshold : Severity := .high
  format : OutputFormat := .text
deriving DecidableEq, Repr

/-- Explains a run. -/
structure ExplainCommand where
  directory : String
  top : Nat := 5
deriving DecidableEq, Repr

/-- What the program can be told to do. -/
inductive Command where
  | audit (command : AuditCommand)
  | diff (command : DiffCommand)
  | explain (command : ExplainCommand)
deriving DecidableEq, Repr

/-- Why arguments make no command: help or the version is asked for, or they are no good. -/
inductive NoCommand where
  | help
  | version
  | refused
deriving DecidableEq, Repr

/-- The options of one command: how many values each takes, and what it means. `repeatable` names
those that may be given more than once. -/
structure OptionTable (α : Type) where
  flags : List (String × α)
  readers : List (String × (String → Option α))
  repeatable : List String := []

/-- What a single argument is. -/
inductive Token where
  | separator
  | long (name : String) (value : Option String)
  | short (letters : List Char)
  | plain (text : String)
deriving DecidableEq, Repr

/-- The kind of an argument. A minus sign alone is a plain argument. -/
def Token.ofText (text : String) : Token :=
  match text.toList with
  | ['-', '-'] => .separator
  | '-' :: '-' :: rest =>
    let name := String.ofList (rest.takeWhile (· != '='))
    match rest.dropWhile (· != '=') with
    | [] => .long name none
    | _ :: value => .long name (some (String.ofList value))
  | '-' :: letter :: letters => .short (letter :: letters)
  | _ => .plain text

namespace OptionTable

variable {α : Type}

/-- The option of a name with the value that is attached to it, if there is one. Without an
attached value the next argument may be taken; the arguments that are left are given back. -/
def readOption? (table : OptionTable α) (name : String) (attached : Option String)
    (rest : List String) : Option (α × List String) :=
  match table.flags.lookup name, table.readers.lookup name, attached, rest with
  | some option, _, none, rest => some (option, rest)
  | none, some read, some value, rest => (read value).map (·, rest)
  | none, some read, none, next :: rest =>
    match Token.ofText next with
    | .plain value => (read value).map (·, rest)
    | _ => none
  | _, _, _, _ => none

/-- The options in arguments, read from the first to the last; `seen` are the names that must not
come again. The count of steps is the number of arguments. -/
def readAll (table : OptionTable α) : Nat → List String → List String →
    Except NoCommand (List α)
  | _, _, [] => .ok []
  | 0, _, _ :: _ => .error .refused
  | steps + 1, seen, argument :: rest =>
    match Token.ofText argument with
    | .separator => if rest.isEmpty then .ok [] else .error .refused
    | .short ('h' :: _) => .error .help
    | .long "help" none => .error .help
    | .long name attached =>
      match table.readOption? name attached rest with
      | none => .error .refused
      | some (option, rest) =>
        if seen.contains name then .error .refused
        else
          let seen := if table.repeatable.contains name then seen else name :: seen
          (readAll table steps seen rest).map (option :: ·)
    | _ => .error .refused

/-- The options in the arguments of a command. -/
def read (table : OptionTable α) (arguments : List String) : Except NoCommand (List α) :=
  table.readAll arguments.length [] arguments

end OptionTable

/-- A path. -/
def path? (text : String) : Option String :=
  if text.isEmpty then none else some text

/-- A count. -/
def count? (text : String) : Option Nat :=
  Decimal.count? text.toList

/-- A severity. -/
def severity? (text : String) : Option Severity :=
  (Severity.parse text).toOption

/-- Splits with commas between. -/
def splits? (text : String) : Option (List Split) :=
  (text.toList.splitOnP (· == ',')).mapM fun piece => (Split.parse (String.ofList piece)).toOption

/-- A form of output. -/
def format? (text : String) : Option OutputFormat :=
  match text with
  | "json" => some .json
  | "text" => some .text
  | _ => none

/-- An option of the audit command. -/
inductive AuditOption where
  | data (path : String)
  | out (path : String)
  | config (path : String)
  | splits (splits : List Split)
  | workers (count : Nat)
  | maxImages (count : Nat)
  | nearDup
  | failOn (severity : Severity)
  | noCache
  | format (format : OutputFormat)
deriving DecidableEq, Repr

/-- The path of the dataset's description, if the option gives it. -/
def AuditOption.data? : AuditOption → Option String
  | .data path => some path
  | _ => none

/-- The directory for the run, if the option gives it. -/
def AuditOption.out? : AuditOption → Option String
  | .out path => some path
  | _ => none

/-- An option of the diff command. -/
inductive DiffOption where
  | old (path : String)
  | new (path : String)
  | threshold (severity : Severity)
  | format (format : OutputFormat)
deriving DecidableEq, Repr

/-- The old run, if the option gives it. -/
def DiffOption.old? : DiffOption → Option String
  | .old path => some path
  | _ => none

/-- The new run, if the option gives it. -/
def DiffOption.new? : DiffOption → Option String
  | .new path => some path
  | _ => none

/-- An option of the explain command. -/
inductive ExplainOption where
  | run (path : String)
  | top (count : Nat)
deriving DecidableEq, Repr

/-- The directory of the run, if the option gives it. -/
def ExplainOption.run? : ExplainOption → Option String
  | .run path => some path
  | _ => none

/-- The options of the audit command. -/
def auditTable : OptionTable AuditOption where
  flags := [("near-dup", .nearDup), ("no-cache", .noCache)]
  readers :=
    [("data", fun text => (path? text).map .data), ("out", fun text => (path? text).map .out),
      ("config", fun text => (path? text).map .config),
      ("splits", fun text => (splits? text).map .splits),
      ("workers", fun text => (count? text).map .workers),
      ("max-images", fun text => (count? text).map .maxImages),
      ("fail-on", fun text => (severity? text).map .failOn),
      ("format", fun text => (format? text).map .format)]
  repeatable := ["splits"]

/-- The options of the diff command. -/
def diffTable : OptionTable DiffOption where
  flags := []
  readers :=
    [("old", fun text => (path? text).map .old), ("new", fun text => (path? text).map .new),
      ("fail-on-regression", fun text => (severity? text).map .threshold),
      ("format", fun text => (format? text).map .format)]

/-- The options of the explain command. -/
def explainTable : OptionTable ExplainOption where
  flags := []
  readers :=
    [("run", fun text => (path? text).map .run), ("top", fun text => (count? text).map .top)]

namespace AuditCommand

/-- The command with one option taken in. -/
def takeOption (command : AuditCommand) : AuditOption → AuditCommand
  | .data path => { command with data := path }
  | .out path => { command with out := path }
  | .config path => { command with config := some path }
  | .splits splits => { command with splits := command.splits ++ splits }
  | .workers count => { command with workers := count }
  | .maxImages count => { command with maxImages := count }
  | .nearDup => { command with nearDup := true }
  | .failOn severity => { command with failOn := some severity }
  | .noCache => { command with noCache := true }
  | .format format => { command with format }

/-- The command that options make. The dataset and the directory for the run must be given. -/
def ofOptions (options : List AuditOption) : Except NoCommand AuditCommand :=
  match options.findSome? AuditOption.data?, options.findSome? AuditOption.out? with
  | some data, some out => .ok (options.foldl takeOption { data, out })
  | _, _ => .error .refused

end AuditCommand

namespace DiffCommand

/-- The command with one option taken in. -/
def takeOption (command : DiffCommand) : DiffOption → DiffCommand
  | .old path => { command with old := path }
  | .new path => { command with new := path }
  | .threshold severity => { command with threshold := severity }
  | .format format => { command with format }

/-- The command that options make. Both runs must be given. -/
def ofOptions (options : List DiffOption) : Except NoCommand DiffCommand :=
  match options.findSome? DiffOption.old?, options.findSome? DiffOption.new? with
  | some old, some new => .ok (options.foldl takeOption { old, new })
  | _, _ => .error .refused

end DiffCommand

namespace ExplainCommand

/-- The command with one option taken in. -/
def takeOption (command : ExplainCommand) : ExplainOption → ExplainCommand
  | .run path => { command with directory := path }
  | .top count => { command with top := count }

/-- The command that options make. The run must be given. -/
def ofOptions (options : List ExplainOption) : Except NoCommand ExplainCommand :=
  match options.findSome? ExplainOption.run? with
  | some directory => .ok (options.foldl takeOption { directory })
  | none => .error .refused

end ExplainCommand

/-- The names of the commands, and of the one that asks for help. -/
def commandNames : List String := ["audit", "diff", "explain", "help"]

/-- What a request for help ends in: it may name one command. -/
def readHelp (arguments : List String) : NoCommand :=
  match arguments with
  | [] => .help
  | [name] => if commandNames.contains name then .help else .refused
  | _ => .refused

/-- The command that arguments give. -/
def Command.parse (arguments : List String) : Except NoCommand Command :=
  match arguments with
  | [] => .error .refused
  | "audit" :: rest => (auditTable.read rest >>= AuditCommand.ofOptions).map .audit
  | "diff" :: rest => (diffTable.read rest >>= DiffCommand.ofOptions).map .diff
  | "explain" :: rest => (explainTable.read rest >>= ExplainCommand.ofOptions).map .explain
  | "help" :: rest => .error (readHelp rest)
  | first :: _ =>
    match Token.ofText first with
    | .short ('h' :: _) | .long "help" none => .error .help
    | .short ('V' :: _) | .long "version" none => .error .version
    | _ => .error .refused

end DatasetAudit.CommandLine
