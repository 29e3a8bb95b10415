import Lc3.CommandLine.Argument
import Lc3.Numeral

/-! # Commands

What the user can ask for. A path alone asks for a run without options; the names of commands are
recognised in its place until two dashes say that only paths follow. -/

namespace Lc3.CommandLine

structure RunOptions where
  minimal : Bool := false
  supervisor : Bool := false
  limit : Option Nat := none
  /-- In the order given, as are the dumps. -/
  pokes : List String := []
  dumps : List String := []
deriving Repr, DecidableEq

inductive Command where
  | welcome
  | version
  | help
  | run (path : String) (options : RunOptions)
  | check (path : String)
deriving Repr, DecidableEq

/-- The path and the options of a command as far as they have been given. -/
structure Draft where
  path : Option String := none
  options : RunOptions := {}

namespace Draft

def setPath (d : Draft) (text : String) : Except UsageError Draft :=
  if text.isEmpty then .error .pathEmpty
  else if d.path.isSome then .error (.pathUnexpected text)
  else .ok { d with path := some text }

/-- Flags and the limit can be given once, pokes and dumps any number of times. -/
def setClause (d : Draft) : Clause → Except UsageError Draft
  | .path text => d.setPath text
  | .flag .minimal =>
    if d.options.minimal then .error (.repeated Flag.minimal.name)
    else .ok { d with options.minimal := true }
  | .flag .supervisor =>
    if d.options.supervisor then .error (.repeated Flag.supervisor.name)
    else .ok { d with options.supervisor := true }
  | .setting .limit value =>
    match Numeral.read? 10 UInt64.size value.toList with
    | none => .error (.valueMalformed Setting.limit.name value)
    | some limit =>
      if d.options.limit.isSome then .error (.repeated Setting.limit.name)
      else .ok { d with options.limit := some limit }
  | .setting .poke value => .ok { d with options.pokes := d.options.pokes ++ [value] }
  | .setting .dump value => .ok { d with options.dumps := d.options.dumps ++ [value] }

/-- For a command that takes nothing but a path. -/
def setPathOnly (d : Draft) : Clause → Except UsageError Draft
  | .path text => d.setPath text
  | .flag flag => .error (.unknownOption flag.name)
  | .setting s _ => .error (.unknownOption s.name)

/-- Takes the arguments in by `set`. The first mistake or call for help settles the command. -/
def complete (set : Draft → Clause → Except UsageError Draft)
    (command : String → RunOptions → Command) :
    Draft → List (Except UsageError Argument) → Except UsageError Command
  | d, [] =>
    match d.path with
    | none => .error .pathMissing
    | some path => .ok (command path d.options)
  | _, .error e :: _ => .error e
  | _, .ok .help :: _ => .ok .help
  | d, .ok (.clause clause) :: rest =>
    match set d clause with
    | .error e => .error e
    | .ok d => complete set command d rest

end Draft

namespace Command

def ofPath? : Option String → Command
  | none => welcome
  | some path => run path {}

/-- The command when only paths follow. -/
def ofPaths (d : Draft) : List String → Except UsageError Command
  | [] => .ok (ofPath? d.path)
  | text :: rest =>
    match d.setPath text with
    | .error e => .error e
    | .ok d => ofPaths d rest

/-- Help can be asked for on one command, by its name. -/
def ofTopics : List String → Except UsageError Command
  | [] | ["run"] | ["check"] | ["help"] => .ok help
  | topics => .error (.unknownTopic (" ".intercalate topics))

/-- The command in arguments that come after the path in `d`, if there is one. A path before the
name of a command means nothing. -/
def ofArguments (d : Draft) : List String → Except UsageError Command
  | [] => .ok (ofPath? d.path)
  | text :: rest =>
    match text with
    | "run" => Draft.complete Draft.setClause run {} (Argument.readAll rest)
    | "check" =>
      Draft.complete Draft.setPathOnly (fun path _ => check path) {} (Argument.readAll rest)
    | "help" => ofTopics rest
    | "--" => ofPaths d rest
    | "--version" => .ok version
    | "--help" => .ok help
    | _ =>
      match text.toList with
      | '-' :: 'V' :: _ => .ok version
      | '-' :: 'h' :: _ => .ok help
      | '-' :: _ :: _ => .error (.unknownOption text)
      | _ =>
        match d.setPath text with
        | .error e => .error e
        | .ok d => ofArguments d rest

/-- The file that the command reads. -/
def path? : Command → Option String
  | run path _ | check path => some path
  | _ => none

def parse (arguments : List String) : Except UsageError Command :=
  ofArguments {} arguments

end Command
end Lc3.CommandLine
