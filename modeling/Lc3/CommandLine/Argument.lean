/-! # Arguments

What the arguments of a command say, one after the other. An option is written by its name after two
dashes or by its letter after one, and letters can share a dash. A value stands in the same argument
as its option or in the next one, and an argument of two dashes makes paths of all that follow it.
-/

namespace Lc3.CommandLine

inductive Flag where
  | minimal
  | supervisor
deriving Repr, DecidableEq

/-- An option that takes a value. -/
inductive Setting where
  | limit
  | poke
  | dump
deriving Repr, DecidableEq

/-- What an argument adds to a command. -/
inductive Clause where
  | path (text : String)
  | flag (flag : Flag)
  | setting (setting : Setting) (value : String)
deriving Repr, DecidableEq

inductive Argument where
  | help
  | clause (clause : Clause)
deriving Repr, DecidableEq

/-- Why the arguments are not a command. -/
inductive UsageError where
  | unknownOption (text : String)
  | unknownTopic (text : String)
  | valueMissing (option : String)
  | valueUnexpected (option : String)
  | valueMalformed (option value : String)
  | repeated (option : String)
  | pathMissing
  | pathEmpty
  | pathUnexpected (text : String)
deriving Repr, DecidableEq

namespace UsageError

def message : UsageError → String
  | unknownOption text => s!"unknown option {text}"
  | unknownTopic text => s!"there is no help on {text}"
  | valueMissing option => s!"{option} needs a value"
  | valueUnexpected option => s!"{option} takes no value"
  | valueMalformed option value => s!"{value} is not a value for {option}"
  | repeated option => s!"{option} is given twice"
  | pathMissing => "a path is missing"
  | pathEmpty => "a path is empty"
  | pathUnexpected text => s!"unexpected path {text}"

end UsageError

namespace Flag

def name : Flag → String
  | minimal => "minimal"
  | supervisor => "supervisor"

end Flag

namespace Setting

def name : Setting → String
  | limit => "limit"
  | poke => "poke"
  | dump => "dump"

def ofName? : String → Option Setting
  | "limit" => some limit
  | "poke" => some poke
  | "dump" => some dump
  | _ => none

def ofLetter? : Char → Option Setting
  | 'l' => some limit
  | 'p' => some poke
  | 'd' => some dump
  | _ => none

end Setting

namespace Argument

/-- The option of that name, if it takes no value. -/
def ofName? : String → Option Argument
  | "minimal" => some (clause (.flag .minimal))
  | "supervisor" => some (clause (.flag .supervisor))
  | "help" => some help
  | _ => none

/-- The option of that letter, if it takes no value. -/
def ofLetter? : Char → Option Argument
  | 'm' => some (clause (.flag .minimal))
  | 's' => some (clause (.flag .supervisor))
  | 'h' => some help
  | _ => none

end Argument

/-- What options are read as: all but the last are complete, and that one may be a setting that
waits for its value. -/
structure Reading where
  complete : List (Except UsageError Argument)
  waiting : Option Setting := none

namespace Reading

def setting (s : Setting) (value : List Char) : Reading where
  complete := [.ok (.clause (.setting s (String.ofList value)))]

/-- The option named by what follows two dashes, up to an equals sign and a value. -/
def ofName (body : List Char) : Reading :=
  let name := String.ofList (body.takeWhile (· ≠ '='))
  match Argument.ofName? name, Setting.ofName? name, body.dropWhile (· ≠ '=') with
  | some argument, _, [] => { complete := [.ok argument] }
  | some _, _, _ => { complete := [.error (.valueUnexpected name)] }
  | none, some s, [] => { complete := [], waiting := some s }
  | none, some s, _ :: value => setting s value
  | none, none, _ => { complete := [.error (.unknownOption name)] }

/-- The options whose letters follow one dash. What follows the letter of a setting is its value,
and an equals sign in between does not count. -/
def ofLetters : List Char → Reading
  | [] => { complete := [] }
  | c :: cs =>
    match Argument.ofLetter? c, Setting.ofLetter? c, cs with
    | some argument, _, cs =>
      let rest := ofLetters cs
      { rest with complete := .ok argument :: rest.complete }
    | none, some s, [] => { complete := [], waiting := some s }
    | none, some s, '=' :: value => setting s value
    | none, some s, value => setting s value
    | none, none, _ => { complete := [.error (.unknownOption (String.singleton c))] }

/-- The options in an argument, if it is not a path. A dash alone is a path. -/
def ofOption? (text : String) : Option Reading :=
  match text.toList with
  | '-' :: '-' :: body => some (ofName body)
  | '-' :: c :: cs => some (ofLetters (c :: cs))
  | _ => none

end Reading

namespace Argument

/-- Reads all arguments. A setting takes the next argument for its value unless that is an option; a
mistake stands in the place of what it spoils. -/
def readAll : List String → List (Except UsageError Argument)
  | [] => []
  | text :: rest =>
    if text = "--" then rest.map fun path => .ok (clause (.path path))
    else
      match Reading.ofOption? text with
      | none => .ok (clause (.path text)) :: readAll rest
      | some ⟨complete, none⟩ => complete ++ readAll rest
      | some ⟨complete, some s⟩ =>
        complete ++ match rest with
          | [] => [.error (.valueMissing s.name)]
          | value :: rest =>
            if (Reading.ofOption? value).isSome then [.error (.valueMissing s.name)]
            else .ok (clause (.setting s value)) :: readAll rest

end Argument
end Lc3.CommandLine
