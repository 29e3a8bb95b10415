/-! # Files

What reading a named file can give, and a file system that is one directory of files. -/

namespace Lc3

/-- Why a file could not be read. -/
inductive ReadError where
  | missing
  | isDirectory
  /-- The name goes on below a file. -/
  | notDirectory
  | nameTooLong
  | notUtf8
  | other (message : String)
deriving Repr, DecidableEq

def ReadError.message : ReadError → String
  | missing => "No such file or directory (os error 2)"
  | isDirectory => "Is a directory (os error 21)"
  | notDirectory => "Not a directory (os error 20)"
  | nameTooLong => "File name too long (os error 36)"
  | notUtf8 => "stream did not contain valid UTF-8"
  | other message => message

/-- The bytes of the files that can be read, by name. -/
abbrev Files := String → Except ReadError ByteArray

namespace Files

/-- Reads a file as text. -/
def readText (files : Files) (name : String) : Except ReadError String :=
  match files name with
  | .error e => .error e
  | .ok bytes =>
    match String.fromUTF8? bytes with
    | none => .error .notUtf8
    | some text => .ok text

/-! ### Directories that are given

The program reads the one file that its command names. What follows is for carrying out commands
without it, on files that are given with their names. -/

/-- The bytes that the longest component of a name can have. -/
def maxComponent : Nat := 255

/-- The bytes that the longest name can have. -/
def maxName : Nat := 4095

/-- Follows the components of a name from the directory of `entries`, or from `above` it, where
there are directories only. What follows a file, even nothing after a slash, goes on below it. -/
def follow (entries : List (String × ByteArray)) (above : Bool) :
    List String → Except ReadError ByteArray
  | [] => .error .isDirectory
  | component :: rest =>
    if component = "" || component = "." then follow entries above rest
    else if component = ".." then follow entries true rest
    else if component.utf8ByteSize > maxComponent then .error .nameTooLong
    else
      match if above then none else entries.lookup component with
      | none => .error .missing
      | some bytes => if rest.isEmpty then .ok bytes else .error .notDirectory

/-- The files of a working directory without subdirectories. A name that starts with a slash starts
above it. -/
def ofDirectory (entries : List (String × ByteArray)) : Files := fun name =>
  if name.isEmpty then .error .missing
  else if name.utf8ByteSize > maxName then .error .nameTooLong
  else follow entries (name.startsWith "/") (name.splitOn "/")

end Files
end Lc3
