import StackScript.Fault

/-!
# A working directory as a value

What reading a relative path finds in a directory whose files are known.

* A path is followed name by name.  An empty name and `.` stay in a directory, `..` goes back to
  the one around it; outside the working directory no file is known, so none is found there.
* Going on from a file is a fault, and so is ending at a directory.
* A name has at most 255 bytes of UTF-8 and a path at most 4095, and no path holds the character
  NUL.
* The bytes of a file are a script only if they are valid UTF-8.
-/

set_option autoImplicit false

namespace StackScript

/-- What stands under a name: a file with its bytes, or a directory. -/
inductive Entry where
  | file (bytes : ByteArray)
  | directory

/-- The entries of a working directory, those added last first. -/
structure Directory where
  entries : List (String × Entry)

namespace Directory

def empty : Directory := ⟨[]⟩

/-- Add an entry, in place of one with the same name. -/
def insert (directory : Directory) (name : String) (entry : Entry) : Directory :=
  ⟨(name, entry) :: directory.entries⟩

/-- The name of what is reached from the working directory through these names. -/
def joined (names : List String) : String := String.intercalate "/" names

/-- Is this the start of the path of an entry? -/
def leadsTo (names : List String) (name : String) : Bool :=
  (joined names ++ "/").toList.isPrefixOf name.toList

/-- What is reached from the working directory through these names. -/
def find? (directory : Directory) (names : List String) : Option Entry :=
  match directory.entries.find? fun entry => entry.1 == joined names with
  | some entry => some entry.2
  | none =>
    if directory.entries.any fun entry => leadsTo names entry.1 then some .directory else none

/-- Does the name lead to a directory wherever it stands? -/
def isStep (name : String) : Bool := name == "" || name == "." || name == ".."

/-- The greatest length of a name, in bytes of UTF-8. -/
def longestName : Nat := 255

/-- The greatest length of a path, in bytes of UTF-8. -/
def longestPath : Nat := 4095

/-- What a path leads to from outside the working directory. -/
def outside : List String → ReadProblem
  | [] => .isDirectory
  | name :: path =>
    if isStep name then outside path
    else if longestName < name.utf8ByteSize then .nameTooLong
    else .missing

/-- Follow a path from the directory reached through `names`. -/
def follow (directory : Directory) (names : List String) :
    List String → Except ReadProblem ByteArray
  | [] => .error .isDirectory
  | name :: path =>
    if name = "" ∨ name = "." then follow directory names path
    else if name = ".." then
      if names.isEmpty then .error (outside path) else follow directory names.dropLast path
    else if longestName < name.utf8ByteSize then .error .nameTooLong
    else
      match directory.find? (names ++ [name]) with
      | none => .error .missing
      | some .directory => follow directory (names ++ [name]) path
      | some (.file bytes) => if path.isEmpty then .ok bytes else .error .notDirectory

def readBytes (directory : Directory) (path : String) : Except ReadProblem ByteArray :=
  if path.isEmpty then .error .missing
  else if path.toList.any fun c => c.toNat == 0 then .error .nulInPath
  else if longestPath < path.utf8ByteSize then .error .nameTooLong
  else
    match path.splitOn "/" with
    | "" :: names => .error (outside names)
    | names => directory.follow [] names

end Directory

/-- Bytes as a text. -/
def decodeText (bytes : ByteArray) : Except ReadProblem String :=
  match String.fromUTF8? bytes with
  | some text => .ok text
  | none => .error .notText

/-- The text of the file that a path leads to. -/
def Directory.read (directory : Directory) (path : String) : Except ReadProblem String :=
  match directory.readBytes path with
  | .error problem => .error problem
  | .ok bytes => decodeText bytes

end StackScript
