import SccSharp.Text.Quoted

/-!
# Files

What a run sees of the files around it: for every path the bytes of a file, or why it cannot be
opened.

A folder and everything in it is such a view. A path leads through it name by name, and every name
has to be read in a directory.

* An empty name and `.` stay in the directory, so that doubled slashes and `./` make no difference.
* `..` goes back to the directory around it, also from the folder itself.
* Any other name is looked up. Outside the folder nothing is found.

## Main Definitions

* `OpenFailure` — why a file cannot be opened
* `Files` — what opening each path gives
* `Folder` — files and directories under their names
* `Folder.open?` — the files that paths lead to from a folder
-/

namespace SccSharp.Command

/-! ### Opening -/

/-- Why a file cannot be opened: the system's number for it and its words. -/
structure OpenFailure where
  number : Nat
  reason : String
  deriving DecidableEq, Repr

namespace OpenFailure

/-- There is no such file. -/
def missing : OpenFailure :=
  ⟨2, "No such file or directory"⟩

/-- The file may not be read. -/
def forbidden : OpenFailure :=
  ⟨13, "Permission denied"⟩

/-- A name is looked up in something that is no directory. -/
def notADirectory : OpenFailure :=
  ⟨20, "Not a directory"⟩

/-- The file is a directory. -/
def directory : OpenFailure :=
  ⟨21, "Is a directory"⟩

/-- The path, or a name in it, is longer than the system takes. -/
def nameTooLong : OpenFailure :=
  ⟨36, "File name too long"⟩

/-- A failure to open the file of a path. The path is shown as it is given. -/
def text (f : OpenFailure) (path : String) : String :=
  "[Errno " ++ toString f.number ++ "] " ++ f.reason ++ ": " ++ Text.quoted path

end OpenFailure

/-- **What opening each path gives**: the bytes of a file, or why it cannot be opened. -/
abbrev Files := String → Except OpenFailure (List UInt8)

/-! ### Folders -/

/-- What stands under a name in a folder. -/
inductive Entry where
  | file (bytes : List UInt8)
  | directory (entries : List (String × Entry))

/-- Files and directories under their names. -/
abbrev Folder := List (String × Entry)

/-- A character in front of a path that is cut into names. -/
def consName (c : Char) : List (List Char) → List (List Char)
  | [] => [[c]]
  | name :: names => if c = '/' then [] :: name :: names else (c :: name) :: names

/-- The names between the slashes of a path. -/
def pathNames (path : String) : List String :=
  (path.toList.foldr consName [[]]).map String.ofList

/-- The most bytes a name may have. -/
def longestName : Nat :=
  255

/-- The most bytes a path may have. -/
def longestPath : Nat :=
  4095

/-- Where a path has led so far: to a file, or to a directory with those around it, the nearest
first. Outside the folder none is left. -/
inductive Position where
  | file (bytes : List UInt8)
  | directory (trail : List Folder)

/-- Where the next name of a path leads. -/
def Position.step : Position → String → Except OpenFailure Position
  | file _, _ => .error .notADirectory
  | directory trail, name =>
      if name = "" ∨ name = "." then .ok (.directory trail)
      else if name = ".." then .ok (.directory trail.tail)
      else if longestName < name.utf8ByteSize then .error .nameTooLong
      else
        match trail.head?.bind (·.lookup name) with
        | none => .error .missing
        | some (.file bytes) => .ok (.file bytes)
        | some (.directory entries) => .ok (.directory (entries :: trail))

/-- Where a path starts: in the folder, or outside it if a slash comes first. -/
def Folder.start (folder : Folder) (path : String) : Position :=
  if path.toList.head? = some '/' then .directory [] else .directory [folder]

/-- **The files that paths lead to** from a folder. -/
def Folder.open? (folder : Folder) : Files := fun path =>
  if path = "" then .error .missing
  else if longestPath < path.utf8ByteSize then .error .nameTooLong
  else
    match (pathNames path).foldlM Position.step (folder.start path) with
    | .error failure => .error failure
    | .ok (.file bytes) => .ok bytes
    | .ok (.directory _) => .error .directory

end SccSharp.Command
