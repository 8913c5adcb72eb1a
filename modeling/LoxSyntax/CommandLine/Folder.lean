import LoxSyntax.CommandLine.Path

/-!
# Folders

A folder holds files and further folders.  A path is followed part by part from a place: two dots lead to the folder
around the place, and any other part has to name something in it.  A place outside the folder holds nothing.

* `readAt_parent`: going into a folder and back leads nowhere else.
* `readAt_outside`: outside the folder no file is found.
-/

namespace LoxSyntax.CommandLine

/-- Why a script cannot be read. -/
inductive ReadFault where
  /-- the path holds a character that no path can hold -/
  | notPath
  /-- the path or a part of it is too long -/
  | nameTooLong
  /-- a part of the path names nothing -/
  | missing
  /-- a part of the path follows a file -/
  | notDirectory
  /-- the path leads to a folder -/
  | directory
  /-- the bytes of the file are no text -/
  | notText
  deriving DecidableEq, Repr

/-- The names that lead to a file or a folder. -/
abbrev Names := List (List Char)

/-- The entries of a folder and of the folders in it, each with the names that lead to it; a file has bytes.  The
folders that lead to an entry need no entries themselves. -/
structure Folder where
  entries : List (Names × Option ByteArray)

namespace Folder

/-- The part of a path that leads to the folder around a place. -/
def upward : List Char := ['.', '.']

/-- The most bytes that a name may have. -/
def longestName : Nat := 255

/-- The most bytes that a path may have. -/
def longestPath : Nat := 4095

/-- Whether a name has more bytes than a name may have. -/
def isTooLong (name : List Char) : Bool := longestName < (String.ofList name).utf8ByteSize

/-- What is found in a folder. -/
inductive Item where
  | file (bytes : ByteArray)
  | folder

/-- What names lead to. -/
def item? (f : Folder) (names : Names) : Option Item :=
  match f.entries.find? (·.1 == names) with
  | some (_, some bytes) => some (.file bytes)
  | some (_, none) => some .folder
  | none => if f.entries.any fun e => names.isPrefixOf e.1 then some .folder else none

/-- The place around a place; a place outside the folder has no names. -/
def parent : Option Names → Option Names
  | none | some [] => none
  | some names => some names.dropLast

/-- Read the file that the parts of a path lead to from a place. -/
def readAt (f : Folder) : Option Names → Names → Except ReadFault ByteArray
  | _, [] => .error .directory
  | place, part :: rest =>
    if part = upward then f.readAt (parent place) rest
    else if isTooLong part then .error .nameTooLong
    else match place with
      | none => .error .missing
      | some names =>
        match f.item? (names ++ [part]) with
        | none => .error .missing
        | some .folder => f.readAt (some (names ++ [part])) rest
        | some (.file bytes) => if rest.isEmpty then .ok bytes else .error .notDirectory

/-- Read the file that a path leads to. -/
def read (f : Folder) (path : String) : Except ReadFault ByteArray :=
  if path.contains '\x00' then .error .notPath
  else if longestPath < path.utf8ByteSize then .error .nameTooLong
  else f.readAt (if isAbsolute path then none else some []) (pathParts path.toList)

theorem readAt_parent {f : Folder} {names : Names} {part : List Char} (h : f.item? (names ++ [part]) = some .folder)
    (hup : part ≠ upward) (hlong : isTooLong part = false) (rest : Names) :
    f.readAt (some names) (part :: upward :: rest) = f.readAt (some names) rest := by
  have e : parent (some (names ++ [part])) = some names := by
    cases names with
    | nil => rfl
    | cons name names => exact congrArg some List.dropLast_concat
  simp [readAt, h, hup, hlong, e]

theorem readAt_outside (f : Folder) (parts : Names) (bytes : ByteArray) : f.readAt none parts ≠ .ok bytes := by
  induction parts with
  | nil => simp [readAt]
  | cons part rest ih =>
    unfold readAt
    split
    · exact ih
    · split <;> simp

end Folder

end LoxSyntax.CommandLine
