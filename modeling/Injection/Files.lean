import Injection.Error
import Injection.Path.Basic

/-! # Files

A directory tree holds files by the names that lead to them from its root, with their bytes.  Every
name on the way to a file, or to the current directory, is that of a folder; other empty folders are
listed on their own.  There are no links.

What a path leads to is a matter of the tree alone.  Beyond that the operating system may refuse any
step on a path, for reasons of its own (`Refusals`).

The steps are those that `transform_file` and `transform_directory` of `TransformService` take.
-/

namespace Injection

/-- The names that lead to a file or folder. -/
abbrev Names := List String

structure Files where
  files : List (Names × Bytes)
  folders : List Names
  /-- The current directory. -/
  here : Names
deriving DecidableEq, Repr

namespace Files

/-- A tree without files, at its root. -/
def empty : Files := ⟨[], [], []⟩

/-- The bytes of a file. -/
def get? (fs : Files) (p : Names) : Option Bytes := fs.files.lookup p

/-- Write a file. -/
def put (fs : Files) (p : Names) (bytes : Bytes) : Files :=
  { fs with files := Assoc.assign p bytes fs.files }

/-- A file holds what was written to it. -/
@[simp] theorem get?_put_self (fs : Files) (p : Names) (bytes : Bytes) :
    (fs.put p bytes).get? p = some bytes := Assoc.lookup_assign_self p bytes fs.files

/-- Writing a file leaves the others alone. -/
theorem get?_put_of_ne {p q : Names} (h : q ≠ p) (fs : Files) (bytes : Bytes) :
    (fs.put p bytes).get? q = fs.get? q := Assoc.lookup_assign_of_ne h bytes fs.files

/-- Make a folder. -/
def addFolder (fs : Files) (p : Names) : Files := { fs with folders := fs.folders ++ [p] }

/-- Whether `p` leads to a folder. -/
def isFolder (fs : Files) (p : Names) : Bool :=
  p.isPrefixOf fs.here || fs.folders.any (p.isPrefixOf ·) ||
    fs.files.any fun f => p.isPrefixOf f.1 && p.length < f.1.length

/-- What a path leads to. -/
inductive Place where
  | file (names : Names) (bytes : Bytes)
  | folder (names : Names)

/-- The greatest number of bytes of a name. -/
def nameLimit : Nat := 255

/-- The greatest number of bytes of a whole path. -/
def pathLimit : Nat := 4095

/-- Follow names from a folder; `text` is the path that messages show.  The root is its own parent.
-/
def follow (fs : Files) (text : String) (current : Names) : List String → Except Failure Place
  | [] => .ok (.folder current)
  | name :: names =>
    if name = ".." then follow fs text current.dropLast names
    else if nameLimit < name.utf8ByteSize then .error (.nameTooLong text)
    else
      let next := current ++ [name]
      match fs.get? next with
      | some bytes => if names.isEmpty then .ok (.file next bytes) else .error (.notDirectory text)
      | none => if fs.isFolder next then follow fs text next names else .error (.missing text)

/-- Where a path starts: at the root of the tree if it has one, or else at the current directory. -/
def start (fs : Files) (p : Path) : Names := if p.root = .none then fs.here else []

/-- What a path leads to. -/
def locate (fs : Files) (p : Path) : Except Failure Place :=
  if p.text.toList.contains '\x00' then .error .nullInPath
  else if pathLimit < p.text.utf8ByteSize then .error (.nameTooLong p.text)
  else follow fs p.text (fs.start p) p.names

/-- What a path leads to, if anything; a path that is too long is refused even so. -/
def locate? (fs : Files) (p : Path) : Except Failure (Option Place) :=
  match fs.locate p with
  | .ok place => .ok (some place)
  | .error (.nameTooLong text) => .error (.nameTooLong text)
  | .error _ => .ok none

def isFile (fs : Files) (p : Path) : Except Failure Bool := do
  match ← fs.locate? p with
  | some (.file ..) => return true
  | _ => return false

def isDirectory (fs : Files) (p : Path) : Except Failure Bool := do
  match ← fs.locate? p with
  | some (.folder _) => return true
  | _ => return false

/-- The order of names, name by name. -/
def namesLe : Names → Names → Bool
  | [], _ => true
  | _ :: _, [] => false
  | a :: as, b :: bs => if a = b then namesLe as bs else a < b

/-- The files below a folder by the names that lead to them from there, sorted. -/
def below (fs : Files) (folder : Names) : List Names :=
  ((fs.files.filter fun f => folder.isPrefixOf f.1).map fun f => f.1.drop folder.length).mergeSort
    namesLe

/-- The folders below a folder by the names that lead to them from there.  One that holds other
folders alone is not listed: it is on the way to these. -/
def foldersBelow (fs : Files) (folder : Names) : List Names :=
  ((fs.here :: fs.folders ++ fs.files.map fun f => f.1.dropLast).filter
    fun f => folder.isPrefixOf f).map fun f => f.drop folder.length

/-- The size of a folder itself. -/
def folderSize : Nat := 4096

/-- The number of bytes at a path. -/
def size (fs : Files) (p : Path) : Except Failure Nat := do
  match ← fs.locate p with
  | .file _ bytes => return bytes.length
  | .folder _ => return folderSize

/-- The bytes at a path. -/
def read (fs : Files) (p : Path) : Except Failure Bytes := do
  match ← fs.locate p with
  | .file _ bytes => return bytes
  | .folder _ => .error (.isDirectory p.text)

/-- The files after writing to a path that leads to a file. -/
def write (fs : Files) (p : Path) (bytes : Bytes) : Files :=
  match fs.locate p with
  | .ok (.file names _) => fs.put names bytes
  | _ => fs

end Files

/-! ## The operating system -/

/-- The steps on a path that the operating system takes part in. -/
inductive Step where
  /-- Ask what there is. -/
  | look
  /-- Open a folder, and list what is in it. -/
  | scan
  | size
  | openToRead
  | read
  /-- Open a file that is to be written, which empties it. -/
  | openToWrite
  | write
deriving DecidableEq, Repr

/-- What the operating system refuses.  No step is taken twice on a path while a file, or the files
of a directory, are transformed, so that a table of steps and paths covers whatever may happen. -/
structure Refusals where
  /-- Why a step on a path is refused, if it is. -/
  reason? : Step → Path → Option String
  /-- Whether the folder at a path may not be opened by its owner's will.  Such a folder is passed
  over with all that is below it. -/
  denies : Path → Bool
  /-- What is in a file after bytes were to be written there and this was refused. -/
  left : Path → Bytes → Bytes

namespace Refusals

/-- Nothing is refused. -/
def none : Refusals := ⟨fun _ _ => .none, fun _ => false, fun _ bytes => bytes⟩

/-- The outcome of a step on a path, unless it is refused. -/
def ask {α : Type} (os : Refusals) (step : Step) (p : Path) (x : Except Failure α) :
    Except Failure α :=
  match os.reason? step p with
  | some reason => .error (.os reason)
  | .none => x

/-- What is in a file after bytes were to be written there. -/
def written (os : Refusals) (p : Path) (bytes : Bytes) : Bytes :=
  if (os.reason? .write p).isSome then os.left p bytes else bytes

/-- Whether a folder that is passed over is on the way along names. -/
def hides (os : Refusals) (p : Path) : Names → Bool
  | [] => false
  | name :: names => os.denies p || os.hides (p.append [name]) names

/-- Why the folders on the way along names cannot be listed, if so: one of them is refused, or its
path is too long. -/
def unlisted? (os : Refusals) (p : Path) (names : Names) : Option Failure :=
  if os.denies p then .none
  else
    match os.reason? .scan p, names with
    | some reason, _ => some (.os reason)
    | .none, [] => .none
    | .none, name :: names =>
      let next := p.append [name]
      if Files.pathLimit < next.text.utf8ByteSize then some (.nameTooLong next.text)
      else os.unlisted? next names

/-- The files below a path, sorted; none when it leads to no folder.  To list them, all folders
below the path are opened. -/
def list (os : Refusals) (fs : Files) (p : Path) : Except Failure (List Names) := do
  match ← fs.locate? p with
  | some (.folder folder) =>
    match (fs.foldersBelow folder).findSome? (os.unlisted? p) with
    | some f => .error f
    | .none => return (fs.below folder).filter fun names => !os.hides p names
  | _ => return []

end Refusals

end Injection
