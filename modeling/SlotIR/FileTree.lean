/-!
# Files

A tree of files in memory. It has the directories that every system has, a null device, and a working
directory in which relative paths start. A directory exists as long as a file lies under it.
-/

namespace SlotIR

/-- Why a file cannot be read or written. -/
inductive FileError where
  | notFound
  | isDirectory
  | notDirectory
  | nameTooLong
  | invalidName
  | other (text : String)
deriving DecidableEq, Repr

def FileError.message : FileError → String
  | notFound => "No such file or directory (os error 2)"
  | isDirectory => "Is a directory (os error 21)"
  | notDirectory => "Not a directory (os error 20)"
  | nameTooLong => "File name too long (os error 36)"
  | invalidName => "file name contained an unexpected NUL byte"
  | other text => text

/-- Files under the components of their absolute paths. -/
structure FileTree where
  files : List (List String × String) := []
deriving DecidableEq, Repr

namespace FileTree

/-! ## Surroundings -/

/-- Where relative paths start. -/
def workingDirectory : List String := ["tmp", "session"]

/-- Directories that exist without files under them. -/
def systemDirectories : List (List String) :=
  [["bin"], ["boot"], ["dev"], ["etc"], ["home"], ["lib"], ["media"], ["mnt"], ["opt"], ["proc"],
   ["root"], ["run"], ["sbin"], ["srv"], ["sys"], ["tmp"], ["usr"], ["var"], ["dev", "pts"],
   ["dev", "shm"], ["proc", "self"], ["usr", "bin"], ["usr", "lib"], ["usr", "local"],
   ["usr", "sbin"], ["usr", "share"], ["var", "lib"], ["var", "log"], ["var", "tmp"]]

/-- The file that is always empty and forgets what is written to it. -/
def nullDevice : List String := ["dev", "null"]

/-- Whether a name lies where the system shows itself and nothing can be made. -/
def isSystemView (name : List String) : Bool :=
  ["proc"].isPrefixOf name || ["sys"].isPrefixOf name

/-- A component of a path has at most this many bytes. -/
def nameLimit : Nat := 255

/-- A path has fewer bytes than this. -/
def pathLimit : Nat := 4096

/-! ## Paths -/

/-- The components of a path. -/
def components (path : String) : List String := path.splitOn "/"

/-- The text in which a name holds its file. -/
def find? (t : FileTree) (name : List String) : Option String :=
  if name = nullDevice then some "" else t.files.lookup name

def isDirectory (t : FileTree) (name : List String) : Bool :=
  name.isPrefixOf workingDirectory || systemDirectories.contains name ||
    t.files.any fun (file, _) => name.length < file.length && name.isPrefixOf file

/-- The name that components lead to from a directory. Each but the last must be a directory, and
above the root is the root. -/
def resolve (t : FileTree) : List String → List String → Except FileError (List String)
  | dir, [] => .ok dir
  | dir, c :: cs =>
    if c = "" ∨ c = "." then resolve t dir cs
    else if c = ".." then resolve t dir.dropLast cs
    else if nameLimit < c.utf8ByteSize then .error .nameTooLong
    else
      let name := dir ++ [c]
      if cs.isEmpty then .ok name
      else if t.isDirectory name then resolve t name cs
      else if (t.find? name).isSome then .error .notDirectory
      else .error .notFound

/-- The name that a path leads to. -/
def locate (t : FileTree) (path : String) : Except FileError (List String) :=
  if path.toList.contains '\x00' then .error .invalidName
  else if path = "" then .error .notFound
  else if pathLimit ≤ path.utf8ByteSize then .error .nameTooLong
  else t.resolve (if path.startsWith "/" then [] else workingDirectory) (components path)

/-! ## Contents -/

/-- A tree with the given files in the working directory. -/
def ofList (files : List (String × String)) : FileTree :=
  ⟨files.map fun (path, text) =>
    (workingDirectory ++ (components path).filter fun c => c ≠ "" ∧ c ≠ ".", text)⟩

def read (t : FileTree) (path : String) : Except FileError String := do
  let name ← t.locate path
  match t.find? name with
  | some text => return text
  | none => .error (if t.isDirectory name then .isDirectory else .notFound)

def write (t : FileTree) (path text : String) : Except FileError FileTree := do
  let name ← t.locate path
  if t.isDirectory name then .error .isDirectory
  else if isSystemView name then .error .notFound
  else if name = nullDevice then return t
  else return ⟨t.files.filter (·.1 ≠ name) ++ [(name, text)]⟩

/-- The files of the working directory that are new or differ from those of an earlier tree, by
name. -/
def changes (t before : FileTree) : List (String × String) :=
  let changed := t.files.filter fun (name, text) =>
    workingDirectory.isPrefixOf name && before.files.lookup name ≠ some text
  let relative := changed.map fun (name, text) =>
    ("/".intercalate (name.drop workingDirectory.length), text)
  relative.mergeSort (·.1 ≤ ·.1)

end FileTree

end SlotIR
