/-!
# File paths

Paths are texts whose components stand between slashes. Slashes at the end, and components `.` after
the first, do not count as part of the file name.
-/

namespace SlotIR.Path

/-- A path read from its end, without what stands after its file name. -/
def trimReversed : List Char → List Char
  | '/' :: cs => trimReversed cs
  | '.' :: '/' :: cs => trimReversed cs
  | cs => cs

/-- What stands before the file name, and the file name. The components `.` and `..` are none. -/
def split? (path : String) : Option (List Char × List Char) :=
  let cs := trimReversed path.toList.reverse
  let name := (cs.takeWhile (· ≠ '/')).reverse
  if name = [] ∨ name = ['.'] ∨ name = ['.', '.'] then none
  else some ((cs.dropWhile (· ≠ '/')).reverse, name)

/-- A file name's stem, and its extension if it has one: what stands after the last point. A point at
the start of the name begins no extension. -/
def splitName (name : List Char) : List Char × Option (List Char) :=
  let extension := (name.reverse.takeWhile (· ≠ '.')).reverse
  let stem := (name.reverse.dropWhile (· ≠ '.')).tail.reverse
  if stem = [] then (name, none) else (stem, some extension)

/-- The stem of the file name. -/
def stem? (path : String) : Option String := do
  let (_, name) ← split? path
  return String.ofList (splitName name).1

/-- The extension of the file name. -/
def extension? (path : String) : Option String := do
  let (_, name) ← split? path
  let extension ← (splitName name).2
  return String.ofList extension

/-- The path up to the stem of its file name, with an extension after it. A path without a file name
stays as it is. -/
def extend (path extension : String) : String :=
  match split? path with
  | none => path
  | some (before, name) =>
    String.ofList (before ++ (splitName name).1) ++ "." ++ extension

/-- The path with another extension. As many characters as the extension has are cut off before the
new one is put after the stem; if only `..` is left, that is the result. -/
def withExtension (path extension : String) : String :=
  let cut := match extension? path with
    | some old => old.length
    | none => 0
  extend (String.ofList (path.toList.take (path.length - cut))) extension

end SlotIR.Path
