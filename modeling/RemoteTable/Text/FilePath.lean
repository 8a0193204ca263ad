/-!
# File paths

The parts of a path that name a file. Components are separated by slashes; empty components and the
component `.` do not count. The stem of a file name ends at its last point, unless the name begins
there.
-/

namespace RemoteTable

namespace FilePath

/-- Splits characters at every slash. -/
def splitSlashes : List Char → List (List Char)
  | [] => [[]]
  | c :: cs =>
    match splitSlashes cs with
    | [] => [[c]]
    | part :: parts => if c = '/' then [] :: part :: parts else (c :: part) :: parts

/-- The components that count. -/
def components (path : List Char) : List (List Char) :=
  (splitSlashes path).filter fun part => part ≠ [] ∧ part ≠ ['.']

/-- The last component, unless there is none or it leads upwards. -/
def fileName? (path : List Char) : Option (List Char) :=
  (components path).getLast?.filter fun name => name ≠ ['.', '.']

/-- The file name without its extension. -/
def stemOf (name : List Char) : List Char :=
  match name.reverse.dropWhile fun c => c ≠ '.' with
  | [] | ['.'] => name
  | _ :: stem => stem.reverse

/-- The stem of the last component, if there is one. -/
def stem? (path : List Char) : Option (List Char) :=
  (fileName? path).map stemOf

end FilePath

end RemoteTable
