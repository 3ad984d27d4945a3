import StyleAudit.Text.Blank

/-!
# Paths

Paths are texts with `/` between their components. A path is absolute if it begins with `/`; exactly
two slashes at the front are kept apart from one. `normal` removes what can be removed by looking at
the text alone, `tidy` only the empty and the `.` components.
-/

namespace StyleAudit.Path

open StyleAudit.Text

/-- The components between the slashes, empty ones included. -/
def components (path : String) : List String :=
  (splitWhere (· == '/') path.toList).map String.ofList

def isAbsolute (path : String) : Bool :=
  path.toList.head? == some '/'

/-- The slashes at the front that belong to the path: none, one, or exactly two. -/
def rootText (path : String) : String :=
  match path.toList with
  | '/' :: '/' :: '/' :: _ => "/"
  | '/' :: '/' :: _ => "//"
  | '/' :: _ => "/"
  | _ => ""

/-- A root and components written as a path. -/
def ofComponents (root : String) (parts : List String) : String :=
  let text := root ++ String.intercalate "/" parts
  if text.isEmpty then "." else text

/-- A path taken from a directory; an absolute path stands on its own. -/
def join (directory path : String) : String :=
  if isAbsolute path then path
  else if directory.isEmpty || directory.toList.getLast? == some '/' then directory ++ path
  else directory ++ "/" ++ path

/-- Adds a component to those already normalised, which are given last first. A `..` takes the
component before it away, and is dropped at the root. -/
def pushComponent (absolute : Bool) (parts : List String) (part : String) : List String :=
  if part.isEmpty || part == "." then parts
  else if part != ".." then part :: parts
  else match parts with
    | [] => if absolute then [] else [part]
    | p :: above => if p == ".." then part :: p :: above else above

/-- The shortest path that reads the same as text. -/
def normal (path : String) : String :=
  let parts := (components path).foldl (pushComponent (isAbsolute path)) []
  ofComponents (rootText path) parts.reverse

/-- The path without empty and `.` components; `..` stays. -/
def tidy (path : String) : String :=
  ofComponents (rootText path) ((components path).filter fun p => !p.isEmpty && p != ".")

/-- The normal absolute form of a path, seen from the directory `cwd`. -/
def absolute (cwd path : String) : String :=
  normal (join cwd path)

/-- The place that a path names where there are no links, seen from `cwd`. Two slashes at the front
name the same place as one. -/
def real (cwd path : String) : String :=
  let full := absolute cwd path
  if rootText full == "//" then String.ofList (full.toList.drop 1) else full

/-- Why nothing can be done with a path. -/
inductive Error where
  | empty
  | embeddedNul
deriving DecidableEq, Repr

def Error.message : Error → String
  | .empty => "no path specified"
  | .embeddedNul => "embedded null byte"

/-- The place that a path names, which cannot be looked up if there is a NUL in it. -/
def place (cwd path : String) : Except Error String :=
  if path.toList.contains '\x00' then .error .embeddedNul else .ok (real cwd path)

/-- What follows the last slash. -/
def baseName (path : String) : String :=
  String.ofList (path.toList.reverse.takeWhile (· != '/')).reverse

/-- What is before the last slash, without the slashes at its end unless there is nothing else. -/
def directory (path : String) : String :=
  let head := path.toList.reverse.dropWhile (· != '/')
  let stripped := head.dropWhile (· == '/')
  String.ofList (if stripped.isEmpty then head else stripped).reverse

/-- Removes the longest common front of two lists. -/
def dropCommon : List String → List String → List String × List String
  | a :: as, b :: bs => if a == b then dropCommon as bs else (a :: as, b :: bs)
  | as, bs => (as, bs)

/-- The way from the directory `start` to `path`, both seen from `cwd`. An empty path is refused
before (`Error.empty`). -/
def relative (cwd path start : String) : String :=
  let parts := fun p => (components (absolute cwd p)).filter (! ·.isEmpty)
  let (up, down) := dropCommon (parts start) (parts path)
  ofComponents "" (up.map (fun _ => "..") ++ down)

/-- The last component, or nothing for a root. -/
def name (path : String) : String :=
  (((components path).filter fun p => !p.isEmpty && p != ".").getLast?).getD ""

/-- The last dot of the name and what follows it. A dot at either end of the name begins no suffix. -/
def suffix (path : String) : String :=
  let reversed := (name path).toList.reverse
  let after := reversed.takeWhile (· != '.')
  let before := (reversed.dropWhile (· != '.')).drop 1
  if after.isEmpty || before.isEmpty || after.length == reversed.length then ""
  else String.ofList ('.' :: after.reverse)

end StyleAudit.Path
