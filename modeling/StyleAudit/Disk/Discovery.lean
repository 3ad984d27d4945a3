import StyleAudit.Disk.Basic
import StyleAudit.Text.Case

/-!
# Discovery of files

The files of a project are those below its root that are not hidden and lie in no hidden directory
and no directory of installed packages. They are found in one order, whatever the order of the
listing: the files of a directory by name, then its subdirectories by name.
-/

namespace StyleAudit.Disk

open StyleAudit.Text

/-! ### What is found -/

/-- What a file is read as. -/
inductive Category where
  | style
  | markup
deriving DecidableEq, Repr

/-- The category of a file, by its suffix. -/
def Category.ofPath? (path : String) : Option Category :=
  let suffix := lowered (Path.suffix path)
  if [".css", ".scss", ".less"].contains suffix then some .style
  else if [".jsx", ".tsx"].contains suffix then some .markup
  else none

def isHidden (name : String) : Bool :=
  name.toList.head? == some '.'

/-- Whether a directory is looked into. -/
def isEntered (name : String) : Bool :=
  name != "node_modules" && !isHidden name

/-! ### The walk -/

/-- Names in order. -/
def byName {β : Type} (t : Table β) : Table β :=
  t.mergeSort fun a b => decide (a.1 ≤ b.1)

/-- The files that stand in a directory. -/
def ownFiles (path : String) (es : Table Entry) : List String :=
  let files := es.filter fun (name, e) => e.isFile && !isHidden name
  (byName files).map fun e => Path.join path e.1

mutual

/-- The files in and below the directory at a path. -/
def Entry.files (path : String) : Entry → List String
  | .file _ => []
  | .directory es => ownFiles path es ++ (byName (filesBelow path es)).flatMap Prod.snd

/-- For each subdirectory that is entered, the files in and below it. -/
def filesBelow (path : String) : List (String × Entry) → Table (List String)
  | [] => []
  | e :: es => fileGroup path e ++ filesBelow path es

def fileGroup (path : String) : String × Entry → Table (List String)
  | (name, e) => if !e.isFile && isEntered name then [(name, e.files (Path.join path name))] else []

end

/-- The files of a project by category. -/
structure Findings where
  styles : List String
  markups : List String
deriving DecidableEq, Repr

/-- The files in and below a directory by category. -/
def collect (d : Disk) (base : String) : Findings :=
  let path := Path.real d.cwd base
  let all := match d.locate path with
    | .ok e => e.files path
    | .error _ => []
  ⟨all.filter (Category.ofPath? · == some .style), all.filter (Category.ofPath? · == some .markup)⟩

end StyleAudit.Disk
