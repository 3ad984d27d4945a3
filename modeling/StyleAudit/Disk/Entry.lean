import StyleAudit.Table

/-!
# Directory trees

An entry is a file with its bytes or a directory of named entries, in whatever order they are
listed.
-/

namespace StyleAudit.Disk

inductive Entry where
  | file (bytes : List UInt8)
  | directory (entries : List (String × Entry))
deriving Inhabited

namespace Entry

def isFile : Entry → Bool
  | .file _ => true
  | .directory _ => false

/-- The entries of a directory; a file has none. -/
def entries : Entry → Table Entry
  | .file _ => []
  | .directory es => es

/-- The tree with an entry put at a place. Directories on the way are made. -/
def put (new : Entry) : List String → Entry → Entry
  | [], _ => new
  | name :: place, e => .directory (e.entries.alter name (.directory []) (put new place))

/-- The tree without the entry at a place. -/
def remove : List String → Entry → Entry
  | [], e => e
  | [name], e => .directory (e.entries.filter (·.1 != name))
  | name :: place, e =>
    match e.entries.find? name with
    | some _ => .directory (e.entries.alter name (.directory []) (remove place))
    | none => e

end Entry

end StyleAudit.Disk
