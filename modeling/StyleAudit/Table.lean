/-!
# Tables in insertion order

A table is a list of keys with their values. A key that is assigned again keeps its place and takes
the new value, and a new key goes to the end. Keys are strings unless another type is given.
-/

namespace StyleAudit

abbrev Table (β : Type) (κ : Type := String) := List (κ × β)

namespace Table

variable {β κ : Type} [BEq κ]

def keys (t : Table β) : List String :=
  t.map Prod.fst

/-- The value of a key. -/
def find? (t : Table β κ) (key : κ) : Option β :=
  List.lookup key t

def contains (t : Table β) (key : String) : Bool :=
  (t.find? key).isSome

/-- Assigns a value to a key. -/
def put : Table β κ → κ → β → Table β κ
  | [], key, b => [(key, b)]
  | (k, a) :: t, key, b => if k == key then (k, b) :: t else (k, a) :: put t key b

/-- Assigns a value to a key that has none. -/
def putNew (t : Table β) (key : String) (b : β) : Table β :=
  if t.contains key then t else t ++ [(key, b)]

/-- Changes the value of a key, which is `default` if the key is new. -/
def alter : Table β → String → (default : β) → (β → β) → Table β
  | [], key, default, f => [(key, f default)]
  | (k, a) :: t, key, default, f =>
    if k == key then (k, f a) :: t else (k, a) :: alter t key default f

/-- The table of a list of assignments. -/
def ofList (assignments : List (κ × β)) : Table β κ :=
  assignments.foldl (fun t a => t.put a.1 a.2) []

end Table

/-- Adds a name to a list of distinct names. -/
def addName (names : List String) (name : String) : List String :=
  if names.contains name then names else names ++ [name]

/-- Adds names to a list of distinct names. -/
def addNames (names more : List String) : List String :=
  more.foldl addName names

end StyleAudit
