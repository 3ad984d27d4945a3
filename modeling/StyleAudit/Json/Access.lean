import StyleAudit.Json.Value
import StyleAudit.Numeric.Numeral

/-!
# Reading JSON values as something

A value that is used as a table, a list or a number may be none. `Misuse` says which use failed, and
the functions here either answer or report it.
-/

namespace StyleAudit.Json

/-- A use that a value does not admit. -/
inductive Misuse where
  /-- An operation that values of this kind do not have. -/
  | lacks (kind : Kind) (operation : String)
  | notIndexed (kind : Kind)
  | notListed (kind : Kind)
  /-- Values of this kind cannot be looked up. -/
  | notKey (kind : Kind)
  /-- An object is asked for a position, of which it has none. -/
  | noEntry (position : Nat)
  | notNumeral (text : CodeText)
  | notNumber (kind : Kind)
  | integerTooLarge
deriving DecidableEq, Repr

def Misuse.message : Misuse → String
  | .lacks kind operation => "'" ++ kind.label ++ "' object has no attribute '" ++ operation ++ "'"
  | .notIndexed kind => "'" ++ kind.label ++ "' object is not subscriptable"
  | .notListed kind => "'" ++ kind.label ++ "' object is not iterable"
  | .notKey kind => "unhashable type: '" ++ kind.label ++ "'"
  | .noEntry position => toString position
  | .notNumeral text => "could not convert string to float: " ++ text.quoted
  | .notNumber kind =>
    "float() argument must be a string or a real number, not '" ++ kind.label ++ "'"
  | .integerTooLarge => "int too large to convert to float"

/-- The entries of an object. -/
def entries : Json → Except Misuse Entries
  | .object es => .ok es
  | v => .error (.lacks v.kind "items")

/-- The value of a key of an object. -/
def get (key : CodeText) : Json → Except Misuse (Option Json)
  | .object es => .ok (Table.find? es key)
  | v => .error (.lacks v.kind "get")

/-- The value if it is set, and an empty object otherwise. -/
def orEmpty : Option Json → Json
  | some v => if v.isSet then v else .object []
  | none => .object []

/-- The first element. -/
def first : Json → Except Misuse Json
  | .array (e :: _) => .ok e
  | .array [] => .ok .null
  | .string s => .ok (.string ⟨s.codes.take 1⟩)
  | .object _ => .error (.noEntry 0)
  | v => .error (.notIndexed v.kind)

/-- The elements of a list, the code points of a text, the keys of an object. -/
def elements : Json → Except Misuse (List Json)
  | .array es => .ok es
  | .string s => .ok (s.codes.map fun c => .string ⟨[c]⟩)
  | .object es => .ok (es.map fun e => .string e.1)
  | v => .error (.notListed v.kind)

/-- The number that a value means; texts are read as numerals. -/
def toNumber : Json → Except Misuse Binary64
  | .bool b => .ok (.ofRatio false (if b then 1 else 0) 1)
  | .int n =>
    match Binary64.ofInt? n with
    | some x => .ok x
    | none => .error .integerTooLarge
  | .float x => .ok x
  | .string s =>
    match s.toString?.bind (Numeral.read? ·.toList) with
    | some x => .ok x
    | none => .error (.notNumeral s)
  | v => .error (.notNumber v.kind)

/-- Whether a value can be looked up in a table. -/
def isKey : Json → Bool
  | .array _ => false
  | .object _ => false
  | _ => true

end StyleAudit.Json
