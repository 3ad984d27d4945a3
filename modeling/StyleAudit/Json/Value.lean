import StyleAudit.Numeric.Shortest
import StyleAudit.Table
import StyleAudit.Text.Code

/-!
# JSON values

Objects are tables in insertion order, and whole numbers are told apart from other numbers. Strings
and keys are texts by code points, since halves of surrogate pairs may be escaped one by one.
`display` is the text of a value in messages, `label` the name of its kind there.
-/

namespace StyleAudit

inductive Json where
  | null
  | bool (b : Bool)
  | int (n : Int)
  | float (x : Binary64)
  | string (s : CodeText)
  | array (elements : List Json)
  | object (entries : List (CodeText × Json))
deriving Inhabited

namespace Json

/-- The entries of an object. -/
abbrev Entries := Table Json CodeText

/-- The kind of a value. -/
inductive Kind where
  | null
  | bool
  | int
  | float
  | string
  | array
  | object
deriving DecidableEq, Repr

/-- The name of a kind in messages. -/
def Kind.label : Kind → String
  | .null => "NoneType"
  | .bool => "bool"
  | .int => "int"
  | .float => "float"
  | .string => "str"
  | .array => "list"
  | .object => "dict"

def kind : Json → Kind
  | .null => .null
  | .bool _ => .bool
  | .int _ => .int
  | .float _ => .float
  | .string _ => .string
  | .array _ => .array
  | .object _ => .object

/-- Whether a value counts as set: neither absent, false, zero nor empty. -/
def isSet : Json → Bool
  | .null => false
  | .bool b => b
  | .int n => n != 0
  | .float x => !x.isZero
  | .string s => !s.codes.isEmpty
  | .array es => !es.isEmpty
  | .object es => !es.isEmpty

/-- Values without parts in messages. -/
def boolText (b : Bool) : String :=
  if b then "True" else "False"

/-- Texts with `, ` between them. -/
def commaJoined (texts : List String) : String :=
  String.intercalate ", " texts

mutual

/-- The text of a value in messages. -/
def display : Json → String
  | .null => "None"
  | .bool b => boolText b
  | .int n => toString n
  | .float x => x.text
  | .string s => s.quoted
  | .array es => "[" ++ commaJoined (displayAll es) ++ "]"
  | .object es => "\x7b" ++ commaJoined (displayEntries es) ++ "\x7d"

def displayAll : List Json → List String
  | [] => []
  | e :: es => e.display :: displayAll es

def displayEntries : List (CodeText × Json) → List String
  | [] => []
  | e :: es => displayEntry e :: displayEntries es

def displayEntry : CodeText × Json → String
  | (k, v) => k.quoted ++ ": " ++ v.display

end

/-- The text of a value inside a sentence, where a string has no quotes. -/
def inSentence : Json → String
  | .string s => s.shown
  | v => v.display

/-- The value of a key of an object. -/
def find? (key : CodeText) : Json → Option Json
  | .object es => Table.find? es key
  | _ => none

end Json

end StyleAudit
