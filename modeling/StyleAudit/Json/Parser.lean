import StyleAudit.Json.Token

/-!
# Reading JSON

A machine reads the tokens one by one. Its state says what it expects next, inside which open arrays
and objects. The first token that does not fit is reported with its place. Where only so many
brackets may be open at a time, reading also stops at the first bracket that goes deeper.
-/

namespace StyleAudit.Json

/-- What was expected and not found. -/
inductive Cause where
  | value
  | propertyName
  | colon
  | comma
  | ending
  | noByteOrderMark
  | string (fault : StringFault)
deriving DecidableEq, Repr

def Cause.message : Cause → String
  | .value => "Expecting value"
  | .propertyName => "Expecting property name enclosed in double quotes"
  | .colon => "Expecting ':' delimiter"
  | .comma => "Expecting ',' delimiter"
  | .ending => "Extra data"
  | .noByteOrderMark => "Unexpected UTF-8 BOM (decode using utf-8-sig)"
  | .string .unterminated => "Unterminated string starting at"
  | .string .controlCharacter => "Invalid control character at"
  | .string .badEscape => "Invalid \\escape"
  | .string .badCodeEscape => "Invalid \\uXXXX escape"

/-- A bracket that opens a value. -/
inductive Bracket where
  | array
  | object
deriving DecidableEq, Repr

def Bracket.name : Bracket → String
  | .array => "array"
  | .object => "object"

/-- Why a text is not read as JSON. -/
inductive ReadError where
  | syntaxError (cause : Cause) (position line column : Nat)
  | tooManyDigits (digits : Nat)
  | tooDeep (b : Bracket)
deriving DecidableEq, Repr

def ReadError.message : ReadError → String
  | .syntaxError cause position line column =>
    cause.message ++ ": line " ++ toString line ++ " column " ++ toString column ++
      " (char " ++ toString position ++ ")"
  | .tooManyDigits digits =>
    "Exceeds the limit (" ++ toString digitLimit ++ " digits) for integer string conversion: " ++
      "value has " ++ toString digits ++
      " digits; use sys.set_int_max_str_digits() to increase the limit"
  | .tooDeep b =>
    "maximum recursion depth exceeded while decoding a JSON " ++ b.name ++ " from a unicode string"

/-- A failure at a position, before its line is known. -/
inductive Failure where
  | unexpected (cause : Cause) (position : Nat)
  | tooManyDigits (digits : Nat)
deriving DecidableEq, Repr

/-- An open array or object, with what is already in it. -/
inductive Frame where
  | array (elements : List Json)
  | object (entries : Entries) (key : CodeText)

/-- What is expected next. -/
inductive Expectation where
  | value
  /-- A value, or the end of the array that has just begun. -/
  | valueOrEnd
  | name (entries : Entries)
  /-- A name, or the end of the object that has just begun. -/
  | nameOrEnd
  | colon (entries : Entries) (key : CodeText)
  /-- What follows a value. -/
  | after (v : Json)

structure State where
  expects : Expectation
  frames : List Frame

/-- The state after a whole value. -/
def State.finish (v : Json) (frames : List Frame) : State :=
  ⟨.after v, frames⟩

/-- The failure of a token that was expected to begin a value or name. -/
def Token.failure (cause : Cause) (position : Nat) : Token → Failure
  | .badString fault place => .unexpected (.string fault) place
  | .longInteger digits =>
    if cause == .value then .tooManyDigits digits else .unexpected cause position
  | _ => .unexpected cause position

/-- A token where a value may begin. -/
def State.beginValue (frames : List Frame) (t : Located) : Except Failure State :=
  match t.token with
  | .string s => .ok (.finish (.string s) frames)
  | .scalar v => .ok (.finish v frames)
  | .beginArray => .ok ⟨.valueOrEnd, .array [] :: frames⟩
  | .beginObject => .ok ⟨.nameOrEnd, frames⟩
  | other => .error (other.failure .value t.position)

/-- A token where a name is expected. -/
def State.beginName (entries : Entries) (frames : List Frame) (t : Located) :
    Except Failure State :=
  match t.token with
  | .string s => .ok ⟨.colon entries s, frames⟩
  | .badString fault place => .error (.unexpected (.string fault) place)
  | _ => .error (.unexpected .propertyName t.position)

/-- A token after a whole value. -/
def State.afterValue (v : Json) (frames : List Frame) (t : Located) : Except Failure State :=
  match frames, t.token with
  | .array es :: outer, .comma => .ok ⟨.value, .array (es ++ [v]) :: outer⟩
  | .array es :: outer, .endArray => .ok (.finish (.array (es ++ [v])) outer)
  | .object es key :: outer, .comma => .ok ⟨.name (es.put key v), outer⟩
  | .object es key :: outer, .endObject => .ok (.finish (.object (es.put key v)) outer)
  | [], .ending => .ok (.finish v [])
  | [], _ => .error (.unexpected .ending t.position)
  | _ :: _, _ => .error (.unexpected .comma t.position)

/-- One step of the machine. -/
def State.step (s : State) (t : Located) : Except Failure State :=
  match s.expects with
  | .value => State.beginValue s.frames t
  | .valueOrEnd =>
    match s.frames, t.token with
    | .array _ :: outer, .endArray => .ok (.finish (.array []) outer)
    | _, _ => State.beginValue s.frames t
  | .nameOrEnd =>
    match t.token with
    | .endObject => .ok (.finish (.object []) s.frames)
    | _ => State.beginName [] s.frames t
  | .name entries => State.beginName entries s.frames t
  | .colon entries key =>
    match t.token with
    | .colon => .ok ⟨.value, .object entries key :: s.frames⟩
    | _ => .error (.unexpected .colon t.position)
  | .after v => State.afterValue v s.frames t

/-- The value that a list of tokens writes. -/
def ofTokens (ts : List Located) : Except Failure Json := do
  let s ← ts.foldlM State.step ⟨.value, []⟩
  match s.expects with
  | .after v => return v
  | _ => .error (.unexpected .value 0)

/-- A failure with the line and the column of its position. -/
def Failure.locate (cs : List Char) : Failure → ReadError
  | .unexpected cause position =>
    let before := cs.take position
    .syntaxError cause position (before.count '\n' + 1)
      ((before.reverse.takeWhile (· != '\n')).length + 1)
  | .tooManyDigits digits => .tooManyDigits digits

/-- The value that a text writes, or why it writes none. -/
def parse (cs : List Char) : Except ReadError Json :=
  if cs.head? == some (Char.ofNat 0xfeff) then .error (.syntaxError .noByteOrderMark 0 1 1)
  else match ofTokens (tokens cs) with
    | .ok v => .ok v
    | .error e => .error (e.locate cs)

/-! ### Nesting -/

/-- How many brackets may be open at a time, unless it is said otherwise. The limit of a run is what
its calls leave of the stack, which is some brackets more or less. -/
def nestingLimit : Nat := 990

/-- The bracket that a token opens where a value may begin. -/
def State.opens? (s : State) (t : Located) : Option Bracket :=
  match s.expects, t.token with
  | .value, .beginArray => some .array
  | .valueOrEnd, .beginArray => some .array
  | .value, .beginObject => some .object
  | .valueOrEnd, .beginObject => some .object
  | _, _ => none

/-- The first bracket that is opened when `limit` brackets are open, if reading comes so far. -/
def tooDeep? (limit : Nat) : State → List Located → Option Bracket
  | _, [] => none
  | s, t :: ts =>
    match (s.opens? t).filter fun _ => limit ≤ s.frames.length with
    | some b => some b
    | none =>
      match s.step t with
      | .ok next => tooDeep? limit next ts
      | .error _ => none

/-- The value that a text writes with at most `limit` brackets open at a time. -/
def parseWithin (limit : Nat) (cs : List Char) : Except ReadError Json :=
  match tooDeep? limit ⟨.value, []⟩ (tokens cs) with
  | some b => .error (.tooDeep b)
  | none => parse cs

end StyleAudit.Json
