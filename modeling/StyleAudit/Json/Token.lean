import StyleAudit.Json.Value
import StyleAudit.Numeric.Numeral

/-!
# JSON tokens

The tokens of a JSON text with their positions. Reading stops at the first place where no token
begins; what is wrong there stands as the last token, since it depends on what was expected there
how it is reported.
-/

namespace StyleAudit.Json

open StyleAudit.Text

/-- What is wrong with a string. -/
inductive StringFault where
  | unterminated
  | controlCharacter
  | badEscape
  | badCodeEscape
deriving DecidableEq, Repr

inductive Token where
  | beginObject
  | endObject
  | beginArray
  | endArray
  | comma
  | colon
  | string (s : CodeText)
  | scalar (v : Json)
  /-- A whole number with more digits than are read. -/
  | longInteger (digits : Nat)
  /-- A string that goes wrong at a position. -/
  | badString (fault : StringFault) (position : Nat)
  /-- No token begins here. -/
  | bad
  | ending

structure Located where
  position : Nat
  token : Token

def isSpace (c : Char) : Bool :=
  c == ' ' || c == '\t' || c == '\n' || c == '\r'

/-! ### Strings -/

/-- The number that four hexadecimal digits write. -/
def code? : List Char → Option Nat
  | [a, b, c, d] =>
    if [a, b, c, d].all isHexDigit then some (hexNumber [a, b, c, d]) else none
  | _ => none

def isHighSurrogate (n : Nat) : Bool :=
  0xd800 ≤ n && n ≤ 0xdbff

def isLowSurrogate (n : Nat) : Bool :=
  0xdc00 ≤ n && n ≤ 0xdfff

/-- The code point that two surrogates write together. -/
def joinSurrogates (high low : Nat) : Nat :=
  0x10000 + (high - 0xd800) * 0x400 + (low - 0xdc00)

theorem mod_half_lt (n : Nat) : n % 0x400 < 0x400 :=
  Nat.mod_lt n (by decide)

/-- The code point of a number. -/
def codePoint (n : Nat) : Code :=
  if isHighSurrogate n then .high ⟨(n - 0xd800) % 0x400, mod_half_lt _⟩
  else if isLowSurrogate n then .low ⟨(n - 0xdc00) % 0x400, mod_half_lt _⟩
  else .char (Char.ofNat n)

/-- The characters that single letters after a backslash stand for. -/
def shortEscape? (c : Char) : Option Char :=
  match c with
  | '"' => some '"'
  | '\\' => some '\\'
  | '/' => some '/'
  | 'b' => some '\x08'
  | 'f' => some '\x0c'
  | 'n' => some '\n'
  | 'r' => some '\r'
  | 't' => some '\t'
  | _ => none

/-- The code point of a code escape, after its `u`, and how many characters it takes. A character
must follow the four digits, and the two halves of a pair in a row are one character. An error gives
the offset of its `u` from the first one. -/
def codeEscape (cs : List Char) : Except Nat (Code × Nat) :=
  match code? (cs.take 4), cs.drop 4 with
  | none, _ => .error 0
  | _, [] => .error 0
  | some high, rest =>
    if isHighSurrogate high && !(rest.drop 6).isEmpty && rest.take 2 == ['\\', 'u'] then
      match code? ((rest.drop 2).take 4) with
      | none => .error 6
      | some low =>
        if isLowSurrogate low then .ok (codePoint (joinSurrogates high low), 10)
        else .ok (codePoint high, 4)
    else .ok (codePoint high, 4)

/-- What is read of a string: its code points, and how many characters of the text they take. -/
abbrev StringReading := Except (StringFault × Nat) (List Code × Nat)

/-- The reading if another character without meaning stands before. -/
def StringReading.after (r : StringReading) : StringReading :=
  r.map fun (s, used) => (s, used + 1)

/-- The reading if a character that means `c` stands before. -/
def StringReading.cons (c : Code) (r : StringReading) : StringReading :=
  r.map fun (s, used) => (c :: s, used + 1)

/-- A string after its opening quote, which stands at `start`; `position` is that of the text. The
first `skip` characters belong to the escape before them. -/
def readStringFrom (start : Nat) : (skip position : Nat) → List Char → StringReading
  | _, _, [] => .error (.unterminated, start)
  | skip + 1, position, _ :: cs => (readStringFrom start skip (position + 1) cs).after
  | 0, position, c :: cs =>
    if c == '"' then .ok ([], 1)
    else if c == '\\' then
      match cs.head? with
      | none => .error (.unterminated, start)
      | some 'u' =>
        match codeEscape (cs.drop 1) with
        | .error offset => .error (.badCodeEscape, position + 1 + offset)
        | .ok (d, used) => (readStringFrom start (used + 1) (position + 1) cs).cons d
      | some e =>
        match shortEscape? e with
        | none => .error (.badEscape, position)
        | some d => (readStringFrom start 1 (position + 1) cs).cons (.char d)
    else if c.toNat ≤ 0x1f then .error (.controlCharacter, position)
    else (readStringFrom start 0 (position + 1) cs).cons (.char c)

/-! ### Numbers -/

/-- A point and digits at the front of a text, if there are both. -/
def fractionText : List Char → List Char
  | '.' :: cs =>
    match cs.takeWhile Char.isDigit with
    | [] => []
    | ds => '.' :: ds
  | _ => []

/-- A power of ten at the front of a text, if it has digits. -/
def exponentText : List Char → List Char
  | [] => []
  | e :: cs =>
    if e == 'e' || e == 'E' then
      let (sign, ds) := match cs with
        | '+' :: ds => (['+'], ds)
        | '-' :: ds => (['-'], ds)
        | ds => ([], ds)
      match ds.takeWhile Char.isDigit with
      | [] => []
      | run => e :: sign ++ run
    else []

/-- Digits at the front of a text, without a zero before other digits. -/
def wholeText : List Char → List Char
  | '0' :: _ => ['0']
  | cs => cs.takeWhile Char.isDigit

/-- Whole numbers with more digits are neither read nor written. -/
def digitLimit : Nat := 4300

/-- A whole number does not have too many digits. -/
def fitsLimit (n : Int) : Bool :=
  (Nat.toDigits 10 n.natAbs).length ≤ digitLimit

/-- The number at the front of a text and how many characters it takes. -/
def number? (cs : List Char) : Option (Token × Nat) :=
  let negative := cs.head? == some '-'
  let body := if negative then cs.drop 1 else cs
  let whole := wholeText body
  if whole.isEmpty then none
  else
    let fraction := fractionText (body.drop whole.length)
    let power := exponentText (body.drop (whole.length + fraction.length))
    let token : Token :=
      if fraction.isEmpty && power.isEmpty then
        if digitLimit < whole.length then .longInteger whole.length
        else .scalar (.int (if negative then -(Numeral.natOf whole : Int) else Numeral.natOf whole))
      else
        match Numeral.decimal? (whole ++ fraction ++ power) with
        | some d => .scalar (.float (d.value negative))
        | none => .bad
    let sign := if negative then 1 else 0
    some (token, sign + whole.length + fraction.length + power.length)

/-! ### Tokens -/

/-- The words that are values. -/
def valueWords : List (List Char × Json) :=
  [("null".toList, .null), ("true".toList, .bool true), ("false".toList, .bool false),
    ("NaN".toList, .float .nan), ("Infinity".toList, .float (.infinite false)),
    ("-Infinity".toList, .float (.infinite true))]

/-- The value word at the front of a text and its length. -/
def valueWord? (cs : List Char) : Option (Json × Nat) :=
  valueWords.findSome? fun (w, v) => if cs.take w.length == w then some (v, w.length) else none

/-- The token at the front of a text that begins with `c`, at `position`, and how many characters it
takes after it. Where no token begins, all that is left is taken. -/
def Token.read (position : Nat) (c : Char) (cs : List Char) : Token × Nat :=
  match c with
  | '{' => (.beginObject, 0)
  | '}' => (.endObject, 0)
  | '[' => (.beginArray, 0)
  | ']' => (.endArray, 0)
  | ',' => (.comma, 0)
  | ':' => (.colon, 0)
  | '"' =>
    match readStringFrom position 0 (position + 1) cs with
    | .ok (s, used) => (.string ⟨s⟩, used)
    | .error (fault, place) => (.badString fault place, cs.length)
  | _ =>
    match valueWord? (c :: cs) with
    | some (v, used) => (.scalar v, used - 1)
    | none =>
      match number? (c :: cs) with
      | some (token, used) => (token, used - 1)
      | none => (.bad, cs.length)

/-- The tokens of a text that begins at `position` and whose first `skip` characters are already
read. -/
def tokensFrom : (skip position : Nat) → List Char → List Located
  | _, position, [] => [⟨position, .ending⟩]
  | skip + 1, position, _ :: cs => tokensFrom skip (position + 1) cs
  | 0, position, c :: cs =>
    if isSpace c then tokensFrom 0 (position + 1) cs
    else
      let found := Token.read position c cs
      ⟨position, found.1⟩ :: tokensFrom found.2 (position + 1) cs

def tokens (cs : List Char) : List Located :=
  tokensFrom 0 0 cs

end StyleAudit.Json
