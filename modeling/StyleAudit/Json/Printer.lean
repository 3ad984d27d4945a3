import StyleAudit.Json.Token

/-!
# Writing JSON

Values are written in ASCII, each element and entry on a line of its own, two spaces deeper than the
brackets around it.
-/

namespace StyleAudit.Json

open StyleAudit.Text

/-- A character of a string. Characters past the first plane are written as two surrogates. -/
def charText (c : Char) : List Char :=
  match c with
  | '"' => ['\\', '"']
  | '\\' => ['\\', '\\']
  | '\n' => ['\\', 'n']
  | '\r' => ['\\', 'r']
  | '\t' => ['\\', 't']
  | '\x0c' => ['\\', 'f']
  | '\x08' => ['\\', 'b']
  | c =>
    let n := c.toNat
    if 0x20 ≤ n && n < 0x7f then [c]
    else if n < 0x10000 then codeEscapeText n
    else codeEscapeText (0xd800 + (n - 0x10000) / 0x400) ++ codeEscapeText (0xdc00 + (n - 0x10000) % 0x400)

/-- A code point of a string. -/
def codeText : Code → List Char
  | .char c => charText c
  | half => codeEscapeText half.toNat

def stringText (s : CodeText) : List Char :=
  '"' :: s.codes.flatMap codeText ++ ['"']

/-- A new line at a depth. -/
def newLine (depth : Nat) : List Char :=
  '\n' :: List.replicate (2 * depth) ' '

/-- Parts between brackets, each on a line of its own. -/
def bracketed (opening closing : Char) (depth : Nat) (parts : List (List Char)) : List Char :=
  match parts with
  | [] => [opening, closing]
  | first :: more =>
    opening :: newLine (depth + 1) ++ first ++
      more.flatMap (fun p => ',' :: newLine (depth + 1) ++ p) ++ newLine depth ++ [closing]

/-- The text of a number that is not whole. -/
def floatText : Binary64 → String
  | .nan => "NaN"
  | .infinite negative => if negative then "-Infinity" else "Infinity"
  | x => x.text

mutual

/-- The text of a value at a depth. -/
def render (depth : Nat) : Json → List Char
  | .null => "null".toList
  | .bool b => (if b then "true" else "false").toList
  | .int n => (toString n).toList
  | .float x => (floatText x).toList
  | .string s => stringText s
  | .array es => bracketed '[' ']' depth (renderAll (depth + 1) es)
  | .object es => bracketed '{' '}' depth (renderEntries (depth + 1) es)

def renderAll (depth : Nat) : List Json → List (List Char)
  | [] => []
  | e :: es => e.render depth :: renderAll depth es

def renderEntries (depth : Nat) : List (CodeText × Json) → List (List Char)
  | [] => []
  | e :: es => renderEntry depth e :: renderEntries depth es

def renderEntry (depth : Nat) : CodeText × Json → List Char
  | (k, v) => stringText k ++ ':' :: ' ' :: v.render depth

end

/-- The text of a value with numbers of any length. -/
def layout (v : Json) : String :=
  String.ofList (v.render 0)

/-! ### Long numbers -/

mutual

/-- No whole number in a value has too many digits. -/
def numbersFit : Json → Bool
  | .int n => fitsLimit n
  | .array es => allNumbersFit es
  | .object es => entryNumbersFit es
  | _ => true

def allNumbersFit : List Json → Bool
  | [] => true
  | e :: es => e.numbersFit && allNumbersFit es

def entryNumbersFit : List (CodeText × Json) → Bool
  | [] => true
  | (_, v) :: es => v.numbersFit && entryNumbersFit es

end

/-- Why a value is not written. -/
inductive PrintError where
  | tooManyDigits
deriving DecidableEq, Repr

def PrintError.message : PrintError → String
  | .tooManyDigits =>
    "Exceeds the limit (" ++ toString digitLimit ++ " digits) for integer string conversion; " ++
      "use sys.set_int_max_str_digits() to increase the limit"

/-- The text of a value. -/
def text (v : Json) : Except PrintError String :=
  if v.numbersFit then .ok v.layout else .error .tooManyDigits

end StyleAudit.Json
