import StyleAudit.Style.Token
import StyleAudit.Style.Lexeme

/-!
# Writing style tokens

The text of a forest. Names are escaped where they need it, strings stand in double quotes, and an
empty comment is put between two tokens that would otherwise be read as other ones.
-/

namespace StyleAudit.Style

open StyleAudit.Text

/-! ### Names and values -/

def upperHex (n : Nat) : List Char :=
  (hexDigits n).map Char.toUpper

/-- The escapes of the line ends. -/
def escapedLineEnd? (c : Char) : Option (List Char) :=
  if c == '\n' then some ['\\', 'A', ' ']
  else if c == '\r' then some ['\\', 'D', ' ']
  else if c == '\x0c' then some ['\\', 'C', ' ']
  else none

/-- A character inside a name. -/
def nameCharText (c : Char) : List Char :=
  if isNameChar c then [c] else (escapedLineEnd? c).getD ['\\', c]

def nameText (cs : List Char) : List Char :=
  cs.flatMap nameCharText

/-- The first character of an identifier; a digit would begin a number. -/
def headCharText (c : Char) : List Char :=
  if isNameStart c then [c]
  else match escapedLineEnd? c with
    | some text => text
    | none => if c.isDigit then '\\' :: upperHex c.toNat ++ [' '] else ['\\', c]

/-- The text of an identifier. -/
def identText : List Char → List Char
  | [] => []
  | ['-'] => ['\\', '-']
  | '-' :: '-' :: cs => '-' :: '-' :: nameText cs
  | '-' :: c :: cs => '-' :: headCharText c ++ nameText cs
  | c :: cs => headCharText c ++ nameText cs

/-- A character of a string in double quotes. -/
def stringCharText (c : Char) : List Char :=
  if c == '"' || c == '\\' then ['\\', c] else (escapedLineEnd? c).getD [c]

/-- A character of an address. -/
def urlCharText (c : Char) : List Char :=
  if c == '\t' then ['\\', '9', ' ']
  else if c == '\'' || c == '"' || c == '\\' || c == ' ' || c == '(' || c == ')' then ['\\', c]
  else (escapedLineEnd? c).getD [c]

/-- A unit, which must not be read as a power of ten. -/
def unitText (unit : List Char) : List Char :=
  match unit with
  | [] => []
  | c :: cs =>
    if (c == 'e' || c == 'E') && (cs.isEmpty || cs.head? == some '-') then
      ['\\', '6', '5', ' '] ++ nameText cs
    else identText unit

def faultText : TokenFault → String
  | .unmatched b => b.closing.toString
  | .badString => "\"[bad string]\n"
  | .badUrl => "url([bad url])"
  | .unclosedString => ""
  | .unclosedUrl => ""

/-- The text of a leaf. -/
def Leaf.text : Leaf → List Char
  | .blank t => t.toList
  | .ident name => identText name.toList
  | .atKeyword name => '@' :: identText name.toList
  | .hash v startsIdent => '#' :: (if startsIdent then identText v.toList else nameText v.toList)
  | .string v => '"' :: v.toList.flatMap stringCharText ++ ['"']
  | .url v => "url(".toList ++ v.toList.flatMap urlCharText ++ [')']
  | .codeRange first last =>
    'U' :: '+' :: upperHex first ++ (if first == last then [] else '-' :: upperHex last)
  | .number t => t.toList
  | .percentage t => t.toList ++ ['%']
  | .dimension t unit => t.toList ++ unitText unit.toList
  | .literal t => t.toList
  | .fault cause => (faultText cause).toList

/-! ### Neighbours -/

/-- The kind of a token as far as its neighbours are concerned. -/
inductive Joint where
  | blank
  | ident
  | atKeyword
  | hash
  | string
  | url
  | codeRange
  | number
  | percentage
  | dimension
  | function
  | block (bracket : Bracket)
  | literal (text : String)
  | fault
deriving DecidableEq, Repr

def Leaf.joint : Leaf → Joint
  | .blank _ => .blank
  | .ident _ => .ident
  | .atKeyword _ => .atKeyword
  | .hash _ _ => .hash
  | .string _ => .string
  | .url _ => .url
  | .codeRange _ _ => .codeRange
  | .number _ => .number
  | .percentage _ => .percentage
  | .dimension _ _ => .dimension
  | .literal t => .literal t
  | .fault _ => .fault

def Token.joint : Token → Joint
  | .leaf _ l => l.joint
  | .block _ b _ => .block b
  | .function _ _ _ => .function

/-- The two kinds would run together without a comment between them. -/
def runsTogether (a b : Joint) : Bool :=
  let lit := Joint.literal
  ([.ident, .atKeyword, .hash, .dimension, lit "#", lit "-", .number].contains a &&
      [.ident, .function, .url, .number, .percentage, .dimension, .codeRange].contains b) ||
    ([.ident, .atKeyword, .hash, .dimension].contains a && [lit "-", lit "-->"].contains b) ||
    ([lit "#", lit "-", .number, lit "@"].contains a && [.ident, .function, .url].contains b) ||
    ([.codeRange, lit ".", lit "+"].contains a &&
      [.number, .percentage, .dimension].contains b) ||
    (a == lit "@" && [.ident, .function, .url, .codeRange, lit "-"].contains b) ||
    (a == .codeRange && [.ident, .function, lit "?"].contains b) ||
    ([lit "$", lit "*", lit "^", lit "~", lit "|"].contains a && b == lit "=") ||
    (a == .ident && b == .block .round) || (a == lit "|" && b == lit "|") ||
    (a == lit "/" && b == lit "*")

/-- The token is a blank that begins with a new line. -/
def Token.startsLine : Token → Bool
  | .leaf _ (.blank t) => t.toList.head? == some '\n'
  | _ => false

/-- What is written between a token and the next one. -/
def separator (previous : Option Joint) (next : Token) : List Char :=
  match previous with
  | none => []
  | some p =>
    if runsTogether p next.joint then "/**/".toList
    else if p == .literal "\\" && !next.startsLine then ['\n']
    else []

/-! ### Forests -/

mutual

/-- The text of a token. -/
def Token.text : Token → List Char
  | .leaf _ l => l.text
  | .block _ b content => b.opening :: forestText none content ++ [b.closing]
  | .function _ name arguments =>
    identText name.toList ++ '(' :: forestText none arguments ++ [')']

/-- The text of a forest that follows a token of kind `previous`. -/
def forestText (previous : Option Joint) : List Token → List Char
  | [] => []
  | t :: ts => separator previous t ++ t.text ++ forestText (some t.joint) ts

end

/-- The text of a forest. -/
def print (forest : List Token) : List Char :=
  forestText none forest

end StyleAudit.Style
