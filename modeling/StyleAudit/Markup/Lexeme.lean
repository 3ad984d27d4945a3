import StyleAudit.Text.Digit

/-!
# The forms of tokens

Each form is a function that gives the number of characters of the longest token of that form at the
front of a text, and zero if there is none. No token holds the zero character.
-/

namespace StyleAudit.Markup.Lexeme

open StyleAudit.Text

/-! ### Repetition -/

/-- The characters of units in a row, of which `skip` belong to a unit that has begun; `unit` gives
the size of the unit at the front of a text. -/
def repeatedFrom (unit : List Char → Nat) : (skip count : Nat) → List Char → Nat
  | _, count, [] => count
  | skip + 1, count, _ :: cs => repeatedFrom unit skip (count + 1) cs
  | 0, count, c :: cs =>
    match unit (c :: cs) with
    | 0 => count
    | used + 1 => repeatedFrom unit used (count + 1) cs

def repeated (unit : List Char → Nat) (cs : List Char) : Nat :=
  repeatedFrom unit 0 0 cs

/-- The characters at the front that satisfy `p`. -/
def run (p : Char → Bool) (cs : List Char) : Nat :=
  (cs.takeWhile p).length

/-- The size of a token after a lead that must be there. -/
def after (lead : Nat) (size : Nat) : Nat :=
  if size == 0 then 0 else lead + size

/-! ### Characters -/

def isAsciiSpace (c : Char) : Bool :=
  (9 ≤ c.toNat && c.toNat ≤ 13) || c == ' '

/-- The space separators of all scripts. -/
def isSpaceSeparator (c : Char) : Bool :=
  let n := c.toNat
  n == 0x20 || n == 0xa0 || n == 0x1680 || (0x2000 ≤ n && n ≤ 0x200a) || n == 0x202f ||
    n == 0x205f || n == 0x3000

/-- Line separators, and marks without width. -/
def isFormatMark (c : Char) : Bool :=
  let n := c.toNat
  n == 0xfeff || n == 0x2028 || n == 0x2029 || n == 0x2060 || n == 0x200b

/-- Characters that may stand between tokens. -/
def isBetween (c : Char) : Bool :=
  isAsciiSpace c || isSpaceSeparator c || isFormatMark c

/-- White space that lines may be broken at. -/
def isBreakable (c : Char) : Bool :=
  let n := c.toNat
  isAsciiSpace c || n == 0x1680 || (0x2000 ≤ n && n ≤ 0x2006) || (0x2008 ≤ n && n ≤ 0x200a) ||
    n == 0x2028 || n == 0x2029 || n == 0x205f || n == 0x3000

def isLineEnd (c : Char) : Bool :=
  c == '\n' || c.toNat == 0x2028 || c.toNat == 0x2029

def isZero (c : Char) : Bool :=
  c.toNat == 0

/-! ### Names -/

def namePunctuation : List Char :=
  ":;\x60\"'@#.,|^&<=>+-*/\\%?!~()[]\x7b\x7d".toList

def isNameChar (c : Char) : Bool :=
  !(c.toNat ≤ 0x1f || isBetween c || namePunctuation.contains c)

def isNameStart (c : Char) : Bool :=
  isNameChar c && !c.isDigit

/-- A character by its number, as names may have it. -/
def nameEscape : List Char → Nat
  | '\\' :: 'u' :: '{' :: cs =>
    match run isHexDigit cs with
    | 0 => 0
    | n => if cs[n]? == some '}' then n + 4 else 0
  | '\\' :: 'u' :: cs => if run isHexDigit (cs.take 4) == 4 then 6 else 0
  | _ => 0

def nameUnit : List Char → Nat
  | [] => 0
  | c :: cs => if isNameChar c then 1 else nameEscape (c :: cs)

def identifier : List Char → Nat
  | [] => 0
  | c :: cs =>
    if isNameStart c || 0 < nameEscape (c :: cs) then repeated nameUnit (c :: cs) else 0

def privateIdentifier : List Char → Nat
  | '#' :: cs => after 1 (identifier cs)
  | _ => 0

def isPlainStart (c : Char) : Bool :=
  c.isAlpha || c == '_' || c == '$'

def isPlainChar (c : Char) : Bool :=
  c.isAlphanum || c == '_' || c == '$'

/-- A name with at least one hyphen. -/
def dashedName : List Char → Nat
  | [] => 0
  | c :: cs =>
    if isPlainStart c then
      let n := run isPlainChar cs
      match cs.drop n with
      | '-' :: rest => n + 2 + run (fun d => isPlainChar d || d == '-') rest
      | _ => 0
    else 0

/-! ### Numbers -/

/-- Digits, with single underscores between them. -/
def digits (isDigit : Char → Bool) : List Char → Nat
  | [] => 0
  | c :: cs =>
    let unit : List Char → Nat := fun
      | '_' :: d :: _ => if isDigit d then 2 else 0
      | d :: _ => if isDigit d then 1 else 0
      | [] => 0
    if isDigit c then repeated unit (c :: cs) else 0

/-- A number in another base, after a zero and one of two letters. -/
def based (lower upper : Char) (isDigit : Char → Bool) : List Char → Nat
  | '0' :: c :: cs => if c == lower || c == upper then after 2 (digits isDigit cs) else 0
  | _ => 0

def hexadecimal (cs : List Char) : Nat :=
  based 'x' 'X' isHexDigit cs

def binary (cs : List Char) : Nat :=
  based 'b' 'B' (fun c => c == '0' || c == '1') cs

def isOctalDigit (c : Char) : Bool :=
  '0' ≤ c && c ≤ '7'

def octal (cs : List Char) : Nat :=
  based 'o' 'O' isOctalDigit cs

def exponent : List Char → Nat
  | e :: cs =>
    if e == 'e' || e == 'E' then
      match cs with
      | '+' :: ds => after 2 (digits Char.isDigit ds)
      | '-' :: ds => after 2 (digits Char.isDigit ds)
      | ds => after 1 (digits Char.isDigit ds)
    else 0
  | [] => 0

/-- The digits at the front may stand before a point or an exponent: they are zero, or they have no
more than one leading zero. -/
def isWholePart : List Char → Bool
  | '0' :: c :: _ => c.isDigit && c != '0' || !c.isDigit && c != '_'
  | c :: _ => c.isDigit
  | [] => false

/-- A number with a point or an exponent. -/
def fractional (cs : List Char) : Nat :=
  let whole := digits Char.isDigit cs
  let start := if isWholePart cs then whole else 0
  match cs.drop start with
  | '.' :: rest =>
    let places := digits Char.isDigit rest
    if start == 0 && places == 0 then 0
    else start + 1 + places + exponent (rest.drop places)
  | rest => if start == 0 then 0 else after start (exponent rest)

/-- A whole number of any size. -/
def large (cs : List Char) : Nat :=
  let n := max (digits Char.isDigit cs) (max (hexadecimal cs) (max (octal cs) (binary cs)))
  if 0 < n && cs[n]? == some 'n' then n + 1 else 0

def number (cs : List Char) : Nat :=
  [digits Char.isDigit cs, hexadecimal cs, binary cs, octal cs, fractional cs, large cs].foldl max 0

/-! ### Comments -/

/-- The size of a text up to its first `*/`, which must be there. -/
def blockEnd : (count : Nat) → List Char → Nat
  | _, [] => 0
  | count, '*' :: '/' :: _ => count + 2
  | count, c :: cs => if isZero c then 0 else blockEnd (count + 1) cs

def comment : List Char → Nat
  | '/' :: '/' :: cs => 2 + run (fun c => !(isLineEnd c || c == '\r' || isZero c)) cs
  | '/' :: '*' :: cs => after 2 (blockEnd 0 cs)
  | _ => 0

/-- The first line of a program that names its interpreter. -/
def interpreterLine : List Char → Nat
  | '#' :: '!' :: cs => 2 + run (fun c => !(c == '\n' || isZero c)) cs
  | _ => 0

/-! ### Texts -/

/-- A stretch of a string without escapes. -/
def stringText (quote : Char) (cs : List Char) : Nat :=
  run (fun c => !(c == quote || c == '\\' || c == '\r' || c == '\n' || isZero c)) cs

/-- An ampersand belongs to the text of an attribute if it cannot begin a reference. -/
def attributeUnit (quote : Char) : List Char → Nat
  | '&' :: d :: _ => if d.isAlpha || d == '#' || isZero d then 0 else 2
  | '&' :: _ => 0
  | c :: _ => if c == quote || isZero c then 0 else 1
  | [] => 0

def attributeText (quote : Char) (cs : List Char) : Nat :=
  repeated (attributeUnit quote) cs

/-- An escape in a string or template. -/
def escape : List Char → Nat
  | '\\' :: 'x' :: cs => if run isHexDigit (cs.take 2) == 2 then 4 else 0
  | '\\' :: 'u' :: cs => nameEscape ('\\' :: 'u' :: cs)
  | '\\' :: c :: cs =>
    if isOctalDigit c then 2 + run isOctalDigit (cs.take 2)
    else if isZero c then 0
    else if (c == '\r' || c == '?') && cs.head?.any isLineEnd then 3
    else 2
  | _ => 0

/-- A character in the brackets of a regular expression. -/
def bracketUnit : List Char → Nat
  | '\\' :: c :: _ => if c == '\n' || isZero c then 0 else 2
  | c :: _ => if c == ']' || c == '\n' || c == '\\' || isZero c then 0 else 1
  | [] => 0

def regexUnit : List Char → Nat
  | '[' :: cs =>
    let n := repeated bracketUnit cs
    if cs[n]? == some ']' then n + 2 else 0
  | '\\' :: c :: _ => if c == '\n' || isZero c then 0 else 2
  | c :: _ => if c == '/' || c == '\\' || c == '\n' || isZero c then 0 else 1
  | [] => 0

/-- A regular expression between its slashes. -/
def regexText (cs : List Char) : Nat :=
  repeated regexUnit cs

def regexFlags (cs : List Char) : Nat :=
  run Char.isLower cs

/-- The digits or letters at the front, if there are not too many and a semicolon follows. -/
def closed (p : Char → Bool) (most : Nat) (cs : List Char) : Nat :=
  let n := run p (cs.take (most + 1))
  if 0 < n && n ≤ most && cs[n]? == some ';' then n + 1 else 0

/-- A character by its name or number. -/
def reference : List Char → Nat
  | '&' :: '#' :: 'x' :: cs => after 3 (closed isHexDigit 6 cs)
  | '&' :: '#' :: 'X' :: cs => after 3 (closed isHexDigit 6 cs)
  | '&' :: '#' :: cs => after 2 (closed Char.isDigit 5 cs)
  | '&' :: cs => after 1 (closed Char.isAlpha 30 cs)
  | _ => 0

end StyleAudit.Markup.Lexeme
