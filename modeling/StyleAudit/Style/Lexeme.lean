import StyleAudit.Style.Token
import StyleAudit.Text.Digit
import StyleAudit.Text.Pattern

/-!
# Style lexemes

The flat reading of a stylesheet. `Mark.read` gives what stands at the front of a text and how many
characters it takes; `lexemes` moves it over the text and counts lines. Brackets are not matched
here.
-/

namespace StyleAudit.Style

open StyleAudit.Text

/-- What a stretch of the text is, before brackets are matched. -/
inductive Mark where
  | leaf (leaf : Leaf)
  | opener (bracket : Bracket)
  | function (name : String)
  | closer (bracket : Bracket)
deriving DecidableEq, Repr

structure Lexeme where
  line : Nat
  mark : Mark
deriving DecidableEq, Repr

/-! ### Characters and names -/

def isSpace (c : Char) : Bool :=
  c == ' ' || c == '\t' || c == '\n'

def isNonAscii (c : Char) : Bool :=
  0x7f < c.toNat

def isNameStart (c : Char) : Bool :=
  c.isAlpha || c == '_' || isNonAscii c

def isNameChar (c : Char) : Bool :=
  c.isAlphanum || c == '_' || c == '-' || isNonAscii c

/-- A backslash escapes whatever follows, the end of the text included, but for a new line. -/
def startsEscape : List Char → Bool
  | '\\' :: '\n' :: _ => false
  | '\\' :: _ => true
  | _ => false

def startsIdent : List Char → Bool
  | [] => false
  | c :: cs =>
    isNameStart c || startsEscape (c :: cs) ||
      c == '-' && ((cs.head?.map fun d => isNameStart d || d == '-').getD false || startsEscape cs)

/-- The character that an escape names, and how many characters it takes after the backslash: up to
six hexadecimal digits and one space, or the next character itself. -/
def readEscape (cs : List Char) : Char × Nat :=
  match (cs.take 6).takeWhile isHexDigit, cs with
  | [], [] => (Char.ofNat 0xfffd, 0)
  | [], c :: _ => (c, 1)
  | d :: ds, _ =>
    let n := hexNumber (d :: ds)
    let named := if n == 0 || !Nat.isValidChar n then Char.ofNat 0xfffd else Char.ofNat n
    match cs.drop (d :: ds).length with
    | [] => (named, (d :: ds).length)
    | c :: _ => (named, if isSpace c then (d :: ds).length + 1 else (d :: ds).length)

/-- The name at the front of a text, without its escapes, and how many characters it takes. The
first `skip` characters belong to the escape before them. -/
def readNameFrom : (skip : Nat) → List Char → List Char × Nat
  | _, [] => ([], 0)
  | skip + 1, _ :: cs =>
    let (name, used) := readNameFrom skip cs
    (name, used + 1)
  | 0, c :: cs =>
    if isNameChar c then
      let (name, used) := readNameFrom 0 cs
      (c :: name, used + 1)
    else if startsEscape (c :: cs) then
      let (d, taken) := readEscape cs
      let (name, used) := readNameFrom taken cs
      (d :: name, used + 1)
    else ([], 0)

def readName (cs : List Char) : String × Nat :=
  let (name, used) := readNameFrom 0 cs
  (String.ofList name, used)

/-! ### Strings and addresses -/

/-- The result of reading a value between delimiters, and how many characters were read. A value
without end takes all that is left. -/
inductive Delimited where
  | closed (value : List Char) (used : Nat)
  | broken (used : Nat)
  | unclosed (value : List Char)

/-- The result if another character without meaning stands before. -/
def Delimited.after : Delimited → Delimited
  | .closed v used => .closed v (used + 1)
  | .broken used => .broken (used + 1)
  | .unclosed v => .unclosed v

/-- The result if a character that means `c` stands before. -/
def Delimited.cons (c : Char) : Delimited → Delimited
  | .closed v used => .closed (c :: v) (used + 1)
  | .broken used => .broken (used + 1)
  | .unclosed v => .unclosed (c :: v)

/-- The string at the front of a text, after its opening quote. An escaped new line disappears, a
plain one breaks the string. The first `skip` characters belong to the escape before them. -/
def readStringFrom (quote : Char) : (skip : Nat) → List Char → Delimited
  | _, [] => .unclosed []
  | skip + 1, _ :: cs => (readStringFrom quote skip cs).after
  | 0, c :: cs =>
    if c == quote then .closed [] 1
    else if c == '\\' then
      if cs.isEmpty then .unclosed []
      else if cs.head? == some '\n' then (readStringFrom quote 1 cs).after
      else (readStringFrom quote (readEscape cs).2 cs).cons (readEscape cs).1
    else if c == '\n' then .broken 0
    else (readStringFrom quote 0 cs).cons c

/-- Control characters other than the spaces. -/
def isControl (c : Char) : Bool :=
  let n := c.toNat
  n ≤ 8 || n == 0xb || (0xe ≤ n && n ≤ 0x1f) || n == 0x7f

/-- How far it is past the bracket that ends a broken address; an escaped bracket does not end it. -/
def badUrlLength : List Char → Nat
  | [] => 0
  | '\\' :: ')' :: cs => badUrlLength cs + 2
  | c :: cs => if c == ')' then 1 else badUrlLength cs + 1

/-- The address at the front of a text, after the spaces that may stand before it. The first `skip`
characters belong to the escape before them. -/
def readUrlFrom : (skip : Nat) → List Char → Delimited
  | _, [] => .unclosed []
  | skip + 1, _ :: cs => (readUrlFrom skip cs).after
  | 0, c :: cs =>
    if c == ')' then .closed [] 1
    else if isSpace c then
      let spaces := (cs.takeWhile isSpace).length + 1
      match cs.dropWhile isSpace with
      | [] => .unclosed []
      | ')' :: _ => .closed [] (spaces + 1)
      | rest => .broken (spaces + badUrlLength rest)
    else if startsEscape (c :: cs) then
      (readUrlFrom (readEscape cs).2 cs).cons (readEscape cs).1
    else if c == '"' || c == '\'' || c == '(' || isControl c then .broken (badUrlLength cs + 1)
    else (readUrlFrom 0 cs).cons c

/-- The marks of a value that was read at the front of `cs`: a broken value leaves a fault only. -/
def Delimited.marks (leaf : String → Leaf) (bad unclosedFault : TokenFault) (cs : List Char) :
    Delimited → List Mark × Nat
  | .closed v used => ([.leaf (leaf (String.ofList v))], used)
  | .broken used => ([.leaf (.fault bad)], used)
  | .unclosed v => ([.leaf (leaf (String.ofList v)), .leaf (.fault unclosedFault)], cs.length)

/-! ### Numbers and ranges -/

def isAsciiDigit (c : Char) : Bool :=
  c.isDigit

/-- The digits at the front of a text, with at least one of them. -/
def digits? (cs : List Char) : Option (List Char) :=
  match cs.takeWhile isAsciiDigit with
  | [] => none
  | ds => some ds

/-- An optional sign at the front of a text. -/
def signText : List Char → List Char
  | '+' :: _ => ['+']
  | '-' :: _ => ['-']
  | _ => []

/-- Digits with an optional point, which needs a digit after it. -/
def unsigned? (cs : List Char) : Option (List Char) :=
  let pointed :=
    match cs.dropWhile isAsciiDigit with
    | '.' :: rest => (digits? rest).map fun ds => cs.takeWhile isAsciiDigit ++ '.' :: ds
    | _ => none
  pointed.or (digits? cs)

/-- The power of ten at the front of a text, or nothing. -/
def powerOfTen : List Char → List Char
  | [] => []
  | e :: cs =>
    if e == 'e' || e == 'E' then
      match digits? (cs.drop (signText cs).length) with
      | some ds => e :: signText cs ++ ds
      | none => []
    else []

/-- The number at the front of a text, as written. -/
def number? (cs : List Char) : Option (List Char) :=
  let sign := signText cs
  (unsigned? (cs.drop sign.length)).map fun ds =>
    sign ++ ds ++ powerOfTen (cs.drop (sign ++ ds).length)

/-- A number with what is attached to it: a unit, a percent sign or nothing. `rest` follows the
number, and the count is that of the attached characters. -/
def readQuantity (number : List Char) (rest : List Char) : Leaf × Nat :=
  let text := String.ofList number
  if startsIdent rest then
    let (unit, used) := readName rest
    (.dimension text unit, used)
  else if rest.head? == some '%' then (.percentage text, 1)
  else (.number text, 0)

/-- A range of code points: up to six digits of which the last may be open, or two ends. -/
def readCodeRange (cs : List Char) : Leaf × Nat :=
  let digits := (cs.take 6).takeWhile isHexDigit
  let rest := cs.drop digits.length
  let marks := (rest.take (6 - digits.length)).takeWhile (· == '?')
  if marks.isEmpty then
    match rest with
    | '-' :: d :: more =>
      if isHexDigit d then
        let last := ((d :: more).take 6).takeWhile isHexDigit
        (.codeRange (hexNumber digits) (hexNumber last), digits.length + 1 + last.length)
      else (.codeRange (hexNumber digits) (hexNumber digits), digits.length)
    | _ => (.codeRange (hexNumber digits) (hexNumber digits), digits.length)
  else
    (.codeRange (hexNumber (digits ++ marks.map fun _ => '0'))
      (hexNumber (digits ++ marks.map fun _ => 'F')), digits.length + marks.length)

/-! ### One lexeme -/

/-- What a name followed by `(` begins: a function, or an address if the name is `url` and no quote
comes next. `rest` follows the bracket, and the count is that of the characters read from it. -/
def readCall (name : String) (rest : List Char) : List Mark × Nat :=
  let inner := rest.dropWhile isSpace
  let isQuoted := inner.head? == some '"' || inner.head? == some '\''
  if name.toList.map Char.toLower == "url".toList && !isQuoted then
    let (marks, used) := (readUrlFrom 0 inner).marks .url .badUrl .unclosedUrl inner
    (marks, (rest.takeWhile isSpace).length + used)
  else ([.function name], 0)

/-- Several characters that are one literal, when they stand together. -/
def longLiterals : List String :=
  ["<!--", "||", "~=", "|=", "^=", "$=", "*="]

/-- The longest literal at the front of a text. -/
def literalText (c : Char) (cs : List Char) : String :=
  (longLiterals.find? fun l => (dropLead? l.toList (c :: cs)).isSome).getD c.toString

def opensCodeRange : List Char → Bool
  | u :: '+' :: d :: _ => (u == 'u' || u == 'U') && (isHexDigit d || d == '?')
  | _ => false

def startsHashName : List Char → Bool
  | [] => false
  | c :: cs => isNameChar c || startsEscape (c :: cs)

/-- The length of a comment after its opening; one without end takes all that is left. -/
def commentLength (body : List Char) : Nat :=
  match splitAtMark? ['*', '/'] body with
  | some (inside, _) => inside.length + 2
  | none => body.length

/-- The marks at the front of a nonempty text, which begins with `c`, and how many characters they
take after it. A comment leaves no mark. -/
def Mark.read (c : Char) (cs : List Char) : List Mark × Nat :=
  if isSpace c then
    let spaces := cs.takeWhile isSpace
    ([.leaf (.blank (String.ofList (c :: spaces)))], spaces.length)
  else if opensCodeRange (c :: cs) then
    let (range, used) := readCodeRange (cs.drop 1)
    ([.leaf range], used + 1)
  else if (dropLead? ['-', '-', '>'] (c :: cs)).isSome then ([.leaf (.literal "-->")], 2)
  else if startsIdent (c :: cs) then
    let (name, used) := readName (c :: cs)
    match cs.drop (used - 1) with
    | '(' :: rest =>
      let (marks, more) := readCall name rest
      (marks, used + more)
    | _ => ([.leaf (.ident name)], used - 1)
  else match number? (c :: cs) with
  | some number =>
    let (quantity, used) := readQuantity number ((c :: cs).drop number.length)
    ([.leaf quantity], number.length + used - 1)
  | none =>
    match c with
    | '@' =>
      if startsIdent cs then
        let (name, used) := readName cs
        ([.leaf (.atKeyword name)], used)
      else ([.leaf (.literal "@")], 0)
    | '#' =>
      if startsHashName cs then
        let (value, used) := readName cs
        ([.leaf (.hash value (startsIdent cs))], used)
      else ([.leaf (.literal "#")], 0)
    | '{' => ([.opener .curly], 0)
    | '[' => ([.opener .square], 0)
    | '(' => ([.opener .round], 0)
    | '}' => ([.closer .curly], 0)
    | ']' => ([.closer .square], 0)
    | ')' => ([.closer .round], 0)
    | '"' => (readStringFrom '"' 0 cs).marks .string .badString .unclosedString cs
    | '\'' => (readStringFrom '\'' 0 cs).marks .string .badString .unclosedString cs
    | _ =>
      match dropLead? ['/', '*'] (c :: cs) with
      | some body => ([], 1 + commentLength body)
      | none =>
        let text := literalText c cs
        ([.leaf (.literal text)], text.length - 1)

/-! ### All lexemes -/

/-- The line after a character. -/
def lineAfter (line : Nat) (c : Char) : Nat :=
  if c == '\n' then line + 1 else line

/-- The lexemes of a text that begins on `line` and whose first `skip` characters are already read. -/
def lexemesFrom : (skip line : Nat) → List Char → List Lexeme
  | _, _, [] => []
  | skip + 1, line, c :: cs => lexemesFrom skip (lineAfter line c) cs
  | 0, line, c :: cs =>
    let found := Mark.read c cs
    found.1.map (⟨line, ·⟩) ++ lexemesFrom found.2 (lineAfter line c) cs

/-- Line ends become `\n`, and the zero character, which no name can hold, is replaced. -/
def normalizeSource : List Char → List Char
  | [] => []
  | '\r' :: '\n' :: cs => '\n' :: normalizeSource cs
  | c :: cs =>
    (if c == '\r' || c == '\x0c' then '\n'
      else if c == '\x00' then Char.ofNat 0xfffd
      else c) :: normalizeSource cs

def lexemes (source : List Char) : List Lexeme :=
  lexemesFrom 0 1 (normalizeSource source)

end StyleAudit.Style
