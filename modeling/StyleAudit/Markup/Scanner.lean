import StyleAudit.Markup.Lexeme
import StyleAudit.Markup.Tables
import StyleAudit.Text.WordChar

/-!
# Reading tokens

The next token depends on the tokens that can be used next. Of those that stand at a place the
longest is taken, and a word of the language is a plain identifier where the word cannot be used.
Some tokens depend on more than their own characters: the end of a statement that is implied by the
end of a line, the question mark of a conditional expression, and texts of templates and elements.
They are tried first.
-/

namespace StyleAudit.Markup

open StyleAudit.Text

/-- A place in a source. Offsets and rows are counted from zero. -/
structure Place where
  offset : Nat
  row : Nat
  /-- The source from here on. -/
  rest : List Char

namespace Place

/-- The place some characters further on. -/
def advance : Nat → Place → Place
  | 0, p => p
  | n + 1, p =>
    match p.rest with
    | [] => p
    | c :: cs => advance n ⟨p.offset + 1, if c == '\n' then p.row + 1 else p.row, cs⟩

/-- The next character; the zero character at the end. -/
def here (p : Place) : Char :=
  p.rest.headD '\x00'

def skipWhile (q : Char → Bool) (p : Place) : Place :=
  p.advance (Lexeme.run q p.rest)

end Place

/-- A token with its extent. -/
structure Lexed where
  token : Nat
  start : Place
  stop : Place

/-! ### Implied ends -/

/-- What the white space before a token is made of. -/
inductive Gap where
  | blanks
  | lineComment
  | blockComment

/-- White space and comments at the front of a text: whether something other than a comment follows,
whether there was a comment to the end of a line, and the size. -/
def gapFrom : Gap → (commented : Bool) → (size : Nat) → List Char → Bool × Bool × Nat
  | .blanks, commented, n, '/' :: '/' :: cs => gapFrom .lineComment commented (n + 2) cs
  | .blanks, commented, n, '/' :: '*' :: cs => gapFrom .blockComment commented (n + 2) cs
  | .blanks, commented, n, '/' :: _ => (false, commented, n + 1)
  | .blanks, commented, n, c :: cs =>
    if Lexeme.isBreakable c then gapFrom .blanks commented (n + 1) cs else (true, commented, n)
  | .lineComment, _, n, c :: cs =>
    if c == '\n' then gapFrom .blanks true (n + 1) cs
    else if Lexeme.isZero c then (true, true, n)
    else gapFrom .lineComment true (n + 1) cs
  | .blockComment, commented, n, '*' :: '/' :: cs => gapFrom .blanks commented (n + 2) cs
  | .blockComment, commented, n, c :: cs =>
    if Lexeme.isZero c then (true, commented, n) else gapFrom .blockComment commented (n + 1) cs
  | .lineComment, _, n, [] => (true, true, n)
  | _, commented, n, [] => (true, commented, n)

/-- Letters of any script. -/
def isLetter (c : Char) : Bool :=
  isWordChar c && !c.isDigit && c != '_'

/-- The word `in` or `instanceof` stands at the front, as far as its letters tell. -/
def startsRelation (cs : List Char) : Bool :=
  match cs with
  | 'i' :: 'n' :: rest =>
    if !rest.head?.any isLetter then true
    else match rest with
      | 's' :: 't' :: 'a' :: 'n' :: 'c' :: 'e' :: 'o' :: 'f' :: after => !after.head?.any isLetter
      | _ => false
  | _ => false

/-- Marks that continue a statement on a new line. -/
def continuingMarks : List Char :=
  "\x60,.;*%><=?^|&/:".toList

/-- Whether an implied end comes before the first token of a line, and the place up to which that
was looked at. -/
def endsBefore (inExpression inSignature : Bool) (p : Place) : Bool × Place :=
  let c := p.here
  let following := (p.advance 1).here
  if continuingMarks.contains c then (false, p)
  else if c == '\x7b' then (!inSignature, p)
  else if c == '(' || c == '[' then (!inExpression, p)
  else if c == '+' || c == '-' then (following == c, p.advance 1)
  else if c == '!' then (following != '=', p.advance 1)
  else (!startsRelation p.rest, p)

/-- What the search for an implied end finds. -/
structure ImpliedEnd where
  found : Bool
  /-- A comment to the end of a line was passed. -/
  commented : Bool
  /-- The place up to which the source was looked at. -/
  reached : Place

/-- A statement ends at the end of the source, before a closing brace, and at the end of a line that
the next line does not continue. A brace before a colon ends a statement only in an expression. -/
def impliedEndAt (inExpression inSignature : Bool) (p : Place) : ImpliedEnd :=
  let p := p.skipWhile fun c => Lexeme.isBreakable c && c != '\n'
  let c := p.here
  if Lexeme.isZero c then ⟨true, false, p⟩
  else if c == '\x7d' then
    let q := (p.advance 1).skipWhile Lexeme.isBreakable
    ⟨q.here != ':' || inExpression, false, q⟩
  else if c == '\n' then
    let (clear, commented, size) := gapFrom .blanks false 0 (p.advance 1).rest
    let q := (p.advance 1).advance size
    if clear then
      let (found, reached) := endsBefore inExpression inSignature q
      ⟨found, commented, reached⟩
    else ⟨false, commented, q⟩
  else ⟨false, false, p⟩

/-! ### Other tokens of a context -/

/-- The question mark of a conditional expression. Optional members, parameters and accesses have
question marks too, so it depends on what follows. -/
def conditionToken (token : Nat) (p : Place) : Option Lexed :=
  let start := p.skipWhile Lexeme.isBreakable
  let stop := start.advance 1
  let after := stop.skipWhile Lexeme.isBreakable
  if start.here != '?' || stop.here == '?' || stop.here == '.' then none
  else if after.here == ':' || after.here == ')' || after.here == ',' then none
  else if after.here == '.' && !(after.advance 1).here.isDigit then none
  else some ⟨token, start, stop⟩

/-- A comment that begins with `<!--` or `-->`. -/
def angleCommentToken (token : Nat) (p : Place) : Option Lexed :=
  let start := p.skipWhile Lexeme.isBreakable
  let opens := match start.rest with
    | '<' :: '!' :: '-' :: '-' :: _ => true
    | '-' :: '-' :: '>' :: _ => true
    | _ => false
  if opens then
    some ⟨token, start, start.skipWhile fun c => !(Lexeme.isLineEnd c || Lexeme.isZero c)⟩
  else none

/-- The characters of a template up to its end, an escape or a substitution; none if the template
does not end. -/
def templateTextFrom : (size : Nat) → List Char → Nat
  | n, c :: cs =>
    if c == '\x60' || c == '\\' then n
    else if c == '$' && cs.head? == some '\x7b' then n
    else if Lexeme.isZero c then 0
    else templateTextFrom (n + 1) cs
  | _, [] => 0

def templateToken (token : Nat) (p : Place) : Option Lexed :=
  match templateTextFrom 0 p.rest with
  | 0 => none
  | n => some ⟨token, p, p.advance n⟩

def endsElementText (c : Char) : Bool :=
  "<>\x7b\x7d&".toList.contains c || Lexeme.isZero c

/-- Text counts unless it is white space that begins with the end of a line. -/
def isTextFrom : (atLineEnd : Bool) → List Char → Bool
  | _, [] => false
  | atLineEnd, c :: cs =>
    if c == '\n' then isTextFrom true cs
    else if atLineEnd && Lexeme.isBreakable c then isTextFrom true cs
    else true

/-- The text of an element up to a tag, an expression or a reference, and whether it counts. -/
def elementTextAt (p : Place) : Bool × Place :=
  let text := p.rest.takeWhile fun c => !endsElementText c
  (isTextFrom false text, p.advance text.length)

/-! ### The next token -/

namespace Tables

/-- The number of a token that is known by its form. -/
def form (t : Token) : Nat :=
  (Token.forms.idxOf? t).getD 0

/-- The number of the mark between alternatives of a condition. It can be used exactly after an
expression. -/
def alternationMark (g : Tables) : Nat :=
  ((g.marks.find? fun (m, _) => m == ['|', '|']).map (·.2)).getD 0

/-- The tokens that depend on their context. -/
def contextToken (g : Tables) (valid : TokenSet) (p : Place) : Option Lexed :=
  let allows := fun t => valid.testBit (form t)
  let inExpression := valid.testBit g.alternationMark
  if allows .templateText then
    if allows .impliedEnd then none else templateToken (form .templateText) p
  else
    let (isText, q) := if allows .elementText then elementTextAt p else (false, p)
    if isText then some ⟨form .elementText, p, q⟩
    else if allows .impliedEnd || allows .impliedSignatureEnd then
      let e := impliedEndAt inExpression (allows .impliedSignatureEnd) q
      if e.found then some ⟨form .impliedEnd, p, p⟩
      else if !e.commented && allows .conditionMark && e.reached.here == '?' then
        conditionToken (form .conditionMark) e.reached
      else none
    else if allows .conditionMark then conditionToken (form .conditionMark) q
    else if inExpression || allows .escape || allows .regexText then none
    else angleCommentToken (form .angleComment) q

/-- Tokens that must follow the one before them at once, with the size of each. -/
def attachedForms : List (Token × (List Char → Nat)) :=
  [(.stringText '"', Lexeme.stringText '"'), (.stringText '\'', Lexeme.stringText '\''),
    (.attributeText '"', Lexeme.attributeText '"'), (.attributeText '\'', Lexeme.attributeText '\''),
    (.escape, Lexeme.escape), (.regexText, Lexeme.regexText),
    (.regexEnd, fun cs => if cs.head? == some '/' then 1 else 0), (.regexFlags, Lexeme.regexFlags)]

def attachedToken (valid : TokenSet) (p : Place) : Option Lexed :=
  attachedForms.findSome? fun (t, size) =>
    if valid.testBit (form t) then
      match size p.rest with
      | 0 => none
      | n => some ⟨form t, p, p.advance n⟩
    else none

/-- Other tokens that are known by their form. -/
def looseForms : List (Token × (List Char → Nat)) :=
  [(.number, Lexeme.number), (.dashedName, Lexeme.dashedName),
    (.privateIdentifier, Lexeme.privateIdentifier), (.reference, Lexeme.reference),
    (.interpreterLine, Lexeme.interpreterLine)]

/-- The identifier or word at the front of a text. -/
def nameToken (g : Tables) (valid : TokenSet) (cs : List Char) : Option (Nat × Nat) :=
  match Lexeme.identifier cs with
  | 0 => none
  | n =>
    let word := (g.words[String.ofList (cs.take n)]?).filter valid.testBit
    match word with
    | some token => some (token, n)
    | none => if valid.testBit (form .identifier) then some (form .identifier, n) else none

def markToken (g : Tables) (valid : TokenSet) (cs : List Char) : Option (Nat × Nat) :=
  (g.marks.find? fun (m, token) => valid.testBit token && m.isPrefixOf cs).map fun (m, token) =>
    (token, m.length)

/-- The longer of two tokens, the first if they are of one size. -/
def longer (a b : Option (Nat × Nat)) : Option (Nat × Nat) :=
  match a, b with
  | some (s, m), some (t, n) => if m < n then some (t, n) else some (s, m)
  | some a, none => some a
  | none, b => b

/-- The tokens that may stand after white space. -/
def looseToken (g : Tables) (valid : TokenSet) (p : Place) : Option Lexed :=
  let p := p.skipWhile Lexeme.isBetween
  let cs := p.rest
  if cs.isEmpty then
    if valid.testBit (form .sourceEnd) then some ⟨form .sourceEnd, p, p⟩ else none
  else
    let formed := looseForms.map fun (t, size) =>
      if valid.testBit (form t) then
        match size cs with
        | 0 => none
        | n => some (form t, n)
      else none
    let comment := match Lexeme.comment cs with
      | 0 => none
      | n => some (form .comment, n)
    let best := formed.foldl longer
      (longer comment (longer (g.markToken valid cs) (g.nameToken valid cs)))
    best.map fun (token, n) => ⟨token, p, p.advance n⟩

/-- The token at a place, of those that can be used there. -/
def nextToken (g : Tables) (valid : TokenSet) (p : Place) : Option Lexed :=
  ((g.contextToken valid p).or (attachedToken valid p)).or (g.looseToken valid p)

end Tables

end StyleAudit.Markup
