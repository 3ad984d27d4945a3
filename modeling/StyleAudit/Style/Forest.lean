import StyleAudit.Style.Lexeme

/-!
# Forests of style tokens

`Token.nest` matches the brackets of a list of lexemes. A closer that does not fit the innermost
open bracket is a fault, and a bracket that is still open at the end is closed there. `parse` reads
a text as a forest, and `firstFault` finds the first fault of a forest in document order.
-/

namespace StyleAudit.Style

/-- An open bracket: what it will become, and the tokens before it, last first. -/
structure Frame where
  line : Nat
  function? : Option String
  bracket : Bracket
  before : List Token

/-- The token of a frame whose content is given last first. -/
def Frame.close (f : Frame) (content : List Token) : Token :=
  match f.function? with
  | some name => .function f.line name content.reverse
  | none => .block f.line f.bracket content.reverse

/-- The forest at the end of the text: all open brackets are closed, innermost first. -/
def closeAll (tokens : List Token) (frames : List Frame) : List Token :=
  (frames.foldl (fun content f => f.close content :: f.before) tokens).reverse

/-- Matches brackets. `tokens` are those of the innermost open bracket, last first. -/
def Token.nest : List Lexeme → (tokens : List Token) → (frames : List Frame) → List Token
  | [], tokens, frames => closeAll tokens frames
  | ⟨line, .leaf l⟩ :: rest, tokens, frames => nest rest (.leaf line l :: tokens) frames
  | ⟨line, .opener b⟩ :: rest, tokens, frames => nest rest [] (⟨line, none, b, tokens⟩ :: frames)
  | ⟨line, .function name⟩ :: rest, tokens, frames =>
    nest rest [] (⟨line, some name, .round, tokens⟩ :: frames)
  | ⟨line, .closer b⟩ :: rest, tokens, frames =>
    match frames with
    | [] => nest rest (.leaf line (.fault (.unmatched b)) :: tokens) []
    | f :: outer =>
      if f.bracket = b then nest rest (f.close tokens :: f.before) outer
      else nest rest (.leaf line (.fault (.unmatched b)) :: tokens) (f :: outer)

/-- The forest that a text is read as. -/
def parse (source : List Char) : List Token :=
  Token.nest (lexemes source) [] []

/-- Why a stylesheet is refused, and the line of it. -/
structure ParseError where
  message : String
  line : Nat
deriving DecidableEq, Repr

/-- The fault of a leaf: what the reader marked, or a literal that occurs in `)]}`. The reader makes
no such literal: those it makes are `-->`, the `longLiterals`, and single characters that are no
brackets. -/
def Leaf.fault? : Leaf → Option String
  | .fault cause => some cause.message
  | .literal text =>
    if Text.occursIn text.toList [')', ']', '}'] then some ("Unmatched " ++ text) else none
  | _ => none

mutual

/-- The first fault of a token in document order. -/
def Token.firstFault : Token → Option ParseError
  | .leaf line l => l.fault?.map (⟨·, line⟩)
  | .block _ _ content => firstFault content
  | .function _ _ arguments => firstFault arguments

/-- The first fault of a forest in document order. -/
def firstFault : List Token → Option ParseError
  | [] => none
  | t :: ts =>
    match t.firstFault with
    | some e => some e
    | none => firstFault ts

end

/-- The forest of a text without faults. -/
def parseSound (source : List Char) : Except ParseError (List Token) :=
  let forest := parse source
  match firstFault forest with
  | some e => .error e
  | none => .ok forest

end StyleAudit.Style
