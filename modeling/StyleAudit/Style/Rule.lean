import StyleAudit.Style.Printer

/-!
# Rules

A forest read as statements: a rule is a prelude with a block in curly brackets. What ends at a
semicolon is no rule. A block after the mark `#` or `@` is an interpolation and belongs to the
prelude.
-/

namespace StyleAudit.Style

inductive Rule where
  | mk (prelude : List Token) (body : List Rule)

/-- The prelude ends in a mark after which a block is an interpolation. -/
def endsInMark (prelude : List Token) : Bool :=
  match prelude.getLast? with
  | some t => t.isLiteral "#" || t.isLiteral "@"
  | none => false

/-- The prelude after one more token that is no block of a rule. -/
def extendPrelude (prelude : List Token) (t : Token) : List Token :=
  if t.isBlank then if prelude.isEmpty then [] else prelude ++ [t]
  else if t.isLiteral ";" then []
  else prelude ++ [t]

mutual

/-- The rules in the block of a token. -/
def Token.rules : Token → List Rule
  | .leaf _ _ => []
  | .function _ _ _ => []
  | .block _ _ content => rules [] content

/-- The rules of a forest that follows `prelude`. -/
def rules (prelude : List Token) : List Token → List Rule
  | [] => []
  | t :: ts =>
    if t.isCurly && !endsInMark prelude then
      if prelude.isEmpty then rules [] ts
      else .mk prelude t.rules :: rules [] ts
    else rules (extendPrelude prelude t) ts

end

end StyleAudit.Style
