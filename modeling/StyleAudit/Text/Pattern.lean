/-!
# Patterns and the pieces they cut a text into

A pattern looks at the front of a text, and at the character before it, and either fails or reports
a value and what is left of the text. Moving a pattern over a text from left to right cuts the text
into pieces: a hit where the pattern succeeds, and a plain character where it fails. Replacing,
collecting and searching are read off the pieces, and the pieces joined give the text back.
-/

namespace StyleAudit.Text

abbrev Pattern (α : Type) := Option Char → List Char → Option (α × List Char)

/-- One step of a pattern over a text. -/
inductive Piece (α : Type) where
  | plain (c : Char)
  | hit (value : α) (text : List Char)

namespace Piece

variable {α : Type}

/-- The stretch of the text that the piece covers. -/
def text : Piece α → List Char
  | .plain c => [c]
  | .hit _ t => t

def value? : Piece α → Option α
  | .plain _ => none
  | .hit a _ => some a

end Piece

namespace Pattern

variable {α : Type}

/-- The pieces of a text whose first `skip` characters belong to the hit before it. -/
def piecesFrom (p : Pattern α) : Option Char → Nat → List Char → List (Piece α)
  | _, _, [] => []
  | _, skip + 1, c :: cs => piecesFrom p (some c) skip cs
  | before, 0, c :: cs =>
    match p before (c :: cs) with
    | none => .plain c :: piecesFrom p (some c) 0 cs
    | some (a, rest) =>
      .hit a (c :: cs.take (cs.length - rest.length)) ::
        piecesFrom p (some c) (cs.length - rest.length) cs

/-- The pieces that the pattern cuts a text into. -/
def pieces (p : Pattern α) (cs : List Char) : List (Piece α) :=
  p.piecesFrom none 0 cs

/-- The values of all hits, in order. -/
def findAll (p : Pattern α) (cs : List Char) : List α :=
  (p.pieces cs).filterMap Piece.value?

/-- The value of the first hit. -/
def find? (p : Pattern α) (cs : List Char) : Option α :=
  (p.findAll cs).head?

/-- The text with every hit replaced. -/
def replace (p : Pattern α) (f : α → List Char) (cs : List Char) : List Char :=
  (p.pieces cs).flatMap fun piece =>
    match piece with
    | .plain c => [c]
    | .hit a _ => f a

end Pattern

/-- What is left after `lead` at the front of a text. -/
def dropLead? : (lead cs : List Char) → Option (List Char)
  | [], cs => some cs
  | _ :: _, [] => none
  | l :: lead, c :: cs => if l == c then dropLead? lead cs else none

/-- Splits a text at the first place where `mark` stands: what is before it, and what is after it. -/
def splitAtMark? (mark : List Char) : List Char → Option (List Char × List Char)
  | [] => (dropLead? mark []).map ([], ·)
  | c :: cs =>
    match dropLead? mark (c :: cs) with
    | some rest => some ([], rest)
    | none => (splitAtMark? mark cs).map fun (front, rest) => (c :: front, rest)

/-- Whether a list stands somewhere in a text. -/
def occursIn (word cs : List Char) : Bool :=
  (splitAtMark? word cs).isSome

/-- The rest of a quoted text, up to and including the closing `quote`. A backslash takes the next
character with it, and a character that fails `allowed` spoils the quotation. -/
def quotedRest? (quote : Char) (allowed escapable : Char → Bool) :
    List Char → Option (List Char × List Char)
  | [] => none
  | c :: cs =>
    if c == quote then some ([c], cs)
    else if c == '\\' then
      match cs with
      | [] => none
      | d :: ds =>
        if escapable d then
          (quotedRest? quote allowed escapable ds).map fun (t, rest) => (c :: d :: t, rest)
        else none
    else if allowed c then
      (quotedRest? quote allowed escapable cs).map fun (t, rest) => (c :: t, rest)
    else none

end StyleAudit.Text
