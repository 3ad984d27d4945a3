/-!
# Blanks

The blank characters, and the operations on texts that are defined by them: `trim` removes blanks at
both ends, `words` gives the maximal runs without a blank. Texts are lists of characters here.
-/

namespace StyleAudit.Text

/-- The white space of all scripts, the line separators and the four information separators. -/
def isBlank (c : Char) : Bool :=
  let n := c.toNat
  (9 ≤ n && n ≤ 13) || (0x1c ≤ n && n ≤ 0x20) || n == 0x85 || n == 0xa0 || n == 0x1680 ||
    (0x2000 ≤ n && n ≤ 0x200a) || n == 0x2028 || n == 0x2029 || n == 0x202f || n == 0x205f ||
    n == 0x3000

/-- The pieces between the characters that satisfy `p`; there is one more piece than such
characters. -/
def splitWhere (p : Char → Bool) : List Char → List (List Char)
  | [] => [[]]
  | c :: cs =>
    if p c then [] :: splitWhere p cs
    else match splitWhere p cs with
      | [] => [[c]]
      | piece :: pieces => (c :: piece) :: pieces

def trimLeft (cs : List Char) : List Char :=
  cs.dropWhile isBlank

def trimRight (cs : List Char) : List Char :=
  (cs.reverse.dropWhile isBlank).reverse

/-- The text without blanks at either end. -/
def trim (cs : List Char) : List Char :=
  trimRight (trimLeft cs)

/-- The maximal runs without a blank, in order. -/
def words (cs : List Char) : List (List Char) :=
  (splitWhere isBlank cs).filter (! ·.isEmpty)

end StyleAudit.Text
