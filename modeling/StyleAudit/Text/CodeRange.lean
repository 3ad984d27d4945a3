/-!
# Ranges of code points

Character classes that follow the Unicode database are stored as lists of closed ranges.
-/

namespace StyleAudit.Text

/-- Closed ranges of code points. -/
abbrev CodeRanges := List (Nat × Nat)

/-- The character lies in one of the ranges. -/
def CodeRanges.contains (ranges : CodeRanges) (c : Char) : Bool :=
  ranges.any fun r => r.1 ≤ c.toNat && c.toNat ≤ r.2

end StyleAudit.Text
