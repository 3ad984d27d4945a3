import StyleAudit.Numeric.Binary64
import StyleAudit.Text.Blank
import StyleAudit.Text.Digit

/-!
# Numerals

Reading a number from text. Blanks may stand around it, its digits may be of any script and have
single underscores between them, and the names of infinity and of no number are known in any case.
-/

namespace StyleAudit.Numeral

open StyleAudit.Text

/-! ### The parts of a decimal -/

/-- A decimal as written, without its sign. -/
structure Decimal where
  digits : List Char
  power : Int

/-- The number that a run of ASCII digits writes. -/
def natOf (ds : List Char) : Nat :=
  ds.foldl (fun n d => 10 * n + (d.toNat - '0'.toNat)) 0

/-- The whole number that a sign and digits write; at least one digit. -/
def signedNat? (cs : List Char) : Option Int :=
  let (negative, ds) := match cs with
    | '-' :: ds => (true, ds)
    | '+' :: ds => (false, ds)
    | ds => (false, ds)
  if ds.isEmpty || !ds.all Char.isDigit then none
  else some (if negative then -(natOf ds : Int) else natOf ds)

/-- A whole text of ASCII digits, at most one point and an optional power of ten. -/
def decimal? (cs : List Char) : Option Decimal :=
  let whole := cs.takeWhile Char.isDigit
  let rest := cs.dropWhile Char.isDigit
  let (fraction, rest) := match rest with
    | '.' :: r => (r.takeWhile Char.isDigit, r.dropWhile Char.isDigit)
    | r => ([], r)
  if whole.isEmpty && fraction.isEmpty then none
  else
    let decimal := fun (power : Int) => Decimal.mk (whole ++ fraction) (power - fraction.length)
    match rest with
    | [] => some (decimal 0)
    | e :: r => if e == 'e' || e == 'E' then (signedNat? r).map decimal else none

/-- The number that a decimal means. -/
def Decimal.value (d : Decimal) (negative : Bool) : Binary64 :=
  .ofDecimal negative (natOf d.digits) d.power

/-! ### Whole numerals -/

/-- ASCII digits and spaces in place of those of other scripts. -/
def toAscii (c : Char) : Char :=
  if c.toNat < 127 then c
  else if isBlank c then ' '
  else match digitValue? c with
    | some d => Char.ofNat ('0'.toNat + d)
    | none => '?'

def isAsciiSpace (c : Char) : Bool :=
  c == ' ' || (9 ≤ c.toNat && c.toNat ≤ 13)

/-- The text without underscores, each of which has to stand between two digits. -/
def withoutUnderscores? (before : Char) : List Char → Option (List Char)
  | [] => if before == '_' then none else some []
  | c :: cs =>
    if c == '_' then if before.isDigit then withoutUnderscores? c cs else none
    else if before == '_' && !c.isDigit then none
    else (withoutUnderscores? c cs).map (c :: ·)

/-- A numeral without sign. -/
def unsigned? (negative : Bool) (cs : List Char) : Option Binary64 :=
  let name := cs.map Char.toLower
  if name == "inf".toList || name == "infinity".toList then some (.infinite negative)
  else if name == "nan".toList then some .nan
  else (decimal? cs).map (·.value negative)

/-- The number that a text writes. -/
def read? (text : List Char) : Option Binary64 := do
  let ascii := text.map toAscii
  let inner := ((ascii.dropWhile isAsciiSpace).reverse.dropWhile isAsciiSpace).reverse
  match ← withoutUnderscores? ' ' inner with
  | '-' :: cs => unsigned? true cs
  | '+' :: cs => unsigned? false cs
  | cs => unsigned? false cs

end StyleAudit.Numeral
