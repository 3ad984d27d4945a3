import StyleAudit.Numeric.Binary64

/-!
# Shortest decimal text

A number is written with the fewest decimal digits that read back as it, and with the nearest of
those. Small and large numbers have a power of ten, the others are written out.
-/

namespace StyleAudit.Binary64

/-- The least `j`, from `j` on, with `den ≤ num * 10 ^ j`. The bound is never reached by a number
that is a whole number of units. -/
def leadingZeros (num den : Nat) : Nat → Nat → Nat
  | 0, j => j
  | bound + 1, j => if den ≤ num * Nat.pow 10 j then j else leadingZeros num den bound (j + 1)

/-- The power of ten of the first place above the number `units`, which is not zero. -/
def magnitude (units : Nat) : Int :=
  if one ≤ units then (Nat.toDigits 10 (units / one)).length
  else 1 - leadingZeros units one 400 0

/-- How far `digits * 10 ^ power` is from `units`, in some measure that is the same for all
`digits`. -/
def distance (units digits : Nat) (power : Int) : Nat :=
  let a := units * Nat.pow 10 (-power).toNat
  let b := digits * one * Nat.pow 10 power.toNat
  (a - b) + (b - a)

/-- The decimals with `count` digits next to `units` that read back as it, the nearest first, and of
two equally near ones the even one first. -/
def candidates (units count : Nat) : List (Nat × Int) :=
  let power := magnitude units - count
  let below := units * Nat.pow 10 (-power).toNat / (one * Nat.pow 10 power.toNat)
  let readsBack := fun d => ofDecimal false d power == .finite false units
  let down := distance units below power
  let up := distance units (below + 1) power
  let near := if down < up || down == up && below % 2 == 0
    then [below, below + 1] else [below + 1, below]
  (near.filter readsBack).map (·, power)

/-- The shortest decimal for `units`, from `count` digits on. Seventeen digits always suffice. -/
def shortestFrom (units : Nat) : (bound count : Nat) → Nat × Int
  | 0, _ => (0, 0)
  | bound + 1, count =>
    match (candidates units count).head? with
    | some decimal => decimal
    | none => shortestFrom units bound (count + 1)

/-- The digits of the shortest decimal, without zeros at the end, and the place of the point: the
number of digits before it, which can be negative. -/
def shortestDigits (units : Nat) : List Char × Int :=
  let (digits, power) := shortestFrom units 17 1
  let all := Nat.toDigits 10 digits
  ((all.reverse.dropWhile (· == '0')).reverse, all.length + power)

/-- Digits written out, with a point. -/
def positional (digits : List Char) (point : Int) : List Char :=
  if point ≤ 0 then '0' :: '.' :: List.replicate (-point).toNat '0' ++ digits
  else
    let before := point.toNat
    if digits.length ≤ before then
      digits ++ List.replicate (before - digits.length) '0' ++ ['.', '0']
    else digits.take before ++ '.' :: digits.drop before

/-- Digits with a power of ten, which has a sign and at least two digits. -/
def scientific (digits : List Char) (point : Int) : List Char :=
  let power := point - 1
  let size := Nat.toDigits 10 power.natAbs
  let mantissa := match digits with
    | [] => ['0']
    | [d] => [d]
    | d :: ds => d :: '.' :: ds
  mantissa ++ 'e' :: (if power < 0 then '-' else '+') ::
    (List.replicate (2 - size.length) '0' ++ size)

/-- Numbers from a ten-thousandth up to sixteen places are written out. -/
def magnitudeText (units : Nat) : List Char :=
  if units == 0 then ['0', '.', '0']
  else
    let (digits, point) := shortestDigits units
    if -4 < point && point ≤ 16 then positional digits point else scientific digits point

/-- The text of a number. -/
def text : Binary64 → String
  | .nan => "nan"
  | .infinite negative => if negative then "-inf" else "inf"
  | .finite negative units =>
    String.ofList (if negative then '-' :: magnitudeText units else magnitudeText units)

/-- The text of a number in a report: a whole number is written without a point. -/
def plainText (b : Binary64) : String :=
  match b.toInt? with
  | some n => toString n
  | none => b.text

end StyleAudit.Binary64
