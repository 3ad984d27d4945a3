/-!
# Binary numbers of 64 bits

The numbers that are read from stylesheets and configurations. A finite one is a whole number of
units of `2 ^ (-1074)`, the smallest positive number, with at most 53 significant bits. Rounding is
to the nearest such number, and of two equally near ones to the one with an even last bit.
-/

namespace StyleAudit

inductive Binary64 where
  | nan
  | infinite (negative : Bool)
  | finite (negative : Bool) (units : Nat)
deriving DecidableEq, Repr

namespace Binary64

/-- How many units make one. -/
def one : Nat := Nat.pow 2 1074

/-- The units of the first power of two that is too large. -/
def limit : Nat := Nat.pow 2 2098

/-- The whole number nearest to `n / d`; halves go to the even neighbour. -/
def roundHalfEven (n d : Nat) : Nat :=
  let q := n / d
  let r := n % d
  if 2 * r < d then q else if d < 2 * r then q + 1 else q + q % 2

/-- The number nearest to `num / den`. -/
def ofRatio (negative : Bool) (num den : Nat) : Binary64 :=
  let n := num * one
  let quantum := Nat.pow 2 ((n / den).log2 + 1 - 53)
  let units := roundHalfEven n (den * quantum) * quantum
  if units < limit then .finite negative units else .infinite negative

/-- The number nearest to `digits * 10 ^ power`. Powers that are out of reach are not computed. -/
def ofDecimal (negative : Bool) (digits : Nat) (power : Int) : Binary64 :=
  let size : Int := (Nat.toDigits 10 digits).length + power
  if digits == 0 || size < -330 then .finite negative 0
  else if 330 < size then .infinite negative
  else if 0 ≤ power then ofRatio negative (digits * Nat.pow 10 power.toNat) 1
  else ofRatio negative digits (Nat.pow 10 (-power).toNat)

/-- The number nearest to a whole number of a size, unless that is too large. -/
def ofNat? (negative : Bool) (size : Nat) : Option Binary64 :=
  match ofRatio negative size 1 with
  | .infinite _ => none
  | b => some b

/-- The number nearest to a whole number, unless that is too large. -/
def ofInt? : Int → Option Binary64
  | .ofNat size => ofNat? false size
  | .negSucc n => ofNat? true (n + 1)

/-- The units of a finite number with its sign. -/
def signed (negative : Bool) (units : Nat) : Int :=
  if negative then -(units : Int) else units

/-- A place on a line for everything but `nan`, in units; the infinite numbers lie beyond all
others. -/
def place? : Binary64 → Option Int
  | .nan => none
  | .infinite negative => some (signed negative limit)
  | .finite negative units => some (signed negative units)

/-- A comparison of places; `nan` has none, and `unordered` is the answer for it. -/
def compareWith (test : Int → Int → Bool) (unordered : Bool) (a b : Binary64) : Bool :=
  match a.place?, b.place? with
  | some x, some y => test x y
  | _, _ => unordered

def isZero : Binary64 → Bool
  | .finite _ units => units == 0
  | _ => false

/-- The whole number that is meant, if it is one. -/
def toInt? : Binary64 → Option Int
  | .finite negative units =>
    if units % one == 0 then some (signed negative (units / one)) else none
  | _ => none

end Binary64

end StyleAudit
