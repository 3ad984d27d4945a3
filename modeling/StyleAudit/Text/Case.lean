import StyleAudit.Text.CaseTable

/-!
# Letter case

`lower` and `upper` are the full mappings: a character may become several, and the capital sigma
becomes the final sigma at the end of a word.
-/

namespace StyleAudit.Text

/-- The small form of a character that does not depend on its neighbours. -/
def lowerChar (c : Char) : List Char :=
  if c.toNat < 128 then [c.toLower]
  else if c.toNat == 0x130 then ['i', Char.ofNat 0x307]
  else [CaseShift.apply lowerShifts c]

/-- The capital form of a character. -/
def upperChar (c : Char) : List Char :=
  if c.toNat < 128 then [c.toUpper]
  else match upperExpansions.lookup c.toNat with
    | some image => image.map Char.ofNat
    | none => [CaseShift.apply upperShifts c]

/-- A word ends between `before`, read backwards, and `after`. -/
def isWordEnd (before after : List Char) : Bool :=
  let cased := fun (cs : List Char) =>
    ((cs.dropWhile caseIgnorableRanges.contains).head?.map casedRanges.contains).getD false
  cased before && !cased after

/-- The small forms of a text that follows `before`, read backwards. -/
def lowerAfter (before : List Char) : List Char → List Char
  | [] => []
  | c :: cs =>
    if c.toNat == 0x3a3 then
      Char.ofNat (if isWordEnd before cs then 0x3c2 else 0x3c3) :: lowerAfter (c :: before) cs
    else lowerChar c ++ lowerAfter (c :: before) cs

def lower (cs : List Char) : List Char :=
  lowerAfter [] cs

def upper (cs : List Char) : List Char :=
  cs.flatMap upperChar

def lowered (s : String) : String :=
  String.ofList (lower s.toList)

/-- Only the ASCII letters change. -/
def asciiLowered (s : String) : String :=
  String.ofList (s.toList.map Char.toLower)

end StyleAudit.Text
