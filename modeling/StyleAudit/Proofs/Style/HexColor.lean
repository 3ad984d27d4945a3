import Mathlib.Data.List.Basic
import StyleAudit.Proofs.Path
import StyleAudit.Proofs.Style.Outline
import StyleAudit.Proofs.Text.Blank
import StyleAudit.Proofs.Text.Case
import StyleAudit.Style.Color

/-!
# Hexadecimal colours

A hexadecimal colour (`HexText`) has three, four, six or eight digits in any case, and the digits of
a short colour are doubled before two and two of them write a channel (`HexText.channels`).
`normal` brings all ways to write a colour to one spelling, and for hexadecimal colours this loses
nothing and joins all that it should:

* `HexText.normal_text_eq_iff`: two of them have the same spelling exactly if they have the same
  channels.
* `HexText.exists_of_normal_eq`: whatever has the spelling of one of them is, up to spaces, one of
  them.
-/

namespace StyleAudit.Style.Color

open StyleAudit.Text

/-! ### Small texts -/

/-- A text without spaces and without blanks at its ends. -/
def despaced (cs : List Char) : List Char :=
  (trim cs).filter (· != ' ')

/-- The spelling of an ASCII text that has no blanks at its ends. -/
theorem normal_of_ascii {cs : List Char} (hascii : ∀ c ∈ cs, c.toNat < 128) (htrim : trim cs = cs) :
    normal cs = expandHex ((cs.map Char.toLower).filter (· != ' ')) := by
  rw [normal, htrim, lower_of_ascii hascii]

theorem expandHex_of_head {cs : List Char} (h : cs.head? ≠ some '#') : expandHex cs = cs := by
  rw [expandHex.eq_def]
  split
  · exact absurd rfl h
  · rfl

theorem length_doubled (ds : List Char) : (ds.flatMap fun d => [d, d]).length = 2 * ds.length := by
  simp [List.length_flatMap, Nat.mul_comm]

theorem head?_expandHex (cs : List Char) : (expandHex cs).head? = cs.head? := by
  by_cases h : cs.head? = some '#'
  · obtain ⟨ds, rfl⟩ := List.head?_eq_some_iff.mp h
    rw [expandHex]
    split <;> rfl
  · rw [expandHex_of_head h]

/-! ### Hexadecimal digits -/

theorem toNat_lt_of_isAsciiHex {c : Char} (h : isAsciiHex c = true) : c.toNat < 128 := by
  have hle : ∀ {a b : Char}, a ≤ b → a.toNat ≤ b.toNat := UInt32.le_iff_toNat_le.mp
  rw [isAsciiHex, Bool.or_eq_true, Bool.or_eq_true] at h
  rcases h with (h | h) | h
  · exact Nat.lt_of_le_of_lt (hle (b := '9') (of_decide_eq_true (Bool.and_eq_true_iff.mp h).2))
      (by decide)
  · exact Nat.lt_of_le_of_lt (hle (b := 'f') (of_decide_eq_true (Bool.and_eq_true_iff.mp h).2))
      (by decide)
  · exact Nat.lt_of_le_of_lt (hle (b := 'F') (of_decide_eq_true (Bool.and_eq_true_iff.mp h).2))
      (by decide)

/-- What a hexadecimal digit is to all that reads a colour. -/
structure HexDigit (c : Char) : Prop where
  isBlank : isBlank c = false
  isWordChar : isWordChar c = true
  isLowerHex : isLowerHex c.toLower = true
  isAsciiOnly : isAsciiOnly c.toLower = true
  hexValue? : hexValue? c.toLower = hexValue? c
  value_lt : (Text.hexValue? c).getD 0 < 16
  toLower_eq : c.toLower = Nat.digitChar ((Text.hexValue? c).getD 0)
  notMem : c ∉ ['#', '$', '@', ' ', 'r', 'h']

theorem hexDigit_of_isAsciiHex {c : Char} (h : isAsciiHex c = true) : HexDigit c := by
  have hall := of_ascii (P := fun c => !isAsciiHex c || decide (isBlank c = false ∧
    isWordChar c = true ∧ isLowerHex c.toLower = true ∧ isAsciiOnly c.toLower = true ∧
    hexValue? c.toLower = hexValue? c ∧ (hexValue? c).getD 0 < 16 ∧
    c.toLower = Nat.digitChar ((hexValue? c).getD 0) ∧ c ∉ ['#', '$', '@', ' ', 'r', 'h']))
    (by decide) (toNat_lt_of_isAsciiHex h)
  rw [h, Bool.not_true, Bool.false_or] at hall
  obtain ⟨hblank, hword, hlower, honly, hvalue, hlt, hdigit, hmem⟩ := of_decide_eq_true hall
  exact ⟨hblank, hword, hlower, honly, hvalue, hlt, hdigit, hmem⟩

/-- What stands before the digits or the channels of a colour ends a word. -/
theorem isWordChar_of_mark {c : Char} (h : c ∈ ['#', '(']) : isWordChar c = false := by
  have hall : ['#', '('].all (! isWordChar ·) = true := by decide +kernel
  simpa using List.all_eq_true.mp hall c h

theorem isAsciiHex_of_isLowerHex {c : Char} (h : isLowerHex c = true) : isAsciiHex c = true := by
  rw [isAsciiHex, ← isLowerHex, h, Bool.true_or]

theorem isAsciiHex_of_toLower {c : Char} (h : isLowerHex c.toLower = true) :
    isAsciiHex c = true := by
  by_cases hc : c.toNat < 128
  · have hall := of_ascii (P := fun c => !isLowerHex c.toLower || isAsciiHex c)
      (by decide) hc
    rwa [h, Bool.not_true, Bool.false_or] at hall
  · rw [toLower_of_not_ascii (Nat.le_of_not_lt hc)] at h
    exact isAsciiHex_of_isLowerHex h

theorem isAsciiOnly_of_isLowerHex {c : Char} (h : isLowerHex c = true) : isAsciiOnly c = true := by
  have hall := of_ascii (P := fun c => !isLowerHex c || isAsciiOnly c) (by decide)
    (toNat_lt_of_isAsciiHex (isAsciiHex_of_isLowerHex h))
  rwa [h, Bool.not_true, Bool.false_or] at hall

/-! ### Channels -/

/-- The values that pairs of hexadecimal digits write. -/
def channelsOf : List Char → List Nat
  | a :: b :: ds => hexNumber [a, b] :: channelsOf ds
  | _ => []

/-- The two digits of a channel, in lower case. -/
def hexPair (n : Nat) : List Char :=
  [Nat.digitChar (n / 16), Nat.digitChar (n % 16)]

theorem hexNumber_pair (a b : Char) :
    hexNumber [a, b] = 16 * (hexValue? a).getD 0 + (hexValue? b).getD 0 := by
  simp [hexNumber]

theorem channelsOf_map_toLower : ∀ {ds : List Char}, ds.all isAsciiHex = true →
    channelsOf (ds.map Char.toLower) = channelsOf ds
  | [], _ => rfl
  | [_], _ => rfl
  | a :: b :: ds, h => by
    simp only [List.all_cons, Bool.and_eq_true] at h
    obtain ⟨ha, hb, hds⟩ := h
    rw [List.map_cons, List.map_cons, channelsOf, channelsOf, channelsOf_map_toLower hds,
      hexNumber_pair, hexNumber_pair, (hexDigit_of_isAsciiHex ha).hexValue?,
      (hexDigit_of_isAsciiHex hb).hexValue?]

/-- Pairs of digits are known by the values that they write, up to the case of letters. -/
theorem map_toLower_eq_flatMap_hexPair : ∀ {ds : List Char}, ds.all isAsciiHex = true →
    ds.length % 2 = 0 → ds.map Char.toLower = (channelsOf ds).flatMap hexPair
  | [], _, _ => rfl
  | [_], _, h => by cases h
  | a :: b :: ds, h, heven => by
    simp only [List.all_cons, Bool.and_eq_true] at h
    obtain ⟨ha, hb, hds⟩ := h
    have ha := hexDigit_of_isAsciiHex ha
    have hb := hexDigit_of_isAsciiHex hb
    have hlt := hb.value_lt
    have hdiv : hexNumber [a, b] / 16 = (hexValue? a).getD 0 := by
      rw [hexNumber_pair]
      omega
    have hmod : hexNumber [a, b] % 16 = (hexValue? b).getD 0 := by
      rw [hexNumber_pair]
      omega
    have hrest : ds.length % 2 = 0 := by
      rw [List.length_cons, List.length_cons] at heven
      omega
    rw [List.map_cons, List.map_cons, channelsOf, List.flatMap_cons, hexPair, hdiv, hmod,
      ← map_toLower_eq_flatMap_hexPair hds hrest, ha.toLower_eq, hb.toLower_eq]
    rfl

/-! ### Hexadecimal colours -/

/-- A hexadecimal colour as it is written, with its digits in any case. -/
structure HexText where
  digits : List Char
  isHex : digits.all isAsciiHex = true
  size : digits.length ∈ [3, 4, 6, 8]

namespace HexText

variable (x : HexText)

def text : List Char :=
  '#' :: x.digits

/-- The digits, where those of a short colour are doubled. -/
def fullDigits : List Char :=
  if x.digits.length < 6 then x.digits.flatMap fun d => [d, d] else x.digits

def channels : List Nat :=
  channelsOf x.fullDigits

theorem size_cases :
    x.digits.length = 3 ∨ x.digits.length = 4 ∨ x.digits.length = 6 ∨ x.digits.length = 8 := by
  simpa using x.size

theorem hexDigit {c : Char} (h : c ∈ x.digits) : HexDigit c :=
  hexDigit_of_isAsciiHex (List.all_eq_true.mp x.isHex c h)

theorem isHex_fullDigits : x.fullDigits.all isAsciiHex = true := by
  rw [fullDigits]
  split
  · rw [List.all_flatMap]
    refine List.all_eq_true.mpr fun d hd => ?_
    have hhex := List.all_eq_true.mp x.isHex d hd
    simp [hhex]
  · exact x.isHex

theorem even_fullDigits : x.fullDigits.length % 2 = 0 := by
  have hsize := x.size_cases
  rw [fullDigits]
  split
  · rw [List.length_flatMap]
    simp
  · omega

theorem trim_text : trim x.text = x.text := by
  refine trim_of_ends (fun c hc => ?_) fun c hc => ?_
  · obtain rfl := Option.some.inj hc
    decide
  · rcases List.mem_cons.mp (List.mem_of_getLast? hc) with rfl | hc
    · decide
    · exact (x.hexDigit hc).isBlank

theorem ascii_text : ∀ c ∈ x.text, c.toNat < 128 := by
  intro c hc
  rcases List.mem_cons.mp hc with rfl | hc
  · decide
  · exact toNat_lt_of_isAsciiHex (List.all_eq_true.mp x.isHex c hc)

/-- The one spelling of a hexadecimal colour has its full digits in lower case. -/
theorem normal_text : normal x.text = '#' :: x.fullDigits.map Char.toLower := by
  have hlower : (x.digits.map Char.toLower).all isLowerHex = true := by
    rw [List.all_map, List.all_eq_true]
    exact fun c hc => (x.hexDigit hc).isLowerHex
  have hfilter : (x.digits.map Char.toLower).filter (· != ' ') = x.digits.map Char.toLower := by
    refine List.filter_eq_self.mpr fun c hc => ?_
    have hhex := List.all_eq_true.mp hlower c hc
    rw [bne_iff_ne]
    rintro rfl
    exact absurd hhex (by decide)
  have hdouble : (x.digits.map Char.toLower).flatMap (fun d => [d, d]) =
      (x.digits.flatMap fun d => [d, d]).map Char.toLower := by
    rw [List.flatMap_map, List.map_flatMap]
    rfl
  rw [normal_of_ascii x.ascii_text x.trim_text, text, List.map_cons,
    List.filter_cons_of_pos (by decide), hfilter, fullDigits]
  change expandHex ('#' :: _) = _
  rw [expandHex, hlower, List.length_map, Bool.true_and, hdouble]
  rcases x.size_cases with h | h | h | h <;> simp [h]

/-- **Hexadecimal colours have the same spelling exactly if they have the same channels.** -/
theorem normal_text_eq_iff {x y : HexText} :
    normal x.text = normal y.text ↔ x.channels = y.channels := by
  rw [normal_text, normal_text, List.cons.injEq]
  constructor
  · rintro ⟨-, h⟩
    rw [channels, channels, ← channelsOf_map_toLower x.isHex_fullDigits, h,
      channelsOf_map_toLower y.isHex_fullDigits]
  · intro h
    refine ⟨rfl, ?_⟩
    rw [map_toLower_eq_flatMap_hexPair x.isHex_fullDigits x.even_fullDigits,
      map_toLower_eq_flatMap_hexPair y.isHex_fullDigits y.even_fullDigits]
    exact congrArg (·.flatMap hexPair) h

/-- A text that is brought to hexadecimal digits had such digits, perhaps half as many. -/
theorem expandHex_eq_cons {cs ds : List Char} (h : expandHex cs = '#' :: ds)
    (hds : ds.all isLowerHex = true) (hsize : ds.length = 6 ∨ ds.length = 8) :
    ∃ ds', cs = '#' :: ds' ∧ ds'.all isLowerHex = true ∧ ds'.length ∈ [3, 4, 6, 8] := by
  by_cases hhash : cs.head? = some '#'
  · obtain ⟨ds', rfl⟩ := List.head?_eq_some_iff.mp hhash
    refine ⟨ds', rfl, ?_⟩
    rw [expandHex] at h
    split at h
    · rename_i hshort
      rw [Bool.and_eq_true, Bool.or_eq_true, beq_iff_eq, beq_iff_eq] at hshort
      refine ⟨hshort.1, ?_⟩
      rcases hshort.2 with h3 | h4
      · simp [h3]
      · simp [h4]
    · obtain rfl := (List.cons.inj h).2
      refine ⟨hds, ?_⟩
      rcases hsize with h6 | h8
      · simp [h6]
      · simp [h8]
  · rw [expandHex_of_head hhash] at h
    rw [h] at hhash
    exact absurd rfl hhash

theorem size_fullDigits : x.fullDigits.length = 6 ∨ x.fullDigits.length = 8 := by
  have hsize := x.size_cases
  rw [fullDigits]
  split
  · have htwice := length_doubled x.digits
    omega
  · omega

/-- **Only hexadecimal digits are brought to the spelling of a hexadecimal colour.**  A text with
the same spelling is, up to spaces, a hexadecimal colour with the same channels. -/
theorem exists_of_normal_eq {x : HexText} {cs : List Char} (h : normal cs = normal x.text) :
    ∃ y : HexText, despaced cs = y.text ∧ y.channels = x.channels := by
  have hfull : (x.fullDigits.map Char.toLower).all isLowerHex = true := by
    rw [List.all_map, List.all_eq_true]
    exact fun c hc =>
      (hexDigit_of_isAsciiHex (List.all_eq_true.mp x.isHex_fullDigits c hc)).isLowerHex
  have hexpand := h
  rw [normal, x.normal_text] at hexpand
  obtain ⟨ds, hcs, hds, hsize⟩ := expandHex_eq_cons hexpand hfull
    (by rw [List.length_map]; exact x.size_fullDigits)
  have honly : ('#' :: ds).all isAsciiOnly = true := by
    rw [List.all_cons, List.all_eq_true.mpr fun c hc =>
      isAsciiOnly_of_isLowerHex (List.all_eq_true.mp hds c hc)]
    rfl
  -- no character of another script becomes one of these, so the text has them in some case
  have hsmall : (despaced cs).map Char.toLower = '#' :: ds := map_toLower_of_lower hcs honly
  obtain ⟨c, digits, hdespaced, hc, hdigits⟩ := List.map_eq_cons_iff.mp hsmall
  obtain rfl := eq_of_toLower_eq hc (by decide)
  subst hdigits
  rw [List.all_map, List.all_eq_true] at hds
  rw [List.length_map] at hsize
  let y : HexText :=
    ⟨digits, List.all_eq_true.mpr fun c hc => isAsciiHex_of_toLower (hds c hc), hsize⟩
  have hy : y.text.map Char.toLower = (lower (trim cs)).filter (· != ' ') := by
    rw [hcs]
    rfl
  refine ⟨y, hdespaced, normal_text_eq_iff.mp ?_⟩
  rw [← h, normal_of_ascii y.ascii_text y.trim_text, hy, List.filter_filter, normal]
  simp only [Bool.and_self]

end HexText

end StyleAudit.Style.Color
