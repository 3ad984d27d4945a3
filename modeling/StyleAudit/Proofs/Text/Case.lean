import Mathlib.Data.List.Basic
import StyleAudit.Text.Case

/-!
# Small letters

Texts of ASCII characters are turned small one character at a time (`lower_of_ascii`), and what is
to be known about such a character can be checked for all of them (`of_ascii`).

Capitals of other scripts become small letters of other scripts, with two exceptions: the Kelvin
sign becomes a `k`, and the capital `i` with a dot an `i` with a dot above it.  So a text whose
small form is ASCII and has neither letter was ASCII before (`map_toLower_of_lower`).
-/

namespace StyleAudit.Text

/-! ### ASCII -/

/-- What holds of all ASCII characters is checked one by one. -/
theorem of_ascii {P : Char → Bool} (h : (List.range 128).all (fun n => P (Char.ofNat n)) = true)
    {c : Char} (hc : c.toNat < 128) : P c = true := by
  have hall := List.all_eq_true.mp h c.toNat (List.mem_range.mpr hc)
  rwa [Char.ofNat_toNat] at hall

/-! ### Texts in small letters -/

/-- Without capital sigmas a text is turned small one character at a time. -/
theorem lower_eq_flatMap {cs : List Char} (h : ∀ c ∈ cs, c.toNat ≠ 0x3a3) :
    lower cs = cs.flatMap lowerChar := by
  rw [lower]
  generalize ([] : List Char) = before
  induction cs generalizing before with
  | nil => rfl
  | cons c cs ih =>
    obtain ⟨hc, hcs⟩ := List.forall_mem_cons.mp h
    rw [lowerAfter, if_neg (by simpa using hc), ih hcs, List.flatMap_cons]

theorem flatMap_lowerChar {cs : List Char} (h : ∀ c ∈ cs, lowerChar c = [c]) :
    cs.flatMap lowerChar = cs := by
  rw [List.flatMap_congr h]
  exact List.flatMap_singleton' cs

theorem lower_of_ascii {cs : List Char} (h : ∀ c ∈ cs, c.toNat < 128) :
    lower cs = cs.map Char.toLower := by
  have hchar : ∀ c ∈ cs, lowerChar c = [c.toLower] := fun c hc => by rw [lowerChar, if_pos (h c hc)]
  rw [lower_eq_flatMap fun c hc => by have := h c hc; omega, List.flatMap_congr hchar,
    ← List.map_eq_flatMap]

theorem toLower_of_not_ascii {c : Char} (h : 128 ≤ c.toNat) : c.toLower = c := by
  refine dif_neg fun hc => ?_
  have hle : c.toNat ≤ 90 := UInt32.le_iff_toNat_le.mp hc.2
  omega

/-- Only a letter is the small form of another character. -/
theorem eq_of_toLower_eq {c d : Char} (h : c.toLower = d) (hd : d.isAlpha = false) : c = d := by
  by_cases hc : c.toNat < 128
  · have hall := of_ascii (P := fun c => c.toLower == c || c.toLower.isAlpha) (by decide) hc
    rw [h, hd, Bool.or_false, beq_iff_eq] at hall
    exact hall.symm
  · rw [← h, toLower_of_not_ascii (Nat.le_of_not_lt hc)]

theorem eq_of_map_toLower_eq {cs ds : List Char} (h : cs.map Char.toLower = ds)
    (hds : ∀ d ∈ ds, d.isAlpha = false) : cs = ds := by
  subst h
  have hid : ∀ c ∈ cs, c.toLower = c := fun c hc =>
    (eq_of_toLower_eq rfl (hds c.toLower (List.mem_map_of_mem hc))).symm
  rw [List.map_congr_left hid, List.map_id']

/-! ### Capitals of other scripts -/

/-- The images of the shift are no ASCII characters, unless it begins with some.  The exception is
the Kelvin sign. -/
def CaseShift.staysBeyond (s : CaseShift) : Bool :=
  decide (s.last < 128 ∨
    128 ≤ s.first + s.shift ∧ (s.last + s.shift < 0xd800 ∨
      0xdfff < s.first + s.shift ∧ s.last + s.shift < 0x110000) ∨
    s.first = 0x212a ∧ s.last = 0x212a ∧ s.shift = -8383)

theorem staysBeyond_lowerShifts : lowerShifts.all CaseShift.staysBeyond = true := by
  decide

theorem toNat_apply_lowerShifts {c : Char} (h : 128 ≤ c.toNat) :
    128 ≤ (CaseShift.apply lowerShifts c).toNat ∨ CaseShift.apply lowerShifts c = 'k' := by
  rw [CaseShift.apply]
  cases hs : lowerShifts.find? (·.covers c.toNat) with
  | none => exact Or.inl h
  | some s =>
    have hcovers := List.find?_some hs
    have hbeyond := of_decide_eq_true
      (List.all_eq_true.mp staysBeyond_lowerShifts s (List.mem_of_find?_eq_some hs))
    simp only [CaseShift.covers, Bool.and_eq_true, decide_eq_true_eq] at hcovers
    obtain ⟨⟨hfirst, hlast⟩, -⟩ := hcovers
    dsimp only
    rcases hbeyond with hlow | ⟨hlow, hvalid⟩ | ⟨hkelvin, hkelvin', hshift⟩
    · omega
    · have hchar : ((c.toNat : Int) + s.shift).toNat.isValidChar := by
        rw [Nat.isValidChar]
        omega
      rw [Char.ofNat, dif_pos hchar]
      change 128 ≤ ((c.toNat : Int) + s.shift).toNat ∨ _
      omega
    · have hc : c.toNat = 0x212a := by omega
      rw [hc, hshift]
      exact Or.inr rfl

/-- An ASCII character that is the small form of ASCII characters only. -/
def isAsciiOnly (c : Char) : Bool :=
  c.toNat < 128 && c != 'i' && c != 'k'

theorem exists_mem_lowerChar {c : Char} (h : 128 ≤ c.toNat) :
    ∃ d ∈ lowerChar c, d ≠ ' ' ∧ isAsciiOnly d = false := by
  rw [lowerChar, if_neg (Nat.not_lt.mpr h)]
  split
  · exact ⟨'i', List.mem_cons_self, by decide, rfl⟩
  · refine ⟨_, List.mem_singleton_self _, ?_⟩
    rcases toNat_apply_lowerShifts h with hbeyond | hk
    · constructor
      · intro he
        rw [he] at hbeyond
        exact absurd hbeyond (by decide)
      · rw [isAsciiOnly, decide_eq_false (Nat.not_lt.mpr hbeyond)]
        rfl
    · rw [hk]
      exact ⟨by decide, rfl⟩

theorem exists_mem_lowerAfter {c : Char} (h : 128 ≤ c.toNat) (before cs : List Char) :
    ∃ d ∈ lowerAfter before (c :: cs), d ≠ ' ' ∧ isAsciiOnly d = false := by
  rw [lowerAfter]
  split
  · refine ⟨_, List.mem_cons_self, ?_⟩
    split <;> exact ⟨by decide, rfl⟩
  · obtain ⟨d, hd, hforeign⟩ := exists_mem_lowerChar h
    exact ⟨d, List.mem_append_left _ hd, hforeign⟩

/-- **A text whose small form is plain ASCII is itself ASCII**, up to spaces, and differs from the
small form in the case of its letters only. -/
theorem map_toLower_of_lowerAfter {before cs ds : List Char}
    (h : (lowerAfter before cs).filter (· != ' ') = ds) (hds : ds.all isAsciiOnly = true) :
    (cs.filter (· != ' ')).map Char.toLower = ds := by
  induction cs generalizing before ds with
  | nil => exact h
  | cons c cs ih =>
    by_cases hc : c.toNat < 128
    · rw [lowerAfter, if_neg (by rw [beq_iff_eq]; omega), lowerChar, if_pos hc,
        List.singleton_append] at h
      by_cases hspace : c = ' '
      · rw [hspace, List.filter_cons_of_neg (by decide)] at h
        rw [hspace, List.filter_cons_of_neg (by decide)]
        exact ih h hds
      · have hsmall : c.toLower ≠ ' ' := fun he => hspace (eq_of_toLower_eq he (by decide))
        rw [List.filter_cons_of_pos (by simpa using hsmall)] at h
        rw [List.filter_cons_of_pos (by simpa using hspace), List.map_cons]
        subst h
        rw [ih rfl (Bool.and_eq_true_iff.mp hds).2]
    · obtain ⟨d, hd, hspace, hforeign⟩ := exists_mem_lowerAfter (Nat.le_of_not_lt hc) before cs
      have hmem : d ∈ ds := h ▸ List.mem_filter.mpr ⟨hd, by simpa using hspace⟩
      rw [List.all_eq_true.mp hds d hmem] at hforeign
      cases hforeign

theorem map_toLower_of_lower {cs ds : List Char} (h : (lower cs).filter (· != ' ') = ds)
    (hds : ds.all isAsciiOnly = true) : (cs.filter (· != ' ')).map Char.toLower = ds :=
  map_toLower_of_lowerAfter h hds

end StyleAudit.Text
