import Mathlib.Data.List.Induction
import StyleAudit.Proofs.Text.Case
import StyleAudit.Text.Blank

/-!
# Small forms

A text in small letters stays as it is when it is turned small again, also if characters are taken
out of it (`lowered_of_mem_lower`, `lower_of_lowered`), and turning a text small makes no blanks
(`isBlank_of_mem_head?_lower`, `isBlank_of_mem_getLast?_lower`).  Both are facts about single
characters.  What a character becomes depends on its neighbours only if it is the capital sigma
(`SmallOf`), and every character that it can become is its own small form, wherever it stands
(`Lowered`).

For the capitals of the table this means that no shift leads to a code point that another shift
moves.  The table is checked for pairs of shifts (`CaseShift.avoids`): the images of the one lie
before the code points of the other, behind them, or between them.
-/

namespace StyleAudit.Text

/-! ### Images of the table -/

namespace CaseShift

/-- The image of the first code point. -/
def low (s : CaseShift) : Nat :=
  (s.first + s.shift).toNat

/-- The image of the last code point. -/
def high (s : CaseShift) : Nat :=
  (s.last + s.shift).toNat

/-- No image lies between the code points. -/
def misses (s : CaseShift) (first last : Nat) : Bool :=
  Nat.blt s.high first || Nat.blt last s.low

/-- No image is a code point that the other shift covers.  The tests are those that the kernel
computes with, for there are many pairs. -/
def avoids (s t : CaseShift) : Bool :=
  s.misses t.first t.last ||
    Nat.beq t.stride 2 && (Nat.beq s.stride 2 || Nat.beq s.first s.last) &&
      !Nat.beq (s.low % 2) (t.first % 2)

variable {s t : CaseShift} {n : Nat}

theorem covers_iff :
    s.covers n = true ↔ s.first ≤ n ∧ n ≤ s.last ∧ (n - s.first) % s.stride = 0 := by
  simp only [covers, Bool.and_eq_true, decide_eq_true_eq, beq_iff_eq, and_assoc]

theorem not_between_of_misses {first last : Nat} (h : s.misses first last = true)
    (hn : s.covers n = true) :
    ¬ (first ≤ (n + s.shift).toNat ∧ (n + s.shift).toNat ≤ last) := by
  obtain ⟨hfirst, hlast, -⟩ := covers_iff.mp hn
  simp only [misses, low, high, Bool.or_eq_true, Nat.blt_eq] at h
  omega

theorem not_covers_of_avoids (h : s.avoids t = true) (hn : s.covers n = true)
    (hnonneg : 0 ≤ s.first + s.shift) : t.covers (n + s.shift).toNat = false := by
  refine Bool.eq_false_iff.mpr fun hcovers => ?_
  obtain ⟨htfirst, htlast, hrest⟩ := covers_iff.mp hcovers
  obtain ⟨hfirst, hlast, hstride⟩ := covers_iff.mp hn
  rcases Bool.or_eq_true_iff.mp h with hrange | hbetween
  · exact not_between_of_misses hrange hn ⟨htfirst, htlast⟩
  · simp only [low, Bool.and_eq_true, Bool.or_eq_true, Nat.beq_eq, Bool.not_eq_true',
      Bool.eq_false_iff, ne_eq] at hbetween
    obtain ⟨⟨htwo, hsteps⟩, hodd⟩ := hbetween
    rw [htwo] at hrest
    rcases hsteps with hsteps | hsteps
    · rw [hsteps] at hstride
      omega
    · omega

end CaseShift

/-- The blanks as ranges of code points. -/
def blankRanges : CodeRanges :=
  [(9, 13), (0x1c, 0x20), (0x85, 0x85), (0xa0, 0xa0), (0x1680, 0x1680), (0x2000, 0x200a),
    (0x2028, 0x2029), (0x202f, 0x202f), (0x205f, 0x205f), (0x3000, 0x3000)]

theorem exists_range_of_isBlank {c : Char} (h : isBlank c = true) :
    ∃ range ∈ blankRanges, range.1 ≤ c.toNat ∧ c.toNat ≤ range.2 := by
  simp only [isBlank, Bool.or_eq_true, Bool.and_eq_true, decide_eq_true_eq, beq_iff_eq] at h
  simp only [blankRanges, List.mem_cons, List.not_mem_nil, or_false, exists_eq_or_imp,
    exists_eq_left]
  omega

/-- The two capitals that the table leaves out, and the blanks. -/
def unshifted : CodeRanges :=
  (0x130, 0x130) :: (0x3a3, 0x3a3) :: blankRanges

theorem avoids_lowerShifts :
    lowerShifts.all (fun s => lowerShifts.all s.avoids &&
      unshifted.all fun range => s.misses range.1 range.2) = true := by
  decide +kernel

/-! ### Characters that stay -/

/-- A character that is its own small form, wherever it stands. -/
structure Lowered (c : Char) : Prop where
  lowerChar_eq : lowerChar c = [c]
  ne_sigma : c.toNat ≠ 0x3a3

theorem lower_of_lowered {cs : List Char} (h : ∀ c ∈ cs, Lowered c) : lower cs = cs := by
  rw [lower_eq_flatMap fun c hc => (h c hc).ne_sigma,
    flatMap_lowerChar fun c hc => (h c hc).lowerChar_eq]

/-- What is to be known of a character that `c` becomes. -/
def Settles (c d : Char) : Prop :=
  Lowered d ∧ (isBlank c = false → isBlank d = false)

/-- The images of capitals beyond ASCII are code points of characters. -/
theorem toNat_image {s : CaseShift} (hs : s ∈ lowerShifts) {c : Char} (h : 128 ≤ c.toNat)
    (hcovers : s.covers c.toNat = true) :
    0 ≤ s.first + s.shift ∧
      (Char.ofNat (c.toNat + s.shift).toNat).toNat = (c.toNat + s.shift).toNat := by
  have hbeyond := of_decide_eq_true (List.all_eq_true.mp staysBeyond_lowerShifts s hs)
  obtain ⟨hfirst, hlast, -⟩ := CaseShift.covers_iff.mp hcovers
  refine ⟨by omega, ?_⟩
  have hvalid : ((c.toNat : Int) + s.shift).toNat.isValidChar := by
    rw [Nat.isValidChar]
    omega
  rw [Char.ofNat, dif_pos hvalid]
  rfl

/-- A character that no shift covers stays. -/
theorem lowered_of_find?_eq_none {d : Char} (h : 128 ≤ d.toNat) (hdot : d.toNat ≠ 0x130)
    (hsigma : d.toNat ≠ 0x3a3) (hfind : lowerShifts.find? (·.covers d.toNat) = none) :
    Lowered d where
  lowerChar_eq := by
    rw [lowerChar, if_neg (Nat.not_lt.mpr h), if_neg (by simpa using hdot), CaseShift.apply, hfind]
  ne_sigma := hsigma

theorem settles_apply {c : Char} (h : 128 ≤ c.toNat) (hdot : c.toNat ≠ 0x130)
    (hsigma : c.toNat ≠ 0x3a3) : Settles c (CaseShift.apply lowerShifts c) := by
  have himage := toNat_apply_lowerShifts h
  cases hfind : lowerShifts.find? (·.covers c.toNat) with
  | none =>
    rw [CaseShift.apply, hfind]
    exact ⟨lowered_of_find?_eq_none h hdot hsigma hfind, id⟩
  | some s =>
    have hs := List.mem_of_find?_eq_some hfind
    have hcovers : s.covers c.toNat = true :=
      List.find?_some (p := fun s : CaseShift => s.covers c.toNat) hfind
    obtain ⟨hnonneg, hcode⟩ := toNat_image hs h hcovers
    obtain ⟨havoids, hmisses⟩ :=
      Bool.and_eq_true_iff.mp (List.all_eq_true.mp avoids_lowerShifts s hs)
    rw [CaseShift.apply, hfind] at himage ⊢
    dsimp only at himage ⊢
    generalize Char.ofNat (c.toNat + s.shift).toNat = d at hcode himage ⊢
    have hrange : ∀ range ∈ unshifted, ¬ (range.1 ≤ d.toNat ∧ d.toNat ≤ range.2) := by
      intro range hrange
      rw [hcode]
      exact CaseShift.not_between_of_misses (List.all_eq_true.mp hmisses range hrange) hcovers
    refine ⟨?_, fun _ => Bool.eq_false_iff.mpr fun hblank => ?_⟩
    · rcases himage with hbeyond | rfl
      · have hdot' := hrange (0x130, 0x130) (by decide)
        have hsigma' := hrange (0x3a3, 0x3a3) (by decide)
        refine lowered_of_find?_eq_none hbeyond (by omega) (by omega) ?_
        rw [List.find?_eq_none, hcode]
        intro t ht
        rw [CaseShift.not_covers_of_avoids (List.all_eq_true.mp havoids t ht) hcovers hnonneg]
        exact Bool.false_ne_true
      · exact ⟨by decide, by decide⟩
    · obtain ⟨range, hmem, hbetween⟩ := exists_range_of_isBlank hblank
      exact hrange range (List.mem_cons_of_mem _ (List.mem_cons_of_mem _ hmem)) hbetween

theorem settles_of_mem_lowerChar {c d : Char} (hsigma : c.toNat ≠ 0x3a3) (h : d ∈ lowerChar c) :
    Settles c d := by
  by_cases hc : c.toNat < 128
  · rw [lowerChar, if_pos hc, List.mem_singleton] at h
    have hall := of_ascii (P := fun c => decide (lowerChar c.toLower = [c.toLower] ∧
      c.toLower.toNat ≠ 0x3a3 ∧ (isBlank c = false → isBlank c.toLower = false)))
      (by decide) hc
    obtain ⟨hlower, hne, hblank⟩ := of_decide_eq_true hall
    rw [h]
    exact ⟨⟨hlower, hne⟩, hblank⟩
  · by_cases hdot : c.toNat = 0x130
    · rw [lowerChar, if_neg hc, if_pos (beq_iff_eq.mpr hdot)] at h
      rcases List.mem_pair.mp h with rfl | rfl
      · exact ⟨⟨by decide, by decide⟩, fun _ => by decide⟩
      · exact ⟨⟨by decide, by decide⟩, fun _ => by decide⟩
    · rw [lowerChar, if_neg hc, if_neg (by simpa using hdot), List.mem_singleton] at h
      rw [h]
      exact settles_apply (Nat.le_of_not_lt hc) hdot hsigma

/-! ### Small forms of a text -/

/-- What a character can become in a text. -/
inductive SmallOf (c : Char) : List Char → Prop
  | plain : c.toNat ≠ 0x3a3 → SmallOf c (lowerChar c)
  | sigma (isFinal : Bool) : SmallOf c [Char.ofNat (if isFinal then 0x3c2 else 0x3c3)]

theorem lowerChar_ne_nil (c : Char) : lowerChar c ≠ [] := by
  rw [lowerChar]
  split
  · exact List.cons_ne_nil _ _
  · split <;> exact List.cons_ne_nil _ _

namespace SmallOf

variable {c : Char} {ds : List Char}

theorem ne_nil (h : SmallOf c ds) : ds ≠ [] := by
  cases h with
  | plain _ => exact lowerChar_ne_nil c
  | sigma isFinal => exact List.cons_ne_nil _ _

theorem settles (h : SmallOf c ds) : ∀ d ∈ ds, Settles c d := by
  intro d hd
  cases h with
  | plain hsigma => exact settles_of_mem_lowerChar hsigma hd
  | sigma isFinal =>
    rw [List.mem_singleton] at hd
    subst hd
    cases isFinal <;> exact ⟨⟨by decide, by decide⟩, fun _ => by decide⟩

end SmallOf

theorem exists_lowerAfter_cons (before : List Char) (c : Char) (cs : List Char) :
    ∃ ds, SmallOf c ds ∧ lowerAfter before (c :: cs) = ds ++ lowerAfter (c :: before) cs := by
  rw [lowerAfter]
  split
  · exact ⟨_, .sigma (isWordEnd before cs), rfl⟩
  · rename_i hsigma
    exact ⟨_, .plain (by simpa using hsigma), rfl⟩

theorem exists_lowerAfter_concat (before cs : List Char) (c : Char) :
    ∃ front ds, SmallOf c ds ∧ lowerAfter before (cs ++ [c]) = front ++ ds := by
  induction cs generalizing before with
  | nil =>
    obtain ⟨ds, hds, heq⟩ := exists_lowerAfter_cons before c []
    exact ⟨[], ds, hds, heq.trans (List.append_nil ds)⟩
  | cons c' cs ih =>
    obtain ⟨ds', -, heq'⟩ := exists_lowerAfter_cons before c' (cs ++ [c])
    obtain ⟨front, ds, hds, heq⟩ := ih (c' :: before)
    exact ⟨ds' ++ front, ds, hds, by rw [List.cons_append, heq', heq, List.append_assoc]⟩

/-- **The characters of a text in small letters are small wherever they stand.** -/
theorem lowered_of_mem_lower {cs : List Char} : ∀ d ∈ lower cs, Lowered d := by
  rw [lower]
  generalize ([] : List Char) = before
  induction cs generalizing before with
  | nil => exact fun d hd => absurd hd List.not_mem_nil
  | cons c cs ih =>
    intro d hd
    obtain ⟨ds, hds, heq⟩ := exists_lowerAfter_cons before c cs
    rw [heq, List.mem_append] at hd
    rcases hd with hd | hd
    · exact (hds.settles d hd).1
    · exact ih (c :: before) d hd

/-- Turning a text small puts no blank at its beginning. -/
theorem isBlank_of_mem_head?_lower {cs : List Char} (h : ∀ c ∈ cs.head?, isBlank c = false) :
    ∀ d ∈ (lower cs).head?, isBlank d = false := by
  intro d hd
  cases cs with
  | nil => cases hd
  | cons c cs =>
    obtain ⟨ds, hds, heq⟩ := exists_lowerAfter_cons [] c cs
    rw [lower, heq, List.head?_append_of_ne_nil _ hds.ne_nil] at hd
    exact (hds.settles d (List.mem_of_head? hd)).2 (h c rfl)

/-- Turning a text small puts no blank at its end. -/
theorem isBlank_of_mem_getLast?_lower {cs : List Char} (h : ∀ c ∈ cs.getLast?, isBlank c = false) :
    ∀ d ∈ (lower cs).getLast?, isBlank d = false := by
  intro d hd
  cases cs using List.reverseRecOn with
  | nil => cases hd
  | append_singleton cs c =>
    obtain ⟨front, ds, hds, heq⟩ := exists_lowerAfter_concat [] cs c
    rw [lower, heq, List.getLast?_append_of_ne_nil _ hds.ne_nil] at hd
    exact (hds.settles d (List.mem_of_getLast? hd)).2 (h c (by simp))

end StyleAudit.Text
