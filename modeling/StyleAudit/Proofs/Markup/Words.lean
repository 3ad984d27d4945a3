import Mathlib.Data.List.Basic
import StyleAudit.Proofs.Path
import StyleAudit.Proofs.Text.Case

/-!
# The words of a class name

A word is a small ASCII letter and then small letters and digits (`Word`).  A class name of several
words is written with a mark between them (`joined`), or with a capital at the beginning of each word
but the first (`camelParts`).

To read such a name, one has to know what becomes of its characters.  The characters of a word are
left alone by all that is done to a name (`Settled`), and the first letter comes back from its
capital (`Capitalizes`).  For ASCII characters this is a matter of looking at all of them
(`of_ascii`); beyond ASCII it is what a small letter is taken to be.  From this follows what can stand
in a name: `forall_mem_joined`, `forall_mem_camel`.
-/

namespace StyleAudit.Markup

open StyleAudit.Text

/-! ### Characters -/

/-- A small ASCII letter or digit.  A capital after it begins a new word. -/
def closesWord (c : Char) : Bool :=
  c.isLower || c.isDigit

/-- A character that a word may have after its first letter: a small letter or a digit, and beyond
ASCII any character that is its own small form. -/
def isSmall (c : Char) : Bool :=
  closesWord c || 128 ≤ c.toNat && lower [c] == [c]

/-- The marks that are no part of a word. -/
def marks : List Char :=
  ['-', '_', '.']

theorem toNat_lt_of_closesWord {c : Char} (h : closesWord c = true ∨ c.isUpper = true) :
    c.toNat < 128 := by
  have hle : ∀ {a b : Char}, a.val ≤ b.val → a.toNat ≤ b.toNat := UInt32.le_iff_toNat_le.mp
  have hbound : c.toNat ≤ 122 := by
    rcases h with h | h
    · rcases Bool.or_eq_true_iff.mp h with h | h
      · exact hle (b := 'z') (of_decide_eq_true (Bool.and_eq_true_iff.mp h).2)
      · exact Nat.le_trans (hle (b := '9') (of_decide_eq_true (Bool.and_eq_true_iff.mp h).2))
          (by decide)
    · exact Nat.le_trans (hle (b := 'Z') (of_decide_eq_true h).2) (by decide)
  omega

theorem isSmall_of_isLower {c : Char} (h : c.isLower = true) : isSmall c = true := by
  rw [isSmall, closesWord, h]
  rfl

/-- The capital sigma has two small forms and is neither of them. -/
theorem lowerChar_of_lower {c : Char} (h : lower [c] = [c]) :
    lowerChar c = [c] ∧ c.toNat ≠ 0x3a3 := by
  by_cases hsigma : c.toNat = 0x3a3
  · have hc : c = Char.ofNat 0x3a3 := by rw [← hsigma, Char.ofNat_toNat]
    rw [hc] at h
    exact absurd h (by decide)
  · refine ⟨?_, hsigma⟩
    simpa [lower, lowerAfter, hsigma] using h

/-- The conversions of a name leave the character alone. -/
structure Settled (c : Char) : Prop where
  notMem_marks : c ∉ marks
  isUpper : c.isUpper = false
  lowerChar_eq : lowerChar c = [c]
  ne_sigma : c.toNat ≠ 0x3a3

theorem settled_of_isSmall {c : Char} (h : isSmall c = true) : Settled c := by
  by_cases hc : c.toNat < 128
  · have hall := of_ascii (P := fun c => !isSmall c || decide (c ∉ marks ∧ c.isUpper = false ∧
      lowerChar c = [c] ∧ c.toNat ≠ 0x3a3)) (by decide) hc
    rw [h, Bool.not_true, Bool.false_or] at hall
    obtain ⟨hmarks, hupper, hlower, hsigma⟩ := of_decide_eq_true hall
    exact ⟨hmarks, hupper, hlower, hsigma⟩
  · have hclose : closesWord c = false :=
      Bool.eq_false_iff.mpr fun h => hc (toNat_lt_of_closesWord (Or.inl h))
    have hupper : c.isUpper = false :=
      Bool.eq_false_iff.mpr fun h => hc (toNat_lt_of_closesWord (Or.inr h))
    have hlower : lower [c] = [c] := by simpa [isSmall, hclose, Nat.le_of_not_lt hc] using h
    obtain ⟨hlower, hsigma⟩ := lowerChar_of_lower hlower
    refine ⟨fun hm => ?_, hupper, hlower, hsigma⟩
    have hascii : marks.all (fun m => m.toNat < 128) = true := by decide
    exact hc (by simpa using List.all_eq_true.mp hascii c hm)

/-- What a small letter has to do with its capital. -/
structure Capitalizes (c : Char) : Prop where
  upperChar_eq : upperChar c = [c.toUpper]
  ne : c.toUpper ≠ c
  isUpper : c.toUpper.isUpper = true
  closesWord : closesWord c.toUpper = false
  notMem_marks : c.toUpper ∉ marks
  lowerChar_eq : lowerChar c.toUpper = [c]
  ne_sigma : c.toUpper.toNat ≠ 0x3a3

theorem capitalizes_of_isLower {c : Char} (h : c.isLower = true) : Capitalizes c := by
  have hc : c.toNat < 128 := toNat_lt_of_closesWord (Or.inl (by simp [closesWord, h]))
  have hall := of_ascii (P := fun c => !c.isLower || decide (upperChar c = [c.toUpper] ∧
    c.toUpper ≠ c ∧ c.toUpper.isUpper = true ∧ closesWord c.toUpper = false ∧ c.toUpper ∉ marks ∧
    lowerChar c.toUpper = [c] ∧ c.toUpper.toNat ≠ 0x3a3)) (by decide) hc
  rw [h, Bool.not_true, Bool.false_or] at hall
  obtain ⟨hfull, hne, hupper, hclose, hmarks, hlower, hsigma⟩ := of_decide_eq_true hall
  exact ⟨hfull, hne, hupper, hclose, hmarks, hlower, hsigma⟩

/-! ### Words -/

/-- A word of a class name. -/
structure Word where
  first : Char
  rest : List Char
  isLower_first : first.isLower = true
  isSmall_rest : rest.all isSmall = true

namespace Word

def chars (w : Word) : List Char :=
  w.first :: w.rest

/-- The word with a capital at its beginning. -/
def capital (w : Word) : List Char :=
  w.first.toUpper :: w.rest

theorem isSmall_chars (w : Word) : ∀ c ∈ w.chars, isSmall c = true := by
  intro c hc
  rcases List.mem_cons.mp hc with rfl | hc
  · exact isSmall_of_isLower w.isLower_first
  · exact List.all_eq_true.mp w.isSmall_rest c hc

theorem settled_chars (w : Word) : ∀ c ∈ w.chars, Settled c :=
  fun c hc => settled_of_isSmall (w.isSmall_chars c hc)

theorem settled_rest (w : Word) : ∀ c ∈ w.rest, Settled c :=
  fun c hc => w.settled_chars c (List.mem_cons_of_mem w.first hc)

theorem isSmall_rest_append (w v : Word) : (w.rest ++ v.chars).all isSmall = true := by
  rw [List.all_append, w.isSmall_rest, Bool.true_and, List.all_eq_true]
  exact v.isSmall_chars

/-- Two words run together. -/
def append (w v : Word) : Word :=
  ⟨w.first, w.rest ++ v.chars, w.isLower_first, w.isSmall_rest_append v⟩

theorem chars_append (w v : Word) : (w.append v).chars = w.chars ++ v.chars := rfl

end Word

/-! ### Words with a mark between them -/

def joined (mark : Char) (ws : List Word) : List Char :=
  [mark].intercalate (ws.map Word.chars)

theorem joined_singleton (mark : Char) (w : Word) : joined mark [w] = w.chars := by
  rw [joined, List.map_cons, List.map_nil, List.intercalate_singleton]

theorem joined_cons {mark : Char} (w : Word) {ws : List Word} (h : ws ≠ []) :
    joined mark (w :: ws) = w.chars ++ mark :: joined mark ws := by
  cases ws with
  | nil => exact absurd rfl h
  | cons v ws =>
    rw [joined, joined, List.map_cons, List.map_cons, List.intercalate_cons_cons, List.append_assoc]
    rfl

theorem mem_joined {mark : Char} (w v : Word) (ws : List Word) :
    mark ∈ joined mark (w :: v :: ws) := by
  rw [joined_cons w (List.cons_ne_nil v ws)]
  exact List.mem_append_right _ List.mem_cons_self

theorem forall_mem_joined {P : Char → Prop} {mark : Char} (hmark : P mark)
    (hsmall : ∀ c, isSmall c = true → P c) (ws : List Word) : ∀ c ∈ joined mark ws, P c := by
  induction ws with
  | nil => intro c hc; cases hc
  | cons w ws ih =>
    intro c hc
    by_cases hws : ws = []
    · subst hws
      rw [joined_singleton] at hc
      exact hsmall c (w.isSmall_chars c hc)
    · rw [joined_cons w hws] at hc
      rcases List.mem_append.mp hc with hc | hc
      · exact hsmall c (w.isSmall_chars c hc)
      · rcases List.mem_cons.mp hc with rfl | hc
        · exact hmark
        · exact ih c hc

theorem mark_notMem_joined {mark other : Char} (hmark : mark ∈ marks) (hne : other ≠ mark)
    (ws : List Word) : mark ∉ joined other ws := by
  have hall : ∀ c ∈ joined other ws, c ≠ mark := by
    refine forall_mem_joined (P := fun c => c ≠ mark) hne (fun c hc he => ?_) ws
    subst he
    exact (settled_of_isSmall hc).notMem_marks hmark
  exact fun hm => hall mark hm rfl

/-- The words are found again between the marks. -/
theorem splitWhere_joined {mark : Char} (hmark : mark ∈ marks) {ws : List Word} (h : ws ≠ []) :
    splitWhere (· == mark) (joined mark ws) = ws.map Word.chars := by
  refine splitWhere_intercalate (by simp) (by simpa using h) ?_
  intro piece hpiece c hc
  obtain ⟨w, -, rfl⟩ := List.mem_map.mp hpiece
  rw [beq_eq_false_iff_ne]
  rintro rfl
  exact (w.settled_chars c hc).notMem_marks hmark

/-- Two or more words are not joined to the same text as fewer words, with whatever mark. -/
theorem joined_ne_joined {mark other : Char} (hmark : mark ∈ marks) {w v : Word} {ws ws' : List Word}
    (h : ws'.length < (w :: v :: ws).length) (hne : ws' ≠ []) :
    joined mark (w :: v :: ws) ≠ joined other ws' := by
  intro he
  by_cases hother : other = mark
  · subst hother
    have hsplit := congrArg (splitWhere (· == other)) he
    rw [splitWhere_joined hmark (List.cons_ne_nil _ _), splitWhere_joined hmark hne] at hsplit
    have hlength := congrArg List.length hsplit
    rw [List.length_map, List.length_map] at hlength
    omega
  · exact mark_notMem_joined hmark hother ws' (he ▸ mem_joined w v ws)

/-! ### Words with inner capitals -/

/-- The words as they are written with inner capitals. -/
def camelParts : List Word → List (List Char)
  | [] => []
  | w :: ws => w.chars :: ws.map Word.capital

theorem flatten_camelParts (w : Word) (ws : List Word) :
    (camelParts (w :: ws)).flatten = w.chars ++ ws.flatMap Word.capital := by
  rw [camelParts, List.flatten_cons, List.flatMap_def]

theorem forall_mem_camel {P : Char → Prop} (hsmall : ∀ c, isSmall c = true → P c)
    (hcapital : ∀ c : Char, c.isLower = true → P c.toUpper) (ws : List Word) :
    ∀ c ∈ (camelParts ws).flatten, P c := by
  cases ws with
  | nil => intro c hc; cases hc
  | cons w ws =>
    intro c hc
    rw [flatten_camelParts, List.mem_append] at hc
    rcases hc with hc | hc
    · exact hsmall c (w.isSmall_chars c hc)
    · obtain ⟨v, -, hc⟩ := List.mem_flatMap.mp hc
      rcases List.mem_cons.mp hc with rfl | hc
      · exact hcapital _ v.isLower_first
      · exact hsmall c (List.all_eq_true.mp v.isSmall_rest c hc)

theorem mark_notMem_camel {mark : Char} (hmark : mark ∈ marks) (ws : List Word) :
    mark ∉ (camelParts ws).flatten := by
  have hall : ∀ c ∈ (camelParts ws).flatten, c ∉ marks :=
    forall_mem_camel (fun c hc => (settled_of_isSmall hc).notMem_marks)
      (fun c hc => (capitalizes_of_isLower hc).notMem_marks) ws
  exact fun hm => hall mark hm hmark

theorem ne_sigma_of_mem_camel (ws : List Word) : ∀ c ∈ (camelParts ws).flatten, c.toNat ≠ 0x3a3 :=
  forall_mem_camel (fun _ hc => (settled_of_isSmall hc).ne_sigma)
    (fun _ hc => (capitalizes_of_isLower hc).ne_sigma) ws

theorem mark_notMem_lower_camel {mark : Char} (hmark : mark ∈ marks) (ws : List Word) :
    mark ∉ lower (camelParts ws).flatten := by
  have hsmall : ∀ c, isSmall c = true → mark ∉ [c] := by
    intro c hc hm
    rw [List.mem_singleton] at hm
    exact (settled_of_isSmall hc).notMem_marks (hm ▸ hmark)
  rw [lower_eq_flatMap (ne_sigma_of_mem_camel ws), List.mem_flatMap]
  rintro ⟨c, hc, hm⟩
  refine forall_mem_camel (P := fun c => mark ∉ lowerChar c) (fun c hc => ?_) (fun c hc => ?_) ws c
    hc hm
  · rw [(settled_of_isSmall hc).lowerChar_eq]
    exact hsmall c hc
  · rw [(capitalizes_of_isLower hc).lowerChar_eq]
    exact hsmall c (isSmall_of_isLower hc)

end StyleAudit.Markup
