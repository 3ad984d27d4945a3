import Mathlib.Data.List.Basic
import StyleAudit.Text.Pattern

/-!
# Marks and pieces

What a pattern finds in a text, and where a mark splits it.  A pattern moves over a text by skipping
the characters of its last hit.  For a pattern that does not look back (`Pattern.Blind`) this is the
same as going on with what the hit has left, so `findAll` and `replace` have the equations that one
expects, one for a character without a hit and one for a hit.
-/

namespace StyleAudit.Text

/-! ### Runs -/

theorem takeWhile_append_of_head {p : Char → Bool} {front rest : List Char}
    (hfront : ∀ c ∈ front, p c = true) (hrest : ∀ c ∈ rest.head?, p c = false) :
    (front ++ rest).takeWhile p = front := by
  rw [List.takeWhile_append_of_pos hfront]
  cases rest with
  | nil => simp
  | cons c rest => rw [List.takeWhile_cons_of_neg (by simp [hrest c rfl]), List.append_nil]

theorem dropWhile_append_of_head {p : Char → Bool} {front rest : List Char}
    (hfront : ∀ c ∈ front, p c = true) (hrest : ∀ c ∈ rest.head?, p c = false) :
    (front ++ rest).dropWhile p = rest := by
  rw [List.dropWhile_append_of_pos hfront]
  cases rest with
  | nil => rfl
  | cons c rest => rw [List.dropWhile_cons_of_neg (by simp [hrest c rfl])]

/-! ### Marks -/

theorem splitAtMark?_eq_none_iff (mark : Char) (cs : List Char) :
    splitAtMark? [mark] cs = none ↔ mark ∉ cs := by
  induction cs with
  | nil => simp [splitAtMark?, dropLead?]
  | cons c cs ih =>
    by_cases h : mark = c
    · simp [splitAtMark?, dropLead?, h]
    · simp [splitAtMark?, dropLead?, h, ih]

theorem splitAtMark?_append (mark : Char) {front : List Char} (h : mark ∉ front)
    (rest : List Char) : splitAtMark? [mark] (front ++ mark :: rest) = some (front, rest) := by
  induction front with
  | nil => simp [splitAtMark?, dropLead?]
  | cons c front ih =>
    rw [List.mem_cons, not_or] at h
    rw [List.cons_append, splitAtMark?, ih h.2]
    simp [dropLead?, h.1]

/-- A mark of two characters splits a text at the first place where both stand. -/
theorem splitAtMark?_pair_append {a b : Char} (hab : a ≠ b) {front : List Char}
    (h : ¬ [a, b] <:+: front) (rest : List Char) :
    splitAtMark? [a, b] (front ++ a :: b :: rest) = some (front, rest) := by
  induction front with
  | nil => simp [splitAtMark?, dropLead?]
  | cons c front ih =>
    have hrest : ¬ [a, b] <:+: front := fun hin => h (List.infix_cons hin)
    have hfail : dropLead? [a, b] (c :: (front ++ a :: b :: rest)) = none := by
      cases front with
      | nil => simp [dropLead?, hab.symm]
      | cons d front =>
        have hpair : ¬ (a = c ∧ b = d) := by
          rintro ⟨rfl, rfl⟩
          exact h ⟨[], front, rfl⟩
        simpa [dropLead?] using hpair
    rw [List.cons_append, splitAtMark?, hfail, ih hrest]
    rfl

theorem eq_append_of_dropLead? {lead cs rest : List Char} (h : dropLead? lead cs = some rest) :
    cs = lead ++ rest := by
  fun_induction dropLead? lead cs with
  | case1 cs => exact Option.some.inj h
  | case2 l lead => cases h
  | case3 l lead c cs hl ih =>
    rw [beq_iff_eq.mp hl, List.cons_append, ← ih h]
  | case4 l lead c cs hl => cases h

theorem dropLead?_append (lead rest : List Char) : dropLead? lead (lead ++ rest) = some rest := by
  induction lead with
  | nil => rfl
  | cons l lead ih => rw [List.cons_append, dropLead?, if_pos (beq_self_eq_true l), ih]

theorem dropLead?_eq_none {lead cs : List Char} (h : ¬ lead <+: cs) : dropLead? lead cs = none :=
  Option.eq_none_iff_forall_ne_some.mpr fun rest hrest =>
    h ⟨rest, (eq_append_of_dropLead? hrest).symm⟩

theorem isSome_dropLead?_iff {lead cs : List Char} :
    (dropLead? lead cs).isSome = true ↔ lead <+: cs := by
  constructor
  · intro h
    obtain ⟨rest, hrest⟩ := Option.isSome_iff_exists.mp h
    exact ⟨rest, (eq_append_of_dropLead? hrest).symm⟩
  · rintro ⟨rest, rfl⟩
    rw [dropLead?_append, Option.isSome_some]

/-- What occurs in a text is a stretch of it. -/
theorem occursIn_iff {word cs : List Char} : occursIn word cs = true ↔ word <:+: cs := by
  rw [occursIn]
  induction cs with
  | nil => rw [splitAtMark?, Option.isSome_map, isSome_dropLead?_iff, List.prefix_nil, List.infix_nil]
  | cons c cs ih =>
    rw [splitAtMark?, List.infix_cons_iff, ← ih, ← isSome_dropLead?_iff]
    cases dropLead? word (c :: cs) <;> simp

/-- A text is split at the first place where the mark stands. -/
theorem splitAtMark?_eq_some {mark cs front rest : List Char} (hmark : mark ≠ [])
    (h : splitAtMark? mark cs = some (front, rest)) :
    cs = front ++ mark ++ rest ∧ ¬ mark <:+: front := by
  induction cs generalizing front with
  | nil =>
    obtain ⟨r, hr, -⟩ := Option.map_eq_some_iff.mp h
    have hempty := eq_append_of_dropLead? hr
    exact absurd (List.append_eq_nil_iff.mp hempty.symm).1 hmark
  | cons c cs ih =>
    rw [splitAtMark?] at h
    cases hlead : dropLead? mark (c :: cs) with
    | some r =>
      rw [hlead] at h
      cases h
      exact ⟨eq_append_of_dropLead? hlead, fun hin => hmark (List.infix_nil.mp hin)⟩
    | none =>
      rw [hlead] at h
      obtain ⟨⟨front', r⟩, hsplit, he⟩ := Option.map_eq_some_iff.mp h
      cases he
      obtain ⟨hcs, hfirst⟩ := ih hsplit
      refine ⟨by rw [hcs]; rfl, fun hin => ?_⟩
      rcases List.infix_cons_iff.mp hin with ⟨more, hmore⟩ | hin
      · have hstart : c :: cs = mark ++ (more ++ (mark ++ rest)) := by
          rw [← List.append_assoc, hmore, hcs, List.append_assoc, List.cons_append]
        rw [hstart, dropLead?_append] at hlead
        cases hlead
      · exact hfirst hin

namespace Pattern

variable {α : Type} {p : Pattern α}

/-! ### Hits -/

/-- What is found is found by a hit somewhere. -/
theorem exists_hit_of_mem_piecesFrom {a : α} {before : Option Char} {skip : Nat} {cs : List Char}
    (h : a ∈ (p.piecesFrom before skip cs).filterMap Piece.value?) :
    ∃ b t rest, p b t = some (a, rest) := by
  induction cs generalizing before skip with
  | nil => cases skip <;> simp [piecesFrom] at h
  | cons c cs ih =>
    cases skip with
    | succ skip => exact ih h
    | zero =>
      rw [piecesFrom] at h
      cases hp : p before (c :: cs) with
      | none =>
        rw [hp] at h
        exact ih h
      | some found =>
        obtain ⟨a', rest⟩ := found
        rw [hp] at h
        rcases List.mem_cons.mp h with he | hm
        · exact ⟨before, c :: cs, rest, by rw [hp, he]⟩
        · exact ih hm

theorem exists_hit_of_mem_findAll {a : α} {cs : List Char} (h : a ∈ p.findAll cs) :
    ∃ b t rest, p b t = some (a, rest) :=
  exists_hit_of_mem_piecesFrom h

/-! ### Going on after a hit -/

theorem piecesFrom_skip (before : Option Char) (front rest : List Char) :
    p.piecesFrom before front.length (front ++ rest) =
      p.piecesFrom (front.getLast?.or before) 0 rest := by
  induction front generalizing before with
  | nil => rfl
  | cons c front ih =>
    have hlast : (c :: front).getLast?.or before = front.getLast?.or (some c) := by
      rw [List.getLast?_cons]
      cases front.getLast? <;> rfl
    rw [hlast, ← ih]
    rfl

theorem piecesFrom_of_some {before : Option Char} {c : Char} {front rest : List Char} {a : α}
    (hp : p before (c :: (front ++ rest)) = some (a, rest)) :
    p.piecesFrom before 0 (c :: (front ++ rest)) =
      .hit a (c :: front) :: p.piecesFrom (front.getLast?.or (some c)) 0 rest := by
  have hlen : (front ++ rest).length - rest.length = front.length := by simp
  rw [piecesFrom, hp]
  simp only [hlen, List.take_left, piecesFrom_skip]

/-! ### Patterns that do not look back -/

/-- The pattern does not look at the character before the text. -/
def Blind (p : Pattern α) : Prop :=
  ∀ before cs, p before cs = p none cs

theorem Blind.piecesFrom (h : p.Blind) (before : Option Char) (skip : Nat) (cs : List Char) :
    p.piecesFrom before skip cs = p.pieces (cs.drop skip) := by
  induction cs generalizing before skip with
  | nil => cases skip <;> simp [Pattern.piecesFrom, pieces]
  | cons c cs ih =>
    cases skip with
    | zero => rw [List.drop_zero, pieces, Pattern.piecesFrom, Pattern.piecesFrom, h before]
    | succ skip => rw [Pattern.piecesFrom, ih, List.drop_succ_cons]

theorem Blind.pieces_of_none (h : p.Blind) {c : Char} {cs : List Char}
    (hp : p none (c :: cs) = none) : p.pieces (c :: cs) = .plain c :: p.pieces cs := by
  rw [pieces, Pattern.piecesFrom, hp]
  exact congrArg _ (h.piecesFrom (some c) 0 cs)

theorem Blind.pieces_of_some (h : p.Blind) {c : Char} {front rest : List Char} {a : α}
    (hp : p none (c :: (front ++ rest)) = some (a, rest)) :
    p.pieces (c :: (front ++ rest)) = .hit a (c :: front) :: p.pieces rest := by
  rw [pieces, piecesFrom_of_some hp, h.piecesFrom, List.drop_zero]

/-! ### Finding and replacing -/

@[simp] theorem findAll_nil : p.findAll [] = [] := rfl

@[simp] theorem replace_nil (f : α → List Char) : p.replace f [] = [] := rfl

theorem find?_of_some {c : Char} {cs rest : List Char} {a : α}
    (hp : p none (c :: cs) = some (a, rest)) : p.find? (c :: cs) = some a := by
  rw [find?, findAll, pieces, piecesFrom, hp]
  rfl

theorem Blind.findAll_of_none (h : p.Blind) {c : Char} {cs : List Char}
    (hp : p none (c :: cs) = none) : p.findAll (c :: cs) = p.findAll cs := by
  rw [findAll, h.pieces_of_none hp]
  rfl

/-- Nothing is found in a front at no place of which the pattern succeeds. -/
theorem Blind.findAll_append_of_none (h : p.Blind) {front rest : List Char}
    (hfront : ∀ t, t ≠ [] → t <:+ front → p none (t ++ rest) = none) :
    p.findAll (front ++ rest) = p.findAll rest := by
  induction front with
  | nil => rfl
  | cons c front ih =>
    have hc : p none (c :: (front ++ rest)) = none :=
      hfront (c :: front) (List.cons_ne_nil c front) List.suffix_rfl
    rw [List.cons_append, h.findAll_of_none hc]
    exact ih fun t ht hsuffix => hfront t ht (hsuffix.trans (List.suffix_cons c front))

theorem Blind.findAll_of_some (h : p.Blind) {c : Char} {front rest : List Char} {a : α}
    (hp : p none (c :: (front ++ rest)) = some (a, rest)) :
    p.findAll (c :: (front ++ rest)) = a :: p.findAll rest := by
  rw [findAll, h.pieces_of_some hp]
  rfl

theorem Blind.replace_of_none (h : p.Blind) (f : α → List Char) {c : Char} {cs : List Char}
    (hp : p none (c :: cs) = none) : p.replace f (c :: cs) = c :: p.replace f cs := by
  rw [replace, h.pieces_of_none hp]
  rfl

theorem Blind.replace_of_some (h : p.Blind) (f : α → List Char) {c : Char}
    {front rest : List Char} {a : α} (hp : p none (c :: (front ++ rest)) = some (a, rest)) :
    p.replace f (c :: (front ++ rest)) = f a ++ p.replace f rest := by
  rw [replace, h.pieces_of_some hp]
  rfl

end Pattern

end StyleAudit.Text
