import Mathlib.Data.List.Basic
import StyleAudit.Proofs.Text.Blank
import StyleAudit.Style.Selector

/-!
# Selector lists

A selector list is split at its commas outside round brackets, blanks around the pieces are removed,
and empty pieces are left out.  The splitter counts the depth of the brackets over the whole list,
and a bracket that closes nothing leaves the depth at zero.

A piece ends only where the depth is zero, so the next one begins at depth zero too.  Which commas
of a piece are split at is therefore told by the piece alone (`Undivided`), however the brackets
before it stand.  From this come both laws of the splitter:

* `splitCommas_append`: a piece that ends at depth zero is split off at the comma after it, so lists
  of such selectors come back from their text (`splitSelectors_intercalate`).
* `undivided_of_mem_splitCommas`: a piece has no comma to be split at again, and neither has what is
  left of it without blanks (`Undivided.trim`).
-/

namespace StyleAudit.Style

open StyleAudit.Text

variable {depth : Nat} {c : Char} {cs ds : List Char}

/-! ### Depth -/

/-- The depth of round brackets after a character.  A bracket that closes nothing is ignored. -/
def depthStep (depth : Nat) (c : Char) : Nat :=
  if c == '(' then depth + 1 else if c == ')' then depth - 1 else depth

/-- The depth after a text that begins at a depth. -/
def depthAfter (depth : Nat) (cs : List Char) : Nat :=
  cs.foldl depthStep depth

/-- No comma of a text that begins at a depth stands at depth zero. -/
def Undivided (depth : Nat) (cs : List Char) : Prop :=
  ∀ front rest, cs = front ++ ',' :: rest → depthAfter depth front ≠ 0

theorem undivided_nil (depth : Nat) : Undivided depth [] := by
  intro front rest h
  exact absurd h.symm (List.append_ne_nil_of_right_ne_nil _ (List.cons_ne_nil _ _))

theorem undivided_cons :
    Undivided depth (c :: cs) ↔ ¬ (c = ',' ∧ depth = 0) ∧ Undivided (depthStep depth c) cs := by
  constructor
  · intro h
    refine ⟨?_, fun front rest hcs => h (c :: front) rest (by rw [hcs]; rfl)⟩
    rintro ⟨rfl, rfl⟩
    exact h [] cs rfl rfl
  · rintro ⟨hc, hcs⟩ front rest h
    cases front with
    | nil =>
      obtain ⟨rfl, -⟩ := List.cons.inj h
      exact fun hzero => hc ⟨rfl, hzero⟩
    | cons d front =>
      obtain ⟨rfl, hrest⟩ := List.cons.inj h
      exact hcs front rest hrest

instance decidableUndivided : ∀ (depth : Nat) (cs : List Char), Decidable (Undivided depth cs)
  | depth, [] => isTrue (undivided_nil depth)
  | depth, c :: cs =>
    have := decidableUndivided (depthStep depth c) cs
    decidable_of_iff _ undivided_cons.symm

theorem undivided_append :
    Undivided depth (cs ++ ds) ↔ Undivided depth cs ∧ Undivided (depthAfter depth cs) ds := by
  induction cs generalizing depth with
  | nil => exact (and_iff_right (undivided_nil depth)).symm
  | cons c cs ih =>
    rw [List.cons_append, undivided_cons, undivided_cons, ih, and_assoc]
    rfl

theorem depthAfter_blank (h : ∀ c ∈ cs, isBlank c = true) (depth : Nat) :
    depthAfter depth cs = depth := by
  induction cs with
  | nil => rfl
  | cons c cs ih =>
    obtain ⟨hc, hcs⟩ := List.forall_mem_cons.mp h
    have hopen : (c == '(') = false := beq_false_of_ne (by rintro rfl; cases hc)
    have hclose : (c == ')') = false := beq_false_of_ne (by rintro rfl; cases hc)
    have hstep : depthStep depth c = depth := by rw [depthStep, hopen, hclose]; rfl
    rw [depthAfter, List.foldl_cons, hstep]
    exact ih hcs

/-- Blanks count for nothing. -/
theorem Undivided.trim (h : Undivided 0 cs) : Undivided 0 (trim cs) := by
  obtain ⟨before, after, hbefore, -, hcs⟩ := exists_append_trim cs
  rw [hcs, undivided_append, depthAfter_blank hbefore, undivided_append] at h
  exact h.2.1

/-! ### Pieces -/

theorem splitCommas_comma (cs : List Char) :
    splitCommas 0 (',' :: cs) = [] :: splitCommas 0 cs := rfl

theorem splitCommas_cons (h : ¬ (c = ',' ∧ depth = 0)) (cs : List Char) :
    splitCommas depth (c :: cs) =
      (c :: (splitCommas (depthStep depth c) cs).headD []) ::
        (splitCommas (depthStep depth c) cs).tail := by
  have hsplit : (c == ',' && depth == 0) = false := by simpa using h
  rw [splitCommas, hsplit, if_neg Bool.false_ne_true, ← depthStep]
  cases splitCommas (depthStep depth c) cs with
  | nil => rfl
  | cons piece pieces => rfl

theorem splitCommas_of_undivided (h : Undivided depth cs) : splitCommas depth cs = [cs] := by
  induction cs generalizing depth with
  | nil => rfl
  | cons c cs ih =>
    obtain ⟨hc, hcs⟩ := undivided_cons.mp h
    rw [splitCommas_cons hc, ih hcs]
    rfl

/-- A piece that ends at depth zero is split off at the comma after it. -/
theorem splitCommas_append (h : Undivided depth cs) (hzero : depthAfter depth cs = 0)
    (rest : List Char) : splitCommas depth (cs ++ ',' :: rest) = cs :: splitCommas 0 rest := by
  induction cs generalizing depth with
  | nil =>
    obtain rfl : depth = 0 := hzero
    exact splitCommas_comma rest
  | cons c cs ih =>
    obtain ⟨hc, hcs⟩ := undivided_cons.mp h
    rw [List.cons_append, splitCommas_cons hc, ih hcs hzero]
    rfl

/-- The first piece begins at the depth of the text, and all others begin at depth zero. -/
theorem exists_splitCommas (depth : Nat) (cs : List Char) :
    ∃ first others, splitCommas depth cs = first :: others ∧ Undivided depth first ∧
      ∀ piece ∈ others, Undivided 0 piece := by
  induction cs generalizing depth with
  | nil =>
    exact ⟨[], [], rfl, undivided_nil depth, fun piece hpiece => absurd hpiece List.not_mem_nil⟩
  | cons c cs ih =>
    by_cases hc : c = ',' ∧ depth = 0
    · obtain ⟨rfl, rfl⟩ := hc
      obtain ⟨first, others, hsplit, hfirst, hothers⟩ := ih 0
      exact ⟨[], first :: others, by rw [splitCommas_comma, hsplit], undivided_nil 0,
        List.forall_mem_cons.mpr ⟨hfirst, hothers⟩⟩
    · obtain ⟨first, others, hsplit, hfirst, hothers⟩ := ih (depthStep depth c)
      exact ⟨c :: first, others, by rw [splitCommas_cons hc, hsplit]; rfl,
        undivided_cons.mpr ⟨hc, hfirst⟩, hothers⟩

theorem undivided_of_mem_splitCommas {piece : List Char} (h : piece ∈ splitCommas 0 cs) :
    Undivided 0 piece := by
  obtain ⟨first, others, hsplit, hfirst, hothers⟩ := exists_splitCommas 0 cs
  rw [hsplit] at h
  exact List.forall_mem_cons.mpr ⟨hfirst, hothers⟩ piece h

/-! ### Selectors -/

/-- A selector that can stand in a list: not empty, without blanks around it, without a comma
outside round brackets, and with nothing left open. -/
structure ListSelector (s : List Char) : Prop where
  ne_nil : s ≠ []
  trim_eq : trim s = s
  undivided : Undivided 0 s
  closed : depthAfter 0 s = 0

theorem splitSelectors_of_undivided (hne : cs ≠ []) (htrim : trim cs = cs) (h : Undivided 0 cs) :
    splitSelectors cs = [cs] := by
  rw [splitSelectors, splitCommas_of_undivided h, List.map_singleton, htrim]
  exact List.filter_cons_of_pos (by simpa using hne)

theorem splitCommas_intercalate {sels : List (List Char)} (hne : sels ≠ [])
    (h : ∀ s ∈ sels, ListSelector s) : splitCommas 0 ([','].intercalate sels) = sels := by
  induction sels with
  | nil => exact absurd rfl hne
  | cons s sels ih =>
    obtain ⟨hs, hsels⟩ := List.forall_mem_cons.mp h
    cases sels with
    | nil =>
      rw [List.intercalate_singleton]
      exact splitCommas_of_undivided hs.undivided
    | cons next sels =>
      rw [List.intercalate_cons_cons, List.append_assoc, List.singleton_append,
        splitCommas_append hs.undivided hs.closed, ih (List.cons_ne_nil _ _) hsels]

theorem splitSelectors_intercalate {sels : List (List Char)} (h : ∀ s ∈ sels, ListSelector s) :
    splitSelectors ([','].intercalate sels) = sels := by
  by_cases hne : sels = []
  · subst hne
    rfl
  · have htrim : sels.map trim = sels := by
      rw [List.map_congr_left fun s hs => (h s hs).trim_eq, List.map_id']
    rw [splitSelectors, splitCommas_intercalate hne h, htrim, List.filter_eq_self]
    intro s hs
    simpa using (h s hs).ne_nil

/-- **Selector lists split and rejoin.**  Selectors that can stand in a list come back from the text
of the list.  Of any text whatever, with brackets that match or not, each piece is a selector that
is split no further. -/
theorem selectors_split_and_rejoin :
    (∀ sels : List (List Char), (∀ s ∈ sels, ListSelector s) →
      splitSelectors ([','].intercalate sels) = sels) ∧
    ∀ text : List Char, ∀ s ∈ splitSelectors text,
      s ≠ [] ∧ trim s = s ∧ splitSelectors s = [s] := by
  refine ⟨fun sels h => splitSelectors_intercalate h, fun text s hs => ?_⟩
  obtain ⟨hmem, hempty⟩ := List.mem_filter.mp hs
  obtain ⟨piece, hpiece, rfl⟩ := List.mem_map.mp hmem
  have hne : trim piece ≠ [] := by simpa using hempty
  exact ⟨hne, trim_trim piece,
    splitSelectors_of_undivided hne (trim_trim piece) (undivided_of_mem_splitCommas hpiece).trim⟩

/-- A bracket too many at the end of one selector, and one left open at the end of a list. -/
theorem selectors_split_and_rejoin_unmatched :
    splitSelectors ":not(.a, .b),.c),.d".toList =
        [":not(.a, .b)".toList, ".c)".toList, ".d".toList] ∧
      splitSelectors ":is(.e, .f".toList = [":is(.e, .f".toList] := by
  have hselector : ∀ s ∈ [":not(.a, .b)".toList, ".c)".toList, ".d".toList], ListSelector s := by
    simp only [List.forall_mem_cons]
    exact ⟨⟨by decide, by decide, by decide, by decide⟩,
      ⟨by decide, by decide, by decide, by decide⟩,
      ⟨by decide, by decide, by decide, by decide⟩, fun s hs => absurd hs List.not_mem_nil⟩
  have hpiece : ":is(.e, .f".toList ∈ splitSelectors ".d) , :is(.e, .f".toList := by decide
  exact ⟨selectors_split_and_rejoin.1 _ hselector, (selectors_split_and_rejoin.2 _ _ hpiece).2.2⟩

end StyleAudit.Style
