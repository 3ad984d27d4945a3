import Mathlib.Data.List.Basic
import StyleAudit.Style.Token

/-!
# Balanced brackets

Brackets in a row can go wrong in two ways: a closing bracket has no opening one
(`HasStrayCloser`), or an opening bracket is never closed (`HasUnclosedOpener`).  Both are said
without a stack, by what stands between the bracket and its partner, and a row is balanced if and
only if neither is the case (`not_balanced_iff`).

A reader keeps the brackets that are open, innermost first (`openAfter`).

* `balanced_iff`: a row is balanced if nothing is open after it.
* `openAfter_eq_none_iff`: the reader gets stuck exactly where a closing bracket is stray.  Brackets
  that are left open do not stop it.
-/

namespace StyleAudit.Style

/-- A bracket of a text. -/
inductive Delimiter where
  | opens (bracket : Bracket)
  | closes (bracket : Bracket)
deriving DecidableEq, Repr

/-- Each bracket is closed by one of its kind, and what stands between the two is balanced. -/
inductive Balanced : List Delimiter → Prop
  | nil : Balanced []
  | wrap (b : Bracket) {inner rest : List Delimiter} (hinner : Balanced inner)
      (hrest : Balanced rest) : Balanced (.opens b :: (inner ++ .closes b :: rest))

/-- A closing bracket without its opening one. -/
def HasStrayCloser (ds : List Delimiter) : Prop :=
  ∃ front b rest, ds = front ++ .closes b :: rest ∧
    ¬∃ outer inner, front = outer ++ .opens b :: inner ∧ Balanced inner

/-- An opening bracket that is never closed. -/
def HasUnclosedOpener (ds : List Delimiter) : Prop :=
  ∃ front b rest, ds = front ++ .opens b :: rest ∧
    ¬∃ inner outer, rest = inner ++ .closes b :: outer ∧ Balanced inner

theorem Balanced.append {ds es : List Delimiter} (h : Balanced ds) (h' : Balanced es) :
    Balanced (ds ++ es) := by
  induction h with
  | nil => exact h'
  | wrap b hinner _ _ ih => simpa using hinner.wrap b ih

/-! ### Open brackets -/

/-- The open brackets after one more, unless it closes what is not open. -/
def Delimiter.step (stack : List Bracket) : Delimiter → Option (List Bracket)
  | .opens b => some (b :: stack)
  | .closes b => if stack.head? = some b then some stack.tail else none

/-- The brackets that are open after a row, innermost first. -/
def openAfter (stack : List Bracket) : List Delimiter → Option (List Bracket)
  | [] => some stack
  | d :: ds => (d.step stack).bind (openAfter · ds)

section OpenAfter

variable {stack : List Bracket} {b : Bracket} {ds es : List Delimiter}

theorem openAfter_append (stack : List Bracket) (ds es : List Delimiter) :
    openAfter stack (ds ++ es) = (openAfter stack ds).bind (openAfter · es) := by
  induction ds generalizing stack with
  | nil => rfl
  | cons d ds ih =>
    rw [List.cons_append, openAfter, openAfter, Option.bind_assoc]
    exact congrArg _ (funext fun s => ih s)

theorem openAfter_opens (stack : List Bracket) (b : Bracket) (ds : List Delimiter) :
    openAfter stack (.opens b :: ds) = openAfter (b :: stack) ds := rfl

theorem openAfter_closes (stack : List Bracket) (b : Bracket) (ds : List Delimiter) :
    openAfter (b :: stack) (.closes b :: ds) = openAfter stack ds := by
  simp [openAfter, Delimiter.step]

theorem openAfter_closes_of_ne (h : stack.head? ≠ some b) (ds : List Delimiter) :
    openAfter stack (.closes b :: ds) = none := by
  rw [openAfter, Delimiter.step, if_neg h]
  rfl

theorem openAfter_append_of_balanced (h : Balanced ds) (stack : List Bracket)
    (es : List Delimiter) :
    openAfter stack (ds ++ es) = openAfter stack es := by
  induction h generalizing stack es with
  | nil => rfl
  | wrap b _ _ ihinner ihrest =>
    rw [List.cons_append, openAfter_opens, List.append_assoc, ihinner, List.cons_append,
      openAfter_closes, ihrest]

theorem Balanced.openAfter_eq (h : Balanced ds) (stack : List Bracket) :
    openAfter stack ds = some stack := by
  have hopen := openAfter_append_of_balanced h stack []
  rwa [List.append_nil] at hopen

/-- The innermost open bracket is followed by balanced ones. -/
theorem exists_opener (h : openAfter [] ds = some (b :: stack)) :
    ∃ outer inner, ds = outer ++ .opens b :: inner ∧ Balanced inner ∧
      openAfter [] outer = some stack := by
  induction hn : ds.length using Nat.strongRecOn generalizing ds b stack with
  | ind n ih =>
    obtain rfl | ⟨front, d, rfl⟩ := List.eq_nil_or_concat' ds
    · cases h
    · rw [openAfter_append] at h
      obtain ⟨before, hbefore, hstep⟩ := Option.bind_eq_some_iff.mp h
      subst hn
      cases d with
      | opens b' =>
        cases hstep
        exact ⟨front, [], rfl, .nil, hbefore⟩
      | closes b' =>
        -- The bracket closed last stands behind the innermost open one, with all between them.
        cases before with
        | nil => cases hstep
        | cons b'' before =>
          by_cases hb : b'' = b'
          · subst hb
            rw [openAfter_closes] at hstep
            cases hstep
            obtain ⟨outer', inner', rfl, hinner', houter'⟩ := ih _ (by simp) hbefore rfl
            obtain ⟨outer, inner, rfl, hinner, houter⟩ := ih _ (by simp) houter' rfl
            refine ⟨outer, inner ++ .opens b'' :: (inner' ++ [.closes b'']), by simp, ?_, houter⟩
            exact hinner.append (hinner'.wrap b'' .nil)
          · rw [openAfter_closes_of_ne (by simpa using hb)] at hstep
            cases hstep

/-- **A row is balanced if and only if nothing is open after it.** -/
theorem balanced_iff : Balanced ds ↔ openAfter [] ds = some [] := by
  refine ⟨fun h => h.openAfter_eq [], fun h => ?_⟩
  induction hn : ds.length using Nat.strongRecOn generalizing ds with
  | ind n ih =>
    obtain rfl | ⟨front, d, rfl⟩ := List.eq_nil_or_concat' ds
    · exact .nil
    · rw [openAfter_append] at h
      obtain ⟨before, hbefore, hstep⟩ := Option.bind_eq_some_iff.mp h
      subst hn
      cases d with
      | opens b => cases hstep
      | closes b =>
        by_cases hb : before.head? = some b
        · obtain ⟨stack, rfl⟩ := List.head?_eq_some_iff.mp hb
          rw [openAfter_closes] at hstep
          cases hstep
          obtain ⟨outer, inner, rfl, hinner, houter⟩ := exists_opener hbefore
          have hbalanced := (ih _ (by simp) houter rfl).append (hinner.wrap b .nil)
          simpa using hbalanced
        · rw [openAfter_closes_of_ne hb] at hstep
          cases hstep

instance (ds : List Delimiter) : Decidable (Balanced ds) :=
  decidable_of_iff _ balanced_iff.symm

/-- A bracket that is closed in the end is closed behind balanced brackets. -/
theorem exists_closer (inside : List Bracket)
    (h : openAfter (inside ++ b :: stack) ds = some []) :
    ∃ inner outer, ds = inner ++ .closes b :: outer ∧ openAfter inside inner = some [] := by
  -- `inside` holds the brackets that were opened behind `b` and are not closed yet.
  induction ds generalizing inside with
  | nil => simp [openAfter] at h
  | cons d ds ih =>
    cases d with
    | opens b' =>
      obtain ⟨inner, outer, rfl, hinner⟩ := ih (b' :: inside) h
      exact ⟨.opens b' :: inner, outer, rfl, hinner⟩
    | closes b' =>
      by_cases hb : (inside ++ b :: stack).head? = some b'
      · cases inside with
        | nil =>
          cases hb
          exact ⟨[], ds, rfl, rfl⟩
        | cons b'' inside =>
          have hsame : b'' = b' := by simpa using hb
          subst hsame
          rw [List.cons_append, openAfter_closes] at h
          obtain ⟨inner, outer, rfl, hinner⟩ := ih inside h
          exact ⟨.closes b'' :: inner, outer, rfl, by rw [openAfter_closes, hinner]⟩
      · rw [openAfter_closes_of_ne hb] at h
        cases h

/-! ### What can go wrong -/

theorem exists_of_openAfter_eq_none (h : openAfter stack ds = none) :
    ∃ front b rest opened, ds = front ++ .closes b :: rest ∧
      openAfter stack front = some opened ∧ opened.head? ≠ some b := by
  induction ds generalizing stack with
  | nil => cases h
  | cons d ds ih =>
    cases hstep : d.step stack with
    | none =>
      cases d with
      | opens b => cases hstep
      | closes b =>
        refine ⟨[], b, ds, stack, rfl, rfl, fun hb => ?_⟩
        rw [Delimiter.step, if_pos hb] at hstep
        cases hstep
    | some next =>
      rw [openAfter, hstep] at h
      obtain ⟨front, b, rest, opened, rfl, hopened, hb⟩ := ih h
      exact ⟨d :: front, b, rest, opened, rfl, by rw [openAfter, hstep]; exact hopened, hb⟩

/-- **The reader gets stuck if and only if a closing bracket is stray.** -/
theorem openAfter_eq_none_iff : openAfter [] ds = none ↔ HasStrayCloser ds := by
  constructor
  · intro h
    obtain ⟨front, b, rest, opened, rfl, hopened, hb⟩ := exists_of_openAfter_eq_none h
    refine ⟨front, b, rest, rfl, ?_⟩
    rintro ⟨outer, inner, rfl, hinner⟩
    rw [openAfter_append] at hopened
    obtain ⟨before, _, hafter⟩ := Option.bind_eq_some_iff.mp hopened
    rw [openAfter_opens, hinner.openAfter_eq] at hafter
    cases hafter
    exact hb rfl
  · rintro ⟨front, b, rest, rfl, hstray⟩
    rw [openAfter_append]
    cases hfront : openAfter [] front with
    | none => rfl
    | some opened =>
      refine openAfter_closes_of_ne (fun hb => hstray ?_) rest
      obtain ⟨stack, rfl⟩ := List.head?_eq_some_iff.mp hb
      obtain ⟨outer, inner, rfl, hinner, _⟩ := exists_opener hfront
      exact ⟨outer, inner, rfl, hinner⟩

theorem hasUnclosedOpener_of_openAfter (h : openAfter [] ds = some (b :: stack)) :
    HasUnclosedOpener ds := by
  obtain ⟨front, rest, rfl, hrest, _⟩ := exists_opener h
  refine ⟨front, b, rest, rfl, ?_⟩
  rintro ⟨inner, outer, rfl, hinner⟩
  have hopen := hrest.openAfter_eq []
  rw [openAfter_append_of_balanced hinner, openAfter_closes_of_ne (by simp)] at hopen
  cases hopen

theorem Balanced.not_hasUnclosedOpener (h : Balanced ds) : ¬HasUnclosedOpener ds := by
  rintro ⟨front, b, rest, rfl, hunclosed⟩
  have hopen := h.openAfter_eq []
  rw [openAfter_append] at hopen
  obtain ⟨stack, _, hrest⟩ := Option.bind_eq_some_iff.mp hopen
  obtain ⟨inner, outer, rfl, hinner⟩ := exists_closer [] hrest
  exact hunclosed ⟨inner, outer, rfl, balanced_iff.mpr hinner⟩

/-- **Brackets are balanced unless one is stray or one is left open.** -/
theorem not_balanced_iff : ¬Balanced ds ↔ HasStrayCloser ds ∨ HasUnclosedOpener ds := by
  constructor
  · intro h
    cases hopen : openAfter [] ds with
    | none => exact .inl (openAfter_eq_none_iff.mp hopen)
    | some stack =>
      cases stack with
      | nil => exact absurd (balanced_iff.mpr hopen) h
      | cons b stack => exact .inr (hasUnclosedOpener_of_openAfter hopen)
  · rintro (hstray | hunclosed) h
    · have hopen := h.openAfter_eq []
      rw [openAfter_eq_none_iff.mpr hstray] at hopen
      cases hopen
    · exact h.not_hasUnclosedOpener hunclosed

end OpenAfter

end StyleAudit.Style
