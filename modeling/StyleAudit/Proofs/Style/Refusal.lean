import StyleAudit.Proofs.Style.Brackets
import StyleAudit.Proofs.Style.Outline
import StyleAudit.Style.Declaration

/-!
# Which stylesheets are refused

Matching brackets leaves a fault where a closing bracket does not fit, and goes on.  So a forest is
without fault if its leaves are and no closing bracket is stray (`firstFault_nest`).  At the end of
the text open brackets are closed without a fault.

A stylesheet is therefore refused if a string or an address is broken or has no end, or if a closing
bracket is stray (`Dialect.exists_parse_error_iff`).  A bracket that is never closed is no reason to
refuse it (`unclosed_block_accepted`).
-/

namespace StyleAudit.Style

/-! ### Faults of a forest -/

/-- Nothing that is already read is at fault. -/
def SoundSoFar (tokens : List Token) (frames : List Frame) : Prop :=
  firstFault tokens = none ∧ ∀ f ∈ frames, firstFault f.before = none

theorem firstFault_cons_eq_none {t : Token} {ts : List Token} :
    firstFault (t :: ts) = none ↔ t.firstFault = none ∧ firstFault ts = none := by
  rw [firstFault_eq_none_iff, firstFault_eq_none_iff, List.forall_mem_cons]

theorem firstFault_reverse_eq_none {ts : List Token} :
    firstFault ts.reverse = none ↔ firstFault ts = none := by
  simp only [firstFault_eq_none_iff, List.mem_reverse]

theorem Frame.firstFault_close (f : Frame) (content : List Token) :
    (f.close content).firstFault = firstFault content.reverse := by
  rw [close]
  cases f.function? <;> simp [Token.firstFault]

section SoundSoFar

variable {tokens : List Token} {frames : List Frame}

theorem soundSoFar_leaf (line : Nat) (l : Leaf) :
    SoundSoFar (.leaf line l :: tokens) frames ↔ l.fault? = none ∧ SoundSoFar tokens frames := by
  rw [SoundSoFar, SoundSoFar, firstFault_cons_eq_none, Token.firstFault, Option.map_eq_none_iff,
    and_assoc]

theorem soundSoFar_open (line : Nat) (name : Option String) (b : Bracket) :
    SoundSoFar [] (⟨line, name, b, tokens⟩ :: frames) ↔ SoundSoFar tokens frames := by
  rw [SoundSoFar, SoundSoFar, List.forall_mem_cons, firstFault]
  exact ⟨fun h => h.2, fun h => ⟨rfl, h⟩⟩

theorem soundSoFar_close (f : Frame) :
    SoundSoFar (f.close tokens :: f.before) frames ↔ SoundSoFar tokens (f :: frames) := by
  rw [SoundSoFar, SoundSoFar, firstFault_cons_eq_none, f.firstFault_close,
    firstFault_reverse_eq_none, List.forall_mem_cons, and_assoc]

theorem firstFault_closeAll :
    firstFault (closeAll tokens frames) = none ↔ SoundSoFar tokens frames := by
  induction frames generalizing tokens with
  | nil => simp [closeAll, SoundSoFar, firstFault_reverse_eq_none]
  | cons f frames ih =>
    rw [← soundSoFar_close, ← ih]
    rfl

end SoundSoFar

/-- Marks can follow open brackets without a fault. -/
def Nestable (stack : List Bracket) (marks : List Mark) : Prop :=
  (∀ m ∈ marks, m.fault? = none) ∧ openAfter stack (marks.filterMap Mark.delimiter?) ≠ none

section Nestable

variable {stack : List Bracket} {b : Bracket} {m : Mark} {marks : List Mark}

theorem nestable_leaf {l : Leaf} :
    Nestable stack (.leaf l :: marks) ↔ l.fault? = none ∧ Nestable stack marks := by
  rw [Nestable, Nestable, List.forall_mem_cons, List.filterMap_cons_none rfl, Mark.fault?,
    and_assoc]

theorem nestable_opens (hfault : m.fault? = none) (hm : m.delimiter? = some (.opens b)) :
    Nestable stack (m :: marks) ↔ Nestable (b :: stack) marks := by
  rw [Nestable, Nestable, List.forall_mem_cons, List.filterMap_cons_some hm, openAfter_opens]
  simp only [hfault, true_and]

theorem nestable_closer : Nestable (b :: stack) (.closer b :: marks) ↔ Nestable stack marks := by
  rw [Nestable, Nestable, List.forall_mem_cons,
    List.filterMap_cons_some (f := Mark.delimiter?) (a := .closer b) rfl, openAfter_closes]
  simp only [Mark.fault?, true_and]

theorem not_nestable_closer (h : stack.head? ≠ some b) : ¬Nestable stack (.closer b :: marks) := by
  rw [Nestable, List.filterMap_cons_some (f := Mark.delimiter?) (a := .closer b) rfl,
    openAfter_closes_of_ne h]
  exact fun hnestable => hnestable.2 rfl

end Nestable

/-- **A forest is without fault if its leaves are and no closing bracket is stray.** -/
theorem firstFault_nest (ls : List Lexeme) (tokens : List Token) (frames : List Frame) :
    firstFault (Token.nest ls tokens frames) = none ↔
      SoundSoFar tokens frames ∧ Nestable (frames.map Frame.bracket) (ls.map Lexeme.mark) := by
  induction ls generalizing tokens frames with
  | nil => simp [Token.nest, firstFault_closeAll, Nestable, openAfter]
  | cons l ls ih =>
    obtain ⟨line, mark⟩ := l
    rw [List.map_cons]
    cases mark with
    | leaf l => rw [Token.nest, ih, soundSoFar_leaf, nestable_leaf, and_assoc, and_left_comm]
    | opener b => rw [Token.nest, ih, soundSoFar_open, nestable_opens rfl rfl, List.map_cons]
    | function name => rw [Token.nest, ih, soundSoFar_open, nestable_opens rfl rfl, List.map_cons]
    | closer b =>
      -- A closing bracket that does not fit leaves a fault, and whatever follows it is no matter.
      have hstray : (frames.map Frame.bracket).head? ≠ some b →
          (firstFault (Token.nest ls (.leaf line (.fault (.unmatched b)) :: tokens) frames) = none ↔
            SoundSoFar tokens frames ∧
              Nestable (frames.map Frame.bracket) (.closer b :: ls.map Lexeme.mark)) := by
        intro hb
        rw [ih, soundSoFar_leaf]
        refine iff_of_false ?_ fun h => not_nestable_closer hb h.2
        rintro ⟨⟨hfault, _⟩, _⟩
        cases hfault
      cases frames with
      | nil => exact hstray (by simp)
      | cons f outer =>
        rw [Token.nest]
        by_cases hb : f.bracket = b
        · subst hb
          rw [if_pos rfl, ih, soundSoFar_close, List.map_cons, nestable_closer]
        · rw [if_neg hb]
          exact hstray (by simpa using hb)

/-! ### Stylesheets -/

/-- The marks of a text, which has none for its comments. -/
def marksOf (cs : List Char) : List Mark :=
  (passagesFrom 0 cs).flatMap Passage.marks

theorem exists_parseSound_error_iff {cs : List Char} :
    (∃ e, parseSound cs = .error e) ↔ ¬Nestable [] (marksOf (normalizeSource cs)) := by
  have hmarks : (lexemes cs).map Lexeme.mark = marksOf (normalizeSource cs) :=
    map_mark_lexemesFrom 0 1 (normalizeSource cs)
  have hsound : SoundSoFar [] [] := ⟨rfl, by simp⟩
  have hfault : firstFault (parse cs) = none ↔ Nestable [] (marksOf (normalizeSource cs)) := by
    rw [parse, firstFault_nest, hmarks, and_iff_right hsound, List.map_nil]
  rw [← hfault, parseSound]
  cases firstFault (parse cs) <;> simp

namespace Dialect

/-- The text of a stylesheet that is read, without its line comments. -/
def text (d : Dialect) (source : String) : List Char :=
  normalizeSource (if d.hasLineComments then stripLineComments source.toList else source.toList)

/-- The brackets of a stylesheet that stand in no string, no comment and no address. -/
def brackets (d : Dialect) (source : String) : List Delimiter :=
  (passagesFrom 0 (d.text source)).flatMap Passage.brackets

/-- A string or an address of the stylesheet is broken or has no end. -/
def HasBrokenValue (d : Dialect) (source : String) : Prop :=
  ∃ p ∈ passagesFrom 0 (d.text source), ∃ cause, .leaf (.fault cause) ∈ p.marks

theorem brackets_eq (d : Dialect) (source : String) :
    d.brackets source = (marksOf (d.text source)).filterMap Mark.delimiter? := by
  rw [brackets, marksOf, List.filterMap_flatMap]
  exact List.flatMap_congr fun p hp => (faithful_of_mem_passagesFrom p hp).brackets_eq

theorem hasBrokenValue_iff {d : Dialect} {source : String} :
    d.HasBrokenValue source ↔ ∃ m ∈ marksOf (d.text source), m.fault? ≠ none := by
  constructor
  · rintro ⟨p, hp, cause, hm⟩
    exact ⟨_, List.mem_flatMap.mpr ⟨p, hp, hm⟩, by simp [Mark.fault?, Leaf.fault?]⟩
  · rintro ⟨m, hm, hfault⟩
    obtain ⟨p, hp, hm⟩ := List.mem_flatMap.mp hm
    obtain ⟨cause, rfl⟩ := (faithful_of_mem_passagesFrom p hp).fault m hm hfault
    exact ⟨p, hp, cause, hm⟩

/-- **A stylesheet is refused if a value is broken or a closing bracket is stray.** -/
theorem exists_parse_error_iff {d : Dialect} {source : String} :
    (∃ e, d.parse source = .error e) ↔
      d.HasBrokenValue source ∨ HasStrayCloser (d.brackets source) := by
  have herror : (∃ e, d.parse source = .error e) ↔ ¬Nestable [] (marksOf (d.text source)) :=
    exists_parseSound_error_iff
  rw [herror, hasBrokenValue_iff, ← openAfter_eq_none_iff, brackets_eq, Nestable]
  simp only [not_and_or, not_forall, ne_eq, not_not, exists_prop]

end Dialect

/-- What is made of a forest cannot fail. -/
theorem exists_error_bind_pure_iff {α : Type} {x : Except ParseError (List Token)}
    {f : List Token → α} :
    (∃ e, (x >>= fun forest => pure (f forest)) = Except.error e) ↔ ∃ e, x = .error e := by
  cases x with
  | error e => exact ⟨fun _ => ⟨e, rfl⟩, fun _ => ⟨e, rfl⟩⟩
  | ok forest =>
    constructor
    · rintro ⟨e, h⟩
      cases h
    · rintro ⟨e, h⟩
      cases h

end StyleAudit.Style
