import StyleAudit.Proofs.Text.Pattern
import StyleAudit.Style.Forest

/-!
# The fault that a forest is refused for

A place in a forest is a list of numbers.  The first counts the tokens of the forest, the second
those between the brackets of the token there, and so on down (`tokenAt?`).  Document order is the
lexicographic order of places: a block comes before its content, and all of its content before the
next token.

A forest is refused for the fault at the least of all places that have one
(`refused_at_first_fault`).  The proof follows the forest.  The places of `t :: ts` are `[0]` for `t`
itself, `0 :: place` for a place inside `t`, and `(i + 1) :: place` for a place `i :: place` of `ts`.
They come in this order, and `firstFault` asks for faults in the same order (`firstFault_cons`).
-/

namespace StyleAudit.Style

/-! ### Places -/

namespace Token

/-- What stands between the brackets of a token. -/
def inner : Token → List Token
  | .leaf .. => []
  | .block _ _ content => content
  | .function _ _ arguments => arguments

/-- The token that is reached from a token by going inside as the numbers say. -/
def part? : Token → List Nat → Option Token
  | t, [] => some t
  | t, i :: place => t.inner[i]?.bind (part? · place)

end Token

/-- The token at a place of a forest. -/
def tokenAt? (forest : List Token) : List Nat → Option Token
  | [] => none
  | i :: place => forest[i]?.bind (·.part? place)

mutual

theorem forest_induction_inner {motive : List Token → Prop} (nil : motive [])
    (cons : ∀ t ts, motive t.inner → motive ts → motive (t :: ts)) :
    ∀ t : Token, motive t.inner
  | .leaf .. => nil
  | .block _ _ content => forest_induction nil cons content
  | .function _ _ arguments => forest_induction nil cons arguments

/-- What holds of a forest as soon as it holds inside the first token and of the other tokens holds
of every forest. -/
@[elab_as_elim]
theorem forest_induction {motive : List Token → Prop} (nil : motive [])
    (cons : ∀ t ts, motive t.inner → motive ts → motive (t :: ts)) : ∀ ts : List Token, motive ts
  | [] => nil
  | t :: ts => cons t ts (forest_induction_inner nil cons t) (forest_induction nil cons ts)

end

/-! ### Faults -/

/-- A token that a forest is refused for: what the reader marked as a fault, or a literal of closing
brackets as they follow each other in `)]}`.  The message says which. -/
inductive Token.AtFault : Token → String → Prop
  | marked (line : Nat) (cause : TokenFault) : AtFault (.leaf line (.fault cause)) cause.message
  | closer (line : Nat) {text : String} (h : text.toList <:+: [')', ']', '}']) :
    AtFault (.leaf line (.literal text)) ("Unmatched " ++ text)

/-- The error tells the message and the line of a token at fault that stands at a place. -/
def FaultAt (forest : List Token) (place : List Nat) (e : ParseError) : Prop :=
  ∃ t, tokenAt? forest place = some t ∧ t.AtFault e.message ∧ t.line = e.line

/-- The error about a token by itself. -/
def Token.fault? : Token → Option ParseError
  | .leaf line l => l.fault?.map (⟨·, line⟩)
  | _ => none

theorem Leaf.fault?_eq_some_iff {l : Leaf} {message : String} (line : Nat) :
    l.fault? = some message ↔ (Token.leaf line l).AtFault message := by
  constructor
  · intro h
    cases l with
    | fault cause =>
      cases h
      exact .marked line cause
    | literal text =>
      by_cases hcloser : Text.occursIn text.toList [')', ']', '}'] = true
      · rw [fault?, if_pos hcloser] at h
        cases h
        exact .closer line (Text.occursIn_iff.mp hcloser)
      · rw [fault?, if_neg hcloser] at h
        cases h
    | _ => cases h
  · intro h
    cases h with
    | marked _ cause => rfl
    | closer _ hcloser => rw [fault?, if_pos (Text.occursIn_iff.mpr hcloser)]

theorem Token.fault?_eq_some_iff {t : Token} {e : ParseError} :
    t.fault? = some e ↔ t.AtFault e.message ∧ t.line = e.line := by
  cases t with
  | leaf line l =>
    rw [fault?, Option.map_eq_some_iff, ← Leaf.fault?_eq_some_iff]
    constructor
    · rintro ⟨message, h, rfl⟩
      exact ⟨h, rfl⟩
    · rintro ⟨h, rfl⟩
      exact ⟨e.message, h, rfl⟩
  | block | function =>
    constructor
    · intro h
      cases h
    · rintro ⟨h, _⟩
      cases h

theorem Token.firstFault_eq (t : Token) : t.firstFault = t.fault?.or (Style.firstFault t.inner) := by
  cases t with
  | leaf line l =>
    rw [Token.firstFault, fault?, inner, Style.firstFault, Option.or_none]
  | block | function =>
    rw [Token.firstFault]
    rfl

theorem firstFault_cons (t : Token) (ts : List Token) :
    firstFault (t :: ts) = (t.fault?.or (firstFault t.inner)).or (firstFault ts) := by
  rw [firstFault, t.firstFault_eq]
  cases t.fault?.or (firstFault t.inner) <;> rfl

/-! ### Places of faults -/

section Places

variable {forest ts : List Token} {t : Token} {place place' : List Nat} {i : Nat}
  {e e' : ParseError}

theorem FaultAt.exists_cons (h : FaultAt forest place e) : ∃ i rest, place = i :: rest := by
  obtain ⟨t, h, -⟩ := h
  cases place with
  | nil => cases h
  | cons i rest => exact ⟨i, rest, rfl⟩

theorem FaultAt.unique (h : FaultAt forest place e) (h' : FaultAt forest place e') : e = e' := by
  obtain ⟨t, ht, hfault⟩ := h
  obtain ⟨t', ht', hfault'⟩ := h'
  obtain rfl : t = t' := Option.some.inj (ht.symm.trans ht')
  rw [← Token.fault?_eq_some_iff] at hfault hfault'
  exact Option.some.inj (hfault.symm.trans hfault')

theorem faultAt_self : FaultAt (t :: ts) [0] e ↔ t.fault? = some e := by
  rw [Token.fault?_eq_some_iff]
  constructor
  · rintro ⟨t', h, hfault⟩
    cases h
    exact hfault
  · exact fun h => ⟨t, rfl, h⟩

theorem faultAt_inside :
    FaultAt (t :: ts) (0 :: i :: place) e ↔ FaultAt t.inner (i :: place) e :=
  Iff.rfl

theorem faultAt_later : FaultAt (t :: ts) ((i + 1) :: place) e ↔ FaultAt ts (i :: place) e :=
  Iff.rfl

/-- A fault is that of the first token, or inside it, or further on. -/
theorem FaultAt.cons_cases (h : FaultAt (t :: ts) place e) :
    (place = [0] ∧ t.fault? = some e) ∨
      (∃ inside, place = 0 :: inside ∧ FaultAt t.inner inside e) ∨
      ∃ i later, place = (i + 1) :: later ∧ FaultAt ts (i :: later) e := by
  obtain ⟨i, rest, rfl⟩ := h.exists_cons
  cases i with
  | succ i => exact .inr (.inr ⟨i, rest, rfl, faultAt_later.mp h⟩)
  | zero =>
    cases rest with
    | nil => exact .inl ⟨rfl, faultAt_self.mp h⟩
    | cons j rest => exact .inr (.inl ⟨j :: rest, rfl, faultAt_inside.mp h⟩)

theorem not_faultAt_of_firstFault (h : firstFault forest = none) : ¬FaultAt forest place e := by
  induction forest using forest_induction generalizing place with
  | nil =>
    rintro ⟨t, ht, -⟩
    cases place <;> cases ht
  | cons t ts ihinside ihlater =>
    rw [firstFault_cons, Option.or_eq_none_iff, Option.or_eq_none_iff] at h
    obtain ⟨⟨hself, hinside⟩, hlater⟩ := h
    intro hfault
    rcases hfault.cons_cases with ⟨-, hfault⟩ | ⟨inside, -, hfault⟩ | ⟨i, later, -, hfault⟩
    · cases hself.symm.trans hfault
    · exact ihinside hinside hfault
    · exact ihlater hlater hfault

/-! ### The first place -/

/-- The error is about the first of the places that have a fault. -/
def FirstFaultAt (forest : List Token) (place : List Nat) (e : ParseError) : Prop :=
  FaultAt forest place e ∧
    ∀ place' e', FaultAt forest place' e' → place' = place ∨ List.Lex (· < ·) place place'

namespace FirstFaultAt

theorem self (h : t.fault? = some e) : FirstFaultAt (t :: ts) [0] e := by
  refine ⟨faultAt_self.mpr h, fun place' e' h' => ?_⟩
  rcases h'.cons_cases with ⟨rfl, -⟩ | ⟨inside, rfl, hinside⟩ | ⟨j, later, rfl, -⟩
  · exact .inl rfl
  · obtain ⟨j, inside, rfl⟩ := hinside.exists_cons
    exact .inr (.cons .nil)
  · exact .inr (.rel j.succ_pos)

theorem inside (hself : t.fault? = none) (h : FirstFaultAt t.inner place e) :
    FirstFaultAt (t :: ts) (0 :: place) e := by
  obtain ⟨hfault, hfirst⟩ := h
  obtain ⟨i, rest, rfl⟩ := hfault.exists_cons
  refine ⟨faultAt_inside.mpr hfault, fun place' e' h' => ?_⟩
  rcases h'.cons_cases with ⟨-, h'⟩ | ⟨inside, rfl, hinside⟩ | ⟨j, later, rfl, -⟩
  · cases hself.symm.trans h'
  · exact (hfirst inside e' hinside).imp (congrArg (0 :: ·)) .cons
  · exact .inr (.rel j.succ_pos)

theorem later (hself : t.fault? = none) (hinside : firstFault t.inner = none)
    (h : FirstFaultAt ts (i :: place) e) : FirstFaultAt (t :: ts) ((i + 1) :: place) e := by
  obtain ⟨hfault, hfirst⟩ := h
  refine ⟨faultAt_later.mpr hfault, fun place' e' h' => ?_⟩
  rcases h'.cons_cases with ⟨-, h'⟩ | ⟨inside, -, h'⟩ | ⟨j, later, rfl, hlater⟩
  · cases hself.symm.trans h'
  · exact absurd h' (not_faultAt_of_firstFault hinside)
  · rcases hfirst (j :: later) e' hlater with heq | hlex
    · cases heq
      exact .inl rfl
    · cases hlex with
      | rel hlt => exact .inr (.rel (Nat.succ_lt_succ hlt))
      | cons hlex => exact .inr (.cons hlex)

theorem unique (h : FirstFaultAt forest place e) (h' : FirstFaultAt forest place' e') : e = e' := by
  rcases h.2 place' e' h'.1 with rfl | hlt
  · exact h.1.unique h'.1
  · rcases h'.2 place e h.1 with rfl | hgt
    · exact h.1.unique h'.1
    · exact absurd hgt (List.lex_asymm Nat.lt_asymm hlt)

end FirstFaultAt

theorem exists_firstFaultAt (h : firstFault forest = some e) :
    ∃ place, FirstFaultAt forest place e := by
  induction forest using forest_induction with
  | nil => cases h
  | cons t ts ihinside ihlater =>
    rw [firstFault_cons, Option.or_eq_some_iff, Option.or_eq_some_iff, Option.or_eq_none_iff] at h
    rcases h with (hself | ⟨hself, h⟩) | ⟨⟨hself, hinside⟩, h⟩
    · exact ⟨[0], .self hself⟩
    · obtain ⟨place, hplace⟩ := ihinside h
      exact ⟨0 :: place, hplace.inside hself⟩
    · obtain ⟨place, hplace⟩ := ihlater h
      obtain ⟨i, rest, rfl⟩ := hplace.1.exists_cons
      exact ⟨(i + 1) :: rest, hplace.later hself hinside⟩

theorem exists_firstFault_iff :
    (∃ e, firstFault forest = some e) ↔ ∃ place e, FaultAt forest place e := by
  constructor
  · rintro ⟨e, h⟩
    obtain ⟨place, hplace⟩ := exists_firstFaultAt h
    exact ⟨place, e, hplace.1⟩
  · rintro ⟨place, e, hfault⟩
    exact Option.ne_none_iff_exists'.mp fun h => not_faultAt_of_firstFault h hfault

end Places

/-- **A forest is refused if a token in it is at fault, and then for the first such token.**  The
token may stand at any depth.  The first one is that at the least place, and the error has its
message and its line. -/
theorem refused_at_first_fault (forest : List Token) :
    ((∃ e, firstFault forest = some e) ↔
      ∃ place t message, tokenAt? forest place = some t ∧ t.AtFault message) ∧
    ∀ e, firstFault forest = some e ↔
      ∃ place, FaultAt forest place e ∧
        ∀ place' e', FaultAt forest place' e' → place' = place ∨ List.Lex (· < ·) place place' := by
  constructor
  · rw [exists_firstFault_iff]
    constructor
    · rintro ⟨place, e, t, ht, hfault, -⟩
      exact ⟨place, t, e.message, ht, hfault⟩
    · rintro ⟨place, t, message, ht, hfault⟩
      exact ⟨place, ⟨message, t.line⟩, t, ht, hfault, rfl⟩
  · intro e
    refine ⟨exists_firstFaultAt, ?_⟩
    rintro ⟨place, hplace⟩
    -- the forest is refused for some error, and two errors about the first place are one
    obtain ⟨e', he'⟩ := exists_firstFault_iff.mpr ⟨place, e, hplace.1⟩
    obtain ⟨place', hplace'⟩ := exists_firstFaultAt he'
    rw [he', FirstFaultAt.unique hplace' hplace]

example : firstFault [.function 1 "f" [.leaf 1 (.ident "a"), .block 2 .square
    [.leaf 3 (.literal "]")]], .leaf 4 (.fault .badUrl)] = some ⟨"Unmatched ]", 3⟩ := by
  decide

end StyleAudit.Style
