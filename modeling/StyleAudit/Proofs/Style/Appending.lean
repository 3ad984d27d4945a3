import Mathlib.Data.List.Basic
import StyleAudit.Proofs.Style.Sheet
import StyleAudit.Style.Extract

/-!
# Rules that are appended

The rules of a stylesheet are walked one after the other, the rules inside a rule before the next
one, and all of them write into one sheet (`walk`).  None of them reads it: the walk adds up the
facts of the forest (`walk_eq_learnAll`), and facts can be added up apart and merged afterwards,

    s.learnAll facts = s.merge (({} : Sheet).learnAll facts).

In a merge the first sheet wins: its definitions keep their places and lines, and those of the second
sheet follow as far as their identifiers are new.  The nested classes are united parent by parent.

A forest falls apart between two rules, that is, where no prelude is open (`pending`,
`rules_append`).  So rules that are appended to a forest leave the sheet of the forest as it is and
add to it (`walk_appended`).
-/

namespace StyleAudit

/-! ### Merging tables -/

namespace Table

variable {β : Type}

/-- The entries of the first table in their places, and after them those of the second one whose keys
are new. -/
def firstWins (t u : Table β) : Table β :=
  t ++ u.filter fun e => !t.contains e.1

theorem contains_firstWins (t u : Table β) (key : String) :
    (t.firstWins u).contains key = (t.contains key || u.contains key) := by
  rw [Bool.eq_iff_iff, Bool.or_eq_true]
  simp only [contains_iff_mem_keys, firstWins, keys, List.map_append, List.mem_append,
    List.mem_map, List.mem_filter]
  constructor
  · rintro (h | ⟨e, ⟨he, -⟩, rfl⟩)
    · exact Or.inl h
    · exact Or.inr ⟨e, he, rfl⟩
  · rintro (h | ⟨e, he, rfl⟩)
    · exact Or.inl h
    · by_cases ht : t.contains e.1 = true
      · exact Or.inl (List.mem_map.mp (contains_iff_mem_keys.mp ht))
      · exact Or.inr ⟨e, ⟨he, by simpa using ht⟩, rfl⟩

/-- A new key of the second table is a new key of the merge, unless the first table has it. -/
theorem firstWins_putNew (t u : Table β) (key : String) (b : β) :
    t.firstWins (u.putNew key b) = (t.firstWins u).putNew key b := by
  rw [putNew, putNew, contains_firstWins]
  cases ht : t.contains key with
  | true =>
    rw [Bool.true_or, if_pos rfl]
    split
    · rfl
    · simp [firstWins, List.filter_append, ht]
  | false =>
    rw [Bool.false_or]
    split
    · rfl
    · simp [firstWins, List.filter_append, ht]

/-- Under each key the names of both tables, those of the first one before those that are new. -/
def union (t u : Table (List String)) : Table (List String) :=
  u.foldl (fun t e => t.alter e.1 [] (addNames · e.2)) t

theorem union_cons (t : Table (List String)) (e : String × List String) (u : Table (List String)) :
    t.union (e :: u) = (t.alter e.1 [] (addNames · e.2)).union u := rfl

/-- A key of the first table that the second one does not have may be altered before the union. -/
theorem alter_union {t u : Table (List String)} {key : String} (ht : key ∈ t.keys)
    (hu : key ∉ u.keys) (f : List String → List String) :
    (t.union u).alter key [] f = (t.alter key [] f).union u := by
  induction u generalizing t with
  | nil => rfl
  | cons e u ih =>
    obtain ⟨hne, hnew⟩ := not_or.mp fun hmem => hu (List.mem_cons.mpr hmem)
    rw [union_cons, union_cons, ih (mem_keys_alter.mpr (Or.inl ht)) hnew, alter_comm ht hne]

/-- One more name in the second table is one more name in the union. -/
theorem union_alter {u : Table (List String)} (hu : u.keys.Nodup) (t : Table (List String))
    (key name : String) :
    t.union (u.alter key [] (addName · name)) = (t.union u).alter key [] (addName · name) := by
  induction u generalizing t with
  | nil => rfl
  | cons e u ih =>
    obtain ⟨k, names⟩ := e
    obtain ⟨hnew, hnodup⟩ := List.nodup_cons.mp hu
    by_cases h : k = key
    · subst h
      -- the key does not come again, so the name may be added right after the names before it
      have hthere : k ∈ (t.alter k [] (addNames · names)).keys := mem_keys_alter.mpr (Or.inr rfl)
      rw [alter, if_pos (by simp), union_cons, union_cons, alter_union hthere hnew, alter_alter]
      simp only [addNames_addName]
    · rw [alter, if_neg (by simpa using h), union_cons, union_cons, ih hnodup]

end Table

namespace Style

/-! ### Merging sheets -/

namespace Sheet

/-- The two sheets together.  What both of them define keeps the place and the line that it has in
the first one. -/
def merge (s t : Sheet) : Sheet where
  definitions := s.definitions.firstWins t.definitions
  nesting := s.nesting.union t.nesting

/-- Nothing of the first sheet is removed, moved or renumbered in the second one. -/
structure Extends (s t : Sheet) : Prop where
  definitions : s.definitions <+: t.definitions
  children : ∀ parent, s.children parent ⊆ t.children parent

theorem merge_empty (s : Sheet) : s.merge {} = s := by
  rw [merge, Table.firstWins, List.filter_nil, List.append_nil]
  rfl

theorem merge_learn (s : Sheet) {t : Sheet} (ht : t.nesting.keys.Nodup) (f : Fact) :
    s.merge (t.learn f) = (s.merge t).learn f := by
  cases f with
  | defines identifier line => simp only [merge, learn, define, Table.firstWins_putNew]
  | nests parent child => simp only [merge, learn, addChild, Table.union_alter ht]

theorem nodup_nesting_learn {s : Sheet} (h : s.nesting.keys.Nodup) (f : Fact) :
    (s.learn f).nesting.keys.Nodup := by
  cases f with
  | defines identifier line => exact h
  | nests parent child => exact Table.nodup_keys_alter h parent _ _

/-- What is learnt after a merge might as well be learnt before it. -/
theorem learnAll_merge (facts : List Fact) (s : Sheet) {t : Sheet} (ht : t.nesting.keys.Nodup) :
    (s.merge t).learnAll facts = s.merge (t.learnAll facts) := by
  rw [learnAll, learnAll]
  induction facts generalizing t with
  | nil => rfl
  | cons f facts ih =>
    rw [List.foldl_cons, List.foldl_cons, ← merge_learn s ht f]
    exact ih (nodup_nesting_learn ht f)

/-- **To learn facts is to merge the sheet that they add up to.** -/
theorem learnAll_eq_merge (facts : List Fact) (s : Sheet) :
    s.learnAll facts = s.merge (({} : Sheet).learnAll facts) := by
  have hempty : ({} : Sheet).nesting.keys.Nodup := List.nodup_nil
  rw [← learnAll_merge facts s hempty, merge_empty]

theorem learnAll_append (s : Sheet) (facts more : List Fact) :
    s.learnAll (facts ++ more) = (s.learnAll facts).learnAll more :=
  List.foldl_append

theorem extends_learnAll (s : Sheet) (facts : List Fact) : s.Extends (s.learnAll facts) where
  definitions := by
    rw [learnAll_eq_merge]
    exact List.prefix_append _ _
  children := fun parent child hchild => (mem_children_learnAll facts).mpr (Or.inl hchild)

end Sheet

/-! ### Walking -/

mutual

/-- The sheet after a rule: its selectors write into the sheet one after the other, and then the
rules inside it do. -/
def Rule.walk (d : Dialect) (scope : Scope) : Rule → Sheet → Sheet
  | .mk prelude body, s =>
    match heading d prelude with
    | .skip => s
    | .template => walkRules d .template body s
    | .transparent => walkRules d scope body s
    | .selectors line list =>
      walkRules d (scope.under list) body
        (list.foldl (fun s selector => s.learnAll (selectorFacts scope line selector)) s)

/-- The sheet after a list of rules. -/
def walkRules (d : Dialect) (scope : Scope) : List Rule → Sheet → Sheet
  | [], s => s
  | r :: rs, s => walkRules d scope rs (r.walk d scope s)

end

/-- The sheet after the rules of a forest. -/
def walk (d : Dialect) (scope : Scope) (forest : List Token) (s : Sheet) : Sheet :=
  walkRules d scope (rules [] forest) s

theorem foldl_learnAll {α : Type} (f : α → List Fact) (l : List α) (s : Sheet) :
    l.foldl (fun s x => s.learnAll (f x)) s = s.learnAll (l.flatMap f) := by
  induction l generalizing s with
  | nil => rfl
  | cons x l ih => rw [List.foldl_cons, ih, List.flatMap_cons, Sheet.learnAll_append]

mutual

theorem Rule.walk_eq (d : Dialect) : ∀ (r : Rule) (scope : Scope) (s : Sheet),
    r.walk d scope s = s.learnAll (r.facts d scope)
  | .mk prelude body, scope, s => by
    rw [Rule.walk, Rule.facts]
    cases heading d prelude with
    | skip => rfl
    | template => exact walkRules_eq d body .template s
    | transparent => exact walkRules_eq d body scope s
    | selectors line list =>
      change walkRules d (scope.under list) body _ = _
      rw [walkRules_eq d body, foldl_learnAll, Sheet.learnAll_append]

theorem walkRules_eq (d : Dialect) : ∀ (rs : List Rule) (scope : Scope) (s : Sheet),
    walkRules d scope rs s = s.learnAll (factsOf d scope rs)
  | [], scope, s => by rw [walkRules, factsOf]; rfl
  | r :: rs, scope, s => by
    rw [walkRules, factsOf, walkRules_eq d rs, Rule.walk_eq d r, Sheet.learnAll_append]

end

/-- **The walk reads nothing of the sheet.**  It adds up the facts of the forest. -/
theorem walk_eq_learnAll (d : Dialect) (scope : Scope) (forest : List Token) (s : Sheet) :
    walk d scope forest s = s.learnAll (forestFacts d scope forest) :=
  walkRules_eq d (rules [] forest) scope s

theorem extract_eq_walk {d : Dialect} {source : String} {forest : List Token}
    (h : d.parse source = .ok forest) : extract d source = .ok (walk d {} forest {}) := by
  rw [extract, h, walk_eq_learnAll]
  rfl

/-! ### Rules of two forests -/

/-- The prelude that is open at the end of a forest that follows `prelude`. -/
def pending (prelude : List Token) : List Token → List Token
  | [] => prelude
  | t :: ts =>
    if t.isCurly && !endsInMark prelude then pending [] ts else pending (extendPrelude prelude t) ts

theorem rules_append (prelude a b : List Token) :
    rules prelude (a ++ b) = rules prelude a ++ rules (pending prelude a) b := by
  induction a generalizing prelude with
  | nil => rw [List.nil_append, rules, pending, List.nil_append]
  | cons t a ih =>
    rw [List.cons_append, rules, rules, pending]
    by_cases hblock : (t.isCurly && !endsInMark prelude) = true
    · rw [if_pos hblock, if_pos hblock, if_pos hblock]
      by_cases hempty : prelude.isEmpty = true
      · rw [if_pos hempty, if_pos hempty, ih]
      · rw [if_neg hempty, if_neg hempty, ih, List.cons_append]
    · rw [if_neg hblock, if_neg hblock, if_neg hblock, ih]

theorem walkRules_append (d : Dialect) (scope : Scope) (rs rs' : List Rule) (s : Sheet) :
    walkRules d scope (rs ++ rs') s = walkRules d scope rs' (walkRules d scope rs s) := by
  induction rs generalizing s with
  | nil => rw [List.nil_append, walkRules]
  | cons r rs ih => rw [List.cons_append, walkRules, walkRules, ih]

/-- Where no prelude is open, the walk goes on as if it began there. -/
theorem walk_append {a : List Token} (ha : pending [] a = []) (d : Dialect) (scope : Scope)
    (b : List Token) (s : Sheet) :
    walk d scope (a ++ b) s = walk d scope b (walk d scope a s) := by
  rw [walk, rules_append, ha, walkRules_append]
  rfl

theorem walk_eq_merge (d : Dialect) (scope : Scope) (forest : List Token) (s : Sheet) :
    walk d scope forest s = s.merge (walk d scope forest {}) := by
  rw [walk_eq_learnAll, walk_eq_learnAll, Sheet.learnAll_eq_merge]

theorem mem_children_walk {d : Dialect} {scope : Scope} {forest : List Token} {s : Sheet}
    {parent child : String} :
    child ∈ (walk d scope forest s).children parent ↔
      child ∈ s.children parent ∨ child ∈ (walk d scope forest {}).children parent := by
  have hnone : child ∉ ({} : Sheet).children parent := List.not_mem_nil
  rw [walk_eq_learnAll, walk_eq_learnAll, Sheet.mem_children_learnAll, Sheet.mem_children_learnAll,
    or_iff_right hnone]

theorem extends_walk (d : Dialect) (scope : Scope) (forest : List Token) (s : Sheet) :
    s.Extends (walk d scope forest s) := by
  rw [walk_eq_learnAll]
  exact s.extends_learnAll _

/-- **Rules that are appended add to the sheet and change nothing in it.**  If no prelude is open at
the end of `a`, walking over `a ++ b` is walking over `a` and then over `b`.  The result is what the
sheet at the start, the sheet of `a` alone and the sheet of `b` alone merge to, where the first of
them wins.  So appending rules to a stylesheet removes, moves and renumbers nothing. -/
theorem walk_appended (d : Dialect) (scope : Scope) (a b : List Token) (ha : pending [] a = [])
    (s : Sheet) :
    walk d scope (a ++ b) s = walk d scope b (walk d scope a s) ∧
    walk d scope (a ++ b) s = (s.merge (walk d scope a {})).merge (walk d scope b {}) ∧
    (∀ parent child, child ∈ (walk d scope (a ++ b) s).children parent ↔
      child ∈ s.children parent ∨ child ∈ (walk d scope a {}).children parent ∨
        child ∈ (walk d scope b {}).children parent) ∧
    (walk d scope a s).Extends (walk d scope (a ++ b) s) ∧
    ∀ source source', d.parse source = .ok a → d.parse source' = .ok (a ++ b) →
      ∃ sheet sheet', extract d source = .ok sheet ∧ extract d source' = .ok sheet' ∧
        sheet.Extends sheet' := by
  have hwalk := walk_append ha d scope b s
  refine ⟨hwalk, ?_, fun parent child => ?_, ?_, fun source source' hsource hsource' => ?_⟩
  · rw [hwalk, walk_eq_merge d scope b, walk_eq_merge d scope a]
  · rw [hwalk, mem_children_walk, mem_children_walk, or_assoc]
  · rw [hwalk]
    exact extends_walk d scope b _
  · refine ⟨_, _, extract_eq_walk hsource, extract_eq_walk hsource', ?_⟩
    rw [walk_append ha]
    exact extends_walk d {} b _

/-- After `.card { &.open {} }` come another rule for `card` and a rule with an interpolation, whose
block belongs to the prelude. -/
theorem walk_appended_card :
    let block := fun line name => Token.block line .curly
      [.leaf line (.literal "&"), .leaf line (.literal "."), .leaf line (.ident name),
        .block line .curly []]
    let card := fun line => [Token.leaf line (.literal "."), .leaf line (.ident "card")]
    let a := card 1 ++ [block 1 "open", .leaf 1 (.blank "\n")]
    let b := card 2 ++ [block 2 "shut"] ++
      [.leaf 3 (.literal "."), .leaf 3 (.ident "size-"), .leaf 3 (.literal "#"),
        .block 3 .curly [.leaf 3 (.ident "n")], .leaf 3 (.literal "."), .leaf 3 (.ident "big"),
        .block 3 .curly []]
    let s : Sheet := { definitions := [("card.shut", 9)], nesting := [("card", ["old"])] }
    pending [] a = [] ∧
      walk .scss {} (a ++ b) s = (s.merge (walk .scss {} a {})).merge (walk .scss {} b {}) ∧
      walk .scss {} (a ++ b) s =
        { definitions := [("card.shut", 9), ("card", 1), ("card.open", 1), ("big", 3)]
          nesting := [("card", ["old", "open", "shut"])] } := by
  intro block card a b s
  have ha : pending [] a = [] := rfl
  exact ⟨ha, (walk_appended .scss {} a b ha s).2.1, by decide⟩

end Style

end StyleAudit
