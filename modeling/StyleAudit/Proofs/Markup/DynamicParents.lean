import Mathlib.Data.List.Induction
import StyleAudit.Proofs.Markup.Leaves
import StyleAudit.Proofs.Style.Sheet

/-!
# Which classes become dynamic parents

A class becomes a dynamic parent of a sheet when one attribute asks for it by name and later, in the
same attribute, reaches into that sheet by a computed name, provided that something is nested under
it.  `mem_dynamicParents_iff` says that this is so exactly.

The walk knows nothing of "later": it collects names, and takes a copy of them at every computed
access.  `Scan.Sees` says what the three collections hold in terms of the leaves met so far, where
`[a, b] <+ leaves` is "`a` stands before `b`".  One leaf keeps it (`Progress.Walked.meet`), hence so
does a whole walk (`Progress.walked_foldl`).
-/

namespace StyleAudit.Markup

open StyleAudit.Style (Sheet)
open scoped List

/-- A pair stands in order in a list with one more element if it did before, or if the new element
is the second of the pair. -/
theorem pair_sublist_concat {α : Type} {x y z : α} {l : List α} :
    [x, y] <+ l ++ [z] ↔ [x, y] <+ l ∨ x ∈ l ∧ y = z := by
  constructor
  · intro h
    obtain ⟨l₁, l₂, hl, h₁, h₂⟩ := List.sublist_append_iff.mp h
    cases l₂ with
    | nil =>
      rw [List.append_nil] at hl
      exact Or.inl (hl ▸ h₁)
    | cons w ws =>
      obtain ⟨hw, hws⟩ : w = z ∧ ws = [] := by
        have := List.sublist_singleton.mp h₂
        simpa using this
      subst hw hws
      have he : [x] ++ [y] = l₁ ++ [w] := hl
      obtain ⟨h₃, h₄⟩ := List.append_inj' he rfl
      subst h₃
      exact Or.inr ⟨List.singleton_sublist.mp h₁, by simpa using h₄⟩
  · rintro (h | ⟨hx, rfl⟩)
    · exact h.trans (List.sublist_append_left l [z])
    · exact (List.singleton_sublist.mpr hx).append (List.Sublist.refl [y])

/-! ### The collections of a scan -/

namespace Scan

/-- The names asked for in the sheet at a path. -/
def staticAt (s : Scan) (path : String) : List String :=
  (s.static.find? path).getD []

/-- The names of the sheet at a path that came before a computed access. -/
def candidatesAt (s : Scan) (path : String) : List String :=
  (s.candidates.find? path).getD []

/-- The collections of a scan, told by the leaves that it has met. -/
structure Sees (bindings : Table String) (leaves : List Leaf) (s : Scan) : Prop where
  mem_static : ∀ path x, x ∈ s.staticAt path ↔
    ∃ a name, .access a ∈ leaves ∧ a.Asks bindings path name ∧ x ∈ namingVariants name
  mem_candidates : ∀ path x, x ∈ s.candidatesAt path ↔
    ∃ a b name, [.access a, .access b] <+ leaves ∧ a.Asks bindings path name ∧
      x ∈ namingVariants name ∧ b.Reaches bindings path
  mem_dynamic : ∀ path, path ∈ s.dynamic ↔ ∃ b, .access b ∈ leaves ∧ b.Reaches bindings path

theorem sees_nil (bindings : Table String) : Sees bindings [] {} where
  mem_static _ _ := by simp [staticAt]
  mem_candidates _ _ := by simp [candidatesAt]
  mem_dynamic _ := by simp

end Scan

/-! ### One access -/

section OneAccess

variable {p : Progress} {path name F x : String}

theorem mem_candidatesAt_addComputed :
    x ∈ (p.addComputed path).scan.candidatesAt F ↔
      x ∈ p.scan.candidatesAt F ∨ F = path ∧ x ∈ p.scan.staticAt path :=
  Table.mem_part_alter id (fun _ => mem_addNames) p.scan.candidates path F []

theorem mem_staticAt_addNamed :
    x ∈ (p.addNamed path name).scan.staticAt F ↔
      x ∈ p.scan.staticAt F ∨ F = path ∧ x ∈ namingVariants name :=
  Table.mem_part_alter id (fun _ => mem_addNames) p.scan.static path F []

/-- An access adds the spellings of the name that it asks for. -/
theorem mem_staticAt_addAccess (h : p.stuck = none) (a : Access) :
    x ∈ (p.addAccess a).scan.staticAt F ↔
      x ∈ p.scan.staticAt F ∨ ∃ name, a.Asks p.use.bindings F name ∧ x ∈ namingVariants name := by
  rcases Progress.addAccess_cases h a with ⟨path, ha, he⟩ | ⟨path, name, ha, he⟩ | ⟨_, hn, he⟩
  · have hn : ∀ name, ¬ a.Asks p.use.bindings F name := fun _ hasks => hasks.not_reaches ha
    rw [he]
    simp [hn, Progress.addComputed, Scan.staticAt]
  · rw [he, mem_staticAt_addNamed]
    refine or_congr_right ⟨?_, ?_⟩
    · rintro ⟨rfl, hx⟩
      exact ⟨name, ha, hx⟩
    · rintro ⟨name', ha', hx⟩
      obtain ⟨hF, rfl⟩ := ha.unique ha'
      exact ⟨hF, hx⟩
  · rw [he]
    simp [hn]

/-- A computed access makes candidates of the names of its sheet that stand before it. -/
theorem mem_candidatesAt_addAccess (h : p.stuck = none) (a : Access) :
    x ∈ (p.addAccess a).scan.candidatesAt F ↔
      x ∈ p.scan.candidatesAt F ∨ a.Reaches p.use.bindings F ∧ x ∈ p.scan.staticAt F := by
  rcases Progress.addAccess_cases h a with ⟨path, ha, he⟩ | ⟨path, name, ha, he⟩ | ⟨hr, _, he⟩
  · rw [he, mem_candidatesAt_addComputed]
    refine or_congr_right ⟨?_, ?_⟩
    · rintro ⟨rfl, hx⟩
      exact ⟨ha, hx⟩
    · rintro ⟨hF, hx⟩
      obtain rfl := ha.unique hF
      exact ⟨rfl, hx⟩
  · rw [he]
    simp [ha.not_reaches, Progress.addNamed, Scan.candidatesAt]
  · rw [he]
    simp [hr]

theorem mem_dynamic_addAccess (h : p.stuck = none) (a : Access) :
    F ∈ (p.addAccess a).scan.dynamic ↔ F ∈ p.scan.dynamic ∨ a.Reaches p.use.bindings F := by
  rcases Progress.addAccess_cases h a with ⟨path, ha, he⟩ | ⟨path, name, ha, he⟩ | ⟨hr, _, he⟩
  · rw [he, Progress.addComputed, mem_addName]
    refine or_congr_right ⟨?_, ha.unique⟩
    rintro rfl
    exact ha
  · rw [he]
    simp [ha.not_reaches, Progress.addNamed]
  · rw [he]
    simp [hr]

end OneAccess

/-! ### A whole walk -/

namespace Progress

/-- Where a walk stands that began with `use` and has met `leaves`. -/
structure Walked (use : MarkupUse) (leaves : List Leaf) (p : Progress) : Prop where
  not_stuck : p.stuck = none
  bindings : p.use.bindings = use.bindings
  dynamicParents : ∀ path,
    (p.use.usageFor path).dynamicParents = (use.usageFor path).dynamicParents
  sees : Scan.Sees use.bindings leaves p.scan

variable {use : MarkupUse} {leaves : List Leaf} {p : Progress}

theorem walked_nil (use : MarkupUse) : Walked use [] { use } :=
  ⟨rfl, rfl, fun _ => rfl, Scan.sees_nil use.bindings⟩

/-- A text says nothing about any sheet. -/
theorem Walked.addWords (h : Walked use leaves p) {l : Leaf} (hl : ∀ a, l ≠ .access a)
    (words : List (List Char)) : Walked use (leaves ++ [l]) (p.addWords words) := by
  have hl' : ∀ a, Leaf.access a ≠ l := fun a he => hl a he.symm
  rw [Progress.addWords, step_of_not_stuck h.not_stuck]
  refine ⟨h.not_stuck, h.bindings, h.dynamicParents, ?_, ?_, ?_⟩
  · intro path x
    simpa [hl'] using h.sees.mem_static path x
  · intro path x
    simpa [pair_sublist_concat, hl'] using h.sees.mem_candidates path x
  · intro path
    simpa [hl'] using h.sees.mem_dynamic path

theorem dynamicParents_addAccess (h : p.stuck = none) (a : Access) (path : String) :
    ((p.addAccess a).use.usageFor path).dynamicParents = (p.use.usageFor path).dynamicParents := by
  rcases addAccess_cases h a with ⟨_, _, he⟩ | ⟨_, _, _, he⟩ | ⟨_, _, he⟩
  · rw [he]; rfl
  · rw [he]; exact MarkupUse.dynamicParents_addStatic path
  · rw [he]

theorem Walked.addAccess (h : Walked use leaves p) (a : Access) :
    Walked use (leaves ++ [.access a]) (p.addAccess a) := by
  have hkeep : (p.addAccess a).stuck = none ∧ (p.addAccess a).use.bindings = p.use.bindings := by
    rcases addAccess_cases h.not_stuck a with ⟨_, _, he⟩ | ⟨_, _, _, he⟩ | ⟨_, _, he⟩
    all_goals rw [he]; exact ⟨h.not_stuck, rfl⟩
  refine ⟨hkeep.1, hkeep.2.trans h.bindings, fun path => ?_, ?_, ?_, ?_⟩
  · rw [dynamicParents_addAccess h.not_stuck, h.dynamicParents]
  · intro path x
    rw [mem_staticAt_addAccess h.not_stuck, h.bindings, h.sees.mem_static]
    simp only [List.mem_append, List.mem_singleton, Leaf.access.injEq, or_and_right, exists_or,
      exists_and_left, exists_eq_left]
  · -- the pairs that are new are those whose second access is `a`
    intro path x
    rw [mem_candidatesAt_addAccess h.not_stuck, h.bindings, h.sees.mem_candidates,
      h.sees.mem_static]
    simp only [pair_sublist_concat, Leaf.access.injEq, or_and_right, exists_or]
    refine or_congr_right ⟨?_, ?_⟩
    · rintro ⟨ha, a', name, hm, hasks, hx⟩
      exact ⟨a', a, name, ⟨hm, rfl⟩, hasks, hx, ha⟩
    · rintro ⟨a', b, name, ⟨hm, rfl⟩, hasks, hx, ha⟩
      exact ⟨ha, a', name, hm, hasks, hx⟩
  · intro path
    rw [mem_dynamic_addAccess h.not_stuck, h.bindings, h.sees.mem_dynamic]
    simp only [List.mem_append, List.mem_singleton, Leaf.access.injEq, or_and_right, exists_or,
      exists_eq_left]

/-- A leaf of a known form keeps the account of the leaves met. -/
theorem Walked.meet (h : Walked use leaves p) {l : Leaf} (hl : ∀ form, l ≠ .unknown form) :
    Walked use (leaves ++ [l]) (p.meet l) := by
  cases l with
  | literal value => exact h.addWords (fun _ he => by cases he) _
  | template text => exact h.addWords (fun _ he => by cases he) _
  | access a => exact h.addAccess a
  | unknown form => exact absurd rfl (hl form)

/-- **A walk over known leaves gives a full account of them.** -/
theorem walked_foldl (use : MarkupUse) (leaves : List Leaf)
    (h : ∀ form, Leaf.unknown form ∉ leaves) :
    Walked use leaves (leaves.foldl Progress.meet { use }) := by
  induction leaves using List.reverseRecOn with
  | nil => exact walked_nil use
  | append_singleton leaves l ih =>
    rw [List.foldl_append]
    refine (ih fun form hm => h form (List.mem_append_left _ hm)).meet fun form he => ?_
    exact h form (by rw [he]; simp)

end Progress

/-! ### After a walk -/

/-- Settling adds the candidates with nested classes, in the sheets with a computed access. -/
theorem mem_dynamicParents_settleDynamic (sheets : Table Sheet) (scan : Scan) (use : MarkupUse)
    (path v : String) :
    v ∈ ((settleDynamic sheets scan use).usageFor path).dynamicParents ↔
      v ∈ (use.usageFor path).dynamicParents ∨
        path ∈ scan.dynamic ∧ v ∈ scan.candidatesAt path ∧
          ∃ sheet, sheets.find? path = some sheet ∧ sheet.hasChildren v = true := by
  rw [settleDynamic]
  induction scan.dynamic generalizing use with
  | nil => simp
  | cons F paths ih =>
    rw [List.foldl_cons, ih, List.mem_cons]
    cases hs : sheets.find? F with
    | none =>
      constructor
      · rintro (hv | ⟨hp, hrest⟩)
        · exact Or.inl hv
        · exact Or.inr ⟨Or.inr hp, hrest⟩
      · rintro (hv | ⟨rfl | hp, hrest⟩)
        · exact Or.inl hv
        · obtain ⟨_, sheet, he, _⟩ := hrest
          rw [hs] at he; cases he
        · exact Or.inr ⟨hp, hrest⟩
    | some sheet =>
      simp only [MarkupUse.mem_dynamicParents_addDynamic, List.mem_filter]
      constructor
      · rintro ((hv | ⟨rfl, hc, hn⟩) | ⟨hp, hrest⟩)
        · exact Or.inl hv
        · exact Or.inr ⟨Or.inl rfl, hc, sheet, hs, hn⟩
        · exact Or.inr ⟨Or.inr hp, hrest⟩
      · rintro (hv | ⟨rfl | hp, hrest⟩)
        · exact Or.inl (Or.inl hv)
        · obtain ⟨hc, sheet', he, hn⟩ := hrest
          rw [hs] at he
          cases he
          exact Or.inl (Or.inr ⟨rfl, hc, hn⟩)
        · exact Or.inr ⟨hp, hrest⟩

@[simp] theorem bindings_settleDynamic (sheets : Table Sheet) (scan : Scan) (use : MarkupUse) :
    (settleDynamic sheets scan use).bindings = use.bindings := by
  rw [settleDynamic]
  induction scan.dynamic generalizing use with
  | nil => rfl
  | cons F paths ih =>
    rw [List.foldl_cons, ih]
    split <;> rfl

/-! ### Attributes -/

/-- From left to right, the expression first asks for a class of the sheet at `path` that can be
spelt `v`, and then reaches into that sheet by a computed name. -/
def Expr.AsksThenReaches (bindings : Table String) (helpers : List String) (path v : String)
    (e : Expr) : Prop :=
  ∃ a b name, [.access a, .access b] <+ e.leaves helpers ∧ a.Asks bindings path name ∧
    v ∈ namingVariants name ∧ b.Reaches bindings path

section Attributes

variable (sheets : Table Sheet) (helpers : List String) (use : MarkupUse) {e : Expr}

theorem walked_classify (he : e.isKnown = true) :
    (classify helpers e { use }).Walked use (e.leaves helpers) := by
  rw [classify_eq_foldl]
  exact Progress.walked_foldl use _ fun form => unknown_notMem_leaves helpers form e he

theorem bindings_classifyAttribute (he : e.isKnown = true) :
    (classifyAttribute sheets helpers use e).bindings = use.bindings := by
  rw [classifyAttribute, bindings_settleDynamic]
  exact (walked_classify helpers use he).bindings

/-- One attribute adds the classes with nested classes that it asks for before it reaches into their
sheet. -/
theorem mem_dynamicParents_classifyAttribute (he : e.isKnown = true) (path v : String) :
    v ∈ ((classifyAttribute sheets helpers use e).usageFor path).dynamicParents ↔
      v ∈ (use.usageFor path).dynamicParents ∨
        (∃ sheet child, sheets.find? path = some sheet ∧ child ∈ sheet.children v) ∧
          e.AsksThenReaches use.bindings helpers path v := by
  have hw := walked_classify helpers use he
  rw [classifyAttribute, mem_dynamicParents_settleDynamic, hw.dynamicParents, hw.sees.mem_dynamic,
    hw.sees.mem_candidates]
  refine or_congr_right ⟨?_, ?_⟩
  · rintro ⟨_, hcand, sheet, hs, hn⟩
    obtain ⟨child, hc⟩ := Sheet.hasChildren_iff.mp hn
    exact ⟨⟨sheet, child, hs, hc⟩, hcand⟩
  · rintro ⟨⟨sheet, child, hs, hc⟩, hcand⟩
    -- the second access of the pair is what marks the sheet as dynamic
    obtain ⟨a, b, name, hpair, hasks, hv, hb⟩ := hcand
    have hmem : .access b ∈ e.leaves helpers := hpair.subset (by simp)
    exact ⟨⟨b, hmem, hb⟩, ⟨a, b, name, hpair, hasks, hv, hb⟩, sheet, hs,
      Sheet.hasChildren_iff.mpr ⟨child, hc⟩⟩

/-- What a list of attributes adds, one attribute at a time. -/
theorem mem_dynamicParents_foldl (es : List Expr) (hes : ∀ e ∈ es, e.isKnown = true)
    (path v : String) :
    v ∈ ((es.foldl (classifyAttribute sheets helpers) use).usageFor path).dynamicParents ↔
      v ∈ (use.usageFor path).dynamicParents ∨
        (∃ sheet child, sheets.find? path = some sheet ∧ child ∈ sheet.children v) ∧
          ∃ e ∈ es, e.AsksThenReaches use.bindings helpers path v := by
  induction es generalizing use with
  | nil => simp
  | cons e es ih =>
    have he := hes e List.mem_cons_self
    rw [List.foldl_cons, ih _ fun e' h => hes e' (List.mem_cons_of_mem e h),
      mem_dynamicParents_classifyAttribute sheets helpers use he,
      bindings_classifyAttribute sheets helpers use he]
    simp only [List.mem_cons, exists_eq_or_imp]
    rw [or_assoc, ← and_or_left]

end Attributes

/-- **Exactly which classes become dynamic parents.**  Beginning with the names that a file binds
and nothing else, a list of class attributes makes `v` a dynamic parent of the sheet at `path` iff
something is nested under `v` in that sheet and one of the attributes asks for `v` and later reaches
into the sheet by a computed name. -/
theorem mem_dynamicParents_iff (bindings : Table String) (sheets : Table Sheet)
    (helpers : List String) (es : List Expr) (hes : ∀ e ∈ es, e.isKnown = true)
    (path v : String) :
    v ∈ ((es.foldl (classifyAttribute sheets helpers) { bindings }).usageFor path).dynamicParents ↔
      (∃ sheet child, sheets.find? path = some sheet ∧ child ∈ sheet.children v) ∧
        ∃ e ∈ es, e.AsksThenReaches bindings helpers path v := by
  have hnone : v ∉ ((⟨bindings, [], []⟩ : MarkupUse).usageFor path).dynamicParents :=
    List.not_mem_nil
  rw [mem_dynamicParents_foldl sheets helpers _ es hes, or_iff_right hnone]

/-- In `cn(styles.cardBody, open && styles[state])` the class `card-body`, under which `active` is
nested, becomes a dynamic parent. -/
theorem cardBody_mem_dynamicParents :
    let e : Expr := .call (some "cn") [.access ⟨some "styles", some "cardBody", false⟩,
      .concat [.other "identifier", .access ⟨some "styles", none, true⟩]]
    let sheet : Sheet := { nesting := [("card-body", ["active"])] }
    (∀ e' ∈ [e], e'.isKnown = true) ∧
      "card-body" ∈ (([e].foldl (classifyAttribute [("a.css", sheet)] ["cn"])
        { bindings := [("styles", "a.css")] }).usageFor "a.css").dynamicParents := by
  intro e sheet
  have hknown : ∀ e' ∈ [e], e'.isKnown = true := by decide
  refine ⟨hknown, (mem_dynamicParents_iff _ _ _ _ hknown _ _).mpr ⟨?_, e, by simp, ?_⟩⟩
  · exact ⟨sheet, "active", by decide, by decide⟩
  · exact ⟨⟨some "styles", some "cardBody", false⟩, ⟨some "styles", none, true⟩, "cardBody",
      by decide, ⟨⟨"styles", rfl, by decide⟩, rfl, rfl, by decide⟩, by decide,
      ⟨⟨"styles", rfl, by decide⟩, rfl⟩⟩

end StyleAudit.Markup
