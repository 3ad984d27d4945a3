import Mathlib.Data.List.Basic
import StyleAudit.Proofs.Audit.Context
import StyleAudit.Proofs.Style.ClassTokens
import StyleAudit.Proofs.Style.Sheet
import StyleAudit.Style.Extract

/-!
# Well-formed sheets

In a sheet that is read from a stylesheet the definitions and the nesting index agree: the dotted
identifiers are exactly the nested pairs, written so that the first dot parts them, and a class with
something nested under it is itself known to the sheet (`Sheet.WellFormed`).

Facts are looked at as a set, so that nothing depends on the order in which a sheet learns them.
`Fits outer facts` says that the facts agree with each other, where the class `outer` of the
enclosing rule may be known from elsewhere.  A selector gives facts that fit
(`fits_selectorFacts`), and the class that a rule hands down to the rules inside it is known from its
own first selector (`mentions_of_ownClass`).  The two readings of that selector agree because none of
its class tokens is lost.  Rules inside rules follow by induction (`fits_factsOf`).
-/

namespace StyleAudit.Style

open StyleAudit.Text

/-! ### Facts that fit together -/

/-- The facts define the class or nest it under another one. -/
def Mentions (facts : List Fact) (x : String) : Prop :=
  (∃ line, Fact.defines x line ∈ facts) ∨ ∃ q, Fact.nests q x ∈ facts

theorem Mentions.mono {facts facts' : List Fact} {x : String} (h : Mentions facts x)
    (hsub : facts ⊆ facts') : Mentions facts' x := by
  rcases h with ⟨line, h⟩ | ⟨q, h⟩
  · exact Or.inl ⟨line, hsub h⟩
  · exact Or.inr ⟨q, hsub h⟩

/-- The facts agree with each other, below the class `outer`. -/
structure Fits (outer : Option String) (facts : List Fact) : Prop where
  dotted : ∀ x line, Fact.defines x line ∈ facts → '.' ∈ x.toList →
    ∃ p c, Fact.nests p c ∈ facts ∧ x = p ++ "." ++ c
  nested : ∀ p c, Fact.nests p c ∈ facts →
    '.' ∉ p.toList ∧ '.' ∉ c.toList ∧ ∃ line, Fact.defines (p ++ "." ++ c) line ∈ facts
  known : ∀ p c, Fact.nests p c ∈ facts → outer = some p ∨ Mentions facts p

theorem fits_nil (outer : Option String) : Fits outer [] where
  dotted _ _ h := absurd h List.not_mem_nil
  nested _ _ h := absurd h List.not_mem_nil
  known _ _ h := absurd h List.not_mem_nil

/-- Facts that fit below two classes fit together below the first one, if the second class is the
first one or is mentioned by the facts before. -/
theorem Fits.append {outer inner : Option String} {f g : List Fact} (hf : Fits outer f)
    (hg : Fits inner g) (hin : ∀ p, inner = some p → outer = some p ∨ Mentions f p) :
    Fits outer (f ++ g) where
  dotted x line h hx := by
    rcases List.mem_append.mp h with h | h
    · obtain ⟨p, c, hn, he⟩ := hf.dotted x line h hx
      exact ⟨p, c, List.mem_append_left g hn, he⟩
    · obtain ⟨p, c, hn, he⟩ := hg.dotted x line h hx
      exact ⟨p, c, List.mem_append_right f hn, he⟩
  nested p c h := by
    rcases List.mem_append.mp h with h | h
    · obtain ⟨hp, hc, line, hd⟩ := hf.nested p c h
      exact ⟨hp, hc, line, List.mem_append_left g hd⟩
    · obtain ⟨hp, hc, line, hd⟩ := hg.nested p c h
      exact ⟨hp, hc, line, List.mem_append_right f hd⟩
  known p c h := by
    have hleft : f ⊆ f ++ g := List.subset_append_left f g
    have hright : g ⊆ f ++ g := List.subset_append_right f g
    rcases List.mem_append.mp h with h | h
    · exact (hf.known p c h).imp_right fun hm => hm.mono hleft
    · rcases hg.known p c h with hi | hm
      · exact (hin p hi).imp_right fun hm => hm.mono hleft
      · exact Or.inr (hm.mono hright)

theorem Fits.append_same {outer : Option String} {f g : List Fact} (hf : Fits outer f)
    (hg : Fits outer g) : Fits outer (f ++ g) :=
  hf.append hg fun _ h => Or.inl h

theorem fits_flatMap {α : Type} {outer : Option String} {f : α → List Fact} (l : List α)
    (h : ∀ a ∈ l, Fits outer (f a)) : Fits outer (l.flatMap f) := by
  induction l with
  | nil => exact fits_nil outer
  | cons a l ih =>
    rw [List.flatMap_cons]
    exact (h a List.mem_cons_self).append_same (ih fun b hb => h b (List.mem_cons_of_mem a hb))

/-- Definitions of names without dots fit below any class. -/
theorem fits_of_defines {outer : Option String} {facts : List Fact}
    (h : ∀ fact ∈ facts, ∃ x line, fact = .defines x line ∧ '.' ∉ x.toList) : Fits outer facts where
  dotted x line hm hx := by
    obtain ⟨x', line', he, hd⟩ := h _ hm
    cases he
    exact absurd hx hd
  nested p c hm := by
    obtain ⟨x, line, he, _⟩ := h _ hm
    cases he
  known p c hm := by
    obtain ⟨x, line, he, _⟩ := h _ hm
    cases he

theorem fits_definesAll (outer : Option String) (line : Int) {names : List (List Char)}
    (h : ∀ name ∈ names, '.' ∉ name) : Fits outer (definesAll line names) := by
  refine fits_of_defines fun fact hm => ?_
  obtain ⟨name, hn, rfl⟩ := List.mem_map.mp hm
  exact ⟨String.ofList name, line, rfl, by simpa using h name hn⟩

/-! ### The facts of a selector -/

theorem dot_notMem_of_mem_findAll_parentClass {cs name : List Char}
    (h : name ∈ parentClass.findAll cs) : '.' ∉ name :=
  dot_notMem_of_mem_findAll (mem_findAll_classToken_iff.mpr (Or.inl h))

/-- A nested pair and its dotted definition. -/
theorem fits_pair {parent child : String} (line : Int) (hp : '.' ∉ parent.toList)
    (hc : '.' ∉ child.toList) :
    Fits (some parent) [.defines (parent ++ "." ++ child) line, .nests parent child] where
  dotted x line' h _ := by
    have he : x = parent ++ "." ++ child := by
      rcases List.mem_cons.mp h with h | h
      · cases h; rfl
      · simp at h
    exact ⟨parent, child, by simp, he⟩
  nested p c h := by
    obtain ⟨rfl, rfl⟩ : p = parent ∧ c = child := by simpa using h
    exact ⟨hp, hc, line, List.mem_cons_self⟩
  known p c h := by
    obtain ⟨rfl, rfl⟩ : p = parent ∧ c = child := by simpa using h
    exact Or.inl rfl

theorem fits_nestedFacts {parent : String} (hp : '.' ∉ parent.toList) (line : Int)
    (cs : List Char) : Fits (some parent) (nestedFacts parent line cs) := by
  have htokens : ∀ cs, Fits (some parent) (definesAll line (classToken.findAll cs)) := fun cs =>
    fits_definesAll _ line fun _ h => dot_notMem_of_mem_findAll h
  rw [nestedFacts]
  split
  · split
    · rename_i suffix rest hsuffix
      have hlong : Fits (some parent) [.defines (parent ++ String.ofList suffix) line] := by
        refine fits_of_defines fun fact hm => ⟨_, line, List.mem_singleton.mp hm, ?_⟩
        simpa using ⟨hp, dot_notMem_of_parentSuffix? hsuffix⟩
      exact hlong.append_same (htokens rest)
    · exact htokens cs
  · refine (fits_flatMap _ fun child hchild => ?_).append_same (htokens _)
    refine fits_pair line hp ?_
    simpa using dot_notMem_of_mem_findAll_parentClass hchild

/-- The class of the enclosing rule, if there is one, has no dot. -/
def Scope.DotFree (scope : Scope) : Prop :=
  ∀ p, scope.parent = some p → '.' ∉ p.toList

theorem Scope.concrete?_eq_some_iff {scope : Scope} {p : String} :
    scope.concrete? = some p ↔ scope.inMixin = false ∧ scope.parent = some p ∧ p ≠ "" := by
  rw [concrete?]
  cases scope.inMixin with
  | true => simp
  | false => simp [Option.filter_eq_some_iff]

/-- **The facts of a selector fit together** below the class that `&` stands for. -/
theorem fits_selectorFacts {scope : Scope} (hs : scope.DotFree) (line : Int)
    (selector : List Char) : Fits scope.concrete? (selectorFacts scope line selector) := by
  simp only [selectorFacts]
  cases hc : scope.concrete? with
  | none => exact fits_definesAll _ line fun _ h => dot_notMem_of_mem_findAll h
  | some parent =>
    exact fits_nestedFacts (hs parent (Scope.concrete?_eq_some_iff.mp hc).2.1) line _

theorem mentions_definesAll {line : Int} {names : List (List Char)} {name : List Char}
    (h : name ∈ names) : Mentions (definesAll line names) (String.ofList name) :=
  Or.inl ⟨line, List.mem_map_of_mem h⟩

/-- Every class token is mentioned: as a nested class if it stands after `&`, and as a class of its
own if not. -/
theorem mentions_nestedFacts {parent : String} {line : Int} {cs name : List Char}
    (h : name ∈ classToken.findAll cs) :
    Mentions (nestedFacts parent line cs) (String.ofList name) := by
  rw [nestedFacts]
  split
  · split
    · rename_i suffix rest hsuffix
      rw [findAll_classToken_of_parentSuffix? hsuffix] at h
      exact (mentions_definesAll h).mono (List.subset_cons_self _ _)
    · exact mentions_definesAll h
  · rcases mem_findAll_classToken_iff.mp h with h | h
    · refine Or.inr ⟨parent, List.mem_append_left _ (List.mem_flatMap.mpr ⟨name, h, ?_⟩)⟩
      exact List.mem_cons_of_mem _ List.mem_cons_self
    · exact (mentions_definesAll h).mono (List.subset_append_right _ _)

theorem mentions_selectorFacts {scope : Scope} {line : Int} {selector name : List Char}
    (h : name ∈ classToken.findAll (withoutAttributes selector)) :
    Mentions (selectorFacts scope line selector) (String.ofList name) := by
  simp only [selectorFacts]
  cases scope.concrete? with
  | none => exact mentions_definesAll h
  | some parent => exact mentions_nestedFacts h

/-! ### The class that a rule hands down -/

/-- Where the class of a rule comes from: a class token, a suffix of the class of the enclosing rule
in a selector without class tokens, or that class itself. -/
theorem ownClass_cases {selector : List Char} {parent : Option String} {p : String}
    (h : ownClass selector parent = some p) :
    (∃ name ∈ classToken.findAll (withoutAttributes selector), p = String.ofList name) ∨
    (∃ q suffix rest, parent = some q ∧ q ≠ "" ∧
      classToken.findAll (withoutAttributes selector) = [] ∧
      parentSuffix? (withoutAttributes selector) = some (suffix, rest) ∧
      p = q ++ String.ofList suffix) ∨
    parent = some p := by
  simp only [ownClass] at h
  cases hfind : classToken.find? (withoutAttributes selector) with
  | some name =>
    rw [hfind] at h
    exact Or.inl ⟨name, List.mem_of_head? hfind, (Option.some.inj h).symm⟩
  | none =>
    rw [hfind] at h
    have hnil : classToken.findAll (withoutAttributes selector) = [] :=
      List.head?_eq_none_iff.mp hfind
    simp only at h
    split at h
    · rename_i suffix rest q hsuffix hq
      obtain ⟨hparent, hne⟩ := Option.filter_eq_some_iff.mp hq
      exact Or.inr (Or.inl ⟨q, suffix, rest, hparent, by simpa using hne, hnil, hsuffix,
        (Option.some.inj h).symm⟩)
    · split at h
      · exact Or.inr (Or.inr h)
      · cases h

theorem dot_notMem_of_ownClass {selector : List Char} {scope : Scope} (hs : scope.DotFree)
    {p : String} (h : ownClass selector scope.parent = some p) : '.' ∉ p.toList := by
  rcases ownClass_cases h with ⟨name, hm, rfl⟩ | ⟨q, suffix, rest, hq, _, _, hsuffix, rfl⟩ | hp
  · simpa using dot_notMem_of_mem_findAll hm
  · simpa using ⟨hs q hq, dot_notMem_of_parentSuffix? hsuffix⟩
  · exact hs p hp

theorem Scope.DotFree.under {scope : Scope} (hs : scope.DotFree) (selectors : List (List Char)) :
    (scope.under selectors).DotFree := by
  intro p hp
  obtain ⟨selector, _, h⟩ := Option.bind_eq_some_iff.mp hp
  exact dot_notMem_of_ownClass hs h

/-- **The class that a rule hands down is known**: it is that of the enclosing rule, or the first
selector of the rule mentions it. -/
theorem mentions_of_ownClass {scope : Scope} (hmix : scope.inMixin = false) (line : Int)
    {selector : List Char} {p : String} (h : ownClass selector scope.parent = some p) :
    scope.parent = some p ∨ Mentions (selectorFacts scope line selector) p := by
  rcases ownClass_cases h with ⟨name, hm, rfl⟩ | ⟨q, suffix, rest, hq, hne, hnil, hsuffix, rfl⟩ | hp
  · exact Or.inr (mentions_selectorFacts hm)
  · -- without class tokens there is no `&.x` either, so the selector is read as a suffix
    have hparents : parentClass.findAll (withoutAttributes selector) = [] := by
      have hperm := findAll_classToken_perm (withoutAttributes selector)
      rw [hnil] at hperm
      exact (List.append_eq_nil_iff.mp hperm.nil_eq.symm).1
    have hconcrete : scope.concrete? = some q :=
      Scope.concrete?_eq_some_iff.mpr ⟨hmix, hq, hne⟩
    refine Or.inr (Or.inl ⟨line, ?_⟩)
    simp only [selectorFacts, hconcrete, nestedFacts, hparents, hsuffix]
    exact List.mem_cons_self
  · exact Or.inl hp

/-- What `&` stands for inside a rule is what it stands for outside, or the rule mentions it. -/
theorem mentions_of_under {scope : Scope} {line : Int} {selectors : List (List Char)} {p : String}
    (h : (scope.under selectors).concrete? = some p) :
    scope.concrete? = some p ∨ Mentions (selectors.flatMap (selectorFacts scope line)) p := by
  obtain ⟨hmix, hp, hne⟩ := Scope.concrete?_eq_some_iff.mp h
  obtain ⟨selector, hhead, hown⟩ := Option.bind_eq_some_iff.mp hp
  have hmix' : scope.inMixin = false := hmix
  rcases mentions_of_ownClass hmix' line hown with hparent | hm
  · exact Or.inl (Scope.concrete?_eq_some_iff.mpr ⟨hmix', hparent, hne⟩)
  · exact Or.inr (hm.mono fun fact hf =>
      List.mem_flatMap.mpr ⟨selector, List.mem_of_head? hhead, hf⟩)

/-! ### The facts of rules -/

theorem Scope.dotFree_template : Scope.template.DotFree := fun _ h => by cases h

theorem Scope.concrete?_template : Scope.template.concrete? = none := rfl

mutual

theorem Rule.fits_facts (d : Dialect) : ∀ (r : Rule) {scope : Scope}, scope.DotFree →
    Fits scope.concrete? (r.facts d scope)
  | .mk prelude body, scope, hs => by
    rw [Rule.facts]
    split
    · exact fits_nil _
    · have hbody := fits_factsOf d body Scope.dotFree_template
      rw [Scope.concrete?_template] at hbody
      exact (fits_nil _).append hbody fun _ h => by cases h
    · exact fits_factsOf d body hs
    · rename_i line selectors _
      have hown : Fits scope.concrete? (selectors.flatMap (selectorFacts scope line)) :=
        fits_flatMap _ fun selector _ => fits_selectorFacts hs line selector
      exact hown.append (fits_factsOf d body (hs.under selectors)) fun _ h => mentions_of_under h

/-- **The facts of a list of rules fit together** below the class of the enclosing rule. -/
theorem fits_factsOf (d : Dialect) : ∀ (rs : List Rule) {scope : Scope}, scope.DotFree →
    Fits scope.concrete? (factsOf d scope rs)
  | [], _, _ => by rw [factsOf]; exact fits_nil _
  | r :: rs, _, hs => by
    rw [factsOf]
    exact (Rule.fits_facts d r hs).append_same (fits_factsOf d rs hs)

end

theorem fits_forestFacts (d : Dialect) (forest : List Token) :
    Fits none (forestFacts d {} forest) := by
  have hs : ({} : Scope).DotFree := fun _ h => by cases h
  exact fits_factsOf d (rules [] forest) hs

/-! ### Sheets -/

/-- The definitions and the nesting index of a sheet agree. -/
structure Sheet.WellFormed (s : Sheet) : Prop where
  /-- The dotted identifiers are the nested pairs. -/
  dotted_iff : ∀ x, '.' ∈ x.toList →
    (x ∈ s.definitions.keys ↔ ∃ p c, c ∈ s.children p ∧ x = p ++ "." ++ c)
  /-- A nested pair can be told from its dotted identifier. -/
  split : ∀ p c, c ∈ s.children p → '.' ∉ p.toList ∧ '.' ∉ c.toList ∧
    Audit.splitIdentifier? (p ++ "." ++ c) = some (p, c)
  /-- No class stands in the nesting index without a class nested under it. -/
  nesting_ne_nil : ∀ p cs, (p, cs) ∈ s.nesting → cs ≠ []
  /-- A class of the nesting index is defined, or is itself nested under another one. -/
  known : ∀ p ∈ s.nesting.keys, p ∈ s.definitions.keys ∨ ∃ q, p ∈ s.children q

theorem Fits.wellFormed {facts : List Fact} (h : Fits none facts) :
    (({} : Sheet).learnAll facts).WellFormed := by
  have hkeys : ∀ x, x ∈ (({} : Sheet).learnAll facts).definitions.keys ↔
      ∃ line, Fact.defines x line ∈ facts := fun x => by
    rw [Sheet.mem_keys_learnAll]
    exact or_iff_right List.not_mem_nil
  have hchildren : ∀ p c, c ∈ (({} : Sheet).learnAll facts).children p ↔
      Fact.nests p c ∈ facts := fun p c => by
    rw [Sheet.mem_children_learnAll]
    exact or_iff_right List.not_mem_nil
  have hne := Sheet.nesting_ne_nil_learnAll (s := {}) facts fun _ hm => absurd hm List.not_mem_nil
  refine ⟨fun x hx => ?_, fun p c hc => ?_, fun p cs hm => hne (p, cs) hm, fun p hp => ?_⟩
  · rw [hkeys]
    constructor
    · rintro ⟨line, hm⟩
      obtain ⟨p, c, hn, he⟩ := h.dotted x line hm hx
      exact ⟨p, c, (hchildren p c).mpr hn, he⟩
    · rintro ⟨p, c, hc, rfl⟩
      exact (h.nested p c ((hchildren p c).mp hc)).2.2
  · obtain ⟨hpdot, hcdot, _⟩ := h.nested p c ((hchildren p c).mp hc)
    exact ⟨hpdot, hcdot, Audit.splitIdentifier?_dotted hpdot c⟩
  · -- an entry has a child, and its fact says from where the parent is known
    obtain ⟨cs, hfind⟩ := Table.exists_find? hp
    obtain ⟨c, hc⟩ := List.exists_mem_of_ne_nil cs (hne _ (Table.mem_of_find? hfind))
    have hchild : c ∈ (({} : Sheet).learnAll facts).children p := by
      rw [Sheet.children, hfind]; exact hc
    rcases h.known p c ((hchildren p c).mp hchild) with hnone | hdef | ⟨q, hq⟩
    · cases hnone
    · exact Or.inl ((hkeys p).mpr hdef)
    · exact Or.inr ⟨q, (hchildren q p).mpr hq⟩

/-- **Every sheet that is read is well formed**: the sheet that the rules of a forest add up to, for
every forest whatsoever, and so the sheet of every stylesheet that is accepted. -/
theorem extracted_wellFormed (d : Dialect) :
    (∀ forest, (({} : Sheet).learnAll (forestFacts d {} forest)).WellFormed) ∧
    ∀ source sheet, extract d source = .ok sheet → sheet.WellFormed := by
  have hforest : ∀ forest, (({} : Sheet).learnAll (forestFacts d {} forest)).WellFormed :=
    fun forest => (fits_forestFacts d forest).wellFormed
  refine ⟨hforest, fun source sheet h => ?_⟩
  rw [extract] at h
  cases hparse : d.parse source with
  | error e => rw [hparse] at h; cases h
  | ok forest =>
    rw [hparse] at h
    cases h
    exact hforest forest

/-- In `.a { &.b { &.c {} } }` the class `b` is no definition of its own; it is known because it is
nested under `a`, and `c` is nested under it. -/
theorem extracted_wellFormed_nested :
    let sheet : Sheet :=
      { definitions := [("a", 1), ("a.b", 1), ("b.c", 1)], nesting := [("a", ["b"]), ("b", ["c"])] }
    extract .scss ".a { &.b { &.c {} } }" = .ok sheet ∧ sheet.WellFormed := by
  intro sheet
  have h : extract .scss ".a { &.b { &.c {} } }" = .ok sheet := by decide +kernel
  exact ⟨h, (extracted_wellFormed .scss).2 _ _ h⟩

end StyleAudit.Style
