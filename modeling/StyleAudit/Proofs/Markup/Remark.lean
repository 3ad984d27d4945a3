import Mathlib.Data.List.Basic
import StyleAudit.Proofs.Markup.DynamicParents
import StyleAudit.Proofs.Markup.StaticUse

/-!
# Remarks

A use is looked at here as a set of remarks, without any order: which class is asked for in which
sheet, which class is a dynamic parent in which sheet, which sheet is touched at all, and which name
is spelt out in plain text.  Two uses that make the same remarks are the same maps of sets.

Every operation adds remarks of its own to those that are there, whatever these are:

* `MarkupUse.says_addStatic`, `MarkupUse.says_addDynamic`, `MarkupUse.says_addLiterals`,
* `says_addAccesses`: the search over a tree,
* `says_classifyAttribute`: one class attribute,
* `Settings.says_visit`: the class attributes of a file.

So a class attribute records the same whatever was recorded before it, though it writes into the use
that all of them share.  Only the names that the file binds matter (`Expr.Records`).
-/

namespace StyleAudit.Markup

open StyleAudit.Style (Sheet)
open StyleAudit.Text
open scoped List

/-- One thing that a use can say. -/
inductive Remark where
  /-- The class is asked for by name in the sheet at the path. -/
  | asked (path name : String)
  /-- The class is a dynamic parent in the sheet at the path. -/
  | reached (path parent : String)
  /-- There is an entry for the sheet at the path. -/
  | touched (path : String)
  /-- The name stands in plain text. -/
  | spelt (name : String)
deriving DecidableEq, Repr

/-- The remark is made by a table of usages and a list of plain names. -/
def Remark.HoldsIn (usages : Table Usage) (literals : List String) : Remark → Prop
  | .asked path name => name ∈ ((usages.find? path).getD {}).static
  | .reached path parent => parent ∈ ((usages.find? path).getD {}).dynamicParents
  | .touched path => path ∈ usages.keys
  | .spelt name => name ∈ literals

namespace MarkupUse

/-- The use makes the remark. -/
def Says (u : MarkupUse) (r : Remark) : Prop :=
  r.HoldsIn u.usages u.literals

variable {u : MarkupUse} {path name : String} {names : List String} {r : Remark}

theorem says_asked : u.Says (.asked path name) ↔ name ∈ (u.usageFor path).static := Iff.rfl

theorem says_reached : u.Says (.reached path name) ↔ name ∈ (u.usageFor path).dynamicParents :=
  Iff.rfl

theorem says_touched : u.Says (.touched path) ↔ path ∈ u.usages.keys := Iff.rfl

theorem says_spelt : u.Says (.spelt name) ↔ name ∈ u.literals := Iff.rfl

/-- A file that has found nothing yet says nothing. -/
theorem not_says_bindings (bindings : Table String) (r : Remark) :
    ¬ ({ bindings } : MarkupUse).Says r := by
  cases r <;> exact List.not_mem_nil

/-! ### Additions -/

theorem says_addStatic :
    (u.addStatic path names).Says r ↔
      u.Says r ∨ r = .touched path ∨ ∃ x ∈ names, r = .asked path x := by
  cases r with
  | asked F x => simp [says_asked, mem_static_addStatic, and_comm]
  | reached F v => simp [says_reached]
  | touched F => simp [says_touched, addStatic, Table.mem_keys_alter]
  | spelt x => simp [says_spelt, addStatic]

theorem says_addDynamic :
    (u.addDynamic path names).Says r ↔
      u.Says r ∨ r = .touched path ∨ ∃ v ∈ names, r = .reached path v := by
  cases r with
  | asked F x => simp [says_asked]
  | reached F v => simp [says_reached, mem_dynamicParents_addDynamic, and_comm]
  | touched F => simp [says_touched, addDynamic, Table.mem_keys_alter]
  | spelt x => simp [says_spelt, addDynamic]

theorem says_addLiterals :
    (u.addLiterals names).Says r ↔ u.Says r ∨ ∃ x ∈ names, r = .spelt x := by
  cases r with
  | asked F x => simp [says_asked, addLiterals, usageFor]
  | reached F v => simp [says_reached, addLiterals, usageFor]
  | touched F => simp [says_touched, addLiterals]
  | spelt x => simp [says_spelt, addLiterals, mem_addNames]

end MarkupUse

/-! ### Leaves -/

/-- What an access that asks for a class by its name makes known. -/
def Access.Records (bindings : Table String) (a : Access) (r : Remark) : Prop :=
  ∃ path name, a.Asks bindings path name ∧
    (r = .touched path ∨ ∃ x ∈ namingVariants name, r = .asked path x)

/-- What a leaf makes known. -/
def Leaf.Records (bindings : Table String) : Leaf → Remark → Prop
  | .literal value, r => ∃ word ∈ words value.toList, r = .spelt (String.ofList word)
  | .template text, r => ∃ word ∈ templateWords text.toList, r = .spelt (String.ofList word)
  | .access a, r => a.Records bindings r
  | .unknown _, _ => False

namespace Progress

variable {p : Progress} {r : Remark}

theorem says_addWords (h : p.stuck = none) (words : List (List Char)) :
    (p.addWords words).use.Says r ↔ p.use.Says r ∨ ∃ w ∈ words, r = .spelt (String.ofList w) := by
  rw [addWords, step_of_not_stuck h, MarkupUse.says_addLiterals]
  simp

theorem says_addAccess (h : p.stuck = none) (a : Access) :
    (p.addAccess a).use.Says r ↔ p.use.Says r ∨ a.Records p.use.bindings r := by
  rcases addAccess_cases h a with ⟨path, ha, he⟩ | ⟨path, name, ha, he⟩ | ⟨_, hn, he⟩
  · rw [he]
    refine ⟨Or.inl, ?_⟩
    rintro (hr | ⟨path', name, ha', _⟩)
    · exact hr
    · exact absurd ha ha'.not_reaches
  · rw [he, addNamed, MarkupUse.says_addStatic]
    refine or_congr_right ⟨fun hr => ⟨path, name, ha, hr⟩, ?_⟩
    rintro ⟨path', name', ha', hr⟩
    obtain ⟨rfl, rfl⟩ := ha.unique ha'
    exact hr
  · rw [he]
    refine ⟨Or.inl, ?_⟩
    rintro (hr | ⟨path, name, ha, _⟩)
    · exact hr
    · exact absurd ha (hn path name)

/-- A leaf of a known form adds what it records. -/
theorem says_meet (h : p.stuck = none) {l : Leaf} (hl : ∀ form, l ≠ .unknown form) :
    (p.meet l).use.Says r ↔ p.use.Says r ∨ l.Records p.use.bindings r := by
  cases l with
  | literal value => exact says_addWords h _
  | template text => exact says_addWords h _
  | access a => exact says_addAccess h a
  | unknown form => exact absurd rfl (hl form)

/-- **A walk over known leaves adds what each of them records.** -/
theorem says_foldl (use : MarkupUse) (leaves : List Leaf) (h : ∀ form, Leaf.unknown form ∉ leaves) :
    (leaves.foldl Progress.meet { use }).use.Says r ↔
      use.Says r ∨ ∃ l ∈ leaves, l.Records use.bindings r := by
  induction leaves using List.reverseRecOn with
  | nil => simp
  | append_singleton leaves l ih =>
    have hleaves : ∀ form, Leaf.unknown form ∉ leaves := fun form hm =>
      h form (List.mem_append_left _ hm)
    have hl : ∀ form, l ≠ .unknown form := fun form he => h form (by rw [he]; simp)
    have hw := walked_foldl use leaves hleaves
    rw [List.foldl_concat, says_meet hw.not_stuck hl, hw.bindings, ih hleaves, or_assoc]
    simp only [List.mem_append, List.mem_singleton, or_and_right, exists_or, exists_eq_left]

end Progress

/-! ### Class attributes -/

/-- What settling a scan adds: an entry for each known sheet with a computed access, and in it the
candidates that have nested classes. -/
theorem says_settleDynamic (sheets : Table Sheet) (scan : Scan) (use : MarkupUse) (r : Remark) :
    (settleDynamic sheets scan use).Says r ↔
      use.Says r ∨ ∃ path ∈ scan.dynamic, ∃ sheet, sheets.find? path = some sheet ∧
        (r = .touched path ∨
          ∃ v ∈ scan.candidatesAt path, sheet.hasChildren v = true ∧ r = .reached path v) := by
  rw [settleDynamic]
  induction scan.dynamic generalizing use with
  | nil => simp
  | cons F paths ih =>
    rw [List.foldl_cons, ih]
    simp only [List.mem_cons, exists_eq_or_imp]
    cases hs : sheets.find? F with
    | none => simp
    | some sheet =>
      simp only [MarkupUse.says_addDynamic, List.mem_filter, or_assoc, Option.some.injEq,
        exists_eq_left', and_assoc]
      rfl

/-- What the expression of a class attribute makes known: what its leaves record, and an entry for
each known sheet that it reaches into, with the classes that it asks for before that and that have
nested classes. -/
def Expr.Records (bindings : Table String) (sheets : Table Sheet) (helpers : List String) (e : Expr)
    (r : Remark) : Prop :=
  (∃ l ∈ e.leaves helpers, l.Records bindings r) ∨
    ∃ path sheet, (∃ b, .access b ∈ e.leaves helpers ∧ b.Reaches bindings path) ∧
      sheets.find? path = some sheet ∧
      (r = .touched path ∨
        ∃ v, e.AsksThenReaches bindings helpers path v ∧ sheet.hasChildren v = true ∧
          r = .reached path v)

section Attributes

variable (sheets : Table Sheet) (helpers : List String) (use : MarkupUse) {e : Expr} {r : Remark}

/-- **A class attribute adds what it records**, whatever was said before it. -/
theorem says_classifyAttribute (he : e.isKnown = true) :
    (classifyAttribute sheets helpers use e).Says r ↔
      use.Says r ∨ e.Records use.bindings sheets helpers r := by
  have hw := walked_classify helpers use he
  have hsame : (classify helpers e { use }).use.Says r ↔
      use.Says r ∨ ∃ l ∈ e.leaves helpers, l.Records use.bindings r := by
    rw [classify_eq_foldl]
    exact Progress.says_foldl use _ fun form => unknown_notMem_leaves helpers form e he
  rw [classifyAttribute, says_settleDynamic, hsame, or_assoc]
  refine or_congr_right (or_congr_right ?_)
  simp only [hw.sees.mem_dynamic, hw.sees.mem_candidates]
  constructor
  · rintro ⟨path, hreach, sheet, hs, hr⟩
    exact ⟨path, sheet, hreach, hs, hr⟩
  · rintro ⟨path, sheet, hreach, hs, hr⟩
    exact ⟨path, hreach, sheet, hs, hr⟩

theorem bindings_foldl_classifyAttribute (es : List Expr) (hes : ∀ e ∈ es, e.isKnown = true) :
    (es.foldl (classifyAttribute sheets helpers) use).bindings = use.bindings := by
  induction es generalizing use with
  | nil => rfl
  | cons e es ih =>
    rw [List.foldl_cons, ih _ fun e' h => hes e' (List.mem_cons_of_mem e h),
      bindings_classifyAttribute sheets helpers use (hes e List.mem_cons_self)]

/-- A list of class attributes adds what each of them records. -/
theorem says_foldl_classifyAttribute (es : List Expr) (hes : ∀ e ∈ es, e.isKnown = true) :
    (es.foldl (classifyAttribute sheets helpers) use).Says r ↔
      use.Says r ∨ ∃ e ∈ es, e.Records use.bindings sheets helpers r := by
  induction es generalizing use with
  | nil => simp
  | cons e es ih =>
    have he := hes e List.mem_cons_self
    rw [List.foldl_cons, ih _ fun e' h => hes e' (List.mem_cons_of_mem e h),
      says_classifyAttribute sheets helpers use he,
      bindings_classifyAttribute sheets helpers use he, or_assoc]
    simp only [List.mem_cons, exists_eq_or_imp]

end Attributes

theorem Expr.AsksThenReaches.mono {bindings : Table String} {helpers helpers' : List String}
    (hsub : helpers ⊆ helpers') {path v : String} {e : Expr}
    (h : e.AsksThenReaches bindings helpers path v) :
    e.AsksThenReaches bindings helpers' path v := by
  obtain ⟨a, b, name, hpair, hasks, hv, hreach⟩ := h
  exact ⟨a, b, name, hpair.trans (leaves_sublist hsub e), hasks, hv, hreach⟩

/-- **With more helpers an attribute records more.**  The leaves of the new calls come between those
that showed before, and what stood before a computed access still does. -/
theorem Expr.Records.mono {bindings : Table String} {sheets : Table Sheet}
    {helpers helpers' : List String} (hsub : helpers ⊆ helpers') {e : Expr} {r : Remark}
    (h : e.Records bindings sheets helpers r) : e.Records bindings sheets helpers' r := by
  have hleaves := (leaves_sublist hsub e).subset
  rcases h with ⟨l, hl, hr⟩ | ⟨path, sheet, ⟨b, hb, hreach⟩, hs, hr⟩
  · exact Or.inl ⟨l, hleaves hl, hr⟩
  · refine Or.inr ⟨path, sheet, ⟨b, hleaves hb, hreach⟩, hs, hr.imp_right ?_⟩
    rintro ⟨v, hv, hn, hr⟩
    exact ⟨v, hv.mono hsub, hn, hr⟩

/-! ### Accesses anywhere in a tree -/

theorem says_foldl_addStatic (targets : List (String × String)) (use : MarkupUse) (r : Remark) :
    (targets.foldl (fun use (path, name) => use.addStatic path (namingVariants name)) use).Says r ↔
      use.Says r ∨ ∃ path name, (path, name) ∈ targets ∧
        (r = .touched path ∨ ∃ x ∈ namingVariants name, r = .asked path x) := by
  induction targets generalizing use with
  | nil => simp
  | cons t targets ih =>
    obtain ⟨path, name⟩ := t
    rw [List.foldl_cons, ih, MarkupUse.says_addStatic, or_assoc]
    refine or_congr_right ⟨?_, ?_⟩
    · rintro (hr | ⟨path', name', hm, hr⟩)
      · exact ⟨path, name, List.mem_cons_self, hr⟩
      · exact ⟨path', name', List.mem_cons_of_mem _ hm, hr⟩
    · rintro ⟨path', name', hm, hr⟩
      rcases List.mem_cons.mp hm with he | hm
      · cases he
        exact Or.inl hr
      · exact Or.inr ⟨path', name', hm, hr⟩

theorem bindings_foldl_addStatic (targets : List (String × String)) (use : MarkupUse) :
    (targets.foldl (fun use (path, name) => use.addStatic path (namingVariants name)) use).bindings =
      use.bindings := by
  induction targets generalizing use with
  | nil => rfl
  | cons t targets ih =>
    rw [List.foldl_cons, ih]
    rfl

/-- The search over a tree adds what its accesses ask for. -/
theorem says_addAccesses (use : MarkupUse) (root : Node) (r : Remark) :
    (addAccesses use root).Says r ↔
      use.Says r ∨ ∃ n path name, n.Within root ∧ isAccess n = true ∧
        (Access.ofNode n).Asks use.bindings path name ∧ path ≠ "" ∧
        (r = .touched path ∨ ∃ x ∈ namingVariants name, r = .asked path x) := by
  rw [addAccesses, says_foldl_addStatic]
  refine or_congr_right ?_
  simp only [List.mem_filterMap, List.mem_filter, Node.mem_nodes_iff, Access.target?_eq_some_iff]
  constructor
  · rintro ⟨path, name, ⟨n, ⟨hn, ha⟩, hasks, hne⟩, hr⟩
    exact ⟨n, path, name, hn, ha, hasks, hne, hr⟩
  · rintro ⟨n, path, name, hn, ha, hasks, hne, hr⟩
    exact ⟨path, name, ⟨n, ⟨hn, ha⟩, hasks, hne⟩, hr⟩

/-! ### Files -/

theorem isKnown_of_valueExpr? {value : Node} {e : Expr} (h : valueExpr? value = some e) :
    e.isKnown = true := by
  rw [valueExpr?] at h
  split at h
  · cases h
    rfl
  · obtain ⟨n, _, rfl⟩ := Option.map_eq_some_iff.mp h
    exact isKnown_ofNode n
  · cases h

namespace Settings

variable (s : Settings)

/-- The use after the values of class attributes are visited one after the other. -/
def visit (use : MarkupUse) (values : List Node) : MarkupUse :=
  (values.filterMap valueExpr?).foldl (classifyAttribute s.sheets s.helpers) use

/-- The use of a tree before its class attributes are visited. -/
def accessed (path : String) (root : Node) : MarkupUse :=
  if (s.bindings path root).isEmpty then { bindings := s.bindings path root }
  else addAccesses { bindings := s.bindings path root } root

theorem useOf_eq_visit (path : String) (root : Node) :
    s.useOf path root = s.visit (s.accessed path root) (attributeValues s.attributes root) := rfl

theorem isKnown_of_mem_filterMap {values : List Node} :
    ∀ e ∈ values.filterMap valueExpr?, e.isKnown = true := by
  intro e he
  obtain ⟨_, _, h⟩ := List.mem_filterMap.mp he
  exact isKnown_of_valueExpr? h

theorem bindings_visit (use : MarkupUse) (values : List Node) :
    (s.visit use values).bindings = use.bindings :=
  bindings_foldl_classifyAttribute s.sheets s.helpers use _ isKnown_of_mem_filterMap

/-- **Visiting class attributes adds what each of them records**, under the names that the use
binds. -/
theorem says_visit (use : MarkupUse) (values : List Node) (r : Remark) :
    (s.visit use values).Says r ↔ use.Says r ∨ ∃ value ∈ values, ∃ e, valueExpr? value = some e ∧
      e.Records use.bindings s.sheets s.helpers r := by
  rw [visit, says_foldl_classifyAttribute s.sheets s.helpers use _ isKnown_of_mem_filterMap]
  refine or_congr_right ⟨?_, ?_⟩
  · rintro ⟨e, he, hr⟩
    obtain ⟨value, hv, hve⟩ := List.mem_filterMap.mp he
    exact ⟨value, hv, e, hve, hr⟩
  · rintro ⟨value, hv, e, hve, hr⟩
    exact ⟨e, List.mem_filterMap.mpr ⟨value, hv, hve⟩, hr⟩

theorem bindings_accessed (path : String) (root : Node) :
    (s.accessed path root).bindings = s.bindings path root := by
  rw [accessed]
  split
  · rfl
  · exact bindings_foldl_addStatic _ _

/-- Before its class attributes are visited, a file says what the accesses anywhere in it ask for. -/
theorem says_accessed (path : String) (root : Node) (r : Remark) :
    (s.accessed path root).Says r ↔ ∃ n F name, n.Within root ∧ isAccess n = true ∧
      (Access.ofNode n).Asks (s.bindings path root) F name ∧ F ≠ "" ∧
      (r = .touched F ∨ ∃ x ∈ namingVariants name, r = .asked F x) := by
  rw [accessed]
  split
  · rename_i hempty
    refine iff_of_false (MarkupUse.not_says_bindings _ r) ?_
    -- without bindings no access asks for anything
    rintro ⟨n, F, name, _, _, hasks, _⟩
    obtain ⟨object, _, hb⟩ := hasks.bound
    rw [List.isEmpty_iff.mp hempty] at hb
    cases hb
  · rw [says_addAccesses, or_iff_right (MarkupUse.not_says_bindings _ r)]

end Settings

/-! ### Entries -/

/-- An entry of the use makes the remark, or the remark is about one of its plain names. -/
def MarkupUse.Lists (u : MarkupUse) : Remark → Prop
  | .asked path name => ∃ usage, (path, usage) ∈ u.usages ∧ name ∈ usage.static
  | .reached path parent => ∃ usage, (path, usage) ∈ u.usages ∧ parent ∈ usage.dynamicParents
  | .touched path => path ∈ u.usages.keys
  | .spelt name => name ∈ u.literals

/-- If no sheet has two entries, the entries make the remarks of the use. -/
theorem MarkupUse.lists_iff {u : MarkupUse} (h : u.usages.keys.Nodup) {r : Remark} :
    u.Lists r ↔ u.Says r := by
  have hpart : ∀ (part : Usage → List String) (path x : String), x ∉ part {} →
      ((∃ usage, (path, usage) ∈ u.usages ∧ x ∈ part usage) ↔ x ∈ part (u.usageFor path)) := by
    intro part path x hempty
    rw [usageFor]
    constructor
    · rintro ⟨usage, hm, hx⟩
      rwa [Table.find?_of_mem h hm]
    · intro hx
      cases hf : u.usages.find? path with
      | none => rw [hf] at hx; exact absurd hx hempty
      | some usage => rw [hf] at hx; exact ⟨usage, Table.mem_of_find? hf, hx⟩
  cases r with
  | asked path name => exact hpart Usage.static path name List.not_mem_nil
  | reached path parent => exact hpart Usage.dynamicParents path parent List.not_mem_nil
  | touched path => exact Iff.rfl
  | spelt name => exact Iff.rfl

/-- A property of uses that no addition destroys. -/
structure MarkupUse.Kept (P : MarkupUse → Prop) : Prop where
  static : ∀ u path names, P u → P (u.addStatic path names)
  dynamic : ∀ u path names, P u → P (u.addDynamic path names)
  literals : ∀ u names, P u → P (u.addLiterals names)

namespace MarkupUse.Kept

variable {P : MarkupUse → Prop}

theorem step (p : Progress) {f : Progress → Progress} (h : P p.use) (hf : P (f p).use) :
    P (p.step f).use := by
  rw [Progress.step]
  split
  · exact h
  · exact hf

theorem meet (hP : Kept P) {p : Progress} (h : P p.use) (l : Leaf) : P (p.meet l).use := by
  cases l with
  | literal value => exact step p h (hP.literals _ _ h)
  | template text => exact step p h (hP.literals _ _ h)
  | access a =>
    change P (p.addAccess a).use
    cases hstuck : p.stuck with
    | some form => simpa [Progress.addAccess, Progress.step, hstuck] using h
    | none =>
      rcases Progress.addAccess_cases hstuck a with ⟨_, _, he⟩ | ⟨_, _, _, he⟩ | ⟨_, _, he⟩
      · rw [he]; exact h
      · rw [he]; exact hP.static _ _ _ h
      · rw [he]; exact h
  | unknown form => exact step p h h

theorem classifyAttribute (hP : Kept P) (sheets : Table Sheet) (helpers : List String)
    {use : MarkupUse} (h : P use) (e : Expr) : P (classifyAttribute sheets helpers use e) := by
  have hwalk : P (classify helpers e { use }).use := by
    rw [classify_eq_foldl]
    exact List.foldlRecOn (motive := fun p => P p.use) (e.leaves helpers) Progress.meet
      (b := { use }) h fun _ hp l _ => hP.meet hp l
  rw [Markup.classifyAttribute, settleDynamic]
  refine List.foldlRecOn (motive := P) _ _ hwalk fun use' h' path _ => ?_
  split
  · exact h'
  · exact hP.dynamic use' path _ h'

/-- What no addition destroys holds of the use of every file, if it holds of a file that has found
nothing yet. -/
theorem useOf (hP : Kept P) (s : Settings) (path : String) (root : Node)
    (h : P { bindings := s.bindings path root }) : P (s.useOf path root) := by
  have haccessed : P (s.accessed path root) := by
    rw [Settings.accessed]
    split
    · exact h
    · exact List.foldlRecOn (motive := P) _ _ h fun use h' target _ => hP.static use _ _ h'
  rw [Settings.useOf_eq_visit]
  exact List.foldlRecOn (motive := P) _ _ haccessed fun _ h' e _ =>
    hP.classifyAttribute s.sheets s.helpers h' e

end MarkupUse.Kept

/-- **No sheet has two entries in the use of a file.** -/
theorem Settings.nodup_keys_useOf (s : Settings) (path : String) (root : Node) :
    (s.useOf path root).usages.keys.Nodup := by
  have hkept : MarkupUse.Kept fun u => u.usages.keys.Nodup :=
    ⟨fun _ F _ h => Table.nodup_keys_alter h F _ _, fun _ F _ h => Table.nodup_keys_alter h F _ _,
      fun _ _ h => h⟩
  exact hkept.useOf s path root List.nodup_nil

end StyleAudit.Markup
