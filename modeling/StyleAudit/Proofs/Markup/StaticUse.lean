import Mathlib.Data.List.Basic
import Mathlib.Data.Option.Basic
import StyleAudit.Markup.Extract
import StyleAudit.Proofs.Markup.Leaves
import StyleAudit.Proofs.Markup.Tree

/-!
# What a markup file asks for by name

A file asks for a class of a sheet when an access to a name that it binds to that sheet stands
anywhere in its tree (`Settings.AsksFor`).  The spellings of the class are then among the names that
the use of the file records (`Settings.AsksFor.variants_subset`): the search over the tree records
them, and classifying the class attributes afterwards takes nothing back (`le_classifyAttribute`).
-/

namespace StyleAudit.Markup

open StyleAudit.Style (Sheet)

/-! ### Classifying only adds -/

namespace Progress

theorem use_le_step (p : Progress) {f : Progress → Progress} (hf : p.use ≤ (f p).use) :
    p.use ≤ (p.step f).use := by
  rw [step]
  split
  · exact le_refl _
  · exact hf

theorem use_le_addAccess (p : Progress) (a : Access) : p.use ≤ (p.addAccess a).use := by
  cases h : p.stuck with
  | some form => simp [addAccess, step, h]
  | none =>
    rcases addAccess_cases h a with ⟨path, _, he⟩ | ⟨path, name, _, he⟩ | ⟨_, _, he⟩
    · rw [he]; exact le_refl p.use
    · rw [he]; exact MarkupUse.le_addStatic p.use path (namingVariants name)
    · rw [he]

theorem use_le_meet (p : Progress) (l : Leaf) : p.use ≤ (p.meet l).use := by
  cases l with
  | literal value => exact use_le_step p (MarkupUse.le_addLiterals p.use _)
  | template text => exact use_le_step p (MarkupUse.le_addLiterals p.use _)
  | access a => exact use_le_addAccess p a
  | unknown form => exact use_le_step p (le_refl p.use)

theorem use_le_foldl (leaves : List Leaf) (p : Progress) :
    p.use ≤ (leaves.foldl Progress.meet p).use := by
  induction leaves generalizing p with
  | nil => exact le_refl _
  | cons l leaves ih => exact (use_le_meet p l).trans (ih (p.meet l))

end Progress

theorem le_settleDynamic (sheets : Table Sheet) (scan : Scan) (use : MarkupUse) :
    use ≤ settleDynamic sheets scan use := by
  rw [settleDynamic]
  induction scan.dynamic generalizing use with
  | nil => exact le_refl _
  | cons F paths ih =>
    rw [List.foldl_cons]
    refine le_trans ?_ (ih _)
    split
    · exact le_refl _
    · exact MarkupUse.le_addDynamic use F _

/-- **Classifying an attribute takes nothing back.** -/
theorem le_classifyAttribute (sheets : Table Sheet) (helpers : List String) (use : MarkupUse)
    (e : Expr) : use ≤ classifyAttribute sheets helpers use e := by
  rw [classifyAttribute]
  refine le_trans ?_ (le_settleDynamic sheets _ _)
  rw [classify_eq_foldl]
  exact Progress.use_le_foldl (e.leaves helpers) { use }

theorem le_foldl_classifyAttribute (sheets : Table Sheet) (helpers : List String)
    (es : List Expr) (use : MarkupUse) :
    use ≤ es.foldl (classifyAttribute sheets helpers) use := by
  induction es generalizing use with
  | nil => exact le_refl _
  | cons e es ih => exact (le_classifyAttribute sheets helpers use e).trans (ih _)

/-! ### Accesses in a tree -/

theorem Access.target?_eq_some_iff {bindings : Table String} {a : Access} {path name : String} :
    a.target? bindings = some (path, name) ↔ a.Asks bindings path name ∧ path ≠ "" := by
  constructor
  · intro h
    simp only [Access.target?, Option.bind_eq_bind, Option.bind_eq_some_iff] at h
    obtain ⟨object, ho, path', hb, name', hp, _, hguard, he⟩ := h
    cases he
    obtain ⟨⟨hpath, hc⟩, hname⟩ : (path ≠ "" ∧ a.computed = false) ∧ name ≠ "" := by
      simpa using (Option.guard_eq_some' _).mp hguard
    exact ⟨⟨⟨object, ho, hb⟩, hc, hp, hname⟩, hpath⟩
  · rintro ⟨⟨⟨object, ho, hb⟩, hc, hp, hn⟩, hne⟩
    simp [Access.target?, ho, hb, hc, hp, hn, hne]

/-- The names recorded by a list of targets. -/
theorem mem_static_foldl_addStatic (targets : List (String × String)) (use : MarkupUse)
    (F x : String) :
    x ∈ ((targets.foldl (fun use (path, name) => use.addStatic path (namingVariants name))
        use).usageFor F).static ↔
      x ∈ (use.usageFor F).static ∨ ∃ name, (F, name) ∈ targets ∧ x ∈ namingVariants name := by
  induction targets generalizing use with
  | nil => simp
  | cons t targets ih =>
    obtain ⟨path, name⟩ := t
    rw [List.foldl_cons, ih, MarkupUse.mem_static_addStatic, or_assoc]
    refine or_congr_right ?_
    constructor
    · rintro (⟨rfl, hx⟩ | ⟨name', hm, hx⟩)
      · exact ⟨name, List.mem_cons_self, hx⟩
      · exact ⟨name', List.mem_cons_of_mem _ hm, hx⟩
    · rintro ⟨name', hm, hx⟩
      rcases List.mem_cons.mp hm with he | hm
      · cases he
        exact Or.inl ⟨rfl, hx⟩
      · exact Or.inr ⟨name', hm, hx⟩

/-- The search over a tree records the spellings of the classes that its accesses ask for. -/
theorem mem_static_addAccesses {use : MarkupUse} {root : Node} {F x : String} :
    x ∈ ((addAccesses use root).usageFor F).static ↔
      x ∈ (use.usageFor F).static ∨ ∃ n name, n.Within root ∧ isAccess n = true ∧
        (Access.ofNode n).Asks use.bindings F name ∧ F ≠ "" ∧ x ∈ namingVariants name := by
  rw [addAccesses, mem_static_foldl_addStatic]
  refine or_congr_right ?_
  simp only [List.mem_filterMap, List.mem_filter, Node.mem_nodes_iff,
    Access.target?_eq_some_iff]
  constructor
  · rintro ⟨name, ⟨n, ⟨hn, ha⟩, hasks, hF⟩, hx⟩
    exact ⟨n, name, hn, ha, hasks, hF, hx⟩
  · rintro ⟨n, name, hn, ha, hasks, hF, hx⟩
    exact ⟨name, ⟨n, ⟨hn, ha⟩, hasks, hF⟩, hx⟩

/-! ### Files -/

namespace Settings

/-- Somewhere in the tree of the file, a member or subscript access asks by its name for the class
`name` of the sheet at `path`, through a name that the file binds to that sheet. -/
def AsksFor (s : Settings) (file : String × Node) (path name : String) : Prop :=
  ∃ n : Node, n.Within file.2 ∧ (n.kind = .memberExpression ∨ n.kind = .subscriptExpression) ∧
    (Access.ofNode n).Asks (s.bindings file.1 file.2) path name

/-- A file that binds a name is searched for accesses. -/
theorem addAccesses_le_useOf {s : Settings} {path : String} {root : Node}
    (h : (s.bindings path root).isEmpty = false) :
    addAccesses { bindings := s.bindings path root } root ≤ s.useOf path root := by
  simp only [useOf, h]
  exact le_foldl_classifyAttribute _ _ _ _

/-- **What a file asks for is recorded**, in all its spellings. -/
theorem AsksFor.variants_subset {s : Settings} {file : String × Node} {path name : String}
    (h : s.AsksFor file path name) (hpath : path ≠ "") :
    namingVariants name ⊆ ((s.useOf file.1 file.2).usageFor path).static := by
  obtain ⟨n, hn, hkind, hasks⟩ := h
  have hbound : (s.bindings file.1 file.2).isEmpty = false := by
    obtain ⟨object, _, hb⟩ := hasks.bound
    exact List.isEmpty_eq_false_iff_exists_mem.mpr ⟨_, Table.mem_of_find? hb⟩
  have haccess : isAccess n = true := by
    rcases hkind with hk | hk <;> simp [isAccess, hk]
  intro x hx
  exact ((addAccesses_le_useOf hbound).1 path).1
    (mem_static_addAccesses.mpr (Or.inr ⟨n, name, hn, haccess, hasks, hpath, hx⟩))

end Settings

end StyleAudit.Markup
