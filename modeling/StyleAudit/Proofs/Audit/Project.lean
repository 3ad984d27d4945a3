import Mathlib.Data.List.Basic
import StyleAudit.Audit.Project
import StyleAudit.Proofs.Audit.Accumulation
import StyleAudit.Proofs.Style.WellFormed

/-!
# What the context of a project holds

Reading a project goes through its style files and then through its markup files, and either may
refuse a file.  What the context holds in the end, the list of failures apart, is told by two things
(`Project.forgetFailures_context`):

* `Project.table`: the sheets of the style files, with an empty sheet for a file that is refused.
* `Project.uses`: the uses of the markup files that are not refused, in the order of the files.

The violations are told by the same two, since the list of failures has no part in them
(`Project.reconcile_context`).  A run from a disk gives this context for the resolver that it has
loaded (`Context.result_ofDisk`).
-/

namespace StyleAudit.Audit

open StyleAudit.Markup (MarkupUse Remark Settings)
open StyleAudit.Style (Sheet)

namespace Context

/-- The context with an empty list of failures. -/
def forgetFailures (c : Context) : Context :=
  { c with failures := [] }

@[simp] theorem reconcile_forgetFailures (c : Context) (cwd : String) (o : Options) :
    c.forgetFailures.reconcile cwd o = c.reconcile cwd o := rfl

theorem says_forgetFailures {c : Context} {r : Remark} : c.forgetFailures.Says r ↔ c.Says r :=
  Iff.rfl

end Context

/-! ### Style files -/

/-- The sheet that stands for a style file, which is empty if the file is refused. -/
def Source.sheetOrEmpty (s : Source) : Sheet :=
  s.sheet.toOption.getD {}

/-- The sheet that stands for a style file is well formed. -/
theorem Source.wellFormed_sheetOrEmpty (s : Source) : s.sheetOrEmpty.WellFormed := by
  have hempty : ({} : Sheet).WellFormed := (Style.fits_nil none).wellFormed
  rw [sheetOrEmpty, sheet]
  cases s.content with
  | error e => exact hempty
  | ok text =>
    simp only [Style.extract]
    cases Style.Dialect.parse (.ofPath s.path) text with
    | error e => exact hempty
    | ok forest => exact (Style.fits_forestFacts (.ofPath s.path) forest).wellFormed

namespace Project

/-- The sheets of the style files. -/
def table (p : Project) : Table Sheet :=
  p.styles.foldl (fun t s => t.put s.path s.sheetOrEmpty) []

/-- Style files fill the table of sheets and say nothing about uses. -/
theorem forgetFailures_foldl_addSheet (styles : List Source) (c : Context) :
    (styles.foldl (fun c s => c.addSheet s.path s.sheet) c).forgetFailures =
      { c.forgetFailures with
        sheets := styles.foldl (fun t s => t.put s.path s.sheetOrEmpty) c.sheets } := by
  induction styles generalizing c with
  | nil => rfl
  | cons s styles ih =>
    rw [List.foldl_cons, ih, List.foldl_cons, Source.sheetOrEmpty]
    cases s.sheet <;> rfl

theorem forgetFailures_sheetContext (p : Project) :
    (p.sheetContext p.sheets).forgetFailures = { root := p.root, sheets := p.table } := by
  rw [sheetContext, sheets, List.foldl_map]
  exact forgetFailures_foldl_addSheet p.styles { root := p.root }

theorem sheets_sheetContext (p : Project) : (p.sheetContext p.sheets).sheets = p.table :=
  congrArg Context.sheets p.forgetFailures_sheetContext

/-- The table has the paths of the style files as its keys. -/
theorem keys_table_eq_addNames (p : Project) :
    p.table.keys = addNames [] (p.styles.map Source.path) := by
  have hkeys : ∀ (styles : List Source) (t : Table Sheet),
      (styles.foldl (fun t s => t.put s.path s.sheetOrEmpty) t).keys =
        addNames t.keys (styles.map Source.path) := by
    intro styles
    induction styles with
    | nil => exact fun t => rfl
    | cons s styles ih =>
      intro t
      rw [List.foldl_cons, ih, Table.keys_put]
      rfl
  rw [table, hkeys]
  rfl

theorem nodup_keys_table (p : Project) : p.table.keys.Nodup := by
  refine List.foldlRecOn (motive := fun t : Table Sheet => t.keys.Nodup) _ _ List.nodup_nil ?_
  intro t ht s _
  rw [Table.keys_put]
  exact nodup_addName ht s.path

theorem wellFormed_of_find?_table {p : Project} {path : String} {sheet : Sheet}
    (h : p.table.find? path = some sheet) : sheet.WellFormed := by
  suffices hall : ∀ sheet, p.table.find? path = some sheet → sheet.WellFormed from hall sheet h
  refine List.foldlRecOn (motive := fun t : Table Sheet =>
    ∀ sheet, t.find? path = some sheet → sheet.WellFormed) _ _ (fun _ h => by cases h) ?_
  intro t ht s _ sheet hs
  rw [Table.find?_put] at hs
  split at hs
  · cases hs
    exact s.wellFormed_sheetOrEmpty
  · exact ht sheet hs

end Project

/-! ### Markup files -/

/-- The use that a markup file makes of classes, if it is not refused. -/
def MarkupReading.use? (r : MarkupReading) : Option MarkupUse :=
  r.result.toOption.map Prod.fst

theorem Source.use?_markup (s : Source) (settings : Settings) :
    (s.markup settings).use? =
      match s.content with
      | .ok text =>
        let root := Markup.parse text
        if root.hasFault then none else some (settings.useOf s.path root)
      | .error _ => none := by
  rw [MarkupReading.use?, markup]
  cases s.content with
  | error e => rfl
  | ok text =>
    simp only [Settings.examine]
    split <;> rfl

theorem Context.forgetFailures_addReadings (c : Context) (rs : List MarkupReading) :
    (c.addReadings rs).forgetFailures =
      (rs.filterMap MarkupReading.use?).foldl Context.addUse c.forgetFailures := by
  rw [addReadings]
  induction rs generalizing c with
  | nil => rfl
  | cons r rs ih =>
    rw [List.foldl_cons, ih, addReading]
    cases hr : r.result with
    | error e =>
      have hnone : r.use? = none := by rw [MarkupReading.use?, hr]; rfl
      rw [List.filterMap_cons_none hnone]
      rfl
    | ok reading =>
      have hsome : r.use? = some reading.1 := by rw [MarkupReading.use?, hr]; rfl
      rw [List.filterMap_cons_some hsome]
      rfl

namespace Project

/-- The uses of the markup files that are not refused. -/
def uses (p : Project) (resolver : Alias.Resolver) (o : Options) : List MarkupUse :=
  p.markups.filterMap fun m => (m.markup (p.settings p.table resolver o)).use?

theorem mem_uses_iff {p : Project} {resolver : Alias.Resolver} {o : Options} {u : MarkupUse} :
    u ∈ p.uses resolver o ↔ ∃ m ∈ p.markups, ∃ text, m.content = .ok text ∧
      (Markup.parse text).hasFault = false ∧
      u = (p.settings p.table resolver o).useOf m.path (Markup.parse text) := by
  rw [uses, List.mem_filterMap]
  refine exists_congr fun m => and_congr_right fun _ => ?_
  rw [Source.use?_markup]
  cases m.content with
  | error e =>
    refine iff_of_false (fun h => by cases h) ?_
    rintro ⟨text, h, _⟩
    cases h
  | ok text =>
    simp only [Except.ok.injEq, exists_eq_left']
    cases (Markup.parse text).hasFault with
    | true => simp only [reduceIte, reduceCtorEq, false_and]
    | false => simp only [Bool.false_eq_true, reduceIte, Option.some.injEq, true_and, eq_comm]

/-- **What the context of a project holds**, the list of failures apart. -/
theorem forgetFailures_context (p : Project) (resolver : Alias.Resolver) (o : Options) :
    (p.context resolver o).forgetFailures =
      (p.uses resolver o).foldl Context.addUse { root := p.root, sheets := p.table } := by
  rw [context, Context.forgetFailures_addReadings, forgetFailures_sheetContext, readings,
    List.filterMap_map, sheets_sheetContext]
  rfl

theorem reconcile_context (p : Project) (resolver : Alias.Resolver) (o o' : Options)
    (cwd : String) :
    (p.context resolver o).reconcile cwd o' =
      ((p.uses resolver o).foldl Context.addUse { root := p.root, sheets := p.table }).reconcile
        cwd o' := by
  rw [← forgetFailures_context, Context.reconcile_forgetFailures]

theorem sheets_context (p : Project) (resolver : Alias.Resolver) (o : Options) :
    (p.context resolver o).sheets = p.table := by
  have h := congrArg Context.sheets (p.forgetFailures_context resolver o)
  exact h.trans (Context.grows_foldl_addUse _ _).sheets

/-- The context says what the uses of the markup files say. -/
theorem says_context (p : Project) (resolver : Alias.Resolver) (o : Options) (r : Remark) :
    (p.context resolver o).Says r ↔ ∃ u ∈ p.uses resolver o, u.Says r := by
  have hempty : ¬ ({ root := p.root, sheets := p.table } : Context).Says r := by
    cases r <;> exact List.not_mem_nil
  rw [← Context.says_forgetFailures, forgetFailures_context, Context.says_foldl_addUse,
    or_iff_right hempty]
  refine exists_congr fun u => and_congr_right fun hu => ?_
  obtain ⟨m, _, text, _, _, rfl⟩ := mem_uses_iff.mp hu
  exact MarkupUse.lists_iff (Settings.nodup_keys_useOf _ _ _)

end Project

/-! ### Runs from a disk -/

/-- The context that a run gives is that of the project below the directory, for the resolver that
the run has loaded. -/
theorem Context.result_ofDisk (d : Disk) (base : String) (o : Options) :
    (Context.ofDisk d base o).result =
      (Alias.Resolver.ofDisk d (Project.ofDisk d base).root).result.map fun resolver =>
        (Project.ofDisk d base).context resolver o := by
  simp only [Context.ofDisk, Project.context, bind, Logged.andThen, Logged.tell, pure]
  cases (Alias.Resolver.ofDisk d (Project.ofDisk d base).root).result <;> rfl

end StyleAudit.Audit
