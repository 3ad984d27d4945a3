import Mathlib.Data.List.Basic
import StyleAudit.Proofs.Alias.Loader
import StyleAudit.Proofs.Audit.Project
import StyleAudit.Proofs.Audit.Soundness
import StyleAudit.Proofs.Markup.Import

/-!
# The context of a project is consistent

What the context of a project says about uses fits its sheets and itself (`Context.Consistent`): it
speaks of known sheets only, and a dynamic parent is a class that is asked for and that has nested
classes.  Hence neither a dynamic parent nor, if dynamic parents count, a class nested under it is
ever reported.

Each part is settled where it arises: imports mean known sheets, a computed access makes parents only
of names that were asked for before it, and settling keeps those with nested classes.  A context only
collects what its files say, so the parts hold of it too.  A dynamic parent has no dot, since in a
well-formed sheet no class of the nesting index has one, and so its identifiers are split where they
should be.
-/

namespace StyleAudit.Markup

open StyleAudit.Style (Sheet)

section Attributes

variable {bindings : Table String} {sheets : Table Sheet} {helpers : List String} {e : Expr}
variable {path v : String}

theorem Leaf.not_records_reached (l : Leaf) : ¬ l.Records bindings (.reached path v) := by
  cases l with
  | literal value => rintro ⟨_, _, h⟩; cases h
  | template text => rintro ⟨_, _, h⟩; cases h
  | access a =>
    rintro ⟨_, _, _, h | ⟨_, _, h⟩⟩
    · cases h
    · cases h
  | unknown form => exact id

/-- A leaf touches sheets that the file binds a name to. -/
theorem Leaf.bound_of_touched {l : Leaf} (h : l.Records bindings (.touched path)) :
    ∃ object, bindings.find? object = some path := by
  cases l with
  | literal value => obtain ⟨_, _, he⟩ := h; cases he
  | template text => obtain ⟨_, _, he⟩ := h; cases he
  | access a =>
    obtain ⟨_, _, hasks, he | ⟨_, _, he⟩⟩ := h
    · cases he
      obtain ⟨object, _, hb⟩ := hasks.bound
      exact ⟨object, hb⟩
    · cases he
  | unknown form => exact h.elim

/-- An attribute that makes a class a dynamic parent asks for it, and the class has nested
classes. -/
theorem Expr.Records.of_reached (h : e.Records bindings sheets helpers (.reached path v)) :
    e.Records bindings sheets helpers (.asked path v) ∧
      ∃ sheet, sheets.find? path = some sheet ∧ sheet.hasChildren v = true := by
  rcases h with ⟨l, _, hl⟩ | ⟨_, sheet, _, hs, he | ⟨_, hpair, hn, he⟩⟩
  · exact absurd hl l.not_records_reached
  · cases he
  · cases he
    obtain ⟨a, b, name, hsub, hasks, hv, _⟩ := hpair
    have ha : .access a ∈ e.leaves helpers := hsub.subset List.mem_cons_self
    exact ⟨Or.inl ⟨_, ha, path, name, hasks, Or.inr ⟨v, hv, rfl⟩⟩, sheet, hs, hn⟩

/-- An attribute touches sheets that the file binds a name to, and known sheets. -/
theorem Expr.Records.of_touched (h : e.Records bindings sheets helpers (.touched path)) :
    (∃ object, bindings.find? object = some path) ∨ path ∈ sheets.keys := by
  rcases h with ⟨l, _, hl⟩ | ⟨_, sheet, _, hs, he | ⟨_, _, _, he⟩⟩
  · exact Or.inl (Leaf.bound_of_touched hl)
  · cases he
    exact Or.inr (Table.mem_keys_of_find? hs)
  · cases he

end Attributes

namespace Settings

variable {s : Settings} {file path v : String} {root : Node}

/-- **A file touches known sheets only.** -/
theorem mem_keys_of_touched (h : (s.useOf file root).Says (.touched path)) :
    path ∈ s.sheets.keys := by
  rw [useOf_eq_visit, says_visit, says_accessed, bindings_accessed] at h
  rcases h with ⟨_, _, _, _, _, hasks, _, he | ⟨_, _, he⟩⟩ | ⟨_, _, e, _, hr⟩
  · cases he
    obtain ⟨object, _, hb⟩ := hasks.bound
    exact mem_keys_of_bindings hb
  · cases he
  · rcases hr.of_touched with ⟨object, hb⟩ | hkey
    · exact mem_keys_of_bindings hb
    · exact hkey

/-- **A dynamic parent of a file is asked for in the file, and it has nested classes.** -/
theorem asked_of_reached (h : (s.useOf file root).Says (.reached path v)) :
    (s.useOf file root).Says (.asked path v) ∧
      ∃ sheet, s.sheets.find? path = some sheet ∧ sheet.hasChildren v = true := by
  rw [useOf_eq_visit, says_visit, says_accessed] at h
  rcases h with ⟨_, _, _, _, _, _, _, he | ⟨_, _, he⟩⟩ | ⟨value, hvalue, e, hexpr, hr⟩
  · cases he
  · cases he
  · obtain ⟨hasked, hnested⟩ := hr.of_reached
    refine ⟨?_, hnested⟩
    rw [useOf_eq_visit, says_visit]
    exact Or.inr ⟨value, hvalue, e, hexpr, hasked⟩

end Settings

end StyleAudit.Markup

namespace StyleAudit.Audit

open StyleAudit.Markup (Settings)
open StyleAudit.Style (Sheet)

/-- What a context says about uses fits its sheets and itself. -/
structure Context.Consistent (c : Context) : Prop where
  /-- Only known sheets have a usage. -/
  known : ∀ path ∈ c.usages.keys, path ∈ c.sheets.keys
  /-- Dynamic parents are asked for by name. -/
  asked : ∀ path, (c.usageFor path).dynamicParents ⊆ (c.usageFor path).static
  /-- Dynamic parents have nested classes in their sheet. -/
  nested : ∀ path, ∀ v ∈ (c.usageFor path).dynamicParents,
    ∃ sheet, c.sheets.find? path = some sheet ∧ sheet.children v ≠ []
  /-- Dynamic parents are not reported. -/
  not_reported : ∀ path, ∀ v ∈ (c.usageFor path).dynamicParents, ∀ cwd o,
    ¬ c.Reports cwd o path v
  /-- If dynamic parents count, no identifier that is dotted under one is reported. -/
  dotted_not_reported : ∀ path, ∀ v ∈ (c.usageFor path).dynamicParents, ∀ cwd o,
    o.ignoreDynamic = true → ∀ x, ¬ c.Reports cwd o path (v ++ "." ++ x)
  /-- If dynamic parents count, no class nested under one is reported. -/
  child_not_reported : ∀ path, ∀ v ∈ (c.usageFor path).dynamicParents, ∀ cwd o,
    o.ignoreDynamic = true → ∀ sheet, c.sheets.find? path = some sheet →
    ∀ x ∈ sheet.children v, ¬ c.Reports cwd o path x

namespace Project

variable (p : Project) (resolver : Alias.Resolver) (o : Options) {path v : String}

theorem mem_keys_of_says_touched (h : (p.context resolver o).Says (.touched path)) :
    path ∈ p.table.keys := by
  obtain ⟨u, hu, hr⟩ := (p.says_context resolver o _).mp h
  obtain ⟨m, _, text, _, _, rfl⟩ := mem_uses_iff.mp hu
  exact Settings.mem_keys_of_touched hr

theorem asked_of_reached (h : (p.context resolver o).Says (.reached path v)) :
    (p.context resolver o).Says (.asked path v) ∧
      ∃ sheet, p.table.find? path = some sheet ∧ sheet.hasChildren v = true := by
  obtain ⟨u, hu, hr⟩ := (p.says_context resolver o _).mp h
  obtain ⟨m, _, text, _, _, rfl⟩ := mem_uses_iff.mp hu
  obtain ⟨hasked, hnested⟩ := Settings.asked_of_reached hr
  exact ⟨(p.says_context resolver o _).mpr ⟨_, hu, hasked⟩, hnested⟩

theorem dot_notMem_of_reached (h : (p.context resolver o).Says (.reached path v)) :
    '.' ∉ v.toList := by
  obtain ⟨_, sheet, hs, hn⟩ := p.asked_of_reached resolver o h
  obtain ⟨child, hc⟩ := Sheet.hasChildren_iff.mp hn
  exact ((wellFormed_of_find?_table hs).split v child hc).1

theorem consistent_context : (p.context resolver o).Consistent where
  known path h := by
    rw [sheets_context]
    exact p.mem_keys_of_says_touched resolver o h
  asked path v h := (p.asked_of_reached resolver o h).1
  nested path v h := by
    obtain ⟨_, sheet, hs, hn⟩ := p.asked_of_reached resolver o h
    obtain ⟨child, hc⟩ := Sheet.hasChildren_iff.mp hn
    rw [sheets_context]
    exact ⟨sheet, hs, List.ne_nil_of_mem hc⟩
  not_reported path v h cwd o' :=
    Context.not_reports_of_static (p.asked_of_reached resolver o h).1
      (p.dot_notMem_of_reached resolver o h)
  dotted_not_reported path v h cwd o' hdynamic x := by
    rw [Context.reports_iff]
    rintro ⟨sheet, _, _, hunused⟩
    have hsplit := splitIdentifier?_dotted (p.dot_notMem_of_reached resolver o h) x
    exact hunused ((isUsed_dotted_iff hsplit).mpr (Or.inl ⟨hdynamic, h⟩))
  child_not_reported path v h cwd o' hdynamic sheet hs x hx := by
    rw [Context.reports_iff]
    rintro ⟨sheet', hsheet', _, hunused⟩
    rw [sheets_context] at hs hsheet'
    -- the sheet at the path is the only one
    obtain rfl : sheet' = sheet := by
      have hfind := Table.find?_of_mem p.nodup_keys_table hsheet'
      rw [hs] at hfind
      exact (Option.some.inj hfind).symm
    have hdot := ((wellFormed_of_find?_table hs).split v x hx).2.1
    exact hunused ((isUsed_simple_iff (splitIdentifier?_eq_none_iff.mpr hdot)).mpr
      (Or.inr ⟨hdynamic, v, h, hx⟩))

end Project

/-- **The context of every project is consistent**, whatever its files hold and whatever the
resolver and the options.  A run from a disk gives the context of the project for the resolver that
it loads, if loading the aliases gives one; so every context that a run gives is consistent. -/
theorem context_of_project_consistent :
    (∀ (p : Project) (resolver : Alias.Resolver) (o : Options),
      (p.context resolver o).Consistent) ∧
    ∀ (d : Disk) (base : String) (o : Options),
      (Context.ofDisk d base o).result =
        (Alias.Resolver.ofDisk d (Project.ofDisk d base).root).result.map (fun resolver =>
          (Project.ofDisk d base).context resolver o) ∧
      ∀ c, (Context.ofDisk d base o).result = .ok c → c.Consistent := by
  refine ⟨fun p resolver o => p.consistent_context resolver o, fun d base o => ?_⟩
  have hrun := Context.result_ofDisk d base o
  refine ⟨hrun, fun c h => ?_⟩
  rw [hrun] at h
  cases hr : (Alias.Resolver.ofDisk d (Project.ofDisk d base).root).result with
  | error e =>
    rw [hr, Except.map] at h
    cases h
  | ok resolver =>
    rw [hr, Except.map] at h
    rw [← Except.ok.inj h]
    exact (Project.ofDisk d base).consistent_context resolver o

/-- A directory with a sheet and a markup file that asks for `card` and then reaches into the sheet,
and without files that state aliases. -/
theorem context_of_project_consistent_card :
    let d : Disk :=
      { cwd := "/"
        tree := .directory [("p", .directory
          [("a.scss", .file ".card { &.open {} }".toUTF8.toList),
            ("A.jsx", .file ("import s from './a.scss';\n".toUTF8.toList ++
              "let a = <i class={cn(s.card, s[k])} />;".toUTF8.toList))])] }
    let c := (Project.ofDisk d "/p").context ⟨"/p", []⟩ {}
    (Context.ofDisk d "/p" {}).result = .ok c ∧ c.Consistent := by
  intro d c
  have hroot : (Project.ofDisk d "/p").root = "/p" := by decide
  have hresolver : (Alias.Resolver.ofDisk d (Project.ofDisk d "/p").root).result =
      .ok ⟨"/p", []⟩ := by
    rw [hroot]
    exact Alias.result_ofDisk_of_no_file (by decide +kernel)
  have hrun : (Context.ofDisk d "/p" {}).result = .ok c := by
    rw [(context_of_project_consistent.2 d "/p" {}).1, hresolver]
    rfl
  exact ⟨hrun, (context_of_project_consistent.2 d "/p" {}).2 c hrun⟩

end StyleAudit.Audit
