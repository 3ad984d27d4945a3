import Mathlib.Data.List.Basic
import StyleAudit.Audit.Context
import StyleAudit.Proofs.Markup.Usage
import StyleAudit.Proofs.Text.Pattern

/-!
# What a context knows, and what it reports

Three things are said once here and used wherever violations are discussed:

* `splitIdentifier?_eq_none_iff`, `splitIdentifier?_dotted`: an identifier is split at its first dot.
* `isUsed_dotted_iff`, `isUsed_simple_iff`: when a class counts as used.
* `Context.mem_component_foldl`: a context knows what it knew and what the added file says.

`Context.reports` is `Context.reconcile` with each violation beside the path of its sheet.  Two paths
may have the same relative form, so the file that a violation names does not tell its sheet.
-/

namespace StyleAudit.Audit

open StyleAudit.Markup (Usage MarkupUse)
open StyleAudit.Style (Sheet)

/-! ### Identifiers -/

theorem splitIdentifier?_eq_none_iff {x : String} : splitIdentifier? x = none ↔ '.' ∉ x.toList := by
  rw [splitIdentifier?, Option.map_eq_none_iff, Text.splitAtMark?_eq_none_iff]

theorem splitIdentifier?_dotted {a : String} (h : '.' ∉ a.toList) (b : String) :
    splitIdentifier? (a ++ "." ++ b) = some (a, b) := by
  have he : (a ++ "." ++ b).toList = a.toList ++ '.' :: b.toList := by simp
  rw [splitIdentifier?, he, Text.splitAtMark?_append '.' h]
  simp

/-! ### Used classes -/

section Used

variable {x parent child : String} {sheet : Sheet} {usage : Usage} {literals : List String}
variable {ignoreDynamic : Bool}

theorem isUsed_dotted_iff (h : splitIdentifier? x = some (parent, child)) :
    isUsed x sheet usage literals ignoreDynamic = true ↔
      (ignoreDynamic = true ∧ parent ∈ usage.dynamicParents) ∨
        parent ∈ usage.static ∧ child ∈ usage.static := by
  cases ignoreDynamic <;> simp [isUsed, h]

theorem isUsed_simple_iff (h : splitIdentifier? x = none) :
    isUsed x sheet usage literals ignoreDynamic = true ↔
      (x ∈ usage.static ∨ x ∈ literals) ∨
        ignoreDynamic = true ∧ ∃ p ∈ usage.dynamicParents, x ∈ sheet.children p := by
  cases ignoreDynamic <;> simp [isUsed, h]

end Used

namespace Context

/-! ### Adding a file -/

/-- A part of what a usage says that a merge unites, told for all usages that a table of uses adds.
The parts are `Usage.static` and `Usage.dynamicParents`. -/
theorem mem_component_foldl {part : Usage → List String}
    (hpart : ∀ u v x, x ∈ part (u.merge v) ↔ x ∈ part u ∨ x ∈ part v) (added : Table Usage)
    (t : Table Usage) (path x : String) :
    x ∈ part ((Table.find? (added.foldl (fun t (p, u) => t.alter p {} (·.merge u)) t) path).getD {})
      ↔ x ∈ part ((t.find? path).getD {}) ∨ ∃ u, (path, u) ∈ added ∧ x ∈ part u := by
  induction added generalizing t with
  | nil => simp
  | cons e added ih =>
    obtain ⟨p, u⟩ := e
    rw [List.foldl_cons, ih, Table.mem_part_alter part (fun b => hpart b u x), or_assoc]
    simp only [List.mem_cons, Prod.mk.injEq, or_and_right, exists_or, and_assoc, exists_and_left,
      exists_eq_left]

variable {c : Context} {u : MarkupUse} {path x : String}

theorem mem_static_addUse :
    x ∈ ((c.addUse u).usageFor path).static ↔
      x ∈ (c.usageFor path).static ∨ ∃ r, (path, r) ∈ u.usages ∧ x ∈ r.static :=
  mem_component_foldl (fun _ _ _ => Usage.mem_static_merge) u.usages c.usages path x

theorem mem_dynamicParents_addUse :
    x ∈ ((c.addUse u).usageFor path).dynamicParents ↔
      x ∈ (c.usageFor path).dynamicParents ∨ ∃ r, (path, r) ∈ u.usages ∧ x ∈ r.dynamicParents :=
  mem_component_foldl (fun _ _ _ => Usage.mem_dynamicParents_merge) u.usages c.usages path x

/-- What the file says about a sheet is known afterwards. -/
theorem usageFor_le_of_addUse (c : Context) (u : MarkupUse) (path : String) :
    u.usageFor path ≤ (c.addUse u).usageFor path := by
  rw [MarkupUse.usageFor]
  cases hf : u.usages.find? path with
  | none => exact ⟨List.nil_subset _, List.nil_subset _⟩
  | some r =>
    have hr := Table.mem_of_find? hf
    exact ⟨fun _ hx => mem_static_addUse.mpr (Or.inr ⟨r, hr, hx⟩),
      fun _ hx => mem_dynamicParents_addUse.mpr (Or.inr ⟨r, hr, hx⟩)⟩

/-! ### Reports -/

/-- The violations of all sheets, each with the path of its sheet. -/
def reports (c : Context) (cwd : String) (o : Options) : List (String × Violation) :=
  c.sheets.flatMap fun (path, sheet) => (c.unusedIn cwd o path sheet).map (path, ·)

theorem map_snd_reports (c : Context) (cwd : String) (o : Options) :
    (c.reports cwd o).map Prod.snd = c.reconcile cwd o := by
  rw [reports, reconcile, List.map_flatMap]
  simp [Function.comp_def]

/-- The class `x` is reported for the sheet at `path`. -/
def Reports (c : Context) (cwd : String) (o : Options) (path x : String) : Prop :=
  ∃ v, (path, v) ∈ c.reports cwd o ∧ v.className = some x

/-- **A class is reported iff its sheet defines it and it is not used.** -/
theorem reports_iff {cwd : String} {o : Options} :
    c.Reports cwd o path x ↔
      ∃ sheet, (path, sheet) ∈ c.sheets ∧ x ∈ sheet.definitions.keys ∧
        ¬ isUsed x sheet (c.usageFor path) c.literals o.ignoreDynamic = true := by
  simp only [Reports, reports, unusedIn, List.mem_flatMap, List.mem_map, List.mem_filter]
  constructor
  · rintro ⟨v, ⟨⟨p, sheet⟩, hs, w, ⟨⟨id, line⟩, ⟨hd, hu⟩, rfl⟩, he⟩, hx⟩
    cases he
    cases hx
    exact ⟨sheet, hs, List.mem_map_of_mem hd, by simpa using hu⟩
  · rintro ⟨sheet, hs, hd, hu⟩
    obtain ⟨⟨id, line⟩, hm, rfl⟩ := List.mem_map.mp hd
    exact ⟨_, ⟨(path, sheet), hs, _, ⟨(id, line), ⟨hm, by simpa using hu⟩, rfl⟩, rfl⟩, rfl⟩

end Context

end StyleAudit.Audit
