import Mathlib.Data.List.Basic
import StyleAudit.Proofs.Audit.Shrinking
import StyleAudit.Proofs.Markup.StaticUse
import StyleAudit.Proofs.Style.WellFormed

/-!
# No class that is asked for is reported

From the syntax trees of the markup files to the violations: if an access anywhere in one of the
files asks for a class of a sheet, no spelling of the class is reported for that sheet, and if two
accesses ask for `p` and `q`, the class `q` nested under `p` is not reported in any spelling
(`asked_not_reported`).

An identifier is split at its first dot.  So a spelling of `p` that itself holds a dot, as in
`s['x.y']`, is not found again in a dotted identifier (`dotted_spelling_reported`).  No sheet that is
read from a stylesheet defines such an identifier, since its dotted identifiers have one dot.
-/

namespace StyleAudit.Audit

open StyleAudit.Markup (MarkupUse Node Settings namingVariants)
open StyleAudit.Style (Sheet)

/-! ### Identifiers with one dot -/

/-- In a well-formed sheet the first dot of a dotted identifier is its only one. -/
theorem dot_notMem_of_wellFormed {sheet : Sheet} (h : sheet.WellFormed) {a b : String}
    (hx : a ++ "." ++ b ∈ sheet.definitions.keys) : '.' ∉ a.toList := by
  obtain ⟨p, c, hc, he⟩ := (h.dotted_iff (a ++ "." ++ b) (by simp)).mp hx
  obtain ⟨hp, hcdot, _⟩ := h.split p c hc
  have hchars : a.toList ++ '.' :: b.toList = p.toList ++ '.' :: c.toList := by
    simpa using congrArg String.toList he
  have hcount := congrArg (List.count '.') hchars
  simp only [List.count_append, List.count_cons_self, List.count_eq_zero.mpr hp,
    List.count_eq_zero.mpr hcdot] at hcount
  exact List.count_eq_zero.mp (by omega)

/-! ### What is known after all files -/

namespace Context

theorem usageFor_le_foldl_addUse {us : List MarkupUse} {u : MarkupUse} (hu : u ∈ us) (c : Context)
    (path : String) : u.usageFor path ≤ (us.foldl addUse c).usageFor path := by
  induction us generalizing c with
  | nil => exact absurd hu List.not_mem_nil
  | cons v us ih =>
    rcases List.mem_cons.mp hu with rfl | hm
    · exact (usageFor_le_of_addUse c u path).trans ((grows_foldl_addUse (c.addUse u) us).usage path)
    · exact ih hm (c.addUse v)

/-- A name that is asked for is not reported. -/
theorem not_reports_of_static {c : Context} {cwd : String} {o : Options} {path x : String}
    (hx : x ∈ (c.usageFor path).static) (hdot : '.' ∉ x.toList) : ¬ c.Reports cwd o path x := by
  rw [reports_iff]
  rintro ⟨sheet, _, _, hunused⟩
  exact hunused ((isUsed_simple_iff (splitIdentifier?_eq_none_iff.mpr hdot)).mpr
    (Or.inl (Or.inl hx)))

/-- A dotted identifier whose two names are asked for is not reported. -/
theorem not_reports_of_static_pair {c : Context} {cwd : String} {o : Options} {path a b : String}
    (ha : a ∈ (c.usageFor path).static) (hb : b ∈ (c.usageFor path).static)
    (hdot : '.' ∉ a.toList ∨ ∀ sheet, (path, sheet) ∈ c.sheets → sheet.WellFormed) :
    ¬ c.Reports cwd o path (a ++ "." ++ b) := by
  rw [reports_iff]
  rintro ⟨sheet, hsheet, hdefined, hunused⟩
  have hfirst : '.' ∉ a.toList := by
    rcases hdot with h | h
    · exact h
    · exact dot_notMem_of_wellFormed (h sheet hsheet) hdefined
  exact hunused ((isUsed_dotted_iff (splitIdentifier?_dotted hfirst b)).mpr (Or.inr ⟨ha, hb⟩))

end Context

/-! ### Soundness -/

theorem mapM_examine (s : Settings) (files : List (String × Node))
    (h : ∀ f ∈ files, f.2.hasFault = false) :
    files.mapM (fun f => s.examine f.1 f.2) = .ok (files.map fun f => s.useOf f.1 f.2) := by
  induction files with
  | nil => rfl
  | cons f files ih =>
    have hf : s.examine f.1 f.2 = .ok (s.useOf f.1 f.2) := by
      rw [Settings.examine, h f List.mem_cons_self]; rfl
    rw [List.mapM_cons, hf, ih fun g hg => h g (List.mem_cons_of_mem f hg)]
    rfl

/-- **No class that is asked for is reported.**  Markup files without faults are read one by one, and
their uses are added to a context in any order.  If one of the files asks for `p` in the sheet at
`path`, no spelling of `p` without a dot is reported for that sheet.  If files ask for `p` and for
`q`, no spelling of `q` nested under a spelling `a` of `p` is reported; for this `a` must be what
stands before the first dot, as it always is if the sheet is well formed. -/
theorem asked_not_reported (s : Settings) (c : Context) (cwd : String) (o : Options)
    (files : List (String × Node)) (hfiles : ∀ f ∈ files, f.2.hasFault = false)
    (path : String) (hpath : path ≠ "") :
    ∃ uses, files.mapM (fun f => s.examine f.1 f.2) = .ok uses ∧
      ∀ merged : List MarkupUse, merged.Perm uses →
        (∀ p, (∃ f ∈ files, s.AsksFor f path p) → ∀ x ∈ namingVariants p, '.' ∉ x.toList →
          ¬ (merged.foldl Context.addUse c).Reports cwd o path x) ∧
        (∀ p q, (∃ f ∈ files, s.AsksFor f path p) → (∃ f ∈ files, s.AsksFor f path q) →
          ∀ a ∈ namingVariants p, ∀ b ∈ namingVariants q,
          ('.' ∉ a.toList ∨ ∀ sheet, (path, sheet) ∈ c.sheets → sheet.WellFormed) →
          ¬ (merged.foldl Context.addUse c).Reports cwd o path (a ++ "." ++ b)) := by
  refine ⟨_, mapM_examine s files hfiles, fun merged hperm => ?_⟩
  have hknown : ∀ p, (∃ f ∈ files, s.AsksFor f path p) →
      namingVariants p ⊆ ((merged.foldl Context.addUse c).usageFor path).static := by
    rintro p ⟨f, hf, hasks⟩
    have hmem : s.useOf f.1 f.2 ∈ merged := hperm.mem_iff.mpr (List.mem_map_of_mem hf)
    exact List.Subset.trans (hasks.variants_subset hpath)
      (Context.usageFor_le_foldl_addUse hmem c path).1
  constructor
  · intro p hp x hx hdot
    exact Context.not_reports_of_static (hknown p hp hx) hdot
  · intro p q hp hq a ha b hb hdot
    refine Context.not_reports_of_static_pair (hknown p hp ha) (hknown q hq hb) ?_
    rwa [(Context.grows_foldl_addUse c merged).sheets]

/-- The tree of `import s from './a.css'` with more phrases after it. -/
def importTree (phrases : List Node) : Node :=
  .mk { kind := .program } <| .mk { kind := .importStatement }
    [.mk { kind := .importClause } [.mk { kind := .identifier, text := "s" } []],
      .mk { kind := .string, role := .source, text := "'./a.css'" } []] :: phrases

/-- The tree of `s.name`. -/
def memberTree (name : String) : Node :=
  .mk { kind := .memberExpression }
    [.mk { kind := .identifier, role := .object, text := "s" } [],
      .mk { kind := .propertyIdentifier, role := .property, text := name } []]

/-- The tree of `s['name']`. -/
def elementTree (name : String) : Node :=
  .mk { kind := .subscriptExpression }
    [.mk { kind := .identifier, role := .object, text := "s" } [],
      .mk { kind := .string, role := .index, text := "'" ++ name ++ "'" } []]

/-- With `s.usedWrapper` in one file and `s['isOpen']` in another, neither `used-wrapper` nor the
class `is-open` nested under it is reported. -/
theorem asked_not_reported_nested :
    let sheet : Sheet :=
      { definitions := [("used-wrapper", 1), ("used-wrapper.is-open", 2)]
        nesting := [("used-wrapper", ["is-open"])] }
    let s : Settings := { cwd := "/p", sheets := [("/p/a.css", sheet)] }
    let c : Context := { root := "/p", sheets := s.sheets }
    let files := [("/p/App.jsx", importTree [memberTree "usedWrapper"]),
      ("/p/Box.jsx", importTree [elementTree "isOpen"])]
    (∀ f ∈ files, f.2.hasFault = false) ∧
      ∃ uses, files.mapM (fun f => s.examine f.1 f.2) = .ok uses ∧
        ¬ (uses.foldl Context.addUse c).Reports "/p" {} "/p/a.css" "used-wrapper" ∧
        ¬ (uses.foldl Context.addUse c).Reports "/p" {} "/p/a.css" "used-wrapper.is-open" := by
  intro sheet s c files
  have hfiles : ∀ f ∈ files, f.2.hasFault = false := by decide
  obtain ⟨uses, huses, hall⟩ :=
    asked_not_reported s c "/p" {} files hfiles "/p/a.css" (by decide)
  obtain ⟨hone, htwo⟩ := hall uses (List.Perm.refl uses)
  have hp : ∃ f ∈ files, s.AsksFor f "/p/a.css" "usedWrapper" :=
    ⟨_, List.mem_cons_self, memberTree "usedWrapper", .child (by simp) (.root _), Or.inl rfl,
      ⟨"s", rfl, by decide⟩, rfl, rfl, by decide⟩
  have hq : ∃ f ∈ files, s.AsksFor f "/p/a.css" "isOpen" :=
    ⟨_, List.mem_cons_of_mem _ List.mem_cons_self, elementTree "isOpen",
      .child (by simp) (.root _), Or.inr rfl, ⟨"s", rfl, by decide⟩, rfl,
      by decide, by decide⟩
  refine ⟨hfiles, uses, huses, ?_, ?_⟩
  · exact hone "usedWrapper" hp "used-wrapper" (by decide) (by decide)
  · exact htwo "usedWrapper" "isOpen" hp hq "used-wrapper" (by decide) "is-open"
      (by decide) (Or.inl (by decide))

/-- A spelling that holds a dot is not found again: with `s['x.y']` and `s.b` in a file, the
identifier `x.y.b` of a sheet is reported, though it is a spelling of `x.y`, a dot, and a spelling of
`b`. -/
theorem dotted_spelling_reported :
    let s : Settings := { cwd := "/p", sheets := [("/p/a.css", { definitions := [("x.y.b", 1)] })] }
    let c : Context := { root := "/p", sheets := s.sheets }
    let file := ("/p/App.jsx", importTree [elementTree "x.y", memberTree "b"])
    file.2.hasFault = false ∧ s.AsksFor file "/p/a.css" "x.y" ∧ s.AsksFor file "/p/a.css" "b" ∧
      "x.y" ∈ namingVariants "x.y" ∧ "b" ∈ namingVariants "b" ∧
      ∃ use, s.examine file.1 file.2 = .ok use ∧
        (c.addUse use).Reports "/p" {} "/p/a.css" ("x.y" ++ "." ++ "b") := by
  intro s c file
  have hx : s.AsksFor file "/p/a.css" "x.y" :=
    ⟨elementTree "x.y", .child (by simp) (.root _), Or.inr rfl, ⟨"s", rfl, by decide⟩, rfl,
      by decide, by decide⟩
  have hb : s.AsksFor file "/p/a.css" "b" :=
    ⟨memberTree "b", .child (by simp) (.root _), Or.inl rfl, ⟨"s", rfl, by decide⟩, rfl,
      rfl, by decide⟩
  refine ⟨by decide, hx, hb, by decide, by decide, s.useOf file.1 file.2, rfl, ?_⟩
  exact Context.reports_iff.mpr ⟨_, List.mem_cons_self, by decide, by decide⟩

end StyleAudit.Audit
