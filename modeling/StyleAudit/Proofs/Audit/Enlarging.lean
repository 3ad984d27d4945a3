import Mathlib.Data.List.Basic
import StyleAudit.Proofs.Audit.Project
import StyleAudit.Proofs.Audit.Soundness

/-!
# A larger configuration only suppresses

Two lists of the configuration say where classes are looked for: the helpers, whose arguments belong
to a class expression, and the attributes that hold class expressions.  If either list grows, more
class expressions are seen and each of them shows more leaves, so a file says more
(`Settings.says_useOf_mono`) and there are fewer violations (`enlarging_suppresses`).

New leaves may come anywhere between the old ones.  They take nothing away: an access that stood
before a computed access still stands before it.
-/

namespace StyleAudit.Markup

theorem attributeValue?_mono {attributes attributes' : List String} (h : attributes ⊆ attributes')
    {n value : Node} (hv : attributeValue? attributes n = some value) :
    attributeValue? attributes' n = some value := by
  rw [attributeValue?] at hv ⊢
  by_cases hkind : (n.kind == .jsxAttribute) = true
  · rw [if_pos hkind] at hv ⊢
    split at hv
    · rename_i name value' rest hchildren
      by_cases hname : attributes.contains name.text = true
      · have hname' : attributes'.contains name.text = true := by
          rw [List.contains_iff_mem] at hname ⊢
          exact h hname
        rw [if_pos hname] at hv
        simpa only [hchildren, hname', if_true] using hv
      · rw [if_neg hname] at hv
        cases hv
    · cases hv
  · rw [if_neg hkind] at hv
    cases hv

theorem attributeValues_subset {attributes attributes' : List String} (h : attributes ⊆ attributes')
    (root : Node) : attributeValues attributes root ⊆ attributeValues attributes' root := by
  intro value hv
  obtain ⟨n, hn, hvalue⟩ := List.mem_filterMap.mp hv
  exact List.mem_filterMap.mpr ⟨n, hn, attributeValue?_mono h hvalue⟩

/-- **With more helpers and more attributes a file says more.** -/
theorem Settings.says_useOf_mono (s : Settings) {helpers attributes : List String}
    (hhelpers : s.helpers ⊆ helpers) (hattributes : s.attributes ⊆ attributes) {path : String}
    {root : Node} {r : Remark} (h : (s.useOf path root).Says r) :
    (Settings.useOf { s with helpers, attributes } path root).Says r := by
  rw [useOf_eq_visit, says_visit] at h ⊢
  rcases h with h | ⟨value, hvalue, e, he, hr⟩
  · exact Or.inl h
  · exact Or.inr ⟨value, attributeValues_subset hattributes root hvalue, e, he, hr.mono hhelpers⟩

end StyleAudit.Markup

namespace StyleAudit.Audit

open StyleAudit.Markup (MarkupUse Node Remark Settings)
open StyleAudit.Style (Sheet)
open scoped List

/-- A context grows if the uses that are added to it list more. -/
theorem Context.grows_of_lists (c : Context) {us vs : List MarkupUse}
    (h : ∀ u ∈ us, ∀ r, u.Lists r → ∃ v ∈ vs, v.Lists r) :
    (us.foldl addUse c).Grows (vs.foldl addUse c) := by
  have hus := grows_foldl_addUse c us
  have hvs := grows_foldl_addUse c vs
  refine grows_of_remarks (hvs.root.trans hus.root.symm) (hvs.sheets.trans hus.sheets.symm) ?_
  intro r hr
  rw [says_foldl_addUse] at hr ⊢
  rcases hr with hr | ⟨u, hu, hr⟩
  · exact Or.inl hr
  · exact Or.inr (h u hu r hr)

theorem lists_useOf_mono (s : Settings) {helpers attributes : List String}
    (hhelpers : s.helpers ⊆ helpers) (hattributes : s.attributes ⊆ attributes) {path : String}
    {root : Node} {r : Remark} (h : (s.useOf path root).Lists r) :
    (Settings.useOf { s with helpers, attributes } path root).Lists r := by
  rw [MarkupUse.lists_iff (Settings.nodup_keys_useOf _ _ _)] at h ⊢
  exact s.says_useOf_mono hhelpers hattributes h

/-- **A larger configuration only suppresses.**  If markup trees without faults are read again with
more helpers and more attributes, the violations are a sublist of what they were, whether dynamic
parents count or not.  The same holds for whole projects, whose files may also be refused. -/
theorem enlarging_suppresses :
    (∀ (s : Settings) (helpers attributes : List String), s.helpers ⊆ helpers →
      s.attributes ⊆ attributes → ∀ (c : Context) (cwd : String) (o : Options)
      (files : List (String × Node)), (∀ f ∈ files, f.2.hasFault = false) →
      ∃ uses uses', files.mapM (fun f => s.examine f.1 f.2) = .ok uses ∧
        files.mapM (fun f => Settings.examine { s with helpers, attributes } f.1 f.2) = .ok uses' ∧
        (uses'.foldl Context.addUse c).reconcile cwd o <+
          (uses.foldl Context.addUse c).reconcile cwd o) ∧
    ∀ (p : Project) (resolver : Alias.Resolver) (o o' : Options), o.helpers ⊆ o'.helpers →
      o.attributes ⊆ o'.attributes → o'.ignoreDynamic = o.ignoreDynamic →
      (p.context resolver o').reconcile p.cwd o' <+ (p.context resolver o).reconcile p.cwd o := by
  constructor
  · intro s helpers attributes hhelpers hattributes c cwd o files hfiles
    refine ⟨_, _, mapM_examine s files hfiles, mapM_examine _ files hfiles, ?_⟩
    refine (Context.grows_of_lists c fun u hu r hr => ?_).reconcile_sublist id cwd
    obtain ⟨f, hf, rfl⟩ := List.mem_map.mp hu
    exact ⟨_, List.mem_map_of_mem hf, lists_useOf_mono s hhelpers hattributes hr⟩
  · intro p resolver o o' hhelpers hattributes hdynamic
    rw [Project.reconcile_context, Project.reconcile_context]
    refine (Context.grows_of_lists _ fun u hu r hr => ?_).reconcile_sublist hdynamic.trans p.cwd
    obtain ⟨m, hm, text, htext, hfault, rfl⟩ := Project.mem_uses_iff.mp hu
    exact ⟨_, Project.mem_uses_iff.mpr ⟨m, hm, text, htext, hfault, rfl⟩,
      lists_useOf_mono (p.settings p.table resolver o) hhelpers hattributes hr⟩

/-- The tree of `tone={join(s.card, s[k])}`. -/
def toneTree : Node :=
  .mk { kind := .jsxAttribute }
    [.mk { kind := .propertyIdentifier, text := "tone" } [],
      .mk { kind := .jsxExpression } [.mk { kind := .callExpression }
        [.mk { kind := .identifier, role := .function, text := "join" } [],
          .mk { kind := .arguments, role := .arguments } [memberTree "card",
            .mk { kind := .subscriptExpression }
              [.mk { kind := .identifier, role := .object, text := "s" } [],
                .mk { kind := .identifier, role := .index, text := "k" } []]]]]]

/-- Without the helper `join` and the attribute `tone`, the class `open` nested under `card` is
reported; with both of them the attribute `tone={join(s.card, s[k])}` reaches it. -/
theorem enlarging_suppresses_tone :
    let sheet : Sheet :=
      { definitions := [("card", 1), ("card.open", 2)], nesting := [("card", ["open"])] }
    let s : Settings :=
      { cwd := "/p", sheets := [("/p/a.css", sheet)], helpers := ["cn"], attributes := ["class"] }
    let c : Context := { root := "/p", sheets := s.sheets }
    let files := [("/p/App.jsx", importTree [toneTree])]
    (s.helpers ⊆ ["join", "cn"] ∧ s.attributes ⊆ ["class", "tone"] ∧
        ∀ f ∈ files, f.2.hasFault = false) ∧
      ∃ uses uses', files.mapM (fun f => s.examine f.1 f.2) = .ok uses ∧
        files.mapM (fun f => Settings.examine
          { s with helpers := ["join", "cn"], attributes := ["class", "tone"] } f.1 f.2) = .ok uses' ∧
        (uses'.foldl Context.addUse c).reconcile "/p" {} <+
          (uses.foldl Context.addUse c).reconcile "/p" {} ∧
        (uses.foldl Context.addUse c).Reports "/p" {} "/p/a.css" "card.open" ∧
        (uses'.foldl Context.addUse c).reconcile "/p" {} = [] := by
  intro sheet s c files
  have hhelpers : s.helpers ⊆ ["join", "cn"] := by decide
  have hattributes : s.attributes ⊆ ["class", "tone"] := by decide
  have hfiles : ∀ f ∈ files, f.2.hasFault = false := by decide
  obtain ⟨uses, uses', huses, huses', hsub⟩ :=
    enlarging_suppresses.1 s _ _ hhelpers hattributes c "/p" {} files hfiles
  obtain rfl := Except.ok.inj (huses.symm.trans (mapM_examine s files hfiles))
  obtain rfl := Except.ok.inj (huses'.symm.trans (mapM_examine _ files hfiles))
  refine ⟨⟨hhelpers, hattributes, hfiles⟩, _, _, huses, huses', hsub, ?_, by decide⟩
  exact Context.reports_iff.mpr ⟨sheet, List.mem_cons_self, by decide, by decide⟩

end StyleAudit.Audit
