import Mathlib.Data.List.Basic
import StyleAudit.Proofs.Audit.Shrinking
import StyleAudit.Proofs.Markup.Remark

/-!
# Uses add up in any order

A context is filled by many writers: every class attribute of a file writes into the use of the
file, and the uses of all files are merged into the context.  Inside one attribute the order matters,
since a computed access looks back at what came before it.  Between attributes and between files it
does not: what each of them adds depends on nothing that the others have written (`says_addUse`,
`Settings.says_visit`), so after all of them the remarks are those of the beginning and those of each
writer.

A context that makes more remarks has fewer violations (`grows_of_remarks`), and one that makes the same
remarks has the same (`reconcile_eq_of_remarks`).
-/

namespace StyleAudit.Audit

open StyleAudit.Markup (Usage MarkupUse Remark Node Settings attributeValues)
open StyleAudit.Style (Sheet)

namespace Context

/-- The context makes the remark. -/
def Says (c : Context) (r : Remark) : Prop :=
  r.HoldsIn c.usages c.literals

/-! ### Adding files -/

theorem mem_keys_foldl_alter (added t : Table Usage) (path : String) :
    path ∈ Table.keys (added.foldl (fun t (p, u) => t.alter p {} (·.merge u)) t) ↔
      path ∈ t.keys ∨ path ∈ added.keys := by
  induction added generalizing t with
  | nil => simp [Table.keys]
  | cons e added ih =>
    rw [List.foldl_cons, ih, Table.mem_keys_alter, or_assoc]
    simp only [Table.keys, List.map_cons, List.mem_cons]

/-- **A file adds the remarks of its entries**, whatever the context says already. -/
theorem says_addUse {c : Context} {u : MarkupUse} {r : Remark} :
    (c.addUse u).Says r ↔ c.Says r ∨ u.Lists r := by
  cases r with
  | asked path name => exact mem_static_addUse
  | reached path parent => exact mem_dynamicParents_addUse
  | touched path => exact mem_keys_foldl_alter u.usages c.usages path
  | spelt name => exact mem_addNames

theorem says_foldl_addUse (c : Context) (us : List MarkupUse) (r : Remark) :
    (us.foldl addUse c).Says r ↔ c.Says r ∨ ∃ u ∈ us, u.Lists r := by
  induction us generalizing c with
  | nil => simp
  | cons u us ih =>
    rw [List.foldl_cons, ih, says_addUse, or_assoc]
    simp only [List.mem_cons, exists_eq_or_imp]

/-! ### Remarks and violations -/

section Compared

variable {c d : Context}

theorem grows_of_remarks (hroot : d.root = c.root) (hsheets : d.sheets = c.sheets)
    (h : ∀ r, c.Says r → d.Says r) : c.Grows d where
  root := hroot
  sheets := hsheets
  usage path := ⟨fun x hx => h (.asked path x) hx, fun v hv => h (.reached path v) hv⟩
  literals x hx := h (.spelt x) hx

/-- **Contexts with the same sheets that make the same remarks have the same violations.** -/
theorem reconcile_eq_of_remarks (hroot : d.root = c.root) (hsheets : d.sheets = c.sheets)
    (h : ∀ r, c.Says r ↔ d.Says r) (cwd : String) (o : Options) :
    c.reconcile cwd o = d.reconcile cwd o := by
  have hcd := grows_of_remarks hroot hsheets fun r => (h r).mp
  have hdc := grows_of_remarks hroot.symm hsheets.symm fun r => (h r).mpr
  exact (hdc.reconcile_sublist id cwd).antisymm (hcd.reconcile_sublist id cwd)

end Compared

end Context

/-- **Neither order nor repetition matters.**  Two lists with the same uses, in whatever order and
however often each of them occurs, fill a context with the same remarks and lead to the same
violations.  Two lists with the same values of class attributes, visited one after the other with one
shared use, leave a use with the same bindings and the same remarks; so a file may visit its class
attributes in any order and as often as it likes. -/
theorem order_and_repetition_irrelevant :
    (∀ (c : Context) (us vs : List MarkupUse), (∀ u, u ∈ us ↔ u ∈ vs) →
      (∀ r, (us.foldl Context.addUse c).Says r ↔ (vs.foldl Context.addUse c).Says r) ∧
      ∀ cwd o, (us.foldl Context.addUse c).reconcile cwd o =
        (vs.foldl Context.addUse c).reconcile cwd o) ∧
    (∀ (s : Settings) (use : MarkupUse) (values values' : List Node),
      (∀ n, n ∈ values ↔ n ∈ values') →
      (s.visit use values).bindings = (s.visit use values').bindings ∧
      ∀ r, (s.visit use values).Says r ↔ (s.visit use values').Says r) ∧
    ∀ (s : Settings) (path : String) (root : Node) (values : List Node),
      (∀ n, n ∈ values ↔ n ∈ attributeValues s.attributes root) →
      (s.visit (s.accessed path root) values).bindings = (s.useOf path root).bindings ∧
      ∀ r, (s.visit (s.accessed path root) values).Says r ↔ (s.useOf path root).Says r := by
  have hvisit : ∀ (s : Settings) (use : MarkupUse) (values values' : List Node),
      (∀ n, n ∈ values ↔ n ∈ values') →
      (s.visit use values).bindings = (s.visit use values').bindings ∧
      ∀ r, (s.visit use values).Says r ↔ (s.visit use values').Says r := by
    intro s use values values' h
    refine ⟨by rw [Settings.bindings_visit, Settings.bindings_visit], fun r => ?_⟩
    rw [Settings.says_visit, Settings.says_visit]
    simp only [h]
  refine ⟨fun c us vs h => ?_, hvisit, fun s path root values h => ?_⟩
  · have hsame : ∀ r, (us.foldl Context.addUse c).Says r ↔ (vs.foldl Context.addUse c).Says r := by
      intro r
      rw [Context.says_foldl_addUse, Context.says_foldl_addUse]
      simp only [h]
    have hus := Context.grows_foldl_addUse c us
    have hvs := Context.grows_foldl_addUse c vs
    exact ⟨hsame, Context.reconcile_eq_of_remarks (hvs.root.trans hus.root.symm)
      (hvs.sheets.trans hus.sheets.symm) hsame⟩
  · rw [Settings.useOf_eq_visit]
    exact hvisit s _ _ _ h

/-- The uses `u, v` and `v, u, v` of two sheets lead to the same violations, and a file that visits
`class="wide"` and `class={s.card}` says the same if it visits them the other way round and the
second one twice. -/
theorem order_and_repetition_irrelevant_cards :
    let sheet : Sheet :=
      { definitions := [("card", 1), ("card.open", 2), ("lost", 3)], nesting := [("card", ["open"])] }
    let c : Context := { root := "/p", sheets := [("/p/a.css", sheet)] }
    let u : MarkupUse := { usages := [("/p/a.css", ⟨["card"], ["card"]⟩)], literals := ["wide"] }
    let v : MarkupUse := { usages := [("/p/b.css", ⟨["tip"], []⟩), ("/p/a.css", ⟨["open"], []⟩)] }
    let s : Settings := { cwd := "/p", sheets := c.sheets }
    let use : MarkupUse := { bindings := [("s", "/p/a.css")] }
    let wide : Node := .mk { kind := .string, text := "'wide'" } []
    let card : Node := .mk { kind := .jsxExpression } [.mk { kind := .memberExpression }
      [.mk { kind := .identifier, role := .object, text := "s" } [],
        .mk { kind := .propertyIdentifier, role := .property, text := "card" } []]]
    ((∀ w, w ∈ [u, v] ↔ w ∈ [v, u, v]) ∧ (∀ n, n ∈ [wide, card] ↔ n ∈ [card, wide, card])) ∧
      ([u, v].foldl Context.addUse c).reconcile "/p" {} =
        ([v, u, v].foldl Context.addUse c).reconcile "/p" {} ∧
      ∀ r, (s.visit use [wide, card]).Says r ↔ (s.visit use [card, wide, card]).Says r := by
  intro sheet c u v s use wide card
  have hrepeat : ∀ {α : Type} (a b x : α), x ∈ [a, b] ↔ x ∈ [b, a, b] := by
    intro α a b x
    simp only [List.mem_cons, List.not_mem_nil, or_false]
    tauto
  have huses := hrepeat u v
  have hvalues := hrepeat wide card
  obtain ⟨hmerge, hvisit, _⟩ := order_and_repetition_irrelevant
  exact ⟨⟨huses, hvalues⟩, (hmerge c _ _ huses).2 "/p" {}, (hvisit s use _ _ hvalues).2⟩

end StyleAudit.Audit
