import Mathlib.Logic.Relation
import StyleAudit.Proofs.Audit.Soundness
import StyleAudit.Proofs.Markup.Places

/-!
# Wrappers are invisible

Parentheses, `as T`, `satisfies T`, the mark for values that are not null, and `await` do not change
the value of what they wrap.  A wrapper says what the expression in it says (`Wraps.saysAlike`), so
wrapping an expression in one of the places of `Admits` leaves a tree as it is read
(`WrapStep.alike`), and so does doing it any number of times (`wrappers_invisible`).

A wrapped object of an access is not recognised as the name of a sheet, nor is a wrapped index as a
literal, and a type may name a class itself (`wrapped_name_missed`).
-/

namespace StyleAudit.Markup

/-! ### Wrappers -/

/-- The kinds of wrappers that markup can have. -/
def wrapperKinds : List Kind :=
  [.parenthesizedExpression, .asExpression, .satisfiesExpression, .nonNullExpression,
    .awaitExpression]

section Wraps

variable (bindings : Table String) (attributes : List String)

/-- The tree has no fault, names no class of a bound sheet and has no class attribute. -/
structure Silent (n : Node) : Prop where
  hasFault : n.hasFault = false
  targets : ∀ m : Node, m.Within n → m.target? bindings = none
  values : ∀ m : Node, m.Within n → attributeValue? attributes m = none

/-- The node `w` is a wrapper of the expression `e`.  It plays the part of `e` and has `e` as its
first expression; what else stands in it, such as a type, is silent. -/
structure Wraps (e w : Node) : Prop where
  kind : w.kind ∈ wrapperKinds
  role : w.label.role = e.label.role
  missing : w.label.missing = false
  children : ∃ before after, w.children = before ++ e.withRole .plain :: after ∧
    (∀ n ∈ before, n.isExpression = false) ∧ ∀ n ∈ before ++ after, Silent bindings attributes n

/-- One expression of a tree is wrapped. -/
inductive WrapStep : Node → Node → Prop
  | place {l : Label} {before after : List Node} {e w : Node} : e.isExpression = true →
      Admits bindings (.mk l (before ++ e :: after)) e → Wraps bindings attributes e w →
      WrapStep (.mk l (before ++ e :: after)) (.mk l (before ++ w :: after))
  | child {l : Label} {before after : List Node} {c c' : Node} : WrapStep c c' →
      WrapStep (.mk l (before ++ c :: after)) (.mk l (before ++ c' :: after))

end Wraps

section Step

variable {bindings : Table String} {helpers attributes : List String}

/-! ### What a wrapper says -/

theorem ofNode_withRole (n : Node) (role : Role) :
    Expr.ofNode (n.withRole role) = Expr.ofNode n := by
  obtain ⟨l, cs⟩ := n
  simp only [Node.withRole, Expr.ofNode]
  rfl

theorem hasFault_withRole (n : Node) (role : Role) : (n.withRole role).hasFault = n.hasFault := by
  obtain ⟨l, cs⟩ := n
  simp only [Node.withRole, Node.hasFault]
  rfl

theorem filterMap_nodes_withRole {β : Type} {f : Node → Option β} (n : Node) (role : Role)
    (h : f (n.withRole role) = f n) :
    (n.withRole role).nodes.filterMap f = n.nodes.filterMap f := by
  obtain ⟨l, cs⟩ := n
  simp only [Node.withRole, Node.label, Node.children] at h
  simp only [Node.withRole, Node.label, Node.children, Node.nodes, List.filterMap_cons, h]

theorem isTransparent_of_mem {kind : Kind} (h : kind ∈ wrapperKinds) :
    isTransparent kind = true := by
  simp only [wrapperKinds, List.mem_cons, List.not_mem_nil, or_false] at h
  rcases h with rfl | rfl | rfl | rfl | rfl <;> rfl

theorem ne_of_mem_wrapperKinds {kind : Kind} (h : kind ∈ wrapperKinds) :
    kind ≠ .punctuation ∧ kind ≠ .comment ∧ kind ≠ .memberExpression ∧
      kind ≠ .subscriptExpression ∧ kind ≠ .jsxAttribute ∧ kind ≠ .fault := by
  simp only [wrapperKinds, List.mem_cons, List.not_mem_nil, or_false] at h
  rcases h with rfl | rfl | rfl | rfl | rfl <;> simp

theorem ofNode_of_transparent {l : Label} (h : isTransparent l.kind = true) (cs : List Node) :
    Expr.ofNode (.mk l cs) = (firstExpression cs).getD (.other l.kind.name) := by
  unfold isTransparent at h
  split at h <;> simp_all [Expr.ofNode, isTransparent]

theorem firstExpression_append {before after : List Node} {e : Node}
    (hbefore : ∀ n ∈ before, n.isExpression = false) (he : e.isExpression = true) :
    firstExpression (before ++ e :: after) = some (Expr.ofNode e) := by
  induction before with
  | nil => simp [firstExpression, he]
  | cons n before ih =>
    obtain ⟨hn, hbefore⟩ := List.forall_mem_cons.mp hbefore
    rw [List.cons_append, firstExpression, hn, ih hbefore]
    rfl

theorem nodesOfAll_append (cs ds : List Node) :
    Node.nodesOfAll (cs ++ ds) = Node.nodesOfAll ds ++ Node.nodesOfAll cs := by
  induction cs with
  | nil => simp [Node.nodesOfAll]
  | cons c cs ih => rw [List.cons_append, Node.nodesOfAll, ih, Node.nodesOfAll, List.append_assoc]

theorem filterMap_nodesOfAll_eq {β : Type} {f : Node → Option β} {before after : List Node}
    (h : ∀ n ∈ before ++ after, ∀ m : Node, m.Within n → f m = none) (e : Node) :
    (Node.nodesOfAll (before ++ e :: after)).filterMap f = e.nodes.filterMap f := by
  have hnil : ∀ cs, (∀ n ∈ cs, ∀ m : Node, m.Within n → f m = none) →
      (Node.nodesOfAll cs).filterMap f = [] := by
    intro cs hcs
    rw [List.filterMap_eq_nil_iff]
    intro m hm
    obtain ⟨c, hc, hm⟩ := Node.mem_nodesOfAll.mp hm
    exact hcs c hc m (Node.mem_nodes_iff.mp hm)
  obtain ⟨hbefore, hafter⟩ := List.forall_mem_append.mp h
  rw [nodesOfAll_append, Node.nodesOfAll, List.filterMap_append, List.filterMap_append,
    hnil before hbefore, hnil after hafter, List.nil_append, List.append_nil]

theorem anyFault_append (cs ds : List Node) :
    Node.anyFault (cs ++ ds) = (Node.anyFault cs || Node.anyFault ds) := by
  induction cs with
  | nil => rfl
  | cons c cs ih => rw [List.cons_append, Node.anyFault, ih, Node.anyFault, Bool.or_assoc]

theorem anyFault_eq_false {cs : List Node} (h : ∀ c ∈ cs, c.hasFault = false) :
    Node.anyFault cs = false := by
  induction cs with
  | nil => rfl
  | cons c cs ih =>
    obtain ⟨hc, hcs⟩ := List.forall_mem_cons.mp h
    rw [Node.anyFault, hc, ih hcs]
    rfl

theorem Wraps.saysAlike {e w : Node} (h : Wraps bindings attributes e w)
    (he : e.isExpression = true) : SaysAlike bindings helpers attributes e w := by
  obtain ⟨l, cs⟩ := w
  obtain ⟨before, after, hcs, hbefore, hsilent⟩ := h.children
  have hkind : l.kind ∈ wrapperKinds := h.kind
  have hmissing : l.missing = false := h.missing
  replace hcs : cs = before ++ e.withRole .plain :: after := hcs
  subst hcs
  have hsub : (e.withRole .plain).isExpression = true := he
  obtain ⟨hpunctuation, hcomment, hmember, hsubscript, hattribute, hfault⟩ :=
    ne_of_mem_wrapperKinds hkind
  refine ⟨h.role.symm, ?_, ?_, ?_, ?_, ?_⟩
  · rw [he]
    simp [Node.isExpression, Node.isNamed, Node.kind, Node.label, hpunctuation, hcomment]
  · rw [ofNode_of_transparent (isTransparent_of_mem hkind), firstExpression_append hbefore hsub,
      Option.getD_some, ofNode_withRole]
  · have hnone : Node.target? bindings (.mk l (before ++ e.withRole .plain :: after)) = none := by
      simp [Node.target?, isAccess, Node.kind, Node.label, hmember, hsubscript]
    rw [Node.nodes, List.filterMap_cons_none hnone,
      filterMap_nodesOfAll_eq fun n hn => (hsilent n hn).targets]
    exact (filterMap_nodes_withRole e .plain rfl).symm
  · have hnone : Node.classValue? bindings helpers attributes
        (.mk l (before ++ e.withRole .plain :: after)) = none := by
      simp [Node.classValue?, attributeValue?, Node.kind, Node.label, hattribute]
    rw [Node.nodes, List.filterMap_cons_none hnone, filterMap_nodesOfAll_eq fun n hn m hm => by
      rw [Node.classValue?, (hsilent n hn).values m hm]; rfl]
    exact (filterMap_nodes_withRole e .plain rfl).symm
  · obtain ⟨hb, ha⟩ := List.forall_mem_append.mp fun n hn => (hsilent n hn).hasFault
    rw [Node.hasFault, anyFault_append, Node.anyFault, anyFault_eq_false hb, anyFault_eq_false ha,
      hasFault_withRole, hmissing]
    simp [hfault]

/-- **Wrapping an expression leaves a tree as it is read.** -/
theorem WrapStep.alike {n n' : Node} (h : WrapStep bindings attributes n n') :
    Alike bindings helpers attributes n n' := by
  have hsame : ∀ parent cs, List.Forall₂ (Compatible bindings helpers attributes parent) cs cs :=
    fun parent cs => List.forall₂_same.mpr fun n _ => Or.inl (.refl bindings helpers attributes n)
  induction h with
  | place he hadmits hwraps =>
    refine alike_mk (List.rel_append (hsame _ _) (.cons (Or.inr ⟨hwraps.saysAlike he, hadmits, ?_⟩)
      (hsame _ _)))
    exact isTransparent_of_mem hwraps.kind
  | child _ ih =>
    exact alike_mk (List.rel_append (hsame _ _) (.cons (Or.inl ih) (hsame _ _)))

/-- No import is wrapped at the top level of a file. -/
theorem WrapStep.styleImports_eq {root root' : Node} (h : WrapStep bindings attributes root root')
    (hkind : root.kind = .program) : styleImports root' = styleImports root := by
  cases h with
  | place _ hadmits _ => simp [Admits, hkind, isTransparent] at hadmits
  | @child l before after c c' hstep =>
    have halike : Alike bindings [] attributes c c' := hstep.alike
    have hnamed : c'.isNamed = c.isNamed := by simp only [Node.isNamed, halike.kind]
    simp only [styleImports, Node.namedChildren, Node.children, List.filter_append,
      List.filterMap_append, List.filter_cons, hnamed]
    split
    · rw [List.filterMap_cons, List.filterMap_cons, halike.styleImport]
    · rfl

end Step

/-- **Wrappers are invisible.**  However often expressions of a tree without faults are wrapped, the
use that is read off the tree stays the same. -/
theorem wrappers_invisible (s : Settings) (path : String) {root root' : Node}
    (hkind : root.kind = .program) (hfault : root.hasFault = false)
    (h : Relation.ReflTransGen (WrapStep (s.bindings path root) s.attributes) root root') :
    ∃ use, s.examine path root = .ok use ∧ s.examine path root' = .ok use := by
  have hread : root'.kind = .program ∧ styleImports root' = styleImports root ∧
      SaysAlike (s.bindings path root) s.helpers s.attributes root root' := by
    induction h with
    | refl => exact ⟨hkind, rfl, .refl _ _ _ root⟩
    | tail _ hstep ih =>
      obtain ⟨hkind, himports, hsays⟩ := ih
      have halike : Alike (s.bindings path root) s.helpers s.attributes _ _ := hstep.alike
      exact ⟨halike.kind.symm.trans hkind, (hstep.styleImports_eq hkind).trans himports,
        hsays.trans halike.toSaysAlike⟩
  obtain ⟨-, himports, hsays⟩ := hread
  have hfault' : root'.hasFault = false := hsays.hasFault.symm.trans hfault
  refine ⟨s.useOf path root, ?_, ?_⟩
  · simp only [Settings.examine, hfault, Bool.false_eq_true, if_false]
  · simp only [Settings.examine, hfault', Bool.false_eq_true, if_false,
      Settings.useOf_congr himports hsays]

open StyleAudit.Audit (importTree memberTree elementTree)

/-- The tree of the attribute `className={e}`. -/
def classTree (e : Node) : Node :=
  .mk { kind := .jsxAttribute }
    [.mk { kind := .propertyIdentifier, text := "className" } [],
      .mk { kind := .jsxExpression } [e]]

/-- The tree of `x && e`. -/
def guardedTree (e : Node) : Node :=
  .mk { kind := .binaryExpression }
    [.mk { kind := .identifier, role := .left, text := "x" } [],
      .mk { kind := .other "&&", role := .operator, text := "&&" } [], e.withRole .right]

/-- The tree of `e` in a wrapper, with a type after it. -/
def wrapperTree (kind : Kind) (e : Node) (type : List Node) : Node :=
  .mk { kind, role := e.label.role } (e.withRole .plain :: type)

theorem wraps_wrapperTree {bindings : Table String} {attributes : List String} {kind : Kind}
    (hkind : kind ∈ wrapperKinds) (e : Node) {type : List Node}
    (htype : ∀ n ∈ type, Silent bindings attributes n) (role : Role) :
    Wraps bindings attributes (e.withRole role) ((wrapperTree kind e type).withRole role) where
  kind := hkind
  role := rfl
  missing := rfl
  children := ⟨[], type, rfl, by simp, htype⟩

theorem wrapStep_guardedTree {bindings : Table String} {attributes : List String} {kind : Kind}
    (hkind : kind ∈ wrapperKinds) {e : Node} (he : e.isExpression = true) {type : List Node}
    (htype : ∀ n ∈ type, Silent bindings attributes n) :
    WrapStep bindings attributes (importTree [classTree (guardedTree e)])
      (importTree [classTree (guardedTree (wrapperTree kind e type))]) := by
  have hplace : WrapStep bindings attributes (guardedTree e)
      (guardedTree (wrapperTree kind e type)) :=
    @WrapStep.place bindings attributes _ [_, _] [] _ _ he (Or.inr rfl)
      (wraps_wrapperTree hkind e htype .right)
  exact @WrapStep.child _ _ _ [_] [] _ _
    (@WrapStep.child _ _ _ [_] [] _ _ (@WrapStep.child _ _ _ [] [] _ _ hplace))

/-- How a file is read beside a sheet that defines the class `foo`. -/
def sampleSettings : Settings :=
  { cwd := "/p", sheets := [("/p/a.css", { definitions := [("foo", 1)] })] }

/-- The tree of the type `T`. -/
def typeTree : Node :=
  .mk { kind := .other "type_identifier", text := "T" } []

theorem silent_typeTree (bindings : Table String) : Silent bindings defaultAttributes typeTree := by
  have hself : ∀ m : Node, m.Within typeTree → m = typeTree := by
    intro m hm
    rw [typeTree] at hm
    rcases hm with _ | ⟨hc, _⟩
    · rfl
    · cases hc
  exact ⟨rfl, fun m hm => by rw [hself m hm]; rfl, fun m hm => by rw [hself m hm]; rfl⟩

/-- In `x && s.foo`, the second operand may become `(s.foo) as T`. -/
theorem wrappers_invisible_operand :
    let wrapped := wrapperTree .asExpression
      (wrapperTree .parenthesizedExpression (memberTree "foo") []) [typeTree]
    ∃ use, sampleSettings.examine "/p/App.jsx"
        (importTree [classTree (guardedTree (memberTree "foo"))]) = .ok use ∧
      sampleSettings.examine "/p/App.jsx" (importTree [classTree (guardedTree wrapped)]) =
        .ok use := by
  intro wrapped
  have hinner : ∀ bindings, WrapStep bindings sampleSettings.attributes
      (importTree [classTree (guardedTree (memberTree "foo"))])
      (importTree [classTree (guardedTree
        (wrapperTree .parenthesizedExpression (memberTree "foo") []))]) := fun bindings =>
    wrapStep_guardedTree (by decide) rfl (by simp)
  refine wrappers_invisible sampleSettings "/p/App.jsx" rfl (by decide) ?_
  refine (Relation.ReflTransGen.single (hinner _)).tail ?_
  refine wrapStep_guardedTree (by decide) rfl fun n hn => ?_
  rw [List.mem_singleton.mp hn]
  exact silent_typeTree _

/-- The names that are asked for in a file with a class attribute. -/
def askedBy (e : Node) : Option (List String) :=
  (sampleSettings.examine "/p/App.jsx" (importTree [classTree e])).toOption.map fun use =>
    (use.usageFor "/p/a.css").static

/-- The class `foo` is asked for by `s.foo` and `s['foo']` but not by `(s).foo` and `s[('foo')]`,
and it is asked for by `x as typeof s.foo` but not by `x`. -/
theorem wrapped_name_missed :
    let name := Node.mk { kind := .identifier, role := .object, text := "s" } []
    let index := Node.mk { kind := .string, role := .index, text := "'foo'" } []
    let unrelated := Node.mk { kind := .identifier, text := "x" } []
    askedBy (memberTree "foo") = some ["foo", "FOO"] ∧
      askedBy (.mk { kind := .memberExpression } [wrapperTree .parenthesizedExpression name [],
        .mk { kind := .propertyIdentifier, role := .property, text := "foo" } []]) = some [] ∧
      askedBy (elementTree "foo") = some ["foo", "FOO"] ∧
      askedBy (.mk { kind := .subscriptExpression }
        [name, wrapperTree .parenthesizedExpression index []]) = some [] ∧
      askedBy unrelated = some [] ∧
      askedBy (wrapperTree .asExpression unrelated
        [.mk { kind := .other "type_query" } [memberTree "foo"]]) = some ["foo", "FOO"] := by
  decide

end StyleAudit.Markup
