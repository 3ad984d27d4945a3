import StyleAudit.Proofs.Markup.Reading

/-!
# Only the order of the leaves matters

The walk over a class expression is a fold over its leaves, so two expressions with the same leaves
in the same order are classified in the same way from every state (`leaf_order_decides`).

`Regroups` tells which changes to expressions this allows: a group (a concatenation, the branches of
a conditional, an array, the keys of an object, the arguments of a helper) may be replaced by its
members, a template by its text and its parts, and what shows nothing may be left out, in both
directions, anywhere and any number of times.  These are all such changes: expressions with the same
leaves are regroupings of each other, because each of them is a regrouping of the list of its leaves
(`regroups_iff`).
-/

namespace StyleAudit.Markup

/-! ### Groups -/

/-- A way to put expressions together. -/
inductive Shape where
  | concat
  | conditional
  | array
  | object
  | call (callee : String)
deriving DecidableEq, Repr

namespace Shape

def group : Shape → List Expr → Expr
  | .concat => .concat
  | .conditional => .conditional
  | .array => .array
  | .object => .object
  | .call callee => .call (some callee)

/-- The group shows its members, which the arguments of a call do only if its callee is a helper. -/
def shows (helpers : List String) : Shape → Bool
  | .call callee => helpers.contains callee
  | _ => true

theorem leaves_group {helpers : List String} {shape : Shape} (h : shape.shows helpers = true)
    (es : List Expr) : (shape.group es).leaves helpers = leavesOfAll helpers es := by
  cases shape with
  | call callee =>
    have hmem : callee ∈ helpers := by simpa [shows] using h
    rw [group, Expr.leaves, if_pos hmem]
  | _ => rw [group, Expr.leaves]

end Shape

/-! ### Regrouping -/

/-- The two lists of expressions differ in how their leaves are grouped, and in what shows no
leaves. -/
inductive Regroups (helpers : List String) : List Expr → List Expr → Prop
  | refl (es : List Expr) : Regroups helpers es es
  | symm {es fs : List Expr} : Regroups helpers es fs → Regroups helpers fs es
  | trans {es fs gs : List Expr} : Regroups helpers es fs → Regroups helpers fs gs →
      Regroups helpers es gs
  | append {es es' fs fs' : List Expr} : Regroups helpers es es' → Regroups helpers fs fs' →
      Regroups helpers (es ++ fs) (es' ++ fs')
  /-- A group is replaced by its members. -/
  | dissolve {shape : Shape} : shape.shows helpers = true → (es : List Expr) →
      Regroups helpers [shape.group es] es
  /-- A template is replaced by its text and its parts. -/
  | spread (text : String) (parts : List Expr) :
      Regroups helpers [.template text parts] (.template text [] :: parts)
  /-- An expression that says nothing is left out. -/
  | drop (kind : String) : Regroups helpers [.other kind] []
  /-- A call of what is no helper is left out. -/
  | ignore {callee : Option String} : (∀ name ∈ callee, name ∉ helpers) → (arguments : List Expr) →
      Regroups helpers [.call callee arguments] []

variable {helpers : List String}

theorem leaves_call_of_notMem {callee : Option String} (h : ∀ name ∈ callee, name ∉ helpers)
    (arguments : List Expr) : (Expr.call callee arguments).leaves helpers = [] := by
  cases callee with
  | none => rw [Expr.leaves]
  | some name => rw [Expr.leaves, if_neg (h name rfl)]

/-- **Regrouping keeps the leaves and their order.** -/
theorem Regroups.leaves_eq {es fs : List Expr} (h : Regroups helpers es fs) :
    leavesOfAll helpers es = leavesOfAll helpers fs := by
  induction h with
  | refl es => rfl
  | symm _ ih => exact ih.symm
  | trans _ _ ih ih' => exact ih.trans ih'
  | append _ _ ih ih' => rw [leavesOfAll_append, leavesOfAll_append, ih, ih']
  | dissolve hshape es => rw [leavesOfAll_singleton, Shape.leaves_group hshape]
  | spread text parts =>
    rw [leavesOfAll_singleton, leavesOfAll, Expr.leaves, Expr.leaves, leavesOfAll]
    rfl
  | drop kind => rw [leavesOfAll_singleton, Expr.leaves, leavesOfAll]
  | ignore hcallee arguments =>
    rw [leavesOfAll_singleton, leaves_call_of_notMem hcallee, leavesOfAll]

/-- A leaf as an expression. -/
def Leaf.expr : Leaf → Expr
  | .literal value => .literal value
  | .template text => .template text []
  | .access a => .access a
  | .unknown form => .unknown form

/-- A group whose members can be regrouped can be regrouped. -/
theorem Regroups.of_group (shape : Shape) (hshape : shape.shows helpers = true) {es fs : List Expr}
    (h : Regroups helpers es fs) : Regroups helpers [shape.group es] fs :=
  (Regroups.dissolve hshape es).trans h

mutual

/-- An expression can be regrouped to the list of its leaves. -/
theorem regroups_leaves : ∀ e : Expr, Regroups helpers [e] ((e.leaves helpers).map Leaf.expr)
  | .literal _ => .refl _
  | .template text parts => by
    rw [Expr.leaves]
    exact (Regroups.spread text parts).trans
      ((Regroups.refl [.template text []]).append (regroups_leavesOfAll parts))
  | .access _ => .refl _
  | .concat operands => .of_group .concat rfl (regroups_leavesOfAll operands)
  | .conditional branches => .of_group .conditional rfl (regroups_leavesOfAll branches)
  | .call none arguments => .ignore (fun _ h => by cases h) arguments
  | .call (some callee) arguments => by
    by_cases hmem : callee ∈ helpers
    · rw [Expr.leaves, if_pos hmem]
      have hshows : (Shape.call callee).shows helpers = true := by simpa [Shape.shows] using hmem
      exact .of_group _ hshows (regroups_leavesOfAll arguments)
    · rw [Expr.leaves, if_neg hmem]
      refine .ignore (fun name h => ?_) arguments
      rwa [← Option.mem_some_iff.mp h]
  | .array elements => .of_group .array rfl (regroups_leavesOfAll elements)
  | .object keys => .of_group .object rfl (regroups_leavesOfAll keys)
  | .other kind => .drop kind
  | .unknown _ => .refl _

theorem regroups_leavesOfAll : ∀ es : List Expr,
    Regroups helpers es ((leavesOfAll helpers es).map Leaf.expr)
  | [] => .refl _
  | e :: es => by
    rw [leavesOfAll, List.map_append]
    exact (regroups_leaves e).append (regroups_leavesOfAll es)

end

/-- **Expressions are regroupings of each other iff they have the same leaves in the same order.** -/
theorem regroups_iff {es fs : List Expr} :
    Regroups helpers es fs ↔ leavesOfAll helpers es = leavesOfAll helpers fs := by
  constructor
  · exact Regroups.leaves_eq
  · intro h
    have hes : Regroups helpers es ((leavesOfAll helpers es).map Leaf.expr) :=
      regroups_leavesOfAll es
    rw [h] at hes
    exact hes.trans (regroups_leavesOfAll fs).symm

/-! ### The walk -/

theorem classify_of_leaves_eq {e e' : Expr} (h : e.leaves helpers = e'.leaves helpers)
    (p : Progress) : classify helpers e p = classify helpers e' p := by
  rw [classify_eq_foldl, classify_eq_foldl, h]

/-- **Only the order of the leaves matters.**  Two expressions with the same leaves in the same order
lead from every state of a walk to the same state, and so they say the same as class attributes.
This holds of every regrouping, and two expressions with the same leaves are regroupings. -/
theorem leaf_order_decides (helpers : List String) (e e' : Expr) :
    (Regroups helpers [e] [e'] ↔ e.leaves helpers = e'.leaves helpers) ∧
    (e.leaves helpers = e'.leaves helpers →
      (∀ p, classify helpers e p = classify helpers e' p) ∧
      ∀ sheets use, classifyAttribute sheets helpers use e =
        classifyAttribute sheets helpers use e') := by
  refine ⟨?_, fun h => ⟨classify_of_leaves_eq h, fun sheets use => ?_⟩⟩
  · rw [regroups_iff, leavesOfAll_singleton, leavesOfAll_singleton]
  · rw [classifyAttribute, classifyAttribute, classify_of_leaves_eq h]

/-- The leaves of `cn(s.a + (s.b + s[k]), 'x')` come in the same order in
`[[s.a, s.b], y ? s[k] : 'x', f(s.c)]`. -/
theorem leaf_order_decides_card :
    let a : Expr := .access ⟨some "s", some "a", false⟩
    let b : Expr := .access ⟨some "s", some "b", false⟩
    let computed : Expr := .access ⟨some "s", none, true⟩
    let e : Expr := .call (some "cn") [.concat [a, .concat [b, computed]], .literal "x"]
    let e' : Expr := .array [.array [a, b], .conditional [computed, .literal "x"],
      .call (some "f") [.access ⟨some "s", some "c", false⟩]]
    let p : Progress := { use := { bindings := [("s", "a.css")] } }
    e.leaves ["cn"] = e'.leaves ["cn"] ∧ classify ["cn"] e p = classify ["cn"] e' p ∧
      (classify ["cn"] e p).scan.candidates = [("a.css", ["a", "A", "b", "B"])] := by
  intro a b computed e e' p
  have h : e.leaves ["cn"] = e'.leaves ["cn"] := by decide
  exact ⟨h, ((leaf_order_decides ["cn"] e e').2 h).1 p, by decide⟩

end StyleAudit.Markup
