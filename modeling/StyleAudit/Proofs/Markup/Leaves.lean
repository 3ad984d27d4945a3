import Mathlib.Data.List.Basic
import StyleAudit.Markup.Classify
import StyleAudit.Proofs.Markup.Usage

/-!
# The leaves of a class expression

`classify` walks an expression of any depth, but it acts only where the expression shows a text, an
access or an unknown form.  `Expr.leaves` is the sequence of these places from left to right, and
`Progress.meet` is what one of them does.  The walk is the fold of the second over the first,

    classify helpers e p = (e.leaves helpers).foldl Progress.meet p,

so every later fact about a walk is one step lemma on `meet` and an induction on a list.

An access counts in two ways: it asks for a class of a sheet by its name (`Access.Asks`), or it
reaches into a sheet by a computed name (`Access.Reaches`).  `Progress.addAccess_cases` says all
that an access can do.

Two facts about leaves are needed later.  An expression that is read off a syntax tree has no part of
an unknown form (`isKnown_ofNode`), so no walk over it gets stuck.  With more helpers an expression
shows more leaves, in the same order (`leaves_sublist`).
-/

namespace StyleAudit.Markup

open StyleAudit.Text
open scoped List

/-! ### Leaves -/

/-- What a walk over a class expression looks at. -/
inductive Leaf where
  | literal (value : String)
  | template (text : String)
  | access (a : Access)
  | unknown (form : String)
deriving DecidableEq, Repr

mutual

/-- The leaves of an expression from left to right.  A template shows its text before its parts, and
the arguments of a call show only if its callee is one of `helpers`. -/
def Expr.leaves (helpers : List String) : Expr → List Leaf
  | .literal value => [.literal value]
  | .template text parts => .template text :: leavesOfAll helpers parts
  | .access a => [.access a]
  | .concat operands => leavesOfAll helpers operands
  | .conditional branches => leavesOfAll helpers branches
  | .call (some callee) arguments => if callee ∈ helpers then leavesOfAll helpers arguments else []
  | .call none _ => []
  | .array elements => leavesOfAll helpers elements
  | .object keys => leavesOfAll helpers keys
  | .other _ => []
  | .unknown form => [.unknown form]

def leavesOfAll (helpers : List String) : List Expr → List Leaf
  | [] => []
  | e :: es => e.leaves helpers ++ leavesOfAll helpers es

end

mutual

/-- The expression has no part of an unknown form. -/
def Expr.isKnown : Expr → Bool
  | .literal _ => true
  | .template _ parts => allKnown parts
  | .access _ => true
  | .concat operands => allKnown operands
  | .conditional branches => allKnown branches
  | .call _ arguments => allKnown arguments
  | .array elements => allKnown elements
  | .object keys => allKnown keys
  | .other _ => true
  | .unknown _ => false

def allKnown : List Expr → Bool
  | [] => true
  | e :: es => e.isKnown && allKnown es

end

mutual

theorem unknown_notMem_leaves (helpers : List String) (form : String) :
    ∀ e : Expr, e.isKnown = true → Leaf.unknown form ∉ e.leaves helpers
  | .literal _, _ => by simp [Expr.leaves]
  | .template text parts, h => by
    have ih := unknown_notMem_leavesOfAll helpers form parts h
    simpa [Expr.leaves] using ih
  | .access _, _ => by simp [Expr.leaves]
  | .concat operands, h => unknown_notMem_leavesOfAll helpers form operands h
  | .conditional branches, h => unknown_notMem_leavesOfAll helpers form branches h
  | .call none _, _ => by simp [Expr.leaves]
  | .call (some callee) arguments, h => by
    have ih := unknown_notMem_leavesOfAll helpers form arguments h
    rw [Expr.leaves]
    split
    · exact ih
    · exact List.not_mem_nil
  | .array elements, h => unknown_notMem_leavesOfAll helpers form elements h
  | .object keys, h => unknown_notMem_leavesOfAll helpers form keys h
  | .other _, _ => by simp [Expr.leaves]
  | .unknown _, h => by simp [Expr.isKnown] at h

theorem unknown_notMem_leavesOfAll (helpers : List String) (form : String) :
    ∀ es : List Expr, allKnown es = true → Leaf.unknown form ∉ leavesOfAll helpers es
  | [], _ => List.not_mem_nil
  | e :: es, h => by
    obtain ⟨he, hes⟩ := Bool.and_eq_true_iff.mp h
    rw [leavesOfAll, List.mem_append, not_or]
    exact ⟨unknown_notMem_leaves helpers form e he, unknown_notMem_leavesOfAll helpers form es hes⟩

end

/-! ### Expressions of syntax trees -/

theorem allKnown_append (es fs : List Expr) : allKnown (es ++ fs) = (allKnown es && allKnown fs) := by
  induction es with
  | nil => rfl
  | cons e es ih => rw [List.cons_append, allKnown, allKnown, ih, Bool.and_assoc]

mutual

/-- **Every expression that is read off a syntax tree is of a known form.** -/
theorem isKnown_ofNode : ∀ n : Node, (Expr.ofNode n).isKnown = true
  | .mk l cs => by
    rw [Expr.ofNode]
    split
    · rfl
    · exact allKnown_templateParts cs
    · split
      · simp [Expr.isKnown, allKnown_append, allKnown_ofRole]
      · rfl
    · simp [Expr.isKnown, allKnown_append, allKnown_ofRole]
    · exact allKnown_argumentsOf cs
    · rfl
    · rfl
    · exact allKnown_ofExpressions cs
    · exact allKnown_keysOf cs
    · split
      · cases hf : firstExpression cs with
        | none => rfl
        | some e => exact isKnown_firstExpression cs e hf
      · rfl

theorem allKnown_ofExpressions : ∀ ns : List Node, allKnown (ofExpressions ns) = true
  | [] => rfl
  | n :: ns => by
    rw [ofExpressions]
    split
    · rw [allKnown, isKnown_ofNode n, allKnown_ofExpressions ns]; rfl
    · exact allKnown_ofExpressions ns

theorem isKnown_firstExpression : ∀ (ns : List Node) (e : Expr), firstExpression ns = some e →
    e.isKnown = true
  | [], _, h => by cases h
  | n :: ns, e, h => by
    rw [firstExpression] at h
    split at h
    · cases h
      exact isKnown_ofNode n
    · exact isKnown_firstExpression ns e h

theorem allKnown_ofRole : ∀ (role : Role) (ns : List Node), allKnown (ofRole role ns) = true
  | _, [] => rfl
  | role, n :: ns => by
    rw [ofRole]
    split
    · rw [allKnown, isKnown_ofNode n]; rfl
    · exact allKnown_ofRole role ns

theorem allKnown_templateParts : ∀ ns : List Node, allKnown (templateParts ns) = true
  | [] => rfl
  | n :: ns => by
    rw [templateParts]
    split
    · rw [allKnown_append, allKnown_templateParts ns, allKnown_innerExpression n]; rfl
    · exact allKnown_templateParts ns

theorem allKnown_innerExpression : ∀ n : Node, allKnown (innerExpression n).toList = true
  | .mk _ cs => by
    rw [innerExpression]
    cases hf : firstExpression cs with
    | none => rfl
    | some e => simp [allKnown, isKnown_firstExpression cs e hf]

theorem allKnown_argumentsOf : ∀ ns : List Node, allKnown (argumentsOf ns) = true
  | [] => rfl
  | n :: ns => by
    rw [argumentsOf]
    split
    · split
      · exact allKnown_innerExpressions n
      · rw [allKnown, isKnown_ofNode n]; rfl
    · exact allKnown_argumentsOf ns

theorem allKnown_innerExpressions : ∀ n : Node, allKnown (innerExpressions n) = true
  | .mk _ cs => allKnown_ofExpressions cs

theorem allKnown_keysOf : ∀ ns : List Node, allKnown (keysOf ns) = true
  | [] => rfl
  | n :: ns => by
    rw [keysOf]
    split
    · exact allKnown_keysOf ns
    · split
      · rw [allKnown_append, allKnown_pairKey n, allKnown_keysOf ns]; rfl
      · exact allKnown_keysOf ns

theorem allKnown_pairKey : ∀ n : Node, allKnown (pairKey n) = true
  | .mk _ cs => allKnown_keyIn cs

theorem allKnown_keyIn : ∀ ns : List Node, allKnown (keyIn ns) = true
  | [] => rfl
  | n :: ns => by
    rw [keyIn]
    split
    · split
      · exact allKnown_innerExpression n
      · rfl
      · rfl
      · rfl
    · exact allKnown_keyIn ns

end

/-! ### More helpers -/

mutual

/-- **More helpers show more leaves**, and those that showed before stay in their order. -/
theorem leaves_sublist {helpers helpers' : List String} (h : helpers ⊆ helpers') :
    ∀ e : Expr, e.leaves helpers <+ e.leaves helpers'
  | .literal _ => List.Sublist.refl _
  | .template text parts => (leavesOfAll_sublist h parts).cons_cons _
  | .access _ => List.Sublist.refl _
  | .concat operands => leavesOfAll_sublist h operands
  | .conditional branches => leavesOfAll_sublist h branches
  | .call none _ => List.Sublist.refl _
  | .call (some callee) arguments => by
    rw [Expr.leaves, Expr.leaves]
    by_cases hc : callee ∈ helpers
    · rw [if_pos hc, if_pos (h hc)]
      exact leavesOfAll_sublist h arguments
    · rw [if_neg hc]
      exact List.nil_sublist _
  | .array elements => leavesOfAll_sublist h elements
  | .object keys => leavesOfAll_sublist h keys
  | .other _ => List.Sublist.refl _
  | .unknown _ => List.Sublist.refl _

theorem leavesOfAll_sublist {helpers helpers' : List String} (h : helpers ⊆ helpers') :
    ∀ es : List Expr, leavesOfAll helpers es <+ leavesOfAll helpers' es
  | [] => List.Sublist.refl _
  | e :: es => (leaves_sublist h e).append (leavesOfAll_sublist h es)

end

/-! ### The walk as a fold -/

/-- What a leaf does to a walk. -/
def Progress.meet (p : Progress) : Leaf → Progress
  | .literal value => p.addWords (words value.toList)
  | .template text => p.addWords (templateWords text.toList)
  | .access a => p.addAccess a
  | .unknown form => p.stop form

mutual

/-- **The walk over an expression is the fold over its leaves.** -/
theorem classify_eq_foldl (helpers : List String) : ∀ (e : Expr) (p : Progress),
    classify helpers e p = (e.leaves helpers).foldl Progress.meet p
  | .literal _, _ => by rw [classify, Expr.leaves]; rfl
  | .template text parts, p => by
    rw [classify, Expr.leaves, classifyAll_eq_foldl helpers parts, List.foldl_cons]
    rfl
  | .access _, _ => by rw [classify, Expr.leaves]; rfl
  | .concat operands, p => by rw [classify, Expr.leaves, classifyAll_eq_foldl helpers operands]
  | .conditional branches, p => by rw [classify, Expr.leaves, classifyAll_eq_foldl helpers branches]
  | .call none _, _ => by rw [classify, Expr.leaves]; rfl
  | .call (some callee) arguments, p => by
    rw [classify, Expr.leaves, classifyAll_eq_foldl helpers arguments]
    by_cases h : callee ∈ helpers
    · simp [h]
    · simp [h]
  | .array elements, p => by rw [classify, Expr.leaves, classifyAll_eq_foldl helpers elements]
  | .object keys, p => by rw [classify, Expr.leaves, classifyAll_eq_foldl helpers keys]
  | .other _, _ => by rw [classify, Expr.leaves]; rfl
  | .unknown _, _ => by rw [classify, Expr.leaves]; rfl

theorem classifyAll_eq_foldl (helpers : List String) : ∀ (es : List Expr) (p : Progress),
    classifyAll helpers es p = (leavesOfAll helpers es).foldl Progress.meet p
  | [], _ => by rw [classifyAll, leavesOfAll]; rfl
  | e :: es, p => by
    rw [classifyAll, leavesOfAll, List.foldl_append, classifyAll_eq_foldl helpers es,
      classify_eq_foldl helpers e]

end

/-! ### What an access says -/

namespace Access

/-- The object of the access is a name that is bound to the sheet at `path`. -/
def BoundTo (bindings : Table String) (path : String) (a : Access) : Prop :=
  ∃ object, a.object = some object ∧ bindings.find? object = some path

/-- The access asks by its name for the class `name` of the sheet at `path`. -/
structure Asks (bindings : Table String) (path name : String) (a : Access) : Prop where
  bound : a.BoundTo bindings path
  plain : a.computed = false
  property : a.property = some name
  nonempty : name ≠ ""

/-- The access reaches into the sheet at `path` by a computed name. -/
structure Reaches (bindings : Table String) (path : String) (a : Access) : Prop where
  bound : a.BoundTo bindings path
  computed : a.computed = true

variable {bindings : Table String} {path path' name name' : String} {a : Access}

theorem boundTo_iff : a.BoundTo bindings path ↔ a.object.bind bindings.find? = some path := by
  rw [BoundTo, Option.bind_eq_some_iff]

theorem BoundTo.unique (h : a.BoundTo bindings path) (h' : a.BoundTo bindings path') :
    path' = path := by
  rw [boundTo_iff] at h h'
  exact Option.some.inj (h'.symm.trans h)

theorem Asks.unique (h : a.Asks bindings path name) (h' : a.Asks bindings path' name') :
    path' = path ∧ name' = name :=
  ⟨h.bound.unique h'.bound, Option.some.inj (h'.property.symm.trans h.property)⟩

theorem Reaches.unique (h : a.Reaches bindings path) (h' : a.Reaches bindings path') :
    path' = path :=
  h.bound.unique h'.bound

theorem Asks.not_reaches (h : a.Asks bindings path name) : ¬ a.Reaches bindings path' := by
  intro h'
  have hc := h'.computed
  rw [h.plain] at hc
  exact absurd hc (by decide)

end Access

/-! ### What an access does -/

namespace Progress

variable {p : Progress}

theorem step_of_not_stuck (h : p.stuck = none) (f : Progress → Progress) : p.step f = f p := by
  rw [step, h]; rfl

/-- **All that an access can do to a walk that is not stuck.**  It reaches into a sheet, or it asks
for a class of a sheet, or it does neither and changes nothing. -/
theorem addAccess_cases (h : p.stuck = none) (a : Access) :
    (∃ path, a.Reaches p.use.bindings path ∧ p.addAccess a = p.addComputed path) ∨
    (∃ path name, a.Asks p.use.bindings path name ∧ p.addAccess a = p.addNamed path name) ∨
    ((∀ path, ¬ a.Reaches p.use.bindings path) ∧
      (∀ path name, ¬ a.Asks p.use.bindings path name) ∧ p.addAccess a = p) := by
  rw [addAccess, step_of_not_stuck h]
  cases hb : a.object.bind p.use.bindings.find? with
  | none =>
    have hnb : ∀ path, ¬ a.BoundTo p.use.bindings path := fun path h' => by
      rw [Access.boundTo_iff, hb] at h'; cases h'
    exact Or.inr (Or.inr ⟨fun path h' => hnb path h'.bound,
      fun path _ h' => hnb path h'.bound, rfl⟩)
  | some path =>
    have hbound : a.BoundTo p.use.bindings path := Access.boundTo_iff.mpr hb
    cases hc : a.computed with
    | true => exact Or.inl ⟨path, ⟨hbound, hc⟩, rfl⟩
    | false =>
      have hnr : ∀ path', ¬ a.Reaches p.use.bindings path' := fun _ h' => by
        have := h'.computed; rw [hc] at this; cases this
      cases hp : a.property with
      | none =>
        have hna : ∀ path' name, ¬ a.Asks p.use.bindings path' name := fun _ _ h' => by
          have := h'.property; rw [hp] at this; cases this
        exact Or.inr (Or.inr ⟨hnr, hna, rfl⟩)
      | some name =>
        by_cases hn : name = ""
        · refine Or.inr (Or.inr ⟨hnr, fun _ name' h' => h'.nonempty ?_, ?_⟩)
          · have := h'.property
            rw [hp] at this
            exact (Option.some.inj this).symm.trans hn
          · simp [hn]
        · refine Or.inr (Or.inl ⟨path, name, ⟨hbound, hc, hp, hn⟩, ?_⟩)
          simp [hn]

end Progress

end StyleAudit.Markup
