import Mathlib.Data.List.Forall2
import StyleAudit.Proofs.Markup.Reading

/-!
# Places for wrappers

A wrapper such as a pair of parentheses is of another kind than what it wraps, and some parents look
at the kinds of their children.  `Admits` lists the places where they do not, or where it makes no
difference: a name that is bound to no sheet may be wrapped as the object of an access, and an index
may be wrapped unless it is a literal in an access to a bound name.

Children are exchanged for `Compatible` ones: those that are alike, and those that say the same in a
place for wrappers.  The result is read as before in every respect (`alike_mk`).
-/

namespace StyleAudit.Markup

/-! ### Places -/

/-- The node is a string, a number or a template without substitutions. -/
def Node.IsLiteral (n : Node) : Prop :=
  n.kind = .string ∨ n.kind = .number ∨ isLiteralTemplate n = true

/-- A wrapper of the expression `e` may stand in its place in the node `parent`. -/
def Admits (bindings : Table String) (parent e : Node) : Prop :=
  match parent.kind with
  | .binaryExpression => e.label.role = .left ∨ e.label.role = .right
  | .ternaryExpression =>
    e.label.role = .plain ∨ e.label.role = .consequence ∨ e.label.role = .alternative
  | .array | .arguments | .templateSubstitution | .computedPropertyName | .jsxExpression =>
    e.label.role = .plain
  | .memberExpression => e.label.role = .object ∧ e.sheet? bindings = none
  | .subscriptExpression =>
    (e.label.role = .object ∧ e.sheet? bindings = none) ∨
      e.label.role = .index ∧ ((parent.part? .object).bind (Node.sheet? bindings) = none ∨
        ¬ e.IsLiteral)
  | .pair | .other _ => e.label.role ≠ .key
  | kind => isTransparent kind = true ∧ e.label.role = .plain

section Compatible

variable (bindings : Table String) (helpers attributes : List String)

/-- The second node may stand for the first as a child of `parent`. -/
def Compatible (parent n n' : Node) : Prop :=
  Alike bindings helpers attributes n n' ∨
    SaysAlike bindings helpers attributes n n' ∧ Admits bindings parent n ∧
      isTransparent n'.kind = true

end Compatible

section Mk

variable {bindings : Table String} {helpers attributes : List String} {l : Label}
  {cs cs' : List Node}

theorem Admits.role_ne_key {parent e : Node} (h : Admits bindings parent e) :
    e.label.role ≠ .key := by
  unfold Admits at h
  split at h <;> grind

theorem Compatible.saysAlike {parent n n' : Node}
    (h : Compatible bindings helpers attributes parent n n') :
    SaysAlike bindings helpers attributes n n' := by
  rcases h with h | ⟨h, -⟩
  · exact h.toSaysAlike
  · exact h

/-- The first children that play a part correspond. -/
theorem part?_cases {R : Node → Node → Prop} (hR : ∀ n n', R n n' → n.label.role = n'.label.role)
    (h : List.Forall₂ R cs cs') (role : Role) :
    ((Node.mk l cs).part? role = none ∧ (Node.mk l cs').part? role = none) ∨
      ∃ n n', (Node.mk l cs).part? role = some n ∧ (Node.mk l cs').part? role = some n' ∧
        n.label.role = role ∧ R n n' := by
  simp only [Node.part?, Node.children]
  induction h with
  | nil => exact Or.inl ⟨rfl, rfl⟩
  | @cons n n' _ _ hn _ ih =>
    rw [List.find?_cons, List.find?_cons, ← hR n n' hn]
    split
    · rename_i hrole
      exact Or.inr ⟨n, n', rfl, rfl, beq_iff_eq.mp hrole, hn⟩
    · exact ih

/-! ### Accesses -/

/-- The name that stands as the object of an access. -/
def Node.objectName? (n : Node) : Option String :=
  ((n.part? .object).filter (·.kind == .identifier)).map Node.text

theorem ofNode_of_member {n : Node} (h : n.kind = .memberExpression) :
    Access.ofNode n = ⟨n.objectName?, (n.part? .property).map Node.text, false⟩ := by
  simp only [Access.ofNode, h, BEq.rfl, if_true, Node.objectName?]

theorem ofNode_of_subscript {n : Node} (h : n.kind = .subscriptExpression) :
    Access.ofNode n =
      match n.part? .index with
      | none => ⟨n.objectName?, none, false⟩
      | some i => ⟨n.objectName?, i.indexed.1, i.indexed.2⟩ := by
  have hmember : (n.kind == Kind.memberExpression) = false := by rw [h]; rfl
  simp only [Access.ofNode, hmember, Bool.false_eq_true, if_false, Node.objectName?]
  cases n.part? .index with
  | none => rfl
  | some i =>
    simp only [Node.indexed]
    split_ifs <;> rfl

theorem sheet?_ofNode {n : Node} (h : isAccess n = true) :
    (Access.ofNode n).sheet? bindings = (n.part? .object).bind (Node.sheet? bindings) := by
  have hobject : (Access.ofNode n).object = n.objectName? := by
    rcases Bool.or_eq_true_iff.mp h with h | h
    · rw [ofNode_of_member (beq_iff_eq.mp h)]
    · rw [ofNode_of_subscript (beq_iff_eq.mp h)]
      split <;> rfl
  rw [Access.sheet?, hobject, Node.objectName?]
  cases n.part? .object with
  | none => rfl
  | some o => by_cases hk : o.kind = .identifier <;> simp [Option.filter, Node.sheet?, hk]

theorem indexed_of_not_isLiteral {n : Node} (h : ¬ n.IsLiteral) : n.indexed = (none, true) := by
  simp only [Node.IsLiteral, not_or] at h
  obtain ⟨hstring, hnumber, htemplate⟩ := h
  simp [Node.indexed, hstring, hnumber, htemplate]

theorem not_isLiteral_of_transparent {n : Node} (h : isTransparent n.kind = true) :
    ¬ n.IsLiteral := by
  unfold isTransparent at h
  split at h <;> simp_all [Node.IsLiteral, isLiteralTemplate]

theorem sheet?_of_transparent {n : Node} (h : isTransparent n.kind = true) :
    n.sheet? bindings = none := by
  unfold isTransparent at h
  split at h <;> simp_all [Node.sheet?]

/-- Accesses with compatible children are the same, or neither is to a bound name. -/
theorem access_cases (hk : isAccess (.mk l cs) = true)
    (h : List.Forall₂ (Compatible bindings helpers attributes (.mk l cs)) cs cs') :
    Access.ofNode (.mk l cs) = Access.ofNode (.mk l cs') ∨
      (Access.ofNode (.mk l cs)).sheet? bindings = none ∧
        (Access.ofNode (.mk l cs')).sheet? bindings = none := by
  have hk' : isAccess (.mk l cs') = true := hk
  have hpart := part?_cases (l := l) (fun n n' hn => Compatible.saysAlike hn |>.role) h
  rw [sheet?_ofNode hk, sheet?_ofNode hk']
  rcases hpart .object with
    ⟨ho, ho'⟩ | ⟨o, o', ho, ho', hrole, hobject | ⟨-, hadmits, htransparent⟩⟩
  · exact Or.inr (by simp [ho, ho'])
  · -- the objects look alike, so the property or the index decides
    have hsheet : o'.sheet? bindings = o.sheet? bindings := by
      rw [Node.sheet?, Node.sheet?, hobject.kind, hobject.text]
    by_cases hbound : o.sheet? bindings = none
    · exact Or.inr (by simp [ho, ho', hsheet, hbound])
    left
    have hname : (Node.mk l cs).objectName? = (Node.mk l cs').objectName? := by
      rw [Node.objectName?, Node.objectName?, ho, ho']
      by_cases hi : o'.kind = .identifier <;> simp [Option.filter, hobject.kind, hobject.text, hi]
    rcases Bool.or_eq_true_iff.mp hk with hkind | hkind
    · have hmember : (Node.mk l cs).kind = .memberExpression := beq_iff_eq.mp hkind
      rw [ofNode_of_member hmember, ofNode_of_member (n := .mk l cs') hmember, hname]
      rcases hpart .property with ⟨hp, hp'⟩ | ⟨p, p', hp, hp', hprole, hproperty | ⟨-, hadmits, -⟩⟩
      · rw [hp, hp']
      · rw [hp, hp', Option.map_some, Option.map_some, hproperty.text]
      · simp [Admits, hmember, hprole] at hadmits
    · have hsubscript : (Node.mk l cs).kind = .subscriptExpression := beq_iff_eq.mp hkind
      rw [ofNode_of_subscript hsubscript, ofNode_of_subscript (n := .mk l cs') hsubscript, hname]
      rcases hpart .index with
        ⟨hi, hi'⟩ | ⟨i, i', hi, hi', hirole, hindex | ⟨-, hadmits, htransparent⟩⟩
      · rw [hi, hi']
      · simp only [hi, hi', hindex.indexed]
      · have hliteral : ¬ i.IsLiteral := by
          simpa [Admits, hsubscript, hirole, ho, hbound] using hadmits
        simp only [hi, hi', indexed_of_not_isLiteral hliteral,
          indexed_of_not_isLiteral (not_isLiteral_of_transparent htransparent)]
  · -- only an object that is not bound may be wrapped
    have hnone : o.sheet? bindings = none := by
      rcases Bool.or_eq_true_iff.mp hk with hkind | hkind
      · have hmember : (Node.mk l cs).kind = .memberExpression := beq_iff_eq.mp hkind
        simpa [Admits, hmember, hrole] using hadmits
      · have hsubscript : (Node.mk l cs).kind = .subscriptExpression := beq_iff_eq.mp hkind
        simpa [Admits, hsubscript, hrole] using hadmits
    exact Or.inr (by simp [ho, ho', hnone, sheet?_of_transparent htransparent])

theorem counted_access_congr (hk : isAccess (.mk l cs) = true)
    (h : List.Forall₂ (Compatible bindings helpers attributes (.mk l cs)) cs cs') :
    counted bindings helpers [.access (Access.ofNode (.mk l cs))] =
      counted bindings helpers [.access (Access.ofNode (.mk l cs'))] := by
  rcases access_cases hk h with he | ⟨hnone, hnone'⟩
  · rw [he]
  · simp [counted_singleton, Expr.leaves, Leaf.counts, hnone, hnone']

theorem target?_congr
    (h : List.Forall₂ (Compatible bindings helpers attributes (.mk l cs)) cs cs') :
    (Node.mk l cs).target? bindings = (Node.mk l cs').target? bindings := by
  have hnone : ∀ a : Access, a.sheet? bindings = none → a.target? bindings = none := by
    intro a ha
    rw [Access.sheet?] at ha
    cases hobject : a.object with
    | none => simp [Access.target?, hobject]
    | some object =>
      have hfind : bindings.find? object = none := by simpa [hobject] using ha
      simp [Access.target?, hobject, hfind]
  have hkind : isAccess (.mk l cs') = isAccess (.mk l cs) := rfl
  rw [Node.target?, Node.target?, hkind]
  split
  · rename_i hk
    rcases access_cases hk h with he | ⟨ha, ha'⟩
    · rw [he]
    · rw [hnone _ ha, hnone _ ha']
  · rfl

/-! ### Expressions -/

/-- Without a place for wrappers, the children are alike. -/
theorem forall₂_alike (hno : ∀ e, ¬ Admits bindings (.mk l cs) e)
    (h : List.Forall₂ (Compatible bindings helpers attributes (.mk l cs)) cs cs') :
    List.Forall₂ (Alike bindings helpers attributes) cs cs' :=
  h.imp fun n _ hn => hn.resolve_right fun hn => hno n hn.2.1

theorem operator_congr (hk : l.kind = .binaryExpression)
    (h : List.Forall₂ (Compatible bindings helpers attributes (.mk l cs)) cs cs') :
    ((Node.mk l cs).part? .operator).map Node.text =
      ((Node.mk l cs').part? .operator).map Node.text := by
  have hkind : (Node.mk l cs).kind = .binaryExpression := hk
  rcases part?_cases (l := l) (fun n n' hn => Compatible.saysAlike hn |>.role) h .operator with
    ⟨ho, ho'⟩ | ⟨o, o', ho, ho', hrole, hlike | ⟨-, hadmits, -⟩⟩
  · rw [ho, ho']
  · rw [ho, ho', Option.map_some, Option.map_some, hlike.text]
  · simp [Admits, hkind, hrole] at hadmits

theorem callee_congr (h : List.Forall₂ (Alike bindings helpers attributes) cs cs') :
    (((Node.mk l cs).part? .function).filter (·.kind == .identifier)).map Node.text =
      (((Node.mk l cs').part? .function).filter (·.kind == .identifier)).map Node.text := by
  rcases part?_cases (l := l) (fun _ _ hn => Alike.toSaysAlike hn |>.role) h .function with
    ⟨ho, ho'⟩ | ⟨o, o', ho, ho', -, hlike⟩
  · rw [ho, ho']
  · rw [ho, ho']
    by_cases hi : o'.kind = .identifier <;> simp [Option.filter, hlike.kind, hlike.text, hi]

theorem counted_call_congr (callee : Option String)
    (h : List.Forall₂ (Alike bindings helpers attributes) cs cs') :
    counted bindings helpers [.call callee (argumentsOf cs)] =
      counted bindings helpers [.call callee (argumentsOf cs')] := by
  rw [counted_singleton, counted_singleton]
  cases callee with
  | none => rfl
  | some callee =>
    simp only [Expr.leaves]
    split
    · exact counted_argumentsOf_congr h
    · rfl

/-- A wrapper says what its first expression says. -/
theorem counted_wrapper_congr (h : List.Forall₂ (SaysAlike bindings helpers attributes) cs cs')
    (transparent : Bool) (e : Expr) :
    counted bindings helpers [if transparent then (firstExpression cs).getD e else e] =
      counted bindings helpers [if transparent then (firstExpression cs').getD e else e] := by
  have hfirst := map_firstExpression_congr h
  cases transparent with
  | false => rfl
  | true =>
    cases hf : firstExpression cs with
    | none =>
      cases hf' : firstExpression cs' with
      | none => rfl
      | some _ => rw [hf, hf'] at hfirst; cases hfirst
    | some _ =>
      cases hf' : firstExpression cs' with
      | none => rw [hf, hf'] at hfirst; cases hfirst
      | some _ => rw [hf, hf'] at hfirst; exact Option.some.inj hfirst

theorem own_congr (h : List.Forall₂ (Compatible bindings helpers attributes (.mk l cs)) cs cs') :
    counted bindings helpers [Expr.ofNode (.mk l cs)] =
      counted bindings helpers [Expr.ofNode (.mk l cs')] := by
  have hsays := h.imp fun _ _ hn => Compatible.saysAlike hn
  have hkind : (Node.mk l cs).kind = l.kind := rfl
  have hroles : ∀ role role', counted bindings helpers (ofRole role cs ++ ofRole role' cs) =
      counted bindings helpers (ofRole role cs' ++ ofRole role' cs') := fun role role' => by
    rw [counted_append, counted_ofRole_congr role hsays, counted_ofRole_congr role' hsays,
      ← counted_append]
  cases hk : l.kind with
  | string => simp only [Expr.ofNode, hk]; rfl
  | templateString =>
    have halike := forall₂_alike (fun e => by simp [Admits, hkind, hk, isTransparent]) h
    have hparts := counted_templateParts_congr halike
    rw [counted, counted] at hparts
    simp only [Expr.ofNode, hk, templateText_congr halike, counted_singleton, Expr.leaves,
      List.filter_cons, hparts]
  | binaryExpression =>
    simp only [Expr.ofNode, hk, operator_congr hk h]
    split
    · simp only [counted_singleton, Expr.leaves]
      exact hroles .left .right
    · rfl
  | ternaryExpression =>
    simp only [Expr.ofNode, hk, counted_singleton, Expr.leaves]
    exact hroles .consequence .alternative
  | callExpression =>
    have halike := forall₂_alike (fun e => by simp [Admits, hkind, hk, isTransparent]) h
    simp only [Expr.ofNode, hk, callee_congr halike]
    exact counted_call_congr _ halike
  | memberExpression =>
    simp only [Expr.ofNode, hk]
    exact counted_access_congr (by rw [isAccess, hkind, hk]; rfl) h
  | subscriptExpression =>
    simp only [Expr.ofNode, hk]
    exact counted_access_congr (by rw [isAccess, hkind, hk]; rfl) h
  | array =>
    simp only [Expr.ofNode, hk, counted_singleton, Expr.leaves]
    exact counted_ofExpressions_congr hsays
  | object =>
    have halike := forall₂_alike (fun e => by simp [Admits, hkind, hk, isTransparent]) h
    simp only [Expr.ofNode, hk, counted_singleton, Expr.leaves]
    exact counted_keysOf_congr halike
  | _ =>
    simp only [Expr.ofNode, hk]
    exact counted_wrapper_congr hsays _ _

/-! ### Imports -/

theorem forall₂_isNamed (h : List.Forall₂ (Alike bindings helpers attributes) cs cs') :
    List.Forall₂ (Alike bindings helpers attributes) (cs.filter Node.isNamed)
      (cs'.filter Node.isNamed) := by
  refine List.rel_filter (fun n n' hn => ?_) h
  simp only [Node.isNamed, hn.kind]

theorem findSome?_congr {R : Node → Node → Prop} {f : Node → Option String}
    (hf : ∀ n n', R n n' → f n = f n') (h : List.Forall₂ R cs cs') :
    cs.findSome? f = cs'.findSome? f := by
  induction h with
  | nil => rfl
  | cons hn _ ih => rw [List.findSome?_cons, List.findSome?_cons, hf _ _ hn, ih]

theorem importedName?_eq (n : Node) :
    importedName? n = n.namedChildren.findSome? Node.clauseName? := by
  rw [importedName?]
  induction n.namedChildren with
  | nil => rfl
  | cons c cs ih =>
    rw [List.findSome?_cons, ← ih, List.filter_cons, Node.clauseName?]
    split
    · rw [List.findSome?_cons]
    · rfl

theorem moduleName?_congr
    (h : List.Forall₂ (Compatible bindings helpers attributes (.mk l cs)) cs cs') :
    moduleName? (.mk l cs) = moduleName? (.mk l cs') := by
  have hkind : (Node.mk l cs).kind = l.kind := rfl
  have hkind' : (Node.mk l cs').kind = l.kind := rfl
  rw [moduleName?, moduleName?, hkind, hkind']
  split
  · rfl
  · rename_i hk
    have halike := forall₂_isNamed
      (forall₂_alike (fun e => by simp [Admits, hkind, hk, isTransparent]) h)
    simp only [Node.namedChildren, Node.children]
    generalize cs.filter Node.isNamed = ns, cs'.filter Node.isNamed = ns' at halike ⊢
    induction halike with
    | nil => rfl
    | cons hn _ ih =>
      rw [List.find?_cons, List.find?_cons, hn.kind]
      split
      · exact congrArg some hn.text
      · exact ih
  · rfl

theorem clauseName?_congr
    (h : List.Forall₂ (Compatible bindings helpers attributes (.mk l cs)) cs cs') :
    (Node.mk l cs).clauseName? = (Node.mk l cs').clauseName? := by
  have hkind : (Node.mk l cs).kind = l.kind := rfl
  have hkind' : (Node.mk l cs').kind = l.kind := rfl
  rw [Node.clauseName?, Node.clauseName?, hkind, hkind']
  split
  · rename_i hk
    have halike := forall₂_isNamed
      (forall₂_alike (fun e => by simp [Admits, hkind, beq_iff_eq.mp hk, isTransparent]) h)
    exact findSome?_congr (fun _ _ hn => hn.moduleName) halike
  · rfl

theorem styleImport?_congr
    (h : List.Forall₂ (Compatible bindings helpers attributes (.mk l cs)) cs cs') :
    styleImport? (.mk l cs) = styleImport? (.mk l cs') := by
  have hkind : (Node.mk l cs).kind = l.kind := rfl
  have hkind' : (Node.mk l cs').kind = l.kind := rfl
  rw [styleImport?, styleImport?, hkind, hkind']
  by_cases hk : l.kind = .importStatement
  · have halike := forall₂_alike (fun e => by simp [Admits, hkind, hk, isTransparent]) h
    have hname : importedName? (.mk l cs) = importedName? (.mk l cs') := by
      rw [importedName?_eq, importedName?_eq]
      exact findSome?_congr (fun _ _ hn => hn.clauseName) (forall₂_isNamed halike)
    rcases part?_cases (l := l) (fun _ _ hn => Alike.toSaysAlike hn |>.role) halike .source with
      ⟨hs, hs'⟩ | ⟨s, s', hs, hs', -, hlike⟩
    · rw [hs, hs', hname]
    · simp only [hs, hs', hname, Option.bind_eq_bind, Option.bind_some, hlike.innerText]
  · simp [hk]

/-! ### All nodes -/

theorem filterMap_nodesOfAll_congr {β : Type} {f : Node → Option β}
    (h : List.Forall₂ (fun n n' => n.nodes.filterMap f = n'.nodes.filterMap f) cs cs') :
    (Node.nodesOfAll cs).filterMap f = (Node.nodesOfAll cs').filterMap f := by
  induction h with
  | nil => rfl
  | cons hn _ ih =>
    rw [Node.nodesOfAll, Node.nodesOfAll, List.filterMap_append, List.filterMap_append, hn, ih]

theorem filterMap_nodes_congr {β : Type} {f : Node → Option β}
    (hroot : f (.mk l cs) = f (.mk l cs'))
    (h : List.Forall₂ (fun n n' => n.nodes.filterMap f = n'.nodes.filterMap f) cs cs') :
    (Node.mk l cs).nodes.filterMap f = (Node.mk l cs').nodes.filterMap f := by
  rw [Node.nodes, Node.nodes, List.filterMap_cons, List.filterMap_cons, hroot,
    filterMap_nodesOfAll_congr h]

theorem anyFault_congr (h : List.Forall₂ (fun n n' => n.hasFault = n'.hasFault) cs cs') :
    Node.anyFault cs = Node.anyFault cs' := by
  induction h with
  | nil => rfl
  | cons hn _ ih => rw [Node.anyFault, Node.anyFault, hn, ih]

theorem head?_expressionChildren (n : Node) :
    n.expressionChildren.head?.map Expr.ofNode = innerExpression n := by
  obtain ⟨l, cs⟩ := n
  rw [innerExpression, Node.expressionChildren, Node.namedChildren, Node.children]
  induction cs with
  | nil => rfl
  | cons c cs ih =>
    rw [firstExpression, Node.isExpression, ← ih]
    cases hnamed : c.isNamed <;> cases hcomment : c.kind != .comment <;>
      simp [hnamed, hcomment]

theorem map_valueExpr?_congr {n n' : Node} (h : Alike bindings helpers attributes n n') :
    (valueExpr? n).map (fun e => counted bindings helpers [e]) =
      (valueExpr? n').map fun e => counted bindings helpers [e] := by
  rw [valueExpr?, valueExpr?, head?_expressionChildren, head?_expressionChildren, h.kind,
    h.innerText]
  split
  · rfl
  · exact h.inner
  · rfl

theorem classValue?_congr
    (h : List.Forall₂ (Compatible bindings helpers attributes (.mk l cs)) cs cs') :
    (Node.mk l cs).classValue? bindings helpers attributes =
      (Node.mk l cs').classValue? bindings helpers attributes := by
  have hkind : (Node.mk l cs).kind = l.kind := rfl
  have hkind' : (Node.mk l cs').kind = l.kind := rfl
  rw [Node.classValue?, Node.classValue?, attributeValue?, attributeValue?, hkind, hkind']
  split
  · rename_i hk
    have halike := forall₂_isNamed
      (forall₂_alike (fun e => by simp [Admits, hkind, beq_iff_eq.mp hk, isTransparent]) h)
    simp only [Node.namedChildren, Node.children]
    generalize cs.filter Node.isNamed = ns, cs'.filter Node.isNamed = ns' at halike ⊢
    -- the first named child is the name of the attribute and the second its value
    rcases halike with _ | ⟨hname, _ | ⟨hvalue, hrest⟩⟩
    · rfl
    · rfl
    · simp only [hname.text]
      split
      · exact map_valueExpr?_congr hvalue
      · rfl
  · rfl

theorem indexed_congr
    (h : List.Forall₂ (Compatible bindings helpers attributes (.mk l cs)) cs cs') :
    (Node.mk l cs).indexed = (Node.mk l cs').indexed := by
  have hkind : (Node.mk l cs).kind = l.kind := rfl
  have hkind' : (Node.mk l cs').kind = l.kind := rfl
  by_cases hk : l.kind = .templateString
  · have halike := forall₂_alike (fun e => by simp [Admits, hkind, hk, isTransparent]) h
    have hany : ((Node.mk l cs).namedChildren.any (·.kind == .templateSubstitution)) =
        (Node.mk l cs').namedChildren.any (·.kind == .templateSubstitution) := by
      replace halike := forall₂_isNamed halike
      simp only [Node.namedChildren, Node.children]
      generalize cs.filter Node.isNamed = ns, cs'.filter Node.isNamed = ns' at halike ⊢
      induction halike with
      | nil => rfl
      | cons hn _ ih => rw [List.any_cons, List.any_cons, hn.kind, ih]
    simp only [Node.indexed, isLiteralTemplate, hany, hkind, hkind', hk, Node.children,
      templateText_congr halike]
    rfl
  · simp only [Node.indexed, isLiteralTemplate, hkind, hkind', beq_eq_false_iff_ne.mpr hk]
    rfl

theorem alike_mk (h : List.Forall₂ (Compatible bindings helpers attributes (.mk l cs)) cs cs') :
    Alike bindings helpers attributes (.mk l cs) (.mk l cs') where
  role := rfl
  isExpression := rfl
  own := own_congr h
  targets := filterMap_nodes_congr (target?_congr h) (h.imp fun _ _ hn => hn.saysAlike.targets)
  values := filterMap_nodes_congr (classValue?_congr h) (h.imp fun _ _ hn => hn.saysAlike.values)
  hasFault := by
    rw [Node.hasFault, Node.hasFault, anyFault_congr (h.imp fun _ _ hn => hn.saysAlike.hasFault)]
  label := rfl
  indexed := indexed_congr h
  inner := map_firstExpression_congr (h.imp fun _ _ hn => hn.saysAlike)
  inners := counted_ofExpressions_congr (h.imp fun _ _ hn => hn.saysAlike)
  key := counted_keyIn_congr (h.imp fun n _ hn =>
    ⟨hn.saysAlike.role, fun hkey => hn.resolve_right fun hn => hn.2.1.role_ne_key hkey⟩)
  moduleName := moduleName?_congr h
  clauseName := clauseName?_congr h
  styleImport := styleImport?_congr h

end Mk

end StyleAudit.Markup
