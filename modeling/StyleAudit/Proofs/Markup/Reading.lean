import Mathlib.Data.List.Forall2
import StyleAudit.Markup.Extract
import StyleAudit.Proofs.Markup.Remark
import StyleAudit.Proofs.Markup.Tree

/-!
# What the analysis reads off a tree

The use of a file is read off its tree in several ways: parents look at the labels of their
children, at what these say about classes, and at what stands inside them, and the search for
accesses and class attributes goes through all nodes.  All of them are compositional.  Two nodes
are `Alike` if no parent can tell them apart, and a node is like another with the same label if
their children can be exchanged under it (`alike_mk`).

An access to a name that is bound to no sheet says nothing, so expressions are compared by their
leaves without such accesses (`counted`, `classifyAttribute_congr`).
-/

namespace StyleAudit.Markup

open StyleAudit.Style (Sheet)

/-! ### Leaves that count -/

/-- The sheet that the object of an access is bound to. -/
def Access.sheet? (bindings : Table String) (a : Access) : Option String :=
  a.object.bind bindings.find?

/-- Every leaf counts but an access to a name that is not bound. -/
def Leaf.counts (bindings : Table String) : Leaf → Bool
  | .access a => (a.sheet? bindings).isSome
  | _ => true

theorem mem_leavesOfAll {helpers : List String} {l : Leaf} {es : List Expr} :
    l ∈ leavesOfAll helpers es ↔ ∃ e ∈ es, l ∈ e.leaves helpers := by
  induction es with
  | nil => simp [leavesOfAll]
  | cons e es ih => simp [leavesOfAll, ih]

section Counted

variable (bindings : Table String) (helpers : List String)

/-- The leaves of expressions that count. -/
def counted (es : List Expr) : List Leaf :=
  (leavesOfAll helpers es).filter (Leaf.counts bindings)

theorem leavesOfAll_append (es fs : List Expr) :
    leavesOfAll helpers (es ++ fs) = leavesOfAll helpers es ++ leavesOfAll helpers fs := by
  induction es with
  | nil => rfl
  | cons e es ih => rw [List.cons_append, leavesOfAll, leavesOfAll, ih, List.append_assoc]

theorem leavesOfAll_singleton (e : Expr) : leavesOfAll helpers [e] = e.leaves helpers := by
  rw [leavesOfAll, leavesOfAll, List.append_nil]

theorem counted_append (es fs : List Expr) :
    counted bindings helpers (es ++ fs) =
      counted bindings helpers es ++ counted bindings helpers fs := by
  rw [counted, leavesOfAll_append, List.filter_append, counted, counted]

theorem counted_cons (e : Expr) (es : List Expr) :
    counted bindings helpers (e :: es) =
      counted bindings helpers [e] ++ counted bindings helpers es :=
  counted_append bindings helpers [e] es

theorem counted_singleton (e : Expr) :
    counted bindings helpers [e] = (e.leaves helpers).filter (Leaf.counts bindings) := by
  rw [counted, leavesOfAll_singleton]

end Counted

/-! ### What counts decides -/

theorem Progress.addAccess_of_sheet?_eq_none {p : Progress} {a : Access}
    (h : a.sheet? p.use.bindings = none) : p.addAccess a = p := by
  rw [Access.sheet?] at h
  simp only [addAccess, step, h]
  exact ite_self p

theorem Progress.bindings_meet (p : Progress) (l : Leaf) :
    (p.meet l).use.bindings = p.use.bindings := by
  cases h : p.stuck with
  | some form => cases l <;> simp [meet, addWords, addAccess, stop, step, h]
  | none =>
    cases l with
    | access a =>
      rcases addAccess_cases h a with ⟨path, -, he⟩ | ⟨path, name, -, he⟩ | ⟨-, -, he⟩
      · rw [meet, he]; rfl
      · rw [meet, he]; rfl
      · rw [meet, he]
    | _ => simp [meet, addWords, stop, step, h, MarkupUse.addLiterals]

/-- A walk goes the same way over the leaves that count. -/
theorem foldl_meet_filter (leaves : List Leaf) (p : Progress) :
    (leaves.filter (Leaf.counts p.use.bindings)).foldl Progress.meet p =
      leaves.foldl Progress.meet p := by
  induction leaves generalizing p with
  | nil => rfl
  | cons l leaves ih =>
    have hrest := ih (p.meet l)
    rw [p.bindings_meet l] at hrest
    rw [List.foldl_cons, ← hrest, List.filter_cons]
    split
    · rw [List.foldl_cons]
    · rename_i hl
      cases l with
      | access a =>
        have hnone : a.sheet? p.use.bindings = none := by simpa [Leaf.counts] using hl
        rw [Progress.meet, Progress.addAccess_of_sheet?_eq_none hnone]
      | _ => simp [Leaf.counts] at hl

/-- Expressions with the same leaves that count are classified in the same way. -/
theorem classifyAttribute_congr {bindings : Table String} {helpers : List String} {e e' : Expr}
    (h : counted bindings helpers [e] = counted bindings helpers [e']) (sheets : Table Sheet)
    {use : MarkupUse} (huse : use.bindings = bindings) :
    classifyAttribute sheets helpers use e = classifyAttribute sheets helpers use e' := by
  subst huse
  rw [counted_singleton, counted_singleton] at h
  have hwalk : classify helpers e { use } = classify helpers e' { use } := by
    rw [classify_eq_foldl, classify_eq_foldl, ← foldl_meet_filter (e.leaves helpers), h,
      foldl_meet_filter]
  simp only [classifyAttribute, hwalk]

theorem bindings_foldl_meet (leaves : List Leaf) (p : Progress) :
    (leaves.foldl Progress.meet p).use.bindings = p.use.bindings := by
  induction leaves generalizing p with
  | nil => rfl
  | cons l leaves ih => rw [List.foldl_cons, ih, p.bindings_meet]

theorem foldl_classifyAttribute_congr {bindings : Table String} {helpers : List String}
    {es es' : List Expr}
    (h : es.map (fun e => counted bindings helpers [e]) =
      es'.map fun e => counted bindings helpers [e])
    (sheets : Table Sheet) {use : MarkupUse} (huse : use.bindings = bindings) :
    es.foldl (classifyAttribute sheets helpers) use =
      es'.foldl (classifyAttribute sheets helpers) use := by
  induction es generalizing es' use with
  | nil =>
    rw [List.map_eq_nil_iff.mp h.symm]
  | cons e es ih =>
    cases es' with
    | nil => cases h
    | cons e' es' =>
      obtain ⟨he, hes⟩ := List.cons.inj h
      rw [List.foldl_cons, List.foldl_cons, classifyAttribute_congr he sheets huse]
      refine ih hes ?_
      rw [classifyAttribute, bindings_settleDynamic, classify_eq_foldl, bindings_foldl_meet, huse]

/-! ### What parents read of their children -/

/-- The sheet that a name is bound to. -/
def Node.sheet? (bindings : Table String) (n : Node) : Option String :=
  if n.kind = .identifier then bindings.find? n.text else none

/-- What an index gives: a name, and whether it is computed. -/
def Node.indexed (n : Node) : Option String × Bool :=
  if n.kind == .string then (some n.innerText, false)
  else if isLiteralTemplate n then (some (String.ofList (templateText n.children)), false)
  else if n.kind == .number then (none, false)
  else (none, true)

/-- The name that an import clause binds to the whole module. -/
def Node.clauseName? (n : Node) : Option String :=
  if n.kind == .importClause then n.namedChildren.findSome? moduleName? else none

section Reading

variable (bindings : Table String) (helpers attributes : List String)

/-- The sheet and the class that a node names, if it is an access to a bound name. -/
def Node.target? (n : Node) : Option (String × String) :=
  if isAccess n then (Access.ofNode n).target? bindings else none

/-- What a node says as a class attribute. -/
def Node.classValue? (n : Node) : Option (List Leaf) :=
  ((attributeValue? attributes n).bind valueExpr?).map fun e => counted bindings helpers [e]

/-- The two nodes say the same about classes, and so do the nodes below them. -/
structure SaysAlike (n n' : Node) : Prop where
  role : n.label.role = n'.label.role
  isExpression : n.isExpression = n'.isExpression
  own : counted bindings helpers [Expr.ofNode n] = counted bindings helpers [Expr.ofNode n']
  targets : n.nodes.filterMap (Node.target? bindings) = n'.nodes.filterMap (Node.target? bindings)
  values : n.nodes.filterMap (Node.classValue? bindings helpers attributes) =
    n'.nodes.filterMap (Node.classValue? bindings helpers attributes)
  hasFault : n.hasFault = n'.hasFault

/-- No parent can tell the two nodes apart. -/
structure Alike (n n' : Node) : Prop extends SaysAlike bindings helpers attributes n n' where
  label : n.label = n'.label
  indexed : n.indexed = n'.indexed
  inner : (innerExpression n).map (fun e => counted bindings helpers [e]) =
    (innerExpression n').map fun e => counted bindings helpers [e]
  inners : counted bindings helpers (innerExpressions n) =
    counted bindings helpers (innerExpressions n')
  key : counted bindings helpers (pairKey n) = counted bindings helpers (pairKey n')
  moduleName : moduleName? n = moduleName? n'
  clauseName : n.clauseName? = n'.clauseName?
  styleImport : styleImport? n = styleImport? n'

theorem SaysAlike.refl (n : Node) : SaysAlike bindings helpers attributes n n :=
  ⟨rfl, rfl, rfl, rfl, rfl, rfl⟩

theorem Alike.refl (n : Node) : Alike bindings helpers attributes n n :=
  ⟨.refl bindings helpers attributes n, rfl, rfl, rfl, rfl, rfl, rfl, rfl, rfl⟩

theorem SaysAlike.trans {bindings : Table String} {helpers attributes : List String}
    {n n' n'' : Node} (h : SaysAlike bindings helpers attributes n n')
    (h' : SaysAlike bindings helpers attributes n' n'') :
    SaysAlike bindings helpers attributes n n'' :=
  ⟨h.role.trans h'.role, h.isExpression.trans h'.isExpression, h.own.trans h'.own,
    h.targets.trans h'.targets, h.values.trans h'.values, h.hasFault.trans h'.hasFault⟩

end Reading

/-- The use of a file depends on its imports and on what its tree says. -/
theorem Settings.useOf_congr {s : Settings} {path : String} {root root' : Node}
    (himports : styleImports root' = styleImports root)
    (h : SaysAlike (s.bindings path root) s.helpers s.attributes root root') :
    s.useOf path root' = s.useOf path root := by
  have hbindings : s.bindings path root' = s.bindings path root := by
    rw [bindings, bindings, himports]
  have haccesses : ∀ t : Node, addAccesses { bindings := s.bindings path root } t =
      (t.nodes.filterMap (Node.target? (s.bindings path root))).foldl
        (fun use target => use.addStatic target.1 (namingVariants target.2))
        { bindings := s.bindings path root } := by
    intro t
    rw [addAccesses, List.filterMap_filter]
    rfl
  have hvalues : ∀ t : Node,
      ((attributeValues s.attributes t).filterMap valueExpr?).map
        (fun e => counted (s.bindings path root) s.helpers [e]) =
      t.nodes.filterMap (Node.classValue? (s.bindings path root) s.helpers s.attributes) := by
    intro t
    rw [attributeValues, List.filterMap_filterMap, List.map_filterMap]
    rfl
  simp only [useOf, hbindings, haccesses, h.targets]
  refine foldl_classifyAttribute_congr
    ((hvalues root').trans (h.values.symm.trans (hvalues root).symm)) s.sheets ?_
  split
  · rfl
  · exact bindings_foldl_addStatic _ _

section Children

variable {bindings : Table String} {helpers attributes : List String} {cs cs' : List Node}

theorem Alike.kind {n n' : Node} (h : Alike bindings helpers attributes n n') : n.kind = n'.kind :=
  congrArg Label.kind h.label

theorem Alike.text {n n' : Node} (h : Alike bindings helpers attributes n n') : n.text = n'.text :=
  congrArg Label.text h.label

theorem Alike.innerText {n n' : Node} (h : Alike bindings helpers attributes n n') :
    n.innerText = n'.innerText := by
  rw [Node.innerText, Node.innerText, h.text]

/-! ### Children that say the same -/

theorem counted_ofExpressions_congr
    (h : List.Forall₂ (SaysAlike bindings helpers attributes) cs cs') :
    counted bindings helpers (ofExpressions cs) = counted bindings helpers (ofExpressions cs') := by
  induction h with
  | nil => rfl
  | cons hn _ ih =>
    rw [ofExpressions, ofExpressions, hn.isExpression]
    split
    · rw [counted_cons, hn.own, ih, ← counted_cons]
    · exact ih

theorem map_firstExpression_congr
    (h : List.Forall₂ (SaysAlike bindings helpers attributes) cs cs') :
    (firstExpression cs).map (fun e => counted bindings helpers [e]) =
      (firstExpression cs').map fun e => counted bindings helpers [e] := by
  induction h with
  | nil => rfl
  | cons hn _ ih =>
    rw [firstExpression, firstExpression, hn.isExpression]
    split
    · exact congrArg some hn.own
    · exact ih

theorem counted_ofRole_congr (role : Role)
    (h : List.Forall₂ (SaysAlike bindings helpers attributes) cs cs') :
    counted bindings helpers (ofRole role cs) = counted bindings helpers (ofRole role cs') := by
  induction h with
  | nil => rfl
  | cons hn _ ih =>
    rw [ofRole, ofRole, hn.role]
    split
    · exact hn.own
    · exact ih

/-! ### Children that are alike -/

theorem counted_toList_congr {o o' : Option Expr}
    (h : o.map (fun e => counted bindings helpers [e]) =
      o'.map fun e => counted bindings helpers [e]) :
    counted bindings helpers o.toList = counted bindings helpers o'.toList := by
  cases o <;> cases o' <;> simp_all

theorem templateText_congr (h : List.Forall₂ (Alike bindings helpers attributes) cs cs') :
    templateText cs = templateText cs' := by
  induction h with
  | nil => rfl
  | @cons n n' _ _ hn _ ih =>
    obtain ⟨l, ds⟩ := n
    obtain ⟨l', ds'⟩ := n'
    have hlabel : l = l' := hn.label
    subst hlabel
    rw [templateText, List.flatMap_cons, ← templateText, ih, templateText, templateText,
      List.flatMap_cons]
    rfl

theorem counted_templateParts_congr
    (h : List.Forall₂ (Alike bindings helpers attributes) cs cs') :
    counted bindings helpers (templateParts cs) = counted bindings helpers (templateParts cs') := by
  induction h with
  | nil => rfl
  | cons hn _ ih =>
    rw [templateParts, templateParts, hn.kind]
    split
    · rw [counted_append, counted_toList_congr hn.inner, ih, ← counted_append]
    · exact ih

theorem counted_argumentsOf_congr
    (h : List.Forall₂ (Alike bindings helpers attributes) cs cs') :
    counted bindings helpers (argumentsOf cs) = counted bindings helpers (argumentsOf cs') := by
  induction h with
  | nil => rfl
  | cons hn _ ih =>
    rw [argumentsOf, argumentsOf, hn.role, hn.kind]
    split
    · split
      · exact hn.inners
      · exact hn.own
    · exact ih

theorem counted_keysOf_congr (h : List.Forall₂ (Alike bindings helpers attributes) cs cs') :
    counted bindings helpers (keysOf cs) = counted bindings helpers (keysOf cs') := by
  induction h with
  | nil => rfl
  | cons hn _ ih =>
    rw [keysOf, keysOf, hn.kind, hn.text]
    split
    · rw [counted_cons, ih, ← counted_cons]
    · split
      · rw [counted_append, hn.key, ih, ← counted_append]
      · exact ih

/-- The key of a pair needs only to look alike. -/
theorem counted_keyIn_congr
    (h : List.Forall₂ (fun n n' => n.label.role = n'.label.role ∧
      (n.label.role = .key → Alike bindings helpers attributes n n')) cs cs') :
    counted bindings helpers (keyIn cs) = counted bindings helpers (keyIn cs') := by
  induction h with
  | nil => rfl
  | @cons n n' _ _ hn _ ih =>
    obtain ⟨hrole, hkey⟩ := hn
    rw [keyIn, keyIn, hrole]
    split
    · rename_i hk
      have halike := hkey (hrole.trans (beq_iff_eq.mp hk))
      rw [halike.kind, halike.innerText, halike.text]
      split
      · exact counted_toList_congr halike.inner
      · rfl
      · rfl
      · rfl
    · exact ih

end Children

end StyleAudit.Markup
