import StyleAudit.Proofs.Markup.Wrappers

/-!
# Class attributes ask for nothing new

Two parts of the analysis record the classes that a file asks for.  The search over the tree looks at
every node.  The walks over the class attributes look at expressions, which are read off the tree
with templates, keys, wrappers and calls taken apart.  They agree: what the file asks for is exactly
what its nodes ask for (`static_exact`), so the walks add nothing, and neither the helpers nor the
attributes matter.

An expression has no accesses of its own.  Each part of it is a literal or is read off a node further
down (`ReadOff`), one lemma for each way in which the reader goes down.  So an access that shows in an
expression is the node that it is read off, or shows in a node below (`shown_access_cases`), and in
the end it is a node of the tree (`exists_node_of_access`).
-/

namespace StyleAudit.Markup

open StyleAudit.Audit (importTree memberTree)

/-! ### Where expressions come from -/

/-- The expression is a literal, or it is read off a node within one of the nodes. -/
def ReadOff (ns : List Node) (e : Expr) : Prop :=
  (∃ value, e = .literal value) ∨ ∃ n ∈ ns, ∃ m : Node, m.Within n ∧ e = Expr.ofNode m

namespace ReadOff

variable {n : Node} {ns : List Node} {e : Expr}

theorem node (hn : n ∈ ns) : ReadOff ns (Expr.ofNode n) :=
  Or.inr ⟨n, hn, n, .root n, rfl⟩

theorem literal (value : String) : ReadOff ns (.literal value) :=
  Or.inl ⟨value, rfl⟩

theorem cons (h : ReadOff ns e) : ReadOff (n :: ns) e := by
  rcases h with hliteral | ⟨n', hn', hm⟩
  · exact Or.inl hliteral
  · exact Or.inr ⟨n', List.mem_cons_of_mem n hn', hm⟩

/-- What is read off the children of a node is read off the node. -/
theorem of_children (hn : n ∈ ns) (h : ReadOff n.children e) : ReadOff ns e := by
  rcases h with hliteral | ⟨c, hc, m, hm, he⟩
  · exact Or.inl hliteral
  · exact Or.inr ⟨n, hn, m, hm.trans (Node.within_of_mem_children hc), he⟩

end ReadOff

theorem readOff_ofExpressions (ns : List Node) : ∀ e ∈ ofExpressions ns, ReadOff ns e := by
  induction ns with
  | nil => intro e he; rw [ofExpressions] at he; cases he
  | cons n ns ih =>
    intro e he
    rw [ofExpressions] at he
    split at he
    · rcases List.mem_cons.mp he with rfl | he
      · exact .node List.mem_cons_self
      · exact (ih e he).cons
    · exact (ih e he).cons

theorem readOff_firstExpression (ns : List Node) : ∀ e, firstExpression ns = some e →
    ReadOff ns e := by
  induction ns with
  | nil => intro e he; rw [firstExpression] at he; cases he
  | cons n ns ih =>
    intro e he
    rw [firstExpression] at he
    split at he
    · cases he
      exact .node List.mem_cons_self
    · exact (ih e he).cons

theorem readOff_ofRole (role : Role) (ns : List Node) : ∀ e ∈ ofRole role ns, ReadOff ns e := by
  induction ns with
  | nil => intro e he; rw [ofRole] at he; cases he
  | cons n ns ih =>
    intro e he
    rw [ofRole] at he
    split at he
    · rw [List.mem_singleton.mp he]
      exact .node List.mem_cons_self
    · exact (ih e he).cons

theorem readOff_innerExpression (n : Node) : ∀ e ∈ (innerExpression n).toList,
    ReadOff n.children e := by
  intro e he
  obtain ⟨l, cs⟩ := n
  exact readOff_firstExpression cs e (by simpa [innerExpression] using he)

theorem readOff_templateParts (ns : List Node) : ∀ e ∈ templateParts ns, ReadOff ns e := by
  induction ns with
  | nil => intro e he; rw [templateParts] at he; cases he
  | cons n ns ih =>
    intro e he
    rw [templateParts] at he
    split at he
    · rcases List.mem_append.mp he with he | he
      · exact (readOff_innerExpression n e he).of_children List.mem_cons_self
      · exact (ih e he).cons
    · exact (ih e he).cons

theorem readOff_argumentsOf (ns : List Node) : ∀ e ∈ argumentsOf ns, ReadOff ns e := by
  induction ns with
  | nil => intro e he; rw [argumentsOf] at he; cases he
  | cons n ns ih =>
    intro e he
    rw [argumentsOf] at he
    split at he
    · split at he
      · obtain ⟨l, cs⟩ := n
        exact (readOff_ofExpressions cs e he).of_children List.mem_cons_self
      · rw [List.mem_singleton.mp he]
        exact .node List.mem_cons_self
    · exact (ih e he).cons

theorem readOff_keyIn (ns : List Node) : ∀ e ∈ keyIn ns, ReadOff ns e := by
  induction ns with
  | nil => intro e he; rw [keyIn] at he; cases he
  | cons n ns ih =>
    intro e he
    rw [keyIn] at he
    split at he
    · split at he
      · exact (readOff_innerExpression n e he).of_children List.mem_cons_self
      · rw [List.mem_singleton.mp he]
        exact .literal _
      · rw [List.mem_singleton.mp he]
        exact .literal _
      · cases he
    · exact (ih e he).cons

theorem readOff_keysOf (ns : List Node) : ∀ e ∈ keysOf ns, ReadOff ns e := by
  induction ns with
  | nil => intro e he; rw [keysOf] at he; cases he
  | cons n ns ih =>
    intro e he
    rw [keysOf] at he
    split at he
    · rcases List.mem_cons.mp he with rfl | he
      · exact .literal _
      · exact (ih e he).cons
    · split at he
      · rcases List.mem_append.mp he with he | he
        · obtain ⟨l, cs⟩ := n
          exact (readOff_keyIn cs e he).of_children List.mem_cons_self
        · exact (ih e he).cons
      · exact (ih e he).cons

/-! ### Accesses among the leaves -/

section Accesses

variable {helpers : List String} {a : Access}

/-- An access among the leaves of what is read off the children of a node shows in a node below. -/
theorem exists_below {cs : List Node} {es : List Expr} (hes : ∀ e ∈ es, ReadOff cs e)
    (h : .access a ∈ leavesOfAll helpers es) :
    ∃ c ∈ cs, ∃ m : Node, m.Within c ∧ .access a ∈ (Expr.ofNode m).leaves helpers := by
  obtain ⟨e, he, ha⟩ := mem_leavesOfAll.mp h
  rcases hes e he with ⟨value, rfl⟩ | ⟨c, hc, m, hm, rfl⟩
  · simp [Expr.leaves] at ha
  · exact ⟨c, hc, m, hm, ha⟩

theorem mem_leavesOfAll_of_call {l : Leaf} {callee : Option String} {arguments : List Expr}
    (h : l ∈ (Expr.call callee arguments).leaves helpers) :
    l ∈ leavesOfAll helpers arguments := by
  cases callee with
  | none => rw [Expr.leaves] at h; cases h
  | some name =>
    rw [Expr.leaves] at h
    split at h
    · exact h
    · cases h

/-- **An access that shows in a node is the node itself, or it shows in a node below.** -/
theorem shown_access_cases (l : Label) (cs : List Node)
    (h : .access a ∈ (Expr.ofNode (.mk l cs)).leaves helpers) :
    (isAccess (.mk l cs) = true ∧ Access.ofNode (.mk l cs) = a) ∨
      ∃ c ∈ cs, ∃ m : Node, m.Within c ∧ .access a ∈ (Expr.ofNode m).leaves helpers := by
  -- one case for each kind of node that the reader tells apart
  rw [Expr.ofNode] at h
  split at h
  · simp [Expr.leaves] at h
  · rw [Expr.leaves, List.mem_cons] at h
    exact Or.inr (exists_below (readOff_templateParts cs) (h.resolve_left (by simp)))
  · split at h
    · rw [Expr.leaves] at h
      refine Or.inr (exists_below ?_ h)
      exact List.forall_mem_append.mpr ⟨readOff_ofRole .left cs, readOff_ofRole .right cs⟩
    · simp [Expr.leaves] at h
  · rw [Expr.leaves] at h
    refine Or.inr (exists_below ?_ h)
    exact List.forall_mem_append.mpr ⟨readOff_ofRole .consequence cs, readOff_ofRole .alternative cs⟩
  · exact Or.inr (exists_below (readOff_argumentsOf cs) (mem_leavesOfAll_of_call h))
  · rename_i hkind
    rw [Expr.leaves, List.mem_singleton] at h
    cases h
    exact Or.inl ⟨by simp [isAccess, Node.kind, Node.label, hkind], rfl⟩
  · rename_i hkind
    rw [Expr.leaves, List.mem_singleton] at h
    cases h
    exact Or.inl ⟨by simp [isAccess, Node.kind, Node.label, hkind], rfl⟩
  · rw [Expr.leaves] at h
    exact Or.inr (exists_below (readOff_ofExpressions cs) h)
  · rw [Expr.leaves] at h
    exact Or.inr (exists_below (readOff_keysOf cs) h)
  · split at h
    · cases hfirst : firstExpression cs with
      | none => rw [hfirst] at h; simp [Expr.leaves] at h
      | some e =>
        rw [hfirst, Option.getD_some] at h
        have hread : ∀ e' ∈ [e], ReadOff cs e' :=
          List.forall_mem_singleton.mpr (readOff_firstExpression cs e hfirst)
        exact Or.inr (exists_below hread (by rwa [leavesOfAll_singleton]))
    · simp [Expr.leaves] at h

/-- **Every access that shows in a node is a node of its tree.** -/
theorem exists_node_of_access (n : Node) (h : .access a ∈ (Expr.ofNode n).leaves helpers) :
    ∃ m : Node, m.Within n ∧ isAccess m = true ∧ Access.ofNode m = a := by
  induction n using Node.below_induction with
  | h l cs ih =>
    rcases shown_access_cases l cs h with ⟨haccess, ha⟩ | ⟨c, hc, m, hm, hshown⟩
    · exact ⟨_, .root _, haccess, ha⟩
    · obtain ⟨m', hm', haccess, ha⟩ := ih c hc m hm hshown
      exact ⟨m', .child hc (hm'.trans hm), haccess, ha⟩

/-! ### Class attributes -/

theorem within_of_attributeValue? {attributes : List String} {n value : Node}
    (h : attributeValue? attributes n = some value) : value.Within n := by
  rw [attributeValue?] at h
  split at h
  · split at h
    · rename_i name value' rest hchildren
      split at h
      · cases h
        have hmem : value ∈ n.namedChildren := by rw [hchildren]; simp
        exact Node.within_of_mem_children (List.mem_of_mem_filter hmem)
      · cases h
    · cases h
  · cases h

/-- The accesses of a class attribute are nodes of its value. -/
theorem exists_node_of_valueExpr? {value : Node} {e : Expr} (hvalue : valueExpr? value = some e)
    (h : .access a ∈ e.leaves helpers) :
    ∃ m : Node, m.Within value ∧ isAccess m = true ∧ Access.ofNode m = a := by
  rw [valueExpr?] at hvalue
  split at hvalue
  · cases hvalue
    simp [Expr.leaves] at h
  · obtain ⟨n, hn, rfl⟩ := Option.map_eq_some_iff.mp hvalue
    obtain ⟨m, hm, haccess, ha⟩ := exists_node_of_access n h
    have hmem : n ∈ value.namedChildren := List.mem_of_mem_filter (List.mem_of_mem_head? hn)
    have hchild : n.Within value := Node.within_of_mem_children (List.mem_of_mem_filter hmem)
    exact ⟨m, hm.trans hchild, haccess, ha⟩
  · cases hvalue

end Accesses

/-- A class that an attribute records as asked for is asked for by one of its accesses. -/
theorem Expr.Records.of_asked {bindings : Table String} {sheets : Table Style.Sheet}
    {helpers : List String} {e : Expr} {F x : String}
    (h : e.Records bindings sheets helpers (.asked F x)) :
    ∃ a name, .access a ∈ e.leaves helpers ∧ a.Asks bindings F name ∧ x ∈ namingVariants name := by
  rcases h with ⟨l, hl, hr⟩ | ⟨path, sheet, -, -, hr⟩
  · cases l with
    | literal value => obtain ⟨_, _, hr⟩ := hr; cases hr
    | template text => obtain ⟨_, _, hr⟩ := hr; cases hr
    | unknown form => cases hr
    | access a =>
      obtain ⟨path, name, hasks, hr | ⟨y, hy, hr⟩⟩ := hr
      · cases hr
      · cases hr
        exact ⟨a, name, hl, hasks, hy⟩
  · rcases hr with hr | ⟨_, _, _, hr⟩
    · cases hr
    · cases hr

/-! ### Files -/

namespace Settings

variable (s : Settings) {path F x : String} {root : Node}

theorem asksFor_of_node {n : Node} {name : String} (hn : n.Within root) (haccess : isAccess n = true)
    (hasks : (Access.ofNode n).Asks (s.bindings path root) F name) :
    s.AsksFor (path, root) F name := by
  refine ⟨n, hn, ?_, hasks⟩
  simpa [isAccess] using haccess

/-- The search over the tree records what the file asks for. -/
theorem mem_static_accessed (hF : F ≠ "") :
    x ∈ ((s.accessed path root).usageFor F).static ↔
      ∃ name, s.AsksFor (path, root) F name ∧ x ∈ namingVariants name := by
  rw [← MarkupUse.says_asked, says_accessed]
  constructor
  · rintro ⟨n, F', name, hn, haccess, hasks, -, hr | ⟨y, hy, hr⟩⟩
    · cases hr
    · cases hr
      exact ⟨name, s.asksFor_of_node hn haccess hasks, hy⟩
  · rintro ⟨name, ⟨n, hn, hkind, hasks⟩, hx⟩
    have haccess : isAccess n = true := by simpa [isAccess] using hkind
    exact ⟨n, F, name, hn, haccess, hasks, hF, Or.inr ⟨x, hx, rfl⟩⟩

/-- **The static names of a file are the spellings of the classes that it asks for, and no more.** -/
theorem mem_static_useOf (hF : F ≠ "") :
    x ∈ ((s.useOf path root).usageFor F).static ↔
      ∃ name, s.AsksFor (path, root) F name ∧ x ∈ namingVariants name := by
  constructor
  · intro hx
    rw [← MarkupUse.says_asked, useOf_eq_visit, says_visit, bindings_accessed] at hx
    rcases hx with hx | ⟨value, hvalue, e, he, hr⟩
    · exact (s.mem_static_accessed hF).mp hx
    · obtain ⟨a, name, ha, hasks, hx⟩ := hr.of_asked
      obtain ⟨m, hm, haccess, rfl⟩ := exists_node_of_valueExpr? he ha
      obtain ⟨n, hn, hnvalue⟩ := List.mem_filterMap.mp hvalue
      have hvalue : value.Within root :=
        (within_of_attributeValue? hnvalue).trans (Node.mem_nodes_iff.mp hn)
      exact ⟨name, s.asksFor_of_node (hm.trans hvalue) haccess hasks, hx⟩
  · rintro ⟨name, hasks, hx⟩
    exact hasks.variants_subset hF hx

end Settings

/-- **Class attributes ask for nothing new.**  In a file without faults, the static names of a sheet
are exactly the spellings of the classes that member and subscript nodes anywhere in the tree ask
for.  The search over the tree has found them all before the class attributes are classified, and
they are the same for all helpers and attributes. -/
theorem static_exact (s : Settings) (path : String) (root : Node) (hfault : root.hasFault = false) :
    ∃ use, s.examine path root = .ok use ∧ ∀ F, F ≠ "" →
      (∀ x, x ∈ (use.usageFor F).static ↔
        ∃ name, s.AsksFor (path, root) F name ∧ x ∈ namingVariants name) ∧
      (∀ x, x ∈ (use.usageFor F).static ↔ x ∈ ((s.accessed path root).usageFor F).static) ∧
      ∀ helpers attributes, ∃ use',
        { s with helpers, attributes }.examine path root = .ok use' ∧
        ∀ x, x ∈ (use'.usageFor F).static ↔ x ∈ (use.usageFor F).static := by
  have hexamine : ∀ s : Settings, s.examine path root = .ok (s.useOf path root) := by
    intro s
    rw [Settings.examine, hfault]
    rfl
  refine ⟨_, hexamine s, fun F hF => ⟨fun x => ?_, fun x => ?_, fun helpers attributes => ?_⟩⟩
  · exact s.mem_static_useOf hF
  · rw [s.mem_static_useOf hF, s.mem_static_accessed hF]
  · refine ⟨_, hexamine _, fun x => ?_⟩
    -- neither setting decides what the file binds, and so what it asks for
    rw [Settings.mem_static_useOf _ hF, s.mem_static_useOf hF]
    rfl

/-- The tree of a template with one substitution. -/
def templateTree (e : Node) : Node :=
  .mk { kind := .templateString } [.mk { kind := .templateSubstitution } [e]]

/-- A class attribute with `s.fooBar` inside a template asks for `foo-bar` and not for `bar`, and it
does so too if it is no class attribute. -/
theorem static_exact_template :
    let root := importTree [classTree (templateTree (memberTree "fooBar"))]
    root.hasFault = false ∧ ∃ use use', sampleSettings.examine "/p/App.jsx" root = .ok use ∧
      { sampleSettings with helpers := [], attributes := [] }.examine "/p/App.jsx" root =
        .ok use' ∧
      "foo-bar" ∈ (use.usageFor "/p/a.css").static ∧ "bar" ∉ (use.usageFor "/p/a.css").static ∧
      "foo-bar" ∈ (use'.usageFor "/p/a.css").static := by
  intro root
  have hfault : root.hasFault = false := by decide
  obtain ⟨use, huse, hall⟩ := static_exact sampleSettings "/p/App.jsx" root hfault
  obtain ⟨-, hsearch, hsettings⟩ := hall "/p/a.css" (by decide)
  obtain ⟨use', huse', hsame⟩ := hsettings [] []
  have hfound : "foo-bar" ∈ (use.usageFor "/p/a.css").static :=
    (hsearch "foo-bar").mpr (by decide)
  have hother : "bar" ∉ (use.usageFor "/p/a.css").static := fun h =>
    absurd ((hsearch "bar").mp h) (by decide)
  exact ⟨hfault, use, use', huse, huse', hfound, hother, (hsame "foo-bar").mpr hfound⟩

end StyleAudit.Markup
