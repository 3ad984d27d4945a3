import StyleAudit.Markup.Extract
import StyleAudit.Proofs.Markup.Tree

/-!
# The search for the first fault

`Node.preorder` lists all nodes of a tree, a node before its children and these in their order.  It
knows neither a stack nor marks.  `Node.faultLineOn` has both, and finds the same fault as a look
through the whole list.

What a stack still has to offer is `preorderOfAll stack`.  Taking a node from the stack and putting
its children there takes the node from that list and leaves the rest as it is,

    preorderOfAll (n :: stack) = n :: preorderOfAll (n.children ++ stack),

so the first fault of the list stays the same as long as `n` is none (`find?_preorderOfAll_open`).  A
node without mark is taken from the stack with all that is below it, and then there is no fault among
what is lost (`find?_preorderOfAll_skip`).  For this the marks have to be right (`MarksFaults`), and
`Node.hasFault` is (`marksFaults_hasFault`).  Either way the list gets shorter, so the search ends
whatever the marks are.
-/

namespace StyleAudit.Markup

namespace Node

/-! ### Nodes in their order -/

mutual

/-- All nodes of a tree: a node before its children, and these in their order. -/
def preorder : Node → List Node
  | .mk l cs => .mk l cs :: preorderOfAll cs

def preorderOfAll : List Node → List Node
  | [] => []
  | n :: ns => n.preorder ++ preorderOfAll ns

end

theorem preorderOfAll_singleton (n : Node) : preorderOfAll [n] = n.preorder := by
  rw [preorderOfAll, preorderOfAll, List.append_nil]

theorem preorderOfAll_append (ns ms : List Node) :
    preorderOfAll (ns ++ ms) = preorderOfAll ns ++ preorderOfAll ms := by
  induction ns with
  | nil => rw [List.nil_append, preorderOfAll, List.nil_append]
  | cons n ns ih => rw [List.cons_append, preorderOfAll, preorderOfAll, ih, List.append_assoc]

theorem preorderOfAll_cons (n : Node) (stack : List Node) :
    preorderOfAll (n :: stack) = n :: preorderOfAll (n.children ++ stack) := by
  obtain ⟨l, cs⟩ := n
  rw [preorderOfAll, preorder, children, preorderOfAll_append, List.cons_append]

mutual

theorem preorder_perm_nodes : ∀ t : Node, t.preorder.Perm t.nodes
  | .mk l cs => by
    rw [preorder, nodes]
    exact (preorderOfAll_perm_nodesOfAll cs).cons _

theorem preorderOfAll_perm_nodesOfAll : ∀ ns : List Node,
    (preorderOfAll ns).Perm (nodesOfAll ns)
  | [] => by rw [preorderOfAll, nodesOfAll]
  | n :: ns => by
    rw [preorderOfAll, nodesOfAll]
    exact ((preorder_perm_nodes n).append (preorderOfAll_perm_nodesOfAll ns)).trans
      List.perm_append_comm

end

theorem mem_preorder_iff {n t : Node} : n ∈ t.preorder ↔ n.Within t :=
  (preorder_perm_nodes t).mem_iff.trans mem_nodes_iff

/-! ### Marks -/

/-- The marks of a tree are right: a node of it is marked if it is a fault or has one below it, and
not otherwise. -/
def MarksFaults (marked : Node → Bool) (root : Node) : Prop :=
  ∀ n : Node, n.Within root → (marked n = true ↔ ∃ m : Node, m.Within n ∧ m.isFault = true)

theorem MarksFaults.of_within {marked : Node → Bool} {n root : Node} (h : MarksFaults marked root)
    (hn : n.Within root) : MarksFaults marked n :=
  fun m hm => h m (hm.trans hn)

mutual

theorem hasFault_eq_any : ∀ t : Node, t.hasFault = t.preorder.any isFault
  | .mk l cs => by
    rw [hasFault, preorder, List.any_cons, anyFault_eq_any cs]
    rfl

theorem anyFault_eq_any : ∀ ns : List Node, anyFault ns = (preorderOfAll ns).any isFault
  | [] => by rw [anyFault, preorderOfAll, List.any_nil]
  | n :: ns => by
    rw [anyFault, preorderOfAll, List.any_append, hasFault_eq_any n, anyFault_eq_any ns]

end

theorem hasFault_iff {t : Node} : t.hasFault = true ↔ ∃ n : Node, n.Within t ∧ n.isFault = true := by
  rw [hasFault_eq_any, List.any_eq_true]
  simp only [mem_preorder_iff]

theorem marksFaults_hasFault (root : Node) : MarksFaults hasFault root :=
  fun _ _ => hasFault_iff

/-! ### The search -/

section Search

variable {marked : Node → Bool} {n : Node} {stack : List Node}

theorem find?_preorderOfAll_open (hfault : ¬n.isFault = true) :
    (preorderOfAll (n :: stack)).find? isFault =
      (preorderOfAll (n.children ++ stack)).find? isFault := by
  rw [preorderOfAll_cons, List.find?_cons_of_neg hfault]

theorem find?_preorderOfAll_skip (hmarks : MarksFaults marked n) (hmarked : ¬marked n = true) :
    (preorderOfAll (n :: stack)).find? isFault = (preorderOfAll stack).find? isFault := by
  have hnone : n.preorder.find? isFault = none :=
    List.find?_eq_none.mpr fun m hm hfault =>
      hmarked ((hmarks n (.root n)).mpr ⟨m, mem_preorder_iff.mp hm, hfault⟩)
  rw [preorderOfAll, List.find?_append, hnone, Option.none_or]

/-- **The search finds the first of all faults on the stack.** -/
theorem faultLineOn_eq (h : ∀ n ∈ stack, MarksFaults marked n) :
    faultLineOn marked stack = (((preorderOfAll stack).find? isFault).map line).getD 0 := by
  fun_induction faultLineOn marked stack with
  | case1 => rfl
  | case2 n stack hfault => rw [preorderOfAll_cons, List.find?_cons_of_pos hfault]; rfl
  | case3 n stack hfault _ ih =>
    obtain ⟨hn, hstack⟩ := List.forall_mem_cons.mp h
    rw [find?_preorderOfAll_open hfault]
    refine ih fun m hm => ?_
    rcases List.mem_append.mp hm with hm | hm
    · exact hn.of_within (within_of_mem_children hm)
    · exact hstack m hm
  | case4 n stack _ hmarked ih =>
    obtain ⟨hn, hstack⟩ := List.forall_mem_cons.mp h
    rw [find?_preorderOfAll_skip hn hmarked, ih hstack]

end Search

section Root

variable {marked : Node → Bool} {root : Node}

theorem faultLineOn_root (h : MarksFaults marked root) :
    faultLineOn marked [root] = ((root.preorder.find? isFault).map line).getD 0 := by
  rw [faultLineOn_eq (List.forall_mem_singleton.mpr h), preorderOfAll_singleton]

theorem firstFaultLine_eq (h : MarksFaults marked root) :
    root.firstFaultLine = faultLineOn marked [root] := by
  rw [firstFaultLine, faultLineOn_root (marksFaults_hasFault root), faultLineOn_root h]

theorem faultLineOn_root_eq_zero_iff (h : MarksFaults marked root) :
    faultLineOn marked [root] = 0 ↔ ∀ n : Node, n.Within root → ¬n.isFault = true := by
  have hnone : root.preorder.find? isFault = none ↔
      ∀ n : Node, n.Within root → ¬n.isFault = true := by
    simp only [List.find?_eq_none, mem_preorder_iff]
  rw [faultLineOn_root h, ← hnone]
  cases root.preorder.find? isFault with
  | none => simp
  | some n => simp [line]

theorem firstFaultLine_pos (h : root.hasFault = true) : 0 < root.firstFaultLine := by
  obtain ⟨n, hn, hfault⟩ := hasFault_iff.mp h
  rw [firstFaultLine, Nat.pos_iff_ne_zero, ne_eq,
    faultLineOn_root_eq_zero_iff (marksFaults_hasFault root)]
  exact fun hsound => hsound n hn hfault

end Root

end Node

/-! ### Refused files -/

open Node

namespace Settings

variable {s : Settings} {path : String} {root : Node} {e : ParseError}

theorem exists_examine_eq_error_iff : (∃ e, s.examine path root = .error e) ↔ root.hasFault = true := by
  rw [examine]
  cases root.hasFault <;> simp

theorem line_of_examine_eq_error (h : s.examine path root = .error e) :
    e.line = root.firstFaultLine ∧ 1 ≤ e.line := by
  have hfault : root.hasFault = true := exists_examine_eq_error_iff.mp ⟨e, h⟩
  rw [examine, if_pos hfault] at h
  cases h
  exact ⟨rfl, firstFaultLine_pos hfault⟩

end Settings

/-- **A search that leaves out what is not marked finds what a search of the whole tree finds.**  The
marks are right: they stand on the nodes that are a fault or have one below them, and on no other.
Then the search gives the line of the first fault in the order of the nodes, counted from one, and
zero only if there is none.  A file is refused for its syntax if its tree is marked, always with the
line that the search gives, and never without a line. -/
theorem marked_search_exact (marked : Node → Bool) (root : Node) (h : MarksFaults marked root) :
    faultLineOn marked [root] =
        ((root.preorder.find? isFault).map fun n => n.label.row + 1).getD 0 ∧
      (faultLineOn marked [root] = 0 ↔ ∀ n : Node, n.Within root → ¬n.isFault = true) ∧
      (∀ (s : Settings) (path : String),
        ((∃ e, s.examine path root = .error e) ↔ marked root = true) ∧
          ∀ e, s.examine path root = .error e → e.line = faultLineOn marked [root] ∧ 1 ≤ e.line) ∧
      ∀ (s : Settings) (path source : String) (e : ParseError),
        s.extract path source = .error e → 1 ≤ e.line := by
  refine ⟨faultLineOn_root h, faultLineOn_root_eq_zero_iff h, fun s path => ⟨?_, fun e he => ?_⟩,
    fun s path source e he => (s.line_of_examine_eq_error he).2⟩
  · rw [s.exists_examine_eq_error_iff, h root (.root root), hasFault_iff]
  · rw [← firstFaultLine_eq h]
    exact s.line_of_examine_eq_error he

/-- A program with something missing in its second statement and a fault in its last. -/
def faultyTree : Node :=
  .mk { kind := .program } [
    .mk { kind := .string, text := "'a'" } [],
    .mk { kind := .jsxExpression, row := 1 } [
      .mk { kind := .identifier, text := "b", row := 1 } [],
      .mk { kind := .identifier, row := 2, missing := true } []],
    .mk { kind := .fault, row := 4 } []]

theorem marked_search_exact_missing :
    MarksFaults hasFault faultyTree ∧ faultLineOn hasFault [faultyTree] = 3 ∧
      ∀ (s : Settings) (path : String), ∃ e, s.examine path faultyTree = .error e ∧ e.line = 3 := by
  have hmarks : MarksFaults hasFault faultyTree := marksFaults_hasFault faultyTree
  obtain ⟨hsearch, -, hrefused, -⟩ := marked_search_exact hasFault faultyTree hmarks
  have hthree : faultLineOn hasFault [faultyTree] = 3 := hsearch.trans (by decide)
  refine ⟨hmarks, hthree, fun s path => ?_⟩
  obtain ⟨e, he⟩ := (hrefused s path).1.mpr (by decide)
  exact ⟨e, he, ((hrefused s path).2 e he).1.trans hthree⟩

end StyleAudit.Markup
