import Mathlib.Data.List.Basic
import StyleAudit.Markup.Node

/-!
# Nodes within a tree

`Node.nodes` lists the nodes of a tree in the order of a search.  `Node.Within` says where a node can
stand without any order: at the root, or within a child.  The list holds exactly the nodes within the
tree (`Node.mem_nodes_iff`).
-/

namespace StyleAudit.Markup.Node

/-- The node stands in the tree, at its root or somewhere below. -/
inductive Within : Node → Node → Prop
  | root (n : Node) : Within n n
  | child {n c : Node} {l : Label} {cs : List Node} : c ∈ cs → Within n c → Within n (.mk l cs)

theorem mem_nodesOfAll {n : Node} {cs : List Node} : n ∈ nodesOfAll cs ↔ ∃ c ∈ cs, n ∈ c.nodes := by
  induction cs with
  | nil => simp [nodesOfAll]
  | cons c cs ih =>
    rw [nodesOfAll, List.mem_append, ih, or_comm]
    simp only [List.mem_cons, exists_eq_or_imp]

theorem self_mem_nodes (n : Node) : n ∈ n.nodes := by
  obtain ⟨l, cs⟩ := n
  rw [nodes]
  exact List.mem_cons_self

theorem Within.mem_nodes {n t : Node} (h : n.Within t) : n ∈ t.nodes := by
  induction h with
  | root => exact self_mem_nodes n
  | child hc _ ih =>
    rw [nodes]
    exact List.mem_cons_of_mem _ (mem_nodesOfAll.mpr ⟨_, hc, ih⟩)

mutual

theorem within_of_mem_nodes {n : Node} : ∀ t : Node, n ∈ t.nodes → n.Within t
  | .mk l cs, h => by
    rw [nodes] at h
    rcases List.mem_cons.mp h with rfl | h
    · exact .root _
    · obtain ⟨c, hc, hn⟩ := within_of_mem_nodesOfAll cs h
      exact .child hc hn

theorem within_of_mem_nodesOfAll {n : Node} : ∀ cs : List Node, n ∈ nodesOfAll cs →
    ∃ c ∈ cs, n.Within c
  | [], h => by simp [nodesOfAll] at h
  | c :: cs, h => by
    rw [nodesOfAll] at h
    rcases List.mem_append.mp h with h | h
    · obtain ⟨c', hc', hn⟩ := within_of_mem_nodesOfAll cs h
      exact ⟨c', List.mem_cons_of_mem c hc', hn⟩
    · exact ⟨c, List.mem_cons_self, within_of_mem_nodes c h⟩

end

/-- **The search meets exactly the nodes of the tree.** -/
theorem mem_nodes_iff {n t : Node} : n ∈ t.nodes ↔ n.Within t :=
  ⟨within_of_mem_nodes t, Within.mem_nodes⟩

theorem Within.trans {n m t : Node} (h : n.Within m) (h' : m.Within t) : n.Within t := by
  induction h' with
  | root => exact h
  | child hc _ ih => exact .child hc ih

theorem within_of_mem_children {n t : Node} (h : n ∈ t.children) : n.Within t := by
  obtain ⟨l, cs⟩ := t
  exact .child h (.root n)

/-! ### Induction -/

mutual

theorem forall_within {P : Node → Prop}
    (h : ∀ l cs, (∀ c ∈ cs, ∀ m : Node, m.Within c → P m) → P (.mk l cs)) :
    ∀ t m : Node, m.Within t → P m
  | .mk l cs => by
    intro m hm
    cases hm with
    | root => exact h l cs (forall_within_of_mem h cs)
    | child hc hm => exact forall_within_of_mem h cs _ hc m hm

theorem forall_within_of_mem {P : Node → Prop}
    (h : ∀ l cs, (∀ c ∈ cs, ∀ m : Node, m.Within c → P m) → P (.mk l cs)) :
    ∀ cs : List Node, ∀ c ∈ cs, ∀ m : Node, m.Within c → P m
  | [] => by simp
  | c :: cs => List.forall_mem_cons.mpr ⟨forall_within h c, forall_within_of_mem h cs⟩

end

/-- What holds of a node as soon as it holds of all nodes below it holds of every node. -/
theorem below_induction {P : Node → Prop}
    (h : ∀ l cs, (∀ c ∈ cs, ∀ m : Node, m.Within c → P m) → P (.mk l cs)) (t : Node) : P t :=
  forall_within h t t (.root t)

end StyleAudit.Markup.Node
