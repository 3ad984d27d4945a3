import Mathlib.Order.Basic
import StyleAudit.Markup.Usage
import StyleAudit.Proofs.Table

/-!
# What usages say

A usage says which names are asked for and which classes are reached by a computed name.  Usages are
ordered by what they say, and `MarkupUse.usageFor` is what a markup file says about one sheet.

* `MarkupUse.mem_static_addStatic`, `MarkupUse.mem_dynamicParents_addDynamic`: each addition is the
  union at its own path.
* `MarkupUse.le_addStatic`, `MarkupUse.le_addDynamic`, `MarkupUse.le_addLiterals`: nothing that was
  said is taken back.
-/

namespace StyleAudit.Markup

/-! ### The order of usages -/

/-- One usage is below another if all that it says is said by the other one too. -/
instance : Preorder Usage where
  le u v := u.static ⊆ v.static ∧ u.dynamicParents ⊆ v.dynamicParents
  le_refl _ := ⟨List.Subset.refl _, List.Subset.refl _⟩
  le_trans _ _ _ h g := ⟨List.Subset.trans h.1 g.1, List.Subset.trans h.2 g.2⟩

theorem Usage.mem_static_merge {u v : Usage} {x : String} :
    x ∈ (u.merge v).static ↔ x ∈ u.static ∨ x ∈ v.static := mem_addNames

theorem Usage.mem_dynamicParents_merge {u v : Usage} {x : String} :
    x ∈ (u.merge v).dynamicParents ↔ x ∈ u.dynamicParents ∨ x ∈ v.dynamicParents := mem_addNames

/-! ### The usage of one sheet -/

namespace MarkupUse

/-- What the file says about the sheet at a path. -/
def usageFor (u : MarkupUse) (path : String) : Usage :=
  (u.usages.find? path).getD {}

variable {u : MarkupUse} {path : String} {names : List String}

theorem mem_static_addStatic {F x : String} :
    x ∈ ((u.addStatic path names).usageFor F).static ↔
      x ∈ (u.usageFor F).static ∨ F = path ∧ x ∈ names :=
  Table.mem_part_alter Usage.static (fun _ => mem_addNames) u.usages path F {}

theorem mem_dynamicParents_addDynamic {F x : String} :
    x ∈ ((u.addDynamic path names).usageFor F).dynamicParents ↔
      x ∈ (u.usageFor F).dynamicParents ∨ F = path ∧ x ∈ names :=
  Table.mem_part_alter Usage.dynamicParents (fun _ => mem_addNames) u.usages path F {}

@[simp] theorem dynamicParents_addStatic (F : String) :
    ((u.addStatic path names).usageFor F).dynamicParents = (u.usageFor F).dynamicParents := by
  rw [usageFor, addStatic, Table.find?_alter]
  split
  · rename_i h; rw [h]; rfl
  · rfl

@[simp] theorem static_addDynamic (F : String) :
    ((u.addDynamic path names).usageFor F).static = (u.usageFor F).static := by
  rw [usageFor, addDynamic, Table.find?_alter]
  split
  · rename_i h; rw [h]; rfl
  · rfl

/-! ### The order of uses -/

/-- One use is below another if it says no more about any sheet and has no further plain name. -/
instance : Preorder MarkupUse where
  le u v := (∀ path, u.usageFor path ≤ v.usageFor path) ∧ u.literals ⊆ v.literals
  le_refl _ := ⟨fun _ => le_refl _, List.Subset.refl _⟩
  le_trans _ _ _ h g := ⟨fun path => (h.1 path).trans (g.1 path), List.Subset.trans h.2 g.2⟩

variable (u path names)

theorem le_addStatic : u ≤ u.addStatic path names :=
  ⟨fun F => ⟨fun _ h => mem_static_addStatic.mpr (Or.inl h), by
    rw [dynamicParents_addStatic]; exact List.Subset.refl _⟩, List.Subset.refl _⟩

theorem le_addDynamic : u ≤ u.addDynamic path names :=
  ⟨fun F => ⟨by rw [static_addDynamic]; exact List.Subset.refl _,
    fun _ h => mem_dynamicParents_addDynamic.mpr (Or.inl h)⟩, List.Subset.refl _⟩

theorem le_addLiterals : u ≤ u.addLiterals names :=
  ⟨fun _ => le_refl _, fun _ h => mem_addNames.mpr (Or.inl h)⟩

end MarkupUse

end StyleAudit.Markup
