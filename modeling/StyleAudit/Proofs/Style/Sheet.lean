import Mathlib.Data.List.Basic
import StyleAudit.Proofs.Table
import StyleAudit.Style.Sheet

/-!
# What a sheet has learnt

A sheet is what a list of facts adds up to.  As far as membership goes the order of the facts does
not matter: an identifier is defined iff some fact defines it (`mem_keys_learnAll`), and a class is
nested under another iff some fact nests it there (`mem_children_learnAll`).
-/

namespace StyleAudit.Style.Sheet

variable {s : Sheet}

theorem hasChildren_iff {p : String} : s.hasChildren p = true ↔ ∃ c, c ∈ s.children p := by
  rw [hasChildren, Bool.not_eq_true', List.isEmpty_eq_false_iff_exists_mem]

/-! ### One fact -/

theorem mem_keys_define {id x : String} {line : Int} :
    x ∈ (s.define id line).definitions.keys ↔ x ∈ s.definitions.keys ∨ x = id :=
  Table.mem_keys_putNew

theorem mem_children_addChild {p c q x : String} :
    x ∈ (s.addChild p c).children q ↔ x ∈ s.children q ∨ q = p ∧ x = c :=
  Table.mem_part_alter id (fun _ => mem_addName) s.nesting p q []

/-- A fact adds the identifier that it defines. -/
theorem mem_keys_learn {f : Fact} {x : String} :
    x ∈ (s.learn f).definitions.keys ↔ x ∈ s.definitions.keys ∨ ∃ line, f = .defines x line := by
  cases f with
  | defines id line =>
    rw [learn, mem_keys_define]
    refine or_congr_right ⟨?_, ?_⟩
    · rintro rfl; exact ⟨line, rfl⟩
    · rintro ⟨_, h⟩; cases h; rfl
  | nests p c =>
    refine ⟨Or.inl, ?_⟩
    rintro (h | ⟨_, h⟩)
    · exact h
    · cases h

/-- A fact adds the pair that it nests. -/
theorem mem_children_learn {f : Fact} {q x : String} :
    x ∈ (s.learn f).children q ↔ x ∈ s.children q ∨ f = .nests q x := by
  cases f with
  | defines id line =>
    refine ⟨Or.inl, ?_⟩
    rintro (h | h)
    · exact h
    · cases h
  | nests p c =>
    rw [learn, mem_children_addChild]
    refine or_congr_right ⟨?_, ?_⟩
    · rintro ⟨rfl, rfl⟩; rfl
    · intro h; cases h; exact ⟨rfl, rfl⟩

theorem nesting_ne_nil_learn (h : ∀ e ∈ s.nesting, e.2 ≠ []) (f : Fact) :
    ∀ e ∈ (s.learn f).nesting, e.2 ≠ [] := by
  intro e he
  cases f with
  | defines id line => exact h e he
  | nests p c =>
    rcases Table.mem_alter he with hm | ⟨b, rfl⟩
    · exact h e hm
    · exact addName_ne_nil b c

/-! ### A list of facts -/

theorem mem_keys_learnAll (facts : List Fact) {x : String} :
    x ∈ (s.learnAll facts).definitions.keys ↔
      x ∈ s.definitions.keys ∨ ∃ line, Fact.defines x line ∈ facts := by
  rw [learnAll]
  induction facts generalizing s with
  | nil => simp
  | cons f facts ih =>
    rw [List.foldl_cons, ih, mem_keys_learn, or_assoc, ← exists_or]
    simp only [List.mem_cons, eq_comm]

theorem mem_children_learnAll (facts : List Fact) {q x : String} :
    x ∈ (s.learnAll facts).children q ↔ x ∈ s.children q ∨ Fact.nests q x ∈ facts := by
  rw [learnAll]
  induction facts generalizing s with
  | nil => simp
  | cons f facts ih =>
    rw [List.foldl_cons, ih, mem_children_learn, or_assoc, List.mem_cons, eq_comm]

theorem nesting_ne_nil_learnAll (facts : List Fact) (h : ∀ e ∈ s.nesting, e.2 ≠ []) :
    ∀ e ∈ (s.learnAll facts).nesting, e.2 ≠ [] := by
  rw [learnAll]
  induction facts generalizing s with
  | nil => exact h
  | cons f facts ih => exact ih (nesting_ne_nil_learn h f)

end StyleAudit.Style.Sheet
