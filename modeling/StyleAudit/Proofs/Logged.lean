import Mathlib.Data.List.Basic
import StyleAudit.Logged

/-!
# How runs end

A run ends with a value or with a fault, whatever it tells on the way.  One run after another ends
with a value iff both do, and going through a list ends with a fault iff some element does, after
elements that do not (`mapM_eq_error_iff`).
-/

namespace StyleAudit

/-! ### Runs one after the other -/

namespace Logged

variable {α β : Type} {m : Logged α} {f : α → Logged β}

@[simp] theorem result_pure (a : α) : (pure a : Logged α).result = .ok a := rfl

@[simp] theorem result_lift (r : Except Fault α) : (lift r).result = r := rfl

theorem result_bind_of_ok {a : α} (h : m.result = .ok a) : (m >>= f).result = (f a).result := by
  simp only [bind, andThen, h]

theorem result_bind_of_error {e : Fault} (h : m.result = .error e) :
    (m >>= f).result = .error e := by
  simp only [bind, andThen, h]

@[simp] theorem result_tell_bind (events : List Event) (f : Unit → Logged β) :
    (tell events >>= f).result = (f ()).result := rfl

theorem result_bind_eq_ok {b : β} :
    (m >>= f).result = .ok b ↔ ∃ a, m.result = .ok a ∧ (f a).result = .ok b := by
  simp only [bind, andThen]
  cases m.result with
  | error fault => simp
  | ok a => simp

end Logged

theorem eq_ok_of_toOption {ε α : Type} {x : Except ε α} {a : α} (h : x.toOption = some a) :
    x = .ok a := by
  cases x with
  | error e => cases h
  | ok b => rw [Option.some.inj h]

/-! ### Going through a list -/

section Traversal

variable {α β ε : Type} {f : α → Except ε β} {l : List α}

theorem mapM_eq_ok {g : α → β} (h : ∀ a ∈ l, f a = .ok (g a)) : l.mapM f = .ok (l.map g) := by
  induction l with
  | nil => rfl
  | cons a l ih =>
    obtain ⟨ha, hl⟩ := List.forall_mem_cons.mp h
    rw [List.mapM_cons, ha, ih hl]
    rfl

theorem exists_of_mapM_eq_ok {bs : List β} (h : l.mapM f = .ok bs) :
    ∀ a ∈ l, ∃ b, f a = .ok b := by
  induction l generalizing bs with
  | nil => simp
  | cons x l ih =>
    rw [List.mapM_cons] at h
    cases hx : f x with
    | error e => rw [hx] at h; cases h
    | ok b =>
      cases hl : l.mapM f with
      | error e => rw [hx, hl] at h; cases h
      | ok bs' => exact List.forall_mem_cons.mpr ⟨⟨b, hx⟩, ih hl⟩

theorem map_toOption_of_mapM_eq_ok {bs : List β} (h : l.mapM f = .ok bs) :
    (l.map fun a => (f a).toOption) = bs.map some := by
  induction l generalizing bs with
  | nil => cases h; rfl
  | cons x l ih =>
    rw [List.mapM_cons] at h
    cases hx : f x with
    | error e => rw [hx] at h; cases h
    | ok b =>
      cases hl : l.mapM f with
      | error e => rw [hx, hl] at h; cases h
      | ok bs' =>
        rw [hx, hl] at h
        cases h
        rw [List.map_cons, List.map_cons, hx, ih hl]
        rfl

/-- The first element that fails decides how going through a list fails. -/
theorem mapM_eq_error_iff {e : ε} :
    l.mapM f = .error e ↔ ∃ before a after, l = before ++ a :: after ∧
      (∀ b ∈ before, ∃ y, f b = .ok y) ∧ f a = .error e := by
  induction l with
  | nil =>
    refine iff_of_false (fun h => by cases h) ?_
    rintro ⟨before, a, after, h, -⟩
    simp at h
  | cons x l ih =>
    cases hx : f x with
    | error e' =>
      rw [List.mapM_cons, hx]
      constructor
      · intro h
        cases h
        exact ⟨[], x, l, rfl, by simp, hx⟩
      · rintro ⟨before, a, after, hl, hbefore, ha⟩
        cases before with
        | nil =>
          cases hl
          rw [hx] at ha
          exact ha ▸ rfl
        | cons b before =>
          cases hl
          obtain ⟨y, hy⟩ := hbefore x List.mem_cons_self
          cases hx.symm.trans hy
    | ok y =>
      have hstep : (x :: l).mapM f = .error e ↔ l.mapM f = .error e := by
        rw [List.mapM_cons, hx]
        cases l.mapM f with
        | error e' => exact Iff.rfl
        | ok ys => exact iff_of_false (fun h => by cases h) (fun h => by cases h)
      rw [hstep, ih]
      constructor
      · rintro ⟨before, a, after, rfl, hbefore, ha⟩
        exact ⟨x :: before, a, after, rfl, List.forall_mem_cons.mpr ⟨⟨y, hx⟩, hbefore⟩, ha⟩
      · rintro ⟨before, a, after, hl, hbefore, ha⟩
        cases before with
        | nil =>
          cases hl
          cases hx.symm.trans ha
        | cons b before =>
          cases hl
          exact ⟨before, a, after, rfl, (List.forall_mem_cons.mp hbefore).2, ha⟩

end Traversal

end StyleAudit
