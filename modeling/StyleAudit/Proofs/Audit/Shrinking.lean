import Mathlib.Data.List.Flatten
import StyleAudit.Proofs.Audit.Context

/-!
# More use, fewer violations

A context grows when a markup file is added to it: it has the same sheets, and it knows at least as
much about each of them (`Context.Grows`).  A class that is used stays used when more is known or
when dynamic parents begin to count (`isUsed_mono`), so the violations of the grown context are a
sublist of those before.  `violations_shrink` says this of one file, of every run of files and of
the option about dynamic parents.
-/

namespace StyleAudit.Audit

open StyleAudit.Markup (Usage MarkupUse)
open StyleAudit.Style (Sheet)
open scoped List

/-- A class that is used is used when more is said about its sheet, when there are more plain names,
and when dynamic parents count. -/
theorem isUsed_mono {x : String} {sheet : Sheet} {u v : Usage} {l m : List String} {i j : Bool}
    (huv : u ≤ v) (hlm : l ⊆ m) (hij : i = true → j = true) (h : isUsed x sheet u l i = true) :
    isUsed x sheet v m j = true := by
  cases hx : splitIdentifier? x with
  | some parts =>
    obtain ⟨parent, child⟩ := parts
    rw [isUsed_dotted_iff hx] at h ⊢
    rcases h with ⟨hi, hp⟩ | ⟨hp, hc⟩
    · exact Or.inl ⟨hij hi, huv.2 hp⟩
    · exact Or.inr ⟨huv.1 hp, huv.1 hc⟩
  | none =>
    rw [isUsed_simple_iff hx] at h ⊢
    rcases h with (hs | hl) | ⟨hi, p, hp, hc⟩
    · exact Or.inl (Or.inl (huv.1 hs))
    · exact Or.inl (Or.inr (hlm hl))
    · exact Or.inr ⟨hij hi, p, huv.2 hp, hc⟩

namespace Context

/-! ### Growing contexts -/

/-- The second context has the sheets of the first one and knows at least as much about them. -/
structure Grows (c d : Context) : Prop where
  root : d.root = c.root
  sheets : d.sheets = c.sheets
  usage : ∀ path, c.usageFor path ≤ d.usageFor path
  literals : c.literals ⊆ d.literals

theorem Grows.refl (c : Context) : c.Grows c :=
  ⟨rfl, rfl, fun _ => le_refl _, List.Subset.refl _⟩

theorem Grows.trans {c d e : Context} (h : c.Grows d) (g : d.Grows e) : c.Grows e :=
  ⟨g.root.trans h.root, g.sheets.trans h.sheets, fun path => (h.usage path).trans (g.usage path),
    List.Subset.trans h.literals g.literals⟩

theorem grows_addUse (c : Context) (u : MarkupUse) : c.Grows (c.addUse u) where
  root := rfl
  sheets := rfl
  usage _ := ⟨fun _ h => mem_static_addUse.mpr (Or.inl h),
    fun _ h => mem_dynamicParents_addUse.mpr (Or.inl h)⟩
  literals _ h := mem_addNames.mpr (Or.inl h)

theorem grows_foldl_addUse (c : Context) (us : List MarkupUse) : c.Grows (us.foldl addUse c) := by
  induction us generalizing c with
  | nil => exact Grows.refl c
  | cons u us ih => exact (grows_addUse c u).trans (ih (c.addUse u))

/-! ### Fewer violations -/

section Fewer

variable {c d : Context} {o o' : Options}

/-- A class of a sheet that a grown context reports was reported before. -/
theorem Grows.unusedIn_sublist (h : c.Grows d)
    (ho : o.ignoreDynamic = true → o'.ignoreDynamic = true) (cwd path : String) (sheet : Sheet) :
    d.unusedIn cwd o' path sheet <+ c.unusedIn cwd o path sheet := by
  simp only [unusedIn, h.root]
  refine (List.monotone_filter_right _ fun definition hd => ?_).map _
  rw [Bool.not_eq_true', ← Bool.not_eq_true] at hd ⊢
  exact fun hused => hd (isUsed_mono (h.usage path) h.literals ho hused)

/-- **A grown context has fewer violations**, and the same holds when dynamic parents begin to
count. -/
theorem Grows.reconcile_sublist (h : c.Grows d)
    (ho : o.ignoreDynamic = true → o'.ignoreDynamic = true) (cwd : String) :
    d.reconcile cwd o' <+ c.reconcile cwd o := by
  rw [reconcile, reconcile, h.sheets]
  exact List.Sublist.flatMap_right _ fun e _ => h.unusedIn_sublist ho cwd e.1 e.2

end Fewer

/-- **More use never creates a violation.**  Adding a file to a context leaves a sublist of its
violations; so does every further stretch of a run of files; and so does letting dynamic parents
count. -/
theorem violations_shrink (c : Context) (cwd : String) (o : Options) :
    (∀ u, (c.addUse u).reconcile cwd o <+ c.reconcile cwd o) ∧
    (∀ us vs : List MarkupUse,
      ((us ++ vs).foldl addUse c).reconcile cwd o <+ (us.foldl addUse c).reconcile cwd o) ∧
    c.reconcile cwd { o with ignoreDynamic := true } <+
      c.reconcile cwd { o with ignoreDynamic := false } := by
  refine ⟨fun u => ?_, fun us vs => ?_, ?_⟩
  · exact (grows_addUse c u).reconcile_sublist id cwd
  · rw [List.foldl_append]
    exact (grows_foldl_addUse _ vs).reconcile_sublist id cwd
  · exact (Grows.refl c).reconcile_sublist (fun _ => rfl) cwd

end Context

end StyleAudit.Audit
