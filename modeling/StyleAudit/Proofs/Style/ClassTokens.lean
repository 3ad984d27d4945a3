import Mathlib.Data.List.TakeWhile
import StyleAudit.Proofs.Text.Pattern
import StyleAudit.Style.Selector

/-!
# The class tokens of a selector

A selector is read twice, once for the class tokens right after `&` and once for all the others,
with every `&.x` cut down to `&`.  `findAll_classToken_perm` says that the two readings share out the
class tokens of the selector: none is lost, and none comes up twice.  The proof moves both readings
over the text together; cutting `&.x` down to `&` changes neither a run of class characters nor what
ends it (`className?_cutParents`).

Class names hold no dot (`dot_notMem_of_mem_findAll`), and a suffix after `&` holds no class token
(`findAll_classToken_of_parentSuffix?`).
-/

namespace StyleAudit.Style

open StyleAudit.Text

/-! ### Runs of class characters -/

theorem isClassChar_dot : isClassChar '.' = false := by decide

theorem isClassChar_amp : isClassChar '&' = false := by decide

theorem ne_dot_of_isClassChar {c : Char} (h : isClassChar c = true) : c ≠ '.' := by
  rintro rfl
  rw [isClassChar_dot] at h
  cases h

theorem ne_amp_of_isClassChar {c : Char} (h : isClassChar c = true) : c ≠ '&' := by
  rintro rfl
  rw [isClassChar_amp] at h
  cases h

theorem wholeRun?_eq_some {cs run rest : List Char} (h : wholeRun? cs = some (run, rest)) :
    cs = run ++ rest ∧ ∀ c ∈ run, isClassChar c = true := by
  rw [wholeRun?] at h
  split at h
  · cases h
  · cases h
    exact ⟨List.takeWhile_append_dropWhile.symm, fun c hc => List.mem_takeWhile_imp hc⟩

theorem className?_eq_some {cs name rest : List Char} (h : className? cs = some (name, rest)) :
    cs = name ++ rest ∧ ∀ c ∈ name, isClassChar c = true := by
  rw [className?] at h
  split at h
  · exact wholeRun?_eq_some h
  · cases h

/-! ### Class tokens -/

theorem classToken_blind : classToken.Blind := by
  intro before cs
  unfold classToken
  split <;> rfl

theorem classToken_of_ne {c : Char} (h : c ≠ '.') (before : Option Char) (cs : List Char) :
    classToken before (c :: cs) = none := by
  unfold classToken
  split
  · rename_i heq
    cases heq
    exact absurd rfl h
  · rfl

theorem findAll_classToken_of_ne {c : Char} (h : c ≠ '.') (cs : List Char) :
    classToken.findAll (c :: cs) = classToken.findAll cs :=
  classToken_blind.findAll_of_none (classToken_of_ne h none cs)

theorem findAll_classToken_of_some {cs name rest : List Char}
    (h : className? cs = some (name, rest)) :
    classToken.findAll ('.' :: cs) = name :: classToken.findAll rest := by
  obtain ⟨rfl, _⟩ := className?_eq_some h
  exact classToken_blind.findAll_of_some h

theorem findAll_classToken_of_none {cs : List Char} (h : className? cs = none) :
    classToken.findAll ('.' :: cs) = classToken.findAll cs :=
  classToken_blind.findAll_of_none h

/-- A run of class characters holds no class token. -/
theorem findAll_classToken_run {run : List Char} (h : ∀ c ∈ run, isClassChar c = true)
    (cs : List Char) : classToken.findAll (run ++ cs) = classToken.findAll cs := by
  induction run with
  | nil => rfl
  | cons c run ih =>
    rw [List.cons_append,
      findAll_classToken_of_ne (ne_dot_of_isClassChar (h c List.mem_cons_self)),
      ih fun c' hc' => h c' (List.mem_cons_of_mem c hc')]

theorem dot_notMem_of_mem_findAll {cs name : List Char} (h : name ∈ classToken.findAll cs) :
    '.' ∉ name := by
  obtain ⟨before, t, rest, ht⟩ := Pattern.exists_hit_of_mem_findAll h
  unfold classToken at ht
  split at ht
  · intro hd
    exact ne_dot_of_isClassChar ((className?_eq_some ht).2 '.' hd) rfl
  · cases ht

/-! ### Class tokens after `&` -/

theorem parentClass_blind : parentClass.Blind := by
  intro before cs
  unfold parentClass
  split
  · exact classToken_blind before _
  · rfl

theorem parentClass_of_ne {c : Char} (h : c ≠ '&') (before : Option Char) (cs : List Char) :
    parentClass before (c :: cs) = none := by
  unfold parentClass
  split
  · rename_i heq
    cases heq
    exact absurd rfl h
  · rfl

/-- The selector with every `&.x` cut down to `&`. -/
def cutParents (cs : List Char) : List Char :=
  parentClass.replace (fun _ => ['&']) cs

@[simp] theorem cutParents_nil : cutParents [] = [] := rfl

theorem findAll_parentClass_of_ne {c : Char} (h : c ≠ '&') (cs : List Char) :
    parentClass.findAll (c :: cs) = parentClass.findAll cs :=
  parentClass_blind.findAll_of_none (parentClass_of_ne h none cs)

theorem cutParents_of_ne {c : Char} (h : c ≠ '&') (cs : List Char) :
    cutParents (c :: cs) = c :: cutParents cs :=
  parentClass_blind.replace_of_none _ (parentClass_of_ne h none cs)

/-- What `&` does at the front of a text: a class token after it makes a hit, and otherwise it is a
character like any other. -/
theorem amp_cases (cs : List Char) :
    (∃ name rest, cs = '.' :: (name ++ rest) ∧ className? (name ++ rest) = some (name, rest) ∧
      parentClass.findAll ('&' :: cs) = name :: parentClass.findAll rest ∧
      cutParents ('&' :: cs) = '&' :: cutParents rest) ∨
    (parentClass.findAll ('&' :: cs) = parentClass.findAll cs ∧
      cutParents ('&' :: cs) = '&' :: cutParents cs) := by
  cases hp : classToken none cs with
  | none =>
    exact Or.inr ⟨parentClass_blind.findAll_of_none hp, parentClass_blind.replace_of_none _ hp⟩
  | some found =>
    obtain ⟨name, rest⟩ := found
    unfold classToken at hp
    split at hp
    · rename_i t
      obtain ⟨rfl, _⟩ := className?_eq_some hp
      -- the hit covers `&`, the dot and the name
      have hhit : parentClass none ('&' :: ('.' :: name ++ rest)) = some (name, rest) := hp
      exact Or.inl ⟨name, rest, rfl, hp, parentClass_blind.findAll_of_some hhit,
        parentClass_blind.replace_of_some _ hhit⟩
    · cases hp

theorem head?_cutParents (cs : List Char) : (cutParents cs).head? = cs.head? := by
  cases cs with
  | nil => rfl
  | cons c cs =>
    by_cases h : c = '&'
    · subst h
      rcases amp_cases cs with ⟨_, _, _, _, _, hcut⟩ | ⟨_, hcut⟩ <;> rw [hcut] <;> rfl
    · rw [cutParents_of_ne h]; rfl

theorem findAll_parentClass_run {run : List Char} (h : ∀ c ∈ run, isClassChar c = true)
    (cs : List Char) : parentClass.findAll (run ++ cs) = parentClass.findAll cs := by
  induction run with
  | nil => rfl
  | cons c run ih =>
    rw [List.cons_append,
      findAll_parentClass_of_ne (ne_amp_of_isClassChar (h c List.mem_cons_self)),
      ih fun c' hc' => h c' (List.mem_cons_of_mem c hc')]

/-! ### Cutting changes no run of class characters -/

theorem takeWhile_cutParents (cs : List Char) :
    (cutParents cs).takeWhile isClassChar = cs.takeWhile isClassChar := by
  induction cs with
  | nil => rfl
  | cons c cs ih =>
    by_cases h : isClassChar c = true
    · rw [cutParents_of_ne (ne_amp_of_isClassChar h), List.takeWhile_cons_of_pos h,
        List.takeWhile_cons_of_pos h, ih]
    · have hhead := head?_cutParents (c :: cs)
      cases hcut : cutParents (c :: cs) with
      | nil => rw [hcut] at hhead; cases hhead
      | cons d ds =>
        rw [hcut] at hhead
        cases hhead
        rw [List.takeWhile_cons_of_neg h, List.takeWhile_cons_of_neg h]

theorem dropWhile_cutParents (cs : List Char) :
    (cutParents cs).dropWhile isClassChar = cutParents (cs.dropWhile isClassChar) := by
  induction cs with
  | nil => rfl
  | cons c cs ih =>
    by_cases h : isClassChar c = true
    · rw [cutParents_of_ne (ne_amp_of_isClassChar h), List.dropWhile_cons_of_pos h,
        List.dropWhile_cons_of_pos h, ih]
    · have hhead := head?_cutParents (c :: cs)
      rw [List.dropWhile_cons_of_neg h]
      cases hcut : cutParents (c :: cs) with
      | nil => rfl
      | cons d ds =>
        rw [hcut] at hhead
        cases hhead
        exact List.dropWhile_cons_of_neg h

/-- An interpolation is told by two characters, and neither of them is `&`. -/
theorem startsInterpolation_iff (cs : List Char) :
    startsInterpolation cs = true ↔
      (cs.head? = some '#' ∨ cs.head? = some '@') ∧ cs.tail.head? = some '{' := by
  match cs with
  | [] => simp [startsInterpolation]
  | [c] => simp [startsInterpolation]
  | c :: d :: cs =>
    unfold startsInterpolation
    split
    · rename_i heq; cases heq; simp
    · rename_i heq; cases heq; simp
    · rename_i h₁ h₂
      simp only [List.head?_cons, List.tail_cons, Option.some.injEq]
      constructor
      · intro h; cases h
      · rintro ⟨rfl | rfl, rfl⟩
        · exact absurd rfl (h₁ cs)
        · exact absurd rfl (h₂ cs)

theorem startsInterpolation_cutParents (cs : List Char) :
    startsInterpolation (cutParents cs) = startsInterpolation cs := by
  rw [Bool.eq_iff_iff, startsInterpolation_iff, startsInterpolation_iff, head?_cutParents]
  cases cs with
  | nil => rfl
  | cons c cs =>
    by_cases h : c = '&'
    · subst h; simp
    · rw [cutParents_of_ne h, List.tail_cons, List.tail_cons, head?_cutParents]

/-- A class name stays at the front of a text whose parents are cut. -/
theorem className?_cutParents (cs : List Char) :
    className? (cutParents cs) = (className? cs).map fun found => (found.1, cutParents found.2) := by
  rw [className?, className?, takeWhile_cutParents]
  split
  · rw [wholeRun?, wholeRun?, dropWhile_cutParents, startsInterpolation_cutParents,
      takeWhile_cutParents]
    split <;> rfl
  · rfl

/-! ### Nothing is lost -/

/-- **The two readings of a selector share out its class tokens**: those right after `&`, and those
that are left when these are cut. -/
theorem findAll_classToken_perm (cs : List Char) :
    (classToken.findAll cs).Perm
      (parentClass.findAll cs ++ classToken.findAll (cutParents cs)) := by
  -- by induction on the length, since a hit takes more than one character
  induction hn : cs.length using Nat.strong_induction_on generalizing cs with
  | _ n ih =>
    subst hn
    cases cs with
    | nil => exact List.Perm.refl _
    | cons c cs =>
      by_cases hamp : c = '&'
      · subst hamp
        rw [findAll_classToken_of_ne (by decide)]
        rcases amp_cases cs with ⟨name, rest, rfl, hname, hfind, hcut⟩ | ⟨hfind, hcut⟩
        · rw [hfind, hcut, findAll_classToken_of_some hname, findAll_classToken_of_ne (by decide)]
          refine (ih rest.length ?_ rest rfl).cons name
          simp only [List.length_cons, List.length_append]
          omega
        · rw [hfind, hcut, findAll_classToken_of_ne (by decide)]
          exact ih cs.length (by simp) cs rfl
      · rw [findAll_parentClass_of_ne hamp, cutParents_of_ne hamp]
        by_cases hdot : c = '.'
        · subst hdot
          cases hname : className? cs with
          | none =>
            have hcut : className? (cutParents cs) = none := by rw [className?_cutParents, hname]; rfl
            rw [findAll_classToken_of_none hname, findAll_classToken_of_none hcut]
            exact ih cs.length (by simp) cs rfl
          | some found =>
            obtain ⟨name, rest⟩ := found
            have hcut : className? (cutParents cs) = some (name, cutParents rest) := by
              rw [className?_cutParents, hname]; rfl
            obtain ⟨rfl, hrun⟩ := className?_eq_some hname
            rw [findAll_classToken_of_some hname, findAll_classToken_of_some hcut,
              findAll_parentClass_run hrun]
            refine ((ih rest.length ?_ rest rfl).cons name).trans List.perm_middle.symm
            simp only [List.length_cons, List.length_append]
            omega
        · rw [findAll_classToken_of_ne hdot, findAll_classToken_of_ne hdot]
          exact ih cs.length (by simp) cs rfl

theorem mem_findAll_classToken_iff {cs name : List Char} :
    name ∈ classToken.findAll cs ↔
      name ∈ parentClass.findAll cs ∨ name ∈ classToken.findAll (cutParents cs) := by
  rw [(findAll_classToken_perm cs).mem_iff, List.mem_append]

/-! ### Suffixes -/

theorem parentSuffix?_eq_some {cs suffix rest : List Char}
    (h : parentSuffix? cs = some (suffix, rest)) :
    cs = '&' :: (suffix ++ rest) ∧ ∀ c ∈ suffix, isClassChar c = true := by
  unfold parentSuffix? at h
  split at h
  · split at h
    · obtain ⟨he, hrun⟩ := wholeRun?_eq_some h
      exact ⟨by rw [he], hrun⟩
    · cases h
  · cases h

/-- A suffix after `&` holds no class token. -/
theorem findAll_classToken_of_parentSuffix? {cs suffix rest : List Char}
    (h : parentSuffix? cs = some (suffix, rest)) :
    classToken.findAll cs = classToken.findAll rest := by
  obtain ⟨rfl, hrun⟩ := parentSuffix?_eq_some h
  rw [findAll_classToken_of_ne (by decide), findAll_classToken_run hrun]

theorem dot_notMem_of_parentSuffix? {cs suffix rest : List Char}
    (h : parentSuffix? cs = some (suffix, rest)) : '.' ∉ suffix := fun hd =>
  ne_dot_of_isClassChar ((parentSuffix?_eq_some h).2 '.' hd) rfl

end StyleAudit.Style
