import Mathlib.Data.List.DropRight
import StyleAudit.Text.Blank

/-!
# Blanks around a text

A text is blanks, what `trim` leaves of it, and blanks again (`exists_append_trim`).  What is left
begins and ends with no blank, and a text like this is left as it is (`trim_of_ends`).
-/

namespace StyleAudit.Text

theorem trimRight_eq_rdropWhile (cs : List Char) : trimRight cs = cs.rdropWhile isBlank := rfl

/-- Trimming takes blanks away at both ends and nothing else. -/
theorem exists_append_trim (cs : List Char) :
    ∃ before after, (∀ c ∈ before, isBlank c = true) ∧ (∀ c ∈ after, isBlank c = true) ∧
      cs = before ++ (trim cs ++ after) := by
  refine ⟨cs.takeWhile isBlank, (trimLeft cs).rtakeWhile isBlank,
    fun c hc => List.mem_takeWhile_imp hc, fun c hc => List.mem_rtakeWhile_imp hc, ?_⟩
  rw [trim, trimRight_eq_rdropWhile, List.rdropWhile_append_rtakeWhile, trimLeft,
    List.takeWhile_append_dropWhile]

theorem isBlank_of_mem_head?_trim {cs : List Char} : ∀ c ∈ (trim cs).head?, isBlank c = false := by
  intro c hc
  obtain ⟨rest, hrest⟩ : trim cs <+: trimLeft cs := List.rdropWhile_prefix isBlank _
  have hhead : (cs.dropWhile isBlank).head? = some c := by
    change (trimLeft cs).head? = some c
    rw [← hrest, List.head?_append, hc]
    rfl
  have hnot := List.head?_dropWhile_not isBlank cs
  rwa [hhead] at hnot

theorem isBlank_of_mem_getLast?_trim {cs : List Char} :
    ∀ c ∈ (trim cs).getLast?, isBlank c = false := by
  intro c hc
  obtain ⟨hne, rfl⟩ := List.mem_getLast?_eq_getLast hc
  exact Bool.eq_false_iff.mpr (List.rdropWhile_last_not isBlank (trimLeft cs) hne)

theorem trim_of_ends {cs : List Char} (hfirst : ∀ c ∈ cs.head?, isBlank c = false)
    (hlast : ∀ c ∈ cs.getLast?, isBlank c = false) : trim cs = cs := by
  have hleft : trimLeft cs = cs := by
    cases cs with
    | nil => rfl
    | cons c cs => exact List.dropWhile_cons_of_neg (by simp [hfirst c rfl])
  rw [trim, hleft, trimRight_eq_rdropWhile, List.rdropWhile_eq_self_iff]
  intro hne
  exact Bool.eq_false_iff.mp (hlast _ (List.getLast_mem_getLast? hne))

@[simp] theorem trim_trim (cs : List Char) : trim (trim cs) = trim cs :=
  trim_of_ends isBlank_of_mem_head?_trim isBlank_of_mem_getLast?_trim

end StyleAudit.Text
