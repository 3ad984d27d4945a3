import Mathlib.Data.List.TakeWhile
import StyleAudit.Json.Token
import StyleAudit.Proofs.Text.Pattern

/-!
# Numbers as they are written

A `NumberText` is a number in its parts, each of the form that it has to have.

* `NumberText.number?_append`: a number is read to its end, if it is followed by something that does
  not go on with it (`Stops`).
* `NumberText.of_read`: whatever is read as a number is one.
-/

namespace StyleAudit.Json

open StyleAudit.Text (takeWhile_append_of_head dropWhile_append_of_head)

/-- A run of digits. -/
def IsDigits (ds : List Char) : Prop :=
  ds ≠ [] ∧ ∀ d ∈ ds, d.isDigit = true

instance (ds : List Char) : Decidable (IsDigits ds) :=
  decidable_of_iff ((!ds.isEmpty && ds.all Char.isDigit) = true) (by simp [IsDigits])

/-- A number as it is written: a sign, digits without a zero before others, and perhaps a fraction
and a power of ten. -/
structure NumberText where
  negative : Bool
  whole : List Char
  fraction : List Char
  power : List Char
  whole_digits : IsDigits whole
  whole_zero : whole.head? = some '0' → whole = ['0']
  fraction_form : fraction = [] ∨ ∃ ds, IsDigits ds ∧ fraction = '.' :: ds
  power_form : power = [] ∨ ∃ e sign ds, (e = 'e' ∨ e = 'E') ∧
    (sign = [] ∨ sign = ['+'] ∨ sign = ['-']) ∧ IsDigits ds ∧ power = e :: sign ++ ds

/-- A number without fraction and power. -/
def NumberText.ofDigits (negative : Bool) (whole : List Char) (whole_digits : IsDigits whole)
    (whole_zero : whole.head? = some '0' → whole = ['0']) : NumberText where
  negative := negative
  whole := whole
  fraction := []
  power := []
  whole_digits := whole_digits
  whole_zero := whole_zero
  fraction_form := Or.inl rfl
  power_form := Or.inl rfl

/-- What a number can be followed by: nothing that goes on with it. -/
def Stops (rest : List Char) : Prop :=
  ∀ c ∈ rest.head?, c.isDigit = false ∧ c ≠ '.' ∧ c ≠ 'e' ∧ c ≠ 'E'

theorem stops_nil : Stops [] := fun c hc => by cases hc

theorem takeWhile_isDigit {ds rest : List Char} (hds : IsDigits ds)
    (hrest : ∀ c ∈ rest.head?, c.isDigit = false) : (ds ++ rest).takeWhile Char.isDigit = ds :=
  takeWhile_append_of_head hds.2 hrest

namespace NumberText

variable (n : NumberText)

def sign : List Char :=
  if n.negative then ['-'] else []

def text : List Char :=
  n.sign ++ (n.whole ++ (n.fraction ++ n.power))

/-- What the number is read as. -/
def token : Token :=
  if n.fraction.isEmpty && n.power.isEmpty then
    if digitLimit < n.whole.length then .longInteger n.whole.length
    else .scalar (.int (if n.negative then -(Numeral.natOf n.whole : Int)
      else Numeral.natOf n.whole))
  else
    match Numeral.decimal? (n.whole ++ n.fraction ++ n.power) with
    | some d => .scalar (.float (d.value n.negative))
    | none => .bad

variable {n} {rest : List Char}

theorem stops_power (h : Stops rest) :
    ∀ c ∈ (n.power ++ rest).head?, c.isDigit = false ∧ c ≠ '.' := by
  intro c hc
  rcases n.power_form with hp | ⟨e, sign, ds, he, _, _, hp⟩
  · rw [hp, List.nil_append] at hc
    exact ⟨(h c hc).1, (h c hc).2.1⟩
  · rw [hp] at hc
    obtain rfl : e = c := by simpa using hc
    rcases he with rfl | rfl <;> decide

theorem stops_fraction (h : Stops rest) :
    ∀ c ∈ (n.fraction ++ (n.power ++ rest)).head?, c.isDigit = false := by
  intro c hc
  rcases n.fraction_form with hf | ⟨ds, _, hf⟩
  · rw [hf, List.nil_append] at hc
    exact (stops_power h c hc).1
  · rw [hf] at hc
    obtain rfl : '.' = c := by simpa using hc
    decide

/-- After its letter a power of ten may have a sign. -/
theorem exponentText_cons {e : Char} (he : e = 'e' ∨ e = 'E') (cs : List Char) :
    ∃ sign ds, cs = sign ++ ds ∧ (sign = [] ∨ sign = ['+'] ∨ sign = ['-']) ∧
      exponentText (e :: cs) = if ds.takeWhile Char.isDigit = [] then []
        else e :: sign ++ ds.takeWhile Char.isDigit := by
  have hletter : (e == 'e' || e == 'E') = true := by rcases he with rfl | rfl <;> rfl
  by_cases hplus : ∃ ds, cs = '+' :: ds
  · obtain ⟨ds, rfl⟩ := hplus
    refine ⟨['+'], ds, rfl, by simp, ?_⟩
    cases hrun : ds.takeWhile Char.isDigit <;> simp [exponentText, hletter, hrun]
  · by_cases hminus : ∃ ds, cs = '-' :: ds
    · obtain ⟨ds, rfl⟩ := hminus
      refine ⟨['-'], ds, rfl, by simp, ?_⟩
      cases hrun : ds.takeWhile Char.isDigit <;> simp [exponentText, hletter, hrun]
    · refine ⟨[], cs, rfl, by simp, ?_⟩
      rw [exponentText, if_pos hletter]
      · cases cs.takeWhile Char.isDigit <;> rfl
      · exact fun ds h => hplus ⟨ds, h⟩
      · exact fun ds h => hminus ⟨ds, h⟩

theorem exponentText_power (h : Stops rest) : exponentText (n.power ++ rest) = n.power := by
  have hstop : ∀ c ∈ rest.head?, c.isDigit = false := fun c hc => (h c hc).1
  rcases n.power_form with hp | ⟨e, sign, ds, he, hsign, hds, hp⟩
  · rw [hp, List.nil_append]
    cases rest with
    | nil => rfl
    | cons c rest =>
      obtain ⟨_, _, h1, h2⟩ := h c rfl
      simp [exponentText, h1, h2]
  · have hrun := takeWhile_isDigit hds hstop
    obtain ⟨d, ds, rfl⟩ := List.exists_cons_of_ne_nil hds.1
    have hd : d.isDigit = true := hds.2 d List.mem_cons_self
    have hplus : d ≠ '+' := by rintro rfl; cases hd
    have hminus : d ≠ '-' := by rintro rfl; cases hd
    have hletter : (e == 'e' || e == 'E') = true := by rcases he with rfl | rfl <;> rfl
    rw [List.cons_append] at hrun
    rcases hsign with rfl | rfl | rfl <;> simp [hp, exponentText, hletter, hrun, hplus, hminus]

theorem fractionText_fraction (h : Stops rest) :
    fractionText (n.fraction ++ (n.power ++ rest)) = n.fraction := by
  have hstop := stops_power (n := n) h
  rcases n.fraction_form with hf | ⟨ds, hds, hf⟩
  · rw [hf, List.nil_append]
    cases hrest : n.power ++ rest with
    | nil => rfl
    | cons c rest' =>
      have hc : c ≠ '.' := (hstop c (by rw [hrest]; rfl)).2
      simp [fractionText, hc]
  · have hrun := takeWhile_isDigit hds fun c hc => (hstop c hc).1
    obtain ⟨d, ds, rfl⟩ := List.exists_cons_of_ne_nil hds.1
    rw [hf, List.cons_append, fractionText, hrun]

theorem wholeText_whole (h : Stops rest) :
    wholeText (n.whole ++ (n.fraction ++ (n.power ++ rest))) = n.whole := by
  have hrun := takeWhile_isDigit n.whole_digits (stops_fraction (n := n) h)
  obtain ⟨d, ds, hwhole⟩ := List.exists_cons_of_ne_nil n.whole_digits.1
  by_cases hd : d = '0'
  · have hzero : n.whole = ['0'] := n.whole_zero (by rw [hwhole, hd]; rfl)
    rw [hzero]
    rfl
  · rw [hwhole, List.cons_append] at hrun ⊢
    simpa [wholeText, hd] using hrun

/-- **A number is read to its end**, whatever follows it. -/
theorem number?_append (h : Stops rest) :
    number? (n.text ++ rest) = some (n.token, n.text.length) := by
  obtain ⟨d, ds, hwhole⟩ := List.exists_cons_of_ne_nil n.whole_digits.1
  have hd : d ≠ '-' := by
    rintro rfl
    exact absurd (n.whole_digits.2 '-' (by rw [hwhole]; exact List.mem_cons_self)) (by decide)
  have hnegative : ((n.text ++ rest).head? == some '-') = n.negative := by
    cases hn : n.negative <;> simp [text, sign, hn, hwhole, hd]
  have hbody : (if n.negative = true then (n.text ++ rest).drop 1 else n.text ++ rest) =
      n.whole ++ (n.fraction ++ (n.power ++ rest)) := by
    cases hn : n.negative <;> simp [text, sign, hn]
  have hlength : n.sign.length = if n.negative = true then 1 else 0 := by
    rw [sign]
    split <;> rfl
  have hempty : n.whole.isEmpty = false := by rw [hwhole]; rfl
  simp only [number?, hnegative, hbody, wholeText_whole h, hempty, Bool.false_eq_true, if_false,
    List.drop_left, fractionText_fraction h, ← List.drop_drop, exponentText_power h]
  rw [text, List.length_append, List.length_append, List.length_append, hlength, ← Nat.add_assoc,
    ← Nat.add_assoc]
  rfl

theorem signedNat?_isSome {sign ds : List Char} (hsign : sign = [] ∨ sign = ['+'] ∨ sign = ['-'])
    (hds : IsDigits ds) : (Numeral.signedNat? (sign ++ ds)).isSome = true := by
  obtain ⟨d, ds, rfl⟩ := List.exists_cons_of_ne_nil hds.1
  have hd : d.isDigit = true := hds.2 d List.mem_cons_self
  have hplus : d ≠ '+' := by rintro rfl; cases hd
  have hminus : d ≠ '-' := by rintro rfl; cases hd
  have hmore : ∀ x ∈ ds, x.isDigit = true := fun x hx => hds.2 x (List.mem_cons_of_mem d hx)
  rcases hsign with rfl | rfl | rfl <;>
    simpa [Numeral.signedNat?, hplus, hminus, hd, ite_eq_iff] using hmore

theorem decimal?_isSome : (Numeral.decimal? (n.whole ++ n.fraction ++ n.power)).isSome = true := by
  have hwhole : ∀ c ∈ (n.fraction ++ n.power).head?, c.isDigit = false := by
    simpa using stops_fraction (n := n) stops_nil
  have hpower : ∀ c ∈ n.power.head?, c.isDigit = false ∧ c ≠ '.' := by
    simpa using stops_power (n := n) stops_nil
  have hempty : n.whole.isEmpty = false := by simpa using n.whole_digits.1
  have hstop : ∀ c ∈ n.power.head?, c.isDigit = false := fun c hc => (hpower c hc).1
  rw [Numeral.decimal?, List.append_assoc]
  simp only [takeWhile_isDigit n.whole_digits hwhole,
    dropWhile_append_of_head n.whole_digits.2 hwhole, hempty, Bool.false_and, Bool.false_eq_true,
    if_false]
  -- Both ways of writing the fraction leave the power.
  rcases n.power_form with hp | ⟨e, sign, ds, he, hsign, hds, hp⟩
  · rcases n.fraction_form with hf | ⟨fs, hfs, hf⟩
    · simp [hf, hp]
    · have hdrop := dropWhile_append_of_head hfs.2 hstop
      rw [hp, List.append_nil] at hdrop
      simp [hf, hp, hdrop]
  · have hletter : (e == 'e' || e == 'E') = true := by rcases he with rfl | rfl <;> rfl
    have hpoint : e ≠ '.' := by rcases he with rfl | rfl <;> decide
    have hsome := signedNat?_isSome hsign hds
    rcases n.fraction_form with hf | ⟨fs, hfs, hf⟩
    · simpa [hf, hp, hpoint, hletter] using hsome
    · have hdrop := dropWhile_append_of_head hfs.2 hstop
      rw [hp, List.cons_append] at hdrop
      simp only [hf, hp, List.cons_append, hdrop, hletter, if_true, Option.isSome_map]
      exact hsome

/-- A number is read as a value, or as a whole number with too many digits. -/
theorem token_cases : (∃ v, n.token = .scalar v) ∨ ∃ digits, n.token = .longInteger digits := by
  rw [token]
  split
  · split
    · exact Or.inr ⟨_, rfl⟩
    · exact Or.inl ⟨_, rfl⟩
  · obtain ⟨d, hd⟩ := Option.isSome_iff_exists.mp (decimal?_isSome (n := n))
    rw [hd]
    exact Or.inl ⟨_, rfl⟩

/-- A number has no quote, no slash and no comma. -/
theorem plain_chars (n : NumberText) : ∀ c ∈ n.text, c ≠ '"' ∧ c ≠ '/' ∧ c ≠ ',' := by
  have hdigits : ∀ ds, IsDigits ds → ∀ c ∈ ds, c ≠ '"' ∧ c ≠ '/' ∧ c ≠ ',' := by
    intro ds hds c hc
    have hdigit := hds.2 c hc
    refine ⟨?_, ?_, ?_⟩ <;> rintro rfl <;> cases hdigit
  refine List.forall_mem_append.mpr ⟨?_, List.forall_mem_append.mpr ⟨hdigits _ n.whole_digits,
    List.forall_mem_append.mpr ⟨?_, ?_⟩⟩⟩
  · rw [sign]
    split <;> simp
  · rcases n.fraction_form with hf | ⟨ds, hds, hf⟩
    · simp [hf]
    · rw [hf]
      exact List.forall_mem_cons.mpr ⟨by decide, hdigits ds hds⟩
  · rcases n.power_form with hp | ⟨e, sign, ds, he, hsign, hds, hp⟩
    · simp [hp]
    · rw [hp]
      refine List.forall_mem_cons.mpr ⟨?_, List.forall_mem_append.mpr ⟨?_, hdigits ds hds⟩⟩
      · rcases he with rfl | rfl <;> decide
      · rcases hsign with rfl | rfl | rfl <;> simp

theorem wholeText_prefix (cs : List Char) : wholeText cs <+: cs := by
  rw [wholeText.eq_def]
  split
  · exact ⟨_, rfl⟩
  · exact List.takeWhile_prefix _

theorem fractionText_prefix (cs : List Char) : fractionText cs <+: cs := by
  rw [fractionText.eq_def]
  split
  · split
    · exact List.nil_prefix
    · rename_i ds hds
      exact List.cons_prefix_cons.mpr ⟨rfl, List.takeWhile_prefix _⟩
  · exact List.nil_prefix

theorem fractionText_form (cs : List Char) :
    fractionText cs = [] ∨ ∃ ds, IsDigits ds ∧ fractionText cs = '.' :: ds := by
  rw [fractionText.eq_def]
  split
  · split
    · exact Or.inl rfl
    · rename_i cs hds
      exact Or.inr ⟨_, ⟨hds, fun d hd => List.mem_takeWhile_imp hd⟩, rfl⟩
  · exact Or.inl rfl

theorem exponentText_prefix (cs : List Char) : exponentText cs <+: cs := by
  cases cs with
  | nil => exact List.nil_prefix
  | cons e cs =>
    by_cases he : e = 'e' ∨ e = 'E'
    · obtain ⟨sign, ds, rfl, -, heq⟩ := exponentText_cons he cs
      rw [heq]
      split
      · exact List.nil_prefix
      · exact List.cons_prefix_cons.mpr ⟨rfl, (List.prefix_append_right_inj sign).mpr
          (List.takeWhile_prefix _)⟩
    · simp [exponentText.eq_def, he]

theorem exponentText_form (cs : List Char) :
    exponentText cs = [] ∨ ∃ e sign ds, (e = 'e' ∨ e = 'E') ∧
      (sign = [] ∨ sign = ['+'] ∨ sign = ['-']) ∧ IsDigits ds ∧
        exponentText cs = e :: sign ++ ds := by
  cases cs with
  | nil => exact Or.inl rfl
  | cons e cs =>
    by_cases he : e = 'e' ∨ e = 'E'
    · obtain ⟨sign, ds, rfl, hform, heq⟩ := exponentText_cons he cs
      rw [heq]
      split
      · exact Or.inl rfl
      · rename_i hrun
        exact Or.inr ⟨e, sign, _, he, hform, ⟨hrun, fun d hd => List.mem_takeWhile_imp hd⟩, rfl⟩
    · exact Or.inl (by simp [exponentText.eq_def, he])

theorem wholeText_digits {cs : List Char} (h : wholeText cs ≠ []) : IsDigits (wholeText cs) := by
  refine ⟨h, fun d hd => ?_⟩
  rw [wholeText.eq_def] at hd
  split at hd
  · obtain rfl : d = '0' := by simpa using hd
    rfl
  · exact List.mem_takeWhile_imp hd

theorem wholeText_zero {cs : List Char} (h : (wholeText cs).head? = some '0') :
    wholeText cs = ['0'] := by
  obtain ⟨more, hmore⟩ := wholeText_prefix cs
  obtain ⟨ds, hds⟩ := List.head?_eq_some_iff.mp h
  rw [hds] at hmore
  rw [← hmore]
  rfl

/-- **What is read as a number is one.** -/
theorem of_read {cs : List Char} {token : Token} {used : Nat}
    (h : number? cs = some (token, used)) :
    ∃ (n : NumberText) (rest : List Char), cs = n.text ++ rest ∧ used = n.text.length := by
  obtain ⟨negative, hnegative⟩ : ∃ b, (cs.head? == some '-') = b := ⟨_, rfl⟩
  obtain ⟨body, hbody⟩ : ∃ body, (if negative = true then cs.drop 1 else cs) = body := ⟨_, rfl⟩
  have hsign : cs = (if negative = true then ['-'] else []) ++ body := by
    cases negative with
    | false => exact hbody
    | true =>
      obtain ⟨ds, rfl⟩ := List.head?_eq_some_iff.mp (beq_iff_eq.mp hnegative)
      rw [← hbody]
      rfl
  simp only [number?, hnegative, hbody] at h
  split at h
  · cases h
  · rename_i hempty
    obtain ⟨-, rfl⟩ := Prod.mk.inj (Option.some.inj h)
    -- Each part is a prefix of what is left.
    have hdigits := wholeText_digits (by simpa using hempty : wholeText body ≠ [])
    have hzero := @wholeText_zero body
    obtain ⟨rest, hrest⟩ := wholeText_prefix body
    generalize wholeText body = whole at *
    subst hrest
    have hfraction := fractionText_form rest
    obtain ⟨rest', hrest'⟩ := fractionText_prefix rest
    rw [← List.drop_drop, List.drop_left]
    generalize fractionText rest = fraction at *
    subst hrest'
    have hpower := exponentText_form rest'
    obtain ⟨rest'', hrest''⟩ := exponentText_prefix rest'
    rw [List.drop_left]
    generalize exponentText rest' = power at *
    subst hrest''
    refine ⟨⟨negative, whole, fraction, power, hdigits, hzero, hfraction, hpower⟩, rest'', ?_, ?_⟩
    · rw [hsign]
      simp [text, sign]
    · cases negative <;> simp [text, sign] <;> omega

end NumberText

end StyleAudit.Json
