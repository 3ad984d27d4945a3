import StyleAudit.Proofs.Json.Document
import StyleAudit.Proofs.Json.PrintedString

/-!
# Values as they are printed

What is printed is a document, with spaces and nothing else between its lexemes.

* `Lexeme.value?_ofInt`: a printed whole number is read as itself, if it does not have too many
  digits.
* `Prints`: the text is a phrase, printed with spaces between its lexemes.
-/

namespace StyleAudit.Json

open StyleAudit.Text

theorem Lexeme.value?_ofText (t : CodeText) :
    (ofText t).value? = some (.ok (.string t.joined)) := by
  rw [value?, token_ofText]

/-! ### Whole numbers -/

/-- The digits of a whole number. -/
def digitsOf (n : Int) : List Char :=
  Nat.toDigits 10 n.natAbs

theorem isDigits_digitsOf (n : Int) : IsDigits (digitsOf n) :=
  ⟨Nat.toDigits_ne_nil, fun _ hd => Nat.isDigit_of_mem_toDigits (by decide) (by decide) hd⟩

theorem natOf_digitsOf (n : Int) : Numeral.natOf (digitsOf n) = n.natAbs :=
  Nat.ofDigitChars_toDigits (by decide) (by decide)

/-- Only zero begins with the digit zero. -/
theorem toDigits_head_zero {n : Nat} (h : (Nat.toDigits 10 n).head? = some '0') : n = 0 := by
  have hdigit : ∀ d < 10, Nat.digitChar d = '0' → d = 0 := by decide
  induction n using Nat.strongRecOn with
  | _ n ih =>
    rw [Nat.toDigits_eq_if (by decide)] at h
    split at h
    · rename_i hn
      exact hdigit n hn (by simpa using h)
    · rw [List.head?_append_of_ne_nil _ Nat.toDigits_ne_nil] at h
      have hzero := ih (n / 10) (by omega) h
      omega

theorem digitsOf_head_zero (n : Int) (h : (digitsOf n).head? = some '0') : digitsOf n = ['0'] := by
  rw [digitsOf, toDigits_head_zero h]
  rfl

/-- A power of ten has one digit more than its exponent says. -/
theorem length_digitsOf_pow (k : Nat) : (digitsOf (Nat.pow 10 k : Nat)).length = k + 1 := by
  have hle : (digitsOf (Nat.pow 10 k : Nat)).length ≤ k + 1 :=
    (Nat.length_toDigits_le_iff (by decide) (by omega)).mpr
      (Nat.pow_lt_pow_right (by decide) (Nat.lt_succ_self k))
  have hgt : ¬ (digitsOf (Nat.pow 10 k : Nat)).length ≤ k := by
    intro h
    cases k with
    | zero => exact Nat.toDigits_ne_nil (List.eq_nil_of_length_eq_zero (Nat.le_zero.mp h))
    | succ k =>
      exact absurd ((Nat.length_toDigits_le_iff (by decide) (by omega)).mp h) (lt_irrefl _)
  omega

/-- A whole number as it is printed. -/
def NumberText.ofInt (n : Int) : NumberText :=
  .ofDigits (decide (n < 0)) (digitsOf n) (isDigits_digitsOf n) (digitsOf_head_zero n)

theorem NumberText.text_ofInt (n : Int) : (ofInt n).text = (toString n).toList := by
  rw [Int.toString_eq_repr, Int.repr_eq_if]
  by_cases hn : 0 ≤ n
  · have hnat : n.toNat = n.natAbs := by omega
    simp [text, sign, ofInt, ofDigits, digitsOf, hn, hnat, Nat.toList_repr]
  · have hnat : (-n).toNat = n.natAbs := by omega
    have hneg : n < 0 := by omega
    simp [text, sign, ofInt, ofDigits, digitsOf, hn, hneg, hnat, Nat.toList_repr]

theorem NumberText.token_ofInt (n : Int) : (ofInt n).token =
    if (digitsOf n).length ≤ digitLimit then .scalar (.int n)
    else .longInteger (digitsOf n).length := by
  have hint : (if decide (n < 0) = true then -(Numeral.natOf (digitsOf n) : Int)
      else Numeral.natOf (digitsOf n)) = n := by
    rw [natOf_digitsOf]
    split <;> rename_i hn <;> simp only [decide_eq_true_eq] at hn <;> omega
  have htoken : (ofInt n).token = if digitLimit < (digitsOf n).length then
      .longInteger (digitsOf n).length else
        .scalar (.int (if decide (n < 0) = true then -(Numeral.natOf (digitsOf n) : Int)
          else Numeral.natOf (digitsOf n))) := rfl
  rw [htoken, hint]
  by_cases hlength : (digitsOf n).length ≤ digitLimit
  · rw [if_pos hlength, if_neg (Nat.not_lt.mpr hlength)]
  · rw [if_neg hlength, if_pos (Nat.lt_of_not_le hlength)]

namespace Lexeme

def ofInt (n : Int) : Lexeme :=
  .number (.ofInt n)

theorem value?_ofInt {n : Int} (h : fitsLimit n = true) :
    (ofInt n).value? = some (.ok (.int n)) := by
  have hlength : (digitsOf n).length ≤ digitLimit := of_decide_eq_true h
  rw [value?, ofInt, token_number, NumberText.token_ofInt, if_pos hlength]

end Lexeme

/-! ### Phrases -/

/-- The text prints the phrase, with spaces before each lexeme. -/
def Prints (p : Phrase) (cs : List Char) : Prop :=
  ∃ items : List Spaced, items.flatMap Spaced.text = cs ∧ Writes p (items.map Spaced.lexeme)

/-- All meanings, or the first that fails. -/
def inOrder {α : Type} : List (Except Nat α) → Except Nat (List α)
  | [] => .ok []
  | meaning :: more => meaning.bind fun a => (inOrder more).map (a :: ·)

theorem inOrder_ok {α : Type} (as : List α) : inOrder (as.map .ok) = .ok as := by
  induction as with
  | nil => rfl
  | cons a as ih => simp [inOrder, ih, Except.bind, Except.map]

theorem inOrder_singleton {α : Type} (meaning : Except Nat α) :
    inOrder [meaning] = meaning.map ([·]) := by
  cases meaning <;> rfl

namespace Prints

theorem leaf {x : Lexeme} {meaning : Except Nat Json} (h : x.value? = some meaning) :
    Prints (.value meaning) x.text :=
  ⟨[⟨[], x⟩], by simp [Spaced.text, spaceText], .leaf h⟩

theorem spaced {p : Phrase} {cs : List Char} (spaces : List Space) (h : Prints p cs) :
    Prints p (spaceText spaces ++ cs) := by
  obtain ⟨items, rfl, hwrites⟩ := h
  cases items with
  | nil =>
    obtain ⟨⟨x, more, hnil, -⟩, -⟩ := hwrites.ends
    cases hnil
  | cons w items =>
    exact ⟨⟨spaces ++ w.spaces, w.lexeme⟩ :: items, by simp [Spaced.text, spaceText], hwrites⟩

theorem element {meaning : Except Nat Json} {cs : List Char} (h : Prints (.value meaning) cs) :
    Prints (.elements (meaning.map ([·]))) cs := by
  obtain ⟨items, htext, hwrites⟩ := h
  exact ⟨items, htext, .element hwrites⟩

theorem elements {meaning : Except Nat Json} {more : Except Nat (List Json)} {cs ds : List Char}
    (h : Prints (.value meaning) cs) (hmore : Prints (.elements more) ds) :
    Prints (.elements (meaning.bind fun v => more.map (v :: ·))) (cs ++ ',' :: ds) := by
  obtain ⟨items, rfl, hwrites⟩ := h
  obtain ⟨items', rfl, hwrites'⟩ := hmore
  refine ⟨items ++ ⟨[], .comma⟩ :: items', by simp [Spaced.text, spaceText], ?_⟩
  simpa using Writes.elements hwrites hwrites'

theorem member (name : CodeText) {meaning : Except Nat Json} {cs : List Char}
    (h : Prints (.value meaning) cs) :
    Prints (.members (meaning.map fun v => [(name.joined, v)])) (stringText name ++ ':' :: cs) := by
  obtain ⟨items, rfl, hwrites⟩ := h
  refine ⟨⟨[], .ofText name⟩ :: ⟨[], .colon⟩ :: items, ?_,
    .member (Lexeme.token_ofText name) hwrites⟩
  simp [Spaced.text, spaceText, Lexeme.text_ofText]

theorem members (name : CodeText) {meaning : Except Nat Json}
    {more : Except Nat (List (CodeText × Json))} {cs ds : List Char}
    (h : Prints (.value meaning) cs) (hmore : Prints (.members more) ds) :
    Prints (.members (meaning.bind fun v => more.map ((name.joined, v) :: ·)))
      ((stringText name ++ ':' :: cs) ++ ',' :: ds) := by
  obtain ⟨items, rfl, hwrites⟩ := h
  obtain ⟨items', rfl, hwrites'⟩ := hmore
  refine ⟨⟨[], .ofText name⟩ :: ⟨[], .colon⟩ :: (items ++ ⟨[], .comma⟩ :: items'), ?_, ?_⟩
  · simp [Spaced.text, spaceText, Lexeme.text_ofText]
  · simp only [List.map_cons, List.map_append]
    exact .members (Lexeme.token_ofText name) hwrites hwrites'

theorem array {meaning : Except Nat (List Json)} {cs : List Char} (spaces : List Space)
    (h : Prints (.elements meaning) cs) :
    Prints (.value (meaning.map .array)) ('[' :: (cs ++ (spaceText spaces ++ [']']))) := by
  obtain ⟨items, rfl, hwrites⟩ := h
  refine ⟨⟨[], .beginArray⟩ :: (items ++ [⟨spaces, .endArray⟩]), ?_, ?_⟩
  · simp [Spaced.text, spaceText]
  · simpa using Writes.array hwrites

theorem object {meaning : Except Nat (List (CodeText × Json))} {cs : List Char}
    (spaces : List Space) (h : Prints (.members meaning) cs) :
    Prints (.value (meaning.map fun entries => .object (Table.ofList entries)))
      ('{' :: (cs ++ (spaceText spaces ++ ['}']))) := by
  obtain ⟨items, rfl, hwrites⟩ := h
  refine ⟨⟨[], .beginObject⟩ :: (items ++ [⟨spaces, .endObject⟩]), ?_, ?_⟩
  · simp [Spaced.text, spaceText]
  · simpa using Writes.object hwrites

/-- Items with commas between them, each after the same spaces. -/
theorem joined {α : Type} {phrase : Except Nat (List α) → Phrase}
    {Item : Except Nat α → List Char → Prop}
    (one : ∀ {meaning cs}, Item meaning cs → Prints (phrase (meaning.map ([·]))) cs)
    (cons : ∀ {meaning more cs ds}, Item meaning cs → Prints (phrase more) ds →
      Prints (phrase (meaning.bind fun a => more.map (a :: ·))) (cs ++ ',' :: ds))
    (spaces : List Space) {first : List Char} {meaning : Except Nat α} (h : Item meaning first)
    {more : List (List Char)} {meanings : List (Except Nat α)}
    (hmore : List.Forall₂ Item meanings more) :
    Prints (phrase (inOrder (meaning :: meanings)))
      (spaceText spaces ++ (first ++ more.flatMap fun part => ',' :: (spaceText spaces ++ part))) := by
  induction hmore generalizing first meaning with
  | nil =>
    rw [inOrder_singleton, List.flatMap_nil, List.append_nil]
    exact (one h).spaced spaces
  | cons hpart _ ih =>
    have hrest := cons h (ih hpart)
    simpa [inOrder] using hrest.spaced spaces

end Prints

/-! ### Brackets -/

/-- The spaces of a new line. -/
def lineSpaces (depth : Nat) : List Space :=
  .lineEnd :: List.replicate (2 * depth) .blank

theorem spaceText_lineSpaces (depth : Nat) : spaceText (lineSpaces depth) = newLine depth := by
  simp [spaceText, lineSpaces, newLine]

theorem prints_array (depth : Nat) {parts : List (List Char)} {meanings : List (Except Nat Json)}
    (h : List.Forall₂ (fun meaning cs => Prints (.value meaning) cs) meanings parts) :
    Prints (.value ((inOrder meanings).map .array)) (bracketed '[' ']' depth parts) := by
  cases h with
  | nil =>
    exact ⟨[⟨[], .beginArray⟩, ⟨[], .endArray⟩], rfl, .emptyArray⟩
  | cons hfirst hmore =>
    have helements := Prints.joined Prints.element Prints.elements (lineSpaces (depth + 1)) hfirst
      hmore
    have harray := helements.array (lineSpaces depth)
    rw [spaceText_lineSpaces, spaceText_lineSpaces] at harray
    simpa [bracketed] using harray

/-- The text is a name, a colon and a value. -/
def IsMember (meaning : Except Nat (CodeText × Json)) (cs : List Char) : Prop :=
  ∃ name inner value, meaning = Except.map (CodeText.joined name, ·) value ∧
    cs = stringText name ++ ':' :: inner ∧
    Prints (.value value) inner

theorem prints_object (depth : Nat) {parts : List (List Char)}
    {meanings : List (Except Nat (CodeText × Json))} (h : List.Forall₂ IsMember meanings parts) :
    Prints (.value ((inOrder meanings).map fun entries => .object (Table.ofList entries)))
      (bracketed '{' '}' depth parts) := by
  have one : ∀ {meaning cs}, IsMember meaning cs →
      Prints (.members (meaning.map ([·]))) cs := by
    rintro _ _ ⟨name, inner, value, rfl, rfl, hvalue⟩
    have hmember := hvalue.member name
    cases value <;> exact hmember
  have cons : ∀ {meaning more cs ds}, IsMember meaning cs → Prints (.members more) ds →
      Prints (.members (meaning.bind fun e => more.map (e :: ·))) (cs ++ ',' :: ds) := by
    rintro _ more _ ds ⟨name, inner, value, rfl, rfl, hvalue⟩ hmore
    have hmembers := hvalue.members name hmore
    cases value <;> exact hmembers
  cases h with
  | nil =>
    exact ⟨[⟨[], .beginObject⟩, ⟨[], .endObject⟩], rfl, .emptyObject⟩
  | cons hfirst hmore =>
    have hmembers := Prints.joined one cons (lineSpaces (depth + 1)) hfirst hmore
    have hobject := hmembers.object (lineSpaces depth)
    rw [spaceText_lineSpaces, spaceText_lineSpaces] at hobject
    simpa [bracketed] using hobject

end StyleAudit.Json
