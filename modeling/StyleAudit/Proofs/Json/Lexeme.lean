import StyleAudit.Proofs.Json.NumberText
import StyleAudit.Proofs.Json.StringText

/-!
# Tokens as they are written

A lexeme is a token as it stands in a text: a mark, a string between quotes with its escapes, a
value word, or a number.  Strings and numbers carry their form with them, so that every lexeme is a
token of some text.

* `Lexeme.exists_text`: what a lexeme is read as depends neither on its position nor on what follows
  it.
* `exists_lexeme_of_read`: whatever is read as a token is a lexeme.
-/

namespace StyleAudit.Json

open StyleAudit.Text

/-- A token as it is written. -/
inductive Lexeme where
  | beginObject
  | endObject
  | beginArray
  | endArray
  | comma
  | colon
  | string (body : List Char) (form : StringBody body)
  | word (name : List Char) (known : name ∈ valueWords.map Prod.fst)
  | number (n : NumberText)

namespace Lexeme

def text : Lexeme → List Char
  | .beginObject => ['{']
  | .endObject => ['}']
  | .beginArray => ['[']
  | .endArray => [']']
  | .comma => [',']
  | .colon => [':']
  | .string body _ => '"' :: (body ++ ['"'])
  | .word name _ => name
  | .number n => n.text

@[simp] theorem text_beginObject : beginObject.text = ['{'] := rfl
@[simp] theorem text_endObject : endObject.text = ['}'] := rfl
@[simp] theorem text_beginArray : beginArray.text = ['['] := rfl
@[simp] theorem text_endArray : endArray.text = [']'] := rfl
@[simp] theorem text_comma : comma.text = [','] := rfl
@[simp] theorem text_colon : colon.text = [':'] := rfl

def isNumber : Lexeme → Bool
  | .number _ => true
  | _ => false

/-- The lexeme closes an array or an object. -/
def isCloser : Lexeme → Bool
  | .endObject => true
  | .endArray => true
  | _ => false

/-- What the lexeme is read as. -/
def token (x : Lexeme) : Token :=
  match x.text with
  | [] => .bad
  | c :: cs => (Token.read 0 c cs).1

end Lexeme

theorem Token.read_of_number {c : Char} (hc : c.isDigit = true ∨ c = '-') (position : Nat)
    (cs : List Char) :
    Token.read position c cs =
      match valueWord? (c :: cs) with
      | some (v, used) => (.scalar v, used - 1)
      | none =>
        match number? (c :: cs) with
        | some (token, used) => (token, used - 1)
        | none => (.bad, cs.length) := by
  rw [Token.read.eq_def]
  split
  all_goals first | rfl | exact absurd hc (by decide)

/-- No value word begins as a number does. -/
theorem NumberText.valueWord?_append (n : NumberText) (rest : List Char) :
    valueWord? (n.text ++ rest) = none := by
  obtain ⟨d, ds, hwhole⟩ := List.exists_cons_of_ne_nil n.whole_digits.1
  have hd : d.isDigit = true := n.whole_digits.2 d (by rw [hwhole]; exact List.mem_cons_self)
  have hne : ∀ c : Char, c.isDigit = false → d ≠ c := by
    rintro c hc rfl
    rw [hd] at hc
    cases hc
  have hletters := And.intro (hne 'n' rfl) (And.intro (hne 't' rfl) (And.intro (hne 'f' rfl)
    (And.intro (hne 'N' rfl) (And.intro (hne 'I' rfl) (hne '-' rfl)))))
  rw [valueWord?, List.findSome?_eq_none_iff]
  intro w hw
  simp only [valueWords, List.mem_cons, List.not_mem_nil, or_false] at hw
  cases hn : n.negative <;> rcases hw with rfl | rfl | rfl | rfl | rfl | rfl <;>
    simp [text, sign, hn, hwhole, hletters]

namespace NumberText

/-- A number begins with a digit or a minus sign. -/
theorem exists_text (n : NumberText) :
    ∃ c cs, n.text = c :: cs ∧ (c.isDigit = true ∨ c = '-') := by
  obtain ⟨d, ds, hwhole⟩ := List.exists_cons_of_ne_nil n.whole_digits.1
  have hd : d.isDigit = true := n.whole_digits.2 d (by rw [hwhole]; exact List.mem_cons_self)
  cases hn : n.negative with
  | false =>
    exact ⟨d, ds ++ (n.fraction ++ n.power), by simp [text, sign, hn, hwhole], Or.inl hd⟩
  | true =>
    exact ⟨'-', n.whole ++ (n.fraction ++ n.power), by simp [text, sign, hn], Or.inr rfl⟩

theorem read_append {n : NumberText} {c : Char} {cs rest : List Char} (htext : n.text = c :: cs)
    (hc : c.isDigit = true ∨ c = '-') (h : Stops rest) (position : Nat) :
    Token.read position c (cs ++ rest) = (n.token, cs.length) := by
  have hword := n.valueWord?_append rest
  have hnumber := number?_append (n := n) h
  rw [htext, List.cons_append] at hword hnumber
  rw [Token.read_of_number hc, hword, hnumber]
  rfl

end NumberText

namespace Lexeme

theorem token_number (n : NumberText) : (number n).token = n.token := by
  obtain ⟨c, cs, htext, hc⟩ := n.exists_text
  have hread := NumberText.read_append htext hc stops_nil 0
  rw [List.append_nil] at hread
  simp only [token, text, htext, hread]

theorem read_string {body : List Char} {s : List Code}
    (hs : ∀ start position rest,
      readStringFrom start 0 position (body ++ '"' :: rest) = .ok (s, body.length + 1))
    (position : Nat) (rest : List Char) :
    Token.read position '"' (body ++ '"' :: rest) =
      (.string ⟨s⟩, (body ++ ['"']).length) := by
  simp only [Token.read, hs position (position + 1) rest, List.length_append,
    List.length_singleton]

theorem token_string {body : List Char} {s : List Code} (form : StringBody body)
    (hs : ∀ start position rest,
      readStringFrom start 0 position (body ++ '"' :: rest) = .ok (s, body.length + 1)) :
    (string body form).token = .string ⟨s⟩ := by
  simp only [token, text, read_string hs]

theorem token_word {name : List Char} (known : name ∈ valueWords.map Prod.fst) :
    ∃ v, (word name known).token = .scalar v := by
  have hname := known
  simp only [valueWords, List.map_cons, List.map_nil, List.mem_cons, List.not_mem_nil,
    or_false] at hname
  rcases hname with rfl | rfl | rfl | rfl | rfl | rfl <;> exact ⟨_, rfl⟩

/-- **A lexeme is read as its token**, wherever it stands and whatever follows that does not go on
with it. -/
theorem exists_text (x : Lexeme) : ∃ c cs, x.text = c :: cs ∧ ∀ position rest,
    (x.isNumber = true → Stops rest) →
      Token.read position c (cs ++ rest) = (x.token, cs.length) := by
  cases x with
  | beginObject => exact ⟨'{', [], rfl, fun _ _ _ => rfl⟩
  | endObject => exact ⟨'}', [], rfl, fun _ _ _ => rfl⟩
  | beginArray => exact ⟨'[', [], rfl, fun _ _ _ => rfl⟩
  | endArray => exact ⟨']', [], rfl, fun _ _ _ => rfl⟩
  | comma => exact ⟨',', [], rfl, fun _ _ _ => rfl⟩
  | colon => exact ⟨':', [], rfl, fun _ _ _ => rfl⟩
  | string body form =>
    obtain ⟨s, hs⟩ := form.exists_reading
    refine ⟨'"', body ++ ['"'], rfl, fun position rest _ => ?_⟩
    rw [List.append_assoc, List.singleton_append, read_string hs, token_string form hs]
  | word name known =>
    have hname := known
    simp only [valueWords, List.map_cons, List.map_nil, List.mem_cons, List.not_mem_nil,
      or_false] at hname
    rcases hname with rfl | rfl | rfl | rfl | rfl | rfl
    · exact ⟨'n', "ull".toList, rfl, fun _ _ _ => rfl⟩
    · exact ⟨'t', "rue".toList, rfl, fun _ _ _ => rfl⟩
    · exact ⟨'f', "alse".toList, rfl, fun _ _ _ => rfl⟩
    · exact ⟨'N', "aN".toList, rfl, fun _ _ _ => rfl⟩
    · exact ⟨'I', "nfinity".toList, rfl, fun _ _ _ => rfl⟩
    · exact ⟨'-', "Infinity".toList, rfl, fun _ _ _ => rfl⟩
  | number n =>
    obtain ⟨c, cs, htext, hc⟩ := n.exists_text
    refine ⟨c, cs, htext, fun position rest h => ?_⟩
    rw [NumberText.read_append htext hc (h rfl), token_number]

/-! ### Characters of a lexeme -/

theorem toNat_of_isDigit {c : Char} (h : c.isDigit = true) : 48 ≤ c.toNat ∧ c.toNat ≤ 57 := by
  simpa [Char.isDigit, UInt32.le_iff_toNat_le] using h

theorem not_isBlank_of_isDigit {c : Char} (h : c.isDigit = true) : isBlank c = false := by
  obtain ⟨hlow, hhigh⟩ := toNat_of_isDigit h
  simp [isBlank]
  omega

/-- How a value word begins, and of what letters it is. -/
theorem word_facts : ∀ name ∈ valueWords.map Prod.fst,
    (∀ c ∈ name.head?, c.toNat < 0x80 ∧ isBlank c = false ∧ (c == '}' || c == ']') = false ∧
      c.isDigit = false ∧ c ≠ '.' ∧ c ≠ 'e' ∧ c ≠ 'E') ∧
    ∀ c ∈ name, c ≠ '"' ∧ c ≠ '/' ∧ c ≠ ',' := by
  simp [valueWords, isBlank]

/-- How a lexeme begins: in ASCII, not with a blank, with a closing bracket only if it is one, and
not as a number goes on unless it is one. -/
theorem head_facts {x : Lexeme} {c : Char} {cs : List Char} (h : x.text = c :: cs) :
    c.toNat < 0x80 ∧ isBlank c = false ∧ ((c == '}' || c == ']') = x.isCloser) ∧
      (x.isNumber = false → c.isDigit = false ∧ c ≠ '.' ∧ c ≠ 'e' ∧ c ≠ 'E') := by
  cases x with
  | word name known =>
    obtain ⟨hascii, hblank, hcloser, hnumber⟩ :=
      (word_facts name known).1 c (by rw [show name = c :: cs from h]; rfl)
    exact ⟨hascii, hblank, hcloser, fun _ => hnumber⟩
  | number n =>
    obtain ⟨d, ds, htext, hd⟩ := n.exists_text
    obtain ⟨rfl, rfl⟩ := List.cons.inj (htext.symm.trans h)
    rcases hd with hd | rfl
    · have hascii := (toNat_of_isDigit hd).2
      refine ⟨by omega, not_isBlank_of_isDigit hd, ?_, fun hn => by cases hn⟩
      have hcurly : d ≠ '}' := by rintro rfl; cases hd
      have hsquare : d ≠ ']' := by rintro rfl; cases hd
      simp [hcurly, hsquare, isCloser]
    · exact ⟨by decide, by decide, rfl, fun hn => by cases hn⟩
  | string body form =>
    cases h
    exact ⟨by decide, by decide, rfl, fun _ => by decide⟩
  | _ =>
    cases h
    decide

/-- Outside strings no lexeme has a quote or a slash, and none but the comma has a comma. -/
theorem plain_chars {x : Lexeme} (h : ∀ body form, x ≠ .string body form) (hcomma : x ≠ .comma) :
    ∀ c ∈ x.text, c ≠ '"' ∧ c ≠ '/' ∧ c ≠ ',' := by
  cases x with
  | string body form => exact absurd rfl (h body form)
  | comma => exact absurd rfl hcomma
  | word name known => exact (word_facts name known).2
  | number n => exact n.plain_chars
  | _ => simp [text]

end Lexeme

/-! ### What is read -/

/-- The token says that none begins there, or that a string goes wrong. -/
def Token.IsFault : Token → Prop
  | .bad => True
  | .badString _ _ => True
  | _ => False

theorem exists_word_of_valueWord? {cs : List Char} {v : Json} {used : Nat}
    (h : valueWord? cs = some (v, used)) :
    ∃ (name : List Char) (_ : name ∈ valueWords.map Prod.fst) (rest : List Char),
      cs = name ++ rest ∧ used = name.length := by
  rw [valueWord?] at h
  obtain ⟨⟨name, v'⟩, hmem, hfound⟩ := List.exists_of_findSome?_eq_some h
  simp only at hfound
  split at hfound
  · rename_i htake
    obtain ⟨-, rfl⟩ := Prod.mk.inj (Option.some.inj hfound)
    have hprefix : name <+: cs := List.prefix_iff_eq_take.mpr (beq_iff_eq.mp htake).symm
    obtain ⟨rest, hrest⟩ := hprefix
    exact ⟨name, List.mem_map_of_mem hmem, rest, hrest.symm, rfl⟩
  · cases hfound

/-- **Whatever is read as a token is a lexeme.** -/
theorem exists_lexeme_of_read {position : Nat} {c : Char} {cs : List Char} {found : Token × Nat}
    (hfound : Token.read position c cs = found) (h : ¬ found.1.IsFault) :
    ∃ (x : Lexeme) (rest : List Char), c :: cs = x.text ++ rest ∧ found.2 + 1 = x.text.length := by
  rw [Token.read.eq_def] at hfound
  split at hfound
  · exact ⟨.beginObject, cs, rfl, by rw [← hfound]; rfl⟩
  · exact ⟨.endObject, cs, rfl, by rw [← hfound]; rfl⟩
  · exact ⟨.beginArray, cs, rfl, by rw [← hfound]; rfl⟩
  · exact ⟨.endArray, cs, rfl, by rw [← hfound]; rfl⟩
  · exact ⟨.comma, cs, rfl, by rw [← hfound]; rfl⟩
  · exact ⟨.colon, cs, rfl, by rw [← hfound]; rfl⟩
  · split at hfound
    · rename_i s used hread
      obtain ⟨body, rest, form, rfl, rfl⟩ := StringBody.of_read hread
      refine ⟨.string body form, rest, by simp [Lexeme.text], ?_⟩
      rw [← hfound]
      simp [Lexeme.text]
    · subst hfound
      exact absurd trivial h
  · split at hfound
    · rename_i v used hword
      obtain ⟨name, known, rest, htext, rfl⟩ := exists_word_of_valueWord? hword
      have hne : name ≠ [] := by rintro rfl; exact absurd known (by decide)
      refine ⟨.word name known, rest, htext, ?_⟩
      rw [← hfound]
      exact Nat.sub_add_cancel (List.length_pos_iff.mpr hne)
    · split at hfound
      · rename_i token used hnumber
        obtain ⟨n, rest, htext, rfl⟩ := NumberText.of_read hnumber
        obtain ⟨d, ds, hd, _⟩ := n.exists_text
        refine ⟨.number n, rest, htext, ?_⟩
        rw [← hfound]
        simp [Lexeme.text, hd]
      · subst hfound
        exact absurd trivial h

end StyleAudit.Json
