import StyleAudit.Json.Commented
import StyleAudit.Proofs.Json.Lexeme
import StyleAudit.Proofs.Text.Pattern

/-!
# Removing comments and last commas

Comments are removed first and last commas after them, each in one pass from left to right that
knows nothing of tokens.  Both passes have one equation for each thing that may stand at the front
of a text.

* `withoutComments_lexeme`, `withoutComments_line`, `withoutComments_block`: lexemes are kept and
  comments go, whatever is in them.
* `withoutLastCommas_lexeme`, `withoutLastCommas_dropped`: lexemes are kept, a comma only if no
  closing bracket follows it (`NoCloser`).
-/

namespace StyleAudit.Json

open StyleAudit.Text

/-! ### Strings -/

theorem quotedRest?_plain {escapable : Char → Bool} {c : Char} (hquote : c ≠ '"')
    (hbackslash : c ≠ '\\') (cs : List Char) :
    quotedRest? '"' (fun _ => true) escapable (c :: cs) =
      (quotedRest? '"' (fun _ => true) escapable cs).map fun (t, rest) => (c :: t, rest) := by
  rw [quotedRest?.eq_def]
  simp [hquote, hbackslash]

theorem quotedRest?_escape {escapable : Char → Bool} {c : Char} (h : escapable c = true)
    (cs : List Char) :
    quotedRest? '"' (fun _ => true) escapable ('\\' :: c :: cs) =
      (quotedRest? '"' (fun _ => true) escapable cs).map fun (t, rest) => ('\\' :: c :: t, rest) := by
  rw [quotedRest?, if_neg (by decide), if_pos (by decide)]
  simp only [h, if_true]

theorem not_quote_of_isHexDigit {c : Char} (h : isHexDigit c = true) : c ≠ '"' ∧ c ≠ '\\' := by
  constructor <;> rintro rfl <;> revert h <;> decide

/-- A quotation that may hold anything ends where the string ends. -/
theorem quotedRest?_body {escapable : Char → Bool} (hescape : ∀ c, c ≠ '\n' → escapable c = true)
    {body : List Char} (h : StringBody body) (rest : List Char) :
    quotedRest? '"' (fun _ => true) escapable (body ++ '"' :: rest) =
      some (body ++ ['"'], rest) := by
  induction h with
  | nil =>
    rw [List.nil_append, quotedRest?.eq_def]
    rfl
  | plain hquote hbackslash _ _ ih =>
    rw [List.cons_append, quotedRest?_plain hquote hbackslash, ih]
    rfl
  | @short c cs hletter _ ih =>
    have hc : c ≠ '\n' := by
      rintro rfl
      exact absurd hletter (by decide)
    rw [List.cons_append, List.cons_append, quotedRest?_escape (hescape c hc), ih]
    rfl
  | @code a b c d cs hdigits _ ih =>
    have hdigit : ∀ x ∈ [a, b, c, d], x ≠ '"' ∧ x ≠ '\\' := fun x hx =>
      not_quote_of_isHexDigit (List.all_eq_true.mp hdigits x hx)
    simp only [List.forall_mem_cons, List.not_mem_nil, false_imp_iff, implies_true, and_true]
      at hdigit
    obtain ⟨ha, hb, hc, hd⟩ := hdigit
    simp only [List.cons_append]
    rw [quotedRest?_escape (hescape 'u' (by decide)), quotedRest?_plain ha.1 ha.2,
      quotedRest?_plain hb.1 hb.2, quotedRest?_plain hc.1 hc.2, quotedRest?_plain hd.1 hd.2, ih]
    rfl

theorem stringText?_body {escapable : Char → Bool} (hescape : ∀ c, c ≠ '\n' → escapable c = true)
    {body : List Char} (h : StringBody body) (rest : List Char) :
    stringText? escapable ('"' :: (body ++ '"' :: rest)) =
      some ('"' :: (body ++ ['"']), rest) := by
  rw [stringText?, quotedRest?_body hescape h]
  rfl

theorem stringText?_of_ne {escapable : Char → Bool} {c : Char} (h : c ≠ '"') (cs : List Char) :
    stringText? escapable (c :: cs) = none := by
  rw [stringText?.eq_def]
  split
  · rename_i heq
    exact absurd (List.cons.inj heq).1 h
  · rfl

/-! ### Comments -/

theorem stringOrComment_blind : stringOrComment.Blind := fun _ _ => rfl

@[simp] theorem withoutComments_nil : withoutComments [] = [] := rfl

theorem withoutComments_hit {c : Char} {front rest kept : List Char}
    (h : stringOrComment none (c :: (front ++ rest)) = some (kept, rest)) :
    withoutComments (c :: (front ++ rest)) = kept ++ withoutComments rest :=
  stringOrComment_blind.replace_of_some id h

theorem withoutComments_plain {c : Char} (hquote : c ≠ '"') (hslash : c ≠ '/') (cs : List Char) :
    withoutComments (c :: cs) = c :: withoutComments cs := by
  refine stringOrComment_blind.replace_of_none id ?_
  simp [stringOrComment, stringText?_of_ne hquote, hslash]

theorem withoutComments_plain_append {front : List Char}
    (h : ∀ c ∈ front, c ≠ '"' ∧ c ≠ '/') (rest : List Char) :
    withoutComments (front ++ rest) = front ++ withoutComments rest := by
  induction front with
  | nil => rfl
  | cons c front ih =>
    rw [List.forall_mem_cons] at h
    rw [List.cons_append, withoutComments_plain h.1.1 h.1.2, ih h.2, List.cons_append]

/-- A comment to the end of the line leaves the line's end. -/
theorem withoutComments_line {content : List Char} (h : '\n' ∉ content) (rest : List Char) :
    withoutComments ('/' :: '/' :: (content ++ '\n' :: rest)) = '\n' :: withoutComments rest := by
  have hdrop : (content ++ '\n' :: rest).dropWhile (· != '\n') = '\n' :: rest := by
    refine dropWhile_append_of_head (fun c hc => ?_) (by simp)
    simpa using ne_of_mem_of_not_mem hc h
  have hhit : stringOrComment none ('/' :: (('/' :: content) ++ '\n' :: rest)) =
      some ([], '\n' :: rest) := by
    simp [stringOrComment, stringText?_of_ne, hdrop]
  exact (withoutComments_hit hhit).trans (withoutComments_plain (by decide) (by decide) rest)

/-- A comment in the last line goes to the end of the text. -/
theorem withoutComments_open {content : List Char} (h : '\n' ∉ content) :
    withoutComments ('/' :: '/' :: content) = [] := by
  have hdrop : content.dropWhile (· != '\n') = [] := by
    refine List.dropWhile_eq_nil_iff.mpr fun c hc => ?_
    simpa using ne_of_mem_of_not_mem hc h
  have hhit : stringOrComment none ('/' :: (('/' :: content) ++ [])) = some ([], []) := by
    simp [stringOrComment, stringText?_of_ne, hdrop]
  simpa using withoutComments_hit hhit

theorem withoutComments_block {content : List Char} (h : ¬ ['*', '/'] <:+: content)
    (rest : List Char) :
    withoutComments ('/' :: '*' :: (content ++ '*' :: '/' :: rest)) = withoutComments rest := by
  have hhit : stringOrComment none ('/' :: (('*' :: (content ++ ['*', '/'])) ++ rest)) =
      some ([], rest) := by
    simp [stringOrComment, stringText?_of_ne, splitAtMark?_pair_append (by decide) h]
  simpa using withoutComments_hit hhit

theorem withoutComments_string {body : List Char} (form : StringBody body) (rest : List Char) :
    withoutComments ('"' :: (body ++ '"' :: rest)) =
      '"' :: (body ++ '"' :: withoutComments rest) := by
  have hhit : stringOrComment none ('"' :: ((body ++ ['"']) ++ rest)) =
      some ('"' :: (body ++ ['"']), rest) := by
    simp [stringOrComment, stringText?_body (fun _ _ => rfl) form]
  simpa using withoutComments_hit hhit

/-- **No comment begins in a lexeme.** -/
theorem withoutComments_lexeme (x : Lexeme) (rest : List Char) :
    withoutComments (x.text ++ rest) = x.text ++ withoutComments rest := by
  cases x with
  | string body form =>
    simpa [Lexeme.text] using withoutComments_string form rest
  | comma => exact withoutComments_plain (by decide) (by decide) rest
  | _ =>
    refine withoutComments_plain_append (fun c hc => ?_) rest
    obtain ⟨hquote, hslash, -⟩ := Lexeme.plain_chars (by simp) (by simp) c hc
    exact ⟨hquote, hslash⟩

/-! ### Last commas -/

/-- No closing bracket is the next character that is no blank. -/
def NoCloser (cs : List Char) : Prop :=
  ∀ c ∈ (cs.dropWhile isBlank).head?, (c == '}' || c == ']') = false

theorem stringOrLastComma_blind : stringOrLastComma.Blind := fun _ _ => rfl

@[simp] theorem withoutLastCommas_nil : withoutLastCommas [] = [] := rfl

theorem withoutLastCommas_hit {c : Char} {front rest kept : List Char}
    (h : stringOrLastComma none (c :: (front ++ rest)) = some (kept, rest)) :
    withoutLastCommas (c :: (front ++ rest)) = kept ++ withoutLastCommas rest :=
  stringOrLastComma_blind.replace_of_some id h

theorem withoutLastCommas_plain {c : Char} (hquote : c ≠ '"') (hcomma : c ≠ ',')
    (cs : List Char) : withoutLastCommas (c :: cs) = c :: withoutLastCommas cs := by
  refine stringOrLastComma_blind.replace_of_none id ?_
  simp [stringOrLastComma, stringText?_of_ne hquote, hcomma]

theorem withoutLastCommas_plain_append {front : List Char}
    (h : ∀ c ∈ front, c ≠ '"' ∧ c ≠ ',') (rest : List Char) :
    withoutLastCommas (front ++ rest) = front ++ withoutLastCommas rest := by
  induction front with
  | nil => rfl
  | cons c front ih =>
    rw [List.forall_mem_cons] at h
    rw [List.cons_append, withoutLastCommas_plain h.1.1 h.1.2, ih h.2, List.cons_append]

theorem withoutLastCommas_kept {cs : List Char} (h : NoCloser cs) :
    withoutLastCommas (',' :: cs) = ',' :: withoutLastCommas cs := by
  refine stringOrLastComma_blind.replace_of_none id ?_
  rw [NoCloser] at h
  cases hnext : cs.dropWhile isBlank with
  | nil => simp [stringOrLastComma, stringText?_of_ne, hnext]
  | cons c rest =>
    have hc : (c == '}' || c == ']') = false := h c (by rw [hnext]; rfl)
    simp only [stringOrLastComma, stringText?_of_ne (by decide : ',' ≠ '"'), hnext, hc]
    rfl

/-- A comma before a closing bracket goes, and the blanks between them stay. -/
theorem withoutLastCommas_dropped {blanks : List Char} (hblanks : ∀ c ∈ blanks, isBlank c = true)
    {closer : Char} (hcloser : (closer == '}' || closer == ']') = true) (rest : List Char) :
    withoutLastCommas (',' :: (blanks ++ closer :: rest)) =
      blanks ++ closer :: withoutLastCommas rest := by
  have hstop : ∀ c ∈ (closer :: rest).head?, isBlank c = false := by
    rintro c hc
    obtain rfl : closer = c := by simpa using hc
    rcases (by simpa using hcloser : closer = '}' ∨ closer = ']') with rfl | rfl <;> decide
  have hhit : stringOrLastComma none (',' :: ((blanks ++ [closer]) ++ rest)) =
      some (blanks ++ [closer], rest) := by
    rw [List.append_assoc, List.singleton_append]
    simp only [stringOrLastComma, stringText?_of_ne (by decide : ',' ≠ '"'),
      dropWhile_append_of_head hblanks hstop, takeWhile_append_of_head hblanks hstop, hcloser,
      if_true]
  simpa using withoutLastCommas_hit hhit

theorem withoutLastCommas_string {body : List Char} (form : StringBody body) (rest : List Char) :
    withoutLastCommas ('"' :: (body ++ '"' :: rest)) =
      '"' :: (body ++ '"' :: withoutLastCommas rest) := by
  have hhit : stringOrLastComma none ('"' :: ((body ++ ['"']) ++ rest)) =
      some ('"' :: (body ++ ['"']), rest) := by
    have hescape : ∀ c : Char, c ≠ '\n' → (c != '\n') = true := fun c hc => by simpa using hc
    simp [stringOrLastComma, stringText?_body hescape form]
  simpa using withoutLastCommas_hit hhit

/-- **Lexemes are kept**, a comma if no closing bracket follows it. -/
theorem withoutLastCommas_lexeme (x : Lexeme) {rest : List Char}
    (h : x = .comma → NoCloser rest) :
    withoutLastCommas (x.text ++ rest) = x.text ++ withoutLastCommas rest := by
  cases x with
  | string body form =>
    simpa [Lexeme.text] using withoutLastCommas_string form rest
  | comma => exact withoutLastCommas_kept (h rfl)
  | _ =>
    refine withoutLastCommas_plain_append (fun c hc => ?_) rest
    obtain ⟨hquote, -, hcomma⟩ := Lexeme.plain_chars (by simp) (by simp) c hc
    exact ⟨hquote, hcomma⟩

end StyleAudit.Json
