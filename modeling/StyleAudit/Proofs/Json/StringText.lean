import Mathlib.Data.List.Basic
import StyleAudit.Json.Token

/-!
# Strings as they are written

`StringBody` says what may stand between the quotes of a string: plain characters and escapes, with
any content.

* `StringBody.exists_reading`: a string is read to its closing quote, and what is read depends
  neither on its position nor on what follows.
* `StringBody.of_read`: whatever is read as a string is one.

An escape may take the next one with it, if both are surrogates.  So the induction is on the length
of the string and not on its form.
-/

namespace StyleAudit.Json

open StyleAudit.Text

/-- The letters that name a character after a backslash. -/
def escapeLetters : List Char :=
  ['"', '\\', '/', 'b', 'f', 'n', 'r', 't']

/-- What may stand between the quotes of a string. -/
inductive StringBody : List Char → Prop
  | nil : StringBody []
  | plain {c : Char} {cs : List Char} (quote : c ≠ '"') (backslash : c ≠ '\\')
      (control : 0x1f < c.toNat) (rest : StringBody cs) : StringBody (c :: cs)
  | short {c : Char} {cs : List Char} (letter : c ∈ escapeLetters) (rest : StringBody cs) :
      StringBody ('\\' :: c :: cs)
  | code {a b c d : Char} {cs : List Char} (digits : [a, b, c, d].all isHexDigit = true)
      (rest : StringBody cs) : StringBody ('\\' :: 'u' :: a :: b :: c :: d :: cs)

theorem StringBody.of_plain {cs : List Char}
    (h : (cs.all fun c => c != '"' && c != '\\' && decide (0x1f < c.toNat)) = true) :
    StringBody cs := by
  induction cs with
  | nil => exact .nil
  | cons c cs ih =>
    rw [List.all_cons, Bool.and_eq_true] at h
    obtain ⟨hc, hcs⟩ := h
    simp only [Bool.and_eq_true, bne_iff_ne, decide_eq_true_eq] at hc
    exact .plain hc.1.1 hc.1.2 hc.2 (ih hcs)

theorem mem_escapeLetters_iff {c : Char} : c ∈ escapeLetters ↔ (shortEscape? c).isSome = true := by
  constructor
  · intro h
    simp only [escapeLetters, List.mem_cons, List.not_mem_nil, or_false] at h
    rcases h with rfl | rfl | rfl | rfl | rfl | rfl | rfl | rfl <;> rfl
  · intro h
    rw [shortEscape?.eq_def] at h
    split at h <;> first | decide | cases h

theorem code?_eq_some_iff {cs : List Char} {n : Nat} :
    code? cs = some n ↔ ∃ a b c d, cs = [a, b, c, d] ∧ [a, b, c, d].all isHexDigit = true ∧
      n = hexNumber [a, b, c, d] := by
  constructor
  · intro h
    rw [code?.eq_def] at h
    split at h
    · rename_i a b c d
      split at h
      · rename_i hd
        exact ⟨a, b, c, d, rfl, hd, (Option.some.inj h).symm⟩
      · cases h
    · cases h
  · rintro ⟨a, b, c, d, rfl, hd, rfl⟩
    rw [code?, if_pos hd]

theorem exists_of_map_eq_ok {ε α β : Type} {r : Except ε α} {f : α → β} {b : β}
    (h : r.map f = .ok b) : ∃ a, r = .ok a ∧ f a = b := by
  cases r with
  | error e => cases h
  | ok a => exact ⟨a, rfl, Except.ok.inj h⟩

/-- Characters that belong to an escape are passed over. -/
theorem readStringFrom_skip (start position : Nat) (front cs : List Char) :
    readStringFrom start front.length position (front ++ cs) =
      (readStringFrom start 0 (position + front.length) cs).map
        fun (s, used) => (s, used + front.length) := by
  induction front generalizing position with
  | nil =>
    change _ = Except.map id _
    rw [Except.map_id]
    rfl
  | cons c front ih =>
    have hposition : position + 1 + front.length = position + (front.length + 1) := by omega
    rw [List.cons_append, List.length_cons, readStringFrom, ih, StringReading.after, hposition]
    cases readStringFrom start 0 (position + (front.length + 1)) cs <;> rfl

/-- The reading of an escape that takes `front` after its backslash. -/
theorem cons_readStringFrom_skip (start position : Nat) (named : Code) (front cs : List Char) :
    (readStringFrom start front.length (position + 1) (front ++ cs)).cons named =
      (readStringFrom start 0 (position + (front.length + 1)) cs).map
        fun (s, used) => (named :: s, used + (front.length + 1)) := by
  have hposition : position + 1 + front.length = position + (front.length + 1) := by omega
  rw [readStringFrom_skip, hposition]
  cases readStringFrom start 0 (position + (front.length + 1)) cs <;> rfl

theorem readStringFrom_plain {c : Char} (hquote : c ≠ '"') (hbackslash : c ≠ '\\')
    (hcontrol : 0x1f < c.toNat) (start position : Nat) (cs : List Char) :
    readStringFrom start 0 position (c :: cs) =
      (readStringFrom start 0 (position + 1) cs).map fun (s, used) => (.char c :: s, used + 1) := by
  rw [readStringFrom, if_neg (by simpa using hquote), if_neg (by simpa using hbackslash),
    if_neg (by omega), StringReading.cons]

theorem readStringFrom_short {c named : Char} (h : shortEscape? c = some named)
    (start position : Nat) (cs : List Char) :
    readStringFrom start 0 position ('\\' :: c :: cs) =
      (readStringFrom start 0 (position + 2) cs).map
        fun (s, used) => (.char named :: s, used + 2) := by
  have hu : c ≠ 'u' := by rintro rfl; cases h
  rw [readStringFrom, if_neg (by decide), if_pos (by decide)]
  simp only [List.head?_cons, h]
  exact cons_readStringFrom_skip start position (.char named) [c] cs

theorem readStringFrom_code {front more : List Char} {named : Code}
    (h : codeEscape (front ++ more) = .ok (named, front.length)) (start position : Nat) :
    readStringFrom start 0 position ('\\' :: 'u' :: (front ++ more)) =
      (readStringFrom start 0 (position + (front.length + 2)) more).map
        fun (s, used) => (named :: s, used + (front.length + 2)) := by
  rw [readStringFrom, if_neg (by decide), if_pos (by decide)]
  simp only [List.head?_cons, List.drop_succ_cons, List.drop_zero, h]
  exact cons_readStringFrom_skip start position named ('u' :: front) more

/-- A code escape stands alone unless it is a high surrogate with another code escape after it. -/
theorem codeEscape_alone {four tail : List Char} {high : Nat} (hcode : code? four = some high)
    (hne : tail ≠ []) (h : isHighSurrogate high = true → tail.take 2 ≠ ['\\', 'u']) :
    codeEscape (four ++ tail) = .ok (codePoint high, 4) := by
  obtain ⟨a, b, c, d, rfl, -, -⟩ := code?_eq_some_iff.mp hcode
  obtain ⟨t, ts, rfl⟩ := List.exists_cons_of_ne_nil hne
  have htake : ([a, b, c, d] ++ t :: ts).take 4 = [a, b, c, d] := rfl
  have hdrop : ([a, b, c, d] ++ t :: ts).drop 4 = t :: ts := rfl
  rw [codeEscape, htake, hdrop, hcode]
  refine if_neg fun hpair => ?_
  simp only [Bool.and_eq_true, beq_iff_eq] at hpair
  exact h hpair.1.1 hpair.2

/-- Two code escapes in a row are one character if they are surrogates. -/
theorem codeEscape_two {four four' tail : List Char} {high low : Nat}
    (hcode : code? four = some high) (hcode' : code? four' = some low)
    (hhigh : isHighSurrogate high = true) (hne : tail ≠ []) :
    codeEscape (four ++ '\\' :: 'u' :: (four' ++ tail)) =
      if isLowSurrogate low then .ok (codePoint (joinSurrogates high low), 10)
      else .ok (codePoint high, 4) := by
  obtain ⟨a, b, c, d, rfl, -, -⟩ := code?_eq_some_iff.mp hcode
  obtain ⟨a', b', c', d', rfl, -, -⟩ := code?_eq_some_iff.mp hcode'
  simp [codeEscape, hcode, hcode', hhigh, hne]

/-- What a code escape in a string means, and the part of the string that it takes beside its four
digits: nothing, or the escape after it. -/
theorem StringBody.codeEscape_append {a b c d : Char} (hd : [a, b, c, d].all isHexDigit = true)
    {cs : List Char} (h : StringBody cs) :
    ∃ named front more, cs = front ++ more ∧ StringBody more ∧ ∀ rest,
      codeEscape ((a :: b :: c :: d :: front) ++ (more ++ '"' :: rest)) =
        .ok (named, (a :: b :: c :: d :: front).length) := by
  have hcode : code? [a, b, c, d] = some (hexNumber [a, b, c, d]) :=
    code?_eq_some_iff.mpr ⟨a, b, c, d, rfl, hd, rfl⟩
  have halone : (∀ rest, (cs ++ '"' :: rest).take 2 ≠ ['\\', 'u']) →
      ∃ named front more, cs = front ++ more ∧ StringBody more ∧ ∀ rest,
        codeEscape ((a :: b :: c :: d :: front) ++ (more ++ '"' :: rest)) =
          .ok (named, (a :: b :: c :: d :: front).length) := fun htake =>
    ⟨_, [], cs, rfl, h, fun rest => codeEscape_alone hcode (by simp) fun _ => htake rest⟩
  cases h with
  | nil => exact halone fun rest => by simp
  | plain hquote hbackslash hcontrol hmore => exact halone fun rest => by simp [hbackslash]
  | @short letter more hletter hmore =>
    have hu : letter ≠ 'u' := by
      rintro rfl
      exact absurd hletter (by decide)
    exact halone fun rest => by simp [hu]
  | @code a' b' c' d' more hd' hmore =>
    have hcode' : code? [a', b', c', d'] = some (hexNumber [a', b', c', d']) :=
      code?_eq_some_iff.mpr ⟨a', b', c', d', rfl, hd', rfl⟩
    by_cases hhigh : isHighSurrogate (hexNumber [a, b, c, d]) = true
    · have htwo := fun rest : List Char =>
        @codeEscape_two _ _ (more ++ '"' :: rest) _ _ hcode hcode' hhigh (by simp)
      by_cases hlow : isLowSurrogate (hexNumber [a', b', c', d']) = true
      · exact ⟨_, ['\\', 'u', a', b', c', d'], more, rfl, hmore, fun rest =>
          (htwo rest).trans (if_pos hlow)⟩
      · exact ⟨_, [], _, rfl, .code hd' hmore, fun rest => (htwo rest).trans (if_neg hlow)⟩
    · exact ⟨_, [], _, rfl, .code hd' hmore, fun rest =>
        codeEscape_alone hcode (by simp) fun h => absurd h hhigh⟩

/-- **A string is read to its closing quote**, wherever it stands and whatever follows. -/
theorem StringBody.exists_reading : ∀ {body : List Char}, StringBody body →
    ∃ s, ∀ start position rest,
      readStringFrom start 0 position (body ++ '"' :: rest) = .ok (s, body.length + 1)
  | _, .nil => ⟨[], fun _ _ _ => rfl⟩
  | _, @plain c cs hquote hbackslash hcontrol h => by
    obtain ⟨s, hs⟩ := exists_reading h
    refine ⟨.char c :: s, fun start position rest => ?_⟩
    rw [List.cons_append, readStringFrom_plain hquote hbackslash hcontrol, hs]
    rfl
  | _, @short c cs hletter h => by
    obtain ⟨s, hs⟩ := exists_reading h
    obtain ⟨named, hnamed⟩ := Option.isSome_iff_exists.mp (mem_escapeLetters_iff.mp hletter)
    refine ⟨.char named :: s, fun start position rest => ?_⟩
    rw [List.cons_append, List.cons_append, readStringFrom_short hnamed, hs]
    rfl
  | _, @code a b c d cs hdigits h => by
    obtain ⟨named, front, more, rfl, hmore, hcode⟩ := StringBody.codeEscape_append hdigits h
    obtain ⟨s, hs⟩ := exists_reading hmore
    refine ⟨named :: s, fun start position rest => ?_⟩
    have hread := readStringFrom_code (hcode rest) start position
    rw [hs] at hread
    simp only [List.cons_append, List.append_assoc] at hread ⊢
    rw [hread]
    simp [Except.map]
    omega
termination_by body => body.length

/-- What is read as a code escape, after its `u`, are the digits of one or two code escapes. -/
theorem StringBody.of_codeEscape {cs : List Char} {named : Code} {used : Nat}
    (h : codeEscape cs = .ok (named, used)) :
    ∃ front more, cs = front ++ more ∧ used = front.length ∧
      ∀ body, StringBody body → StringBody ('\\' :: 'u' :: (front ++ body)) := by
  rw [codeEscape.eq_def] at h
  split at h
  · cases h
  · cases h
  · rename_i high hhigh hne
    obtain ⟨a, b, c, d, hfour, hdigits, -⟩ := code?_eq_some_iff.mp hhigh
    have hcs : cs = [a, b, c, d] ++ cs.drop 4 := by rw [← hfour, List.take_append_drop]
    have hone : ∃ front more, cs = front ++ more ∧ 4 = front.length ∧
        ∀ body, StringBody body → StringBody ('\\' :: 'u' :: (front ++ body)) :=
      ⟨[a, b, c, d], cs.drop 4, hcs, rfl, fun body hbody => .code hdigits hbody⟩
    split at h
    · rename_i hpair
      split at h
      · cases h
      · rename_i low hlow
        obtain ⟨a', b', c', d', hfour', hdigits', -⟩ := code?_eq_some_iff.mp hlow
        split at h
        · obtain ⟨-, rfl⟩ := Prod.mk.inj (Except.ok.inj h)
          simp only [Bool.and_eq_true, beq_iff_eq] at hpair
          have hmore : cs.drop 4 =
              ['\\', 'u'] ++ ([a', b', c', d'] ++ ((cs.drop 4).drop 2).drop 4) := by
            rw [← hfour', ← hpair.2, List.take_append_drop, List.take_append_drop]
          refine ⟨[a, b, c, d] ++ ['\\', 'u', a', b', c', d'], ((cs.drop 4).drop 2).drop 4, ?_, rfl,
            ?_⟩
          · rw [List.append_assoc]
            exact hcs.trans (congrArg _ hmore)
          · exact fun body hbody => .code hdigits (.code hdigits' hbody)
        · obtain ⟨-, rfl⟩ := Prod.mk.inj (Except.ok.inj h)
          exact hone
    · obtain ⟨-, rfl⟩ := Prod.mk.inj (Except.ok.inj h)
      exact hone

/-- **What is read as a string is one.** -/
theorem StringBody.of_read {start : Nat} : ∀ {cs : List Char} {s : List Code}
    {position used : Nat},
    readStringFrom start 0 position cs = .ok (s, used) →
      ∃ body rest, StringBody body ∧ cs = body ++ '"' :: rest ∧ used = body.length + 1
  | [], _, _, _, h => by cases h
  | c :: cs, s, position, used, h => by
    by_cases hquote : c = '"'
    · subst hquote
      cases h
      exact ⟨[], cs, .nil, rfl, rfl⟩
    · by_cases hbackslash : c = '\\'
      · subst hbackslash
        cases cs with
        | nil => cases h
        | cons e cs =>
          by_cases hu : e = 'u'
          · subst hu
            cases hcode : codeEscape cs with
            | error offset =>
              rw [readStringFrom, if_neg (by decide), if_pos (by decide)] at h
              simp only [List.head?_cons, List.drop_succ_cons, List.drop_zero, hcode] at h
              cases h
            | ok found =>
              obtain ⟨named, taken⟩ := found
              obtain ⟨front, more, rfl, rfl, hescape⟩ := of_codeEscape hcode
              rw [readStringFrom_code hcode] at h
              obtain ⟨⟨s', used'⟩, hread, he⟩ := exists_of_map_eq_ok h
              obtain ⟨body, rest, hbody, rfl, rfl⟩ := of_read hread
              cases he
              refine ⟨_, rest, hescape body hbody, by simp, ?_⟩
              simp
              omega
          · cases hnamed : shortEscape? e with
            | none =>
              rw [readStringFrom, if_neg (by decide), if_pos (by decide)] at h
              simp only [List.head?_cons, hnamed] at h
              cases h
            | some named =>
              rw [readStringFrom_short hnamed] at h
              obtain ⟨⟨s', used'⟩, hread, he⟩ := exists_of_map_eq_ok h
              obtain ⟨body, rest, hbody, rfl, rfl⟩ := of_read hread
              cases he
              have hletter : e ∈ escapeLetters := mem_escapeLetters_iff.mpr (by rw [hnamed]; rfl)
              exact ⟨_, rest, .short hletter hbody, rfl, rfl⟩
      · by_cases hcontrol : 0x1f < c.toNat
        · rw [readStringFrom_plain hquote hbackslash hcontrol] at h
          obtain ⟨⟨s', used'⟩, hread, he⟩ := exists_of_map_eq_ok h
          obtain ⟨body, rest, hbody, rfl, rfl⟩ := of_read hread
          cases he
          exact ⟨_, rest, .plain hquote hbackslash hcontrol hbody, rfl, rfl⟩
        · rw [readStringFrom, if_neg (by simpa using hquote), if_neg (by simpa using hbackslash),
            if_pos (by omega)] at h
          cases h
termination_by cs => cs.length

end StyleAudit.Json
