import Mathlib.Data.List.Infix
import StyleAudit.Json.Printer
import StyleAudit.Proofs.Json.Lexeme

/-!
# Strings as they are printed

Every code point of a string is printed by itself: as it is, as a letter after a backslash, or by one
or two code escapes.  It is read as itself, but for one case.  Where the two halves of a surrogate
pair stand side by side, their escapes are those of one character and are read as that character
(`joinPairs`).

* `Lexeme.token_ofText`: a printed string is read with its pairs joined.
* `CodeText.joined_eq_self_iff`: this is the string itself iff it has no pairs.
* `stringText_joined`: and it is printed as the string is, so no more can be read.
-/

namespace StyleAudit.Json

open StyleAudit.Text

/-! ### Hexadecimal digits -/

theorem hexValue?_digitChar : ∀ d < 16, hexValue? (Nat.digitChar d) = some d := by decide

theorem hexNumber_hexDigits (n : Nat) : hexNumber (hexDigits n) = n := by
  induction n using Nat.strongRecOn with
  | _ n ih =>
    rw [hexDigits, Nat.toDigits_eq_if (by decide)]
    split
    · rename_i hn
      simp [hexNumber, hexValue?_digitChar n hn]
    · have hquotient : hexNumber (hexDigits (n / 16)) = n / 16 := ih (n / 16) (by omega)
      rw [hexNumber, List.foldl_append]
      change 16 * hexNumber (hexDigits (n / 16)) + (hexValue? (n % 16).digitChar).getD 0 = n
      rw [hquotient, hexValue?_digitChar _ (Nat.mod_lt n (by decide)), Option.getD_some]
      omega

theorem isHexDigit_of_mem_hexDigits (n : Nat) : ∀ c ∈ hexDigits n, isHexDigit c = true := by
  have hdigit : ∀ d < 16, isHexDigit (Nat.digitChar d) = true := by decide
  induction n using Nat.strongRecOn with
  | _ n ih =>
    rw [hexDigits, Nat.toDigits_eq_if (by decide)]
    split
    · rename_i hn
      simpa using hdigit n hn
    · exact List.forall_mem_append.mpr ⟨ih (n / 16) (by omega),
        by simpa using hdigit (n % 16) (Nat.mod_lt n (by decide))⟩

theorem hexNumber_replicate_append (k : Nat) (ds : List Char) :
    hexNumber (List.replicate k '0' ++ ds) = hexNumber ds := by
  induction k with
  | zero => rfl
  | succ k ih => exact ih

/-- A code escape has four digits, which write its code. -/
theorem code?_hexDigitsPadded {n : Nat} (hn : n < 0x10000) :
    (hexDigitsPadded 4 n).length = 4 ∧ code? (hexDigitsPadded 4 n) = some n := by
  have hlength : (hexDigits n).length ≤ 4 :=
    (Nat.length_toDigits_le_iff (by decide) (by decide)).mpr hn
  have hfour : (hexDigitsPadded 4 n).length = 4 := by
    simp only [hexDigitsPadded, List.length_append, List.length_replicate]
    omega
  refine ⟨hfour, code?_eq_some_iff.mpr ?_⟩
  have hhex : (hexDigitsPadded 4 n).all isHexDigit = true := by
    rw [List.all_eq_true, hexDigitsPadded]
    refine List.forall_mem_append.mpr ⟨fun c hc => ?_, isHexDigit_of_mem_hexDigits n⟩
    rw [List.eq_of_mem_replicate hc]
    rfl
  have hvalue : hexNumber (hexDigitsPadded 4 n) = n := by
    rw [hexDigitsPadded, hexNumber_replicate_append, hexNumber_hexDigits]
  obtain ⟨a, b, c, d, hds⟩ : ∃ a b c d, hexDigitsPadded 4 n = [a, b, c, d] := by
    match hds : hexDigitsPadded 4 n, hfour with
    | [a, b, c, d], _ => exact ⟨a, b, c, d, rfl⟩
  rw [hds] at hhex hvalue
  exact ⟨a, b, c, d, hds, hhex, hvalue.symm⟩

/-! ### Strings -/

/-- How a character is printed in a string. -/
theorem charText_cases (c : Char) :
    (∃ letter, shortEscape? letter = some c ∧ charText c = ['\\', letter]) ∨
    (c ≠ '"' ∧ c ≠ '\\' ∧ 0x1f < c.toNat ∧ c.toNat < 0x7f ∧ charText c = [c]) ∨
    (c.toNat < 0x10000 ∧ charText c = codeEscapeText c.toNat) ∨
    (0x10000 ≤ c.toNat ∧ charText c = codeEscapeText (0xd800 + (c.toNat - 0x10000) / 0x400) ++
      codeEscapeText (0xdc00 + (c.toNat - 0x10000) % 0x400)) := by
  rw [charText.eq_def]
  split
  · exact Or.inl ⟨'"', rfl, rfl⟩
  · exact Or.inl ⟨'\\', rfl, rfl⟩
  · exact Or.inl ⟨'n', rfl, rfl⟩
  · exact Or.inl ⟨'r', rfl, rfl⟩
  · exact Or.inl ⟨'t', rfl, rfl⟩
  · exact Or.inl ⟨'f', rfl, rfl⟩
  · exact Or.inl ⟨'b', rfl, rfl⟩
  · rename_i hquote hbackslash _ _ _ _ _
    right
    by_cases hplain : (decide (0x20 ≤ c.toNat) && decide (c.toNat < 0x7f)) = true
    · have hbounds : 0x20 ≤ c.toNat ∧ c.toNat < 0x7f := by
        simpa only [Bool.and_eq_true, decide_eq_true_eq] using hplain
      exact Or.inl ⟨hquote, hbackslash, by omega, hbounds.2, if_pos hplain⟩
    · right
      simp only [if_neg hplain]
      by_cases hfirst : c.toNat < 0x10000
      · exact Or.inl ⟨hfirst, if_pos hfirst⟩
      · exact Or.inr ⟨by omega, if_neg hfirst⟩

theorem toNat_of_shortEscape {letter c : Char} (h : shortEscape? letter = some c) :
    c.toNat < 0x80 := by
  rw [shortEscape?.eq_def] at h
  split at h <;> cases h <;> decide

/-- A character past the first plane is printed as two halves. -/
theorem charText_of_le {c : Char} (h : 0x10000 ≤ c.toNat) :
    charText c = codeEscapeText (0xd800 + (c.toNat - 0x10000) / 0x400) ++
      codeEscapeText (0xdc00 + (c.toNat - 0x10000) % 0x400) := by
  rcases charText_cases c with ⟨letter, hletter, -⟩ | ⟨-, -, -, hplain, -⟩ | ⟨hfirst, -⟩ | ⟨-, htext⟩
  · have hshort := toNat_of_shortEscape hletter
    omega
  · omega
  · omega
  · exact htext

theorem isHighSurrogate_high (n : Fin 0x400) : isHighSurrogate (0xd800 + n.val) = true := by
  simp [isHighSurrogate]
  omega

theorem isLowSurrogate_low (n : Fin 0x400) : isLowSurrogate (0xdc00 + n.val) = true := by
  simp [isLowSurrogate]
  omega

theorem isHighSurrogate_low (n : Fin 0x400) : isHighSurrogate (0xdc00 + n.val) = false := by
  simp [isHighSurrogate]
  omega

/-- A character is no half of a pair. -/
theorem surrogate_toNat (c : Char) :
    isHighSurrogate c.toNat = false ∧ isLowSurrogate c.toNat = false := by
  have hvalid : c.toNat.isValidChar := c.valid
  simp only [Nat.isValidChar] at hvalid
  simp [isHighSurrogate, isLowSurrogate]
  omega

/-- Every code point is that of its number. -/
theorem codePoint_toNat (c : Code) : codePoint c.toNat = c := by
  cases c with
  | char c =>
    obtain ⟨hhigh, hlow⟩ := surrogate_toNat c
    simp [codePoint, Code.toNat, hhigh, hlow]
  | high n =>
    have hval : (0xd800 + n.val - 0xd800) % 0x400 = n.val := by omega
    rw [Code.toNat, codePoint, if_pos (isHighSurrogate_high n)]
    exact congrArg Code.high (Fin.ext hval)
  | low n =>
    have hval : (0xdc00 + n.val - 0xdc00) % 0x400 = n.val := by omega
    rw [Code.toNat, codePoint, if_neg (by rw [isHighSurrogate_low]; exact Bool.false_ne_true),
      if_pos (isLowSurrogate_low n)]
    exact congrArg Code.low (Fin.ext hval)

theorem joinSurrogates_split {n : Nat} (h : 0x10000 ≤ n) :
    joinSurrogates (0xd800 + (n - 0x10000) / 0x400) (0xdc00 + (n - 0x10000) % 0x400) = n := by
  delta joinSurrogates
  omega

/-- A text cannot be read as the second half of a pair: it begins with no code escape, or with one
that is not such a half. -/
def NoSecondHalf (cs : List Char) : Prop :=
  cs.take 2 ≠ ['\\', 'u'] ∨ ∃ n rest, n < 0x10000 ∧ isLowSurrogate n = false ∧ rest ≠ [] ∧
    cs = codeEscapeText n ++ rest

/-- A code escape that is not the first half of a pair stands for its code point. -/
theorem codeEscape_single {n : Nat} (hn : n < 0x10000) {cs : List Char} (hcs : cs ≠ [])
    (h : isHighSurrogate n = true → NoSecondHalf cs) :
    codeEscape (hexDigitsPadded 4 n ++ cs) =
      .ok (codePoint n, (hexDigitsPadded 4 n).length) := by
  obtain ⟨hlength, hcode⟩ := code?_hexDigitsPadded hn
  rw [hlength]
  by_cases hhigh : isHighSurrogate n = true
  · rcases h hhigh with htake | ⟨m, rest, hm, hlow, hrest, rfl⟩
    · exact codeEscape_alone hcode hcs fun _ => htake
    · obtain ⟨-, hcode'⟩ := code?_hexDigitsPadded hm
      exact (codeEscape_two hcode hcode' hhigh hrest).trans (by simp [hlow])
  · exact codeEscape_alone hcode hcs fun h => absurd h hhigh

/-- The escapes of two halves in a row stand for one character. -/
theorem codeEscape_pair {high low : Nat} (hhigh : isHighSurrogate high = true)
    (hlow : isLowSurrogate low = true) {cs : List Char} (hcs : cs ≠ []) :
    codeEscape ((hexDigitsPadded 4 high ++ codeEscapeText low) ++ cs) =
      .ok (codePoint (joinSurrogates high low),
        (hexDigitsPadded 4 high ++ codeEscapeText low).length) := by
  have hbounds : high < 0x10000 ∧ low < 0x10000 := by
    simp only [isHighSurrogate, isLowSurrogate, Bool.and_eq_true, decide_eq_true_eq] at hhigh hlow
    omega
  obtain ⟨hlength, hcode⟩ := code?_hexDigitsPadded hbounds.1
  obtain ⟨hlength', hcode'⟩ := code?_hexDigitsPadded hbounds.2
  have hten : (hexDigitsPadded 4 high ++ codeEscapeText low).length = 10 := by
    simp [codeEscapeText, hlength, hlength']
  rw [List.append_assoc, hten]
  exact (codeEscape_two hcode hcode' hhigh hcs).trans (if_pos hlow)

/-- A code point that is printed as one escape is read as itself, unless it makes a pair with what
follows. -/
theorem readStringFrom_escape {c : Code} (hn : c.toNat < 0x10000) (start position : Nat)
    {cs : List Char} (hcs : cs ≠ []) (h : ∀ n, c = .high n → NoSecondHalf cs) :
    readStringFrom start 0 position (codeEscapeText c.toNat ++ cs) =
      (readStringFrom start 0 (position + (codeEscapeText c.toNat).length) cs).map
        fun (s, used) => (c :: s, used + (codeEscapeText c.toNat).length) := by
  have hhigh : isHighSurrogate c.toNat = true → NoSecondHalf cs := by
    intro hhigh
    cases c with
    | char c =>
      rw [Code.toNat, (surrogate_toNat c).1] at hhigh
      cases hhigh
    | high n => exact h n rfl
    | low n =>
      rw [Code.toNat, isHighSurrogate_low] at hhigh
      cases hhigh
  have hsingle := codeEscape_single hn hcs hhigh
  rw [codePoint_toNat] at hsingle
  exact readStringFrom_code hsingle start position

/-- Two escapes of halves in a row are read as one character. -/
theorem readStringFrom_pair {high low : Nat} (hhigh : isHighSurrogate high = true)
    (hlow : isLowSurrogate low = true) (start position : Nat) {cs : List Char} (hcs : cs ≠ []) :
    readStringFrom start 0 position ((codeEscapeText high ++ codeEscapeText low) ++ cs) =
      (readStringFrom start 0 (position + (codeEscapeText high ++ codeEscapeText low).length)
        cs).map fun (s, used) => (codePoint (joinSurrogates high low) :: s,
          used + (codeEscapeText high ++ codeEscapeText low).length) :=
  readStringFrom_code (codeEscape_pair hhigh hlow hcs) start position

theorem codeText_high (n : Fin 0x400) : codeText (.high n) = codeEscapeText (Code.high n).toNat :=
  rfl

theorem codeText_low (n : Fin 0x400) : codeText (.low n) = codeEscapeText (Code.low n).toNat :=
  rfl

/-- A printed code point is read as itself, unless it makes a pair with what follows. -/
theorem readStringFrom_codeText (c : Code) (start position : Nat) {cs : List Char} (hcs : cs ≠ [])
    (h : ∀ n, c = .high n → NoSecondHalf cs) :
    readStringFrom start 0 position (codeText c ++ cs) =
      (readStringFrom start 0 (position + (codeText c).length) cs).map
        fun (s, used) => (c :: s, used + (codeText c).length) := by
  cases c with
  | high n =>
    have hn : (Code.high n).toNat < 0x10000 := by
      rw [Code.toNat]
      omega
    rw [codeText_high, readStringFrom_escape hn start position hcs h]
  | low n =>
    have hn : (Code.low n).toNat < 0x10000 := by
      rw [Code.toNat]
      omega
    rw [codeText_low, readStringFrom_escape hn start position hcs h]
  | char c =>
    rw [codeText]
    rcases charText_cases c with ⟨letter, hletter, htext⟩ |
      ⟨hquote, hbackslash, hcontrol, -, htext⟩ | ⟨hfirst, htext⟩ | ⟨hnext, htext⟩
    · rw [htext]
      exact readStringFrom_short hletter start position cs
    · rw [htext]
      exact readStringFrom_plain hquote hbackslash hcontrol start position cs
    · have hread := readStringFrom_escape (c := .char c) hfirst start position hcs h
      rw [Code.toNat] at hread
      rw [htext, hread]
    · have hvalid : c.toNat.isValidChar := c.valid
      simp only [Nat.isValidChar] at hvalid
      have hhigh : isHighSurrogate (0xd800 + (c.toNat - 0x10000) / 0x400) = true := by
        simp [isHighSurrogate]
        omega
      have hlow : isLowSurrogate (0xdc00 + (c.toNat - 0x10000) % 0x400) = true := by
        simp [isLowSurrogate]
        omega
      have hcode : codePoint c.toNat = .char c := codePoint_toNat (.char c)
      have hread := readStringFrom_pair hhigh hlow start position hcs
      rw [joinSurrogates_split hnext, hcode] at hread
      rw [htext, hread]

/-- Two printed halves in a row are read as one character. -/
theorem readStringFrom_halves (a b : Fin 0x400) (start position : Nat) {cs : List Char}
    (hcs : cs ≠ []) :
    readStringFrom start 0 position (codeText (.high a) ++ (codeText (.low b) ++ cs)) =
      (readStringFrom start 0 (position + (codeText (.high a) ++ codeText (.low b)).length) cs).map
        fun (s, used) => (codePoint (joinSurrogates (Code.high a).toNat (Code.low b).toNat) :: s,
          used + (codeText (.high a) ++ codeText (.low b)).length) := by
  rw [← List.append_assoc, codeText_high, codeText_low]
  exact readStringFrom_pair (isHighSurrogate_high a) (isLowSurrogate_low b) start position hcs

/-- The code points with the two halves of a pair joined wherever they stand side by side. -/
def joinPairs : List Code → List Code
  | .high a :: .low b :: cs =>
    codePoint (joinSurrogates (Code.high a).toNat (Code.low b).toNat) :: joinPairs cs
  | c :: cs => c :: joinPairs cs
  | [] => []

/-- What begins with no second half cannot be read as one. -/
theorem noSecondHalf_flatMap {s : List Code} (h : ∀ n more, s ≠ .low n :: more) (rest : List Char) :
    NoSecondHalf (s.flatMap codeText ++ '"' :: rest) := by
  cases s with
  | nil => exact Or.inl (by simp)
  | cons c s =>
    rw [List.flatMap_cons, List.append_assoc]
    cases c with
    | low n => exact absurd rfl (h n s)
    | high n =>
      refine Or.inr ⟨0xd800 + n.val, _, by omega, ?_, ?_, rfl⟩
      · simp [isLowSurrogate]
        omega
      · simp
    | char c =>
      rw [codeText]
      rcases charText_cases c with ⟨letter, hletter, htext⟩ | ⟨-, hbackslash, -, -, htext⟩ |
        ⟨hfirst, htext⟩ | ⟨hnext, htext⟩
      · refine Or.inl ?_
        rw [htext]
        have hu : letter ≠ 'u' := by rintro rfl; cases hletter
        simp [hu]
      · refine Or.inl ?_
        rw [htext]
        simp [hbackslash]
      · refine Or.inr ⟨_, _, hfirst, (surrogate_toNat c).2, ?_, by rw [htext]⟩
        simp
      · have hvalid : c.toNat.isValidChar := c.valid
        simp only [Nat.isValidChar] at hvalid
        refine Or.inr ⟨_, _, ?_, ?_, ?_, by rw [htext, List.append_assoc]⟩
        · omega
        · simp [isLowSurrogate]
          omega
        · simp

/-- **A printed string is read with its pairs joined.** -/
theorem readStringFrom_flatMap (s : List Code) (start position : Nat) (rest : List Char) :
    readStringFrom start 0 position (s.flatMap codeText ++ '"' :: rest) =
      .ok (joinPairs s, (s.flatMap codeText).length + 1) := by
  induction s using joinPairs.induct generalizing position with
  | case1 a b s ih =>
    rw [List.flatMap_cons, List.flatMap_cons, List.append_assoc, List.append_assoc,
      readStringFrom_halves a b start position (by simp), ih, joinPairs]
    simp [Except.map]
    omega
  | case2 c s halone ih =>
    have hnone : ∀ n, c = .high n → NoSecondHalf (s.flatMap codeText ++ '"' :: rest) := by
      rintro n rfl
      exact noSecondHalf_flatMap (fun m more hmore => halone n m more rfl hmore) rest
    rw [List.flatMap_cons, List.append_assoc,
      readStringFrom_codeText c start position (by simp) hnone, ih, joinPairs]
    · simp [Except.map]
      omega
    · exact halone
  | case3 => rfl

theorem StringBody.flatMap_codeText (s : List Code) : StringBody (s.flatMap codeText) := by
  obtain ⟨body, rest, hbody, htext, hlength⟩ := of_read (readStringFrom_flatMap s 0 0 [])
  obtain ⟨hsame, -⟩ := List.append_inj htext (by omega)
  rwa [hsame]

/-! ### Pairs -/

/-- No two halves of a pair stand side by side. -/
def Unpaired (s : List Code) : Prop :=
  ∀ a b, ¬ [Code.high a, Code.low b] <:+: s

theorem length_joinPairs_le (s : List Code) : (joinPairs s).length ≤ s.length := by
  induction s using joinPairs.induct with
  | case1 a b s ih =>
    rw [joinPairs, List.length_cons, List.length_cons, List.length_cons]
    omega
  | case2 c s halone ih =>
    rw [joinPairs, List.length_cons, List.length_cons]
    · omega
    · exact halone
  | case3 => exact Nat.le_refl _

/-- Joining changes a text iff it has something to join. -/
theorem joinPairs_eq_self_iff {s : List Code} : joinPairs s = s ↔ Unpaired s := by
  induction s using joinPairs.induct with
  | case1 a b s ih =>
    refine iff_of_false (fun h => ?_) fun h => h a b ⟨[], s, rfl⟩
    have hlength := congrArg List.length h
    have hle := length_joinPairs_le s
    rw [joinPairs, List.length_cons, List.length_cons, List.length_cons] at hlength
    omega
  | case2 c s halone ih =>
    rw [joinPairs, List.cons.injEq, ih]
    · refine ⟨fun h a b hinfix => ?_, fun h => ⟨rfl, fun a b hinfix => ?_⟩⟩
      · rcases List.infix_cons_iff.mp hinfix with ⟨more, hmore⟩ | hinfix
        · cases hmore
          exact halone a b more rfl rfl
        · exact h.2 a b hinfix
      · exact h a b (List.infix_cons hinfix)
    · exact halone
  | case3 => exact iff_of_true rfl fun a b h => by simp at h

theorem unpaired_map_char (cs : List Char) : Unpaired (cs.map .char) := by
  intro a b h
  obtain ⟨c, -, hc⟩ := List.mem_map.mp (h.subset List.mem_cons_self)
  cases hc

/-- The two halves of a pair are printed as the character that they are joined to. -/
theorem codeText_pair (a b : Fin 0x400) :
    codeText (codePoint (joinSurrogates (Code.high a).toNat (Code.low b).toNat)) =
      codeText (.high a) ++ codeText (.low b) := by
  obtain ⟨n, hn⟩ : ∃ n, n = joinSurrogates (Code.high a).toNat (Code.low b).toNat := ⟨_, rfl⟩
  have hbounds : 0x10000 ≤ n ∧ n < 0x110000 ∧ 0xd800 + (n - 0x10000) / 0x400 = 0xd800 + a.val ∧
      0xdc00 + (n - 0x10000) % 0x400 = 0xdc00 + b.val := by
    have ha := a.isLt
    have hb := b.isLt
    rw [Code.toNat, Code.toNat] at hn
    delta joinSurrogates at hn
    omega
  obtain ⟨hlow, hhigh, hfirst, hsecond⟩ := hbounds
  have hvalid : n.isValidChar := by
    rw [Nat.isValidChar]
    omega
  have hchar : (Char.ofNat n).toNat = n := by
    rw [Char.ofNat, dif_pos hvalid]
    rfl
  have hcode : codePoint n = .char (Char.ofNat n) := by
    rw [codePoint, if_neg, if_neg]
    · simp [isLowSurrogate]
      omega
    · simp [isHighSurrogate]
      omega
  rw [← hn, hcode, codeText, charText_of_le (by omega), hchar, hfirst, hsecond]
  rfl

theorem flatMap_codeText_joinPairs (s : List Code) :
    (joinPairs s).flatMap codeText = s.flatMap codeText := by
  induction s using joinPairs.induct with
  | case1 a b s ih =>
    rw [joinPairs, List.flatMap_cons, ih, codeText_pair, List.flatMap_cons, List.flatMap_cons,
      List.append_assoc]
  | case2 c s halone ih =>
    rw [joinPairs, List.flatMap_cons, ih, List.flatMap_cons]
    exact halone
  | case3 => rfl

end StyleAudit.Json

namespace StyleAudit.CodeText

/-- The text as it is read after printing. -/
def joined (t : CodeText) : CodeText :=
  ⟨Json.joinPairs t.codes⟩

theorem joined_eq_self_iff {t : CodeText} : t.joined = t ↔ Json.Unpaired t.codes := by
  rw [← Json.joinPairs_eq_self_iff, joined]
  exact ⟨congrArg codes, fun h => by rw [h]⟩

@[simp] theorem joined_ofString (s : String) : (ofString s).joined = ofString s :=
  joined_eq_self_iff.mpr (Json.unpaired_map_char s.toList)

end StyleAudit.CodeText

namespace StyleAudit.Json

@[simp] theorem stringText_joined (t : CodeText) : stringText t.joined = stringText t := by
  rw [stringText, CodeText.joined, flatMap_codeText_joinPairs, stringText]

namespace Lexeme

/-- A string as it is printed. -/
def ofText (t : CodeText) : Lexeme :=
  .string (t.codes.flatMap codeText) (.flatMap_codeText t.codes)

theorem text_ofText (t : CodeText) : (ofText t).text = stringText t := rfl

theorem token_ofText (t : CodeText) : (ofText t).token = .string t.joined := by
  rw [ofText, token_string _ fun start position rest =>
    readStringFrom_flatMap t.codes start position rest]
  rfl

end Lexeme

end StyleAudit.Json
