import StyleAudit.Proofs.Style.ColorText
import StyleAudit.Style.Palette

/-!
# Single colours against a palette

What the check of a palette says about a declaration whose value is one colour (`ColorText`).  The
check looks for colours in the value and asks the palette about the spelling of each of them, so
there are two steps, and each can go wrong.

* What is found (`ColorText.sought`).  Hexadecimal colours are found with three and with six digits.
  With four or eight digits there is nothing to be found, unless the digits are letters and make up
  a word.  A call is found if the name of its function is in lower case, and otherwise only the name
  is.
* What the spelling tells.  It tells the channels of hexadecimal colours and of calls with commas,
  but not those of calls with spaces (`ColorText.keepsChannels`).

A hexadecimal colour of the palette is therefore accepted in all its spellings but those that are
read as a word.  An accepted colour is in the palette if it is found as it stands and its spelling
tells the channels (`ColorText.isExact`).
-/

namespace StyleAudit.Style.Color

open StyleAudit.Text

/-! ### Where a colour begins -/

/-- What is found in a text after the character before it. -/
def findFrom (before : Option Char) (cs : List Char) : List (List Char) :=
  (pattern.piecesFrom before 0 cs).filterMap Piece.value?

theorem findFrom_of_none {before : Option Char} {c : Char} {cs : List Char}
    (h : pattern before (c :: cs) = none) : findFrom before (c :: cs) = findFrom (some c) cs := by
  rw [findFrom, Pattern.piecesFrom, h]
  rfl

theorem findFrom_of_some {before : Option Char} {c : Char} {front rest a : List Char}
    (h : pattern before (c :: (front ++ rest)) = some (a, rest)) :
    findFrom before (c :: (front ++ rest)) = a :: findFrom (front.getLast?.or (some c)) rest := by
  rw [findFrom, Pattern.piecesFrom_of_some h]
  rfl

theorem findFrom_of_whole {before : Option Char} {c : Char} {cs a : List Char}
    (h : pattern before (c :: cs) = some (a, [])) : findFrom before (c :: cs) = [a] := by
  rw [← List.append_nil cs] at h ⊢
  rw [findFrom_of_some h]
  rfl

theorem hexColor?_of_ne {c : Char} (h : c ≠ '#') (cs : List Char) : hexColor? (c :: cs) = none := by
  rw [hexColor?]
  rintro ds ⟨⟩
  exact h rfl

theorem functionColor?_of_head {c : Char} (h : c ∉ ['r', 'h']) (cs : List Char) :
    functionColor? (c :: cs) = none := by
  have hheads : colorFunctions.all (fun name => ['r', 'h'].any (name.head? == some ·)) = true := by
    decide
  rw [functionColor?, List.findSome?_eq_none_iff]
  intro name hname
  cases hlead : dropLead? name (c :: cs) with
  | none => rfl
  | some rest =>
    obtain ⟨d, hd, hhead⟩ := List.any_eq_true.mp (List.all_eq_true.mp hheads name hname)
    obtain ⟨ds, rfl⟩ := List.head?_eq_some_iff.mp (beq_iff_eq.mp hhead)
    rw [(List.cons.inj (eq_append_of_dropLead? hlead)).1] at h
    exact absurd hd h

theorem wordColor?_of_head {c : Char} (h : c.isAlpha = false) (cs : List Char) :
    wordColor? (c :: cs) = none := by
  simp [wordColor?, h]

theorem wordColor?_append {word rest : List Char} (hne : word ≠ []) (hplain : word ∉ plainWords)
    (hword : ∀ c ∈ word, c.isAlpha = true) (hrest : ∀ c ∈ rest.head?, c.isAlpha = false)
    (hend : isWordChar? rest.head? = false) : wordColor? (word ++ rest) = some (word, rest) := by
  have hcontains : plainWords.contains word = false := by simpa using hplain
  rw [wordColor?, takeWhile_append_of_head hword hrest, dropWhile_append_of_head hword hrest, hend,
    hcontains, List.isEmpty_eq_false_iff.mpr hne]
  rfl

/-- No colour begins with a character that is no letter and no hash. -/
theorem pattern_of_head {c : Char} (hhash : c ≠ '#') (halpha : c.isAlpha = false)
    (before : Option Char) (cs : List Char) : pattern before (c :: cs) = none := by
  have hletter : c ∉ ['r', 'h'] := by
    rintro hc
    rw [List.mem_cons, List.mem_singleton] at hc
    rcases hc with rfl | rfl <;> exact absurd halpha (by decide)
  rw [pattern, hexColor?_of_ne hhash, functionColor?_of_head hletter, wordColor?_of_head halpha]
  exact ite_self none

/-- Inside a word no colour begins but at a hash. -/
theorem pattern_in_word {before c : Char} (hbefore : isWordChar before = true) (hhash : c ≠ '#')
    (cs : List Char) : pattern (some before) (c :: cs) = none := by
  rw [pattern, hexColor?_of_ne hhash]
  exact if_pos hbefore

theorem findFrom_of_heads {cs : List Char} (h : ∀ c ∈ cs, c ≠ '#' ∧ c.isAlpha = false)
    (before : Option Char) : findFrom before cs = [] := by
  induction cs generalizing before with
  | nil => rfl
  | cons c cs ih =>
    obtain ⟨⟨hhash, halpha⟩, hcs⟩ := List.forall_mem_cons.mp h
    rw [findFrom_of_none (pattern_of_head hhash halpha before cs), ih hcs]

theorem findFrom_in_word {before : Char} (hbefore : isWordChar before = true) {cs : List Char}
    (h : ∀ c ∈ cs, isWordChar c = true ∧ c ≠ '#') : findFrom (some before) cs = [] := by
  induction cs generalizing before with
  | nil => rfl
  | cons c cs ih =>
    obtain ⟨⟨hword, hhash⟩, hcs⟩ := List.forall_mem_cons.mp h
    rw [findFrom_of_none (pattern_in_word hbefore hhash cs), ih hword hcs]

/-! ### What is found of a hexadecimal colour -/

theorem isWordChar?_head?_of_isHex {cs : List Char} (h : cs.all isAsciiHex = true) :
    isWordChar? cs.head? = ! cs.isEmpty := by
  cases cs with
  | nil => rfl
  | cons c cs =>
    rw [List.all_cons, Bool.and_eq_true] at h
    exact (hexDigit_of_isAsciiHex h.1).isWordChar

theorem hexRun?_of_isHex {ds : List Char} (h : ds.all isAsciiHex = true) (count : Nat) :
    hexRun? count ds = if ds.length = count then some (ds, []) else none := by
  have hrun : (ds.take count).all isAsciiHex = true :=
    List.all_eq_true.mpr fun c hc => List.all_eq_true.mp h c (List.mem_of_mem_take hc)
  have hrest : (ds.drop count).all isAsciiHex = true :=
    List.all_eq_true.mpr fun c hc => List.all_eq_true.mp h c (List.mem_of_mem_drop hc)
  rw [hexRun?, hrun, isWordChar?_head?_of_isHex hrest, Bool.not_not, List.length_take]
  by_cases hsize : ds.length = count
  · subst hsize
    simp
  · have hfail : (min count ds.length == count && (ds.drop count).isEmpty) = false := by
      by_cases hshort : ds.length < count
      · rw [beq_eq_false_iff_ne.mpr (by omega), Bool.false_and]
      · rw [List.isEmpty_eq_false_iff.mpr (by rw [ne_eq, List.drop_eq_nil_iff]; omega),
          Bool.and_false]
    rw [if_neg hsize, Bool.and_true, hfail]
    rfl

/-- No plain word can be written with hexadecimal digits. -/
theorem notMem_plainWords_of_isHex {ds : List Char} (h : ds.all isAsciiHex = true) :
    ds ∉ plainWords := by
  have hall : plainWords.all (·.any (! isAsciiHex ·)) = true := by decide
  intro hds
  obtain ⟨c, hc, hhex⟩ := List.any_eq_true.mp (List.all_eq_true.mp hall ds hds)
  rw [List.all_eq_true.mp h c hc] at hhex
  cases hhex

theorem wordColor?_of_isHex {ds : List Char} (hne : ds ≠ []) (h : ds.all isAsciiHex = true) :
    wordColor? ds = if ds.all Char.isAlpha then some (ds, []) else none := by
  by_cases hletters : ds.all Char.isAlpha = true
  · have hword : wordColor? (ds ++ []) = some (ds, []) := wordColor?_append hne
      (notMem_plainWords_of_isHex h) (List.all_eq_true.mp hletters) nofun rfl
    rw [if_pos hletters, ← hword, List.append_nil]
  · have hrest : (ds.dropWhile Char.isAlpha).all isAsciiHex = true :=
      List.all_eq_true.mpr fun c hc =>
        List.all_eq_true.mp h c ((List.dropWhile_sublist Char.isAlpha).subset hc)
    have hgoes : (ds.dropWhile Char.isAlpha).isEmpty = false := by
      rw [List.isEmpty_eq_false_iff, ne_eq, List.dropWhile_eq_nil_iff]
      exact fun hall => hletters (List.all_eq_true.mpr hall)
    rw [if_neg hletters, wordColor?, isWordChar?_head?_of_isHex hrest, hgoes]
    simp

namespace HexText

variable (x : HexText)

/-- Whether the colour has a fourth channel. -/
def hasAlpha : Bool :=
  x.digits.length == 4 || x.digits.length == 8

/-- Whether the digits of the colour are read as a word of their own. -/
def isWord : Bool :=
  x.hasAlpha && x.digits.all Char.isAlpha

theorem hexColor?_text : hexColor? x.text = if x.hasAlpha then none else some (x.text, []) := by
  rw [text, hexColor?, hexRun?_of_isHex x.isHex, hexRun?_of_isHex x.isHex, hasAlpha]
  rcases x.size_cases with h | h | h | h <;> simp [h]

theorem exists_digits : ∃ d ds, x.digits = d :: ds :=
  List.exists_cons_of_length_pos (by have := x.size_cases; omega)

/-- Without their hash, digits are a word or nothing. -/
theorem pattern_digits : pattern (some '#') x.digits =
    if x.digits.all Char.isAlpha then some (x.digits, []) else none := by
  obtain ⟨d, ds, hdigits⟩ := x.exists_digits
  have hd := (x.hexDigit (hdigits ▸ List.mem_cons_self)).notMem
  rw [← wordColor?_of_isHex (hdigits ▸ List.cons_ne_nil d ds) x.isHex, hdigits, pattern,
    hexColor?_of_ne fun h => hd (by simp [h]), functionColor?_of_head fun h => hd (by simp_all),
    if_neg (by simp [isWordChar?, isWordChar_of_mark]), Option.none_or, Option.none_or]

theorem pattern_text : pattern none x.text = if x.hasAlpha then none else some (x.text, []) := by
  have hword : wordColor? x.text = none := wordColor?_of_head (by decide) x.digits
  have hcall : functionColor? x.text = none := functionColor?_of_head (by decide) x.digits
  rw [pattern, hexColor?_text, hword, hcall]
  split <;> rfl

/-- **A colour with a fourth channel is not found.**  If its digits are letters they are taken for
the name of a colour, and otherwise nothing is found. -/
theorem find_text : find x.text =
    if x.hasAlpha then (if x.digits.all Char.isAlpha then [x.digits] else []) else [x.text] := by
  change findFrom none x.text = _
  by_cases halpha : x.hasAlpha = true
  · -- the hash is passed over, and the digits are looked at without it
    rw [if_pos halpha, text, findFrom_of_none (x.pattern_text.trans (if_pos halpha))]
    obtain ⟨d, ds, hdigits⟩ := x.exists_digits
    by_cases hletters : x.digits.all Char.isAlpha = true
    · have hpattern := x.pattern_digits.trans (if_pos hletters)
      rw [if_pos hletters]
      rw [hdigits] at hpattern ⊢
      exact findFrom_of_whole hpattern
    · have hpattern := x.pattern_digits.trans (if_neg hletters)
      have hword : ∀ c ∈ d :: ds, isWordChar c = true ∧ c ≠ '#' := fun c hc =>
        have hdigit := x.hexDigit (hdigits ▸ hc)
        ⟨hdigit.isWordChar, fun h => hdigit.notMem (by simp [h])⟩
      rw [if_neg hletters]
      rw [hdigits] at hpattern ⊢
      rw [findFrom_of_none hpattern]
      obtain ⟨hd, hds⟩ := List.forall_mem_cons.mp hword
      exact findFrom_in_word hd.1 hds
  · rw [if_neg halpha]
    exact findFrom_of_whole (x.pattern_text.trans (if_neg halpha))

theorem usesVariable_text : usesVariable x.text = false := by
  have hmem : ∀ c ∈ ['$', '@'], c ∉ x.text := by
    intro c hc htext
    rcases List.mem_cons.mp htext with rfl | hdigit
    · exact absurd hc (by decide)
    · have hnot := (x.hexDigit hdigit).notMem
      simp_all
  simp [usesVariable, hmem]

end HexText

/-! ### What is found of a call -/

theorem findSome?_of_key {names : List (List Char)} {key : List Char} {α : Type} {a : α}
    {f : List Char → Option α} (h : ∀ name ∈ names, f name = if name = key then some a else none) :
    names.findSome? f = if key ∈ names then some a else none := by
  induction names with
  | nil => rfl
  | cons name names ih =>
    obtain ⟨hname, hnames⟩ := List.forall_mem_cons.mp h
    rw [List.findSome?_cons, hname, ih hnames]
    by_cases hkey : name = key
    · simp [hkey]
    · simp [hkey, Ne.symm hkey]

namespace CallText

variable (x : CallText)

/-- Whether the name of the function is in lower case. -/
def isSmall : Bool :=
  x.name.map Char.toLower == x.name

theorem body_ne_nil : x.body ≠ [] := by
  intro h
  rw [body, List.append_eq_nil_iff, List.append_eq_nil_iff] at h
  exact x.first.text_ne_nil h.2.1

/-- A function is looked up by its name with the bracket. -/
theorem dropLead?_text {name : List Char} (hname : '(' ∉ name) :
    dropLead? (name ++ ['(']) x.text = if name = x.name then some (x.body ++ [')']) else none := by
  by_cases h : name = x.name
  · rw [if_pos h, h, text, List.append_cons x.name '(' (x.body ++ [')']), dropLead?_append]
  · rw [if_neg h]
    cases hlead : dropLead? (name ++ ['(']) x.text with
    | none => rfl
    | some rest =>
      have hsplit := congrArg (splitAtMark? ['(']) (eq_append_of_dropLead? hlead)
      rw [text, splitAtMark?_append '(' x.paren_notMem_name, ← List.append_cons,
        splitAtMark?_append '(' hname] at hsplit
      exact absurd (Prod.mk.inj (Option.some.inj hsplit)).1.symm h

/-- The names of the functions, without the bracket. -/
def functionNames : List (List Char) :=
  ["rgba".toList, "rgb".toList, "hsla".toList, "hsl".toList]

theorem colorFunctions_eq : colorFunctions = functionNames.map (· ++ ['(']) := by decide

theorem isSmall_iff : x.isSmall = true ↔ x.name ∈ functionNames := by
  rw [isSmall, beq_iff_eq]
  constructor
  · intro h
    have hall : ["rgb".toList, "rgba".toList].all (functionNames.contains ·) = true := by decide
    exact h ▸ List.contains_iff_mem.mp (List.all_eq_true.mp hall _ x.isName)
  · intro h
    have hall : functionNames.all (fun name => name.map Char.toLower == name) = true := by decide
    exact beq_iff_eq.mp (List.all_eq_true.mp hall x.name h)

theorem functionColor?_text :
    functionColor? x.text = if x.isSmall then some (x.text, []) else none := by
  obtain ⟨a, as, hbody⟩ := List.exists_cons_of_ne_nil x.body_ne_nil
  have hinner : ∀ c ∈ x.body, (c != ')') = true := fun c hc => by
    rw [bne_iff_ne]
    rintro rfl
    exact (x.bodyChar hc).notMem (by decide)
  have hparen : ∀ name ∈ functionNames, '(' ∉ name := by decide
  have hclose : ∀ c ∈ [')'].head?, (c != ')') = false := by
    rintro c ⟨⟩
    decide
  rw [functionColor?, colorFunctions_eq, List.findSome?_map]
  refine (findSome?_of_key fun name hname => ?_).trans (if_congr x.isSmall_iff.symm rfl rfl)
  rw [Function.comp_apply, x.dropLead?_text (hparen name hname)]
  split
  · rename_i h
    rw [Option.bind_some, takeWhile_append_of_head hinner hclose,
      dropWhile_append_of_head hinner hclose, text, h, hbody]
    simp
  · rfl

theorem wordColor?_text : wordColor? x.text = some (x.name, '(' :: (x.body ++ [')'])) := by
  have hplain : x.name ∉ plainWords := by
    have hall : plainWords.all (·.any (! nameChars.contains ·)) = true := by decide
    intro hname
    obtain ⟨c, hc, hnot⟩ := List.any_eq_true.mp (List.all_eq_true.mp hall x.name hname)
    rw [List.contains_iff_mem.mpr (x.mem_nameChars hc)] at hnot
    cases hnot
  refine wordColor?_append x.name_ne_nil hplain (fun c hc => (x.nameChar hc).isAlpha) ?_ ?_
  · rintro c ⟨⟩
    decide
  · have hbracket : isWordChar '(' = false := isWordChar_of_mark (by decide)
    exact hbracket

theorem pattern_text : pattern none x.text =
    if x.isSmall then some (x.text, []) else some (x.name, '(' :: (x.body ++ [')'])) := by
  obtain ⟨c, name, hname⟩ := List.exists_cons_of_ne_nil x.name_ne_nil
  have hhash : c ≠ '#' := by
    rintro rfl
    exact (x.nameChar (hname ▸ List.mem_cons_self)).notMem (by decide)
  have hhex : hexColor? x.text = none := by
    rw [text, hname]
    exact hexColor?_of_ne hhash _
  rw [pattern, hhex, functionColor?_text, wordColor?_text, if_neg (by decide), Option.none_or]
  split <;> rfl

/-- **A call is found if the name of its function is in lower case.**  Otherwise the name is taken
for the name of a colour, and the channels are passed over. -/
theorem find_text : find x.text = if x.isSmall then [x.text] else [x.name] := by
  change findFrom none x.text = _
  obtain ⟨c, name, hname⟩ := List.exists_cons_of_ne_nil x.name_ne_nil
  by_cases hsmall : x.isSmall = true
  · have hpattern := x.pattern_text.trans (if_pos hsmall)
    rw [if_pos hsmall]
    rw [text, hname] at hpattern ⊢
    exact findFrom_of_whole hpattern
  · have hpattern := x.pattern_text.trans (if_neg hsmall)
    -- after the name there is nothing that a colour could begin with
    have hquiet : ∀ c ∈ '(' :: (x.body ++ [')']), c ≠ '#' ∧ c.isAlpha = false := by
      intro c hc
      rw [List.mem_cons, List.mem_append, List.mem_singleton] at hc
      rcases hc with rfl | hc | rfl
      · decide
      · have hbody := x.bodyChar hc
        exact ⟨fun h => hbody.notMem (by simp [h]), hbody.isAlpha⟩
      · decide
    rw [if_neg hsmall]
    rw [text, hname] at hpattern ⊢
    rw [List.cons_append, findFrom_of_some hpattern, findFrom_of_heads hquiet]

theorem usesVariable_text : usesVariable x.text = false := by
  have hmem : ∀ c ∈ ['$', '@'], c ∉ x.text := by
    intro c hc htext
    rw [text, List.mem_append, List.mem_cons, List.mem_append, List.mem_singleton] at htext
    rcases htext with hname | rfl | hbody | rfl
    · have hnot := (x.nameChar hname).notMem
      simp_all
    · exact absurd hc (by decide)
    · have hnot := (x.bodyChar hbody).notMem
      simp_all
    · exact absurd hc (by decide)
  simp [usesVariable, hmem]

end CallText

namespace ColorText

/-- What a palette is asked about when a value is a single colour, if anything. -/
def sought : ColorText → Option (List Char)
  | hex x => if x.hasAlpha then (if x.digits.all Char.isAlpha then some x.digits else none)
    else some x.text
  | call x => some (if x.isSmall then x.text else x.name)

theorem find_text (x : ColorText) : find x.text = x.sought.toList := by
  cases x with
  | hex x =>
    rw [text, x.find_text, sought]
    split
    · split <;> rfl
    · rfl
  | call x =>
    rw [text, x.find_text, sought]
    split <;> rfl

/-- Whether a palette is asked about the colour itself, in a spelling that tells its channels. -/
def isExact : ColorText → Bool
  | hex x => ! x.hasAlpha
  | call x => x.commas && x.isSmall

theorem sought_of_isExact {x : ColorText} (h : x.isExact = true) : x.sought = some x.text := by
  cases x with
  | hex x =>
    rw [isExact, Bool.not_eq_true'] at h
    rw [sought, h]
    rfl
  | call x =>
    rw [isExact, Bool.and_eq_true] at h
    rw [sought, if_pos h.2]
    rfl

theorem keepsChannels_of_isExact {x : ColorText} (h : x.isExact = true) :
    x.keepsChannels = true := by
  cases x with
  | hex x => rfl
  | call x => exact (Bool.and_eq_true_iff.mp h).1

theorem usesVariable_text (x : ColorText) : usesVariable x.text = false := by
  cases x with
  | hex x => exact x.usesVariable_text
  | call x => exact x.usesVariable_text

end ColorText

end StyleAudit.Style.Color

namespace StyleAudit.Style.Palette

open StyleAudit.Text
open StyleAudit.Style.Color

/-! ### What the check says about a single colour -/

/-- The violation by a colour that the palette does not allow. -/
def invalidColor (file : String) (d : Declaration) (c : List Char) : Violation :=
  { rule := Violation.paletteColors, file, line := d.line,
    message := "Invalid color: " ++ String.ofList c }

theorem allows_ofColors {colors : List (List Char)} {c : List Char} :
    (ofColors colors).allows c = true ↔ ∃ e ∈ colors, normal e = normal c := by
  rw [allows, ofColors, List.contains_iff_mem, List.mem_map]

/-- A value that is a single colour is reported for what is sought of it. -/
theorem check_single {p : Palette} {d : Declaration} {x : ColorText}
    (hproperty : isColorProperty d.property = true) (hvalue : d.value = String.ofList x.text)
    (file : String) : p.check file [d] =
      (x.sought.toList.filter (! p.allows ·)).map (invalidColor file d) := by
  have htext : d.value.toList = x.text := by rw [hvalue, String.toList_ofList]
  rw [check, List.flatMap_singleton, violationsOf, if_pos hproperty, htext, complaints,
    x.usesVariable_text, if_neg Bool.false_ne_true, x.find_text, List.map_map]
  rfl

theorem check_single_eq_nil_iff {colors : List (List Char)} {d : Declaration} {x : ColorText}
    (hproperty : isColorProperty d.property = true) (hvalue : d.value = String.ofList x.text)
    (file : String) : (ofColors colors).check file [d] = [] ↔
      ∀ c ∈ x.sought, ∃ e ∈ colors, normal e = normal c := by
  rw [check_single hproperty hvalue, List.map_eq_nil_iff, List.filter_eq_nil_iff]
  simp only [Option.mem_toList, Option.mem_def, Bool.not_eq_true', Bool.not_eq_false,
    allows_ofColors]

/-! ### Colours of the palette -/

/-- **A hexadecimal colour of the palette is accepted in every spelling, unless it has a fourth
channel and no digit but letters.**  Then the digits are taken for the name of a colour, and the
palette must allow that name as well. -/
theorem hex_spelling_accepted {colors : List (List Char)} {entry spelling : HexText}
    (hentry : entry.text ∈ colors) (hchannels : spelling.channels = entry.channels)
    {d : Declaration} (hproperty : isColorProperty d.property = true)
    (hvalue : d.value = String.ofList spelling.text) (file : String) :
    (ofColors colors).check file [d] =
      if spelling.isWord && !(ofColors colors).allows spelling.digits then
        [invalidColor file d spelling.digits]
      else [] := by
  have hallows : (ofColors colors).allows spelling.text = true :=
    allows_ofColors.mpr ⟨entry.text, hentry, HexText.normal_text_eq_iff.mpr hchannels.symm⟩
  have hcheck := check_single (p := ofColors colors) (x := .hex spelling) hproperty hvalue file
  rw [hcheck, ColorText.sought, HexText.isWord]
  by_cases halpha : spelling.hasAlpha = true
  · by_cases hletters : spelling.digits.all Char.isAlpha = true
    · by_cases hdigits : (ofColors colors).allows spelling.digits = true
      · simp [halpha, hletters, hdigits]
      · simp [halpha, hletters, hdigits]
    · simp [halpha, hletters]
  · simp [halpha, hallows]

/-- The long form of a short colour, with other letters in capitals. -/
theorem hex_spelling_accepted_long : ∃ entry spelling : HexText,
    entry.text = "#1a2B".toList ∧ spelling.text = "#11AA22bb".toList ∧
      spelling.channels = entry.channels ∧
      (ofColors ["#fff".toList, entry.text]).check "a.css"
        [⟨"background-color", String.ofList spelling.text, 7⟩] = [] :=
  ⟨⟨"1a2B".toList, by decide, by decide⟩, ⟨"11AA22bb".toList, by decide, by decide⟩, rfl, rfl,
    by decide, (hex_spelling_accepted (List.mem_cons_of_mem _ List.mem_cons_self) (by decide)
      (by decide) rfl "a.css").trans (by decide)⟩

/-- A palette does not accept its own colour `#abcd`. -/
theorem letters_with_alpha_rejected : ∃ x : HexText, x.text = "#abcd".toList ∧
    (ofColors [x.text]).check "a.css" [⟨"color", String.ofList x.text, 1⟩] =
      [{ rule := Violation.paletteColors, file := "a.css", line := 1,
         message := "Invalid color: abcd" }] :=
  ⟨⟨"abcd".toList, by decide, by decide⟩, rfl, by decide +kernel⟩

/-! ### Accepted colours -/

/-- **Which single colours are accepted, and what this says about the palette.**  Accepted is a
colour if nothing is sought of it, or something that has the spelling of an entry.  If it is the
colour itself that is sought, and its spelling tells the channels, then that entry writes the same
channels: without its spaces it does, and it cannot write others with them.  Of any call that is
found, the entry is the text up to spaces and case, so it has the same integers when they are
written one right after the other. -/
theorem accepted_color_denoted {colors : List (List Char)} {d : Declaration} {x : ColorText}
    (hproperty : isColorProperty d.property = true) (hvalue : d.value = String.ofList x.text)
    (file : String) :
    ((ofColors colors).check file [d] = [] ↔ ∀ c ∈ x.sought, ∃ e ∈ colors, normal e = normal c) ∧
    (x.isExact = true → (ofColors colors).check file [d] = [] →
      ∃ e ∈ colors, Denotes (despaced e) x.channels ∧
        ∀ channels, Denotes (trim e) channels → channels = x.channels) ∧
    (∀ y : CallText, x = .call y → y.isSmall = true → (ofColors colors).check file [d] = [] →
      ∃ e ∈ colors, (despaced e).map Char.toLower = (despaced y.text).map Char.toLower ∧
        ∀ z : CallText, trim e = z.text → z.run = y.run) := by
  have hcriterion : (ofColors colors).check file [d] = [] ↔
      ∀ c ∈ x.sought, ∃ e ∈ colors, normal e = normal c :=
    check_single_eq_nil_iff hproperty hvalue file
  refine ⟨hcriterion, fun hexact hempty => ?_, ?_⟩
  · obtain ⟨e, he, hnormal⟩ := hcriterion.mp hempty x.text (ColorText.sought_of_isExact hexact)
    exact ⟨e, he, denotes_of_normal_eq (ColorText.keepsChannels_of_isExact hexact) hnormal⟩
  · rintro y rfl hsmall hempty
    obtain ⟨e, he, hnormal⟩ := hcriterion.mp hempty y.text (by rw [ColorText.sought, hsmall]; rfl)
    refine ⟨e, he, ?_, fun z hz => CallText.run_eq_of_normal_eq ?_⟩
    · rw [CallText.map_toLower_despaced hnormal, CallText.map_toLower_despaced rfl]
    · exact ((ColorText.call z).normal_text_of_trim hz).trans hnormal

/-- A call with spaces beside its commas, and the entry with other spaces and in capitals. -/
theorem accepted_color_denoted_spaced : ∃ x : CallText, x.text = "rgb( 1,2 , -40)".toList ∧
    x.channels = [1, 2, -40] ∧
    (ofColors ["#fff".toList, "RGB(1, 2, -40)".toList]).check "a.css"
      [⟨"border-color", String.ofList x.text, 1⟩] = [] ∧
    ∃ e ∈ ["#fff".toList, "RGB(1, 2, -40)".toList], Denotes (despaced e) x.channels ∧
      ∀ channels, Denotes (trim e) channels → channels = x.channels := by
  refine ⟨⟨"rgb".toList, true, [' '], ⟨[], ['1'], by decide, by decide, by decide⟩,
    [([','], ⟨[], ['2'], by decide, by decide, by decide⟩),
      ([' ', ',', ' '], ⟨['-'], ['4', '0'], by decide, by decide, by decide⟩)], [],
    by decide, by decide, by decide, by decide, by decide⟩, by decide, by decide, ?_⟩
  have hcheck : (ofColors ["#fff".toList, "RGB(1, 2, -40)".toList]).check "a.css"
      [⟨"border-color", "rgb( 1,2 , -40)", 1⟩] = [] := by decide
  exact ⟨hcheck, (accepted_color_denoted (x := .call _) (by decide) rfl "a.css").2.1 rfl hcheck⟩

/-- A colour that is not found is accepted by every palette, and channels with only spaces between
them run together. -/
theorem accepted_outside_palette :
    ((ofColors ["#fff".toList]).check "a.css" [⟨"color", "#1234", 1⟩] = [] ∧
      ∃ channels, Denotes "#1234".toList channels ∧ ¬ Denotes "#fff".toList channels) ∧
    (ofColors ["rgb(1 23 4)".toList]).check "a.css" [⟨"color", "rgb(12 3 4)", 1⟩] = [] ∧
      ∃ channels, Denotes "rgb(12 3 4)".toList channels ∧
        ¬ Denotes "rgb(1 23 4)".toList channels := by
  have hhex : Denotes "#1234".toList [0x11, 0x22, 0x33, 0x44] :=
    ⟨.hex ⟨"1234".toList, by decide, by decide⟩, rfl, by decide⟩
  have hwhite : Denotes "#fff".toList [0xff, 0xff, 0xff] :=
    ⟨.hex ⟨"fff".toList, by decide, by decide⟩, rfl, by decide⟩
  have hcall : Denotes "rgb(12 3 4)".toList [12, 3, 4] :=
    ⟨.call ⟨"rgb".toList, false, [], ⟨[], ['1', '2'], by decide, by decide, by decide⟩,
      [([' '], ⟨[], ['3'], by decide, by decide, by decide⟩),
        ([' '], ⟨[], ['4'], by decide, by decide, by decide⟩)], [],
      by decide, by decide, by decide, by decide, by decide⟩, by decide, by decide⟩
  have hother : Denotes "rgb(1 23 4)".toList [1, 23, 4] :=
    ⟨.call ⟨"rgb".toList, false, [], ⟨[], ['1'], by decide, by decide, by decide⟩,
      [([' '], ⟨[], ['2', '3'], by decide, by decide, by decide⟩),
        ([' '], ⟨[], ['4'], by decide, by decide, by decide⟩)], [],
      by decide, by decide, by decide, by decide, by decide⟩, by decide, by decide⟩
  exact ⟨⟨by decide +kernel, _, hhex, fun h => absurd (h.unique hwhite) (by decide)⟩,
    by decide, _, hcall, fun h => absurd (h.unique hother) (by decide)⟩

end StyleAudit.Style.Palette
