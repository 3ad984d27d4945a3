import StyleAudit.Proofs.Style.HexColor
import StyleAudit.Proofs.Text.Pattern

/-!
# Colours as they are written

A single colour is hexadecimal or a call (`ColorText`).  A call has three or four integers, with a
comma between each two of them or only with blanks there (`CallText`).  A text is read as a colour
in one way at most (`Denotes.unique`).

The spelling of a call has lost its spaces.  Where commas stand between the integers they are still
found in the spelling (`CallText.channels_eq_of_normal_eq`), and `denotes_of_normal_eq` says so for
hexadecimal colours and such calls together: whatever has the spelling of the colour writes its
channels.  Where only spaces stand between them the integers have run together, and the spelling
tells no more than that (`CallText.run_eq_of_normal_eq`).
-/

namespace StyleAudit.Text

/-! ### Words -/

theorem words_append_of_blank {blank : List Char} (h : blank.all isBlank = true) (cs : List Char) :
    words (blank ++ cs) = words cs := by
  induction blank with
  | nil => rfl
  | cons c blank ih =>
    rw [List.all_cons, Bool.and_eq_true] at h
    rw [← ih h.2, List.cons_append, words, splitWhere, if_pos h.1]
    rfl

/-- A word goes on to the next blank. -/
theorem words_append_of_word {word : List Char} (hne : word ≠ [])
    (h : ∀ c ∈ word, isBlank c = false) {cs : List Char} (hcs : ∀ c ∈ cs.head?, isBlank c = true) :
    words (word ++ cs) = word :: words cs := by
  have hkept : ∀ rest : List (List Char), (word :: rest).filter (! ·.isEmpty) =
      word :: rest.filter (! ·.isEmpty) := fun rest =>
    List.filter_cons_of_pos (by rw [List.isEmpty_eq_false_iff.mpr hne]; rfl)
  cases cs with
  | nil =>
    rw [List.append_nil, words, splitWhere_of_none h, hkept]
    rfl
  | cons c cs =>
    have hblank : words (c :: cs) = words cs :=
      @words_append_of_blank [c] (by rw [List.all_cons, hcs c rfl]; rfl) cs
    rw [hblank, words, splitWhere_append h (hcs c rfl), hkept, words]

end StyleAudit.Text

namespace StyleAudit.Style.Color

open StyleAudit.Text

/-! ### Integers -/

/-- An integer as it is written. -/
structure IntegerText where
  sign : List Char
  digits : List Char
  isSign : sign ∈ [[], ['+'], ['-']]
  isDigits : digits.all Char.isDigit = true
  ne_nil : digits ≠ []

namespace IntegerText

variable (n : IntegerText)

def text : List Char :=
  n.sign ++ n.digits

def value : Int :=
  if n.sign = ['-'] then -(Nat.ofDigitChars 10 n.digits 0 : Int) else Nat.ofDigitChars 10 n.digits 0

theorem isDigit_of_mem_sign {c : Char} (h : c ∈ n.sign) : c.isDigit = false := by
  have hall : [[], ['+'], ['-']].all (fun sign => sign.all (! Char.isDigit ·)) = true := by decide
  simpa using List.all_eq_true.mp (List.all_eq_true.mp hall n.sign n.isSign) c h

/-- The sign is what stands before the digits. -/
theorem digits_eq_dropWhile : n.digits = n.text.dropWhile (! Char.isDigit ·) := by
  refine (dropWhile_append_of_head (fun c hc => ?_) fun c hc => ?_).symm
  · rw [n.isDigit_of_mem_sign hc]
    rfl
  · rw [List.all_eq_true.mp n.isDigits c (List.mem_of_mem_head? hc)]
    rfl

theorem value_eq_of_text_eq {n m : IntegerText} (h : n.text = m.text) : n.value = m.value := by
  have hdigits : n.digits = m.digits := by
    rw [n.digits_eq_dropWhile, h, ← m.digits_eq_dropWhile]
  have hsign : n.sign = m.sign := by
    rw [text, text, hdigits] at h
    exact List.append_cancel_right h
  rw [value, value, hsign, hdigits]

theorem values_eq_of_texts_eq {ns ms : List IntegerText} (h : ns.map text = ms.map text) :
    ns.map value = ms.map value := by
  induction ns generalizing ms with
  | nil => rw [List.map_eq_nil_iff.mp h.symm]
  | cons n ns ih =>
    obtain ⟨m, ms, rfl, hm, hms⟩ := List.map_eq_cons_iff.mp h.symm
    rw [List.map_cons, List.map_cons, value_eq_of_text_eq hm, ih hms.symm]

/-- The characters of integers. -/
def chars : List Char :=
  "0123456789+-".toList

theorem mem_chars {c : Char} (h : c ∈ n.text) : c ∈ chars := by
  rcases List.mem_append.mp h with h | h
  · have hall : [[], ['+'], ['-']].all (fun sign => sign.all (chars.contains ·)) = true := by decide
    simpa using List.all_eq_true.mp (List.all_eq_true.mp hall n.sign n.isSign) c h
  · have hdigit := List.all_eq_true.mp n.isDigits c h
    have hc : c.toNat < 128 :=
      toNat_lt_of_isAsciiHex (by rw [isAsciiHex, hdigit, Bool.true_or, Bool.true_or])
    have hall := of_ascii (P := fun c => !c.isDigit || chars.contains c) (by decide) hc
    simpa [hdigit] using hall

theorem isSpace_of_mem {c : Char} (h : c ∈ n.text) : isSpace c = false := by
  have hall : chars.all (! isSpace ·) = true := by decide
  simpa using List.all_eq_true.mp hall c (n.mem_chars h)

theorem isBlank_of_mem {c : Char} (h : c ∈ n.text) : isBlank c = false := by
  have hall : chars.all (! isBlank ·) = true := by decide
  simpa using List.all_eq_true.mp hall c (n.mem_chars h)

theorem comma_notMem : ',' ∉ n.text := fun h => absurd (n.mem_chars h) (by decide)

theorem text_ne_nil : n.text ≠ [] := fun h => n.ne_nil (List.append_eq_nil_iff.mp h).2

end IntegerText

/-! ### Calls -/

/-- A call of one of the functions that take the channels of a colour.  The name is in any case.
The channels are integers with a comma between each two of them, or only spaces. -/
structure CallText where
  name : List Char
  commas : Bool
  lead : List Char
  first : IntegerText
  /-- The other channels, each with what stands before it. -/
  rest : List (List Char × IntegerText)
  trail : List Char
  isName : name.map Char.toLower ∈ ["rgb".toList, "rgba".toList]
  lead_blank : lead.all isSpace = true
  trail_blank : trail.all isSpace = true
  separators : ∀ part ∈ rest, part.1 ≠ [] ∧
    part.1.filter (! isSpace ·) = if commas then [','] else []
  size : rest.length = 2 ∨ rest.length = 3

namespace CallText

variable (x : CallText)

def body : List Char :=
  x.lead ++ (x.first.text ++ (x.rest.flatMap (fun part => part.1 ++ part.2.text) ++ x.trail))

def text : List Char :=
  x.name ++ '(' :: (x.body ++ [')'])

def integers : List IntegerText :=
  x.first :: x.rest.map Prod.snd

def channels : List Int :=
  x.integers.map IntegerText.value

/-- The characters between the brackets of a call. -/
def bodyChars : List Char :=
  "0123456789+-, \t\n".toList

theorem mem_bodyChars_of_isSpace {c : Char} (h : isSpace c = true) : c ∈ bodyChars := by
  simp only [isSpace, Bool.or_eq_true, beq_iff_eq] at h
  rcases h with (rfl | rfl) | rfl <;> decide

theorem mem_bodyChars_of_integer {n : IntegerText} {c : Char} (h : c ∈ n.text) : c ∈ bodyChars := by
  have hall : IntegerText.chars.all (bodyChars.contains ·) = true := by decide
  simpa using List.all_eq_true.mp hall c (n.mem_chars h)

theorem mem_bodyChars {c : Char} (h : c ∈ x.body) : c ∈ bodyChars := by
  rw [body, List.mem_append, List.mem_append, List.mem_append] at h
  rcases h with h | h | h | h
  · exact mem_bodyChars_of_isSpace (List.all_eq_true.mp x.lead_blank c h)
  · exact mem_bodyChars_of_integer h
  · obtain ⟨part, hpart, h⟩ := List.mem_flatMap.mp h
    rcases List.mem_append.mp h with h | h
    · by_cases hspace : isSpace c = true
      · exact mem_bodyChars_of_isSpace hspace
      · have hsolid : c ∈ part.1.filter (! isSpace ·) :=
          List.mem_filter.mpr ⟨h, by simpa using hspace⟩
        rw [(x.separators part hpart).2] at hsolid
        split at hsolid
        · rw [List.mem_singleton.mp hsolid]
          decide
        · cases hsolid
    · exact mem_bodyChars_of_integer h
  · exact mem_bodyChars_of_isSpace (List.all_eq_true.mp x.trail_blank c h)

/-- What a character between the brackets is to all that reads a colour. -/
structure BodyChar (c : Char) : Prop where
  isAsciiOnly : isAsciiOnly c = true
  isAlpha : c.isAlpha = false
  toLower_eq : c.toLower = c
  notMem : c ∉ ['#', '$', '@', ')', '(']

theorem bodyChar {c : Char} (h : c ∈ x.body) : BodyChar c := by
  have hall : bodyChars.all (fun c => decide (isAsciiOnly c = true ∧ c.isAlpha = false ∧
    c.toLower = c ∧ c ∉ ['#', '$', '@', ')', '('])) = true := by decide
  obtain ⟨honly, halpha, hlower, hmem⟩ :=
    of_decide_eq_true (List.all_eq_true.mp hall c (x.mem_bodyChars h))
  exact ⟨honly, halpha, hlower, hmem⟩

/-- The characters of the names of the functions. -/
def nameChars : List Char :=
  "rgbaRGBA".toList

theorem mem_nameChars {c : Char} (h : c ∈ x.name) : c ∈ nameChars := by
  have hsmall : c.toLower ∈ "rgba".toList := by
    have hall : ["rgb".toList, "rgba".toList].all (·.all ("rgba".toList.contains ·)) = true := by
      decide
    simpa using List.all_eq_true.mp (List.all_eq_true.mp hall _ x.isName) c.toLower
      (List.mem_map_of_mem h)
  by_cases hc : c.toNat < 128
  · have hall := of_ascii
      (P := fun c => !("rgba".toList.contains c.toLower) || nameChars.contains c)
      (by decide) hc
    rw [List.contains_iff_mem.mpr hsmall, Bool.not_true, Bool.false_or] at hall
    exact List.contains_iff_mem.mp hall
  · rw [toLower_of_not_ascii (Nat.le_of_not_lt hc)] at hsmall
    have hall : "rgba".toList.all (nameChars.contains ·) = true := by decide
    exact List.contains_iff_mem.mp (List.all_eq_true.mp hall c hsmall)

/-- What a character of a name is to all that reads a colour. -/
structure NameChar (c : Char) : Prop where
  isAsciiOnly : isAsciiOnly c = true
  isAlpha : c.isAlpha = true
  isWordChar : isWordChar c = true
  isBlank : isBlank c = false
  isSpace : isSpace c = false
  isSpace_toLower : c.toLower ≠ ' '
  notMem : c ∉ ['#', '$', '@', ')', '(']

theorem nameChar {c : Char} (h : c ∈ x.name) : NameChar c := by
  have hall : nameChars.all (fun c => decide (isAsciiOnly c = true ∧ c.isAlpha = true ∧
    isWordChar c = true ∧ isBlank c = false ∧ isSpace c = false ∧ c.toLower ≠ ' ' ∧
    c ∉ ['#', '$', '@', ')', '('])) = true := by decide
  obtain ⟨honly, halpha, hword, hblank, hspace, hlower, hmem⟩ :=
    of_decide_eq_true (List.all_eq_true.mp hall c (x.mem_nameChars h))
  exact ⟨honly, halpha, hword, hblank, hspace, hlower, hmem⟩

theorem exists_small_name : ∃ cs, x.name.map Char.toLower = 'r' :: cs := by
  rcases List.mem_cons.mp x.isName with h | h
  · exact ⟨_, h⟩
  · exact ⟨_, List.mem_singleton.mp h⟩

theorem head?_small_name (cs : List Char) : (x.name.map Char.toLower ++ cs).head? ≠ some '#' := by
  obtain ⟨name, hname⟩ := x.exists_small_name
  rw [hname]
  exact nofun

theorem name_ne_nil : x.name ≠ [] := by
  intro h
  obtain ⟨cs, hcs⟩ := x.exists_small_name
  rw [h] at hcs
  cases hcs

theorem ascii_text : ∀ c ∈ x.text, c.toNat < 128 := by
  have honly : ∀ {c : Char}, isAsciiOnly c = true → c.toNat < 128 := fun h => by
    rw [isAsciiOnly, Bool.and_eq_true, Bool.and_eq_true] at h
    exact of_decide_eq_true h.1.1
  intro c hc
  rw [text, List.mem_append, List.mem_cons, List.mem_append, List.mem_singleton] at hc
  rcases hc with hc | rfl | hc | rfl
  · exact honly (x.nameChar hc).isAsciiOnly
  · decide
  · exact honly (x.bodyChar hc).isAsciiOnly
  · decide

theorem trim_text : trim x.text = x.text := by
  refine trim_of_ends (fun c hc => ?_) fun c hc => ?_
  · obtain ⟨a, name, hname⟩ := List.exists_cons_of_ne_nil x.name_ne_nil
    rw [text, hname] at hc
    obtain rfl := Option.some.inj hc
    exact (x.nameChar (hname ▸ List.mem_cons_self)).isBlank
  · rw [text, ← List.cons_append, ← List.append_assoc, List.getLast?_concat] at hc
    obtain rfl := Option.some.inj hc
    decide

theorem map_toLower_text :
    x.text.map Char.toLower = x.name.map Char.toLower ++ '(' :: (x.body ++ [')']) := by
  have hbody : x.body.map Char.toLower = x.body :=
    (List.map_congr_left fun c hc => (x.bodyChar hc).toLower_eq).trans (List.map_id _)
  rw [text, List.map_append, List.map_cons, List.map_append, hbody]
  rfl

/-- The one spelling of a call is its text without spaces, in lower case. -/
theorem normal_text : normal x.text =
    x.name.map Char.toLower ++ '(' :: (x.body.filter (· != ' ') ++ [')']) := by
  have hname : (x.name.map Char.toLower).filter (· != ' ') = x.name.map Char.toLower := by
    refine List.filter_eq_self.mpr fun c hc => ?_
    obtain ⟨a, ha, rfl⟩ := List.mem_map.mp hc
    simpa using (x.nameChar ha).isSpace_toLower
  rw [normal_of_ascii x.ascii_text x.trim_text, map_toLower_text, List.filter_append, hname,
    List.filter_cons_of_pos (by decide), List.filter_append, List.filter_cons_of_pos (by decide),
    List.filter_nil, expandHex_of_head (x.head?_small_name _)]

theorem paren_notMem_small_name : '(' ∉ x.name.map Char.toLower := by
  have hall : ["rgb".toList, "rgba".toList].all (fun name => !(name.contains '(')) = true := by
    decide
  simpa using List.all_eq_true.mp hall _ x.isName

theorem isAsciiOnly_small_name : (x.name.map Char.toLower).all isAsciiOnly = true := by
  have hall : ["rgb".toList, "rgba".toList].all (·.all isAsciiOnly) = true := by decide
  exact List.all_eq_true.mp hall _ x.isName

theorem body_eq_of_normal_eq {x y : CallText} (h : normal x.text = normal y.text) :
    x.body.filter (· != ' ') = y.body.filter (· != ' ') := by
  rw [normal_text, normal_text] at h
  have hsplit := congrArg (splitAtMark? ['(']) h
  rw [splitAtMark?_append '(' x.paren_notMem_small_name,
    splitAtMark?_append '(' y.paren_notMem_small_name] at hsplit
  exact List.append_cancel_right (Prod.mk.inj (Option.some.inj hsplit)).2

/-! ### What is read off the body -/

theorem filter_integer (n : IntegerText) : n.text.filter (! isSpace ·) = n.text :=
  List.filter_eq_self.mpr fun c hc => by rw [n.isSpace_of_mem hc]; rfl

theorem filter_blank {blank : List Char} (h : blank.all isSpace = true) :
    blank.filter (! isSpace ·) = [] :=
  List.filter_eq_nil_iff.mpr fun c hc => by simp [List.all_eq_true.mp h c hc]

/-- What is between the brackets, without blanks. -/
theorem filter_body : x.body.filter (! isSpace ·) = x.first.text ++
    x.rest.flatMap fun part => (if x.commas then [','] else []) ++ part.2.text := by
  have hrest : (x.rest.flatMap fun part => part.1 ++ part.2.text).filter (! isSpace ·) =
      x.rest.flatMap fun part => (if x.commas then [','] else []) ++ part.2.text := by
    rw [List.filter_flatMap]
    refine List.flatMap_congr fun part hpart => ?_
    rw [List.filter_append, (x.separators part hpart).2, filter_integer]
  rw [body, List.filter_append, List.filter_append, List.filter_append, filter_blank x.lead_blank,
    filter_blank x.trail_blank, filter_integer, hrest, List.nil_append, List.append_nil]

theorem splitWhere_comma (first : IntegerText) (rest : List (List Char × IntegerText)) :
    splitWhere (· == ',') (first.text ++ rest.flatMap fun part => ',' :: part.2.text) =
      (first :: rest.map Prod.snd).map IntegerText.text := by
  have hnone : ∀ n : IntegerText, ∀ c ∈ n.text, (c == ',') = false := fun n c hc => by
    simpa using ne_of_mem_of_not_mem hc n.comma_notMem
  induction rest generalizing first with
  | nil => simp [splitWhere_of_none (hnone first)]
  | cons part rest ih =>
    rw [List.flatMap_cons, List.cons_append, splitWhere_append (hnone first) rfl, ih part.2]
    rfl

/-- With commas, the integers are found between the commas. -/
theorem integers_of_commas (h : x.commas = true) :
    splitWhere (· == ',') (x.body.filter (! isSpace ·)) = x.integers.map IntegerText.text := by
  rw [filter_body, h]
  exact splitWhere_comma x.first x.rest

theorem comma_mem_iff : ',' ∈ x.body.filter (! isSpace ·) ↔ x.commas = true := by
  rw [filter_body, List.mem_append, List.mem_flatMap]
  constructor
  · rintro (hm | ⟨part, -, hm⟩)
    · exact absurd hm x.first.comma_notMem
    · rcases List.mem_append.mp hm with hm | hm
      · split at hm
        · assumption
        · cases hm
      · exact absurd hm part.2.comma_notMem
  · intro h
    have hsize := x.size
    obtain ⟨part, hpart⟩ := List.exists_mem_of_length_pos (l := x.rest) (by omega)
    exact Or.inr ⟨part, hpart, by simp [h]⟩

theorem all_isBlank {blank : List Char} (h : blank.all isSpace = true) : blank.all isBlank = true :=
  List.all_eq_true.mpr fun c hc => isBlank_of_isSpace (List.all_eq_true.mp h c hc)

theorem words_integers {trail : List Char} (htrail : trail.all isSpace = true)
    (first : IntegerText) {rest : List (List Char × IntegerText)}
    (hrest : ∀ part ∈ rest, part.1 ≠ [] ∧ part.1.all isSpace = true) :
    words (first.text ++ (rest.flatMap (fun part => part.1 ++ part.2.text) ++ trail)) =
      (first :: rest.map Prod.snd).map IntegerText.text := by
  induction rest generalizing first with
  | nil =>
    have hhead : ∀ c ∈ trail.head?, isBlank c = true := fun c hc =>
      isBlank_of_isSpace (List.all_eq_true.mp htrail c (List.mem_of_mem_head? hc))
    have hempty : words trail = [] := by
      rw [← List.append_nil trail, words_append_of_blank (all_isBlank htrail)]
      rfl
    rw [List.flatMap_nil, List.nil_append,
      words_append_of_word first.text_ne_nil (fun c hc => first.isBlank_of_mem hc) hhead, hempty]
    rfl
  | cons part rest ih =>
    obtain ⟨⟨hne, hspace⟩, hrest⟩ := List.forall_mem_cons.mp hrest
    obtain ⟨blank, blanks, hblank⟩ := List.exists_cons_of_ne_nil hne
    have hhead : ∀ c ∈ (part.1 ++ (part.2.text ++
        (rest.flatMap (fun part => part.1 ++ part.2.text) ++ trail))).head?, isBlank c = true := by
      intro c hc
      rw [hblank] at hc
      obtain rfl := Option.some.inj hc
      exact isBlank_of_isSpace (List.all_eq_true.mp hspace _ (hblank ▸ List.mem_cons_self))
    rw [List.flatMap_cons, List.append_assoc, List.append_assoc,
      words_append_of_word first.text_ne_nil (fun c hc => first.isBlank_of_mem hc) hhead,
      words_append_of_blank (all_isBlank hspace), ih part.2 hrest]
    rfl

/-- Without commas, the integers are the words. -/
theorem integers_of_blanks (h : x.commas = false) :
    words x.body = x.integers.map IntegerText.text := by
  rw [body, words_append_of_blank (all_isBlank x.lead_blank)]
  refine words_integers x.trail_blank x.first fun part hpart => ?_
  obtain ⟨hne, hsolid⟩ := x.separators part hpart
  rw [h] at hsolid
  refine ⟨hne, List.all_eq_true.mpr fun c hc => ?_⟩
  simpa using List.filter_eq_nil_iff.mp hsolid c hc

theorem paren_notMem_name : '(' ∉ x.name := fun h => absurd (x.nameChar h).notMem (by decide)

/-- **A call is read in one way.** -/
theorem channels_eq_of_text_eq {x y : CallText} (h : x.text = y.text) :
    x.channels = y.channels := by
  have hbody : x.body = y.body := by
    have hsplit := congrArg (splitAtMark? ['(']) h
    rw [text, text, splitAtMark?_append '(' x.paren_notMem_name,
      splitAtMark?_append '(' y.paren_notMem_name] at hsplit
    exact List.append_cancel_right (Prod.mk.inj (Option.some.inj hsplit)).2
  have hcommas : x.commas = y.commas := by
    rw [Bool.eq_iff_iff, ← comma_mem_iff, ← comma_mem_iff, hbody]
  refine IntegerText.values_eq_of_texts_eq ?_
  cases hy : y.commas with
  | true => rw [← x.integers_of_commas (hcommas.trans hy), hbody, y.integers_of_commas hy]
  | false => rw [← x.integers_of_blanks (hcommas.trans hy), hbody, y.integers_of_blanks hy]

theorem filter_isSpace_filter (cs : List Char) :
    (cs.filter (· != ' ')).filter (! isSpace ·) = cs.filter (! isSpace ·) := by
  rw [List.filter_filter]
  refine List.filter_congr fun c _ => ?_
  by_cases h : c = ' '
  · rw [h]; rfl
  · rw [(bne_iff_ne).mpr h, Bool.and_true]

theorem solid_eq_of_normal_eq {x y : CallText} (h : normal y.text = normal x.text) :
    y.body.filter (! isSpace ·) = x.body.filter (! isSpace ·) := by
  rw [← filter_isSpace_filter y.body, body_eq_of_normal_eq h, filter_isSpace_filter]

theorem commas_eq_of_normal_eq {x y : CallText} (h : normal y.text = normal x.text) :
    y.commas = x.commas := by
  rw [Bool.eq_iff_iff, ← comma_mem_iff, ← comma_mem_iff, solid_eq_of_normal_eq h]

theorem texts_eq_of_normal_eq {x y : CallText} (hx : x.commas = true)
    (h : normal y.text = normal x.text) :
    y.integers.map IntegerText.text = x.integers.map IntegerText.text := by
  rw [← y.integers_of_commas ((commas_eq_of_normal_eq h).trans hx), solid_eq_of_normal_eq h,
    x.integers_of_commas hx]

/-- **A call with commas is known by its spelling.** -/
theorem channels_eq_of_normal_eq {x y : CallText} (hx : x.commas = true)
    (h : normal y.text = normal x.text) : y.channels = x.channels :=
  IntegerText.values_eq_of_texts_eq (texts_eq_of_normal_eq hx h)

/-- The integers of a call, one right after the other. -/
def run : List Char :=
  x.integers.flatMap IntegerText.text

/-- Of a call without commas the spelling tells only what its integers are together. -/
theorem run_eq_of_normal_eq {x y : CallText} (h : normal y.text = normal x.text) :
    y.run = x.run := by
  cases hx : x.commas with
  | true => rw [run, run, List.flatMap_def, List.flatMap_def, texts_eq_of_normal_eq hx h]
  | false =>
    have hrun : ∀ z : CallText, z.commas = false → z.body.filter (! isSpace ·) = z.run := by
      intro z hz
      rw [filter_body, hz, run, integers, List.flatMap_cons, List.flatMap_map]
      rfl
    rw [← hrun y ((commas_eq_of_normal_eq h).trans hx), solid_eq_of_normal_eq h, hrun x hx]

/-! ### Calls with more or fewer spaces -/

theorem all_isSpace_filter {blank : List Char} (h : blank.all isSpace = true) :
    (blank.filter (· != ' ')).all isSpace = true :=
  List.all_eq_true.mpr fun c hc => List.all_eq_true.mp h c (List.mem_of_mem_filter hc)

/-- The parts of a call without their spaces. -/
def despacedRest : List (List Char × IntegerText) :=
  x.rest.map fun part => (part.1.filter (· != ' '), part.2)

theorem separators_despacedRest (commas : x.commas = true) : ∀ part ∈ x.despacedRest, part.1 ≠ [] ∧
    part.1.filter (! isSpace ·) = if true then [','] else [] := by
  intro part hpart
  obtain ⟨part, hpart', rfl⟩ := List.mem_map.mp hpart
  have hcomma : (part.1.filter (· != ' ')).filter (! isSpace ·) = [','] := by
    rw [filter_isSpace_filter, (x.separators part hpart').2, commas]
    rfl
  refine ⟨fun hempty => ?_, hcomma⟩
  change part.1.filter (· != ' ') = [] at hempty
  rw [hempty] at hcomma
  cases hcomma

theorem size_despacedRest : x.despacedRest.length = 2 ∨ x.despacedRest.length = 3 := by
  rw [despacedRest, List.length_map]
  exact x.size

/-- A call with commas, without its spaces and with another spelling of its name. -/
def respelt (name : List Char) (isName : name.map Char.toLower ∈ ["rgb".toList, "rgba".toList])
    (commas : x.commas = true) : CallText where
  name := name
  commas := true
  lead := x.lead.filter (· != ' ')
  first := x.first
  rest := x.despacedRest
  trail := x.trail.filter (· != ' ')
  isName := isName
  lead_blank := all_isSpace_filter x.lead_blank
  trail_blank := all_isSpace_filter x.trail_blank
  separators := x.separators_despacedRest commas
  size := x.size_despacedRest

theorem body_respelt {name : List Char}
    (isName : name.map Char.toLower ∈ ["rgb".toList, "rgba".toList]) (commas : x.commas = true) :
    (x.respelt name isName commas).body = x.body.filter (· != ' ') := by
  have hinteger : ∀ n : IntegerText, n.text.filter (· != ' ') = n.text := fun n =>
    List.filter_eq_self.mpr fun c hc => by
      rw [bne_iff_ne]
      rintro rfl
      exact absurd (n.isSpace_of_mem hc) (by decide)
  rw [body, body, List.filter_append, List.filter_append, List.filter_append, hinteger,
    List.filter_flatMap]
  simp only [respelt, despacedRest, List.flatMap_map, List.filter_append, hinteger]

theorem channels_respelt {name : List Char}
    (isName : name.map Char.toLower ∈ ["rgb".toList, "rgba".toList]) (commas : x.commas = true) :
    (x.respelt name isName commas).channels = x.channels := by
  rw [channels, channels, integers, integers]
  simp only [respelt, despacedRest, List.map_map]
  rfl

/-- What a character of a spelling is, from the bracket on. -/
theorem bracketChar {c : Char} (h : c ∈ '(' :: (x.body.filter (· != ' ') ++ [')'])) :
    isAsciiOnly c = true ∧ c.isAlpha = false := by
  rw [List.mem_cons, List.mem_append, List.mem_singleton] at h
  rcases h with rfl | h | rfl
  · decide
  · have hbody := x.bodyChar (List.mem_of_mem_filter h)
    exact ⟨hbody.isAsciiOnly, hbody.isAlpha⟩
  · decide

/-- **A text with the spelling of a call is that spelling**, up to spaces and the case of
letters. -/
theorem map_toLower_despaced {x : CallText} {cs : List Char} (h : normal cs = normal x.text) :
    (despaced cs).map Char.toLower = normal x.text := by
  have hexpand : (lower (trim cs)).filter (· != ' ') = normal x.text := by
    rw [← h, normal, expandHex_of_head]
    rw [← head?_expandHex, ← normal, h, normal_text]
    exact x.head?_small_name _
  refine map_toLower_of_lower hexpand ?_
  rw [normal_text, List.all_append, Bool.and_eq_true]
  exact ⟨x.isAsciiOnly_small_name, List.all_eq_true.mpr fun c hc => (x.bracketChar hc).1⟩

/-- **Only calls are brought to the spelling of a call with commas.**  A text with the same spelling
is, up to spaces, a call with the same channels. -/
theorem exists_of_normal_eq {x : CallText} (hx : x.commas = true) {cs : List Char}
    (h : normal cs = normal x.text) :
    ∃ y : CallText, despaced cs = y.text ∧ y.channels = x.channels := by
  have hsmall := map_toLower_despaced h
  rw [normal_text] at hsmall
  obtain ⟨name, rest, hcs, hname, hrest⟩ := List.map_eq_append_iff.mp hsmall
  -- only the name can be in another case, there are no letters after it
  have hsame := eq_of_map_toLower_eq hrest fun c hc => (x.bracketChar hc).2
  refine ⟨x.respelt name (hname ▸ x.isName) hx, ?_, x.channels_respelt _ hx⟩
  rw [text, body_respelt, hcs, hsame]
  rfl

end CallText

/-! ### Colours -/

/-- A single colour as it is written. -/
inductive ColorText where
  | hex (x : HexText)
  | call (x : CallText)

namespace ColorText

def text : ColorText → List Char
  | hex x => x.text
  | call x => x.text

def channels : ColorText → List Int
  | hex x => x.channels.map Int.ofNat
  | call x => x.channels

/-- Whether colours of this form with other channels have another spelling.  Spaces do not count in
a spelling, so it does not keep the channels apart if nothing else stands between them. -/
def keepsChannels : ColorText → Bool
  | hex _ => true
  | call x => x.commas

theorem text_hex_ne_text_call (x : HexText) (y : CallText) : x.text ≠ y.text := by
  intro h
  obtain ⟨c, name, hname⟩ := List.exists_cons_of_ne_nil y.name_ne_nil
  have hc : '#' = c := by
    rw [HexText.text, CallText.text, hname] at h
    exact (List.cons.inj h).1
  have hmem : c ∈ y.name := hname ▸ List.mem_cons_self
  exact (y.nameChar hmem).notMem (hc ▸ List.mem_cons_self)

theorem normal_hex_ne_normal_call (x : HexText) (y : CallText) :
    normal x.text ≠ normal y.text := by
  intro h
  rw [x.normal_text, y.normal_text] at h
  exact y.head?_small_name _ ((congrArg List.head? h).symm.trans rfl)

theorem trim_text (x : ColorText) : trim x.text = x.text := by
  cases x with
  | hex x => exact x.trim_text
  | call x => exact x.trim_text

theorem normal_text_of_trim (x : ColorText) {cs : List Char} (h : trim cs = x.text) :
    normal x.text = normal cs := by
  rw [normal, normal, x.trim_text, h]

/-- **A colour is read in one way.** -/
theorem channels_eq_of_text_eq {x y : ColorText} (h : x.text = y.text) :
    x.channels = y.channels := by
  cases x with
  | hex x =>
    cases y with
    | hex y =>
      exact congrArg (List.map Int.ofNat) (HexText.normal_text_eq_iff.mp (congrArg normal h))
    | call y => exact absurd h (text_hex_ne_text_call x y)
  | call x =>
    cases y with
    | hex y => exact absurd h.symm (text_hex_ne_text_call y x)
    | call y => exact CallText.channels_eq_of_text_eq h

theorem channels_eq_of_normal_eq {x y : ColorText} (hx : x.keepsChannels = true)
    (h : normal y.text = normal x.text) : y.channels = x.channels := by
  cases x with
  | hex x =>
    cases y with
    | hex y => exact congrArg (List.map Int.ofNat) (HexText.normal_text_eq_iff.mp h)
    | call y => exact absurd h.symm (normal_hex_ne_normal_call x y)
  | call x =>
    cases y with
    | hex y => exact absurd h (normal_hex_ne_normal_call y x)
    | call y => exact CallText.channels_eq_of_normal_eq hx h

end ColorText

/-- The text writes a colour with these channels. -/
def Denotes (cs : List Char) (channels : List Int) : Prop :=
  ∃ x : ColorText, cs = x.text ∧ x.channels = channels

theorem Denotes.unique {cs : List Char} {channels channels' : List Int} (h : Denotes cs channels)
    (h' : Denotes cs channels') : channels = channels' := by
  obtain ⟨x, hx, rfl⟩ := h
  obtain ⟨y, hy, rfl⟩ := h'
  exact ColorText.channels_eq_of_text_eq (hx ▸ hy)

/-- **A spelling tells the colour.**  All texts with the spelling of a colour that keeps its
channels apart write the same channels, whether or not their spaces are taken away. -/
theorem denotes_of_normal_eq {x : ColorText} (hx : x.keepsChannels = true) {cs : List Char}
    (h : normal cs = normal x.text) : Denotes (despaced cs) x.channels ∧
      ∀ channels, Denotes (trim cs) channels → channels = x.channels := by
  constructor
  · cases x with
    | hex x =>
      obtain ⟨y, hy, hchannels⟩ := HexText.exists_of_normal_eq h
      exact ⟨.hex y, hy, congrArg (List.map Int.ofNat) hchannels⟩
    | call x =>
      obtain ⟨y, hy, hchannels⟩ := CallText.exists_of_normal_eq hx h
      exact ⟨.call y, hy, hchannels⟩
  · rintro channels ⟨y, hy, rfl⟩
    exact ColorText.channels_eq_of_normal_eq hx ((y.normal_text_of_trim hy).trans h)

end StyleAudit.Style.Color
