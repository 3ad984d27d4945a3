import Mathlib.Data.List.TakeWhile
import StyleAudit.Proofs.Style.Nesting
import StyleAudit.Proofs.Text.Pattern
import StyleAudit.Style.Forest

/-!
# Marks at the front of a text

What `Mark.read` finds at the front of a text: a blank (`Mark.read_blank`), a name
(`Mark.read_ident`), a quantity (`Mark.read_quantity`) or a literal of one character
(`Mark.read_literal`).  Each of them ends where the text goes on with a character that cannot belong
to it (`Stops`, `Opens`).  A number reads ahead the furthest; `number?_append` says that it does not
see what follows such a character.

In the text of a declaration every mark is a leaf without fault, and it ends before the semicolon
(`Mark.read_plain`).
-/

namespace StyleAudit.Style

open StyleAudit.Text Nested

/-! ### What follows -/

/-- The text does not begin with a character that satisfies `p`. -/
def Stops (p : Char → Bool) (rest : List Char) : Prop :=
  ∀ c ∈ rest.head?, p c = false

/-- The text begins with one of the characters. -/
def Opens (cs rest : List Char) : Prop :=
  ∃ c ∈ cs, ∃ rest', rest = c :: rest'

theorem ne_of_holds {p : Char → Bool} {c d : Char} (hc : p c = true) (hd : p d = false) :
    c ≠ d := by
  rintro rfl
  exact Bool.eq_false_iff.mp hd hc

theorem all_of_imp {p q : Char → Bool} (hpq : ∀ {c}, p c = true → q c = true) {cs : List Char}
    (h : cs.all p = true) : cs.all q = true :=
  List.all_eq_true.mpr fun c hc => hpq (List.all_eq_true.mp h c hc)

theorem Opens.stops {cs rest : List Char} (h : Opens cs rest) {p : Char → Bool}
    (hp : cs.all (! p ·) = true) : Stops p rest := by
  obtain ⟨c, hc, rest', rfl⟩ := h
  intro d hd
  cases hd
  simpa using List.all_eq_true.mp hp c hc

theorem Opens.mono {cs ds rest : List Char} (h : Opens cs rest) (hsub : cs ⊆ ds) : Opens ds rest :=
  h.imp fun _ hc => ⟨hsub hc.1, hc.2⟩

theorem Stops.mono {p q : Char → Bool} {rest : List Char} (h : Stops p rest)
    (hpq : ∀ c, q c = true → p c = true) : Stops q rest := fun c hc =>
  Bool.eq_false_iff.mpr fun hq => Bool.eq_false_iff.mp (h c hc) (hpq c hq)

theorem Stops.ne {p : Char → Bool} {c : Char} {rest : List Char} (h : Stops p (c :: rest))
    {d : Char} (hd : p d = true) : c ≠ d :=
  (ne_of_holds hd (h c rfl)).symm

theorem takeWhile_append_of_stops {p : Char → Bool} {rest : List Char} (h : Stops p rest)
    (cs : List Char) : (cs ++ rest).takeWhile p = cs.takeWhile p := by
  induction cs with
  | nil =>
    cases rest with
    | nil => rfl
    | cons c rest => exact List.takeWhile_cons_of_neg (by simp [h c rfl])
  | cons c cs ih =>
    by_cases hc : p c = true
    · rw [List.cons_append, List.takeWhile_cons_of_pos hc, List.takeWhile_cons_of_pos hc, ih]
    · rw [List.cons_append, List.takeWhile_cons_of_neg hc, List.takeWhile_cons_of_neg hc]

theorem dropWhile_append_of_stops {p : Char → Bool} {rest : List Char} (h : Stops p rest)
    (cs : List Char) : (cs ++ rest).dropWhile p = cs.dropWhile p ++ rest := by
  induction cs with
  | nil =>
    cases rest with
    | nil => rfl
    | cons c rest => exact List.dropWhile_cons_of_neg (by simp [h c rfl])
  | cons c cs ih =>
    by_cases hc : p c = true
    · rw [List.cons_append, List.dropWhile_cons_of_pos hc, List.dropWhile_cons_of_pos hc, ih]
    · rw [List.cons_append, List.dropWhile_cons_of_neg hc, List.dropWhile_cons_of_neg hc,
        List.cons_append]

theorem append_prefix_of_drop {front more cs : List Char} (hfront : front <+: cs)
    (hmore : more <+: cs.drop front.length) : front ++ more <+: cs := by
  obtain ⟨tail, rfl⟩ := hfront
  rw [List.drop_left] at hmore
  exact (List.prefix_append_right_inj front).mpr hmore

theorem drop_append_of_isPrefix {front cs : List Char} (h : front <+: cs) (rest : List Char) :
    (cs ++ rest).drop front.length = cs.drop front.length ++ rest :=
  List.drop_append_of_le_length h.length_le

/-! ### Numbers -/

/-- A character that can be part of a number. -/
def isNumeric (c : Char) : Bool :=
  isAsciiDigit c || ['+', '-', '.', 'e', 'E'].contains c

theorem signText_isPrefix (cs : List Char) : signText cs <+: cs := by
  rw [signText.eq_def]
  split
  · exact ⟨_, rfl⟩
  · exact ⟨_, rfl⟩
  · exact List.nil_prefix

theorem digits?_isPrefix {cs ds : List Char} (h : digits? cs = some ds) : ds <+: cs := by
  rw [digits?] at h
  split at h
  · cases h
  · cases h
    exact List.takeWhile_prefix _

theorem unsigned?_isPrefix {cs ds : List Char} (h : unsigned? cs = some ds) : ds <+: cs := by
  rw [unsigned?, Option.or_eq_some_iff] at h
  rcases h with h | ⟨-, h⟩
  · split at h
    · rename_i rest hrest
      obtain ⟨ds, hds, rfl⟩ := Option.map_eq_some_iff.mp h
      have hcs : cs = cs.takeWhile isAsciiDigit ++ '.' :: rest := by
        rw [← hrest, List.takeWhile_append_dropWhile]
      conv_rhs => rw [hcs]
      rw [List.prefix_append_right_inj, List.cons_prefix_cons]
      exact ⟨rfl, digits?_isPrefix hds⟩
    · cases h
  · exact digits?_isPrefix h

theorem powerOfTen_isPrefix (cs : List Char) : powerOfTen cs <+: cs := by
  cases cs with
  | nil => exact List.nil_prefix
  | cons e cs =>
    rw [powerOfTen]
    split
    · split
      · rename_i ds hds
        rw [List.cons_append, List.cons_prefix_cons]
        exact ⟨rfl, append_prefix_of_drop (signText_isPrefix cs) (digits?_isPrefix hds)⟩
      · exact List.nil_prefix
    · exact List.nil_prefix

/-- A number is part of the text that it is read from. -/
theorem number?_isPrefix {cs number : List Char} (h : number? cs = some number) :
    number <+: cs := by
  obtain ⟨ds, hds, rfl⟩ := Option.map_eq_some_iff.mp h
  have hfront := append_prefix_of_drop (signText_isPrefix cs) (unsigned?_isPrefix hds)
  exact append_prefix_of_drop hfront (powerOfTen_isPrefix _)

theorem unsigned?_ne_nil {cs ds : List Char} (h : unsigned? cs = some ds) : ds ≠ [] := by
  rw [unsigned?, Option.or_eq_some_iff] at h
  rcases h with h | ⟨-, h⟩
  · split at h
    · obtain ⟨ds, -, rfl⟩ := Option.map_eq_some_iff.mp h
      exact List.append_ne_nil_of_right_ne_nil _ (List.cons_ne_nil _ _)
    · cases h
  · rw [digits?] at h
    split at h
    · cases h
    · rename_i hne
      cases h
      exact hne

theorem number?_ne_nil {cs number : List Char} (h : number? cs = some number) : number ≠ [] := by
  obtain ⟨ds, hds, rfl⟩ := Option.map_eq_some_iff.mp h
  exact List.append_ne_nil_of_left_ne_nil
    (List.append_ne_nil_of_right_ne_nil _ (unsigned?_ne_nil hds)) _

section Append

variable {rest : List Char} (h : Stops isNumeric rest)

include h

theorem digits?_append (cs : List Char) : digits? (cs ++ rest) = digits? cs := by
  have hdigit : Stops isAsciiDigit rest := h.mono fun c hc => by rw [isNumeric, hc]; rfl
  rw [digits?, digits?, takeWhile_append_of_stops hdigit]

theorem signText_append (cs : List Char) : signText (cs ++ rest) = signText cs := by
  match cs, rest, h with
  | [], [], _ => rfl
  | [], c :: rest, h =>
    have hplus : c ≠ '+' := h.ne rfl
    have hminus : c ≠ '-' := h.ne rfl
    simp [signText, hplus, hminus]
  | c :: cs, rest, _ =>
    by_cases hplus : c = '+'
    · subst hplus; rfl
    · by_cases hminus : c = '-'
      · subst hminus; rfl
      · simp [signText, hplus, hminus]

theorem unsigned?_append (cs : List Char) : unsigned? (cs ++ rest) = unsigned? cs := by
  have hdigit : Stops isAsciiDigit rest := h.mono fun c hc => by rw [isNumeric, hc]; rfl
  rw [unsigned?, unsigned?, takeWhile_append_of_stops hdigit, dropWhile_append_of_stops hdigit,
    digits?_append h]
  match cs.dropWhile isAsciiDigit, rest, h with
  | [], [], _ => rfl
  | [], c :: rest, h =>
    have hpoint : c ≠ '.' := h.ne rfl
    simp [hpoint]
  | c :: more, rest, h =>
    by_cases hpoint : c = '.'
    · subst hpoint
      simp [digits?_append h]
    · simp [hpoint]

theorem powerOfTen_append (cs : List Char) : powerOfTen (cs ++ rest) = powerOfTen cs := by
  match cs, rest, h with
  | [], [], _ => rfl
  | [], c :: rest, h =>
    have hsmall : c ≠ 'e' := h.ne rfl
    have hlarge : c ≠ 'E' := h.ne rfl
    simp [powerOfTen, hsmall, hlarge]
  | e :: cs, rest, h =>
    rw [List.cons_append, powerOfTen, powerOfTen, signText_append h,
      drop_append_of_isPrefix (signText_isPrefix cs), digits?_append h]

/-- A number does not look past a character that cannot be part of it. -/
theorem number?_append (cs : List Char) : number? (cs ++ rest) = number? cs := by
  rw [number?, number?, signText_append h, drop_append_of_isPrefix (signText_isPrefix cs),
    unsigned?_append h]
  cases hds : unsigned? (cs.drop (signText cs).length) with
  | none => rfl
  | some ds =>
    have hfront := append_prefix_of_drop (signText_isPrefix cs) (unsigned?_isPrefix hds)
    rw [Option.map_some, Option.map_some, drop_append_of_isPrefix hfront, powerOfTen_append h]

end Append

theorem number?_dot {cs : List Char} (h : Stops isAsciiDigit cs) : number? ('.' :: cs) = none := by
  have hdigits : cs.takeWhile isAsciiDigit = [] := takeWhile_append_of_stops h []
  have hdot : isAsciiDigit '.' = false := by decide
  simp [number?, signText, unsigned?, digits?, hdigits, hdot]

/-- A number begins with a digit, a sign or a point. -/
theorem number?_of_ne {c : Char} (h : isNumeric c = false) (cs : List Char) :
    number? (c :: cs) = none := by
  have hstop : Stops isNumeric (c :: cs) := by
    intro d hd
    cases hd
    exact h
  exact number?_append hstop []

/-! ### Names -/

/-- The characters that a name may be followed by. -/
def nameEnds : List Char :=
  [' ', '\t', '\n', '{', ';', ':', '.', ',', '%', '#', '!']

theorem isPlain_of_isClassChar {c : Char} (h : isClassChar c = true) : isPlain c = true := by
  rw [isPlain, h]
  rfl

theorem isNameChar_of_isClassChar {c : Char} (h : isClassChar c = true) : isNameChar c = true := by
  rw [isNameChar, ← isClassChar, h]
  rfl

theorem isSpace_of_isClassChar {c : Char} (h : isClassChar c = true) : isSpace c = false := by
  have hspace : c ≠ ' ' := ne_of_holds h (by decide)
  have htab : c ≠ '\t' := ne_of_holds h (by decide)
  have hline : c ≠ '\n' := ne_of_holds h (by decide)
  simp [isSpace, hspace, htab, hline]

theorem startsEscape_nil : startsEscape [] = false := rfl

theorem startsEscape_of_ne {c : Char} (h : c ≠ '\\') (cs : List Char) :
    startsEscape (c :: cs) = false := by
  rw [startsEscape.eq_def]
  split
  · rfl
  · rename_i heq
    cases heq
    exact absurd rfl h
  · rfl

theorem startsIdent_cons {c d : Char} (hc : c ≠ '\\') (hd : d ≠ '\\') (cs : List Char) :
    startsIdent (c :: d :: cs) = (isNameStart c || c == '-' && (isNameStart d || d == '-')) := by
  simp [startsIdent, startsEscape_of_ne hc, startsEscape_of_ne hd]

section Run

variable {run rest : List Char} (hrun : run.all isClassChar = true) (hrest : Opens nameEnds rest)

include hrun hrest

theorem readNameFrom_run : readNameFrom 0 (run ++ rest) = (run, run.length) := by
  induction run with
  | nil =>
    have hname := hrest.stops (p := isNameChar) (by decide)
    have hescape := hrest.stops (p := (· == '\\')) (by decide)
    obtain ⟨c, -, rest, rfl⟩ := hrest
    have hc : c ≠ '\\' := hescape.ne rfl
    rw [List.nil_append, readNameFrom, hname c rfl, startsEscape_of_ne hc]
    rfl
  | cons c run ih =>
    rw [List.all_cons, Bool.and_eq_true] at hrun
    rw [List.cons_append, readNameFrom, isNameChar_of_isClassChar hrun.1, if_pos rfl, ih hrun.2]
    rfl

/-- A run begins a name, or does not, whatever it is followed by. -/
theorem startsIdent_append : startsIdent (run ++ rest) = startsIdent run := by
  have hstart := hrest.stops (p := isNameStart) (by decide)
  have hother := hrest.stops (p := fun c => c == '-' || c == '\\') (by decide)
  obtain ⟨d, -, rest, rfl⟩ := hrest
  have hhyphen : (d == '-') = false := beq_false_of_ne (hother.ne rfl)
  have hescape : d ≠ '\\' := hother.ne rfl
  match run, hrun with
  | [], _ => simp [startsIdent, startsEscape_of_ne hescape, hstart d rfl, hhyphen]
  | [c], hrun =>
    have hc : c ≠ '\\' := ne_of_holds (p := isClassChar) (by simpa using hrun) (by decide)
    rw [List.singleton_append, startsIdent_cons hc hescape]
    simp [startsIdent, startsEscape_of_ne hc, startsEscape_nil, hstart d rfl, hhyphen]
  | c :: e :: cs, hrun =>
    rw [List.all_cons, List.all_cons, Bool.and_eq_true, Bool.and_eq_true] at hrun
    have hc : c ≠ '\\' := ne_of_holds hrun.1 (by decide)
    have he : e ≠ '\\' := ne_of_holds hrun.2.1 (by decide)
    rw [List.cons_append, List.cons_append, startsIdent_cons hc he, startsIdent_cons hc he]

end Run

theorem startsIdent_of_opens {rest : List Char} (h : Opens nameEnds rest) :
    startsIdent rest = false :=
  startsIdent_append (rfl : ([] : List Char).all isClassChar = true) h

theorem startsIdent_hyphen {rest : List Char} (h : Opens nameEnds rest) :
    startsIdent ('-' :: rest) = false :=
  startsIdent_append (by decide : ['-'].all isClassChar = true) h

/-! ### One mark -/

theorem opensCodeRange_of_ne {c d : Char} (h : d ≠ '+') (cs : List Char) :
    opensCodeRange (c :: d :: cs) = false := by
  rw [opensCodeRange.eq_def]
  split
  · rename_i heq
    cases heq
    exact absurd rfl h
  · rfl

/-- Plain text does not begin with what is told by its later characters. -/
theorem not_opens_of_plain {c : Char} {cs rest : List Char} (hplain : (c :: cs).all isPlain = true)
    (hrest : Opens nameEnds rest) :
    opensCodeRange (c :: (cs ++ rest)) = false ∧
      dropLead? ['-', '-', '>'] (c :: (cs ++ rest)) = none := by
  have hstop := hrest.stops (p := ['+', '-', '>'].contains) (by decide)
  obtain ⟨d, -, rest, rfl⟩ := hrest
  have hplus : d ≠ '+' := hstop.ne rfl
  have hhyphen : '-' ≠ d := (hstop.ne rfl).symm
  have harrow : '>' ≠ d := (hstop.ne rfl).symm
  match cs, hplain with
  | [], _ => exact ⟨opensCodeRange_of_ne hplus _, by simp [dropLead?, hhyphen]⟩
  | [e], hplain =>
    simp only [List.all_cons, Bool.and_eq_true] at hplain
    have he : e ≠ '+' := ne_of_holds hplain.2.1 (by decide)
    exact ⟨opensCodeRange_of_ne he _, by simp [dropLead?, harrow]⟩
  | e :: f :: cs, hplain =>
    simp only [List.all_cons, Bool.and_eq_true] at hplain
    have he : e ≠ '+' := ne_of_holds hplain.2.1 (by decide)
    have hf : '>' ≠ f := (ne_of_holds hplain.2.2.1 (by decide)).symm
    exact ⟨opensCodeRange_of_ne he _, by simp [dropLead?, hf]⟩

theorem Mark.read_blank {c : Char} {cs rest : List Char} (hblank : (c :: cs).all isSpace = true)
    (hrest : Stops isSpace rest) :
    Mark.read c (cs ++ rest) = ([.leaf (.blank (String.ofList (c :: cs)))], cs.length) := by
  rw [List.all_cons, Bool.and_eq_true] at hblank
  have hspaces : (cs ++ rest).takeWhile isSpace = cs := by
    rw [takeWhile_append_of_stops hrest, List.takeWhile_eq_self_iff]
    exact List.all_eq_true.mp hblank.2
  rw [Mark.read.eq_def, if_pos hblank.1, hspaces]

theorem Mark.read_ident {c : Char} {cs rest : List Char} (hrun : (c :: cs).all isClassChar = true)
    (hident : startsIdent (c :: cs) = true) (hrest : Opens nameEnds rest) :
    Mark.read c (cs ++ rest) = ([.leaf (.ident (String.ofList (c :: cs)))], cs.length) := by
  have hplain : (c :: cs).all isPlain = true := all_of_imp isPlain_of_isClassChar hrun
  have hspace := isSpace_of_isClassChar (List.all_eq_true.mp hrun c List.mem_cons_self)
  have hname := readNameFrom_run hrun hrest
  have hstart := (startsIdent_append hrun hrest).trans hident
  have hround := hrest.stops (p := (· == '(')) (by decide)
  obtain ⟨hrange, harrow⟩ := not_opens_of_plain hplain hrest
  obtain ⟨d, -, rest, rfl⟩ := hrest
  have hparen : d ≠ '(' := hround.ne rfl
  rw [List.cons_append] at hname hstart
  simp [Mark.read.eq_def, hspace, hrange, harrow, hstart, readName, hname, hparen]

theorem Mark.read_quantity {c : Char} {cs number : List Char} (hspace : isSpace c = false)
    (hrange : opensCodeRange (c :: cs) = false)
    (harrow : dropLead? ['-', '-', '>'] (c :: cs) = none) (hident : startsIdent (c :: cs) = false)
    (hnumber : number? (c :: cs) = some number) :
    Mark.read c cs =
      ([.leaf (readQuantity number ((c :: cs).drop number.length)).1],
        number.length + (readQuantity number ((c :: cs).drop number.length)).2 - 1) := by
  simp [Mark.read.eq_def, hspace, hrange, harrow, hident, hnumber]

/-- The characters that begin something of their own, which is no literal of one character. -/
def leaders : List Char :=
  ['@', '#', '{', '[', '(', '}', ']', ')', '"', '\'', '/', '<', '|', '~', '^', '$', '*']

theorem literalText_of_notMem {c : Char} (h : c ∉ leaders) (cs : List Char) :
    literalText c cs = c.toString := by
  have hfirst : longLiterals.all (fun l => l.toList.head?.any leaders.contains) = true := by decide
  have hnone : (longLiterals.find? fun l => (dropLead? l.toList (c :: cs)).isSome) = none := by
    rw [List.find?_eq_none]
    intro l hl
    have hlead := List.all_eq_true.mp hfirst l hl
    cases hl : l.toList with
    | nil => rw [hl] at hlead; cases hlead
    | cons d ds =>
      rw [hl] at hlead
      have hdc : d ≠ c := by rintro rfl; exact h (List.contains_iff_mem.mp hlead)
      simp [dropLead?, hdc]
  rw [literalText, hnone]
  rfl

theorem Mark.read_literal {c : Char} {cs : List Char} (hspace : isSpace c = false)
    (hrange : opensCodeRange (c :: cs) = false)
    (harrow : dropLead? ['-', '-', '>'] (c :: cs) = none) (hident : startsIdent (c :: cs) = false)
    (hnumber : number? (c :: cs) = none) (hc : c ∉ leaders) :
    Mark.read c cs = ([.leaf (.literal c.toString)], 0) := by
  have htext := literalText_of_notMem hc cs
  have hne : ∀ d ∈ leaders, c ≠ d := fun d hd => by rintro rfl; exact hc hd
  have hcomment : dropLead? ['/', '*'] (c :: cs) = none := by
    simp [dropLead?, (hne '/' (by decide)).symm]
  rw [Mark.read.eq_def]
  simp only [hspace, hrange, harrow, hident, hnumber, hcomment, htext, Option.isSome_none,
    Bool.false_eq_true, if_false]
  split
  case h_11 => simp
  all_goals exact absurd rfl (hne _ (by decide))

/-- A character that is no part of a name, a number or an escape. -/
def isSymbol (c : Char) : Bool :=
  !(isSpace c || isNameChar c || ['\\', '+', '.'].contains c)

/-- A symbol is told by itself. -/
theorem not_opens_of_symbol {c : Char} (h : isSymbol c = true) (cs : List Char) :
    isSpace c = false ∧ opensCodeRange (c :: cs) = false ∧
      dropLead? ['-', '-', '>'] (c :: cs) = none ∧ startsIdent (c :: cs) = false ∧
      number? (c :: cs) = none := by
  simp only [isSymbol, Bool.not_eq_true', Bool.or_eq_false_iff] at h
  obtain ⟨⟨hspace, hname⟩, hother⟩ := h
  have hne : ∀ d, isNameChar d = true → c ≠ d := fun d hd => (ne_of_holds hd hname).symm
  have hescape : c ≠ '\\' := by rintro rfl; cases hother
  have hstart : isNameStart c = false := by
    simp only [isNameChar, Char.isAlphanum, Bool.or_eq_false_iff] at hname
    simp [isNameStart, hname]
  have hnumeric : isNumeric c = false := by
    simp only [isNameChar, Char.isAlphanum, Bool.or_eq_false_iff] at hname
    have hmore : ['-', 'e', 'E'].contains c = false := by
      simp [hne '-' rfl, hne 'e' (by decide), hne 'E' (by decide)]
    simp [isNumeric, isAsciiDigit, hname] at hother hmore ⊢
    exact ⟨hother.2.1, hmore.1, hother.2.2, hmore.2⟩
  have hrange : opensCodeRange (c :: cs) = false := by
    rw [opensCodeRange.eq_def]
    split
    · rename_i heq
      cases heq
      simp [hne 'u' (by decide), hne 'U' (by decide)]
    · rfl
  refine ⟨hspace, hrange, ?_, ?_, number?_of_ne hnumeric cs⟩
  · simp [dropLead?, (hne '-' rfl).symm]
  · simp [startsIdent, hstart, startsEscape_of_ne hescape, hne '-' rfl]

theorem Mark.read_symbol {c : Char} (h : isSymbol c = true) (hc : c ∉ leaders) (cs : List Char) :
    Mark.read c cs = ([.leaf (.literal c.toString)], 0) := by
  obtain ⟨hspace, hrange, harrow, hident, hnumber⟩ := not_opens_of_symbol h cs
  exact Mark.read_literal hspace hrange harrow hident hnumber hc

theorem Mark.read_opener (cs : List Char) : Mark.read '{' cs = ([.opener .curly], 0) := by
  obtain ⟨hspace, hrange, harrow, hident, hnumber⟩ := not_opens_of_symbol (c := '{') (by decide) cs
  simp [Mark.read.eq_def, hspace, hrange, harrow, hident, hnumber]

theorem Mark.read_closer (cs : List Char) : Mark.read '}' cs = ([.closer .curly], 0) := by
  obtain ⟨hspace, hrange, harrow, hident, hnumber⟩ := not_opens_of_symbol (c := '}') (by decide) cs
  simp [Mark.read.eq_def, hspace, hrange, harrow, hident, hnumber]

/-! ### Declarations -/

theorem mem_nameEnds_of_isPlain {c : Char} (h : isPlain c = true) (hc : isClassChar c = false) :
    c ∈ nameEnds := by
  have hmem : c ∈ [' ', '\t', '\n', ':', '.', ',', '%', '#', '!'] := by
    simpa [isPlain, hc, isSpace, or_assoc] using h
  have hsub : [' ', '\t', '\n', ':', '.', ',', '%', '#', '!'].all nameEnds.contains = true := by
    decide
  exact List.contains_iff_mem.mp (List.all_eq_true.mp hsub c hmem)

theorem opens_semicolon (rest : List Char) : Opens nameEnds (';' :: rest) :=
  ⟨';', by decide, rest, rfl⟩

/-- The run of class characters at the front of a declaration ends before the semicolon. -/
theorem exists_run {cs : List Char} (h : cs.all isPlain = true) (rest : List Char) :
    ∃ run more, cs = run ++ more ∧ run.all isClassChar = true ∧ more.all isPlain = true ∧
      Opens nameEnds (more ++ ';' :: rest) := by
  have hplain : (cs.dropWhile isClassChar).all isPlain = true := List.all_eq_true.mpr fun c hc =>
    List.all_eq_true.mp h c ((List.dropWhile_suffix isClassChar).subset hc)
  refine ⟨cs.takeWhile isClassChar, cs.dropWhile isClassChar,
    List.takeWhile_append_dropWhile.symm, List.all_takeWhile, hplain, ?_⟩
  have hhead := List.head?_dropWhile_not isClassChar cs
  cases hdrop : cs.dropWhile isClassChar with
  | nil => exact opens_semicolon rest
  | cons c more =>
    rw [hdrop] at hplain hhead
    exact ⟨c, mem_nameEnds_of_isPlain (List.all_eq_true.mp hplain c List.mem_cons_self) hhead,
      more ++ ';' :: rest, rfl⟩

theorem readName_plain {cs : List Char} (h : cs.all isPlain = true) (rest : List Char) :
    (readName (cs ++ ';' :: rest)).2 ≤ cs.length := by
  obtain ⟨run, more, rfl, hrun, -, hmore⟩ := exists_run h rest
  rw [List.append_assoc, readName, readNameFrom_run hrun hmore, List.length_append]
  exact Nat.le_add_right _ _

theorem readQuantity_plain (number : List Char) {cs : List Char} (h : cs.all isPlain = true)
    (rest : List Char) :
    (readQuantity number (cs ++ ';' :: rest)).2 ≤ cs.length ∧
      (readQuantity number (cs ++ ';' :: rest)).1.fault? = none := by
  rw [readQuantity]
  split
  · exact ⟨readName_plain h rest, rfl⟩
  · split
    · rename_i hpercent
      cases cs with
      | nil => cases hpercent
      | cons c cs => exact ⟨Nat.succ_le_succ (Nat.zero_le _), rfl⟩
    · exact ⟨Nat.zero_le _, rfl⟩

theorem fault?_literal_of_notMem {c : Char} (h : c ∉ [')', ']', '}']) :
    (Leaf.literal c.toString).fault? = none := by
  rw [Leaf.fault?, if_neg]
  intro hoccurs
  exact h ((occursIn_iff.mp hoccurs).subset (by simp))

theorem fault?_literal_of_isPlain {c : Char} (h : isPlain c = true) :
    (Leaf.literal c.toString).fault? = none := by
  have hclosers : [')', ']', '}'].all (! isPlain ·) = true := by decide
  refine fault?_literal_of_notMem fun hmem => ?_
  have hplain := List.all_eq_true.mp hclosers c hmem
  rw [h] at hplain
  cases hplain

/-- What is found is a leaf without fault, of at most `bound` characters after the first. -/
def IsPlainMark (found : List Mark × Nat) (bound : Nat) : Prop :=
  ∃ leaf used, found = ([.leaf leaf], used) ∧ used ≤ bound ∧ leaf.fault? = none

section Declaration

variable {c : Char} {cs : List Char} (h : (c :: cs).all isPlain = true) (rest : List Char)

theorem isPlainMark_of_isSpace (hspace : isSpace c = true) :
    IsPlainMark (Mark.read c (cs ++ ';' :: rest)) cs.length := by
  have hstop : Stops isSpace (';' :: rest) := fun d hd => by cases hd; rfl
  refine ⟨_, _, by rw [Mark.read.eq_def, if_pos hspace], ?_, rfl⟩
  rw [takeWhile_append_of_stops hstop]
  exact (List.takeWhile_prefix _).length_le

include h

theorem isPlainMark_of_startsIdent (hident : startsIdent (c :: (cs ++ ';' :: rest)) = true) :
    IsPlainMark (Mark.read c (cs ++ ';' :: rest)) cs.length := by
  obtain ⟨run, more, heq, hrun, -, hmore⟩ := exists_run h rest
  rw [← List.cons_append, heq, List.append_assoc, startsIdent_append hrun hmore] at hident
  cases run with
  | nil => cases hident
  | cons d run =>
    rw [List.cons_append, List.cons.injEq] at heq
    obtain ⟨rfl, rfl⟩ := heq
    refine ⟨_, _, by rw [List.append_assoc, Mark.read_ident hrun hident hmore], ?_, rfl⟩
    rw [List.length_append]
    exact Nat.le_add_right _ _

theorem isPlainMark_of_number (hspace : isSpace c = false)
    (hident : startsIdent (c :: (cs ++ ';' :: rest)) = false) {number : List Char}
    (hnumber : number? (c :: (cs ++ ';' :: rest)) = some number) :
    IsPlainMark (Mark.read c (cs ++ ';' :: rest)) cs.length := by
  obtain ⟨hrange, harrow⟩ := not_opens_of_plain h (opens_semicolon rest)
  have hread : number? (c :: cs) = some number :=
    (number?_append (fun d hd => by cases hd; rfl) (c :: cs)).symm.trans hnumber
  obtain ⟨tail, htail⟩ := number?_isPrefix hread
  have hlength := congrArg List.length htail
  have hdrop : (c :: (cs ++ ';' :: rest)).drop number.length = tail ++ ';' :: rest := by
    rw [← List.cons_append, ← htail, List.append_assoc, List.drop_left]
  rw [← htail, List.all_append, Bool.and_eq_true] at h
  obtain ⟨hused, hfault⟩ := readQuantity_plain number h.2 rest
  refine ⟨_, _, Mark.read_quantity hspace hrange harrow hident hnumber, ?_, ?_⟩
  · rw [hdrop]
    rw [List.length_append, List.length_cons] at hlength
    omega
  · rw [hdrop]
    exact hfault

theorem isPlainMark_of_hash (hc : c = '#') :
    IsPlainMark (Mark.read c (cs ++ ';' :: rest)) cs.length := by
  subst hc
  obtain ⟨hspace, hrange, harrow, hident, hnumber⟩ :=
    not_opens_of_symbol (c := '#') (by decide) (cs ++ ';' :: rest)
  rw [List.all_cons, Bool.and_eq_true] at h
  have hread : Mark.read '#' (cs ++ ';' :: rest) =
      if startsHashName (cs ++ ';' :: rest) then
        ([.leaf (.hash (readName (cs ++ ';' :: rest)).1 (startsIdent (cs ++ ';' :: rest)))],
          (readName (cs ++ ';' :: rest)).2)
      else ([.leaf (.literal "#")], 0) := by
    simp [Mark.read.eq_def, hspace, hrange, harrow, hident, hnumber]
  rw [hread]
  split
  · exact ⟨_, _, rfl, readName_plain h.2 rest, rfl⟩
  · exact ⟨_, _, rfl, Nat.zero_le _, by decide⟩

/-- **A mark of a declaration is a leaf without fault**, and it ends before the semicolon. -/
theorem Mark.read_plain : IsPlainMark (Mark.read c (cs ++ ';' :: rest)) cs.length := by
  have hc : isPlain c = true := List.all_eq_true.mp h c List.mem_cons_self
  cases hspace : isSpace c with
  | true => exact isPlainMark_of_isSpace rest hspace
  | false =>
    cases hident : startsIdent (c :: (cs ++ ';' :: rest)) with
    | true => exact isPlainMark_of_startsIdent h rest hident
    | false =>
      cases hnumber : number? (c :: (cs ++ ';' :: rest)) with
      | some number => exact isPlainMark_of_number h rest hspace hident hnumber
      | none =>
        by_cases hhash : c = '#'
        · exact isPlainMark_of_hash h rest hhash
        · obtain ⟨hrange, harrow⟩ := not_opens_of_plain h (opens_semicolon rest)
          have hother : leaders.all (fun d => d == '#' || !isPlain d) = true := by decide
          have hlone : c ∉ leaders := by
            intro hmem
            simpa [hhash, hc] using List.all_eq_true.mp hother c hmem
          exact ⟨_, _, Mark.read_literal hspace hrange harrow hident hnumber hlone, Nat.zero_le _,
            fault?_literal_of_isPlain hc⟩

end Declaration

end StyleAudit.Style
