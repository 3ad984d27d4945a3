import StyleAudit.Proofs.Style.Marks
import StyleAudit.Style.Printer

/-!
# Selectors are printed as they were written

A rule does not keep the text of its selector, only the tokens, so what matters is how these are
printed.  For a chain of classes and for a suffix it is the text that was read (`reads_selector`).

A text is read stretch by stretch: `Reads text rest P` says that `text`, where it is followed by
`rest`, gives tokens of which `P` holds, whatever was read before it.  Stretches are put together by
`Reads.append` and `Reads.block`.  Here `P` is `Spells`: the tokens are printed as the text, between
neighbours of a given kind.
-/

namespace StyleAudit.Style

open StyleAudit.Text Nested

/-! ### Stretches of a text -/

/-- In a text that goes on with `rest`, the stretch `text` is read as tokens of which `P` holds. -/
def Reads (text rest : List Char) (P : List Token → Prop) : Prop :=
  ∀ (line : Nat) (tokens : List Token) (frames : List Frame), ∃ line' ts, P ts ∧
    Token.nest (lexemesFrom 0 line (text ++ rest)) tokens frames =
      Token.nest (lexemesFrom 0 line' rest) (ts.reverse ++ tokens) frames

theorem exists_lexemesFrom_skip (line : Nat) (front rest : List Char) :
    ∃ line', lexemesFrom front.length line (front ++ rest) = lexemesFrom 0 line' rest := by
  induction front generalizing line with
  | nil => exact ⟨line, rfl⟩
  | cons c front ih => exact ih (lineAfter line c)

namespace Reads

variable {text more rest : List Char} {P Q R : List Token → Prop}

theorem nil (h : P []) : Reads [] rest P := fun line _ _ => ⟨line, [], h, rfl⟩

theorem mono (h : Reads text rest P) (hPQ : ∀ ts, P ts → Q ts) : Reads text rest Q := by
  intro line tokens frames
  obtain ⟨line', ts, hP, heq⟩ := h line tokens frames
  exact ⟨line', ts, hPQ ts hP, heq⟩

theorem append (h : Reads text (more ++ rest) P) (h' : Reads more rest Q)
    (hR : ∀ ts us, P ts → Q us → R (ts ++ us)) : Reads (text ++ more) rest R := by
  intro line tokens frames
  obtain ⟨line₁, ts, hP, heq₁⟩ := h line tokens frames
  obtain ⟨line₂, us, hQ, heq₂⟩ := h' line₁ (ts.reverse ++ tokens) frames
  refine ⟨line₂, ts ++ us, hR ts us hP hQ, ?_⟩
  rw [List.append_assoc, heq₁, heq₂, List.reverse_append, List.append_assoc]

theorem leaf {c : Char} {cs : List Char} {leaf : Leaf}
    (h : Mark.read c (cs ++ rest) = ([.leaf leaf], cs.length)) (hP : ∀ line, P [.leaf line leaf]) :
    Reads (c :: cs) rest P := by
  intro line tokens frames
  obtain ⟨line', hskip⟩ := exists_lexemesFrom_skip (lineAfter line c) cs rest
  refine ⟨line', [.leaf line leaf], hP line, ?_⟩
  rw [List.cons_append, lexemesFrom, h, hskip]
  rfl

theorem char {c : Char} {leaf : Leaf} (h : Mark.read c rest = ([.leaf leaf], 0))
    (hP : ∀ line, P [.leaf line leaf]) : Reads [c] rest P :=
  Reads.leaf h hP

/-- A block takes what is read between its brackets. -/
theorem block (h : Reads text ('}' :: rest) P) (hQ : ∀ line ts, P ts → Q [.block line .curly ts]) :
    Reads ('{' :: (text ++ ['}'])) rest Q := by
  intro line tokens frames
  obtain ⟨line', ts, hP, heq⟩ := h line [] (⟨line, none, .curly, tokens⟩ :: frames)
  refine ⟨line', [.block line .curly ts], hQ line ts hP, ?_⟩
  have hopen : Token.nest (lexemesFrom 0 line ('{' :: (text ++ '}' :: rest))) tokens frames =
      Token.nest (lexemesFrom 0 line (text ++ '}' :: rest)) []
        (⟨line, none, .curly, tokens⟩ :: frames) := by
    rw [lexemesFrom, Mark.read_opener]
    rfl
  have hclose : Token.nest (lexemesFrom 0 line' ('}' :: rest)) (ts.reverse ++ [])
      (⟨line, none, .curly, tokens⟩ :: frames) =
      Token.nest (lexemesFrom 0 line' rest) (.block line .curly ts :: tokens) frames := by
    rw [lexemesFrom, Mark.read_closer, List.append_nil]
    simp [Token.nest, Frame.close, lineAfter]
  rw [List.cons_append, List.append_assoc, List.singleton_append, hopen, heq, hclose]
  rfl

/-- A text that is read to its end. -/
theorem exists_parse (h : Reads text [] P) :
    ∃ ts, P ts ∧ Token.nest (lexemesFrom 0 1 text) [] [] = ts := by
  obtain ⟨line, ts, hP, heq⟩ := h 1 [] []
  rw [List.append_nil, List.append_nil] at heq
  refine ⟨ts, hP, heq.trans ?_⟩
  simp [lexemesFrom, Token.nest, closeAll]

theorem blank (h : text.all isSpace = true) (hrest : Stops isSpace rest)
    (hnil : text = [] → P [])
    (hP : ∀ line c cs, text = c :: cs → P [.leaf line (.blank (String.ofList text))]) :
    Reads text rest P := by
  cases text with
  | nil => exact .nil (hnil rfl)
  | cons c cs => exact .leaf (Mark.read_blank h hrest) fun line => hP line c cs rfl

end Reads

/-! ### Printing -/

theorem nameText_run {cs : List Char} (h : cs.all isClassChar = true) : nameText cs = cs := by
  induction cs with
  | nil => rfl
  | cons c cs ih =>
    rw [List.all_cons, Bool.and_eq_true] at h
    rw [nameText, List.flatMap_cons, nameCharText, if_pos (isNameChar_of_isClassChar h.1),
      ← nameText, ih h.2, List.singleton_append]

/-- A run that begins a name is printed as it is. -/
theorem identText_run {cs : List Char} (h : cs.all isClassChar = true)
    (hident : startsIdent cs = true) : identText cs = cs := by
  have hhead : ∀ {c}, isNameStart c = true → headCharText c = [c] := fun hc => by
    rw [headCharText, if_pos hc]
  match cs, h, hident with
  | [c], h, hident =>
    have hc : c ≠ '\\' := ne_of_holds (p := isClassChar) (by simpa using h) (by decide)
    have hhyphen : c ≠ '-' := by rintro rfl; cases hident
    have hstart : isNameStart c = true := by
      simpa [startsIdent, startsEscape_of_ne hc, hhyphen] using hident
    simp [identText, hhyphen, hhead hstart, nameText]
  | c :: d :: cs, h, hident =>
    simp only [List.all_cons, Bool.and_eq_true] at h
    have hc : c ≠ '\\' := ne_of_holds h.1 (by decide)
    have hd : d ≠ '\\' := ne_of_holds h.2.1 (by decide)
    rw [startsIdent_cons hc hd] at hident
    by_cases hhyphen : c = '-'
    · subst hhyphen
      by_cases hsecond : d = '-'
      · subst hsecond
        simp [identText, nameText_run h.2.2]
      · have hnot : isNameStart '-' = false := by decide
        have hstart : isNameStart d = true := by simpa [hsecond, hnot] using hident
        simp [identText, hhead hstart, nameText_run h.2.2]
    · have hstart : isNameStart c = true := by simpa [hhyphen] using hident
      have hrest : (d :: cs).all isClassChar = true := by simp [h]
      simp [identText, hhyphen, hhead hstart, nameText_run hrest]

/-- Nothing is printed between the two kinds. -/
def joins (previous : Option Joint) (next : Joint) : Bool :=
  previous.all fun p => !runsTogether p next && p != .literal "\\"

theorem separator_of_joins {previous : Option Joint} {next : Token}
    (h : joins previous next.joint = true) : separator previous next = [] := by
  cases previous with
  | none => rfl
  | some p =>
    simp only [joins, Option.all_some, Bool.and_eq_true, Bool.not_eq_true', bne_iff_ne, ne_eq] at h
    simp [separator, h.1, h.2]

/-- A leaf that may stand in a selector. -/
def Leaf.isQuiet : Leaf → Bool
  | .ident _ | .number _ | .dimension _ _ => true
  | .blank text => text.toList.head?.any isSpace
  | .literal text => [".", "&", "-"].contains text
  | _ => false

def Token.isQuiet (t : Token) : Bool :=
  t.leaf?.any Leaf.isQuiet

/-- After a token of kind `previous` the tokens are printed as `text`, and they leave `next` as the
kind of the last one. -/
structure Spells (previous : Option Joint) (text : List Char) (next : Option Joint)
    (ts : List Token) : Prop where
  quiet : ∀ t ∈ ts, t.isQuiet = true
  print : ∀ more, forestText previous (ts ++ more) = text ++ forestText next more

namespace Spells

variable {previous next last : Option Joint} {text more : List Char} {ts us : List Token}

theorem nil (previous : Option Joint) : Spells previous [] previous [] :=
  ⟨by simp, fun _ => rfl⟩

theorem append (h : Spells previous text next ts) (h' : Spells next more last us) :
    Spells previous (text ++ more) last (ts ++ us) where
  quiet := List.forall_mem_append.mpr ⟨h.quiet, h'.quiet⟩
  print rest := by rw [List.append_assoc, h.print, h'.print, List.append_assoc]

theorem leaf (l : Leaf) (hquiet : l.isQuiet = true) (hjoins : joins previous l.joint = true)
    (htext : l.text = text) (line : Nat) : Spells previous text (some l.joint) [.leaf line l] where
  quiet := by simpa [Token.isQuiet, Token.leaf?] using hquiet
  print rest := by
    have hsep : separator previous (.leaf line l) = [] := separator_of_joins hjoins
    rw [List.singleton_append, forestText, hsep, List.nil_append, Token.text, htext]
    rfl

end Spells

/-! ### Selectors -/

/-- The kinds that the next class of a chain may follow. -/
def classJoints : List (Option Joint) :=
  [none, some .ident, some .blank]

theorem joins_of_mem_classJoints {previous : Option Joint} (h : previous ∈ classJoints) :
    joins previous (.literal ".") = true := by
  have hall : classJoints.all (joins · (.literal ".")) = true := by decide
  exact List.all_eq_true.mp hall previous h

theorem isNameStart_of_isClassStart {c : Char} (h : isClassStart c = true) :
    isNameStart c = true := by
  rw [isNameStart, ← isClassStart, h]
  rfl

theorem toNat_of_isAlpha {c : Char} (h : c.isAlpha = true) :
    65 ≤ c.toNat ∧ c.toNat ≤ 90 ∨ 97 ≤ c.toNat ∧ c.toNat ≤ 122 := by
  have hle : ∀ {a b : Char}, a.val ≤ b.val → a.toNat ≤ b.toNat := UInt32.le_iff_toNat_le.mp
  refine (Bool.or_eq_true_iff.mp h).imp (fun h => ?_) fun h => ?_
  · exact (of_decide_eq_true h).imp (hle (a := 'A')) (hle (b := 'Z'))
  · obtain ⟨hlow, hhigh⟩ := Bool.and_eq_true_iff.mp h
    exact ⟨hle (a := 'a') (of_decide_eq_true hlow), hle (b := 'z') (of_decide_eq_true hhigh)⟩

theorem toNat_of_isAsciiDigit {c : Char} (h : isAsciiDigit c = true) :
    48 ≤ c.toNat ∧ c.toNat ≤ 57 := by
  simpa [isAsciiDigit, Char.isDigit, UInt32.le_iff_toNat_le] using h

theorem isAsciiDigit_of_isClassStart {c : Char} (h : isClassStart c = true) :
    isAsciiDigit c = false := by
  rcases Bool.or_eq_true_iff.mp h with h | h
  · refine Bool.eq_false_iff.mpr fun hdigit => ?_
    have hletter := toNat_of_isAlpha h
    have hbounds := toNat_of_isAsciiDigit hdigit
    omega
  · rw [eq_of_beq h]
    rfl

/-- A class name is a letter or underscore, perhaps after a hyphen, and any run after it. -/
theorem Nested.ClassName.chars_cases (n : ClassName) :
    (∃ c cs, n.chars = c :: cs ∧ isClassStart c = true) ∨
      ∃ c cs, n.chars = '-' :: c :: cs ∧ isClassStart c = true := by
  have h := n.named
  rw [isClassName.eq_def] at h
  split at h
  · exact Or.inr ⟨_, _, ‹_›, h⟩
  · exact Or.inl ⟨_, _, ‹_›, h⟩
  · cases h

theorem Nested.ClassName.startsIdent (n : ClassName) : Style.startsIdent n.chars = true := by
  rcases n.chars_cases with ⟨c, cs, heq, hc⟩ | ⟨c, cs, heq, hc⟩
  · simp [heq, Style.startsIdent, isNameStart_of_isClassStart hc]
  · simp [heq, Style.startsIdent, isNameStart_of_isClassStart hc]

theorem Nested.ClassName.stops (n : ClassName) (rest : List Char) :
    Stops isAsciiDigit (n.chars ++ rest) := by
  rcases n.chars_cases with ⟨c, cs, heq, hc⟩ | ⟨c, cs, heq, hc⟩
  · rw [heq]
    intro d hd
    cases hd
    exact isAsciiDigit_of_isClassStart hc
  · rw [heq]
    intro d hd
    cases hd
    rfl

theorem reads_dot (n : ClassName) {rest : List Char} (hrest : Opens nameEnds rest) :
    Reads ['.'] (n.chars ++ rest) fun ts =>
      ∀ previous ∈ classJoints, Spells previous ['.'] (some (.literal ".")) ts := by
  have hplain : ('.' :: n.chars).all isPlain = true := by
    rw [List.all_cons, all_of_imp isPlain_of_isClassChar n.run]
    rfl
  obtain ⟨hrange, harrow⟩ := not_opens_of_plain hplain hrest
  have hident : Style.startsIdent ('.' :: (n.chars ++ rest)) = false :=
    startsIdent_of_opens ⟨'.', by decide, n.chars ++ rest, rfl⟩
  have hread : Mark.read '.' (n.chars ++ rest) = ([.leaf (.literal ".")], 0) :=
    Mark.read_literal (by decide) hrange harrow hident (number?_dot (n.stops rest)) (by decide)
  refine Reads.char hread ?_
  intro line previous hprevious
  exact Spells.leaf (.literal ".") (by decide) (joins_of_mem_classJoints hprevious) (by decide) line

theorem reads_run {cs rest : List Char} (hrun : cs.all isClassChar = true)
    (hident : startsIdent cs = true) (hrest : Opens nameEnds rest) :
    Reads cs rest fun ts =>
      ∀ previous, joins previous .ident = true → Spells previous cs (some .ident) ts := by
  cases cs with
  | nil => cases hident
  | cons c cs =>
    have htext : (Leaf.ident (String.ofList (c :: cs))).text = c :: cs :=
      (congrArg identText String.toList_ofList).trans (identText_run hrun hident)
    refine Reads.leaf (Mark.read_ident hrun hident hrest) ?_
    intro line previous hprevious
    exact Spells.leaf (.ident (String.ofList (c :: cs))) rfl hprevious htext line

theorem reads_class (n : ClassName) {rest : List Char} (hrest : Opens nameEnds rest) :
    Reads ('.' :: n.chars) rest fun ts =>
      ∀ previous ∈ classJoints, Spells previous ('.' :: n.chars) (some .ident) ts :=
  (reads_dot n hrest).append (reads_run n.run n.startsIdent hrest) fun _ _ hdot hname previous hp =>
    (hdot previous hp).append (hname (some (.literal ".")) (by decide))

theorem Opens.blank_append {ends text rest : List Char} (hrest : Opens ends rest)
    (h : text.all isSpace = true) (hends : [' ', '\t', '\n'].all ends.contains = true) :
    Opens ends (text ++ rest) := by
  cases text with
  | nil => exact hrest
  | cons c cs =>
    rw [List.all_cons, Bool.and_eq_true] at h
    have hmem : c ∈ [' ', '\t', '\n'] := by simpa [isSpace, or_assoc] using h.1
    exact ⟨c, List.contains_iff_mem.mp (List.all_eq_true.mp hends c hmem), cs ++ rest, rfl⟩

theorem reads_blank {text rest : List Char} (h : text.all isSpace = true)
    (hrest : Stops isSpace rest) :
    Reads text rest fun ts => ∀ previous, joins previous .blank = true →
      ∃ next, (next = previous ∨ next = some .blank) ∧ Spells previous text next ts := by
  refine Reads.blank h hrest ?_ ?_
  · rintro rfl previous -
    exact ⟨previous, Or.inl rfl, .nil previous⟩
  · rintro line c cs rfl previous hprevious
    rw [List.all_cons, Bool.and_eq_true] at h
    have hquiet : (Leaf.blank (String.ofList (c :: cs))).isQuiet = true := by
      simp [Leaf.isQuiet, h.1]
    have htext : (Leaf.blank (String.ofList (c :: cs))).text = c :: cs := String.toList_ofList
    exact ⟨some .blank, Or.inr rfl, Spells.leaf _ hquiet hprevious htext line⟩

theorem Nested.Link.all_text (link : Link) : link.text.all isSpace = true := by
  cases link with
  | same => rfl
  | below gap => exact gap.spaces

theorem reads_part (part : ClassName × Link) {rest : List Char} (hrest : Opens ['.'] rest) :
    Reads (partText part) rest fun ts => ∀ previous ∈ classJoints,
      ∃ next ∈ classJoints, Spells previous (partText part) next ts := by
  have hends : Opens nameEnds (part.2.text ++ rest) :=
    (hrest.mono (by simp [nameEnds])).blank_append part.2.all_text (by decide)
  refine (reads_class part.1 hends).append
    (reads_blank part.2.all_text (hrest.stops (by decide))) ?_
  intro ts us hname hlink previous hprevious
  obtain ⟨next, hnext, hspells⟩ := hlink (some .ident) (by decide)
  refine ⟨next, ?_, (hname previous hprevious).append hspells⟩
  rcases hnext with rfl | rfl <;> decide

theorem opens_parts (parts : List (ClassName × Link)) {rest : List Char}
    (hrest : Opens ['.'] rest) : Opens ['.'] (parts.flatMap partText ++ rest) := by
  cases parts with
  | nil => exact hrest
  | cons part parts => exact ⟨'.', List.mem_singleton_self _, _, rfl⟩

theorem reads_parts (parts : List (ClassName × Link)) {rest : List Char}
    (hrest : Opens ['.'] rest) :
    Reads (parts.flatMap partText) rest fun ts => ∀ previous ∈ classJoints,
      ∃ next ∈ classJoints, Spells previous (parts.flatMap partText) next ts := by
  induction parts with
  | nil => exact .nil fun previous hprevious => ⟨previous, hprevious, .nil previous⟩
  | cons part parts ih =>
    rw [List.flatMap_cons]
    refine (reads_part part (opens_parts parts hrest)).append ih ?_
    intro ts us hpart hparts previous hprevious
    obtain ⟨middle, hmiddle, hspells⟩ := hpart previous hprevious
    obtain ⟨next, hnext, hspells'⟩ := hparts middle hmiddle
    exact ⟨next, hnext, hspells.append hspells'⟩

theorem reads_chain (c : Chain) {rest : List Char} (hrest : Opens nameEnds rest) :
    Reads c.text rest (Spells none c.text (some .ident)) := by
  refine (reads_parts c.before ⟨'.', List.mem_singleton_self _, _, rfl⟩).append
    (reads_class c.last hrest) ?_
  intro ts us hparts hlast
  obtain ⟨next, hnext, hspells⟩ := hparts none (by decide)
  exact hspells.append (hlast next hnext)

/-! ### Suffixes -/

/-- The characters that a suffix may be followed by. -/
def suffixEnds : List Char :=
  [' ', '\t', '\n', '{']

theorem Opens.nameEnds {rest : List Char} (h : Opens suffixEnds rest) : Opens nameEnds rest :=
  h.mono (by simp [suffixEnds, Style.nameEnds])

theorem Nested.Suffix.startsIdent_or_number (s : Suffix) :
    startsIdent s.chars = true ∨ ∃ number, number? s.chars = some number := by
  have hleads := s.leads
  have hrun := s.run
  rw [leadsSuffix.eq_def] at hleads
  split at hleads
  · rename_i cs heq
    rw [heq]
    exact Or.inl rfl
  · rename_i d cs heq
    rw [heq] at hrun ⊢
    simp only [List.all_cons, Bool.and_eq_true] at hrun
    have hd : d ≠ '\\' := ne_of_holds hrun.2.1 (by decide)
    rw [startsIdent_cons (by decide) hd]
    cases hdigit : isAsciiDigit d with
    | true =>
      have hdigits : (digits? (d :: cs)).isSome = true := by
        simp [digits?, List.takeWhile_cons_of_pos hdigit]
      have hunsigned : (unsigned? (d :: cs)).isSome = true := by
        rw [unsigned?, Option.isSome_or, hdigits, Bool.or_true]
      refine Or.inr (Option.isSome_iff_exists.mp ?_)
      rw [number?, Option.isSome_map]
      exact hunsigned
    | false =>
      left
      have hclass := hrun.2.1
      simp only [isAsciiDigit] at hdigit
      simp only [isClassChar, Char.isAlphanum, hdigit, Bool.or_false, Bool.or_eq_true] at hclass
      rcases hclass with (hclass | hclass) | hclass <;> simp [isNameStart, hclass]
  · cases hleads

theorem unitText_of_not_isBarePower {cs : List Char} (h : isBarePower cs = false) :
    unitText cs = identText cs := by
  cases cs with
  | nil => rfl
  | cons c cs =>
    rw [isBarePower] at h
    rw [unitText, h]
    rfl

section Quantity

variable {number tail rest : List Char} (hrun : (number ++ tail).all isClassChar = true)
  (hrest : Opens suffixEnds rest) (hident : startsIdent (number ++ tail) = false)
  (hnumber : number? (number ++ tail) = some number)

include hrun hrest hident hnumber

/-- A suffix that begins like a number is read as a quantity. -/
theorem reads_quantity {leaf : Leaf} {used : Nat}
    (hquantity : readQuantity number (tail ++ rest) = (leaf, used)) {front more : List Char}
    (hfront : number ++ tail = front ++ more) (hlength : front.length = number.length + used)
    {P : List Token → Prop} (hP : ∀ line, P [.leaf line leaf]) : Reads front (more ++ rest) P := by
  have hends := hrest.nameEnds
  have hread := (number?_append (hrest.stops (by decide)) _).trans hnumber
  have hstart := (startsIdent_append hrun hends).trans hident
  have hdrop : (number ++ tail ++ rest).drop number.length = tail ++ rest := by
    rw [List.append_assoc, List.drop_left]
  have hne := List.length_pos_iff.mpr (number?_ne_nil hnumber)
  cases front with
  | nil => rw [List.length_nil] at hlength; omega
  | cons c cs =>
    rw [hfront, List.cons_append] at hrun hread hstart hdrop
    have hplain : (c :: (cs ++ more)).all isPlain = true := all_of_imp isPlain_of_isClassChar hrun
    have hspace := isSpace_of_isClassChar (List.all_eq_true.mp hrun c List.mem_cons_self)
    obtain ⟨hrange, harrow⟩ := not_opens_of_plain hplain hends
    have hmark := Mark.read_quantity hspace hrange harrow hstart hread
    have hused : number.length + used - 1 = cs.length := by
      rw [List.length_cons] at hlength
      omega
    rw [← List.cons_append, hdrop, hquantity, hused, List.append_assoc] at hmark
    exact Reads.leaf hmark hP

end Quantity

theorem readQuantity_number (number : List Char) {rest : List Char}
    (hident : startsIdent rest = false) (hpercent : Stops (· == '%') rest) :
    readQuantity number rest = (.number (String.ofList number), 0) := by
  have hhead : (rest.head? == some '%') = false := by
    cases rest with
    | nil => rfl
    | cons c rest => simpa using hpercent.ne (d := '%') rfl
  simp [readQuantity, hident, hhead]

theorem readQuantity_dimension (number : List Char) {unit rest : List Char}
    (hrun : unit.all isClassChar = true) (hident : startsIdent unit = true)
    (hrest : Opens nameEnds rest) :
    readQuantity number (unit ++ rest) =
      (.dimension (String.ofList number) (String.ofList unit), unit.length) := by
  simp [readQuantity, startsIdent_append hrun hrest, hident, readName, readNameFrom_run hrun hrest]

/-- A hyphen at the end is a literal of its own. -/
theorem reads_hyphen {rest : List Char} (hrest : Opens suffixEnds rest) :
    Reads ['-'] rest fun ts =>
      ∀ previous, joins previous (.literal "-") = true →
        Spells previous ['-'] (some (.literal "-")) ts := by
  have hends := hrest.nameEnds
  have hplain : ['-'].all isPlain = true := by decide
  obtain ⟨hrange, harrow⟩ := not_opens_of_plain hplain hends
  have hident := startsIdent_hyphen hends
  have hnumber : number? ('-' :: rest) = none := number?_append (hrest.stops (by decide)) ['-']
  have hread : Mark.read '-' rest = ([.leaf (.literal "-")], 0) :=
    Mark.read_literal (by decide) hrange harrow hident hnumber (by decide)
  refine Reads.char hread ?_
  intro line previous hprevious
  exact Spells.leaf (.literal "-") (by decide) hprevious (by decide) line

/-- A suffix that begins like a number is printed as it is. -/
theorem reads_number {number tail rest : List Char}
    (hrun : (number ++ tail).all isClassChar = true) (hrest : Opens suffixEnds rest)
    (hident : startsIdent (number ++ tail) = false)
    (hnumber : number? (number ++ tail) = some number) (hattaches : attaches tail = true) :
    Reads (number ++ tail) rest fun ts => ∃ next, joins next .blank = true ∧
      Spells (some (.literal "&")) (number ++ tail) next ts := by
  have hends := hrest.nameEnds
  have hpercent : Stops (· == '%') rest := hrest.stops (by decide)
  have htext : (Leaf.number (String.ofList number)).text = number := String.toList_ofList
  have hjoins : joins (some (.literal "&")) .number = true := by decide
  simp only [attaches, Bool.or_eq_true, Bool.and_eq_true, List.isEmpty_iff, beq_iff_eq,
    Bool.not_eq_true'] at hattaches
  rcases hattaches with (rfl | rfl) | ⟨hunit, hpower⟩
  · have hquantity := readQuantity_number number (startsIdent_of_opens hends) hpercent
    refine reads_quantity hrun hrest hident hnumber hquantity (List.append_nil _).symm (by simp) ?_
    intro line
    rw [List.append_nil]
    exact ⟨some .number, by decide, Spells.leaf (.number _) rfl hjoins htext line⟩
  · have hquantity := readQuantity_number number (startsIdent_hyphen hends) fun d hd => by
      cases hd
      rfl
    have hfirst : Reads number (['-'] ++ rest)
        (Spells (some (.literal "&")) number (some .number)) :=
      reads_quantity hrun hrest hident hnumber hquantity rfl rfl fun line =>
        Spells.leaf (.number _) rfl hjoins htext line
    refine hfirst.append (reads_hyphen hrest) fun ts us hts hus => ?_
    exact ⟨some (.literal "-"), by decide, hts.append (hus (some .number) (by decide))⟩
  · have hunitRun : tail.all isClassChar = true := by
      rw [List.all_append, Bool.and_eq_true] at hrun
      exact hrun.2
    have hquantity := readQuantity_dimension number hunitRun hunit hends
    have hdimension : (Leaf.dimension (String.ofList number) (String.ofList tail)).text =
        number ++ tail := by
      change (String.ofList number).toList ++ unitText (String.ofList tail).toList = _
      rw [String.toList_ofList, String.toList_ofList, unitText_of_not_isBarePower hpower,
        identText_run hunitRun hunit]
    have hjoins : joins (some (.literal "&")) .dimension = true := by decide
    refine reads_quantity hrun hrest hident hnumber hquantity (List.append_nil _).symm (by simp) ?_
    intro line
    exact ⟨some .dimension, by decide, Spells.leaf (.dimension _ _) rfl hjoins hdimension line⟩

theorem reads_suffix_run (s : Suffix) {rest : List Char} (hrest : Opens suffixEnds rest) :
    Reads s.chars rest fun ts => ∃ next, joins next .blank = true ∧
      Spells (some (.literal "&")) s.chars next ts := by
  have hends := hrest.nameEnds
  cases hident : startsIdent s.chars with
  | true =>
    exact (reads_run s.run hident hends).mono fun ts h =>
      ⟨some .ident, by decide, h (some (.literal "&")) (by decide)⟩
  | false =>
    rcases s.startsIdent_or_number with h | ⟨number, hnumber⟩
    · rw [hident] at h; cases h
    · have hwhole := s.whole
      have hrun := s.run
      obtain ⟨tail, htail⟩ := number?_isPrefix hnumber
      rw [staysWhole, hnumber, ← htail, Option.all_some, List.drop_left] at hwhole
      rw [← htail] at hident hnumber hrun ⊢
      exact reads_number hrun hrest hident hnumber hwhole

theorem reads_suffix (s : Suffix) {rest : List Char} (hrest : Opens suffixEnds rest) :
    Reads ('&' :: s.chars) rest fun ts => ∃ next, joins next .blank = true ∧
      Spells none ('&' :: s.chars) next ts := by
  have hread : Mark.read '&' (s.chars ++ rest) = ([.leaf (.literal "&")], 0) :=
    Mark.read_symbol (by decide) (by decide) _
  have hamp : Reads ['&'] (s.chars ++ rest) (Spells none ['&'] (some (.literal "&"))) :=
    Reads.char hread (Spells.leaf (.literal "&") (by decide) rfl (by decide))
  refine hamp.append (reads_suffix_run s hrest) ?_
  rintro ts us hts ⟨next, hnext, hspells⟩
  exact ⟨next, hnext, hts.append hspells⟩

theorem reads_selector (sel : Selector) {rest : List Char} (hrest : Opens suffixEnds rest) :
    Reads sel.text rest fun ts => ∃ next, joins next .blank = true ∧
      Spells none sel.text next ts := by
  cases sel with
  | chain c =>
    have hends := hrest.nameEnds
    exact (reads_chain c hends).mono fun ts h => ⟨some .ident, by decide, h⟩
  | suffix s => exact reads_suffix s hrest

end StyleAudit.Style
