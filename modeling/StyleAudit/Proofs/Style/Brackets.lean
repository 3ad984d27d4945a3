import StyleAudit.Proofs.Style.Balance
import StyleAudit.Proofs.Style.Marks
import StyleAudit.Proofs.Text.Pattern

/-!
# Brackets of a text

Brackets are characters of a text, but only some characters count: none in a string, a comment or an
address, and none that is escaped.  To say which, the text is cut into passages, each with the marks
that are read from it (`passagesFrom`).  The brackets of a passage are found in its characters
(`bareBrackets`), and its marks have the same (`Passage.faithful_read`), so that reading neither
loses nor invents a bracket.

Names are the only passages with escapes, and a name takes a bracket only if it is escaped
(`bareBrackets_name`).
-/

namespace StyleAudit.Style

open StyleAudit.Text

/-! ### Brackets of a text -/

/-- The bracket that a character is. -/
def Delimiter.ofChar? : Char → Option Delimiter
  | '(' => some (.opens .round)
  | '[' => some (.opens .square)
  | '{' => some (.opens .curly)
  | ')' => some (.closes .round)
  | ']' => some (.closes .square)
  | '}' => some (.closes .curly)
  | _ => none

/-- The brackets of a text without strings, comments and addresses.  A bracket that is escaped is
part of a name. -/
def bareBrackets : List Char → List Delimiter
  | [] => []
  | '\\' :: _ :: cs => bareBrackets cs
  | c :: cs => (Delimiter.ofChar? c).toList ++ bareBrackets cs

/-- The brackets, and what escapes them. -/
def bracketChars : List Char :=
  ['\\', '(', ')', '[', ']', '{', '}']

/-- A character that is no bracket and escapes none. -/
def isUnbracketed (c : Char) : Bool :=
  !bracketChars.contains c

theorem isUnbracketed_of_holds {p : Char → Bool} {c : Char} (hc : p c = true)
    (hp : bracketChars.all (! p ·) = true) : isUnbracketed c = true := by
  rw [isUnbracketed, Bool.not_eq_true', Bool.eq_false_iff, ne_eq, List.contains_iff_mem]
  intro hmem
  have hno := List.all_eq_true.mp hp c hmem
  rw [hc] at hno
  cases hno

theorem isUnbracketed_of_isHexDigit {c : Char} (h : isHexDigit c = true) : isUnbracketed c = true :=
  isUnbracketed_of_holds h (by decide)

theorem isUnbracketed_of_isSpace {c : Char} (h : isSpace c = true) : isUnbracketed c = true :=
  isUnbracketed_of_holds h (by decide)

theorem isUnbracketed_of_isNameChar {c : Char} (h : isNameChar c = true) : isUnbracketed c = true :=
  isUnbracketed_of_holds h (by decide)

theorem isUnbracketed_of_isNumeric {c : Char} (h : isNumeric c = true) : isUnbracketed c = true :=
  isUnbracketed_of_holds h (by decide)

theorem ofChar?_of_isUnbracketed {c : Char} (h : isUnbracketed c = true) :
    Delimiter.ofChar? c = none := by
  rw [Delimiter.ofChar?.eq_def]
  split
  case h_7 => rfl
  all_goals cases h

theorem bareBrackets_cons {c : Char} (h : c ≠ '\\') (cs : List Char) :
    bareBrackets (c :: cs) = (Delimiter.ofChar? c).toList ++ bareBrackets cs := by
  rw [bareBrackets.eq_def]
  split
  · rename_i heq
    cases heq
  · rename_i heq
    cases heq
    exact absurd rfl h
  · rename_i heq
    cases heq
    rfl

theorem bareBrackets_cons_of_isUnbracketed {c : Char} (h : isUnbracketed c = true)
    (cs : List Char) : bareBrackets (c :: cs) = bareBrackets cs := by
  have hc : c ≠ '\\' := ne_of_holds h (by decide)
  rw [bareBrackets_cons hc, ofChar?_of_isUnbracketed h]
  rfl

theorem bareBrackets_append {front : List Char} (h : front.all isUnbracketed = true)
    (cs : List Char) : bareBrackets (front ++ cs) = bareBrackets cs := by
  induction front with
  | nil => rfl
  | cons c front ih =>
    rw [List.all_cons, Bool.and_eq_true] at h
    rw [List.cons_append, bareBrackets_cons_of_isUnbracketed h.1, ih h.2]

theorem bareBrackets_of_all {cs : List Char} (h : cs.all isUnbracketed = true) :
    bareBrackets cs = [] := by
  have hnone := bareBrackets_append h []
  rwa [List.append_nil] at hnone

@[simp] theorem bareBrackets_singleton (c : Char) :
    bareBrackets [c] = (Delimiter.ofChar? c).toList := by
  by_cases hc : c = '\\'
  · subst hc
    rfl
  · rw [bareBrackets_cons hc]
    simp [bareBrackets]

/-! ### Names -/

theorem all_take_of_takeWhile (p : Char → Bool) (n : Nat) (cs : List Char) :
    (cs.take ((cs.take n).takeWhile p).length).all p = true := by
  have hfront : (cs.take n).takeWhile p <+: cs := (List.takeWhile_prefix p).trans (cs.take_prefix n)
  rw [← List.prefix_iff_eq_take.mp hfront]
  exact List.all_takeWhile

/-- An escape takes the character after the backslash, and more only if it is a number. -/
theorem readEscape_cons (e : Char) (cs : List Char) :
    ∃ more, (readEscape (e :: cs)).2 = more + 1 ∧ (cs.take more).all isUnbracketed = true := by
  have hdigits := all_take_of_takeWhile isHexDigit 6 (e :: cs)
  rw [readEscape.eq_def]
  split
  · rename_i heq
    cases heq
  · exact ⟨0, rfl, rfl⟩
  · rename_i _ _ d ds hnumber
    rw [hnumber, List.length_cons, List.take_succ_cons, List.all_cons, Bool.and_eq_true] at hdigits
    have hdigits : (cs.take ds.length).all isUnbracketed = true :=
      all_of_imp isUnbracketed_of_isHexDigit hdigits.2
    dsimp only
    rw [List.length_cons, List.drop_succ_cons]
    cases hrest : cs.drop ds.length with
    | nil => exact ⟨ds.length, rfl, hdigits⟩
    | cons c rest =>
      dsimp only
      by_cases hspace : isSpace c = true
      · have htake : cs.take (ds.length + 1) = cs.take ds.length ++ [c] := by
          rw [List.take_add, hrest]
          rfl
        refine ⟨ds.length + 1, if_pos hspace, ?_⟩
        rw [htake, List.all_append, hdigits]
        simp [isUnbracketed_of_isSpace hspace]
      · exact ⟨ds.length, if_neg hspace, hdigits⟩

/-- The brackets in a name are escaped.  The first `skip` characters belong to the escape before
them, and none of them is a bracket. -/
theorem bareBrackets_name (skip : Nat) {cs rest : List Char}
    (hskip : (cs.take skip).all isUnbracketed = true)
    (hrest : rest <+: cs.drop (readNameFrom skip cs).2) :
    bareBrackets (cs.take (readNameFrom skip cs).2 ++ rest) = bareBrackets rest := by
  -- On the length, since the backslash and what it escapes go at once.
  induction hn : cs.length using Nat.strongRecOn generalizing cs skip with
  | ind n ih =>
    subst hn
    cases cs with
    | nil => cases skip <;> rfl
    | cons c cs =>
      have hnext : ∀ skip, isUnbracketed c = true → (cs.take skip).all isUnbracketed = true →
          rest <+: cs.drop (readNameFrom skip cs).2 →
          bareBrackets ((c :: cs).take ((readNameFrom skip cs).2 + 1) ++ rest) =
            bareBrackets rest := by
        intro skip hc hskip hrest
        rw [List.take_succ_cons, List.cons_append, bareBrackets_cons_of_isUnbracketed hc]
        exact ih _ (Nat.lt_succ_self _) skip hskip hrest rfl
      cases skip with
      | succ skip =>
        rw [List.take_succ_cons, List.all_cons, Bool.and_eq_true] at hskip
        exact hnext skip hskip.1 hskip.2 hrest
      | zero =>
        rw [readNameFrom] at hrest ⊢
        by_cases hc : isNameChar c = true
        · rw [if_pos hc] at hrest ⊢
          exact hnext 0 (isUnbracketed_of_isNameChar hc) (by simp) hrest
        · rw [if_neg hc] at hrest ⊢
          by_cases hescape : startsEscape (c :: cs) = true
          · rw [if_pos hescape] at hrest ⊢
            have hbackslash : c = '\\' := by
              by_contra hne
              rw [startsEscape_of_ne hne] at hescape
              cases hescape
            subst hbackslash
            cases cs with
            | nil =>
              have hnil : rest = [] := List.prefix_nil.mp hrest
              subst hnil
              rfl
            | cons e cs =>
              obtain ⟨more, hmore, hall⟩ := readEscape_cons e cs
              dsimp only at hrest ⊢
              rw [hmore] at hrest ⊢
              exact ih _ (by simp only [List.length_cons]; omega) more hall hrest rfl
          · rw [if_neg hescape]
            rfl

theorem bareBrackets_readName (cs : List Char) {rest : List Char}
    (hrest : rest <+: cs.drop (readName cs).2) :
    bareBrackets (cs.take (readName cs).2 ++ rest) = bareBrackets rest :=
  bareBrackets_name 0 (by simp) hrest

theorem bareBrackets_take_readName (cs : List Char) :
    bareBrackets (cs.take (readName cs).2) = [] := by
  have hnone := bareBrackets_readName cs List.nil_prefix
  rwa [List.append_nil] at hnone

/-! ### Numbers and ranges -/

theorem isNumeric_of_isAsciiDigit {c : Char} (h : isAsciiDigit c = true) : isNumeric c = true := by
  rw [isNumeric, h]
  rfl

theorem all_signText (cs : List Char) : (signText cs).all isNumeric = true := by
  rw [signText.eq_def]
  split <;> decide

theorem all_digits? {cs ds : List Char} (h : digits? cs = some ds) : ds.all isNumeric = true := by
  rw [digits?] at h
  split at h
  · cases h
  · cases h
    exact all_of_imp isNumeric_of_isAsciiDigit List.all_takeWhile

theorem all_unsigned? {cs ds : List Char} (h : unsigned? cs = some ds) :
    ds.all isNumeric = true := by
  rw [unsigned?, Option.or_eq_some_iff] at h
  rcases h with h | ⟨-, h⟩
  · split at h
    · obtain ⟨ds, hds, rfl⟩ := Option.map_eq_some_iff.mp h
      have hfront : (cs.takeWhile isAsciiDigit).all isNumeric = true :=
        all_of_imp isNumeric_of_isAsciiDigit List.all_takeWhile
      rw [List.all_append, List.all_cons, hfront, all_digits? hds]
      decide
    · cases h
  · exact all_digits? h

theorem all_powerOfTen (cs : List Char) : (powerOfTen cs).all isNumeric = true := by
  cases cs with
  | nil => rfl
  | cons e cs =>
    rw [powerOfTen]
    split
    · rename_i he
      split
      · rename_i ds hds
        have hletter : isNumeric e = true := by
          rcases Bool.or_eq_true_iff.mp he with he | he <;> rw [beq_iff_eq.mp he] <;> decide
        rw [List.cons_append, List.all_cons, List.all_append, hletter, all_signText,
          all_digits? hds]
        rfl
      · rfl
    · rfl

theorem all_number? {cs number : List Char} (h : number? cs = some number) :
    number.all isUnbracketed = true := by
  obtain ⟨ds, hds, rfl⟩ := Option.map_eq_some_iff.mp h
  refine all_of_imp isUnbracketed_of_isNumeric ?_
  rw [List.all_append, List.all_append, all_signText, all_unsigned? hds, all_powerOfTen]
  rfl

theorem all_take_add {p : Char → Bool} {cs : List Char} {m n : Nat} (h : (cs.take m).all p = true)
    (h' : ((cs.drop m).take n).all p = true) : (cs.take (m + n)).all p = true := by
  rw [List.take_add, List.all_append, h, h']
  rfl

theorem all_take_readCodeRange (cs : List Char) :
    (cs.take (readCodeRange cs).2).all isUnbracketed = true := by
  have hhex : ∀ ds : List Char,
      (ds.take ((ds.take 6).takeWhile isHexDigit).length).all isUnbracketed = true := fun ds =>
    all_of_imp isUnbracketed_of_isHexDigit (all_take_of_takeWhile isHexDigit 6 ds)
  rw [readCodeRange]
  dsimp only
  split
  · split
    · rename_i d more hrest
      split
      · rw [Nat.add_assoc]
        refine all_take_add (hhex cs) ?_
        rw [hrest, Nat.add_comm, List.take_succ_cons, List.all_cons, hhex (d :: more)]
        decide
      · exact hhex cs
    · exact hhex cs
  · have hopen : ∀ {c : Char}, (c == '?') = true → isUnbracketed c = true := fun {c} hc =>
      isUnbracketed_of_holds (p := (· == '?')) hc (by decide)
    exact all_take_add (hhex cs) (all_of_imp hopen (all_take_of_takeWhile _ _ _))

/-! ### Passages -/

/-- A stretch of a text with the marks that are read from it. -/
structure Passage where
  text : List Char
  marks : List Mark

/-- The passage at the front of a nonempty text. -/
def Passage.read (c : Char) (cs : List Char) : Passage :=
  ⟨c :: cs.take (Mark.read c cs).2, (Mark.read c cs).1⟩

/-- The passages of a text whose first `skip` characters are already read. -/
def passagesFrom : (skip : Nat) → List Char → List Passage
  | _, [] => []
  | skip + 1, _ :: cs => passagesFrom skip cs
  | 0, c :: cs => .read c cs :: passagesFrom (Mark.read c cs).2 cs

/-- The bracket that a mark stands for. -/
def Mark.delimiter? : Mark → Option Delimiter
  | .leaf _ => none
  | .opener b => some (.opens b)
  | .function _ => some (.opens .round)
  | .closer b => some (.closes b)

def Mark.fault? : Mark → Option String
  | .leaf l => l.fault?
  | _ => none

/-- A string or an address, also one that is broken or has no end. -/
def Mark.isSealed : Mark → Bool
  | .leaf (.string _) => true
  | .leaf (.url _) => true
  | .leaf (.fault _) => true
  | _ => false

namespace Passage

/-- A string, an address or a comment, which has no marks. -/
def isSealed (p : Passage) : Bool :=
  p.marks.all Mark.isSealed

/-- The brackets of a passage that is no string, no address and no comment. -/
def brackets (p : Passage) : List Delimiter :=
  if p.isSealed then [] else bareBrackets p.text

/-- The marks of the passage have its brackets, and are at fault only as broken strings or
addresses. -/
structure Faithful (p : Passage) : Prop where
  brackets_eq : p.brackets = p.marks.filterMap Mark.delimiter?
  fault : ∀ m ∈ p.marks, m.fault? ≠ none → ∃ cause, m = .leaf (.fault cause)

section Faithful

variable {text : List Char} {marks : List Mark}

theorem faithful_of_isSealed (h : marks.all Mark.isSealed = true) : Faithful ⟨text, marks⟩ where
  brackets_eq := by
    have hnone : marks.filterMap Mark.delimiter? = [] := by
      rw [List.filterMap_eq_nil_iff]
      intro m hm
      have hsealed := List.all_eq_true.mp h m hm
      cases m with
      | leaf l => rfl
      | _ => cases hsealed
    rw [hnone, brackets, isSealed, if_pos h]
  fault := by
    intro m hm hfault
    have hsealed := List.all_eq_true.mp h m hm
    cases m with
    | leaf l =>
      cases l with
      | fault cause => exact ⟨cause, rfl⟩
      | string value => exact absurd rfl hfault
      | url value => exact absurd rfl hfault
      | _ => cases hsealed
    | _ => cases hsealed

theorem faithful_leaf {l : Leaf} (hsealed : (Mark.leaf l).isSealed = false)
    (hfault : l.fault? = none) (htext : bareBrackets text = []) :
    Faithful ⟨text, [.leaf l]⟩ where
  brackets_eq := by simp [brackets, isSealed, hsealed, htext, Mark.delimiter?]
  fault := by
    intro m hm hne
    rw [List.mem_singleton.mp hm] at hne
    exact absurd hfault hne

theorem faithful_bracket {m : Mark} {d : Delimiter} (hm : m.delimiter? = some d)
    (htext : bareBrackets text = [d]) : Faithful ⟨text, [m]⟩ where
  brackets_eq := by
    cases m with
    | leaf l => cases hm
    | _ => simp [brackets, isSealed, Mark.isSealed, htext, hm]
  fault := by
    intro m' hm' hfault
    rw [List.mem_singleton.mp hm'] at hfault
    cases m with
    | leaf l => cases hm
    | _ => exact absurd rfl hfault

end Faithful

/-! ### The passage at the front of a text -/

variable {c : Char} {cs : List Char}

theorem faithful_blank (h : isSpace c = true) (text : String) :
    Faithful ⟨c :: cs.take (cs.takeWhile isSpace).length, [.leaf (.blank text)]⟩ := by
  refine faithful_leaf rfl rfl (bareBrackets_of_all ?_)
  rw [← List.prefix_iff_eq_take.mp (List.takeWhile_prefix isSpace), List.all_cons,
    isUnbracketed_of_isSpace h, Bool.true_and]
  exact all_of_imp isUnbracketed_of_isSpace List.all_takeWhile

theorem readCodeRange_leaf (cs : List Char) :
    ∃ first last, (readCodeRange cs).1 = .codeRange first last := by
  rw [readCodeRange]
  dsimp only
  repeat' split
  all_goals exact ⟨_, _, rfl⟩

theorem faithful_codeRange (h : opensCodeRange (c :: cs) = true) :
    Faithful ⟨c :: cs.take ((readCodeRange (cs.drop 1)).2 + 1),
      [.leaf (readCodeRange (cs.drop 1)).1]⟩ := by
  obtain ⟨first, last, hleaf⟩ := readCodeRange_leaf (cs.drop 1)
  rw [hleaf]
  refine faithful_leaf rfl rfl (bareBrackets_of_all ?_)
  rw [opensCodeRange.eq_def] at h
  split at h
  · rename_i u d rest heq
    cases heq
    have hu : isUnbracketed c = true := by
      rw [Bool.and_eq_true, Bool.or_eq_true, beq_iff_eq, beq_iff_eq] at h
      rcases h.1 with rfl | rfl <;> decide
    have hplus : isUnbracketed '+' = true := by decide
    rw [List.take_succ_cons, List.all_cons, List.all_cons, hu, hplus]
    exact all_take_readCodeRange (d :: rest)
  · cases h

theorem faithful_arrow (h : (dropLead? ['-', '-', '>'] (c :: cs)).isSome = true) :
    Faithful ⟨c :: cs.take 2, [.leaf (.literal "-->")]⟩ := by
  obtain ⟨rest, hrest⟩ := Option.isSome_iff_exists.mp h
  have heq := eq_append_of_dropLead? hrest
  cases heq
  exact faithful_leaf rfl (by decide) rfl

theorem readName_pos (h : startsIdent (c :: cs) = true) : 0 < (readName (c :: cs)).2 := by
  rw [readName, readNameFrom]
  dsimp only
  by_cases hc : isNameChar c = true
  · rw [if_pos hc]
    exact Nat.succ_pos _
  · rw [if_neg hc]
    have hstart : isNameStart c = false := by
      simp only [isNameChar, Char.isAlphanum, Bool.or_eq_true, not_or, Bool.not_eq_true] at hc
      simp [isNameStart, hc]
    have hhyphen : c ≠ '-' := by
      rintro rfl
      exact hc (by decide)
    have hescape : startsEscape (c :: cs) = true := by
      simpa [startsIdent, hstart, hhyphen] using h
    rw [if_pos hescape]
    exact Nat.succ_pos _

theorem faithful_ident (hident : startsIdent (c :: cs) = true) (name : String) :
    Faithful ⟨c :: cs.take ((readName (c :: cs)).2 - 1), [.leaf (.ident name)]⟩ := by
  refine faithful_leaf rfl rfl ?_
  rw [← List.take_cons (readName_pos hident)]
  exact bareBrackets_take_readName (c :: cs)

theorem isSealed_marks {leaf : String → Leaf} (h : ∀ v, (Mark.leaf (leaf v)).isSealed = true)
    (bad unclosed : TokenFault) (cs : List Char) (value : Delimited) :
    (value.marks leaf bad unclosed cs).1.all Mark.isSealed = true := by
  cases value with
  | closed v used => simp only [Delimited.marks, List.all_cons, h, List.all_nil, Bool.and_self]
  | broken used => rfl
  | unclosed v => simp only [Delimited.marks, List.all_cons, h, List.all_nil]; rfl

theorem faithful_call (hident : startsIdent (c :: cs) = true) {rest : List Char}
    (hrest : cs.drop ((readName (c :: cs)).2 - 1) = '(' :: rest) (name : String) :
    Faithful ⟨c :: cs.take ((readName (c :: cs)).2 + (readCall name rest).2),
      (readCall name rest).1⟩ := by
  rw [readCall]
  dsimp only
  split
  · exact faithful_of_isSealed (isSealed_marks (fun _ => rfl) _ _ _ _)
  · refine faithful_bracket rfl ?_
    have hdrop : (c :: cs).drop (readName (c :: cs)).2 = '(' :: rest := by
      rw [← hrest, List.drop_cons (readName_pos hident)]
    have htext : c :: cs.take ((readName (c :: cs)).2 + 0) =
        (c :: cs).take (readName (c :: cs)).2 ++ ['('] := by
      rw [Nat.add_zero, ← List.take_succ_cons, List.take_add, hdrop]
      rfl
    rw [htext, bareBrackets_readName _ (by rw [hdrop]; exact ⟨rest, rfl⟩)]
    rfl

theorem faithful_quantity {number : List Char} (hnumber : number? (c :: cs) = some number) :
    Faithful ⟨c :: cs.take
        (number.length + (readQuantity number ((c :: cs).drop number.length)).2 - 1),
      [.leaf (readQuantity number ((c :: cs).drop number.length)).1]⟩ := by
  obtain ⟨rest, hrest⟩ := number?_isPrefix hnumber
  have hpos : 0 < number.length := List.length_pos_iff.mpr (number?_ne_nil hnumber)
  rw [← List.take_cons (Nat.add_pos_left hpos _), ← hrest, List.drop_left,
    List.take_length_add_append]
  have htext : ∀ n, bareBrackets (number ++ rest.take n) = bareBrackets (rest.take n) := fun n =>
    bareBrackets_append (all_number? hnumber) _
  rw [readQuantity]
  dsimp only
  split
  · exact faithful_leaf rfl rfl ((htext _).trans (bareBrackets_take_readName rest))
  · split
    · rename_i hpercent
      obtain ⟨more, rfl⟩ := List.head?_eq_some_iff.mp (beq_iff_eq.mp hpercent)
      exact faithful_leaf rfl rfl ((htext 1).trans rfl)
    · exact faithful_leaf rfl rfl ((htext 0).trans rfl)

theorem faithful_literal (h : Delimiter.ofChar? c = none) :
    Faithful ⟨c :: cs.take ((literalText c cs).length - 1),
      [.leaf (.literal (literalText c cs))]⟩ := by
  rw [literalText]
  cases hfind : longLiterals.find? fun l => (dropLead? l.toList (c :: cs)).isSome with
  | none =>
    have htext : c :: cs.take (c.toString.length - 1) = [c] := by simp
    have hcloser : c ∉ [')', ']', '}'] := by
      intro hmem
      simp only [List.mem_cons, List.not_mem_nil, or_false] at hmem
      rcases hmem with rfl | rfl | rfl <;> cases h
    refine faithful_leaf rfl (fault?_literal_of_notMem hcloser) ?_
    rw [Option.getD_none, htext, bareBrackets_singleton, h]
    rfl
  | some l =>
    have hplain : longLiterals.all (fun l => l.toList.all isUnbracketed &&
        (Leaf.literal l).fault?.isNone && decide (0 < l.length)) = true := by decide
    have hl := List.all_eq_true.mp hplain l (List.mem_of_find?_eq_some hfind)
    simp only [Bool.and_eq_true, Option.isNone_iff_eq_none, decide_eq_true_eq] at hl
    obtain ⟨⟨hchars, hfault⟩, hpos⟩ := hl
    have hlead : (dropLead? l.toList (c :: cs)).isSome = true :=
      List.find?_some (p := fun l : String => (dropLead? l.toList (c :: cs)).isSome) hfind
    obtain ⟨rest, hrest⟩ := Option.isSome_iff_exists.mp hlead
    refine faithful_leaf rfl hfault ?_
    rw [Option.getD_some, ← List.take_cons hpos, eq_append_of_dropLead? hrest,
      ← String.length_toList, List.take_left]
    exact bareBrackets_of_all hchars

/-- A character with a name behind it. -/
theorem faithful_named (hc : isUnbracketed c = true) {l : Leaf}
    (hsealed : (Mark.leaf l).isSealed = false) (hfault : l.fault? = none) :
    Faithful ⟨c :: cs.take (readName cs).2, [.leaf l]⟩ :=
  faithful_leaf hsealed hfault
    ((bareBrackets_cons_of_isUnbracketed hc _).trans (bareBrackets_take_readName cs))

/-- **Marks lose no brackets.** -/
theorem faithful_read (c : Char) (cs : List Char) : (Passage.read c cs).Faithful := by
  rw [Passage.read]
  generalize hread : Mark.read c cs = found
  rw [Mark.read.eq_def] at hread
  -- One case for each thing that can stand at the front, in the order in which they are tried.
  split at hread
  · subst hread
    exact faithful_blank ‹_› _
  split at hread
  · subst hread
    exact faithful_codeRange ‹_›
  split at hread
  · subst hread
    exact faithful_arrow ‹_›
  split at hread
  · dsimp only at hread
    split at hread
    · subst hread
      exact faithful_call ‹_› ‹_› _
    · subst hread
      exact faithful_ident ‹_› _
  split at hread
  · subst hread
    exact faithful_quantity ‹_›
  split at hread
  case h_1 | h_2 =>
    split at hread
    · subst hread
      exact faithful_named (by decide) rfl rfl
    · subst hread
      exact faithful_leaf rfl (by decide) rfl
  case h_9 | h_10 =>
    subst hread
    exact faithful_of_isSealed (isSealed_marks (fun _ => rfl) _ _ _ _)
  case h_11 =>
    split at hread
    · subst hread
      exact faithful_of_isSealed rfl
    · subst hread
      refine faithful_literal ?_
      rw [Delimiter.ofChar?.eq_def]
      split
      case h_7 => rfl
      all_goals exact absurd rfl ‹_›
  all_goals
    subst hread
    exact faithful_bracket rfl rfl

end Passage

/-! ### All passages of a text -/

/-- The passages make up the text. -/
theorem flatMap_text_passagesFrom (skip : Nat) (cs : List Char) :
    (passagesFrom skip cs).flatMap Passage.text = cs.drop skip := by
  induction cs generalizing skip with
  | nil => simp [passagesFrom]
  | cons c cs ih =>
    cases skip with
    | succ skip => exact ih skip
    | zero =>
      rw [passagesFrom, List.flatMap_cons, ih, Passage.read, List.cons_append,
        List.take_append_drop]
      rfl

theorem faithful_of_mem_passagesFrom {skip : Nat} {cs : List Char} :
    ∀ p ∈ passagesFrom skip cs, p.Faithful := by
  induction cs generalizing skip with
  | nil => simp [passagesFrom]
  | cons c cs ih =>
    cases skip with
    | succ skip => exact ih
    | zero => exact List.forall_mem_cons.mpr ⟨Passage.faithful_read c cs, ih⟩

/-- The marks of the passages are those of the lexemes. -/
theorem map_mark_lexemesFrom (skip line : Nat) (cs : List Char) :
    (lexemesFrom skip line cs).map Lexeme.mark = (passagesFrom skip cs).flatMap Passage.marks := by
  induction cs generalizing skip line with
  | nil => cases skip <;> rfl
  | cons c cs ih =>
    cases skip with
    | succ skip => exact ih skip _
    | zero =>
      rw [lexemesFrom, passagesFrom, List.flatMap_cons, List.map_append, List.map_map, ih]
      congr 1
      exact List.map_id _

end StyleAudit.Style
