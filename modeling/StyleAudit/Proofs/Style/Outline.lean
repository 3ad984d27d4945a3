import StyleAudit.Proofs.Style.Spelling
import StyleAudit.Proofs.Text.Pattern
import StyleAudit.Style.Extract

/-!
# The rules of a written tree

The text of a tree of rules is read back as rules with the same selectors, one inside the other as
in the tree (`Stands`, `Stylesheet.exists_parse`).  Each level of the text has what it asks of the
tokens.

* `Heads`: the tokens before a block make a rule of it, with the one selector.
* `Outlines`: the tokens are whole statements, without fault, and their rules stand for the items.

Line comments and line ends are no matter, since no character of the text can begin one
(`isSheetChar`).
-/

namespace StyleAudit.Style

open StyleAudit.Text Nested

/-! ### Faults -/

theorem firstFault_eq_none_iff {ts : List Token} :
    firstFault ts = none ↔ ∀ t ∈ ts, t.firstFault = none := by
  induction ts with
  | nil => simp [firstFault]
  | cons t ts ih =>
    rw [firstFault, List.forall_mem_cons, ← ih]
    cases t.firstFault <;> simp

theorem firstFault_append {ts us : List Token} (h : firstFault ts = none)
    (h' : firstFault us = none) : firstFault (ts ++ us) = none := by
  rw [firstFault_eq_none_iff] at h h' ⊢
  exact List.forall_mem_append.mpr ⟨h, h'⟩

/-- What a quiet token is not. -/
theorem Token.isQuiet_cases {t : Token} (h : t.isQuiet = true) :
    t.firstFault = none ∧ t.isCurly = false ∧ t.isLiteral ";" = false ∧ t.isLiteral "#" = false ∧
      t.isLiteral "@" = false := by
  cases t with
  | block line bracket content => cases h
  | function line name arguments => cases h
  | leaf line l =>
    cases l with
    | literal text =>
      have hmem : text ∈ [".", "&", "-"] := List.contains_iff_mem.mp h
      simp only [List.mem_cons, List.not_mem_nil, or_false] at hmem
      rcases hmem with rfl | rfl | rfl <;>
        simp [firstFault, Leaf.fault?, occursIn, splitAtMark?, dropLead?, isCurly, isLiteral, leaf?]
    | blank | ident | number | dimension =>
      exact ⟨by simp [firstFault, Leaf.fault?], rfl, rfl, rfl, rfl⟩
    | _ => cases h

/-! ### Preludes -/

theorem extendPrelude_of_isQuiet {t : Token} (h : t.isQuiet = true) {prelude : List Token}
    (hfirst : prelude ≠ [] ∨ t.isBlank = false) : extendPrelude prelude t = prelude ++ [t] := by
  obtain ⟨-, -, hsemicolon, -, -⟩ := t.isQuiet_cases h
  rw [extendPrelude]
  split
  · rename_i hblank
    have hne : prelude ≠ [] := hfirst.resolve_right (by simp [hblank])
    rw [if_neg (by simpa using hne)]
  · rw [hsemicolon]
    rfl

theorem rules_of_isQuiet {ts : List Token} (h : ∀ t ∈ ts, t.isQuiet = true) {prelude : List Token}
    (hne : prelude ≠ []) (more : List Token) :
    rules prelude (ts ++ more) = rules (prelude ++ ts) more := by
  induction ts generalizing prelude with
  | nil => rw [List.nil_append, List.append_nil]
  | cons t ts ih =>
    rw [List.forall_mem_cons] at h
    obtain ⟨-, hcurly, -⟩ := t.isQuiet_cases h.1
    rw [List.cons_append, rules, hcurly, Bool.false_and, if_neg Bool.false_ne_true,
      extendPrelude_of_isQuiet h.1 (Or.inl hne), ih h.2 (by simp), List.append_assoc,
      List.singleton_append]

theorem endsInMark_of_isQuiet {ts : List Token} (h : ∀ t ∈ ts, t.isQuiet = true) :
    endsInMark ts = false := by
  rw [endsInMark]
  split
  · rename_i t hlast
    obtain ⟨-, -, -, hhash, hat⟩ := t.isQuiet_cases (h t (List.mem_of_getLast? hlast))
    rw [hhash, hat]
    rfl
  · rfl

theorem isBlank_of_isClassChar {c : Char} (h : isClassChar c = true) : isBlank c = false := by
  have hbounds : 45 ≤ c.toNat ∧ c.toNat ≤ 122 := by
    simp only [isClassChar, Char.isAlphanum, Bool.or_eq_true, beq_iff_eq] at h
    rcases h with ((hletter | hdigit) | rfl) | rfl
    · have hbounds := toNat_of_isAlpha hletter
      omega
    · have hbounds := toNat_of_isAsciiDigit hdigit
      omega
    · decide
    · decide
  simp [isBlank]
  omega

theorem isBlank_of_isSpace {c : Char} (h : isSpace c = true) : isBlank c = true := by
  simp only [isSpace, Bool.or_eq_true, beq_iff_eq] at h
  rcases h with (rfl | rfl) | rfl <;> decide

theorem trim_append {text blank : List Char} (hfirst : Stops isBlank text)
    (hlast : Stops isBlank text.reverse) (hblank : blank.all isSpace = true) (hne : text ≠ []) :
    trim (text ++ blank) = text := by
  have hleft : trimLeft (text ++ blank) = text ++ blank := by
    cases text with
    | nil => exact absurd rfl hne
    | cons c cs => exact List.dropWhile_cons_of_neg (by simp [hfirst c rfl])
  have hgone : blank.reverse.dropWhile isBlank = [] := by
    rw [List.dropWhile_eq_nil_iff]
    intro c hc
    exact isBlank_of_isSpace (List.all_eq_true.mp hblank c (List.mem_reverse.mp hc))
  rw [trim, hleft, trimRight, List.reverse_append, dropWhile_append_of_stops hlast, hgone,
    List.nil_append, List.reverse_reverse]

theorem splitCommas_of_notMem {cs : List Char} (h : ',' ∉ cs) (depth : Nat) :
    splitCommas depth cs = [cs] := by
  induction cs generalizing depth with
  | nil => rfl
  | cons c cs ih =>
    rw [List.mem_cons, not_or] at h
    have hc : (c == ',') = false := beq_false_of_ne (Ne.symm h.1)
    simp [splitCommas, ih h.2, hc]

/-! ### The text of a selector -/

/-- The characters of selectors. -/
def isSelectorChar (c : Char) : Bool :=
  isClassChar c || isSpace c || c == '.' || c == '&'

theorem Nested.Chain.all_text {p : Char → Bool} (hdot : p '.' = true)
    (hclass : ∀ {c}, isClassChar c = true → p c = true)
    (hspace : ∀ {c}, isSpace c = true → p c = true) (c : Chain) : c.text.all p = true := by
  have hname : ∀ n : ClassName, ('.' :: n.chars).all p = true := fun n => by
    rw [List.all_cons, hdot, all_of_imp hclass n.run]
    rfl
  have hlink : ∀ link : Link, link.text.all p = true := fun link => all_of_imp hspace link.all_text
  rw [text, List.all_append, hname, List.all_flatMap, Bool.and_true]
  exact List.all_eq_true.mpr fun part _ => by rw [partText, List.all_append, hname, hlink]; rfl

namespace Nested.Selector

theorem all_text (sel : Selector) : sel.text.all isSelectorChar = true := by
  have hclass : ∀ {c}, isClassChar c = true → isSelectorChar c = true := fun hc => by
    rw [isSelectorChar, hc]
    rfl
  have hspace : ∀ {c}, isSpace c = true → isSelectorChar c = true := fun hc => by
    rw [isSelectorChar, hc, Bool.or_true]
    rfl
  cases sel with
  | chain c => exact c.all_text rfl hclass hspace
  | suffix s =>
    rw [text, List.all_cons, all_of_imp hclass s.run]
    rfl

theorem exists_first (sel : Selector) :
    ∃ c cs, sel.text = c :: cs ∧ (c = '.' ∨ c = '&') := by
  cases sel with
  | chain c =>
    obtain ⟨cs, htext⟩ := c.exists_text
    exact ⟨'.', cs, htext, Or.inl rfl⟩
  | suffix s => exact ⟨'&', s.chars, rfl, Or.inr rfl⟩

/-- A selector ends in a run of class characters. -/
theorem exists_run (sel : Selector) :
    ∃ front run, sel.text = front ++ run ∧ run ≠ [] ∧ run.all isClassChar = true := by
  cases sel with
  | chain c =>
    exact ⟨_, c.last.chars, List.append_cons _ _ _, c.last.chars_ne_nil, c.last.run⟩
  | suffix s =>
    refine ⟨['&'], s.chars, rfl, ?_, s.run⟩
    intro h
    have hleads := s.leads
    rw [h] at hleads
    cases hleads

end Nested.Selector

theorem splitSelectors_text (sel : Selector) {blank : List Char}
    (hblank : blank.all isSpace = true) :
    splitSelectors (trim (sel.text ++ blank)) = [sel.text] := by
  obtain ⟨c, cs, htext, hc⟩ := sel.exists_first
  obtain ⟨front, run, hsplit, hrun, hclass⟩ := sel.exists_run
  have hne : sel.text ≠ [] := by rw [htext]; exact List.cons_ne_nil c cs
  have hfirst : Stops isBlank sel.text := by
    rw [htext]
    intro d hd
    cases hd
    rcases hc with rfl | rfl <;> decide
  have hlast : Stops isBlank sel.text.reverse := by
    rw [hsplit, List.reverse_append]
    intro d hd
    cases hrev : run.reverse with
    | nil => exact absurd (List.reverse_eq_nil_iff.mp hrev) hrun
    | cons e es =>
      rw [hrev] at hd
      obtain rfl : e = d := Option.some.inj hd
      have hmem : e ∈ run := List.mem_reverse.mp (by rw [hrev]; exact List.mem_cons_self)
      exact isBlank_of_isClassChar (List.all_eq_true.mp hclass e hmem)
  have hcomma : ',' ∉ sel.text := fun hmem => by
    have hall := List.all_eq_true.mp sel.all_text ',' hmem
    cases hall
  have htrim := trim_append hfirst hlast (rfl : ([] : List Char).all isSpace = true) hne
  rw [List.append_nil] at htrim
  rw [trim_append hfirst hlast hblank hne, splitSelectors, splitCommas_of_notMem hcomma]
  simp [htrim, hne]

/-! ### Rules -/

/-- The tokens before a block make a rule of it, with the one selector. -/
structure Heads (sel : Selector) (ts : List Token) : Prop where
  sound : firstFault ts = none
  opens : ∀ line content more,
    rules [] (ts ++ .block line .curly content :: more) = .mk ts (rules [] content) :: rules [] more
  heading : ∃ line, heading .scss ts = .selectors line [sel.text]

theorem heading_of_isQuiet {t : Token} (h : t.isQuiet = true) (ts : List Token) :
    heading .scss (t :: ts) = .selectors t.line (splitSelectors (trim (print (t :: ts)))) := by
  cases t with
  | block line bracket content => cases h
  | function line name arguments => cases h
  | leaf line l =>
    cases l with
    | blank | ident | number | dimension | literal => rfl
    | _ => cases h

/-- Quiet tokens that are not printed with a space in front do not begin with a blank. -/
theorem isBlank_of_print {t : Token} (h : t.isQuiet = true) {ts : List Token} {c : Char}
    {cs : List Char} (hprint : print (t :: ts) = c :: cs) (hc : isSpace c = false) :
    t.isBlank = false := by
  cases t with
  | block line bracket content => rfl
  | function line name arguments => rfl
  | leaf line l =>
    cases l with
    | blank text =>
      have hquiet : text.toList.head?.any isSpace = true := h
      have hshown : text.toList ++ forestText (some .blank) ts = c :: cs := hprint
      cases htext : text.toList with
      | nil => rw [htext] at hquiet; cases hquiet
      | cons d ds =>
        rw [htext] at hquiet hshown
        cases hshown
        rw [List.head?_cons, Option.any_some, hc] at hquiet
        cases hquiet
    | _ => rfl

theorem heads_of_spells {sel : Selector} {blank : List Char} {next : Option Joint} {ts : List Token}
    (h : Spells none (sel.text ++ blank) next ts) (hblank : blank.all isSpace = true) :
    Heads sel ts := by
  have hprint : print ts = sel.text ++ blank := by
    have hall := h.print []
    rwa [List.append_nil, forestText, List.append_nil] at hall
  obtain ⟨c, cs, hfirst, hc⟩ := sel.exists_first
  cases ts with
  | nil => rw [hfirst] at hprint; cases hprint
  | cons t ts =>
    have hquiet := List.forall_mem_cons.mp h.quiet
    have hshown : t.isBlank = false := by
      rw [hfirst] at hprint
      refine isBlank_of_print hquiet.1 hprint ?_
      rcases hc with rfl | rfl <;> decide
    refine ⟨?_, ?_, ?_⟩
    · exact firstFault_eq_none_iff.mpr fun t ht => (t.isQuiet_cases (h.quiet t ht)).1
    · intro line content more
      obtain ⟨-, hcurly, -⟩ := t.isQuiet_cases hquiet.1
      have hmark := endsInMark_of_isQuiet h.quiet
      rw [List.cons_append, rules, hcurly, Bool.false_and, if_neg Bool.false_ne_true,
        extendPrelude_of_isQuiet hquiet.1 (Or.inr hshown), List.nil_append,
        rules_of_isQuiet hquiet.2 (by simp), List.singleton_append, rules, hmark]
      simp [Token.isCurly, Token.rules]
    · exact ⟨t.line, by rw [heading_of_isQuiet hquiet.1, hprint, splitSelectors_text sel hblank]⟩

/-- The rules have the selectors of the items, one inside the other in the same way. -/
inductive Stands : List Rule → List Item → Prop
  | nil : Stands [] []
  | declaration {rs : List Rule} {items : List Item} (statement : Statement) (after : Blank)
      (h : Stands rs items) : Stands rs (.declaration statement after :: items)
  | rule {prelude : List Token} {body rs : List Rule} {content items : List Item} {sel : Selector}
      {line : Nat} (before inner after : Blank)
      (hheading : heading .scss prelude = .selectors line [sel.text]) (hbody : Stands body content)
      (h : Stands rs items) :
      Stands (.mk prelude body :: rs) (.rule sel before inner content after :: items)

theorem Stands.append {rs rs' : List Rule} {items items' : List Item} (h : Stands rs items)
    (h' : Stands rs' items') : Stands (rs ++ rs') (items ++ items') := by
  induction h with
  | nil => exact h'
  | declaration statement after _ ih => exact .declaration statement after ih
  | rule before inner after hheading hbody _ _ ih =>
    exact .rule before inner after hheading hbody ih

/-- The tokens are whole statements, without fault, and their rules stand for the items. -/
structure Outlines (items : List Item) (ts : List Token) : Prop where
  sound : firstFault ts = none
  settled : ∃ rs, Stands rs items ∧ ∀ more, rules [] (ts ++ more) = rs ++ rules [] more

namespace Outlines

variable {items items' : List Item} {ts us : List Token}

theorem nil : Outlines [] [] :=
  ⟨rfl, [], .nil, fun _ => rfl⟩

theorem append (h : Outlines items ts) (h' : Outlines items' us) :
    Outlines (items ++ items') (ts ++ us) := by
  obtain ⟨rs, hrs, hrules⟩ := h.settled
  obtain ⟨rs', hrs', hrules'⟩ := h'.settled
  refine ⟨firstFault_append h.sound h'.sound, rs ++ rs', hrs.append hrs', fun more => ?_⟩
  rw [List.append_assoc, hrules, hrules', List.append_assoc]

theorem stands (h : Outlines items ts) : Stands (rules [] ts) items := by
  obtain ⟨rs, hrs, hrules⟩ := h.settled
  have hall := hrules []
  rw [List.append_nil, rules, List.append_nil] at hall
  rwa [hall]

theorem rule {sel : Selector} (before inner after : Blank) (h : Heads sel ts)
    (h' : Outlines items us) (line : Nat) :
    Outlines [.rule sel before inner items after] (ts ++ [.block line .curly us]) := by
  obtain ⟨line', hheading⟩ := h.heading
  refine ⟨firstFault_append h.sound ?_, [.mk ts (rules [] us)],
    .rule before inner after hheading h'.stands .nil, fun more => ?_⟩
  · rw [firstFault, Token.firstFault, h'.sound]
    rfl
  · rw [List.append_assoc, List.singleton_append, h.opens]
    rfl

end Outlines

/-! ### Items -/

/-- The tokens end a statement and are forgotten with it. -/
structure Vanishes (ts : List Token) : Prop where
  sound : firstFault ts = none
  settled : ∀ prelude more, rules prelude (ts ++ more) = rules [] more

theorem vanishes_semicolon (line : Nat) : Vanishes [.leaf line (.literal ";")] where
  sound := by
    simp [firstFault, Token.firstFault, Leaf.fault?, occursIn, splitAtMark?, dropLead?]
  settled prelude more := by
    rw [List.singleton_append, rules]
    simp [Token.isCurly, extendPrelude, Token.isBlank, Token.isLiteral, Token.leaf?]

theorem Vanishes.cons_leaf {ts : List Token} (h : Vanishes ts) {l : Leaf} (hl : l.fault? = none)
    (line : Nat) : Vanishes (.leaf line l :: ts) where
  sound := by
    have hleaf : (Token.leaf line l).firstFault = none := by simp [Token.firstFault, hl]
    rw [firstFault, hleaf, h.sound]
  settled prelude more := by
    have hcurly : (Token.leaf line l).isCurly = false := rfl
    rw [List.cons_append, rules, hcurly, Bool.false_and, if_neg Bool.false_ne_true, h.settled]

theorem reads_statement {cs : List Char} (h : cs.all isPlain = true) (rest : List Char) :
    Reads (cs ++ [';']) rest Vanishes := by
  -- by induction on the length, since a mark takes more than one character
  induction hn : cs.length using Nat.strong_induction_on generalizing cs with
  | _ n ih =>
    subst hn
    cases cs with
    | nil =>
      have hread : Mark.read ';' rest = ([.leaf (.literal ";")], 0) :=
        Mark.read_symbol (by decide) (by decide) rest
      exact Reads.char hread vanishes_semicolon
    | cons c cs =>
      obtain ⟨leaf, used, hread, hused, hfault⟩ := Mark.read_plain h rest
      have hplain : (cs.drop used).all isPlain = true := List.all_eq_true.mpr fun d hd =>
        List.all_eq_true.mp h d (List.mem_cons_of_mem c (List.mem_of_mem_drop hd))
      have hmark : Mark.read c (cs.take used ++ (cs.drop used ++ [';'] ++ rest)) =
          ([.leaf leaf], (cs.take used).length) := by
        rw [← List.append_assoc, ← List.append_assoc, List.take_append_drop, List.append_assoc,
          List.length_take, Nat.min_eq_left hused]
        exact hread
      have hsplit : c :: cs ++ [';'] = c :: cs.take used ++ (cs.drop used ++ [';']) := by
        rw [List.cons_append, List.cons_append, ← List.append_assoc, List.take_append_drop]
      rw [hsplit]
      refine (Reads.leaf (P := fun ts => ∃ line, ts = [.leaf line leaf]) hmark fun line =>
        ⟨line, rfl⟩).append (ih _ ?_ hplain rfl) ?_
      · rw [List.length_drop, List.length_cons]
        omega
      · rintro ts us ⟨line, rfl⟩ hus
        exact hus.cons_leaf hfault line

theorem Outlines.declaration {ts us : List Token} (h : Vanishes ts) (h' : Outlines [] us)
    (statement : Statement) (after : Blank) :
    Outlines [.declaration statement after] (ts ++ us) := by
  obtain ⟨rs, hrs, hrules⟩ := h'.settled
  refine ⟨firstFault_append h.sound h'.sound, rs, .declaration statement after hrs, fun more => ?_⟩
  rw [List.append_assoc, h.settled, hrules]

theorem reads_outline_blank (b : Blank) {rest : List Char} (hrest : Stops isSpace rest) :
    Reads b.chars rest (Outlines []) := by
  refine Reads.blank b.spaces hrest (fun _ => .nil) fun line c cs _ => ⟨?_, [], .nil, fun _ => rfl⟩
  simp [firstFault, Token.firstFault, Leaf.fault?]

theorem Nested.Item.stops (item : Item) (rest : List Char) : Stops isSpace (item.text ++ rest) := by
  cases item with
  | rule sel before inner body after =>
    obtain ⟨c, cs, htext, hc⟩ := sel.exists_first
    rw [Item.text, htext]
    intro d hd
    cases hd
    rcases hc with rfl | rfl <;> decide
  | declaration statement after =>
    have hstarts := statement.starts
    rw [Item.text]
    intro d hd
    cases hchars : statement.chars with
    | nil =>
      rw [hchars] at hd
      cases hd
      rfl
    | cons c cs =>
      rw [hchars] at hd hstarts
      obtain rfl : c = d := Option.some.inj hd
      simpa using hstarts

theorem stops_textOf (items : List Item) {rest : List Char} (hrest : Stops isSpace rest) :
    Stops isSpace (textOf items ++ rest) := by
  cases items with
  | nil => exact hrest
  | cons item items =>
    rw [textOf, List.append_assoc]
    exact item.stops _

/-- A selector and the blank after it, before a block. -/
theorem reads_head (sel : Selector) (before : Blank) {rest : List Char} (hrest : Opens ['{'] rest) :
    Reads (sel.text ++ before.chars) rest (Heads sel) := by
  have hends : Opens suffixEnds (before.chars ++ rest) :=
    (hrest.mono (by simp [suffixEnds])).blank_append before.spaces (by decide)
  refine (reads_selector sel hends).append (reads_blank before.spaces (hrest.stops (by decide))) ?_
  rintro ts us ⟨next, hnext, hts⟩ hblank
  obtain ⟨last, -, hus⟩ := hblank next hnext
  exact heads_of_spells (hts.append hus) before.spaces

theorem stops_closer (rest : List Char) : Stops isSpace ('}' :: rest) := fun c hc => by
  cases hc
  rfl

mutual

theorem reads_item : ∀ (item : Item) {rest : List Char}, Stops isSpace rest →
    Reads item.text rest (Outlines [item])
  | .declaration statement after, rest, hrest => by
    rw [Item.text]
    exact (reads_statement statement.plain (after.chars ++ rest)).append
      (reads_outline_blank after hrest) fun _ _ h h' => .declaration h h' statement after
  | .rule sel before inner body after, rest, hrest => by
    have hcloser := stops_closer (after.chars ++ rest)
    have hbody : Reads (inner.chars ++ textOf body) ('}' :: (after.chars ++ rest))
        (Outlines body) :=
      (reads_outline_blank inner (stops_textOf body hcloser)).append (reads_items body hcloser)
        fun _ _ h h' => h.append h'
    have hblock : Reads ('{' :: (inner.chars ++ textOf body ++ ['}'])) (after.chars ++ rest)
        fun ts => ∃ line us, ts = [.block line .curly us] ∧ Outlines body us :=
      hbody.block fun line ts h => ⟨line, ts, rfl, h⟩
    have hrule := (reads_head sel before ⟨'{', List.mem_singleton_self _, _, rfl⟩).append hblock
      (R := Outlines [.rule sel before inner body after]) (by
        rintro ts us hts ⟨line, us, rfl, hus⟩
        exact .rule before inner after hts hus line)
    rw [Item.text]
    exact hrule.append (reads_outline_blank after hrest) fun _ _ h h' => h.append h'

theorem reads_items : ∀ (items : List Item) {rest : List Char}, Stops isSpace rest →
    Reads (textOf items) rest (Outlines items)
  | [], _, _ => .nil .nil
  | item :: items, rest, hrest => by
    rw [textOf]
    exact (reads_item item (stops_textOf items hrest)).append (reads_items items hrest)
      fun _ _ h h' => h.append h'

end

/-! ### Sheets -/

/-- The characters of a tree. -/
def isSheetChar (c : Char) : Bool :=
  isPlain c || ['&', '{', '}', ';'].contains c

theorem isSheetChar_of_isPlain {c : Char} (h : isPlain c = true) : isSheetChar c = true := by
  rw [isSheetChar, h]
  rfl

theorem isSheetChar_of_isSpace {c : Char} (h : isSpace c = true) : isSheetChar c = true :=
  isSheetChar_of_isPlain (by rw [isPlain, h, Bool.or_true]; rfl)

theorem isSheetChar_of_isSelectorChar {c : Char} (h : isSelectorChar c = true) :
    isSheetChar c = true := by
  simp only [isSelectorChar, Bool.or_eq_true, beq_iff_eq] at h
  rcases h with ((h | h) | rfl) | rfl
  · exact isSheetChar_of_isPlain (isPlain_of_isClassChar h)
  · exact isSheetChar_of_isSpace h
  · decide
  · decide

theorem Nested.Blank.all_sheet (b : Blank) : b.chars.all isSheetChar = true :=
  all_of_imp isSheetChar_of_isSpace b.spaces

theorem Nested.Selector.all_sheet (sel : Selector) : sel.text.all isSheetChar = true :=
  all_of_imp isSheetChar_of_isSelectorChar sel.all_text

mutual

theorem Nested.Item.all_sheet : ∀ item : Item, item.text.all isSheetChar = true
  | .rule sel before inner body after => by
    have hopen : isSheetChar '{' = true := by decide
    have hclose : isSheetChar '}' = true := by decide
    simp [Item.text, sel.all_sheet, before.all_sheet, inner.all_sheet, all_sheet_textOf body,
      after.all_sheet, hopen, hclose]
  | .declaration statement after => by
    have hplain := all_of_imp isSheetChar_of_isPlain statement.plain
    have hsemicolon : isSheetChar ';' = true := by decide
    simp [Item.text, hplain, after.all_sheet, hsemicolon]

theorem all_sheet_textOf : ∀ items : List Item, (textOf items).all isSheetChar = true
  | [] => rfl
  | item :: items => by rw [textOf, List.all_append, item.all_sheet, all_sheet_textOf items]; rfl

end

theorem Nested.Stylesheet.all_sheet (sheet : Stylesheet) : sheet.text.all isSheetChar = true := by
  rw [text, List.all_append, sheet.lead.all_sheet, all_sheet_textOf]
  rfl

theorem protected?_of_sheet {c : Char} {cs : List Char} (h : (c :: cs).all isSheetChar = true) :
    protected? (c :: cs) = none := by
  have hne : ∀ d, isSheetChar d = false → d ∉ c :: cs := fun d hd hmem =>
    ne_of_holds (List.all_eq_true.mp h d hmem) hd rfl
  rw [protected?.eq_def]
  split
  · rename_i heq; exact absurd (by simp [heq]) (hne '"' (by decide))
  · rename_i heq; exact absurd (by simp [heq]) (hne '\'' (by decide))
  · rename_i heq; exact absurd (by simp [heq]) (hne '/' (by decide))
  · rename_i heq; exact absurd (by simp [heq]) (hne '(' (by decide))
  · rfl

/-- A tree holds no line comment. -/
theorem stripLineComments_of_sheet {cs : List Char} (h : cs.all isSheetChar = true) :
    stripLineComments cs = cs := by
  have hblind : keptOrComment.Blind := fun _ _ => rfl
  induction cs with
  | nil => rfl
  | cons c cs ih =>
    have hprotected := protected?_of_sheet h
    rw [List.all_cons, Bool.and_eq_true] at h
    have hslash : c ≠ '/' := ne_of_holds h.1 (by decide)
    have hnone : keptOrComment none (c :: cs) = none := by
      simp [keptOrComment, hprotected, hslash]
    rw [stripLineComments, hblind.replace_of_none id hnone, ← stripLineComments, ih h.2]

theorem normalizeSource_of_sheet {cs : List Char} (h : cs.all isSheetChar = true) :
    normalizeSource cs = cs := by
  induction cs with
  | nil => rfl
  | cons c cs ih =>
    rw [List.all_cons, Bool.and_eq_true] at h
    have hreturn : c ≠ '\r' := ne_of_holds h.1 (by decide)
    have hfeed : c ≠ '\x0c' := ne_of_holds h.1 (by decide)
    have hzero : c ≠ '\x00' := ne_of_holds h.1 (by decide)
    simp [normalizeSource, hreturn, hfeed, hzero, ih h.2]

/-- **The text of a tree is read as rules that stand for it.** -/
theorem Nested.Stylesheet.exists_parse (sheet : Stylesheet) :
    ∃ forest, Dialect.scss.parse (String.ofList sheet.text) = .ok forest ∧
      Stands (rules [] forest) (sheet.blocks.map Block.item) := by
  have hreads : Reads sheet.text [] (Outlines (sheet.blocks.map Block.item)) :=
    (reads_outline_blank sheet.lead (stops_textOf _ fun c hc => by cases hc)).append
      (reads_items _ fun c hc => by cases hc) fun _ _ h h' => h.append h'
  obtain ⟨forest, houtlines, hforest⟩ := hreads.exists_parse
  have hparse : parse sheet.text = forest := by
    rw [parse, lexemes, normalizeSource_of_sheet sheet.all_sheet, hforest]
  refine ⟨forest, ?_, houtlines.stands⟩
  have hcomments : Dialect.scss.hasLineComments = true := rfl
  rw [Dialect.parse, String.toList_ofList, hcomments, if_pos rfl,
    stripLineComments_of_sheet sheet.all_sheet, parseSound, hparse, houtlines.sound]

end StyleAudit.Style
