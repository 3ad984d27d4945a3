import Mathlib.Data.List.Basic
import Mathlib.Data.Option.Basic
import StyleAudit.Alias.Source
import StyleAudit.Proofs.Table
import StyleAudit.Proofs.Text.Pattern

/-!
# Alias blocks as they are written

An alias block lists entries between commas and blanks.  An entry is a key in quotes, a colon and a
value, and the value is a directory in quotes or a call, whose last argument in quotes is the
directory.  The types of this file hold what may be written, with all the freedom of layout, and
`written` gives the text.

A block is searched with three patterns.  Each of them finds what has been written and stops where
it ends: `aliasBlock_written` the block, `aliasEntry_written` an entry, `quotedText_written` a text in
quotes.  So the table of a source is the table of the entries that have been written
(`alias_block_read_back`).
-/

namespace StyleAudit.Alias

open StyleAudit.Text

/-! ### What is written -/

def isBrace (c : Char) : Bool :=
  c == '{' || c == '}'

def isParenthesis (c : Char) : Bool :=
  c == '(' || c == ')'

/-- A character of a name, dotted or not. -/
def isNameChar (c : Char) : Bool :=
  !(isBlank c || isQuote c || isBrace c || isParenthesis c || c == ',')

/-- Blanks between the parts of an entry. -/
structure Blanks where
  text : List Char
  all_blank : text.all isBlank = true

/-- Blanks and commas between items. -/
structure Gap where
  text : List Char
  all_gap : text.all (fun c => isBlank c || c == ',') = true

/-- A text in quotes. -/
structure Quotation where
  quote : Char
  text : List Char
  isQuote_quote : isQuote quote = true
  all_plain : text.all (fun c => !(isQuote c || isBrace c)) = true

def Quotation.written (q : Quotation) : List Char :=
  q.quote :: (q.text ++ [q.quote])

/-- Items with gaps between them.  There is a comma after each item but the last one, which may have
one. -/
structure Listing (α : Type) where
  opening : Gap
  items : List (α × Gap)
  separated : items.dropLast.all (fun item => item.2.text.contains ',') = true

/-- Items and the gaps after them. -/
def writtenItems {α : Type} (write : α → List Char) (items : List (α × Gap)) : List Char :=
  items.flatMap fun item => write item.1 ++ item.2.text

def Listing.written {α : Type} (write : α → List Char) (l : Listing α) : List Char :=
  l.opening.text ++ writtenItems write l.items

/-- An argument of a call: a name, or a text in quotes. -/
inductive Argument where
  | name (text : List Char) (all_name : text.all isNameChar = true)
  | quoted (q : Quotation) (all_plain : q.text.all (!isParenthesis ·) = true)

namespace Argument

def written : Argument → List Char
  | .name text _ => text
  | .quoted q _ => q.written

def quoted? : Argument → Option (List Char)
  | .name _ _ => none
  | .quoted q _ => some q.text

end Argument

/-- The value of an entry: a directory, or a call. -/
inductive Value where
  | directory (q : Quotation)
      (all_plain : q.text.all (fun c => !(isParenthesis c || c == ',' || c == '\n')) = true)
  | call (callee : List Char) (all_name : callee.all isNameChar = true)
      (arguments : Listing Argument)

namespace Value

def written : Value → List Char
  | .directory q _ => q.written
  | .call callee _ arguments => callee ++ '(' :: (arguments.written Argument.written ++ [')'])

/-- The directory that a value states: of a call, the last argument in quotes. -/
def directory? : Value → Option (List Char)
  | .directory q _ => some q.text
  | .call _ _ arguments => (arguments.items.filterMap fun a => a.1.quoted?).getLast?

end Value

/-- An entry of a block. -/
structure BlockEntry where
  key : Quotation
  key_ne_nil : key.text ≠ []
  beforeColon : Blanks
  afterColon : Blanks
  value : Value

namespace BlockEntry

def written (e : BlockEntry) : List Char :=
  e.key.written ++ e.beforeColon.text ++ ':' :: (e.afterColon.text ++ e.value.written)

/-- The alias that an entry states, if its value has a directory. -/
def pair? (e : BlockEntry) : Option (String × String) :=
  e.value.directory?.map fun directory =>
    (withoutWildcard (String.ofList e.key.text), String.ofList (withoutHere directory))

end BlockEntry

/-! ### Characters -/

section Characters

variable {c : Char}

theorem ne_of_isBlank {d : Char} (hd : isBlank d = false) (h : isBlank c = true) : c ≠ d := by
  rintro rfl
  rw [h] at hd
  cases hd

theorem isQuote_of_isBlank (h : isBlank c = true) : isQuote c = false := by
  simp [isQuote, ne_of_isBlank (d := '\'') (by decide) h, ne_of_isBlank (d := '"') (by decide) h]

theorem isBrace_of_isBlank (h : isBlank c = true) : isBrace c = false := by
  simp [isBrace, ne_of_isBlank (d := '{') (by decide) h, ne_of_isBlank (d := '}') (by decide) h]

theorem isParenthesis_of_isBlank (h : isBlank c = true) : isParenthesis c = false := by
  simp [isParenthesis, ne_of_isBlank (d := '(') (by decide) h,
    ne_of_isBlank (d := ')') (by decide) h]

/-- A quote is one of two characters. -/
theorem eq_of_isQuote (h : isQuote c = true) : c = '\'' ∨ c = '"' := by
  simpa [isQuote] using h

/-- A character of a name is no mark. -/
theorem plain_of_isNameChar (h : isNameChar c = true) : isBlank c = false ∧ isQuote c = false ∧
    isBrace c = false ∧ isParenthesis c = false ∧ c ≠ ',' := by
  simpa [isNameChar, and_assoc] using h

theorem Blanks.isBlank_of_mem (b : Blanks) (h : c ∈ b.text) : isBlank c = true :=
  List.all_eq_true.mp b.all_blank c h

theorem Gap.isBlank_or_eq (g : Gap) (h : c ∈ g.text) : isBlank c = true ∨ c = ',' := by
  simpa using List.all_eq_true.mp g.all_gap c h

theorem Gap.no_quote (g : Gap) : ∀ c ∈ g.text, isQuote c = false := by
  intro c hc
  rcases g.isBlank_or_eq hc with hc | rfl
  · exact isQuote_of_isBlank hc
  · decide

theorem Quotation.plain (q : Quotation) (h : c ∈ q.text) : isQuote c = false ∧ isBrace c = false := by
  simpa using List.all_eq_true.mp q.all_plain c h

/-- A character that belongs to a value wherever it stands. -/
def isInner (c : Char) : Bool :=
  c != ',' && c != '\n' && c != '}' && c != '('

theorem isInner_of_plain (hbrace : isBrace c = false) (hparenthesis : isParenthesis c = false)
    (hcomma : c ≠ ',') (hline : c ≠ '\n') : isInner c = true := by
  simp only [isBrace, isParenthesis, Bool.or_eq_false_iff, beq_eq_false_iff_ne]
    at hbrace hparenthesis
  simp [isInner, hcomma, hline, hbrace.2, hparenthesis.1]

theorem valueText_cons (h : isInner c = true) (cs : List Char) :
    valueText 0 (c :: cs) = c :: valueText 0 cs := by
  simp only [isInner, Bool.and_eq_true, bne_iff_ne] at h
  obtain ⟨⟨⟨hcomma, hline⟩, hbrace⟩, hopen⟩ := h
  rw [valueText, if_neg (by simp [hcomma, hline, hbrace]), if_neg (by simp [hopen])]

end Characters

/-! ### Values -/

theorem valueText_append {front : List Char} (h : ∀ c ∈ front, isInner c = true)
    (rest : List Char) : valueText 0 (front ++ rest) = front ++ valueText 0 rest := by
  induction front with
  | nil => rfl
  | cons c front ih =>
    obtain ⟨hc, hfront⟩ := List.forall_mem_cons.mp h
    rw [List.cons_append, valueText_cons hc, ih hfront, List.cons_append]

theorem valueText_skip (front rest : List Char) :
    valueText front.length (front ++ rest) = front ++ valueText 0 rest := by
  induction front with
  | nil => rfl
  | cons c front ih => exact congrArg (c :: ·) ih

/-- A part in parentheses belongs to a value as a whole. -/
theorem valueText_parentheses {inner : List Char} (h : ')' ∉ inner) (rest : List Char) :
    valueText 0 ('(' :: (inner ++ ')' :: rest)) = '(' :: (inner ++ ')' :: valueText 0 rest) := by
  have hinner : (inner ++ ')' :: rest).takeWhile (· != ')') = inner :=
    takeWhile_append_of_head (fun c hc => by simpa using fun he : c = ')' => h (he ▸ hc))
      (by simp)
  have hskip := valueText_skip (inner ++ [')']) rest
  rw [List.length_append, List.append_assoc, List.append_assoc] at hskip
  rw [valueText, if_neg (by decide), if_pos (by simp), hinner]
  exact congrArg _ hskip

/-- What holds of blanks, commas and the characters of the items holds of all characters. -/
theorem Listing.forall_mem_written {α : Type} {write : α → List Char} {l : Listing α}
    {P : Char → Prop} (hblank : ∀ c, isBlank c = true → P c) (hcomma : P ',')
    (hitems : ∀ item ∈ l.items, ∀ c ∈ write item.1, P c) : ∀ c ∈ l.written write, P c := by
  have hgap : ∀ g : Gap, ∀ c ∈ g.text, P c := by
    intro g c hc
    rcases g.isBlank_or_eq hc with hc | rfl
    · exact hblank c hc
    · exact hcomma
  intro c hc
  rcases List.mem_append.mp hc with hc | hc
  · exact hgap _ c hc
  · obtain ⟨item, hitem, hc⟩ := List.mem_flatMap.mp hc
    rcases List.mem_append.mp hc with hc | hc
    · exact hitems item hitem c hc
    · exact hgap _ c hc

theorem Quotation.forall_mem_written {q : Quotation} {P : Char → Prop}
    (hquote : ∀ c, isQuote c = true → P c) (htext : ∀ c ∈ q.text, P c) :
    ∀ c ∈ q.written, P c := by
  have hq := hquote _ q.isQuote_quote
  simpa [written, or_imp, forall_and] using ⟨hq, htext, hq⟩

theorem Argument.forall_mem_written {a : Argument} {P : Char → Prop}
    (hquote : ∀ c, isQuote c = true → P c) (hname : ∀ c, isNameChar c = true → P c)
    (htext : ∀ c, isQuote c = false → isBrace c = false → isParenthesis c = false → P c) :
    ∀ c ∈ a.written, P c := by
  cases a with
  | name text hname' => exact fun c hc => hname c (List.all_eq_true.mp hname' c hc)
  | quoted q hplain =>
    refine Quotation.forall_mem_written hquote fun c hc => ?_
    exact htext c (q.plain hc).1 (q.plain hc).2 (by simpa using List.all_eq_true.mp hplain c hc)

/-- The arguments of a call hold no parentheses and no braces. -/
theorem Listing.plain_arguments (l : Listing Argument) :
    ∀ c ∈ l.written Argument.written, isParenthesis c = false ∧ isBrace c = false := by
  refine l.forall_mem_written ?_ (by decide) fun item _ => Argument.forall_mem_written ?_ ?_ ?_
  · exact fun c hc => ⟨isParenthesis_of_isBlank hc, isBrace_of_isBlank hc⟩
  · intro c hc
    rcases eq_of_isQuote hc with rfl | rfl <;> decide
  · intro c hc
    obtain ⟨-, -, hbrace, hparenthesis, -⟩ := plain_of_isNameChar hc
    exact ⟨hparenthesis, hbrace⟩
  · exact fun c _ hbrace hparenthesis => ⟨hparenthesis, hbrace⟩

/-- A value goes on to its end, whatever follows. -/
theorem valueText_written (v : Value) (rest : List Char) :
    valueText 0 (v.written ++ rest) = v.written ++ valueText 0 rest := by
  cases v with
  | directory q hplain =>
    refine valueText_append (Quotation.forall_mem_written ?_ fun c hc => ?_) rest
    · intro c hc
      rcases eq_of_isQuote hc with rfl | rfl <;> decide
    · have hc' := List.all_eq_true.mp hplain c hc
      simp only [Bool.not_eq_true', Bool.or_eq_false_iff, beq_eq_false_iff_ne] at hc'
      exact isInner_of_plain (q.plain hc).2 hc'.1.1 hc'.1.2 hc'.2
  | call callee hname arguments =>
    have hcallee : ∀ c ∈ callee, isInner c = true := fun c hc => by
      obtain ⟨hblank, -, hbrace, hparenthesis, hcomma⟩ :=
        plain_of_isNameChar (List.all_eq_true.mp hname c hc)
      exact isInner_of_plain hbrace hparenthesis hcomma (by rintro rfl; cases hblank)
    have hinner : ')' ∉ arguments.written Argument.written := fun hc =>
      absurd (arguments.plain_arguments _ hc).1 (by decide)
    simp [Value.written, valueText_append hcallee, valueText_parentheses hinner]

/-- A gap belongs to the value before it up to a comma or a line end.  It ends the value if it has
a comma or if nothing follows. -/
theorem exists_valueText_gap {gap next : List Char}
    (hgap : ∀ c ∈ gap, isBlank c = true ∨ c = ',')
    (hend : ',' ∈ gap ∨ next = []) :
    ∃ front back, gap = front ++ back ∧ valueText 0 (gap ++ next) = front := by
  induction gap with
  | nil =>
    obtain rfl := hend.resolve_left List.not_mem_nil
    exact ⟨[], [], rfl, rfl⟩
  | cons c gap ih =>
    obtain ⟨hc, hgap⟩ := List.forall_mem_cons.mp hgap
    by_cases hstop : c = ',' ∨ c = '\n'
    · refine ⟨[], c :: gap, rfl, ?_⟩
      rw [List.cons_append, valueText]
      exact if_pos (by rcases hstop with rfl | rfl <;> decide)
    · obtain ⟨hcomma, hline⟩ := not_or.mp hstop
      have hblank := hc.resolve_right hcomma
      obtain ⟨front, back, rfl, hvalue⟩ := ih hgap (hend.imp_left fun hmem =>
        (List.mem_cons.mp hmem).resolve_left fun he => hcomma he.symm)
      refine ⟨c :: front, back, rfl, ?_⟩
      rw [List.cons_append, valueText_cons, hvalue]
      exact isInner_of_plain (isBrace_of_isBlank hblank) (isParenthesis_of_isBlank hblank) hcomma
        hline

/-- A value does not begin with a blank. -/
theorem Value.exists_written_eq (v : Value) : ∃ c cs, v.written = c :: cs ∧ isBlank c = false := by
  cases v with
  | directory q plain =>
    refine ⟨_, _, rfl, ?_⟩
    rcases eq_of_isQuote q.isQuote_quote with hq | hq <;> rw [hq] <;> decide
  | call callee hname arguments =>
    cases callee with
    | nil => exact ⟨_, _, rfl, by decide⟩
    | cons c callee =>
      have hc := List.all_eq_true.mp hname c List.mem_cons_self
      exact ⟨_, _, rfl, (plain_of_isNameChar hc).1⟩

/-! ### Texts in quotes -/

theorem quotedText_blind : quotedText.Blind := by
  intro before cs
  cases cs <;> rfl

theorem quotedText_of_no_quote {c : Char} (h : isQuote c = false) (cs : List Char) :
    quotedText none (c :: cs) = none := by
  rw [quotedText, h]
  rfl

theorem quotedText_written (q : Quotation) (rest : List Char) :
    quotedText none (q.written ++ rest) = some (q.text, rest) := by
  have htext : ∀ c ∈ q.text, (! isQuote c) = true := fun c hc => by rw [(q.plain hc).1]; rfl
  have hquote : ∀ c ∈ (q.quote :: rest).head?, (! isQuote c) = false := fun c hc => by
    cases hc
    rw [q.isQuote_quote]
    rfl
  have hwritten : q.written ++ rest = q.quote :: (q.text ++ q.quote :: rest) := by
    simp [Quotation.written]
  rw [hwritten, quotedText, if_pos q.isQuote_quote]
  simp only [takeWhile_append_of_head htext hquote, dropWhile_append_of_head htext hquote,
    beq_self_eq_true, if_true]

/-- A pattern that begins with a quote finds nothing in a front without quotes. -/
theorem findAll_append_of_no_quote {α : Type} {p : Pattern α} (hp : p.Blind)
    (hquote : ∀ c cs, isQuote c = false → p none (c :: cs) = none) {front : List Char}
    (h : ∀ c ∈ front, isQuote c = false) (rest : List Char) :
    p.findAll (front ++ rest) = p.findAll rest := by
  refine hp.findAll_append_of_none fun t ht hsuffix => ?_
  obtain ⟨c, t, rfl⟩ := List.exists_cons_of_ne_nil ht
  exact hquote c (t ++ rest) (h c (hsuffix.subset List.mem_cons_self))

theorem findAll_quotedText_of_no_quote {front : List Char} (h : ∀ c ∈ front, isQuote c = false)
    (rest : List Char) : quotedText.findAll (front ++ rest) = quotedText.findAll rest :=
  findAll_append_of_no_quote quotedText_blind (fun _ cs hc => quotedText_of_no_quote hc cs) h rest

theorem findAll_quotedText_quotation (q : Quotation) (rest : List Char) :
    quotedText.findAll (q.written ++ rest) = q.text :: quotedText.findAll rest :=
  quotedText_blind.findAll_of_some (quotedText_written q rest)

theorem findAll_quotedText_arguments (l : Listing Argument) (rest : List Char) :
    quotedText.findAll (l.written Argument.written ++ rest) =
      (l.items.filterMap fun a => a.1.quoted?) ++ quotedText.findAll rest := by
  rw [Listing.written, List.append_assoc, findAll_quotedText_of_no_quote l.opening.no_quote]
  induction l.items with
  | nil => rfl
  | cons item items ih =>
    have hgap := findAll_quotedText_of_no_quote item.2.no_quote
      (writtenItems Argument.written items ++ rest)
    have hitem : writtenItems Argument.written (item :: items) ++ rest =
        item.1.written ++ (item.2.text ++ (writtenItems Argument.written items ++ rest)) := by
      simp [writtenItems]
    rw [hitem, List.filterMap_cons]
    cases item.1 with
    | name text hall =>
      have hname : ∀ c ∈ text, isQuote c = false := fun c hc =>
        (plain_of_isNameChar (List.all_eq_true.mp hall c hc)).2.1
      rw [Argument.written, findAll_quotedText_of_no_quote hname, hgap, ih]
      rfl
    | quoted q plain =>
      rw [Argument.written, findAll_quotedText_quotation, hgap, ih]
      rfl

/-- The last text in quotes of a value is its directory. -/
theorem getLast?_findAll_quotedText_written (v : Value) {front : List Char}
    (h : ∀ c ∈ front, isQuote c = false) :
    (quotedText.findAll (v.written ++ front)).getLast? = v.directory? := by
  have hnone : quotedText.findAll front = [] := by
    have hfront := findAll_quotedText_of_no_quote h []
    rwa [List.append_nil] at hfront
  cases v with
  | directory q plain =>
    rw [Value.written, findAll_quotedText_quotation, hnone]
    rfl
  | call callee hname arguments =>
    have hcallee : ∀ c ∈ callee ++ ['('], isQuote c = false := fun c hc => by
      rcases List.mem_append.mp hc with hc | hc
      · exact (plain_of_isNameChar (List.all_eq_true.mp hname c hc)).2.1
      · rw [List.mem_singleton.mp hc]
        decide
    have hwritten : (Value.call callee hname arguments).written ++ front =
        (callee ++ ['(']) ++ (arguments.written Argument.written ++ ([')'] ++ front)) := by
      simp [Value.written]
    rw [hwritten, findAll_quotedText_of_no_quote hcallee, findAll_quotedText_arguments,
      findAll_quotedText_of_no_quote (List.forall_mem_singleton.mpr rfl), hnone, List.append_nil]
    rfl

/-! ### Entries -/

theorem aliasEntry_blind : aliasEntry.Blind := by
  intro before cs
  simp only [aliasEntry, quotedText_blind before cs]

theorem aliasEntry_of_no_quote {c : Char} (h : isQuote c = false) (cs : List Char) :
    aliasEntry none (c :: cs) = none := by
  simp only [aliasEntry, quotedText_of_no_quote h cs]
  rfl

theorem findAll_aliasEntry_of_no_quote {front : List Char} (h : ∀ c ∈ front, isQuote c = false)
    (rest : List Char) : aliasEntry.findAll (front ++ rest) = aliasEntry.findAll rest :=
  findAll_append_of_no_quote aliasEntry_blind (fun _ cs hc => aliasEntry_of_no_quote hc cs) h rest

theorem dropWhile_blanks (b : Blanks) {rest : List Char} (h : ∀ c ∈ rest.head?, isBlank c = false) :
    (b.text ++ rest).dropWhile isBlank = rest :=
  dropWhile_append_of_head (fun _ hc => b.isBlank_of_mem hc) h

/-- A mark is found after blanks. -/
theorem dropLead?_blanks (b : Blanks) {mark : Char} (hmark : isBlank mark = false)
    (rest : List Char) : dropLead? [mark] ((b.text ++ mark :: rest).dropWhile isBlank) = some rest := by
  rw [dropWhile_blanks b fun c hc => by cases hc; exact hmark]
  exact dropLead?_append [mark] rest

theorem entryValue?_written (b : Blanks) (v : Value) (rest : List Char) :
    entryValue? (b.text ++ (v.written ++ rest)) =
      some (v.written ++ valueText 0 rest, rest.drop (valueText 0 rest).length) := by
  have hvalue := valueText_written v rest
  obtain ⟨c, cs, hv, hblank⟩ := v.exists_written_eq
  rw [hv] at hvalue ⊢
  have hdrop : (b.text ++ (c :: cs ++ rest)).dropWhile isBlank = c :: cs ++ rest :=
    dropWhile_blanks b fun d hd => by
      cases hd
      exact hblank
  have hrest : (c :: cs ++ rest).drop (c :: cs ++ valueText 0 rest).length =
      rest.drop (valueText 0 rest).length := by
    rw [List.length_append, List.drop_append]
    simp
  simp only [entryValue?, hdrop, hvalue]
  exact congrArg (fun left => some (c :: cs ++ valueText 0 rest, left)) hrest

/-- An entry is found with its value, which goes on into what follows. -/
theorem aliasEntry_written (e : BlockEntry) (rest : List Char) :
    aliasEntry none (e.written ++ rest) =
      some ((e.key.text, e.value.written ++ valueText 0 rest),
        rest.drop (valueText 0 rest).length) := by
  have hwritten : e.written ++ rest = e.key.written ++
      (e.beforeColon.text ++ ':' :: (e.afterColon.text ++ (e.value.written ++ rest))) := by
    simp [BlockEntry.written]
  have hkey : (guard (!e.key.text.isEmpty) : Option Unit) = some () := by
    rw [List.isEmpty_eq_false_iff.mpr e.key_ne_nil]
    rfl
  have hcolon := dropLead?_blanks e.beforeColon (by decide : isBlank ':' = false)
  simp only [aliasEntry, hwritten, quotedText_written, Option.bind_eq_bind, Option.bind_some, hkey,
    hcolon, entryValue?_written]
  rfl

/-- An entry and the gap after it: the entry is found, and the search goes on after the gap. -/
theorem findAll_aliasEntry_written (e : BlockEntry) (g : Gap) {next : List Char}
    (hend : ',' ∈ g.text ∨ next = []) :
    ∃ front, (∀ c ∈ front, isQuote c = false) ∧
      aliasEntry.findAll (e.written ++ (g.text ++ next)) =
        (e.key.text, e.value.written ++ front) :: aliasEntry.findAll next := by
  obtain ⟨front, back, hgap, hvalue⟩ := exists_valueText_gap (fun _ hc => g.isBlank_or_eq hc) hend
  have hno : ∀ c ∈ front ++ back, isQuote c = false := hgap ▸ g.no_quote
  obtain ⟨hfront, hback⟩ := List.forall_mem_append.mp hno
  have hleft : (g.text ++ next).drop front.length = back ++ next := by
    rw [hgap, List.append_assoc, List.drop_left]
  have hfound := aliasEntry_written e (g.text ++ next)
  rw [hvalue, hleft] at hfound
  refine ⟨front, hfront, ?_⟩
  have htext : e.written ++ (g.text ++ next) =
      e.key.quote :: (e.written.tail ++ front ++ (back ++ next)) := by
    rw [hgap]
    simp [BlockEntry.written, Quotation.written]
  rw [htext] at hfound ⊢
  rw [aliasEntry_blind.findAll_of_some hfound, findAll_aliasEntry_of_no_quote hback]

/-- **The entries of a block are found again**, with the aliases that they state. -/
theorem filterMap_findAll_items {items : List (BlockEntry × Gap)}
    (h : ∀ item ∈ items.dropLast, ',' ∈ item.2.text) :
    (aliasEntry.findAll (writtenItems BlockEntry.written items)).filterMap blockAlias? =
      items.filterMap fun item => item.1.pair? := by
  induction items with
  | nil => rfl
  | cons item items ih =>
    obtain ⟨e, g⟩ := item
    have hend : ',' ∈ g.text ∨ writtenItems BlockEntry.written items = [] := by
      cases items with
      | nil => exact Or.inr rfl
      | cons next items => exact Or.inl (h (e, g) List.mem_cons_self)
    have hrest : ∀ item ∈ items.dropLast, ',' ∈ item.2.text := by
      cases items with
      | nil => exact fun item hitem => absurd hitem List.not_mem_nil
      | cons next items => exact fun item hitem => h item (List.mem_cons_of_mem _ hitem)
    -- The value is found with a piece of the gap, but that piece has no quotes.
    obtain ⟨front, hfront, hfound⟩ := findAll_aliasEntry_written e g hend
    have hpair : blockAlias? (e.key.text, e.value.written ++ front) = e.pair? := by
      rw [blockAlias?, getLast?_findAll_quotedText_written e.value hfront, BlockEntry.pair?]
    have htext : writtenItems BlockEntry.written ((e, g) :: items) =
        e.written ++ (g.text ++ writtenItems BlockEntry.written items) := by
      simp [writtenItems]
    rw [htext, hfound, List.filterMap_cons, List.filterMap_cons, hpair, ih hrest]

/-! ### Blocks -/

theorem BlockEntry.no_brace (e : BlockEntry) : ∀ c ∈ e.written, isBrace c = false := by
  have hquotation : ∀ q : Quotation, ∀ c ∈ q.written, isBrace c = false := fun q =>
    Quotation.forall_mem_written
      (fun c hc => by rcases eq_of_isQuote hc with rfl | rfl <;> decide)
      fun c hc => (q.plain hc).2
  have hblanks : ∀ b : Blanks, ∀ c ∈ b.text, isBrace c = false := fun b c hc =>
    isBrace_of_isBlank (b.isBlank_of_mem hc)
  have hvalue : ∀ c ∈ e.value.written, isBrace c = false := by
    cases e.value with
    | directory q plain => exact hquotation q
    | call callee hname arguments =>
      intro c hc
      simp only [Value.written, List.mem_append, List.mem_cons, List.not_mem_nil, or_false] at hc
      rcases hc with hc | rfl | hc | rfl
      · exact (plain_of_isNameChar (List.all_eq_true.mp hname c hc)).2.2.1
      · decide
      · exact (arguments.plain_arguments c hc).2
      · decide
  intro c hc
  simp only [written, List.mem_append, List.mem_cons] at hc
  rcases hc with (hc | hc) | rfl | hc | hc
  · exact hquotation _ c hc
  · exact hblanks _ c hc
  · decide
  · exact hblanks _ c hc
  · exact hvalue c hc

theorem Listing.no_brace (l : Listing BlockEntry) :
    ∀ c ∈ l.written BlockEntry.written, isBrace c = false :=
  l.forall_mem_written (fun _ hc => isBrace_of_isBlank hc) (by decide) fun item _ => item.1.no_brace

/-- A source that begins with a block. -/
def blockText (beforeColon afterColon : Blanks) (l : Listing BlockEntry) (after : List Char) :
    List Char :=
  "alias".toList ++ (beforeColon.text ++ ':' :: (afterColon.text ++
    '{' :: (l.written BlockEntry.written ++ '}' :: after)))

theorem aliasBlock_blind : aliasBlock.Blind := fun _ _ => rfl

/-- The block is found with what is between its braces. -/
theorem aliasBlock_written (beforeColon afterColon : Blanks) (l : Listing BlockEntry)
    (after : List Char) :
    aliasBlock none (blockText beforeColon afterColon l after) =
      some (l.written BlockEntry.written, after) := by
  have hinside : ∀ c ∈ l.written BlockEntry.written, (!(c == '{' || c == '}')) = true :=
    fun c hc => congrArg (!·) (l.no_brace c hc)
  have hclose : ∀ c ∈ ('}' :: after).head?, (!(c == '{' || c == '}')) = false := fun c hc => by
    cases hc
    rfl
  have hword : ∀ rest, dropLead? "alias".toList ("alias".toList ++ rest) = some rest :=
    dropLead?_append _
  have hcolon := dropLead?_blanks beforeColon (by decide : isBlank ':' = false)
  have hopen := dropLead?_blanks afterColon (by decide : isBlank '{' = false)
  unfold blockText
  simp only [aliasBlock, hword, hcolon, hopen, Option.bind_eq_bind, Option.bind_some,
    takeWhile_append_of_head hinside hclose, dropWhile_append_of_head hinside hclose]

theorem aliasBlock_of_no_lead {cs : List Char} (h : ¬ "alias".toList <+: cs) :
    aliasBlock none cs = none := by
  simp only [aliasBlock, dropLead?_eq_none h]
  rfl

/-- The word cannot begin before its first place, since no end of it is a beginning of it. -/
theorem not_lead_of_no_word {before t rest : List Char} (h : ¬ "alias".toList <:+: before)
    (ht : t ≠ []) (hsuffix : t <:+ before) : ¬ "alias".toList <+: t ++ ("alias".toList ++ rest) := by
  have hword : ¬ "alias".toList <+: t := fun hlead => h (hlead.isInfix.trans hsuffix.isInfix)
  have hborder : ∀ n < 5, n ≠ 0 → ¬ "alias".toList.drop n <+: "alias".toList := by decide
  rintro ⟨more, hmore⟩
  rcases List.append_eq_append_iff.mp hmore with ⟨u, rfl, -⟩ | ⟨u, hu, hrest⟩
  · exact hword (List.prefix_append _ u)
  · -- Here `u` is an end of the word, and it begins the next one.
    have hlength : 5 = t.length + u.length := by
      rw [← List.length_append, ← hu]
      rfl
    have hlead : u <+: "alias".toList :=
      List.prefix_of_prefix_length_le ⟨more, hrest.symm⟩ (List.prefix_append _ rest)
        (by change u.length ≤ 5; omega)
    have hdrop : "alias".toList.drop t.length = u := by rw [hu, List.drop_left]
    have hshort : t.length < 5 := by
      refine Nat.lt_of_not_le fun hlong => hword ?_
      have hnil : u = [] := List.length_eq_zero_iff.mp (by omega)
      exact ⟨[], by rw [List.append_nil, hu, hnil, List.append_nil]⟩
    exact hborder t.length hshort (by simpa using ht) (hdrop ▸ hlead)

/-- The first block of a source is the one after a text without the word. -/
theorem find?_aliasBlock_written {before : List Char} (h : ¬ "alias".toList <:+: before)
    (beforeColon afterColon : Blanks) (l : Listing BlockEntry) (after : List Char) :
    aliasBlock.find? (before ++ blockText beforeColon afterColon l after) =
      some (l.written BlockEntry.written) := by
  have hfound : aliasBlock.find? (blockText beforeColon afterColon l after) =
      some (l.written BlockEntry.written) :=
    Pattern.find?_of_some (aliasBlock_written beforeColon afterColon l after)
  have hskip : aliasBlock.findAll (before ++ blockText beforeColon afterColon l after) =
      aliasBlock.findAll (blockText beforeColon afterColon l after) :=
    aliasBlock_blind.findAll_append_of_none fun t ht hsuffix =>
      aliasBlock_of_no_lead (not_lead_of_no_word h ht hsuffix)
  rw [← hfound, Pattern.find?, hskip]
  rfl

/-- **Alias blocks are read back.**  In a source with a block, before which the word does not occur,
the entries of the block are found in their order, with the keys without wildcard and the
directories without `./`.  A key that is repeated has its first place and its last value. -/
theorem alias_block_read_back {before : List Char} (h : ¬ "alias".toList <:+: before)
    (beforeColon afterColon : Blanks) (l : Listing BlockEntry) (after : List Char) :
    let table := bundlerBlock (String.ofList (before ++ blockText beforeColon afterColon l after))
    let pairs := l.items.filterMap fun item => item.1.pair?
    table = Table.ofList pairs ∧
      table.keys = addNames [] (pairs.map Prod.fst) ∧
      ∀ key, table.find? key = Table.find? pairs.reverse key := by
  intro table pairs
  have htable : table = Table.ofList pairs := by
    have hitems := filterMap_findAll_items fun item hitem => by
      simpa using List.all_eq_true.mp l.separated item hitem
    simp only [table, bundlerBlock, String.toList_ofList, find?_aliasBlock_written h]
    rw [Listing.written, findAll_aliasEntry_of_no_quote l.opening.no_quote, hitems]
  exact ⟨htable, by rw [htable, Table.keys_ofList], fun key => by rw [htable, Table.find?_ofList]⟩

/-- A block with both kinds of values, a key that is repeated and a comma at its end. -/
def bundledAliases : Listing BlockEntry where
  opening := ⟨['\n', ' '], rfl⟩
  items :=
    [({ key := ⟨'\'', "@styles/*".toList, rfl, rfl⟩
        key_ne_nil := by decide
        beforeColon := ⟨[], rfl⟩
        afterColon := ⟨[' '], rfl⟩
        value := .call "path.resolve".toList rfl
          { opening := ⟨[], rfl⟩
            items :=
              [(.name "__dirname".toList rfl, ⟨[',', '\n'], rfl⟩),
                (.quoted ⟨'"', "src, old".toList, rfl, rfl⟩ rfl, ⟨[','], rfl⟩),
                (.quoted ⟨'\'', "./styles".toList, rfl, rfl⟩ rfl, ⟨[], rfl⟩)]
            separated := rfl } }, ⟨[',', '\n'], rfl⟩),
      ({ key := ⟨'"', "~".toList, rfl, rfl⟩
         key_ne_nil := by decide
         beforeColon := ⟨[' '], rfl⟩
         afterColon := ⟨[], rfl⟩
         value := .directory ⟨'"', "./src".toList, rfl, rfl⟩ rfl }, ⟨[' ', ','], rfl⟩),
      ({ key := ⟨'\'', "@styles".toList, rfl, rfl⟩
         key_ne_nil := by decide
         beforeColon := ⟨[], rfl⟩
         afterColon := ⟨['\n'], rfl⟩
         value := .directory ⟨'\'', "theme".toList, rfl, rfl⟩ rfl }, ⟨[',', '\n'], rfl⟩)]
  separated := rfl

/-- The first key has a wildcard and is repeated without it. -/
theorem alias_block_read_back_bundled :
    let source := "resolve: \x7b alias: \x7b\n '@styles/*': path.resolve(__dirname,\n\"src, old\"," ++
      "'./styles'),\n\"~\" :\"./src\" ,'@styles':\n'theme',\n\x7d\x7d"
    ¬ "alias".toList <:+: "resolve: \x7b ".toList ∧
      bundlerBlock source = [("@styles", "theme"), ("~", "src")] ∧
      (bundlerBlock source).keys = ["@styles", "~"] ∧
      (bundlerBlock source).find? "@styles" = some "theme" := by
  intro source
  have hbefore : ¬ "alias".toList <:+: "resolve: \x7b ".toList := fun h =>
    absurd (h.subset (by decide : 'a' ∈ "alias".toList)) (by decide)
  have hsource : source = String.ofList ("resolve: \x7b ".toList ++
      blockText ⟨[], rfl⟩ ⟨[' '], rfl⟩ bundledAliases ['}']) := by decide +kernel
  obtain ⟨htable, hkeys, hfind⟩ :=
    alias_block_read_back hbefore ⟨[], rfl⟩ ⟨[' '], rfl⟩ bundledAliases ['}']
  rw [hsource]
  refine ⟨hbefore, htable.trans ?_, hkeys.trans ?_, (hfind "@styles").trans ?_⟩
  · decide +kernel
  · decide +kernel
  · decide +kernel

end StyleAudit.Alias
