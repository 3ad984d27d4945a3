import Mathlib.Data.List.Chain
import StyleAudit.Proofs.Json.Stripping

/-!
# Layouts of a list of lexemes

A `Spacing` writes lexemes with spaces between them, as JSON allows.  A `Layout` may also have
comments between them and a comma before a closing bracket.  Without its comments and last commas a
layout is a spacing of the same lexemes.

* `Layout.stripped`: what is left of a layout is its `spacing`, if no comma among its lexemes stands
  before a closing bracket.
* `Spacing.stripped`: a spacing stays as it is.
* `Spacing.tokens_text`: the tokens of a spacing are those of its lexemes, if no number follows
  another.
-/

namespace StyleAudit.Json

open StyleAudit.Text

/-- A character that JSON allows between tokens. -/
abbrev Space := { c : Char // isSpace c = true }

namespace Space

def blank : Space := ⟨' ', rfl⟩

def tab : Space := ⟨'\t', rfl⟩

def lineEnd : Space := ⟨'\n', rfl⟩

@[simp] theorem val_blank : blank.val = ' ' := rfl

@[simp] theorem val_lineEnd : lineEnd.val = '\n' := rfl

end Space

def spaceText (spaces : List Space) : List Char :=
  spaces.map Subtype.val

/-- What may stand between tokens, beside a comma. -/
inductive Trivium where
  | space (c : Space)
  | line (content : List Char) (ends : '\n' ∉ content)
  | block (content : List Char) (ends : ¬ ['*', '/'] <:+: content)

namespace Trivium

def text : Trivium → List Char
  | .space c => [c.val]
  | .line content _ => '/' :: '/' :: (content ++ ['\n'])
  | .block content _ => '/' :: '*' :: (content ++ ['*', '/'])

/-- What is left without the comment. -/
def spaces : Trivium → List Space
  | .space c => [c]
  | .line _ _ => [.lineEnd]
  | .block _ _ => []

end Trivium

def gapText (gap : List Trivium) : List Char :=
  gap.flatMap Trivium.text

def gapSpaces (gap : List Trivium) : List Space :=
  gap.flatMap Trivium.spaces

/-! ### Spacings -/

/-- A lexeme with the spaces before it. -/
structure Spaced where
  spaces : List Space
  lexeme : Lexeme

def Spaced.text (w : Spaced) : List Char :=
  spaceText w.spaces ++ w.lexeme.text

/-- Lexemes with spaces before, between and after them. -/
structure Spacing where
  items : List Spaced
  last : List Space

namespace Spacing

def lexemes (s : Spacing) : List Lexeme :=
  s.items.map Spaced.lexeme

def text (s : Spacing) : List Char :=
  s.items.flatMap Spaced.text ++ spaceText s.last

end Spacing

/-! ### Layouts -/

/-- A lexeme with the gap before it.  A closing bracket may also have a comma before that gap, with
a gap of its own. -/
structure Dressed where
  lexeme : Lexeme
  gap : List Trivium := []
  comma? : Option (List Trivium) := none
  comma_closes : comma?.isSome = true → lexeme.isCloser = true := by simp

namespace Dressed

def text (d : Dressed) : List Char :=
  match d.comma? with
  | none => gapText d.gap ++ d.lexeme.text
  | some before => gapText before ++ ',' :: (gapText d.gap ++ d.lexeme.text)

/-- The text without comments. -/
def bareText (d : Dressed) : List Char :=
  match d.comma? with
  | none => spaceText (gapSpaces d.gap) ++ d.lexeme.text
  | some before =>
    spaceText (gapSpaces before) ++ ',' :: (spaceText (gapSpaces d.gap) ++ d.lexeme.text)

/-- The lexeme with the spaces that are left before it. -/
def spaced (d : Dressed) : Spaced :=
  ⟨gapSpaces (d.comma?.getD []) ++ gapSpaces d.gap, d.lexeme⟩

end Dressed

/-- Lexemes with gaps before, between and after them.  The last comment may go to the end of the
text. -/
structure Layout where
  items : List Dressed
  last : List Trivium := []
  unended? : Option { content : List Char // '\n' ∉ content } := none

namespace Layout

def lexemes (l : Layout) : List Lexeme :=
  l.items.map Dressed.lexeme

def text (l : Layout) : List Char :=
  l.items.flatMap Dressed.text ++ (gapText l.last ++
    match l.unended? with
    | none => []
    | some content => '/' :: '/' :: content.val)

/-- The text without comments. -/
def bareText (l : Layout) : List Char :=
  l.items.flatMap Dressed.bareText ++ spaceText (gapSpaces l.last)

/-- The same lexemes with the spaces that are left between them. -/
def spacing (l : Layout) : Spacing :=
  ⟨l.items.map Dressed.spaced, gapSpaces l.last⟩

theorem lexemes_spacing (l : Layout) : l.spacing.lexemes = l.lexemes := by
  simp [spacing, Spacing.lexemes, lexemes, Dressed.spaced]

end Layout

@[simp] theorem gapText_map_space (spaces : List Space) :
    gapText (spaces.map .space) = spaceText spaces := by
  simp [gapText, spaceText, List.flatMap_map, Trivium.text, ← List.map_eq_flatMap]

@[simp] theorem gapSpaces_map_space (spaces : List Space) :
    gapSpaces (spaces.map .space) = spaces := by
  simp [gapSpaces, List.flatMap_map, Trivium.spaces]

namespace Spaced

def dressed (w : Spaced) : Dressed :=
  { lexeme := w.lexeme, gap := w.spaces.map .space }

@[simp] theorem text_dressed (w : Spaced) : w.dressed.text = w.text := by
  simp [dressed, Dressed.text, text]

@[simp] theorem spaced_dressed (w : Spaced) : w.dressed.spaced = w := by
  simp [dressed, Dressed.spaced]
  rfl

end Spaced

namespace Spacing

/-- A spacing is a layout without comments and last commas. -/
def layout (s : Spacing) : Layout :=
  { items := s.items.map Spaced.dressed, last := s.last.map .space }

theorem text_layout (s : Spacing) : s.layout.text = s.text := by
  simp [layout, Layout.text, text, List.flatMap_map]

theorem spacing_layout (s : Spacing) : s.layout.spacing = s := by
  have hitems : Dressed.spaced ∘ Spaced.dressed = id := funext Spaced.spaced_dressed
  simp [layout, Layout.spacing, hitems]

end Spacing

/-! ### Without comments -/

theorem withoutComments_trivium (t : Trivium) (rest : List Char) :
    withoutComments (t.text ++ rest) = spaceText t.spaces ++ withoutComments rest := by
  cases t with
  | space c =>
    have hc : c.val ≠ '"' ∧ c.val ≠ '/' := by
      constructor <;> intro h <;> exact absurd c.property (by rw [h]; decide)
    exact withoutComments_plain hc.1 hc.2 rest
  | line content ends =>
    simpa [Trivium.text, Trivium.spaces, spaceText] using withoutComments_line ends rest
  | block content ends =>
    simpa [Trivium.text, Trivium.spaces, spaceText] using withoutComments_block ends rest

theorem withoutComments_gap (gap : List Trivium) (rest : List Char) :
    withoutComments (gapText gap ++ rest) = spaceText (gapSpaces gap) ++ withoutComments rest := by
  induction gap with
  | nil => rfl
  | cons t gap ih =>
    have htext : gapText (t :: gap) = t.text ++ gapText gap := List.flatMap_cons
    have hspaces : spaceText (gapSpaces (t :: gap)) =
        spaceText t.spaces ++ spaceText (gapSpaces gap) := by
      simp [spaceText, gapSpaces]
    rw [htext, List.append_assoc, withoutComments_trivium, ih, hspaces, List.append_assoc]

theorem withoutComments_dressed (d : Dressed) (rest : List Char) :
    withoutComments (d.text ++ rest) = d.bareText ++ withoutComments rest := by
  rw [Dressed.text, Dressed.bareText]
  split
  · rw [List.append_assoc, withoutComments_gap, withoutComments_lexeme, List.append_assoc]
  · rw [List.append_assoc, List.cons_append, List.append_assoc, withoutComments_gap,
      withoutComments_plain (by decide) (by decide), withoutComments_gap, withoutComments_lexeme,
      List.append_assoc, List.cons_append, List.append_assoc]

theorem Layout.withoutComments_text (l : Layout) : withoutComments l.text = l.bareText := by
  have hitems : ∀ (items : List Dressed) (rest : List Char),
      withoutComments (items.flatMap Dressed.text ++ rest) =
        items.flatMap Dressed.bareText ++ withoutComments rest := by
    intro items rest
    induction items with
    | nil => rfl
    | cons d items ih =>
      rw [List.flatMap_cons, List.flatMap_cons, List.append_assoc, withoutComments_dressed, ih,
        List.append_assoc]
  rw [text, bareText, hitems, withoutComments_gap]
  split
  · rw [withoutComments_nil, List.append_nil]
  · rename_i content _
    rw [withoutComments_open content.property, List.append_nil]

/-! ### Without last commas -/

/-- A comma does not stand before a closing bracket. -/
def Lexeme.CommaFits (x y : Lexeme) : Prop :=
  x = .comma → y.isCloser = false

theorem isBlank_of_isSpace {c : Char} (h : isSpace c = true) : isBlank c = true := by
  simp only [isSpace, Bool.or_eq_true, beq_iff_eq] at h
  rcases h with ((rfl | rfl) | rfl) | rfl <;> decide

theorem isBlank_of_mem_spaceText {spaces : List Space} :
    ∀ c ∈ spaceText spaces, isBlank c = true := by
  intro c hc
  obtain ⟨s, -, rfl⟩ := List.mem_map.mp hc
  exact isBlank_of_isSpace s.property

theorem withoutLastCommas_spaces (spaces : List Space) (rest : List Char) :
    withoutLastCommas (spaceText spaces ++ rest) = spaceText spaces ++ withoutLastCommas rest := by
  refine withoutLastCommas_plain_append (fun c hc => ?_) rest
  have hblank := isBlank_of_mem_spaceText c hc
  constructor <;> rintro rfl <;> exact absurd hblank (by decide)

theorem noCloser_spaces (spaces : List Space) {rest : List Char} (h : NoCloser rest) :
    NoCloser (spaceText spaces ++ rest) := by
  rwa [NoCloser, List.dropWhile_append_of_pos isBlank_of_mem_spaceText]

theorem noCloser_lexeme {x : Lexeme} (hx : x.isCloser = false) (rest : List Char) :
    NoCloser (x.text ++ rest) := by
  obtain ⟨c, cs, htext, -⟩ := x.exists_text
  obtain ⟨-, hblank, hcloser, -⟩ := Lexeme.head_facts htext
  intro d hd
  rw [htext, List.cons_append, List.dropWhile_cons_of_neg (by simp [hblank])] at hd
  obtain rfl : c = d := by simpa using hd
  rw [hcloser, hx]

theorem Lexeme.text_of_isCloser {x : Lexeme} (h : x.isCloser = true) :
    ∃ c, x.text = [c] ∧ (c == '}' || c == ']') = true := by
  cases x with
  | endObject => exact ⟨'}', rfl, rfl⟩
  | endArray => exact ⟨']', rfl, rfl⟩
  | _ => cases h

theorem withoutLastCommas_dressed (d : Dressed) {rest : List Char}
    (h : d.lexeme = .comma → NoCloser rest) :
    withoutLastCommas (d.bareText ++ rest) = d.spaced.text ++ withoutLastCommas rest := by
  rw [Dressed.bareText, Dressed.spaced, Spaced.text]
  split
  · rename_i hcomma
    rw [hcomma, List.append_assoc, withoutLastCommas_spaces, withoutLastCommas_lexeme _ h,
      List.append_assoc]
    rfl
  · rename_i before hcomma
    obtain ⟨c, htext, hc⟩ := Lexeme.text_of_isCloser (d.comma_closes (by rw [hcomma]; rfl))
    have hdropped := withoutLastCommas_dropped
      (@isBlank_of_mem_spaceText (gapSpaces d.gap)) hc rest
    rw [hcomma, htext, List.append_assoc, withoutLastCommas_spaces, List.cons_append,
      List.append_assoc, List.singleton_append, hdropped]
    simp [spaceText]

theorem noCloser_items {items : List Dressed} {last : List Space}
    (h : ∀ d ∈ items.head?, d.lexeme.isCloser = false) :
    NoCloser (items.flatMap Dressed.bareText ++ spaceText last) := by
  cases items with
  | nil =>
    have hend : NoCloser [] := fun c hc => by cases hc
    simpa using noCloser_spaces last hend
  | cons d items =>
    have hd : d.lexeme.isCloser = false := h d rfl
    have hcomma : d.comma? = none := by
      cases hsome : d.comma? with
      | none => rfl
      | some before =>
        have hcloses := d.comma_closes (by rw [hsome]; rfl)
        rw [hd] at hcloses
        cases hcloses
    rw [List.flatMap_cons, Dressed.bareText, hcomma, List.append_assoc, List.append_assoc]
    exact noCloser_spaces _ (noCloser_lexeme hd _)

theorem Layout.withoutLastCommas_bareText (l : Layout)
    (h : l.lexemes.IsChain Lexeme.CommaFits) : withoutLastCommas l.bareText = l.spacing.text := by
  obtain ⟨items, last, _⟩ := l
  simp only [lexemes, bareText, spacing, Spacing.text] at h ⊢
  induction items with
  | nil => simpa using withoutLastCommas_spaces (gapSpaces last) []
  | cons d items ih =>
    rw [List.map_cons, List.isChain_cons] at h
    have hnext : d.lexeme = .comma →
        NoCloser (items.flatMap Dressed.bareText ++ spaceText (gapSpaces last)) := by
      intro hcomma
      refine noCloser_items fun e he => h.1 e.lexeme ?_ hcomma
      simpa [List.head?_map] using ⟨e, he, rfl⟩
    rw [List.flatMap_cons, List.append_assoc, withoutLastCommas_dressed d hnext, ih h.2,
      List.map_cons, List.flatMap_cons, List.append_assoc]

/-- **A layout without its comments and last commas is a spacing of its lexemes.** -/
theorem Layout.stripped (l : Layout) (h : l.lexemes.IsChain Lexeme.CommaFits) :
    withoutLastCommas (withoutComments l.text) = l.spacing.text := by
  rw [l.withoutComments_text, l.withoutLastCommas_bareText h]

/-- A spacing has neither comments nor last commas. -/
theorem Spacing.stripped (s : Spacing) (h : s.lexemes.IsChain Lexeme.CommaFits) :
    withoutLastCommas (withoutComments s.text) = s.text := by
  have hlayout := s.layout.stripped (by rwa [← Layout.lexemes_spacing, s.spacing_layout])
  rwa [s.text_layout, s.spacing_layout] at hlayout

/-! ### The tokens of a spacing -/

/-- A number does not stand before a number. -/
def Lexeme.NumberFits (x y : Lexeme) : Prop :=
  x.isNumber = true → y.isNumber = false

theorem tokensFrom_skip (position : Nat) (front cs : List Char) :
    tokensFrom front.length position (front ++ cs) =
      tokensFrom 0 (position + front.length) cs := by
  induction front generalizing position with
  | nil => rfl
  | cons c front ih =>
    have hposition : position + 1 + front.length = position + (front.length + 1) := by omega
    rw [List.cons_append, List.length_cons, tokensFrom, ih, hposition]

theorem tokensFrom_spaces (position : Nat) (spaces : List Space) (cs : List Char) :
    tokensFrom 0 position (spaceText spaces ++ cs) =
      tokensFrom 0 (position + spaces.length) cs := by
  induction spaces generalizing position with
  | nil => rfl
  | cons c spaces ih =>
    have hposition : position + 1 + spaces.length = position + (spaces.length + 1) := by omega
    have htext : spaceText (c :: spaces) = c.val :: spaceText spaces := rfl
    rw [htext, List.cons_append, tokensFrom, if_pos c.property, ih, List.length_cons, hposition]

theorem not_isSpace_of_not_isBlank {c : Char} (h : isBlank c = false) : isSpace c = false := by
  by_contra hspace
  rw [isBlank_of_isSpace (by simpa using hspace)] at h
  cases h

theorem tokensFrom_lexeme (position : Nat) (x : Lexeme) {rest : List Char}
    (h : x.isNumber = true → Stops rest) :
    tokensFrom 0 position (x.text ++ rest) =
      ⟨position, x.token⟩ :: tokensFrom 0 (position + x.text.length) rest := by
  obtain ⟨c, cs, htext, hread⟩ := x.exists_text
  have hspace := not_isSpace_of_not_isBlank (Lexeme.head_facts htext).2.1
  have hposition : position + 1 + cs.length = position + (cs.length + 1) := by omega
  rw [htext, List.cons_append, tokensFrom, hspace, if_neg (by decide)]
  simp only [hread position rest h, tokensFrom_skip, List.length_cons, hposition]

theorem stops_spaces (spaces : List Space) {rest : List Char} (h : Stops rest) :
    Stops (spaceText spaces ++ rest) := by
  cases spaces with
  | nil => exact h
  | cons s spaces =>
    intro c hc
    obtain rfl : s.val = c := by simpa [spaceText] using hc
    have hs := s.property
    simp only [isSpace, Bool.or_eq_true, beq_iff_eq] at hs
    rcases hs with ((hs | hs) | hs) | hs <;> rw [hs] <;> decide

theorem stops_lexeme {x : Lexeme} (hx : x.isNumber = false) (rest : List Char) :
    Stops (x.text ++ rest) := by
  obtain ⟨c, cs, htext, -⟩ := x.exists_text
  intro d hd
  rw [htext] at hd
  obtain rfl : c = d := by simpa using hd
  exact (Lexeme.head_facts htext).2.2.2 hx

theorem stops_items {items : List Spaced} {last : List Space}
    (h : ∀ w ∈ items.head?, w.lexeme.isNumber = false) :
    Stops (items.flatMap Spaced.text ++ spaceText last) := by
  cases items with
  | nil => simpa using stops_spaces last stops_nil
  | cons w items =>
    rw [List.flatMap_cons, Spaced.text, List.append_assoc, List.append_assoc]
    exact stops_spaces _ (stops_lexeme (h w rfl) _)

theorem tokensFrom_items (items : List Spaced) (last : List Space) (position : Nat)
    (h : (items.map Spaced.lexeme).IsChain Lexeme.NumberFits) :
    (tokensFrom 0 position (items.flatMap Spaced.text ++ spaceText last)).map Located.token =
      items.map (fun w => w.lexeme.token) ++ [.ending] := by
  induction items generalizing position with
  | nil =>
    have hspaces := tokensFrom_spaces position last []
    rw [List.append_nil] at hspaces
    rw [List.flatMap_nil, List.nil_append, hspaces]
    rfl
  | cons w items ih =>
    rw [List.map_cons, List.isChain_cons] at h
    have hnext : w.lexeme.isNumber = true →
        Stops (items.flatMap Spaced.text ++ spaceText last) := by
      intro hnumber
      refine stops_items fun v hv => h.1 v.lexeme ?_ hnumber
      simpa [List.head?_map] using ⟨v, hv, rfl⟩
    rw [List.flatMap_cons, Spaced.text, List.append_assoc, List.append_assoc, tokensFrom_spaces,
      tokensFrom_lexeme _ _ hnext, List.map_cons, ih _ h.2]
    rfl

/-- **The tokens of a spacing are those of its lexemes.** -/
theorem Spacing.tokens_text (s : Spacing) (h : s.lexemes.IsChain Lexeme.NumberFits) :
    (tokens s.text).map Located.token = s.lexemes.map Lexeme.token ++ [.ending] := by
  rw [tokens, text, tokensFrom_items s.items s.last 0 h, lexemes, List.map_map]
  rfl

end StyleAudit.Json
