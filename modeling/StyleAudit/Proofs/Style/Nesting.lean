import Mathlib.Data.List.Basic
import StyleAudit.Style.Lexeme
import StyleAudit.Style.Selector

/-!
# Nested rules

Stylesheets as trees of rules, one selector a rule.  A selector is a chain of classes, or inside
another rule a suffix to the class of that rule.  A tree holds its blanks too, so that it has one
text (`Stylesheet.text`), and names, suffixes and blanks are well formed by their types.

A tree names classes in two ways.

* `Stylesheet.names`: a suffix lengthens the *first* class of the chain that it stands in.
* `Stylesheet.expansions`: what a preprocessor writes, where a nested chain follows the selector
  around it and a suffix lengthens the *last* class of that selector.

The two agree if every chain that suffixes stand in begins with the class that it ends with
(`Stylesheet.mem_names_iff`).  The names of the selector around a rule are among those of the tree
already, so the induction compares names up to those (`Item.mem_names_or`).
-/

namespace StyleAudit.Style.Nested

/-! ### Names, suffixes and blanks -/

/-- A run of blanks, which may be empty. -/
structure Blank where
  chars : List Char
  spaces : chars.all isSpace = true

/-- A blank that is not empty. -/
structure Gap where
  chars : List Char
  spaces : chars.all isSpace = true
  nonempty : chars ≠ []

structure ClassName where
  chars : List Char
  run : chars.all isClassChar = true
  named : isClassName chars = true
deriving DecidableEq

def ClassName.name (n : ClassName) : String :=
  String.ofList n.chars

theorem ClassName.chars_ne_nil (n : ClassName) : n.chars ≠ [] := by
  intro h
  have hnamed := n.named
  rw [h] at hnamed
  cases hnamed

/-- The unit of a quantity looks like a power of ten without its digits. -/
def isBarePower : List Char → Bool
  | [] => false
  | c :: cs => (c == 'e' || c == 'E') && (cs.isEmpty || cs.head? == some '-')

/-- What may stand right after a number in a name: nothing, a last hyphen, or a unit. -/
def attaches (cs : List Char) : Bool :=
  cs.isEmpty || cs == ['-'] || startsIdent cs && !isBarePower cs

/-- A number at the front of the text, if there is one, has nothing after it but what attaches. -/
def staysWhole (cs : List Char) : Bool :=
  (number? cs).all fun number => attaches (cs.drop number.length)

/-- An underscore, or a hyphen and at least one more character. -/
def leadsSuffix : List Char → Bool
  | '_' :: _ => true
  | '-' :: _ :: _ => true
  | _ => false

/-- What `&` may be followed by to lengthen a class. -/
structure Suffix where
  chars : List Char
  run : chars.all isClassChar = true
  leads : leadsSuffix chars = true
  whole : staysWhole chars = true

theorem isClassName_append {cs : List Char} (h : isClassName cs = true) (more : List Char) :
    isClassName (cs ++ more) = true := by
  match cs, h with
  | [c], h =>
    -- a hyphen alone is no name, so the second character is not looked at
    have hc : c ≠ '-' := by rintro rfl; cases h
    cases more <;> simpa [isClassName, hc] using h
  | c :: d :: cs, h =>
    by_cases hc : c = '-'
    · subst hc; exact h
    · simpa [isClassName, hc] using h

theorem ClassName.run_append (n : ClassName) (s : Suffix) :
    (n.chars ++ s.chars).all isClassChar = true := by
  rw [List.all_append, n.run, s.run, Bool.and_self]

/-- The class that a suffix makes of a class. -/
def ClassName.lengthen (n : ClassName) (s : Suffix) : ClassName :=
  ⟨n.chars ++ s.chars, n.run_append s, isClassName_append n.named s.chars⟩

theorem ClassName.name_lengthen (n : ClassName) (s : Suffix) :
    (n.lengthen s).name = n.name ++ String.ofList s.chars :=
  String.ofList_append

/-! ### Chains -/

/-- How a class is tied to the next one of its chain. -/
inductive Link where
  /-- Both are classes of one element. -/
  | same
  /-- The next class is that of a descendant. -/
  | below (gap : Gap)

def Link.text : Link → List Char
  | .same => []
  | .below gap => gap.chars

/-- A class of a chain with the link to the next one. -/
def partText (part : ClassName × Link) : List Char :=
  '.' :: part.1.chars ++ part.2.text

/-- A descendant chain of compound selectors: its last class, and those before it, each with the
link to the next. -/
structure Chain where
  before : List (ClassName × Link)
  last : ClassName

namespace Chain

def names (c : Chain) : List ClassName :=
  c.before.map Prod.fst ++ [c.last]

def first (c : Chain) : ClassName :=
  (c.before.head?.map Prod.fst).getD c.last

def text (c : Chain) : List Char :=
  c.before.flatMap partText ++ '.' :: c.last.chars

theorem all_isSpace_single : [' '].all isSpace = true := by decide

/-- The chain with another one below it. -/
def descend (c d : Chain) : Chain :=
  ⟨c.before ++ (c.last, .below ⟨[' '], all_isSpace_single, List.cons_ne_nil _ _⟩) :: d.before,
    d.last⟩

/-- The chain with its last class lengthened. -/
def lengthen (c : Chain) (s : Suffix) : Chain :=
  { c with last := c.last.lengthen s }

theorem head?_names (c : Chain) : c.names.head? = some c.first := by
  rw [names, first]
  cases c.before <;> rfl

theorem exists_text (c : Chain) : ∃ cs, c.text = '.' :: cs := by
  rw [text]
  cases c.before with
  | nil => exact ⟨c.last.chars, rfl⟩
  | cons part parts => exact ⟨_, rfl⟩

theorem mem_names {c : Chain} {x : ClassName} :
    x ∈ c.names ↔ x ∈ c.before.map Prod.fst ∨ x = c.last := by
  rw [names, List.mem_append, List.mem_singleton]

theorem mem_names_descend {c d : Chain} {x : ClassName} :
    x ∈ (c.descend d).names ↔ x ∈ c.names ∨ x ∈ d.names := by
  simp only [mem_names, descend, List.map_append, List.map_cons, List.mem_append, List.mem_cons]
  tauto

theorem mem_names_lengthen {c : Chain} {s : Suffix} {x : ClassName} :
    x ∈ (c.lengthen s).names ∨ x ∈ c.names ↔ x = c.last.lengthen s ∨ x ∈ c.names := by
  simp only [mem_names, lengthen]
  tauto

end Chain

/-! ### Rules -/

inductive Selector where
  | chain (chain : Chain)
  | suffix (suffix : Suffix)

namespace Selector

def isSuffix : Selector → Bool
  | .chain _ => false
  | .suffix _ => true

def text : Selector → List Char
  | .chain c => c.text
  | .suffix s => '&' :: s.chars

/-- The class for the suffixes inside, in a rule for the suffixes to `outer`. -/
def anchor (outer : ClassName) : Selector → ClassName
  | .chain c => c.first
  | .suffix s => outer.lengthen s

/-- The classes that the selector names. -/
def names (outer : ClassName) : Selector → List ClassName
  | .chain c => c.names
  | .suffix s => [outer.lengthen s]

/-- The selector that a preprocessor writes inside a rule whose own is `outer`. -/
def expand (outer : Chain) : Selector → Chain
  | .chain c => outer.descend c
  | .suffix s => outer.lengthen s

/-- The class for the suffixes inside is the last one. -/
def isSteady : Selector → Bool
  | .chain c => c.first = c.last
  | .suffix _ => true

theorem anchor_eq_last {sel : Selector} (h : sel.isSteady = true) {outer : Chain}
    {anchor : ClassName} (hlast : sel.isSuffix = true → outer.last = anchor) :
    (sel.expand outer).last = sel.anchor anchor := by
  cases sel with
  | chain c => exact (of_decide_eq_true h).symm
  | suffix s => exact congrArg (ClassName.lengthen · s) (hlast rfl)

/-- Beside the names of the selector around it, the expansion names what the selector names. -/
theorem mem_names_expand {sel : Selector} {outer : Chain} {anchor : ClassName}
    (hlast : sel.isSuffix = true → outer.last = anchor) {x : ClassName} :
    x ∈ (sel.expand outer).names ∨ x ∈ outer.names ↔ x ∈ sel.names anchor ∨ x ∈ outer.names := by
  cases sel with
  | chain c =>
    rw [expand, names, Chain.mem_names_descend]
    tauto
  | suffix s =>
    rw [expand, names, Chain.mem_names_lengthen, hlast rfl, List.mem_singleton]

end Selector

/-- The characters of a declaration, which give no bracket, string, comment or at-rule. -/
def isPlain (c : Char) : Bool :=
  isClassChar c || isSpace c || [':', '.', ',', '%', '#', '!'].contains c

/-- What stands before a semicolon, without the blank before it. -/
structure Statement where
  chars : List Char
  plain : chars.all isPlain = true
  starts : chars.head?.all (! isSpace ·) = true

/-- A rule or a declaration, with the blanks in it and after it. -/
inductive Item where
  | rule (selector : Selector) (before inner : Blank) (body : List Item) (after : Blank)
  | declaration (statement : Statement) (after : Blank)

/-- A rule that stands in no other one. -/
structure Block where
  chain : Chain
  before : Blank
  inner : Blank
  body : List Item
  after : Blank

def Block.item (b : Block) : Item :=
  .rule (.chain b.chain) b.before b.inner b.body b.after

structure Stylesheet where
  lead : Blank
  blocks : List Block

/-- The item is a rule whose selector is a suffix. -/
def Item.isSuffix : Item → Bool
  | .rule sel _ _ _ _ => sel.isSuffix
  | .declaration _ _ => false

mutual

def Item.text : Item → List Char
  | .rule sel before inner body after =>
    sel.text ++ before.chars ++ '{' :: (inner.chars ++ textOf body ++ ['}']) ++ after.chars
  | .declaration statement after => statement.chars ++ [';'] ++ after.chars

def textOf : List Item → List Char
  | [] => []
  | item :: items => item.text ++ textOf items

end

def Stylesheet.text (sheet : Stylesheet) : List Char :=
  sheet.lead.chars ++ textOf (sheet.blocks.map Block.item)

/-! ### The classes of a tree -/

mutual

/-- The classes that an item names in a rule for the suffixes to `outer`. -/
def Item.names (outer : ClassName) : Item → List ClassName
  | .rule sel _ _ body _ => sel.names outer ++ namesOf (sel.anchor outer) body
  | .declaration _ _ => []

def namesOf (outer : ClassName) : List Item → List ClassName
  | [] => []
  | item :: items => item.names outer ++ namesOf outer items

end

def Stylesheet.names (sheet : Stylesheet) : List ClassName :=
  sheet.blocks.flatMap fun b => b.chain.names ++ namesOf b.chain.first b.body

mutual

/-- The selectors that a preprocessor writes for an item in a rule whose own selector is `outer`. -/
def Item.expansions (outer : Chain) : Item → List Chain
  | .rule sel _ _ body _ => sel.expand outer :: expansionsOf (sel.expand outer) body
  | .declaration _ _ => []

def expansionsOf (outer : Chain) : List Item → List Chain
  | [] => []
  | item :: items => item.expansions outer ++ expansionsOf outer items

end

def Stylesheet.expansions (sheet : Stylesheet) : List Chain :=
  sheet.blocks.flatMap fun b => b.chain :: expansionsOf b.chain b.body

mutual

/-- Each chain with a suffix right inside its rule begins with the class that it ends with. -/
def Item.isAnchored : Item → Bool
  | .rule sel _ _ body _ => (sel.isSteady || !body.any Item.isSuffix) && allAnchored body
  | .declaration _ _ => true

def allAnchored : List Item → Bool
  | [] => true
  | item :: items => item.isAnchored && allAnchored items

end

def Stylesheet.isAnchored (sheet : Stylesheet) : Bool :=
  sheet.blocks.all fun b => b.item.isAnchored

/-! ### Names and expansions -/

theorem last_eq_of_isSteady_or {sel : Selector} {body : List Item} {chain : Chain}
    {anchor : ClassName} (h : (sel.isSteady || !body.any Item.isSuffix) = true)
    (hsteady : sel.isSteady = true → chain.last = anchor) :
    ∀ item ∈ body, item.isSuffix = true → chain.last = anchor := by
  intro item hitem hsuffix
  rcases Bool.or_eq_true_iff.mp h with h | h
  · exact hsteady h
  · rw [Bool.not_eq_true', List.any_eq_false] at h
    exact absurd hsuffix (h item hitem)

mutual

/-- An item names the same classes as its expansions, up to those of the selector around it. -/
theorem Item.mem_names_or : ∀ (item : Item) {outer : Chain} {anchor : ClassName},
    item.isAnchored = true → (item.isSuffix = true → outer.last = anchor) → ∀ x : ClassName,
      x ∈ (item.expansions outer).flatMap Chain.names ∨ x ∈ outer.names ↔
        x ∈ item.names anchor ∨ x ∈ outer.names
  | .declaration _ _, _, _, _, _, _ => Iff.rfl
  | .rule sel _ _ body _, outer, anchor, h, hlast, x => by
    rw [Item.isAnchored, Bool.and_eq_true] at h
    have hbody := mem_namesOf_or body h.2
      (last_eq_of_isSteady_or h.1 fun hs => Selector.anchor_eq_last hs hlast) x
    have hself := Selector.mem_names_expand hlast (x := x)
    rw [Item.expansions, Item.names, List.flatMap_cons, List.mem_append, List.mem_append,
      or_comm (a := x ∈ (sel.expand outer).names), hbody, or_assoc, hself, or_left_comm, or_assoc]

theorem mem_namesOf_or : ∀ (items : List Item) {outer : Chain} {anchor : ClassName},
    allAnchored items = true → (∀ item ∈ items, item.isSuffix = true → outer.last = anchor) →
    ∀ x : ClassName, x ∈ (expansionsOf outer items).flatMap Chain.names ∨ x ∈ outer.names ↔
      x ∈ namesOf anchor items ∨ x ∈ outer.names
  | [], _, _, _, _, _ => Iff.rfl
  | item :: items, outer, anchor, h, hlast, x => by
    rw [allAnchored, Bool.and_eq_true] at h
    have hitem := item.mem_names_or h.1 (hlast item List.mem_cons_self) x
    have hitems := mem_namesOf_or items h.2
      (fun item' hitem' => hlast item' (List.mem_cons_of_mem item hitem')) x
    rw [expansionsOf, namesOf, List.flatMap_append, List.mem_append, List.mem_append, or_assoc,
      hitems, or_left_comm, hitem, or_left_comm, or_assoc]

end

theorem namesOf_map_item (outer : ClassName) (blocks : List Block) :
    namesOf outer (blocks.map Block.item) =
      blocks.flatMap fun b => b.chain.names ++ namesOf b.chain.first b.body := by
  induction blocks with
  | nil => rfl
  | cons b blocks ih => rw [List.map_cons, namesOf, ih, List.flatMap_cons]; rfl

theorem Block.mem_names_iff {b : Block} (h : b.item.isAnchored = true) (x : ClassName) :
    x ∈ (b.chain :: expansionsOf b.chain b.body).flatMap Chain.names ↔
      x ∈ b.chain.names ++ namesOf b.chain.first b.body := by
  rw [Block.item, Item.isAnchored, Bool.and_eq_true] at h
  have hbody := mem_namesOf_or b.body h.2
    (last_eq_of_isSteady_or h.1 fun hs => (of_decide_eq_true hs).symm) x
  rw [List.flatMap_cons, List.mem_append, List.mem_append, or_comm, hbody, or_comm]

/-- **An anchored tree names the classes that a preprocessor writes.** -/
theorem Stylesheet.mem_names_iff {sheet : Stylesheet} (h : sheet.isAnchored = true)
    (x : ClassName) : x ∈ sheet.names ↔ ∃ e ∈ sheet.expansions, x ∈ e.names := by
  have hblock : ∀ b ∈ sheet.blocks, b.item.isAnchored = true := List.all_eq_true.mp h
  rw [← List.mem_flatMap, names, expansions, List.flatMap_assoc, List.mem_flatMap, List.mem_flatMap]
  constructor
  · rintro ⟨b, hb, hx⟩
    exact ⟨b, hb, (Block.mem_names_iff (hblock b hb) x).mpr hx⟩
  · rintro ⟨b, hb, hx⟩
    exact ⟨b, hb, (Block.mem_names_iff (hblock b hb) x).mp hx⟩

end StyleAudit.Style.Nested
