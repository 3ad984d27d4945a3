import Mathlib.Data.List.DropRight
import StyleAudit.Style.Declaration

/-!
# Declarations in document order

The body of a rule is a tree (`RuleBody`): clauses that end with a semicolon, unless they are the
last one of their body, and blocks with a prelude, which hold bodies again.  A clause is a
declaration or something else.  What its tokens may be is left to a layout, so that the same trees
serve for texts without blocks and for texts with interpolations.

The reader knows nothing of trees.  It goes over the tokens with a segment, which it gives up at
every block and reads at every semicolon and at the end.  So a text without a semicolon contributes
the declarations in its blocks, and leaves as segment what stands after the last one
(`declarationsAfter_text`).  From this follows what is read of a whole tree
(`RuleBody.declarationsAfter_tokens`).

In a flat layout texts hold no blocks.  Then the declarations of the tree are read, each of them
once and in the order of the document (`declarations_in_document_order`).
-/

namespace StyleAudit.Style

open StyleAudit.Text

/-! ### Texts -/

/-- The text holds no semicolon and no block in curly brackets. -/
def isFlat (ts : List Token) : Bool :=
  ts.all fun t => !t.isLiteral ";" && !t.isCurly

theorem isFlat_iff {ts : List Token} :
    isFlat ts = true ↔ ∀ t ∈ ts, t.isLiteral ";" = false ∧ t.isCurly = false := by
  simp [isFlat]

/-- The declarations in the blocks of a text. -/
def innerDeclarations (ts : List Token) : List Declaration :=
  ts.flatMap fun t => if t.isCurly then t.declarations else []

/-- What stands after the last block of a text. -/
def afterBlocks (ts : List Token) : List Token :=
  ts.rtakeWhile (! ·.isCurly)

/-- What is read of a text that a semicolon or the end follows. -/
def declarationsOf (ts : List Token) : List Declaration :=
  innerDeclarations ts ++ (asDeclaration (afterBlocks ts)).toList

theorem afterBlocks_of_noBlock {ts : List Token} (h : ∀ t ∈ ts, t.isCurly = false) :
    afterBlocks ts = ts := by
  apply List.rtakeWhile_eq_self_iff.mpr
  intro t ht
  rw [h t ht]
  rfl

theorem innerDeclarations_of_noBlock {ts : List Token} (h : ∀ t ∈ ts, t.isCurly = false) :
    innerDeclarations ts = [] := by
  apply List.flatMap_eq_nil_iff.mpr
  intro t ht
  rw [h t ht]
  rfl

theorem declarationsOf_of_noBlock {ts : List Token} (h : ∀ t ∈ ts, t.isCurly = false) :
    declarationsOf ts = (asDeclaration ts).toList := by
  rw [declarationsOf, innerDeclarations_of_noBlock h, afterBlocks_of_noBlock h, List.nil_append]

/-- Nothing before a block matters for what stands after the last one. -/
theorem afterBlocks_append_block (front : List Token) {t : Token} (h : t.isCurly = true)
    (ts : List Token) : afterBlocks (front ++ t :: ts) = afterBlocks ts := by
  -- from the right, since this is where the tokens are taken from
  induction ts using List.reverseRecOn with
  | nil =>
    rw [afterBlocks, List.rtakeWhile_concat_neg _ _ _ (by simp [h])]
    rfl
  | append_singleton ts u ih =>
    rw [← List.cons_append, ← List.append_assoc]
    by_cases hu : u.isCurly = true
    · rw [afterBlocks, afterBlocks, List.rtakeWhile_concat_neg _ _ _ (by simp [hu]),
        List.rtakeWhile_concat_neg _ _ _ (by simp [hu])]
    · rw [afterBlocks, afterBlocks, List.rtakeWhile_concat_pos _ _ _ (by simpa using hu),
        List.rtakeWhile_concat_pos _ _ _ (by simpa using hu)]
      exact congrArg (· ++ [u]) ih

/-! ### The reader -/

/-- A text without a semicolon: its blocks are read, and what stands after the last one is what the
segment is then. -/
theorem declarationsAfter_text {segment ts : List Token}
    (hsegment : ∀ t ∈ segment, t.isCurly = false) (h : ∀ t ∈ ts, t.isLiteral ";" = false)
    (rest : List Token) :
    declarationsAfter segment (ts ++ rest) =
      innerDeclarations ts ++ declarationsAfter (afterBlocks (segment ++ ts)) rest := by
  induction ts generalizing segment with
  | nil =>
    rw [List.append_nil, afterBlocks_of_noBlock hsegment]
    rfl
  | cons t ts ih =>
    obtain ⟨ht, hts⟩ := List.forall_mem_cons.mp h
    rw [List.cons_append, declarationsAfter, ht, if_neg Bool.false_ne_true, innerDeclarations,
      List.flatMap_cons, ← innerDeclarations]
    by_cases hcurly : t.isCurly = true
    · have hnone : ∀ t ∈ ([] : List Token), t.isCurly = false := nofun
      rw [if_pos hcurly, if_pos hcurly, ih hnone hts, afterBlocks_append_block segment hcurly,
        List.nil_append, List.append_assoc]
    · have hnext : ∀ u ∈ segment ++ [t], u.isCurly = false := by
        intro u hu
        rcases List.mem_append.mp hu with hu | hu
        · exact hsegment u hu
        · rw [List.mem_singleton.mp hu]
          simpa using hcurly
      rw [if_neg hcurly, if_neg hcurly, ih hnext hts, List.nil_append, List.append_assoc,
        List.singleton_append]

theorem declarationsAfter_semicolon (segment : List Token) (line : Nat) (rest : List Token) :
    declarationsAfter segment (.leaf line (.literal ";") :: rest) =
      (asDeclaration segment).toList ++ declarationsAfter [] rest := by
  rw [declarationsAfter]
  rfl

theorem declarationsAfter_block (segment : List Token) (line : Nat) (content rest : List Token) :
    declarationsAfter segment (.block line .curly content :: rest) =
      declarationsAfter [] content ++ declarationsAfter [] rest := by
  rw [declarationsAfter, Token.declarations]
  rfl

/-! ### Declarations as they are written -/

theorem exists_of_isBlank {t : Token} (h : t.isBlank = true) :
    ∃ line text, t = .leaf line (.blank text) := by
  unfold Token.isBlank at h
  split at h
  · exact ⟨_, _, rfl⟩
  · cases h

theorem exists_of_isLiteral {t : Token} {text : String} (h : t.isLiteral text = true) :
    ∃ line, t = .leaf line (.literal text) := by
  rw [Token.isLiteral, beq_iff_eq] at h
  cases t with
  | leaf line l => exact ⟨line, by rw [Option.some.inj h]⟩
  | block line bracket content => cases h
  | function line name arguments => cases h

theorem isFlat_of_blank {ts : List Token} (h : ts.all Token.isBlank = true) :
    isFlat ts = true := by
  apply isFlat_iff.mpr
  intro t ht
  obtain ⟨line, text, rfl⟩ := exists_of_isBlank (List.all_eq_true.mp h t ht)
  exact ⟨rfl, rfl⟩

theorem dropWhile_isBlank {lead : List Token} (h : lead.all Token.isBlank = true) {t : Token}
    (ht : t.isBlank = false) (ts : List Token) :
    (lead ++ t :: ts).dropWhile Token.isBlank = t :: ts := by
  rw [List.dropWhile_append, List.dropWhile_eq_nil_iff.mpr (List.all_eq_true.mp h)]
  exact List.dropWhile_cons_of_neg (by simp [ht])

/-- A name, a colon and a value, with blanks before the first two. -/
structure Assignment where
  lead : List Token
  line : Nat
  name : String
  gap : List Token
  colonLine : Nat
  value : List Token
  blank_lead : lead.all Token.isBlank = true
  blank_gap : gap.all Token.isBlank = true

namespace Assignment

/-- What stands before the value. -/
def head (a : Assignment) : List Token :=
  a.lead ++ .leaf a.line (.ident a.name) :: (a.gap ++ [.leaf a.colonLine (.literal ":")])

def tokens (a : Assignment) : List Token :=
  a.head ++ a.value

/-- What the assignment declares. -/
def declaration (a : Assignment) : Declaration where
  property := asciiLowered a.name
  value := String.ofList (withoutImportance (trim (print a.value)))
  line := a.line

theorem isFlat_head (a : Assignment) : isFlat a.head = true := by
  have hlead := isFlat_iff.mp (isFlat_of_blank a.blank_lead)
  have hgap := isFlat_iff.mp (isFlat_of_blank a.blank_gap)
  rw [isFlat_iff, head, List.forall_mem_append, List.forall_mem_cons, List.forall_mem_append,
    List.forall_mem_singleton]
  exact ⟨hlead, ⟨rfl, rfl⟩, hgap, rfl, rfl⟩

theorem tokens_eq (a : Assignment) :
    a.tokens = a.lead ++ .leaf a.line (.ident a.name) ::
      (a.gap ++ .leaf a.colonLine (.literal ":") :: a.value) := by
  rw [tokens, head, List.append_assoc, List.cons_append, List.append_assoc, List.singleton_append]

theorem asDeclaration_tokens (a : Assignment) : asDeclaration a.tokens = some a.declaration := by
  have hcolon := dropWhile_isBlank a.blank_gap (t := .leaf a.colonLine (.literal ":")) rfl a.value
  rw [asDeclaration, tokens_eq, dropWhile_isBlank a.blank_lead rfl]
  simp only [hcolon]
  rfl

/-- What is read as a declaration is written as one. -/
theorem exists_of_asDeclaration {ts : List Token} {d : Declaration}
    (h : asDeclaration ts = some d) : ∃ a : Assignment, a.tokens = ts := by
  rw [asDeclaration] at h
  split at h
  · rename_i line name rest hident
    split at h
    · rename_i colon value hcolon
      split at h
      · rename_i hliteral
        obtain ⟨colonLine, rfl⟩ := exists_of_isLiteral hliteral
        let a : Assignment :=
          { lead := ts.takeWhile Token.isBlank
            line := line
            name := name
            gap := rest.takeWhile Token.isBlank
            colonLine := colonLine
            value := value
            blank_lead := List.all_takeWhile
            blank_gap := List.all_takeWhile }
        refine ⟨a, ?_⟩
        rw [tokens_eq, ← hcolon, List.takeWhile_append_dropWhile, ← hident,
          List.takeWhile_append_dropWhile]
      · cases h
    · cases h
  · cases h

end Assignment

/-! ### Trees -/

/-- What the texts and the preludes of a body may be.  None of them holds a semicolon. -/
structure Layout where
  isText : List Token → Bool
  isPrelude : List Token → Bool
  text_open : ∀ ts, isText ts = true → ∀ t ∈ ts, t.isLiteral ";" = false
  prelude_open : ∀ ts, isPrelude ts = true → ∀ t ∈ ts, t.isLiteral ";" = false

/-- What stands before a block. -/
def Layout.Prelude (y : Layout) : Type :=
  { ts : List Token // y.isPrelude ts = true }

/-- A declaration, or a statement that is not written like one. -/
inductive Clause (y : Layout) where
  | declaration (a : Assignment) (h : y.isText a.value = true)
  | other (ts : List Token) (h : y.isText ts = true) (hother : ∀ a : Assignment, a.tokens ≠ ts)

namespace Clause

variable {y : Layout}

def tokens : Clause y → List Token
  | .declaration a _ => a.tokens
  | .other ts _ _ => ts

def assignment? : Clause y → Option Assignment
  | .declaration a _ => some a
  | .other _ _ _ => none

theorem tokens_open (c : Clause y) : ∀ t ∈ c.tokens, t.isLiteral ";" = false := by
  cases c with
  | declaration a h =>
    rw [tokens, Assignment.tokens, List.forall_mem_append]
    exact ⟨fun t ht => (isFlat_iff.mp a.isFlat_head t ht).1, y.text_open a.value h⟩
  | other ts h hother => exact y.text_open ts h

theorem asDeclaration_tokens (c : Clause y) :
    asDeclaration c.tokens = c.assignment?.map Assignment.declaration := by
  cases c with
  | declaration a h => exact a.asDeclaration_tokens
  | other ts h hother =>
    cases hts : asDeclaration ts with
    | none => exact hts
    | some d =>
      obtain ⟨a, ha⟩ := Assignment.exists_of_asDeclaration hts
      exact absurd ha (hother a)

end Clause

/-- The body of a rule.  A clause without a semicolon can only be the last one. -/
inductive RuleBody (y : Layout) where
  | empty
  | last (c : Clause y)
  | clause (c : Clause y) (line : Nat) (rest : RuleBody y)
  | block (prelude : y.Prelude) (line : Nat) (content rest : RuleBody y)

namespace RuleBody

variable {y : Layout}

def tokens : RuleBody y → List Token
  | .empty => []
  | .last c => c.tokens
  | .clause c line rest => c.tokens ++ .leaf line (.literal ";") :: rest.tokens
  | .block prelude line content rest =>
    prelude.val ++ .block line .curly content.tokens :: rest.tokens

/-- The declarations of the tree in document order. -/
def assignments : RuleBody y → List Assignment
  | .empty => []
  | .last c => c.assignment?.toList
  | .clause c _ rest => c.assignment?.toList ++ rest.assignments
  | .block _ _ content rest => content.assignments ++ rest.assignments

/-- The same tree with other preludes. -/
def mapPreludes (f : y.Prelude → y.Prelude) : RuleBody y → RuleBody y
  | .empty => .empty
  | .last c => .last c
  | .clause c line rest => .clause c line (rest.mapPreludes f)
  | .block prelude line content rest =>
    .block (f prelude) line (content.mapPreludes f) (rest.mapPreludes f)

theorem assignments_mapPreludes (f : y.Prelude → y.Prelude) (body : RuleBody y) :
    (body.mapPreludes f).assignments = body.assignments := by
  induction body with
  | empty => rfl
  | last c => rfl
  | clause c line rest ih => rw [mapPreludes, assignments, assignments, ih]
  | block prelude line content rest ihcontent ih =>
    rw [mapPreludes, assignments, assignments, ihcontent, ih]

/-- What the reader makes of the tree, clause by clause and block by block. -/
def read : RuleBody y → List Declaration
  | .empty => []
  | .last c => declarationsOf c.tokens
  | .clause c _ rest => declarationsOf c.tokens ++ rest.read
  | .block prelude _ content rest => innerDeclarations prelude.val ++ (content.read ++ rest.read)

/-- The segment is empty where a clause or a prelude begins, so the parts of a tree are read one by
one. -/
theorem declarationsAfter_tokens (body : RuleBody y) :
    declarationsAfter [] body.tokens = body.read := by
  have hnone : ∀ t ∈ ([] : List Token), t.isCurly = false := nofun
  induction body with
  | empty => rfl
  | last c =>
    have htext := declarationsAfter_text hnone c.tokens_open []
    rwa [List.append_nil, declarationsAfter] at htext
  | clause c line rest ih =>
    rw [tokens, declarationsAfter_text hnone c.tokens_open, declarationsAfter_semicolon, ih, read,
      declarationsOf, List.append_assoc, List.nil_append]
  | block prelude line content rest ihcontent ih =>
    rw [tokens, declarationsAfter_text hnone (y.prelude_open prelude.val prelude.property),
      declarationsAfter_block, ihcontent, ih, read]

end RuleBody

/-! ### Flat bodies -/

/-- Neither texts nor preludes hold a block. -/
def Layout.flat : Layout where
  isText := isFlat
  isPrelude := isFlat
  text_open _ h t ht := (isFlat_iff.mp h t ht).1
  prelude_open _ h t ht := (isFlat_iff.mp h t ht).1

theorem Clause.noBlock_tokens (c : Clause .flat) : ∀ t ∈ c.tokens, t.isCurly = false := by
  cases c with
  | declaration a h =>
    rw [tokens, Assignment.tokens, List.forall_mem_append]
    exact ⟨fun t ht => (isFlat_iff.mp a.isFlat_head t ht).2,
      fun t ht => (isFlat_iff.mp h t ht).2⟩
  | other ts h hother => exact fun t ht => (isFlat_iff.mp h t ht).2

theorem Clause.declarationsOf_flat (c : Clause .flat) :
    declarationsOf c.tokens = c.assignment?.toList.map Assignment.declaration := by
  rw [declarationsOf_of_noBlock c.noBlock_tokens, c.asDeclaration_tokens, Option.toList_map]

theorem RuleBody.read_flat (body : RuleBody .flat) :
    body.read = body.assignments.map Assignment.declaration := by
  induction body with
  | empty => rfl
  | last c => exact c.declarationsOf_flat
  | clause c line rest ih => rw [read, assignments, c.declarationsOf_flat, ih, List.map_append]
  | block prelude line content rest ihcontent ih =>
    have hprelude : innerDeclarations prelude.val = [] :=
      innerDeclarations_of_noBlock fun t ht => (isFlat_iff.mp prelude.property t ht).2
    rw [read, assignments, hprelude, ihcontent, ih, List.map_append, List.nil_append]

/-- **Declarations are read completely and in document order.**  Of a body whose texts and preludes
hold neither semicolons nor blocks, exactly the declarations of the tree are read, and each of them
is what its own tokens read as.  No prelude is read as a declaration: with other preludes the same
is read. -/
theorem declarations_in_document_order (body : RuleBody .flat) :
    declarationsAfter [] body.tokens = body.assignments.map Assignment.declaration ∧
    (declarationsAfter [] body.tokens).map some =
      body.assignments.map (fun a => asDeclaration a.tokens) ∧
    ∀ f, declarationsAfter [] (body.mapPreludes f).tokens = declarationsAfter [] body.tokens := by
  have hread : ∀ b : RuleBody .flat,
      declarationsAfter [] b.tokens = b.assignments.map Assignment.declaration := by
    intro b
    rw [b.declarationsAfter_tokens, b.read_flat]
  refine ⟨hread body, ?_, ?_⟩
  · rw [hread, List.map_map]
    apply List.map_congr_left
    intro a _
    exact a.asDeclaration_tokens.symm
  · intro f
    rw [hread, hread, body.assignments_mapPreludes]

/-- In `a:hover { color: RED } ; Margin : 0` the prelude looks like a declaration, and the last
declaration has no semicolon. -/
example :
    declarationsAfter []
      [.leaf 1 (.ident "a"), .leaf 1 (.literal ":"), .leaf 1 (.ident "hover"), .leaf 1 (.blank " "),
        .block 1 .curly [.leaf 2 (.ident "color"), .leaf 2 (.literal ":"), .leaf 2 (.ident "RED")],
        .leaf 3 (.literal ";"), .leaf 3 (.ident "Margin"), .leaf 3 (.blank " "),
        .leaf 3 (.literal ":"), .leaf 3 (.blank " "), .leaf 3 (.number "0")] =
      [⟨"color", "RED", 2⟩, ⟨"margin", "0", 3⟩] := by
  decide

end StyleAudit.Style
