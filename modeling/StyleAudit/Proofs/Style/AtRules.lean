import StyleAudit.Proofs.Style.Appending

/-!
# At-rules that are seen through

A conditional at-rule such as `@media` tells when its rules apply, not what they are: they keep the
class of the rule around it.  So the at-rule may be unwrapped, that is, replaced by what it holds
between two semicolons,

    @media (min-width: 600px) { &.wide { } }   becomes   ; &.wide { } ;

at every place where a statement may begin and however deep that place is (`Unwraps`), and the sheet
stays the same (`conditional_atRules_transparent`).

Where the at-rule stands, both forms give the facts of what it holds (`forestFacts_atRule`,
`forestFacts_unwrapped`).  An enclosing block hands this on, because its rule reads the block only
through the facts of it, in a scope that does not depend on them (`Rule.facts_congr`).  Therefore
the facts are compared in all scopes at once.
-/

namespace StyleAudit.Style

open StyleAudit.Text

/-! ### Preludes -/

/-- After `front` come no semicolon and no block in curly brackets, unless the block is an
interpolation. -/
def unbrokenAfter (front : List Token) : List Token → Bool
  | [] => true
  | t :: ts =>
    !t.isLiteral ";" && (!t.isCurly || endsInMark front) && unbrokenAfter (front ++ [t]) ts

/-- The tokens are of one statement: no semicolon ends it, and every block is an interpolation. -/
def isUnbroken (ts : List Token) : Bool :=
  unbrokenAfter [] ts

theorem unbrokenAfter_cons {front : List Token} {t : Token} {ts : List Token} :
    unbrokenAfter front (t :: ts) = true ↔
      t.isLiteral ";" = false ∧ (t.isCurly = true → endsInMark front = true) ∧
        unbrokenAfter (front ++ [t]) ts = true := by
  rw [unbrokenAfter, Bool.and_eq_true, Bool.and_eq_true, Bool.not_eq_true', and_assoc]
  cases t.isCurly <;> simp

/-- A prelude that is begun takes up all tokens of its statement. -/
theorem rules_unbroken {front ts : List Token} (hfront : front ≠ [])
    (h : unbrokenAfter front ts = true) (rest : List Token) :
    rules front (ts ++ rest) = rules (front ++ ts) rest := by
  induction ts generalizing front with
  | nil => rw [List.nil_append, List.append_nil]
  | cons t ts ih =>
    obtain ⟨hsemicolon, hcurly, hts⟩ := unbrokenAfter_cons.mp h
    have hblock : ¬ (t.isCurly && !endsInMark front) = true := by
      intro hb
      rw [Bool.and_eq_true, Bool.not_eq_true'] at hb
      rw [hcurly hb.1] at hb
      cases hb.2
    have hempty : front.isEmpty = false := by simpa using hfront
    have hextend : extendPrelude front t = front ++ [t] := by
      simp only [extendPrelude, hempty, hsemicolon, Bool.false_eq_true, if_false, ite_self]
    have hnext : front ++ [t] ≠ [] := by simp
    rw [List.cons_append, rules, if_neg hblock, hextend, ih hnext hts, List.append_assoc,
      List.singleton_append]

/-- A block that is no interpolation ends the prelude before it, and makes a rule with it. -/
theorem rules_block {front : List Token} (h : endsInMark front = false) (line : Nat)
    (content rest : List Token) :
    rules front (.block line .curly content :: rest) =
      (if front.isEmpty then [] else [.mk front (rules [] content)]) ++ rules [] rest := by
  have hblock : (Token.isCurly (.block line .curly content) && !endsInMark front) = true := by
    rw [h]
    rfl
  rw [rules, if_pos hblock, Token.rules]
  split <;> rfl

def semicolon (line : Nat) : Token :=
  .leaf line (.literal ";")

theorem rules_semicolon (front : List Token) (line : Nat) (rest : List Token) :
    rules front (semicolon line :: rest) = rules [] rest := by
  rw [rules]
  rfl

/-! ### Facts -/

theorem factsOf_append (d : Dialect) (scope : Scope) (rs rs' : List Rule) :
    factsOf d scope (rs ++ rs') = factsOf d scope rs ++ factsOf d scope rs' := by
  induction rs with
  | nil => rw [factsOf, List.nil_append, List.nil_append]
  | cons r rs ih => rw [List.cons_append, factsOf, factsOf, ih, List.append_assoc]

/-- A rule reads its body only through the facts of it. -/
theorem Rule.facts_congr {d : Dialect} {body body' : List Rule}
    (h : ∀ scope, factsOf d scope body = factsOf d scope body') (prelude : List Token)
    (scope : Scope) :
    (Rule.mk prelude body).facts d scope = (Rule.mk prelude body').facts d scope := by
  rw [Rule.facts, Rule.facts]
  cases heading d prelude with
  | skip => rfl
  | template => exact h .template
  | transparent => exact h scope
  | selectors line list => exact congrArg _ (h (scope.under list))

/-! ### Conditional at-rules -/

/-- The name of an at-rule whose body is neither left out nor a template.  Capital letters do not
count. -/
structure IsConditional (name : String) : Prop where
  notKeyframes : ¬ "keyframes".toList <:+ (asciiLowered name).toList
  notSelectorFree : asciiLowered name ∉ selectorFreeAtRules
  notTemplate : asciiLowered name ∉ templateAtRules

/-- A statement `@name prelude { content }`. -/
structure AtRule where
  line : Nat
  name : String
  prelude : List Token
  blockLine : Nat
  content : List Token
  unbroken : isUnbroken (.leaf line (.atKeyword name) :: prelude) = true
  /-- The block is that of the rule. -/
  ended : endsInMark (.leaf line (.atKeyword name) :: prelude) = false

namespace AtRule

/-- What stands before the block. -/
def head (r : AtRule) : List Token :=
  .leaf r.line (.atKeyword r.name) :: r.prelude

def tokens (r : AtRule) : List Token :=
  r.head ++ [.block r.blockLine .curly r.content]

/-- What the at-rule holds, with a semicolon on either side. -/
def unwrapped (r : AtRule) (line line' : Nat) : List Token :=
  semicolon line :: r.content ++ [semicolon line']

theorem rules_tokens (r : AtRule) (rest : List Token) :
    rules [] (r.tokens ++ rest) = .mk r.head (rules [] r.content) :: rules [] rest := by
  have hprelude : unbrokenAfter [.leaf r.line (.atKeyword r.name)] r.prelude = true :=
    (unbrokenAfter_cons.mp r.unbroken).2.2
  have hbegin : rules [] (r.tokens ++ rest) = rules [.leaf r.line (.atKeyword r.name)]
      (r.prelude ++ .block r.blockLine .curly r.content :: rest) := by
    rw [tokens, head, List.append_assoc, List.cons_append, rules]
    rfl
  rw [hbegin, rules_unbroken (by simp) hprelude, List.singleton_append, rules_block r.ended]
  rfl

theorem rules_unwrapped (r : AtRule) (line line' : Nat) (rest : List Token) :
    rules [] (r.unwrapped line line' ++ rest) = rules [] r.content ++ rules [] rest := by
  rw [unwrapped, List.cons_append, List.cons_append, rules_semicolon, List.append_assoc,
    rules_append, List.singleton_append, rules_semicolon]

theorem heading_head {r : AtRule} (h : IsConditional r.name) (d : Dialect) :
    heading d r.head = .transparent := by
  have hfree : isSelectorFree (asciiLowered r.name) = false := by
    rw [isSelectorFree, Bool.or_eq_false_iff]
    refine ⟨?_, ?_⟩
    · rw [← Bool.not_eq_true, List.isSuffixOf_iff_suffix]
      exact h.notKeyframes
    · rw [← Bool.not_eq_true, List.contains_iff_mem]
      exact h.notSelectorFree
  have htemplate : templateAtRules.contains (asciiLowered r.name) = false := by
    rw [← Bool.not_eq_true, List.contains_iff_mem]
    exact h.notTemplate
  rw [head, heading]
  simp only [hfree, htemplate, Bool.false_eq_true, if_false]

end AtRule

/-- Where a statement begins, a conditional at-rule gives the facts of what it holds. -/
theorem forestFacts_atRule {before : List Token} (hbefore : pending [] before = []) {r : AtRule}
    (h : IsConditional r.name) (after : List Token) (d : Dialect) (scope : Scope) :
    forestFacts d scope (before ++ (r.tokens ++ after)) =
      forestFacts d scope before ++
        (forestFacts d scope r.content ++ forestFacts d scope after) := by
  have hrule : (Rule.mk r.head (rules [] r.content)).facts d scope =
      forestFacts d scope r.content := by
    rw [Rule.facts, AtRule.heading_head h]
    rfl
  rw [forestFacts, rules_append, hbefore, r.rules_tokens, factsOf_append, factsOf, hrule]
  rfl

theorem forestFacts_unwrapped {before : List Token} (hbefore : pending [] before = [])
    (r : AtRule) (line line' : Nat) (after : List Token) (d : Dialect) (scope : Scope) :
    forestFacts d scope (before ++ (r.unwrapped line line' ++ after)) =
      forestFacts d scope before ++
        (forestFacts d scope r.content ++ forestFacts d scope after) := by
  rw [forestFacts, rules_append, hbefore, r.rules_unwrapped, factsOf_append, factsOf_append]
  rfl

/-! ### Unwrapping -/

/-- The second forest is the first one with one conditional at-rule unwrapped: here, or inside a
block that is no interpolation. -/
inductive Unwraps : List Token → List Token → Prop
  | here {before : List Token} (hbefore : pending [] before = []) {r : AtRule}
      (h : IsConditional r.name) (line line' : Nat) (after : List Token) :
      Unwraps (before ++ (r.tokens ++ after)) (before ++ (r.unwrapped line line' ++ after))
  | inside {before : List Token} (hbefore : endsInMark (pending [] before) = false) (line : Nat)
      (after : List Token) {content content' : List Token} (h : Unwraps content content') :
      Unwraps (before ++ .block line .curly content :: after)
        (before ++ .block line .curly content' :: after)

/-- What a block holds may be exchanged for what has the same facts. -/
theorem forestFacts_block {before : List Token} (hbefore : endsInMark (pending [] before) = false)
    {d : Dialect} {content content' : List Token}
    (h : ∀ scope, forestFacts d scope content = forestFacts d scope content') (line : Nat)
    (after : List Token) (scope : Scope) :
    forestFacts d scope (before ++ .block line .curly content :: after) =
      forestFacts d scope (before ++ .block line .curly content' :: after) := by
  have hrule := Rule.facts_congr h (pending [] before) scope
  rw [forestFacts, forestFacts, rules_append, rules_append, rules_block hbefore,
    rules_block hbefore]
  split
  · rfl
  · simp only [factsOf_append, factsOf, hrule]

theorem forestFacts_eq_of_unwraps {forest forest' : List Token} (h : Unwraps forest forest')
    (d : Dialect) : ∀ scope, forestFacts d scope forest = forestFacts d scope forest' := by
  induction h with
  | here hbefore hname line line' after =>
    intro scope
    rw [forestFacts_atRule hbefore hname, forestFacts_unwrapped hbefore]
  | inside hbefore line after _ ih => exact forestFacts_block hbefore ih line after

/-- **Conditional at-rules are seen through at every depth.**  Unwrapping one of them changes
nothing in the sheet, neither the definitions with their order and lines nor the nesting, whatever
the dialect, the scope and the sheet at the start are. -/
theorem conditional_atRules_transparent {forest forest' : List Token}
    (h : Unwraps forest forest') (d : Dialect) :
    (∀ scope s, walk d scope forest s = walk d scope forest' s) ∧
    ∀ source source', d.parse source = .ok forest → d.parse source' = .ok forest' →
      ∃ sheet, extract d source = .ok sheet ∧ extract d source' = .ok sheet := by
  have hwalk : ∀ scope s, walk d scope forest s = walk d scope forest' s := by
    intro scope s
    rw [walk_eq_learnAll, walk_eq_learnAll, forestFacts_eq_of_unwraps h d scope]
  refine ⟨hwalk, ?_⟩
  intro source source' hsource hsource'
  refine ⟨walk d {} forest {}, extract_eq_walk hsource, ?_⟩
  rw [hwalk]
  exact extract_eq_walk hsource'

/-- Inside `.panel`, the at-rule `@Media #{$wide} { &.wide { } width: 1 }` before `&.dark { }`.  Its
prelude holds an interpolation, and its last declaration ends without a semicolon. -/
theorem conditional_atRules_transparent_panel :
    let nested := fun line name =>
      [Token.leaf line (.literal "&"), .leaf line (.literal "."), .leaf line (.ident name),
        .block line .curly []]
    let content := nested 3 "wide" ++
      [.leaf 4 (.ident "width"), .leaf 4 (.literal ":"), .leaf 4 (.number "1")]
    let query := [Token.leaf 2 (.literal "$"), .leaf 2 (.ident "wide")]
    let media := [Token.leaf 2 (.atKeyword "Media"), .leaf 2 (.blank " "), .leaf 2 (.literal "#"),
      .block 2 .curly query, .block 2 .curly content]
    let panel := fun body =>
      [Token.leaf 1 (.literal "."), .leaf 1 (.ident "panel"),
        .block 1 .curly (.leaf 1 (.blank "\n") :: (body ++ nested 5 "dark"))]
    let forest := panel media
    let forest' := panel (semicolon 2 :: content ++ [semicolon 4])
    Unwraps forest forest' ∧ walk .scss {} forest {} = walk .scss {} forest' {} ∧
      walk .scss {} forest' {} =
        { definitions := [("panel", 1), ("panel.wide", 3), ("panel.dark", 5)]
          nesting := [("panel", ["wide", "dark"])] } := by
  intro nested content query media panel forest forest'
  let r : AtRule :=
    { line := 2
      name := "Media"
      prelude := [.leaf 2 (.blank " "), .leaf 2 (.literal "#"), .block 2 .curly query]
      blockLine := 2
      content := content
      unbroken := rfl
      ended := rfl }
  have hname : IsConditional r.name := ⟨by decide, by decide, by decide⟩
  have hinner : Unwraps (.leaf 1 (.blank "\n") :: (media ++ nested 5 "dark"))
      (.leaf 1 (.blank "\n") :: (semicolon 2 :: content ++ [semicolon 4] ++ nested 5 "dark")) :=
    @Unwraps.here [.leaf 1 (.blank "\n")] rfl r hname 2 4 (nested 5 "dark")
  have hunwraps : Unwraps forest forest' :=
    @Unwraps.inside [.leaf 1 (.literal "."), .leaf 1 (.ident "panel")] rfl 1 [] _ _ hinner
  exact ⟨hunwraps, (conditional_atRules_transparent hunwraps .scss).1 {} {}, by decide⟩

end StyleAudit.Style
