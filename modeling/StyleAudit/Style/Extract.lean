import StyleAudit.Style.Dialect
import StyleAudit.Style.Rule
import StyleAudit.Style.Selector
import StyleAudit.Style.Sheet

/-!
# The classes that a stylesheet defines

Each rule gives facts: a selector defines the classes it mentions, and inside a rule with a class
the selector `&.b` defines `a.b` and nests `b` under `a`, while `&-b` defines `a-b`. Conditional
at-rules keep the enclosing rule, mixins forget it, and some at-rules hold no selectors at all.
-/

namespace StyleAudit.Style

open StyleAudit.Text

/-- Where a rule stands: the class of the enclosing rule, and whether it is part of a mixin. -/
structure Scope where
  parent : Option String := none
  inMixin : Bool := false
deriving DecidableEq, Repr

/-- The class that `&` may be combined with: none in a mixin, and none if its name is empty. -/
def Scope.concrete? (scope : Scope) : Option String :=
  if scope.inMixin then none else scope.parent.filter (! ·.isEmpty)

/-! ### Facts of a selector -/

def definesAll (line : Int) (names : List (List Char)) : List Fact :=
  names.map fun n => .defines (String.ofList n) line

/-- The facts of a selector without attribute conditions under the class `parent`. -/
def nestedFacts (parent : String) (line : Int) (selector : List Char) : List Fact :=
  match parentClass.findAll selector with
  | [] =>
    match parentSuffix? selector with
    | some (suffix, rest) =>
      .defines (parent ++ String.ofList suffix) line :: definesAll line (classToken.findAll rest)
    | none => definesAll line (classToken.findAll selector)
  | children =>
    children.flatMap (fun child =>
      [.defines (parent ++ "." ++ String.ofList child) line, .nests parent (String.ofList child)]) ++
    definesAll line (classToken.findAll (parentClass.replace (fun _ => ['&']) selector))

/-- What a selector says about classes. -/
def selectorFacts (scope : Scope) (line : Int) (selector : List Char) : List Fact :=
  let bare := withoutAttributes selector
  match scope.concrete? with
  | some parent => nestedFacts parent line bare
  | none => definesAll line (classToken.findAll bare)

/-- The class that a rule with this selector gives to the rules inside it: the first one it
mentions, the lengthened class of the enclosing rule, or that class itself. -/
def ownClass (selector : List Char) (parent : Option String) : Option String :=
  let bare := withoutAttributes selector
  match classToken.find? bare with
  | some name => some (String.ofList name)
  | none =>
    match parentSuffix? bare, parent.filter (! ·.isEmpty) with
    | some (suffix, _), some p => some (p ++ String.ofList suffix)
    | _, _ => if bare.head? == some '&' then parent else none

/-! ### Facts of a rule -/

/-- At-rules whose bodies hold no class selectors. -/
def selectorFreeAtRules : List String :=
  ["font-face", "page", "counter-style", "property", "font-feature-values"]

/-- At-rules whose bodies are templates for other places. -/
def templateAtRules : List String :=
  ["mixin", "function"]

def isSelectorFree (atRule : String) : Bool :=
  "keyframes".toList.isSuffixOf atRule.toList || selectorFreeAtRules.contains atRule

/-- What the prelude of a rule makes of it. -/
inductive Heading where
  /-- The body is not looked at. -/
  | skip
  /-- The body is a template without enclosing rule. -/
  | template
  /-- The body belongs to the enclosing rule. -/
  | transparent
  /-- The rule has these selectors. -/
  | selectors (line : Nat) (list : List (List Char))

/-- The heading that a prelude stands for. -/
def heading (d : Dialect) (prelude : List Token) : Heading :=
  match prelude with
  | [] => .skip
  | .leaf _ (.atKeyword name) :: _ =>
    let name := asciiLowered name
    if isSelectorFree name then .skip
    else if templateAtRules.contains name then .template
    else .transparent
  | first :: _ =>
    let text := trim (print prelude)
    if d == .less && isParametricMixin text then .template
    else .selectors first.line (splitSelectors text)

/-- The scope of the rules in a template. -/
def Scope.template : Scope :=
  { parent := none, inMixin := true }

/-- The scope of the rules under a list of selectors. -/
def Scope.under (scope : Scope) (selectors : List (List Char)) : Scope :=
  { scope with parent := selectors.head?.bind (ownClass · scope.parent) }

mutual

/-- The facts of a rule and of the rules inside it, in document order. -/
def Rule.facts (d : Dialect) (scope : Scope) : Rule → List Fact
  | .mk prelude body =>
    match heading d prelude with
    | .skip => []
    | .template => factsOf d .template body
    | .transparent => factsOf d scope body
    | .selectors line list =>
      list.flatMap (selectorFacts scope line) ++ factsOf d (scope.under list) body

/-- The facts of a list of rules, in document order. -/
def factsOf (d : Dialect) (scope : Scope) : List Rule → List Fact
  | [] => []
  | r :: rs => r.facts d scope ++ factsOf d scope rs

end

/-- The facts of a forest. -/
def forestFacts (d : Dialect) (scope : Scope) (forest : List Token) : List Fact :=
  factsOf d scope (rules [] forest)

/-- The classes that a stylesheet defines, or why it cannot be read. -/
def extract (d : Dialect) (source : String) : Except ParseError Sheet := do
  let forest ← d.parse source
  return ({} : Sheet).learnAll (forestFacts d {} forest)

end StyleAudit.Style
