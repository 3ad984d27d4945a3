import StyleAudit.Markup.Scanner

/-!
# Derivations

A derivation is the tree of the tokens and rules that a source was read by. `Derivation.order` ranks
the derivations of one stretch of a source, and `Derivation.partNodes` turns a derivation into syntax
nodes: hidden rules leave only their parts, and punctuation is left out.
-/

namespace StyleAudit.Markup

inductive Derivation where
  | leaf (token : Nat) (start stop : Place)
  /-- A rule with its parts; `position` is where the rule was complete, and `weight` sums up the
  weights of all rules in the tree. -/
  | node (position rule : Nat) (weight : Int) (start stop : Place) (parts : List Derivation)

namespace Derivation

def start : Derivation → Place
  | .leaf _ start _ => start
  | .node _ _ _ start _ _ => start

def stop : Derivation → Place
  | .leaf _ _ stop => stop
  | .node _ _ _ _ stop _ => stop

def weight : Derivation → Int
  | .leaf .. => 0
  | .node _ _ weight _ _ _ => weight

def isComment : Derivation → Bool
  | .leaf token _ _ => token == Tables.form .comment || token == Tables.form .angleComment
  | .node .. => false

/-- The source text of a derivation. -/
def text (d : Derivation) : String :=
  String.ofList (d.start.rest.take (d.stop.offset - d.start.offset))

/-! ### Rank -/

mutual

/-- Tokens come before rules, rules in the order of the grammar, and of one rule those with fewer
parts; then the parts decide, the first first. -/
def order : Derivation → Derivation → Ordering
  | .leaf s _ _, .leaf t _ _ => compare s t
  | .leaf .., .node .. => .lt
  | .node .., .leaf .. => .gt
  | .node _ r _ _ _ ps, .node _ s _ _ _ qs =>
    match compare r s with
    | .eq =>
      match compare ps.length qs.length with
      | .eq => orderAll ps qs
      | o => o
    | o => o

def orderAll : List Derivation → List Derivation → Ordering
  | p :: ps, q :: qs =>
    match p.order q with
    | .eq => orderAll ps qs
    | o => o
  | _, _ => .eq

end

/-- The second of two derivations of the same stretch is the better one. -/
def isBetter (a b : Derivation) : Bool :=
  a.weight < b.weight || a.weight == b.weight && a.order b == .gt

/-- Two derivations begin with the same rule and cover the same stretch in as many parts. -/
def isAlike : Derivation → Derivation → Bool
  | .leaf s a b, .leaf t c d => s == t && a.offset == c.offset && b.offset == d.offset
  | .node _ r _ a b ps, .node _ s _ c d qs =>
    r == s && a.offset == c.offset && b.offset == d.offset && ps.length == qs.length
  | _, _ => false

/-- The derivation of a rule from its parts. -/
def ofParts (g : Tables) (position : Nat) (at_ : Place) (parts : List Derivation) : Derivation :=
  let p := g.position position
  let weight := parts.foldl (fun w d => w + d.weight) p.weight
  .node position p.rule weight ((parts.head?.map start).getD at_) ((parts.getLast?.map stop).getD at_)
    parts

/-! ### Syntax nodes -/

/-- The kind under which a token is shown; marks and words are only punctuation. -/
def kindOfToken : Token → Kind
  | .identifier => .identifier
  | .privateIdentifier => .other "private_property_identifier"
  | .number => .number
  | .templateText => .templateChunk
  | .escape => .templateChunk
  | .regexText => .other "regex_pattern"
  | .regexFlags => .other "regex_flags"
  | .reference => .other "html_character_reference"
  | .comment => .comment
  | .angleComment => .other "html_comment"
  | _ => .punctuation

/-- Nodes of these kinds are shown by their text alone. -/
def isTextual (kind : Kind) : Bool :=
  kind == .string || kind == .other "regex"

/-- Nodes of these kinds show their text and their parts. -/
def showsText (kind : Kind) : Bool :=
  kind == .other "jsx_namespace_name"

/-- The marks of the parts of a derivation; comments have none of their own. -/
def marksOf (g : Tables) (position : Nat) : List Mark :=
  (g.position position).read.reverse

/-- The kind under which a part is shown: that of its mark, or else its own, if it is shown at all. -/
def shownKind (mark : Mark) (own : Option Kind) : Option Kind :=
  match mark.kind with
  | some name => some (Kind.ofName name)
  | none => own

/-- The kind of a rule that has nodes. -/
def kindOfRule (g : Tables) (rule : Nat) : Option Kind :=
  match g.rules[rule]? with
  | some r => if r.hidden then none else some (Kind.ofName r.name)
  | none => none

/-! ### Templates -/

/-- The stretch of a template from one place of its text up to another. -/
def chunkNode (raw : List Char) (base row first last : Nat) : Node :=
  .mk { kind := .templateChunk, text := String.ofList ((raw.take last).drop first)
        row := row + (raw.take first).count '\n', start := base + first, stop := base + last } []

/-- The nodes of a template with the text `raw`, which begins at `base`: its substitutions, and what
stands between them from `cursor` on. The last character closes the template. -/
def templateNodes (raw : List Char) (base row : Nat) : (cursor : Nat) → List Node → List Node
  | cursor, [] => [chunkNode raw base row cursor (raw.length - 1)]
  | cursor, n :: ns =>
    if n.kind == .templateSubstitution then
      chunkNode raw base row cursor (n.label.start - base) :: n ::
        templateNodes raw base row (n.label.stop - base) ns
    else templateNodes raw base row cursor ns

/-! ### Parts -/

/-- The mark of a part of a hidden rule: without a role of its own it has that of the rule. -/
def within (outer inner : Mark) : Mark :=
  if inner.role == .plain then { inner with role := outer.role } else inner

mutual

/-- The nodes that a part of a derivation stands for, given its mark, before some other nodes. -/
def addNodes (g : Tables) (mark : Mark) : Derivation → List Node → List Node
  | .leaf token start stop, after =>
    let own := kindOfToken (g.tokens.getD token .sourceEnd)
    let kind := (shownKind mark (some own)).getD own
    if kind == .punctuation && mark.role != .operator then after
    else .mk { kind, role := mark.role, text := (leaf token start stop).text, row := start.row
               start := start.offset, stop := stop.offset } [] :: after
  | .node position rule weight start stop parts, after =>
    match shownKind mark (kindOfRule g rule) with
    | none => addParts g mark (marksOf g position) parts after
    | some kind =>
      let whole := node position rule weight start stop parts
      let text := if isTextual kind || showsText kind then whole.text else ""
      let shown := if isTextual kind then [] else addParts g {} (marksOf g position) parts []
      let shown := if kind == .templateString then
          templateNodes whole.text.toList start.offset start.row 1 shown
        else shown
      .mk { kind, role := mark.role, text, row := start.row, start := start.offset
            stop := stop.offset } shown :: after

/-- The nodes of the parts of a rule, given the mark of the rule and those of its parts. -/
def addParts (g : Tables) (outer : Mark) : List Mark → List Derivation → List Node → List Node
  | _, [], after => after
  | marks, d :: ds, after =>
    if d.isComment then d.addNodes g {} (addParts g outer marks ds after)
    else match marks with
      | m :: ms => d.addNodes g (within outer m) (addParts g outer ms ds after)
      | [] => d.addNodes g {} (addParts g outer [] ds after)

end

/-- The nodes of the parts of a derivation. -/
def partNodes (g : Tables) : Derivation → List Node
  | .leaf .. => []
  | .node position _ _ _ _ parts => addParts g {} (marksOf g position) parts []

end Derivation

end StyleAudit.Markup
