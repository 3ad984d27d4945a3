import Std.Data.HashMap
import StyleAudit.Markup.Grammar

/-!
# Tables of a grammar

Before a source is read, the grammar is brought into tables. A position says how far an alternative
of a rule has been read, and the tables have the moves from every position to the next. For every
rule they have the rules that it can begin with, its corners, and what can follow them there.

Tokens and rules are numbered, the tokens first. Sets of tokens are numbers, with a bit for each.
-/

namespace StyleAudit.Markup

/-- How far an alternative of a rule has been read. -/
structure Position where
  rule : Nat
  level : Level
  side : Option Side
  weight : Int
  /-- The marks of the parts that have been read, the last first. -/
  read : List Mark
  rest : Phrase
deriving DecidableEq

/-- A symbol that a position can read, and the position after it. -/
structure Move where
  symbol : Nat
  target : Nat
deriving DecidableEq

abbrev TokenSet := Nat

/-- What can follow a rule that begins another rule: tokens that follow in any case, and whether
what follows the other rule follows this one too. -/
structure Corner where
  follow : TokenSet
  inherits : Bool
deriving DecidableEq

/-- What is known of the grammar before a source is seen. -/
structure Tables where
  tokens : Array Token
  words : Std.HashMap String Nat
  /-- The longest first. -/
  marks : List (List Char × Nat)
  rules : Array Rule
  positions : Array Position
  moves : Array (List Move)
  /-- By position: nothing need follow. -/
  complete : Array Bool
  /-- By position: the tokens that can be read next. -/
  next : Array TokenSet
  /-- By rule: the moves at its start. -/
  starts : Array (List Move)
  /-- By rule: the rules that it can begin with, itself among them. -/
  corners : Array (List (Nat × Corner))

namespace Tables

/-! ### Numbering -/

/-- The tokens of some rules: those that are known by their form, and then the others in order of
appearance. -/
def tokensOf (rules : List Rule) : Array Token :=
  let symbols := rules.flatMap fun r => r.alternatives.flatMap fun a => a.phrase.symbols
  let add := fun (seen : Array Token) (s : Symbol) =>
    match s with
    | .token t => if seen.contains t then seen else seen.push t
    | .rule _ => seen
  symbols.foldl add Token.forms.toArray

def numbersOf (tokens : Array Token) (rules : List Rule) : Std.HashMap Symbol Nat :=
  let symbols := tokens.toList.map Symbol.token ++ rules.map fun r => Symbol.rule r.name
  .ofList symbols.zipIdx

def wordsOf (tokens : Array Token) : Std.HashMap String Nat :=
  .ofList <| tokens.toList.zipIdx.filterMap fun (t, n) =>
    match t with
    | .word spelling => some (spelling, n)
    | _ => none

def marksOf (tokens : Array Token) : List (List Char × Nat) :=
  let marks := tokens.toList.zipIdx.filterMap fun (t, n) =>
    match t with
    | .mark spelling => some (spelling.toList, n)
    | _ => none
  marks.mergeSort fun a b => b.1.length ≤ a.1.length

/-! ### Positions -/

/-- The positions before any part has been read. -/
def startsOf (rules : List Rule) : List Position :=
  rules.zipIdx.flatMap fun (r, i) => r.alternatives.map fun a =>
    { rule := i, level := a.level, side := a.side, weight := a.weight, read := [], rest := a.phrase }

/-- Positions with their moves, while the positions after them are being numbered. -/
structure Layer where
  moves : Array (List Move) := #[]
  targets : Array Position := #[]
  /-- The targets that belong to the rule at hand, with their numbers. -/
  current : List (Position × Nat) := []

/-- Adds the moves of one position. -/
def Layer.add (number : Symbol → Nat) (offset : Nat) (layer : Layer) (p : Position) : Layer :=
  let fresh := layer.current.head?.all fun (q, _) => q.rule == p.rule
  let layer := if fresh then layer else { layer with current := [] }
  let step := fun (acc : Layer × List Move) (head : Symbol × Mark × Phrase) =>
    let (layer, ms) := acc
    let (s, m, rest) := head
    let q := { p with read := m :: p.read, rest }
    match layer.current.find? (·.1 == q) with
    | some (_, n) => (layer, ⟨number s, n⟩ :: ms)
    | none =>
      let n := offset + layer.targets.size
      ({ layer with targets := layer.targets.push q, current := (q, n) :: layer.current },
        ⟨number s, n⟩ :: ms)
  let (layer, ms) := p.rest.heads.foldl step (layer, [])
  { layer with moves := layer.moves.push ms.reverse.eraseDups }

/-- All positions and their moves, from the given layer on; those with more parts read come later. -/
def layersFrom (number : Symbol → Nat) : (depth offset : Nat) → List Position →
    List Position × List (List Move)
  | 0, _, _ => ([], [])
  | _, _, [] => ([], [])
  | depth + 1, offset, ps =>
    let layer := ps.foldl (Layer.add number (offset + ps.length)) {}
    let (positions, moves) := layersFrom number depth (offset + ps.length) layer.targets.toList
    (ps ++ positions, layer.moves.toList ++ moves)

/-- No alternative has more parts in a row than this. -/
def maxParts : Nat := 64

/-! ### First tokens -/

def bit (token : Nat) : TokenSet :=
  1 <<< token

/-- The moves at the start of each rule. -/
def startMoves (ruleCount : Nat) (starts : List Position) (moves : List (List Move)) :
    Array (List Move) :=
  (starts.zip moves).foldl
    (fun table (p, ms) => table.modify p.rule (· ++ ms))
    (Array.replicate ruleCount [])

/-- The tokens that some moves can begin with. -/
def firstOf (first : Array TokenSet) (ms : List Move) : TokenSet :=
  ms.foldl (fun acc m => acc ||| first.getD m.symbol 0) 0

/-- Enlarges the sets of first tokens until they no longer grow. -/
def growFirst (tokenCount : Nat) (starts : Array (List Move)) : Nat → Array TokenSet →
    Array TokenSet
  | 0, first => first
  | fuel + 1, first =>
    let grown := starts.toList.zipIdx.foldl
      (fun first (ms, i) => first.setIfInBounds (tokenCount + i) (firstOf first ms))
      first
    if grown == first then first else growFirst tokenCount starts fuel grown

/-! ### Corners -/

/-- Joins what is known of a corner. -/
def addCorner (table : Array (Option Corner)) (rule : Nat) (c : Corner) : Array (Option Corner) :=
  table.modify rule fun known =>
    match known with
    | none => some c
    | some k => some ⟨k.follow ||| c.follow, k.inherits || c.inherits⟩

/-- The rules that a rule begins with, directly: the rule, what follows it, and whether nothing need
follow. -/
abbrev RuleMoves := Array (List (Nat × TokenSet × Bool))

def growCorners (ruleMoves : RuleMoves) : Nat → Array (Option Corner) → Array (Option Corner)
  | 0, table => table
  | fuel + 1, table =>
    let grown := ruleMoves.toList.zipIdx.foldl
      (fun table (ms, i) =>
        match table.getD i none with
        | none => table
        | some c => ms.foldl
            (fun table (rule, follow, final) =>
              addCorner table rule
                ⟨if final then follow ||| c.follow else follow, final && c.inherits⟩)
            table)
      table
    if grown == table then table else growCorners ruleMoves fuel grown

/-- The corners of a rule; it begins with itself. -/
def cornersOf (ruleMoves : RuleMoves) (rule : Nat) : List (Nat × Corner) :=
  let table := growCorners ruleMoves (2 * ruleMoves.size)
    ((Array.replicate ruleMoves.size none).setIfInBounds rule (some ⟨0, true⟩))
  table.toList.zipIdx.filterMap fun (c, r) => c.map (r, ·)

/-! ### Tables -/

def ofRules (rules : List Rule) : Tables :=
  let tokens := tokensOf rules
  let numbers := numbersOf tokens rules
  let beginnings := startsOf rules
  let (positions, moves) := layersFrom (fun s => numbers.getD s 0) maxParts 0 beginnings
  let starts := startMoves rules.length beginnings moves
  let first := growFirst tokens.size starts rules.length
    (Array.ofFn fun i : Fin (tokens.size + rules.length) => if i < tokens.size then bit i else 0)
  let complete := (positions.map (·.rest.isOptional)).toArray
  let next := (moves.map (firstOf first)).toArray
  let ruleMoves := starts.map fun ms => ms.filterMap fun m =>
    if m.symbol < tokens.size then none
    else some (m.symbol - tokens.size, next.getD m.target 0, complete.getD m.target false)
  { tokens, words := wordsOf tokens, marks := marksOf tokens, rules := rules.toArray
    positions := positions.toArray, moves := moves.toArray, complete, next, starts
    corners := Array.ofFn fun i : Fin rules.length => cornersOf ruleMoves i }

def position (g : Tables) (p : Nat) : Position :=
  g.positions.getD p ⟨0, .usual, none, 0, [], .empty⟩

def token (g : Tables) (n : Nat) : Token :=
  g.tokens.getD n .sourceEnd

/-- Symbols are tokens and rules. -/
def symbolCount (g : Tables) : Nat :=
  g.tokens.size + g.rules.size

/-- The tokens that have a property. -/
def tokensWith (g : Tables) (q : Token → Bool) : TokenSet :=
  g.tokens.toList.zipIdx.foldl (fun acc (t, n) => if q t then acc ||| bit n else acc) 0

end Tables

/-- The tokens of the first set that are not in the second. -/
def TokenSet.minus (a b : TokenSet) : TokenSet :=
  a ^^^ (a &&& b)

end StyleAudit.Markup
