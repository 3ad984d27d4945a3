import StyleAudit.Markup.Automaton

/-!
# Reactions to tokens

An action says what to do at a token: which rules to complete there, and whether to read the token.
Of rules that are complete at the same token, those of the tightest level are completed. Where the
token can be read as well, the levels of the rules decide, and then the side to which the complete
ones group; if neither does, the source is read both ways.
-/

namespace StyleAudit.Markup

open Grammar (Rank)

/-! ### Standings -/

/-- What decides between competing readings. -/
structure Standing where
  level : Level
  rules : List Nat

namespace Standing

/-- The standing of a position. -/
def ofPosition (p : Position) : Standing :=
  ⟨p.level, [p.rule]⟩

def hasRank (g : Tables) (s : Standing) : Rank → Bool
  | .level name => s.level == .named name
  | .rule name => s.rules.any fun r => (g.rules[r]?.map (·.name)) == some name

/-- Which of two standings comes first in an order, if it has both. -/
def orderedBy (g : Tables) (a b : Standing) : (seenA seenB : Bool) → List Rank → Option Ordering
  | _, _, [] => none
  | seenA, seenB, r :: rs =>
    if a.hasRank g r then
      if seenB then some .lt else orderedBy g a b true seenB rs
    else if b.hasRank g r then
      if seenA then some .gt else orderedBy g a b seenA true rs
    else orderedBy g a b seenA seenB rs

def compareNamed (g : Tables) (a b : Standing) : Ordering :=
  (Grammar.orders.findSome? (orderedBy g a b false false)).getD .eq

/-- The order of two standings: by ranks if one of them has a rank other than zero, and else by the
first order of levels that has both. -/
def order (g : Tables) (a b : Standing) : Ordering :=
  match a.level, b.level with
  | .rank m, .rank n => if m != 0 || n != 0 then compare m n else compareNamed g a b
  | .rank m, .usual => if m != 0 then compare m 0 else compareNamed g a b
  | .usual, .rank n => if n != 0 then compare 0 n else compareNamed g a b
  | _, _ => compareNamed g a b

end Standing

/-! ### Complete rules -/

/-- The rules that can be completed at a token, while they are being compared. -/
structure Completions where
  positions : List Nat := []
  standing : Standing := ⟨.usual, []⟩
  sides : List (Option Side) := []

namespace Completions

def join (n : Nat) (p : Position) (c : Completions) : Completions where
  positions := c.positions ++ [n]
  standing := ⟨p.level, p.rule :: c.standing.rules⟩
  sides := p.side :: c.sides

/-- Adds a position whose rule can be completed, unless a tighter one is known. -/
def add (g : Tables) (c : Completions) (n : Nat) : Completions :=
  let p := g.position n
  if c.positions.isEmpty then c.join n p
  else match (Standing.ofPosition p).order g c.standing with
    | .gt => join n p {}
    | .eq => c.join n p
    | .lt => c

end Completions

/-- What becomes of the tokens that can be read where some rules are complete. -/
structure Contest where
  /-- The positions whose rules are completed. -/
  completions : List Nat
  /-- The tokens at which they are only completed. -/
  closed : TokenSet
  /-- The tokens that are only read. -/
  read : TokenSet

/-- The contest between complete positions and those that go on. -/
def Contest.of (g : Tables) (core complete : List Nat) : Contest :=
  let c := complete.foldl (Completions.add g) {}
  let ranked := core.map fun n =>
    ((Standing.ofPosition (g.position n)).order g c.standing, g.next.getD n 0)
  let tokensAt := fun o => ranked.foldl (fun acc (p, ts) => if p == o then acc ||| ts else acc) 0
  let tighter := tokensAt .gt
  let looser := tokensAt .lt
  let even := (tokensAt .eq).minus (tighter ||| looser)
  let read := tighter.minus looser
  let closed := looser.minus tighter
  if c.sides.all (· == some .left) then ⟨c.positions, closed ||| even, read⟩
  else if c.sides.all (· == some .right) then ⟨c.positions, closed, read ||| even⟩
  else ⟨c.positions, closed, read⟩

/-! ### Reactions -/

/-- What to do at a token. -/
structure Action where
  /-- The positions whose rules are to be completed. -/
  completions : List Nat
  /-- The token is to be read. -/
  shift : Bool
deriving DecidableEq, Inhabited

/-- Actions, each with the tokens at which it is taken. -/
abbrev Reactions := List (Action × TokenSet)

namespace Reactions

def add (a : Action) (ts : TokenSet) : Reactions → Reactions
  | [] => if ts == 0 then [] else [(a, ts)]
  | (b, us) :: rest => if a == b then (b, us ||| ts) :: rest else (b, us) :: add a ts rest

/-- The tokens at which something can be done. -/
def tokens (rs : Reactions) : TokenSet :=
  rs.foldl (fun acc (_, ts) => acc ||| ts) 0

/-- The tokens that can be read. -/
def shifts (rs : Reactions) : TokenSet :=
  rs.foldl (fun acc (a, ts) => if a.shift then acc ||| ts else acc) 0

/-- The action at a token. -/
def at? (rs : Reactions) (token : Nat) : Option Action :=
  (rs.find? fun (_, ts) => ts.testBit token).map (·.1)

end Reactions

namespace Kernel

/-- The tokens at which some positions are complete, apart by the positions. -/
def closings (g : Tables) (k : Kernel) : List (List Nat × TokenSet) :=
  (k.reverse.filter fun i => g.complete.getD i.position false).foldl
    (fun parts i =>
      let seen := parts.foldl (fun acc (_, ts) => acc ||| ts) 0
      let inside := parts.map fun (ps, ts) => (ps ++ [i.position], ts &&& i.follow)
      let outside := parts.map fun (ps, ts) => (ps, ts.minus i.follow)
      (inside ++ outside ++ [([i.position], i.follow.minus seen)]).filter (·.2 != 0))
    []

/-- Contests of one core that have been decided, by the complete positions. -/
abbrev Contests := List (List Nat × Contest)

/-- The contest of some complete positions; it is decided only once. -/
def contest (g : Tables) (core : List Nat) (known : Contests) (complete : List Nat) :
    Contest × Contests :=
  match known.find? (·.1 == complete) with
  | some (_, c) => (c, known)
  | none =>
    let c := Contest.of g core complete
    (c, (complete, c) :: known)

/-- The reactions of a kernel, given what its core can read. -/
def reactions (g : Tables) (core : List Nat) (shifts : TokenSet) (known : Contests) (k : Kernel) :
    Reactions × Contests :=
  let parts := k.closings g
  let closing := parts.foldl (fun acc (_, ts) => acc ||| ts) 0
  parts.foldl
    (fun (rs, known) (complete, ts) =>
      let (c, known) := contest g core known complete
      let contested := ts &&& shifts
      let rs := Reactions.add ⟨c.completions, false⟩ (ts.minus shifts ||| contested &&& c.closed) rs
      let rs := Reactions.add ⟨[], true⟩ (contested &&& c.read) rs
      let both := contested.minus (c.closed ||| c.read)
      (Reactions.add ⟨c.completions, true⟩ both rs, known))
    (Reactions.add ⟨[], true⟩ (shifts.minus closing) [], known)

end Kernel

end StyleAudit.Markup
