import StyleAudit.Markup.Tables

/-!
# The automaton of a grammar

While a source is read, it is known which positions in the rules have been reached, and for each of
them which tokens can follow once its rule is complete: this is a kernel. `successors` gives the
kernels one symbol further on. `Automaton.ofTables` explores all kernels from the start of the first
rule on, and numbers them in the order in which they are found.
-/

namespace StyleAudit.Markup

/-- A position that has been reached, and the tokens that can follow its rule. -/
structure Item where
  position : Nat
  follow : TokenSet
deriving DecidableEq, Hashable

/-- Items in falling order of their positions. -/
abbrev Kernel := List Item

namespace Kernel

/-- Adds an item; what can follow the same position is joined. -/
def insert (i : Item) : Kernel → Kernel
  | [] => [i]
  | j :: js =>
    if j.position < i.position then i :: j :: js
    else if i.position == j.position then ⟨j.position, j.follow ||| i.follow⟩ :: js
    else j :: insert i js

/-- The positions alone. -/
def core (k : Kernel) : List Nat :=
  k.map (·.position)

/-- The kernel before a source: the first rule is to be read up to the end. -/
def start (g : Tables) : Kernel :=
  (g.positions.toList.zipIdx.filter fun (p, _) => p.rule == 0 && p.read.isEmpty).foldl
    (fun k (_, n) => insert ⟨n, Tables.bit 0⟩ k) []

/-! ### One symbol further on -/

/-- Adds a rule that can be read next. -/
def addExpected (rule : Nat) (follow : TokenSet) : List (Nat × TokenSet) → List (Nat × TokenSet)
  | [] => [(rule, follow)]
  | (r, f) :: rest =>
    if r == rule then (r, f ||| follow) :: rest else (r, f) :: addExpected rule follow rest

/-- The rules that can be read next, with the tokens that can follow them. -/
def expected (g : Tables) (k : Kernel) : List (Nat × TokenSet) :=
  k.foldl
    (fun acc i => (g.moves.getD i.position []).foldl
      (fun acc m =>
        if m.symbol < g.tokens.size then acc
        else
          let after := g.next.getD m.target 0
          addExpected (m.symbol - g.tokens.size)
            (if g.complete.getD m.target false then after ||| i.follow else after) acc)
      acc)
    []

/-- By rule: the tokens that can follow it if it begins here; none if it does not. -/
def opened (g : Tables) (k : Kernel) : Array TokenSet :=
  (k.expected g).foldl
    (fun table (rule, follow) => (g.corners.getD rule []).foldl
      (fun table (r, c) => table.modify r fun known =>
        known ||| if c.inherits then c.follow ||| follow else c.follow)
      table)
    (Array.replicate g.rules.size 0)

/-- Moves on by one symbol, in all ways. -/
def addMoves (follow : TokenSet) (ms : List Move) (table : Array Kernel) : Array Kernel :=
  ms.foldl (fun table m => table.modify m.symbol (insert ⟨m.target, follow⟩)) table

/-- By symbol: the kernel after it. -/
def successors (g : Tables) (k : Kernel) : Array Kernel :=
  let fresh := ((k.opened g).zip g.starts).foldl
    (fun table (follow, ms) => if follow == 0 then table else addMoves follow ms table)
    (Array.replicate g.symbolCount [])
  k.foldl (fun table i => addMoves i.follow (g.moves.getD i.position []) table) fresh

end Kernel

/-! ### Exploration -/

/-- A symbol that can come next, and the number of the kernel after it. -/
structure Edge where
  symbol : Nat
  target : Nat

structure Automaton where
  kernels : Array Kernel
  /-- By kernel, in order of their symbols. -/
  edges : Array (List Edge)

/-- The kernels that have been found so far. -/
structure Exploration where
  kernels : Array Kernel
  edges : Array (List Edge)
  numbers : Std.HashMap Kernel Nat

namespace Exploration

/-- Adds the edge to a kernel, which is numbered if it is new. -/
def addEdge (symbol : Nat) (k : Kernel) (acc : Exploration × List Edge) : Exploration × List Edge :=
  let (⟨kernels, edges, numbers⟩, found) := acc
  match numbers[k]? with
  | some n => (⟨kernels, edges, numbers⟩, ⟨symbol, n⟩ :: found)
  | none =>
    let n := kernels.size
    (⟨kernels.push k, edges, numbers.insert k n⟩, ⟨symbol, n⟩ :: found)

/-- Adds the edges of one kernel. -/
def visit (g : Tables) (k : Kernel) (e : Exploration) : Exploration :=
  let (⟨kernels, edges, numbers⟩, found) := ((k.successors g).foldl
    (fun (acc, symbol) next =>
      (if next.isEmpty then acc else addEdge symbol next acc, symbol + 1))
    ((e, []), 0)).1
  ⟨kernels, edges.push found.reverse, numbers⟩

/-- Visits the kernels from the given number on, also those that are found meanwhile. -/
def visitFrom (g : Tables) : (fuel n : Nat) → Exploration → Exploration
  | 0, _, e => e
  | fuel + 1, n, e =>
    match e.kernels[n]? with
    | none => e
    | some k => visitFrom g fuel (n + 1) (e.visit g k)

end Exploration

/-- No grammar of interest has more kernels than this. -/
def Automaton.maxKernels : Nat := 1000000

def Automaton.ofTables (g : Tables) : Automaton :=
  let k := Kernel.start g
  let e := Exploration.visitFrom g maxKernels 0 ⟨#[k], #[], .ofList [(k, 0)]⟩
  ⟨e.kernels, e.edges⟩

end StyleAudit.Markup
