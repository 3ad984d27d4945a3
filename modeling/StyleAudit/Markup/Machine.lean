import StyleAudit.Markup.Reaction

/-!
# The machine that reads sources

Kernels with the same positions do much the same, whatever can follow them. They become one state
of the machine, unless they react to a token in different ways, or one of them knows a token that
would disturb the reading of the tokens of the other. What has become one state must also lead to
one state by every symbol, so that the kernels are set apart further until this holds.

* `Rivalry.isApart`: two kernels cannot be one state by themselves.
* `Classes.refine`: splits classes until every symbol leads from a class to a single one.
* `Machine.ofRules`: the machine of a grammar.
-/

namespace StyleAudit.Markup

/-! ### Disturbing tokens -/

namespace Token

/-- The token depends on more than its own characters, or the tokens that do depend on it. -/
def isContextual : Token → Bool
  | mark "||" => true
  | escape => true
  | regexText => true
  | impliedEnd => true
  | impliedSignatureEnd => true
  | templateText => true
  | conditionMark => true
  | elementText => true
  | _ => false

/-- The spelling of a word or a mark. -/
def spelling? : Token → Option (List Char)
  | word s => some s.toList
  | mark s => some s.toList
  | _ => none

/-- The token can begin with a character. -/
def opensWith (c : Char) : Token → Bool
  | word s => s.toList.head? == some c
  | mark s => s.toList.head? == some c
  | identifier => c.isAlpha
  | number => c.isDigit || c == '.'
  | regexText => true
  | comment => c == '/'
  | _ => false

/-- The character after the first of two spellings in the second, if that goes on. -/
def continuation? (shorter longer : Token) : Option Char :=
  match shorter.spelling?, longer.spelling? with
  | some s, some t => if s.isPrefixOf t then (t.drop s.length).head? else none
  | _, _ => none

end Token

/-! ### Profiles -/

/-- What a kernel does at which tokens. -/
structure Profile where
  reactions : Reactions
  tokens : TokenSet
  shifts : TokenSet
deriving DecidableEq, Inhabited

def Profile.ofReactions (rs : Reactions) : Profile :=
  ⟨rs, rs.tokens, rs.shifts⟩

/-- How tokens disturb each other. -/
structure Rivalry where
  contextual : TokenSet
  /-- Tokens, each with the shorter ones that it disturbs. -/
  rivals : List (Nat × TokenSet)

namespace Rivalry

/-- By token: the tokens that can come after it. Comments always can. -/
def followers (g : Tables) (a : Automaton) (profiles : Array Profile) : Array TokenSet :=
  a.edges.foldl
    (fun table es => es.foldl
      (fun table e => table.modify e.symbol (· ||| (profiles.getD e.target default).tokens)) table)
    (Array.replicate g.tokens.size (g.tokensWith Token.isComment))

/-- A token disturbs a shorter one if it goes on with a character that can begin a token after the
shorter one. -/
def ofAutomaton (g : Tables) (a : Automaton) (profiles : Array Profile) : Rivalry :=
  let followers := followers g a profiles
  let disturbed := fun (longer : Token) => (List.range g.tokens.size).filter fun n =>
    match (g.token n).continuation? longer with
    | some c => followers.getD n 0 &&& g.tokensWith (Token.opensWith c) != 0
    | none => false
  { contextual := g.tokensWith Token.isContextual
    rivals := g.tokens.toList.zipIdx.filterMap fun (t, n) =>
      match disturbed t with
      | [] => none
      | shorter => some (n, shorter.foldl (fun acc m => acc ||| Tables.bit m) 0) }

/-- Additional tokens would change how given tokens are read. -/
def disturbs (r : Rivalry) (additional given : TokenSet) : Bool :=
  additional != 0 && (additional &&& r.contextual != 0 ||
    r.rivals.any fun (n, shorter) => additional.testBit n && given &&& shorter != 0)

/-- Two kernels with these profiles cannot be one state: they do different things at a token that
both know, or a token that only one of them knows disturbs the other. -/
def isApart (r : Rivalry) (p q : Profile) : Bool :=
  (p.reactions.any fun (a, ts) => q.reactions.any fun (b, us) => ts &&& us != 0 && a != b) ||
    r.disturbs (p.tokens.minus q.tokens) q.tokens || r.disturbs (q.tokens.minus p.tokens) p.tokens

end Rivalry

/-! ### Classes -/

/-- A division of the kernels into classes. -/
structure Classes where
  /-- By kernel: the number of its class. -/
  classOf : Array Nat
  /-- By class, in order of their numbers. -/
  members : Array (List Nat)

namespace Classes

/-- The kernels with the same positions. -/
def byCore (kernels : Array Kernel) : Classes :=
  let (classOf, members, _) := kernels.foldl
    (fun (classOf, members, numbers) k =>
      let n := classOf.size
      match numbers[k.core]? with
      | some c => (classOf.push c, members.modify c (n :: ·), numbers)
      | none =>
        let c := members.size
        (classOf.push c, members.push [n], numbers.insert k.core c))
    ((#[] : Array Nat), (#[] : Array (List Nat)), ({} : Std.HashMap (List Nat) Nat))
  ⟨classOf, members.map List.reverse⟩

/-- The profiles of all kernels. -/
def profiles (g : Tables) (kernels : Array Kernel) (c : Classes) : Array Profile :=
  c.members.foldl
    (fun table ms =>
      let core := ((ms.head?.bind (kernels[·]?)).getD []).core
      let shifts := core.foldl (fun acc p => acc ||| g.next.getD p 0) 0
      (ms.foldl
        (fun (table, known) n =>
          let (rs, known) := Kernel.reactions g core shifts known (kernels.getD n [])
          (table.setIfInBounds n (Profile.ofReactions rs), known))
        (table, ([] : Kernel.Contests))).1)
    (Array.replicate kernels.size default)

/-! ### Refinement -/

/-- The members of a class that stay together and those that leave. A member leaves if it is apart
from one that stays. -/
def separate {κ : Type} [BEq κ] (key : Nat → κ) (apart : κ → κ → Bool) (ms : List Nat) :
    List Nat × List Nat :=
  let (_, stay, leave) := ms.foldl
    (fun (kept, stay, leave) m =>
      let k := key m
      if kept.contains k then (kept, m :: stay, leave)
      else if kept.any (apart k) then (kept, stay, m :: leave)
      else (k :: kept, m :: stay, leave))
    (([] : List κ), [], [])
  (stay.reverse, leave.reverse)

/-- Splits one class; those that leave are a new class. -/
def split (separate : Array Nat → List Nat → List Nat × List Nat) (n : Nat) (c : Classes) :
    Classes :=
  let ⟨classOf, members⟩ := c
  match separate classOf (members.getD n []) with
  | (_, []) => ⟨classOf, members⟩
  | (stay, leave) =>
    let fresh := members.size
    ⟨leave.foldl (fun table m => table.setIfInBounds m fresh) classOf,
      (members.setIfInBounds n stay).push leave⟩

/-- Splits the classes from the given number on, also those that come up meanwhile. -/
def splitFrom (separate : Array Nat → List Nat → List Nat × List Nat) :
    (fuel n : Nat) → Classes → Classes
  | 0, _, c => c
  | fuel + 1, n, c =>
    if n < c.members.size then splitFrom separate fuel (n + 1) (c.split separate n) else c

/-- Splits all classes. -/
def splitAll (separate : Array Nat → List Nat → List Nat × List Nat) (c : Classes) : Classes :=
  splitFrom separate c.classOf.size 0 c

/-- Splits all classes until this changes nothing. -/
def refine (separate : Array Nat → List Nat → List Nat × List Nat) : (fuel : Nat) → Classes → Classes
  | 0, c => c
  | fuel + 1, c =>
    let count := c.members.size
    let c := c.splitAll separate
    if c.members.size == count then c else refine separate fuel c

/-! ### Classes of an automaton -/

/-- The classes to which the edges of a kernel lead; none where a token is not read after all. -/
def targets (g : Tables) (a : Automaton) (profiles : Array Profile) (classOf : Array Nat) (n : Nat) :
    List (Option Nat) :=
  let shifts := (profiles.getD n default).shifts
  (a.edges.getD n []).map fun e =>
    if g.tokens.size ≤ e.symbol || shifts.testBit e.symbol then classOf[e.target]? else none

/-- The edges of two kernels lead to different classes. -/
def diverge (ts us : List (Option Nat)) : Bool :=
  (ts.zip us).any fun (t, u) => t.isSome && u.isSome && t != u

/-- The classes that become the states of a machine. -/
def ofAutomaton (g : Tables) (a : Automaton) (c : Classes) (profiles : Array Profile) : Classes :=
  let r := Rivalry.ofAutomaton g a profiles
  let alike := c.splitAll fun _ => separate (profiles.getD · default) r.isApart
  alike.refine (fun classOf => separate (targets g a profiles classOf) diverge) a.kernels.size

end Classes

/-! ### Machines -/

/-- A state of a machine. -/
structure State where
  reactions : Reactions
  /-- The tokens at which something can be done. -/
  tokens : TokenSet
  edges : List Edge
deriving Inhabited

/-- What is needed to read sources by a grammar. -/
structure Machine where
  tables : Tables
  states : Array State

namespace Machine

/-- The state that some kernels become. -/
def stateOf (g : Tables) (a : Automaton) (profiles : Array Profile) (classOf : Array Nat)
    (ms : List Nat) : State :=
  let reactions := ms.foldl
    (fun rs m => (profiles.getD m default).reactions.foldl (fun rs (x, ts) => Reactions.add x ts rs) rs)
    []
  let symbols := ((ms.head?.bind (a.edges[·]?)).getD []).map (·.symbol)
  let targets := (ms.map (Classes.targets g a profiles classOf)).foldl
    (List.zipWith fun known t => known.or t) (symbols.map fun _ => none)
  { reactions, tokens := Reactions.tokens reactions
    edges := (symbols.zip targets).filterMap fun (symbol, target) => target.map (⟨symbol, ·⟩) }

def ofTables (g : Tables) : Machine :=
  let a := Automaton.ofTables g
  let cores := Classes.byCore a.kernels
  let profiles := cores.profiles g a.kernels
  let c := Classes.ofAutomaton g a cores profiles
  ⟨g, c.members.map (stateOf g a profiles c.classOf)⟩

/-- The machine of a grammar. Its first state is the one before a source. -/
def ofRules (rules : List Rule) : Machine :=
  ofTables (.ofRules rules)

def state (m : Machine) (s : Nat) : State :=
  m.states.getD s default

/-- The tokens that can be used in a state. -/
def tokens (m : Machine) (s : Nat) : TokenSet :=
  (m.state s).tokens

/-- What to do at a token. -/
def action (m : Machine) (s token : Nat) : Action :=
  ((m.state s).reactions.at? token).getD default

/-- The state after a symbol; there is none for a symbol that cannot come next. -/
def after (m : Machine) (s symbol : Nat) : Nat :=
  (((m.state s).edges.find? (·.symbol == symbol)).map (·.target)).getD m.states.size

/-- The state after a rule. -/
def afterRule (m : Machine) (s rule : Nat) : Nat :=
  m.after s (m.tables.tokens.size + rule)

end Machine

end StyleAudit.Markup
