import StyleAudit.Markup.Stack

/-!
# From source to syntax tree

All readings of a source go on side by side, one token at a time. A reading that cannot use its next
token is given up as long as another one goes on; if none does, the source has a fault there, and
its tree is a single fault.
-/

namespace StyleAudit.Markup

/-- The readings of a source so far, and the best derivation of the whole source. -/
structure Progression where
  stack : Stack
  /-- The furthest place that a reading has reached. -/
  reached : Nat := 0
  result : Option Derivation := none

namespace Progression

/-! ### Completing a rule -/

/-- The parts of a rule, without the comments after the last of them. -/
def splitComments (trees : List Derivation) : List Derivation × List Derivation :=
  let comments := (trees.reverse.takeWhile Derivation.isComment).reverse
  (trees.take (trees.length - comments.length), comments)

/-- The best derivation of a rule by several ways, with the comments after it. -/
def bestOf (m : Machine) (position : Nat) (place : Place) (ways : List Stack.Way) :
    Option (Derivation × List Derivation) :=
  ways.foldl
    (fun best w =>
      let (parts, comments) := splitComments w.trees
      let d := Derivation.ofParts m.tables position place parts
      match best with
      | none => some (d, comments)
      | some (b, _) => if b.isBetter d then some (d, comments) else best)
    none

/-- The first reading before the last one that the last one can be joined to. -/
def joinLast (s : Stack) (except : Nat) : (candidates : List Nat) → Stack
  | [] => s
  | i :: is =>
    if i == except then joinLast s except is
    else match s.join? i (s.heads.size - 1) with
      | some joined => joined
      | none => joinLast s except is

/-- Makes a reading of the derivation of a rule on a vertex. -/
def branch (m : Machine) (i base : Nat) (d : Derivation) (rule : Nat)
    (comments : List Derivation) (s : Stack) : Stack :=
  let state := m.afterRule (s.vertex base).state rule
  let (s, v) := s.push base d state
  let (s, v) := comments.foldl (fun (s, v) c => s.push v c state) (s, v)
  let s := { s with heads := s.heads.push ⟨v, .active⟩ }
  joinLast s i (List.range (s.heads.size - 1))

/-- The better of the result and a new derivation of the whole source. -/
def finish (p : Progression) (d : Derivation) : Progression :=
  match p.result with
  | none => { p with result := some d }
  | some r => if r.isBetter d then { p with result := some d } else p

/-- Completes a rule on a reading: every way down makes a reading of its own. -/
def complete (m : Machine) (i position : Nat) (p : Progression) : Progression :=
  let rule := (m.tables.position position).rule
  let count := (m.tables.position position).read.length
  let place := (p.stack.top i).place
  (p.stack.ways (p.stack.head i).vertex count).foldl
    (fun p ways =>
      let ended := p.stack.heads.countP (·.outlook == .ended)
      match ways.head?, bestOf m position place ways with
      | some w, some (d, comments) =>
        if rule == 0 then p.finish d
        else if Stack.maxReadings + Stack.spareReadings + ended < p.stack.heads.size then p
        else { p with stack := branch m i w.vertex d rule comments p.stack }
      | _, _ => p)
    p

/-! ### One token -/

/-- Puts a reading in the place of another one. -/
def renumber (s : Stack) (source target : Nat) : Stack :=
  { s with heads := (s.heads.setIfInBounds target (s.head source)).eraseIdxIfInBounds source }

/-- What is done with a token on one reading: rules are completed until the token can be read, or
cannot be used. -/
def useToken (m : Machine) (i : Nat) : (fuel : Nat) → Lexed → Progression → Progression
  | 0, _, p => { p with stack := p.stack.setOutlook i .stuck }
  | fuel + 1, t, p =>
    let state := (p.stack.top i).state
    let leaf := Derivation.leaf t.token t.start t.stop
    if leaf.isComment then { p with stack := p.stack.pushOn i leaf state }
    else if !(m.tokens state).testBit t.token then
      if (m.tables.token t.token).isWord && (m.tokens state).testBit (Tables.form .identifier) then
        useToken m i fuel { t with token := Tables.form .identifier } p
      else { p with stack := p.stack.setOutlook i .stuck }
    else
      let action := m.action state t.token
      let (p, last) := action.completions.foldl
        (fun (p, last) position =>
          let before := p.stack.heads.size
          let p := p.complete m i position
          (p, if before < p.stack.heads.size then some before else last))
        (p, none)
      if action.shift then { p with stack := p.stack.pushOn i leaf (m.after state t.token) }
      else match last with
        | some n => useToken m i fuel t { p with stack := renumber p.stack n i }
        | none => { p with stack := p.stack.setOutlook i .ended }

/-- Reads one token on a reading. -/
def advance (m : Machine) (fuel i : Nat) (p : Progression) : Progression :=
  let top := p.stack.top i
  match m.tables.nextToken (m.tokens top.state) top.place with
  | none => { p with stack := p.stack.setOutlook i .stuck }
  | some t => useToken m i fuel t p

/-- Reads tokens on a reading until it has caught up with the others; the first reading goes ahead. -/
def catchUp (m : Machine) (bound i : Nat) : (fuel : Nat) → Progression → Progression
  | 0, p => p
  | fuel + 1, p =>
    if p.stack.isActive i then
      let p := p.advance m bound i
      let offset := (p.stack.top i).place.offset
      if p.reached < offset || 0 < i && offset == p.reached then { p with reached := offset }
      else catchUp m bound i fuel p
    else p

/-- Catches up on every reading, also on those that come up meanwhile. -/
def catchUpAll (m : Machine) (bound : Nat) : (fuel i : Nat) → Progression → Progression
  | 0, _, p => p
  | fuel + 1, i, p =>
    if i < p.stack.heads.size then catchUpAll m bound fuel (i + 1) (p.catchUp m bound i bound)
    else p

/-! ### Keeping the best readings -/

/-- What is compared of two readings. -/
structure Standing where
  stuck : Bool
  weight : Int

def standing (s : Stack) (i : Nat) : Standing :=
  ⟨(s.head i).outlook == .stuck, (s.top i).weight⟩

/-- Compares a reading with those before it. A reading that is stuck gives way to one that is not,
readings at the same vertex are joined, and a reading of greater weight moves to the front. -/
def settle : (fuel i j : Nat) → Standing → Stack → Stack × Nat
  | 0, i, _, _, s => (s, i + 1)
  | fuel + 1, i, j, own, s =>
    if i ≤ j then (s, i + 1)
    else
      let other := standing s j
      if !other.stuck && own.stuck then ({ s with heads := s.heads.eraseIdxIfInBounds i }, i)
      else if other.stuck && !own.stuck then
        settle fuel (i - 1) j own { s with heads := s.heads.eraseIdxIfInBounds j }
      else match s.join? j i with
        | some joined => (joined, i)
        | none =>
          if other.weight < own.weight then
            settle fuel i (j + 1) own { s with heads := s.heads.swapIfInBounds i j }
          else settle fuel i (j + 1) own s

def condenseFrom : (fuel i : Nat) → Stack → Stack
  | 0, _, s => s
  | fuel + 1, i, s =>
    if i < s.heads.size then
      if (s.head i).outlook == .ended then
        condenseFrom fuel i { s with heads := s.heads.eraseIdxIfInBounds i }
      else
        let (s, next) := settle (2 * s.heads.size) i 0 (standing s i) s
        condenseFrom fuel next s
    else s

/-- The readings that are worth going on with, the best first. -/
def condense (s : Stack) : Stack :=
  let s := condenseFrom (2 * s.heads.size + 2) 0 s
  { s with heads := s.heads.take Stack.maxReadings }

/-! ### All tokens -/

/-- Goes on until all readings have come to an end. -/
def run (m : Machine) (bound : Nat) : (fuel : Nat) → Progression → Progression
  | 0, p => p
  | fuel + 1, p =>
    let p := p.catchUpAll m bound bound 0
    let p := { p with stack := condense p.stack }
    if p.stack.heads.any (·.outlook == .active) then run m bound fuel p else p

end Progression

/-- The machine of the grammar of markup sources; it is built when it is first needed. -/
def machine : Thunk Machine :=
  .mk fun _ => .ofRules Grammar.rules

/-- The derivation of a whole source, or the place beyond which it cannot be read. -/
def derive (m : Machine) (source : List Char) : Except Place Derivation :=
  let place : Place := ⟨0, 0, source⟩
  let bound := 1000 + 100 * source.length
  let p := Progression.run m bound bound { stack := .start place }
  match p.result with
  | some d => .ok d
  | none => .error (place.advance p.reached)

/-- The syntax tree of a source. -/
def parse (source : String) : Node :=
  let m := machine.get
  match derive m source.toList with
  | .ok d => .mk { kind := .program } (d.partNodes m.tables)
  | .error place => .mk { kind := .program } [.mk { kind := .fault, row := place.row } []]

end StyleAudit.Markup
