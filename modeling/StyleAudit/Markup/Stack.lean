import StyleAudit.Markup.Derivation
import StyleAudit.Markup.Machine

/-!
# The stack of readings

When a source can be read in several ways, the readings share what they have in common. The stack is
a graph: a vertex is a state at a place, its links lead down to the vertices before it, each with
the derivation in between, and every head is the top of one reading. Two readings that reach the
same state at the same place are joined into one. Of derivations that fill the same gap the one of
greater weight is kept, and else the one that was there first; those of different shape are kept
side by side until their rule is completed.
-/

namespace StyleAudit.Markup

structure Link where
  below : Nat
  tree : Derivation

structure Vertex where
  /-- The number of a state of the machine. -/
  state : Nat
  place : Place
  /-- The greatest weight of a way down from here. -/
  weight : Int
  links : List Link

inductive Outlook where
  | active
  /-- The reading has become part of another one. -/
  | ended
  /-- The next token cannot be used. -/
  | stuck
deriving DecidableEq

structure Head where
  vertex : Nat
  outlook : Outlook

structure Stack where
  vertices : Array Vertex
  heads : Array Head

namespace Stack

/-- Vertices have no more links than this. -/
def maxLinks : Nat := 8

/-- No more readings than this are followed at a time. -/
def maxReadings : Nat := 6

/-- So many readings more may come up within one step. -/
def spareReadings : Nat := 4

/-- No more ways down than this are looked at. -/
def maxWays : Nat := 64

def vertex (s : Stack) (v : Nat) : Vertex :=
  s.vertices.getD v ⟨0, ⟨0, 0, []⟩, 0, []⟩

def head (s : Stack) (i : Nat) : Head :=
  s.heads.getD i ⟨0, .ended⟩

/-- The vertex at the top of a reading. -/
def top (s : Stack) (i : Nat) : Vertex :=
  s.vertex (s.head i).vertex

def isActive (s : Stack) (i : Nat) : Bool :=
  (s.head i).outlook == .active

def setOutlook (s : Stack) (i : Nat) (outlook : Outlook) : Stack :=
  { s with heads := s.heads.modify i ({ · with outlook }) }

/-- The stack before a source. -/
def start (place : Place) : Stack :=
  ⟨#[⟨0, place, 0, []⟩], #[⟨0, .active⟩]⟩

/-- Puts a derivation on a vertex. -/
def push (s : Stack) (below : Nat) (tree : Derivation) (state : Nat) : Stack × Nat :=
  let weight := (s.vertex below).weight + tree.weight
  let v := s.vertices.size
  (⟨s.vertices.push ⟨state, tree.stop, weight, [⟨below, tree⟩]⟩, s.heads⟩, v)

/-- Puts a derivation on a reading. -/
def pushOn (s : Stack) (i : Nat) (tree : Derivation) (state : Nat) : Stack :=
  let (s, v) := s.push (s.head i).vertex tree state
  { s with heads := s.heads.modify i ({ · with vertex := v }) }

/-! ### Joining -/

/-- Two vertices stand for the same state at the same place. -/
def sameVertex (s : Stack) (v w : Nat) : Bool :=
  let a := s.vertex v
  let b := s.vertex w
  a.place.offset == b.place.offset && a.state == b.state

/-- What a link has in common with a link that it is added to. -/
inductive Meeting where
  /-- Both fill the gap between the same vertices. -/
  | same (index : Nat)
  /-- They are alike, and lead to vertices that can be joined. -/
  | joinable (below : Nat)

/-- The first of some links that a new link meets. -/
def meeting? (s : Stack) (link : Link) : (index : Nat) → List Link → Option Meeting
  | _, [] => none
  | index, l :: ls =>
    if l.tree.isAlike link.tree && l.below == link.below then some (.same index)
    else if l.tree.isAlike link.tree && s.sameVertex l.below link.below then
      some (.joinable l.below)
    else meeting? s link (index + 1) ls

/-- Raises the weight of a vertex to that of a way down. -/
def raiseWeight (s : Stack) (v : Nat) (weight : Int) : Stack :=
  { s with vertices := s.vertices.modify v fun x =>
      if x.weight < weight then { x with weight } else x }

/-- Adds a link to a vertex; where links meet, the vertices below are joined too. -/
def addLink : (depth : Nat) → Stack → (v : Nat) → Link → Stack
  | 0, s, _, _ => s
  | depth + 1, s, v, link =>
    let weight := (s.vertex link.below).weight + link.tree.weight
    let links := (s.vertex v).links
    if link.below == v then s
    else match s.meeting? link 0 links with
      | some (.same index) =>
        match links[index]? with
        | none => s
        | some l =>
          if l.tree.weight < link.tree.weight then
            { s with vertices := s.vertices.modify v ({ · with links := links.set index link, weight }) }
          else s
      | some (.joinable below) =>
        let s := (s.vertex link.below).links.foldl (fun s l => addLink depth s below l) s
        s.raiseWeight v weight
      | none =>
        if maxLinks ≤ links.length then s
        else
          let s := { s with vertices := s.vertices.modify v ({ · with links := links ++ [link] }) }
          s.raiseWeight v weight

/-- Joins the second of two readings to the first, if they stand at the same vertex. -/
def join? (s : Stack) (i j : Nat) : Option Stack :=
  if s.isActive i && s.isActive j && s.sameVertex (s.head i).vertex (s.head j).vertex then
    let v := (s.head i).vertex
    let joined := (s.top j).links.foldl (fun t l => addLink s.vertices.size t v l) s
    some { joined with heads := joined.heads.eraseIdxIfInBounds j }
  else none

/-! ### Ways down -/

/-- A way down from the top: the vertex it has reached, the parts it still has to pass, and the
derivations that it has passed, the lowest first. -/
structure Way where
  vertex : Nat
  left : Nat
  trees : List Derivation

def Way.along (w : Way) (l : Link) : Way :=
  ⟨l.below, if l.tree.isComment then w.left else w.left - 1, l.tree :: w.trees⟩

/-- One step down on every way: those that have arrived, those that go on by the first link of their
vertex, and those that go on by another link. -/
def stepDown (s : Stack) : (room : Nat) → List Way → List Way × List Way × List Way
  | _, [] => ([], [], [])
  | room, w :: ws =>
    if w.left == 0 then
      let (arrived, first, other) := stepDown s room ws
      (w :: arrived, first, other)
    else match (s.vertex w.vertex).links with
      | [] => stepDown s room ws
      | l :: ls =>
        let added := (ls.take room).map w.along
        let (arrived, first, other) := stepDown s (room - added.length) ws
        (arrived, w.along l :: first, added ++ other)

/-- The ways down past some parts. Comments do not count as parts. -/
def waysFrom (s : Stack) : (depth : Nat) → List Way → List Way
  | 0, _ => []
  | _, [] => []
  | depth + 1, ws =>
    let (arrived, first, other) := s.stepDown (maxWays - ws.length) ws
    arrived ++ waysFrom s depth (first ++ other)

/-- The ways that arrive at the same vertex, in order of their first ones. -/
def groupWays : List Way → List (List Way)
  | [] => []
  | w :: ws =>
    match groupWays ws with
    | groups =>
      let (same, others) := groups.partition fun g => g.head?.any (·.vertex == w.vertex)
      (w :: same.flatten) :: others

def ways (s : Stack) (v count : Nat) : List (List Way) :=
  groupWays (waysFrom s (s.vertices.size + 1) [⟨v, count, []⟩])

end Stack

end StyleAudit.Markup
