import StyleAudit.Table

/-!
# Class sheets

What a stylesheet says about classes: the identifiers it defines, each with the line of its first
definition, and which classes are nested under which. A fact is one such statement, and a sheet is
what a list of facts adds up to.
-/

namespace StyleAudit.Style

structure Sheet where
  definitions : Table Int := []
  nesting : Table (List String) := []
deriving DecidableEq, Repr

inductive Fact where
  | defines (identifier : String) (line : Int)
  | nests (parent child : String)
deriving DecidableEq, Repr

namespace Sheet

/-- Records a definition; the first one of an identifier keeps its line. -/
def define (s : Sheet) (identifier : String) (line : Int) : Sheet :=
  { s with definitions := s.definitions.putNew identifier line }

/-- Records a class nested under another. -/
def addChild (s : Sheet) (parent child : String) : Sheet :=
  { s with nesting := s.nesting.alter parent [] (addName · child) }

def children (s : Sheet) (parent : String) : List String :=
  (s.nesting.find? parent).getD []

def hasChildren (s : Sheet) (parent : String) : Bool :=
  !(s.children parent).isEmpty

def learn (s : Sheet) : Fact → Sheet
  | .defines identifier line => s.define identifier line
  | .nests parent child => s.addChild parent child

/-- The sheet after a list of facts. -/
def learnAll (s : Sheet) (facts : List Fact) : Sheet :=
  facts.foldl learn s

end Sheet

end StyleAudit.Style
