import StyleAudit.Markup.Expr
import StyleAudit.Markup.Naming
import StyleAudit.Markup.Usage
import StyleAudit.Style.Sheet
import StyleAudit.Text.Blank

/-!
# Classification

A class expression is walked from left to right. Literals give plain names, accesses give names of
the sheet that their object is bound to, and a computed access makes the names that came before it
in the same attribute candidates for parents: their nested classes may be what it reaches.
-/

namespace StyleAudit.Markup

open StyleAudit.Text

/-- What the walk over one attribute has seen, for each sheet: the names asked for, those of them
that came before a computed access, and the sheets with a computed access. -/
structure Scan where
  static : Table (List String) := []
  candidates : Table (List String) := []
  dynamic : List String := []
deriving DecidableEq, Repr

/-- How far a walk has come. It is stuck once it has met an expression of an unknown form. -/
structure Progress where
  use : MarkupUse
  scan : Scan := {}
  stuck : Option String := none
deriving DecidableEq, Repr

namespace Progress

/-- A step that is not taken any more once the walk is stuck. -/
def step (p : Progress) (f : Progress → Progress) : Progress :=
  if p.stuck.isSome then p else f p

/-- Names from plain text. -/
def addWords (p : Progress) (words : List (List Char)) : Progress :=
  p.step fun p => { p with use := p.use.addLiterals (words.map String.ofList) }

/-- A computed access to a sheet. -/
def addComputed (p : Progress) (path : String) : Progress :=
  let seen := (p.scan.static.find? path).getD []
  { p with
    scan :=
      { p.scan with
        dynamic := addName p.scan.dynamic path
        candidates := p.scan.candidates.alter path [] (addNames · seen) } }

/-- A plain access to a sheet. -/
def addNamed (p : Progress) (path property : String) : Progress :=
  let variants := namingVariants property
  { p with
    use := p.use.addStatic path variants
    scan := { p.scan with static := p.scan.static.alter path [] (addNames · variants) } }

/-- An access, which counts if its object is bound to a sheet. -/
def addAccess (p : Progress) (a : Access) : Progress :=
  p.step fun p =>
    match a.object.bind p.use.bindings.find? with
    | none => p
    | some path =>
      if a.computed then p.addComputed path
      else match a.property with
        | some property => if property.isEmpty then p else p.addNamed path property
        | none => p

def stop (p : Progress) (form : String) : Progress :=
  p.step fun p => { p with stuck := some form }

end Progress

/-- The words of a template text that touch no substitution. -/
def templateWords (text : List Char) : List (List Char) :=
  (words text).filter (! ·.contains substitutionMark)

mutual

/-- The walk over an expression. The arguments of a call count if its callee is one of `helpers`. -/
def classify (helpers : List String) : Expr → Progress → Progress
  | .literal value, p => p.addWords (words value.toList)
  | .template text parts, p => classifyAll helpers parts (p.addWords (templateWords text.toList))
  | .access a, p => p.addAccess a
  | .concat operands, p => classifyAll helpers operands p
  | .conditional branches, p => classifyAll helpers branches p
  | .call callee arguments, p =>
    if (callee.map helpers.contains).getD false then classifyAll helpers arguments p else p
  | .array elements, p => classifyAll helpers elements p
  | .object keys, p => classifyAll helpers keys p
  | .other _, p => p
  | .unknown form, p => p.stop form

def classifyAll (helpers : List String) : List Expr → Progress → Progress
  | [], p => p
  | e :: es, p => classifyAll helpers es (classify helpers e p)

end

/-- After the walk over an attribute: in each sheet with a computed access, the candidates that have
nested classes are dynamic parents. -/
def settleDynamic (sheets : Table Style.Sheet) (scan : Scan) (use : MarkupUse) : MarkupUse :=
  scan.dynamic.foldl
    (fun use path =>
      match sheets.find? path with
      | none => use
      | some sheet =>
        use.addDynamic path (((scan.candidates.find? path).getD []).filter sheet.hasChildren))
    use

/-- The use after one more class expression. -/
def classifyAttribute (sheets : Table Style.Sheet) (helpers : List String) (use : MarkupUse)
    (e : Expr) :
    MarkupUse :=
  let p := classify helpers e { use }
  settleDynamic sheets p.scan p.use

end StyleAudit.Markup
