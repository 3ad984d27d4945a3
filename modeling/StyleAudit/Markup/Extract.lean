import StyleAudit.Event
import StyleAudit.Markup.Classify
import StyleAudit.Markup.Import
import StyleAudit.Markup.Parser

/-!
# The classes that a markup file uses

The imports of a file bind names to sheets. Every plain access to a bound name counts as a use of
the class, wherever it stands; the class attributes are classified on top of that.
-/

namespace StyleAudit.Markup

/-- Why a markup file is refused, and the line of it; no line if the file could not be read. -/
structure ParseError where
  message : String
  line : Nat
deriving DecidableEq, Repr

/-- Functions that join their arguments to a class string. -/
def defaultHelpers : List String :=
  ["cn", "clsx", "classnames", "classNames", "cx", "twMerge", "twJoin"]

/-- Attributes that hold classes. -/
def defaultAttributes : List String :=
  ["className", "class"]

structure Settings where
  cwd : String
  sheets : Table Style.Sheet := []
  resolver : Option Alias.Resolver := none
  helpers : List String := defaultHelpers
  attributes : List String := defaultAttributes

namespace Settings

/-! ### Bindings -/

/-- The sheet that an import of the file at `path` means; none if a place cannot be looked up. -/
def resolve (s : Settings) (path source : String) : Option String :=
  (resolveImport (Path.place s.cwd) source path s.sheets.keys s.resolver).toOption.join

/-- The names that a tree binds to sheets. -/
def bindings (s : Settings) (path : String) (root : Node) : Table String :=
  .ofList <| (styleImports root).filterMap fun (name, source) =>
    (s.resolve path source).map (name, ·)

/-- The imports of a tree that mean no known sheet. -/
def unresolved (s : Settings) (path : String) (root : Node) : List Event :=
  (styleImports root).filterMap fun (_, source) =>
    if (s.resolve path source).isSome then none else some (.unresolvedImport source path)

end Settings

/-! ### Accesses anywhere -/

def isAccess (n : Node) : Bool :=
  n.kind == .memberExpression || n.kind == .subscriptExpression

/-- The sheet and the class that an access names under the given bindings. -/
def Access.target? (bindings : Table String) (a : Access) : Option (String × String) := do
  let path ← bindings.find? (← a.object)
  let property ← a.property
  guard (!path.isEmpty && !a.computed && !property.isEmpty)
  return (path, property)

/-- The use after all plain accesses of a tree to bound names. -/
def addAccesses (use : MarkupUse) (root : Node) : MarkupUse :=
  ((root.nodes.filter isAccess).filterMap fun n => (Access.ofNode n).target? use.bindings).foldl
    (fun use (path, property) => use.addStatic path (namingVariants property))
    use

/-! ### Class attributes -/

/-- The value of a class attribute. -/
def attributeValue? (attributes : List String) (n : Node) : Option Node :=
  if n.kind == .jsxAttribute then
    match n.namedChildren with
    | name :: value :: _ => if attributes.contains name.text then some value else none
    | _ => none
  else none

/-- The values of the class attributes of a tree: later ones first, outer ones before inner ones. -/
def attributeValues (attributes : List String) (root : Node) : List Node :=
  root.nodes.filterMap (attributeValue? attributes)

/-- The class expression of the value of an attribute. -/
def valueExpr? (value : Node) : Option Expr :=
  match value.kind with
  | .string => some (.literal value.innerText)
  | .jsxExpression => value.expressionChildren.head?.map Expr.ofNode
  | _ => none

/-! ### Files -/

namespace Settings

/-- The use of a tree without faults. -/
def useOf (s : Settings) (path : String) (root : Node) : MarkupUse :=
  let bindings := s.bindings path root
  let accessed :=
    if bindings.isEmpty then { bindings } else addAccesses { bindings } root
  ((attributeValues s.attributes root).filterMap valueExpr?).foldl
    (classifyAttribute s.sheets s.helpers) accessed

/-- The use of a tree, or where it has a fault. -/
def examine (s : Settings) (path : String) (root : Node) : Except ParseError MarkupUse :=
  if root.hasFault then
    let line := root.firstFaultLine
    .error ⟨"syntax error near line " ++ toString line, line⟩
  else .ok (s.useOf path root)

/-- The use of a source, or why it is refused. -/
def extract (s : Settings) (path source : String) : Except ParseError MarkupUse :=
  s.examine path (parse source)

end Settings

end StyleAudit.Markup
