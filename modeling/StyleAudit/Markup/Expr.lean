import StyleAudit.Markup.Node

/-!
# Class expressions

What an expression in a class attribute says about classes, and nothing else about it: its literals,
its accesses to names, and the way they are grouped. `Expr.ofNode` reads it off the syntax tree.
-/

namespace StyleAudit.Markup

/-- An access to a member of a name. The object is absent if it is not a plain name; the property is
absent if it is a number or is computed. -/
structure Access where
  object : Option String
  property : Option String
  computed : Bool := false
deriving DecidableEq, Repr

inductive Expr where
  | literal (value : String)
  /-- In the text, each substitution is written as the zero character. -/
  | template (text : String) (parts : List Expr)
  | concat (operands : List Expr)
  | call (callee : Option String) (arguments : List Expr)
  | access (a : Access)
  | conditional (branches : List Expr)
  | array (elements : List Expr)
  | object (keys : List Expr)
  /-- An expression that says nothing about classes. -/
  | other (kind : String)
  /-- An expression of a form that is not known. -/
  | unknown (form : String)
deriving Inhabited

/-- What stands for a substitution in the text of a template. -/
def substitutionMark : Char := '\x00'

/-- The text of a template, with a mark for each substitution. -/
def templateText (children : List Node) : List Char :=
  children.flatMap fun n =>
    match n.kind with
    | .templateChunk => n.text.toList
    | .templateSubstitution => [substitutionMark]
    | _ => []

/-- A template without substitutions. -/
def isLiteralTemplate (n : Node) : Bool :=
  n.kind == .templateString && !n.namedChildren.any (·.kind == .templateSubstitution)

/-- The access that a member or subscript node stands for. -/
def Access.ofNode (n : Node) : Access :=
  let object := ((n.part? .object).filter (·.kind == .identifier)).map Node.text
  if n.kind == .memberExpression then ⟨object, (n.part? .property).map Node.text, false⟩
  else match n.part? .index with
    | none => ⟨object, none, false⟩
    | some index =>
      if index.kind == .string then ⟨object, some index.innerText, false⟩
      else if isLiteralTemplate index then
        ⟨object, some (String.ofList (templateText index.children)), false⟩
      else if index.kind == .number then ⟨object, none, false⟩
      else ⟨object, none, true⟩

/-- Operators whose operands can each end up in the class string. -/
def joiningOperators : List String :=
  ["+", "&&", "||", "??"]

/-- Wrappers that do not change the value of what they wrap. -/
def isTransparent : Kind → Bool
  | .parenthesizedExpression => true
  | .asExpression => true
  | .satisfiesExpression => true
  | .nonNullExpression => true
  | .typeAssertion => true
  | .awaitExpression => true
  | _ => false

/-- The node is named and is no comment. -/
def Node.isExpression (n : Node) : Bool :=
  n.isNamed && n.kind != .comment

mutual

/-- The class expression of a syntax node. -/
def Expr.ofNode : Node → Expr
  | .mk l cs =>
    let n := Node.mk l cs
    match l.kind with
    | .string => .literal n.innerText
    | .templateString => .template (String.ofList (templateText cs)) (templateParts cs)
    | .binaryExpression =>
      if joiningOperators.contains (((n.part? .operator).map Node.text).getD "") then
        .concat (ofRole .left cs ++ ofRole .right cs)
      else .other l.kind.name
    | .ternaryExpression => .conditional (ofRole .consequence cs ++ ofRole .alternative cs)
    | .callExpression =>
      let callee := ((n.part? .function).filter (·.kind == .identifier)).map Node.text
      .call callee (argumentsOf cs)
    | .memberExpression => .access (Access.ofNode n)
    | .subscriptExpression => .access (Access.ofNode n)
    | .array => .array (ofExpressions cs)
    | .object => .object (keysOf cs)
    | kind =>
      if isTransparent kind then (firstExpression cs).getD (.other kind.name) else .other kind.name

/-- The class expressions of the nodes that are expressions, in order. -/
def ofExpressions : List Node → List Expr
  | [] => []
  | n :: ns => if n.isExpression then Expr.ofNode n :: ofExpressions ns else ofExpressions ns

/-- The class expression of the first node that is an expression. -/
def firstExpression : List Node → Option Expr
  | [] => none
  | n :: ns => if n.isExpression then some (Expr.ofNode n) else firstExpression ns

/-- The class expression of the first node that plays a part. -/
def ofRole (role : Role) : List Node → List Expr
  | [] => []
  | n :: ns => if n.label.role == role then [Expr.ofNode n] else ofRole role ns

/-- The class expressions inside the substitutions of a template. -/
def templateParts : List Node → List Expr
  | [] => []
  | n :: ns =>
    if n.kind == .templateSubstitution then (innerExpression n).toList ++ templateParts ns
    else templateParts ns

/-- The class expression of the first expression inside a node. -/
def innerExpression : Node → Option Expr
  | .mk _ cs => firstExpression cs

/-- The class expressions of the arguments of a call; a template after a name is its argument. -/
def argumentsOf : List Node → List Expr
  | [] => []
  | n :: ns =>
    if n.label.role == .arguments then
      if n.kind == .arguments then innerExpressions n else [Expr.ofNode n]
    else argumentsOf ns

/-- The class expressions of the expressions inside a node. -/
def innerExpressions : Node → List Expr
  | .mk _ cs => ofExpressions cs

/-- The class expressions of the keys of an object. -/
def keysOf : List Node → List Expr
  | [] => []
  | n :: ns =>
    if n.kind == .shorthandProperty then .literal n.text :: keysOf ns
    else if n.kind == .pair then pairKey n ++ keysOf ns
    else keysOf ns

/-- The class expression of the key of a pair. -/
def pairKey : Node → List Expr
  | .mk _ cs => keyIn cs

/-- The class expression of the first key among the parts of a pair. -/
def keyIn : List Node → List Expr
  | [] => []
  | n :: ns =>
    if n.label.role == .key then
      match n.kind with
      | .computedPropertyName => (innerExpression n).toList
      | .string => [.literal n.innerText]
      | .propertyIdentifier => [.literal n.text]
      | _ => []
    else keyIn ns

end

end StyleAudit.Markup
