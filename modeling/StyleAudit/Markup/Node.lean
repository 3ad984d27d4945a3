/-!
# Markup syntax trees

A tree of labelled nodes. The label says what kind of phrase the node is, which part of its parent
it is, and where it stands; a node without children also carries its source text. Punctuation is left
out of the trees, but for the operators of binary expressions.

* `Node.nodes`: all nodes of a tree, the last child of a node before the others.
* `Node.firstFaultLine`: where a tree with faults goes wrong first. The search keeps a stack and
  leaves out what has no fault.
-/

namespace StyleAudit.Markup

/-- The kinds of phrases that the analysis tells apart; any other kind is known by its name only. -/
inductive Kind where
  | program
  | importStatement
  | importClause
  | namespaceImport
  | identifier
  | propertyIdentifier
  | string
  | templateString
  | templateChunk
  | templateSubstitution
  | number
  | array
  | object
  | pair
  | shorthandProperty
  | computedPropertyName
  | memberExpression
  | subscriptExpression
  | callExpression
  | arguments
  | binaryExpression
  | ternaryExpression
  | parenthesizedExpression
  | asExpression
  | satisfiesExpression
  | nonNullExpression
  | typeAssertion
  | awaitExpression
  | jsxAttribute
  | jsxExpression
  | comment
  | fault
  | punctuation
  | other (name : String)
deriving DecidableEq, Repr

def Kind.name : Kind → String
  | .program => "program"
  | .importStatement => "import_statement"
  | .importClause => "import_clause"
  | .namespaceImport => "namespace_import"
  | .identifier => "identifier"
  | .propertyIdentifier => "property_identifier"
  | .string => "string"
  | .templateString => "template_string"
  | .templateChunk => "string_fragment"
  | .templateSubstitution => "template_substitution"
  | .number => "number"
  | .array => "array"
  | .object => "object"
  | .pair => "pair"
  | .shorthandProperty => "shorthand_property_identifier"
  | .computedPropertyName => "computed_property_name"
  | .memberExpression => "member_expression"
  | .subscriptExpression => "subscript_expression"
  | .callExpression => "call_expression"
  | .arguments => "arguments"
  | .binaryExpression => "binary_expression"
  | .ternaryExpression => "ternary_expression"
  | .parenthesizedExpression => "parenthesized_expression"
  | .asExpression => "as_expression"
  | .satisfiesExpression => "satisfies_expression"
  | .nonNullExpression => "non_null_expression"
  | .typeAssertion => "type_assertion"
  | .awaitExpression => "await_expression"
  | .jsxAttribute => "jsx_attribute"
  | .jsxExpression => "jsx_expression"
  | .comment => "comment"
  | .fault => "ERROR"
  | .punctuation => "punctuation"
  | .other name => name

/-- The kinds that are told apart. -/
def Kind.known : List Kind :=
  [.program, .importStatement, .importClause, .namespaceImport, .identifier, .propertyIdentifier,
    .string, .templateString, .templateChunk, .templateSubstitution, .number, .array, .object, .pair,
    .shorthandProperty, .computedPropertyName, .memberExpression, .subscriptExpression,
    .callExpression, .arguments, .binaryExpression, .ternaryExpression, .parenthesizedExpression,
    .asExpression, .satisfiesExpression, .nonNullExpression, .typeAssertion, .awaitExpression,
    .jsxAttribute, .jsxExpression, .comment]

/-- The kind of a name. -/
def Kind.ofName (name : String) : Kind :=
  (Kind.known.find? (·.name == name)).getD (.other name)

/-- The part that a node plays in its parent, where the analysis asks for it. -/
inductive Role where
  | plain
  | object
  | property
  | index
  | operator
  | left
  | right
  | consequence
  | alternative
  | function
  | arguments
  | key
  | source
deriving DecidableEq, Repr

/-- What is known of a node by itself. Rows are counted from zero, and so are the characters of the
source, from `start` up to `stop`. -/
structure Label where
  kind : Kind
  role : Role := .plain
  text : String := ""
  row : Nat := 0
  missing : Bool := false
  start : Nat := 0
  stop : Nat := 0
deriving DecidableEq, Repr

inductive Node where
  | mk (label : Label) (children : List Node)

namespace Node

def label : Node → Label
  | .mk l _ => l

def children : Node → List Node
  | .mk _ cs => cs

def kind (n : Node) : Kind :=
  n.label.kind

/-- The source text of a node without children. -/
def text (n : Node) : String :=
  n.label.text

/-- The line that a node starts on, counted from one. -/
def line (n : Node) : Nat :=
  n.label.row + 1

/-- The node playing another part. -/
def withRole (n : Node) (role : Role) : Node :=
  .mk { n.label with role } n.children

def isNamed (n : Node) : Bool :=
  n.kind != .punctuation

/-- The children other than punctuation. -/
def namedChildren (n : Node) : List Node :=
  n.children.filter isNamed

/-- The children that can be expressions: neither punctuation nor comments. -/
def expressionChildren (n : Node) : List Node :=
  n.namedChildren.filter (·.kind != .comment)

/-- The first child that plays a part. -/
def part? (n : Node) (role : Role) : Option Node :=
  n.children.find? (·.label.role == role)

/-- The text of a string or template between its delimiters. -/
def innerText (n : Node) : String :=
  String.ofList (n.text.toList.drop 1).dropLast

mutual

/-- All nodes of a tree: the node, then the nodes below it from the last child to the first. -/
def nodes : Node → List Node
  | .mk l cs => .mk l cs :: nodesOfAll cs

def nodesOfAll : List Node → List Node
  | [] => []
  | n :: ns => nodesOfAll ns ++ n.nodes

end

/-! ### Faults -/

/-- The node is itself a fault, or stands for something that the source lacks. -/
def isFault (n : Node) : Bool :=
  n.kind == .fault || n.label.missing

mutual

/-- The tree has a fault somewhere. -/
def hasFault : Node → Bool
  | .mk l cs => l.kind == .fault || l.missing || anyFault cs

def anyFault : List Node → Bool
  | [] => false
  | n :: ns => n.hasFault || anyFault ns

end

theorem length_nodesOfAll_append (ns ms : List Node) :
    (nodesOfAll (ns ++ ms)).length = (nodesOfAll ns).length + (nodesOfAll ms).length := by
  induction ns with
  | nil => rw [List.nil_append, nodesOfAll, List.length_nil, Nat.zero_add]
  | cons n ns ih =>
    rw [List.cons_append, nodesOfAll, nodesOfAll, List.length_append, List.length_append, ih]
    omega

theorem length_nodesOfAll_cons (n : Node) (ns : List Node) :
    (nodesOfAll (n :: ns)).length = (nodesOfAll n.children).length + (nodesOfAll ns).length + 1 := by
  obtain ⟨l, cs⟩ := n
  rw [nodesOfAll, nodes, children, List.length_append, List.length_cons]
  omega

theorem length_nodesOfAll_children_lt (n : Node) (ns : List Node) :
    (nodesOfAll (n.children ++ ns)).length < (nodesOfAll (n :: ns)).length := by
  rw [length_nodesOfAll_append, length_nodesOfAll_cons]
  exact Nat.lt_succ_self _

theorem length_nodesOfAll_lt_cons (n : Node) (ns : List Node) :
    (nodesOfAll ns).length < (nodesOfAll (n :: ns)).length := by
  rw [length_nodesOfAll_cons]
  omega

/-- The line of the first fault in the trees on a stack, or zero; the top of the stack is in front.
The children of a node that is no fault are put on top, the first of them uppermost, if the node is
marked; the trees below a node without mark are left out. -/
def faultLineOn (marked : Node → Bool) : List Node → Nat
  | [] => 0
  | n :: stack =>
    if n.isFault then n.line
    else if marked n then faultLineOn marked (n.children ++ stack)
    else faultLineOn marked stack
termination_by stack => (nodesOfAll stack).length
decreasing_by
  · exact length_nodesOfAll_children_lt n stack
  · exact length_nodesOfAll_lt_cons n stack

/-- The line of the first fault, or zero; the nodes with a fault are marked. -/
def firstFaultLine (n : Node) : Nat :=
  faultLineOn hasFault [n]

end Node

end StyleAudit.Markup
