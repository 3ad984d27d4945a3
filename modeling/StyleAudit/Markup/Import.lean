import StyleAudit.Alias.Resolver
import StyleAudit.Markup.Node

/-!
# Style imports

Which stylesheets a markup file imports, and under which names. An import is looked for among the
known sheets by its relative path, then by its alias, then by the place that it names, and last by
its file name alone. What place a path names is asked of the file system, and the answer may be a
failure.
-/

namespace StyleAudit.Markup

section Resolve

variable {ε : Type} (real : String → Except ε String)

/-- The first known sheet at the place of a path. -/
def sheetAt (known : List String) (target : String) : Except ε (Option String) := do
  let place ← real target
  known.findM? fun path => return (← real path) == place

/-- The first known sheet with the file name of an import. -/
def sheetNamed? (known : List String) (source : String) : Option String :=
  known.find? fun path => Path.baseName path == Path.baseName source

/-- The known sheet that an import means, where `real` gives the places of paths. -/
def resolveImport (source markupPath : String) (known : List String)
    (resolver : Option Alias.Resolver) : Except ε (Option String) :=
  let candidate := Path.normal (Path.join (Path.directory markupPath) source)
  let search := fun target =>
    (sheetAt real known target).map fun found => found.or (sheetNamed? known source)
  if known.contains candidate then .ok (some candidate)
  else
    let aliased := (resolver.map (·.resolve source)).getD source
    if aliased == source then search candidate
    else if known.contains aliased then .ok (some aliased)
    else search aliased

end Resolve

/-- The suffixes of stylesheets in imports. -/
def styleSuffixes : List String :=
  [".css", ".scss", ".less"]

def isStyleSource (source : String) : Bool :=
  styleSuffixes.any fun s => s.toList.isSuffixOf source.toList

/-- The name that a part of an import clause binds to the whole module. -/
def moduleName? (part : Node) : Option String :=
  match part.kind with
  | .identifier => some part.text
  | .namespaceImport => (part.namedChildren.find? (·.kind == .identifier)).map Node.text
  | _ => none

/-- The name that an import binds to the whole module: its default or its namespace. -/
def importedName? (n : Node) : Option String :=
  (n.namedChildren.filter (·.kind == .importClause)).findSome? fun clause =>
    clause.namedChildren.findSome? moduleName?

/-- The name and the source of an import statement that binds a stylesheet. -/
def styleImport? (n : Node) : Option (String × String) := do
  guard (n.kind == .importStatement)
  let source := (← n.part? .source).innerText
  guard (isStyleSource source)
  return (← importedName? n, source)

/-- The style imports at the top level of a tree, in order. -/
def styleImports (root : Node) : List (String × String) :=
  root.namedChildren.filterMap styleImport?

end StyleAudit.Markup
