import StyleAudit.Path
import StyleAudit.Table
import StyleAudit.Text.Pattern

/-!
# Aliases of import paths

An alias table maps the beginnings of import paths to directories below the root of the project.
-/

namespace StyleAudit.Alias

open StyleAudit.Text

/-- A pattern without the wildcard at its end. -/
def withoutWildcard (pattern : String) : String :=
  match pattern.toList.reverse with
  | '*' :: '/' :: cs => String.ofList cs.reverse
  | cs => String.ofList (cs.dropWhile (· == '*')).reverse

structure Resolver where
  root : String
  aliases : Table String
deriving DecidableEq, Repr

/-- The path below the root that an import means under an alias, if it begins with the alias. An
empty alias is none. -/
def Resolver.mapped? (root importPath : String) (entry : String × String) : Option String :=
  if entry.1.isEmpty then none
  else (dropLead? entry.1.toList importPath.toList).map fun rest =>
    Path.normal (Path.join root (entry.2 ++ String.ofList rest))

/-- The path that an import means: the first alias that it begins with decides, and an import
without alias stays as it is. -/
def Resolver.resolve (r : Resolver) (importPath : String) : String :=
  (r.aliases.findSome? (Resolver.mapped? r.root importPath)).getD importPath

end StyleAudit.Alias
