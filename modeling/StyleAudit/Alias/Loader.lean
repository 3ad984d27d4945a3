import StyleAudit.Alias.Source
import StyleAudit.Disk.Basic
import StyleAudit.Json.Commented
import StyleAudit.Logged

/-!
# Loading aliases

Files that may state aliases are tried in a fixed order, and the first one that states any decides.
A file that cannot be read as JSON is reported and skipped, unless it is nested too deep.
-/

namespace StyleAudit.Alias

inductive Format where
  | compiler
  | bundler
  | package
deriving DecidableEq, Repr

/-- A file below the root that may state aliases. -/
structure Candidate where
  file : String
  format : Format
  /-- What the file is called when its aliases are used. -/
  origin : String
deriving DecidableEq, Repr

/-- The candidates, in the order in which they are tried. -/
def candidates : List Candidate :=
  ["tsconfig.json", "jsconfig.json"].map (⟨·, .compiler, "root tsconfig"⟩) ++
  ["test/tsconfig.json", "tests/tsconfig.json"].map (⟨·, .compiler, "test tsconfig"⟩) ++
  ["vite.config.js", "vite.config.ts", "vite.config.mjs", "vite.config.mts", "webpack.config.js",
    "webpack.config.ts"].map (⟨·, .bundler, "bundler config"⟩) ++
  [⟨"package.json", .package, "package.json imports"⟩]

/-- The aliases that a JSON value states; only an object with entries states any. -/
def Format.ofJson (f : Format) (v : Json) : Except Json.Misuse (Table String) :=
  match f, v with
  | .compiler, .object (_ :: _) => pathMap v
  | .package, .object (_ :: _) => packageImports v
  | _, _ => .ok []

/-- The aliases that the text of a file at a path states. -/
def Format.load (f : Format) (path text : String) (nesting : Nat := Json.nestingLimit) :
    Logged (Table String) :=
  match f with
  | .bundler => pure (bundlerBlock text)
  | _ =>
    match Json.parseCommentedWithin nesting text with
    | .ok v => .lift ((f.ofJson v).mapError .misuse)
    | .error (.tooDeep b) => .lift (.error (.json (.tooDeep b)))
    | .error e => do
      Logged.tell [.aliasFileUnreadable path e.message]
      return []

/-- The aliases that a candidate states. -/
def Candidate.load (d : Disk) (root : String) (c : Candidate)
    (nesting : Nat := Json.nestingLimit) : Logged (Table String) :=
  let path := Path.tidy (Path.join root c.file)
  if d.isFile path then
    match d.read path with
    | .ok text => c.format.load path text nesting
    | .error e => do
      Logged.tell [.aliasFileUnreadable path e.message]
      return []
  else pure []

/-- The aliases of the first candidate that states any. -/
def firstTable (d : Disk) (root : String) (cs : List Candidate)
    (nesting : Nat := Json.nestingLimit) : Logged (Table String) :=
  match cs with
  | [] => pure []
  | c :: cs => do
    let t ← c.load d root nesting
    if t.isEmpty then firstTable d root cs nesting
    else
      Logged.tell [.aliasesLoaded t.length c.origin]
      return t

/-- The resolver of a project. -/
def Resolver.ofDisk (d : Disk) (root : String) (nesting : Nat := Json.nestingLimit) :
    Logged Resolver := do
  return ⟨root, ← firstTable d root candidates nesting⟩

end StyleAudit.Alias
