import StyleAudit.Alias.Resolver
import StyleAudit.Json.Access
import StyleAudit.Text.Blank

/-!
# Where aliases are stated

Three formats state aliases: the path map of a compiler configuration, the alias block in the source
of a bundler configuration, and the import map of a package. Aliases are strings, so half of a
surrogate pair, which no path of a file has, becomes its escape.
-/

namespace StyleAudit.Alias

open StyleAudit.Text

/-! ### Path maps -/

/-- The alias of one entry of a path map, whose target is a text or the first of a list. An unset
target and a target that is no text give none. -/
def pathMapEntry? (pattern : CodeText) (targets : Json) :
    Except Json.Misuse (Option (String × String)) :=
  match targets with
  | .string s => .ok (some (withoutWildcard pattern.shown, withoutWildcard s.shown))
  | v =>
    if v.isSet then do
      match ← v.first with
      | .string s => return some (withoutWildcard pattern.shown, withoutWildcard s.shown)
      | _ => return none
    else .ok none

/-- The aliases in the path map of a compiler configuration. -/
def pathMap (configuration : Json) : Except Json.Misuse (Table String) := do
  let options := Json.orEmpty (← configuration.get "compilerOptions")
  match Json.orEmpty (← options.get "paths") with
  | .object entries =>
    let aliases ← entries.mapM fun (pattern, targets) => pathMapEntry? pattern targets
    return Table.ofList (aliases.filterMap id)
  | _ => return []

/-! ### Alias blocks -/

/-- A block `alias: ⟨…⟩` in curly brackets without such brackets inside: what is in it. -/
def aliasBlock : Pattern (List Char)
  | _, cs => do
    let rest ← dropLead? "alias".toList cs
    let rest ← dropLead? [':'] (rest.dropWhile isBlank)
    let rest ← dropLead? ['{'] (rest.dropWhile isBlank)
    let isBrace := fun c => c == '{' || c == '}'
    match rest.dropWhile (!isBrace ·) with
    | '}' :: after => some (rest.takeWhile (!isBrace ·), after)
    | _ => none

def isQuote (c : Char) : Bool :=
  c == '\'' || c == '"'

/-- A text without quotes between two equal quotes. -/
def quotedText : Pattern (List Char)
  | _, [] => none
  | _, q :: cs =>
    if isQuote q then
      match cs.dropWhile (!isQuote ·) with
      | close :: after => if close == q then some (cs.takeWhile (!isQuote ·), after) else none
      | [] => none
    else none

/-- The value at the front of a text, up to a comma, a line end or a closing bracket of a block. A
bracketed part counts as one, whatever it holds. `skip` characters are already part of the value. -/
def valueText : (skip : Nat) → List Char → List Char
  | _, [] => []
  | skip + 1, c :: cs => c :: valueText skip cs
  | 0, c :: cs =>
    if c == ',' || c == '\n' || c == '}' then []
    else if c == '(' && cs.contains ')' then
      c :: valueText ((cs.takeWhile (· != ')')).length + 1) cs
    else c :: valueText 0 cs

/-- The value after the colon of an entry, and what is left. Where only blanks stand before the end
of the value, the last one that ends no line is the value. -/
def entryValue? (cs : List Char) : Option (List Char × List Char) :=
  let rest := cs.dropWhile isBlank
  match valueText 0 rest with
  | [] =>
    let unused := ((cs.takeWhile isBlank).reverse.takeWhile (· == '\n')).reverse
    match ((cs.takeWhile isBlank).reverse.dropWhile (· == '\n')).head? with
    | some blank => some ([blank], unused ++ rest)
    | none => none
  | value => some (value, rest.drop value.length)

/-- An entry of an alias block: a quoted key that is not empty, a colon and a value. -/
def aliasEntry : Pattern (List Char × List Char)
  | before, cs => do
    let (key, rest) ← quotedText before cs
    guard (!key.isEmpty)
    let rest ← dropLead? [':'] (rest.dropWhile isBlank)
    let (value, rest) ← entryValue? rest
    return ((key, value), rest)

/-- A directory without `./` at its front. -/
def withoutHere (directory : List Char) : List Char :=
  (dropLead? ['.', '/'] directory).getD directory

/-- The alias of an entry: the last quoted text of the value is the directory. -/
def blockAlias? (entry : List Char × List Char) : Option (String × String) :=
  (quotedText.findAll entry.2).getLast?.map fun directory =>
    (withoutWildcard (String.ofList entry.1), String.ofList (withoutHere directory))

/-- The aliases in the first alias block of a source. -/
def bundlerBlock (source : String) : Table String :=
  match aliasBlock.find? source.toList with
  | some block => Table.ofList ((aliasEntry.findAll block).filterMap blockAlias?)
  | none => []

/-! ### Import maps -/

/-- The target of an import: of several under conditions, the default one, or else the first text. -/
def importTarget : Json → Json
  | .object conditions =>
    match Table.find? conditions "default" with
    | some v => if v.isSet then v else firstText conditions
    | none => firstText conditions
  | v => v
where
  firstText (conditions : Json.Entries) : Json :=
    (conditions.findSome? fun (_, v) =>
      match v with
      | .string s => some (Json.string s)
      | _ => none).getD .null

/-- The alias of one import, whose name loses its first character. -/
def importEntry? (key : CodeText) (target : Json) : Option (String × String) :=
  match importTarget target, key.codes with
  | .string s, _ :: c :: cs =>
    some (withoutWildcard (CodeText.shown ⟨c :: cs⟩), withoutWildcard s.shown)
  | _, _ => none

/-- The aliases in the import map of a package. -/
def packageImports (package : Json) : Except Json.Misuse (Table String) := do
  match Json.orEmpty (← package.get "imports") with
  | .object entries =>
    return Table.ofList (entries.filterMap fun (key, target) => importEntry? key target)
  | _ => return []

end StyleAudit.Alias
