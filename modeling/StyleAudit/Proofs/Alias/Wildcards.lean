import Mathlib.Data.List.Basic
import StyleAudit.Proofs.Alias.FallThrough
import StyleAudit.Proofs.Text.Pattern

/-!
# Aliases with a wildcard

In the path map of a compiler configuration an entry `stem/*` with the target `directory/*` says that
an import below `stem` means a file below `directory`.  The slash is dropped with the wildcard, and
the aliases are tried as beginnings of a text.  So the first stem that the import begins with decides
(`resolve_of_firstStem`), also if the stem ends in the middle of a component.  Where a slash follows
that stem the import means what the pattern says (`bySegments_of_slash`).
-/

namespace StyleAudit.Alias

open StyleAudit.Text

/-! ### Path maps of wildcards -/

/-- An entry `stem/*` of a path map with the target `directory/*`, and maybe more targets. -/
structure Wildcard where
  stem : String
  directory : String
  more : List Json

namespace Wildcard

/-- The entry as it stands in a path map. -/
def entry (w : Wildcard) : CodeText × Json :=
  (.ofString (w.stem ++ "/*"), .array (.string (.ofString (w.directory ++ "/*")) :: w.more))

/-- The entry as it stands in a table of aliases. -/
def pair (w : Wildcard) : String × String :=
  (w.stem, w.directory)

end Wildcard

/-- The path map of a configuration consists of wildcards with distinct stems. -/
structure IsWildcardMap (configuration : Json) (ws : List Wildcard) : Prop where
  entries : ∃ options, configuration.find? "compilerOptions" = some (.object options) ∧
    Table.find? options "paths" = some (.object (ws.map Wildcard.entry))
  nodup : (ws.map Wildcard.stem).Nodup
  stem_ne : ∀ w ∈ ws, w.stem ≠ ""

theorem withoutWildcard_append (stem : String) : withoutWildcard (stem ++ "/*") = stem := by
  have hchars : (stem ++ "/*").toList.reverse = '*' :: '/' :: stem.toList.reverse := by simp
  rw [withoutWildcard, hchars]
  simp

variable {configuration : Json} {ws : List Wildcard}

theorem pathAlias?_entry (w : Wildcard) : pathAlias? w.entry = some w.pair := by
  rw [pathAlias?, Wildcard.entry]
  simp only [CodeText.shown_ofString, withoutWildcard_append]
  rfl

/-- The aliases of a path map of wildcards are the stems with their directories, in order. -/
theorem IsWildcardMap.pathMap_eq (h : IsWildcardMap configuration ws) :
    pathMap configuration = .ok (ws.map Wildcard.pair) := by
  obtain ⟨⟨options, hoptions, hpaths⟩, hnodup, -⟩ := h
  obtain ⟨es, rfl⟩ : ∃ es, configuration = .object es := by
    cases configuration with
    | object es => exact ⟨es, rfl⟩
    | _ => cases hoptions
  have hpaths' : (Json.object options).find? "paths" = some (.object (ws.map Wildcard.entry)) :=
    hpaths
  have hentries : pathEntries (.object es) = ws.map Wildcard.entry := by
    simp only [pathEntries, Json.entriesAt, hoptions, hpaths']
  have haliases : pathAliases (.object es) = ws.map Wildcard.pair := by
    have hfilter : (ws.map Wildcard.entry).filterMap pathAlias? = ws.map Wildcard.pair := by
      rw [List.filterMap_map, ← List.filterMap_eq_map]
      exact List.filterMap_congr fun w _ => pathAlias?_entry w
    rw [pathAliases, hentries, hfilter, Table.ofList_eq_self]
    rwa [List.map_map]
  have hclear : ¬ Mistyped (.object es) := by
    rintro (⟨o, ho, -, hkind⟩ | ⟨e, he, -, hkind⟩)
    · rw [hoptions] at ho
      cases ho
      exact hkind List.mem_cons_self
    · rw [hentries] at he
      obtain ⟨w, -, rfl⟩ := List.mem_map.mp he
      exact hkind (List.mem_cons_of_mem _ List.mem_cons_self)
  rcases pathMap_cases es with ⟨-, hok⟩ | ⟨hbad, -⟩
  · rw [hok, haliases]
  · exact absurd hbad hclear

/-! ### The first stem decides -/

/-- The first wildcard whose stem an import begins with. -/
def firstStem? (ws : List Wildcard) (importPath : String) : Option Wildcard :=
  ws.find? fun w => w.stem.toList <+: importPath.toList

theorem not_isPrefix_of_firstStem?_eq_none {importPath : String}
    (h : firstStem? ws importPath = none) :
    ∀ w ∈ ws, ¬ w.stem.toList <+: importPath.toList := by
  simpa [firstStem?] using h

theorem exists_of_firstStem?_eq_some {importPath : String} {w : Wildcard}
    (h : firstStem? ws importPath = some w) :
    ∃ before after, ws = before ++ w :: after ∧
      ∀ b ∈ before, ¬ b.stem.toList <+: importPath.toList := by
  obtain ⟨-, before, after, hsplit, hbefore⟩ := List.find?_eq_some_iff_append.mp h
  exact ⟨before, after, hsplit, by simpa using hbefore⟩

theorem findSome?_mapped?_eq_none {root importPath : String}
    (h : ∀ w ∈ ws, ¬ w.stem.toList <+: importPath.toList) :
    (ws.map Wildcard.pair).findSome? (Resolver.mapped? root importPath) = none := by
  rw [List.findSome?_map, List.findSome?_eq_none_iff]
  intro w hw
  rw [Function.comp_apply, Resolver.mapped?, Wildcard.pair, dropLead?_eq_none (h w hw)]
  exact ite_self none

/-- **The first stem that an import begins with decides**, and the rest of the import is added to its
directory as it is. -/
theorem resolve_of_firstStem (hne : ∀ w ∈ ws, w.stem ≠ "") {importPath rest : String} {w : Wildcard}
    (hfirst : firstStem? ws importPath = some w) (hrest : importPath = w.stem ++ rest)
    (root : String) :
    Resolver.resolve ⟨root, ws.map Wildcard.pair⟩ importPath =
      Path.normal (Path.join root (w.directory ++ rest)) := by
  obtain ⟨before, after, rfl, hbefore⟩ := exists_of_firstStem?_eq_some hfirst
  have hnone : (before.map Wildcard.pair).findSome? (Resolver.mapped? root importPath) = none :=
    findSome?_mapped?_eq_none hbefore
  have hw : Resolver.mapped? root importPath w.pair =
      some (Path.normal (Path.join root (w.directory ++ rest))) := by
    have hstem : w.stem.isEmpty = false := by simpa using hne w (by simp)
    have hdrop : dropLead? w.stem.toList importPath.toList = some rest.toList := by
      rw [hrest, String.toList_append, dropLead?_append]
    rw [Resolver.mapped?, Wildcard.pair, hstem, if_neg Bool.false_ne_true, hdrop, Option.map_some,
      String.ofList_toList]
  rw [Resolver.resolve, List.map_append, List.findSome?_append, hnone, List.map_cons,
    List.findSome?_cons_of_isSome (by rw [hw]; rfl), hw, Option.none_or, Option.getD_some]

theorem resolve_of_no_stem {importPath : String} (h : firstStem? ws importPath = none)
    (root : String) :
    Resolver.resolve ⟨root, ws.map Wildcard.pair⟩ importPath = importPath := by
  have hnone : (ws.map Wildcard.pair).findSome? (Resolver.mapped? root importPath) = none :=
    findSome?_mapped?_eq_none (not_isPrefix_of_firstStem?_eq_none h)
  rw [Resolver.resolve, hnone]
  rfl

/-! ### Whole components -/

/-- What an import means under a wildcard if the stem has to end with a component. -/
def Wildcard.bySegments? (root importPath : String) (w : Wildcard) : Option String :=
  (dropLead? (w.stem ++ "/").toList importPath.toList).map fun rest =>
    Path.normal (Path.join root (w.directory ++ "/" ++ String.ofList rest))

/-- What an import means if aliases match whole components: the first pattern decides, and without
one the import stays as it is. -/
def bySegments (root : String) (ws : List Wildcard) (importPath : String) : String :=
  (ws.findSome? (Wildcard.bySegments? root importPath)).getD importPath

theorem bySegments?_eq_none {root importPath : String} {w : Wildcard}
    (h : ¬ w.stem.toList <+: importPath.toList) : w.bySegments? root importPath = none := by
  have hslash : ¬ (w.stem ++ "/").toList <+: importPath.toList := fun hlead =>
    h ((by simp : w.stem.toList <+: (w.stem ++ "/").toList).trans hlead)
  rw [Wildcard.bySegments?, dropLead?_eq_none hslash, Option.map_none]

/-- Where a slash follows the first stem, the import means what the patterns say. -/
theorem bySegments_of_slash {importPath rest : String} {w : Wildcard}
    (hfirst : firstStem? ws importPath = some w) (hrest : importPath = w.stem ++ "/" ++ rest)
    (root : String) :
    bySegments root ws importPath = Path.normal (Path.join root (w.directory ++ "/" ++ rest)) := by
  obtain ⟨before, after, rfl, hbefore⟩ := exists_of_firstStem?_eq_some hfirst
  have hnone : before.findSome? (Wildcard.bySegments? root importPath) = none :=
    List.findSome?_eq_none_iff.mpr fun b hb => bySegments?_eq_none (hbefore b hb)
  have hw : w.bySegments? root importPath =
      some (Path.normal (Path.join root (w.directory ++ "/" ++ rest))) := by
    have hdrop : dropLead? (w.stem ++ "/").toList importPath.toList = some rest.toList := by
      rw [hrest, String.toList_append (s := w.stem ++ "/"), dropLead?_append]
    rw [Wildcard.bySegments?, hdrop, Option.map_some, String.ofList_toList]
  rw [bySegments, List.findSome?_append, hnone, List.findSome?_cons_of_isSome (by rw [hw]; rfl), hw,
    Option.none_or, Option.getD_some]

theorem bySegments_of_no_stem {importPath : String} (h : firstStem? ws importPath = none)
    (root : String) : bySegments root ws importPath = importPath := by
  have hnone : ws.findSome? (Wildcard.bySegments? root importPath) = none :=
    List.findSome?_eq_none_iff.mpr fun w hw =>
      bySegments?_eq_none (not_isPrefix_of_firstStem?_eq_none h w hw)
  rw [bySegments, hnone]
  rfl

theorem resolve_tidy (root importPath : String) (table : Table String) :
    Resolver.resolve ⟨Path.tidy root, table⟩ importPath =
      Resolver.resolve ⟨root, table⟩ importPath := by
  have hmapped : Resolver.mapped? (Path.tidy root) importPath =
      Resolver.mapped? root importPath := by
    funext e
    simp only [Resolver.mapped?, Path.normal_join_tidy]
  rw [Resolver.resolve, Resolver.resolve, hmapped]

/-- **Aliases with a wildcard match beginnings of texts.**  The path map is read as the stems with
their directories, in order.  An import that begins with no stem stays as it is.  Otherwise the first
stem that it begins with decides, and what follows the stem is added to the directory.  If a slash
follows that stem, this is what the first pattern for whole components says. -/
theorem wildcards_match_beginnings (h : IsWildcardMap configuration ws) (root importPath : String) :
    let r : Resolver := ⟨Path.tidy root, ws.map Wildcard.pair⟩
    pathMap configuration = .ok r.aliases ∧
      (firstStem? ws importPath = none → r.resolve importPath = importPath) ∧
      (∀ w rest, firstStem? ws importPath = some w → importPath = w.stem ++ rest →
        r.resolve importPath = Path.normal (Path.join root (w.directory ++ rest))) ∧
      ((∀ w, firstStem? ws importPath = some w → ∃ rest, importPath = w.stem ++ "/" ++ rest) →
        r.resolve importPath = bySegments root ws importPath) := by
  intro r
  refine ⟨h.pathMap_eq, ?_⟩
  rw [resolve_tidy]
  refine ⟨fun hnone => resolve_of_no_stem hnone root,
    fun w rest hfirst hrest => resolve_of_firstStem h.stem_ne hfirst hrest root, fun hslash => ?_⟩
  cases hfirst : firstStem? ws importPath with
  | none => rw [resolve_of_no_stem hfirst, bySegments_of_no_stem hfirst]
  | some w =>
    obtain ⟨rest, hrest⟩ := hslash w hfirst
    rw [bySegments_of_slash hfirst hrest, String.append_assoc]
    exact resolve_of_firstStem h.stem_ne hfirst (hrest.trans (String.append_assoc ..)) root

/-- A path map with two wildcards, one of whose stems begins with the other. -/
def overlappingPaths : Json :=
  .object [("compilerOptions", .object [("paths", .object
    [("@/*", .array [.string "src/*"]), ("@styles/*", .array [.string "theme/*"])])])]

def overlapping : List Wildcard :=
  [⟨"@", "src", []⟩, ⟨"@styles", "theme", []⟩]

theorem overlapping_isWildcardMap : IsWildcardMap overlappingPaths overlapping where
  entries := ⟨_, rfl, rfl⟩
  nodup := by decide
  stem_ne := by decide

/-- A slash follows the first stem of one import, and none that of another one. -/
theorem wildcards_match_beginnings_overlapping :
    let r : Resolver := ⟨Path.tidy "/app/.", overlapping.map Wildcard.pair⟩
    IsWildcardMap overlappingPaths overlapping ∧
      firstStem? overlapping "./a.css" = none ∧ r.resolve "./a.css" = "./a.css" ∧
      r.resolve "@styles/a.css" = Path.normal (Path.join "/app/." ("src" ++ "styles/a.css")) ∧
      r.resolve "@/a.css" = bySegments "/app/." overlapping "@/a.css" := by
  intro r
  have hmap := overlapping_isWildcardMap
  have hnone : firstStem? overlapping "./a.css" = none := by decide
  have hfirst : ∀ importPath, ['@'] <+: importPath.toList →
      firstStem? overlapping importPath = some ⟨"@", "src", []⟩ := fun importPath hlead =>
    List.find?_cons_of_pos (by simpa using hlead)
  obtain ⟨-, hsame, -, -⟩ := wildcards_match_beginnings hmap "/app/." "./a.css"
  obtain ⟨-, -, hadded, -⟩ := wildcards_match_beginnings hmap "/app/." "@styles/a.css"
  obtain ⟨-, -, -, hsegments⟩ := wildcards_match_beginnings hmap "/app/." "@/a.css"
  refine ⟨hmap, hnone, hsame hnone, ?_, hsegments fun w hw => ?_⟩
  · exact hadded ⟨"@", "src", []⟩ "styles/a.css" (hfirst _ (by decide)) (by decide)
  · rw [hfirst _ (by decide)] at hw
    cases hw
    exact ⟨"a.css", by decide⟩

/-- **A stem may end inside a component**: an import of no pattern is changed, and an import of the
second pattern is read by the first one. -/
theorem stem_inside_component :
    let r : Resolver := ⟨Path.tidy "/app", overlapping.map Wildcard.pair⟩
    IsWildcardMap overlappingPaths overlapping ∧
      pathMap overlappingPaths = .ok (overlapping.map Wildcard.pair) ∧
      r.resolve "@fonts/a.css" = "/app/srcfonts/a.css" ∧
      bySegments "/app" overlapping "@fonts/a.css" = "@fonts/a.css" ∧
      r.resolve "@styles/a.css" = "/app/srcstyles/a.css" ∧
      bySegments "/app" overlapping "@styles/a.css" = "/app/theme/a.css" := by
  refine ⟨overlapping_isWildcardMap, overlapping_isWildcardMap.pathMap_eq, ?_⟩
  decide

end StyleAudit.Alias
