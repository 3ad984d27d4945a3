import Mathlib.Data.List.Basic
import StyleAudit.Markup.Extract
import StyleAudit.Proofs.Logged
import StyleAudit.Proofs.Table

/-!
# Imports mean known sheets

An import has up to two targets: its path from the directory of the file, and the path that an alias
gives it.  It means a target that is known, or else the sheet at the place of the last target, or
else the sheet with the same file name (`resolveImport_eq`).  Each way ends at one of the known sheets
or fails (`resolveImport_mem`), so a name that a file binds stands for a known sheet
(`Settings.mem_keys_of_bindings`).
-/

namespace StyleAudit

/-- What stands in the table of a list of assignments has been assigned. -/
theorem Table.mem_of_mem_ofList {β : Type} {assignments : List (String × β)} {e : String × β}
    (h : e ∈ Table.ofList assignments) : e ∈ assignments := by
  suffices hall : ∀ e ∈ Table.ofList assignments, e ∈ assignments from hall e h
  refine List.foldlRecOn (motive := fun t : Table β => ∀ e ∈ t, e ∈ assignments) _ _
    (fun _ h => absurd h List.not_mem_nil) ?_
  intro t ht a ha e he
  rw [Table.put_eq_alter] at he
  rcases Table.mem_alter he with hm | ⟨_, rfl⟩
  · exact ht e hm
  · exact ha

namespace Markup

/-! ### Searches that may fail -/

section Search

variable {ε : Type} {real : String → Except ε String} {known : List String} {place first : String}

theorem findM?_cons_of_ok {p : String} (h : real first = .ok p) (known : List String) :
    ((first :: known).findM? fun path => return (← real path) == place) =
      if p = place then .ok (some first)
      else known.findM? fun path => return (← real path) == place := by
  rw [List.findM?, h]
  by_cases hp : p = place
  · simp [bind, Except.bind, pure, Except.pure, hp]
  · have hne : (p == place) = false := by simpa using hp
    simp only [bind, Except.bind, pure, Except.pure, hne, if_neg hp]

theorem findM?_cons_of_error {e : ε} (h : real first = .error e) (known : List String) :
    ((first :: known).findM? fun path => return (← real path) == place) = .error e := by
  rw [List.findM?, h]
  rfl

/-- What a search by place finds stands at the place. -/
theorem of_findM?_eq_ok_some {path : String}
    (h : (known.findM? fun path => return (← real path) == place) = .ok (some path)) :
    path ∈ known ∧ real path = .ok place := by
  induction known with
  | nil => cases h
  | cons first known ih =>
    cases hreal : real first with
    | error e =>
      rw [findM?_cons_of_error hreal] at h
      cases h
    | ok p =>
      rw [findM?_cons_of_ok hreal] at h
      split at h
      · rename_i hp
        cases h
        exact ⟨List.mem_cons_self, hp ▸ hreal⟩
      · obtain ⟨hmem, hplace⟩ := ih h
        exact ⟨List.mem_cons_of_mem first hmem, hplace⟩

/-- A search by place fails where a place cannot be looked up. -/
theorem of_findM?_eq_error {e : ε}
    (h : (known.findM? fun path => return (← real path) == place) = .error e) :
    ∃ path ∈ known, real path = .error e := by
  induction known with
  | nil => cases h
  | cons first known ih =>
    cases hreal : real first with
    | error e' =>
      rw [findM?_cons_of_error hreal] at h
      cases h
      exact ⟨first, List.mem_cons_self, hreal⟩
    | ok p =>
      rw [findM?_cons_of_ok hreal] at h
      split at h
      · cases h
      · obtain ⟨path, hpath, herror⟩ := ih h
        exact ⟨path, List.mem_cons_of_mem first hpath, herror⟩

end Search

/-! ### Imports -/

/-- The path of an import, seen from the directory of the file. -/
def relativeTarget (source markupPath : String) : String :=
  Path.normal (Path.join (Path.directory markupPath) source)

/-- The path that the aliases give an import, if they change it. -/
def aliasTarget? (source : String) (resolver : Option Alias.Resolver) : Option String :=
  (resolver.map (·.resolve source)).filter (· != source)

/-- The paths that an import may mean, in the order in which they are tried. -/
def targets (source markupPath : String) (resolver : Option Alias.Resolver) : List String :=
  relativeTarget source markupPath :: (aliasTarget? source resolver).toList

/-- The path whose place an import may mean. -/
def lastTarget (source markupPath : String) (resolver : Option Alias.Resolver) : String :=
  (aliasTarget? source resolver).getD (relativeTarget source markupPath)

section Resolve

variable {ε : Type} {real : String → Except ε String} {source markupPath path : String}
  {known : List String} {resolver : Option Alias.Resolver}

theorem aliasTarget?_eq_none (h : (resolver.map (·.resolve source)).getD source = source) :
    aliasTarget? source resolver = none := by
  cases resolver with
  | none => rfl
  | some r =>
    rw [aliasTarget?, Option.map_some]
    exact Option.filter_some_neg (by simpa using h)

theorem aliasTarget?_eq_some (h : (resolver.map (·.resolve source)).getD source ≠ source) :
    aliasTarget? source resolver = some ((resolver.map (·.resolve source)).getD source) := by
  cases resolver with
  | none => exact absurd rfl h
  | some r => exact Option.filter_some_pos (by simpa using h)

/-- **The three ways to look for an import**: as a target, or else by the place of the last target
and then by the file name. -/
theorem resolveImport_eq (real : String → Except ε String) (source markupPath : String)
    (known : List String) (resolver : Option Alias.Resolver) :
    resolveImport real source markupPath known resolver =
      (((targets source markupPath resolver).find? known.contains).map fun t => .ok (some t)).getD
        ((sheetAt real known (lastTarget source markupPath resolver)).map
          fun found => found.or (sheetNamed? known source)) := by
  have hrelative : Path.normal (Path.join (Path.directory markupPath) source) =
      relativeTarget source markupPath := rfl
  simp only [resolveImport, hrelative, targets, lastTarget]
  rw [List.find?_cons]
  cases known.contains (relativeTarget source markupPath) with
  | true => rfl
  | false =>
    -- An alias that leaves the import as it is gives no second target.
    by_cases hsame : (resolver.map (·.resolve source)).getD source = source
    · simp [aliasTarget?_eq_none hsame, hsame]
    · rw [aliasTarget?_eq_some hsame]
      generalize (resolver.map (·.resolve source)).getD source = aliased at hsame
      by_cases hknown : aliased ∈ known
      · simp [hsame, hknown]
      · simp [hsame, hknown]

theorem of_sheetAt_eq_ok_some {target : String} (h : sheetAt real known target = .ok (some path)) :
    path ∈ known ∧ ∃ place, real path = .ok place ∧ real target = .ok place := by
  rw [sheetAt] at h
  cases hplace : real target with
  | error e =>
    rw [hplace] at h
    cases h
  | ok place =>
    rw [hplace] at h
    obtain ⟨hmem, hreal⟩ := of_findM?_eq_ok_some h
    exact ⟨hmem, place, hreal, rfl⟩

theorem of_sheetAt_eq_error {target : String} {e : ε} (h : sheetAt real known target = .error e) :
    real target = .error e ∨ ∃ path ∈ known, real path = .error e := by
  rw [sheetAt] at h
  cases hplace : real target with
  | error e' =>
    rw [hplace] at h
    cases h
    exact Or.inl rfl
  | ok place =>
    rw [hplace] at h
    exact Or.inr (of_findM?_eq_error h)

/-- What an import means is a target that is known, stands at the place of the last target, or has
the file name. -/
theorem resolveImport_eq_ok_some
    (h : resolveImport real source markupPath known resolver = .ok (some path)) :
    (path ∈ targets source markupPath resolver ∧ path ∈ known) ∨
      sheetAt real known (lastTarget source markupPath resolver) = .ok (some path) ∨
      sheetNamed? known source = some path := by
  rw [resolveImport_eq] at h
  cases htarget : (targets source markupPath resolver).find? known.contains with
  | some target =>
    rw [htarget] at h
    cases h
    have hknown := List.find?_some htarget
    exact Or.inl ⟨List.mem_of_find?_eq_some htarget, by simpa using hknown⟩
  | none =>
    rw [htarget, Option.map_none, Option.getD_none] at h
    cases hplace : sheetAt real known (lastTarget source markupPath resolver) with
    | error e =>
      rw [hplace] at h
      cases h
    | ok found =>
      rw [hplace, Except.map, Except.ok.injEq, Option.or_eq_some_iff] at h
      rcases h with rfl | ⟨-, hnamed⟩
      · exact Or.inr (Or.inl rfl)
      · exact Or.inr (Or.inr hnamed)

/-- **An import means a known sheet.** -/
theorem resolveImport_mem
    (h : resolveImport real source markupPath known resolver = .ok (some path)) : path ∈ known := by
  rcases resolveImport_eq_ok_some h with ⟨-, hknown⟩ | hplace | hnamed
  · exact hknown
  · exact (of_sheetAt_eq_ok_some hplace).1
  · exact List.mem_of_find?_eq_some hnamed

end Resolve

/-- The sheet that a file binds a name to is known. -/
theorem Settings.mem_keys_of_bindings {s : Settings} {file path object : String} {root : Node}
    (h : (s.bindings file root).find? object = some path) : path ∈ s.sheets.keys := by
  have hmem := Table.mem_of_mem_ofList (Table.mem_of_find? h)
  obtain ⟨⟨name, source⟩, _, hresolved⟩ := List.mem_filterMap.mp hmem
  obtain ⟨path', hpath', he⟩ := Option.map_eq_some_iff.mp hresolved
  cases he
  exact resolveImport_mem (eq_ok_of_toOption (Option.join_eq_some_iff.mp hpath'))

end Markup

end StyleAudit
