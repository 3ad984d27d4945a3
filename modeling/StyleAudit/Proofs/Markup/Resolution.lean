import Mathlib.Data.List.Find
import Mathlib.Data.List.Nodup
import StyleAudit.Proofs.Markup.Import

/-!
# Which sheet an import means

An import means a target that is known, or else the sheet at the place of the last target, or else
the sheet with the same file name.  Places are asked of the file system, so the search may fail, but
only where a place that it asks for cannot be told (`resolveImport_total`).  Each way is a search for
a sheet with a property, so

* what is found by another name than the one asked for stands at the place of a target
  (`exists_target_of_resolveImport`), and
* if all sheets have places and at most one sheet has each property, the order of the sheets does not
  matter (`resolveImport_perm`).
-/

namespace StyleAudit.Markup

variable {ε : Type} {real : String → Except ε String} {source markupPath path : String}
  {known : List String} {resolver : Option Alias.Resolver}

theorem mem_targets {target : String} :
    target ∈ targets source markupPath resolver ↔
      target = relativeTarget source markupPath ∨
        ∃ r, resolver = some r ∧ r.resolve source ≠ source ∧ target = r.resolve source := by
  simp only [targets, aliasTarget?, List.mem_cons, Option.mem_toList, Option.filter_eq_some_iff,
    Option.map_eq_some_iff, bne_iff_ne]
  refine or_congr Iff.rfl ⟨?_, ?_⟩
  · rintro ⟨⟨r, hr, rfl⟩, hne⟩
    exact ⟨r, hr, hne, rfl⟩
  · rintro ⟨r, hr, hne, rfl⟩
    exact ⟨⟨r, hr, rfl⟩, hne⟩

theorem lastTarget_mem_targets :
    lastTarget source markupPath resolver ∈ targets source markupPath resolver := by
  rw [lastTarget, targets]
  cases aliasTarget? source resolver <;> simp

/-- **Resolution fails only where a place cannot be told.** -/
theorem resolveImport_total (real : String → Except ε String) (source markupPath : String)
    (known : List String) (resolver : Option Alias.Resolver) :
    (∃ found, resolveImport real source markupPath known resolver = .ok found) ∨
      ∃ path ∈ targets source markupPath resolver ++ known, ∃ e, real path = .error e ∧
        resolveImport real source markupPath known resolver = .error e := by
  rw [resolveImport_eq]
  cases (targets source markupPath resolver).find? known.contains with
  | some target => exact Or.inl ⟨_, rfl⟩
  | none =>
    rw [Option.map_none, Option.getD_none]
    cases hplace : sheetAt real known (lastTarget source markupPath resolver) with
    | ok found => exact Or.inl ⟨_, rfl⟩
    | error e =>
      refine Or.inr ?_
      rcases of_sheetAt_eq_error hplace with htarget | ⟨path, hpath, hreal⟩
      · exact ⟨_, List.mem_append_left _ lastTarget_mem_targets, e, htarget, rfl⟩
      · exact ⟨path, List.mem_append_right _ hpath, e, hreal, rfl⟩

/-- **A sheet with the file name of the import is enough.** -/
theorem resolveImport_ne_none (h : ∃ path ∈ known, Path.baseName path = Path.baseName source) :
    resolveImport real source markupPath known resolver ≠ .ok none := by
  obtain ⟨named, hnamed⟩ : ∃ named, sheetNamed? known source = some named := by
    obtain ⟨path, hpath, hname⟩ := h
    exact Option.isSome_iff_exists.mp (List.find?_isSome.mpr ⟨path, hpath, beq_iff_eq.mpr hname⟩)
  rw [resolveImport_eq, hnamed]
  cases (targets source markupPath resolver).find? known.contains with
  | some target => simp
  | none =>
    cases sheetAt real known (lastTarget source markupPath resolver) with
    | error e => simp [Except.map]
    | ok found => cases found <;> simp [Except.map]

/-- **A sheet with another file name is a target**, or stands at the place of one. -/
theorem exists_target_of_resolveImport
    (h : resolveImport real source markupPath known resolver = .ok (some path))
    (hname : Path.baseName path ≠ Path.baseName source) :
    ∃ target ∈ targets source markupPath resolver,
      path = target ∨ ∃ place, real path = .ok place ∧ real target = .ok place := by
  rcases resolveImport_eq_ok_some h with ⟨htarget, -⟩ | hplace | hnamed
  · exact ⟨path, htarget, Or.inl rfl⟩
  · exact ⟨_, lastTarget_mem_targets, Or.inr (of_sheetAt_eq_ok_some hplace).2⟩
  · have hsame := List.find?_some hnamed
    simp only [beq_iff_eq] at hsame
    exact absurd hsame hname

/-! ### The order of the sheets -/

/-- If all sheets have places, a search by place is a search by a property. -/
theorem findM?_eq_ok (h : ∀ path ∈ known, ∃ p, real path = .ok p) (place : String) :
    (known.findM? fun path => return (← real path) == place) =
      .ok (known.find? fun path => (real path).toOption == some place) := by
  induction known with
  | nil => rfl
  | cons first known ih =>
    obtain ⟨⟨p, hp⟩, hrest⟩ := List.forall_mem_cons.mp h
    rw [findM?_cons_of_ok hp, ih hrest]
    by_cases heq : p = place
    · rw [if_pos heq, List.find?_cons_of_pos (by simp [hp, heq, Except.toOption])]
    · rw [if_neg heq, List.find?_cons_of_neg (by simp [hp, heq, Except.toOption])]

/-- A search by a property that tells the elements of a list apart does not depend on their
order. -/
theorem find?_perm {β : Type} [BEq β] [LawfulBEq β] {known' : List String}
    (hperm : known.Perm known') {f : String → β} (hf : (known.map f).Nodup) (value : β) :
    known'.find? (fun path => f path == value) = known.find? fun path => f path == value := by
  refine (List.find?_eq_find?_of_perm hperm ?_).symm
  rintro a ⟨ha, hfa⟩ b ⟨hb, hfb⟩
  exact List.inj_on_of_nodup_map hf ha hb ((beq_iff_eq.mp hfa).trans (beq_iff_eq.mp hfb).symm)

theorem sheetAt_perm {known' places : List String} (hperm : known.Perm known')
    (hplaces : known.mapM real = .ok places) (hnodup : places.Nodup) (target : String) :
    sheetAt real known' target = sheetAt real known target := by
  have hall : ∀ path ∈ known, ∃ p, real path = .ok p := exists_of_mapM_eq_ok hplaces
  have hmap : known.map (fun path => (real path).toOption) = places.map some :=
    map_toOption_of_mapM_eq_ok hplaces
  have hdistinct : (known.map fun path => (real path).toOption).Nodup := by
    rw [hmap]
    exact hnodup.map fun _ _ => Option.some.inj
  rw [sheetAt, sheetAt]
  cases real target with
  | error e => rfl
  | ok place =>
    have hsearch : (known'.findM? fun path => return (← real path) == place) =
        known.findM? fun path => return (← real path) == place := by
      rw [findM?_eq_ok hall, findM?_eq_ok fun path hpath => hall path (hperm.mem_iff.mpr hpath),
        find?_perm hperm hdistinct]
    exact hsearch

/-- **The order of the sheets does not matter** if their file names and their places differ. -/
theorem resolveImport_perm {known' places : List String} (hperm : known.Perm known')
    (hnames : (known.map Path.baseName).Nodup) (hplaces : known.mapM real = .ok places)
    (hnodup : places.Nodup) :
    resolveImport real source markupPath known' resolver =
      resolveImport real source markupPath known resolver := by
  have hcontains : known'.contains = known.contains := by
    funext path
    simp [hperm.mem_iff]
  rw [resolveImport_eq, resolveImport_eq, hcontains, sheetAt_perm hperm hplaces hnodup, sheetNamed?,
    sheetNamed?, find?_perm hperm hnames]

/-- **Imports are resolved to known sheets, and given up only when they must be.**  Resolution ends
with a sheet or with none, unless the place of a target or of a known sheet is asked for and cannot
be told.  A sheet that is found is known, and it has the file name of the import unless it is its
relative path or its alias, or stands at the same place.  Something is found whenever a known sheet
has that file name.  The order of the sheets does not matter if all of them have places, and no two
share a file name or a place. -/
theorem resolveImport_known_and_stable {ε : Type} (real : String → Except ε String)
    (source markupPath : String) (known : List String) (resolver : Option Alias.Resolver) :
    ((∃ found, resolveImport real source markupPath known resolver = .ok found) ∨
      ∃ path, (path = Path.normal (Path.join (Path.directory markupPath) source) ∨
          (∃ r, resolver = some r ∧ r.resolve source ≠ source ∧ path = r.resolve source) ∨
          path ∈ known) ∧
        ∃ e, real path = .error e ∧
          resolveImport real source markupPath known resolver = .error e) ∧
    (∀ path, resolveImport real source markupPath known resolver = .ok (some path) →
      path ∈ known ∧ (Path.baseName path ≠ Path.baseName source →
        ∃ target, (target = Path.normal (Path.join (Path.directory markupPath) source) ∨
            ∃ r, resolver = some r ∧ r.resolve source ≠ source ∧ target = r.resolve source) ∧
          (path = target ∨ ∃ place, real path = .ok place ∧ real target = .ok place))) ∧
    ((∃ path ∈ known, Path.baseName path = Path.baseName source) →
      resolveImport real source markupPath known resolver ≠ .ok none) ∧
    ((known.map Path.baseName).Nodup →
      ∀ places, known.mapM real = .ok places → places.Nodup →
        ∀ known', known.Perm known' → resolveImport real source markupPath known' resolver =
          resolveImport real source markupPath known resolver) := by
  refine ⟨?_, fun path hpath => ⟨resolveImport_mem hpath, fun hname => ?_⟩,
    resolveImport_ne_none, ?_⟩
  · rcases resolveImport_total real source markupPath known resolver with
      hfound | ⟨path, hpath, herror⟩
    · exact Or.inl hfound
    · refine Or.inr ⟨path, ?_, herror⟩
      rw [List.mem_append, mem_targets, or_assoc] at hpath
      exact hpath
  · obtain ⟨target, htarget, hplace⟩ := exists_target_of_resolveImport hpath hname
    exact ⟨target, mem_targets.mp htarget, hplace⟩
  · exact fun hnames places hplaces hnodup known' hperm =>
      resolveImport_perm hperm hnames hplaces hnodup

/-- An alias that names a sheet: the sheet has another file name than the import. -/
theorem resolveImport_known_and_stable_theme :
    let known := ["/p/Card.css", "/p/shared/theme.css"]
    let r : Alias.Resolver := ⟨"/p", [("@theme", "shared/./theme.css")]⟩
    let resolved := fun source known =>
      resolveImport (Path.place "/") source "/p/src/App.jsx" known (some r)
    resolved "@theme" known = .ok (some "/p/shared/theme.css") ∧
      Path.baseName "/p/shared/theme.css" ≠ Path.baseName "@theme" ∧
      (∃ target, (target = Path.normal (Path.join (Path.directory "/p/src/App.jsx") "@theme") ∨
          ∃ r', some r = some r' ∧ r'.resolve "@theme" ≠ "@theme" ∧ target = r'.resolve "@theme") ∧
        ("/p/shared/theme.css" = target ∨ ∃ place,
          Path.place "/" "/p/shared/theme.css" = .ok place ∧ Path.place "/" target = .ok place)) ∧
      resolved "./lib/Card.css" known ≠ .ok none ∧
      resolved "@theme" known.reverse = resolved "@theme" known := by
  intro known r resolved
  have hfound : resolved "@theme" known = .ok (some "/p/shared/theme.css") := by decide
  have hname : Path.baseName "/p/shared/theme.css" ≠ Path.baseName "@theme" := by decide
  obtain ⟨-, hsound, -, hstable⟩ :=
    resolveImport_known_and_stable (Path.place "/") "@theme" "/p/src/App.jsx" known (some r)
  obtain ⟨-, -, hcomplete, -⟩ := resolveImport_known_and_stable (Path.place "/") "./lib/Card.css"
    "/p/src/App.jsx" known (some r)
  refine ⟨hfound, hname, (hsound _ hfound).2 hname, hcomplete ?_, hstable ?_ known ?_ ?_ _ ?_⟩
  · exact ⟨"/p/Card.css", List.mem_cons_self, by decide⟩
  · decide
  · decide
  · decide
  · exact (List.reverse_perm known).symm

/-- The place of a path with a NUL in it cannot be told.  So resolution fails if such a path is known
before a sheet with the file name of the import, or if an alias gives the import such a path. -/
theorem resolveImport_of_nul :
    let r : Alias.Resolver := ⟨"/p", [("@", "x\x00/")]⟩
    resolveImport (Path.place "/") "./b.css" "/p/src/App.jsx" ["/p/a\x00.css", "/p/b.css"] none =
        .error .embeddedNul ∧
      resolveImport (Path.place "/") "@/b.css" "/p/src/App.jsx" ["/p/b.css"] (some r) =
        .error .embeddedNul := by
  decide

end StyleAudit.Markup
