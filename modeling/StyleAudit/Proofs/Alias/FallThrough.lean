import Mathlib.Data.List.Basic
import StyleAudit.Proofs.Alias.Loader
import StyleAudit.Proofs.Json.Depth
import StyleAudit.Proofs.Logged

/-!
# Malformed sources of aliases

A source of aliases that is malformed should state nothing, and an entry of it that is malformed
should be passed over, so that the next source is tried.  `Candidate.stated` is what a source states
if it is read in this way.

Compiler configurations are read with less care.  Options that are set but are no object, and a
target that is set but is neither a text nor a list, end the loading (`Mistyped`).  A source whose
JSON is nested too deep ends it too.  Everything else that can be wrong with a source is passed over:
the resolver of a project has the table of the first source that states something, unless a source
that ends the loading is reached before (`aliases_fall_through`).
-/

namespace StyleAudit

/-- The entries of the object under a key; none if there is no object. -/
def Json.entriesAt (key : String) (v : Json) : Entries :=
  match v.find? key with
  | some (.object es) => es
  | _ => []

/-- The value counts as set and is of none of the given kinds. -/
def Json.SetButNot (kinds : List Kind) (v : Json) : Prop :=
  v.isSet = true ∧ v.kind ∉ kinds

/-- What is used of a value that may be unset are the entries of an object. -/
theorem Json.orEmpty_find? (key : String) (v : Json) :
    orEmpty (v.find? key) = .object (v.entriesAt key) ∨
      v.entriesAt key = [] ∧ ∃ u, v.find? key = some u ∧ orEmpty (v.find? key) = u ∧
        u.SetButNot [.object] := by
  rw [entriesAt]
  cases hv : v.find? key with
  | none => exact Or.inl rfl
  | some u =>
    cases hset : u.isSet with
    | false =>
      refine Or.inl ?_
      rw [orEmpty, hset]
      cases u with
      | object es => simp_all [isSet]
      | _ => rfl
    | true =>
      have hu : orEmpty (some u) = u := by rw [orEmpty, hset]; rfl
      cases u with
      | object es => exact Or.inl hu
      | _ => exact Or.inr ⟨rfl, _, rfl, hu, hset, by simp [kind]⟩

namespace Alias

/-! ### Path maps -/

/-- The entries of the path map of a compiler configuration. -/
def pathEntries (configuration : Json) : Json.Entries :=
  Json.entriesAt "paths" (.object (configuration.entriesAt "compilerOptions"))

/-- The alias of an entry of a path map, if its target is a text or a list that begins with one. -/
def pathAlias? (entry : CodeText × Json) : Option (String × String) :=
  match entry.2 with
  | .string s => some (withoutWildcard entry.1.shown, withoutWildcard s.shown)
  | .array (.string s :: _) => some (withoutWildcard entry.1.shown, withoutWildcard s.shown)
  | _ => none

/-- The aliases of a path map, malformed entries passed over. -/
def pathAliases (configuration : Json) : Table String :=
  .ofList ((pathEntries configuration).filterMap pathAlias?)

/-- A compiler configuration that reading stops at. -/
def Mistyped (configuration : Json) : Prop :=
  (∃ options, configuration.find? "compilerOptions" = some options ∧
    options.SetButNot [.object]) ∨
  ∃ entry ∈ pathEntries configuration, entry.2.SetButNot [.string, .array]

theorem pathMapEntry?_eq_ok {entry : CodeText × Json}
    (h : ¬ entry.2.SetButNot [.string, .array]) :
    pathMapEntry? entry.1 entry.2 = .ok (pathAlias? entry) := by
  obtain ⟨pattern, targets⟩ := entry
  have hkind : targets.isSet = true → targets.kind ∈ [Json.Kind.string, .array] := fun hset =>
    Classical.not_not.mp fun hkind => h ⟨hset, hkind⟩
  cases targets with
  | null => rfl
  | string s => rfl
  | array es =>
    cases es with
    | nil => rfl
    | cons e es => cases e <;> rfl
  | _ =>
    -- a value of another kind is not set
    simp_all [Json.kind, pathMapEntry?, pathAlias?]

theorem pathMapEntry?_eq_error {entry : CodeText × Json}
    (h : entry.2.SetButNot [.string, .array]) : ∃ m, pathMapEntry? entry.1 entry.2 = .error m := by
  obtain ⟨pattern, targets⟩ := entry
  obtain ⟨hset, hkind⟩ := h
  cases targets <;> simp_all [Json.kind, pathMapEntry?, Json.first, bind, Except.bind]

/-- With options of another type than an object, no path map is found. -/
theorem pathMap_eq_error {es : Json.Entries} {options : Json}
    (h : (Json.object es).find? "compilerOptions" = some options)
    (hbad : options.SetButNot [.object]) : ∃ m, pathMap (.object es) = .error m := by
  have hget : (Json.object es).get "compilerOptions" = .ok (some options) := congrArg _ h
  obtain ⟨hset, hkind⟩ := hbad
  rw [pathMap, hget]
  simp only [bind, Except.bind, Json.orEmpty, hset, if_true]
  cases options with
  | object os => exact absurd List.mem_cons_self hkind
  | _ => exact ⟨_, rfl⟩

/-- Otherwise the entries of the path map are read one by one. -/
theorem pathMap_eq_mapM {es : Json.Entries}
    (h : ¬ ∃ options, (Json.object es).find? "compilerOptions" = some options ∧
      options.SetButNot [.object]) :
    pathMap (.object es) = ((pathEntries (.object es)).mapM fun e => pathMapEntry? e.1 e.2).map
      fun aliases => .ofList (aliases.filterMap id) := by
  have hget : ∀ (os : Json.Entries) key,
      (Json.object os).get key = .ok ((Json.object os).find? key) := fun _ _ => rfl
  have hoptions : Json.orEmpty ((Json.object es).find? "compilerOptions") =
      .object ((Json.object es).entriesAt "compilerOptions") :=
    (Json.orEmpty_find? _ _).resolve_right fun ⟨_, o, ho, _, hbad⟩ => h ⟨o, ho, hbad⟩
  rw [pathMap, hget, pathEntries]
  simp only [bind, Except.bind, hoptions, hget]
  rcases Json.orEmpty_find? "paths" (.object ((Json.object es).entriesAt "compilerOptions"))
    with hpaths | ⟨hnil, p, -, hpaths, -, hkind⟩
  · rw [hpaths]
    rfl
  · rw [hpaths, hnil]
    cases p with
    | object ps => exact absurd List.mem_cons_self hkind
    | _ => rfl

/-- Reading the path map of an object stops iff something in it is mistyped, and gives its aliases
otherwise. -/
theorem pathMap_cases (es : Json.Entries) :
    (¬ Mistyped (.object es) ∧ pathMap (.object es) = .ok (pathAliases (.object es))) ∨
      Mistyped (.object es) ∧ ∃ m, pathMap (.object es) = .error m := by
  by_cases hoptions : ∃ options, (Json.object es).find? "compilerOptions" = some options ∧
      options.SetButNot [.object]
  · obtain ⟨options, hfind, hbad⟩ := hoptions
    exact Or.inr ⟨Or.inl ⟨options, hfind, hbad⟩, pathMap_eq_error hfind hbad⟩
  rw [pathMap_eq_mapM hoptions]
  by_cases hentries : ∃ e ∈ pathEntries (.object es), e.2.SetButNot [.string, .array]
  · refine Or.inr ⟨Or.inr hentries, ?_⟩
    cases hread : (pathEntries (.object es)).mapM fun e => pathMapEntry? e.1 e.2 with
    | error m => exact ⟨m, rfl⟩
    | ok aliases =>
      obtain ⟨e, he, hbad⟩ := hentries
      obtain ⟨m, hm⟩ := pathMapEntry?_eq_error hbad
      obtain ⟨y, hy⟩ := exists_of_mapM_eq_ok hread e he
      cases hm.symm.trans hy
  · have hread := mapM_eq_ok fun e he => pathMapEntry?_eq_ok fun hbad => hentries ⟨e, he, hbad⟩
    refine Or.inl ⟨not_or.mpr ⟨hoptions, hentries⟩, ?_⟩
    rw [hread, Except.map, List.filterMap_map, pathAliases]
    rfl

/-! ### Import maps -/

/-- The aliases of an import map, malformed entries passed over. -/
def importAliases (package : Json) : Table String :=
  .ofList ((package.entriesAt "imports").filterMap fun e => importEntry? e.1 e.2)

theorem packageImports_eq_ok (es : Json.Entries) :
    packageImports (.object es) = .ok (importAliases (.object es)) := by
  have hget : (Json.object es).get "imports" = .ok ((Json.object es).find? "imports") := rfl
  rw [packageImports, hget, importAliases]
  simp only [bind, Except.bind]
  rcases Json.orEmpty_find? "imports" (.object es) with himports | ⟨hnil, i, -, himports, -, hkind⟩
  · rw [himports]
    rfl
  · rw [himports, hnil]
    cases i with
    | object is => exact absurd List.mem_cons_self hkind
    | _ => rfl

/-! ### Sources -/

/-- The value of a text that may be no JSON. -/
def valueOrNull (text : String) : Json :=
  (Json.parseCommented text).toOption.getD .null

/-- What a value states in a format, whatever is malformed in it passed over. -/
def Format.statedBy (f : Format) (v : Json) : Table String :=
  match f with
  | .compiler => pathAliases v
  | .bundler => []
  | .package => importAliases v

/-- What the text of a source states. -/
def Format.stated (f : Format) (text : String) : Table String :=
  if f = .bundler then bundlerBlock text else f.statedBy (valueOrNull text)

/-- The text of a source that is a file. -/
def Candidate.text? (d : Disk) (root : String) (c : Candidate) : Option String :=
  if d.isFile (c.path root) then (d.read (c.path root)).toOption else none

/-- What a source states; nothing if there is no such file. -/
def Candidate.stated (d : Disk) (root : String) (c : Candidate) : Table String :=
  ((c.text? d root).map c.format.stated).getD []

/-- Reading the text of a source stops: it is a mistyped compiler configuration, or it is read as
JSON and nested too deep. -/
def Format.StopsAt (f : Format) (text : String) (nesting : Nat) : Prop :=
  (f = .compiler ∧ Mistyped (valueOrNull text)) ∨
    f ≠ .bundler ∧ Json.TooDeepCommented nesting text

/-- The source has a text that reading stops at. -/
def Candidate.Stops (d : Disk) (root : String) (nesting : Nat) (c : Candidate) : Prop :=
  ∃ text, c.text? d root = some text ∧ c.format.StopsAt text nesting

/-- A value without entries states nothing and stops no reading. -/
theorem Format.statedBy_eq_nil (f : Format) {v : Json} (h : ∀ key, v.find? key = none) :
    f.statedBy v = [] ∧ ¬ Mistyped v := by
  have hentries : ∀ key, v.entriesAt key = [] := fun key => by rw [Json.entriesAt, h key]
  have hpaths : pathEntries v = [] := by rw [pathEntries, hentries]; rfl
  constructor
  · cases f with
    | compiler => rw [statedBy, pathAliases, hpaths]; rfl
    | bundler => rfl
    | package => rw [statedBy, importAliases, hentries]; rfl
  · rintro (⟨options, hfind, -⟩ | ⟨e, he, -⟩)
    · cases (h _).symm.trans hfind
    · rw [hpaths] at he
      cases he

/-- What reading a value in a format ends with. -/
theorem Format.ofJson_cases (f : Format) (v : Json) :
    (¬ (f = .compiler ∧ Alias.Mistyped v) ∧ f.ofJson v = .ok (f.statedBy v)) ∨
    (f = .compiler ∧ Alias.Mistyped v) ∧ ∃ m, f.ofJson v = .error m := by
  by_cases hv : ∃ e es, v = .object (e :: es)
  · obtain ⟨e, es, rfl⟩ := hv
    cases f with
    | compiler => simpa [ofJson, statedBy] using pathMap_cases (e :: es)
    | bundler => exact Or.inl ⟨by simp, rfl⟩
    | package => exact Or.inl ⟨by simp, packageImports_eq_ok (e :: es)⟩
  · have hnone : ∀ key, v.find? key = none := by
      intro key
      cases v with
      | object es =>
        cases es with
        | nil => rfl
        | cons e es => exact absurd ⟨e, es, rfl⟩ hv
      | _ => rfl
    have hempty : f.ofJson v = .ok [] := by
      unfold ofJson
      split
      · exact absurd ⟨_, _, rfl⟩ hv
      · exact absurd ⟨_, _, rfl⟩ hv
      · rfl
    obtain ⟨hnothing, hclear⟩ := f.statedBy_eq_nil hnone
    exact Or.inl ⟨fun h => hclear h.2, by rw [hempty, hnothing]⟩

section Load

variable {f : Format} {nesting : Nat} {text : String}

theorem Format.result_load_of_ok (hf : f ≠ .bundler) (path : String) {v : Json}
    (h : Json.parseCommentedWithin nesting text = .ok v) :
    (f.load path text nesting).result = (f.ofJson v).mapError .misuse := by
  cases f with
  | bundler => exact absurd rfl hf
  | _ => simp [load, h]

theorem Format.result_load_of_tooDeep (hf : f ≠ .bundler) (path : String) {b : Json.Bracket}
    (h : Json.parseCommentedWithin nesting text = .error (.tooDeep b)) :
    (f.load path text nesting).result = .error (.json (.tooDeep b)) := by
  cases f with
  | bundler => exact absurd rfl hf
  | _ => simp [load, h]

theorem Format.result_load_of_error (hf : f ≠ .bundler) (path : String) {e : Json.ReadError}
    (he : ∀ b, e ≠ .tooDeep b) (h : Json.parseCommentedWithin nesting text = .error e) :
    (f.load path text nesting).result = .ok [] := by
  cases f with
  | bundler => exact absurd rfl hf
  | _ =>
    cases e with
    | tooDeep b => exact absurd rfl (he b)
    | _ => simp [load, h]

/-- What reading the text of a source ends with. -/
theorem Format.result_load (f : Format) (path text : String) (nesting : Nat) :
    (¬ f.StopsAt text nesting ∧ (f.load path text nesting).result = .ok (f.stated text)) ∨
      f.StopsAt text nesting ∧ ∃ fault, (f.load path text nesting).result = .error fault := by
  by_cases hf : f = .bundler
  · subst hf
    exact Or.inl ⟨by simp [StopsAt], rfl⟩
  rcases Json.parseCommentedWithin_cases nesting text with ⟨hdeep, hwithin⟩ | ⟨hdeep, b, hwithin⟩
  · -- the text is read as it is without a limit
    have hstops : f.StopsAt text nesting ↔ f = .compiler ∧ Mistyped (valueOrNull text) := by
      simp [StopsAt, hdeep]
    rw [hstops, stated, if_neg hf]
    cases hparse : Json.parseCommented text with
    | error e =>
      have hvalue : valueOrNull text = .null := by rw [valueOrNull, hparse]; rfl
      have hne : ∀ b, e ≠ .tooDeep b := by
        rintro b rfl
        exact Json.parse_ne_tooDeep _ b hparse
      obtain ⟨hnothing, hclear⟩ := f.statedBy_eq_nil (v := .null) fun _ => rfl
      rw [result_load_of_error hf path hne (hwithin.trans hparse), hvalue, hnothing]
      exact Or.inl ⟨fun h => hclear h.2, rfl⟩
    | ok v =>
      have hvalue : valueOrNull text = v := by rw [valueOrNull, hparse]; rfl
      rw [result_load_of_ok hf path (hwithin.trans hparse), hvalue]
      rcases f.ofJson_cases v with ⟨hclear, hok⟩ | ⟨hbad, m, hm⟩
      · exact Or.inl ⟨hclear, by rw [hok]; rfl⟩
      · exact Or.inr ⟨hbad, .misuse m, by rw [hm]; rfl⟩
  · exact Or.inr ⟨Or.inr ⟨hf, hdeep⟩, _, result_load_of_tooDeep hf path hwithin⟩

end Load

/-- What loading a source ends with. -/
theorem Candidate.result_load (d : Disk) (root : String) (nesting : Nat) (c : Candidate) :
    (¬ c.Stops d root nesting ∧ (c.load d root nesting).result = .ok (c.stated d root)) ∨
      c.Stops d root nesting ∧ ∃ fault, (c.load d root nesting).result = .error fault := by
  have hnone : c.text? d root = none → ¬ c.Stops d root nesting ∧ c.stated d root = [] := by
    intro h
    refine ⟨fun ⟨text, htext, _⟩ => ?_, by rw [stated, h]; rfl⟩
    cases h.symm.trans htext
  have hpath : Path.tidy (Path.join root c.file) = c.path root := rfl
  unfold load
  simp only [hpath]
  cases hfile : d.isFile (c.path root) with
  | false =>
    obtain ⟨hclear, hempty⟩ := hnone (by simp [text?, hfile])
    exact Or.inl ⟨hclear, by rw [hempty]; rfl⟩
  | true =>
    cases hread : d.read (c.path root) with
    | error e =>
      obtain ⟨hclear, hempty⟩ := hnone (by simp [text?, hfile, hread, Except.toOption])
      exact Or.inl ⟨hclear, by rw [hempty]; rfl⟩
    | ok text =>
      have htext : c.text? d root = some text := by simp [text?, hfile, hread, Except.toOption]
      have hstops : c.Stops d root nesting ↔ c.format.StopsAt text nesting := by
        simp [Stops, htext]
      rw [hstops, stated, htext]
      exact c.format.result_load (c.path root) text nesting

/-! ### All sources -/

/-- The table of the first source that states something. -/
def firstStated (d : Disk) (root : String) (cs : List Candidate) : Table String :=
  ((cs.map (·.stated d root)).find? (! ·.isEmpty)).getD []

/-- The source is reached: none of the sources before it states anything. -/
def Reached (d : Disk) (root : String) (cs : List Candidate) (c : Candidate) : Prop :=
  ∃ before after, cs = before ++ c :: after ∧ ∀ b ∈ before, b.stated d root = []

theorem reached_cons_iff {d : Disk} {root : String} {c x : Candidate} {cs : List Candidate} :
    Reached d root (c :: cs) x ↔ x = c ∨ c.stated d root = [] ∧ Reached d root cs x := by
  constructor
  · rintro ⟨before, after, hsplit, hbefore⟩
    cases before with
    | nil => cases hsplit; exact Or.inl rfl
    | cons b before =>
      cases hsplit
      obtain ⟨hb, hrest⟩ := List.forall_mem_cons.mp hbefore
      exact Or.inr ⟨hb, before, after, rfl, hrest⟩
  · rintro (rfl | ⟨hc, before, after, rfl, hbefore⟩)
    · exact ⟨[], cs, rfl, by simp⟩
    · exact ⟨c :: before, after, rfl, List.forall_mem_cons.mpr ⟨hc, hbefore⟩⟩

/-- Loading gives the table of the first source that states something, or stops at a source that it
reaches. -/
theorem result_firstTable (d : Disk) (root : String) (nesting : Nat) (cs : List Candidate) :
    ((∀ c, Reached d root cs c → ¬ c.Stops d root nesting) ∧
      (firstTable d root cs nesting).result = .ok (firstStated d root cs)) ∨
    (∃ c, Reached d root cs c ∧ c.Stops d root nesting) ∧
      ∃ fault, (firstTable d root cs nesting).result = .error fault := by
  induction cs with
  | nil =>
    refine Or.inl ⟨?_, rfl⟩
    rintro c ⟨before, after, hsplit, -⟩
    simp at hsplit
  | cons c cs ih =>
    rw [firstTable]
    rcases c.result_load d root nesting with ⟨hclear, hok⟩ | ⟨hbad, fault, hfault⟩
    · rw [Logged.result_bind_of_ok hok]
      cases hstated : c.stated d root with
      | nil =>
        have hfirst : firstStated d root (c :: cs) = firstStated d root cs := by
          simp [firstStated, hstated]
        simp only [reached_cons_iff, hstated, hfirst]
        rcases ih with ⟨hall, hresult⟩ | ⟨⟨x, hx, hxbad⟩, hresult⟩
        · refine Or.inl ⟨?_, hresult⟩
          rintro x (rfl | ⟨-, hx⟩)
          · exact hclear
          · exact hall x hx
        · exact Or.inr ⟨⟨x, Or.inr ⟨trivial, hx⟩, hxbad⟩, hresult⟩
      | cons e es =>
        refine Or.inl ⟨?_, by simp [firstStated, hstated]⟩
        rintro x hx
        rcases reached_cons_iff.mp hx with rfl | ⟨hnil, -⟩
        · exact hclear
        · cases hstated.symm.trans hnil
    · exact Or.inr ⟨⟨c, reached_cons_iff.mpr (Or.inl rfl), hbad⟩, fault,
        Logged.result_bind_of_error hfault⟩

/-- **Malformed sources of aliases are passed over, except for mistyped compiler configurations and
JSON that is nested too deep.**  Loading ends with a resolver iff it reaches no source that it stops
at, and then the resolver has the table of the first source that states something, where malformed
sources and entries state nothing.  This is so however many brackets may be open. -/
theorem aliases_fall_through (d : Disk) (root : String) (nesting : Nat) :
    ((∃ r, (Resolver.ofDisk d root nesting).result = .ok r) ↔
      ∀ c, Reached d root candidates c → ¬ c.Stops d root nesting) ∧
    ∀ r, (Resolver.ofDisk d root nesting).result = .ok r →
      r = ⟨root, firstStated d root candidates⟩ := by
  rcases result_firstTable d root nesting candidates with ⟨hclear, hok⟩ | ⟨⟨c, hc, hbad⟩, fault, hfault⟩
  · have hresult : (Resolver.ofDisk d root nesting).result =
        .ok ⟨root, firstStated d root candidates⟩ := by
      rw [Resolver.ofDisk, Logged.result_bind_of_ok hok]
      rfl
    refine ⟨iff_of_true ⟨_, hresult⟩ hclear, fun r hr => ?_⟩
    exact Except.ok.inj (hr.symm.trans hresult)
  · have hresult : (Resolver.ofDisk d root nesting).result = .error fault := by
      rw [Resolver.ofDisk, Logged.result_bind_of_error hfault]
    refine ⟨iff_of_false ?_ fun h => h c hc hbad, fun r hr => ?_⟩
    · rintro ⟨r, hr⟩
      cases hresult.symm.trans hr
    · cases hresult.symm.trans hr

/-- A disk with two compiler configurations and an import map, one entry of which is malformed. -/
def aliasDisk (tsconfig jsconfig : String) : Disk where
  tree := .directory
    [("tsconfig.json", .ofText tsconfig), ("jsconfig.json", .ofText jsconfig),
      ("package.json",
        .ofText "\x7b\"imports\": \x7b\"#a\": 7, \"#styles/*\": \"./src/*\"\x7d\x7d")]
  cwd := "/"

/-- A configuration that is no JSON and one whose path map is a number are passed over. -/
theorem aliases_fall_through_package :
    let d := aliasDisk "\x7b" "\x7b\"compilerOptions\": \x7b\"paths\": 3\x7d\x7d"
    (∀ c, Reached d "/" candidates c → ¬ c.Stops d "/" Json.nestingLimit) ∧
      firstStated d "/" candidates = [("styles", "./src")] := by
  intro d
  have hresult : (Resolver.ofDisk d "/").result = .ok ⟨"/", [("styles", "./src")]⟩ :=
    eq_ok_of_toOption (by decide +kernel)
  obtain ⟨htotal, hvalue⟩ := aliases_fall_through d "/" Json.nestingLimit
  exact ⟨htotal.mp ⟨_, hresult⟩, (congrArg Resolver.aliases (hvalue _ hresult)).symm⟩

/-- Options that are a list stop the loading, and so do a target that is a number or an object and,
where two brackets may be open, a text that opens three. -/
theorem mistyped_stops_loading :
    let outcome := fun text =>
      (Resolver.ofDisk (aliasDisk text "") "/").result.mapError Fault.message
    outcome "\x7b\"compilerOptions\": [1]\x7d" = .error "'list' object has no attribute 'get'" ∧
      outcome "\x7b\"compilerOptions\": \x7b\"paths\": \x7b\"@/*\": 1\x7d\x7d\x7d" =
        .error "'int' object is not subscriptable" ∧
      outcome "\x7b\"compilerOptions\": \x7b\"paths\": \x7b\"@/*\": \x7b\"a\": 1\x7d\x7d\x7d\x7d" =
        .error "0" ∧
      (Resolver.ofDisk (aliasDisk "[[[" "") "/" 2).result.mapError Fault.message =
        .error ("maximum recursion depth exceeded while decoding a JSON array from a unicode " ++
          "string") := by
  decide +kernel

end Alias

end StyleAudit
