import Mathlib.Data.List.Nodup
import StyleAudit.Proofs.Alias.FallThrough

/-!
# The first source of aliases decides

The sources of aliases are tried one after the other.  A source decides if it states a table while
those before it state nothing.  Then loading gives this table and tells what those sources tell, and
nothing that comes after the deciding source is looked at (`firstTable_of_decides`).

What a source states depends on its text alone (`Candidate.load_eq`), and a source can be written,
replaced or removed without touching another one (`Candidate.text?_of_edited`).  So sources after the
deciding one may be edited in any way, and the run stays the same (`first_source_decides`).
-/

namespace StyleAudit

/-! ### Edits -/

namespace Disk

/-- The second disk is the first one after entries have been put at some of the paths, or removed
from there. -/
inductive Edited (paths : List String) (d : Disk) : Disk → Prop
  | same : Edited paths d d
  | put {d' : Disk} (before : Edited paths d d') {path : String} (hpath : path ∈ paths) (e : Entry) :
      Edited paths d (d'.put path e)
  | remove {d' : Disk} (before : Edited paths d d') {path : String} (hpath : path ∈ paths) :
      Edited paths d (d'.remove path)

variable {d : Disk} {names : List String}

theorem isFile_tree_put (hne : names ≠ []) (e : Entry) :
    (Entry.put e names d.tree).isFile = false := by
  cases names with
  | nil => exact absurd rfl hne
  | cons name names => rfl

theorem isFile_tree_remove (hdir : d.tree.isFile = false) :
    (d.tree.remove names).isFile = false := by
  unfold Entry.remove
  split
  · exact hdir
  · rfl
  · split
    · rfl
    · exact hdir

/-- What stands at a place does not depend on edits at places apart from it. -/
theorem at?_of_edited {paths : List String} {d' : Disk} (h : Edited paths d d')
    (hpaths : ∀ path ∈ paths, ∃ place, (∀ name ∈ place, Path.IsName name) ∧
      path = Path.ofNames place ∧ Entry.Apart place names)
    (hdir : d.tree.isFile = false) :
    d'.tree.isFile = false ∧ d'.tree.at? names = d.tree.at? names := by
  induction h with
  | same => exact ⟨hdir, rfl⟩
  | put before hpath e ih =>
    obtain ⟨place, hplace, rfl, hapart⟩ := hpaths _ hpath
    rw [put_ofNames _ hplace]
    exact ⟨isFile_tree_put hapart.ne_nil.1 e, (Entry.at?_put_of_apart hapart).trans ih.2⟩
  | remove before hpath ih =>
    obtain ⟨place, hplace, rfl, hapart⟩ := hpaths _ hpath
    rw [remove_ofNames _ hplace]
    exact ⟨isFile_tree_remove ih.1, (Entry.at?_remove_of_apart hapart).trans ih.2⟩

end Disk

namespace Alias

variable {d d' : Disk} {root : String} {c : Candidate} {before after cs : List Candidate}
  {table : Table String}

/-! ### What a source depends on -/

/-- A file can be read. -/
theorem exists_read_of_isFile {path : String} (h : d.isFile path = true) :
    ∃ text, d.read path = .ok text := by
  rw [Disk.isFile] at h
  rw [Disk.read]
  cases hlocate : d.locate path with
  | error cause => rw [hlocate] at h; cases h
  | ok e =>
    rw [hlocate] at h
    cases e with
    | file bytes => exact ⟨_, rfl⟩
    | directory es => cases h

/-- What a source states, and what is told about it, depends on its text alone. -/
theorem Candidate.load_eq (d : Disk) (root : String) (c : Candidate) :
    c.load d root = ((c.text? d root).map (c.format.load (c.path root))).getD (pure []) := by
  have hpath : Path.tidy (Path.join root c.file) = c.path root := rfl
  rw [text?]
  simp only [load, hpath]
  cases hfile : d.isFile (c.path root) with
  | false => rfl
  | true =>
    obtain ⟨text, htext⟩ := exists_read_of_isFile hfile
    rw [htext]
    rfl

/-- The text of a source is read from the entry at its place. -/
theorem Candidate.text?_eq (d : Disk) (root : String) (c : Candidate) :
    c.text? d root = (d.locate (c.path root)).toOption.bind fun e =>
      match e with
      | .file bytes => some (Text.ofBytes bytes)
      | .directory _ => none := by
  rw [text?, Disk.isFile, Disk.read]
  cases d.locate (c.path root) with
  | error cause => rfl
  | ok e => cases e <;> rfl

/-- No source is on the way to another one. -/
theorem candidates_apart : ∀ c ∈ candidates, ∀ c' ∈ candidates, c ≠ c' →
    Disk.Entry.Apart (Path.components c.file) (Path.components c'.file) := by
  decide +kernel

/-- **Edits of other sources do not change the text of a source.** -/
theorem Candidate.text?_of_edited (hc : c ∈ candidates) (hcs : ∀ c' ∈ cs, c' ∈ candidates ∧ c' ≠ c)
    (hdir : d.tree.isFile = false) {pre : List String} (hpre : ∀ name ∈ pre, Path.IsName name)
    (h : Disk.Edited (cs.map (·.path (Path.ofNames pre))) d d') :
    c.text? d' (Path.ofNames pre) = c.text? d (Path.ofNames pre) := by
  obtain ⟨hnames, hpath⟩ := c.path_ofNames hc hpre
  have hplaces : ∀ path ∈ cs.map (·.path (Path.ofNames pre)), ∃ place,
      (∀ name ∈ place, Path.IsName name) ∧ path = Path.ofNames place ∧
        Disk.Entry.Apart place (pre ++ Path.components c.file) := by
    intro path hmem
    obtain ⟨c', hc', rfl⟩ := List.mem_map.mp hmem
    obtain ⟨hcand, hne⟩ := hcs c' hc'
    obtain ⟨hplace, heq⟩ := c'.path_ofNames hcand hpre
    exact ⟨_, hplace, heq, (candidates_apart c' hcand c hc hne).append pre⟩
  obtain ⟨hdir', hat⟩ := Disk.at?_of_edited h hplaces hdir
  rw [text?_eq, text?_eq, hpath, Disk.toOption_locate hdir' hnames, Disk.toOption_locate hdir hnames,
    hat]

/-! ### The deciding source -/

/-- A source decides if it states a table and those before it state nothing. -/
structure Decides (d : Disk) (root : String) (before : List Candidate) (c : Candidate)
    (table : Table String) : Prop where
  nothing : ∀ b ∈ before, (b.load d root).result = .ok []
  states : (c.load d root).result = .ok table
  ne_nil : table ≠ []

theorem firstTable_cons_of_nil (h : (c.load d root).result = .ok []) (cs : List Candidate) :
    firstTable d root (c :: cs) =
      ⟨(c.load d root).events ++ (firstTable d root cs).events, (firstTable d root cs).result⟩ := by
  simp only [firstTable, bind, Logged.andThen, h]
  rfl

theorem firstTable_cons_of_ne_nil (h : (c.load d root).result = .ok table) (hne : table ≠ [])
    (cs : List Candidate) :
    firstTable d root (c :: cs) =
      ⟨(c.load d root).events ++ [.aliasesLoaded table.length c.origin], .ok table⟩ := by
  have hfilled : table.isEmpty = false := by simpa using hne
  simp only [firstTable, bind, Logged.andThen, h, hfilled]
  rfl

/-- **The deciding source gives the table**, and what is told is told by the sources up to it. -/
theorem firstTable_of_decides (h : Decides d root before c table) (after : List Candidate) :
    firstTable d root (before ++ c :: after) =
      ⟨(before ++ [c]).flatMap (fun b => (b.load d root).events) ++
        [.aliasesLoaded table.length c.origin], .ok table⟩ := by
  obtain ⟨hnothing, hstates, hne⟩ := h
  induction before with
  | nil => simpa using firstTable_cons_of_ne_nil hstates hne after
  | cons b before ih =>
    obtain ⟨hb, hbefore⟩ := List.forall_mem_cons.mp hnothing
    rw [List.cons_append, firstTable_cons_of_nil hb, ih hbefore]
    simp

/-- If all sources can be loaded, the first table with entries is the result. -/
theorem result_firstTable_of_parsed {parsed : Candidate → Table String}
    (h : ∀ b ∈ cs, (b.load d root).result = .ok (parsed b)) :
    (firstTable d root cs).result =
      .ok (((cs.map parsed).find? (! ·.isEmpty)).getD []) := by
  induction cs with
  | nil => rfl
  | cons b cs ih =>
    obtain ⟨hb, hcs⟩ := List.forall_mem_cons.mp h
    cases hparsed : parsed b with
    | nil =>
      rw [firstTable_cons_of_nil (hb.trans (by rw [hparsed])), ih hcs]
      simp [hparsed]
    | cons e es =>
      rw [firstTable_cons_of_ne_nil hb (by simp [hparsed])]
      simp [hparsed]

theorem ofDisk_of_decides (h : Decides d root before c table)
    (hsplit : candidates = before ++ c :: after) :
    Resolver.ofDisk d root =
      ⟨(before ++ [c]).flatMap (fun b => (b.load d root).events) ++
        [.aliasesLoaded table.length c.origin], .ok ⟨root, table⟩⟩ := by
  rw [Resolver.ofDisk, hsplit, firstTable_of_decides h]
  simp [bind, Logged.andThen, pure]

/-- Disks with the same texts up to the deciding source give the same run. -/
theorem ofDisk_of_same_texts (h : Decides d root before c table)
    (hsplit : candidates = before ++ c :: after)
    (htexts : ∀ b ∈ before ++ [c], b.text? d' root = b.text? d root) :
    Resolver.ofDisk d' root = Resolver.ofDisk d root := by
  have hload : ∀ b ∈ before ++ [c], b.load d' root = b.load d root := fun b hb => by
    rw [b.load_eq, b.load_eq, htexts b hb]
  have hc : c.load d' root = c.load d root := hload c (by simp)
  have h' : Decides d' root before c table :=
    { nothing := fun b hb => by rw [hload b (by simp [hb]), h.nothing b hb]
      states := by rw [hc, h.states]
      ne_nil := h.ne_nil }
  have hevents : (before ++ [c]).flatMap (fun b => (b.load d' root).events) =
      (before ++ [c]).flatMap fun b => (b.load d root).events :=
    List.flatMap_congr fun b hb => by rw [hload b hb]
  rw [ofDisk_of_decides h' hsplit, ofDisk_of_decides h hsplit, hevents]

/-- Edits of sources after the deciding one do not change the run. -/
theorem ofDisk_of_edited {pre : List String} (h : Decides d (Path.ofNames pre) before c table)
    (hsplit : candidates = before ++ c :: after) (hpre : ∀ name ∈ pre, Path.IsName name)
    (hdir : d.tree.isFile = false)
    (hedited : Disk.Edited (after.map (·.path (Path.ofNames pre))) d d') :
    Resolver.ofDisk d' (Path.ofNames pre) = Resolver.ofDisk d (Path.ofNames pre) := by
  rw [List.append_cons] at hsplit
  have hnodup : candidates.Nodup := by decide
  rw [hsplit] at hnodup
  refine ofDisk_of_same_texts h (hsplit.trans (List.append_cons ..).symm) fun b hb => ?_
  have hcand : b ∈ candidates := hsplit ▸ List.mem_append_left _ hb
  refine b.text?_of_edited hcand (fun c' hc' => ⟨?_, ?_⟩) hdir hpre hedited
  · rw [hsplit]
    exact List.mem_append_right _ hc'
  · -- No source is listed twice.
    rintro rfl
    exact (List.nodup_append.mp hnodup).2.2 _ hb _ hc' rfl

/-- **The first source that states aliases decides.**  The eleven sources are tried in a fixed order.
If all of them can be loaded, the resolver has the first table with entries, and none otherwise.  Once
a source decides, the sources after it do not matter: a disk that has the same texts up to that
source, as one on which later sources have been added, changed or removed, gives the same run, with
the same resolver and the same events. -/
theorem first_source_decides (d : Disk) (root : String) :
    candidates.map Candidate.file =
      ["tsconfig.json", "jsconfig.json", "test/tsconfig.json", "tests/tsconfig.json",
        "vite.config.js", "vite.config.ts", "vite.config.mjs", "vite.config.mts",
        "webpack.config.js", "webpack.config.ts", "package.json"] ∧
    (∀ parsed : Candidate → Table String,
      (∀ c ∈ candidates, (c.load d root).result = .ok (parsed c)) →
        (Resolver.ofDisk d root).result =
          .ok ⟨root, ((candidates.map parsed).find? (! ·.isEmpty)).getD []⟩) ∧
    ∀ before c after table, candidates = before ++ c :: after → Decides d root before c table →
      (Resolver.ofDisk d root).result = .ok ⟨root, table⟩ ∧
      (∀ d', (∀ b ∈ before ++ [c], b.text? d' root = b.text? d root) →
        Resolver.ofDisk d' root = Resolver.ofDisk d root) ∧
      ∀ pre d', (∀ name ∈ pre, Path.IsName name) → root = Path.ofNames pre →
        d.tree.isFile = false → Disk.Edited (after.map (·.path root)) d d' →
        Resolver.ofDisk d' root = Resolver.ofDisk d root := by
  refine ⟨by decide, fun parsed hparsed => ?_, fun before c after table hsplit h => ⟨?_, ?_, ?_⟩⟩
  · rw [Resolver.ofDisk, Logged.result_bind_of_ok (result_firstTable_of_parsed hparsed)]
    rfl
  · rw [ofDisk_of_decides h hsplit]
  · exact fun d' htexts => ofDisk_of_same_texts h hsplit htexts
  · rintro pre d' hpre rfl hdir hedited
    exact ofDisk_of_edited h hsplit hpre hdir hedited

/-- A disk with a configuration that is no JSON and one with an alias. -/
def jsconfigDisk : Disk where
  tree := .directory
    [("tsconfig.json", .ofText "\x7b"),
      ("jsconfig.json",
        .ofText "\x7b\"compilerOptions\": \x7b\"paths\": \x7b\"@/*\": [\"src/*\"]\x7d\x7d\x7d")]
  cwd := "/"

/-- The second source decides, also if a bundler configuration is put on the disk. -/
theorem first_source_decides_jsconfig :
    let d := jsconfigDisk
    let c : Candidate := ⟨"jsconfig.json", .compiler, "root tsconfig"⟩
    let parsed := fun c : Candidate => (c.load d "/").result.toOption.getD []
    (∀ c ∈ candidates, (c.load d "/").result = .ok (parsed c)) ∧
      (Resolver.ofDisk d "/").result =
        .ok ⟨"/", ((candidates.map parsed).find? (! ·.isEmpty)).getD []⟩ ∧
      Decides d "/" (candidates.take 1) c [("@", "src")] ∧
      (Resolver.ofDisk d "/").result = .ok ⟨"/", [("@", "src")]⟩ ∧
      Resolver.ofDisk (d.put "/vite.config.ts" (.ofText "alias: \x7b'@': 'lib'\x7d")) "/" =
        Resolver.ofDisk d "/" := by
  intro d c parsed
  have hloaded : ∀ c ∈ candidates, (c.load d "/").result.toOption.isSome := by decide +kernel
  have hnothing : ∀ b ∈ candidates.take 1, (b.load d "/").result.toOption = some [] := by
    decide +kernel
  have hparsed : ∀ c ∈ candidates, (c.load d "/").result = .ok (parsed c) := by
    intro c hc
    obtain ⟨table, htable⟩ := Option.isSome_iff_exists.mp (hloaded c hc)
    exact eq_ok_of_toOption (htable.trans (by simp only [parsed, htable, Option.getD_some]))
  have hdecides : Decides d "/" (candidates.take 1) c [("@", "src")] :=
    { nothing := fun b hb => eq_ok_of_toOption (hnothing b hb)
      states := eq_ok_of_toOption (by decide +kernel)
      ne_nil := List.cons_ne_nil _ _ }
  obtain ⟨-, hfirst, hrest⟩ := first_source_decides d "/"
  obtain ⟨hresult, -, hedits⟩ := hrest _ _ (candidates.drop 2) _ (by decide) hdecides
  refine ⟨hparsed, hfirst _ hparsed, hdecides, hresult, hedits [] _ (by simp) (by decide) rfl ?_⟩
  exact .put .same (by decide +kernel) _

end Alias

end StyleAudit
