import Mathlib.Data.List.Basic
import StyleAudit.Proofs.Alias.Loader
import StyleAudit.Proofs.Audit.Project
import StyleAudit.Proofs.Disk.Discovery
import StyleAudit.Proofs.Logged

/-!
# Files that are refused do no harm

A markup file that is refused could as well be missing, and a style file that is refused could as
well be empty.  The violations are the same, and so is the whole context except for the list of
failures (`refused_files_isolated`).

For a project this follows from `Project.forgetFailures_context`: a refused style file gives the
same sheet as an empty one, under the same path, so that imports of it still mean it, and a refused
markup file gives no use.  For a disk there is more to say, since discovery and the aliases have to
be the same as well.

* `Project.ofDisk_remove`, `Project.ofDisk_put`: the change on the disk is the change of the
  project.
* `context_of_isolated`: the aliases are loaded from other files, so the resolver stays.
* `Spares`: what a harmless change keeps.  It is shown for one file (`spares_remove`, `spares_put`)
  and carried to any number of files (`spares_foldl`).
-/

namespace StyleAudit.Audit

open StyleAudit.Markup (Settings)
open StyleAudit.Style (Sheet)

theorem extract_empty (d : Style.Dialect) : Style.extract d "" = .ok {} := by
  cases d <;> rfl

namespace Source

/-- The file is refused as a stylesheet. -/
def StyleRefused (s : Source) : Prop :=
  ∃ e, s.sheet = .error e

/-- The file is refused as markup under some settings, and then it is refused under all of them. -/
def MarkupRefused (s : Source) : Prop :=
  ∃ settings e, (s.markup settings).result = .error e

/-- An empty file in the place of this one. -/
def emptied (s : Source) : Source :=
  { s with content := .ok "" }

theorem StyleRefused.sheetOrEmpty_emptied {s : Source} (h : s.StyleRefused) :
    s.emptied.sheetOrEmpty = s.sheetOrEmpty := by
  obtain ⟨e, he⟩ := h
  rw [sheetOrEmpty, sheetOrEmpty, he, sheet]
  simp only [emptied, extract_empty]
  rfl

/-- Whether markup is refused does not depend on the settings. -/
theorem MarkupRefused.use?_markup {s : Source} (h : s.MarkupRefused) (settings : Settings) :
    (s.markup settings).use? = none := by
  obtain ⟨settings', e, he⟩ := h
  have hnone : (s.markup settings').use? = none := by rw [MarkupReading.use?, he]; rfl
  rw [Source.use?_markup] at hnone ⊢
  cases hc : s.content with
  | error e => rfl
  | ok text =>
    rw [hc] at hnone
    simp only at hnone ⊢
    split at hnone
    · rename_i hf
      rw [if_pos hf]
    · cases hnone

end Source

namespace Project

/-- The project without the markup files that `removed` names, and with empty files in the places of
the style files that `emptied` names. -/
def isolated (p : Project) (removed emptied : Source → Bool) : Project :=
  { p with
    styles := p.styles.map fun s => if emptied s then s.emptied else s
    markups := p.markups.filter fun m => !removed m }

/-- The violations of the rule about unused classes in a project whose aliases are known. -/
def unused (p : Project) (resolver : Alias.Resolver) (o : Options) : List Violation :=
  if o.enabled then (p.context resolver o).reconcile p.cwd o else []

variable {p : Project} {removed emptied : Source → Bool}

@[simp] theorem root_isolated : (p.isolated removed emptied).root = p.root := rfl

theorem table_isolated (h : ∀ s ∈ p.styles, emptied s = true → s.StyleRefused) :
    (p.isolated removed emptied).table = p.table := by
  rw [table, isolated, List.foldl_map, table]
  refine List.foldl_ext _ _ _ fun t s hs => ?_
  split
  · rename_i hempty
    rw [(h s hs hempty).sheetOrEmpty_emptied]
    rfl
  · rfl

theorem uses_isolated (hm : ∀ m ∈ p.markups, removed m = true → m.MarkupRefused)
    (hs : ∀ s ∈ p.styles, emptied s = true → s.StyleRefused) (resolver : Alias.Resolver)
    (o : Options) : (p.isolated removed emptied).uses resolver o = p.uses resolver o := by
  rw [uses, table_isolated hs, uses]
  simp only [isolated, List.filterMap_filter]
  refine List.filterMap_congr fun m hmem => ?_
  cases hr : removed m with
  | true => exact ((hm m hmem hr).use?_markup _).symm
  | false => rfl

/-- The context does not show which files were refused, the list of failures apart. -/
theorem context_isolated (hm : ∀ m ∈ p.markups, removed m = true → m.MarkupRefused)
    (hs : ∀ s ∈ p.styles, emptied s = true → s.StyleRefused) (resolver : Alias.Resolver)
    (o : Options) :
    ((p.isolated removed emptied).context resolver o).forgetFailures =
      (p.context resolver o).forgetFailures := by
  rw [forgetFailures_context, forgetFailures_context, uses_isolated hm hs, table_isolated hs]
  rfl

theorem unused_isolated (hm : ∀ m ∈ p.markups, removed m = true → m.MarkupRefused)
    (hs : ∀ s ∈ p.styles, emptied s = true → s.StyleRefused) (resolver : Alias.Resolver)
    (o : Options) : (p.isolated removed emptied).unused resolver o = p.unused resolver o := by
  rw [unused, unused, ← Context.reconcile_forgetFailures, context_isolated hm hs,
    Context.reconcile_forgetFailures]
  rfl

end Project

/-! ### Disks -/

section Disks

variable {d : Disk} {base path : String}

theorem Project.ofDisk_eq (d : Disk) (base : String) :
    Project.ofDisk d base =
      { cwd := d.cwd
        root := Path.real d.cwd base
        styles := ((d.found base).filter (Disk.Category.ofPath? · == some .style)).map
          (Source.ofDisk d)
        markups := ((d.found base).filter (Disk.Category.ofPath? · == some .markup)).map
          (Source.ofDisk d) } := by
  rw [Project.ofDisk, Disk.collect_eq]

theorem Project.styles_ofDisk (d : Disk) (base : String) :
    (Project.ofDisk d base).styles =
      ((d.found base).filter (Disk.Category.ofPath? · == some .style)).map (Source.ofDisk d) := by
  rw [Project.ofDisk_eq]

theorem Project.markups_ofDisk (d : Disk) (base : String) :
    (Project.ofDisk d base).markups =
      ((d.found base).filter (Disk.Category.ofPath? · == some .markup)).map (Source.ofDisk d) := by
  rw [Project.ofDisk_eq]

/-- The files of a project are those of the disk. -/
theorem Project.eq_ofDisk_of_mem {s : Source}
    (h : s ∈ (Project.ofDisk d base).styles ∨ s ∈ (Project.ofDisk d base).markups) :
    s = Source.ofDisk d s.path := by
  rw [styles_ofDisk, markups_ofDisk, ← List.mem_append, ← List.map_append] at h
  obtain ⟨path, _, rfl⟩ := List.mem_map.mp h
  rfl

theorem Source.ofDisk_of_differsAt {d' : Disk} (hp : d.Proper) (h : d.DiffersAt path d')
    {other : String} (hother : other ∈ d.found base) (hne : other ≠ path) :
    Source.ofDisk d' other = Source.ofDisk d other := by
  rw [Source.ofDisk, h.read_eq hp hother hne, Source.ofDisk]

/-- To remove a markup file from the disk is to remove it from the project. -/
theorem Project.ofDisk_remove (hp : d.Proper) (h : path ∈ (d.collect base).markups) :
    Project.ofDisk (d.remove path) base =
      (Project.ofDisk d base).isolated (·.path == path) fun _ => false := by
  obtain ⟨hfound, hcat⟩ := Disk.mem_markups_collect.mp h
  obtain ⟨hdiffers, hrest⟩ := hp.remove_effect hfound
  have hsame : ∀ other ∈ (d.found base).filter (· != path),
      Source.ofDisk (d.remove path) other = Source.ofDisk d other := by
    intro other hother
    obtain ⟨hmem, hne⟩ := List.mem_filter.mp hother
    exact Source.ofDisk_of_differsAt hp hdiffers hmem (by simpa using hne)
  have hread : ∀ c, (((d.found base).filter (· != path)).filter (Disk.Category.ofPath? · == c)).map
      (Source.ofDisk (d.remove path)) =
        (((d.found base).filter (Disk.Category.ofPath? · == c)).filter (· != path)).map
          (Source.ofDisk d) := by
    intro c
    rw [List.map_congr_left fun other hother => hsame other (List.mem_of_mem_filter hother),
      List.filter_comm]
  have hstyles : ∀ other ∈ (d.found base).filter (Disk.Category.ofPath? · == some .style),
      (other != path) = true :=
    fun other hother => bne_iff_ne.mpr (Disk.ne_of_mem_category hcat (by decide) hother)
  rw [ofDisk_eq, ofDisk_eq, hdiffers.cwd, hrest, isolated]
  simp only [Project.mk.injEq, true_and, hread]
  constructor
  · rw [List.filter_eq_self.mpr hstyles]
    simp only [Bool.false_eq_true, if_false, List.map_id']
  · rw [List.filter_map]
    rfl

/-- To empty a style file on the disk is to empty it in the project. -/
theorem Project.ofDisk_put (hp : d.Proper) (h : path ∈ (d.collect base).styles) :
    Project.ofDisk (d.put path (.file [])) base =
      (Project.ofDisk d base).isolated (fun _ => false) (·.path == path) := by
  obtain ⟨hfound, hcat⟩ := Disk.mem_styles_collect.mp h
  obtain ⟨hdiffers, hsame, hread⟩ := hp.put_effect hfound []
  have hempty : Source.ofDisk (d.put path (.file [])) path = (Source.ofDisk d path).emptied := by
    rw [Source.ofDisk, hread, Source.ofDisk, Source.emptied]
    rfl
  have hother : ∀ other ∈ d.found base, other ≠ path →
      Source.ofDisk (d.put path (.file [])) other = Source.ofDisk d other :=
    fun other hother hne => Source.ofDisk_of_differsAt hp hdiffers hother hne
  rw [ofDisk_eq, ofDisk_eq, hdiffers.cwd, hsame, isolated]
  simp only [Project.mk.injEq, true_and]
  constructor
  · rw [List.map_map]
    refine List.map_congr_left fun other hmem => ?_
    have hmem := List.mem_of_mem_filter hmem
    by_cases hpath : other = path
    · rw [hpath, hempty, Function.comp_apply, if_pos]
      simp [Source.ofDisk]
    · rw [hother other hmem hpath, Function.comp_apply, if_neg]
      simpa [Source.ofDisk] using hpath
  · simp only [Bool.not_false, List.filter_true]
    exact List.map_congr_left fun other hmem =>
      hother other (List.mem_of_mem_filter hmem) (Disk.ne_of_mem_category hcat (by decide) hmem)

/-! ### Changes that do no harm -/

/-- The second disk is the first one with files changed, and the change is not seen: other files are
found and read as before, and the context is the same, the list of failures apart. -/
structure Spares (base : String) (d : Disk) (changed : List String) (d' : Disk) : Prop where
  proper : d'.Proper
  cwd : d'.cwd = d.cwd
  found : ∀ path ∈ d.found base, path ∉ changed →
    path ∈ d'.found base ∧ Source.ofDisk d' path = Source.ofDisk d path
  context : ∀ o, (Context.ofDisk d' base o).result.map Context.forgetFailures =
    (Context.ofDisk d base o).result.map Context.forgetFailures

theorem Spares.refl (hp : d.Proper) : Spares base d [] d :=
  ⟨hp, rfl, fun _ hpath _ => ⟨hpath, rfl⟩, fun _ => rfl⟩

theorem Spares.trans {d' d'' : Disk} {changed more : List String} (h : Spares base d changed d')
    (h' : Spares base d' more d'') : Spares base d (changed ++ more) d'' where
  proper := h'.proper
  cwd := h'.cwd.trans h.cwd
  found path hpath hnew := by
    rw [List.mem_append, not_or] at hnew
    obtain ⟨hfound, hsame⟩ := h.found path hpath hnew.1
    obtain ⟨hfound', hsame'⟩ := h'.found path hfound hnew.2
    exact ⟨hfound', hsame'.trans hsame⟩
  context o := (h'.context o).trans (h.context o)

/-- The markup file at a path is found and refused. -/
def RefusedMarkup (base : String) (d : Disk) (path : String) : Prop :=
  path ∈ (d.collect base).markups ∧ (Source.ofDisk d path).MarkupRefused

/-- The style file at a path is found and refused. -/
def RefusedStyle (base : String) (d : Disk) (path : String) : Prop :=
  path ∈ (d.collect base).styles ∧ (Source.ofDisk d path).StyleRefused

theorem Spares.refusedMarkup {d' : Disk} {changed : List String} (h : Spares base d changed d')
    (hrefused : RefusedMarkup base d path) (hnew : path ∉ changed) :
    RefusedMarkup base d' path := by
  obtain ⟨hfound, hcat⟩ := Disk.mem_markups_collect.mp hrefused.1
  obtain ⟨hfound', hsame⟩ := h.found path hfound hnew
  refine ⟨Disk.mem_markups_collect.mpr ⟨hfound', hcat⟩, ?_⟩
  rw [hsame]
  exact hrefused.2

theorem Spares.refusedStyle {d' : Disk} {changed : List String} (h : Spares base d changed d')
    (hrefused : RefusedStyle base d path) (hnew : path ∉ changed) :
    RefusedStyle base d' path := by
  obtain ⟨hfound, hcat⟩ := Disk.mem_styles_collect.mp hrefused.1
  obtain ⟨hfound', hsame⟩ := h.found path hfound hnew
  refine ⟨Disk.mem_styles_collect.mpr ⟨hfound', hcat⟩, ?_⟩
  rw [hsame]
  exact hrefused.2

/-- A changed disk whose project is an isolated one shows the same context. -/
theorem context_of_isolated {d' : Disk} (hp : d.Proper) (hdiffers : d.DiffersAt path d')
    (hcat : Disk.Category.ofPath? path ≠ none) {removed emptied : Source → Bool}
    (hproject : Project.ofDisk d' base = (Project.ofDisk d base).isolated removed emptied)
    (hm : ∀ m ∈ (Project.ofDisk d base).markups, removed m = true → m.MarkupRefused)
    (hs : ∀ s ∈ (Project.ofDisk d base).styles, emptied s = true → s.StyleRefused) (o : Options) :
    (Context.ofDisk d' base o).result.map Context.forgetFailures =
      (Context.ofDisk d base o).result.map Context.forgetFailures := by
  obtain ⟨pre, hpre, hbase⟩ := Path.exists_real_eq_ofNames hp.cwd base
  have hroot : (Project.ofDisk d base).root = Path.ofNames pre := by rw [Project.ofDisk_eq, hbase]
  have hresolver := Alias.ofDisk_of_differsAt hp hdiffers hcat hpre
  rw [Context.result_ofDisk, Context.result_ofDisk, hproject, Project.root_isolated, hroot,
    hresolver]
  cases (Alias.Resolver.ofDisk d (Path.ofNames pre)).result with
  | error fault => simp only [Except.map]
  | ok resolver => simp only [Except.map, Project.context_isolated hm hs]

/-- To remove a markup file that is refused does no harm. -/
theorem spares_remove (hp : d.Proper) (h : RefusedMarkup base d path) :
    Spares base d [path] (d.remove path) := by
  obtain ⟨hfound, hrefused⟩ := h
  obtain ⟨hmem, hcat⟩ := Disk.mem_markups_collect.mp hfound
  obtain ⟨hdiffers, hrest⟩ := hp.remove_effect hmem
  refine ⟨hdiffers.proper, hdiffers.cwd, ?_, ?_⟩
  · intro other hother hne
    rw [List.mem_singleton] at hne
    refine ⟨?_, Source.ofDisk_of_differsAt hp hdiffers hother hne⟩
    rw [hrest]
    exact List.mem_filter.mpr ⟨hother, bne_iff_ne.mpr hne⟩
  · refine context_of_isolated hp hdiffers (by simp [hcat]) (Project.ofDisk_remove hp hfound) ?_ ?_
    · intro m hm hpath
      rw [Project.eq_ofDisk_of_mem (Or.inr hm), beq_iff_eq.mp hpath]
      exact hrefused
    · intro s _ hfalse
      cases hfalse

/-- To empty a style file that is refused does no harm. -/
theorem spares_put (hp : d.Proper) (h : RefusedStyle base d path) :
    Spares base d [path] (d.put path (.file [])) := by
  obtain ⟨hfound, hrefused⟩ := h
  obtain ⟨hmem, hcat⟩ := Disk.mem_styles_collect.mp hfound
  obtain ⟨hdiffers, hsame, _⟩ := hp.put_effect hmem []
  refine ⟨hdiffers.proper, hdiffers.cwd, ?_, ?_⟩
  · intro other hother hne
    rw [List.mem_singleton] at hne
    refine ⟨?_, Source.ofDisk_of_differsAt hp hdiffers hother hne⟩
    rwa [hsame]
  · refine context_of_isolated hp hdiffers (by simp [hcat]) (Project.ofDisk_put hp hfound) ?_ ?_
    · intro m _ hfalse
      cases hfalse
    · intro s hs hpath
      rw [Project.eq_ofDisk_of_mem (Or.inl hs), beq_iff_eq.mp hpath]
      exact hrefused

/-- From one file to many: if `change` does no harm to a disk with a bad file, and a file stays bad
while others are changed, then all bad files may be changed. -/
theorem spares_foldl {change : Disk → String → Disk} {Bad : Disk → String → Prop}
    (hstep : ∀ d path, d.Proper → Bad d path → Spares base d [path] (change d path))
    (hkept : ∀ d d' path changed, Spares base d changed d' → Bad d path → path ∉ changed →
      Bad d' path)
    {paths : List String} (hnodup : paths.Nodup) (hp : d.Proper)
    (hbad : ∀ path ∈ paths, Bad d path) : Spares base d paths (paths.foldl change d) := by
  induction paths generalizing d with
  | nil => exact .refl hp
  | cons path paths ih =>
    obtain ⟨hnew, hrest⟩ := List.nodup_cons.mp hnodup
    have hfirst := hstep d path hp (hbad path List.mem_cons_self)
    refine hfirst.trans (ih hrest hfirst.proper fun other hother => ?_)
    refine hkept d _ other [path] hfirst (hbad other (List.mem_cons_of_mem path hother)) ?_
    rw [List.mem_singleton]
    rintro rfl
    exact hnew hother

end Disks

/-! ### The violations -/

/-- The disk without the given markup files, and with empty files in the places of the given style
files. -/
def isolatedDisk (d : Disk) (markups styles : List String) : Disk :=
  styles.foldl (fun d path => d.put path (.file [])) (markups.foldl Disk.remove d)

/-- No sheet of a disk is at an empty path, so the violations are reported. -/
theorem report_ofDisk {d : Disk} {base : String} {o : Options} {c : Context}
    (h : (Context.ofDisk d base o).result = .ok c) :
    c.report d.cwd o = .ok (c.reconcile d.cwd o) := by
  rw [Context.result_ofDisk] at h
  cases hresolver : (Alias.Resolver.ofDisk d (Project.ofDisk d base).root).result with
  | error fault =>
    rw [hresolver] at h
    cases h
  | ok resolver =>
    rw [hresolver, Except.map] at h
    obtain rfl := Except.ok.inj h
    have hnone : Disk.Category.ofPath? "" = none := by decide
    have hempty : "" ∉ ((Project.ofDisk d base).context resolver o).sheets.keys := by
      rw [Project.sheets_context, Project.keys_table_eq_addNames, mem_addNames,
        Project.styles_ofDisk, List.map_map]
      rintro (hmem | hmem)
      · cases hmem
      · obtain ⟨path, hpath, hpathEq⟩ := List.mem_map.mp hmem
        have hstyle := beq_iff_eq.mp (List.mem_filter.mp hpath).2
        rw [show path = "" from hpathEq, hnone] at hstyle
        cases hstyle
    rw [Context.report, if_neg (by simpa using hempty)]

theorem result_unusedClasses (d : Disk) (base : String) (o : Options) :
    (unusedClasses d base o).result =
      if o.enabled then
        ((Context.ofDisk d base o).result.map Context.forgetFailures).map (·.reconcile d.cwd o)
      else .ok [] := by
  rw [unusedClasses]
  split
  · cases hcontext : (Context.ofDisk d base o).result with
    | error fault => exact Logged.result_bind_of_error hcontext
    | ok c =>
      rw [Logged.result_bind_of_ok hcontext, report_ofDisk hcontext]
      simp only [Except.map, Context.reconcile_forgetFailures]
      rfl
  · rfl

/-- Any number of refused files may be isolated at once. -/
theorem spares_isolatedDisk {d : Disk} {base : String} (hp : d.Proper)
    {markups styles : List String} (hmarkups : markups.Nodup) (hstyles : styles.Nodup)
    (hm : ∀ m ∈ markups, RefusedMarkup base d m)
    (hs : ∀ s ∈ styles, RefusedStyle base d s) :
    Spares base d (markups ++ styles) (isolatedDisk d markups styles) := by
  have hremoved : Spares base d markups (markups.foldl Disk.remove d) :=
    spares_foldl (fun _ _ hp h => spares_remove hp h) (fun _ _ _ _ h => h.refusedMarkup) hmarkups
      hp hm
  -- The style files are still refused, for none of them is a markup file.
  have hleft : ∀ s ∈ styles, RefusedStyle base (markups.foldl Disk.remove d) s := by
    intro s hmem
    refine hremoved.refusedStyle (hs s hmem) fun hmarkup => ?_
    obtain ⟨_, hstyle⟩ := Disk.mem_styles_collect.mp (hs s hmem).1
    obtain ⟨_, hcat⟩ := Disk.mem_markups_collect.mp (hm s hmarkup).1
    cases hstyle.symm.trans hcat
  exact hremoved.trans (spares_foldl (fun _ _ hp h => spares_put hp h)
    (fun _ _ _ _ h => h.refusedStyle) hstyles hremoved.proper hleft)

/-- **Files that are refused do no harm.**  In a project whose aliases are known, any markup files
that are refused may be removed and any style files that are refused may be emptied.  All that the
context says about the other files stays, and so do the violations.  The same holds for files on a
disk, whatever aliases are loaded from it, and if loading them fails, it fails in the same way. -/
theorem refused_files_isolated :
    (∀ (p : Project) (resolver : Alias.Resolver) (o : Options) (removed emptied : Source → Bool),
      (∀ m ∈ p.markups, removed m = true → m.MarkupRefused) →
      (∀ s ∈ p.styles, emptied s = true → s.StyleRefused) →
      ((p.isolated removed emptied).context resolver o).forgetFailures =
          (p.context resolver o).forgetFailures ∧
        (p.isolated removed emptied).unused resolver o = p.unused resolver o) ∧
    ∀ (d : Disk) (base : String) (o : Options) (markups styles : List String), d.Proper →
      markups.Nodup → styles.Nodup →
      (∀ m ∈ markups, RefusedMarkup base d m) → (∀ s ∈ styles, RefusedStyle base d s) →
      (Context.ofDisk (isolatedDisk d markups styles) base o).result.map Context.forgetFailures =
          (Context.ofDisk d base o).result.map Context.forgetFailures ∧
        (unusedClasses (isolatedDisk d markups styles) base o).result =
          (unusedClasses d base o).result := by
  constructor
  · intro p resolver o removed emptied hm hs
    exact ⟨Project.context_isolated hm hs resolver o, Project.unused_isolated hm hs resolver o⟩
  · intro d base o markups styles hp hmarkups hstyles hm hs
    have hspares := spares_isolatedDisk hp hmarkups hstyles hm hs
    refine ⟨hspares.context o, ?_⟩
    rw [result_unusedClasses, result_unusedClasses, hspares.context, hspares.cwd]

/-- The stylesheet `.z {}`. -/
def plainBytes : List UInt8 := [46, 122, 32, 123, 125]

/-- A stylesheet of one bracket, which is refused. -/
def brokenBytes : List UInt8 := [125]

/-- A directory with both stylesheets. -/
def brokenDisk : Disk where
  tree := .directory [("p", .directory [("a.css", .file brokenBytes), ("z.css", .file plainBytes)])]
  cwd := "/p"

theorem proper_brokenDisk : brokenDisk.Proper where
  isDirectory := rfl
  tree := by
    refine .directory (by decide) (by decide) ?_
    simp only [List.mem_singleton, forall_eq]
    refine .directory (by decide) (by decide) ?_
    simp only [List.mem_cons, List.not_mem_nil, or_false, forall_eq_or_imp, forall_eq]
    exact ⟨.file _, .file _⟩
  cwd := by decide

theorem refusedStyle_brokenDisk : RefusedStyle "." brokenDisk "/p/a.css" := by
  have hnames : ∀ name ∈ ["p"], Path.IsName name := by decide
  have hbase : Path.real brokenDisk.cwd "." = Path.ofNames ["p"] := by decide
  constructor
  · refine Disk.mem_styles_collect.mpr ⟨?_, by decide⟩
    rw [proper_brokenDisk.found_eq hnames hbase]
    change "/p/a.css" ∈ (Disk.Entry.directory _).files "/p"
    rw [Disk.files_directory]
    refine List.mem_append_left _ (List.mem_map.mpr ⟨("a.css", .file brokenBytes), ?_, ?_⟩)
    · exact Disk.mem_byName.mpr (List.mem_filter.mpr ⟨List.mem_cons_self, by decide⟩)
    · decide
  · have hfails : (Source.ofDisk brokenDisk "/p/a.css").sheet.isOk = false := by decide
    cases hsheet : (Source.ofDisk brokenDisk "/p/a.css").sheet with
    | error e => exact ⟨e, hsheet⟩
    | ok sheet =>
      rw [hsheet] at hfails
      cases hfails

/-- The two stylesheets, beside a markup file that is gone when it is read. -/
def brokenProject : Project where
  cwd := "/p"
  root := "/p"
  styles := [Source.ofDisk brokenDisk "/p/a.css", Source.ofDisk brokenDisk "/p/z.css"]
  markups := [Source.ofDisk brokenDisk "/p/B.jsx"]

theorem markupRefused_brokenProject : (Source.ofDisk brokenDisk "/p/B.jsx").MarkupRefused := by
  have hread : brokenDisk.read "/p/B.jsx" = .error ⟨.notFound, "/p/B.jsx"⟩ := by rfl
  refine ⟨{ cwd := "/p", sheets := [] }, ⟨unreadable ⟨.notFound, "/p/B.jsx"⟩, 0⟩, ?_⟩
  rw [Source.markup, Source.ofDisk, hread]

/-- The class of the plain stylesheet is reported with and without the refused files. -/
theorem refused_files_isolated_bracket :
    let isolated := brokenProject.isolated (·.path == "/p/B.jsx") (·.path == "/p/a.css")
    let resolver : Alias.Resolver := ⟨"/p", []⟩
    (Source.ofDisk brokenDisk "/p/B.jsx").MarkupRefused ∧
      (Source.ofDisk brokenDisk "/p/a.css").StyleRefused ∧
      brokenProject.unused resolver {} = [Context.violation "z.css" "z" 1] ∧
      isolated.unused resolver {} = [Context.violation "z.css" "z" 1] ∧
      RefusedStyle "." brokenDisk "/p/a.css" ∧
      (unusedClasses (isolatedDisk brokenDisk [] ["/p/a.css"]) "." {}).result =
        (unusedClasses brokenDisk "." {}).result := by
  intro isolated resolver
  have hreported : brokenProject.unused resolver {} = [Context.violation "z.css" "z" 1] := by
    decide +kernel
  refine ⟨markupRefused_brokenProject, refusedStyle_brokenDisk.2, hreported, ?_,
    refusedStyle_brokenDisk, ?_⟩
  · rw [← hreported]
    refine (refused_files_isolated.1 brokenProject resolver {} _ _ ?_ ?_).2
    · intro m hm _
      rw [List.mem_singleton.mp hm]
      exact markupRefused_brokenProject
    · intro s hs hpath
      rcases List.mem_pair.mp hs with rfl | rfl
      · exact refusedStyle_brokenDisk.2
      · exact absurd hpath (by decide)
  · refine (refused_files_isolated.2 brokenDisk "." {} [] ["/p/a.css"] proper_brokenDisk
      List.nodup_nil (by simp) (by simp) ?_).2
    simpa using refusedStyle_brokenDisk

end StyleAudit.Audit
