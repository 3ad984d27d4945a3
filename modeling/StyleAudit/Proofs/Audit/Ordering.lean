import Mathlib.Data.List.Basic
import StyleAudit.Proofs.Audit.Isolation
import StyleAudit.Proofs.Logged
import StyleAudit.Proofs.Style.Lines

/-!
# The order of violations

Violations are listed as they are met.  That they come file by file, each class of a file once, and
the classes of a file by line, is a fact about sheets and about discovery:

* `Project.keys_table`: if style files have distinct paths, their sheets stand in the order of the
  files.
* `Context.grouped_reconcile`: the violations stand file by file, in the order of the sheets.
* `Context.pairwise_reconcile`: if sheets are ordered and the names of their files are distinct, two
  violations of one file are about two classes, and the first one is not on a later line.
* `unusedClasses_ordered`: the two conditions hold for every disk.
-/

namespace StyleAudit.Audit

open StyleAudit.Style (Sheet)

/-- The violations stand file by file, and the files in the given order.  A file without violations
has no group. -/
def Grouped (files : List String) (vs : List Violation) : Prop :=
  ∃ groups : Table (List Violation), vs = groups.flatMap Prod.snd ∧
    (Table.keys groups).Sublist files ∧ ∀ g ∈ groups, g.2 ≠ [] ∧ ∀ v ∈ g.2, v.file = g.1

theorem Grouped.nil (files : List String) : Grouped files [] :=
  ⟨[], rfl, List.nil_sublist _, by simp⟩

/-- Violations that are listed for one file after the other are grouped; files without violations
give no group. -/
theorem grouped_flatMap {α : Type} {l : List α} {file : α → String} {list : α → List Violation}
    (h : ∀ a ∈ l, ∀ v ∈ list a, v.file = file a) : Grouped (l.map file) (l.flatMap list) := by
  induction l with
  | nil => exact .nil _
  | cons a l ih =>
    obtain ⟨groups, hvs, hfiles, hgroups⟩ := ih fun b hb => h b (List.mem_cons_of_mem a hb)
    rw [List.flatMap_cons, List.map_cons, hvs]
    by_cases hempty : list a = []
    · exact ⟨groups, by rw [hempty, List.nil_append], hfiles.cons _, hgroups⟩
    · exact ⟨(file a, list a) :: groups, rfl, hfiles.cons_cons _,
        List.forall_mem_cons.mpr ⟨⟨hempty, h a List.mem_cons_self⟩, hgroups⟩⟩

/-! ### Contexts -/

namespace Context

variable {c : Context} {cwd path : String} {o : Options} {sheet : Sheet} {v : Violation}

theorem mem_unusedIn_fields (h : v ∈ c.unusedIn cwd o path sheet) :
    v.rule = Violation.unusedClasses ∧ v.file = Path.relative cwd path c.root := by
  rw [unusedIn] at h
  generalize Path.relative cwd path c.root = file at h ⊢
  obtain ⟨_, _, rfl⟩ := List.mem_map.mp h
  exact ⟨rfl, rfl⟩

/-- Of two violations of an ordered sheet the first one is about another class, and not on a later
line. -/
theorem pairwise_unusedIn (c : Context) (cwd path : String) (o : Options) (h : sheet.Ordered) :
    (c.unusedIn cwd o path sheet).Pairwise fun v w =>
      v.className ≠ w.className ∧ v.line ≤ w.line := by
  have hdistinct : sheet.definitions.Pairwise fun a b => a.1 ≠ b.1 :=
    List.pairwise_map.mp h.distinct
  rw [unusedIn, List.pairwise_map]
  refine List.Pairwise.filter _ ((hdistinct.and h.lines).imp ?_)
  rintro a b ⟨hne, hle⟩
  exact ⟨fun heq => hne (Option.some.inj heq), hle⟩

/-- The names of the files whose sheets are held. -/
def files (c : Context) (cwd : String) : List String :=
  c.sheets.map fun e => Path.relative cwd e.1 c.root

theorem files_eq (c : Context) (cwd : String) :
    c.files cwd = c.sheets.keys.map fun path => Path.relative cwd path c.root := by
  simp only [files, Table.keys, List.map_map, Function.comp_def]

theorem grouped_reconcile (c : Context) (cwd : String) (o : Options) :
    Grouped (c.files cwd) (c.reconcile cwd o) := by
  exact grouped_flatMap fun e _ v hv => (mem_unusedIn_fields hv).2

theorem pairwise_reconcile (hfiles : (c.files cwd).Nodup) (hs : ∀ e ∈ c.sheets, e.2.Ordered)
    (o : Options) : (c.reconcile cwd o).Pairwise fun v w =>
      v.file = w.file → v.className ≠ w.className ∧ v.line ≤ w.line := by
  rw [reconcile, List.pairwise_flatMap]
  constructor
  · rintro ⟨path, sheet⟩ he
    refine (c.pairwise_unusedIn cwd path o (hs _ he)).imp ?_
    exact fun hpair _ => hpair
  · refine (List.pairwise_map.mp hfiles).imp ?_
    rintro ⟨path, _⟩ ⟨path', _⟩ hne v hv w hw heq
    rw [(mem_unusedIn_fields hv).2, (mem_unusedIn_fields hw).2] at heq
    exact absurd heq hne

end Context

/-! ### Projects -/

theorem Source.ordered_sheetOrEmpty (s : Source) : s.sheetOrEmpty.Ordered := by
  have hempty : ({} : Sheet).Ordered := ⟨List.nodup_nil, List.Pairwise.nil⟩
  cases hsheet : s.sheet with
  | error e =>
    rw [sheetOrEmpty, hsheet]
    exact hempty
  | ok sheet =>
    rw [sheetOrEmpty, hsheet]
    rw [Source.sheet] at hsheet
    cases hcontent : s.content with
    | error e => rw [hcontent] at hsheet; cases hsheet
    | ok text =>
      rw [hcontent] at hsheet
      exact Style.ordered_of_extract hsheet

namespace Project

variable {p : Project}

theorem keys_table (h : (p.styles.map Source.path).Nodup) :
    p.table.keys = p.styles.map Source.path := by
  rw [keys_table_eq_addNames]
  exact addNames_eq_append h

theorem ordered_of_mem_table {e : String × Sheet} (h : e ∈ p.table) : e.2.Ordered := by
  suffices hall : ∀ e ∈ p.table, e.2.Ordered from hall e h
  refine List.foldlRecOn (motive := fun t : Table Sheet => ∀ e ∈ t, e.2.Ordered) _ _ (by simp) ?_
  intro t ht s _ e he
  rw [Table.put_eq_alter] at he
  rcases Table.mem_alter he with hold | ⟨_, rfl⟩
  · exact ht e hold
  · exact s.ordered_sheetOrEmpty

theorem root_context (p : Project) (resolver : Alias.Resolver) (o : Options) :
    (p.context resolver o).root = p.root := by
  have h := congrArg Context.root (p.forgetFailures_context resolver o)
  exact h.trans (Context.grows_foldl_addUse _ _).root

end Project

/-! ### Disks -/

section Disks

variable {d : Disk} {base : String} {o : Options} {vs : List Violation}

/-- The names of the style files below a directory, in the order of discovery. -/
def styleNames (d : Disk) (base : String) : List String :=
  (d.collect base).styles.map fun path => Path.relative d.cwd path (Path.real d.cwd base)

theorem nodup_styleNames (hp : d.Proper) (base : String) : (styleNames d base).Nodup := by
  rw [styleNames, Disk.styles_collect]
  exact (hp.nodup_relative_found base).sublist (List.filter_sublist.map _)

/-- What the violations of a disk come from: a context whose sheets are those of the style files. -/
theorem exists_context_of_unusedClasses (hp : d.Proper)
    (h : (unusedClasses d base o).result = .ok vs) :
    vs = [] ∨ ∃ c : Context, vs = c.reconcile d.cwd o ∧ c.files d.cwd = styleNames d base ∧
      ∀ e ∈ c.sheets, e.2.Ordered := by
  rw [result_unusedClasses] at h
  by_cases henabled : o.enabled = true
  · rw [if_pos henabled, Context.result_ofDisk] at h
    cases hresolver : (Alias.Resolver.ofDisk d (Project.ofDisk d base).root).result with
    | error fault => rw [hresolver] at h; cases h
    | ok resolver =>
      rw [hresolver] at h
      simp only [Except.map, Context.reconcile_forgetFailures, Except.ok.injEq] at h
      have hpaths : (Project.ofDisk d base).styles.map Source.path = (d.collect base).styles := by
        rw [Project.styles_ofDisk, Disk.styles_collect, List.map_map]
        exact List.map_id' _
      have hnodup : ((d.collect base).styles).Nodup := by
        rw [Disk.styles_collect]
        exact (hp.nodup_found base).filter _
      refine .inr ⟨(Project.ofDisk d base).context resolver o, h.symm, ?_, ?_⟩
      · rw [Context.files_eq, Project.sheets_context, Project.root_context,
          Project.keys_table (by rwa [hpaths]), hpaths, Project.ofDisk_eq, styleNames]
      · rw [Project.sheets_context]
        exact fun e he => Project.ordered_of_mem_table he
  · rw [if_neg henabled] at h
    exact .inl (Except.ok.inj h).symm

theorem grouped_of_unusedClasses (hp : d.Proper) (h : (unusedClasses d base o).result = .ok vs) :
    Grouped (styleNames d base) vs := by
  rcases exists_context_of_unusedClasses hp h with rfl | ⟨c, rfl, hfiles, _⟩
  · exact .nil _
  · rw [← hfiles]
    exact c.grouped_reconcile d.cwd o

theorem rule_of_unusedClasses (h : (unusedClasses d base o).result = .ok vs) :
    ∀ v ∈ vs, v.rule = Violation.unusedClasses := by
  rw [result_unusedClasses] at h
  split at h
  · cases hcontext : (Context.ofDisk d base o).result.map Context.forgetFailures with
    | error fault =>
      rw [hcontext] at h
      cases h
    | ok c =>
      rw [hcontext] at h
      cases h
      intro v hv
      obtain ⟨_, _, hv⟩ := List.mem_flatMap.mp hv
      exact (Context.mem_unusedIn_fields hv).1
  · cases h
    simp

/-- **Violations are distinct and in order.**  Whenever the rule about unused classes gives
violations, they stand file by file in the order of discovery, the files have distinct names, no
class of a file is reported twice, and the lines in a file do not decrease. -/
theorem unusedClasses_ordered (hp : d.Proper) (h : (unusedClasses d base o).result = .ok vs) :
    (styleNames d base).Nodup ∧ Grouped (styleNames d base) vs ∧
      (vs.map fun v => (v.file, v.className)).Nodup ∧
      vs.Pairwise fun v w => v.file = w.file → v.line ≤ w.line := by
  have hnames := nodup_styleNames hp base
  refine ⟨hnames, grouped_of_unusedClasses hp h, ?_⟩
  rcases exists_context_of_unusedClasses hp h with rfl | ⟨c, rfl, hfiles, hordered⟩
  · exact ⟨List.nodup_nil, List.Pairwise.nil⟩
  · rw [← hfiles] at hnames
    have hpairs := Context.pairwise_reconcile hnames hordered o
    refine ⟨List.pairwise_map.mpr (hpairs.imp ?_), hpairs.imp fun h hfile => (h hfile).2⟩
    intro v w h heq
    obtain ⟨hfile, hclass⟩ := Prod.mk.inj heq
    exact (h hfile).1 hclass

end Disks

/-- The stylesheet `.b{color:red}` with `.a{z-index:9}.b{}` on its second line. -/
def repeatedBytes : List UInt8 :=
  [46, 98, 123, 99, 111, 108, 111, 114, 58, 114, 101, 100, 125, 10, 46, 97, 123, 122, 45, 105, 110,
    100, 101, 120, 58, 57, 125, 46, 98, 123, 125]

/-- A directory with this stylesheet, and below it a directory with the plain one. -/
def layeredDisk : Disk where
  tree := .directory [("p", .directory [("a", .directory [("c.css", .file plainBytes)]),
    ("z.css", .file repeatedBytes)])]
  cwd := "/p"

theorem proper_layeredDisk : layeredDisk.Proper where
  isDirectory := rfl
  tree := by
    refine .directory (by decide) (by decide) ?_
    simp only [List.mem_singleton, forall_eq]
    refine .directory (by decide) (by decide) ?_
    simp only [List.mem_cons, List.not_mem_nil, or_false, forall_eq_or_imp, forall_eq]
    refine ⟨.directory (by decide) (by decide) ?_, .file _⟩
    simp only [List.mem_singleton, forall_eq]
    exact .file _
  cwd := by decide

/-- The file of the directory itself is found first. -/
theorem found_layeredDisk : layeredDisk.found "." = ["/p/z.css", "/p/a/c.css"] := by
  have hnames : ∀ name ∈ ["p"], Path.IsName name := by decide
  have hbase : Path.real layeredDisk.cwd "." = Path.ofNames ["p"] := by decide
  rw [proper_layeredDisk.found_eq hnames hbase]
  change (Disk.Entry.directory _).files "/p" = _
  rw [Disk.files_directory]
  change (Disk.byName [_]).map _ ++ (Disk.byName [_]).flatMap _ = _
  rw [Disk.byName_singleton, Disk.byName_singleton]
  change _ :: ((Disk.Entry.directory _).files _ ++ []) = _
  rw [Disk.files_directory]
  change _ :: (((Disk.byName [_]).map _ ++ (Disk.byName []).flatMap _) ++ []) = _
  rw [Disk.byName_singleton, Disk.byName_nil]
  decide

/-- The classes of the two stylesheets, none of which is used. -/
def layeredUnused : List Violation :=
  [Context.violation "z.css" "b" 1, Context.violation "z.css" "a" 2,
    Context.violation "a/c.css" "z" 1]

theorem unusedClasses_layeredDisk :
    (unusedClasses layeredDisk "." {}).result = .ok layeredUnused := by
  refine eq_ok_of_toOption ?_
  rw [result_unusedClasses, if_pos rfl, Context.result_ofDisk, Project.ofDisk_eq, found_layeredDisk]
  decide +kernel

/-- The violations of the two stylesheets come in the order of discovery, and the class that is
defined twice is reported once. -/
theorem unusedClasses_ordered_layered :
    styleNames layeredDisk "." = ["z.css", "a/c.css"] ∧
      Grouped (styleNames layeredDisk ".") layeredUnused ∧
      (layeredUnused.map fun v => (v.file, v.className)).Nodup ∧
      layeredUnused.Pairwise fun v w => v.file = w.file → v.line ≤ w.line := by
  constructor
  · rw [styleNames, Disk.styles_collect, found_layeredDisk]
    decide +kernel
  · exact (unusedClasses_ordered proper_layeredDisk unusedClasses_layeredDisk).2

end StyleAudit.Audit
