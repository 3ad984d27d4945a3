import Mathlib.Data.List.Basic
import StyleAudit.Alias.Loader
import StyleAudit.Proofs.Disk.Discovery

/-!
# What loading aliases depends on

Aliases are loaded from the candidates, one after the other.

* `result_ofDisk_of_no_file`: a candidate that is no file states nothing, so without any of them the
  resolver has no aliases.
* `ofDisk_of_differsAt`: no candidate is a style or markup file, so the resolver does not depend on
  one.
-/

namespace StyleAudit.Alias

variable {d : Disk} {root : String}

/-- Where a candidate stands. -/
def Candidate.path (c : Candidate) (root : String) : String :=
  Path.tidy (Path.join root c.file)

theorem result_firstTable_of_no_file {cs : List Candidate}
    (h : ∀ c ∈ cs, d.isFile (c.path root) = false) :
    (firstTable d root cs).result = .ok [] := by
  induction cs with
  | nil => rfl
  | cons c cs ih =>
    have hfile : d.isFile (Path.tidy (Path.join root c.file)) = false := h c List.mem_cons_self
    have hload : c.load d root = pure [] := by
      simp only [Candidate.load, hfile, Bool.false_eq_true, if_false]
    rw [firstTable, hload]
    exact ih fun c' hc' => h c' (List.mem_cons_of_mem c hc')

/-- If no candidate is a file, the resolver has no aliases. -/
theorem result_ofDisk_of_no_file (h : ∀ c ∈ candidates, d.isFile (c.path root) = false) :
    (Resolver.ofDisk d root).result = .ok ⟨root, []⟩ := by
  simp only [Resolver.ofDisk, bind, Logged.andThen, result_firstTable_of_no_file h, pure]

/-! ### Disks with the same candidates -/

/-- Candidates are named by their components, and they are neither style nor markup files. -/
theorem candidates_plain : ∀ c ∈ candidates,
    Path.components c.file ≠ [] ∧ (∀ part ∈ Path.components c.file, Path.IsName part) ∧
      String.intercalate "/" (Path.components c.file) = c.file ∧
      Disk.Category.ofPath? c.file = none := by
  decide +kernel

/-- A candidate below a path of names stands at a place of names. -/
theorem Candidate.path_ofNames {c : Candidate} (hc : c ∈ candidates) {pre : List String}
    (hpre : ∀ name ∈ pre, Path.IsName name) :
    (∀ name ∈ pre ++ Path.components c.file, Path.IsName name) ∧
      c.path (Path.ofNames pre) = Path.ofNames (pre ++ Path.components c.file) := by
  obtain ⟨hne, hparts, hfile, -⟩ := candidates_plain c hc
  have hall := List.forall_mem_append.mpr ⟨hpre, hparts⟩
  refine ⟨hall, ?_⟩
  rw [path, ← Path.tidy_ofNames hall, ← Path.join_ofNames hpre hne hparts, hfile]

/-- A candidate below a path of names has no category. -/
theorem Candidate.category_ofNames {c : Candidate} (hc : c ∈ candidates) {pre : List String}
    (hpre : ∀ name ∈ pre, Path.IsName name) :
    Disk.Category.ofPath? (Path.ofNames (pre ++ Path.components c.file)) = none := by
  obtain ⟨hne, hparts, hfile, hnone⟩ := candidates_plain c hc
  have hname : Path.name (Path.ofNames (pre ++ Path.components c.file)) = Path.name c.file := by
    rw [Path.name_ofNames (c.path_ofNames hc hpre).1, List.getLast?_append_of_ne_nil _ hne,
      ← Path.name_intercalate hne hparts, hfile]
  rw [Disk.Category.ofPath?_congr hname, hnone]

/-- What a candidate states does not depend on a style or markup file. -/
theorem Candidate.load_of_differsAt {c : Candidate} (hc : c ∈ candidates) {d' : Disk}
    {path : String} (hp : d.Proper) (h : d.DiffersAt path d')
    (hpath : Disk.Category.ofPath? path ≠ none) {pre : List String}
    (hpre : ∀ name ∈ pre, Path.IsName name) :
    c.load d' (Path.ofNames pre) = c.load d (Path.ofNames pre) := by
  obtain ⟨hnames, heq⟩ := c.path_ofNames hc hpre
  have hother : Path.ofNames (pre ++ Path.components c.file) ≠ path := by
    rintro rfl
    exact hpath (c.category_ofNames hc hpre)
  generalize pre ++ Path.components c.file = names at hnames heq hother
  have hfile := h.file names hnames hother
  have hisFile : d'.isFile (Path.ofNames names) = d.isFile (Path.ofNames names) := by
    rw [h.proper.isFile_ofNames hnames, hp.isFile_ofNames hnames, hfile]
  have hread : d.isFile (Path.ofNames names) = true →
      d'.read (Path.ofNames names) = d.read (Path.ofNames names) := by
    intro hisFile
    rw [hp.isFile_ofNames hnames] at hisFile
    obtain ⟨bytes, hbytes⟩ := Option.isSome_iff_exists.mp hisFile
    rw [h.proper.read_ofNames hnames (hfile.trans hbytes), hp.read_ofNames hnames hbytes]
  rw [Candidate.path] at heq
  simp only [load, heq, hisFile]
  split
  · rename_i hisFile
    rw [hread hisFile]
  · rfl

theorem firstTable_congr {d' : Disk} {cs : List Candidate}
    (h : ∀ c ∈ cs, c.load d' root = c.load d root) :
    firstTable d' root cs = firstTable d root cs := by
  induction cs with
  | nil => rfl
  | cons c cs ih =>
    rw [firstTable, firstTable, h c List.mem_cons_self,
      ih fun c' hc' => h c' (List.mem_cons_of_mem c hc')]

/-- **The resolver of a project does not depend on a style or markup file.** -/
theorem ofDisk_of_differsAt {d' : Disk} {path : String} (hp : d.Proper) (h : d.DiffersAt path d')
    (hpath : Disk.Category.ofPath? path ≠ none) {pre : List String}
    (hpre : ∀ name ∈ pre, Path.IsName name) :
    Resolver.ofDisk d' (Path.ofNames pre) = Resolver.ofDisk d (Path.ofNames pre) := by
  rw [Resolver.ofDisk, Resolver.ofDisk,
    firstTable_congr fun c hc => c.load_of_differsAt hc hp h hpath hpre]

end StyleAudit.Alias
