import Mathlib.Data.List.TakeWhile
import StyleAudit.Proofs.Disk.Discovery

/-!
# The catalogue of a directory

What discovery has to return for a directory can be said without the walk: which files are offered
(`Offered`), and which of two files comes first (`Precedes`).  A list without repetitions of the
files that are offered, in this order, is a catalogue (`Catalogue`), and there is only one
(`Catalogue.unique`).

* `Entry.mem_files_iff`: the walk finds the files that are not hidden, below directories that are
  looked into, and no others.
* `Entry.pairwise_files`: it finds them in order.
* `Entry.Relisted.file?_eq`: if directories are listed in another order, the same files stand at the
  same places.

So discovery returns the catalogue, and the catalogue does not depend on the order of the listings.
-/

namespace StyleAudit

open StyleAudit.Path StyleAudit.Text

namespace Path

/-! ### Suffixes -/

variable {path stem ext : String}

theorem bne_of_notMem_reverse {cs : List Char} {d : Char} (h : d ∉ cs) :
    ∀ c ∈ cs.reverse, (c != d) = true := by
  intro c hc
  rw [bne_iff_ne]
  rintro rfl
  exact h (List.mem_reverse.mp hc)

/-- What follows the last dot of the name, with the dot, unless nothing is on one of its sides. -/
theorem suffix_of_stem (hname : name path = stem ++ "." ++ ext) (hdot : '.' ∉ ext.toList) :
    suffix path = if ext = "" ∨ stem = "" then "" else "." ++ ext := by
  have hreversed : (name path).toList.reverse =
      ext.toList.reverse ++ '.' :: stem.toList.reverse := by
    simp [hname]
  have hafter := bne_of_notMem_reverse hdot
  unfold suffix
  dsimp only
  rw [hreversed, List.takeWhile_append_of_pos hafter, List.dropWhile_append_of_pos hafter]
  by_cases hempty : ext = "" ∨ stem = ""
  · rw [if_pos hempty, if_pos (by simpa using hempty)]
  · rw [if_neg hempty, if_neg (by simpa using hempty)]
    simp

theorem suffix_of_notMem (h : '.' ∉ (name path).toList) : suffix path = "" := by
  unfold suffix
  dsimp only
  rw [List.takeWhile_eq_self_iff.mpr (bne_of_notMem_reverse h)]
  simp

/-- The condition on a suffix, as one on the stem and what follows it. -/
theorem suffix_iff {P : String → Prop} (hempty : ¬P "") (hdot : ¬P ".") :
    P (suffix path) ↔ ∃ stem ext, name path = stem ++ "." ++ ext ∧ stem ≠ "" ∧
      '.' ∉ ext.toList ∧ P ("." ++ ext) := by
  constructor
  · intro h
    have hmem : '.' ∈ (name path).toList.reverse := by
      rw [List.mem_reverse]
      by_contra hno
      exact hempty (suffix_of_notMem hno ▸ h)
    obtain ⟨after, before, hreversed, hafter⟩ := List.eq_append_cons_of_mem hmem
    have hname : name path =
        String.ofList before.reverse ++ "." ++ String.ofList after.reverse := by
      rw [← String.toList_inj, ← List.reverse_inj, hreversed]
      simp
    have hsuffix := suffix_of_stem hname (by simpa using hafter)
    by_cases hside : String.ofList after.reverse = "" ∨ String.ofList before.reverse = ""
    · rw [hsuffix, if_pos hside] at h
      exact absurd h hempty
    · rw [hsuffix, if_neg hside] at h
      exact ⟨_, _, hname, fun hstem => hside (.inr hstem), by simpa using hafter, h⟩
  · rintro ⟨stem, ext, hname, hstem, hext, h⟩
    have hne : ext ≠ "" := by
      rintro rfl
      exact hdot (by simpa using h)
    rwa [suffix_of_stem hname hext, if_neg (not_or.mpr ⟨hne, hstem⟩)]

end Path

namespace Disk

/-! ### What is offered -/

/-- The suffixes of a category, in small letters. -/
def Category.suffixes : Category → List String
  | .style => [".css", ".scss", ".less"]
  | .markup => [".jsx", ".tsx"]

theorem Category.ofPath?_eq_some_iff {path : String} {c : Category} :
    ofPath? path = some c ↔ lowered (suffix path) ∈ c.suffixes := by
  unfold ofPath?
  dsimp only
  generalize lowered (suffix path) = small
  constructor
  · intro h
    split at h
    · rename_i hstyle
      cases h
      exact List.contains_iff_mem.mp hstyle
    · split at h
      · rename_i hmarkup
        cases h
        exact List.contains_iff_mem.mp hmarkup
      · cases h
  · intro h
    cases c with
    | style => exact if_pos (List.contains_iff_mem.mpr h)
    | markup =>
      -- No suffix belongs to both categories.
      have hapart : ∀ text ∈ markup.suffixes, [".css", ".scss", ".less"].contains text = false := by
        decide
      rw [hapart small h, if_neg Bool.false_ne_true]
      exact if_pos (List.contains_iff_mem.mpr h)

/-- A file of a category that is reached from `base` through the directories `dirs`, none of which
is hidden or holds installed packages, and that is not hidden itself. -/
structure Offered (d : Disk) (base : String) (c : Category) (dirs : List String) (file : String) :
    Prop where
  isFile : (d.tree.file? (d.place base ++ dirs ++ [file])).isSome = true
  entered : ∀ dir ∈ dirs, dir ≠ "node_modules" ∧ isHidden dir = false
  shown : isHidden file = false
  suffix : ∃ stem ext, file = stem ++ "." ++ ext ∧ stem ≠ "" ∧ '.' ∉ ext.toList ∧
    lowered ("." ++ ext) ∈ c.suffixes

namespace Entry

variable {e : Entry} {pre : List String}

theorem file?_of_mem {es : Table Entry} (hnodup : es.keys.Nodup) {a : String × Entry} (h : a ∈ es)
    (names : List String) : (directory es).file? (a.1 :: names) = a.2.file? names := by
  rw [file?_cons, entries, Table.find?_of_mem hnodup h]
  rfl

theorem exists_mem_of_file?_cons {es : Table Entry} {name : String} {names : List String}
    (h : ((directory es).file? (name :: names)).isSome = true) :
    ∃ sub, (name, sub) ∈ es ∧ (sub.file? names).isSome = true := by
  obtain ⟨bytes, hbytes⟩ := Option.isSome_iff_exists.mp h
  obtain ⟨_, sub, heq, hsub, hbytes⟩ := exists_of_file?_cons hbytes
  cases heq
  exact ⟨sub, Table.mem_of_find? hsub, Option.isSome_iff_exists.mpr ⟨bytes, hbytes⟩⟩

theorem isFile_eq_true_iff : e.isFile = true ↔ (e.file? []).isSome = true := by
  cases e <;> simp [isFile, file?, at?]

theorem isFile_eq_false_of_file?_cons {name : String} {names : List String}
    (h : (e.file? (name :: names)).isSome = true) : e.isFile = false := by
  cases e with
  | file bytes => cases h
  | directory es => rfl

/-- What leads to a file of a proper tree are names. -/
theorem Proper.isName_of_file? (hp : e.Proper) {names : List String}
    (h : (e.file? names).isSome = true) : ∀ name ∈ names, IsName name := by
  induction names generalizing e with
  | nil => simp
  | cons name names ih =>
    cases hp with
    | file bytes => cases h
    | directory _ hnames hbelow =>
      obtain ⟨sub, hmem, hsome⟩ := exists_mem_of_file?_cons h
      exact List.forall_mem_cons.mpr ⟨hnames _ hmem, ih (hbelow _ hmem) hsome⟩

theorem exists_at?_of_file?_append {names : List String}
    (h : (e.file? (pre ++ names)).isSome = true) : ∃ sub, e.at? pre = some sub := by
  induction pre generalizing e with
  | nil => exact ⟨e, rfl⟩
  | cons name pre ih =>
    obtain ⟨bytes, hbytes⟩ := Option.isSome_iff_exists.mp h
    obtain ⟨es, next, rfl, hnext, hbytes⟩ := exists_of_file?_cons hbytes
    obtain ⟨sub, hsub⟩ := ih (Option.isSome_iff_exists.mpr ⟨bytes, hbytes⟩)
    exact ⟨sub, by rw [at?, entries, hnext]; exact hsub⟩

/-- **The walk finds the files that are not hidden, below directories that are looked into.** -/
theorem mem_files_iff (hp : e.Proper) (hpre : ∀ name ∈ pre, IsName name) {path : String} :
    path ∈ e.files (ofNames pre) ↔ ∃ dirs file, path = ofNames (pre ++ dirs ++ [file]) ∧
      (∀ dir ∈ dirs, isEntered dir = true) ∧ isHidden file = false ∧
      (e.file? (dirs ++ [file])).isSome = true := by
  induction hp generalizing pre with
  | file bytes =>
    constructor
    · intro h
      cases h
    · rintro ⟨dirs, file, _, _, _, h⟩
      cases dirs <;> cases h
  | @directory es hnodup hnames hbelow ih =>
    have hdown : ∀ {a}, a ∈ es → ∀ n ∈ pre ++ [a.1], IsName n := fun h =>
      List.forall_mem_append.mpr ⟨hpre, by simpa using hnames _ h⟩
    rw [files_directory, List.mem_append, List.mem_map, List.mem_flatMap]
    simp only [mem_byName, List.mem_filter, isOwn, isSub, Bool.and_eq_true, Bool.not_eq_true']
    -- A file of the directory has no directories before it, one from below has the first of them.
    constructor
    · rintro (⟨a, ⟨ha, hfile, hhidden⟩, rfl⟩ | ⟨a, ⟨ha, _, hentered⟩, hpath⟩)
      · refine ⟨[], a.1, by simpa using join_ofNames_name hpre (hnames a ha), by simp, hhidden, ?_⟩
        rwa [List.nil_append, file?_of_mem hnodup ha, ← isFile_eq_true_iff]
      · rw [join_ofNames_name hpre (hnames a ha)] at hpath
        obtain ⟨dirs, file, rfl, hdirs, hfile, hsome⟩ := (ih a ha (hdown ha)).mp hpath
        refine ⟨a.1 :: dirs, file, by simp, List.forall_mem_cons.mpr ⟨hentered, hdirs⟩, hfile, ?_⟩
        rwa [List.cons_append, file?_of_mem hnodup ha]
    · rintro ⟨dirs, file, rfl, hdirs, hhidden, hsome⟩
      cases dirs with
      | nil =>
        obtain ⟨sub, hmem, hsome⟩ := exists_mem_of_file?_cons hsome
        exact .inl ⟨(file, sub), ⟨hmem, isFile_eq_true_iff.mpr hsome, hhidden⟩,
          by simpa using join_ofNames_name hpre (hnames _ hmem)⟩
      | cons dir dirs =>
        obtain ⟨sub, hmem, hsome⟩ := exists_mem_of_file?_cons hsome
        obtain ⟨hdir, hdirs⟩ := List.forall_mem_cons.mp hdirs
        have hdirectory : sub.isFile = false := by
          cases dirs <;> exact isFile_eq_false_of_file?_cons hsome
        refine .inr ⟨(dir, sub), ⟨hmem, hdirectory, hdir⟩, ?_⟩
        rw [join_ofNames_name hpre (hnames _ hmem)]
        exact (ih _ hmem (hdown hmem)).mpr ⟨dirs, file, by simp, hdirs, hhidden, hsome⟩

end Entry

/-! ### Files in order -/

/-- The order of places below one directory: the files of the directory by name, then its
subdirectories by name, and what lies below one subdirectory in the same order. -/
inductive Before : List String → List String → Prop
  | files {a b : String} (h : a < b) : Before [a] [b]
  | fileFirst (a b : String) {bs : List String} (hbs : bs ≠ []) : Before [a] (b :: bs)
  | directories {a b : String} (h : a < b) {as bs : List String} (has : as ≠ []) (hbs : bs ≠ []) :
      Before (a :: as) (b :: bs)
  | within (a : String) {as bs : List String} (h : Before as bs) : Before (a :: as) (a :: bs)

namespace Before

variable {as bs : List String}

theorem ne_nil (h : Before as bs) : as ≠ [] ∧ bs ≠ [] := by
  cases h <;> exact ⟨List.cons_ne_nil _ _, List.cons_ne_nil _ _⟩

theorem append (names : List String) (h : Before as bs) : Before (names ++ as) (names ++ bs) := by
  induction names with
  | nil => exact h
  | cons name names ih => exact ih.within name

theorem asymm (h : Before as bs) : ¬Before bs as := by
  induction h with
  | files h =>
    intro h'
    cases h' with
    | files h' => exact String.lt_asymm h h'
    | fileFirst _ _ hne => exact hne rfl
    | directories _ hne _ => exact hne rfl
    | within _ h' => exact h'.ne_nil.1 rfl
  | fileFirst a b hbs =>
    intro h'
    cases h' with
    | files h' => exact hbs rfl
    | fileFirst _ _ hne => exact hne rfl
    | directories _ _ hne => exact hne rfl
    | within _ h' => exact h'.ne_nil.2 rfl
  | directories h has hbs =>
    intro h'
    cases h' with
    | files _ => exact has rfl
    | fileFirst _ _ _ => exact hbs rfl
    | directories h' _ _ => exact String.lt_asymm h h'
    | within _ _ => exact String.lt_irrefl _ h
  | within a h ih =>
    intro h'
    cases h' with
    | files h' => exact String.lt_irrefl _ h'
    | fileFirst _ _ _ => exact h.ne_nil.2 rfl
    | directories h' _ _ => exact String.lt_irrefl _ h'
    | within _ h' => exact ih h'

end Before

/-- The order of files by their places. -/
def Precedes (d : Disk) (path path' : String) : Prop :=
  Before (d.place path) (d.place path')

theorem Before.precedes (d : Disk) {as bs pre : List String} (h : Before as bs)
    (hpre : ∀ name ∈ pre, IsName name) (has : ∀ name ∈ as, IsName name)
    (hbs : ∀ name ∈ bs, IsName name) :
    d.Precedes (ofNames (pre ++ as)) (ofNames (pre ++ bs)) := by
  rw [Precedes, place_ofNames d (List.forall_mem_append.mpr ⟨hpre, has⟩),
    place_ofNames d (List.forall_mem_append.mpr ⟨hpre, hbs⟩)]
  exact h.append pre

theorem pairwise_lt_byName_filter {t : Table Entry} (h : t.keys.Nodup) (q : String × Entry → Bool) :
    (byName (t.filter q)).Pairwise fun a b => a.1 < b.1 :=
  ((pairwise_byName _).and (pairwise_ne_byName_filter h q)).imp fun ⟨hle, hne⟩ =>
    String.not_le.mp fun hge => hne (String.le_antisymm hle hge)

/-- **The walk finds files in order.** -/
theorem Entry.pairwise_files (d : Disk) {e : Entry} (hp : e.Proper) {pre : List String}
    (hpre : ∀ name ∈ pre, IsName name) : (e.files (ofNames pre)).Pairwise d.Precedes := by
  induction hp generalizing pre with
  | file bytes => exact List.Pairwise.nil
  | @directory es hnodup hnames hbelow ih =>
    have hmem : ∀ {q : String × Entry → Bool} {a}, a ∈ byName (es.filter q) → a ∈ es := fun ha =>
      List.mem_of_mem_filter (mem_byName.mp ha)
    have hone : ∀ a ∈ es, ∀ n ∈ [a.1], IsName n := fun a ha => by simpa using hnames a ha
    have hplace : ∀ a ∈ es, ∀ path ∈ a.2.files (join (ofNames pre) a.1), ∃ below, below ≠ [] ∧
        (∀ n ∈ a.1 :: below, IsName n) ∧ path = ofNames (pre ++ a.1 :: below) :=
      fun a ha _ hpath => exists_of_mem_files_below (hbelow a ha) (hnames a ha) hpre hpath
    rw [files_directory, List.pairwise_append]
    refine ⟨?_, ?_, ?_⟩
    · refine List.pairwise_map.mpr ((pairwise_lt_byName_filter hnodup isOwn).imp_of_mem ?_)
      intro a b ha hb hlt
      rw [join_ofNames_name hpre (hnames a (hmem ha)), join_ofNames_name hpre (hnames b (hmem hb))]
      exact (Before.files hlt).precedes d hpre (hone a (hmem ha)) (hone b (hmem hb))
    · rw [List.pairwise_flatMap]
      constructor
      · intro a ha
        rw [join_ofNames_name hpre (hnames a (hmem ha))]
        exact ih a (hmem ha) (List.forall_mem_append.mpr ⟨hpre, hone a (hmem ha)⟩)
      · refine (pairwise_lt_byName_filter hnodup isSub).imp_of_mem ?_
        intro a b ha hb hlt path hpath path' hpath'
        obtain ⟨below, hne, hall, rfl⟩ := hplace a (hmem ha) _ hpath
        obtain ⟨below', hne', hall', rfl⟩ := hplace b (hmem hb) _ hpath'
        exact (Before.directories hlt hne hne').precedes d hpre hall hall'
    · intro path hown path' hsub
      obtain ⟨a, ha, rfl⟩ := List.mem_map.mp hown
      obtain ⟨b, hb, hpath'⟩ := List.mem_flatMap.mp hsub
      obtain ⟨below, hne, hall, rfl⟩ := hplace b (hmem hb) _ hpath'
      rw [join_ofNames_name hpre (hnames a (hmem ha))]
      exact (Before.fileFirst a.1 b.1 hne).precedes d hpre (hone a (hmem ha)) hall

/-! ### The catalogue -/

/-- The list of the files of a category that are offered, each once and in order. -/
structure Catalogue (d : Disk) (base : String) (c : Category) (paths : List String) : Prop where
  mem_iff : ∀ path, path ∈ paths ↔
    ∃ dirs file, path = ofNames (d.place base ++ dirs ++ [file]) ∧ d.Offered base c dirs file
  nodup : paths.Nodup
  ordered : paths.Pairwise d.Precedes

/-- There is only one catalogue. -/
theorem Catalogue.unique {d : Disk} {base : String} {c : Category} {paths paths' : List String}
    (h : d.Catalogue base c paths) (h' : d.Catalogue base c paths') : paths = paths' := by
  have hperm : paths.Perm paths' := (List.perm_ext_iff_of_nodup h.nodup h'.nodup).mpr fun path =>
    (h.mem_iff path).trans (h'.mem_iff path).symm
  exact hperm.eq_of_pairwise (fun _ _ _ _ hab hba => absurd hba hab.asymm) h.ordered h'.ordered

/-- The files of one category. -/
def Findings.files (f : Findings) : Category → List String
  | .style => f.styles
  | .markup => f.markups

theorem Findings.ext_files {f f' : Findings} (h : ∀ c, f.files c = f'.files c) : f = f' := by
  cases f with
  | mk styles markups =>
    cases f' with
    | mk styles' markups' => exact congrArg₂ Findings.mk (h .style) (h .markup)

theorem files_collect (d : Disk) (base : String) (c : Category) :
    (d.collect base).files c = (d.found base).filter (Category.ofPath? · == some c) := by
  rw [collect_eq]
  cases c <;> dsimp only [Findings.files]

theorem isEntered_iff {name : String} :
    isEntered name = true ↔ name ≠ "node_modules" ∧ isHidden name = false := by
  simp [isEntered]

/-- A file is of the category that its stem is followed by a suffix of. -/
theorem ofPath?_ofNames_iff {names : List String} {file : String} {c : Category}
    (h : ∀ name ∈ names ++ [file], IsName name) :
    Category.ofPath? (ofNames (names ++ [file])) = some c ↔
      ∃ stem ext, file = stem ++ "." ++ ext ∧ stem ≠ "" ∧ '.' ∉ ext.toList ∧
        lowered ("." ++ ext) ∈ c.suffixes := by
  have hempty : lowered "" ∉ c.suffixes := by cases c <;> decide
  have hdot : lowered "." ∉ c.suffixes := by cases c <;> decide
  have hname : name (ofNames (names ++ [file])) = file := by
    rw [name_ofNames h]
    simp
  rw [Category.ofPath?_eq_some_iff,
    suffix_iff (P := fun text => lowered text ∈ c.suffixes) hempty hdot, hname]

theorem Proper.mem_found_iff {d : Disk} (hp : d.Proper) {base path : String} :
    path ∈ d.found base ↔ ∃ dirs file, path = ofNames (d.place base ++ dirs ++ [file]) ∧
      (∀ dir ∈ dirs, isEntered dir = true) ∧ isHidden file = false ∧
      (d.tree.file? (d.place base ++ dirs ++ [file])).isSome = true := by
  obtain ⟨pre, hpre, hbase⟩ := exists_real_eq_ofNames hp.cwd base
  have hplace : d.place base = pre := by rw [place, hbase, filled_components_ofNames hpre]
  rw [hplace, hp.found_eq hpre hbase]
  cases hat : d.tree.at? pre with
  | none =>
    constructor
    · intro h
      cases h
    · rintro ⟨dirs, file, _, _, _, hsome⟩
      rw [List.append_assoc] at hsome
      obtain ⟨sub, hsub⟩ := Entry.exists_at?_of_file?_append hsome
      rw [hat] at hsub
      cases hsub
  | some e =>
    rw [Option.map_some, Option.getD_some, Entry.mem_files_iff (hp.tree.of_at? hat) hpre]
    simp only [List.append_assoc, Entry.file?_append hat]

/-- **Discovery returns the catalogue.** -/
theorem Proper.catalogue_collect {d : Disk} (hp : d.Proper) (base : String) (c : Category) :
    d.Catalogue base c ((d.collect base).files c) := by
  rw [files_collect]
  refine ⟨fun path => ?_, (hp.nodup_found base).filter _, ?_⟩
  · rw [List.mem_filter, beq_iff_eq, hp.mem_found_iff]
    constructor
    · rintro ⟨⟨dirs, file, rfl, hdirs, hshown, hsome⟩, hcategory⟩
      exact ⟨dirs, file, rfl, hsome, fun dir hdir => isEntered_iff.mp (hdirs dir hdir), hshown,
        (ofPath?_ofNames_iff (hp.tree.isName_of_file? hsome)).mp hcategory⟩
    · rintro ⟨dirs, file, rfl, hsome, hdirs, hshown, hsuffix⟩
      exact ⟨⟨dirs, file, rfl, fun dir hdir => isEntered_iff.mpr (hdirs dir hdir), hshown, hsome⟩,
        (ofPath?_ofNames_iff (hp.tree.isName_of_file? hsome)).mpr hsuffix⟩
  · obtain ⟨pre, hpre, hbase⟩ := exists_real_eq_ofNames hp.cwd base
    refine List.Pairwise.filter _ ?_
    rw [hp.found_eq hpre hbase]
    cases hat : d.tree.at? pre with
    | none => exact List.Pairwise.nil
    | some e => exact Entry.pairwise_files d (hp.tree.of_at? hat) hpre

/-! ### Other orders of listing -/

namespace Entry

/-- The same tree with the entries of each directory listed in any order. -/
inductive Relisted : Entry → Entry → Prop
  | file (bytes : List UInt8) : Relisted (.file bytes) (.file bytes)
  | directory {es es' : Table Entry} (names : es.keys.Perm es'.keys)
      (below : ∀ e ∈ es, ∀ e' ∈ es', e.1 = e'.1 → Relisted e.2 e'.2) :
      Relisted (.directory es) (.directory es')

namespace Relisted

variable {e e' : Entry}

theorem isFile_eq (h : Relisted e e') : e'.isFile = e.isFile := by
  cases h <;> rfl

theorem proper (h : Relisted e e') (hp : e.Proper) : e'.Proper := by
  induction h with
  | file bytes => exact hp
  | @directory es es' hnames hbelow ih =>
    have hfrom : ∀ a' ∈ es', ∃ a ∈ es, a.1 = a'.1 := fun a' ha' =>
      List.mem_map.mp (hnames.mem_iff.mpr (List.mem_map_of_mem ha'))
    cases hp with
    | directory hnodup hisName hproper =>
      refine .directory (hnames.nodup_iff.mp hnodup) (fun a' ha' => ?_) fun a' ha' => ?_
      · obtain ⟨a, ha, heq⟩ := hfrom a' ha'
        rw [← heq]
        exact hisName a ha
      · obtain ⟨a, ha, heq⟩ := hfrom a' ha'
        exact ih a ha a' ha' heq (hproper a ha)

/-- The same files stand at the same places. -/
theorem file?_eq (h : Relisted e e') (names : List String) : e'.file? names = e.file? names := by
  induction h generalizing names with
  | file bytes => rfl
  | @directory es es' hnames hbelow ih =>
    cases names with
    | nil => rfl
    | cons name names =>
      rw [file?_cons, file?_cons, entries, entries]
      -- A name that leads somewhere in one listing leads somewhere in the other.
      have hfound : ∀ {t t' : Table Entry} {sub}, t.keys.Perm t'.keys → t.find? name = some sub →
          ∃ sub', t'.find? name = some sub' := fun hperm hsub =>
        Table.exists_find? (hperm.mem_iff.mp (Table.mem_keys_of_find? hsub))
      cases hsub : Table.find? es name with
      | some sub =>
        obtain ⟨sub', hsub'⟩ := hfound hnames hsub
        rw [hsub']
        exact ih _ (Table.mem_of_find? hsub) _ (Table.mem_of_find? hsub') rfl names
      | none =>
        cases hsub' : Table.find? es' name with
        | none => rfl
        | some sub' =>
          obtain ⟨sub, hfind⟩ := hfound hnames.symm hsub'
          rw [hsub] at hfind
          cases hfind

end Relisted

end Entry

/-- The same disk with the entries of each directory listed in any order. -/
structure Relisted (d d' : Disk) : Prop where
  tree : Entry.Relisted d.tree d'.tree
  cwd : d'.cwd = d.cwd

namespace Relisted

variable {d d' : Disk}

theorem proper (h : d.Relisted d') (hp : d.Proper) : d'.Proper where
  isDirectory := h.tree.isFile_eq.trans hp.isDirectory
  tree := h.tree.proper hp.tree
  cwd := by rw [h.cwd, hp.cwd]

theorem place_eq (h : d.Relisted d') (path : String) : d'.place path = d.place path := by
  rw [place, place, h.cwd]

theorem offered_iff (h : d.Relisted d') {base : String} {c : Category} {dirs : List String}
    {file : String} : d'.Offered base c dirs file ↔ d.Offered base c dirs file := by
  constructor
  · rintro ⟨hfile, hentered, hshown, hsuffix⟩
    rw [h.place_eq, h.tree.file?_eq] at hfile
    exact ⟨hfile, hentered, hshown, hsuffix⟩
  · rintro ⟨hfile, hentered, hshown, hsuffix⟩
    rw [← h.place_eq, ← h.tree.file?_eq] at hfile
    exact ⟨hfile, hentered, hshown, hsuffix⟩

theorem catalogue (h : d.Relisted d') {base : String} {c : Category} {paths : List String}
    (hc : d'.Catalogue base c paths) : d.Catalogue base c paths := by
  refine ⟨fun path => ?_, hc.nodup, hc.ordered.imp fun hab => ?_⟩
  · simpa only [h.place_eq, h.offered_iff] using hc.mem_iff path
  · simpa only [Precedes, h.place_eq] using hab

end Relisted

/-- **Discovery returns the catalogue of a directory, whatever the order of the listings.**  A file
of the style category, or of the markup category, is found if and only if it is not hidden, its
suffix in small letters is one of the category, and no directory between it and the base is hidden
or holds installed packages.  No file is found twice, and the files of a directory come by name
before what lies in its subdirectories, which come by name. -/
theorem collect_complete_and_canonical {d : Disk} (hp : d.Proper) (base : String) :
    (∀ c, d.Catalogue base c ((d.collect base).files c)) ∧
      ∀ d', d.Relisted d' → d'.collect base = d.collect base := by
  refine ⟨hp.catalogue_collect base, fun d' h => ?_⟩
  have heq : ∀ c, (d'.collect base).files c = (d.collect base).files c := fun c =>
    (h.catalogue ((h.proper hp).catalogue_collect base c)).unique (hp.catalogue_collect base c)
  exact Findings.ext_files heq

/-- A directory with a stylesheet, one below it, a hidden one and an installed one. -/
def mixedDisk : Disk where
  tree := .directory [("p", .directory
    [("lib", .directory [("B.CSS", .file [])]), ("node_modules", .directory [("n.css", .file [])]),
      (".h.css", .file []), ("a.css", .file [])])]
  cwd := "/p"

/-- The same directory, listed backwards. -/
def turnedDisk : Disk where
  tree := .directory [("p", .directory
    [("a.css", .file []), (".h.css", .file []), ("node_modules", .directory [("n.css", .file [])]),
      ("lib", .directory [("B.CSS", .file [])])])]
  cwd := "/p"

theorem proper_mixedDisk : mixedDisk.Proper where
  isDirectory := rfl
  tree := by
    have hone : ∀ name, IsName name → (Entry.directory [(name, .file [])]).Proper := fun name h =>
      .directory (by simp [Table.keys]) (by simpa using h) (by simpa using .file [])
    refine .directory (by decide) (by decide) ?_
    rw [List.forall_mem_singleton]
    refine .directory (by decide) (by decide) ?_
    simp only [List.forall_mem_cons]
    exact ⟨hone _ (by decide), hone _ (by decide), .file _, .file _, by simp⟩
  cwd := by decide

theorem relisted_mixedDisk : mixedDisk.Relisted turnedDisk where
  tree := by
    have hone : ∀ name, (Entry.directory [(name, .file [])]).Relisted
        (.directory [(name, .file [])]) := fun name =>
      .directory (List.Perm.refl _) (by simpa using .file [])
    refine .directory (List.Perm.refl _) ?_
    simp only [List.forall_mem_singleton]
    intro _
    refine .directory (by decide) ?_
    simp [hone, Entry.Relisted.file]
  cwd := rfl

theorem collect_complete_and_canonical_mixed :
    mixedDisk.Proper ∧ mixedDisk.Relisted turnedDisk ∧
      turnedDisk.collect "." = mixedDisk.collect "." ∧
      "/p/lib/B.CSS" ∈ (mixedDisk.collect ".").styles ∧
      "/p/node_modules/n.css" ∉ (mixedDisk.collect ".").styles := by
  obtain ⟨hcatalogue, hcanonical⟩ := collect_complete_and_canonical proper_mixedDisk "."
  have hplace : mixedDisk.place "." = ["p"] := by decide
  have hmem := (hcatalogue .style).mem_iff
  rw [hplace] at hmem
  refine ⟨proper_mixedDisk, relisted_mixedDisk, hcanonical _ relisted_mixedDisk, ?_, ?_⟩
  · refine (hmem _).mpr ⟨["lib"], "B.CSS", by decide, ?_, by decide, by decide, ?_⟩
    · rw [hplace]
      rfl
    · exact ⟨"B", "CSS", by decide, by decide, by decide, by decide⟩
  · intro h
    obtain ⟨dirs, file, hpath, hoffered⟩ := (hmem _).mp h
    have hfile := hoffered.isFile
    rw [hplace] at hfile
    have hnames := proper_mixedDisk.tree.isName_of_file? hfile
    have heq := @ofNames_injective ["p", "node_modules", "n.css"] _ (by decide) hnames hpath
    have hdir : "node_modules" ∈ dirs := by
      cases dirs with
      | nil => simp at heq
      | cons dir dirs => simp [← (List.cons.inj (List.cons.inj heq).2).1]
    exact (hoffered.entered _ hdir).1 rfl

end Disk

end StyleAudit
