import Mathlib.Data.List.Basic
import Mathlib.Data.List.Nodup
import StyleAudit.Proofs.Disk.Tree

/-!
# What discovery finds

Discovery finds files in one order, by name.  So a change to the tree must be followed through the
sorting: in a directory of distinct names, leaving entries out and bringing them into order may
change places (`byName_filter`).

* `Entry.exists_of_mem_files`: what is found is a file, at a place of names.
* `Entry.nodup_files`: no file is found twice, so that the ways to the files that are found are
  distinct (`Proper.nodup_relative_found`).
* `Entry.files_put`: where one file is put in the place of another, the same is found.
* `Entry.files_remove`: where a file is removed, all but this file is found.
* `Proper.put_effect`, `Proper.remove_effect`: the same for a disk, of which no other file changes
  (`DiffersAt`).
-/

namespace StyleAudit.Disk

open StyleAudit.Path

/-! ### Names in order -/

section ByName

variable {β : Type}

theorem pairwise_byName (t : Table β) : (byName t).Pairwise fun a b => a.1 ≤ b.1 := by
  have hsorted : (byName t).Pairwise fun a b => decide (a.1 ≤ b.1) = true := by
    refine List.pairwise_mergeSort ?_ ?_ t
    · intro a b c hab hbc
      exact decide_eq_true (String.le_trans (of_decide_eq_true hab) (of_decide_eq_true hbc))
    · intro a b
      simpa using String.le_total a.1 b.1
  exact hsorted.imp of_decide_eq_true

theorem perm_byName (t : Table β) : (byName t).Perm t :=
  List.mergeSort_perm t _

theorem mem_byName {t : Table β} {e : String × β} : e ∈ byName t ↔ e ∈ t :=
  List.mem_mergeSort

@[simp] theorem byName_nil : byName ([] : Table β) = [] :=
  List.mergeSort_nil

@[simp] theorem byName_singleton (e : String × β) : byName [e] = [e] :=
  List.mergeSort_singleton e

/-- With distinct names, leaving entries out and bringing them into order may change places. -/
theorem byName_filter {t : Table β} (h : t.keys.Nodup) (q : String × β → Bool) :
    byName (t.filter q) = (byName t).filter q := by
  have hperm : (byName (t.filter q)).Perm ((byName t).filter q) :=
    (perm_byName _).trans ((perm_byName t).filter q).symm
  refine hperm.eq_of_pairwise ?_ (pairwise_byName _) ((pairwise_byName t).filter q)
  intro a b ha hb hab hba
  have hma : a ∈ t := List.mem_of_mem_filter (mem_byName.mp ha)
  have hmb : b ∈ t := mem_byName.mp (List.mem_of_mem_filter hb)
  exact List.inj_on_of_nodup_map h hma hmb (String.le_antisymm hab hba)

/-- With distinct names, no two entries that are left have one name. -/
theorem pairwise_ne_byName_filter {t : Table β} (h : t.keys.Nodup) (q : String × β → Bool) :
    (byName (t.filter q)).Pairwise fun a b => a.1 ≠ b.1 := by
  have hkeys : (Table.keys (t.filter q)).Nodup := h.sublist (List.filter_sublist.map _)
  exact List.pairwise_map.mp (((perm_byName _).map _).nodup_iff.mpr hkeys)

/-- Values may be changed before or after the entries are brought into order. -/
theorem byName_map {γ : Type} (t : Table β) (f : String × β → γ) :
    byName (t.map fun e => (e.1, f e)) = (byName t).map fun e => (e.1, f e) := by
  symm
  exact List.map_mergeSort fun a _ b _ => rfl

end ByName

/-! ### Files of a directory -/

/-- A file that is not hidden. -/
def isOwn (e : String × Entry) : Bool :=
  e.2.isFile && !isHidden e.1

/-- A directory that is looked into. -/
def isSub (e : String × Entry) : Bool :=
  !e.2.isFile && isEntered e.1

theorem filesBelow_eq (path : String) (es : Table Entry) :
    filesBelow path es = (es.filter isSub).map fun e => (e.1, e.2.files (join path e.1)) := by
  induction es with
  | nil => rfl
  | cons e es ih =>
    rw [filesBelow, fileGroup, ih, List.filter_cons]
    cases h : isSub e with
    | true => rw [isSub] at h; simp [h]
    | false => rw [isSub] at h; simp [h]

/-- The files of a directory by name, then those of its subdirectories by name. -/
theorem files_directory (path : String) (es : Table Entry) :
    (Entry.directory es).files path =
      (byName (es.filter isOwn)).map (fun e => join path e.1) ++
        (byName (es.filter isSub)).flatMap fun e => e.2.files (join path e.1) := by
  rw [Entry.files, filesBelow_eq, byName_map, List.flatMap_map]
  rfl

namespace Entry

variable {e : Entry} {pre names : List String} {bytes new : List UInt8}

/-- What discovery finds below a path is a file there, at a place of names. -/
theorem exists_of_mem_files (hp : e.Proper) (hpre : ∀ name ∈ pre, IsName name) {path : String}
    (h : path ∈ e.files (ofNames pre)) :
    ∃ names bytes, names ≠ [] ∧ (∀ name ∈ names, IsName name) ∧ path = ofNames (pre ++ names) ∧
      e.file? names = some bytes := by
  induction hp generalizing pre with
  | file bytes => cases h
  | @directory es hnodup hnames hbelow ih =>
    rw [files_directory, List.mem_append] at h
    rcases h with hown | hsub
    · obtain ⟨⟨name, sub⟩, hmem, rfl⟩ := List.mem_map.mp hown
      obtain ⟨hes, hown⟩ := List.mem_filter.mp (mem_byName.mp hmem)
      have hname := hnames _ hes
      cases sub with
      | directory es => cases hown
      | file bytes =>
        refine ⟨[name], bytes, List.cons_ne_nil _ _, by simpa using hname,
          join_ofNames_name hpre hname, ?_⟩
        rw [file?_cons, entries, Table.find?_of_mem hnodup hes]
        rfl
    · obtain ⟨⟨name, sub⟩, hmem, hfound⟩ := List.mem_flatMap.mp hsub
      obtain ⟨hes, _⟩ := List.mem_filter.mp (mem_byName.mp hmem)
      have hname := hnames _ hes
      simp only [join_ofNames_name hpre hname] at hfound
      have hpre' : ∀ n ∈ pre ++ [name], IsName n :=
        List.forall_mem_append.mpr ⟨hpre, by simpa using hname⟩
      obtain ⟨names, bytes, _, hnames', rfl, hfile⟩ := ih _ hes hpre' hfound
      refine ⟨name :: names, bytes, List.cons_ne_nil _ _,
        List.forall_mem_cons.mpr ⟨hname, hnames'⟩, by simp, ?_⟩
      rw [file?_cons, entries, Table.find?_of_mem hnodup hes]
      exact hfile

/-- What is found below an entry of a directory stands at a place through the name of the entry. -/
theorem exists_of_mem_files_below {a : String × Entry} (hp : a.2.Proper) (hname : IsName a.1)
    (hpre : ∀ name ∈ pre, IsName name) {path : String}
    (h : path ∈ a.2.files (join (ofNames pre) a.1)) :
    ∃ below, below ≠ [] ∧ (∀ n ∈ a.1 :: below, IsName n) ∧ path = ofNames (pre ++ a.1 :: below) := by
  rw [join_ofNames_name hpre hname] at h
  have hdown : ∀ n ∈ pre ++ [a.1], IsName n :=
    List.forall_mem_append.mpr ⟨hpre, by simpa using hname⟩
  obtain ⟨below, _, hne, hbelow, rfl, _⟩ := exists_of_mem_files hp hdown h
  exact ⟨below, hne, List.forall_mem_cons.mpr ⟨hname, hbelow⟩, by rw [← List.append_cons]⟩

/-- Paths below one place are equal only if the names from there are. -/
theorem eq_of_ofNames_append {names names' : List String} (hpre : ∀ name ∈ pre, IsName name)
    (h : ∀ name ∈ names, IsName name) (h' : ∀ name ∈ names', IsName name)
    (he : ofNames (pre ++ names) = ofNames (pre ++ names')) : names = names' :=
  List.append_cancel_left (ofNames_injective (List.forall_mem_append.mpr ⟨hpre, h⟩)
    (List.forall_mem_append.mpr ⟨hpre, h'⟩) he)

/-- Discovery finds no file twice. -/
theorem nodup_files (hp : e.Proper) (hpre : ∀ name ∈ pre, IsName name) :
    (e.files (ofNames pre)).Nodup := by
  induction hp generalizing pre with
  | file bytes => exact List.nodup_nil
  | @directory es hnodup hnames hbelow ih =>
    have hmem : ∀ {q : String × Entry → Bool} {a}, a ∈ byName (es.filter q) → a ∈ es := fun ha =>
      List.mem_of_mem_filter (mem_byName.mp ha)
    have hplace : ∀ a ∈ es, ∀ path ∈ a.2.files (join (ofNames pre) a.1), ∃ below, below ≠ [] ∧
        (∀ n ∈ a.1 :: below, IsName n) ∧ path = ofNames (pre ++ a.1 :: below) :=
      fun a ha _ hpath => exists_of_mem_files_below (hbelow a ha) (hnames a ha) hpre hpath
    rw [files_directory, List.nodup_append]
    refine ⟨?_, ?_, ?_⟩
    · refine List.pairwise_map.mpr
        ((pairwise_ne_byName_filter hnodup isOwn).imp_of_mem fun ha hb hne heq => hne ?_)
      have hna := hnames _ (hmem ha)
      have hnb := hnames _ (hmem hb)
      rw [join_ofNames_name hpre hna, join_ofNames_name hpre hnb] at heq
      simpa using eq_of_ofNames_append hpre (by simpa using hna) (by simpa using hnb) heq
    · rw [List.Nodup, List.pairwise_flatMap]
      constructor
      · intro a ha
        have hna := hnames a (hmem ha)
        rw [join_ofNames_name hpre hna]
        exact ih a (hmem ha) (List.forall_mem_append.mpr ⟨hpre, by simpa using hna⟩)
      · refine (pairwise_ne_byName_filter hnodup isSub).imp_of_mem ?_
        rintro a b ha hb hne path hpath _ hpath' rfl
        obtain ⟨below, _, hall, rfl⟩ := hplace a (hmem ha) _ hpath
        obtain ⟨below', _, hall', heq⟩ := hplace b (hmem hb) _ hpath'
        exact hne (List.cons.inj (eq_of_ofNames_append hpre hall hall' heq)).1
    -- A file of the directory stands one name below it, and what is found below at least two.
    · rintro path hown _ hsub rfl
      obtain ⟨a, ha, rfl⟩ := List.mem_map.mp hown
      obtain ⟨b, hb, hpath⟩ := List.mem_flatMap.mp hsub
      obtain ⟨below, hne, hall, heq⟩ := hplace b (hmem hb) _ hpath
      have hna := hnames a (hmem ha)
      rw [join_ofNames_name hpre hna] at heq
      have hsame := eq_of_ofNames_append hpre (by simpa using hna) hall heq
      exact hne (List.cons.inj hsame).2.symm

/-- If entries of a directory are changed, and what is found below each of them afterwards is what
`keep` leaves, then what is found in the directory is what `keep` leaves. -/
theorem files_map {es : Table Entry} {f : String × Entry → Entry} {path : String}
    {keep : String → Bool} (hfile : ∀ e ∈ es, (f e).isFile = e.2.isFile)
    (hown : ∀ e ∈ es, keep (join path e.1) = true)
    (hbelow : ∀ e ∈ es, (f e).files (join path e.1) = (e.2.files (join path e.1)).filter keep) :
    (directory (es.map fun e => (e.1, f e))).files path =
      ((directory es).files path).filter keep := by
  have hfilter : ∀ q : String × Entry → Bool, (∀ e ∈ es, q (e.1, f e) = q e) →
      (es.map fun e => (e.1, f e)).filter q = (es.filter q).map fun e => (e.1, f e) := by
    intro q hq
    rw [List.filter_map]
    exact congrArg _ (List.filter_congr hq)
  have hisOwn : ∀ e ∈ es, isOwn (e.1, f e) = isOwn e := by
    intro e he
    rw [isOwn, isOwn, hfile e he]
  have hisSub : ∀ e ∈ es, isSub (e.1, f e) = isSub e := by
    intro e he
    rw [isSub, isSub, hfile e he]
  rw [files_directory, files_directory, List.filter_append, hfilter isOwn hisOwn,
    hfilter isSub hisSub, byName_map, byName_map]
  congr 1
  · have hkept : ∀ found ∈ (byName (es.filter isOwn)).map (fun e => join path e.1),
        keep found = true := by
      intro found hfound
      obtain ⟨e, he, rfl⟩ := List.mem_map.mp hfound
      exact hown e (List.mem_of_mem_filter (mem_byName.mp he))
    rw [List.filter_eq_self.mpr hkept, List.map_map]
    rfl
  · rw [List.flatMap_map, List.filter_flatMap]
    refine List.flatMap_congr fun e he => ?_
    exact hbelow e (List.mem_of_mem_filter (mem_byName.mp he))

/-- `files_map` for the change of one entry. -/
theorem files_alter {es : Table Entry} (hnodup : es.keys.Nodup) {name : String} {sub : Entry}
    (hsub : es.find? name = some sub) {f : Entry → Entry} {path : String} {keep : String → Bool}
    (hfile : (f sub).isFile = sub.isFile) (hown : ∀ e ∈ es, keep (join path e.1) = true)
    (hbelow : (f sub).files (join path name) = (sub.files (join path name)).filter keep)
    (hother : ∀ e ∈ es, e.1 ≠ name → ∀ found ∈ e.2.files (join path e.1), keep found = true)
    (d : Entry) :
    (directory (es.alter name d f)).files path = ((directory es).files path).filter keep := by
  have heq : ∀ e ∈ es, e.1 = name → e.2 = sub := by
    rintro ⟨_, sub'⟩ he rfl
    exact Option.some.inj ((Table.find?_of_mem hnodup he).symm.trans hsub)
  rw [Table.alter_eq_map hnodup (Table.mem_keys_of_find? hsub)]
  refine files_map (fun e he => ?_) hown fun e he => ?_
  · by_cases hname : e.1 = name
    · rw [if_pos hname, heq e he hname, hfile]
    · rw [if_neg hname]
  · by_cases hname : e.1 = name
    · rw [if_pos hname, heq e he hname, hname, hbelow]
    · rw [if_neg hname, List.filter_eq_self.mpr (hother e he hname)]

/-- What is found if a file of a directory is left out. -/
theorem files_filter_ne {es : Table Entry} (hnodup : es.keys.Nodup) {name : String}
    (hsub : es.find? name = some (.file bytes)) {path : String} {keep : String → Bool}
    (hown : ∀ e ∈ es, keep (join path e.1) = (e.1 != name))
    (hother : ∀ e ∈ es, e.1 ≠ name → ∀ found ∈ e.2.files (join path e.1), keep found = true) :
    (directory (es.filter (·.1 != name))).files path = ((directory es).files path).filter keep := by
  have hsubs : ∀ e ∈ es.filter isSub, e.1 ≠ name := by
    rintro ⟨_, sub⟩ he rfl
    obtain ⟨hmem, hissub⟩ := List.mem_filter.mp he
    cases (Table.find?_of_mem hnodup hmem).symm.trans hsub
    cases hissub
  rw [files_directory, files_directory, List.filter_append, List.filter_comm,
    List.filter_comm isSub]
  congr 1
  · have hownNodup : (Table.keys (es.filter isOwn)).Nodup :=
      hnodup.sublist (List.filter_sublist.map _)
    rw [byName_filter hownNodup, List.filter_map]
    refine congrArg _ (List.filter_congr fun e he => ?_)
    exact (hown e (List.mem_of_mem_filter (mem_byName.mp he))).symm
  · have hkept : ∀ found ∈ (byName (es.filter isSub)).flatMap (fun e => e.2.files (join path e.1)),
        keep found = true := by
      intro found hfound
      obtain ⟨e, he, hfound⟩ := List.mem_flatMap.mp hfound
      have hmem := mem_byName.mp he
      exact hother e (List.mem_of_mem_filter hmem) (hsubs e hmem) found hfound
    rw [List.filter_eq_self.mpr hkept, List.filter_eq_self.mpr]
    exact fun e he => bne_iff_ne.mpr (hsubs e he)

/-- Where one file is put in the place of another, discovery finds the same. -/
theorem files_put (hp : e.Proper) (h : e.file? names = some bytes) (path : String) :
    (put (.file new) names e).files path = e.files path := by
  induction names generalizing e path with
  | nil =>
    cases e with
    | directory es => cases h
    | file bytes => rfl
  | cons name names ih =>
    obtain ⟨es, sub, rfl, hsub, hfile⟩ := exists_of_file?_cons h
    cases hp with
    | directory hnodup _ hbelow =>
      have hproper : sub.Proper := hbelow _ (Table.mem_of_find? hsub)
      have hall : ∀ l : List String, l.filter (fun _ => true) = l := fun l => by simp
      rw [put_cons, files_alter hnodup hsub (isFile_put hfile) (fun _ _ => rfl)
        (by rw [ih hproper hfile, hall]) (fun _ _ _ _ _ => rfl), hall]

/-- Where a file is removed, discovery finds all but this file. -/
theorem files_remove (hp : e.Proper) (hpre : ∀ name ∈ pre, IsName name) (hne : names ≠ [])
    (hnames : ∀ name ∈ names, IsName name) (h : e.file? names = some bytes) :
    (e.remove names).files (ofNames pre) =
      (e.files (ofNames pre)).filter (· != ofNames (pre ++ names)) := by
  induction names generalizing e pre with
  | nil => exact absurd rfl hne
  | cons name names ih =>
    obtain ⟨es, sub, rfl, hsub, hfile⟩ := exists_of_file?_cons h
    have hmem := Table.mem_of_find? hsub
    cases hp with
    | directory hnodup hesnames hbelow =>
      have hname := hnames name List.mem_cons_self
      -- The paths of two places are equal only if the places are.
      have hdiffers : ∀ {below : List String}, (∀ n ∈ below, IsName n) → below ≠ name :: names →
          (ofNames (pre ++ below) != ofNames (pre ++ name :: names)) = true := by
        intro below hnames' hbelow
        rw [bne_iff_ne]
        exact fun heq => hbelow (eq_of_ofNames_append hpre hnames' hnames heq)
      have hother : ∀ e ∈ es, e.1 ≠ name → ∀ found ∈ e.2.files (join (ofNames pre) e.1),
          (found != ofNames (pre ++ name :: names)) = true := by
        intro e he hename found hfound
        obtain ⟨below, _, hnames', rfl⟩ :=
          exists_of_mem_files_below (hbelow e he) (hesnames e he) hpre hfound
        exact hdiffers hnames' (by simp [hename])
      cases names with
      | nil =>
        cases sub with
        | directory es => cases hfile
        | file bytes =>
          have hown : ∀ e ∈ es,
              (join (ofNames pre) e.1 != ofNames (pre ++ [name])) = (e.1 != name) := by
            intro e he
            have hen := hesnames e he
            rw [join_ofNames_name hpre hen]
            by_cases hename : e.1 = name
            · simp [hename]
            · rw [hdiffers (by simpa using hen) (by simpa using hename), bne_iff_ne.mpr hename]
          exact files_filter_ne hnodup hsub hown hother
      | cons next names =>
        have hown : ∀ e ∈ es,
            (join (ofNames pre) e.1 != ofNames (pre ++ name :: next :: names)) = true := by
          intro e he
          have hen := hesnames e he
          rw [join_ofNames_name hpre hen]
          exact hdiffers (by simpa using hen) (by simp)
        have hpre' : ∀ n ∈ pre ++ [name], IsName n :=
          List.forall_mem_append.mpr ⟨hpre, by simpa using hname⟩
        have hrest := ih (hbelow _ hmem) hpre' (List.cons_ne_nil _ _)
          (fun n hn => hnames n (List.mem_cons_of_mem name hn)) hfile
        rw [remove_cons (List.cons_ne_nil _ _) hsub]
        refine files_alter hnodup hsub (isFile_remove (List.cons_ne_nil _ _) hfile) hown ?_ hother _
        rw [join_ofNames_name hpre hname]
        simpa using hrest

end Entry

/-! ### Files below a directory of a disk -/

/-- The category of a file is told by its name. -/
theorem Category.ofPath?_congr {path path' : String} (h : Path.name path = Path.name path') :
    Category.ofPath? path = Category.ofPath? path' := by
  have hsuffix : suffix path = suffix path' := by rw [suffix, suffix, h]
  rw [ofPath?, ofPath?, hsuffix]

/-- The files in and below a directory. -/
def found (d : Disk) (base : String) : List String :=
  ((d.locate (real d.cwd base)).toOption.map (·.files (real d.cwd base))).getD []

theorem collect_eq (d : Disk) (base : String) :
    d.collect base =
      ⟨(d.found base).filter (Category.ofPath? · == some .style),
        (d.found base).filter (Category.ofPath? · == some .markup)⟩ := by
  unfold collect found
  dsimp only
  cases d.locate (real d.cwd base) with
  | error cause => rfl
  | ok e => rfl

theorem styles_collect (d : Disk) (base : String) :
    (d.collect base).styles = (d.found base).filter (Category.ofPath? · == some .style) := by
  rw [collect_eq]

theorem mem_styles_collect {d : Disk} {base path : String} :
    path ∈ (d.collect base).styles ↔
      path ∈ d.found base ∧ Category.ofPath? path = some .style := by
  rw [collect_eq, List.mem_filter, beq_iff_eq]

theorem mem_markups_collect {d : Disk} {base path : String} :
    path ∈ (d.collect base).markups ↔
      path ∈ d.found base ∧ Category.ofPath? path = some .markup := by
  rw [collect_eq, List.mem_filter, beq_iff_eq]

/-- A file is not found under two categories. -/
theorem ne_of_mem_category {paths : List String} {path other : String} {c c' : Category}
    (hpath : Category.ofPath? path = some c) (hc : c ≠ c')
    (hother : other ∈ paths.filter (Category.ofPath? · == some c')) : other ≠ path := by
  obtain ⟨_, hcat⟩ := List.mem_filter.mp hother
  rintro rfl
  exact hc (Option.some.inj (hpath.symm.trans (beq_iff_eq.mp hcat)))

section Found

variable {d : Disk} {base path : String} {pre : List String}

theorem Proper.found_eq (hp : d.Proper) (hpre : ∀ name ∈ pre, IsName name)
    (hbase : real d.cwd base = ofNames pre) :
    d.found base = ((d.tree.at? pre).map (·.files (ofNames pre))).getD [] := by
  rw [found, hbase, hp.toOption_locate hpre]

/-- A file that is found stands at a place below that of the directory. -/
theorem Proper.exists_of_mem_found (hp : d.Proper) (hpre : ∀ name ∈ pre, IsName name)
    (hbase : real d.cwd base = ofNames pre) (h : path ∈ d.found base) :
    ∃ e names bytes, d.tree.at? pre = some e ∧ names ≠ [] ∧ (∀ name ∈ names, IsName name) ∧
      path = ofNames (pre ++ names) ∧ e.file? names = some bytes := by
  rw [hp.found_eq hpre hbase] at h
  cases hat : d.tree.at? pre with
  | none =>
    rw [hat] at h
    cases h
  | some e =>
    rw [hat] at h
    obtain ⟨names, bytes, hne, hnames, hpath, hfile⟩ :=
      Entry.exists_of_mem_files (hp.tree.of_at? hat) hpre h
    exact ⟨e, names, bytes, rfl, hne, hnames, hpath, hfile⟩

theorem Proper.nodup_found (hp : d.Proper) (base : String) : (d.found base).Nodup := by
  obtain ⟨pre, hpre, hbase⟩ := exists_real_eq_ofNames hp.cwd base
  rw [hp.found_eq hpre hbase]
  cases hat : d.tree.at? pre with
  | none => exact List.nodup_nil
  | some e => exact Entry.nodup_files (hp.tree.of_at? hat) hpre

/-- Files that are found have distinct ways from the directory. -/
theorem Proper.nodup_relative_found (hp : d.Proper) (base : String) :
    ((d.found base).map fun path => relative d.cwd path (real d.cwd base)).Nodup := by
  obtain ⟨pre, hpre, hbase⟩ := exists_real_eq_ofNames hp.cwd base
  refine (hp.nodup_found base).map_on fun path hpath path' hpath' heq => ?_
  obtain ⟨_, names, _, _, hne, hnames, rfl, _⟩ := hp.exists_of_mem_found hpre hbase hpath
  obtain ⟨_, names', _, _, hne', hnames', rfl, _⟩ := hp.exists_of_mem_found hpre hbase hpath'
  rw [hbase, relative_ofNames _ hpre hne hnames, relative_ofNames _ hpre hne' hnames'] at heq
  rw [intercalate_injective hne hne' hnames hnames' heq]

/-! ### Changing a file that is found -/

/-- The second disk is the first one, except perhaps for the file at a path. -/
structure DiffersAt (d : Disk) (path : String) (d' : Disk) : Prop where
  proper : d'.Proper
  cwd : d'.cwd = d.cwd
  file : ∀ names, (∀ name ∈ names, IsName name) → ofNames names ≠ path →
    d'.tree.file? names = d.tree.file? names

/-- Another file that is found is read as before. -/
theorem DiffersAt.read_eq {d' : Disk} (h : d.DiffersAt path d') (hp : d.Proper) {other : String}
    (hother : other ∈ d.found base) (hne : other ≠ path) : d'.read other = d.read other := by
  obtain ⟨pre, hpre, hbase⟩ := exists_real_eq_ofNames hp.cwd base
  obtain ⟨e, names, bytes, hat, _, hnames, rfl, hfile⟩ := hp.exists_of_mem_found hpre hbase hother
  have hall := List.forall_mem_append.mpr ⟨hpre, hnames⟩
  have hbytes : d.tree.file? (pre ++ names) = some bytes := by rw [Entry.file?_append hat, hfile]
  rw [h.proper.read_ofNames hall ((h.file _ hall hne).trans hbytes), hp.read_ofNames hall hbytes]

theorem remove_ofNames (d : Disk) {names : List String} (h : ∀ name ∈ names, IsName name) :
    d.remove (ofNames names) = { d with tree := d.tree.remove names } := by
  rw [remove, place_ofNames d h]

theorem put_ofNames (d : Disk) {names : List String} (h : ∀ name ∈ names, IsName name) (e : Entry) :
    d.put (ofNames names) e = { d with tree := Entry.put e names d.tree } := by
  rw [put, place_ofNames d h]

/-- To remove a file that is found changes nothing else, and it is not found any more. -/
theorem Proper.remove_effect (hp : d.Proper) (h : path ∈ d.found base) :
    d.DiffersAt path (d.remove path) ∧
      (d.remove path).found base = (d.found base).filter (· != path) := by
  obtain ⟨pre, hpre, hbase⟩ := exists_real_eq_ofNames hp.cwd base
  obtain ⟨e, names, bytes, hat, hne, hnames, rfl, hfile⟩ := hp.exists_of_mem_found hpre hbase h
  have hall := List.forall_mem_append.mpr ⟨hpre, hnames⟩
  have hplace : pre ++ names ≠ [] := by simp [hne]
  have hwhole : d.tree.file? (pre ++ names) = some bytes := by rw [Entry.file?_append hat, hfile]
  have hproper : Proper { d with tree := d.tree.remove (pre ++ names) } :=
    { isDirectory := (Entry.isFile_remove hplace hwhole).trans hp.isDirectory
      tree := hp.tree.remove hplace hwhole
      cwd := hp.cwd }
  rw [remove_ofNames d hall]
  constructor
  · refine ⟨hproper, rfl, fun other _ hother => ?_⟩
    rw [Entry.file?_remove hplace hwhole, if_neg fun heq => hother (by rw [heq])]
  · rw [hproper.found_eq hpre hbase, Entry.at?_remove hne hat, hp.found_eq hpre hbase, hat]
    exact Entry.files_remove (hp.tree.of_at? hat) hpre hne hnames hfile

/-- To put a file in the place of one that is found changes nothing else, and it is found. -/
theorem Proper.put_effect (hp : d.Proper) (h : path ∈ d.found base) (new : List UInt8) :
    d.DiffersAt path (d.put path (.file new)) ∧
      (d.put path (.file new)).found base = d.found base ∧
      (d.put path (.file new)).read path = .ok (Text.ofBytes new) := by
  obtain ⟨pre, hpre, hbase⟩ := exists_real_eq_ofNames hp.cwd base
  obtain ⟨e, names, bytes, hat, hne, hnames, rfl, hfile⟩ := hp.exists_of_mem_found hpre hbase h
  have hall := List.forall_mem_append.mpr ⟨hpre, hnames⟩
  have hwhole : d.tree.file? (pre ++ names) = some bytes := by rw [Entry.file?_append hat, hfile]
  have hproper : Proper { d with tree := Entry.put (.file new) (pre ++ names) d.tree } :=
    { isDirectory := (Entry.isFile_put hwhole).trans hp.isDirectory
      tree := hp.tree.put hwhole
      cwd := hp.cwd }
  rw [put_ofNames d hall]
  refine ⟨⟨hproper, rfl, fun other _ hother => ?_⟩, ?_, ?_⟩
  · rw [Entry.file?_put hwhole, if_neg fun heq => hother (by rw [heq])]
  · rw [hproper.found_eq hpre hbase, Entry.at?_put hat, hp.found_eq hpre hbase, hat]
    exact Entry.files_put (hp.tree.of_at? hat) hfile (ofNames pre)
  · refine hproper.read_ofNames hall ?_
    rw [Entry.file?_put hwhole, if_pos rfl]

end Found

end StyleAudit.Disk
