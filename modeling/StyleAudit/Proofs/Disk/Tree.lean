import Mathlib.Data.List.Basic
import StyleAudit.Disk.Discovery
import StyleAudit.Proofs.Path
import StyleAudit.Proofs.Table

/-!
# Trees of files

A tree is looked at through the files at its places, a place being a list of names (`Entry.file?`).
A tree is proper if the entries of each directory have distinct names.

* `Entry.file?_put`, `Entry.file?_remove`: putting a file in the place of another and removing a
  file change that place alone.
* `Entry.at?_put`, `Entry.at?_remove`: a change below an entry is a change of the entry.
* `Entry.at?_put_of_apart`, `Entry.at?_remove_of_apart`: whatever is put or removed, no entry changes
  whose place is neither on the way nor below.
* `Entry.Proper.put`, `Entry.Proper.remove`: proper trees stay proper.
* `Proper.toOption_locate`: on a disk with a proper tree a path of names leads to the entry at its
  place.
-/

namespace StyleAudit.Disk

open StyleAudit.Path

namespace Entry

/-- A file with a text of plain characters. -/
def ofText (text : String) : Entry :=
  .file (text.toList.map fun c => c.toNat.toUInt8)

/-! ### Following names -/

/-- In every directory of the tree the entries have names, which are distinct. -/
inductive Proper : Entry → Prop
  | file (bytes : List UInt8) : Proper (.file bytes)
  | directory {es : Table Entry} (nodup : es.keys.Nodup) (names : ∀ e ∈ es, IsName e.1)
      (below : ∀ e ∈ es, Proper e.2) : Proper (.directory es)

/-- The entry at a place. -/
def at? : Entry → List String → Option Entry
  | e, [] => some e
  | e, name :: names => (e.entries.find? name).bind fun sub => at? sub names

/-- The bytes of the file at a place. -/
def file? (e : Entry) (names : List String) : Option (List UInt8) :=
  match e.at? names with
  | some (.file bytes) => some bytes
  | _ => none

theorem file?_cons (e : Entry) (name : String) (names : List String) :
    e.file? (name :: names) = (e.entries.find? name).bind (·.file? names) := by
  rw [file?, at?]
  cases e.entries.find? name <;> rfl

/-- What leads to an entry leads through a directory. -/
theorem exists_of_at?_cons {e sub : Entry} {name : String} {names : List String}
    (h : e.at? (name :: names) = some sub) :
    ∃ es next, e = .directory es ∧ Table.find? es name = some next ∧ next.at? names = some sub := by
  obtain ⟨next, hnext, hsub⟩ := Option.bind_eq_some_iff.mp h
  cases e with
  | file bytes => cases hnext
  | directory es => exact ⟨es, next, rfl, hnext, hsub⟩

theorem exists_of_file?_cons {e : Entry} {name : String} {names : List String} {bytes : List UInt8}
    (h : e.file? (name :: names) = some bytes) :
    ∃ es sub, e = .directory es ∧ Table.find? es name = some sub ∧
      sub.file? names = some bytes := by
  rw [file?_cons] at h
  obtain ⟨sub, hsub, hfile⟩ := Option.bind_eq_some_iff.mp h
  cases e with
  | file bytes => cases hsub
  | directory es => exact ⟨es, sub, rfl, hsub, hfile⟩

end Entry

/-- Following names through a tree ends at the entry at their place. -/
theorem toOption_follow {names : List String} (h : ∀ name ∈ names, IsName name) (above : List Entry)
    (e : Entry) : (follow above e names).toOption = e.at? names := by
  induction names generalizing above e with
  | nil => rfl
  | cons name names ih =>
    obtain ⟨hempty, hdot, hdots, _⟩ := h name List.mem_cons_self
    have hrest := ih fun n hn => h n (List.mem_cons_of_mem name hn)
    cases e with
    | file bytes => rfl
    | directory es =>
      simp only [follow, Entry.at?, Entry.entries, String.isEmpty_iff, hempty, hdot, hdots,
        beq_iff_eq, Bool.or_eq_true, or_self, if_false]
      cases Table.find? es name with
      | none => rfl
      | some sub => exact hrest _ _

/-! ### Changing one file -/

namespace Entry

variable {e : Entry} {names : List String} {bytes new : List UInt8}

theorem put_cons (es : Table Entry) (name : String) :
    put (.file new) (name :: names) (.directory es) =
      .directory (es.alter name (.directory []) (put (.file new) names)) := rfl

theorem remove_singleton (es : Table Entry) (name : String) :
    remove [name] (.directory es) = .directory (es.filter (·.1 != name)) := rfl

theorem remove_cons (hne : names ≠ []) {es : Table Entry} {name : String} {sub : Entry}
    (hsub : es.find? name = some sub) :
    remove (name :: names) (.directory es) =
      .directory (es.alter name (.directory []) (remove names)) := by
  cases names with
  | nil => exact absurd rfl hne
  | cons next names => simp only [remove, entries, hsub]

/-- A file that is put in the place of another is there, and all others stay. -/
theorem file?_put (h : e.file? names = some bytes) (other : List String) :
    (put (.file new) names e).file? other = if other = names then some new else e.file? other := by
  induction names generalizing e other with
  | nil =>
    cases e with
    | directory es => cases h
    | file bytes => cases other <;> rfl
  | cons name names ih =>
    obtain ⟨es, sub, rfl, hsub, hfile⟩ := exists_of_file?_cons h
    cases other with
    | nil => rfl
    | cons name' other =>
      rw [put_cons, file?_cons, file?_cons, entries, entries, Table.find?_alter, hsub]
      by_cases hname : name' = name
      · subst hname
        simpa [hsub] using ih hfile other
      · simp [hname]

/-- A file that is removed is gone, and all others stay. -/
theorem file?_remove (hne : names ≠ []) (h : e.file? names = some bytes) (other : List String) :
    (e.remove names).file? other = if other = names then none else e.file? other := by
  induction names generalizing e other with
  | nil => exact absurd rfl hne
  | cons name names ih =>
    obtain ⟨es, sub, rfl, hsub, hfile⟩ := exists_of_file?_cons h
    cases other with
    | nil =>
      cases names with
      | nil => rfl
      | cons next names => rw [remove_cons (List.cons_ne_nil _ _) hsub]; rfl
    | cons name' other =>
      cases names with
      | nil =>
        rw [remove_singleton, file?_cons, file?_cons, entries, entries, Table.find?_filter_ne]
        by_cases hname : name' = name
        · subst hname
          cases sub with
          | directory es => cases hfile
          | file bytes => cases other <;> simp [hsub, file?_cons, entries]
        · simp [hname]
      | cons next names =>
        rw [remove_cons (List.cons_ne_nil _ _) hsub, file?_cons, file?_cons, entries, entries,
          Table.find?_alter, hsub]
        by_cases hname : name' = name
        · subst hname
          simpa [hsub] using ih (List.cons_ne_nil _ _) hfile other
        · simp [hname]

/-! ### Changes below an entry -/

theorem at?_put {pre : List String} {sub : Entry} (h : e.at? pre = some sub) :
    (put (.file new) (pre ++ names) e).at? pre = some (put (.file new) names sub) := by
  induction pre generalizing e with
  | nil =>
    cases h
    rfl
  | cons name pre ih =>
    obtain ⟨es, next, rfl, hnext, hsub⟩ := exists_of_at?_cons h
    rw [List.cons_append, put_cons, at?, entries, Table.find?_alter_self, hnext]
    exact ih hsub

theorem at?_remove (hne : names ≠ []) {pre : List String} {sub : Entry}
    (h : e.at? pre = some sub) : (e.remove (pre ++ names)).at? pre = some (sub.remove names) := by
  induction pre generalizing e with
  | nil =>
    cases h
    rfl
  | cons name pre ih =>
    obtain ⟨es, next, rfl, hnext, hsub⟩ := exists_of_at?_cons h
    have hrest : pre ++ names ≠ [] := by simp [hne]
    rw [List.cons_append, remove_cons hrest hnext, at?, entries, Table.find?_alter_self, hnext]
    exact ih hsub

/-! ### Changes apart from an entry -/

/-- Neither of the two places is on the way to the other. -/
def Apart (names other : List String) : Prop :=
  ¬ names <+: other ∧ ¬ other <+: names

instance (names other : List String) : Decidable (Apart names other) :=
  inferInstanceAs (Decidable (_ ∧ _))

theorem Apart.append (pre : List String) {other : List String} (h : Apart names other) :
    Apart (pre ++ names) (pre ++ other) := by
  simpa only [Apart, List.prefix_append_right_inj] using h

theorem Apart.tail {name : String} {other : List String} (h : Apart (name :: names) (name :: other)) :
    Apart names other := by
  simpa only [Apart, List.prefix_cons_inj] using h

theorem Apart.ne_nil {other : List String} (h : Apart names other) : names ≠ [] ∧ other ≠ [] := by
  constructor
  · rintro rfl
    exact h.1 List.nil_prefix
  · rintro rfl
    exact h.2 List.nil_prefix

theorem at?_empty (hne : names ≠ []) : (Entry.directory []).at? names = none := by
  cases names with
  | nil => exact absurd rfl hne
  | cons name names => rfl

theorem at?_put_of_apart {sub : Entry} {other : List String} (h : Apart names other) :
    (put sub names e).at? other = e.at? other := by
  induction names generalizing e other with
  | nil => exact absurd rfl h.ne_nil.1
  | cons name names ih =>
    cases other with
    | nil => exact absurd rfl h.ne_nil.2
    | cons name' other =>
      rw [put, at?, at?, entries, Table.find?_alter]
      by_cases hname : name' = name
      · subst hname
        rw [if_pos rfl, Option.bind_some, ih h.tail]
        cases e.entries.find? name' with
        | none => exact at?_empty h.tail.ne_nil.2
        | some next => rfl
      · rw [if_neg hname]

theorem at?_remove_of_apart {other : List String} (h : Apart names other) :
    (e.remove names).at? other = e.at? other := by
  induction names generalizing e other with
  | nil => exact absurd rfl h.ne_nil.1
  | cons name names ih =>
    cases other with
    | nil => exact absurd rfl h.ne_nil.2
    | cons name' other =>
      cases names with
      | nil =>
        have hname : name' ≠ name := by
          rintro rfl
          exact h.tail.ne_nil.1 rfl
        rw [remove, at?, at?, entries, Table.find?_filter_ne, if_neg hname]
      | cons next names =>
        cases hsub : e.entries.find? name with
        | none => simp only [remove, hsub]
        | some sub =>
          simp only [remove, hsub]
          rw [at?, at?, entries, Table.find?_alter, hsub]
          by_cases hname : name' = name
          · subst hname
            rw [if_pos rfl, hsub]
            exact ih h.tail
          · rw [if_neg hname]

theorem isFile_put (h : e.file? names = some bytes) :
    (put (.file new) names e).isFile = e.isFile := by
  cases names with
  | nil =>
    cases e with
    | directory es => cases h
    | file bytes => rfl
  | cons name names =>
    obtain ⟨es, sub, rfl, _, _⟩ := exists_of_file?_cons h
    rfl

theorem isFile_remove (hne : names ≠ []) (h : e.file? names = some bytes) :
    (e.remove names).isFile = e.isFile := by
  cases names with
  | nil => exact absurd rfl hne
  | cons name names =>
    obtain ⟨es, sub, rfl, hsub, _⟩ := exists_of_file?_cons h
    cases names with
    | nil => rfl
    | cons next names => rw [remove_cons (List.cons_ne_nil _ _) hsub]; rfl

/-! ### Proper trees stay proper -/

/-- A proper tree with a proper entry changed into a proper one. -/
theorem Proper.alter {es : Table Entry} (h : Proper (.directory es)) {name : String} {sub : Entry}
    (hsub : es.find? name = some sub) {f : Entry → Entry} (hf : sub.Proper → (f sub).Proper)
    (d : Entry) : Proper (.directory (es.alter name d f)) := by
  cases h with
  | directory hnodup hnames hbelow =>
    have hmem := Table.mem_of_find? hsub
    rw [Table.alter_eq_map hnodup (Table.mem_keys_of_find? hsub)]
    refine .directory ?_ ?_ ?_
    · simpa [Table.keys, Function.comp_def] using hnodup
    · intro e he
      obtain ⟨e', he', rfl⟩ := List.mem_map.mp he
      exact hnames e' he'
    · intro e he
      obtain ⟨⟨name', sub'⟩, hmem', rfl⟩ := List.mem_map.mp he
      by_cases hname : name' = name
      · subst hname
        have hfind := Table.find?_of_mem hnodup hmem'
        obtain rfl : sub = sub' := Option.some.inj (hsub.symm.trans hfind)
        simpa using hf (hbelow _ hmem')
      · simpa [hname] using hbelow _ hmem'

theorem Proper.put (hp : e.Proper) (h : e.file? names = some bytes) :
    (put (.file new) names e).Proper := by
  induction names generalizing e with
  | nil => exact .file new
  | cons name names ih =>
    obtain ⟨es, sub, rfl, hsub, hfile⟩ := exists_of_file?_cons h
    exact hp.alter hsub (fun hproper => ih hproper hfile) _

theorem Proper.remove (hp : e.Proper) (hne : names ≠ []) (h : e.file? names = some bytes) :
    (e.remove names).Proper := by
  induction names generalizing e with
  | nil => exact absurd rfl hne
  | cons name names ih =>
    obtain ⟨es, sub, rfl, hsub, hfile⟩ := exists_of_file?_cons h
    cases names with
    | nil =>
      cases hp with
      | directory hnodup hnames hbelow =>
        refine .directory ?_ ?_ ?_
        · exact hnodup.sublist (List.filter_sublist.map _)
        · exact fun e he => hnames e (List.mem_of_mem_filter he)
        · exact fun e he => hbelow e (List.mem_of_mem_filter he)
    | cons next names =>
      rw [remove_cons (List.cons_ne_nil _ _) hsub]
      exact hp.alter hsub (fun hproper => ih hproper (List.cons_ne_nil _ _) hfile) _

/-- What lies below an entry of a proper tree is proper. -/
theorem Proper.of_at? (hp : e.Proper) {pre : List String} {sub : Entry} (h : e.at? pre = some sub) :
    sub.Proper := by
  induction pre generalizing e with
  | nil =>
    cases h
    exact hp
  | cons name pre ih =>
    obtain ⟨es, next, rfl, hnext, hsub⟩ := exists_of_at?_cons h
    cases hp with
    | directory _ _ hbelow => exact ih (hbelow _ (Table.mem_of_find? hnext)) hsub

theorem file?_append {pre : List String} {sub : Entry} (h : e.at? pre = some sub) :
    e.file? (pre ++ names) = sub.file? names := by
  induction pre generalizing e with
  | nil =>
    cases h
    rfl
  | cons name pre ih =>
    obtain ⟨es, next, rfl, hnext, hsub⟩ := exists_of_at?_cons h
    rw [List.cons_append, file?_cons, entries, hnext]
    exact ih hsub

end Entry

/-! ### Disks -/

/-- The tree of the disk is a proper directory, and the working directory is absolute. -/
structure Proper (d : Disk) : Prop where
  isDirectory : d.tree.isFile = false
  tree : d.tree.Proper
  cwd : isAbsolute d.cwd = true

section Names

variable {d : Disk} {names : List String}

theorem toOption_locate (hdir : d.tree.isFile = false) (h : ∀ name ∈ names, IsName name) :
    (d.locate (ofNames names)).toOption = d.tree.at? names := by
  have hfollow := toOption_follow h [] d.tree
  rw [locate, join_of_absolute (isAbsolute_ofNames names), ← hfollow]
  cases htree : d.tree with
  | file bytes =>
    rw [htree] at hdir
    cases hdir
  | directory es =>
    cases names with
    | nil => rfl
    | cons name names =>
      rw [components_ofNames (List.cons_ne_nil _ _) h]
      rfl

theorem Proper.toOption_locate (hp : d.Proper) (h : ∀ name ∈ names, IsName name) :
    (d.locate (ofNames names)).toOption = d.tree.at? names :=
  Disk.toOption_locate hp.isDirectory h

theorem Proper.isFile_ofNames (hp : d.Proper) (h : ∀ name ∈ names, IsName name) :
    d.isFile (ofNames names) = (d.tree.file? names).isSome := by
  have hlocate := hp.toOption_locate h
  rw [isFile, Entry.file?, ← hlocate]
  cases d.locate (ofNames names) with
  | error cause => rfl
  | ok e => cases e <;> rfl

theorem Proper.read_ofNames (hp : d.Proper) (h : ∀ name ∈ names, IsName name) {bytes : List UInt8}
    (hfile : d.tree.file? names = some bytes) :
    d.read (ofNames names) = .ok (Text.ofBytes bytes) := by
  have hlocate := hp.toOption_locate h
  rw [Entry.file?, ← hlocate] at hfile
  rw [read]
  cases hl : d.locate (ofNames names) with
  | error cause =>
    rw [hl] at hfile
    cases hfile
  | ok e =>
    rw [hl] at hfile
    cases e with
    | directory es => cases hfile
    | file bytes' =>
      cases hfile
      rfl

theorem place_ofNames (d : Disk) (h : ∀ name ∈ names, IsName name) :
    d.place (ofNames names) = names := by
  rw [place, real_ofNames d.cwd h, filled_components_ofNames h]

end Names

end StyleAudit.Disk
