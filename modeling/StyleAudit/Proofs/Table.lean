import Mathlib.Data.List.Basic
import Mathlib.Data.List.Nodup
import StyleAudit.Table

/-!
# What tables and lists of names hold

A table is looked at through `find?`, through its keys and through its entries, a list of names
through its members.  This file says what each operation does to these views, so that later files
never open a table:

* `Table.find?_alter`: altering a key changes what is found under that key and nothing else.
* `Table.mem_part_alter`: if the change adds to a list of names, it adds under that key alone.
* `Table.mem_keys_putNew`: putting a new key adds that key.
* `mem_addNames`: adding names is the union.
* `Table.keys_alter`, `Table.keys_put`: a key that is written is added to the keys, which stay
  distinct.
* `Table.keys_ofList`, `Table.find?_ofList`: in the table of a list of assignments each key has the
  place of its first assignment and the value of its last one.
-/

namespace StyleAudit

namespace Table

variable {β : Type}

/-! ### Looking up a key -/

@[simp] theorem find?_nil (key : String) : Table.find? ([] : Table β) key = none := rfl

theorem find?_cons (e : String × β) (t : Table β) (key : String) :
    Table.find? (e :: t) key = if key = e.1 then some e.2 else t.find? key := by
  obtain ⟨k, b⟩ := e
  by_cases h : key = k
  · subst h; simp [Table.find?]
  · have hne : (key == k) = false := by simpa using h
    simp [Table.find?, List.lookup_cons, hne, h]

theorem mem_of_find? {t : Table β} {key : String} {b : β} (h : t.find? key = some b) :
    (key, b) ∈ t := by
  induction t with
  | nil => simp at h
  | cons e t ih =>
    rw [find?_cons] at h
    by_cases hk : key = e.1
    · rw [if_pos hk] at h
      subst hk
      rw [← Option.some.inj h]
      exact List.mem_cons_self
    · rw [if_neg hk] at h
      exact List.mem_cons_of_mem e (ih h)

theorem exists_find? {t : Table β} {key : String} (h : key ∈ t.keys) :
    ∃ b, t.find? key = some b := by
  induction t with
  | nil => simp [keys] at h
  | cons e t ih =>
    rw [find?_cons]
    by_cases hk : key = e.1
    · exact ⟨e.2, if_pos hk⟩
    · rw [if_neg hk]
      rcases List.mem_cons.mp h with he | hm
      · exact absurd he hk
      · exact ih hm

theorem mem_keys_of_find? {t : Table β} {key : String} {b : β} (h : t.find? key = some b) :
    key ∈ t.keys :=
  List.mem_map_of_mem (mem_of_find? h)

theorem contains_iff_mem_keys {t : Table β} {key : String} :
    t.contains key = true ↔ key ∈ t.keys := by
  rw [contains, Option.isSome_iff_exists]
  exact ⟨fun ⟨_, h⟩ => mem_keys_of_find? h, exists_find?⟩

/-! ### Altering the value of a key -/

theorem find?_alter (t : Table β) (key k : String) (d : β) (f : β → β) :
    (t.alter key d f).find? k =
      if k = key then some (f ((t.find? key).getD d)) else t.find? k := by
  induction t with
  | nil => rw [alter, find?_cons]; rfl
  | cons e t ih =>
    obtain ⟨k', b⟩ := e
    rw [alter]
    by_cases h : k' = key
    · subst h
      rw [if_pos (by simp), find?_cons, find?_cons, find?_cons]
      by_cases hk : k = k'
      · simp [hk]
      · simp [hk]
    · rw [if_neg (by simpa using h), find?_cons, find?_cons, find?_cons, ih]
      rw [if_neg (fun he => h he.symm : ¬ key = k')]
      by_cases hk : k = k'
      · rw [if_pos hk, if_pos hk, if_neg (fun he => h (hk.symm.trans he))]
      · rw [if_neg hk, if_neg hk]

theorem find?_alter_self (t : Table β) (key : String) (d : β) (f : β → β) :
    (t.alter key d f).find? key = some (f ((t.find? key).getD d)) := by
  rw [find?_alter, if_pos rfl]

theorem find?_alter_of_ne (t : Table β) {key k : String} (d : β) (f : β → β) (h : k ≠ key) :
    (t.alter key d f).find? k = t.find? k := by
  rw [find?_alter, if_neg h]

/-- If `f` adds to a list of names that is part of each value, altering a key with `f` adds to the
part under that key alone. -/
theorem mem_part_alter (part : β → List String) {f : β → β} {x : String} {P : Prop}
    (hf : ∀ b, x ∈ part (f b) ↔ x ∈ part b ∨ P) (t : Table β) (key k : String) (d : β) :
    x ∈ part (((t.alter key d f).find? k).getD d) ↔
      x ∈ part ((t.find? k).getD d) ∨ k = key ∧ P := by
  by_cases h : k = key
  · subst h
    rw [find?_alter_self, Option.getD_some, hf]
    simp
  · rw [find?_alter_of_ne t d f h]
    simp [h]

/-- An entry after `alter` was there before, or is the new one. -/
theorem mem_alter {t : Table β} {key : String} {d : β} {f : β → β} {e : String × β}
    (h : e ∈ t.alter key d f) : e ∈ t ∨ ∃ b, e = (key, f b) := by
  induction t with
  | nil => exact Or.inr ⟨d, by simpa [alter] using h⟩
  | cons a t ih =>
    obtain ⟨k', b⟩ := a
    rw [alter] at h
    by_cases hk : k' = key
    · rw [if_pos (by simpa using hk)] at h
      rcases List.mem_cons.mp h with he | hm
      · exact Or.inr ⟨b, by rw [he, hk]⟩
      · exact Or.inl (List.mem_cons_of_mem _ hm)
    · rw [if_neg (by simpa using hk)] at h
      rcases List.mem_cons.mp h with he | hm
      · exact Or.inl (he ▸ List.mem_cons_self)
      · rcases ih hm with hm | hb
        · exact Or.inl (List.mem_cons_of_mem _ hm)
        · exact Or.inr hb

/-- What is true of all entries stays true if it holds of the entry that `alter` writes. -/
theorem forall_mem_alter {t : Table β} {P : String × β → Prop} (h : ∀ e ∈ t, P e) {key : String}
    {d : β} {f : β → β} (hd : P (key, f d)) (hf : ∀ b, P (key, b) → P (key, f b)) :
    ∀ e ∈ t.alter key d f, P e := by
  induction t with
  | nil => simpa [alter] using hd
  | cons a t ih =>
    obtain ⟨k, b⟩ := a
    obtain ⟨ha, ht⟩ := List.forall_mem_cons.mp h
    rw [alter]
    by_cases hk : k = key
    · subst hk
      rw [if_pos (by simp)]
      exact List.forall_mem_cons.mpr ⟨hf b ha, ht⟩
    · rw [if_neg (by simpa using hk)]
      exact List.forall_mem_cons.mpr ⟨ha, ih ht⟩

/-! ### Adding a key -/

theorem mem_keys_putNew {t : Table β} {key k : String} {b : β} :
    k ∈ (t.putNew key b).keys ↔ k ∈ t.keys ∨ k = key := by
  rw [putNew]
  by_cases h : t.contains key = true
  · rw [if_pos h]
    refine ⟨Or.inl, ?_⟩
    rintro (hk | rfl)
    · exact hk
    · exact contains_iff_mem_keys.mp h
  · rw [if_neg h, keys, List.map_append, List.mem_append]
    simp [keys]

theorem putNew_sublist (t : Table β) (key : String) (b : β) :
    (t.putNew key b).Sublist (t ++ [(key, b)]) := by
  rw [putNew]
  split
  · exact List.sublist_append_left _ _
  · exact List.Sublist.refl _

theorem nodup_keys_putNew {t : Table β} (h : t.keys.Nodup) (key : String) (b : β) :
    (t.putNew key b).keys.Nodup := by
  rw [putNew]
  split
  · exact h
  · rename_i hnew
    have hkey : key ∉ t.keys := by rwa [contains_iff_mem_keys] at hnew
    rw [keys, List.map_append, List.nodup_append]
    refine ⟨h, by simp, fun k hk k' hk' heq => hkey ?_⟩
    obtain rfl : k' = key := by simpa using hk'
    rwa [← heq]

end Table

/-! ### Lists of names -/

theorem mem_addName {names : List String} {name x : String} :
    x ∈ addName names name ↔ x ∈ names ∨ x = name := by
  rw [addName]
  by_cases h : names.contains name = true
  · rw [if_pos h]
    refine ⟨Or.inl, ?_⟩
    rintro (hx | rfl)
    · exact hx
    · simpa using h
  · rw [if_neg h, List.mem_append, List.mem_singleton]

theorem mem_addNames {names more : List String} {x : String} :
    x ∈ addNames names more ↔ x ∈ names ∨ x ∈ more := by
  rw [addNames]
  induction more generalizing names with
  | nil => simp
  | cons name more ih =>
    rw [List.foldl_cons, ih, mem_addName, List.mem_cons, or_assoc]

theorem addName_ne_nil (names : List String) (name : String) : addName names name ≠ [] :=
  List.ne_nil_of_mem (mem_addName.mpr (Or.inr rfl))

theorem nodup_addName {names : List String} (h : names.Nodup) (name : String) :
    (addName names name).Nodup := by
  rw [addName]
  split
  · exact h
  · rename_i hname
    have hnew : name ∉ names := by simpa using hname
    rw [List.nodup_append_comm]
    exact List.nodup_cons.mpr ⟨hnew, h⟩

/-- Names that are new and distinct are added at the end. -/
theorem addNames_eq_append {names more : List String} (h : (names ++ more).Nodup) :
    addNames names more = names ++ more := by
  rw [addNames]
  induction more generalizing names with
  | nil => simp
  | cons name more ih =>
    have hnew : name ∉ names := fun hname =>
      (List.nodup_append.mp h).2.2 name hname name List.mem_cons_self rfl
    have hadd : addName names name = names ++ [name] := by simp [addName, hnew]
    rw [List.append_cons] at h
    rw [List.foldl_cons, hadd, ih h, ← List.append_cons]

theorem addNames_addName (names more : List String) (name : String) :
    addNames names (addName more name) = addName (addNames names more) name := by
  by_cases h : name ∈ more
  · have hmore : addName more name = more := by simp [addName, h]
    have hadded : name ∈ addNames names more := mem_addNames.mpr (Or.inr h)
    have hall : addName (addNames names more) name = addNames names more := by
      simp [addName, hadded]
    rw [hmore, hall]
  · have hmore : addName more name = more ++ [name] := by simp [addName, h]
    rw [hmore, addNames, addNames, List.foldl_append]
    rfl

/-! ### Keys -/

namespace Table

variable {β : Type}

theorem keys_alter (t : Table β) (key : String) (d : β) (f : β → β) :
    (t.alter key d f).keys = addName t.keys key := by
  induction t with
  | nil => rfl
  | cons e t ih =>
    obtain ⟨k, b⟩ := e
    rw [alter]
    by_cases h : k = key
    · simp [h, keys, addName]
    · have hne : ¬ key = k := fun he => h he.symm
      rw [if_neg (by simpa using h)]
      change k :: Table.keys (alter t key d f) = addName (k :: Table.keys t) key
      rw [ih, addName, addName]
      by_cases hm : key ∈ Table.keys t
      · simp [hm]
      · simp [hm, hne]

theorem mem_keys_alter {t : Table β} {key k : String} {d : β} {f : β → β} :
    k ∈ (t.alter key d f).keys ↔ k ∈ t.keys ∨ k = key := by
  rw [keys_alter, mem_addName]

theorem nodup_keys_alter {t : Table β} (h : t.keys.Nodup) (key : String) (d : β) (f : β → β) :
    (t.alter key d f).keys.Nodup := by
  rw [keys_alter]
  exact nodup_addName h key

/-- To put a value is to alter whatever is there into that value. -/
theorem put_eq_alter (t : Table β) (key : String) (b : β) :
    t.put key b = t.alter key b fun _ => b := by
  induction t with
  | nil => rfl
  | cons e t ih => rw [put, alter, ih]

theorem keys_put (t : Table β) (key : String) (b : β) : (t.put key b).keys = addName t.keys key := by
  rw [put_eq_alter, keys_alter]

theorem find?_put (t : Table β) (key k : String) (b : β) :
    (t.put key b).find? k = if k = key then some b else t.find? k := by
  rw [put_eq_alter, find?_alter]

/-- In a table of distinct keys an entry is what is found under its key. -/
theorem find?_of_mem {t : Table β} (h : t.keys.Nodup) {key : String} {b : β} (hm : (key, b) ∈ t) :
    t.find? key = some b := by
  induction t with
  | nil => exact absurd hm List.not_mem_nil
  | cons e t ih =>
    obtain ⟨hnew, hnodup⟩ := List.nodup_cons.mp h
    rw [find?_cons]
    rcases List.mem_cons.mp hm with rfl | hm
    · exact if_pos rfl
    · rw [if_neg, ih hnodup hm]
      rintro rfl
      exact hnew (List.mem_map.mpr ⟨_, hm, rfl⟩)

/-- In a table of distinct keys altering a key that is there changes its entry and no other. -/
theorem alter_eq_map {t : Table β} (h : t.keys.Nodup) {key : String} (hkey : key ∈ t.keys) (d : β)
    (f : β → β) : t.alter key d f = t.map fun e => (e.1, if e.1 = key then f e.2 else e.2) := by
  induction t with
  | nil => exact absurd hkey List.not_mem_nil
  | cons e t ih =>
    obtain ⟨k, b⟩ := e
    obtain ⟨hnew, hnodup⟩ := List.nodup_cons.mp h
    rw [alter, List.map_cons]
    by_cases hk : k = key
    · subst hk
      have hrest : ∀ e ∈ t, (e.1, if e.1 = k then f e.2 else e.2) = e := by
        intro e he
        rw [if_neg]
        rintro rfl
        exact hnew (List.mem_map.mpr ⟨e, he, rfl⟩)
      rw [if_pos (by simp), if_pos rfl, List.map_congr_left hrest, List.map_id']
    · have hmem : key ∈ Table.keys t := (List.mem_cons.mp hkey).resolve_left fun he => hk he.symm
      rw [if_neg (by simpa using hk), if_neg hk, ih hnodup hmem]

theorem alter_of_notMem {t : Table β} {key : String} (h : key ∉ t.keys) (d : β) (f : β → β) :
    t.alter key d f = t ++ [(key, f d)] := by
  induction t with
  | nil => rfl
  | cons e t ih =>
    obtain ⟨k, b⟩ := e
    obtain ⟨hne, hnew⟩ := not_or.mp fun hmem => h (List.mem_cons.mpr hmem)
    rw [alter, if_neg (by simpa using fun he : k = key => hne he.symm), ih hnew, List.cons_append]

theorem alter_append_last {t : Table β} {key : String} (h : key ∉ t.keys) (b d : β) (f : β → β) :
    Table.alter (t ++ [(key, b)]) key d f = t ++ [(key, f b)] := by
  induction t with
  | nil => simp [alter]
  | cons e t ih =>
    obtain ⟨k, b'⟩ := e
    obtain ⟨hne, hnew⟩ := not_or.mp fun hmem => h (List.mem_cons.mpr hmem)
    rw [List.cons_append, alter, if_neg (by simpa using fun he : k = key => hne he.symm), ih hnew,
      List.cons_append]

theorem alter_alter (t : Table β) (key : String) (d : β) (f g : β → β) :
    (t.alter key d f).alter key d g = t.alter key d fun b => g (f b) := by
  induction t with
  | nil => simp [alter]
  | cons e t ih =>
    obtain ⟨k, b⟩ := e
    by_cases h : k = key
    · simp [alter, h]
    · have hk : (k == key) = false := by simpa using h
      simp [alter, hk, ih]

/-- A key that is there may be altered before or after another key. -/
theorem alter_comm {t : Table β} {key k : String} (hkey : key ∈ t.keys) (hne : key ≠ k) (d e : β)
    (f g : β → β) : (t.alter k e g).alter key d f = (t.alter key d f).alter k e g := by
  induction t with
  | nil => exact absurd hkey List.not_mem_nil
  | cons a t ih =>
    obtain ⟨k', b⟩ := a
    by_cases h : k' = key
    · subst h
      have hk : (k' == k) = false := by simpa using hne
      simp [alter, hk]
    · have hkey' : (k' == key) = false := by simpa using h
      have hmem : key ∈ Table.keys t := (List.mem_cons.mp hkey).resolve_left fun he => h he.symm
      by_cases hk : k' = k
      · simp [alter, hk, hne.symm]
      · have hk' : (k' == k) = false := by simpa using hk
        simp [alter, hkey', hk', ih hmem]

/-! ### Tables of assignments -/

theorem keys_ofList (assignments : List (String × β)) :
    (ofList assignments).keys = addNames [] (assignments.map Prod.fst) := by
  suffices h : ∀ t : Table β, (assignments.foldl (fun t a => t.put a.1 a.2) t).keys =
      addNames t.keys (assignments.map Prod.fst) from h []
  induction assignments with
  | nil => exact fun _ => rfl
  | cons a assignments ih =>
    intro t
    rw [List.foldl_cons, ih, keys_put]
    rfl

theorem find?_append (s t : Table β) (key : String) :
    Table.find? (s ++ t) key = (s.find? key).or (t.find? key) := by
  induction s with
  | nil => rfl
  | cons e s ih =>
    rw [List.cons_append, find?_cons, find?_cons, ih]
    split <;> rfl

theorem find?_ofList (assignments : List (String × β)) (key : String) :
    (ofList assignments).find? key = Table.find? assignments.reverse key := by
  suffices h : ∀ t : Table β, (assignments.foldl (fun t a => t.put a.1 a.2) t).find? key =
      (Table.find? assignments.reverse key).or (t.find? key) from (h []).trans Option.or_none
  induction assignments with
  | nil => exact fun _ => rfl
  | cons a assignments ih =>
    intro t
    rw [List.foldl_cons, ih, find?_put, List.reverse_cons, find?_append, Option.or_assoc,
      find?_cons]
    split <;> rfl

/-- Assignments to distinct keys are the table. -/
theorem ofList_eq_self {assignments : List (String × β)}
    (h : (assignments.map Prod.fst).Nodup) : ofList assignments = assignments := by
  suffices hfold : ∀ t : Table β, (t.keys ++ assignments.map Prod.fst).Nodup →
      assignments.foldl (fun t a => t.put a.1 a.2) t = t ++ assignments from hfold [] h
  induction assignments with
  | nil => exact fun t _ => (List.append_nil t).symm
  | cons a assignments ih =>
    intro t ht
    have hnew : a.1 ∉ t.keys := fun ha =>
      (List.nodup_append.mp ht).2.2 a.1 ha a.1 List.mem_cons_self rfl
    rw [List.map_cons, List.append_cons] at ht
    rw [List.foldl_cons, put_eq_alter, alter_of_notMem hnew]
    refine (ih (List.nodup_cons.mp h).2 (t ++ [a]) ?_).trans (List.append_cons t a _).symm
    rwa [keys, List.map_append]

theorem find?_filter_ne (t : Table β) (key k : String) :
    Table.find? (t.filter (·.1 != key)) k = if k = key then none else t.find? k := by
  induction t with
  | nil => simp
  | cons e t ih =>
    rw [List.filter_cons]
    by_cases he : e.1 = key
    · rw [if_neg (by simpa using he), ih, find?_cons]
      by_cases hk : k = key
      · rw [if_pos hk, if_pos hk]
      · rw [if_neg hk, if_neg hk, if_neg fun h => hk (h.trans he)]
    · rw [if_pos (by simpa using he), find?_cons, ih, find?_cons]
      by_cases hk : k = e.1
      · rw [if_pos hk, if_neg fun h => he (hk.symm.trans h), if_pos hk]
      · rw [if_neg hk, if_neg hk]

end Table

end StyleAudit
