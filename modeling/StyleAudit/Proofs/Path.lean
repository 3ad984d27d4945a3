import Mathlib.Data.List.Basic
import StyleAudit.Path

/-!
# Names and paths

An absolute path in normal form is a list of names with a slash before each of them (`ofNames`), and
nothing is lost by looking at the list alone:

* `components_ofNames`: the components of such a path are its names.
* `join_ofNames`: to join a name to such a path is to add it to the list.
* `exists_real_eq_ofNames`: every place, seen from an absolute directory, is such a path.
* `relative_ofNames`: the way to a place below a directory is the names between them.

Of any path, also of one that is not in normal form, `normal_join_tidy` says that it does not matter
whether the directory that it is taken from is tidied before.
-/

namespace StyleAudit

namespace Text

/-! ### Pieces between marks -/

variable {p : Char → Bool}

theorem splitWhere_of_none {cs : List Char} (h : ∀ c ∈ cs, p c = false) :
    splitWhere p cs = [cs] := by
  induction cs with
  | nil => rfl
  | cons c cs ih =>
    rw [splitWhere, h c List.mem_cons_self, ih fun c' hc' => h c' (List.mem_cons_of_mem c hc')]
    rfl

theorem splitWhere_cons_of_false {c : Char} (h : p c = false) (cs : List Char) :
    splitWhere p (c :: cs) = (c :: (splitWhere p cs).headD []) :: (splitWhere p cs).tail := by
  rw [splitWhere, h]
  cases splitWhere p cs with
  | nil => rfl
  | cons piece pieces => rfl

theorem splitWhere_ne_nil (cs : List Char) : splitWhere p cs ≠ [] := by
  cases cs with
  | nil => exact List.cons_ne_nil _ _
  | cons c cs =>
    by_cases h : p c = true
    · rw [splitWhere, if_pos h]
      exact List.cons_ne_nil _ _
    · rw [splitWhere_cons_of_false (Bool.eq_false_iff.mpr h)]
      exact List.cons_ne_nil _ _

/-- A mark stands between two pieces. -/
theorem splitWhere_append_mark {mark : Char} (hmark : p mark = true) (cs rest : List Char) :
    splitWhere p (cs ++ mark :: rest) = splitWhere p cs ++ splitWhere p rest := by
  induction cs with
  | nil =>
    rw [List.nil_append, splitWhere.eq_2, if_pos hmark]
    rfl
  | cons c cs ih =>
    by_cases h : p c = true
    · rw [List.cons_append, splitWhere, splitWhere, if_pos h, if_pos h, ih, List.cons_append]
    · obtain ⟨piece, pieces, hsplit⟩ := List.exists_cons_of_ne_nil (splitWhere_ne_nil (p := p) cs)
      have hc := Bool.eq_false_iff.mpr h
      rw [List.cons_append, splitWhere_cons_of_false hc, splitWhere_cons_of_false hc, ih, hsplit]
      rfl

theorem splitWhere_append {cs : List Char} (h : ∀ c ∈ cs, p c = false) {mark : Char}
    (hmark : p mark = true) (rest : List Char) :
    splitWhere p (cs ++ mark :: rest) = cs :: splitWhere p rest := by
  rw [splitWhere_append_mark hmark, splitWhere_of_none h]
  rfl

/-- No piece holds a mark. -/
theorem splitWhere_pieces {cs piece : List Char} (h : piece ∈ splitWhere p cs) :
    ∀ c ∈ piece, p c = false := by
  induction cs generalizing piece with
  | nil => simp [splitWhere] at h; simp [h]
  | cons c cs ih =>
    rw [splitWhere] at h
    by_cases hc : p c = true
    · rw [if_pos hc] at h
      rcases List.mem_cons.mp h with rfl | h
      · simp
      · exact ih h
    · rw [if_neg hc] at h
      split at h
      · obtain rfl : piece = [c] := by simpa using h
        simpa using hc
      · rename_i front pieces hsplit
        rcases List.mem_cons.mp h with rfl | h
        · intro c' hc'
          rcases List.mem_cons.mp hc' with rfl | hc'
          · simpa using hc
          · exact ih (by rw [hsplit]; exact List.mem_cons_self) c' hc'
        · exact ih (by rw [hsplit]; exact List.mem_cons_of_mem _ h)

/-- Pieces without marks, joined by marks, are found again. -/
theorem splitWhere_intercalate {mark : Char} (hmark : p mark = true) {pieces : List (List Char)}
    (hne : pieces ≠ []) (h : ∀ piece ∈ pieces, ∀ c ∈ piece, p c = false) :
    splitWhere p ([mark].intercalate pieces) = pieces := by
  induction pieces with
  | nil => exact absurd rfl hne
  | cons piece pieces ih =>
    cases pieces with
    | nil =>
      rw [List.intercalate_singleton]
      exact splitWhere_of_none (h piece List.mem_cons_self)
    | cons next pieces =>
      rw [List.intercalate_cons_cons, List.append_assoc, List.singleton_append,
        splitWhere_append (h piece List.mem_cons_self) hmark,
        ih (List.cons_ne_nil _ _) fun q hq => h q (List.mem_cons_of_mem piece hq)]

end Text

namespace Path

open Text

/-- What an entry of a directory can be called. -/
structure IsName (name : String) : Prop where
  ne_empty : name ≠ ""
  ne_dot : name ≠ "."
  ne_dots : name ≠ ".."
  no_slash : '/' ∉ name.toList

instance (name : String) : Decidable (IsName name) :=
  decidable_of_iff (name ≠ "" ∧ name ≠ "." ∧ name ≠ ".." ∧ '/' ∉ name.toList)
    ⟨fun ⟨h₁, h₂, h₃, h₄⟩ => ⟨h₁, h₂, h₃, h₄⟩, fun ⟨h₁, h₂, h₃, h₄⟩ => ⟨h₁, h₂, h₃, h₄⟩⟩

/-- The absolute path through the given names. -/
def ofNames (names : List String) : String :=
  "/" ++ String.intercalate "/" names

theorem isAbsolute_ofNames (names : List String) : isAbsolute (ofNames names) = true := by
  simp [isAbsolute, ofNames]

/-! ### Components -/

theorem slash_notMem_of_mem_components {path part : String} (h : part ∈ components path) :
    '/' ∉ part.toList := by
  obtain ⟨piece, hpiece, rfl⟩ := List.mem_map.mp h
  intro hslash
  rw [String.toList_ofList] at hslash
  simpa using splitWhere_pieces hpiece '/' hslash

theorem components_intercalate {parts : List String} (hne : parts ≠ [])
    (h : ∀ part ∈ parts, '/' ∉ part.toList) :
    components (String.intercalate "/" parts) = parts := by
  have hpieces : ∀ piece ∈ parts.map String.toList, ∀ c ∈ piece, (c == '/') = false := by
    intro piece hpiece c hc
    obtain ⟨part, hpart, rfl⟩ := List.mem_map.mp hpiece
    rw [beq_eq_false_iff_ne]
    rintro rfl
    exact h part hpart hc
  have hslash : ('/' == '/') = true := by decide
  have hsplit := splitWhere_intercalate (p := (· == '/')) hslash (by simpa using hne) hpieces
  rw [components, String.toList_intercalate]
  change (splitWhere _ (['/'].intercalate _)).map String.ofList = parts
  rw [hsplit]
  simp

/-- The components of an absolute path are its names, after the empty one before the first slash. -/
theorem components_ofNames {names : List String} (hne : names ≠ [])
    (h : ∀ name ∈ names, IsName name) : components (ofNames names) = "" :: names := by
  have hrest := components_intercalate hne fun name hn => (h name hn).no_slash
  rw [components] at hrest
  rw [components, ofNames, String.toList_append]
  change (splitWhere _ ([] ++ '/' :: (String.intercalate "/" names).toList)).map String.ofList = _
  rw [splitWhere_append (by simp) (by decide), List.map_cons, hrest]

theorem filter_components_ofNames {names : List String} (h : ∀ name ∈ names, IsName name)
    {q : String → Bool} (hempty : q "" = false) (hq : ∀ name ∈ names, q name = true) :
    (components (ofNames names)).filter q = names := by
  cases names with
  | nil => simp [ofNames, components, splitWhere, hempty]
  | cons name names =>
    rw [components_ofNames (List.cons_ne_nil _ _) h, List.filter_cons_of_neg (by simp [hempty]),
      List.filter_eq_self.mpr hq]

theorem filled_components_ofNames {names : List String} (h : ∀ name ∈ names, IsName name) :
    (components (ofNames names)).filter (! ·.isEmpty) = names :=
  filter_components_ofNames h rfl fun name hn => by simpa using (h name hn).ne_empty

theorem plain_components_ofNames {names : List String} (h : ∀ name ∈ names, IsName name) :
    (components (ofNames names)).filter (fun p => !p.isEmpty && p != ".") = names :=
  filter_components_ofNames h rfl fun name hn => by simp [(h name hn).ne_empty, (h name hn).ne_dot]

theorem ofNames_injective {names names' : List String} (h : ∀ name ∈ names, IsName name)
    (h' : ∀ name ∈ names', IsName name) (he : ofNames names = ofNames names') : names = names' := by
  rw [← filled_components_ofNames h, he, filled_components_ofNames h']

/-! ### Joining names -/

/-- Components in a row begin with no slash. -/
theorem head?_intercalate_ne_of_parts {parts : List String}
    (h : ∀ part ∈ parts, part ≠ "" ∧ '/' ∉ part.toList) :
    (String.intercalate "/" parts).toList.head? ≠ some '/' := by
  cases parts with
  | nil => decide
  | cons part parts =>
    obtain ⟨hempty, hslash⟩ := h part List.mem_cons_self
    have hchars : part.toList ≠ [] := by simpa using hempty
    obtain ⟨c, cs, hcs⟩ := List.exists_cons_of_ne_nil hchars
    have hc : c ≠ '/' := by
      rintro rfl
      exact hslash (by rw [hcs]; exact List.mem_cons_self)
    cases parts with
    | nil => simp [hcs, hc]
    | cons next parts => simp [String.intercalate_cons_cons, hcs, hc]

theorem head?_intercalate_ne {names : List String} (h : ∀ name ∈ names, IsName name) :
    (String.intercalate "/" names).toList.head? ≠ some '/' :=
  head?_intercalate_ne_of_parts fun name hn => ⟨(h name hn).ne_empty, (h name hn).no_slash⟩

/-- A path ends as its last name. -/
theorem exists_ofNames_concat (names : List String) (last : String) :
    ∃ front, ofNames (names ++ [last]) = front ++ last := by
  cases names with
  | nil => exact ⟨"/", by simp [ofNames]⟩
  | cons name names =>
    refine ⟨ofNames (name :: names) ++ "/", ?_⟩
    rw [ofNames, String.intercalate_append_of_ne_nil (List.cons_ne_nil _ _) (List.cons_ne_nil _ _),
      String.intercalate_singleton, ofNames]
    simp only [String.append_assoc]

theorem getLast?_ofNames_ne {names : List String} (hne : names ≠ [])
    (h : ∀ name ∈ names, IsName name) : (ofNames names).toList.getLast? ≠ some '/' := by
  obtain ⟨front, last, rfl⟩ := (List.eq_nil_or_concat' names).resolve_left hne
  obtain ⟨before, hbefore⟩ := exists_ofNames_concat front last
  obtain ⟨hempty, _, _, hslash⟩ := h last (by simp)
  have hchars : last.toList ≠ [] := by simpa using hempty
  rw [hbefore, String.toList_append, List.getLast?_append_of_ne_nil _ hchars]
  exact fun hlast => hslash (List.mem_of_getLast? hlast)

/-- Names joined to a path are added to its names. -/
theorem join_ofNames {names parts : List String} (h : ∀ name ∈ names, IsName name)
    (hne : parts ≠ []) (hparts : ∀ part ∈ parts, IsName part) :
    join (ofNames names) (String.intercalate "/" parts) = ofNames (names ++ parts) := by
  rw [join, if_neg (by simpa [isAbsolute] using head?_intercalate_ne hparts)]
  cases names with
  | nil => rfl
  | cons name names =>
    have hlast := getLast?_ofNames_ne (List.cons_ne_nil _ _) h
    have hempty : (ofNames (name :: names)).isEmpty = false := by simp [ofNames]
    rw [if_neg (by simp [hempty, hlast]), ofNames, ofNames,
      String.intercalate_append_of_ne_nil (List.cons_ne_nil _ _) hne]
    simp only [String.append_assoc]

theorem join_ofNames_name {names : List String} (h : ∀ name ∈ names, IsName name) {name : String}
    (hname : IsName name) : join (ofNames names) name = ofNames (names ++ [name]) := by
  have hjoin := join_ofNames h (List.cons_ne_nil name []) (by simpa using hname)
  rwa [String.intercalate_singleton] at hjoin

theorem join_of_absolute {directory path : String} (h : isAbsolute path = true) :
    join directory path = path := by
  rw [join, if_pos h]

/-! ### Normal forms -/

theorem rootText_slash {text : String} (h : text.toList.head? ≠ some '/') :
    rootText ("/" ++ text) = "/" := by
  have hchars : ("/" ++ text).toList = '/' :: text.toList := by simp
  rw [rootText, hchars]
  cases hc : text.toList with
  | nil => rfl
  | cons c cs =>
    rw [hc] at h
    simp at h
    simp [h]

theorem rootText_slashes {text : String} (h : text.toList.head? ≠ some '/') :
    rootText ("//" ++ text) = "//" := by
  have hchars : ("//" ++ text).toList = '/' :: '/' :: text.toList := by simp
  rw [rootText, hchars]
  cases hc : text.toList with
  | nil => rfl
  | cons c cs =>
    rw [hc] at h
    simp at h
    simp [h]

theorem tidy_ofNames {names : List String} (h : ∀ name ∈ names, IsName name) :
    tidy (ofNames names) = ofNames names := by
  rw [tidy, plain_components_ofNames h, ofNames, rootText_slash (head?_intercalate_ne h)]
  simp [ofComponents]

theorem foldl_pushComponent_names {absolute : Bool} {names : List String}
    (h : ∀ name ∈ names, IsName name) (parts : List String) :
    names.foldl (pushComponent absolute) parts = names.reverse ++ parts := by
  induction names generalizing parts with
  | nil => rfl
  | cons name names ih =>
    obtain ⟨hempty, hdot, hdots, _⟩ := h name List.mem_cons_self
    have hpush : pushComponent absolute parts name = name :: parts := by
      simp [pushComponent, hempty, hdot, hdots]
    rw [List.foldl_cons, hpush, ih fun n hn => h n (List.mem_cons_of_mem name hn)]
    simp

/-- A component without slashes that is pushed on names below a root leaves names. -/
theorem isName_pushComponent {part : String} (hpart : '/' ∉ part.toList) {parts : List String}
    (h : ∀ p ∈ parts, IsName p) : ∀ p ∈ pushComponent true parts part, IsName p := by
  by_cases hplain : part = "" ∨ part = "."
  · simpa [pushComponent, hplain] using h
  · obtain ⟨hempty, hdot⟩ := not_or.mp hplain
    by_cases hdots : part = ".."
    · cases parts with
      | nil => simp [pushComponent, hdots]
      | cons p above =>
        have hp : p ≠ ".." := (h p List.mem_cons_self).ne_dots
        simpa [pushComponent, hdots, hp] using fun q hq => h q (List.mem_cons_of_mem p hq)
    · simpa [pushComponent, hempty, hdot, hdots] using ⟨⟨hempty, hdot, hdots, hpart⟩, h⟩

theorem normal_ofNames {names : List String} (h : ∀ name ∈ names, IsName name) :
    normal (ofNames names) = ofNames names := by
  have hparts : ((components (ofNames names)).foldl (pushComponent true) []).reverse = names := by
    cases names with
    | nil => rfl
    | cons name names =>
      rw [components_ofNames (List.cons_ne_nil _ _) h, List.foldl_cons]
      change (List.foldl _ [] _).reverse = _
      rw [foldl_pushComponent_names h, List.append_nil, List.reverse_reverse]
  rw [normal, isAbsolute_ofNames, hparts]
  rw [ofNames, rootText_slash (head?_intercalate_ne h)]
  simp [ofComponents]

theorem real_ofNames (cwd : String) {names : List String} (h : ∀ name ∈ names, IsName name) :
    real cwd (ofNames names) = ofNames names := by
  rw [real, absolute, join_of_absolute (isAbsolute_ofNames names), normal_ofNames h, ofNames,
    rootText_slash (head?_intercalate_ne h)]
  rfl

theorem isAbsolute_join {cwd : String} (h : isAbsolute cwd = true) (path : String) :
    isAbsolute (join cwd path) = true := by
  have hhead : cwd.toList.head? = some '/' := by simpa [isAbsolute] using h
  rw [join]
  split
  · assumption
  · split <;> simp [isAbsolute, List.head?_append, hhead]

theorem rootText_of_absolute {path : String} (h : isAbsolute path = true) :
    rootText path = "/" ∨ rootText path = "//" := by
  have hhead : path.toList.head? = some '/' := by simpa [isAbsolute] using h
  rw [rootText]
  split
  · exact Or.inl rfl
  · exact Or.inr rfl
  · exact Or.inl rfl
  · rename_i hnone
    obtain ⟨cs, hcs⟩ := List.head?_eq_some_iff.mp hhead
    exact absurd hcs (hnone cs)

/-- **Every place is a path of names**, seen from an absolute directory. -/
theorem exists_real_eq_ofNames {cwd : String} (h : isAbsolute cwd = true) (path : String) :
    ∃ names, (∀ name ∈ names, IsName name) ∧ real cwd path = ofNames names := by
  have habs := isAbsolute_join h path
  let parts := (components (join cwd path)).foldl (pushComponent true) []
  have hparts : ∀ part ∈ parts, IsName part := by
    refine List.foldlRecOn (motive := fun parts => ∀ part ∈ parts, IsName part) _ _ (by simp) ?_
    intro parts hnames part hpart
    exact isName_pushComponent (slash_notMem_of_mem_components hpart) hnames
  have hnames : ∀ name ∈ parts.reverse, IsName name :=
    fun name hn => hparts name (List.mem_reverse.mp hn)
  have hhead := head?_intercalate_ne hnames
  have hnormal : absolute cwd path = ofComponents (rootText (join cwd path)) parts.reverse := by
    rw [absolute, normal, habs]
  refine ⟨parts.reverse, hnames, ?_⟩
  -- Of two slashes at the front the first one is dropped.
  rcases rootText_of_absolute habs with hroot | hroot
  · have hfull : absolute cwd path = ofNames parts.reverse := by
      rw [hnormal, hroot]
      simp [ofComponents, ofNames]
    rw [real, hfull, ofNames, rootText_slash hhead]
    rfl
  · have hfull : absolute cwd path = "//" ++ String.intercalate "/" parts.reverse := by
      rw [hnormal, hroot]
      simp [ofComponents]
    rw [real, hfull, rootText_slashes hhead, ofNames, ← String.toList_inj]
    simp

/-! ### Ways between places -/

theorem dropCommon_append (front rest : List String) :
    dropCommon front (front ++ rest) = ([], rest) := by
  induction front with
  | nil => cases rest <;> rfl
  | cons name front ih => rw [List.cons_append, dropCommon, if_pos (beq_self_eq_true name), ih]

/-- The way down from a directory to a place below it. -/
theorem relative_ofNames (cwd : String) {pre names : List String}
    (hpre : ∀ name ∈ pre, IsName name) (hne : names ≠ []) (h : ∀ name ∈ names, IsName name) :
    relative cwd (ofNames (pre ++ names)) (ofNames pre) = String.intercalate "/" names := by
  have hparts : ∀ {ns : List String}, (∀ name ∈ ns, IsName name) →
      (components (absolute cwd (ofNames ns))).filter (! ·.isEmpty) = ns := by
    intro ns hns
    rw [absolute, join_of_absolute (isAbsolute_ofNames ns), normal_ofNames hns,
      filled_components_ofNames hns]
  have hfilled : String.intercalate "/" names ≠ "" := by
    intro hempty
    have hcomponents := components_intercalate hne fun name hn => (h name hn).no_slash
    rw [hempty] at hcomponents
    exact (h "" (by rw [← hcomponents]; decide)).ne_empty rfl
  rw [relative]
  simp only [hparts hpre, hparts (List.forall_mem_append.mpr ⟨hpre, h⟩), dropCommon_append]
  simp [ofComponents, hfilled]

theorem intercalate_injective {names names' : List String} (hne : names ≠ []) (hne' : names' ≠ [])
    (h : ∀ name ∈ names, IsName name) (h' : ∀ name ∈ names', IsName name)
    (he : String.intercalate "/" names = String.intercalate "/" names') : names = names' := by
  rw [← components_intercalate hne fun name hn => (h name hn).no_slash, he,
    components_intercalate hne' fun name hn => (h' name hn).no_slash]

/-! ### Tidy directories -/

theorem components_append (front rest : String) :
    components (front ++ "/" ++ rest) = components front ++ components rest := by
  have hchars : (front ++ "/" ++ rest).toList = front.toList ++ '/' :: rest.toList := by simp
  rw [components, hchars, splitWhere_append_mark (by decide), List.map_append]
  rfl

/-- The slashes at the front of a path. -/
def frontSlashes (path : String) : List Char :=
  path.toList.takeWhile (· == '/')

theorem takeWhile_slash_eq_nil {cs : List Char} (h : ∀ tail, cs = '/' :: tail → False) :
    cs.takeWhile (· == '/') = [] := by
  cases cs with
  | nil => rfl
  | cons c cs => exact List.takeWhile_cons_of_neg fun hc => h cs (by rw [beq_iff_eq.mp hc])

/-- The root of a path is decided by the number of slashes at its front. -/
theorem rootText_eq (path : String) :
    rootText path = match (frontSlashes path).length with
      | 0 => ""
      | 2 => "//"
      | _ => "/" := by
  rw [rootText, frontSlashes]
  split
  · rename_i h
    rw [h]
    rfl
  · rename_i cs hthree h
    rw [h]
    simp [takeWhile_slash_eq_nil hthree]
  · rename_i cs _ htwo h
    rw [h]
    simp [takeWhile_slash_eq_nil htwo]
  · rename_i hone
    rw [takeWhile_slash_eq_nil hone]
    rfl

theorem rootText_of_relative {path : String} (h : isAbsolute path = false) : rootText path = "" := by
  have hnone : frontSlashes path = [] :=
    takeWhile_slash_eq_nil fun tail htail => by simp [isAbsolute, htail] at h
  rw [rootText_eq, hnone]
  rfl

theorem isAbsolute_eq (path : String) : isAbsolute path = (rootText path != "") := by
  cases h : isAbsolute path with
  | false => rw [rootText_of_relative h]; rfl
  | true => rcases rootText_of_absolute h with hroot | hroot <;> rw [hroot] <;> rfl

/-- Components that are empty or `.` do not count. -/
theorem foldl_pushComponent_filter (absolute : Bool) (parts init : List String) :
    (parts.filter fun p => !p.isEmpty && p != ".").foldl (pushComponent absolute) init =
      parts.foldl (pushComponent absolute) init := by
  rw [List.foldl_filter]
  congr
  funext above part
  by_cases h : part = "" ∨ part = "."
  · rcases h with rfl | rfl <;> simp [pushComponent]
  · obtain ⟨hempty, hdot⟩ := not_or.mp h
    simp [hempty, hdot]

theorem mem_filter_components {path part : String}
    (h : part ∈ (components path).filter fun p => !p.isEmpty && p != ".") :
    part ≠ "" ∧ '/' ∉ part.toList := by
  obtain ⟨hmem, hplain⟩ := List.mem_filter.mp h
  exact ⟨by rintro rfl; simp at hplain, slash_notMem_of_mem_components hmem⟩

/-- Two paths with the same root have the same normal form if their components count the same. -/
theorem normal_congr {path path' : String} (hroot : rootText path = rootText path')
    (h : ∀ absolute, (components path).foldl (pushComponent absolute) [] =
      (components path').foldl (pushComponent absolute) []) : normal path = normal path' := by
  rw [normal, normal, isAbsolute_eq, isAbsolute_eq, hroot, h]

section Join

variable {path : String} (hpath : isAbsolute path = false)

include hpath

theorem rootText_join (root : String) : rootText (join root path) = rootText root := by
  suffices h : frontSlashes (join root path) = frontSlashes root by
    rw [rootText_eq, rootText_eq, h]
  have hnone : path.toList.takeWhile (· == '/') = [] :=
    takeWhile_slash_eq_nil fun tail htail => by simp [isAbsolute, htail] at hpath
  rw [join, if_neg (by simp [hpath]), frontSlashes, frontSlashes]
  by_cases hall : (root.toList.takeWhile (· == '/')).length = root.toList.length
  · -- a root of slashes, to which the path is added as it is
    have hslashes : root.toList.takeWhile (· == '/') = root.toList :=
      (List.takeWhile_prefix _).eq_of_length hall
    have hend : (root.isEmpty || root.toList.getLast? == some '/') = true := by
      cases hlast : root.toList.getLast? with
      | none => simpa using hlast
      | some c =>
        have hc := List.all_eq_true.mp List.all_takeWhile c
          (by rw [hslashes]; exact List.mem_of_getLast? hlast)
        simpa using Or.inr (beq_iff_eq.mp hc)
    rw [if_pos hend, String.toList_append, List.takeWhile_append, if_pos hall, hnone,
      List.append_nil, hslashes]
  · split
    · rw [String.toList_append, List.takeWhile_append, if_neg hall]
    · rw [String.append_assoc, String.toList_append, List.takeWhile_append, if_neg hall]

/-- The components of a joined path are those of its parts, up to an empty one. -/
theorem foldl_components_join (root : String) (absolute : Bool) :
    (components (join root path)).foldl (pushComponent absolute) [] =
      (components root ++ components path).foldl (pushComponent absolute) [] := by
  rw [join, if_neg (by simp [hpath])]
  split
  · rename_i hend
    rcases List.eq_nil_or_concat' root.toList with hroot | ⟨front, last, hroot⟩
    · have hempty : root = "" := by simpa using hroot
      rw [hempty, String.empty_append]
      rfl
    · have hlast : last = '/' := by
        have hne : root ≠ "" := by
          rintro rfl
          simp at hroot
        simpa [hroot, hne] using hend
      have heq : root = String.ofList front ++ "/" ++ "" := by
        rw [← String.toList_inj, hroot, hlast]
        simp
      rw [heq, components_append, String.append_empty, components_append, List.append_assoc,
        List.foldl_append, List.foldl_append]
      rfl
  · rw [components_append]

end Join

theorem rootText_tidy (path : String) : rootText (tidy path) = rootText path := by
  have hhead := head?_intercalate_ne_of_parts fun part (hpart : part ∈ (components path).filter _) =>
    mem_filter_components hpart
  cases habs : isAbsolute path with
  | false =>
    rw [tidy, rootText_of_relative habs, ofComponents, String.empty_append]
    split
    · rfl
    · exact rootText_of_relative (by simpa [isAbsolute] using hhead)
  | true =>
    rcases rootText_of_absolute habs with hroot | hroot
    · rw [tidy, hroot, ofComponents, if_neg (by simp), rootText_slash hhead]
    · rw [tidy, hroot, ofComponents, if_neg (by simp), rootText_slashes hhead]

theorem foldl_components_ofComponents {root : String} (hroot : root = "" ∨ root = "/" ∨ root = "//")
    {parts : List String} (h : ∀ part ∈ parts, part ≠ "" ∧ '/' ∉ part.toList) (absolute : Bool) :
    (components (ofComponents root parts)).foldl (pushComponent absolute) [] =
      parts.foldl (pushComponent absolute) [] := by
  cases parts with
  | nil => rcases hroot with rfl | rfl | rfl <;> rfl
  | cons part parts =>
    have hparts := components_intercalate (List.cons_ne_nil part parts) fun p hp => (h p hp).2
    have hne : String.intercalate "/" (part :: parts) ≠ "" := by
      intro hempty
      rw [hempty] at hparts
      exact (h part List.mem_cons_self).1 (List.cons.inj hparts).1.symm
    rcases hroot with rfl | rfl | rfl
    · rw [ofComponents, String.empty_append, if_neg (by simpa using hne), hparts]
    · have hslash := components_append "" (String.intercalate "/" (part :: parts))
      rw [String.empty_append, hparts] at hslash
      rw [ofComponents, if_neg (by simp), hslash]
      rfl
    · have hslashes := components_append "/" (String.intercalate "/" (part :: parts))
      rw [hparts] at hslashes
      rw [ofComponents, if_neg (by simp)]
      change (components ("/" ++ "/" ++ _)).foldl _ _ = _
      rw [hslashes]
      rfl

theorem foldl_components_tidy (path : String) (absolute : Bool) :
    (components (tidy path)).foldl (pushComponent absolute) [] =
      (components path).foldl (pushComponent absolute) [] := by
  have hroot : rootText path = "" ∨ rootText path = "/" ∨ rootText path = "//" := by
    cases h : isAbsolute path with
    | false => exact Or.inl (rootText_of_relative h)
    | true => exact Or.inr (rootText_of_absolute h)
  rw [tidy, foldl_components_ofComponents hroot (fun part hpart => mem_filter_components hpart),
    foldl_pushComponent_filter]

/-- **A directory may be tidied before a path is taken from it.** -/
theorem normal_join_tidy (root path : String) :
    normal (join (tidy root) path) = normal (join root path) := by
  cases hpath : isAbsolute path with
  | true => rw [join_of_absolute hpath, join_of_absolute hpath]
  | false =>
    refine normal_congr ?_ fun absolute => ?_
    · rw [rootText_join hpath, rootText_join hpath, rootText_tidy]
    · rw [foldl_components_join hpath, foldl_components_join hpath, List.foldl_append,
        List.foldl_append, foldl_components_tidy]

/-! ### The last name -/

theorem name_ofNames {names : List String} (h : ∀ name ∈ names, IsName name) :
    name (ofNames names) = names.getLast?.getD "" := by
  rw [name, plain_components_ofNames h]

theorem name_intercalate {names : List String} (hne : names ≠ [])
    (h : ∀ name ∈ names, IsName name) :
    name (String.intercalate "/" names) = names.getLast?.getD "" := by
  rw [name, components_intercalate hne fun n hn => (h n hn).no_slash, List.filter_eq_self.mpr]
  exact fun n hn => by simp [(h n hn).ne_empty, (h n hn).ne_dot]

end Path

end StyleAudit
