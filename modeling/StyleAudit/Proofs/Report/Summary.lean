import Mathlib.Data.List.Basic
import StyleAudit.Audit.Rules
import StyleAudit.Proofs.Audit.Ordering
import StyleAudit.Proofs.Logged
import StyleAudit.Proofs.Report.RoundTrip

/-!
# The two reports agree

The report for a reader groups violations, first by rule and then by file.  This may change the order
of an arbitrary list.  It keeps the order of the violations of a project, since the rules are checked
one after the other, each violation names its rule, and unused classes come file by file.

* `byFile_flatMap`: violations that stand group by group are grouped as they stand.
* `listed_summary`: so a summary of the violations of three rules in turn lists them as they are.
* `layout_eq_join`: the text of a report is made of pieces (`pieces`), and each violation of the
  summary has one piece, in order (`filterMap_violation_pieces`).
* `headed_pieces`: a line about a class stands below the name of its file.
* `exists_of_violations`: where the violations of a project come from.
* `reports_agree`: the text and the JSON report show the same violations in the same order.
-/

namespace StyleAudit

namespace Report

open StyleAudit.Audit

/-! ### Groups -/

/-- The violations of a group join the violations of their file. -/
theorem foldl_alter_group {file : String} {t : Table (List Violation)} (ht : file ∉ t.keys)
    {group : List Violation} (hgroup : ∀ v ∈ group, v.file = file) (before : List Violation) :
    group.foldl (fun t v => t.alter v.file [] (· ++ [v])) (t ++ [(file, before)]) =
      t ++ [(file, before ++ group)] := by
  induction group generalizing before with
  | nil => simp
  | cons v group ih =>
    obtain ⟨hv, hrest⟩ := List.forall_mem_cons.mp hgroup
    rw [List.foldl_cons, hv, Table.alter_append_last ht, ih hrest, List.append_assoc,
      List.singleton_append]

/-- Groups of other files are added after those that are there. -/
theorem foldl_alter_groups {t groups : Table (List Violation)}
    (hfiles : (t.keys ++ groups.keys).Nodup)
    (h : ∀ g ∈ groups, g.2 ≠ [] ∧ ∀ v ∈ g.2, v.file = g.1) :
    (groups.flatMap Prod.snd).foldl (fun t v => t.alter v.file [] (· ++ [v])) t = t ++ groups := by
  induction groups generalizing t with
  | nil => simp
  | cons g groups ih =>
    obtain ⟨file, group⟩ := g
    obtain ⟨⟨hne, hgroup⟩, hrest⟩ := List.forall_mem_cons.mp h
    have hnew : file ∉ t.keys := fun hfile =>
      (List.nodup_append.mp hfiles).2.2 file hfile file List.mem_cons_self rfl
    obtain ⟨v, vs, rfl⟩ := List.exists_cons_of_ne_nil hne
    obtain ⟨hv, hvs⟩ := List.forall_mem_cons.mp hgroup
    -- The first violation opens the group.
    have hgroup : (v :: vs).foldl (fun t v => t.alter v.file [] (· ++ [v])) t =
        t ++ [(file, v :: vs)] := by
      rw [List.foldl_cons, hv, Table.alter_of_notMem hnew, foldl_alter_group hnew hvs]
      rfl
    have hfiles' : (Table.keys (t ++ [(file, v :: vs)]) ++ Table.keys groups).Nodup := by
      simpa [Table.keys] using hfiles
    rw [List.flatMap_cons, List.foldl_append, hgroup, ih hfiles' hrest, ← List.append_cons]

theorem byFile_flatMap {groups : Table (List Violation)} (hfiles : groups.keys.Nodup)
    (h : ∀ g ∈ groups, g.2 ≠ [] ∧ ∀ v ∈ g.2, v.file = g.1) :
    byFile (groups.flatMap Prod.snd) = groups :=
  foldl_alter_groups hfiles h

/-- To group violations that stand file by file keeps their order. -/
theorem flatMap_byFile {files : List String} {vs : List Violation} (hfiles : files.Nodup)
    (h : Grouped files vs) : (byFile vs).flatMap Prod.snd = vs := by
  obtain ⟨groups, rfl, hsub, hgroups⟩ := h
  rw [byFile_flatMap (hfiles.sublist hsub) hgroups]

/-- Grouping violations in any order loses none. -/
theorem perm_flatMap_alter (t : Table (List Violation)) (file : String) (v : Violation) :
    ((t.alter file [] (· ++ [v])).flatMap Prod.snd).Perm (v :: t.flatMap Prod.snd) := by
  induction t with
  | nil => simp [Table.alter]
  | cons g t ih =>
    obtain ⟨name, group⟩ := g
    rw [Table.alter]
    split
    · simp only [List.flatMap_cons, List.append_assoc, List.singleton_append]
      exact List.perm_middle
    · simp only [List.flatMap_cons]
      exact (ih.append_left group).trans List.perm_middle

theorem perm_flatMap_byFile (vs : List Violation) : ((byFile vs).flatMap Prod.snd).Perm vs := by
  have hfold : ∀ (vs : List Violation) (t : Table (List Violation)),
      ((vs.foldl (fun t v => t.alter v.file [] (· ++ [v])) t).flatMap Prod.snd).Perm
        (vs ++ t.flatMap Prod.snd) := by
    intro vs
    induction vs with
    | nil => exact fun t => List.Perm.refl _
    | cons v vs ih =>
      intro t
      refine (ih _).trans (((perm_flatMap_alter t v.file v).append_left vs).trans ?_)
      exact List.perm_middle
  rw [byFile]
  simpa using hfold vs []

/-! ### Rules -/

theorem ofRule_eq_self {rule : String} {vs : List Violation} (h : ∀ v ∈ vs, v.rule = rule) :
    ofRule rule vs = vs :=
  List.filter_eq_self.mpr fun v hv => beq_iff_eq.mpr (h v hv)

theorem ofRule_eq_nil {rule other : String} {vs : List Violation} (hne : other ≠ rule)
    (h : ∀ v ∈ vs, v.rule = other) : ofRule rule vs = [] := by
  refine List.filter_eq_nil_iff.mpr fun v hv => ?_
  simpa [h v hv] using hne

theorem ofRule_append (rule : String) (vs ws : List Violation) :
    ofRule rule (vs ++ ws) = ofRule rule vs ++ ofRule rule ws :=
  List.filter_append ..

section Summary

variable {unused colors limits : List Violation}
  (hunused : ∀ v ∈ unused, v.rule = Violation.unusedClasses)
  (hcolors : ∀ v ∈ colors, v.rule = Violation.paletteColors)
  (hlimits : ∀ v ∈ limits, v.rule = Violation.numericLimits)

include hunused hcolors hlimits

/-- A summary of the violations of three rules in turn keeps the rules apart. -/
theorem listed_summary_eq : (summary (unused ++ colors ++ limits)).listed =
    (byFile unused).flatMap Prod.snd ++ colors ++ limits := by
  have hU : ofRule Violation.unusedClasses (unused ++ colors ++ limits) = unused := by
    rw [ofRule_append, ofRule_append, ofRule_eq_self hunused, ofRule_eq_nil (by decide) hcolors,
      ofRule_eq_nil (by decide) hlimits, List.append_nil, List.append_nil]
  have hC : ofRule Violation.paletteColors (unused ++ colors ++ limits) = colors := by
    rw [ofRule_append, ofRule_append, ofRule_eq_nil (by decide) hunused, ofRule_eq_self hcolors,
      ofRule_eq_nil (by decide) hlimits, List.nil_append, List.append_nil]
  have hL : ofRule Violation.numericLimits (unused ++ colors ++ limits) = limits := by
    rw [ofRule_append, ofRule_append, ofRule_eq_nil (by decide) hunused,
      ofRule_eq_nil (by decide) hcolors, ofRule_eq_self hlimits, List.nil_append, List.nil_append]
  rw [Summary.listed, summary, hU, hC, hL]

/-- It lists them as they are, if unused classes come file by file. -/
theorem listed_summary {files : List String} (hfiles : files.Nodup)
    (hgrouped : Grouped files unused) :
    (summary (unused ++ colors ++ limits)).listed = unused ++ colors ++ limits := by
  rw [listed_summary_eq hunused hcolors hlimits, flatMap_byFile hfiles hgrouped]

end Summary

/-! ### Pieces of the text -/

/-- A piece of a report: a line about a violation, the name of a file above such lines, or what
stands around them. -/
inductive Piece where
  | frame (text : String)
  | file (name : String)
  | entry (v : Violation)
deriving DecidableEq, Repr

/-- The line about a violation.  A class is shown below its file. -/
def entryLine (v : Violation) : String :=
  if v.rule = Violation.unusedClasses then classLine v else placeLine v

def Piece.text : Piece → String
  | frame text => text
  | file name => name ++ "\n"
  | entry v => entryLine v

def Piece.violation? : Piece → Option Violation
  | entry v => some v
  | _ => none

def Piece.file? : Piece → Option String
  | file name => some name
  | _ => none

/-- A section with a heading, unless it is empty. -/
def sectionPieces (heading : String) (ps : List Piece) : List Piece :=
  if ps.isEmpty then [] else .frame ("\n" ++ heading ++ "\n") :: ps

def groupPieces (group : String × List Violation) : List Piece :=
  .file group.1 :: group.2.map .entry

def Summary.pieces (s : Summary) : List Piece :=
  [.frame ("Style Sentry Linting Report\n" ++ rulerLine)] ++
    sectionPieces "Unused CSS classes found:" (s.unused.flatMap groupPieces) ++
    sectionPieces "Design system color violations found:" (s.colors.map .entry) ++
    sectionPieces "Numeric property limit violations found:" (s.limits.map .entry) ++
    [.frame ("\n" ++ rulerLine ++ "Linting complete.\n")]

/-- The pieces of the report for a reader. -/
def pieces (vs : List Violation) : List Piece :=
  if vs.isEmpty then [.frame "No linting issues found. Your styles are looking great!\n"]
  else (summary vs).pieces

/-! ### The violations of the pieces -/

theorem filterMap_violation_entries (vs : List Violation) :
    (vs.map Piece.entry).filterMap Piece.violation? = vs := by
  rw [List.filterMap_map]
  exact List.filterMap_some

theorem filterMap_violation_frame (text : String) :
    [Piece.frame text].filterMap Piece.violation? = [] := rfl

theorem filterMap_violation_section (heading : String) (ps : List Piece) :
    (sectionPieces heading ps).filterMap Piece.violation? = ps.filterMap Piece.violation? := by
  rw [sectionPieces]
  split
  · rename_i hempty
    rw [List.isEmpty_iff.mp hempty]
  · rfl

theorem filterMap_violation_groups (t : Table (List Violation)) :
    (t.flatMap groupPieces).filterMap Piece.violation? = t.flatMap Prod.snd := by
  rw [List.filterMap_flatMap]
  exact List.flatMap_congr fun g _ => filterMap_violation_entries g.2

theorem Summary.filterMap_violation_pieces (s : Summary) :
    s.pieces.filterMap Piece.violation? = s.listed := by
  simp only [pieces, List.filterMap_append, filterMap_violation_section,
    filterMap_violation_groups, filterMap_violation_entries, filterMap_violation_frame,
    List.nil_append, List.append_nil, listed]

theorem filterMap_violation_pieces (vs : List Violation) :
    (pieces vs).filterMap Piece.violation? = (summary vs).listed := by
  rw [pieces]
  split
  · rename_i hempty
    rw [List.isEmpty_iff.mp hempty]
    rfl
  · exact (summary vs).filterMap_violation_pieces

/-! ### The files of the pieces -/

/-- The file that is named last. -/
def lastFile? (ps : List Piece) : Option String :=
  (ps.filterMap Piece.file?).getLast?

/-- Each line about a class among the pieces, after those before them, stands below its file. -/
def Headed (before ps : List Piece) : Prop :=
  ∀ front v rest, ps = front ++ .entry v :: rest → v.rule = Violation.unusedClasses →
    lastFile? (before ++ front) = some v.file

theorem Headed.append {before ps qs : List Piece} (hps : Headed before ps)
    (hqs : Headed (before ++ ps) qs) : Headed before (ps ++ qs) := by
  intro front v rest hsplit hrule
  rcases List.append_eq_append_iff.mp hsplit with ⟨more, rfl, hrest⟩ | ⟨more, rfl, hrest⟩
  · rw [← List.append_assoc]
    exact hqs more v rest hrest hrule
  · cases more with
    | nil =>
      have hhere := hqs [] v rest hrest.symm hrule
      simpa using hhere
    | cons p more =>
      cases hrest
      exact hps front v more rfl hrule

/-- Pieces without lines about classes. -/
theorem headed_of_forall {before ps : List Piece}
    (h : ∀ v, .entry v ∈ ps → v.rule ≠ Violation.unusedClasses) : Headed before ps := by
  rintro front v rest rfl hrule
  exact absurd hrule (h v (by simp))

theorem headed_frame (before : List Piece) (text : String) : Headed before [.frame text] :=
  headed_of_forall (by simp)

theorem headed_places {before : List Piece} {rule : String}
    (hrule : rule ≠ Violation.unusedClasses) {vs : List Violation} (h : ∀ v ∈ vs, v.rule = rule) :
    Headed before (vs.map .entry) :=
  headed_of_forall fun v hv => by
    obtain ⟨w, hw, heq⟩ := List.mem_map.mp hv
    cases heq
    exact h v hw ▸ hrule

theorem headed_group {before : List Piece} {group : String × List Violation}
    (h : ∀ v ∈ group.2, v.file = group.1) : Headed before (groupPieces group) := by
  rintro front v rest hsplit -
  cases front with
  | nil => cases hsplit
  | cons p front =>
    obtain ⟨rfl, hentries⟩ := List.cons.inj hsplit
    obtain ⟨vs, ws, hvs, rfl, hws⟩ := List.map_eq_append_iff.mp hentries
    obtain ⟨w, ws', rfl, hw, -⟩ := List.map_eq_cons_iff.mp hws
    cases hw
    have hfile : v.file = group.1 := h v (by simp [hvs])
    have hnone : (vs.map Piece.entry).filterMap Piece.file? = [] := by
      rw [List.filterMap_map, List.filterMap_eq_nil_iff]
      exact fun _ _ => rfl
    have hname : (Piece.file group.1 :: vs.map .entry).filterMap Piece.file? = [group.1] := by
      rw [List.filterMap_cons, hnone]
      rfl
    rw [lastFile?, List.filterMap_append, hname, hfile, List.getLast?_concat]

theorem headed_groups {t : Table (List Violation)} (h : ∀ g ∈ t, ∀ v ∈ g.2, v.file = g.1)
    (before : List Piece) : Headed before (t.flatMap groupPieces) := by
  induction t generalizing before with
  | nil => exact headed_of_forall (by simp)
  | cons g t ih =>
    obtain ⟨hg, ht⟩ := List.forall_mem_cons.mp h
    exact (headed_group hg).append (ih ht _)

theorem headed_section (heading : String) {ps : List Piece} (h : ∀ before, Headed before ps)
    (before : List Piece) : Headed before (sectionPieces heading ps) := by
  rw [sectionPieces]
  split
  · exact headed_of_forall (by simp)
  · exact (headed_frame before _).append (h _)

/-! ### The text of the pieces -/

theorem join_text_section (heading : String) {ps : List Piece} {lines : List String}
    (hempty : ps = [] ↔ lines = []) (h : String.join (ps.map Piece.text) = String.join lines) :
    String.join ((sectionPieces heading ps).map Piece.text) = textSection heading lines := by
  rw [sectionPieces, textSection]
  by_cases hps : ps = []
  · simp [hps, hempty.mp hps]
  · have hlines : lines ≠ [] := fun hl => hps (hempty.mpr hl)
    simp [hps, hlines, ← h, Piece.text, String.join_cons, String.append_assoc]

theorem text_entries_classes {vs : List Violation}
    (h : ∀ v ∈ vs, v.rule = Violation.unusedClasses) :
    (vs.map Piece.entry).map Piece.text = vs.map classLine := by
  rw [List.map_map]
  exact List.map_congr_left fun v hv => if_pos (h v hv)

theorem text_entries_places {rule : String} (hrule : rule ≠ Violation.unusedClasses)
    {vs : List Violation} (h : ∀ v ∈ vs, v.rule = rule) :
    (vs.map Piece.entry).map Piece.text = vs.map placeLine := by
  rw [List.map_map]
  exact List.map_congr_left fun v hv => if_neg fun heq => hrule ((h v hv).symm.trans heq)

theorem join_text_groups {t : Table (List Violation)}
    (h : ∀ g ∈ t, ∀ v ∈ g.2, v.rule = Violation.unusedClasses) :
    String.join ((t.flatMap groupPieces).map Piece.text) = String.join (t.map fileLines) := by
  induction t with
  | nil => rfl
  | cons g t ih =>
    obtain ⟨hg, ht⟩ := List.forall_mem_cons.mp h
    rw [List.flatMap_cons, List.map_append, String.join_append, ih ht, List.map_cons,
      String.join_cons, groupPieces, List.map_cons, String.join_cons, text_entries_classes hg]
    rfl

/-- Each violation of a summary is one of the rule that it is shown under, and of the file if it is
shown under one. -/
structure Summary.Sorted (s : Summary) : Prop where
  unused : ∀ g ∈ s.unused, ∀ v ∈ g.2, v.rule = Violation.unusedClasses
  files : ∀ g ∈ s.unused, ∀ v ∈ g.2, v.file = g.1
  colors : ∀ v ∈ s.colors, v.rule = Violation.paletteColors
  limits : ∀ v ∈ s.limits, v.rule = Violation.numericLimits

theorem join_text_groups_section (heading : String) {t : Table (List Violation)}
    (h : ∀ g ∈ t, ∀ v ∈ g.2, v.rule = Violation.unusedClasses) :
    String.join ((sectionPieces heading (t.flatMap groupPieces)).map Piece.text) =
      textSection heading (t.map fileLines) := by
  refine join_text_section heading ?_ (join_text_groups h)
  cases t <;> simp [groupPieces]

theorem join_text_places_section (heading : String) {rule : String}
    (hrule : rule ≠ Violation.unusedClasses) {vs : List Violation} (h : ∀ v ∈ vs, v.rule = rule) :
    String.join ((sectionPieces heading (vs.map .entry)).map Piece.text) =
      textSection heading (vs.map placeLine) :=
  join_text_section heading (by simp) (by rw [text_entries_places hrule h])

theorem Summary.Sorted.layout_eq_join {s : Summary} (h : s.Sorted) :
    s.layout = String.join (s.pieces.map Piece.text) := by
  have hcolors : Violation.paletteColors ≠ Violation.unusedClasses := by decide
  have hlimits : Violation.numericLimits ≠ Violation.unusedClasses := by decide
  have hframe : ∀ text, String.join ([Piece.frame text].map Piece.text) = text := by
    simp [Piece.text]
  -- `rw` would make Lean compute with the headings.
  delta Summary.layout Summary.pieces
  simp only [List.map_append, String.join_append, hframe, join_text_groups_section _ h.unused,
    join_text_places_section _ hcolors h.colors, join_text_places_section _ hlimits h.limits,
    String.append_assoc]

theorem rule_of_mem_ofRule {rule : String} {vs : List Violation} {v : Violation}
    (h : v ∈ ofRule rule vs) : v.rule = rule :=
  beq_iff_eq.mp (List.mem_filter.mp h).2

/-- Grouping brings in no violations, and each is in the group of its file. -/
theorem mem_of_mem_byFile {vs : List Violation} :
    ∀ g ∈ byFile vs, ∀ v ∈ g.2, v ∈ vs ∧ v.file = g.1 := by
  refine List.foldlRecOn (motive := fun t : Table (List Violation) =>
    ∀ g ∈ t, ∀ v ∈ g.2, v ∈ vs ∧ v.file = g.1) _ _ (by simp) ?_
  intro t ht w hw
  refine Table.forall_mem_alter ht (by simpa using hw) fun group hgroup v hv => ?_
  rcases List.mem_append.mp hv with hold | hnew
  · exact hgroup v hold
  · rw [List.mem_singleton.mp hnew]
    exact ⟨hw, rfl⟩

theorem sorted_summary (vs : List Violation) : (summary vs).Sorted where
  unused g hg v hv := rule_of_mem_ofRule (mem_of_mem_byFile g hg v hv).1
  files g hg v hv := (mem_of_mem_byFile g hg v hv).2
  colors _ hv := rule_of_mem_ofRule hv
  limits _ hv := rule_of_mem_ofRule hv

/-- The text of a report is that of its pieces. -/
theorem layout_eq_join (vs : List Violation) :
    layout vs = String.join ((pieces vs).map Piece.text) := by
  rw [layout, pieces]
  split
  · simp [Piece.text]
  · exact (sorted_summary vs).layout_eq_join

/-- A line about a class stands below the name of its file. -/
theorem headed_pieces (vs : List Violation) : Headed [] (pieces vs) := by
  have hcolors : Violation.paletteColors ≠ Violation.unusedClasses := by decide
  have hlimits : Violation.numericLimits ≠ Violation.unusedClasses := by decide
  obtain ⟨-, hfiles, hcolor, hlimit⟩ := sorted_summary vs
  rw [pieces]
  split
  · exact headed_frame _ _
  · refine ((((headed_frame _ _).append ?_).append ?_).append ?_).append (headed_frame _ _)
    · exact headed_section _ (headed_groups hfiles) _
    · exact headed_section _ (fun _ => headed_places hcolors hcolor) _
    · exact headed_section _ (fun _ => headed_places hlimits hlimit) _

/-- Whether the lines fit decides whether there is a text, if no violation is left out. -/
theorem text_eq {vs : List Violation} (hlisted : (summary vs).listed.Perm vs) :
    text vs = if LinesFit vs then .ok (layout vs) else .error .tooManyDigits := by
  have hfit : (summary vs).listed.all (Json.fitsLimit ·.line) = true ↔ LinesFit vs := by
    simp only [List.all_eq_true, LinesFit, hlisted.mem_iff]
  rw [text]
  simp only [hfit]

theorem linesFit_map_coded {vs : List Violation} :
    LinesFit (vs.map Violation.coded) ↔ LinesFit vs := by
  rw [LinesFit, List.forall_mem_map]
  exact Iff.rfl

/-! ### Where violations come from -/

/-- What a check gives for one file, it gives for all files. -/
theorem forall_of_checkFiles {d : Disk} {root : String}
    {check : String → List Style.Declaration → Except Fault (List Violation)} {P : Violation → Prop}
    (hcheck : ∀ file ds vs, check file ds = .ok vs → ∀ v ∈ vs, P v) {paths : List String}
    {vs : List Violation} (h : (checkFiles d root check paths).result = .ok vs) :
    ∀ v ∈ vs, P v := by
  induction paths generalizing vs with
  | nil =>
    cases h
    simp
  | cons path paths ih =>
    rw [checkFiles, Logged.result_bind_eq_ok] at h
    obtain ⟨first, hfirst, h⟩ := h
    obtain ⟨rest, hrest, h⟩ := Logged.result_bind_eq_ok.mp h
    cases h
    refine List.forall_mem_append.mpr ⟨?_, ih hrest⟩
    delta checkFile at hfirst
    cases hds : declarationsOfFile d path with
    | ok ds =>
      rw [hds] at hfirst
      exact hcheck _ ds first hfirst
    | error reason =>
      rw [hds] at hfirst
      cases hfirst
      simp

theorem rule_of_checkColors {d : Disk} {root : String} {files : List String} {rule : Option Json}
    {vs : List Violation} (h : (checkColors d root files rule).result = .ok vs) :
    ∀ v ∈ vs, v.rule = Violation.paletteColors := by
  rw [checkColors] at h
  split at h
  · refine forall_of_checkFiles (fun file ds vs hvs => ?_) h
    split at hvs
    · cases hvs
      intro v hv
      obtain ⟨declaration, _, hv⟩ := List.mem_flatMap.mp hv
      rw [Style.Palette.violationsOf] at hv
      split at hv
      · obtain ⟨_, _, rfl⟩ := List.mem_map.mp hv
        rfl
      · cases hv
    · cases hvs
  · cases h
    simp

theorem rule_of_checkLimits {d : Disk} {root : String} {files : List String} {rule : Option Json}
    {vs : List Violation} (h : (checkLimits d root files rule).result = .ok vs) :
    ∀ v ∈ vs, v.rule = Violation.numericLimits := by
  unfold checkLimits at h
  split at h
  · obtain ⟨limits, _, h⟩ := Logged.result_bind_eq_ok.mp h
    refine forall_of_checkFiles (fun file ds vs hvs => ?_) h
    cases hvs
    intro v hv
    obtain ⟨declaration, _, hv⟩ := List.mem_filterMap.mp hv
    rw [Style.limitViolation?] at hv
    obtain ⟨l, _, hv⟩ := Option.bind_eq_some_iff.mp hv
    obtain ⟨x, _, hv⟩ := Option.bind_eq_some_iff.mp hv
    rw [Style.Limit.check] at hv
    split at hv
    · cases hv
      rfl
    · cases hv
  · cases h
    simp

/-- The violations of a project are those of the three rules in turn. -/
theorem exists_of_violations {d : Disk} {root : String} {c : Configuration} {vs : List Violation}
    (h : (violations d root c).result = .ok vs) :
    ∃ o unused colors limits, (unusedClasses d root o).result = .ok unused ∧
      (∀ v ∈ colors, v.rule = Violation.paletteColors) ∧
      (∀ v ∈ limits, v.rule = Violation.numericLimits) ∧ vs = unused ++ colors ++ limits := by
  obtain ⟨o, _, h⟩ := Logged.result_bind_eq_ok.mp h
  obtain ⟨unused, hunused, h⟩ := Logged.result_bind_eq_ok.mp h
  obtain ⟨colors, hcolors, h⟩ := Logged.result_bind_eq_ok.mp h
  obtain ⟨limits, hlimits, h⟩ := Logged.result_bind_eq_ok.mp h
  exact ⟨o, unused, colors, limits, hunused, rule_of_checkColors hcolors,
    rule_of_checkLimits hlimits, (Except.ok.inj h).symm⟩

/-- The text about the violations of a project. -/
theorem text_of_violations {d : Disk} {root : String} {c : Configuration} {vs : List Violation}
    (h : (violations d root c).result = .ok vs) :
    text vs = if LinesFit vs then .ok (layout vs) else .error .tooManyDigits := by
  obtain ⟨o, unused, colors, limits, hunused, hcolors, hlimits, rfl⟩ := exists_of_violations h
  refine text_eq ?_
  rw [listed_summary_eq (rule_of_unusedClasses hunused) hcolors hlimits]
  exact ((perm_flatMap_byFile unused).append_right colors).append_right limits

/-- The summary of the violations of a project lists them as they are. -/
theorem listed_of_violations {d : Disk} {root : String} {c : Configuration} {vs : List Violation}
    (hp : d.Proper) (h : (violations d root c).result = .ok vs) : (summary vs).listed = vs := by
  obtain ⟨o, unused, colors, limits, hunused, hcolors, hlimits, rfl⟩ := exists_of_violations h
  exact listed_summary (rule_of_unusedClasses hunused) hcolors hlimits (nodup_styleNames hp root)
    (grouped_of_unusedClasses hp hunused)

/-- **The two reports agree.**  Whenever the rules give violations, the summary lists each of them
once and in their order.  If their lines can be printed, there is a text and a JSON report.  The text
is made of headings, names of files and one line for each violation, in the order of the JSON report.
The line shows the message and the line number of the violation, and its file, unless it is about an
unused class: then the file is the last one that is named before. -/
theorem reports_agree {d : Disk} {root : String} {c : Configuration} {vs : List Violation}
    (hp : d.Proper) (h : (violations d root c).result = .ok vs) :
    (summary vs).listed = vs ∧ (pieces vs).filterMap Piece.violation? = vs ∧
    (LinesFit vs →
      text vs = .ok (String.join ((pieces vs).map Piece.text)) ∧
      json (vs.map Violation.coded) =
        .ok (Json.array (((pieces vs).filterMap Piece.violation?).map (·.coded.toJson))).layout) ∧
    (¬ LinesFit vs →
      text vs = .error .tooManyDigits ∧ json (vs.map Violation.coded) = .error .tooManyDigits) ∧
    ∀ before v after, pieces vs = before ++ .entry v :: after →
      (v.rule = Violation.unusedClasses ∧ lastFile? before = some v.file ∧
        (Piece.entry v).text = "- " ++ v.message ++ " (line " ++ toString v.line ++ ")\n") ∨
      (v.rule ≠ Violation.unusedClasses ∧
        (Piece.entry v).text =
          "- " ++ v.file ++ ":" ++ toString v.line ++ " - " ++ v.message ++ "\n") := by
  have hlisted := listed_of_violations hp h
  have hpieces := (filterMap_violation_pieces vs).trans hlisted
  refine ⟨hlisted, hpieces, fun hfit => ⟨?_, ?_⟩, fun hfit => ⟨?_, ?_⟩, ?_⟩
  · rw [text_of_violations h, if_pos hfit, layout_eq_join]
  · rw [json_eq_ok_iff, hpieces, List.map_map]
    exact ⟨linesFit_map_coded.mpr hfit, rfl⟩
  · rw [text_of_violations h, if_neg hfit]
  · exact json_of_not_linesFit fun hcoded => hfit (linesFit_map_coded.mp hcoded)
  · intro before v after hsplit
    by_cases hrule : v.rule = Violation.unusedClasses
    · exact Or.inl ⟨hrule, headed_pieces vs before v after hsplit hrule, if_pos hrule⟩
    · exact Or.inr ⟨hrule, if_neg hrule⟩

/-- All three rules, with white as the only colour. -/
def strictConfiguration : Configuration where
  rules :=
    [(Violation.unusedClasses, .bool true),
      (Violation.paletteColors, .object [("allowedColors", .array [.string "#fff"])]),
      (Violation.numericLimits, .object [("z-index", .object [("threshold", .int 5)])])]

def layeredColor : Violation where
  rule := Violation.paletteColors
  file := "z.css"
  line := 1
  message := "Invalid color: red"

def layeredLimit : Violation where
  rule := Violation.numericLimits
  file := "z.css"
  line := 2
  message := "z-index value 9 violates limit >= 5"

theorem violations_layeredDisk :
    (violations layeredDisk "." strictConfiguration).result =
      .ok (layeredUnused ++ [layeredColor] ++ [layeredLimit]) := by
  have hstyles : (layeredDisk.collect ".").styles = ["/p/z.css", "/p/a/c.css"] := by
    rw [Disk.styles_collect, found_layeredDisk]
    decide
  refine Logged.result_bind_eq_ok.mpr ⟨{}, rfl, ?_⟩
  refine Logged.result_bind_eq_ok.mpr ⟨layeredUnused, unusedClasses_layeredDisk, ?_⟩
  rw [hstyles]
  refine Logged.result_bind_eq_ok.mpr ⟨[layeredColor], eq_ok_of_toOption (by decide +kernel), ?_⟩
  exact Logged.result_bind_eq_ok.mpr ⟨[layeredLimit], eq_ok_of_toOption (by decide +kernel), rfl⟩

/-- The report on the two stylesheets has a group for each of them, then the colour and then the
number, as the JSON report has. -/
theorem reports_agree_layered :
    let vs := layeredUnused ++ [layeredColor] ++ [layeredLimit]
    (summary vs).unused.keys = ["z.css", "a/c.css"] ∧ (pieces vs).filterMap Piece.violation? = vs ∧
      text vs = .ok (String.join ((pieces vs).map Piece.text)) ∧
      json (vs.map Violation.coded) = .ok (Json.array (vs.map (·.coded.toJson))).layout := by
  intro vs
  obtain ⟨-, hpieces, hreports, -⟩ := reports_agree proper_layeredDisk violations_layeredDisk
  obtain ⟨htext, hjson⟩ := hreports (by decide)
  rw [hpieces] at hjson
  exact ⟨by decide, hpieces, htext, hjson⟩

end Report

end StyleAudit
