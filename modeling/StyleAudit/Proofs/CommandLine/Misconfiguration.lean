import Mathlib.Data.List.Basic
import StyleAudit.CommandLine.Run
import StyleAudit.Proofs.Alias.Loader
import StyleAudit.Proofs.Audit.Isolation
import StyleAudit.Proofs.Configuration.Validation
import StyleAudit.Proofs.Report.Summary

/-!
# How a run ends under a malformed configuration

A configuration is validated when it is loaded, and a run whose configuration is refused ends with
code 1 and prints nothing.  Three kinds of malformed configurations are not refused:

* A text that is nested too deep (`Configuration.NestedTooDeep`).
* Limits on which validation itself breaks down (`Style.BreaksDown`).
* A list of allowed colours with a value that is no text.  Validation does not look at the list, and
  the rule about colours fails at the first style file that can be read
  (`Audit.result_violations_cases`).

A run without alias files ends properly unless it meets one of the three, or finds a violation on a
line whose number has too many digits (`run_ends_properly_unless_slip`).
-/

namespace StyleAudit

/-! ### Checks of files -/

namespace Audit

open StyleAudit.Style (Declaration)

/-- Some style file of the project can be read. -/
def ReadsStyle (d : Disk) (root : String) : Prop :=
  ∃ path ∈ (Disk.collect d root).styles, ∃ ds, declarationsOfFile d path = .ok ds

section Check

variable (d : Disk) (root : String)
variable (check : (file : String) → List Declaration → Except Fault (List Violation))

theorem result_checkFile_cases (path : String) :
    ((∀ ds, declarationsOfFile d path = .ok ds →
        ∃ vs, check (Path.relative d.cwd path root) ds = .ok vs) ∧
      ∃ vs, (checkFile d root check path).result = .ok vs) ∨
    ∃ ds fault, declarationsOfFile d path = .ok ds ∧
      check (Path.relative d.cwd path root) ds = .error fault ∧
      (checkFile d root check path).result = .error fault := by
  delta checkFile
  dsimp only
  cases declarationsOfFile d path with
  | error reason => exact Or.inl ⟨by simp, [], rfl⟩
  | ok ds =>
    simp only [Except.ok.injEq, forall_eq', Logged.result_lift]
    cases hcheck : check (Path.relative d.cwd path root) ds with
    | ok vs => exact Or.inl ⟨⟨vs, rfl⟩, vs, rfl⟩
    | error fault => exact Or.inr ⟨ds, fault, rfl, hcheck, rfl⟩

/-- Files are checked one after the other, up to the first whose check fails. -/
theorem result_checkFiles_cases (paths : List String) :
    ((∀ path ∈ paths, ∀ ds, declarationsOfFile d path = .ok ds →
        ∃ vs, check (Path.relative d.cwd path root) ds = .ok vs) ∧
      ∃ vs, (checkFiles d root check paths).result = .ok vs) ∨
    ∃ path ∈ paths, ∃ ds fault, declarationsOfFile d path = .ok ds ∧
      check (Path.relative d.cwd path root) ds = .error fault ∧
      (checkFiles d root check paths).result = .error fault := by
  induction paths with
  | nil => exact Or.inl ⟨by simp, [], rfl⟩
  | cons path paths ih =>
    rw [checkFiles]
    rcases result_checkFile_cases d root check path with
      ⟨hpasses, vs, hfirst⟩ | ⟨ds, fault, hds, hfault, hfirst⟩
    · rw [Logged.result_bind_of_ok hfirst]
      rcases ih with ⟨hall, ws, hrest⟩ | ⟨other, hother, ds, fault, hds, hfault, hrest⟩
      · refine Or.inl ⟨List.forall_mem_cons.mpr ⟨hpasses, hall⟩, vs ++ ws, ?_⟩
        rw [Logged.result_bind_of_ok hrest]
        rfl
      · exact Or.inr ⟨other, List.mem_cons_of_mem _ hother, ds, fault, hds, hfault,
          Logged.result_bind_of_error hrest⟩
    · exact Or.inr ⟨path, List.mem_cons_self, ds, fault, hds, hfault,
        Logged.result_bind_of_error hfirst⟩

end Check

end Audit

/-! ### Colours -/

theorem Style.Palette.exists_color_eq_ok_iff {v : Json} :
    (∃ cs, color v = .ok cs) ↔ v.kind = .string := by
  cases v <;> simp [color, Json.kind]

/-- A list of values is a palette iff all of them are texts. -/
theorem Style.Palette.exists_ofJson_eq_ok_iff (es : List Json) :
    (∃ p, ofJson (.array es) = .ok p) ↔ ∀ v ∈ es, v.kind = .string := by
  simp only [← exists_color_eq_ok_iff, ofJson, Json.elements, bind, Except.bind, pure, Except.pure]
  cases hcolors : es.mapM color with
  | ok cs => exact iff_of_true ⟨_, rfl⟩ (exists_of_mapM_eq_ok hcolors)
  | error m =>
    refine iff_of_false nofun fun hall => ?_
    obtain ⟨before, v, after, rfl, -, hv⟩ := mapM_eq_error_iff.mp hcolors
    obtain ⟨cs, hcs⟩ := hall v (by simp)
    cases hv.symm.trans hcs

namespace Configuration

/-- The configuration lists a value that is no text among the allowed colours. -/
def HasStrayColor (c : Configuration) : Prop :=
  ∃ es, c.colorRule?.bind (Json.find? "allowedColors") = some (.array es) ∧
    ∃ v ∈ es, v.kind ≠ .string

end Configuration

namespace Audit

/-- How the rule about colours ends. -/
theorem result_checkColors_cases (d : Disk) (root : String) (c : Configuration) :
    (¬ (c.HasStrayColor ∧ ReadsStyle d root) ∧
      ∃ vs, (checkColors d root (Disk.collect d root).styles c.colorRule?).result = .ok vs) ∨
    (c.HasStrayColor ∧ ReadsStyle d root) ∧
      ∃ m, (checkColors d root (Disk.collect d root).styles c.colorRule?).result =
        .error (.misuse m) := by
  rw [checkColors, Configuration.HasStrayColor]
  split
  · rename_i x xs hcolors
    simp only [hcolors, Option.some.injEq, Json.array.injEq, exists_eq_left']
    have hpalette := Style.Palette.exists_ofJson_eq_ok_iff (x :: xs)
    cases hread : Style.Palette.ofJson (.array (x :: xs)) with
    | ok p =>
      have htexts := hpalette.mp ⟨p, hread⟩
      refine Or.inl ⟨fun h => ?_, ?_⟩
      · obtain ⟨v, hv, hkind⟩ := h.1
        exact hkind (htexts v hv)
      · rcases result_checkFiles_cases d root (fun file ds => .ok (p.check file ds))
          (Disk.collect d root).styles with ⟨-, hok⟩ | ⟨_, -, _, _, -, hfault, -⟩
        · exact hok
        · cases hfault
    | error m =>
      have hstray : ∃ v ∈ x :: xs, v.kind ≠ .string := by
        by_contra hall
        simp only [not_exists, not_and, not_not] at hall
        obtain ⟨p, hp⟩ := hpalette.mpr hall
        cases hread.symm.trans hp
      rcases result_checkFiles_cases d root (fun _ _ => .error (.misuse m))
        (Disk.collect d root).styles with
          ⟨hpass, hok⟩ | ⟨path, hpath, ds, fault, hds, hfault, hresult⟩
      · refine Or.inl ⟨?_, hok⟩
        rintro ⟨-, path, hpath, ds, hds⟩
        obtain ⟨vs, hvs⟩ := hpass path hpath ds hds
        cases hvs
      · cases hfault
        exact Or.inr ⟨⟨hstray, path, hpath, ds, hds⟩, m, hresult⟩
  · -- without a list that has a colour nothing is checked
    rename_i hother
    refine Or.inl ⟨?_, [], rfl⟩
    rintro ⟨⟨es, hes, v, hv, -⟩, -⟩
    obtain ⟨x, xs, rfl⟩ := List.exists_cons_of_ne_nil (List.ne_nil_of_mem hv)
    exact hother x xs hes

/-! ### Violations -/

theorem exists_result_checkLimits (d : Disk) (root : String) (files : List String)
    {c : Configuration} (h : ∀ e ∈ c.limits, Style.Sound e.2) :
    ∃ vs, (checkLimits d root files c.limitRule?).result = .ok vs := by
  rw [Configuration.limits] at h
  unfold checkLimits
  split
  · rename_i e es hrule
    rw [hrule] at h
    obtain ⟨limits, hlimits⟩ := Style.exists_validLimits_eq_ok_iff.mpr h
    rw [Logged.result_bind_of_ok (by rw [hlimits]; rfl)]
    rcases result_checkFiles_cases d root
      (fun file ds => .ok (Style.checkLimits limits file ds)) files with
      ⟨-, hok⟩ | ⟨_, -, _, _, -, hfault, -⟩
    · exact hok
    · cases hfault
  · exact ⟨[], rfl⟩

theorem exists_result_unusedClasses {d : Disk} {root : String}
    (h : ∀ c ∈ Alias.candidates, d.isFile (c.path (Path.real d.cwd root)) = false) (o : Options) :
    ∃ vs, (unusedClasses d root o).result = .ok vs := by
  have hroot : (Project.ofDisk d root).root = Path.real d.cwd root := by rw [Project.ofDisk_eq]
  rw [result_unusedClasses, Context.result_ofDisk, hroot, Alias.result_ofDisk_of_no_file h]
  split
  · exact ⟨_, rfl⟩
  · exact ⟨[], rfl⟩

/-- How the rules end for a configuration that validation accepts. -/
theorem result_violations_cases {d : Disk} {root : String}
    (halias : ∀ c ∈ Alias.candidates, d.isFile (c.path (Path.real d.cwd root)) = false)
    {c : Configuration} (hvalid : c.validate = .ok ()) :
    (¬ (c.HasStrayColor ∧ ReadsStyle d root) ∧ ∃ vs, (violations d root c).result = .ok vs) ∨
    (c.HasStrayColor ∧ ReadsStyle d root) ∧
      ∃ m, (violations d root c).result = .error (.misuse m) := by
  obtain ⟨⟨o, ho⟩, hlimits⟩ := Configuration.validate_eq_ok_iff.mp hvalid
  have hoptions : (Logged.lift (c.options.mapError Fault.configuration)).result = .ok o := by
    rw [ho]
    rfl
  obtain ⟨unused, hunused⟩ := exists_result_unusedClasses halias o
  rw [violations, Logged.result_bind_of_ok hoptions, Logged.result_bind_of_ok hunused]
  rcases result_checkColors_cases d root c with ⟨hclear, colors, hcolors⟩ | ⟨hbad, m, hm⟩
  · obtain ⟨limits, hlimits⟩ :=
      exists_result_checkLimits d root (Disk.collect d root).styles hlimits
    refine Or.inl ⟨hclear, unused ++ colors ++ limits, ?_⟩
    rw [Logged.result_bind_of_ok hcolors, Logged.result_bind_of_ok hlimits]
    rfl
  · exact Or.inr ⟨hbad, m, Logged.result_bind_of_error hm⟩

end Audit

/-! ### Runs -/

namespace CommandLine

open StyleAudit.Audit (ReadsStyle)

/-- A violation on a line that cannot be printed is found. -/
def FindsLongLine (d : Disk) (root : String) (c : Configuration) : Prop :=
  ∃ vs, (Audit.violations d root c).result = .ok vs ∧ ¬ Report.LinesFit vs

/-- A configuration that is neither refused nor harmless. -/
def Slips (d : Disk) (root : String) (c : Configuration) : Prop :=
  (c.HasOptions ∧ Style.BreaksDown c.limits) ∨
    c.validate = .ok () ∧ (c.HasStrayColor ∧ ReadsStyle d root ∨ FindsLongLine d root c)

section Runs

variable {d : Disk} {root : String} {a : Arguments} {nesting : Nat}

theorem run_of_read {words : List String} (hwords : Arguments.read words = .ok a)
    (hinit : a.init = false) :
    run d words nesting = lint d (Path.real d.cwd a.root) a nesting := by
  simp only [run, hwords, hinit, Bool.false_eq_true, if_false]

/-- The report about violations, if there is one. -/
def printed (a : Arguments) (vs : List Violation) : Except Json.PrintError String :=
  if a.json then (Report.json (vs.map Violation.coded)).map (· ++ "\n") else Report.text vs

/-- Violations can be printed iff their lines fit. -/
theorem printed_cases (a : Arguments) {c : Configuration} {vs : List Violation}
    (h : (Audit.violations d root c).result = .ok vs) :
    (Report.LinesFit vs ∧ ∃ text, printed a vs = .ok text) ∨
      ¬ Report.LinesFit vs ∧ printed a vs = .error .tooManyDigits := by
  rw [printed, Report.text_of_violations h]
  by_cases hfit : Report.LinesFit vs
  · refine Or.inl ⟨hfit, ?_⟩
    rw [if_pos hfit, Report.json_eq_ok_iff.mpr ⟨Report.linesFit_map_coded.mpr hfit, rfl⟩]
    cases a.json
    · exact ⟨_, rfl⟩
    · exact ⟨_, rfl⟩
  · refine Or.inr ⟨hfit, ?_⟩
    rw [if_neg hfit, Report.json_of_not_linesFit fun h => hfit (Report.linesFit_map_coded.mp h)]
    cases a.json <;> rfl

theorem result_reportText_of_load {c : Configuration}
    (hload : (Configuration.load d root a.config nesting).result = .ok (some c))
    {vs : List Violation} (hvs : (Audit.violations d root c).result = .ok vs) :
    (reportText d root a nesting).result = (printed a vs).mapError Fault.printing := by
  rw [reportText, Logged.result_bind_of_ok hload, Logged.result_bind_of_ok hvs]
  rfl

/-- How the report under an accepted configuration ends. -/
theorem result_reportText_of_valid {c : Configuration}
    (halias : ∀ s ∈ Alias.candidates, d.isFile (s.path (Path.real d.cwd root)) = false)
    (hvalid : c.validate = .ok ())
    (hload : (Configuration.load d root a.config nesting).result = .ok (some c)) :
    (¬ Slips d root c ∧ ∃ text, (reportText d root a nesting).result = .ok text) ∨
      Slips d root c ∧ ∃ fault, (reportText d root a nesting).result = .error fault ∧
        ∀ e, fault ≠ .configuration e := by
  obtain ⟨-, hsound⟩ := Configuration.validate_eq_ok_iff.mp hvalid
  rcases Audit.result_violations_cases halias hvalid with ⟨hclear, vs, hvs⟩ | ⟨hstray, m, hm⟩
  · rw [result_reportText_of_load hload hvs]
    rcases printed_cases a hvs with ⟨hfit, text, htext⟩ | ⟨hfit, herror⟩
    · refine Or.inl ⟨?_, text, by rw [htext]; rfl⟩
      rintro (⟨-, hbreaks⟩ | ⟨-, hstray | ⟨ws, hws, hlong⟩⟩)
      · exact hbreaks.not_forall_sound hsound
      · exact hclear hstray
      · cases hvs.symm.trans hws
        exact hlong hfit
    · exact Or.inr ⟨Or.inr ⟨hvalid, Or.inr ⟨vs, hvs, hfit⟩⟩, .printing .tooManyDigits,
        by rw [herror]; rfl, by simp⟩
  · refine Or.inr ⟨Or.inr ⟨hvalid, Or.inl hstray⟩, .misuse m, ?_, by simp⟩
    rw [reportText, Logged.result_bind_of_ok hload, Logged.result_bind_of_error hm]

/-- A report is made, or refused with a configuration error, unless the configuration is nested too
deep or slips. -/
theorem result_reportText_cases (a : Arguments) (nesting : Nat)
    (halias : ∀ s ∈ Alias.candidates, d.isFile (s.path (Path.real d.cwd root)) = false) :
    ((¬ Configuration.NestedTooDeep d root a.config nesting ∧
        ∀ c, Configuration.StatedIn d root a.config nesting c → ¬ Slips d root c) ∧
      ((∃ text, (reportText d root a nesting).result = .ok text) ∨
        ∃ e, (reportText d root a nesting).result = .error (.configuration e))) ∨
    (Configuration.NestedTooDeep d root a.config nesting ∨
        ∃ c, Configuration.StatedIn d root a.config nesting c ∧ Slips d root c) ∧
      ∃ fault, (reportText d root a nesting).result = .error fault ∧
        ∀ e, fault ≠ .configuration e := by
  rcases Configuration.result_load_cases d root a.config nesting with
    ⟨c, hc, hload⟩ | ⟨hno, hdeep, hload | ⟨e, hload⟩⟩ | ⟨-, hdeep, b, hload⟩
  · have honly : ¬ Slips d root c → ¬ Configuration.NestedTooDeep d root a.config nesting ∧
        ∀ c', Configuration.StatedIn d root a.config nesting c' → ¬ Slips d root c' := by
      refine fun hslips => ⟨hc.not_nestedTooDeep, fun c' hc' => ?_⟩
      rw [← hc.unique hc']
      exact hslips
    rcases c.validate_cases with ⟨-, -, hvalid⟩ | ⟨ho, hbreaks, m, hm⟩ | ⟨-, hbreaks, e, he⟩
    · rw [hvalid] at hload
      rcases result_reportText_of_valid halias hvalid hload with ⟨hclear, hok⟩ | ⟨hslips, hfault⟩
      · exact Or.inl ⟨honly hclear, Or.inl hok⟩
      · exact Or.inr ⟨Or.inr ⟨c, hc, hslips⟩, hfault⟩
    · rw [hm] at hload
      exact Or.inr ⟨Or.inr ⟨c, hc, Or.inl ⟨ho, hbreaks⟩⟩, .misuse m,
        Logged.result_bind_of_error hload, by simp⟩
    · rw [he] at hload
      refine Or.inl ⟨honly ?_, Or.inr ⟨e, Logged.result_bind_of_error hload⟩⟩
      rintro (h | ⟨hvalid, -⟩)
      · exact hbreaks h
      · cases he.symm.trans hvalid
  · refine Or.inl ⟨⟨hdeep, fun c hc => absurd hc (hno c)⟩,
      Or.inl ⟨Report.missing a.json ++ "\n", ?_⟩⟩
    rw [reportText, Logged.result_bind_of_ok hload]
    rfl
  · exact Or.inl ⟨⟨hdeep, fun c hc => absurd hc (hno c)⟩,
      Or.inr ⟨e, Logged.result_bind_of_error hload⟩⟩
  · exact Or.inr ⟨Or.inl hdeep, .json (.tooDeep b), Logged.result_bind_of_error hload, by simp⟩

theorem result_lint_of_tooDeep {b : Json.Bracket}
    (h : (reportText d root a nesting).result = .error (.json (.tooDeep b))) :
    (lint d root a nesting).result = .error (.json (.tooDeep b)) := by
  unfold lint
  generalize reportText d root a nesting = report at h ⊢
  simp only [h]

theorem lint_ends_properly_iff
    (halias : ∀ s ∈ Alias.candidates, d.isFile (s.path (Path.real d.cwd root)) = false) :
    ((lint d root a nesting).result = .ok 0 ∨
        (lint d root a nesting).result = .ok 1 ∧ (lint d root a nesting).stdout = "") ↔
      ¬ Configuration.NestedTooDeep d root a.config nesting ∧
        ∀ c, Configuration.StatedIn d root a.config nesting c → ¬ Slips d root c := by
  have hreport := result_reportText_cases a nesting halias
  unfold lint
  generalize reportText d root a nesting = report at hreport ⊢
  rcases hreport with ⟨hclear, ⟨text, htext⟩ | ⟨e, he⟩⟩ | ⟨hslips, fault, hfault, hother⟩
  · exact iff_of_true (Or.inl (by simp only [htext])) hclear
  · exact iff_of_true (Or.inr (by simp only [he, and_self])) hclear
  · refine iff_of_false ?_ ?_
    · cases fault with
      | configuration e => exact absurd rfl (hother e)
      | _ => simp only [hfault]; simp
    · rintro ⟨hdeep, hclear⟩
      rcases hslips with h | ⟨c, hc, hslips⟩
      · exact hdeep h
      · exact hclear c hc hslips

end Runs

/-- A disk with a configuration file and an empty stylesheet. -/
def configuredDisk (text : String) : Disk where
  tree := .directory [(Configuration.fileName, .ofText text), ("a.css", .file [])]
  cwd := "/"

theorem styles_configuredDisk (text : String) :
    (Disk.collect (configuredDisk text) "/").styles = ["/a.css"] := by
  have hcwd : (configuredDisk text).cwd = "/" := rfl
  have hpath : Path.components (Path.join "/" (Path.real "/" "/")) = ["", ""] := by decide
  have hroot : (configuredDisk text).locate (Path.real "/" "/") =
      .ok (configuredDisk text).tree := by
    simp only [Disk.locate, configuredDisk, hpath]
    rfl
  have hhidden : Disk.isHidden Configuration.fileName = true := by decide
  have hshown : Disk.isHidden "a.css" = false := by decide
  rw [Disk.styles_collect, Disk.found, hcwd, hroot]
  change List.filter _ ((Disk.Entry.directory _).files _) = _
  rw [Disk.files_directory]
  simp only [Disk.isOwn, Disk.isSub, Disk.Entry.ofText, Disk.Entry.isFile, hhidden, hshown,
    List.filter_cons, List.filter_nil, Bool.not_true, Bool.not_false, Bool.and_true, Bool.and_false,
    Bool.false_and, Bool.false_eq_true, if_true, if_false, Disk.byName_singleton, Disk.byName_nil]
  decide

/-- How a run ends under a configuration. -/
def outcome (text : String) (nesting : Nat := Json.nestingLimit) : Except String Nat :=
  (run (configuredDisk text) [] nesting).result.mapError Fault.message

/-- A configuration with the number 1 among the colours. -/
def strayColorText : String :=
  "\x7b\"rules\": \x7b\"design-system-colors\": \x7b\"allowedColors\": [1]\x7d\x7d\x7d"

theorem outcome_strayColorText :
    outcome strayColorText = .error "'int' object has no attribute 'strip'" := by
  have hread : Arguments.read [] = .ok {} := rfl
  have hcwd : (configuredDisk strayColorText).cwd = "/" := rfl
  have hroot : Path.real "/" "." = "/" := by decide
  have hstyles := styles_configuredDisk strayColorText
  rw [outcome, run_of_read hread rfl, hcwd]
  dsimp only
  rw [hroot]
  -- the list of style files is rewritten because sorting it does not compute
  generalize hd : configuredDisk strayColorText = d at hstyles ⊢
  delta lint reportText Audit.violations
  dsimp only
  rw [hstyles, ← hd]
  decide +kernel

end CommandLine

end StyleAudit
