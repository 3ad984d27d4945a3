import StyleAudit.Proofs.Json.Commented
import StyleAudit.Proofs.Json.Printing
import StyleAudit.Report

/-!
# Reading a report

The JSON report of a list of violations is read back as the list, with two restrictions.  A line
number with too many digits cannot be printed, so there is no report.  And two halves of a surrogate
pair that stand side by side in a text are printed as the character that they make together, so this
character is read.

* `Violation.prints_toJson`: what a printed violation is read as.
* `Report.json_eq_ok_iff`: which lists have a report.
* `Report.json_round_trip`: what a report is read as, and which other lists have the same report.
* `Report.json_exceptions`: lists on which the two restrictions bear.
-/

namespace StyleAudit

open Json

theorem Json.renderAll_eq_map (depth : Nat) (es : List Json) :
    renderAll depth es = es.map (render depth) := by
  induction es with
  | nil => rfl
  | cons e es ih => rw [renderAll, ih, List.map_cons]

theorem Json.renderEntries_eq_map (depth : Nat) (es : Entries) :
    renderEntries depth es =
      es.map fun e => stringText e.1 ++ ':' :: ' ' :: e.2.render depth := by
  induction es with
  | nil => rfl
  | cons e es ih => rw [renderEntries, ih, List.map_cons, renderEntry]

theorem Json.allNumbersFit_iff {es : List Json} :
    allNumbersFit es = true ↔ ∀ e ∈ es, e.numbersFit = true := by
  induction es with
  | nil => simp [allNumbersFit]
  | cons e es ih => rw [allNumbersFit, Bool.and_eq_true, ih, List.forall_mem_cons]

theorem Json.Prints.parseCommented_text {meaning : Except Nat Json} {cs : List Char}
    (h : Prints (.value meaning) cs) :
    parseCommented (String.ofList cs) = meaning.mapError .tooManyDigits := by
  obtain ⟨items, rfl, hwrites⟩ := h
  have hread := Spacing.parseCommented_text ⟨items, []⟩ hwrites.commaFits
  have hparse := Writes.parse_text (s := ⟨items, []⟩) hwrites
  rw [hparse] at hread
  simpa [Spacing.text, spaceText] using hread

/-! ### Violations -/

namespace Violation

variable {v : Violation CodeText}

/-- The violation with its texts as they are read after printing. -/
def joined (v : Violation CodeText) : Violation CodeText where
  rule := v.rule.joined
  file := v.file.joined
  line := v.line
  message := v.message.joined
  className := v.className.map CodeText.joined

/-- No text of the violation has the two halves of a pair side by side. -/
structure Unpaired (v : Violation CodeText) : Prop where
  rule : Json.Unpaired v.rule.codes
  file : Json.Unpaired v.file.codes
  message : Json.Unpaired v.message.codes
  className : ∀ name, v.className = some name → Json.Unpaired name.codes

theorem joined_eq_self_iff : v.joined = v ↔ v.Unpaired := by
  obtain ⟨rule, file, line, message, className⟩ := v
  have hclass : className.map CodeText.joined = className ↔
      ∀ name, className = some name → Json.Unpaired name.codes := by
    cases className with
    | none => simp
    | some name => simp [CodeText.joined_eq_self_iff]
  simp only [joined, mk.injEq, CodeText.joined_eq_self_iff, hclass, true_and]
  constructor
  · rintro ⟨hrule, hfile, hmessage, hname⟩
    exact ⟨hrule, hfile, hmessage, hname⟩
  · rintro ⟨hrule, hfile, hmessage, hname⟩
    exact ⟨hrule, hfile, hmessage, hname⟩

theorem map_joined_eq_self {vs : List (Violation CodeText)} (h : ∀ v ∈ vs, v.Unpaired) :
    vs.map joined = vs := by
  have hself : vs.map joined = vs.map id :=
    List.map_congr_left fun v hv => joined_eq_self_iff.mpr (h v hv)
  rw [hself, List.map_id]

theorem render_toJson (v : Violation CodeText) (depth : Nat) :
    v.toJson.render depth = bracketed '{' '}' depth
      (v.entries.map fun e => stringText e.1 ++ ':' :: ' ' :: e.2.render (depth + 1)) := by
  rw [toJson, render, renderEntries_eq_map]

/-- A violation is printed as the joined violation is. -/
theorem render_joined (v : Violation CodeText) (depth : Nat) :
    v.joined.toJson.render depth = v.toJson.render depth := by
  rw [render_toJson, render_toJson]
  obtain ⟨rule, file, line, message, className⟩ := v
  cases className <;> simp [entries, joined, render]

theorem numbersFit_toJson (v : Violation CodeText) : v.toJson.numbersFit = fitsLimit v.line := by
  obtain ⟨rule, file, line, message, className⟩ := v
  cases className <;> simp [toJson, entries, numbersFit, entryNumbersFit]

/-- A printed violation is read as the joined violation. -/
theorem prints_toJson (hline : fitsLimit v.line = true) (depth : Nat) :
    Prints (.value (.ok v.joined.toJson)) (v.toJson.render depth) := by
  have hmember : ∀ {name : String} {value : Json} {cs : List Char}, Prints (.value (.ok value)) cs →
      IsMember (.ok (name, value)) (stringText name ++ ':' :: ' ' :: cs) := by
    intro name value cs h
    refine ⟨name, ' ' :: cs, .ok value, ?_, rfl, h.spaced [.blank]⟩
    rw [CodeText.joined_ofString]
    rfl
  have hstring : ∀ (name : String) (t : CodeText), IsMember (.ok (name, .string t.joined))
      (stringText name ++ ':' :: ' ' :: (Json.string t).render (depth + 1)) := by
    intro name t
    have hleaf := Prints.leaf (Lexeme.value?_ofText t)
    rw [render]
    exact hmember hleaf
  have hint : IsMember (.ok ("line", .int v.line))
      (stringText "line" ++ ':' :: ' ' :: (Json.int v.line).render (depth + 1)) := by
    have hleaf := Prints.leaf (Lexeme.value?_ofInt hline)
    rw [render, ← NumberText.text_ofInt]
    exact hmember hleaf
  obtain ⟨rule, file, line, message, className⟩ := v
  rw [render_toJson]
  cases className with
  | none =>
    exact prints_object depth (.cons (hstring "rule" rule) (.cons (hstring "file" file)
      (.cons hint (.cons (hstring "message" message) .nil))))
  | some name =>
    exact prints_object depth (.cons (hstring "rule" rule) (.cons (hstring "file" file)
      (.cons hint (.cons (hstring "message" message) (.cons (hstring "class" name) .nil)))))

theorem toJson_injective : Function.Injective toJson := by
  rintro ⟨rule, file, line, message, className⟩ ⟨rule', file', line', message', className'⟩ h
  cases className <;> cases className' <;> simp_all [toJson, entries]

end Violation

namespace Report

/-- The lines of the violations do not have too many digits. -/
def LinesFit {τ : Type} (vs : List (Violation τ)) : Prop :=
  ∀ v ∈ vs, fitsLimit v.line = true

instance {τ : Type} (vs : List (Violation τ)) : Decidable (LinesFit vs) :=
  inferInstanceAs (Decidable (∀ v ∈ vs, fitsLimit v.line = true))

variable {vs : List (Violation CodeText)}

theorem numbersFit_array_iff :
    (Json.array (vs.map Violation.toJson)).numbersFit = true ↔ LinesFit vs := by
  rw [numbersFit, allNumbersFit_iff, List.forall_mem_map]
  simp only [Violation.numbersFit_toJson, LinesFit]

/-- **A list has a report iff its lines fit.** -/
theorem json_eq_ok_iff {report : String} :
    json vs = .ok report ↔
      LinesFit vs ∧ report = (Json.array (vs.map Violation.toJson)).layout := by
  rw [json, Json.text, ← numbersFit_array_iff]
  split
  · rename_i hfit
    simp only [hfit, true_and, Except.ok.injEq, eq_comm]
  · rename_i hfit
    simp [hfit]

theorem json_of_not_linesFit (h : ¬ LinesFit vs) : json vs = .error .tooManyDigits := by
  rw [json, Json.text, if_neg fun hfit => h (numbersFit_array_iff.mp hfit)]

theorem layout_map_joined (vs : List (Violation CodeText)) :
    (Json.array ((vs.map Violation.joined).map Violation.toJson)).layout =
      (Json.array (vs.map Violation.toJson)).layout := by
  have hrender : ∀ depth, ((vs.map Violation.joined).map Violation.toJson).map (render depth) =
      (vs.map Violation.toJson).map (render depth) := by
    intro depth
    simp only [List.map_map]
    exact List.map_congr_left fun v _ => v.render_joined depth
  rw [Json.layout, Json.layout, render, render, renderAll_eq_map, renderAll_eq_map, hrender]

theorem linesFit_map_joined : LinesFit (vs.map Violation.joined) ↔ LinesFit vs := by
  rw [LinesFit, List.forall_mem_map]
  exact Iff.rfl

/-- What a report is read as. -/
theorem parseCommented_json {report : String} (h : json vs = .ok report) :
    parseCommented report = .ok (.array ((vs.map Violation.joined).map Violation.toJson)) := by
  obtain ⟨hfit, rfl⟩ := json_eq_ok_iff.mp h
  have hparts : List.Forall₂ (fun meaning cs => Prints (.value meaning) cs)
      (((vs.map Violation.joined).map Violation.toJson).map .ok)
      ((vs.map Violation.toJson).map (render 1)) := by
    simp only [List.map_map, List.forall₂_map_left_iff, List.forall₂_map_right_iff,
      List.forall₂_same]
    exact fun v hv => v.prints_toJson (hfit v hv) 1
  have hprints := prints_array 0 hparts
  rw [← renderAll_eq_map, inOrder_ok] at hprints
  rw [Json.layout, render, hprints.parseCommented_text]
  rfl

/-- Two lists have the same report iff they are read as the same list. -/
theorem json_eq_json_iff {report : String} (h : json vs = .ok report)
    {ws : List (Violation CodeText)} :
    json ws = .ok report ↔ ws.map Violation.joined = vs.map Violation.joined := by
  constructor
  · intro hws
    have hread := (parseCommented_json hws).symm.trans (parseCommented_json h)
    exact List.map_injective_iff.mpr Violation.toJson_injective (by simpa using hread)
  · intro hsame
    obtain ⟨hfit, rfl⟩ := json_eq_ok_iff.mp h
    rw [json_eq_ok_iff, ← linesFit_map_joined, hsame, linesFit_map_joined, ← layout_map_joined vs,
      ← hsame, layout_map_joined]
    exact ⟨hfit, rfl⟩

/-- **A report is read as its violations.**  If the lines of a list fit, it has a report.  The report
is read as the list, where the two halves of a pair are joined wherever they stand side by side in
a text, and the lists with the same report are those that are read as the same list.  So if no texts
have pairs of halves, the report is read as the violations, and it is that of no other list. -/
theorem json_round_trip {vs : List (Violation CodeText)} (h : LinesFit vs) :
    ∃ report, json vs = .ok report ∧
      parseCommented report = .ok (.array ((vs.map Violation.joined).map Violation.toJson)) ∧
      (∀ ws, json ws = .ok report ↔ ws.map Violation.joined = vs.map Violation.joined) ∧
      ((∀ v ∈ vs, v.Unpaired) →
        parseCommented report = .ok (.array (vs.map Violation.toJson)) ∧
          ∀ ws, (∀ w ∈ ws, w.Unpaired) → json ws = .ok report → ws = vs) := by
  obtain ⟨report, hreport⟩ : ∃ report, json vs = .ok report := ⟨_, json_eq_ok_iff.mpr ⟨h, rfl⟩⟩
  have hread := parseCommented_json hreport
  refine ⟨report, hreport, hread, fun ws => json_eq_json_iff hreport, fun hvs => ⟨?_, ?_⟩⟩
  · rw [hread, Violation.map_joined_eq_self hvs]
  · intro ws hws hsame
    have hjoined := (json_eq_json_iff hreport).mp hsame
    rwa [Violation.map_joined_eq_self hvs, Violation.map_joined_eq_self hws] at hjoined

/-- Violations with texts that look like comments, last commas and escapes, and with halves of pairs
in the wrong order. -/
def awkward : List (Violation CodeText) := [
  { rule := Violation.unusedClasses, file := "a\"\\//b.css", line := -7
    message := ",] /* \x01   😀", className := some "c,\x7d" },
  { rule := Violation.paletteColors, file := "", line := 120
    message := ⟨[.low 0x200, .high 0x3d, .char '\n']⟩ }]

theorem awkward_round_trip : LinesFit awkward ∧
    ∃ report, json awkward = .ok report ∧
      parseCommented report = .ok (.array (awkward.map Violation.toJson)) := by
  have hfit : LinesFit awkward := by decide
  have hunpaired : ∀ v ∈ awkward, v.Unpaired := by
    have hjoined : ∀ v ∈ awkward, v.joined = v := by decide
    exact fun v hv => Violation.joined_eq_self_iff.mp (hjoined v hv)
  obtain ⟨report, hreport, -, -, hread⟩ := json_round_trip hfit
  exact ⟨hfit, report, hreport, (hread hunpaired).1⟩

/-- A violation with the smallest line that has too many digits. -/
def farAway : Violation CodeText :=
  { rule := Violation.unusedClasses, file := "a.css", line := (Nat.pow 10 digitLimit : Nat)
    message := "Unused CSS class found: .a", className := some "a" }

/-- A violation with a message. -/
def saying (message : CodeText) : Violation CodeText :=
  { rule := Violation.paletteColors, file := "a.css", line := 1, message }

/-- A list with a line that has too many digits has no report, and two halves side by side have the
report of the character that they make. -/
theorem json_exceptions :
    json [farAway] = .error .tooManyDigits ∧
      saying ⟨[.high 0x3d, .low 0x200]⟩ ≠ saying "😀" ∧
      json [saying ⟨[.high 0x3d, .low 0x200]⟩] = json [saying "😀"] := by
  refine ⟨?_, by decide, ?_⟩
  · have hlength : (digitsOf farAway.line).length = digitLimit + 1 := length_digitsOf_pow digitLimit
    have hlong : fitsLimit farAway.line = false :=
      decide_eq_false (by rw [← digitsOf, hlength]; exact Nat.not_succ_le_self _)
    exact json_of_not_linesFit fun h => by cases hlong.symm.trans (h farAway List.mem_cons_self)
  · have hsmile : json [saying "😀"] =
        .ok (Json.array ([saying "😀"].map Violation.toJson)).layout :=
      json_eq_ok_iff.mpr ⟨by decide, rfl⟩
    have hsame : [saying ⟨[.high 0x3d, .low 0x200]⟩].map Violation.joined =
        [saying "😀"].map Violation.joined := by decide +kernel
    exact ((json_eq_json_iff hsmile).mpr hsame).trans hsmile.symm

end Report

end StyleAudit
