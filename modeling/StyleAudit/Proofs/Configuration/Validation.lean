import Mathlib.Data.List.Basic
import StyleAudit.Configuration.Basic
import StyleAudit.Proofs.Json.Depth
import StyleAudit.Proofs.Logged

/-!
# What validation does with a configuration

Validating a configuration accepts it or refuses it with a configuration error, and there is a third
way.  A limit whose threshold is a whole number beyond all binary numbers, or whose operator is a
list or an object, is neither accepted nor refused: validation itself breaks down
(`Style.Unchecked`).  Limits are looked at one after the other, so a limit that is refused hides the
ones after it.  A text that is nested too deep is not even validated.

* `Style.validLimit_cases`, `Style.validLimits_cases`: one limit, and a list of them.
* `Configuration.validate_cases`: a whole configuration.
* `Configuration.result_load_cases`: the configuration of a project, from the file that states it.
-/

namespace StyleAudit

/-! ### Limits -/

namespace Style

/-- The operator of the limit, if it names one, is that of a comparison. -/
def SoundOperator (limit : Json) : Prop :=
  ∀ operator, limit.find? "operator" = some operator → ∃ c : Comparison, operator = .string c.sign

/-- The operator of the limit is a list or an object. -/
def BracketedOperator (limit : Json) : Prop :=
  ∃ operator, limit.find? "operator" = some operator ∧ operator.kind ∈ [.array, .object]

/-- The limit has a number as its threshold and no operator but that of a comparison. -/
def Sound (limit : Json) : Prop :=
  ∃ threshold, limit.find? "threshold" = some threshold ∧ (∃ x, threshold.toNumber = .ok x) ∧
    SoundOperator limit

/-- Validation does not know how to refuse the limit: the threshold is too large a whole number, or
it is a number and the operator is a list or an object. -/
def Unchecked (limit : Json) : Prop :=
  ∃ threshold, limit.find? "threshold" = some threshold ∧
    ((∃ n, threshold = .int n ∧ Binary64.ofInt? n = none) ∨
      (∃ x, threshold.toNumber = .ok x) ∧ BracketedOperator limit)

theorem Comparison.ofSign?_eq_some_iff {s : CodeText} {c : Comparison} :
    ofSign? s = some c ↔ s = c.sign := by
  constructor
  · intro h
    rw [ofSign?] at h
    have hsign := List.find?_some h
    exact (beq_iff_eq.mp hsign).symm
  · rintro rfl
    cases c <;> decide

theorem toNumber_eq_integerTooLarge_iff {v : Json} :
    v.toNumber = .error .integerTooLarge ↔ ∃ n, v = .int n ∧ Binary64.ofInt? n = none := by
  unfold Json.toNumber
  split
  · simp
  · rename_i n
    cases h : Binary64.ofInt? n <;> simp [h]
  · simp
  · rename_i s
    cases s.toString?.bind fun t => Numeral.read? t.toList <;> simp
  · rename_i hint _ _
    refine iff_of_false nofun fun ⟨n, hn, _⟩ => hint n hn

/-- What becomes of a threshold. -/
theorem validThreshold_cases (property : CodeText) (threshold : Json) :
    (∃ x, threshold.toNumber = .ok x ∧ validThreshold property threshold = .ok x) ∨
    (threshold.toNumber = .error .integerTooLarge ∧
      ∃ m, validThreshold property threshold = .error (.misuse m)) ∨
    (∃ m, m ≠ .integerTooLarge ∧ threshold.toNumber = .error m) ∧
      ∃ e, validThreshold property threshold = .error (.configuration e) := by
  rw [validThreshold]
  cases threshold.toNumber with
  | ok x => exact Or.inl ⟨x, rfl, rfl⟩
  | error m =>
    by_cases hm : m = .integerTooLarge
    · subst hm
      exact Or.inr (Or.inl ⟨rfl, _, rfl⟩)
    · refine Or.inr (Or.inr ⟨⟨m, hm, rfl⟩, .thresholdNoNumber property threshold, ?_⟩)
      cases m with
      | integerTooLarge => exact absurd rfl hm
      | _ => rfl

/-- What becomes of an operator. -/
theorem validComparison_cases (property : CodeText) (entries : Json.Entries) :
    (SoundOperator (.object entries) ∧ ∃ c, validComparison property entries = .ok c) ∨
    (BracketedOperator (.object entries) ∧
      ∃ m, validComparison property entries = .error (.misuse m)) ∨
    (¬ SoundOperator (.object entries) ∧ ¬ BracketedOperator (.object entries) ∧
      ∃ e, validComparison property entries = .error (.configuration e)) := by
  have hfind : ∀ key, (Json.object entries).find? key = Table.find? entries key := fun _ => rfl
  rw [validComparison, SoundOperator, BracketedOperator, hfind]
  cases Table.find? entries "operator" with
  | none => exact Or.inl ⟨nofun, _, rfl⟩
  | some operator =>
    simp only [Option.some.injEq, forall_eq', exists_eq_left']
    cases operator with
    | string s =>
      simp only [Json.isKey, if_true]
      cases hs : Comparison.ofSign? s with
      | some c => exact Or.inl ⟨⟨c, congrArg _ (Comparison.ofSign?_eq_some_iff.mp hs)⟩, c, rfl⟩
      | none =>
        refine Or.inr (Or.inr ⟨?_, by simp [Json.kind], _, rfl⟩)
        rintro ⟨c, hc⟩
        cases hc
        cases hs.symm.trans (Comparison.ofSign?_eq_some_iff.mpr rfl)
    | array es => exact Or.inr (Or.inl ⟨by simp [Json.kind], _, rfl⟩)
    | object es => exact Or.inr (Or.inl ⟨by simp [Json.kind], _, rfl⟩)
    | _ => exact Or.inr (Or.inr ⟨nofun, by simp [Json.kind], _, rfl⟩)

/-- What becomes of a limit. -/
theorem validLimit_cases (property : CodeText) (limit : Json) :
    (Sound limit ∧ ∃ l, validLimit property limit = .ok l) ∨
    (Unchecked limit ∧ ∃ m, validLimit property limit = .error (.misuse m)) ∨
    (¬ Sound limit ∧ ¬ Unchecked limit ∧
      ∃ e, validLimit property limit = .error (.configuration e)) := by
  cases hthreshold : limit.find? "threshold" with
  | none =>
    -- the limit is refused for its shape
    refine Or.inr (Or.inr ⟨by simp [Sound, hthreshold], by simp [Unchecked, hthreshold],
      .limitShape property, ?_⟩)
    cases limit with
    | object entries =>
      have hentry : Table.find? entries "threshold" = none := hthreshold
      rw [validLimit, hentry]
    | _ => rfl
  | some threshold =>
    cases limit with
    | object entries =>
      have hentry : Table.find? entries "threshold" = some threshold := hthreshold
      simp only [Sound, Unchecked, hthreshold, Option.some.injEq, exists_eq_left',
        ← toNumber_eq_integerTooLarge_iff, validLimit, hentry]
      rcases validThreshold_cases property threshold with
        ⟨x, hx, hvalid⟩ | ⟨hlarge, m, hm⟩ | ⟨⟨m, hm, hnumber⟩, e, he⟩
      · -- the threshold is a number, and the operator decides
        simp only [hx, hvalid, bind, Except.bind]
        rcases validComparison_cases property entries with
          ⟨hsound, c, hc⟩ | ⟨hbracketed, m, hm⟩ | ⟨hsound, hbracketed, e, he⟩
        · exact Or.inl ⟨⟨⟨x, rfl⟩, hsound⟩, ⟨x, c⟩, by rw [hc]; rfl⟩
        · exact Or.inr (Or.inl ⟨Or.inr ⟨⟨x, rfl⟩, hbracketed⟩, m, by rw [hm]⟩)
        · refine Or.inr (Or.inr ⟨fun h => hsound h.2, ?_, e, by rw [he]⟩)
          rintro (h | ⟨_, h⟩)
          · cases h
          · exact hbracketed h
      · exact Or.inr (Or.inl ⟨Or.inl hlarge, m, by rw [hm]; rfl⟩)
      · rw [hnumber]
        refine Or.inr (Or.inr ⟨by simp, ?_, e, by rw [he]; rfl⟩)
        rintro (h | ⟨⟨x, h⟩, _⟩)
        · exact hm (Except.error.inj h)
        · cases h
    | _ => cases hthreshold

theorem Sound.not_unchecked {limit : Json} (h : Sound limit) : ¬ Unchecked limit := by
  obtain ⟨threshold, hthreshold, ⟨x, hx⟩, hsound⟩ := h
  rintro ⟨t, ht, hlarge | ⟨_, operator, hoperator, hkind⟩⟩
  · cases hthreshold.symm.trans ht
    cases hx.symm.trans (toNumber_eq_integerTooLarge_iff.mpr hlarge)
  · obtain ⟨c, rfl⟩ := hsound operator hoperator
    simp [Json.kind] at hkind

theorem exists_validLimit_eq_ok_iff (property : CodeText) (limit : Json) :
    (∃ l, validLimit property limit = .ok l) ↔ Sound limit := by
  rcases validLimit_cases property limit with ⟨h, hok⟩ | ⟨h, m, hm⟩ | ⟨h, -, e, he⟩
  · exact iff_of_true hok h
  · exact iff_of_false (by simp [hm]) fun hsound => hsound.not_unchecked h
  · exact iff_of_false (by simp [he]) h

theorem exists_validLimit_eq_misuse_iff (property : CodeText) (limit : Json) :
    (∃ m, validLimit property limit = .error (.misuse m)) ↔ Unchecked limit := by
  rcases validLimit_cases property limit with ⟨h, l, hl⟩ | ⟨h, hm⟩ | ⟨-, h, e, he⟩
  · exact iff_of_false (by simp [hl]) h.not_unchecked
  · exact iff_of_true hm h
  · exact iff_of_false (by simp [he]) h

/-- The first limit that is not sound is unchecked. -/
def BreaksDown (limits : Json.Entries) : Prop :=
  ∃ before limit after, limits = before ++ limit :: after ∧ (∀ b ∈ before, Sound b.2) ∧
    Unchecked limit.2

theorem validEntry_eq_error_iff {entry : CodeText × Json} {fault : LimitFault} :
    validEntry entry = .error fault ↔ validLimit entry.1 entry.2 = .error fault := by
  rw [validEntry]
  cases validLimit entry.1 entry.2 <;> simp [Except.map]

theorem exists_validEntry_eq_ok_iff {entry : CodeText × Json} :
    (∃ l, validEntry entry = .ok l) ↔ Sound entry.2 := by
  rw [← exists_validLimit_eq_ok_iff entry.1, validEntry]
  cases validLimit entry.1 entry.2 <;> simp [Except.map]

/-- What becomes of a list of limits. -/
theorem validLimits_cases (limits : Json.Entries) :
    ((∀ e ∈ limits, Sound e.2) ∧ ∃ t, validLimits limits = .ok t) ∨
    (BreaksDown limits ∧ ∃ m, validLimits limits = .error (.misuse m)) ∨
    (¬ (∀ e ∈ limits, Sound e.2) ∧ ¬ BreaksDown limits ∧
      ∃ e, validLimits limits = .error (.configuration e)) := by
  rw [validLimits]
  cases hread : limits.mapM validEntry with
  | ok entries =>
    refine Or.inl ⟨fun e he => ?_, _, rfl⟩
    exact exists_validEntry_eq_ok_iff.mp (exists_of_mapM_eq_ok hread e he)
  | error fault =>
    obtain ⟨before, entry, after, rfl, hbefore, hfault⟩ := mapM_eq_error_iff.mp hread
    rw [validEntry_eq_error_iff] at hfault
    have hsound : ∀ b ∈ before, Sound b.2 := fun b hb =>
      exists_validEntry_eq_ok_iff.mp (hbefore b hb)
    cases fault with
    | misuse m =>
      have hunchecked := (exists_validLimit_eq_misuse_iff entry.1 entry.2).mp ⟨m, hfault⟩
      exact Or.inr (Or.inl ⟨⟨before, entry, after, rfl, hsound, hunchecked⟩, m, rfl⟩)
    | configuration e =>
      refine Or.inr (Or.inr ⟨fun hall => ?_, fun hbreaks => ?_, e, rfl⟩)
      · obtain ⟨l, hl⟩ := (exists_validLimit_eq_ok_iff entry.1 entry.2).mpr (hall entry (by simp))
        cases hfault.symm.trans hl
      · -- the limit that breaks down would be met before the refused one
        obtain ⟨before', entry', after', hsplit, hbefore', hunchecked⟩ := hbreaks
        obtain ⟨m, hm⟩ := (exists_validLimit_eq_misuse_iff entry'.1 entry'.2).mpr hunchecked
        have hmisuse := mapM_eq_error_iff.mpr ⟨before', entry', after', hsplit,
          fun b hb => exists_validEntry_eq_ok_iff.mpr (hbefore' b hb),
          validEntry_eq_error_iff.mpr hm⟩
        cases hread.symm.trans hmisuse

theorem BreaksDown.not_forall_sound {limits : Json.Entries} (h : BreaksDown limits) :
    ¬ ∀ e ∈ limits, Sound e.2 := by
  obtain ⟨before, limit, after, rfl, -, hunchecked⟩ := h
  exact fun hall => (hall limit (by simp)).not_unchecked hunchecked

theorem exists_validLimits_eq_ok_iff {limits : Json.Entries} :
    (∃ t, validLimits limits = .ok t) ↔ ∀ e ∈ limits, Sound e.2 := by
  rcases validLimits_cases limits with ⟨hsound, hok⟩ | ⟨hbreaks, m, hm⟩ | ⟨hnot, -, e, he⟩
  · exact iff_of_true hok hsound
  · exact iff_of_false (by simp [hm]) hbreaks.not_forall_sound
  · exact iff_of_false (by simp [he]) hnot

end Style

/-! ### Configurations -/

namespace Configuration

/-- The limits that a configuration states. -/
def limits (c : Configuration) : Json.Entries :=
  match c.limitRule? with
  | some (.object es) => es
  | _ => []

/-- The rule about unused classes can be read. -/
def HasOptions (c : Configuration) : Prop :=
  ∃ o, c.options = .ok o

/-- Validation looks at the rule about unused classes and then at the limits. -/
theorem validate_eq (c : Configuration) :
    c.validate = c.options.mapError Fault.configuration >>= fun _ =>
      ((Style.validLimits c.limits).mapError Fault.ofLimit).map fun _ => () := by
  rw [validate, limits]
  cases c.options with
  | error e => rfl
  | ok o =>
    cases c.limitRule? with
    | none => rfl
    | some rule =>
      cases rule with
      | object es =>
        simp only
        cases Style.validLimits es <;> rfl
      | _ => rfl

/-- What validation does with a configuration. -/
theorem validate_cases (c : Configuration) :
    (c.HasOptions ∧ (∀ e ∈ c.limits, Style.Sound e.2) ∧ c.validate = .ok ()) ∨
    (c.HasOptions ∧ Style.BreaksDown c.limits ∧ ∃ m, c.validate = .error (.misuse m)) ∨
    (¬ (c.HasOptions ∧ ∀ e ∈ c.limits, Style.Sound e.2) ∧
      ¬ (c.HasOptions ∧ Style.BreaksDown c.limits) ∧
      ∃ e, c.validate = .error (.configuration e)) := by
  rw [validate_eq, HasOptions]
  cases c.options with
  | error e => exact Or.inr (Or.inr ⟨by simp, by simp, e, rfl⟩)
  | ok o =>
    rcases Style.validLimits_cases c.limits with
      ⟨hsound, t, ht⟩ | ⟨hbreaks, m, hm⟩ | ⟨hnot, hbreaks, e, he⟩
    · exact Or.inl ⟨⟨o, rfl⟩, hsound, by rw [ht]; rfl⟩
    · exact Or.inr (Or.inl ⟨⟨o, rfl⟩, hbreaks, m, by rw [hm]; rfl⟩)
    · exact Or.inr (Or.inr ⟨fun h => hnot h.2, fun h => hbreaks h.2, e, by rw [he]; rfl⟩)

/-- Validation accepts a configuration iff its options can be read and its limits are sound. -/
theorem validate_eq_ok_iff {c : Configuration} :
    c.validate = .ok () ↔ c.HasOptions ∧ ∀ e ∈ c.limits, Style.Sound e.2 := by
  rcases c.validate_cases with ⟨ho, hsound, hok⟩ | ⟨-, hbreaks, m, hm⟩ | ⟨hnot, -, e, he⟩
  · exact iff_of_true hok ⟨ho, hsound⟩
  · exact iff_of_false (by simp [hm]) fun h => hbreaks.not_forall_sound h.2
  · exact iff_of_false (by simp [he]) hnot

/-! ### Files -/

/-- A text states the rules of a configuration, at least one. -/
def States (text : String) (nesting : Nat) (c : Configuration) : Prop :=
  ∃ es, Json.parseCommentedWithin nesting text = .ok (.object es) ∧
    Table.find? es "rules" = some (.object c.rules) ∧ c.rules ≠ []

theorem readJson_of_tooDeep {text : String} {nesting : Nat} {b : Json.Bracket}
    (h : Json.parseCommentedWithin nesting text = .error (.tooDeep b)) :
    readJson text nesting = .error (.json (.tooDeep b)) := by
  rw [readJson, h]

theorem readJson_of_error {text : String} {nesting : Nat} {e : Json.ReadError}
    (he : ∀ b, e ≠ .tooDeep b) (h : Json.parseCommentedWithin nesting text = .error e) :
    readJson text nesting = .error (.configuration (.unreadable (.json e))) := by
  rw [readJson, h]
  cases e with
  | tooDeep b => exact absurd rfl (he b)
  | _ => rfl

/-- What becomes of a text with a value. -/
theorem ofText?_cases_of_ok {text : String} {nesting : Nat} {v : Json}
    (hparse : Json.parseCommentedWithin nesting text = .ok v) :
    (∃ c, States text nesting c ∧ ofText? text nesting = c.validate.map fun _ => some c) ∨
    (∀ c, ¬ States text nesting c) ∧
      (ofText? text nesting = .ok none ∨ ∃ e, ofText? text nesting = .error (.configuration e)) := by
  have hread : readJson text nesting = .ok v := by rw [readJson, hparse]
  rw [ofText?, hread]
  cases v with
  | object es =>
    -- the entry for the rules decides
    have hstates : ∀ c, States text nesting c ↔
        Table.find? es "rules" = some (.object c.rules) ∧ c.rules ≠ [] := by
      intro c
      simp only [States, hparse, Except.ok.injEq, Json.object.injEq, exists_eq_left']
    simp only [bind, Except.bind, pure, Except.pure, hstates]
    cases Table.find? es "rules" with
    | none => exact Or.inr ⟨by simp, Or.inl rfl⟩
    | some rules =>
      cases rules with
      | object rs =>
        cases rs with
        | nil =>
          refine Or.inr ⟨?_, Or.inl rfl⟩
          rintro c ⟨h, hne⟩
          cases c
          cases h
          exact hne rfl
        | cons r rs =>
          refine Or.inl ⟨⟨r :: rs⟩, ⟨rfl, by simp⟩, ?_⟩
          simp only [Json.isSet, List.isEmpty_cons, Bool.not_false, if_true]
          cases validate ⟨r :: rs⟩ <;> rfl
      | _ =>
        refine Or.inr ⟨by simp, ?_⟩
        simp only
        split
        · exact Or.inr ⟨_, rfl⟩
        · exact Or.inl rfl
  | _ =>
    refine Or.inr ⟨?_, Or.inr ⟨_, rfl⟩⟩
    rintro c ⟨es, h, -⟩
    cases hparse.symm.trans h

/-- What becomes of a text. -/
theorem ofText?_cases (text : String) (nesting : Nat) :
    (∃ c, States text nesting c ∧ ofText? text nesting = c.validate.map fun _ => some c) ∨
    (∀ c, ¬ States text nesting c) ∧ ¬ Json.TooDeepCommented nesting text ∧
      (ofText? text nesting = .ok none ∨ ∃ e, ofText? text nesting = .error (.configuration e)) ∨
    (∀ c, ¬ States text nesting c) ∧ Json.TooDeepCommented nesting text ∧
      ∃ b, ofText? text nesting = .error (.json (.tooDeep b)) := by
  have hnone : ∀ {e}, Json.parseCommentedWithin nesting text = .error e →
      ∀ c, ¬ States text nesting c := by
    rintro e he c ⟨es, h, -⟩
    cases he.symm.trans h
  rcases Json.parseCommentedWithin_cases nesting text with ⟨hdeep, hwithin⟩ | ⟨hdeep, b, hwithin⟩
  · cases hparse : Json.parseCommented text with
    | error e =>
      have herror := hwithin.trans hparse
      have hne : ∀ b, e ≠ .tooDeep b := by
        rintro b rfl
        exact Json.parse_ne_tooDeep _ b hparse
      refine Or.inr (Or.inl ⟨hnone herror, hdeep, Or.inr ⟨.unreadable (.json e), ?_⟩⟩)
      rw [ofText?, readJson_of_error hne herror]
      rfl
    | ok v =>
      rcases ofText?_cases_of_ok (hwithin.trans hparse) with hstates | ⟨hno, hresult⟩
      · exact Or.inl hstates
      · exact Or.inr (Or.inl ⟨hno, hdeep, hresult⟩)
  · refine Or.inr (Or.inr ⟨hnone hwithin, hdeep, b, ?_⟩)
    rw [ofText?, readJson_of_tooDeep hwithin]
    rfl

/-- The configuration file of a project can be read and has a text. -/
def HasText (d : Disk) (root : String) (path : Option String) (text : String) : Prop :=
  d.isFile (place root path) = true ∧ d.read (place root path) = .ok text

/-- The configuration file of a project states the rules of a configuration. -/
def StatedIn (d : Disk) (root : String) (path : Option String) (nesting : Nat)
    (c : Configuration) : Prop :=
  ∃ text, HasText d root path text ∧ States text nesting c

/-- The configuration file of a project is nested too deep. -/
def NestedTooDeep (d : Disk) (root : String) (path : Option String) (nesting : Nat) : Prop :=
  ∃ text, HasText d root path text ∧ Json.TooDeepCommented nesting text

section Files

variable {d : Disk} {root : String} {path : Option String} {nesting : Nat}

theorem HasText.unique {text text' : String} (h : HasText d root path text)
    (h' : HasText d root path text') : text = text' :=
  Except.ok.inj (h.2.symm.trans h'.2)

theorem States.not_tooDeep {text : String} {c : Configuration} (h : States text nesting c) :
    ¬ Json.TooDeepCommented nesting text := by
  obtain ⟨es, hparse, -⟩ := h
  rcases Json.parseCommentedWithin_cases nesting text with ⟨hdeep, -⟩ | ⟨-, b, hwithin⟩
  · exact hdeep
  · cases hparse.symm.trans hwithin

theorem StatedIn.unique {c c' : Configuration} (h : StatedIn d root path nesting c)
    (h' : StatedIn d root path nesting c') : c = c' := by
  obtain ⟨text, htext, es, hparse, hrules, -⟩ := h
  obtain ⟨text', htext', es', hparse', hrules', -⟩ := h'
  cases htext.unique htext'
  cases hparse.symm.trans hparse'
  cases c
  cases c'
  cases hrules.symm.trans hrules'
  rfl

theorem StatedIn.not_nestedTooDeep {c : Configuration} (h : StatedIn d root path nesting c) :
    ¬ NestedTooDeep d root path nesting := by
  obtain ⟨text, htext, hstates⟩ := h
  rintro ⟨text', htext', hdeep⟩
  cases htext.unique htext'
  exact hstates.not_tooDeep hdeep

end Files

/-- What becomes of the configuration file of a project. -/
theorem result_load_cases (d : Disk) (root : String) (path : Option String) (nesting : Nat) :
    (∃ c, StatedIn d root path nesting c ∧
      (load d root path nesting).result = c.validate.map fun _ => some c) ∨
    (∀ c, ¬ StatedIn d root path nesting c) ∧ ¬ NestedTooDeep d root path nesting ∧
      ((load d root path nesting).result = .ok none ∨
        ∃ e, (load d root path nesting).result = .error (.configuration e)) ∨
    (∀ c, ¬ StatedIn d root path nesting c) ∧ NestedTooDeep d root path nesting ∧
      ∃ b, (load d root path nesting).result = .error (.json (.tooDeep b)) := by
  have hnone : (∀ text, ¬ HasText d root path text) →
      (∀ c, ¬ StatedIn d root path nesting c) ∧ ¬ NestedTooDeep d root path nesting :=
    fun h => ⟨fun _ ⟨text, htext, _⟩ => h text htext, fun ⟨text, htext, _⟩ => h text htext⟩
  simp only [load]
  cases hfile : d.isFile (place root path) with
  | false =>
    obtain ⟨hstated, hdeep⟩ := hnone fun text h => by cases hfile.symm.trans h.1
    exact Or.inr (Or.inl ⟨hstated, hdeep, Or.inl rfl⟩)
  | true =>
    rw [if_pos rfl]
    cases hread : d.read (place root path) with
    | error e =>
      obtain ⟨hstated, hdeep⟩ := hnone fun text h => by cases hread.symm.trans h.2
      exact Or.inr (Or.inl ⟨hstated, hdeep, Or.inr ⟨_, rfl⟩⟩)
    | ok text =>
      have htext : HasText d root path text := ⟨hfile, hread⟩
      have hstated : (∀ c, ¬ States text nesting c) → ∀ c, ¬ StatedIn d root path nesting c := by
        rintro hno c ⟨text', htext', hc⟩
        cases htext.unique htext'
        exact hno c hc
      rcases ofText?_cases text nesting with
        ⟨c, hc, hresult⟩ | ⟨hno, hdeep, hresult⟩ | ⟨hno, hdeep, hresult⟩
      · exact Or.inl ⟨c, ⟨text, htext, hc⟩, hresult⟩
      · refine Or.inr (Or.inl ⟨hstated hno, ?_, hresult⟩)
        rintro ⟨text', htext', hdeep'⟩
        cases htext.unique htext'
        exact hdeep hdeep'
      · exact Or.inr (Or.inr ⟨hstated hno, ⟨text, htext, hdeep⟩, hresult⟩)

end Configuration

end StyleAudit
