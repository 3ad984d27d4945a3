import Mathlib.Data.List.Basic
import StyleAudit.Json.Commented

/-!
# How deep a text is nested

Reading with a limit on open brackets differs from reading without one in one way only: it stops at
a bracket that opens a value while as many brackets are open as the limit allows.  Which brackets are
open is counted in the text (`TooDeep`), and the frames of the machine are as many as this count
(`State.depth_step`, `State.depth_run`).

* `parseWithin_cases`: reading with a limit is reading, unless the text is nested too deep.
-/

namespace StyleAudit.Json

/-! ### Open brackets -/

def Token.opens : Token → Bool
  | .beginArray | .beginObject => true
  | _ => false

def Token.closes : Token → Bool
  | .endArray | .endObject => true
  | _ => false

/-- How many brackets are open in a state.  An object has its frame when a value of it begins. -/
def State.depth (s : State) : Nat :=
  match s.expects with
  | .name _ | .nameOrEnd | .colon _ _ => s.frames.length + 1
  | _ => s.frames.length

theorem State.depth_beginValue {frames : List Frame} {t : Located} {s : State}
    (h : beginValue frames t = .ok s) :
    s.depth + t.token.closes.toNat = frames.length + t.token.opens.toNat := by
  obtain ⟨position, token⟩ := t
  cases token <;> cases h <;> rfl

theorem State.depth_beginName {entries : Entries} {frames : List Frame} {t : Located} {s : State}
    (h : beginName entries frames t = .ok s) :
    s.depth + t.token.closes.toNat = frames.length + 1 + t.token.opens.toNat := by
  obtain ⟨position, token⟩ := t
  cases token with
  | string name => cases h; rfl
  | _ => cases h

theorem State.depth_step {s s' : State} {t : Located} (h : s.step t = .ok s') :
    s'.depth + t.token.closes.toNat = s.depth + t.token.opens.toNat := by
  obtain ⟨expects, frames⟩ := s
  obtain ⟨position, token⟩ := t
  cases expects with
  | value => exact depth_beginValue h
  | valueOrEnd =>
    cases frames with
    | nil => cases token <;> exact depth_beginValue h
    | cons frame outer =>
      cases frame with
      | object entries key => cases token <;> exact depth_beginValue h
      | array es =>
        cases token with
        | endArray => cases h; rfl
        | _ => exact depth_beginValue h
  | name entries => exact depth_beginName h
  | nameOrEnd =>
    cases token with
    | endObject => cases h; rfl
    | _ => exact depth_beginName (show beginName [] frames _ = _ from h)
  | colon entries key =>
    cases token with
    | colon => cases h; rfl
    | _ => cases h
  | after v =>
    cases frames with
    | nil =>
      cases token with
      | ending => cases h; rfl
      | _ => cases h
    | cons frame outer => cases frame <;> cases token <;> cases h <;> rfl

theorem State.depth_run {ts : List Located} : ∀ {s s' : State}, ts.foldlM State.step s = .ok s' →
    s'.depth + ts.countP (·.token.closes) = s.depth + ts.countP (·.token.opens) := by
  induction ts with
  | nil =>
    intro s s' h
    cases h
    rfl
  | cons t ts ih =>
    intro s s' h
    rw [List.foldlM_cons] at h
    cases hstep : s.step t with
    | error e =>
      rw [hstep] at h
      cases h
    | ok next =>
      rw [hstep] at h
      have hrest := ih h
      have hfirst := depth_step hstep
      rw [List.countP_cons, List.countP_cons]
      cases hopens : t.token.opens <;> cases hcloses : t.token.closes <;>
        simp only [hopens, hcloses, Bool.toNat_true, Bool.toNat_false, if_true, if_false,
          Bool.false_eq_true] at hfirst ⊢ <;> omega

theorem State.depth_of_opens {s : State} {t : Located} (h : (s.opens? t).isSome) :
    s.depth = s.frames.length := by
  obtain ⟨expects, frames⟩ := s
  cases expects <;> first | rfl | simp [opens?] at h

/-! ### Too many open brackets -/

/-- Reading the text comes to a bracket that opens a value when `limit` brackets are open. -/
def TooDeep (limit : Nat) (cs : List Char) : Prop :=
  ∃ before t after s, tokens cs = before ++ t :: after ∧
    before.foldlM State.step ⟨.value, []⟩ = .ok s ∧ (s.opens? t).isSome ∧
    limit + before.countP (·.token.closes) ≤ before.countP (·.token.opens)

theorem isSome_tooDeep?_iff {limit : Nat} {ts : List Located} : ∀ {s : State},
    (tooDeep? limit s ts).isSome ↔ ∃ before t after s', ts = before ++ t :: after ∧
      before.foldlM State.step s = .ok s' ∧ (s'.opens? t).isSome ∧ limit ≤ s'.frames.length := by
  induction ts with
  | nil => simp [tooDeep?]
  | cons t ts ih =>
    intro s
    rw [tooDeep?]
    split
    · rename_i b hdeep
      obtain ⟨hopens, hlimit⟩ := Option.filter_eq_some_iff.mp hdeep
      exact iff_of_true rfl ⟨[], t, ts, s, rfl, rfl, by rw [hopens]; rfl, of_decide_eq_true hlimit⟩
    · rename_i hshallow
      have hhere : ¬ ((s.opens? t).isSome ∧ limit ≤ s.frames.length) := by
        rintro ⟨hopens, hlimit⟩
        obtain ⟨b, hb⟩ := Option.isSome_iff_exists.mp hopens
        exact (Option.filter_eq_none_iff.mp hshallow) b hb (decide_eq_true hlimit)
      -- so the bracket stands behind the first token, and reading comes past this token
      have hsplit : (∃ before u after s', t :: ts = before ++ u :: after ∧
          before.foldlM State.step s = .ok s' ∧ (s'.opens? u).isSome ∧ limit ≤ s'.frames.length) ↔
          ∃ before u after s', ts = before ++ u :: after ∧
            (t :: before).foldlM State.step s = .ok s' ∧ (s'.opens? u).isSome ∧
              limit ≤ s'.frames.length := by
        constructor
        · rintro ⟨before, u, after, s', hts, hrun, hdeep⟩
          cases before with
          | nil =>
            cases hts
            cases hrun
            exact absurd hdeep hhere
          | cons _ before =>
            cases hts
            exact ⟨before, u, after, s', rfl, hrun, hdeep⟩
        · rintro ⟨before, u, after, s', rfl, hrun, hdeep⟩
          exact ⟨t :: before, u, after, s', rfl, hrun, hdeep⟩
      rw [hsplit]
      simp only [List.foldlM_cons]
      cases s.step t with
      | error e => simp [bind, Except.bind]
      | ok next => exact ih

theorem isSome_tooDeep?_tokens_iff {limit : Nat} {cs : List Char} :
    (tooDeep? limit ⟨.value, []⟩ (tokens cs)).isSome ↔ TooDeep limit cs := by
  rw [isSome_tooDeep?_iff, TooDeep]
  refine exists_congr fun before => exists_congr fun t => exists_congr fun after =>
    exists_congr fun s => and_congr_right fun _ => and_congr_right fun hrun =>
      and_congr_right fun hopens => ?_
  have hdepth := State.depth_run hrun
  rw [State.depth_of_opens hopens] at hdepth
  have hstart : State.depth ⟨.value, []⟩ = 0 := rfl
  omega

/-- Without a limit no text is nested too deep. -/
theorem parse_ne_tooDeep (cs : List Char) (b : Bracket) : parse cs ≠ .error (.tooDeep b) := by
  rw [parse]
  split
  · simp
  · cases ofTokens (tokens cs) with
    | ok v => simp
    | error e => cases e <;> simp [Failure.locate]

/-- **Reading with a limit is reading, unless the text is nested too deep.** -/
theorem parseWithin_cases (limit : Nat) (cs : List Char) :
    (¬ TooDeep limit cs ∧ parseWithin limit cs = parse cs) ∨
      TooDeep limit cs ∧ ∃ b, parseWithin limit cs = .error (.tooDeep b) := by
  rw [parseWithin, ← isSome_tooDeep?_tokens_iff]
  cases tooDeep? limit ⟨.value, []⟩ (tokens cs) with
  | none => exact Or.inl ⟨by simp, rfl⟩
  | some b => exact Or.inr ⟨rfl, b, rfl⟩

/-- The text, its comments and last commas taken out, is nested too deep. -/
def TooDeepCommented (limit : Nat) (text : String) : Prop :=
  TooDeep limit (withoutLastCommas (withoutComments text.toList))

theorem parseCommentedWithin_cases (limit : Nat) (text : String) :
    (¬ TooDeepCommented limit text ∧ parseCommentedWithin limit text = parseCommented text) ∨
      TooDeepCommented limit text ∧ ∃ b, parseCommentedWithin limit text = .error (.tooDeep b) :=
  parseWithin_cases limit _

end StyleAudit.Json
