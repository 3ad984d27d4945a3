import StyleAudit.Json.Parser
import StyleAudit.Proofs.Json.Layout

/-!
# Documents

The grammar of JSON over lexemes, with what each phrase means (`Writes`), and the machine that reads
tokens.

* `Writes.fits`: in a document no comma stands before a closing bracket and no number before a
  number.
* `Writes.parse_text`: every spacing of a document is read as the value that the document writes.
* `exists_spacing_of_parse`: every text that is read as a value is a spacing of lexemes in which no
  comma stands before a closing bracket.
-/

namespace StyleAudit.Json

/-! ### The grammar -/

/-- What a lexeme means if it is a whole value: the value, or how many digits it has if they are too
many. -/
def Lexeme.value? (x : Lexeme) : Option (Except Nat Json) :=
  match x.token with
  | .string s => some (.ok (.string s))
  | .scalar v => some (.ok v)
  | .longInteger digits => some (.error digits)
  | _ => none

/-- A part of a document with its meaning: a value, the elements of an array or the members of an
object.  The meaning fails with the digits of the first whole number that has too many. -/
inductive Phrase where
  | value (meaning : Except Nat Json)
  | elements (meaning : Except Nat (List Json))
  | members (meaning : Except Nat (List (CodeText × Json)))

/-- The lexemes write the phrase. -/
inductive Writes : Phrase → List Lexeme → Prop
  | leaf {x : Lexeme} {meaning : Except Nat Json} (h : x.value? = some meaning) :
      Writes (.value meaning) [x]
  | emptyArray : Writes (.value (.ok (.array []))) [.beginArray, .endArray]
  | array {xs : List Lexeme} {meaning : Except Nat (List Json)} (h : Writes (.elements meaning) xs) :
      Writes (.value (meaning.map .array)) (.beginArray :: (xs ++ [.endArray]))
  | emptyObject : Writes (.value (.ok (.object []))) [.beginObject, .endObject]
  | object {xs : List Lexeme} {meaning : Except Nat (List (CodeText × Json))}
      (h : Writes (.members meaning) xs) :
      Writes (.value (meaning.map fun entries => .object (Table.ofList entries)))
        (.beginObject :: (xs ++ [.endObject]))
  | element {xs : List Lexeme} {meaning : Except Nat Json} (h : Writes (.value meaning) xs) :
      Writes (.elements (meaning.map ([·]))) xs
  | elements {xs ys : List Lexeme} {meaning : Except Nat Json} {more : Except Nat (List Json)}
      (h : Writes (.value meaning) xs) (rest : Writes (.elements more) ys) :
      Writes (.elements (meaning.bind fun v => more.map (v :: ·))) (xs ++ .comma :: ys)
  | member {body : List Char} {form : StringBody body} {name : CodeText} {xs : List Lexeme}
      {meaning : Except Nat Json} (hname : (Lexeme.string body form).token = .string name)
      (h : Writes (.value meaning) xs) :
      Writes (.members (meaning.map fun v => [(name, v)])) (.string body form :: .colon :: xs)
  | members {body : List Char} {form : StringBody body} {name : CodeText} {xs ys : List Lexeme}
      {meaning : Except Nat Json} {more : Except Nat (List (CodeText × Json))}
      (hname : (Lexeme.string body form).token = .string name) (h : Writes (.value meaning) xs)
      (rest : Writes (.members more) ys) :
      Writes (.members (meaning.bind fun v => more.map ((name, v) :: ·)))
        (.string body form :: .colon :: (xs ++ .comma :: ys))

/-! ### Neighbours -/

/-- The two lexemes may be neighbours in a document. -/
def Lexeme.Fits (x y : Lexeme) : Prop :=
  x.CommaFits y ∧ x.NumberFits y

theorem Lexeme.not_isCloser_of_value? {x : Lexeme} {meaning : Except Nat Json}
    (h : x.value? = some meaning) : x.isCloser = false ∧ x ≠ .comma := by
  cases x with
  | string body form => simp [isCloser]
  | word name known => simp [isCloser]
  | number n => simp [isCloser]
  | _ => cases h

/-- How a phrase begins and ends. -/
theorem Writes.ends {p : Phrase} {xs : List Lexeme} (h : Writes p xs) :
    (∃ x more, xs = x :: more ∧ x.isCloser = false) ∧ ∃ front x, xs = front ++ [x] ∧ x ≠ .comma := by
  induction h with
  | @leaf x meaning hx =>
    obtain ⟨hcloser, hcomma⟩ := Lexeme.not_isCloser_of_value? hx
    exact ⟨⟨x, [], rfl, hcloser⟩, ⟨[], x, rfl, hcomma⟩⟩
  | emptyArray => exact ⟨⟨_, _, rfl, rfl⟩, ⟨[.beginArray], _, rfl, by simp⟩⟩
  | @array xs => exact ⟨⟨_, _, rfl, rfl⟩, ⟨.beginArray :: xs, _, rfl, by simp⟩⟩
  | emptyObject => exact ⟨⟨_, _, rfl, rfl⟩, ⟨[.beginObject], _, rfl, by simp⟩⟩
  | @object xs => exact ⟨⟨_, _, rfl, rfl⟩, ⟨.beginObject :: xs, _, rfl, by simp⟩⟩
  | element _ ih => exact ih
  | @elements xs _ _ _ _ _ ih ihmore =>
    obtain ⟨⟨x, more, rfl, hx⟩, -⟩ := ih
    obtain ⟨-, front, y, rfl, hy⟩ := ihmore
    exact ⟨⟨x, _, rfl, hx⟩, ⟨x :: more ++ .comma :: front, y, by simp, hy⟩⟩
  | @member body form _ _ _ _ _ ih =>
    obtain ⟨-, front, y, rfl, hy⟩ := ih
    exact ⟨⟨_, _, rfl, rfl⟩, ⟨.string body form :: .colon :: front, y, rfl, hy⟩⟩
  | @members body form _ xs _ _ _ _ _ _ _ ihmore =>
    obtain ⟨-, front, y, rfl, hy⟩ := ihmore
    exact ⟨⟨_, _, rfl, rfl⟩,
      ⟨.string body form :: .colon :: (xs ++ .comma :: front), y, by simp, hy⟩⟩

/-- **In a document neighbours fit.** -/
theorem Writes.fits {p : Phrase} {xs : List Lexeme} (h : Writes p xs) : xs.IsChain Lexeme.Fits := by
  have hopen : ∀ {x : Lexeme} {ys : List Lexeme}, x ≠ .comma → x.isNumber = false →
      ys.IsChain Lexeme.Fits → (x :: ys).IsChain Lexeme.Fits := by
    intro x ys hcomma hnumber hys
    refine hys.cons fun y _ => ⟨fun hx => absurd hx hcomma, fun hx => ?_⟩
    rw [hnumber] at hx
    cases hx
  have hclose : ∀ {x : Lexeme} {ys : List Lexeme} {q : Phrase}, x.isNumber = false →
      Writes q ys → ys.IsChain Lexeme.Fits → (ys ++ [x]).IsChain Lexeme.Fits := by
    intro x ys q hnumber hw hys
    refine hys.append (.singleton x) fun y hy z hz => ?_
    obtain rfl : x = z := by simpa using hz
    obtain ⟨-, front, w, rfl, hcomma⟩ := hw.ends
    obtain rfl : w = y := by simpa using hy
    exact ⟨fun h => absurd h hcomma, fun _ => hnumber⟩
  have hcomma : ∀ {xs ys : List Lexeme} {q r : Phrase}, Writes q xs → Writes r ys →
      xs.IsChain Lexeme.Fits → ys.IsChain Lexeme.Fits →
        (xs ++ .comma :: ys).IsChain Lexeme.Fits := by
    intro xs ys q r hxs hys hfits hfits'
    obtain ⟨⟨y, more, rfl, hy⟩, -⟩ := hys.ends
    have hcons : (Lexeme.comma :: y :: more).IsChain Lexeme.Fits :=
      hfits'.cons_cons ⟨fun _ => hy, fun hx => by cases hx⟩
    refine hfits.append hcons fun x hx z hz => ?_
    obtain rfl : Lexeme.comma = z := by simpa using hz
    exact ⟨fun _ => rfl, fun _ => rfl⟩
  induction h with
  | leaf => exact .singleton _
  | emptyArray => exact hopen (by simp) rfl (.singleton _)
  | array h ih => exact hopen (by simp) rfl (hclose rfl h ih)
  | emptyObject => exact hopen (by simp) rfl (.singleton _)
  | object h ih => exact hopen (by simp) rfl (hclose rfl h ih)
  | element _ ih => exact ih
  | elements h hmore ih ihmore => exact hcomma h hmore ih ihmore
  | member _ _ ih => exact hopen (by simp) rfl (hopen (by simp) rfl ih)
  | members _ h hmore ih ihmore =>
    exact hopen (by simp) rfl (hopen (by simp) rfl (hcomma h hmore ih ihmore))

/-! ### What the machine does with a document -/

/-- The lexeme's token, at no place in particular. -/
def Lexeme.located (x : Lexeme) : Located :=
  ⟨0, x.token⟩

/-- The machine after the lexemes. -/
def State.run (s : State) (xs : List Lexeme) : Except Failure State :=
  (xs.map Lexeme.located).foldlM State.step s

theorem State.run_cons (s : State) (x : Lexeme) (xs : List Lexeme) :
    s.run (x :: xs) = (s.step x.located).bind (·.run xs) := rfl

theorem State.run_append (s : State) (xs ys : List Lexeme) :
    s.run (xs ++ ys) = (s.run xs).bind (·.run ys) := by
  rw [run, List.map_append, List.foldlM_append]
  rfl

/-- The state that a meaning leads to, or the failure. -/
def outcome {α : Type} (meaning : Except Nat α) (next : α → State) : Except Failure State :=
  match meaning with
  | .ok a => .ok (next a)
  | .error digits => .error (.tooManyDigits digits)

/-- The lexemes of the phrase take the machine where its meaning says. -/
def Phrase.Runs (xs : List Lexeme) : Phrase → Prop
  | .value meaning => ∀ frames, State.run ⟨.value, frames⟩ xs =
      outcome meaning fun v => .finish v frames
  | .elements meaning => ∀ es frames, State.run ⟨.value, .array es :: frames⟩ (xs ++ [.endArray]) =
      outcome meaning fun vs => .finish (.array (es ++ vs)) frames
  | .members meaning => ∀ es frames, State.run ⟨.name es, frames⟩ (xs ++ [.endObject]) =
      outcome meaning fun entries =>
        .finish (.object (entries.foldl (fun t e => Table.put t e.1 e.2) es)) frames

theorem Lexeme.token_ne_closer {x : Lexeme} (h : x.isCloser = false) :
    x.token ≠ .endArray ∧ x.token ≠ .endObject := by
  cases x with
  | string body form =>
    obtain ⟨s, hs⟩ := form.exists_reading
    simp [token_string form hs]
  | word name known =>
    obtain ⟨v, hv⟩ := token_word known
    simp [hv]
  | number n =>
    rw [token_number]
    rcases n.token_cases with ⟨v, hv⟩ | ⟨digits, hv⟩ <;> simp [hv]
  | endObject => cases h
  | endArray => cases h
  | _ =>
    constructor <;> intro htoken <;> cases htoken

/-- Where an array has just begun, anything but its end begins a value. -/
theorem State.run_valueOrEnd {x : Lexeme} (hx : x.isCloser = false) (xs : List Lexeme)
    (frames : List Frame) :
    State.run ⟨.valueOrEnd, frames⟩ (x :: xs) = State.run ⟨.value, frames⟩ (x :: xs) := by
  have hstep : State.step ⟨.valueOrEnd, frames⟩ x.located =
      State.step ⟨.value, frames⟩ x.located := by
    simp only [State.step]
    split
    · rename_i htoken
      exact absurd htoken (Lexeme.token_ne_closer hx).1
    · rfl
  rw [run_cons, hstep, ← run_cons]

/-- Where an object has just begun, anything but its end begins a member. -/
theorem State.run_nameOrEnd {x : Lexeme} (hx : x.isCloser = false) (xs : List Lexeme)
    (frames : List Frame) :
    State.run ⟨.nameOrEnd, frames⟩ (x :: xs) = State.run ⟨.name [], frames⟩ (x :: xs) := by
  have hstep : State.step ⟨.nameOrEnd, frames⟩ x.located =
      State.step ⟨.name [], frames⟩ x.located := by
    simp only [State.step]
    split
    · rename_i htoken
      exact absurd htoken (Lexeme.token_ne_closer hx).2
    · rfl
  rw [run_cons, hstep, ← run_cons]

theorem State.run_member {body : List Char} {form : StringBody body} {name : CodeText}
    (hname : (Lexeme.string body form).token = .string name) (es : Entries)
    (frames : List Frame) (xs : List Lexeme) :
    State.run ⟨.name es, frames⟩ (.string body form :: .colon :: xs) =
      State.run ⟨.value, .object es name :: frames⟩ xs := by
  have hstep : State.step ⟨.name es, frames⟩ (Lexeme.string body form).located =
      .ok ⟨.colon es name, frames⟩ := by
    simp only [State.step, State.beginName, Lexeme.located, hname]
  rw [run_cons, hstep]
  rfl

/-- **The machine reads every phrase.** -/
theorem Writes.run {p : Phrase} {xs : List Lexeme} (h : Writes p xs) : p.Runs xs := by
  induction h with
  | @leaf x meaning hx =>
    intro frames
    rw [Lexeme.value?] at hx
    have hrun : State.run ⟨.value, frames⟩ [x] = State.beginValue frames x.located :=
      bind_pure _
    rw [hrun, State.beginValue, Lexeme.located]
    split at hx <;> cases hx <;> rename_i htoken <;> simp only [htoken] <;> rfl
  | emptyArray => exact fun frames => rfl
  | @array xs meaning h ih =>
    intro frames
    obtain ⟨⟨x, more, rfl, hx⟩, -⟩ := h.ends
    have hopen : State.step ⟨.value, frames⟩ Lexeme.beginArray.located =
        .ok ⟨.valueOrEnd, .array [] :: frames⟩ := rfl
    rw [State.run_cons, hopen]
    change State.run ⟨.valueOrEnd, .array [] :: frames⟩ (x :: (more ++ [.endArray])) = _
    rw [State.run_valueOrEnd hx]
    refine (ih [] frames).trans ?_
    cases meaning <;> rfl
  | emptyObject => exact fun frames => rfl
  | @object xs meaning h ih =>
    intro frames
    obtain ⟨⟨x, more, rfl, hx⟩, -⟩ := h.ends
    change State.run ⟨.nameOrEnd, frames⟩ (x :: (more ++ [.endObject])) = _
    rw [State.run_nameOrEnd hx]
    refine (ih [] frames).trans ?_
    cases meaning <;> rfl
  | @element xs meaning _ ih =>
    intro es frames
    rw [State.run_append, ih]
    cases meaning <;> rfl
  | @elements xs ys meaning more _ _ ih ihmore =>
    intro es frames
    rw [List.append_assoc, List.cons_append, State.run_append, ih]
    cases meaning with
    | error digits => rfl
    | ok v =>
      refine (ihmore (es ++ [v]) frames).trans ?_
      cases more with
      | error digits => rfl
      | ok vs => simp [outcome, Except.bind, Except.map]
  | @member body form name xs meaning hname _ ih =>
    intro es frames
    rw [List.cons_append, List.cons_append, State.run_member hname, State.run_append, ih]
    cases meaning <;> rfl
  | @members body form name xs ys meaning more hname _ _ ih ihmore =>
    intro es frames
    rw [List.cons_append, List.cons_append, State.run_member hname, List.append_assoc,
      List.cons_append, State.run_append, ih]
    cases meaning with
    | error digits => rfl
    | ok v =>
      refine (ihmore (es.put name v) frames).trans ?_
      cases more <;> rfl

/-! ### Positions -/

/-- The failure without its place. -/
def Failure.unplaced : Failure → Failure
  | .unexpected cause _ => .unexpected cause 0
  | .tooManyDigits digits => .tooManyDigits digits

/-- Positions matter only for where a failure is reported. -/
theorem State.step_unplaced (s : State) (t : Token) (p q : Nat) :
    (s.step ⟨p, t⟩).mapError Failure.unplaced = (s.step ⟨q, t⟩).mapError Failure.unplaced := by
  obtain ⟨expects, frames⟩ := s
  cases expects with
  | value => cases t <;> rfl
  | valueOrEnd =>
    rcases frames with _ | ⟨_ | _, outer⟩ <;> cases t <;> rfl
  | name entries => cases t <;> rfl
  | nameOrEnd => cases t <;> rfl
  | colon entries key => cases t <;> rfl
  | after v =>
    rcases frames with _ | ⟨_ | _, outer⟩ <;> cases t <;> rfl

theorem foldlM_unplaced {ts us : List Located} (h : ts.map Located.token = us.map Located.token)
    (s : State) : (ts.foldlM State.step s).mapError Failure.unplaced =
      (us.foldlM State.step s).mapError Failure.unplaced := by
  induction ts generalizing us s with
  | nil =>
    rw [List.map_nil] at h
    rw [List.map_eq_nil_iff.mp h.symm]
  | cons t ts ih =>
    obtain ⟨u, us, rfl, htoken, hmore⟩ := List.map_eq_cons_iff.mp h.symm
    have hstep : (s.step t).mapError Failure.unplaced = (s.step u).mapError Failure.unplaced := by
      obtain ⟨p, token⟩ := t
      obtain ⟨q, token'⟩ := u
      obtain rfl : token' = token := htoken
      exact s.step_unplaced token' p q
    rw [List.foldlM_cons, List.foldlM_cons]
    cases ht : State.step s t with
    | error f =>
      cases hu : State.step s u with
      | error g => rw [ht, hu] at hstep; exact hstep
      | ok s' => rw [ht, hu] at hstep; cases hstep
    | ok s' =>
      cases hu : State.step s u with
      | error g => rw [ht, hu] at hstep; cases hstep
      | ok s'' =>
        rw [ht, hu] at hstep
        cases hstep
        exact ih hmore.symm s'

/-- A machine that goes where a meaning says does so wherever the tokens stand. -/
theorem foldlM_eq_outcome {α : Type} {meaning : Except Nat α} {next : α → State}
    {ts us : List Located} (h : ts.map Located.token = us.map Located.token) {s : State}
    (hus : us.foldlM State.step s = outcome meaning next) :
    ts.foldlM State.step s = outcome meaning next := by
  have hsame := foldlM_unplaced h s
  rw [hus] at hsame
  cases meaning with
  | ok a =>
    cases hts : ts.foldlM State.step s with
    | ok s' => rw [hts] at hsame; cases hsame; rfl
    | error f => rw [hts] at hsame; cases hsame
  | error digits =>
    cases hts : ts.foldlM State.step s with
    | ok s' => rw [hts] at hsame; cases hsame
    | error f =>
      rw [hts] at hsame
      cases f with
      | unexpected cause place => cases hsame
      | tooManyDigits digits' => cases hsame; rfl

/-! ### Reading a spacing -/

/-- A spacing begins in ASCII, so not with a byte order mark. -/
theorem Spacing.head?_text (s : Spacing) : ∀ c ∈ s.text.head?, c.toNat < 0x80 := by
  have hspaces : ∀ (spaces : List Space) (rest : List Char),
      (∀ c ∈ rest.head?, c.toNat < 0x80) →
        ∀ c ∈ (spaceText spaces ++ rest).head?, c.toNat < 0x80 := by
    intro spaces rest hrest c hc
    cases spaces with
    | nil => exact hrest c hc
    | cons x spaces =>
      obtain rfl : x.val = c := by simpa [spaceText] using hc
      have hx := x.property
      simp only [isSpace, Bool.or_eq_true, beq_iff_eq] at hx
      rcases hx with ((hx | hx) | hx) | hx <;> rw [hx] <;> decide
  obtain ⟨items, last⟩ := s
  rw [text]
  cases items with
  | nil => simpa using hspaces last [] (by simp)
  | cons w items =>
    rw [List.flatMap_cons, Spaced.text, List.append_assoc, List.append_assoc]
    refine hspaces w.spaces _ fun c hc => ?_
    obtain ⟨d, ds, htext, -⟩ := w.lexeme.exists_text
    rw [htext] at hc
    obtain rfl : d = c := by simpa using hc
    exact (Lexeme.head_facts htext).1

/-- **A spacing of a document is read as what the document writes.** -/
theorem Writes.parse_text {s : Spacing} {meaning : Except Nat Json}
    (h : Writes (.value meaning) s.lexemes) :
    parse s.text = meaning.mapError .tooManyDigits := by
  have hnumbers : s.lexemes.IsChain Lexeme.NumberFits := h.fits.imp fun _ _ hfits => hfits.2
  have htokens : (tokens s.text).map Located.token =
      (s.lexemes.map Lexeme.located ++ [Located.mk 0 .ending]).map Located.token := by
    rw [s.tokens_text hnumbers, List.map_append, List.map_map]
    rfl
  have hrun : (s.lexemes.map Lexeme.located ++ [Located.mk 0 .ending]).foldlM State.step
      ⟨.value, []⟩ = outcome meaning fun v => .finish v [] := by
    rw [List.foldlM_append]
    change (State.run ⟨.value, []⟩ s.lexemes).bind _ = _
    rw [h.run []]
    cases meaning <;> rfl
  have hfold := foldlM_eq_outcome htokens hrun
  have hmark : ¬ (s.text.head? == some (Char.ofNat 0xfeff)) = true := by
    intro hhead
    exact absurd (s.head?_text _ (beq_iff_eq.mp hhead)) (by decide)
  rw [parse, if_neg hmark, ofTokens, hfold]
  cases meaning <;> rfl

/-! ### Texts that are read -/

/-- The machine expects an element or a member, and no closing bracket. -/
def State.AwaitsItem (s : State) : Prop :=
  match s.expects with
  | .value => True
  | .name _ => True
  | _ => False

/-- No state takes a token that is none. -/
theorem State.not_isFault_of_step {s s' : State} {t : Located} (h : s.step t = .ok s') :
    ¬ t.token.IsFault := by
  obtain ⟨position, token⟩ := t
  cases token with
  | bad => rcases s with ⟨_ | _ | _ | _ | _ | _, _ | ⟨_ | _, _⟩⟩ <;> cases h
  | badString => rcases s with ⟨_ | _ | _ | _ | _ | _, _ | ⟨_ | _, _⟩⟩ <;> cases h
  | _ => exact id

theorem State.awaitsItem_of_step_comma {s s' : State} {position : Nat}
    (h : s.step ⟨position, .comma⟩ = .ok s') : s'.AwaitsItem := by
  obtain ⟨expects, frames⟩ := s
  cases expects with
  | after v =>
    rcases frames with _ | ⟨_ | _, outer⟩
    · cases h
    · cases h
      trivial
    · cases h
      trivial
  | valueOrEnd => rcases frames with _ | ⟨_ | _, outer⟩ <;> cases h
  | _ => cases h

theorem State.AwaitsItem.not_closer {s s' : State} (hs : s.AwaitsItem) {t : Located}
    (h : s.step t = .ok s') : t.token ≠ .endArray ∧ t.token ≠ .endObject := by
  obtain ⟨expects, frames⟩ := s
  obtain ⟨position, token⟩ := t
  cases expects with
  | value => constructor <;> rintro rfl <;> cases h
  | name entries => constructor <;> rintro rfl <;> cases h
  | _ => exact hs.elim

namespace Spacing

/-- The spacing with one more space before it. -/
def space (c : Space) (s : Spacing) : Spacing :=
  match s.items with
  | [] => ⟨[], c :: s.last⟩
  | w :: items => ⟨⟨c :: w.spaces, w.lexeme⟩ :: items, s.last⟩

theorem text_space (c : Space) (s : Spacing) : (s.space c).text = c.val :: s.text := by
  obtain ⟨_ | ⟨w, items⟩, last⟩ := s <;> rfl

theorem lexemes_space (c : Space) (s : Spacing) : (s.space c).lexemes = s.lexemes := by
  obtain ⟨_ | ⟨w, items⟩, last⟩ := s <;> rfl

/-- The spacing with one more lexeme before it. -/
def cons (x : Lexeme) (s : Spacing) : Spacing :=
  ⟨⟨[], x⟩ :: s.items, s.last⟩

theorem text_cons (x : Lexeme) (s : Spacing) : (s.cons x).text = x.text ++ s.text := by
  simp [cons, text, Spaced.text, spaceText]

theorem lexemes_cons (x : Lexeme) (s : Spacing) : (s.cons x).lexemes = x :: s.lexemes := rfl

end Spacing

/-- What the machine accepts is a spacing, with every comma before something. -/
theorem exists_spacing_of_run : ∀ {cs : List Char} {position : Nat} {s s' : State},
    (tokensFrom 0 position cs).foldlM State.step s = .ok s' →
      ∃ sp : Spacing, cs = sp.text ∧ sp.lexemes.IsChain Lexeme.CommaFits ∧
        (s.AwaitsItem → ∀ x ∈ sp.lexemes.head?, x.isCloser = false)
  | [], _, _, _, _ => ⟨⟨[], []⟩, rfl, .nil, fun _ x hx => by cases hx⟩
  | c :: cs, position, s, s', h => by
    rw [tokensFrom] at h
    by_cases hspace : isSpace c = true
    · rw [if_pos hspace] at h
      obtain ⟨sp, hcs, hchain, hhead⟩ := exists_spacing_of_run h
      refine ⟨sp.space ⟨c, hspace⟩, ?_, ?_, ?_⟩
      · rw [Spacing.text_space, hcs]
      · rwa [Spacing.lexemes_space]
      · rwa [Spacing.lexemes_space]
    · rw [if_neg hspace, List.foldlM_cons] at h
      obtain ⟨found, hfound⟩ : ∃ found, Token.read position c cs = found := ⟨_, rfl⟩
      simp only [hfound] at h
      cases hstep : State.step s ⟨position, found.1⟩ with
      | error f => rw [hstep] at h; cases h
      | ok s₁ =>
        rw [hstep] at h
        -- The token is a lexeme `x`, and the machine goes on after it.
        obtain ⟨x, rest, htext, hused⟩ :=
          exists_lexeme_of_read hfound (State.not_isFault_of_step hstep)
        obtain ⟨d, ds, hx, hread⟩ := x.exists_text
        rw [hx, List.cons_append] at htext
        obtain ⟨rfl, rfl⟩ := List.cons.inj htext
        have hlength : found.2 = ds.length := by
          rw [hx, List.length_cons] at hused
          omega
        change (tokensFrom found.2 (position + 1) (ds ++ rest)).foldlM State.step s₁ = .ok s' at h
        rw [hlength, tokensFrom_skip] at h
        obtain ⟨sp, rfl, hchain, hhead⟩ := exists_spacing_of_run h
        have htoken : x.isNumber = false → found.1 = x.token := by
          intro hnumber
          rw [← hfound, hread position sp.text fun hn => by rw [hnumber] at hn; cases hn]
        refine ⟨sp.cons x, by rw [Spacing.text_cons, hx]; rfl, ?_, ?_⟩
        · refine hchain.cons fun y hy hcomma => ?_
          subst hcomma
          rw [htoken rfl] at hstep
          exact hhead (State.awaitsItem_of_step_comma hstep) y hy
        · intro hs y hy
          obtain rfl : x = y := by simpa [Spacing.lexemes_cons] using hy
          have hclosers := hs.not_closer hstep
          cases x with
          | endObject => exact absurd (htoken rfl) hclosers.2
          | endArray => exact absurd (htoken rfl) hclosers.1
          | _ => rfl
termination_by cs => cs.length

/-- **A text that is read as a value is a spacing**, with every comma before something. -/
theorem exists_spacing_of_parse {cs : List Char} {v : Json} (h : parse cs = .ok v) :
    ∃ s : Spacing, cs = s.text ∧ s.lexemes.IsChain Lexeme.CommaFits := by
  rw [parse] at h
  split at h
  · cases h
  · cases hfold : (tokens cs).foldlM State.step ⟨.value, []⟩ with
    | error f =>
      rw [ofTokens, hfold] at h
      cases h
    | ok s =>
      obtain ⟨sp, hcs, hchain, -⟩ := exists_spacing_of_run hfold
      exact ⟨sp, hcs, hchain⟩

end StyleAudit.Json
