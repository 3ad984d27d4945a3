import Mathlib.Data.List.Pairwise
import StyleAudit.Proofs.Style.ClassTokens
import StyleAudit.Proofs.Style.Lines
import StyleAudit.Proofs.Style.Marks

/-!
# The classes that a selector mentions

A selector is read up to three times: for the tokens `&.x`, for a suffix `&-x` at its front, and for
the class tokens of what these leave.  Here the class tokens are told by their places in the text
instead (`ClassMention.In`): a dot, a name, and something after it that neither goes on with the
name nor begins an interpolation.  No place depends on another one, so there is nothing to be lost
between two readings.

`selector_classes_exact` says that both views agree.  Each mention defines its class, together with
the class of the enclosing rule if it stands right after `&`, and a suffix may add one more class.

The mentions are listed by walking over the text one character at a time, also inside the names that
a reading skips (`classMentionsAfter`).  A name holds no dot, so nothing is found there
(`findAll_classToken_cons`).  For the reading without `&.x` the walk has to know that no `&` stands
right before the text, or that the text does not begin with a class token (`readsMentions`).
-/

namespace StyleAudit.Style

open StyleAudit.Text

/-! ### Names and suffixes -/

/-- A letter or underscore, after at most one hyphen, and then class characters. -/
def IsIdentifier (name : List Char) : Prop :=
  ∃ hyphen start run, name = hyphen ++ start :: run ∧ (hyphen = [] ∨ hyphen = ['-']) ∧
    isClassStart start = true ∧ ∀ c ∈ run, isClassChar c = true

/-- A hyphen or underscore, and then class characters. -/
def IsSuffix (suffix : List Char) : Prop :=
  ∃ start run, suffix = start :: run ∧ (start = '_' ∨ start = '-') ∧
    ∀ c ∈ run, isClassChar c = true

/-- A name ends where this text begins, and no interpolation goes on with it. -/
structure EndsName (rest : List Char) : Prop where
  stops : Stops isClassChar rest
  notHash : ¬ ['#', '{'] <+: rest
  notAt : ¬ ['@', '{'] <+: rest

theorem isClassChar_of_isClassStart {c : Char} (h : isClassStart c = true) :
    isClassChar c = true := by
  rw [isClassStart, Bool.or_eq_true] at h
  rw [isClassChar, Char.isAlphanum]
  rcases h with h | h <;> simp [h]

theorem startsInterpolation_eq_false_iff {rest : List Char} :
    startsInterpolation rest = false ↔ ¬ ['#', '{'] <+: rest ∧ ¬ ['@', '{'] <+: rest := by
  rw [← Bool.not_eq_true, startsInterpolation_iff, ← not_or]
  match rest with
  | [] => simp
  | [c] => simp
  | c :: d :: rest => simp [List.cons_prefix_cons, eq_comm, or_and_right]

theorem endsName_iff {rest : List Char} :
    EndsName rest ↔ Stops isClassChar rest ∧ startsInterpolation rest = false := by
  rw [startsInterpolation_eq_false_iff]
  exact ⟨fun h => ⟨h.stops, h.notHash, h.notAt⟩, fun h => ⟨h.1, h.2.1, h.2.2⟩⟩

theorem stops_dropWhile (cs : List Char) : Stops isClassChar (cs.dropWhile isClassChar) := by
  intro c hc
  have h := List.head?_dropWhile_not isClassChar cs
  rw [Option.mem_def.mp hc] at h
  simpa using h

theorem takeWhile_of_run {run rest : List Char} (hrun : ∀ c ∈ run, isClassChar c = true)
    (hrest : Stops isClassChar rest) : (run ++ rest).takeWhile isClassChar = run := by
  rw [takeWhile_append_of_stops hrest, List.takeWhile_eq_self_iff.mpr hrun]

theorem wholeRun?_eq_some_iff {cs run rest : List Char} :
    wholeRun? cs = some (run, rest) ↔
      cs = run ++ rest ∧ (∀ c ∈ run, isClassChar c = true) ∧ EndsName rest := by
  constructor
  · intro h
    obtain ⟨hcs, hrun⟩ := wholeRun?_eq_some h
    refine ⟨hcs, hrun, endsName_iff.mpr ?_⟩
    rw [wholeRun?] at h
    split at h
    · cases h
    · rename_i hinterpolation
      cases h
      exact ⟨stops_dropWhile cs, by simpa using hinterpolation⟩
  · rintro ⟨rfl, hrun, hends⟩
    obtain ⟨hstops, hinterpolation⟩ := endsName_iff.mp hends
    have hdrop : (run ++ rest).dropWhile isClassChar = rest := by
      rw [dropWhile_append_of_stops hstops, List.dropWhile_eq_nil_iff.mpr hrun, List.nil_append]
    rw [wholeRun?, hdrop, takeWhile_of_run hrun hstops, hinterpolation]
    rfl

theorem IsIdentifier.run {name : List Char} (h : IsIdentifier name) :
    ∀ c ∈ name, isClassChar c = true := by
  obtain ⟨hyphen, start, run, rfl, hhyphen, hstart, hrun⟩ := h
  intro c hc
  rcases List.mem_append.mp hc with hc | hc
  · rcases hhyphen with rfl | rfl
    · cases hc
    · rw [List.mem_singleton.mp hc]
      decide
  · rcases List.mem_cons.mp hc with rfl | hc
    · exact isClassChar_of_isClassStart hstart
    · exact hrun c hc

/-- On a run of class characters the test for a name finds the identifiers. -/
theorem isClassName_iff {name : List Char} (hrun : ∀ c ∈ name, isClassChar c = true) :
    isClassName name = true ↔ IsIdentifier name := by
  constructor
  · intro h
    unfold isClassName at h
    split at h
    · rename_i c cs
      refine ⟨['-'], c, cs, rfl, Or.inr rfl, h, ?_⟩
      intro d hd
      exact hrun d (List.mem_cons_of_mem _ (List.mem_cons_of_mem _ hd))
    · rename_i c cs _
      exact ⟨[], c, cs, rfl, Or.inl rfl, h, fun d hd => hrun d (List.mem_cons_of_mem _ hd)⟩
    · cases h
  · rintro ⟨hyphen, start, run, rfl, rfl | rfl, hstart, -⟩
    · have hne : start ≠ '-' := by
        rintro rfl
        cases hstart
      simpa [isClassName, hne] using hstart
    · exact hstart

theorem className?_eq_some_iff {cs name rest : List Char} :
    className? cs = some (name, rest) ↔ cs = name ++ rest ∧ IsIdentifier name ∧ EndsName rest := by
  constructor
  · intro h
    rw [className?] at h
    split at h
    · rename_i hname
      obtain ⟨rfl, hrun, hends⟩ := wholeRun?_eq_some_iff.mp h
      rw [takeWhile_of_run hrun hends.stops] at hname
      exact ⟨rfl, (isClassName_iff hrun).mp hname, hends⟩
    · cases h
  · rintro ⟨rfl, hname, hends⟩
    rw [className?, takeWhile_of_run hname.run hends.stops, (isClassName_iff hname.run).mpr hname]
    exact wholeRun?_eq_some_iff.mpr ⟨rfl, hname.run, hends⟩

theorem parentSuffix?_eq_some_iff {cs suffix rest : List Char} :
    parentSuffix? cs = some (suffix, rest) ↔
      cs = '&' :: (suffix ++ rest) ∧ IsSuffix suffix ∧ EndsName rest := by
  constructor
  · intro h
    unfold parentSuffix? at h
    split at h
    · rename_i c cs
      split at h
      · rename_i hc
        obtain ⟨hcs, hrun, hends⟩ := wholeRun?_eq_some_iff.mp h
        rw [hcs]
        refine ⟨rfl, ?_, hends⟩
        cases suffix with
        | nil =>
          -- the first character is a class character, so the run cannot be empty
          rw [List.nil_append] at hcs
          have hstop := hends.stops c (by rw [← hcs]; rfl)
          rcases (by simpa using hc : c = '_' ∨ c = '-') with rfl | rfl <;> cases hstop
        | cons d run =>
          obtain ⟨rfl, -⟩ := List.cons.inj hcs
          exact ⟨c, run, rfl, by simpa using hc, fun d hd => hrun d (List.mem_cons_of_mem _ hd)⟩
      · cases h
    · cases h
  · rintro ⟨rfl, ⟨start, run, rfl, hstart, hrun⟩, hends⟩
    have hchar : isClassChar start = true := by rcases hstart with rfl | rfl <;> decide
    have hwhole : wholeRun? (start :: run ++ rest) = some (start :: run, rest) :=
      wholeRun?_eq_some_iff.mpr ⟨rfl, List.forall_mem_cons.mpr ⟨hchar, hrun⟩, hends⟩
    have htest : (start == '_' || start == '-') = true := by simpa using hstart
    rw [List.cons_append] at hwhole ⊢
    rw [parentSuffix?, if_pos htest, hwhole]

/-! ### Mentions -/

/-- A class token with the text before its dot. -/
structure ClassMention where
  before : List Char
  name : List Char
deriving DecidableEq, Repr

namespace ClassMention

/-- The class token stands in the text, right after `before`. -/
def In (m : ClassMention) (text : List Char) : Prop :=
  ∃ rest, text = m.before ++ '.' :: (m.name ++ rest) ∧ IsIdentifier m.name ∧ EndsName rest

/-- The character right before the dot is `&`. -/
def afterParent (m : ClassMention) : Bool :=
  m.before.getLast? == some '&'

/-- The class that the mention is put together with in a scope. -/
def parent? (scope : Scope) (m : ClassMention) : Option String :=
  if m.afterParent && !scope.inMixin then scope.parent else none

/-- The identifier that the mention defines in a scope. -/
def identifier (scope : Scope) (m : ClassMention) : String :=
  match m.parent? scope with
  | some parent => parent ++ "." ++ String.ofList m.name
  | none => String.ofList m.name

end ClassMention

/-- The class tokens of a text that follows `before`, place by place. -/
def classMentionsAfter (before : List Char) : List Char → List ClassMention
  | [] => []
  | c :: cs =>
    ((classToken none (c :: cs)).map fun found => ⟨before, found.1⟩).toList ++
      classMentionsAfter (before ++ [c]) cs

theorem classToken_eq_some_iff {c : Char} {cs name rest : List Char} :
    classToken none (c :: cs) = some (name, rest) ↔
      c = '.' ∧ cs = name ++ rest ∧ IsIdentifier name ∧ EndsName rest := by
  by_cases hc : c = '.'
  · subst hc
    rw [and_iff_right rfl, ← className?_eq_some_iff]
    rfl
  · rw [classToken_of_ne hc]
    constructor
    · intro h
      cases h
    · intro h
      exact absurd h.1 hc

theorem classMentionsAfter_of_none {c : Char} {cs : List Char}
    (h : classToken none (c :: cs) = none) (before : List Char) :
    classMentionsAfter before (c :: cs) = classMentionsAfter (before ++ [c]) cs := by
  rw [classMentionsAfter, h]
  rfl

theorem classMentionsAfter_of_some {c : Char} {cs name rest : List Char}
    (h : classToken none (c :: cs) = some (name, rest)) (before : List Char) :
    classMentionsAfter before (c :: cs) =
      ⟨before, name⟩ :: classMentionsAfter (before ++ [c]) cs := by
  rw [classMentionsAfter, h]
  rfl

theorem mem_classMentionsAfter {m : ClassMention} {before cs : List Char} :
    m ∈ classMentionsAfter before cs ↔
      ∃ front, m.before = before ++ front ∧ ClassMention.In ⟨front, m.name⟩ cs := by
  induction cs generalizing before with
  | nil =>
    constructor
    · intro h
      cases h
    · rintro ⟨front, -, rest, h, -⟩
      simp at h
  | cons c cs ih =>
    rw [classMentionsAfter, List.mem_append, Option.mem_toList, Option.map_eq_some_iff, ih]
    constructor
    · rintro (⟨⟨name, rest⟩, hfound, rfl⟩ | ⟨front, hbefore, rest, rfl, hname⟩)
      · obtain ⟨rfl, rfl, hname⟩ := classToken_eq_some_iff.mp hfound
        exact ⟨[], (List.append_nil _).symm, rest, rfl, hname⟩
      · refine ⟨c :: front, ?_, rest, rfl, hname⟩
        rw [hbefore, List.append_assoc, List.singleton_append]
    · rintro ⟨front, hbefore, rest, htext, hname⟩
      cases front with
      | nil =>
        obtain ⟨rfl, rfl⟩ := List.cons.inj htext
        refine Or.inl ⟨(m.name, rest), classToken_eq_some_iff.mpr ⟨rfl, rfl, hname⟩, ?_⟩
        rw [← List.append_nil before, ← hbefore]
      | cons d front =>
        obtain ⟨rfl, rfl⟩ := List.cons.inj htext
        refine Or.inr ⟨front, ?_, rest, rfl, hname⟩
        rw [hbefore, List.append_assoc, List.singleton_append]

/-- The mentions come in the order of their places, and no place comes twice. -/
theorem pairwise_classMentionsAfter (before cs : List Char) :
    (classMentionsAfter before cs).Pairwise fun m n => m.before.length < n.before.length := by
  induction cs generalizing before with
  | nil => exact List.Pairwise.nil
  | cons c cs ih =>
    rw [classMentionsAfter]
    refine List.pairwise_append.mpr ⟨?_, ih _, ?_⟩
    · cases classToken none (c :: cs) with
      | none => exact List.Pairwise.nil
      | some found => exact List.pairwise_singleton _ _
    · intro m hm n hn
      rw [Option.mem_toList, Option.map_eq_some_iff] at hm
      obtain ⟨found, -, rfl⟩ := hm
      obtain ⟨front, hbefore, -⟩ := mem_classMentionsAfter.mp hn
      simp only [hbefore, List.length_append, List.length_singleton]
      omega

/-! ### Readings -/

/-- A class token is found, and the search may go on inside it: a name holds no dot. -/
theorem findAll_classToken_cons (c : Char) (cs : List Char) :
    classToken.findAll (c :: cs) =
      ((classToken none (c :: cs)).map Prod.fst).toList ++ classToken.findAll cs := by
  cases hfound : classToken none (c :: cs) with
  | none => exact classToken_blind.findAll_of_none hfound
  | some found =>
    obtain ⟨name, rest⟩ := found
    obtain ⟨rfl, rfl, hname, -⟩ := classToken_eq_some_iff.mp hfound
    rw [findAll_classToken_of_some hfound, findAll_classToken_run hname.run]
    rfl

theorem findAll_classToken_eq_mentions (before cs : List Char) :
    classToken.findAll cs = (classMentionsAfter before cs).map ClassMention.name := by
  induction cs generalizing before with
  | nil => rfl
  | cons c cs ih =>
    rw [findAll_classToken_cons, classMentionsAfter, List.map_append, ih (before ++ [c])]
    cases classToken none (c :: cs) <;> rfl

/-! ### A text that begins with `&`, and one that does not -/

theorem findAll_parentClass_amp (cs : List Char) :
    parentClass.findAll ('&' :: cs) =
      ((classToken none cs).map Prod.fst).toList ++ parentClass.findAll cs := by
  cases hfound : classToken none cs with
  | none => exact parentClass_blind.findAll_of_none hfound
  | some found =>
    obtain ⟨name, rest⟩ := found
    cases cs with
    | nil => cases hfound
    | cons c cs =>
      obtain ⟨rfl, rfl, hname, -⟩ := classToken_eq_some_iff.mp hfound
      have hhit : parentClass none ('&' :: ('.' :: name ++ rest)) = some (name, rest) := hfound
      have hinside : parentClass.findAll ('.' :: (name ++ rest)) = parentClass.findAll rest := by
        rw [findAll_parentClass_of_ne (by decide), findAll_parentClass_run hname.run]
      rw [hinside]
      exact parentClass_blind.findAll_of_some hhit

theorem findAll_cutParents_run {run : List Char} (hrun : ∀ c ∈ run, isClassChar c = true)
    (cs : List Char) :
    classToken.findAll (cutParents (run ++ cs)) = classToken.findAll (cutParents cs) := by
  induction run with
  | nil => rfl
  | cons c run ih =>
    rw [List.forall_mem_cons] at hrun
    rw [List.cons_append, cutParents_of_ne (ne_amp_of_isClassChar hrun.1),
      findAll_classToken_of_ne (ne_dot_of_isClassChar hrun.1), ih hrun.2]

theorem findAll_cutParents_amp_of_none {cs : List Char} (h : classToken none cs = none) :
    classToken.findAll (cutParents ('&' :: cs)) = classToken.findAll (cutParents cs) := by
  have hcut : cutParents ('&' :: cs) = '&' :: cutParents cs :=
    parentClass_blind.replace_of_none _ h
  rw [hcut, findAll_classToken_of_ne (by decide)]

/-- The class token after `&` is cut away, and what is left is read as if it began inside it. -/
theorem findAll_cutParents_amp_of_some {cs name rest : List Char}
    (h : classToken none ('.' :: cs) = some (name, rest)) :
    classToken.findAll (cutParents ('&' :: '.' :: cs)) = classToken.findAll (cutParents cs) := by
  obtain ⟨-, rfl, hname, -⟩ := classToken_eq_some_iff.mp h
  have hhit : parentClass none ('&' :: ('.' :: name ++ rest)) = some (name, rest) := h
  have hcut : cutParents ('&' :: ('.' :: name ++ rest)) = '&' :: cutParents rest :=
    parentClass_blind.replace_of_some _ hhit
  rw [findAll_cutParents_run hname.run, ← List.cons_append, hcut,
    findAll_classToken_of_ne (by decide)]

theorem findAll_cutParents_of_ne {c : Char} (hc : c ≠ '&') (cs : List Char) :
    classToken.findAll (cutParents (c :: cs)) =
      ((classToken none (c :: cs)).map Prod.fst).toList ++ classToken.findAll (cutParents cs) := by
  rw [cutParents_of_ne hc, findAll_classToken_cons]
  by_cases hdot : c = '.'
  · subst hdot
    have hname : ∀ ds, classToken none ('.' :: ds) = className? ds := fun _ => rfl
    rw [hname, hname, className?_cutParents, Option.map_map]
    rfl
  · rw [classToken_of_ne hdot, classToken_of_ne hdot]

/-- The reading for `&.x` finds the mentions right after `&`, and the reading of what it leaves
finds all others, in order. -/
structure ReadsMentions (before cs : List Char) : Prop where
  parents : parentClass.findAll cs =
    ((classMentionsAfter before cs).filter (·.afterParent)).map ClassMention.name
  others : classToken.findAll (cutParents cs) =
    ((classMentionsAfter before cs).filter (! ·.afterParent)).map ClassMention.name

namespace ReadsMentions

theorem amp_of_none {before cs : List Char} (hfound : classToken none cs = none)
    (h : ReadsMentions (before ++ ['&']) cs) : ReadsMentions before ('&' :: cs) := by
  have hmentions : classMentionsAfter before ('&' :: cs) =
      classMentionsAfter (before ++ ['&']) cs :=
    classMentionsAfter_of_none (classToken_of_ne (by decide) none cs) before
  constructor
  · rw [hmentions, findAll_parentClass_amp, hfound]
    exact h.parents
  · rw [hmentions, findAll_cutParents_amp_of_none hfound]
    exact h.others

theorem amp_of_some {before cs name rest : List Char}
    (hfound : classToken none ('.' :: cs) = some (name, rest))
    (h : ReadsMentions (before ++ ['&'] ++ ['.']) cs) :
    ReadsMentions before ('&' :: '.' :: cs) := by
  have hafter : (ClassMention.mk (before ++ ['&']) name).afterParent = true := by
    rw [ClassMention.afterParent, List.getLast?_concat]
    rfl
  have hmentions : classMentionsAfter before ('&' :: '.' :: cs) =
      ⟨before ++ ['&'], name⟩ :: classMentionsAfter (before ++ ['&'] ++ ['.']) cs := by
    rw [classMentionsAfter_of_none (classToken_of_ne (by decide) none _),
      classMentionsAfter_of_some hfound]
  constructor
  · rw [hmentions, findAll_parentClass_amp, hfound, findAll_parentClass_of_ne (by decide),
      h.parents]
    simp [hafter]
  · rw [hmentions, findAll_cutParents_amp_of_some hfound, h.others]
    simp [hafter]

theorem cons_of_ne {before cs : List Char} {c : Char} (hamp : c ≠ '&')
    (hbefore : before.getLast? = some '&' → classToken none (c :: cs) = none)
    (h : ReadsMentions (before ++ [c]) cs) : ReadsMentions before (c :: cs) := by
  cases hfound : classToken none (c :: cs) with
  | none =>
    constructor
    · rw [classMentionsAfter_of_none hfound, findAll_parentClass_of_ne hamp, h.parents]
    · rw [classMentionsAfter_of_none hfound, findAll_cutParents_of_ne hamp, hfound, h.others]
      rfl
  | some found =>
    obtain ⟨name, rest⟩ := found
    -- no `&` stands before the token, by what is assumed of the text
    have hafter : (ClassMention.mk before name).afterParent = false := by
      rw [ClassMention.afterParent, beq_eq_false_iff_ne]
      intro hlast
      rw [hbefore hlast] at hfound
      cases hfound
    constructor
    · rw [classMentionsAfter_of_some hfound, findAll_parentClass_of_ne hamp, h.parents]
      simp [hafter]
    · rw [classMentionsAfter_of_some hfound, findAll_cutParents_of_ne hamp, hfound, h.others]
      simp [hafter]

end ReadsMentions

/-- **The two readings find all mentions of a text**, unless an `&` before the text and a class
token at its front would have belonged together. -/
theorem readsMentions {before cs : List Char}
    (h : before.getLast? = some '&' → classToken none cs = none) : ReadsMentions before cs := by
  -- by induction on the length, since `&` takes the dot of a class token with it
  induction hn : cs.length using Nat.strong_induction_on generalizing before cs with
  | _ n ih =>
    subst hn
    cases cs with
    | nil => exact ⟨rfl, rfl⟩
    | cons c cs =>
      have hshorter : cs.length < (c :: cs).length := Nat.lt_succ_self _
      by_cases hamp : c = '&'
      · subst hamp
        cases hfound : classToken none cs with
        | none => exact .amp_of_none hfound (ih cs.length hshorter (fun _ => hfound) rfl)
        | some found =>
          cases cs with
          | nil => cases hfound
          | cons d cs =>
            obtain ⟨rfl, -⟩ := classToken_eq_some_iff.mp hfound
            have hlast : (before ++ ['&'] ++ ['.']).getLast? = some '&' →
                classToken none cs = none := by
              rw [List.getLast?_concat]
              intro hdot
              cases hdot
            have hshorter' : cs.length < ('.' :: cs).length := Nat.lt_succ_self _
            exact .amp_of_some hfound (ih cs.length (hshorter'.trans hshorter) hlast rfl)
      · have hlast : (before ++ [c]).getLast? = some '&' → classToken none cs = none := by
          rw [List.getLast?_concat]
          intro hc
          exact absurd (Option.some.inj hc) hamp
        exact .cons_of_ne hamp h (ih cs.length hshorter hlast rfl)

/-- The mentions of a text that nothing stands before. -/
def classMentions (text : List Char) : List ClassMention :=
  classMentionsAfter [] text

theorem mem_classMentions {m : ClassMention} {text : List Char} :
    m ∈ classMentions text ↔ m.In text := by
  rw [classMentions, mem_classMentionsAfter]
  constructor
  · rintro ⟨front, hfront, hin⟩
    rw [List.nil_append] at hfront
    rwa [← hfront] at hin
  · intro hin
    exact ⟨m.before, rfl, hin⟩

theorem readsMentions_nil (text : List Char) : ReadsMentions [] text :=
  readsMentions nofun

theorem findAll_parentClass_eq_nil_iff {text : List Char} :
    parentClass.findAll text = [] ↔ ∀ m ∈ classMentions text, m.afterParent = false := by
  rw [(readsMentions_nil text).parents, List.map_eq_nil_iff, List.filter_eq_nil_iff]
  simp only [Bool.not_eq_true, classMentions]

/-- If no class token stands after `&`, nothing is cut. -/
theorem findAll_cutParents_of_eq_nil {text : List Char} (h : parentClass.findAll text = []) :
    classToken.findAll (cutParents text) = classToken.findAll text := by
  have hnone := findAll_parentClass_eq_nil_iff.mp h
  rw [(readsMentions_nil text).others, findAll_classToken_eq_mentions [] text, ← classMentions,
    List.filter_eq_self.mpr (by simpa using hnone)]

/-! ### Selectors -/

/-- The parent and the child that a fact nests. -/
def Fact.nesting? : Fact → Option (String × String)
  | .defines _ _ => none
  | .nests parent child => some (parent, child)

/-- What a mention says: it defines its class, and together with a parent it is nested there. -/
def ClassMention.facts (scope : Scope) (line : Int) (m : ClassMention) : List Fact :=
  .defines (m.identifier scope) line ::
    ((m.parent? scope).map fun parent => .nests parent (String.ofList m.name)).toList

/-- The mention is put together with a parent. -/
def ClassMention.isDotted (scope : Scope) (m : ClassMention) : Bool :=
  (m.parent? scope).isSome

/-- The class that a suffix at the front of a selector adds, if no class token stands after `&`. -/
def suffixed? (scope : Scope) (bare : List Char) : Option String :=
  if (parentClass.findAll bare).isEmpty then
    scope.concrete?.bind fun parent =>
      (parentSuffix? bare).map fun found => parent ++ String.ofList found.1
  else none

/-- What a selector says in a scope: first the mentions that are put together with a parent, then a
suffix, then all other mentions. -/
def mentionFacts (scope : Scope) (line : Int) (bare : List Char) : List Fact :=
  ((classMentions bare).filter (·.isDotted scope)).flatMap (·.facts scope line) ++
    (suffixed? scope bare).toList.map (.defines · line) ++
    ((classMentions bare).filter (! ·.isDotted scope)).flatMap (·.facts scope line)

theorem concrete?_eq {scope : Scope} (h : scope.parent ≠ some "") :
    scope.concrete? = if scope.inMixin then none else scope.parent := by
  rw [Scope.concrete?]
  congr 1
  cases hparent : scope.parent with
  | none => rfl
  | some parent =>
    rw [Option.filter_eq_some_iff]
    refine ⟨rfl, ?_⟩
    rw [Bool.not_eq_true', ← Bool.not_eq_true, String.isEmpty_iff]
    rintro rfl
    exact h hparent

theorem flatMap_facts_of_none {scope : Scope} {ms : List ClassMention}
    (h : ∀ m ∈ ms, m.parent? scope = none) (line : Int) :
    ms.flatMap (·.facts scope line) = definesAll line (ms.map ClassMention.name) := by
  rw [definesAll, List.map_map, List.map_eq_flatMap]
  apply List.flatMap_congr
  intro m hm
  rw [ClassMention.facts, ClassMention.identifier, h m hm]
  rfl

theorem flatMap_facts_of_some {scope : Scope} {parent : String} {ms : List ClassMention}
    (h : ∀ m ∈ ms, m.parent? scope = some parent) (line : Int) :
    ms.flatMap (·.facts scope line) = (ms.map ClassMention.name).flatMap fun child =>
      [.defines (parent ++ "." ++ String.ofList child) line,
        .nests parent (String.ofList child)] := by
  rw [List.flatMap_map]
  apply List.flatMap_congr
  intro m hm
  rw [ClassMention.facts, ClassMention.identifier, h m hm]
  rfl

/-- Without a parent every mention stands for itself. -/
theorem definesAll_eq_mentionFacts {scope : Scope} (hconcrete : scope.concrete? = none)
    (hparent : ∀ m : ClassMention, m.parent? scope = none) (line : Int) (bare : List Char) :
    definesAll line (classToken.findAll bare) = mentionFacts scope line bare := by
  have hdotted : ∀ m ∈ classMentions bare, m.isDotted scope = false := by
    intro m _
    rw [ClassMention.isDotted, hparent]
    rfl
  have hsuffixed : suffixed? scope bare = none := by
    rw [suffixed?, hconcrete, Option.bind_none, ite_self]
  rw [mentionFacts, hsuffixed, List.filter_eq_nil_iff.mpr (by simpa using hdotted),
    List.filter_eq_self.mpr (by simpa using hdotted), List.flatMap_nil,
    flatMap_facts_of_none fun m _ => hparent m, findAll_classToken_eq_mentions []]
  rfl

/-- Under a class the mentions right after `&` are put together with it. -/
theorem nestedFacts_eq_mentionFacts {scope : Scope} {parent : String}
    (hconcrete : scope.concrete? = some parent)
    (hparent : ∀ m : ClassMention, m.parent? scope = if m.afterParent then some parent else none)
    (line : Int) (bare : List Char) :
    nestedFacts parent line bare = mentionFacts scope line bare := by
  have hdotted : ∀ m : ClassMention, m.isDotted scope = m.afterParent := by
    intro m
    rw [ClassMention.isDotted, hparent]
    cases m.afterParent <;> rfl
  have hafter : ∀ m ∈ (classMentions bare).filter (·.afterParent),
      m.parent? scope = some parent := by
    intro m hm
    rw [hparent, if_pos (List.mem_filter.mp hm).2]
  have hother : ∀ m ∈ (classMentions bare).filter (! ·.afterParent), m.parent? scope = none := by
    intro m hm
    rw [hparent, if_neg (by simpa using (List.mem_filter.mp hm).2)]
  have hreads := readsMentions_nil bare
  have hfacts : mentionFacts scope line bare =
      ((parentClass.findAll bare).flatMap fun child =>
        [.defines (parent ++ "." ++ String.ofList child) line,
          .nests parent (String.ofList child)]) ++
      (suffixed? scope bare).toList.map (.defines · line) ++
      definesAll line (classToken.findAll (cutParents bare)) := by
    simp only [mentionFacts, hdotted]
    rw [flatMap_facts_of_some hafter, flatMap_facts_of_none hother, classMentions,
      ← hreads.parents, ← hreads.others]
  rw [hfacts, nestedFacts, suffixed?, hconcrete]
  cases hchildren : parentClass.findAll bare with
  | cons child children =>
    rw [List.isEmpty_cons, if_neg Bool.false_ne_true, Option.toList_none, List.map_nil,
      List.append_nil]
    rfl
  | nil =>
    rw [findAll_cutParents_of_eq_nil hchildren]
    cases hsuffix : parentSuffix? bare with
    | none => rfl
    | some found =>
      rw [findAll_classToken_of_parentSuffix? hsuffix]
      rfl

theorem selectorFacts_eq_mentionFacts {scope : Scope} (h : scope.parent ≠ some "") (line : Int)
    (selector : List Char) :
    selectorFacts scope line selector =
      mentionFacts scope line (withoutAttributes selector) := by
  have hconcrete := concrete?_eq h
  rw [selectorFacts]
  cases hmixin : scope.inMixin with
  | true =>
    rw [hmixin, if_pos rfl] at hconcrete
    rw [hconcrete]
    refine definesAll_eq_mentionFacts hconcrete ?_ line _
    intro m
    rw [ClassMention.parent?, hmixin, Bool.not_true, Bool.and_false]
    rfl
  | false =>
    rw [hmixin, if_neg Bool.false_ne_true] at hconcrete
    have hparent : ∀ m : ClassMention,
        m.parent? scope = if m.afterParent then scope.parent else none := by
      intro m
      rw [ClassMention.parent?, hmixin, Bool.not_false, Bool.and_true]
    rw [hconcrete]
    cases hp : scope.parent with
    | none =>
      rw [hp] at hconcrete hparent
      exact definesAll_eq_mentionFacts hconcrete (fun m => by rw [hparent, ite_self]) line _
    | some parent =>
      rw [hp] at hconcrete hparent
      exact nestedFacts_eq_mentionFacts hconcrete hparent line _

theorem filterMap_definition?_facts (scope : Scope) (line : Int) (m : ClassMention) :
    (m.facts scope line).filterMap Fact.definition? = [(m.identifier scope, line)] := by
  rw [ClassMention.facts]
  cases m.parent? scope <;> rfl

theorem filterMap_nesting?_facts (scope : Scope) (line : Int) (m : ClassMention) :
    (m.facts scope line).filterMap Fact.nesting? =
      ((m.parent? scope).map fun parent => (parent, String.ofList m.name)).toList := by
  rw [ClassMention.facts]
  cases m.parent? scope <;> rfl

theorem definitions_mentionFacts (scope : Scope) (line : Int) (bare : List Char) :
    ((mentionFacts scope line bare).filterMap Fact.definition?).Perm
      (((classMentions bare).map (·.identifier scope) ++ (suffixed? scope bare).toList).map
        (·, line)) := by
  let entry := fun m : ClassMention => (m.identifier scope, line)
  have hmentions : ∀ ms : List ClassMention,
      (ms.flatMap (·.facts scope line)).filterMap Fact.definition? = ms.map entry := by
    intro ms
    rw [List.filterMap_flatMap, List.map_eq_flatMap]
    exact List.flatMap_congr fun m _ => filterMap_definition?_facts scope line m
  have hsuffix : ((suffixed? scope bare).toList.map (Fact.defines · line)).filterMap
      Fact.definition? = (suffixed? scope bare).toList.map (·, line) := by
    cases suffixed? scope bare <;> rfl
  have hshared := (List.filter_append_perm (·.isDotted scope) (classMentions bare)).map entry
  rw [mentionFacts, List.filterMap_append, List.filterMap_append, hmentions, hmentions, hsuffix,
    List.append_assoc, List.map_append, List.map_map]
  -- the suffix stands between the two kinds of mentions, and changes places with the second kind
  refine (List.perm_append_comm.append_left _).trans ?_
  rw [← List.append_assoc, ← List.map_append]
  exact hshared.append_right _

theorem nesting_mentionFacts (scope : Scope) (line : Int) (bare : List Char) :
    (mentionFacts scope line bare).filterMap Fact.nesting? =
      (classMentions bare).filterMap fun m =>
        (m.parent? scope).map fun parent => (parent, String.ofList m.name) := by
  have hsuffix : ((suffixed? scope bare).toList.map (Fact.defines · line)).filterMap
      Fact.nesting? = [] := by
    cases suffixed? scope bare <;> rfl
  rw [mentionFacts, List.filterMap_append, List.filterMap_append, hsuffix, List.append_nil,
    List.filterMap_flatMap, List.filterMap_flatMap]
  simp only [filterMap_nesting?_facts, ClassMention.isDotted]
  induction classMentions bare with
  | nil => rfl
  | cons m ms ih =>
    cases hparent : m.parent? scope with
    | none => simpa [hparent] using ih
    | some parent => simpa [hparent] using ih

theorem suffixed?_eq_some_iff {scope : Scope} (h : scope.parent ≠ some "") {bare : List Char}
    {x : String} :
    suffixed? scope bare = some x ↔
      ∃ parent suffix rest, scope.parent = some parent ∧ scope.inMixin = false ∧
        (∀ m ∈ classMentions bare, m.afterParent = false) ∧
        bare = '&' :: (suffix ++ rest) ∧ IsSuffix suffix ∧ EndsName rest ∧
        x = parent ++ String.ofList suffix := by
  rw [suffixed?, concrete?_eq h]
  constructor
  · intro hx
    split at hx
    · rename_i hnone
      obtain ⟨parent, hparent, hx⟩ := Option.bind_eq_some_iff.mp hx
      obtain ⟨⟨suffix, rest⟩, hsuffix, rfl⟩ := Option.map_eq_some_iff.mp hx
      obtain ⟨hbare, hleads, hends⟩ := parentSuffix?_eq_some_iff.mp hsuffix
      have hmentions := findAll_parentClass_eq_nil_iff.mp (List.isEmpty_iff.mp hnone)
      split at hparent
      · cases hparent
      · rename_i hmixin
        exact ⟨parent, suffix, rest, hparent, Bool.eq_false_iff.mpr hmixin, hmentions, hbare,
          hleads, hends, rfl⟩
    · cases hx
  · rintro ⟨parent, suffix, rest, hparent, hmixin, hmentions, hbare, hleads, hends, rfl⟩
    have hsuffix := parentSuffix?_eq_some_iff.mpr ⟨hbare, hleads, hends⟩
    rw [findAll_parentClass_eq_nil_iff.mpr hmentions, hmixin, hparent, hsuffix]
    rfl

/-- **No class token of a selector is lost and none is made up.**  Each of them defines one
identifier: together with the class of the enclosing rule if it stands right after `&`, outside of
mixins, and by itself otherwise.  At most one further identifier is defined, the class of the
enclosing rule with the suffix at the front of the selector, and that only if no class token stands
after `&`.  Exactly the tokens that are put together with the enclosing class are nested under
it. -/
theorem selector_classes_exact (scope : Scope) (h : scope.parent ≠ some "") (line : Int)
    (selector : List Char) :
    ∃ (mentions : List ClassMention) (further : Option String),
      (∀ m, m ∈ mentions ↔ m.In (withoutAttributes selector)) ∧
      mentions.Pairwise (fun m n => m.before.length < n.before.length) ∧
      ((selectorFacts scope line selector).filterMap Fact.definition?).Perm
        ((mentions.map (·.identifier scope) ++ further.toList).map (·, line)) ∧
      (∀ x, further = some x ↔
        ∃ parent suffix rest, scope.parent = some parent ∧ scope.inMixin = false ∧
          (∀ m ∈ mentions, m.afterParent = false) ∧
          withoutAttributes selector = '&' :: (suffix ++ rest) ∧ IsSuffix suffix ∧ EndsName rest ∧
          x = parent ++ String.ofList suffix) ∧
      (selectorFacts scope line selector).filterMap Fact.nesting? =
        mentions.filterMap fun m =>
          (m.parent? scope).map fun parent => (parent, String.ofList m.name) := by
  rw [selectorFacts_eq_mentionFacts h]
  exact ⟨classMentions (withoutAttributes selector), suffixed? scope (withoutAttributes selector),
    fun m => mem_classMentions, pairwise_classMentionsAfter [] _,
    definitions_mentionFacts scope line _, fun x => suffixed?_eq_some_iff h,
    nesting_mentionFacts scope line _⟩

/-- Inside `.card` a selector with two tokens after `&`, one of them behind an attribute condition,
and a token that runs on into an interpolation. -/
theorem selector_classes_exact_card :
    let scope : Scope := { parent := some "card" }
    let selector := "&.on.big &[dir=rtl].off .icon-#\x7b$n\x7d".toList
    scope.parent ≠ some "" ∧
      withoutAttributes selector = "&.on.big &.off .icon-#\x7b$n\x7d".toList ∧
      ∃ (mentions : List ClassMention) (further : Option String),
        (∀ m, m ∈ mentions ↔ m.In (withoutAttributes selector)) ∧
        ([("card.on", 3), ("card.off", 3), ("big", 3)] : List (String × Int)).Perm
          ((mentions.map (·.identifier scope) ++ further.toList).map (·, 3)) ∧
        [("card", "on"), ("card", "off")] = mentions.filterMap fun m =>
          (m.parent? scope).map fun parent => (parent, String.ofList m.name) := by
  intro scope selector
  have hparent : scope.parent ≠ some "" := by decide
  have hdefinitions : (selectorFacts scope 3 selector).filterMap Fact.definition? =
      [("card.on", 3), ("card.off", 3), ("big", 3)] := by decide
  have hnesting : (selectorFacts scope 3 selector).filterMap Fact.nesting? =
      [("card", "on"), ("card", "off")] := by decide
  obtain ⟨mentions, further, hmentions, -, hdefined, -, hnested⟩ :=
    selector_classes_exact scope hparent 3 selector
  rw [hdefinitions] at hdefined
  rw [hnesting] at hnested
  exact ⟨hparent, by decide, mentions, further, hmentions, hdefined, hnested⟩

end StyleAudit.Style
