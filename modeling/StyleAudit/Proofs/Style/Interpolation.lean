import StyleAudit.Proofs.Style.AtRules
import StyleAudit.Proofs.Style.RuleBody
import StyleAudit.Style.Palette

/-!
# Declarations with interpolations

In `color: #{$shade};` the block after the mark `#` is an interpolation, that is, a part of the
value.  The two readers of a stylesheet do not agree on it.  The reader of rules passes over such a
text like over any other one (`rules_text`).  The reader of declarations takes every block for that
of a rule: it reads the inside by itself, forgets what stands before, and goes on with what stands
after it.

So a declaration with an interpolation is not read.  In its place come the declarations inside the
interpolations and whatever stands after the last one, if that happens to look like a declaration.
Where nothing does (`RuleBody.isInert`), exactly the declarations without interpolations are read
(`interpolation_hides_declarations`).
-/

namespace StyleAudit.Style

open StyleAudit.Text

/-! ### Bodies with interpolations -/

theorem forall_mem_of_unbrokenAfter {front ts : List Token} (h : unbrokenAfter front ts = true) :
    ∀ t ∈ ts, t.isLiteral ";" = false := by
  induction ts generalizing front with
  | nil => nofun
  | cons t ts ih =>
    obtain ⟨hsemicolon, -, hts⟩ := unbrokenAfter_cons.mp h
    exact List.forall_mem_cons.mpr ⟨hsemicolon, ih hts⟩

/-- Texts and preludes may hold interpolations.  A prelude does not end in a mark, since its block
would be an interpolation then. -/
def Layout.interpolated : Layout where
  isText := isUnbroken
  isPrelude ts := isUnbroken ts && !endsInMark ts
  text_open _ h := forall_mem_of_unbrokenAfter h
  prelude_open _ h := forall_mem_of_unbrokenAfter (Bool.and_eq_true_iff.mp h).1

/-- The value holds an interpolation. -/
def Assignment.isInterpolated (a : Assignment) : Bool :=
  a.value.any Token.isCurly

/-! ### The reader of rules -/

theorem endsInMark_concat (front : List Token) (t : Token) :
    endsInMark (front ++ [t]) = (t.isLiteral "#" || t.isLiteral "@") := by
  rw [endsInMark, List.getLast?_concat]

/-- Only the last token before a text matters for it. -/
theorem unbrokenAfter_mono {front front' : List Token}
    (hmark : endsInMark front = true → endsInMark front' = true) {ts : List Token}
    (h : unbrokenAfter front ts = true) : unbrokenAfter front' ts = true := by
  induction ts generalizing front front' with
  | nil => rfl
  | cons t ts ih =>
    obtain ⟨hsemicolon, hcurly, hts⟩ := unbrokenAfter_cons.mp h
    refine unbrokenAfter_cons.mpr ⟨hsemicolon, fun ht => hmark (hcurly ht), ih ?_ hts⟩
    rw [endsInMark_concat, endsInMark_concat]
    exact id

/-- Tokens that are neither semicolons nor blocks may stand before a text. -/
theorem unbrokenAfter_append {front flat : List Token} (hflat : isFlat flat = true)
    {ts : List Token} (h : unbrokenAfter (front ++ flat) ts = true) :
    unbrokenAfter front (flat ++ ts) = true := by
  induction flat generalizing front with
  | nil => rwa [List.append_nil] at h
  | cons t flat ih =>
    obtain ⟨ht, hrest⟩ := List.forall_mem_cons.mp (isFlat_iff.mp hflat)
    rw [← List.singleton_append, ← List.append_assoc] at h
    have hcurly : t.isCurly = true → endsInMark front = true := by
      rw [ht.2]
      exact nofun
    exact unbrokenAfter_cons.mpr ⟨ht.1, hcurly, ih (isFlat_iff.mpr hrest) h⟩

theorem Clause.isUnbroken_tokens (c : Clause .interpolated) : isUnbroken c.tokens = true := by
  cases c with
  | declaration a h =>
    -- no mark stands before the value, neither here nor in the test of the value alone
    have hmark : ¬ endsInMark [] = true := Bool.false_ne_true
    exact unbrokenAfter_append a.isFlat_head (unbrokenAfter_mono (absurd · hmark) h)
  | other ts h hother => exact h

/-- A text up to a semicolon makes no rule. -/
theorem rules_text {ts : List Token} (h : isUnbroken ts = true) (line : Nat)
    (rest : List Token) : rules [] (ts ++ semicolon line :: rest) = rules [] rest := by
  induction ts with
  | nil => exact rules_semicolon [] line rest
  | cons t ts ih =>
    obtain ⟨hsemicolon, hcurly, hts⟩ := unbrokenAfter_cons.mp h
    have hblock : ¬ (t.isCurly && !endsInMark []) = true := by
      intro hb
      cases hcurly (Bool.and_eq_true_iff.mp hb).1
    rw [List.cons_append, rules, if_neg hblock]
    by_cases hblank : t.isBlank = true
    · obtain ⟨l, text, rfl⟩ := exists_of_isBlank hblank
      have hmark : ¬ endsInMark [.leaf l (.blank text)] = true := Bool.false_ne_true
      exact ih (unbrokenAfter_mono (absurd · hmark) hts)
    · have hextend : extendPrelude [] t = [t] := by
        rw [extendPrelude, if_neg hblank, hsemicolon]
        rfl
      rw [hextend, rules_unbroken (List.cons_ne_nil t []) hts, rules_semicolon]

/-! ### What is hidden -/

/-- Nothing in a text is read as a declaration that would not be read without its interpolations. -/
def isInert (ts : List Token) : Bool :=
  (innerDeclarations ts).isEmpty &&
    (!ts.any Token.isCurly || (asDeclaration (afterBlocks ts)).isNone)

theorem declarationsOf_of_isInert {ts : List Token} (h : isInert ts = true) :
    declarationsOf ts = if ts.any Token.isCurly then [] else (asDeclaration ts).toList := by
  rw [isInert, Bool.and_eq_true, List.isEmpty_iff] at h
  cases hany : ts.any Token.isCurly with
  | false => exact declarationsOf_of_noBlock (by simpa using hany)
  | true =>
    rw [hany, Bool.not_true, Bool.false_or, Option.isNone_iff_eq_none] at h
    rw [declarationsOf, h.1, h.2]
    rfl

/-- No text of the body is read otherwise because of its interpolations. -/
def RuleBody.isInert : RuleBody .interpolated → Bool
  | .empty => true
  | .last c => Style.isInert c.tokens
  | .clause c _ rest => Style.isInert c.tokens && rest.isInert
  | .block prelude _ content rest =>
    (innerDeclarations prelude.val).isEmpty && content.isInert && rest.isInert

theorem Assignment.any_tokens (a : Assignment) : a.tokens.any Token.isCurly = a.isInterpolated := by
  have hhead : a.head.any Token.isCurly = false := by
    rw [List.any_eq_false]
    intro t ht
    rw [(isFlat_iff.mp a.isFlat_head t ht).2]
    exact Bool.false_ne_true
  rw [tokens, List.any_append, hhead, Bool.false_or, isInterpolated]

theorem Clause.declarationsOf_of_isInert (c : Clause .interpolated)
    (h : Style.isInert c.tokens = true) :
    declarationsOf c.tokens =
      (c.assignment?.toList.filter (! ·.isInterpolated)).map Assignment.declaration := by
  rw [Style.declarationsOf_of_isInert h, c.asDeclaration_tokens]
  cases c with
  | declaration a ha =>
    rw [tokens, a.any_tokens]
    cases hinterpolated : a.isInterpolated <;> simp [assignment?, hinterpolated]
  | other ts hts hother => split <;> rfl

theorem RuleBody.read_of_isInert (body : RuleBody .interpolated) (h : body.isInert = true) :
    body.read = (body.assignments.filter (! ·.isInterpolated)).map Assignment.declaration := by
  induction body with
  | empty => rfl
  | last c => exact c.declarationsOf_of_isInert h
  | clause c line rest ih =>
    obtain ⟨hc, hrest⟩ := Bool.and_eq_true_iff.mp h
    rw [read, assignments, c.declarationsOf_of_isInert hc, ih hrest, List.filter_append,
      List.map_append]
  | block prelude line content rest ihcontent ih =>
    obtain ⟨hblock, hrest⟩ := Bool.and_eq_true_iff.mp h
    obtain ⟨hprelude, hcontent⟩ := Bool.and_eq_true_iff.mp hblock
    rw [read, assignments, List.isEmpty_iff.mp hprelude, ihcontent hcontent, ih hrest,
      List.filter_append, List.map_append, List.nil_append]

/-- **A declaration with an interpolation is hidden.**  The reader of rules passes over every
clause, whether it holds interpolations or not.  The reader of declarations reads the inside of each
interpolation and what stands after the last one, and if nothing looks like a declaration there,
exactly the declarations without interpolations are read.  So each declaration is found with its
property and line only if no value holds an interpolation. -/
theorem interpolation_hides_declarations (body : RuleBody .interpolated) :
    (∀ (c : Clause .interpolated) line rest,
      rules [] (c.tokens ++ semicolon line :: rest) = rules [] rest) ∧
    declarationsAfter [] body.tokens = body.read ∧
    (body.isInert = true →
      declarationsAfter [] body.tokens =
        (body.assignments.filter (! ·.isInterpolated)).map Assignment.declaration ∧
      ((declarationsAfter [] body.tokens).map (fun d => (d.property, d.line)) =
          body.assignments.map (fun a => (asciiLowered a.name, (a.line : Int))) ↔
        ∀ a ∈ body.assignments, a.isInterpolated = false)) := by
  refine ⟨fun c line rest => rules_text c.isUnbroken_tokens line rest,
    body.declarationsAfter_tokens, ?_⟩
  intro hinert
  rw [body.declarationsAfter_tokens, body.read_of_isInert hinert]
  refine ⟨rfl, ?_, ?_⟩
  · intro hall
    have hlength := congrArg List.length hall
    simp only [List.length_map] at hlength
    simpa using List.length_filter_eq_length_iff.mp hlength
  · intro hnone
    rw [List.filter_eq_self.mpr (by simpa using hnone), List.map_map]
    rfl

/-- In `.a { color: #{$shade}; margin: 0 }` the colour is not found. -/
theorem interpolation_hides_declarations_color :
    ∃ body : RuleBody .interpolated,
      body.assignments.map Assignment.name = ["color", "margin"] ∧ body.isInert = true ∧
      declarationsAfter [] body.tokens = [⟨"margin", "0", 2⟩] ∧
      (declarationsAfter [] body.tokens).map (fun d => (d.property, d.line)) ≠
        body.assignments.map (fun a => (asciiLowered a.name, (a.line : Int))) := by
  let shade := [Token.leaf 1 (.literal "$"), .leaf 1 (.ident "shade")]
  let color : Assignment :=
    { lead := [.leaf 1 (.blank " ")]
      line := 1
      name := "color"
      gap := []
      colonLine := 1
      value := [.leaf 1 (.blank " "), .leaf 1 (.literal "#"), .block 1 .curly shade]
      blank_lead := rfl
      blank_gap := rfl }
  let margin : Assignment :=
    { lead := [.leaf 1 (.blank "\n")]
      line := 2
      name := "margin"
      gap := []
      colonLine := 2
      value := [.leaf 2 (.number "0")]
      blank_lead := rfl
      blank_gap := rfl }
  let body : RuleBody .interpolated :=
    .block ⟨[.leaf 1 (.literal "."), .leaf 1 (.ident "a"), .leaf 1 (.blank " ")], rfl⟩ 1
      (.clause (.declaration color rfl) 1 (.last (.declaration margin rfl))) .empty
  have hinert : body.isInert = true := by decide
  obtain ⟨hfound, hall⟩ := (interpolation_hides_declarations body).2.2 hinert
  refine ⟨body, rfl, hinert, ?_, ?_⟩
  · rw [hfound]
    decide
  · intro h
    have hcolor := hall.mp h color List.mem_cons_self
    cases hcolor

/-- The colour rule would report the variable of an interpolated colour, but no declaration is found
in which it stands. -/
theorem interpolated_color_missed :
    (declarations .scss ".a \x7b color: #\x7b$shade\x7d; \x7d").toOption = some [] ∧
    (declarations .less ".a \x7b color: @\x7bshade\x7d; \x7d").toOption = some [] ∧
    (Palette.check [] "a.scss" [⟨"color", "#\x7b$shade\x7d", 1⟩]).map Violation.message =
      ["Preprocessor variable used: #\x7b$shade\x7d. Direct color validation skipped."] := by
  refine ⟨?_, ?_, ?_⟩ <;> decide +kernel

end StyleAudit.Style
