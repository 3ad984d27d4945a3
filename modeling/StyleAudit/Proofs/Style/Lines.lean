import Mathlib.Data.List.Pairwise
import StyleAudit.Proofs.Style.Sheet
import StyleAudit.Style.Extract

/-!
# The order of lines

Nothing is ever sorted by line.  That the definitions of a sheet come in the order of their lines
follows from the way they are found, and each stage passes it on:

* `pairwise_lexemes`: the lines of lexemes do not decrease.
* `forestLines_nest`: the lines of a forest in document order (`forestLines`) are those of its
  lexemes, some left out.
* `ruleLines_rules`: the lines of rules are those of the forest, some left out.
* `inOrder_factsOf`: a rule gives its facts before those of the rules inside it.
* `Sheet.ordered_learnAll`: a sheet keeps the first definition of each class.

So every sheet that is read has distinct classes with lines that do not decrease
(`ordered_of_extract`).
-/

namespace StyleAudit.Style

/-! ### Lexemes -/

theorem line_le_lineAfter (line : Nat) (c : Char) : line ≤ lineAfter line c := by
  rw [lineAfter]
  split <;> omega

theorem lexemesFrom_lines (skip line : Nat) (cs : List Char) :
    (∀ l ∈ lexemesFrom skip line cs, line ≤ l.line) ∧
      (lexemesFrom skip line cs).Pairwise fun a b => a.line ≤ b.line := by
  induction cs generalizing skip line with
  | nil => cases skip <;> simp [lexemesFrom]
  | cons c cs ih =>
    have hnext := line_le_lineAfter line c
    cases skip with
    | succ skip =>
      obtain ⟨hle, hsorted⟩ := ih skip (lineAfter line c)
      exact ⟨fun l hl => Nat.le_trans hnext (hle l hl), hsorted⟩
    | zero =>
      obtain ⟨hle, hsorted⟩ := ih (Mark.read c cs).2 (lineAfter line c)
      have hsame : ∀ l ∈ (Mark.read c cs).1.map (Lexeme.mk line), l.line = line := by
        intro l hl
        obtain ⟨mark, -, rfl⟩ := List.mem_map.mp hl
        rfl
      rw [lexemesFrom]
      refine ⟨List.forall_mem_append.mpr
        ⟨fun l hl => Nat.le_of_eq (hsame l hl).symm, fun l hl => Nat.le_trans hnext (hle l hl)⟩, ?_⟩
      refine List.pairwise_append.mpr ⟨List.pairwise_map.mpr ?_, hsorted, ?_⟩
      · exact List.pairwise_of_forall fun _ _ => Nat.le_refl _
      · intro a ha b hb
        rw [hsame a ha]
        exact Nat.le_trans hnext (hle b hb)

theorem pairwise_lexemes (source : List Char) :
    ((lexemes source).map Lexeme.line).Pairwise (· ≤ ·) :=
  List.pairwise_map.mpr (lexemesFrom_lines 0 1 (normalizeSource source)).2

/-! ### Forests -/

mutual

/-- The lines of a token and of the tokens in it, in document order. -/
def Token.lines : Token → List Nat
  | .leaf line _ => [line]
  | .block line _ content => line :: forestLines content
  | .function line _ arguments => line :: forestLines arguments

/-- The lines of a forest in document order. -/
def forestLines : List Token → List Nat
  | [] => []
  | t :: ts => t.lines ++ forestLines ts

end

theorem forestLines_append (ts us : List Token) :
    forestLines (ts ++ us) = forestLines ts ++ forestLines us := by
  induction ts with
  | nil => rfl
  | cons t ts ih => rw [List.cons_append, forestLines, ih, forestLines, List.append_assoc]

/-- The lines of what is already read, in document order. -/
def openLines : List Token → List Frame → List Nat
  | tokens, [] => forestLines tokens.reverse
  | tokens, f :: frames => openLines f.before frames ++ f.line :: forestLines tokens.reverse

theorem openLines_cons (t : Token) (tokens : List Token) (frames : List Frame) :
    openLines (t :: tokens) frames = openLines tokens frames ++ t.lines := by
  cases frames <;> simp [openLines, forestLines_append, forestLines]

theorem Frame.lines_close (f : Frame) (content : List Token) :
    (f.close content).lines = f.line :: forestLines content.reverse := by
  rw [close]
  cases f.function? <;> rfl

theorem forestLines_closeAll (tokens : List Token) (frames : List Frame) :
    forestLines (closeAll tokens frames) = openLines tokens frames := by
  induction frames generalizing tokens with
  | nil => rfl
  | cons f frames ih =>
    have hclose : closeAll tokens (f :: frames) = closeAll (f.close tokens :: f.before) frames := rfl
    rw [hclose, ih, openLines_cons, f.lines_close, openLines]

/-- **The lines of a forest are those of its lexemes**, without those of the closing brackets. -/
theorem forestLines_nest (ls : List Lexeme) (tokens : List Token) (frames : List Frame) :
    (forestLines (Token.nest ls tokens frames)).Sublist
      (openLines tokens frames ++ ls.map Lexeme.line) := by
  induction ls generalizing tokens frames with
  | nil => rw [Token.nest, forestLines_closeAll, List.map_nil, List.append_nil]
  | cons l ls ih =>
    obtain ⟨line, mark⟩ := l
    have hleaf : ∀ leaf, (forestLines (Token.nest ls (.leaf line leaf :: tokens) frames)).Sublist
        (openLines tokens frames ++ line :: ls.map Lexeme.line) := by
      intro leaf
      have h := ih (.leaf line leaf :: tokens) frames
      rwa [openLines_cons, Token.lines, List.append_assoc, List.singleton_append] at h
    have hopen : ∀ name bracket,
        (forestLines (Token.nest ls [] (⟨line, name, bracket, tokens⟩ :: frames))).Sublist
          (openLines tokens frames ++ line :: ls.map Lexeme.line) := by
      intro name bracket
      have h := ih [] (⟨line, name, bracket, tokens⟩ :: frames)
      rwa [openLines, List.append_assoc] at h
    rw [List.map_cons]
    cases mark with
    | leaf leaf => exact hleaf leaf
    | opener bracket => exact hopen none bracket
    | function name => exact hopen (some name) .round
    | closer bracket =>
      cases frames with
      | nil => exact hleaf _
      | cons f outer =>
        rw [Token.nest]
        split
        · have h := ih (f.close tokens :: f.before) outer
          rw [openLines_cons, f.lines_close] at h
          exact h.trans ((List.Sublist.refl _).append (List.sublist_cons_self _ _))
        · exact hleaf _

theorem pairwise_forestLines_parse (source : List Char) :
    (forestLines (parse source)).Pairwise (· ≤ ·) :=
  (pairwise_lexemes source).sublist (forestLines_nest (lexemes source) [] [])

/-! ### Rules -/

/-- The line that a prelude begins on. -/
def preludeLines (prelude : List Token) : List Nat :=
  (prelude.head?.map Token.line).toList

mutual

/-- The lines that the preludes of a rule and of the rules inside it begin on. -/
def Rule.lines : Rule → List Nat
  | .mk prelude body => preludeLines prelude ++ ruleLines body

def ruleLines : List Rule → List Nat
  | [] => []
  | r :: rs => r.lines ++ ruleLines rs

end

theorem preludeLines_extendPrelude (prelude : List Token) (t : Token) :
    (preludeLines (extendPrelude prelude t)).Sublist (preludeLines prelude ++ [t.line]) := by
  have happend : (preludeLines (prelude ++ [t])).Sublist (preludeLines prelude ++ [t.line]) := by
    cases prelude <;> simp [preludeLines]
  rw [extendPrelude]
  split
  · split
    · exact List.nil_sublist _
    · exact happend
  · split
    · exact List.nil_sublist _
    · exact happend

theorem Token.line_sublist_lines (t : Token) : [t.line].Sublist t.lines := by
  cases t <;> simp [Token.line, Token.lines]

mutual

theorem Token.ruleLines_rules : ∀ t : Token, (ruleLines t.rules).Sublist t.lines
  | .leaf _ _ => List.nil_sublist _
  | .function _ _ _ => List.nil_sublist _
  | .block line _ content => by
    rw [Token.rules, Token.lines]
    exact (Style.ruleLines_rules [] content).trans (List.sublist_cons_self _ _)

/-- **The lines of rules are those of the forest**, some left out. -/
theorem ruleLines_rules : ∀ (prelude ts : List Token),
    (ruleLines (rules prelude ts)).Sublist (preludeLines prelude ++ forestLines ts)
  | _, [] => List.nil_sublist _
  | prelude, t :: ts => by
    have hrest := ruleLines_rules [] ts
    rw [rules, forestLines]
    split
    · split
      · exact hrest.trans ((List.sublist_append_right _ _).trans (List.sublist_append_right _ _))
      · rw [ruleLines, Rule.lines, List.append_assoc]
        exact (List.Sublist.refl _).append (t.ruleLines_rules.append hrest)
    · refine (ruleLines_rules (extendPrelude prelude t) ts).trans ?_
      rw [← List.append_assoc]
      refine ((preludeLines_extendPrelude prelude t).trans ?_).append (List.Sublist.refl _)
      exact (List.Sublist.refl _).append t.line_sublist_lines

end

/-! ### Facts -/

/-- The identifier and the line that a fact defines. -/
def Fact.definition? : Fact → Option (String × Int)
  | .defines identifier line => some (identifier, line)
  | .nests _ _ => none

/-- The definitions of the facts stand on the given lines, in order. -/
structure InOrder (lines : List Nat) (facts : List Fact) : Prop where
  drawn : ∀ e ∈ facts.filterMap Fact.definition?, ∃ n ∈ lines, e.2 = (n : Int)
  sorted : (facts.filterMap Fact.definition?).Pairwise fun a b => a.2 ≤ b.2

namespace InOrder

theorem nil (lines : List Nat) : InOrder lines [] :=
  ⟨by simp, by simp⟩

theorem mono {lines more : List Nat} {facts : List Fact} (h : InOrder lines facts)
    (hsub : lines ⊆ more) : InOrder more facts :=
  ⟨fun e he => (h.drawn e he).imp fun _ hn => ⟨hsub hn.1, hn.2⟩, h.sorted⟩

/-- Facts on earlier lines come first. -/
theorem append {lines more : List Nat} {facts facts' : List Fact} (h : InOrder lines facts)
    (h' : InOrder more facts') (hlines : (lines ++ more).Pairwise (· ≤ ·)) :
    InOrder (lines ++ more) (facts ++ facts') := by
  obtain ⟨-, -, hcross⟩ := List.pairwise_append.mp hlines
  refine ⟨?_, ?_⟩
  · rw [List.filterMap_append]
    exact List.forall_mem_append.mpr ⟨(h.mono (List.subset_append_left _ _)).drawn,
      (h'.mono (List.subset_append_right _ _)).drawn⟩
  · rw [List.filterMap_append]
    refine List.pairwise_append.mpr ⟨h.sorted, h'.sorted, fun a ha b hb => ?_⟩
    obtain ⟨n, hn, hna⟩ := h.drawn a ha
    obtain ⟨m, hm, hmb⟩ := h'.drawn b hb
    rw [hna, hmb]
    exact Int.ofNat_le.mpr (hcross n hn m hm)

/-- Facts that are all on one line. -/
theorem of_line {line : Nat} {facts : List Fact}
    (h : ∀ e ∈ facts.filterMap Fact.definition?, e.2 = (line : Int)) : InOrder [line] facts where
  drawn e he := ⟨line, List.mem_singleton_self line, h e he⟩
  sorted := List.pairwise_of_forall_mem_list fun a ha b hb =>
    Int.le_of_eq ((h a ha).trans (h b hb).symm)

end InOrder

theorem line_of_mem_definesAll {line : Int} {names : List (List Char)} :
    ∀ e ∈ (definesAll line names).filterMap Fact.definition?, e.2 = line := by
  intro e he
  obtain ⟨f, hf, hd⟩ := List.mem_filterMap.mp he
  obtain ⟨name, -, rfl⟩ := List.mem_map.mp hf
  cases hd
  rfl

/-- All that a selector defines is on its line. -/
theorem line_of_mem_selectorFacts {scope : Scope} {line : Int} {selector : List Char} :
    ∀ e ∈ (selectorFacts scope line selector).filterMap Fact.definition?, e.2 = line := by
  have hall := @line_of_mem_definesAll line
  have hnested : ∀ parent cs, ∀ e ∈ (nestedFacts parent line cs).filterMap Fact.definition?,
      e.2 = line := by
    intro parent cs
    rw [nestedFacts]
    split
    · split
      · rename_i suffix rest _
        exact List.forall_mem_cons.mpr ⟨rfl, hall⟩
      · exact hall
    · rename_i children _
      rw [List.filterMap_append]
      refine List.forall_mem_append.mpr ⟨fun e he => ?_, hall⟩
      obtain ⟨f, hf, hd⟩ := List.mem_filterMap.mp he
      obtain ⟨child, -, hf⟩ := List.mem_flatMap.mp hf
      rcases List.mem_pair.mp hf with rfl | rfl
      · cases hd
        rfl
      · cases hd
  rw [selectorFacts]
  split
  · exact hnested _ _
  · exact hall

theorem preludeLines_of_heading {d : Dialect} {prelude : List Token} {line : Nat}
    {selectors : List (List Char)} (h : heading d prelude = .selectors line selectors) :
    preludeLines prelude = [line] := by
  rw [heading.eq_def] at h
  split at h
  · cases h
  · dsimp only at h
    split at h
    · cases h
    · split at h <;> cases h
  · dsimp only at h
    split at h
    · cases h
    · cases h
      rfl

mutual

theorem Rule.inOrder_facts (d : Dialect) : ∀ (r : Rule) (scope : Scope),
    r.lines.Pairwise (· ≤ ·) → InOrder r.lines (r.facts d scope)
  | .mk prelude body, scope, h => by
    rw [Rule.lines] at h ⊢
    have hbody : (ruleLines body).Pairwise (· ≤ ·) := (List.pairwise_append.mp h).2.1
    rw [Rule.facts]
    split
    · exact .nil _
    · exact (inOrder_factsOf d body _ hbody).mono (List.subset_append_right _ _)
    · exact (inOrder_factsOf d body _ hbody).mono (List.subset_append_right _ _)
    · rename_i line selectors hheading
      rw [preludeLines_of_heading hheading] at h ⊢
      refine (InOrder.of_line fun e he => ?_).append (inOrder_factsOf d body _ hbody) h
      rw [List.filterMap_flatMap] at he
      obtain ⟨selector, -, he⟩ := List.mem_flatMap.mp he
      exact line_of_mem_selectorFacts e he

/-- **The facts of rules come in the order of their lines.** -/
theorem inOrder_factsOf (d : Dialect) : ∀ (rs : List Rule) (scope : Scope),
    (ruleLines rs).Pairwise (· ≤ ·) → InOrder (ruleLines rs) (factsOf d scope rs)
  | [], _, _ => by rw [factsOf]; exact .nil _
  | r :: rs, scope, h => by
    rw [ruleLines] at h ⊢
    obtain ⟨hr, hrs, -⟩ := List.pairwise_append.mp h
    rw [factsOf]
    exact (r.inOrder_facts d scope hr).append (inOrder_factsOf d rs scope hrs) h

end

/-! ### Sheets -/

/-- The classes are distinct, and their lines do not decrease. -/
structure Sheet.Ordered (s : Sheet) : Prop where
  distinct : s.definitions.keys.Nodup
  lines : s.definitions.Pairwise fun a b => a.2 ≤ b.2

/-- A sheet keeps some of the definitions that it learns. -/
theorem Sheet.definitions_learnAll (facts : List Fact) (s : Sheet) :
    (s.learnAll facts).definitions.Sublist (s.definitions ++ facts.filterMap Fact.definition?) := by
  rw [learnAll]
  induction facts generalizing s with
  | nil => simp
  | cons f facts ih =>
    refine (ih (s.learn f)).trans ?_
    cases f with
    | nests parent child => exact List.Sublist.refl _
    | defines identifier line =>
      have hnew : (s.learn (.defines identifier line)).definitions.Sublist
          (s.definitions ++ [(identifier, line)]) := Table.putNew_sublist _ _ _
      simpa [Fact.definition?] using hnew.append_right (facts.filterMap Fact.definition?)

theorem Sheet.nodup_keys_learnAll (facts : List Fact) {s : Sheet} (h : s.definitions.keys.Nodup) :
    (s.learnAll facts).definitions.keys.Nodup := by
  refine List.foldlRecOn (motive := fun s : Sheet => s.definitions.keys.Nodup) _ _ h ?_
  intro s hs f _
  cases f with
  | nests parent child => exact hs
  | defines identifier line => exact Table.nodup_keys_putNew hs identifier line

theorem Sheet.ordered_learnAll {lines : List Nat} {facts : List Fact} (h : InOrder lines facts) :
    (({} : Sheet).learnAll facts).Ordered where
  distinct := nodup_keys_learnAll facts List.nodup_nil
  lines := h.sorted.sublist (definitions_learnAll facts {})

/-- A sheet is ordered if the lines of its forest are. -/
theorem ordered_of_forest (d : Dialect) {forest : List Token}
    (h : (forestLines forest).Pairwise (· ≤ ·)) :
    (({} : Sheet).learnAll (forestFacts d {} forest)).Ordered :=
  Sheet.ordered_learnAll (inOrder_factsOf d _ _ (h.sublist (ruleLines_rules [] forest)))

/-- **Every sheet that is read is ordered.** -/
theorem ordered_of_extract {d : Dialect} {source : String} {sheet : Sheet}
    (h : extract d source = .ok sheet) : sheet.Ordered := by
  rw [extract] at h
  cases hparse : d.parse source with
  | error e => rw [hparse] at h; cases h
  | ok forest =>
    rw [hparse] at h
    cases h
    refine ordered_of_forest d ?_
    simp only [Dialect.parse, parseSound] at hparse
    split at hparse
    · cases hparse
    · cases hparse
      exact pairwise_forestLines_parse _

end StyleAudit.Style
