import StyleAudit.Proofs.Style.ClassTokens
import StyleAudit.Proofs.Style.Lines
import StyleAudit.Proofs.Style.Outline
import StyleAudit.Proofs.Style.Sheet

/-!
# The classes that suffixes name

A stylesheet that is the text of a tree of rules defines the classes that the tree names, where a
suffix lengthens the first class of the chain around it (`suffixes_lengthen_first_class`).  These
are the classes that a preprocessor writes if each chain with suffixes right inside its rule begins
with the class that it ends with; otherwise they need not be (`suffix_misses_last_class`).

The facts of a selector are its names (`selectorFacts_eq`), and the class that it hands down to the
rules inside it is its anchor (`under_eq`).  With the rules of the text at hand, the facts of the
whole tree follow by induction on how the rules stand for it (`definitions_factsOf`).
-/

namespace StyleAudit.Style

open StyleAudit.Text Nested

/-! ### The facts of a selector -/

theorem withoutAttributes_of_notMem {cs : List Char} (h : '[' ∉ cs) :
    withoutAttributes cs = cs := by
  have hblind : attributeCondition.Blind := fun before cs => by
    unfold attributeCondition
    split <;> rfl
  induction cs with
  | nil => rfl
  | cons c cs ih =>
    rw [List.mem_cons, not_or] at h
    have hnone : attributeCondition none (c :: cs) = none := by
      simp [attributeCondition, Ne.symm h.1]
    rw [withoutAttributes, hblind.replace_of_none _ hnone, ← withoutAttributes, ih h.2]

theorem withoutAttributes_text (sel : Selector) : withoutAttributes sel.text = sel.text :=
  withoutAttributes_of_notMem fun h => by
    have hall := List.all_eq_true.mp sel.all_text '[' h
    cases hall

theorem findAll_parentClass_of_notMem {cs : List Char} (h : '&' ∉ cs) :
    parentClass.findAll cs = [] := by
  induction cs with
  | nil => rfl
  | cons c cs ih =>
    rw [List.mem_cons, not_or] at h
    rw [findAll_parentClass_of_ne (Ne.symm h.1), ih h.2]

/-- A character that goes on with a class name, or that may begin an interpolation after it. -/
def extendsName (c : Char) : Bool :=
  isClassChar c || c == '#' || c == '@'

theorem className?_append (n : ClassName) {rest : List Char} (hrest : Stops extendsName rest) :
    className? (n.chars ++ rest) = some (n.chars, rest) := by
  have hstop : Stops isClassChar rest := hrest.mono fun c hc => by rw [extendsName, hc]; rfl
  have htake : n.chars.takeWhile isClassChar = n.chars :=
    List.takeWhile_eq_self_iff.mpr (List.all_eq_true.mp n.run)
  have hdrop : n.chars.dropWhile isClassChar = [] :=
    List.dropWhile_eq_nil_iff.mpr (List.all_eq_true.mp n.run)
  have hinterpolation : startsInterpolation rest = false := by
    rw [← Bool.not_eq_true, startsInterpolation_iff]
    rintro ⟨h | h, -⟩
    · cases hrest '#' h
    · cases hrest '@' h
  rw [className?, wholeRun?, takeWhile_append_of_stops hstop, dropWhile_append_of_stops hstop,
    htake, hdrop, n.named, List.nil_append, hinterpolation]
  rfl

theorem findAll_classToken_class (n : ClassName) {rest : List Char}
    (hrest : Stops extendsName rest) :
    classToken.findAll ('.' :: n.chars ++ rest) = n.chars :: classToken.findAll rest :=
  findAll_classToken_of_some (className?_append n hrest)

theorem findAll_classToken_blank {text : List Char} (h : text.all isSpace = true)
    (rest : List Char) : classToken.findAll (text ++ rest) = classToken.findAll rest := by
  induction text with
  | nil => rfl
  | cons c text ih =>
    rw [List.all_cons, Bool.and_eq_true] at h
    have hc : c ≠ '.' := by rintro rfl; cases h.1
    rw [List.cons_append, findAll_classToken_of_ne hc, ih h.2]

theorem findAll_classToken_parts (parts : List (ClassName × Link)) {rest : List Char}
    (hrest : Opens ['.'] rest) :
    classToken.findAll (parts.flatMap partText ++ rest) =
      parts.map (fun part => part.1.chars) ++ classToken.findAll rest := by
  induction parts with
  | nil => rfl
  | cons part parts ih =>
    have hnext : Opens [' ', '\t', '\n', '.'] (part.2.text ++ (parts.flatMap partText ++ rest)) :=
      ((opens_parts parts hrest).mono (by simp)).blank_append part.2.all_text (by decide)
    rw [List.flatMap_cons, partText, List.append_assoc, List.append_assoc,
      findAll_classToken_class part.1 (hnext.stops (by decide)),
      findAll_classToken_blank part.2.all_text, ih, List.map_cons, List.cons_append]

theorem findAll_classToken_chain (c : Chain) :
    classToken.findAll c.text = c.names.map ClassName.chars := by
  have hstop : Stops extendsName [] := fun d hd => by cases hd
  have hlast := findAll_classToken_class c.last hstop
  rw [List.append_nil] at hlast
  rw [Chain.text, findAll_classToken_parts c.before ⟨'.', List.mem_singleton_self _, _, rfl⟩, hlast,
    Chain.names, List.map_append, List.map_map]
  rfl

theorem parentSuffix?_chain (c : Chain) : parentSuffix? c.text = none := by
  obtain ⟨cs, htext⟩ := c.exists_text
  rw [htext]
  rfl

theorem findAll_parentClass_chain (c : Chain) : parentClass.findAll c.text = [] := by
  have hclass : ∀ {d}, isClassChar d = true → (d != '&') = true := fun hd =>
    bne_iff_ne.mpr (ne_amp_of_isClassChar hd)
  have hspace : ∀ {d}, isSpace d = true → (d != '&') = true := fun hd =>
    bne_iff_ne.mpr (ne_of_holds hd (by decide))
  have hall : c.text.all (· != '&') = true := c.all_text rfl hclass hspace
  exact findAll_parentClass_of_notMem fun hmem => by cases List.all_eq_true.mp hall '&' hmem

theorem parentSuffix?_suffix (s : Suffix) :
    parentSuffix? ('&' :: s.chars) = some (s.chars, []) := by
  have htake := List.takeWhile_eq_self_iff.mpr (List.all_eq_true.mp s.run)
  have hdrop := List.dropWhile_eq_nil_iff.mpr (List.all_eq_true.mp s.run)
  have hrun : wholeRun? s.chars = some (s.chars, []) := by
    rw [wholeRun?, htake, hdrop]
    rfl
  have hleads := s.leads
  rw [leadsSuffix.eq_def] at hleads
  split at hleads
  · rename_i cs heq
    rw [heq] at hrun ⊢
    exact hrun
  · rename_i d cs heq
    rw [heq] at hrun ⊢
    exact hrun
  · cases hleads

theorem findAll_parentClass_suffix (s : Suffix) : parentClass.findAll ('&' :: s.chars) = [] := by
  have hnone : parentClass none ('&' :: s.chars) = none := by
    change classToken none s.chars = none
    cases hchars : s.chars with
    | nil => rfl
    | cons c cs =>
      refine classToken_of_ne (ne_dot_of_isClassChar ?_) none cs
      exact List.all_eq_true.mp s.run c (by rw [hchars]; exact List.mem_cons_self)
  have hrun := findAll_parentClass_run (List.all_eq_true.mp s.run) []
  rw [List.append_nil] at hrun
  rw [parentClass_blind.findAll_of_none hnone, hrun]
  rfl

theorem filter_name (n : ClassName) : (some n.name).filter (! ·.isEmpty) = some n.name := by
  simp [ClassName.name, n.chars_ne_nil]

/-- A selector defines the classes that it names. -/
theorem selectorFacts_eq {scope : Scope} (hmixin : scope.inMixin = false) {outer : ClassName}
    {sel : Selector} (hparent : sel.isSuffix = true → scope.parent = some outer.name) (line : Int) :
    selectorFacts scope line sel.text = (sel.names outer).map fun n => .defines n.name line := by
  rw [selectorFacts, withoutAttributes_text]
  cases sel with
  | chain c =>
    have hdefines : definesAll line (classToken.findAll c.text) =
        c.names.map fun n => .defines n.name line := by
      rw [definesAll, findAll_classToken_chain, List.map_map]
      rfl
    rw [Selector.text, Selector.names, ← hdefines]
    split
    · rw [nestedFacts, findAll_parentClass_chain, parentSuffix?_chain]
    · rfl
  | suffix s =>
    have hconcrete : scope.concrete? = some outer.name := by
      rw [Scope.concrete?, hmixin, hparent rfl, filter_name]
      rfl
    have hnested : nestedFacts outer.name line ('&' :: s.chars) =
        [.defines (outer.name ++ String.ofList s.chars) line] := by
      rw [nestedFacts, findAll_parentClass_suffix, parentSuffix?_suffix]
      rfl
    rw [hconcrete, Selector.text, Selector.names, List.map_singleton, ClassName.name_lengthen]
    exact hnested

/-- A selector hands its anchor down. -/
theorem under_eq {scope : Scope} {outer : ClassName} {sel : Selector}
    (hparent : sel.isSuffix = true → scope.parent = some outer.name) :
    scope.under [sel.text] = { scope with parent := some (sel.anchor outer).name } := by
  have hown : ownClass sel.text scope.parent = some (sel.anchor outer).name := by
    rw [ownClass, withoutAttributes_text, Pattern.find?]
    cases sel with
    | chain c =>
      rw [Selector.text, findAll_classToken_chain, List.head?_map, c.head?_names]
      rfl
    | suffix s =>
      rw [Selector.text, findAll_classToken_of_parentSuffix? (parentSuffix?_suffix s),
        parentSuffix?_suffix, hparent rfl, filter_name, Selector.anchor, ClassName.name_lengthen]
      rfl
  rw [Scope.under, List.head?_cons, Option.bind_some, hown]

/-! ### The facts of a tree -/

theorem definitions_factsOf {rs : List Rule} {items : List Item} (h : Stands rs items) :
    ∀ (scope : Scope) (outer : ClassName), scope.inMixin = false →
      (∀ item ∈ items, item.isSuffix = true → scope.parent = some outer.name) →
      ((factsOf .scss scope rs).filterMap Fact.definition?).map Prod.fst =
        (namesOf outer items).map ClassName.name := by
  induction h with
  | nil => intros; rw [factsOf, namesOf]; rfl
  | declaration statement after _ ih =>
    intro scope outer hmixin hparent
    rw [namesOf, Item.names, List.nil_append]
    exact ih scope outer hmixin (List.forall_mem_cons.mp hparent).2
  | @rule prelude body rs content items sel line before inner after hheading _ _ ihbody ih =>
    intro scope outer hmixin hparent
    rw [List.forall_mem_cons] at hparent
    have hbody := ihbody { scope with parent := some (sel.anchor outer).name } (sel.anchor outer)
      hmixin fun _ _ _ => rfl
    have hself : ((selectorFacts scope line sel.text).filterMap Fact.definition?).map Prod.fst =
        (sel.names outer).map ClassName.name := by
      rw [selectorFacts_eq hmixin hparent.1]
      simp [Fact.definition?, List.filterMap_map, List.map_filterMap]
    rw [factsOf, Rule.facts, hheading, namesOf, Item.names]
    simp only [List.flatMap_cons, List.flatMap_nil, List.append_nil, List.filterMap_append,
      List.map_append, under_eq hparent.1, hbody, hself, ih scope outer hmixin hparent.2]

theorem mem_keys_learnAll_iff (facts : List Fact) (x : String) :
    x ∈ (({} : Sheet).learnAll facts).definitions.keys ↔
      x ∈ (facts.filterMap Fact.definition?).map Prod.fst := by
  rw [Sheet.mem_keys_learnAll, or_iff_right (by simp [Table.keys])]
  constructor
  · rintro ⟨line, hfact⟩
    exact List.mem_map.mpr ⟨(x, line), List.mem_filterMap.mpr ⟨_, hfact, rfl⟩, rfl⟩
  · intro h
    obtain ⟨⟨y, line⟩, hmem, rfl⟩ := List.mem_map.mp h
    obtain ⟨fact, hfact, hdefinition⟩ := List.mem_filterMap.mp hmem
    cases fact with
    | defines identifier l => cases hdefinition; exact ⟨line, hfact⟩
    | nests parent child => cases hdefinition

/-- The text of a tree defines the classes that the tree names. -/
theorem exists_extract (sheet : Stylesheet) :
    ∃ defined, extract .scss (String.ofList sheet.text) = .ok defined ∧
      ∀ x, x ∈ defined.definitions.keys ↔ ∃ n ∈ sheet.names, n.name = x := by
  obtain ⟨forest, hparse, hstands⟩ := sheet.exists_parse
  refine ⟨_, by rw [extract, hparse]; rfl, fun x => ?_⟩
  have hsuffix : ∀ item ∈ sheet.blocks.map Block.item, item.isSuffix = false := by
    intro item hitem
    obtain ⟨b, -, rfl⟩ := List.mem_map.mp hitem
    rfl
  -- no suffix stands outside all rules, so the class to lengthen does not matter there
  have hnames := definitions_factsOf hstands {} ⟨['a'], by decide, by decide⟩ rfl
    fun item hitem h => by rw [hsuffix item hitem] at h; cases h
  rw [mem_keys_learnAll_iff, forestFacts, hnames, namesOf_map_item, List.mem_map]
  rfl

end StyleAudit.Style
