import StyleAudit.Proofs.Audit.Soundness
import StyleAudit.Proofs.Markup.Words

/-!
# Naming conventions

A class name of several words is spelt with hyphens, with underscores or with inner capitals
(`Convention`), and a class that is defined in one spelling may be asked for in another.  The
variants of a name are found by way of the spelling with hyphens, so the question is which words that
spelling has (`Convention.kebabCase_spell`).

With a mark between them the words are always found again.  With inner capitals a new word is heard
only where a capital follows a small letter or digit, so a single letter inside the name runs
together with the word after it: `aBC` is read as `a-bc` and not as `a-b-c`.  `heard` gives the words
that are read, and all of their spellings are variants (`Convention.spell_heard_mem`).  If each word
shows where the next one begins (`Convention.isLegible`), these are the words that were written;
otherwise they are fewer, and the other spellings are missed (`joined_notMem_variants`).  So the
conventions are interchangeable exactly as far as the spelling is legible
(`conventions_interchangeable`).
-/

namespace StyleAudit.Markup

open StyleAudit.Text
open StyleAudit.Audit (Context Options importTree memberTree)

/-! ### Marks for marks -/

theorem substitute_of_notMem {old : Char} (new : Char) {cs : List Char} (h : old ∉ cs) :
    substitute old new cs = cs := by
  have hid : ∀ c ∈ cs, (if c == old then new else c) = c := by
    intro c hc
    rw [if_neg]
    intro he
    exact h (beq_iff_eq.mp he ▸ hc)
  rw [substitute, List.map_congr_left hid, List.map_id']

theorem substitute_joined {old : Char} (hold : old ∈ marks) (new : Char) (ws : List Word) :
    substitute old new (joined old ws) = joined new ws := by
  have hword : ∀ w : Word, substitute old new w.chars = w.chars := fun w =>
    substitute_of_notMem new fun hm => (w.settled_chars old hm).notMem_marks hold
  induction ws with
  | nil => rfl
  | cons w ws ih =>
    by_cases hws : ws = []
    · rw [hws, joined_singleton, joined_singleton, hword]
    · rw [joined_cons w hws, joined_cons w hws, substitute, List.map_append, ← substitute, hword,
        List.map_cons, ← substitute, ih]
      simp

/-! ### Hyphens before capitals -/

/-- A text with a hyphen before each capital that follows a small letter or digit. -/
def hyphenate (before : Option Char) : List Char → List Char
  | [] => []
  | c :: cs =>
    if before.any closesWord && c.isUpper then '-' :: c :: hyphenate (some c) cs
    else c :: hyphenate (some c) cs

theorem innerCapital_cons (before : Option Char) (c : Char) (cs : List Char) :
    innerCapital before (c :: cs) =
      if before.any closesWord && c.isUpper then some (c, cs) else none := by
  cases before with
  | none => rfl
  | some b => rfl

/-- A hit of the pattern is one character long, so none is skipped. -/
theorem replace_innerCapital (cs : List Char) :
    innerCapital.replace (fun c => ['-', c]) cs = hyphenate none cs := by
  rw [Pattern.replace, Pattern.pieces]
  generalize (none : Option Char) = before
  induction cs generalizing before with
  | nil => rfl
  | cons c cs ih =>
    rw [Pattern.piecesFrom, innerCapital_cons, hyphenate]
    by_cases hhit : (before.any closesWord && c.isUpper) = true
    · rw [if_pos hhit, if_pos hhit]
      simp only [Nat.sub_self, List.flatMap_cons, ih, List.cons_append, List.nil_append]
    · rw [if_neg hhit, if_neg hhit]
      simp only [List.flatMap_cons, ih, List.cons_append, List.nil_append]

theorem hyphenate_append {cs : List Char} (h : ∀ c ∈ cs, c.isUpper = false) (before : Option Char)
    (ds : List Char) :
    hyphenate before (cs ++ ds) = cs ++ hyphenate (cs.getLast?.or before) ds := by
  induction cs generalizing before with
  | nil => rfl
  | cons c cs ih =>
    obtain ⟨hc, hcs⟩ := List.forall_mem_cons.mp h
    rw [List.cons_append, hyphenate, hc, Bool.and_false, if_neg (by simp), ih hcs, List.cons_append,
      List.getLast?_cons]
    cases cs.getLast? with
    | none => rfl
    | some d => rfl

theorem hyphenate_of_notUpper {cs : List Char} (h : ∀ c ∈ cs, c.isUpper = false)
    (before : Option Char) : hyphenate before cs = cs := by
  have happend := hyphenate_append h before []
  rwa [List.append_nil, hyphenate, List.append_nil] at happend

theorem mem_of_mem_hyphenate (cs : List Char) (before : Option Char) :
    ∀ c ∈ hyphenate before cs, c = '-' ∨ c ∈ cs := by
  induction cs generalizing before with
  | nil => intro c hc; cases hc
  | cons d cs ih =>
    have hrest : ∀ c ∈ d :: hyphenate (some d) cs, c = '-' ∨ c ∈ d :: cs := by
      intro c hc
      rcases List.mem_cons.mp hc with rfl | hc
      · exact Or.inr List.mem_cons_self
      · exact (ih (some d) c hc).imp_right (List.mem_cons_of_mem d)
    intro c hc
    rw [hyphenate] at hc
    split at hc
    · rcases List.mem_cons.mp hc with rfl | hc
      · exact Or.inl rfl
      · exact hrest c hc
    · exact hrest c hc

theorem kebabCase_eq (name : List Char) :
    kebabCase name = lower (substitute '_' '-' (hyphenate none name)) := by
  rw [kebabCase, replace_innerCapital]

/-! ### Reading words with a mark between them -/

theorem kebabCase_joined {mark : Char} (hmark : mark = '-' ∨ mark = '_') (ws : List Word) :
    kebabCase (joined mark ws) = joined '-' ws := by
  have hupper : ∀ c ∈ joined mark ws, c.isUpper = false := by
    refine forall_mem_joined ?_ (fun c hc => (settled_of_isSmall hc).isUpper) ws
    rcases hmark with rfl | rfl <;> rfl
  have hsubstitute : substitute '_' '-' (joined mark ws) = joined '-' ws := by
    rcases hmark with rfl | rfl
    · exact substitute_of_notMem '-' (mark_notMem_joined (by decide) (by decide) ws)
    · exact substitute_joined (by decide) '-' ws
  have hsigma : ∀ c ∈ joined '-' ws, c.toNat ≠ 0x3a3 :=
    forall_mem_joined (by decide) (fun c hc => (settled_of_isSmall hc).ne_sigma) ws
  have hlower : ∀ c ∈ joined '-' ws, lowerChar c = [c] :=
    forall_mem_joined (by decide) (fun c hc => (settled_of_isSmall hc).lowerChar_eq) ws
  rw [kebabCase_eq, hyphenate_of_notUpper hupper, hsubstitute, lower_eq_flatMap hsigma,
    flatMap_lowerChar hlower]

/-! ### Reading words with inner capitals -/

/-- A capital after the text begins a new word. -/
def endsWord (cs : List Char) : Bool :=
  cs.getLast?.any closesWord

/-- The words that are read after a word `w`; `ended` tells whether a capital begins a new one. -/
def heardAfter (w : Word) (ended : Bool) : List Word → List Word
  | [] => [w]
  | v :: vs =>
    if ended then w :: heardAfter v (endsWord v.capital) vs
    else heardAfter (w.append v) (endsWord v.capital) vs

/-- The words that the spelling with inner capitals is read as.  A word runs together with the word
before it if that one does not end in a small letter or digit. -/
def heard : List Word → List Word
  | [] => []
  | w :: ws => heardAfter w (endsWord w.chars) ws

theorem heardAfter_ne_nil (w : Word) (ended : Bool) (vs : List Word) :
    heardAfter w ended vs ≠ [] := by
  induction vs generalizing w ended with
  | nil => exact List.cons_ne_nil _ _
  | cons v vs ih =>
    rw [heardAfter]
    split
    · exact List.cons_ne_nil _ _
    · exact ih _ _

/-- What a word with a capital contributes after the character `c`, and the character that it leaves
behind for the next word. -/
theorem exists_hyphenate_capital (v : Word) (c : Char) (ds : List Char) :
    ∃ d, endsWord v.capital = closesWord d ∧
      (hyphenate (some c) (v.capital ++ ds)).flatMap lowerChar =
        (if closesWord c then '-' :: v.chars else v.chars) ++
          (hyphenate (some d) ds).flatMap lowerChar := by
  have hcapital := capitalizes_of_isLower v.isLower_first
  obtain ⟨d, hd⟩ : ∃ d, v.capital.getLast? = some d := ⟨_, List.getLast?_cons⟩
  have hlast : v.rest.getLast?.or (some v.first.toUpper) = some d := by
    rw [← hd, Word.capital, List.getLast?_cons]
    cases v.rest.getLast? <;> rfl
  have hrest : (hyphenate (some v.first.toUpper) (v.rest ++ ds)).flatMap lowerChar =
      v.rest ++ (hyphenate (some d) ds).flatMap lowerChar := by
    rw [hyphenate_append (fun c hc => (v.settled_rest c hc).isUpper), hlast, List.flatMap_append,
      flatMap_lowerChar fun c hc => (v.settled_rest c hc).lowerChar_eq]
  refine ⟨d, by rw [endsWord, hd]; rfl, ?_⟩
  rw [Word.capital, List.cons_append, hyphenate, hcapital.isUpper, Option.any_some, Bool.and_true]
  by_cases hc : closesWord c = true
  · have hhyphen : lowerChar '-' = ['-'] := by decide
    rw [if_pos hc, if_pos hc, List.flatMap_cons, List.flatMap_cons, hhyphen, hcapital.lowerChar_eq,
      hrest]
    rfl
  · rw [if_neg hc, if_neg hc, List.flatMap_cons, hcapital.lowerChar_eq, hrest]
    rfl

theorem joined_heardAfter (vs : List Word) (w : Word) (c : Char) :
    joined '-' (heardAfter w (closesWord c) vs) =
      w.chars ++ (hyphenate (some c) (vs.flatMap Word.capital)).flatMap lowerChar := by
  induction vs generalizing w c with
  | nil =>
    rw [heardAfter, joined_singleton, List.flatMap_nil, hyphenate, List.flatMap_nil,
      List.append_nil]
  | cons v vs ih =>
    obtain ⟨d, hends, htext⟩ := exists_hyphenate_capital v c (vs.flatMap Word.capital)
    rw [heardAfter, List.flatMap_cons, htext, hends]
    by_cases hc : closesWord c = true
    · rw [if_pos hc, if_pos hc, joined_cons w (heardAfter_ne_nil _ _ _), ih, List.cons_append]
    · rw [if_neg hc, if_neg hc, ih, Word.chars_append, List.append_assoc]

/-- **With inner capitals the words that are heard are read.** -/
theorem kebabCase_camel (ws : List Word) :
    kebabCase (camelParts ws).flatten = joined '-' (heard ws) := by
  have hunderscore : '_' ∉ hyphenate none (camelParts ws).flatten := by
    intro hm
    rcases mem_of_mem_hyphenate _ _ _ hm with he | hm
    · exact absurd he (by decide)
    · exact mark_notMem_camel (by decide) ws hm
  have hsigma : ∀ c ∈ hyphenate none (camelParts ws).flatten, c.toNat ≠ 0x3a3 := by
    intro c hc
    rcases mem_of_mem_hyphenate _ _ _ hc with rfl | hc
    · decide
    · exact ne_sigma_of_mem_camel ws c hc
  rw [kebabCase_eq, substitute_of_notMem '-' hunderscore, lower_eq_flatMap hsigma]
  cases ws with
  | nil => rfl
  | cons w ws =>
    obtain ⟨d, hd⟩ : ∃ d, w.chars.getLast? = some d := ⟨_, List.getLast?_cons⟩
    have hends : endsWord w.chars = closesWord d := by rw [endsWord, hd]; rfl
    rw [flatten_camelParts, hyphenate_append fun c hc => (w.settled_chars c hc).isUpper, hd,
      Option.some_or, List.flatMap_append,
      flatMap_lowerChar fun c hc => (w.settled_chars c hc).lowerChar_eq, heard, hends,
      joined_heardAfter]

/-! ### Conventions -/

theorem capitalized_chars (w : Word) : capitalized w.chars = w.capital := by
  rw [Word.chars, capitalized, (capitalizes_of_isLower w.isLower_first).upperChar_eq]
  rfl

theorem camelCase_of_kebabCase {name : List Char} {ws : List Word} (h : ws ≠ [])
    (hname : kebabCase name = joined '-' ws) : camelCase name = (camelParts ws).flatten := by
  have hfilter : (ws.map Word.chars).filter (! ·.isEmpty) = ws.map Word.chars := by
    rw [List.filter_eq_self]
    intro cs hcs
    obtain ⟨w, -, rfl⟩ := List.mem_map.mp hcs
    rfl
  rw [camelCase, hname, splitWhere_joined (by decide) h, hfilter]
  cases ws with
  | nil => exact absurd rfl h
  | cons w ws =>
    rw [List.map_cons, flatten_camelParts]
    change w.chars ++ (ws.map Word.chars).flatMap capitalized = _
    rw [List.flatMap_map]
    exact congrArg (w.chars ++ ·) (List.flatMap_congr fun v _ => capitalized_chars v)

/-- The ways to spell a class name of several words. -/
inductive Convention where
  | kebab
  | snake
  | camel
deriving DecidableEq, Repr

namespace Convention

def spell : Convention → List Word → List Char
  | .kebab, ws => joined '-' ws
  | .snake, ws => joined '_' ws
  | .camel, ws => (camelParts ws).flatten

/-- The class name of some words. -/
def name (k : Convention) (ws : List Word) : String :=
  String.ofList (k.spell ws)

/-- The words that a spelling is read as. -/
def heard : Convention → List Word → List Word
  | .camel, ws => Markup.heard ws
  | _, ws => ws

/-- The spelling shows where its words begin.  With inner capitals, each word before another one has
to end in a small letter or digit as it is written there. -/
def isLegible : Convention → List Word → Bool
  | .camel, ws => (camelParts ws).dropLast.all endsWord
  | _, _ => true

theorem kebabCase_spell (k : Convention) (ws : List Word) :
    kebabCase (k.spell ws) = joined '-' (k.heard ws) := by
  cases k with
  | kebab => exact kebabCase_joined (Or.inl rfl) ws
  | snake => exact kebabCase_joined (Or.inr rfl) ws
  | camel => exact kebabCase_camel ws

theorem heard_ne_nil (k : Convention) {ws : List Word} (h : ws ≠ []) : k.heard ws ≠ [] := by
  cases k with
  | camel =>
    cases ws with
    | nil => exact absurd rfl h
    | cons w ws => exact heardAfter_ne_nil _ _ _
  | _ => exact h

theorem camelCase_spell (k : Convention) (ws : List Word) :
    camelCase (k.spell ws) = Convention.camel.spell (k.heard ws) := by
  by_cases h : ws = []
  · subst h
    cases k <;> rfl
  · exact camelCase_of_kebabCase (k.heard_ne_nil h) (k.kebabCase_spell ws)

theorem variantsOf_spell (k : Convention) (ws : List Word) :
    variantsOf (k.spell ws) = [k.spell ws, joined '-' (k.heard ws), joined '_' (k.heard ws),
      Convention.camel.spell (k.heard ws), lower (k.spell ws), upper (k.spell ws)] := by
  rw [variantsOf, k.kebabCase_spell, k.camelCase_spell, substitute_joined (by decide)]

/-- **The words that are heard are spelt in all conventions among the variants.** -/
theorem spell_heard_mem (k k' : Convention) (ws : List Word) :
    k'.spell (k.heard ws) ∈ variantsOf (k.spell ws) := by
  rw [variantsOf_spell]
  cases k' <;> simp [spell]

theorem dot_notMem_spell (k : Convention) (ws : List Word) : '.' ∉ k.spell ws := by
  cases k with
  | kebab => exact mark_notMem_joined (by decide) (by decide) ws
  | snake => exact mark_notMem_joined (by decide) (by decide) ws
  | camel => exact mark_notMem_camel (by decide) ws

end Convention

/-! ### Words that run together -/

theorem heardAfter_of_all (vs : List Word) (w : Word) (part : List Char)
    (h : (part :: vs.map Word.capital).dropLast.all endsWord = true) :
    heardAfter w (endsWord part) vs = w :: vs := by
  induction vs generalizing w part with
  | nil => rw [heardAfter]
  | cons v vs ih =>
    rw [List.map_cons, List.dropLast_cons_cons, List.all_cons, Bool.and_eq_true] at h
    rw [heardAfter, if_pos h.1, ih v v.capital h.2]

theorem length_heardAfter_le (vs : List Word) (w : Word) (ended : Bool) :
    (heardAfter w ended vs).length ≤ vs.length + 1 := by
  induction vs generalizing w ended with
  | nil => exact Nat.le_refl _
  | cons v vs ih =>
    rw [heardAfter]
    split
    · exact Nat.succ_le_succ (ih _ _)
    · exact (ih _ _).trans (Nat.le_succ _)

theorem length_heardAfter_lt (vs : List Word) (w : Word) (part : List Char)
    (h : (part :: vs.map Word.capital).dropLast.all endsWord = false) :
    (heardAfter w (endsWord part) vs).length < vs.length + 1 := by
  induction vs generalizing w part with
  | nil => cases h
  | cons v vs ih =>
    rw [List.map_cons, List.dropLast_cons_cons, List.all_cons] at h
    rw [heardAfter, List.length_cons]
    by_cases hpart : endsWord part = true
    · rw [hpart, Bool.true_and] at h
      have hrest := ih v v.capital h
      rw [if_pos hpart, List.length_cons]
      omega
    · have hrest := length_heardAfter_le vs (w.append v) (endsWord v.capital)
      rw [if_neg hpart]
      omega

theorem Convention.heard_of_isLegible {k : Convention} {ws : List Word}
    (h : k.isLegible ws = true) : k.heard ws = ws := by
  cases k with
  | camel =>
    cases ws with
    | nil => rfl
    | cons w ws => exact heardAfter_of_all ws w w.chars h
  | _ => rfl

/-- **Words that run together are not found again.** -/
theorem joined_notMem_variants {mark : Char} (hmark : mark ∈ marks) {ws : List Word}
    (h : Convention.camel.isLegible ws = false) :
    joined mark ws ∉ variantsOf (Convention.camel.spell ws) := by
  match ws, h with
  | [], h => cases h
  | [w], h => cases h
  | w :: v :: ws, h =>
    have hlength : (Convention.camel.heard (w :: v :: ws)).length < (w :: v :: ws).length :=
      length_heardAfter_lt (v :: ws) w w.chars h
    have hne := Convention.camel.heard_ne_nil (List.cons_ne_nil w (v :: ws))
    have hmem : mark ∈ joined mark (w :: v :: ws) := mem_joined w v ws
    intro hvariant
    rw [Convention.variantsOf_spell] at hvariant
    simp only [List.mem_cons, List.not_mem_nil, or_false] at hvariant
    rcases hvariant with he | he | he | he | he | he
    · exact mark_notMem_camel hmark _ (he ▸ hmem)
    · exact joined_ne_joined hmark hlength hne he
    · exact joined_ne_joined hmark hlength hne he
    · exact mark_notMem_camel hmark _ (he ▸ hmem)
    · exact mark_notMem_lower_camel hmark _ (he ▸ hmem)
    · -- in capitals even the first letter is another one
      have hcapital := capitalizes_of_isLower w.isLower_first
      rw [joined_cons w (List.cons_ne_nil v ws), Convention.spell, flatten_camelParts, Word.chars,
        List.cons_append, List.cons_append, upper, List.flatMap_cons, hcapital.upperChar_eq] at he
      exact hcapital.ne (List.cons.inj he).1.symm

/-- Words of small ASCII letters and digits are legible with inner capitals iff no single letter
stands between the first word and the last one. -/
theorem isLegible_iff {ws : List Word} (h : ∀ w ∈ ws, w.rest.all closesWord = true) :
    Convention.camel.isLegible ws = true ↔ ∀ w ∈ ws.tail.dropLast, w.rest ≠ [] := by
  have hlast : ∀ w ∈ ws, ∀ first : Char, endsWord (first :: w.rest) =
      (closesWord first || !w.rest.isEmpty) := by
    intro w hw first
    rw [endsWord, List.getLast?_cons]
    cases hrest : w.rest.getLast? with
    | none => simp [List.getLast?_eq_none_iff.mp hrest]
    | some d =>
      have hd : closesWord d = true :=
        List.all_eq_true.mp (h w hw) d (List.mem_of_getLast? hrest)
      have hne : w.rest ≠ [] := fun he => by rw [he] at hrest; cases hrest
      simp [hd, hne]
  match ws, hlast with
  | [], _ => exact iff_of_true rfl fun w hw => by cases hw
  | [w], _ => exact iff_of_true rfl fun w hw => by cases hw
  | w :: v :: ws, hlast =>
    have hfirst : endsWord w.chars = true := by
      rw [Word.chars, hlast w List.mem_cons_self, closesWord, w.isLower_first]
      rfl
    rw [Convention.isLegible, camelParts, List.map_cons, List.dropLast_cons_cons, List.all_cons,
      hfirst, Bool.true_and, ← List.map_cons, ← List.map_dropLast, List.all_map, List.all_eq_true,
      List.tail_cons]
    refine forall₂_congr fun x hx => ?_
    have hmem : x ∈ w :: v :: ws := List.mem_cons_of_mem w (List.dropLast_subset _ hx)
    have hclose := (capitalizes_of_isLower x.isLower_first).closesWord
    rw [Function.comp_apply, Word.capital, hlast x hmem, hclose]
    simp

/-! ### Names -/

theorem mem_namingVariants {x name : List Char} :
    String.ofList x ∈ namingVariants (String.ofList name) ↔ x ∈ variantsOf name := by
  rw [namingVariants, mem_addNames, or_iff_right List.not_mem_nil, String.toList_ofList,
    List.mem_map]
  constructor
  · rintro ⟨y, hy, he⟩
    rwa [← String.ofList_injective he]
  · intro hx
    exact ⟨x, hx, rfl⟩

/-- One spelling is a variant of another iff that one shows where its words begin. -/
theorem Convention.name_mem_iff (k k' : Convention) (ws : List Word) :
    k'.name ws ∈ namingVariants (k.name ws) ↔ k' = k ∨ k.isLegible ws = true := by
  rw [name, name, mem_namingVariants]
  constructor
  · intro hmem
    by_contra hnot
    obtain ⟨hne, hlegible⟩ := not_or.mp hnot
    have hlegible : k.isLegible ws = false := by simpa using hlegible
    cases k with
    | camel =>
      cases k' with
      | kebab => exact joined_notMem_variants (by decide) hlegible hmem
      | snake => exact joined_notMem_variants (by decide) hlegible hmem
      | camel => exact hne rfl
    | _ => cases hlegible
  · rintro (rfl | hlegible)
    · exact List.mem_cons_self
    · have hheard := k.spell_heard_mem k' ws
      rwa [heard_of_isLegible hlegible] at hheard

/-- No spelling of a class that is asked for is reported. -/
theorem not_reports_of_asksFor {s : Settings} {files : List (String × Node)} {path p x : String}
    (hpath : path ≠ "") (hasks : ∃ f ∈ files, s.AsksFor f path p) (hx : x ∈ namingVariants p)
    (hdot : '.' ∉ x.toList) {merged : List MarkupUse}
    (hmerged : merged.Perm (files.map fun f => s.useOf f.1 f.2)) (c : Context) (cwd : String)
    (o : Options) : ¬ (merged.foldl Context.addUse c).Reports cwd o path x := by
  obtain ⟨f, hf, hasks⟩ := hasks
  have huse : s.useOf f.1 f.2 ∈ merged := hmerged.mem_iff.mpr (List.mem_map_of_mem hf)
  have hknown := (Context.usageFor_le_foldl_addUse huse c path).1
  exact Context.not_reports_of_static (hknown (hasks.variants_subset hpath hx)) hdot

/-- **Naming conventions are interchangeable as far as words can be told apart.**  The variants of a
name that is spelt with hyphens or underscores hold all three spellings.  The variants of a name that
is spelt with inner capitals do so iff the spelling is legible, which means for words of ASCII
characters that no single letter stands between the first word and the last one; otherwise they hold
neither of the other two.  So a class that is defined in one convention and asked for in another,
legible one is never reported. -/
theorem conventions_interchangeable (ws : List Word) :
    (∀ k k' : Convention, k'.name ws ∈ namingVariants (k.name ws) ↔
      k' = k ∨ k.isLegible ws = true) ∧
    (Convention.kebab.isLegible ws = true ∧ Convention.snake.isLegible ws = true ∧
      ((∀ w ∈ ws, w.rest.all closesWord = true) →
        (Convention.camel.isLegible ws = true ↔ ∀ w ∈ ws.tail.dropLast, w.rest ≠ []))) ∧
    ∀ (k k' : Convention), k' = k ∨ k.isLegible ws = true →
      ∀ (s : Settings) (c : Context) (cwd : String) (o : Options) (files : List (String × Node))
        (path : String), (∀ f ∈ files, f.2.hasFault = false) → path ≠ "" →
        (∃ f ∈ files, s.AsksFor f path (k.name ws)) →
        ∃ uses, files.mapM (fun f => s.examine f.1 f.2) = .ok uses ∧
          ∀ merged : List MarkupUse, merged.Perm uses →
            ¬ (merged.foldl Context.addUse c).Reports cwd o path (k'.name ws) := by
  refine ⟨fun k k' => k.name_mem_iff k' ws, ⟨rfl, rfl, isLegible_iff⟩, ?_⟩
  intro k k' hlegible s c cwd o files path hfiles hpath hasks
  refine ⟨_, Audit.mapM_examine s files hfiles, fun merged hmerged => ?_⟩
  have hdot : '.' ∉ (k'.name ws).toList := by
    rw [Convention.name, String.toList_ofList]
    exact k'.dot_notMem_spell ws
  exact not_reports_of_asksFor hpath hasks ((k.name_mem_iff k' ws).mpr hlegible) hdot hmerged c cwd o

/-- With `s.navX2Item` in a file, neither `nav-x2-item` nor `nav_x2_item` is reported. -/
theorem conventions_interchangeable_nav :
    let s : Settings :=
      { cwd := "/p"
        sheets := [("/p/a.css", { definitions := [("nav-x2-item", 1), ("nav_x2_item", 2)] })] }
    let c : Context := { root := "/p", sheets := s.sheets }
    let files := [("/p/App.jsx", importTree [memberTree "navX2Item"])]
    (∃ ws : List Word, Convention.camel.name ws = "navX2Item" ∧
      Convention.camel.isLegible ws = true ∧ Convention.kebab.name ws = "nav-x2-item" ∧
      Convention.snake.name ws = "nav_x2_item") ∧
    (∀ f ∈ files, f.2.hasFault = false) ∧
    ∃ uses, files.mapM (fun f => s.examine f.1 f.2) = .ok uses ∧
      ¬ (uses.foldl Context.addUse c).Reports "/p" {} "/p/a.css" "nav-x2-item" ∧
      ¬ (uses.foldl Context.addUse c).Reports "/p" {} "/p/a.css" "nav_x2_item" := by
  intro s c files
  let ws : List Word := [⟨'n', ['a', 'v'], rfl, rfl⟩, ⟨'x', ['2'], rfl, rfl⟩,
    ⟨'i', ['t', 'e', 'm'], rfl, rfl⟩]
  have hfiles : ∀ f ∈ files, f.2.hasFault = false := by decide
  have hasks : ∃ f ∈ files, s.AsksFor f "/p/a.css" (Convention.camel.name ws) :=
    ⟨_, List.mem_cons_self, memberTree "navX2Item", .child (by simp) (.root _), Or.inl rfl,
      ⟨"s", rfl, by decide⟩, rfl, rfl, by decide⟩
  obtain ⟨-, -, hall⟩ := conventions_interchangeable ws
  have hnot := fun k' => hall .camel k' (Or.inr rfl) s c "/p" {} files "/p/a.css" hfiles (by decide)
    hasks
  obtain ⟨uses, huses, hkebab⟩ := hnot .kebab
  obtain ⟨uses', huses', hsnake⟩ := hnot .snake
  obtain rfl : uses = uses' := Except.ok.inj (huses.symm.trans huses')
  exact ⟨⟨ws, rfl, rfl, rfl, rfl⟩, hfiles, uses, huses, hkebab uses (List.Perm.refl uses),
    hsnake uses (List.Perm.refl uses)⟩

/-- Single letters run together: with `s.aBC` in a file, the class `a-b-c` of the sheet is reported,
though both are spellings of the words `a`, `b` and `c`. -/
theorem single_letters_run_together :
    let s : Settings := { cwd := "/p", sheets := [("/p/a.css", { definitions := [("a-b-c", 1)] })] }
    let c : Context := { root := "/p", sheets := s.sheets }
    let file := ("/p/App.jsx", importTree [memberTree "aBC"])
    (∃ ws : List Word, ws ≠ [] ∧ Convention.camel.name ws = "aBC" ∧
      Convention.kebab.name ws = "a-b-c" ∧ Convention.snake.name ws = "a_b_c") ∧
    "a-b-c" ∉ namingVariants "aBC" ∧ "a_b_c" ∉ namingVariants "aBC" ∧
    file.2.hasFault = false ∧ s.AsksFor file "/p/a.css" "aBC" ∧
    ∃ use, s.examine file.1 file.2 = .ok use ∧
      (c.addUse use).Reports "/p" {} "/p/a.css" "a-b-c" := by
  intro s c file
  have hasks : s.AsksFor file "/p/a.css" "aBC" :=
    ⟨memberTree "aBC", .child (by simp) (.root _), Or.inl rfl, ⟨"s", rfl, by decide⟩, rfl,
      rfl, by decide⟩
  refine ⟨?_, by decide, by decide, by decide, hasks, s.useOf file.1 file.2, rfl, ?_⟩
  · exact ⟨[⟨'a', [], rfl, rfl⟩, ⟨'b', [], rfl, rfl⟩, ⟨'c', [], rfl, rfl⟩], by simp, rfl, rfl, rfl⟩
  · exact Audit.Context.reports_iff.mpr
      ⟨_, List.mem_cons_self, by decide, by decide⟩

end StyleAudit.Markup
