import Mathlib.Data.List.Induction
import StyleAudit.Markup.Classify
import StyleAudit.Markup.Derivation
import StyleAudit.Proofs.Markup.Remark
import StyleAudit.Proofs.Path

/-!
# The text of a template

The substitutions of a template cut its text into chunks (`templateChunks`), one more than there are
substitutions.  The cut is made where they stand in the source, and nothing between them is lost
(`flatMap_stretchOf_templateNodes`).  The classifier does not look at the chunks.  It puts a mark for each substitution
into the text, splits the whole at its blanks and drops the words that hold a mark, so a word may
run over one substitution or over several.

What is left are the words that touch no substitution, chunk by chunk: `freeWords` gives all words
of a chunk but the first, if it stands right after a substitution, and but the last, if it stands
right before one.

The proof runs on the pieces between blanks, with the empty ones kept, because these go through an
append: the last piece of the first text and the first piece of the second become one
(`splitWhere_append_eq`).  A mark is no blank, so it only lengthens that piece, and `freePieces`
drops exactly the pieces that a mark has lengthened.  Which words these are is told by the ends of
the chunk (`freePieces_eq_freeWords`).
-/

namespace StyleAudit.Text

/-! ### Pieces of two texts -/

variable {p : Char → Bool}

/-- The last piece of the first text and the first piece of the second are one piece. -/
theorem splitWhere_append_eq (xs ys : List Char) :
    splitWhere p (xs ++ ys) = (splitWhere p xs).dropLast ++
      ((splitWhere p xs).getLastD [] ++ (splitWhere p ys).headD []) :: (splitWhere p ys).tail := by
  induction xs with
  | nil =>
    cases hys : splitWhere p ys with
    | nil => exact absurd hys (splitWhere_ne_nil ys)
    | cons piece pieces => simp [splitWhere, hys]
  | cons c xs ih =>
    cases hxs : splitWhere p xs with
    | nil => exact absurd hxs (splitWhere_ne_nil xs)
    | cons piece pieces =>
      rw [hxs] at ih
      by_cases h : p c = true
      · rw [List.cons_append, splitWhere, if_pos h, ih, splitWhere, if_pos h, hxs]
        rfl
      · rw [Bool.not_eq_true] at h
        rw [List.cons_append, splitWhere_cons_of_false h, ih, splitWhere_cons_of_false h, hxs]
        cases pieces with
        | nil => rfl
        | cons next pieces => rfl

theorem flatten_splitWhere (cs : List Char) :
    (splitWhere p cs).flatten = cs.filter (! p ·) := by
  induction cs with
  | nil => rfl
  | cons c cs ih =>
    cases hcs : splitWhere p cs with
    | nil => exact absurd hcs (splitWhere_ne_nil cs)
    | cons piece pieces =>
      rw [hcs] at ih
      by_cases h : p c = true
      · simpa [splitWhere, h, hcs] using ih
      · simpa [splitWhere, h, hcs] using ih

theorem mem_of_mem_splitWhere {cs piece : List Char} {c : Char} (h : piece ∈ splitWhere p cs)
    (hc : c ∈ piece) : c ∈ cs := by
  have hflat : c ∈ (splitWhere p cs).flatten := List.mem_flatten.mpr ⟨piece, h, hc⟩
  rw [flatten_splitWhere] at hflat
  exact List.mem_of_mem_filter hflat

/-- The first piece is empty unless the text begins with a character of a piece. -/
theorem headD_splitWhere_eq_nil_iff (cs : List Char) :
    (splitWhere p cs).headD [] = [] ↔ cs.head?.all p = true := by
  cases cs with
  | nil => simp [splitWhere]
  | cons c cs =>
    by_cases h : p c = true
    · simp [splitWhere, h]
    · rw [splitWhere_cons_of_false (Bool.eq_false_iff.mpr h)]
      simp [h]

/-- The last piece is empty unless the text ends in a character of a piece. -/
theorem getLastD_splitWhere_eq_nil_iff (cs : List Char) :
    (splitWhere p cs).getLastD [] = [] ↔ cs.getLast?.all p = true := by
  cases cs using List.reverseRecOn with
  | nil => simp [splitWhere]
  | append_singleton cs c =>
    rw [splitWhere_append_eq]
    by_cases h : p c = true
    · simp [splitWhere, h]
    · simp [splitWhere, h]

end StyleAudit.Text

namespace StyleAudit.Markup

open StyleAudit.Text
open Derivation (templateNodes chunkNode)

/-! ### Cutting the text -/

/-- The stretch of the text of a template that a node covers. -/
def stretchOf (raw : List Char) (base : Nat) (n : Node) : List Char :=
  (raw.take (n.label.stop - base)).drop (n.label.start - base)

/-- The substitutions stand one after the other in the text, from `cursor` on and before its last
character. -/
def StandInOrder (raw : List Char) (base : Nat) : (cursor : Nat) → List Node → Prop
  | cursor, [] => cursor < raw.length
  | cursor, n :: ns =>
    if n.kind = .templateSubstitution then
      cursor ≤ n.label.start - base ∧ n.label.start ≤ n.label.stop ∧
        StandInOrder raw base (n.label.stop - base) ns
    else StandInOrder raw base cursor ns

variable {raw : List Char} {base row cursor : Nat} {ns : List Node}

theorem StandInOrder.lt_length (h : StandInOrder raw base cursor ns) : cursor < raw.length := by
  induction ns generalizing cursor with
  | nil => exact h
  | cons n ns ih =>
    rw [StandInOrder] at h
    split at h
    · have hstop := ih h.2.2
      omega
    · exact ih h

theorem drop_take_append {i j k : Nat} (hij : i ≤ j) (hjk : j ≤ k) :
    (raw.take j).drop i ++ (raw.take k).drop j = (raw.take k).drop i := by
  obtain ⟨m, rfl⟩ := Nat.exists_eq_add_of_le hij
  obtain ⟨n, rfl⟩ := Nat.exists_eq_add_of_le hjk
  rw [List.drop_take, List.drop_take, List.drop_take, Nat.add_sub_cancel_left,
    Nat.add_sub_cancel_left, Nat.add_assoc, Nat.add_sub_cancel_left, List.take_add, List.drop_drop]

/-- **Cutting a template loses nothing.**  What its nodes cover is its text up to the last character,
if its substitutions stand in order. -/
theorem flatMap_stretchOf_templateNodes (h : StandInOrder raw base cursor ns) :
    (templateNodes raw base row cursor ns).flatMap (stretchOf raw base) =
      raw.dropLast.drop cursor := by
  have hchunk : ∀ first last, stretchOf raw base (chunkNode raw base row first last) =
      (raw.take last).drop first := by
    intro first last
    simp [stretchOf, chunkNode, Node.label]
  rw [List.dropLast_eq_take]
  induction ns generalizing cursor with
  | nil => rw [templateNodes, List.flatMap_singleton, hchunk]
  | cons n ns ih =>
    rw [StandInOrder] at h
    rw [templateNodes]
    by_cases hkind : n.kind = .templateSubstitution
    · rw [if_pos hkind] at h
      obtain ⟨hstart, hstop, hrest⟩ := h
      have hend := hrest.lt_length
      rw [if_pos (beq_iff_eq.mpr hkind), List.flatMap_cons, List.flatMap_cons, ih hrest, hchunk,
        stretchOf, drop_take_append (by omega) (by omega), drop_take_append hstart (by omega)]
    · rw [if_neg hkind] at h
      rw [if_neg (by simpa using hkind), ih h]

/-- The text of a chunk is what it covers. -/
theorem toList_text_of_mem_templateNodes {n : Node} (h : n ∈ templateNodes raw base row cursor ns)
    (hkind : n.kind = .templateChunk) : n.text.toList = stretchOf raw base n := by
  induction ns generalizing cursor with
  | nil =>
    rw [templateNodes, List.mem_singleton] at h
    simp [h, stretchOf, chunkNode, Node.label, Node.text]
  | cons m ns ih =>
    rw [templateNodes] at h
    split at h
    · rename_i hm
      rcases List.mem_cons.mp h with rfl | h
      · simp [stretchOf, chunkNode, Node.label, Node.text]
      · rcases List.mem_cons.mp h with rfl | h
        · rw [beq_iff_eq, hkind] at hm
          cases hm
        · exact ih h
    · exact ih h
/-! ### Chunks -/

/-- The text between the substitutions of a template. -/
def templateChunks : List Node → List (List Char)
  | [] => [[]]
  | n :: ns =>
    match n.kind with
    | .templateChunk => (templateChunks ns).modifyHead (n.text.toList ++ ·)
    | .templateSubstitution => [] :: templateChunks ns
    | _ => templateChunks ns

/-- How many substitutions there are among the parts of a template. -/
def substitutionCount (ns : List Node) : Nat :=
  ns.countP (·.kind == .templateSubstitution)

theorem length_templateChunks (ns : List Node) :
    (templateChunks ns).length = substitutionCount ns + 1 := by
  induction ns with
  | nil => rfl
  | cons n ns ih =>
    rw [templateChunks, substitutionCount, List.countP_cons, ← substitutionCount]
    split <;> simp_all

theorem templateText_eq_intercalate (ns : List Node) :
    templateText ns = [substitutionMark].intercalate (templateChunks ns) := by
  induction ns with
  | nil => rfl
  | cons n ns ih =>
    obtain ⟨chunk, rest, hchunks⟩ := List.exists_cons_of_ne_nil
      (List.ne_nil_of_length_pos (l := templateChunks ns) (by simp [length_templateChunks]))
    rw [templateText, List.flatMap_cons, ← templateText, ih, templateChunks, hchunks]
    generalize n.kind = kind
    cases kind with
    | templateChunk =>
      cases rest with
      | nil => simp
      | cons next rest => simp [List.intercalate_cons_cons]
    | templateSubstitution => simp [List.intercalate_cons_cons]
    | _ => rfl

/-! ### Words that touch no substitution -/

/-- The words of a chunk that touch no substitution, where `before` and `after` say whether there is
one at its beginning and at its end. -/
def freeWords (before after : Bool) (chunk : List Char) : List (List Char) :=
  let ws := words chunk
  let ws := if before && chunk.head?.any (! isBlank ·) then ws.tail else ws
  if after && chunk.getLast?.any (! isBlank ·) then ws.dropLast else ws

/-- The same by way of the pieces between blanks: the first and the last one go, be they empty or
not. -/
def freePieces (before after : Bool) (chunk : List Char) : List (List Char) :=
  let pieces := splitWhere isBlank chunk
  let pieces := if before then pieces.tail else pieces
  (if after then pieces.dropLast else pieces).filter (! ·.isEmpty)

theorem filter_tail_eq (l : List (List Char)) :
    l.tail.filter (! ·.isEmpty) =
      if l.headD [] = [] then l.filter (! ·.isEmpty) else (l.filter (! ·.isEmpty)).tail := by
  cases l with
  | nil => rfl
  | cons x l =>
    by_cases h : x = []
    · simp [h]
    · simp [h]

theorem filter_dropLast_eq (l : List (List Char)) :
    l.dropLast.filter (! ·.isEmpty) =
      if l.getLastD [] = [] then l.filter (! ·.isEmpty) else (l.filter (! ·.isEmpty)).dropLast := by
  cases l using List.reverseRecOn with
  | nil => rfl
  | append_singleton l x =>
    by_cases h : x = []
    · simp [h]
    · simp [h]

theorem filter_tail_dropLast_eq (l : List (List Char)) :
    l.tail.dropLast.filter (! ·.isEmpty) =
      if l.getLastD [] = [] then l.tail.filter (! ·.isEmpty)
      else (l.tail.filter (! ·.isEmpty)).dropLast := by
  rw [filter_dropLast_eq]
  match l with
  | [] => rfl
  | [x] => simp
  | x :: y :: l => simp

theorem freePieces_eq_freeWords (before after : Bool) (chunk : List Char) :
    freePieces before after chunk = freeWords before after chunk := by
  have hfirst : chunk.head?.any (! isBlank ·) = true ↔
      ¬ (splitWhere isBlank chunk).headD [] = [] := by
    rw [headD_splitWhere_eq_nil_iff]
    cases chunk.head? <;> simp
  have hlast : chunk.getLast?.any (! isBlank ·) = true ↔
      ¬ (splitWhere isBlank chunk).getLastD [] = [] := by
    rw [getLastD_splitWhere_eq_nil_iff]
    cases chunk.getLast? <;> simp
  match before, after with
  | false, false => simp [freePieces, freeWords, words]
  | false, true => simp [freePieces, freeWords, words, hlast, filter_dropLast_eq]
  | true, false => simp [freePieces, freeWords, words, hfirst, filter_tail_eq]
  | true, true =>
    simp only [freePieces, if_true, filter_tail_dropLast_eq]
    simp [freeWords, words, hfirst, hlast, filter_tail_eq]

/-! ### From the marked text to the chunks -/

/-- The pieces of all chunks that touch no substitution, where `before` says whether there is one
before the first chunk. -/
def allFreePieces (before : Bool) : List (List Char) → List (List Char)
  | [] => []
  | [chunk] => freePieces before false chunk
  | chunk :: next :: rest => freePieces before true chunk ++ allFreePieces true (next :: rest)

/-- A word without a substitution in it. -/
def isMarkless (word : List Char) : Bool :=
  !word.isEmpty && !word.contains substitutionMark

theorem filter_isMarkless {pieces : List (List Char)}
    (h : ∀ piece ∈ pieces, substitutionMark ∉ piece) :
    pieces.filter isMarkless = pieces.filter (! ·.isEmpty) := by
  refine List.filter_congr fun piece hpiece => ?_
  simp [isMarkless, h piece hpiece]

/-- A marked piece is dropped from between its neighbours. -/
theorem filter_isMarkless_append {front : List (List Char)}
    (hfront : ∀ piece ∈ front, substitutionMark ∉ piece) {marked : List Char}
    (hmarked : substitutionMark ∈ marked) (back : List (List Char)) :
    (front ++ marked :: back).filter isMarkless =
      front.filter (! ·.isEmpty) ++ back.filter isMarkless := by
  have hdrop : isMarkless marked = false := by simp [isMarkless, hmarked]
  rw [List.filter_append, filter_isMarkless hfront, List.filter_cons_of_neg (by simp [hdrop])]

theorem filter_isMarkless_tail_append {front : List (List Char)}
    (hfront : ∀ piece ∈ front, substitutionMark ∉ piece) {marked : List Char}
    (hmarked : substitutionMark ∈ marked) (back : List (List Char)) :
    (front ++ marked :: back).tail.filter isMarkless =
      front.tail.filter (! ·.isEmpty) ++ back.filter isMarkless := by
  cases front with
  | nil => rfl
  | cons piece front =>
    exact filter_isMarkless_append (List.forall_mem_cons.mp hfront).2 hmarked back

theorem templateWords_eq_filter (text : List Char) :
    templateWords text = (splitWhere isBlank text).filter isMarkless := by
  rw [templateWords, words, List.filter_filter]
  refine List.filter_congr fun piece _ => ?_
  rw [isMarkless, Bool.and_comm]

/-- A mark joins the last piece before it and the first piece after it. -/
theorem splitWhere_mark (xs ys : List Char) :
    splitWhere isBlank (xs ++ substitutionMark :: ys) = (splitWhere isBlank xs).dropLast ++
      ((splitWhere isBlank xs).getLastD [] ++
        substitutionMark :: (splitWhere isBlank ys).headD []) ::
        (splitWhere isBlank ys).tail := by
  rw [splitWhere_append_eq, splitWhere_cons_of_false (by decide)]
  rfl

/-- **Marked words and chunks agree.**  The pieces of the marked text that hold no mark are the free
pieces of the chunks.  After a substitution the first piece counts as marked. -/
theorem filter_isMarkless_intercalate (before : Bool) {chunks : List (List Char)}
    (hne : chunks ≠ []) (hfree : ∀ chunk ∈ chunks, substitutionMark ∉ chunk) :
    (if before then (splitWhere isBlank ([substitutionMark].intercalate chunks)).tail
      else splitWhere isBlank ([substitutionMark].intercalate chunks)).filter isMarkless =
      allFreePieces before chunks := by
  induction chunks generalizing before with
  | nil => exact absurd rfl hne
  | cons chunk chunks ih =>
    obtain ⟨hchunk, hchunks⟩ := List.forall_mem_cons.mp hfree
    have hpieces : ∀ piece ∈ splitWhere isBlank chunk, substitutionMark ∉ piece :=
      fun piece hpiece hm => hchunk (mem_of_mem_splitWhere hpiece hm)
    cases chunks with
    | nil =>
      rw [List.intercalate_singleton, allFreePieces, freePieces]
      cases before with
      | false => exact filter_isMarkless hpieces
      | true =>
        exact filter_isMarkless fun piece hpiece => hpieces piece (List.mem_of_mem_tail hpiece)
    | cons next rest =>
      -- the mark joins the last piece of the chunk to the first piece after it, and both drop out
      have ih := ih true (List.cons_ne_nil next rest) hchunks
      have hfront : ∀ piece ∈ (splitWhere isBlank chunk).dropLast, substitutionMark ∉ piece :=
        fun piece hpiece => hpieces piece (List.dropLast_subset _ hpiece)
      rw [List.intercalate_cons_cons, List.append_assoc, List.singleton_append, splitWhere_mark,
        allFreePieces, ← ih, freePieces]
      cases before with
      | false => exact filter_isMarkless_append hfront (by simp) _
      | true =>
        simp only [if_true, ← List.tail_dropLast]
        exact filter_isMarkless_tail_append hfront (by simp) _

/-- The free words of the chunks, chunk by chunk. -/
theorem mem_allFreePieces_iff (before : Bool) {chunks : List (List Char)} {word : List Char} :
    word ∈ allFreePieces before chunks ↔ ∃ i chunk, chunks[i]? = some chunk ∧
      word ∈ freeWords (before || 0 < i) (i + 1 < chunks.length) chunk := by
  induction chunks generalizing before with
  | nil => simp [allFreePieces]
  | cons chunk chunks ih =>
    have hsplit : (∃ i c, (chunk :: chunks)[i]? = some c ∧
          word ∈ freeWords (before || 0 < i) (i + 1 < (chunk :: chunks).length) c) ↔
        word ∈ freeWords before (0 < chunks.length) chunk ∨
          ∃ i c, chunks[i]? = some c ∧ word ∈ freeWords true (i + 1 < chunks.length) c := by
      constructor
      · rintro ⟨i, c, hc, hword⟩
        cases i with
        | zero =>
          obtain rfl := Option.some.inj hc
          exact Or.inl (by simpa using hword)
        | succ i => exact Or.inr ⟨i, c, hc, by simpa using hword⟩
      · rintro (hword | ⟨i, c, hc, hword⟩)
        · exact ⟨0, chunk, rfl, by simpa using hword⟩
        · exact ⟨i + 1, c, hc, by simpa using hword⟩
    rw [hsplit]
    cases chunks with
    | nil => simp [allFreePieces, freePieces_eq_freeWords]
    | cons next rest =>
      rw [allFreePieces, List.mem_append, freePieces_eq_freeWords, ih true]
      simp

/-! ### Templates -/

theorem mem_templateWords_iff {cs : List Node}
    (hfree : ∀ chunk ∈ templateChunks cs, substitutionMark ∉ chunk) {word : List Char} :
    word ∈ templateWords (templateText cs) ↔ ∃ i chunk, (templateChunks cs)[i]? = some chunk ∧
      word ∈ freeWords (0 < i) (i < substitutionCount cs) chunk := by
  have hne : templateChunks cs ≠ [] :=
    List.ne_nil_of_length_pos (by rw [length_templateChunks]; exact Nat.succ_pos _)
  have hpieces := filter_isMarkless_intercalate false hne hfree
  rw [if_neg Bool.false_ne_true, ← templateText_eq_intercalate,
    ← templateWords_eq_filter] at hpieces
  simp only [hpieces, mem_allFreePieces_iff, length_templateChunks, Nat.add_lt_add_iff_right,
    Bool.false_or]

theorem Expr.ofNode_templateString {n : Node} (h : n.kind = .templateString) :
    Expr.ofNode n =
      .template (String.ofList (templateText n.children)) (templateParts n.children) := by
  obtain ⟨l, cs⟩ := n
  rw [Expr.ofNode]
  simp only [show l.kind = .templateString from h]
  rfl

theorem Progress.mem_literals_addWords {p : Progress} (h : p.stuck = none) {ws : List (List Char)}
    {name : String} :
    name ∈ (p.addWords ws).use.literals ↔ name ∈ p.use.literals ∨ name.toList ∈ ws := by
  refine (Progress.says_addWords (r := .spelt name) h ws).trans (or_congr_right ?_)
  constructor
  · rintro ⟨word, hword, he⟩
    rw [Remark.spelt.inj he, String.toList_ofList]
    exact hword
  · exact fun hword => ⟨name.toList, hword, by rw [String.ofList_toList]⟩

/-- **The names in the text of a template are the words that touch no substitution.**  A template
with any number of substitutions is walked by adding the free words of its chunks and then walking
what the substitutions hold.  Chunk number `i` has a substitution before it if `0 < i`, and one
after it if `i` is less than the number of substitutions. -/
theorem template_literals_exact (helpers : List String) {n : Node}
    (hkind : n.kind = .templateString)
    (hfree : ∀ chunk ∈ templateChunks n.children, substitutionMark ∉ chunk) {p : Progress}
    (hp : p.stuck = none) :
    ∃ text, Expr.ofNode n = .template text (templateParts n.children) ∧
      classify helpers (Expr.ofNode n) p =
        classifyAll helpers (templateParts n.children) (classify helpers (.template text []) p) ∧
      ∀ name, name ∈ (classify helpers (.template text []) p).use.literals ↔
        name ∈ p.use.literals ∨ ∃ i chunk, (templateChunks n.children)[i]? = some chunk ∧
          name.toList ∈ freeWords (0 < i) (i < substitutionCount n.children) chunk := by
  refine ⟨_, Expr.ofNode_templateString hkind, ?_, fun name => ?_⟩
  · rw [Expr.ofNode_templateString hkind, classify, classify, classifyAll]
  · rw [classify, classifyAll, String.toList_ofList, Progress.mem_literals_addWords hp,
      mem_templateWords_iff hfree]

/-- The template `wrapper ${..} size-${..}${..}y z`, where two substitutions stand side by side. -/
def adjacentTemplate : Node :=
  .mk { kind := .templateString } [
    .mk { kind := .templateChunk, text := "wrapper " } [],
    .mk { kind := .templateSubstitution } [.mk { kind := .identifier, text := "a" } []],
    .mk { kind := .templateChunk, text := " size-" } [],
    .mk { kind := .templateSubstitution } [.mk { kind := .identifier, text := "b" } []],
    .mk { kind := .templateSubstitution } [.mk { kind := .identifier, text := "c" } []],
    .mk { kind := .templateChunk, text := "y z" } []]

theorem template_literals_exact_adjacent :
    adjacentTemplate.kind = .templateString ∧
      (∀ chunk ∈ templateChunks adjacentTemplate.children, substitutionMark ∉ chunk) ∧
      ∃ text, Expr.ofNode adjacentTemplate =
          .template text (templateParts adjacentTemplate.children) ∧
        ∀ name, name ∈ (classify [] (.template text []) { use := {} }).use.literals ↔
          name = "wrapper" ∨ name = "z" := by
  have hfree : ∀ chunk ∈ templateChunks adjacentTemplate.children, substitutionMark ∉ chunk := by
    decide
  obtain ⟨text, htext, -, hexact⟩ := template_literals_exact [] (n := adjacentTemplate) rfl hfree
    (p := { use := {} }) rfl
  refine ⟨rfl, hfree, text, htext, fun name => (hexact name).trans ?_⟩
  constructor
  · rintro (hin | ⟨i, chunk, hi, hword⟩)
    · cases hin
    · match i with
      | 0 =>
        obtain rfl := Option.some.inj hi
        exact Or.inl (String.toList_injective (List.mem_singleton.mp hword))
      | 1 =>
        obtain rfl := Option.some.inj hi
        exact absurd hword List.not_mem_nil
      | 2 =>
        obtain rfl := Option.some.inj hi
        exact absurd hword List.not_mem_nil
      | 3 =>
        obtain rfl := Option.some.inj hi
        exact Or.inr (String.toList_injective (List.mem_singleton.mp hword))
  · rintro (rfl | rfl)
    · exact Or.inr ⟨0, _, rfl, by decide⟩
    · exact Or.inr ⟨3, _, rfl, by decide⟩

end StyleAudit.Markup
