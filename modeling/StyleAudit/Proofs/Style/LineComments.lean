import Mathlib.Data.List.Infix
import Mathlib.Data.List.TakeWhile
import StyleAudit.Proofs.Path
import StyleAudit.Proofs.Text.Pattern
import StyleAudit.Style.Comment

/-!
# Line comments

A text is read from left to right as a list of stretches (`Scan`): tokens that no line comment can
begin in, line comments, and single characters.  A token is a string, a block comment or an address
(`Shielded`), and what looks like the beginning of one and has no end is a single character.  There
is one such reading of every text (`exists_scan`, `Scan.unique`), and it is what the removal of line
comments goes by.

The lines are compared along the scan.  `Shortens` relates a text to what is left of it, character
by character, with the places that comments are taken from; it holds of every scan
(`Scan.shortens`), and from it comes the same number of lines, each cut at a comment or not at all
(`Shortens.linesCut`).
-/

namespace StyleAudit.Style

open StyleAudit.Text

/-! ### Tokens that a line comment cannot begin in -/

/-- What may stand between two quotes `quote`: no quote and no line end, except after a backslash,
which takes any character with it. -/
inductive QuotedBody (quote : Char) : List Char → Prop
  | nil : QuotedBody quote []
  | escape {c : Char} {cs : List Char} : QuotedBody quote cs → QuotedBody quote ('\\' :: c :: cs)
  | plain {c : Char} {cs : List Char} : c ≠ quote → c ≠ '\\' → c ≠ '\n' → QuotedBody quote cs →
      QuotedBody quote (c :: cs)

/-- A string, a block comment or an address. -/
inductive Shielded : List Char → Prop
  | string {quote : Char} {body : List Char} : quote = '"' ∨ quote = '\'' →
      QuotedBody quote body → Shielded (quote :: (body ++ [quote]))
  | block {body : List Char} : ¬ ['*', '/'] <:+: body →
      Shielded ('/' :: '*' :: (body ++ ['*', '/']))
  | address {body : List Char} : ')' ∉ body → Shielded ('u' :: 'r' :: 'l' :: '(' :: (body ++ [')']))

theorem exists_body_of_quotedRest? {quote : Char} {cs text rest : List Char}
    (h : quotedRest? quote (· != '\n') (fun _ => true) cs = some (text, rest)) :
    ∃ body, QuotedBody quote body ∧ text = body ++ [quote] ∧ cs = body ++ quote :: rest := by
  fun_induction quotedRest? quote (· != '\n') (fun _ => true) cs generalizing text rest with
  | case1 => cases h
  | case2 c cs hc =>
    cases h
    obtain rfl := beq_iff_eq.mp hc
    exact ⟨[], .nil, rfl, rfl⟩
  | case3 c hc hslash => cases h
  | case4 c hc hslash d ds hd ih =>
    obtain ⟨⟨t, r⟩, ht, he⟩ := Option.map_eq_some_iff.mp h
    cases he
    obtain ⟨body, hbody, rfl, rfl⟩ := ih ht
    obtain rfl := beq_iff_eq.mp hslash
    exact ⟨'\\' :: d :: body, .escape hbody, rfl, rfl⟩
  | case5 c hc hslash d ds hd => cases h
  | case6 c cs hc hslash hallowed ih =>
    obtain ⟨⟨t, r⟩, ht, he⟩ := Option.map_eq_some_iff.mp h
    cases he
    obtain ⟨body, hbody, rfl, rfl⟩ := ih ht
    exact ⟨c :: body, .plain (by simpa using hc) (by simpa using hslash) (by simpa using hallowed)
      hbody, rfl, rfl⟩
  | case7 c cs hc hslash hallowed => cases h

theorem quotedRest?_append {quote : Char} (hquote : quote ≠ '\\') {body : List Char}
    (h : QuotedBody quote body) (rest : List Char) :
    quotedRest? quote (· != '\n') (fun _ => true) (body ++ quote :: rest) =
      some (body ++ [quote], rest) := by
  induction h with
  | nil =>
    rw [List.nil_append, quotedRest?.eq_def]
    simp
  | @escape c cs _ ih =>
    rw [List.cons_append, List.cons_append, quotedRest?, if_neg (by simpa using hquote.symm),
      if_pos (by decide)]
    simp [ih]
  | @plain c cs hc hslash hline _ ih =>
    rw [List.cons_append, quotedRest?.eq_def]
    simp [hc, hslash, hline, ih]

/-! ### Reading a token -/

theorem protected?_eq_some {cs text rest : List Char} (h : protected? cs = some (text, rest)) :
    Shielded text ∧ cs = text ++ rest := by
  rw [protected?.eq_def] at h
  split at h
  · obtain ⟨⟨t, r⟩, ht, he⟩ := Option.map_eq_some_iff.mp h
    cases he
    obtain ⟨body, hbody, rfl, rfl⟩ := exists_body_of_quotedRest? ht
    exact ⟨.string (Or.inl rfl) hbody, by simp⟩
  · obtain ⟨⟨t, r⟩, ht, he⟩ := Option.map_eq_some_iff.mp h
    cases he
    obtain ⟨body, hbody, rfl, rfl⟩ := exists_body_of_quotedRest? ht
    exact ⟨.string (Or.inr rfl) hbody, by simp⟩
  · obtain ⟨⟨t, r⟩, ht, he⟩ := Option.map_eq_some_iff.mp h
    cases he
    obtain ⟨rfl, hfirst⟩ := splitAtMark?_eq_some (by decide) ht
    exact ⟨.block hfirst, by simp⟩
  · obtain ⟨⟨t, r⟩, ht, he⟩ := Option.map_eq_some_iff.mp h
    cases he
    obtain ⟨rfl, hfirst⟩ := splitAtMark?_eq_some (by decide) ht
    exact ⟨.address (by rwa [List.singleton_infix_iff] at hfirst), by simp⟩
  · cases h

theorem protected?_append {text : List Char} (h : Shielded text) (rest : List Char) :
    protected? (text ++ rest) = some (text, rest) := by
  cases h with
  | @string quote body hquote hbody =>
    rcases hquote with rfl | rfl
    · simp [protected?, quotedRest?_append (by decide) hbody]
    · simp [protected?, quotedRest?_append (by decide) hbody]
  | @block body hbody =>
    simp [protected?, splitAtMark?_pair_append (by decide) hbody]
  | @address body hbody =>
    simp [protected?, splitAtMark?_append ')' hbody]

/-! ### The scan from left to right -/

/-- What a text is cut into: tokens, the line comments outside them, and single characters. -/
inductive Stretch where
  | plain (c : Char)
  | token (text : List Char)
  /-- Two slashes and the rest of the line after them. -/
  | comment (body : List Char)
deriving DecidableEq, Repr

namespace Stretch

def text : Stretch → List Char
  | .plain c => [c]
  | .token t => t
  | .comment body => '/' :: '/' :: body

/-- What is left of a stretch without line comments. -/
def kept : Stretch → List Char
  | .plain c => [c]
  | .token t => t
  | .comment _ => []

end Stretch

/-- The stretches that a text is cut into from left to right: a token where one begins, a comment up
to the end of the line where two slashes stand, and a single character where there is neither. -/
inductive Scan : List Char → List Stretch → Prop
  | nil : Scan [] []
  | token {t rest : List Char} {stretches : List Stretch} : Shielded t → Scan rest stretches →
      Scan (t ++ rest) (.token t :: stretches)
  | comment {body rest : List Char} {stretches : List Stretch} : '\n' ∉ body →
      (∀ c ∈ rest.head?, c = '\n') → Scan rest stretches →
      Scan ('/' :: '/' :: (body ++ rest)) (.comment body :: stretches)
  | plain {c : Char} {rest : List Char} {stretches : List Stretch} :
      (∀ t more, Shielded t → c :: rest ≠ t ++ more) → ¬ ['/', '/'] <+: c :: rest →
      Scan rest stretches → Scan (c :: rest) (.plain c :: stretches)

theorem exists_line (cs : List Char) :
    ∃ body rest, '\n' ∉ body ∧ (∀ c ∈ rest.head?, c = '\n') ∧ cs = body ++ rest := by
  refine ⟨cs.takeWhile (· != '\n'), cs.dropWhile (· != '\n'), fun hm => ?_, fun c hc => ?_,
    List.takeWhile_append_dropWhile.symm⟩
  · simpa using List.mem_takeWhile_imp hm
  · have hstop := List.head?_dropWhile_not (· != '\n') cs
    rw [Option.mem_def.mp hc] at hstop
    simpa using hstop

theorem Shielded.ne_nil {t : List Char} (h : Shielded t) : t ≠ [] := by
  cases h <;> exact List.cons_ne_nil _ _

/-- **Every text can be scanned.** -/
theorem exists_scan (cs : List Char) : ∃ stretches, Scan cs stretches := by
  induction hn : cs.length using Nat.strong_induction_on generalizing cs with
  | _ n ih =>
    cases cs with
    | nil => exact ⟨[], .nil⟩
    | cons c cs =>
      by_cases htoken : ∃ t more, Shielded t ∧ c :: cs = t ++ more
      · obtain ⟨t, more, ht, he⟩ := htoken
        have hshort : more.length < n := by
          have hpos := List.length_pos_iff.mpr ht.ne_nil
          have hlen := congrArg List.length he
          rw [List.length_append] at hlen
          omega
        obtain ⟨stretches, hscan⟩ := ih _ hshort more rfl
        exact ⟨.token t :: stretches, he ▸ .token ht hscan⟩
      · by_cases hslash : ['/', '/'] <+: c :: cs
        · obtain ⟨line, hline⟩ := hslash
          obtain ⟨body, rest, hbody, hrest, rfl⟩ := exists_line line
          have hshort : rest.length < n := by
            rw [← hn, ← hline, List.length_append, List.length_append]
            exact Nat.lt_of_lt_of_le (Nat.lt_succ_self _) (by simp only [List.length_cons]; omega)
          obtain ⟨stretches, hscan⟩ := ih _ hshort rest rfl
          exact ⟨.comment body :: stretches, hline ▸ .comment hbody hrest hscan⟩
        · obtain ⟨stretches, hscan⟩ := ih _ (by rw [← hn]; exact Nat.lt_succ_self _) cs rfl
          exact ⟨.plain c :: stretches, .plain (fun t more ht he => htoken ⟨t, more, ht, he⟩) hslash
            hscan⟩

/-! ### The scan of the pattern -/

theorem keptOrComment_blind : keptOrComment.Blind := fun _ _ => rfl

theorem keptOrComment_token {t : List Char} (h : Shielded t) (rest : List Char) :
    keptOrComment none (t ++ rest) = some (t, rest) := by
  rw [keptOrComment.eq_def]
  simp [protected?_append h]

/-- No token begins with two slashes. -/
theorem protected?_slashes (cs : List Char) : protected? ('/' :: '/' :: cs) = none := by
  rw [protected?.eq_def]
  simp

theorem keptOrComment_comment {body rest : List Char} (hbody : '\n' ∉ body)
    (hrest : ∀ c ∈ rest.head?, c = '\n') :
    keptOrComment none ('/' :: '/' :: (body ++ rest)) = some ([], rest) := by
  have hdrop : (body ++ rest).dropWhile (· != '\n') = rest :=
    dropWhile_append_of_head (fun c hc => by simpa using ne_of_mem_of_not_mem hc hbody)
      (fun c hc => by simp [hrest c hc])
  rw [keptOrComment, protected?_slashes]
  simp [hdrop]

theorem keptOrComment_plain {c : Char} {rest : List Char}
    (htoken : ∀ t more, Shielded t → c :: rest ≠ t ++ more) (hslash : ¬ ['/', '/'] <+: c :: rest) :
    keptOrComment none (c :: rest) = none := by
  have hnone : protected? (c :: rest) = none := by
    rw [Option.eq_none_iff_forall_ne_some]
    rintro ⟨t, more⟩ h
    obtain ⟨ht, he⟩ := protected?_eq_some h
    exact htoken t more ht he
  rw [keptOrComment.eq_def]
  simp only [hnone]
  split
  · rename_i more he
    exact absurd ⟨more, by rw [he]; rfl⟩ hslash
  · rfl

/-- The stretch that a piece of the pattern stands for.  Only a comment leaves nothing. -/
def Stretch.ofPiece : Piece (List Char) → Stretch
  | .plain c => .plain c
  | .hit [] text => .comment (text.drop 2)
  | .hit (_ :: _) text => .token text

namespace Scan

variable {cs : List Char} {stretches other : List Stretch}

theorem flatMap_text (h : Scan cs stretches) : stretches.flatMap Stretch.text = cs := by
  induction h with
  | nil => rfl
  | token _ _ ih => rw [List.flatMap_cons, ih, Stretch.text]
  | comment _ _ _ ih => rw [List.flatMap_cons, ih, Stretch.text]; rfl
  | plain _ _ _ ih => rw [List.flatMap_cons, ih, Stretch.text]; rfl

/-- **The pattern scans the text**, and there is no other scan of it. -/
theorem map_pieces (h : Scan cs stretches) :
    (keptOrComment.pieces cs).map Stretch.ofPiece = stretches := by
  induction h with
  | nil => rfl
  | @token t rest stretches ht _ ih =>
    obtain ⟨c, front, rfl⟩ := List.exists_cons_of_ne_nil ht.ne_nil
    rw [List.cons_append, keptOrComment_blind.pieces_of_some (keptOrComment_token ht rest),
      List.map_cons, ih]
    rfl
  | @comment body rest stretches hbody hrest _ ih =>
    have hhit : keptOrComment none ('/' :: (('/' :: body) ++ rest)) = some ([], rest) :=
      keptOrComment_comment hbody hrest
    rw [← List.cons_append, keptOrComment_blind.pieces_of_some hhit, List.map_cons, ih]
    rfl
  | plain htoken hslash _ ih =>
    rw [keptOrComment_blind.pieces_of_none (keptOrComment_plain htoken hslash), List.map_cons, ih]
    rfl

theorem unique (h : Scan cs stretches) (h' : Scan cs other) : other = stretches :=
  h'.map_pieces.symm.trans h.map_pieces

theorem stripLineComments_eq (h : Scan cs stretches) :
    stripLineComments cs = stretches.flatMap Stretch.kept := by
  rw [stripLineComments]
  induction h with
  | nil => rfl
  | @token t rest stretches ht _ ih =>
    obtain ⟨c, front, rfl⟩ := List.exists_cons_of_ne_nil ht.ne_nil
    rw [List.cons_append, keptOrComment_blind.replace_of_some id (keptOrComment_token ht rest), ih]
    rfl
  | @comment body rest stretches hbody hrest _ ih =>
    have hhit : keptOrComment none ('/' :: (('/' :: body) ++ rest)) = some ([], rest) :=
      keptOrComment_comment hbody hrest
    rw [← List.cons_append, keptOrComment_blind.replace_of_some id hhit, ih]
    rfl
  | plain htoken hslash _ ih =>
    rw [keptOrComment_blind.replace_of_none id (keptOrComment_plain htoken hslash), ih]
    rfl

end Scan

/-! ### Lines -/

/-- The lines of a text, one more than it has line ends. -/
def linesOf (cs : List Char) : List (List Char) :=
  splitWhere (· == '\n') cs

/-- Where line number `i` begins in the text that consists of the lines. -/
def lineStart (lines : List (List Char)) (i : Nat) : Nat :=
  ((lines.take i).flatMap (· ++ ['\n'])).length

theorem lineStart_cons_succ (line : List Char) (lines : List (List Char)) (i : Nat) :
    lineStart (line :: lines) (i + 1) = line.length + 1 + lineStart lines i := by
  rw [lineStart, List.take_succ_cons, List.flatMap_cons, List.length_append, List.length_append]
  rfl

theorem length_linesOf (cs : List Char) : (linesOf cs).length = cs.count '\n' + 1 := by
  rw [linesOf]
  induction cs with
  | nil => rfl
  | cons c cs ih =>
    by_cases h : c = '\n'
    · simp [splitWhere, h, ih]
    · rw [splitWhere_cons_of_false (by simpa using h), List.count_cons_of_ne (by simpa using h),
        ← ih]
      cases hcs : splitWhere (· == '\n') cs with
      | nil => exact absurd hcs (splitWhere_ne_nil cs)
      | cons line lines => simp

/-- Lines of which some have lost an end, the text beginning at `start`.  Where an end is missing it
begins with two slashes, at a place that satisfies `Q`. -/
inductive LinesCut (Q : Nat → Prop) : Nat → List (List Char) → List (List Char) → Prop
  | nil {start : Nat} : LinesCut Q start [] []
  | cons {start : Nat} {short long : List Char} {shorts longs : List (List Char)} :
      (short = long ∨
        ∃ removed, long = short ++ removed ∧ ['/', '/'] <+: removed ∧ Q (start + short.length)) →
      LinesCut Q (start + (long.length + 1)) shorts longs →
      LinesCut Q start (short :: shorts) (long :: longs)

/-- A text without some of its line comments, the text beginning at `start` and each comment at a
place that satisfies `Q`. -/
inductive Shortens (Q : Nat → Prop) : Nat → List Char → List Char → Prop
  | nil {start : Nat} : Shortens Q start [] []
  | keep {start : Nat} {c : Char} {short long : List Char} : Shortens Q (start + 1) short long →
      Shortens Q start (c :: short) (c :: long)
  | drop {start : Nat} {body short long : List Char} : Q start → '\n' ∉ body →
      (∀ c ∈ long.head?, c = '\n') → Shortens Q (start + (body.length + 2)) short long →
      Shortens Q start short ('/' :: '/' :: (body ++ long))

namespace Shortens

variable {Q : Nat → Prop} {start : Nat} {short long : List Char}

theorem append_left (t : List Char) (h : Shortens Q (start + t.length) short long) :
    Shortens Q start (t ++ short) (t ++ long) := by
  induction t generalizing start with
  | nil => exact h
  | cons c t ih =>
    refine .keep (ih ?_)
    rwa [Nat.add_assoc, Nat.add_comm 1]

/-- Nothing is missing at the end of a line. -/
theorem eq_nil_or_eq_cons (h : Shortens Q start short long) (hlong : ∀ c ∈ long.head?, c = '\n') :
    short = [] ∧ long = [] ∨ ∃ short' long', short = '\n' :: short' ∧ long = '\n' :: long' := by
  cases h with
  | nil => exact Or.inl ⟨rfl, rfl⟩
  | keep _ =>
    obtain rfl := hlong _ rfl
    exact Or.inr ⟨_, _, rfl, rfl⟩
  | drop _ _ _ _ => exact absurd (hlong '/' rfl) (by decide)

theorem linesCut (h : Shortens Q start short long) :
    LinesCut Q start (linesOf short) (linesOf long) := by
  induction h with
  | nil => exact .cons (Or.inl rfl) .nil
  | @keep start c short long _ ih =>
    by_cases hc : c = '\n'
    · subst hc
      exact .cons (Or.inl rfl) ih
    · -- the character lengthens the first line of both texts
      obtain ⟨s, ss, hs⟩ := List.exists_cons_of_ne_nil (splitWhere_ne_nil (p := (· == '\n')) short)
      obtain ⟨l, ls, hl⟩ := List.exists_cons_of_ne_nil (splitWhere_ne_nil (p := (· == '\n')) long)
      have hsplit := splitWhere_cons_of_false (p := (· == '\n')) (c := c) (by simpa using hc)
      rw [linesOf, linesOf, hs, hl] at ih
      rw [linesOf, linesOf, hsplit, hsplit, hs, hl]
      cases ih with
      | cons hfirst hrest =>
        refine .cons ?_ ?_
        · rcases hfirst with rfl | ⟨removed, rfl, hslash, hQ⟩
          · exact Or.inl rfl
          · refine Or.inr ⟨removed, rfl, hslash, ?_⟩
            rwa [Nat.add_assoc, Nat.add_comm 1] at hQ
        · rwa [Nat.add_assoc, Nat.add_comm 1] at hrest
  | @drop start body short long hQ hbody hlong hrest ih =>
    -- the comment is the end of the first line, and nothing of it is left
    have hline : ∀ c ∈ '/' :: '/' :: body, (c == '\n') = false := by
      intro c hc
      have hne : '\n' ∉ '/' :: '/' :: body := by simpa using hbody
      simpa using ne_of_mem_of_not_mem hc hne
    have hcut : ([] : List Char) = '/' :: '/' :: body ∨
        ∃ removed, '/' :: '/' :: body = [] ++ removed ∧
        ['/', '/'] <+: removed ∧ Q (start + ([] : List Char).length) :=
      Or.inr ⟨_, rfl, ⟨body, rfl⟩, hQ⟩
    rcases hrest.eq_nil_or_eq_cons hlong with ⟨rfl, rfl⟩ | ⟨short, long, rfl, rfl⟩
    · rw [List.append_nil, linesOf, linesOf, splitWhere_of_none hline]
      exact .cons hcut .nil
    · rw [← List.cons_append, ← List.cons_append, linesOf, linesOf, splitWhere_append hline rfl]
      cases ih with
      | cons _ hlater => exact .cons hcut hlater

end Shortens

theorem LinesCut.length_eq {Q : Nat → Prop} {start : Nat} {shorts longs : List (List Char)}
    (h : LinesCut Q start shorts longs) : shorts.length = longs.length := by
  induction h with
  | nil => rfl
  | cons _ _ ih => rw [List.length_cons, List.length_cons, ih]

theorem LinesCut.getElem? {Q : Nat → Prop} {start : Nat} {shorts longs : List (List Char)}
    (h : LinesCut Q start shorts longs) {i : Nat} {short long : List Char}
    (hshort : shorts[i]? = some short) (hlong : longs[i]? = some long) :
    short = long ∨ ∃ removed, long = short ++ removed ∧ ['/', '/'] <+: removed ∧
      Q (start + (lineStart longs i + short.length)) := by
  induction h generalizing i with
  | nil => cases hshort
  | cons hfirst _ ih =>
    cases i with
    | zero =>
      cases hshort
      cases hlong
      simpa [lineStart] using hfirst
    | succ i =>
      have hlater := ih hshort hlong
      rw [lineStart_cons_succ]
      simpa only [Nat.add_assoc] using hlater

/-! ### Places in a text -/

/-- A line comment begins at the place. -/
def CommentAt (stretches : List Stretch) (place : Nat) : Prop :=
  ∃ front body back, stretches = front ++ .comment body :: back ∧
    place = (front.flatMap Stretch.text).length

/-- The place is inside a string, a block comment or an address. -/
def InToken (stretches : List Stretch) (place : Nat) : Prop :=
  ∃ front t back, stretches = front ++ .token t :: back ∧
    (front.flatMap Stretch.text).length ≤ place ∧
    place < (front.flatMap Stretch.text).length + t.length

theorem length_flatMap_text (front : List Stretch) (stretch : Stretch) (back : List Stretch) :
    ((front ++ stretch :: back).flatMap Stretch.text).length =
      (front.flatMap Stretch.text).length +
        (stretch.text.length + (back.flatMap Stretch.text).length) := by
  rw [List.flatMap_append, List.length_append, List.flatMap_cons, List.length_append]

/-- The stretches do not overlap, so where a comment begins there is no token. -/
theorem CommentAt.not_inToken {stretches : List Stretch} {place : Nat}
    (h : CommentAt stretches place) : ¬ InToken stretches place := by
  rintro ⟨front', t, back', he', hle, hlt⟩
  obtain ⟨front, body, back, he, rfl⟩ := h
  rw [he] at he'
  rcases List.append_eq_append_iff.mp he' with ⟨between, rfl, hrest⟩ | ⟨between, rfl, hrest⟩
  · cases between with
    | nil => cases hrest
    | cons stretch between =>
      cases hrest
      rw [length_flatMap_text, Stretch.text, List.length_cons] at hle
      omega
  · cases between with
    | nil => cases hrest
    | cons stretch between =>
      cases hrest
      rw [length_flatMap_text, Stretch.text] at hlt
      omega

/-- What is kept is the text without the comments of its scan. -/
theorem Scan.shortens {cs : List Char} {stretches : List Stretch} (h : Scan cs stretches)
    (front : List Stretch) :
    Shortens (CommentAt (front ++ stretches)) (front.flatMap Stretch.text).length
      (stretches.flatMap Stretch.kept) cs := by
  -- the stretches before the text go into `front` one by one
  have hfront : ∀ (front : List Stretch) (stretch : Stretch),
      ((front ++ [stretch]).flatMap Stretch.text).length =
        (front.flatMap Stretch.text).length + stretch.text.length := by
    intro front stretch
    rw [length_flatMap_text]
    rfl
  induction h generalizing front with
  | nil => exact .nil
  | @token t rest stretches _ _ ih =>
    have ih := ih (front ++ [.token t])
    rw [hfront, ← List.append_cons] at ih
    exact ih.append_left t
  | @comment body rest stretches hbody hrest _ ih =>
    have ih := ih (front ++ [.comment body])
    rw [hfront, ← List.append_cons] at ih
    exact .drop ⟨front, body, stretches, rfl, rfl⟩ hbody hrest ih
  | @plain c rest stretches _ _ _ ih =>
    have ih := ih (front ++ [.plain c])
    rw [hfront, ← List.append_cons] at ih
    exact .keep ih

/-- **Line comments are removed, and nothing else.**  A text has one scan into tokens, line comments
and single characters.  Without the comments it has as many line ends as before; tokens are kept as
they are, also over several lines.  Each line is a beginning of the line that was there, and where
it is shorter, what is missing begins with two slashes at a place that is inside no token. -/
theorem lineComments_removed_exactly (cs : List Char) :
    ∃ stretches, (∀ other, Scan cs other ↔ other = stretches) ∧
      stretches.flatMap Stretch.text = cs ∧
      stripLineComments cs = stretches.flatMap Stretch.kept ∧
      (stripLineComments cs).count '\n' = cs.count '\n' ∧
      ∀ i short long, (linesOf (stripLineComments cs))[i]? = some short →
        (linesOf cs)[i]? = some long → short <+: long ∧
          (short ≠ long → ∃ removed, long = short ++ removed ∧ ['/', '/'] <+: removed ∧
            ¬ InToken stretches (lineStart (linesOf cs) i + short.length)) := by
  obtain ⟨stretches, hscan⟩ := exists_scan cs
  have hcut : LinesCut (CommentAt stretches) 0 (linesOf (stripLineComments cs)) (linesOf cs) := by
    rw [hscan.stripLineComments_eq]
    exact (hscan.shortens []).linesCut
  refine ⟨stretches, fun other => ⟨hscan.unique, fun he => he ▸ hscan⟩, hscan.flatMap_text,
    hscan.stripLineComments_eq, ?_, fun i short long hshort hlong => ?_⟩
  · have hlength := hcut.length_eq
    rw [length_linesOf, length_linesOf] at hlength
    exact Nat.succ.inj hlength
  · rcases hcut.getElem? hshort hlong with rfl | ⟨removed, rfl, hslash, hplace⟩
    · exact ⟨List.prefix_refl _, fun hne => absurd rfl hne⟩
    · rw [Nat.zero_add] at hplace
      exact ⟨List.prefix_append _ _, fun _ => ⟨removed, rfl, hslash, hplace.not_inToken⟩⟩

example : stripLineComments "a // b\nurl(//c) 'd // e".toList = "a \nurl(//c) 'd ".toList := by
  decide +kernel

end StyleAudit.Style
