import StyleAudit.Proofs.Style.HexColor
import StyleAudit.Proofs.Text.SmallForms

/-!
# Normal spellings of colours

A spelling is normal if nothing of what `normal` does would change it (`IsNormal`).  The steps do
not undo each other: small letters stay small, no blank comes to an end of the text when spaces
inside it go away, and doubled digits are too many to be doubled again.  So `normal` makes a text
normal (`isNormal_normal`), and leaves it alone if it is (`normal_of_isNormal`).

Of a hexadecimal colour the normal spelling has the digits without spaces, in lower case and doubled
if they are three or four (`normal_cons_hash`).
-/

namespace StyleAudit.Style.Color

open StyleAudit.Text

variable {cs : List Char}

/-! ### Normal spellings -/

/-- Nothing is left to do: no blanks at the ends, no capitals, no spaces, no digits to double. -/
structure IsNormal (cs : List Char) : Prop where
  trim_eq : trim cs = cs
  lowered : ∀ c ∈ cs, Lowered c
  space_notMem : ' ' ∉ cs
  expandHex_eq : expandHex cs = cs

theorem filter_of_notMem_space (h : ' ' ∉ cs) : cs.filter (· != ' ') = cs :=
  List.filter_eq_self.mpr fun c hc => bne_iff_ne.mpr (by rintro rfl; exact h hc)

theorem normal_of_isNormal (h : IsNormal cs) : normal cs = cs := by
  rw [normal, h.trim_eq, lower_of_lowered h.lowered, filter_of_notMem_space h.space_notMem,
    h.expandHex_eq]

/-- A text is left as it is, or it is a hash with three or four digits, which are doubled. -/
theorem expandHex_cases (cs : List Char) :
    expandHex cs = cs ∨ ∃ ds, cs = '#' :: ds ∧ ds.all isLowerHex = true ∧ 3 ≤ ds.length ∧
      expandHex cs = '#' :: ds.flatMap fun d => [d, d] := by
  by_cases hhash : cs.head? = some '#'
  · obtain ⟨ds, rfl⟩ := List.head?_eq_some_iff.mp hhash
    rw [expandHex]
    split
    · rename_i hshort
      simp only [Bool.and_eq_true, Bool.or_eq_true, beq_iff_eq] at hshort
      exact Or.inr ⟨ds, rfl, hshort.1, by omega, rfl⟩
    · exact Or.inl rfl
  · exact Or.inl (expandHex_of_head hhash)

theorem expandHex_doubled {ds : List Char} (h : 3 ≤ ds.length) :
    expandHex ('#' :: ds.flatMap fun d => [d, d]) = '#' :: ds.flatMap fun d => [d, d] := by
  rw [expandHex, if_neg]
  simp only [Bool.and_eq_true, Bool.or_eq_true, beq_iff_eq, length_doubled]
  omega

theorem isNormal_expandHex (htrim : trim cs = cs) (hlower : ∀ c ∈ cs, Lowered c)
    (hspace : ' ' ∉ cs) : IsNormal (expandHex cs) := by
  rcases expandHex_cases cs with hsame | ⟨ds, rfl, hhex, hlength, hdouble⟩
  · rw [hsame]
    exact ⟨htrim, hlower, hspace, hsame⟩
  · rw [hdouble]
    have hmem : ∀ c ∈ '#' :: ds.flatMap (fun d => [d, d]), c ∈ '#' :: ds := by
      intro c hc
      simpa using hc
    have hblank : ∀ c ∈ '#' :: ds.flatMap (fun d => [d, d]), isBlank c = false := by
      intro c hc
      rcases List.mem_cons.mp (hmem c hc) with rfl | hc
      · decide
      · exact (hexDigit_of_isAsciiHex
          (isAsciiHex_of_isLowerHex (List.all_eq_true.mp hhex c hc))).isBlank
    exact {
      trim_eq := trim_of_ends (fun c hc => hblank c (List.mem_of_head? hc))
        fun c hc => hblank c (List.mem_of_getLast? hc)
      lowered := fun c hc => hlower c (hmem c hc)
      space_notMem := fun hc => hspace (hmem ' ' hc)
      expandHex_eq := expandHex_doubled hlength }

/-- A text without blanks at its ends has none there after its spaces are removed. -/
theorem trim_filter_of_ends (hfirst : ∀ c ∈ cs.head?, isBlank c = false)
    (hlast : ∀ c ∈ cs.getLast?, isBlank c = false) :
    trim (cs.filter (· != ' ')) = cs.filter (· != ' ') := by
  have hkept : ∀ {c} {cs : List Char}, isBlank c = false →
      (c :: cs).filter (· != ' ') = c :: cs.filter (· != ' ') := by
    intro c cs hc
    exact List.filter_cons_of_pos (bne_iff_ne.mpr (by rintro rfl; cases hc))
  refine trim_of_ends (fun c hc => ?_) fun c hc => ?_
  · cases cs with
    | nil => cases hc
    | cons d cs =>
      rw [hkept (hfirst d rfl)] at hc
      exact hfirst c hc
  · cases cs using List.reverseRecOn with
    | nil => cases hc
    | append_singleton cs d =>
      have hd := hlast d List.getLast?_concat
      rw [List.filter_append, hkept hd, List.filter_nil, List.getLast?_concat] at hc
      obtain rfl := Option.some.inj hc
      exact hd

theorem isNormal_normal (cs : List Char) : IsNormal (normal cs) := by
  refine isNormal_expandHex ?_ ?_ ?_
  · exact trim_filter_of_ends (isBlank_of_mem_head?_lower isBlank_of_mem_head?_trim)
      (isBlank_of_mem_getLast?_lower isBlank_of_mem_getLast?_trim)
  · exact fun c hc => lowered_of_mem_lower c (List.mem_of_mem_filter hc)
  · simp

theorem normal_normal (cs : List Char) : normal (normal cs) = normal cs :=
  normal_of_isNormal (isNormal_normal cs)

/-! ### Hexadecimal colours -/

/-- The digits of a hexadecimal colour in any case, with spaces around and between them. -/
structure IsHexSpelling (a : List Char) : Prop where
  isHex : a.all (fun c => c == ' ' || isAsciiHex c) = true
  size : (a.filter (· != ' ')).length ∈ [3, 4, 6, 8]

/-- The digits without spaces and in lower case, each doubled if they are three or four. -/
def canonicalDigits (a : List Char) : List Char :=
  let ds := (a.filter (· != ' ')).map Char.toLower
  if ds.length == 3 || ds.length == 4 then ds.flatMap fun d => [d, d] else ds

theorem IsHexSpelling.cases {a : List Char} (h : IsHexSpelling a) {c : Char} (hc : c ∈ a) :
    c = ' ' ∨ isAsciiHex c = true := by
  simpa using List.all_eq_true.mp h.isHex c hc

theorem filter_map_toLower (cs : List Char) :
    (cs.map Char.toLower).filter (· != ' ') = (cs.filter (· != ' ')).map Char.toLower := by
  rw [List.filter_map]
  refine congrArg (List.map Char.toLower) (List.filter_congr fun c _ => ?_)
  have hspace : c.toLower = ' ' ↔ c = ' ' :=
    ⟨fun h => eq_of_toLower_eq h (by decide), fun h => by rw [h]; decide⟩
  rw [Function.comp_apply, Bool.eq_iff_iff, bne_iff_ne, bne_iff_ne, Ne, hspace]

/-- If a text has no blanks but spaces, it need not be trimmed before the spaces are removed. -/
theorem filter_trim (h : ∀ c ∈ cs, isBlank c = true → c = ' ') :
    (trim cs).filter (· != ' ') = cs.filter (· != ' ') := by
  obtain ⟨before, after, hbefore, hafter, hcs⟩ := exists_append_trim cs
  have hgone : ∀ blanks : List Char, blanks ⊆ cs → (∀ c ∈ blanks, isBlank c = true) →
      blanks.filter (· != ' ') = [] := by
    intro blanks hsub hblank
    refine List.filter_eq_nil_iff.mpr fun c hc => ?_
    rw [h c (hsub hc) (hblank c hc)]
    decide
  have hfront := hgone before (fun c hc => by rw [hcs]; simp [hc]) hbefore
  have hback := hgone after (fun c hc => by rw [hcs]; simp [hc]) hafter
  conv_rhs => rw [hcs]
  rw [List.filter_append, List.filter_append, hfront, hback, List.nil_append, List.append_nil]

/-- The spelling of an ASCII text that has no blanks but spaces. -/
theorem normal_of_spaced (hascii : ∀ c ∈ cs, c.toNat < 128)
    (hblank : ∀ c ∈ cs, isBlank c = true → c = ' ') :
    normal cs = expandHex ((cs.filter (· != ' ')).map Char.toLower) := by
  have hinner : ∀ c ∈ trim cs, c.toNat < 128 := by
    obtain ⟨before, after, -, -, hcs⟩ := exists_append_trim cs
    intro c hc
    refine hascii c ?_
    rw [hcs]
    simp [hc]
  rw [normal, lower_of_ascii hinner, filter_map_toLower, filter_trim hblank]

/-- A hexadecimal colour with spaces has the spelling of its digits. -/
theorem normal_cons_hash {a : List Char} (h : IsHexSpelling a) :
    normal ('#' :: a) = '#' :: canonicalDigits a := by
  have hcases : ∀ c ∈ '#' :: a, c = '#' ∨ c = ' ' ∨ isAsciiHex c = true := by
    intro c hc
    exact (List.mem_cons.mp hc).imp id h.cases
  have hascii : ∀ c ∈ '#' :: a, c.toNat < 128 := by
    intro c hc
    rcases hcases c hc with rfl | rfl | hhex
    · decide
    · decide
    · exact toNat_lt_of_isAsciiHex hhex
  have hblank : ∀ c ∈ '#' :: a, isBlank c = true → c = ' ' := by
    intro c hc hblank
    rcases hcases c hc with rfl | rfl | hhex
    · cases hblank
    · rfl
    · rw [(hexDigit_of_isAsciiHex hhex).isBlank] at hblank
      cases hblank
  have hlower : ((a.filter (· != ' ')).map Char.toLower).all isLowerHex = true := by
    rw [List.all_map, List.all_eq_true]
    intro c hc
    obtain ⟨hmem, hne⟩ := List.mem_filter.mp hc
    exact (hexDigit_of_isAsciiHex ((h.cases hmem).resolve_left (bne_iff_ne.mp hne))).isLowerHex
  rw [normal_of_spaced hascii hblank, List.filter_cons_of_pos (by decide), List.map_cons]
  change expandHex ('#' :: _) = _
  rw [expandHex, hlower, Bool.true_and, canonicalDigits]
  split <;> rfl

/-- **Colour normalisation is canonical.**  The spelling that a text is brought to is brought to
itself, and two hexadecimal colours are brought to the same one exactly if their digits agree. -/
theorem normal_canonical :
    (∀ x : List Char, normal (normal x) = normal x) ∧
    ∀ a b : List Char, IsHexSpelling a → IsHexSpelling b →
      (normal ('#' :: a) = normal ('#' :: b) ↔ canonicalDigits a = canonicalDigits b) := by
  refine ⟨normal_normal, fun a b ha hb => ?_⟩
  rw [normal_cons_hash ha, normal_cons_hash hb, List.cons.injEq, and_iff_right rfl]

/-- A short colour, the long form of it, and another colour that begins alike. -/
theorem normal_canonical_short :
    normal "# Ab C".toList = normal "#aABb cC ".toList ∧
      normal "# Ab C".toList ≠ normal "#AbC0".toList := by
  have hshort : IsHexSpelling " Ab C".toList := ⟨by decide, by decide⟩
  have hlong : IsHexSpelling "aABb cC ".toList := ⟨by decide, by decide⟩
  have hother : IsHexSpelling "AbC0".toList := ⟨by decide, by decide⟩
  exact ⟨(normal_canonical.2 _ _ hshort hlong).mpr (by decide),
    fun h => absurd ((normal_canonical.2 _ _ hshort hother).mp h) (by decide)⟩

end StyleAudit.Style.Color
