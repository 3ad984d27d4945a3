import StyleAudit.Proofs.Json.Document

/-!
# Reading JSON with comments

JSON with comments is JSON up to what stands between the tokens.

* `Layout.parseCommented_text`: a layout is read as its spacing.
* `commented_reads_as_plain`: a layout of a document is read as any spacing of it, and a text that is
  read without comments is read with them.
-/

namespace StyleAudit.Json

theorem Layout.parseCommented_text (l : Layout) (h : l.lexemes.IsChain Lexeme.CommaFits) :
    parseCommented (String.ofList l.text) = parse l.spacing.text := by
  rw [parseCommented, String.toList_ofList, l.stripped h]

theorem Spacing.parseCommented_text (s : Spacing) (h : s.lexemes.IsChain Lexeme.CommaFits) :
    parseCommented (String.ofList s.text) = parse s.text := by
  rw [parseCommented, String.toList_ofList, s.stripped h]

theorem Writes.commaFits {p : Phrase} {xs : List Lexeme} (h : Writes p xs) :
    xs.IsChain Lexeme.CommaFits :=
  h.fits.imp fun _ _ hfits => hfits.1

/-- **JSON with comments is JSON.**  However the lexemes of a document are laid out, with spaces and
comments of both kinds between them and with commas before closing brackets, they are read as if they
stood with spaces only, which is what the document writes.  A text that is read as a value without
comments is read as that value. -/
theorem commented_reads_as_plain :
    (∀ {meaning : Except Nat Json} {l : Layout} {s : Spacing},
      Writes (.value meaning) l.lexemes → s.lexemes = l.lexemes →
        parseCommented (String.ofList l.text) = parse s.text ∧
          parse s.text = meaning.mapError .tooManyDigits) ∧
    ∀ {text : String} {v : Json}, parse text.toList = .ok v → parseCommented text = .ok v := by
  constructor
  · intro meaning l s h hs
    have hplain : parse s.text = meaning.mapError .tooManyDigits :=
      Writes.parse_text (by rwa [hs])
    have hspacing : parse l.spacing.text = meaning.mapError .tooManyDigits :=
      Writes.parse_text (by rwa [l.lexemes_spacing])
    exact ⟨by rw [l.parseCommented_text h.commaFits, hspacing, hplain], hplain⟩
  · intro text v h
    obtain ⟨s, htext, hchain⟩ := exists_spacing_of_parse h
    have hread := s.parseCommented_text hchain
    rw [← htext, String.ofList_toList] at hread
    rw [hread, h]

def twelve : NumberText :=
  .ofDigits false ['1', '2'] (by decide) (by decide)

theorem not_isInfix_noted : ¬ ['*', '/'] <:+: "\", ] *".toList := by decide

/-- An object with an array in it, with comments that hold quotes and brackets and with strings that
hold comments and commas. -/
def annotated : Layout where
  items := [
    { lexeme := .beginObject },
    { lexeme := .string "a//b".toList (.of_plain (by decide))
      gap := [.line " the \"first".toList (by decide)] },
    { lexeme := .colon },
    { lexeme := .beginArray },
    { lexeme := .number twelve },
    { lexeme := .comma, gap := [.space .tab, .block "\", ] *".toList not_isInfix_noted] },
    { lexeme := .string ",]".toList (.of_plain (by decide)) },
    { lexeme := .endArray, gap := [.block [] (by decide)], comma? := some [.space .blank]
      comma_closes := fun _ => rfl },
    { lexeme := .endObject, comma? := some [], comma_closes := fun _ => rfl }]
  unended? := some ⟨"*/ end".toList, by decide⟩

theorem annotated_reads_as_plain :
    annotated.text = "\x7b// the \"first\n\"a//b\":[12\t/*\", ] **/,\",]\" ,/**/],\x7d//*/ end".toList ∧
    parseCommented (String.ofList annotated.text) =
      .ok (.object [("a//b", .array [.int 12, .string ",]"])]) := by
  have hnumber : Writes (.value (.ok (.int 12))) [.number twelve] := .leaf rfl
  have hstring : Writes (.value (.ok (.string ",]"))) [.string ",]".toList (.of_plain (by decide))] :=
    .leaf rfl
  have hitems := Writes.elements hnumber (.element hstring)
  have hmembers := @Writes.member "a//b".toList (.of_plain (by decide)) _ _ _ rfl (.array hitems)
  have hwrites : Writes (.value (.ok (.object [("a//b", .array [.int 12, .string ",]"])])))
      annotated.lexemes := .object hmembers
  obtain ⟨hsame, hvalue⟩ := commented_reads_as_plain.1 hwrites annotated.lexemes_spacing
  exact ⟨rfl, hsame.trans hvalue⟩

end StyleAudit.Json
