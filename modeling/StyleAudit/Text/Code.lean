import StyleAudit.Text.Quoted

/-!
# Texts by code points

A text that is written with code escapes may hold one half of a surrogate pair by itself, which is
no character. Such a text is a list of code points. Every string is one; a text with a half is no
string, and where it is shown the half stands as an escape.
-/

namespace StyleAudit

/-- A code point: a character, or the first or second half of a surrogate pair. -/
inductive Code where
  | char (c : Char)
  | high (n : Fin 0x400)
  | low (n : Fin 0x400)
deriving DecidableEq, Repr

namespace Code

def toNat : Code → Nat
  | .char c => c.toNat
  | .high n => 0xd800 + n.val
  | .low n => 0xdc00 + n.val

def char? : Code → Option Char
  | .char c => some c
  | _ => none

def shown : Code → List Char
  | .char c => [c]
  | half => Text.codeEscapeText half.toNat

/-- A code point between quotes. -/
def quoted (quote : Char) : Code → List Char
  | .char c => Text.quotedChar quote c
  | half => Text.codeEscapeText half.toNat

end Code

structure CodeText where
  codes : List Code
deriving DecidableEq, Repr

namespace CodeText

def ofString (s : String) : CodeText :=
  ⟨s.toList.map .char⟩

instance : Coe String CodeText := ⟨ofString⟩

/-- The text as a string, if it has no halves. -/
def toString? (t : CodeText) : Option String :=
  (t.codes.mapM Code.char?).map String.ofList

/-- The text in a message. -/
def shown (t : CodeText) : String :=
  String.ofList (t.codes.flatMap Code.shown)

@[simp] theorem shown_ofString (s : String) : (ofString s).shown = s := by
  have hcodes : ∀ cs : List Char, (cs.map Code.char).flatMap Code.shown = cs := by
    intro cs
    induction cs with
    | nil => rfl
    | cons c cs ih => rw [List.map_cons, List.flatMap_cons, ih]; rfl
  rw [shown, ofString, hcodes, String.ofList_toList]

/-- The text in a message, between quotes. -/
def quoted (t : CodeText) : String :=
  let q := Text.quoteFor (t.codes.filterMap Code.char?)
  String.ofList (q :: t.codes.flatMap (·.quoted q) ++ [q])

end CodeText

end StyleAudit
