import DiagramEditor.Markup.Tree

/-!
# Annotations

An element of a rendered diagram is given a name of the editor by putting one more attribute,
`data-id`, behind the name in its start tag. The names are collected first (`Annotations.mark`) and
then put into the text, the last one first (`Annotations.apply`), so that the places found in the
text stay right. An element is named only once.
-/

namespace DiagramEditor

/-- The text with `insert` behind its first `n` bytes, if that is a border between characters. -/
def Text.insertBytes (n : Nat) (insert s : Text) : Text :=
  match dropBytes? n s with
  | some rest => before s rest ++ insert ++ rest
  | none => s

namespace Markup

/-- The texts to be put into a markup text, each with the number of bytes in front of it. No two
have the same place. -/
structure Annotations where
  inserts : List (Nat × Text) := []
deriving DecidableEq, Repr

namespace Annotations

/-- The name of the attribute. -/
def attributeName : String :=
  "data-id"

/-- The value as it stands between double quotes. The references begin with an ampersand, so the
ampersands of the value come first. -/
def escape (value : Text) : Text :=
  Text.replaceAll ['"'] "&quot;".toList
    (Text.replaceAll ['<'] "&lt;".toList (Text.replaceAll ['&'] "&amp;".toList value))

/-- The attribute with this value, and the blank in front of it. -/
def attributeText (value : Text) : Text :=
  ' ' :: attributeName.toList ++ "=\"".toList ++ escape value ++ ['"']

/-- The character ends the name in a start tag. -/
def endsTagName (c : Char) : Bool :=
  Text.isSpace c || c == '/' || c == '>'

/-- The place behind the name in the tag, if the tag is in the text. -/
def placeOf? (markup : Text) (t : Tag) : Option Nat :=
  (Text.dropBytes? (t.offset + 1) markup).map fun rest =>
    t.offset + 1 + Text.byteLength (rest.takeWhile fun c => !endsTagName c)

/-- One more element with a name. A name that the markup gives it, or an earlier one, stays. -/
def mark (markup : Text) (a : Annotations) (t : Tag) (id : Text) : Annotations :=
  if (t.value? attributeName).isSome then a
  else match placeOf? markup t with
    | none => a
    | some place =>
      if a.inserts.any (·.1 = place) then a else ⟨a.inserts ++ [(place, attributeText id)]⟩

/-- Several elements with names. -/
def ofMarks (markup : Text) (marks : List (Tag × Text)) : Annotations :=
  marks.foldl (fun a m => mark markup a m.1 m.2) {}

/-- The text with what is put into it. From the end on, so that no place moves before its turn. -/
def apply (a : Annotations) (markup : Text) : Text :=
  (a.inserts.mergeSort fun x y => decide (y.1 ≤ x.1)).foldl
    (fun out insert => Text.insertBytes insert.1 insert.2 out) markup

end Annotations

end Markup

end DiagramEditor
