import DiagramEditor.Text.Basic

/-!
# Spans of a line

Recognizers count in characters. Whoever asks for a position gets it in bytes of the UTF-8 form,
so a span is converted once, against its line (`Span.toBytes`).
-/

namespace DiagramEditor

namespace Text

/-- The number of bytes of the UTF-8 form. -/
def byteLength (s : Text) : Nat :=
  s.foldr (fun c n => c.utf8Size + n) 0

/-- What is left of `s` behind its first `n` bytes, if that is a border between characters. -/
def dropBytes? : (n : Nat) → (s : Text) → Option Text
  | 0, s => some s
  | _ + 1, [] => none
  | n + 1, c :: s => if c.utf8Size ≤ n + 1 then dropBytes? (n + 1 - c.utf8Size) s else none
termination_by structural _ s => s

end Text

/-- A half open range of positions in a line. -/
structure Span where
  /-- The position of the first character. -/
  start : Nat
  /-- The position behind the last character. -/
  stop : Nat
deriving DecidableEq, Repr

namespace Span

/-- The span of `length` characters at `start`. -/
def ofLength (start length : Nat) : Span :=
  ⟨start, start + length⟩

/-- The same stretch of `line`, counted in bytes. -/
def toBytes (line : Text) (s : Span) : Span :=
  ⟨Text.byteLength (line.take s.start), Text.byteLength (line.take s.stop)⟩

/-- The characters of `line` in the span. -/
def slice (line : Text) (s : Span) : Text :=
  (line.take s.stop).drop s.start

end Span

end DiagramEditor
