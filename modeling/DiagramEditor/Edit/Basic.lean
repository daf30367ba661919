import DiagramEditor.Edit.Error
import DiagramEditor.Identifier.Fresh
import DiagramEditor.Selection.Handle

/-!
# What edits share

Every edit is a function from a source to another one, together with the handle of the object that
it made or changed (`Edited`). It works by the few operations on lines that a source offers; a line
that is not there refuses the edit.

New lines go to the end of the source and take the indent of its body: that of the first line
behind the declaration that is not blank (`bodyIndent`). Where a new part needs a declaration, the
default one is put on top (`ensureDeclaration`).
-/

namespace DiagramEditor

/-- What an edit leaves behind. -/
structure Edited where
  source : Source
  /-- The object that was made or changed. -/
  handle : Option Handle := none
deriving DecidableEq, Repr

namespace Edit

/-- The line `index`. -/
def lineAt (index : Nat) (s : Source) : Except EditError Text :=
  match s.line? index with
  | some line => .ok line
  | none => .error (.source (.lineOutOfRange index s.length))

/-- The line `index` replaced. -/
def replaceLine (index : Nat) (text : Text) (s : Source) : Except EditError Source :=
  (s.replaceLine index text).mapError .source

/-- New lines, the first of which gets the number `index`. -/
def insertLines (index : Nat) (texts : List Text) (s : Source) : Except EditError Source :=
  (s.insertLines index texts).mapError .source

/-- The source without the `count` lines from `index` on. -/
def deleteLines (index count : Nat) (s : Source) : Except EditError Source :=
  (s.deleteLines index count).mapError .source

/-- One step of indentation. -/
def indentStep : Text :=
  "    ".toList

/-- The indent of the first line behind the declaration that is not blank, one step for an empty
body. -/
def bodyIndent (declaration : Option Nat) (s : Source) : Text :=
  match (s.lines.drop (declaration.elim 0 (· + 1))).find? fun line => !(Text.trim line).isEmpty with
  | some line => Text.indent line
  | none => indentStep

/-- The source with a declaration, and the line of it: the one that is there already, or the
default one on top. -/
def ensureDeclaration (kind : Kind) (declaration : Option Nat) (s : Source) :
    Except EditError (Source × Nat) :=
  match declaration with
  | some line => .ok (s, line)
  | none => (insertLines 0 [kind.declaration] s).map fun s => (s, 0)

/-- The error that refuses an identifier, or nothing. -/
def requireIdentifier (check : Except IdentifierError Unit) (id : Text) : Except EditError Unit :=
  check.mapError (.invalidIdentifier id)

/-- The trimmed text, if it is not blank. -/
def nonBlank? (text : Text) : Option Text :=
  let trimmed := Text.trim text
  if trimmed.isEmpty then none else some trimmed

end Edit

end DiagramEditor
