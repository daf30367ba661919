import DiagramEditor.Extraction.EntityRelation
import DiagramEditor.Extraction.Flowchart
import DiagramEditor.Extraction.Sequence
import DiagramEditor.Markup.Annotation
import DiagramEditor.Markup.Reader

/-!
# Extraction

From rendered markup and its source to the objects in it and the markup to show, in which the objects
without an id of their own have one. Renderers write labels like web pages, so two spellings that are
no markup are mended first.
-/

namespace DiagramEditor

open Markup

/-- What one rendering gives. -/
structure Extraction where
  objects : Objects
  /-- The markup to show. -/
  svg : Text
deriving DecidableEq, Repr

namespace Extraction

/-- The text shown to the user when the renderer gives no markup. -/
def invalidMessage : Text :=
  "rendered output is not valid SVG".toList

/-- The markup with line breaks closed and hard spaces named by their number. -/
def mend (svg : Text) : Text :=
  Text.replaceAll "&nbsp;".toList "&#160;".toList
    (Text.replaceAll "<br>".toList "<br/>".toList svg)

/-- What is found in the tree of a diagram of this kind. -/
def findings (kind : Kind) (tree : Tree) (source : Source) : Findings :=
  match kind with
  | .flowchart => { objects := flowchart tree source }
  | .er => entityRelation tree source
  | .sequence => sequence tree source

/-- What the rendering of a diagram of this kind gives, if it is markup. -/
def ofMarkup? (kind : Kind) (svg : Text) (source : Source) : Option Extraction :=
  let markup := mend svg
  (Tree.ofText? true markup).map fun tree =>
    let found := findings kind tree source
    ⟨found.objects, (Annotations.ofMarks markup found.marks).apply markup⟩

end Extraction

end DiagramEditor
