import DiagramEditor.Markup.Tree
import DiagramEditor.Objects.Basic

/-!
# Objects in rendered markup

A renderer turns a source into markup. What it draws is found again by the ids and classes of the
elements, and what the drawing leaves out is filled in from the source. This module holds what the
kinds of diagrams have in common: findings, and the elements that belong to no object.

Only flowcharts come with an id for every object. In other diagrams objects are paired with the
source in the order in which they are drawn, and their elements are marked with a name
(`Findings.marks`).
-/

namespace DiagramEditor

open Markup

/-- The objects found in the markup, and the names for their elements. -/
structure Findings where
  objects : Objects
  marks : List (Tag × Text) := []

namespace Extraction

/-- The items whose key no item in front of them has. -/
def firstOfEach {α : Type} (key : α → Text) : List α → List α
  | [] => []
  | a :: rest => a :: (firstOfEach key rest).filter fun b => key b ≠ key a

theorem firstOfEach_sublist {α : Type} (key : α → Text) (items : List α) :
    (firstOfEach key items).Sublist items := by
  induction items with
  | nil => exact .slnil
  | cons a rest ih => exact .cons_cons a (List.filter_sublist.trans ih)

theorem mem_map_firstOfEach {α : Type} (key : α → Text) (items : List α) (k : Text) :
    k ∈ (firstOfEach key items).map key ↔ k ∈ items.map key := by
  induction items with
  | nil => simp [firstOfEach]
  | cons a rest ih =>
    simp only [List.mem_map] at ih
    by_cases h : k = key a
    · simp [firstOfEach, h]
    · simp only [firstOfEach, List.map_cons, List.mem_cons, h, false_or, List.mem_map,
        List.mem_filter, decide_eq_true_eq, ← ih]
      exact ⟨fun ⟨b, ⟨hb, _⟩, e⟩ => ⟨b, hb, e⟩, fun ⟨b, hb, e⟩ => ⟨b, ⟨hb, e ▸ h⟩, e⟩⟩

theorem nodup_map_firstOfEach {α : Type} (key : α → Text) (items : List α) :
    ((firstOfEach key items).map key).Nodup := by
  induction items with
  | nil => exact List.nodup_nil
  | cons a rest ih =>
    simp only [firstOfEach, List.map_cons, List.nodup_cons, List.mem_map, List.mem_filter,
      decide_eq_true_eq, not_exists, not_and, and_imp]
    exact ⟨fun b _ hb => hb, ih.sublist (List.filter_sublist.map key)⟩

/-- An element with an id, as an object of no known kind. -/
def otherObject (id : Text) (e : Element) : OtherObject :=
  ⟨id, e.tag.value? "class"⟩

/-- The elements with an id that have not been marked. -/
def unmarked (tree : Tree) (marks : List (Tag × Text)) : List OtherObject :=
  let places := marks.map (·.1.offset)
  (tree.identified.filter fun p => !places.contains p.2.tag.offset).map fun p =>
    otherObject p.1 p.2

/-- The findings with the unmarked elements as further objects. -/
def withUnmarked (tree : Tree) (f : Findings) : Findings :=
  { f with objects := { f.objects with others := unmarked tree f.marks } }

end Extraction

end DiagramEditor
