import DiagramEditor.Proofs.Edit.Batch
import DiagramEditor.Proofs.Edit.EntityRelation.Basic
import DiagramEditor.Proofs.EntityRelation.Redraw

/-!
# Another sign for a relationship

A relationship that gets another sign is written anew on its line, its label included. What is written
is read back with both ends and the new sign, but not always with the label, and not always does the
line open as many blocks as before (`Relationship.IsRedrawable`). So an edit of the sign keeps what it
does not name exactly if the label survives being written, and it is accepted by a balanced source
exactly if the last character of the line stays a brace or none (`redraw_iff`).
-/

namespace DiagramEditor

namespace EntityRelation

open Text

/-- The label comes back from its written form, and a brace at the end of the line stays there. -/
structure Relationship.IsRedrawable (line : Text) (r : Relationship) : Prop where
  label : r.KeepsLabel
  brace : r.writtenLabel.getLast? = some '\x7b' ↔ (trim line).getLast? = some '\x7b'

end EntityRelation

namespace Edit.EntityRelation

open DiagramEditor.EntityRelation Text Source

variable {s : Source} {index : Nat} {record : RelationshipRecord} {r : Relationship} {line w : Text}
  {p : RelationshipPatch}

/-- The patch changes neither an end nor the label. -/
structure PatchesSign (p : RelationshipPatch) : Prop where
  entity1 : p.entity1 = none
  entity2 : p.entity2 = none
  label : p.label = none

theorem PatchesSign.patched_eq (hp : PatchesSign p) (r : Relationship) :
    (patched p r).entity1 = r.entity1 ∧ (patched p r).entity2 = r.entity2 ∧
      (patched p r).label = r.label := by
  rw [patched, hp.entity1, hp.entity2, hp.label]
  exact ⟨rfl, rfl, rfl⟩

/-- The source with the relationship of the record written anew, changed by the patch. -/
def redrawn (p : RelationshipPatch) (record : RelationshipRecord) (line : Text) (s : Source) : Source :=
  { s with lines := s.lines.set record.line ((patched p record.relationship).render (indent line)) }

theorem updateRelationship_eq (hp : PatchesSign p)
    (hrecord : (View.ofSource s).relationship? index = some record)
    (hline : s.line? record.line = some line) :
    updateRelationship index p s = .ok ⟨redrawn p record line s, some (.relationship index)⟩ := by
  obtain ⟨hlt, -⟩ := List.getElem?_eq_some_iff.1 hline
  have hrequire : requireRelationship (View.ofSource s) index = .ok record := by
    rw [requireRelationship, hrecord]
  have hat : lineAt record.line s = .ok line := by rw [lineAt, hline]
  have hreplace : replaceLine record.line ((patched p record.relationship).render (indent line)) s =
      .ok (redrawn p record line s) := by
    rw [replaceLine, Source.replaceLine, if_pos (show record.line < s.length from hlt)]
    rfl
  simp only [updateRelationship, hrequire, hp.entity1, hp.entity2, hat, hreplace, bind, Except.bind]
  rfl

section Redrawn

variable (hp : PatchesSign p) (hrecord : (View.ofSource s).relationship? index = some record)
  (hline : s.line? record.line = some line)

include hp hrecord hline

/-- The line of the relationship, before and after. -/
theorem ofLine?_redrawn : Relationship.ofLine? line = some record.relationship ∧
    Relationship.ofLine? ((patched p record.relationship).render (indent line)) =
      some { patched p record.relationship with
        label := unquote record.relationship.writtenLabel } ∧
    (trim ((patched p record.relationship).render (indent line))).getLast? =
      record.relationship.writtenLabel.getLast? := by
  obtain ⟨-, text, -, -, -, -, -, htext, hread⟩ := exists_bodyTexts_of_relationship hrecord
  obtain rfl := Option.some.inj (htext.symm.trans hline)
  obtain ⟨hentity1, hentity2, hlabel⟩ := hp.patched_eq record.relationship
  obtain ⟨-, -, -, -, -, h1, h2, -⟩ := Relationship.ofLine?_eq_some_iff.1 hread
  rw [← hentity1] at h1
  rw [← hentity2] at h2
  have hwritten : (patched p record.relationship).writtenLabel = record.relationship.writtenLabel := by
    rw [Relationship.writtenLabel, hlabel, Relationship.writtenLabel]
  refine ⟨hread, ?_, ?_⟩
  · rw [Relationship.ofLine?_render (isBlank_indent text) h1 h2, hwritten]
  · rw [Relationship.trim_render (isBlank_indent text) h1, Relationship.getLast?_written, hwritten]

/-- The view changes as the patch says exactly if the label survives. -/
theorem ofSource_redrawn_iff : View.ofSource (redrawn p record line s) =
    (View.ofSource s).setRelationship index (patched p record.relationship) ↔
      record.relationship.KeepsLabel := by
  obtain ⟨hold, hnew, -⟩ := ofLine?_redrawn hp hrecord hline
  obtain ⟨hentity1, hentity2, hlabel⟩ := hp.patched_eq record.relationship
  have hentity : ¬quoteEntity <:+: record.relationship.label := by
    obtain ⟨-, raw, -, -, -, -, -, hraw⟩ := Relationship.ofLine?_eq_some_iff.1 hold
    exact hraw ▸ not_infix_unquote raw
  rw [View.ofSource_redrawn hrecord rfl hnew hentity1 hentity2, View.setRelationship_inj hrecord,
    ← Relationship.unquote_writtenLabel_iff hentity]
  constructor
  · intro h
    exact (congrArg Relationship.label h).trans hlabel
  · intro h
    rw [h, ← hlabel]

/-- The blocks stay balanced exactly if a brace at the end of the line stays there. -/
theorem checkBalance_redrawn (hbalance : s.checkBalance blockRules = .ok ()) :
    (redrawn p record line s).checkBalance blockRules = .ok () ↔
      (record.relationship.writtenLabel.getLast? = some '\x7b' ↔
        (trim line).getLast? = some '\x7b') := by
  obtain ⟨hold, hnew, hlast⟩ := ofLine?_redrawn hp hrecord hline
  rw [checkBalance_redrawn_iff hbalance hline hold hnew rfl, hlast]

end Redrawn

/-- A relationship that is read off a line comes back from its written form exactly if it keeps its label.
An edit of its sign is accepted by a balanced source, and changes the sign and nothing else, exactly if it
keeps its label and the line its brace. -/
theorem redraw_iff (hread : Relationship.ofLine? line = some r) :
    (∀ w, IsBlank w → (Relationship.ofLine? (r.render w) = some r ↔ r.KeepsLabel)) ∧
    ∀ s index record p earlier ids, s.checkBalance blockRules = .ok () →
      (View.ofSource s).relationship? index = some record → s.line? record.line = some line →
      PatchesSign p →
      ((∃ e, (applyOps .er [.er (.updateRelationship index p)] ⟨s, earlier⟩ ids).1 = .ok e ∧
          View.ofSource e.source =
            (View.ofSource s).setRelationship index (patched p record.relationship)) ↔
        record.relationship.IsRedrawable line) := by
  refine ⟨fun _ => Relationship.ofLine?_render_iff hread, ?_⟩
  intro s index record p earlier ids hbalance hrecord hline hp
  have hop : applyOp .er (.er (.updateRelationship index p)) s ids =
      (.ok ⟨redrawn p record line s, some (.relationship index)⟩, ids) :=
    congrArg (·, ids) (updateRelationship_eq hp hrecord hline)
  have hview := ofSource_redrawn_iff hp hrecord hline
  have hkept := checkBalance_redrawn hp hrecord hline hbalance
  constructor
  · -- The edit has been accepted, so the blocks are balanced.
    rintro ⟨e, hok, hset⟩
    obtain ⟨next, hnext, rfl, hbalanced⟩ := applyOps_singleton_eq_ok hok
    rw [hop] at hnext
    obtain rfl := Except.ok.inj (congrArg Prod.fst hnext)
    exact ⟨hview.1 hset, hkept.1 (isBalanced_iff.1 (hbalanced (isBalanced_iff.2 hbalance)))⟩
  · rintro ⟨hlabel, hbrace⟩
    have hsame := (hkept.2 hbrace).trans hbalance.symm
    exact ⟨_, congrArg Prod.fst (applyOps_singleton_of_eq hop hsame earlier), hview.2 hlabel⟩

/-- The label of the second relationship ends with a brace, which opens a block before and after. -/
theorem redraw_iff_block :
    let s : Source := .ofText "erDiagram\nA ||--|| B : \"to B\"\nA |o--|| B : x\x7b\n\x7d".toList
    let line := "A |o--|| B : x\x7b".toList
    let r : Relationship := ⟨['A'], .zeroOrOne, .identifying, .exactlyOne, ['B'], ['x', '\x7b']⟩
    let p : RelationshipPatch := { identification := some .nonIdentifying }
    Relationship.ofLine? line = some r ∧ IsBlank [' '] ∧
      Relationship.ofLine? (r.render [' ']) = some r ∧
      s.checkBalance blockRules = .ok () ∧ (View.ofSource s).relationship? 1 = some ⟨1, 2, r⟩ ∧
      s.line? 2 = some line ∧ PatchesSign p ∧
      ∃ e, (applyOps .er [.er (.updateRelationship 1 p)] ⟨s, none⟩ {}).1 = .ok e ∧
        View.ofSource e.source = (View.ofSource s).setRelationship 1 (patched p r) := by
  intro s line r p
  have hread : Relationship.ofLine? line = some r := by decide +kernel
  have hbalance : s.checkBalance blockRules = .ok () := by decide +kernel
  have hrecord : (View.ofSource s).relationship? 1 = some ⟨1, 2, r⟩ := by decide +kernel
  have hline : s.line? 2 = some line := by decide +kernel
  have hp : PatchesSign p := ⟨rfl, rfl, rfl⟩
  have hlabel : r.KeepsLabel := by decide +kernel
  have hbrace : r.writtenLabel.getLast? = some '\x7b' ↔ (trim line).getLast? = some '\x7b' := by
    decide +kernel
  exact ⟨hread, isBlank_singleton_space,
    ((redraw_iff hread).1 [' '] isBlank_singleton_space).2 hlabel, hbalance, hrecord, hline, hp,
    ((redraw_iff hread).2 s 1 ⟨1, 2, r⟩ p none {} hbalance hrecord hline hp).2 ⟨hlabel, hbrace⟩⟩

/-- A label that was read off quotes may be written without them. Then its brace at the end opens a block,
and its own quotes are taken for those around a label. -/
theorem not_redraw :
    let s : Source := .ofText "erDiagram\nA ||--|| B : \"x\x7b\"".toList
    let line := "A ||--|| B : \"#quot;x#quot;\"".toList
    let r : Relationship := ⟨['A'], .exactlyOne, .identifying, .exactlyOne, ['B'], "\"x\"".toList⟩
    let p : RelationshipPatch := { cardinality1 := some .zeroOrOne }
    s.checkBalance blockRules = .ok () ∧ ((View.ofSource s).relationship? 0).isSome ∧ PatchesSign p ∧
      (applyOps .er [.er (.updateRelationship 0 p)] ⟨s, none⟩ {}).1 =
        .error (.source (.unterminatedBlock 2)) ∧
      Relationship.ofLine? line = some r ∧
      Relationship.ofLine? (r.render []) = some { r with label := ['x'] } := by
  intro s line r p
  exact ⟨by decide +kernel, by decide +kernel, ⟨rfl, rfl, rfl⟩, by decide +kernel, by decide +kernel,
    by decide +kernel⟩

end Edit.EntityRelation

end DiagramEditor
