import DiagramEditor.Proofs.EntityRelation.Attribute
import DiagramEditor.Proofs.EntityRelation.Line
import DiagramEditor.Proofs.EntityRelation.Place
import DiagramEditor.Proofs.EntityRelation.Relationship
import DiagramEditor.Proofs.Source.Renumber

/-!
# Sources that grow

Where the blocks of a source are balanced, lines at its end are read on top of its view, as if no block
had ever been open (`View.ofSource_append`). A block of an entity that the view does not know adds this
entity (`Reader.readAll_newBlock`), and a relationship between two entities that it knows adds this
relationship (`Reader.readAll_newRelationship`). If the lines of the body move, so do those that the view
remembers, and nothing else changes (`View.isMoved_ofSource`).
-/

namespace DiagramEditor

namespace EntityRelation

open Text Source

variable {r r' : Reader} {f : Nat → Nat} {name w line : Text} {es : List EntityRecord} {s s' : Source}
  {texts : List Text} {v : View} {n : Nat} {rel : Relationship}

/-! ## Entities changed -/

namespace View

variable {g g' : EntityRecord → EntityRecord}

/-- An entity that is not there is a new one at the end. -/
theorem alterEntity_of_not_mem (h : name ∉ es.map (·.name)) :
    alterEntity name g es = es ++ [g { name }] := by
  induction es with
  | nil => rfl
  | cons e es ih =>
    rw [List.map_cons, List.mem_cons, not_or] at h
    rw [alterEntity, if_neg (Ne.symm h.1), ih h.2, List.cons_append]

theorem alterEntity_append (h : name ∉ es.map (·.name)) {e : EntityRecord} (he : e.name = name) :
    alterEntity name g (es ++ [e]) = es ++ [g e] := by
  induction es with
  | nil => rw [List.nil_append, alterEntity, if_pos he, List.nil_append]
  | cons first es ih =>
    rw [List.map_cons, List.mem_cons, not_or] at h
    rw [List.cons_append, alterEntity, if_neg (Ne.symm h.1), ih h.2, List.cons_append]

/-- Naming an entity that is there changes nothing. -/
theorem alterEntity_id (h : name ∈ es.map (·.name)) : alterEntity name id es = es := by
  induction es with
  | nil => cases h
  | cons e es ih =>
    rw [alterEntity]
    split
    · rfl
    · next hne =>
      rw [ih ((List.mem_cons.1 h).resolve_left (Ne.symm hne))]

end View

/-! ## Lines moved -/

/-- The entity with its lines moved. -/
def EntityRecord.moved (f : Nat → Nat) (e : EntityRecord) : EntityRecord :=
  { e with
    span := e.span.map (·.moved f)
    attributes := e.attributes.map fun p => (f p.1, p.2) }

/-- The relationship with its line moved. -/
def RelationshipRecord.moved (f : Nat → Nat) (r : RelationshipRecord) : RelationshipRecord :=
  { r with line := f r.line }

theorem View.alterEntity_moved {g g' : EntityRecord → EntityRecord}
    (h : ∀ e, g' (e.moved f) = (g e).moved f) :
    alterEntity name g' (es.map (·.moved f)) = (alterEntity name g es).map (·.moved f) := by
  induction es with
  | nil => exact congrArg (fun e => [e]) (h { name })
  | cons e es ih =>
    rw [List.map_cons, alterEntity, alterEntity, ih]
    split
    · next heq => rw [if_pos (show e.name = name from heq), List.map_cons, h]
    · next hne => rw [if_neg (show ¬e.name = name from hne), List.map_cons]

/-- The second view is the first one with its lines moved, that of the declaration apart. -/
structure View.IsMoved (f : Nat → Nat) (v v' : View) : Prop where
  entities : v'.entities = v.entities.map (·.moved f)
  relationships : v'.relationships = v.relationships.map (·.moved f)

namespace View.IsMoved

variable {v' : View}

theorem alter {g g' : EntityRecord → EntityRecord} (h : IsMoved f v v')
    (hg : ∀ e, g' (e.moved f) = (g e).moved f) (name : Text) :
    IsMoved f (v.alter name g) (v'.alter name g') where
  entities := by
    rw [View.alter, View.alter, h.entities]
    exact alterEntity_moved hg
  relationships := h.relationships

/-- A line does the same to the view wherever it stands. -/
theorem act (h : IsMoved f r.view r'.view) (line : Nat) (effect : Effect) :
    IsMoved f (r.act line effect).view (r'.act (f line) effect).view := by
  cases effect with
  | skip => exact h
  | close name =>
    refine h.alter (fun e => ?_) name
    simp [EntityRecord.close, EntityRecord.moved, BlockSpan.moved, Function.comp_def]
  | addAttribute name a =>
    refine h.alter (fun e => ?_) name
    simp [EntityRecord.addAttribute, EntityRecord.moved]
  | relationship rel =>
    have hid : ∀ e : EntityRecord, id (e.moved f) = (id e).moved f := fun _ => rfl
    refine ⟨((h.alter hid rel.entity1).alter hid rel.entity2).entities, ?_⟩
    simp [Reader.act, Reader.stepOutside, View.alter, h.relationships, RelationshipRecord.moved]
  | header header =>
    refine h.alter (fun e => ?_) header.name
    cases hform : header.form <;> cases hspan : e.span <;>
      simp [EntityRecord.declare, EntityRecord.moved, BlockSpan.moved, BlockSpan.single, hform, hspan]

theorem readAll (h : IsMoved f r.view r'.view) (hopen : r'.openEntity = r.openEntity)
    (lines : List (Nat × Text)) :
    IsMoved f (r.readAll lines).view (r'.readAll (lines.map fun p => (f p.1, p.2))).view := by
  induction lines generalizing r r' with
  | nil => exact h
  | cons p lines ih =>
    rw [List.map_cons, Reader.readAll_cons, Reader.readAll_cons]
    refine ih ?_ ?_
    · rw [Reader.step_eq, Reader.step_eq, hopen]
      exact h.act p.1 _
    · rw [Reader.openEntity_step, Reader.openEntity_step, hopen]

end View.IsMoved

/-- With the lines of the body everything in the view is moved. -/
theorem View.isMoved_ofSource (h : s'.body .er = (s.body .er).map fun p => (f p.1, p.2)) :
    IsMoved f (View.ofSource s) (View.ofSource s') := by
  have hstart : IsMoved f (Reader.start s).view (Reader.start s').view := ⟨rfl, rfl⟩
  rw [View.ofSource_eq, View.ofSource_eq, h]
  exact hstart.readAll rfl _

/-! ## Lines at the end -/

/-- Behind balanced blocks lines are read on top of the view. -/
theorem View.ofSource_append (hbalance : s.checkBalance blockRules = .ok ())
    (hdecl : s'.declarationOf? .er = s.declarationOf? .er) (hlines : s'.lines = s.lines ++ texts) :
    View.ofSource s' = (Reader.readAll ⟨View.ofSource s, none⟩ (numbered s.length texts)).view := by
  have hstart : bodyStart s' = bodyStart s := by rw [bodyStart, bodyStart, hdecl]
  have htexts : bodyTexts s' = bodyTexts s ++ texts := by
    rw [bodyTexts_eq, bodyTexts_eq, hstart, hlines, List.drop_append_of_le_length (bodyStart_le s)]
  have hlength : bodyStart s + (bodyTexts s).length = s.length := by
    rw [bodyTexts_eq, List.length_drop, Nat.add_sub_cancel' (bodyStart_le s)]
    rfl
  have hreader : (Reader.start s).readAll (s.body .er) = ⟨View.ofSource s, none⟩ := by
    have hopen := Reader.openEntity_readAll (Reader.start s) (s.body .er)
    rw [show (s.body .er).map Prod.snd = bodyTexts s from rfl,
      show (Reader.start s).openEntity = none from rfl, insideAfter_bodyTexts hbalance] at hopen
    rw [← hopen]
    rfl
  have hsame : Reader.start s' = Reader.start s := by rw [Reader.start, Reader.start, hdecl]
  rw [View.ofSource_eq s', body_eq, htexts, hstart, numbered_append, hlength, ← body_eq, hsame,
    Reader.readAll_append, hreader]

/-! ## A new block -/

/-- An entity with one attribute whose block starts on this line. -/
def newEntity (name : Text) (a : Attribute) (line : Nat) : EntityRecord :=
  { name
    span := some ⟨line, line + 2⟩
    attributes := [(line + 1, a)] }

/-- The lines of a block with one attribute. -/
theorem renderBlock_singleton (w name : Text) (a : Attribute) : renderBlock w name [a] =
    [w ++ (name ++ [' ', '\x7b']), w ++ "    ".toList ++ a.render, w ++ ['\x7d']] := by
  simp [renderBlock]

theorem Effect.ofLine_of_attribute {a : Attribute} (hread : Attribute.ofLine? line = some a)
    (name : Text) : ofLine (some name) line = .addAttribute name a := by
  have hsilent : isSilent (trim line) = false := by
    rw [Attribute.ofLine?] at hread
    split at hread
    · cases hread
    · next hcond =>
      simp only [Bool.or_eq_true, not_or, Bool.not_eq_true] at hcond
      exact Bool.or_eq_false_iff.2 hcond.1.1
  rw [ofLine.eq_def, hsilent]
  simp [Attribute.not_isBlockClose_of_ofLine? hread, hread]

/-- A block of an entity that the view does not know adds the entity. -/
theorem Reader.readAll_newBlock {a : Attribute} (hw : IsBlank w)
    (hname : Relationship.isEntityName name = true) (hnew : name ∉ v.names) (ha : a.IsWritable)
    (hcomment : ∀ text ∈ a.comment, '\x7b' ∉ text ∧ '\x7d' ∉ text) :
    Reader.readAll ⟨v, none⟩ (numbered n (renderBlock w name [a])) =
      ⟨{ v with entities := v.entities ++ [newEntity name a n] }, none⟩ := by
  have hheader := Effect.ofLine_none_eq_header_iff.2 (EntityHeader.ofLine?_opener hw hname)
  have hindent : IsBlank "    ".toList := List.all_eq_true.1 (by decide)
  have hread := Effect.ofLine_of_attribute
    ((Attribute.ofLine?_written ha (hw.append hindent)).trans (if_pos hcomment)) name
  have hclose : Effect.ofLine (some name) (w ++ ['\x7d']) = .close name := by
    refine Effect.ofLine_of_isBlockClose ?_ (some name)
    rw [trim_of_isBlank_append hw]
    decide
  -- The header puts the entity at the end, and the other two lines change it there.
  have hfirst : Reader.step ⟨v, none⟩ n (w ++ (name ++ [' ', '\x7b'])) =
      ⟨{ v with entities := v.entities ++ [{ name, span := some (.single n) }] }, some name⟩ := by
    rw [step_eq, hheader]
    simp [act, stepOutside, View.alter, View.alterEntity_of_not_mem hnew, EntityRecord.declare]
  have hsecond : ∀ e : EntityRecord, e.name = name →
      Reader.step ⟨{ v with entities := v.entities ++ [e] }, some name⟩ (n + 1)
          (w ++ "    ".toList ++ a.render) =
        ⟨{ v with entities := v.entities ++ [e.addAttribute (n + 1) a] }, some name⟩ := by
    intro e he
    rw [step_eq, hread, act, View.alter, View.alterEntity_append hnew he]
  have hthird : ∀ e : EntityRecord, e.name = name →
      Reader.step ⟨{ v with entities := v.entities ++ [e] }, some name⟩ (n + 2) (w ++ ['\x7d']) =
        ⟨{ v with entities := v.entities ++ [e.close (n + 2)] }, none⟩ := by
    intro e he
    rw [step_eq, hclose, act, View.alter, View.alterEntity_append hnew he]
  rw [renderBlock_singleton, numbered_cons, numbered_cons, numbered_cons, numbered_nil, readAll_cons,
    readAll_cons, readAll_cons, readAll_nil, hfirst, hsecond _ rfl, hthird _ rfl]
  rfl

/-! ## A new relationship -/

/-- The view with one more relationship, read on the line with this number. -/
def View.addRelationship (line : Nat) (rel : Relationship) (v : View) : View :=
  { v with relationships := v.relationships ++ [⟨v.relationships.length, line, rel⟩] }

theorem Reader.readAll_newRelationship (hread : Relationship.ofLine? line = some rel)
    (h1 : rel.entity1 ∈ v.names) (h2 : rel.entity2 ∈ v.names) :
    Reader.readAll ⟨v, none⟩ (numbered n [line]) = ⟨v.addRelationship n rel, none⟩ := by
  have hends : (v.alter rel.entity1 id).alter rel.entity2 id = v := by
    rw [View.alter, View.alter, View.alterEntity_id h1, View.alterEntity_id h2]
  rw [numbered_cons, numbered_nil, readAll_cons, readAll_nil, step_eq,
    Relationship.effect_of_ofLine? hread, act, stepOutside]
  dsimp only
  rw [hends]
  rfl

end EntityRelation

end DiagramEditor
