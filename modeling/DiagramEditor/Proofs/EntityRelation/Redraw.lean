import DiagramEditor.Proofs.EntityRelation.Place
import DiagramEditor.Proofs.EntityRelation.Relationship
import DiagramEditor.Proofs.Lists

/-!
# One relationship in place of another

A line that says a relationship may come to say another one between the same two entities. The reader
then remembers the other one at the same position and everything else as before
(`View.ofSource_redrawn`): what the lines below do to the view does not depend on the relationships in
it (`Reader.readAll_setRelationship`).
-/

namespace DiagramEditor.EntityRelation

open Text Source

variable {r : Reader} {lines : List (Nat × Text)} {index : Nat} {rel rel' : Relationship}
  {record : RelationshipRecord} {text text' : Text} {s s' : Source}

/-- The view with another relationship at this position. -/
def View.setRelationship (index : Nat) (rel : Relationship) (v : View) : View :=
  { v with relationships := v.relationships.modify index fun r => { r with relationship := rel } }

namespace Reader

/-- The reader with another relationship at this position of its view. -/
def setRelationship (index : Nat) (rel : Relationship) (r : Reader) : Reader :=
  { r with view := r.view.setRelationship index rel }

/-! ## Reading on -/

theorem act_setRelationship (h : index < r.view.relationships.length) (line : Nat) (effect : Effect) :
    (r.setRelationship index rel).act line effect = (r.act line effect).setRelationship index rel := by
  cases effect with
  | relationship rel' =>
    simp [act, stepOutside, setRelationship, View.setRelationship, View.alter, modify_append h]
  | _ => rfl

theorem length_relationships_step (r : Reader) (line : Nat) (text : Text) :
    r.view.relationships.length ≤ (r.step line text).view.relationships.length := by
  rw [step_eq]
  cases Effect.ofLine r.openEntity text with
  | relationship rel => simp [act, stepOutside, View.alter]
  | _ => exact Nat.le_refl _

/-- Lines do the same to a view whatever its relationships are. -/
theorem readAll_setRelationship (h : index < r.view.relationships.length) :
    (r.setRelationship index rel).readAll lines = (r.readAll lines).setRelationship index rel := by
  induction lines generalizing r with
  | nil => rfl
  | cons p lines ih =>
    rw [readAll_cons, readAll_cons, ← ih (Nat.lt_of_lt_of_le h (r.length_relationships_step p.1 p.2)),
      step_eq, step_eq, ← act_setRelationship h]
    rfl

/-- A relationship of the view was the next one when its line was read. -/
theorem exists_split_of_relationship (hr : r.view.relationships = [])
    (h : (r.readAll lines).view.relationships[index]? = some record) :
    ∃ before text after, lines = before ++ (record.line, text) :: after ∧
      (r.readAll before).view.relationships.length = index ∧
      Effect.ofLine (r.readAll before).openEntity text = .relationship record.relationship := by
  induction lines using List.reverseRecOn with
  | nil => simp [hr] at h
  | append_singleton lines p ih =>
    rw [readAll_concat, step_eq] at h
    have hold : (r.readAll lines).view.relationships[index]? = some record → ∃ before text after,
        lines ++ [p] = before ++ (record.line, text) :: after ∧
          (r.readAll before).view.relationships.length = index ∧
          Effect.ofLine (r.readAll before).openEntity text = .relationship record.relationship := by
      intro hrecord
      obtain ⟨before, text, after, rfl, hread⟩ := ih hrecord
      exact ⟨before, text, after ++ [p], List.append_assoc .., hread⟩
    cases heffect : Effect.ofLine (r.readAll lines).openEntity p.2 with
    | relationship rel =>
      rw [heffect] at h
      have hrelationships : ((r.readAll lines).act p.1 (.relationship rel)).view.relationships =
          (r.readAll lines).view.relationships ++
            [⟨(r.readAll lines).view.relationships.length, p.1, rel⟩] := rfl
      rw [hrelationships, List.getElem?_append] at h
      split at h
      · exact hold h
      · next hle =>
        -- The line is the last one, and its relationship the one behind all others.
        rw [List.getElem?_singleton] at h
        split at h
        · next hzero =>
          cases h
          exact ⟨lines, p.2, [], rfl, by omega, heffect⟩
        · cases h
    | _ =>
      rw [heffect] at h
      exact hold h

/-- Another relationship between the same two entities, read as the next one. -/
theorem act_relationship (h1 : rel'.entity1 = rel.entity1) (h2 : rel'.entity2 = rel.entity2)
    (r : Reader) (line : Nat) : r.act line (.relationship rel') =
      (r.act line (.relationship rel)).setRelationship r.view.relationships.length rel' := by
  simp [act, stepOutside, setRelationship, View.setRelationship, View.alter, h1, h2, modify_append_cons]

end Reader

/-! ## A line in place of another -/

section Redrawn

variable (hrecord : (View.ofSource s).relationship? index = some record)

include hrecord

/-- The line of a relationship, with what stands in the body before and behind it. -/
theorem exists_bodyTexts_of_relationship : ∃ before text after,
    bodyTexts s = before ++ text :: after ∧ record.line = bodyStart s + before.length ∧
      ((Reader.start s).readAll (numbered (bodyStart s) before)).view.relationships.length = index ∧
      ((Reader.start s).readAll (numbered (bodyStart s) before)).openEntity = none ∧
      s.lines[record.line]? = some text ∧ Relationship.ofLine? text = some record.relationship := by
  have hread : ((Reader.start s).readAll (s.body .er)).view.relationships[index]? = some record :=
    hrecord
  obtain ⟨_, text, _, hbody, hindex, heffect⟩ :=
    Reader.exists_split_of_relationship (r := Reader.start s) rfl hread
  rw [body_eq] at hbody
  obtain ⟨before, after, htexts, hline, rfl, -⟩ := numbered_eq_append_iff.1 hbody
  refine ⟨before, text, after, htexts, hline, hindex, Effect.eq_none_of_relationship heffect, ?_,
    Effect.ofLine?_of_relationship heffect⟩
  rw [hline, ← List.getElem?_drop, ← bodyTexts_eq, htexts]
  simp

variable (hlines : s'.lines = s.lines.set record.line text')
  (hread : Relationship.ofLine? text' = some rel')
  (h1 : rel'.entity1 = record.relationship.entity1)

include hlines hread h1

/-- The first word stays, and with it the declaration. -/
theorem declaration?_redrawn : s'.declaration? = s.declaration? := by
  obtain ⟨_, text, _, -, -, -, -, hline, hold⟩ := exists_bodyTexts_of_relationship hrecord
  have hnew := Relationship.beginsWith_of_ofLine? hread
  rw [h1] at hnew
  rw [declaration?, declaration?, hlines]
  refine declarationFrom?_of_beginsWith (forall₂_set (fun _ => .inl rfl) hline ?_) 0 false false
  exact .inr ⟨_, Relationship.beginsWith_of_ofLine? hold, hnew⟩

/-- The view has the other relationship in the same position, and is the same otherwise. -/
theorem View.ofSource_redrawn (h2 : rel'.entity2 = record.relationship.entity2) :
    View.ofSource s' = (View.ofSource s).setRelationship index rel' := by
  obtain ⟨before, text, after, htexts, hnumber, hindex, hinside, -, hold⟩ :=
    exists_bodyTexts_of_relationship hrecord
  have hdecl : s'.declarationOf? .er = s.declarationOf? .er := by
    rw [declarationOf?, declarationOf?, declaration?_redrawn hrecord hlines hread h1]
  have hstart : bodyStart s' = bodyStart s := by rw [bodyStart, bodyStart, hdecl]
  have htexts' : bodyTexts s' = before ++ text' :: after := by
    rw [bodyTexts_eq, hstart, hlines, hnumber, List.drop_set, if_neg (by omega), Nat.add_sub_cancel_left,
      ← bodyTexts_eq, htexts]
    simp
  have hbody : ∀ {t line}, bodyTexts t = before ++ line :: after → t.body .er =
      numbered (bodyStart t) before ++
        (bodyStart t + before.length, line) :: numbered (bodyStart t + before.length + 1) after := by
    intro t line h
    rw [body_eq, h, numbered_append, numbered_cons]
  have hreader : Reader.start s' = Reader.start s := by rw [Reader.start, Reader.start, hdecl]
  have hlt : index < (((Reader.start s).readAll (numbered (bodyStart s) before)).act record.line
      (.relationship record.relationship)).view.relationships.length := by
    simp [Reader.act, Reader.stepOutside, View.alter, hindex]
  rw [View.ofSource_eq, View.ofSource_eq, hbody htexts', hbody htexts, hreader, hstart, ← hnumber,
    Reader.readAll_append, Reader.readAll_append, Reader.readAll_cons, Reader.readAll_cons,
    Reader.step_eq, Reader.step_eq, hinside, Relationship.effect_of_ofLine? hold,
    Relationship.effect_of_ofLine? hread, Reader.act_relationship h1 h2, hindex,
    Reader.readAll_setRelationship hlt]
  rfl

end Redrawn

theorem View.setRelationship_inj {v : View} (hrecord : v.relationship? index = some record) :
    v.setRelationship index rel = v.setRelationship index rel' ↔ rel = rel' := by
  have hget : ∀ rel, (v.setRelationship index rel).relationship? index =
      some { record with relationship := rel } := by
    intro rel
    rw [relationship?, setRelationship, List.getElem?_modify_eq, show v.relationships[index]? = some record
      from hrecord]
    rfl
  constructor
  · intro h
    have heq := (hget rel).symm.trans ((congrArg (·.relationship? index) h).trans (hget rel'))
    exact congrArg RelationshipRecord.relationship (Option.some.inj heq)
  · rintro rfl
    rfl

/-! ## Blocks -/

/-- A relationship enters a block if it ends with a brace, and stays at the same depth otherwise. -/
theorem Relationship.blockStep_of_ofLine? (hread : ofLine? text = some rel) :
    blockStep blockRules text = if (trim text).getLast? = some '\x7b' then .enter else .stay := by
  obtain ⟨-, hclose, hopen⟩ := not_isSilent hread
  split
  · next hbrace => exact blockStep_eq_enter_iff.2 (hopen.trans (decide_eq_true hbrace))
  · next hbrace => exact blockStep_eq_stay (hopen.trans (decide_eq_false hbrace)) hclose

/-- In a balanced source another relationship leaves the blocks balanced exactly if its line ends with a
brace when the old one does. -/
theorem checkBalance_redrawn_iff (hbalance : s.checkBalance blockRules = .ok ()) {i : Nat}
    (hline : s.lines[i]? = some text) (hold : Relationship.ofLine? text = some rel)
    (hnew : Relationship.ofLine? text' = some rel') (hlines : s'.lines = s.lines.set i text') :
    s'.checkBalance blockRules = .ok () ↔
      ((trim text').getLast? = some '\x7b' ↔ (trim text).getLast? = some '\x7b') := by
  have hstep := Relationship.blockStep_of_ofLine? hold
  have hstep' := Relationship.blockStep_of_ofLine? hnew
  constructor
  · intro hbalance'
    have hsplit : s'.lines = s.lines.take i ++ [text'] ++ s.lines.drop (i + 1) := by
      obtain ⟨hi, -⟩ := List.getElem?_eq_some_iff.1 hline
      rw [hlines, List.set_eq_take_append_cons_drop, if_pos hi, List.append_assoc]
      rfl
    have hrises := rises_eq_of_checkBalance hbalance hbalance' (Nat.le_succ i) hsplit
    rw [drop_take_succ hline, rises_singleton, rises_singleton, rise, rise, hstep, hstep'] at hrises
    -- The two lines rise alike, so either both enter a block or none does.
    by_cases h : (trim text).getLast? = some '\x7b' <;>
      by_cases h' : (trim text').getLast? = some '\x7b' <;> simp_all
  · intro hiff
    rw [checkBalance, hlines, ← hbalance]
    have hsame : blockStep blockRules text' = blockStep blockRules text := by
      rw [hstep, hstep', if_congr hiff rfl rfl]
    exact checkBalanceFrom_congr (forall₂_set
      (R := fun a b => blockStep blockRules b = blockStep blockRules a) (fun _ => rfl) hline hsame) 0 []

end DiagramEditor.EntityRelation
