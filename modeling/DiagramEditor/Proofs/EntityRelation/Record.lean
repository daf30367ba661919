import DiagramEditor.Proofs.EntityRelation.Growth

/-!
# What is known about one entity

The record of an entity is what the lines of the body do to it, one after the other
(`View.record_ofSource`), and a line that neither declares the entity nor stands in a block of it does
nothing. So where all lines that declare an entity stand together (`DeclaresOnce`), its record is what
these lines say (`DeclaresOnce.record`): one line with all attributes between braces (`IsInline`), or a
block with an attribute on each line (`IsBlock`).
-/

namespace DiagramEditor.EntityRelation

open Text Source

variable {r : Reader} {s s' : Source} {name text line opener closer : Text} {title : Option Text}
  {inside : Option Text} {texts front middle back inner : List Text} {e : EntityRecord} {n : Nat}
  {attributes : List Attribute} {effect : Effect}

/-! ## Records -/

/-- The record of the entity `name` behind the line with this number and this effect. -/
def Effect.onRecord (name : Text) (line : Nat) (e : EntityRecord) : Effect → EntityRecord
  | .close owner => if owner = name then e.close line else e
  | .addAttribute owner a => if owner = name then e.addAttribute line a else e
  | .header h => if h.name = name then e.declare line h else e
  | _ => e

/-- What the view knows about the entity of this name, which may be nothing. -/
def View.record (v : View) (name : Text) : EntityRecord :=
  (v.entity? name).getD { name }

/-- The attributes of the entity of this name. -/
def View.attributes? (v : View) (name : Text) : Option (List Attribute) :=
  (v.entity? name).map fun e => e.attributes.map Prod.snd

/-- The record behind the lines, the first of which has this number. -/
def recordAfter (name : Text) : (line : Nat) → (inside : Option Text) → List Text → EntityRecord →
    EntityRecord
  | _, _, [], e => e
  | line, inside, text :: texts, e =>
    recordAfter name (line + 1) ((Effect.ofLine inside text).next inside) texts
      ((Effect.ofLine inside text).onRecord name line e)

theorem recordAfter_append (n : Nat) (inside : Option Text) (texts more : List Text)
    (e : EntityRecord) : recordAfter name n inside (texts ++ more) e =
      recordAfter name (n + texts.length) (insideAfter inside texts) more
        (recordAfter name n inside texts e) := by
  induction texts generalizing n inside e with
  | nil => rfl
  | cons text texts ih =>
    rw [List.cons_append, recordAfter, recordAfter, ih, insideAfter_cons, List.length_cons,
      Nat.add_assoc, Nat.add_comm 1]

namespace View

variable {v : View}

theorem record_alter {f : EntityRecord → EntityRecord} (hf : ∀ e, (f e).name = e.name)
    (owner : Text) : (v.alter owner f).record name =
      if owner = name then f (v.record name) else v.record name := by
  rw [record, entity?_alter hf]
  by_cases h : name = owner
  · subst h
    rw [if_pos rfl, if_pos rfl]
    rfl
  · rw [if_neg h, if_neg (Ne.symm h), record]

/-- A record with a span is that of an entity. -/
theorem entity?_of_span_record (h : (v.record name).span ≠ none) :
    v.entity? name = some (v.record name) := by
  rw [record] at h ⊢
  cases he : v.entity? name with
  | some e => rfl
  | none => rw [he] at h; exact absurd rfl h

end View

theorem Reader.record_act (r : Reader) (n : Nat) (effect : Effect) :
    (r.act n effect).view.record name = effect.onRecord name n (r.view.record name) := by
  have hsame : ∀ (v : View) (owner : Text), (v.alter owner id).record name = v.record name := by
    intro v owner
    rw [View.record_alter (f := id) fun _ => rfl]
    exact ite_self _
  cases effect with
  | skip => rfl
  | close owner => exact View.record_alter (f := (·.close n)) (fun _ => rfl) owner
  | addAttribute owner a => exact View.record_alter (f := (·.addAttribute n a)) (fun _ => rfl) owner
  | relationship rel => exact (hsame _ _).trans (hsame _ _)
  | header h => exact View.record_alter (fun e => e.name_declare n h) h.name

theorem Reader.record_readAll (r : Reader) (n : Nat) (texts : List Text) :
    (r.readAll (numbered n texts)).view.record name =
      recordAfter name n r.openEntity texts (r.view.record name) := by
  induction texts generalizing r n with
  | nil => rfl
  | cons text texts ih =>
    rw [numbered_cons, readAll_cons, ih, openEntity_step, step_eq, record_act, recordAfter]

theorem View.record_ofSource (s : Source) (name : Text) : (View.ofSource s).record name =
    recordAfter name (bodyStart s) none (bodyTexts s) { name } := by
  rw [View.ofSource_eq, body_eq, Reader.record_readAll]
  rfl

/-! ## Lines about others -/

/-- The line declares the entity. -/
def Effect.Declares (name : Text) (effect : Effect) : Prop :=
  ∃ h, effect = .header h ∧ h.name = name

instance (name : Text) : DecidablePred (Effect.Declares name) := fun effect =>
  match effect with
  | .header h => decidable_of_iff (h.name = name) (by simp [Effect.Declares])
  | .skip | .close _ | .addAttribute _ _ | .relationship _ => .isFalse (by simp [Effect.Declares])

/-- Outside of its blocks, lines that do not declare the entity do nothing to it and open no block of
it. -/
theorem recordAfter_of_not_declares (hinside : inside ≠ some name)
    (h : ∀ effect ∈ effects inside texts, ¬effect.Declares name) (n : Nat) (e : EntityRecord) :
    recordAfter name n inside texts e = e := by
  induction texts generalizing n inside with
  | nil => rfl
  | cons text texts ih =>
    obtain ⟨hfirst, hrest⟩ := List.forall_mem_cons.1 h
    rw [recordAfter]
    cases heffect : Effect.ofLine inside text with
    | close owner =>
      have hne : owner ≠ name := fun heq => hinside (heq ▸ Effect.eq_some_of_close heffect)
      rw [heffect] at hrest
      rw [Effect.onRecord, if_neg hne]
      exact ih (Option.some_ne_none name).symm hrest (n + 1)
    | addAttribute owner a =>
      have hne : owner ≠ name := fun heq => hinside (heq ▸ Effect.eq_some_of_addAttribute heffect)
      rw [heffect] at hrest
      rw [Effect.onRecord, if_neg hne]
      exact ih hinside hrest (n + 1)
    | header h =>
      have hne : h.name ≠ name := fun heq => hfirst (heffect ▸ ⟨h, rfl, heq⟩)
      rw [heffect] at hrest
      rw [Effect.onRecord, if_neg hne]
      refine ih (fun hnext => ?_) hrest (n + 1)
      rw [Effect.next] at hnext
      split at hnext
      · exact hne (Option.some.inj hnext)
      · cases hnext
    | _ =>
      rw [heffect] at hrest
      exact ih hinside hrest (n + 1)

/-! ## Entities declared in one place -/

/-- The lines in the middle stand in no block, and no other line declares the entity. -/
structure DeclaresOnce (name : Text) (front middle back : List Text) (s : Source) : Prop where
  lines : s.lines = front ++ middle ++ back
  start : bodyStart s ≤ front.length
  inside : insideAfter none (front.drop (bodyStart s)) = none
  front : ∀ effect ∈ effects none (front.drop (bodyStart s)), ¬effect.Declares name
  back : ∀ effect ∈ effects none back, ¬effect.Declares name

namespace DeclaresOnce

/-- Other lines in the middle. -/
theorem with_middle (h : DeclaresOnce name front middle back s) (hstart : bodyStart s' = bodyStart s)
    (hlines : s'.lines = front ++ texts ++ back) : DeclaresOnce name front texts back s' :=
  ⟨hlines, hstart ▸ h.start, hstart ▸ h.inside, hstart ▸ h.front, h.back⟩

/-- What is known about the entity is what the lines in the middle say. -/
theorem record (h : DeclaresOnce name front middle back s) (hclosed : insideAfter none middle = none) :
    (View.ofSource s).record name = recordAfter name front.length none middle { name } := by
  have htexts : bodyTexts s = front.drop (bodyStart s) ++ (middle ++ back) := by
    rw [bodyTexts_eq, h.lines, List.append_assoc, List.drop_append_of_le_length h.start]
  have hnone := (Option.some_ne_none name).symm
  rw [View.record_ofSource, htexts, recordAfter_append, h.inside,
    recordAfter_of_not_declares hnone h.front, recordAfter_append, hclosed,
    recordAfter_of_not_declares hnone h.back, List.length_drop, Nat.add_sub_cancel' h.start]

end DeclaresOnce

/-- The entity is declared on one line, with all attributes between braces. -/
structure IsInline (name : Text) (title : Option Text) (attributes : List Attribute)
    (front : List Text) (line : Text) (back : List Text) (s : Source) : Prop
    extends DeclaresOnce name front [line] back s where
  header : ∃ nameStart, EntityHeader.ofLine? line = some ⟨name, nameStart, title, .inline attributes⟩

/-- The line and what stands around it. -/
theorem IsInline.lines_eq (h : IsInline name title attributes front line back s) :
    s.lines = front ++ [line] ++ back ∧ s.lines[front.length]? = some line ∧
      s.lines.take front.length = front ∧ s.lines.drop (front.length + 1) = back := by
  refine ⟨h.lines, ?_, ?_, ?_⟩ <;> rw [h.lines] <;> simp

/-- The record of an entity with all attributes on the line with this number. -/
def EntityRecord.onLine (name : Text) (title : Option Text) (attributes : List Attribute) (n : Nat) :
    EntityRecord where
  name
  title
  span := some (.single n)
  inline := true
  attributes := attributes.map fun a => (n, a)

@[simp] theorem EntityRecord.map_snd_onLine :
    (onLine name title attributes n).attributes.map Prod.snd = attributes :=
  (List.map_map ..).trans (List.map_id attributes)

theorem IsInline.entity? (h : IsInline name title attributes front line back s) :
    (View.ofSource s).entity? name = some (.onLine name title attributes front.length) := by
  obtain ⟨start, hread⟩ := h.header
  have heffect := Effect.ofLine_none_eq_header_iff.2 hread
  have hrecord := h.record (by rw [insideAfter_cons, heffect]; rfl)
  rw [recordAfter, heffect, Effect.onRecord, if_pos rfl] at hrecord
  have hdeclare : EntityRecord.declare front.length ⟨name, start, title, .inline attributes⟩ { name } =
      .onLine name title attributes front.length := by
    simp [EntityRecord.declare, EntityRecord.onLine]
  rw [hdeclare, recordAfter] at hrecord
  rw [View.entity?_of_span_record (by rw [hrecord]; exact Option.some_ne_none _), hrecord]

/-- The attributes that the lines hold, with the numbers of the lines. -/
def attributesFrom (n : Nat) (texts : List Text) : List (Nat × Attribute) :=
  (numbered n texts).filterMap fun p => (Attribute.ofLine? p.2).map fun a => (p.1, a)

theorem attributesFrom_cons (n : Nat) (text : Text) (texts : List Text) :
    attributesFrom n (text :: texts) =
      ((Attribute.ofLine? text).map fun a => (n, a)).toList ++ attributesFrom (n + 1) texts := by
  rw [attributesFrom, numbered_cons, List.filterMap_cons]
  cases Attribute.ofLine? text <;> rfl

theorem attributesFrom_append (n : Nat) (texts more : List Text) :
    attributesFrom n (texts ++ more) = attributesFrom n texts ++ attributesFrom (n + texts.length) more := by
  rw [attributesFrom, numbered_append, List.filterMap_append]
  rfl

theorem map_snd_attributesFrom (n : Nat) (texts : List Text) :
    (attributesFrom n texts).map Prod.snd = texts.filterMap Attribute.ofLine? := by
  induction texts generalizing n with
  | nil => rfl
  | cons text texts ih =>
    rw [attributesFrom_cons, List.map_append, ih, List.filterMap_cons]
    cases Attribute.ofLine? text <;> rfl

/-- Inside of a block a line that does not close it adds the attribute that it holds, if any. -/
theorem Effect.onRecord_inside (h : isBlockClose (trim text) = false) (name : Text) (n : Nat)
    (e : EntityRecord) :
    (ofLine (some name) text).next (some name) = some name ∧
      (ofLine (some name) text).onRecord name n e =
        { e with attributes := e.attributes ++
            ((Attribute.ofLine? text).map fun a => (n, a)).toList } := by
  have hnext := (Stretch.of_not_isBlockClose h name).insideAfter
  refine ⟨hnext, ?_⟩
  cases hread : Attribute.ofLine? text with
  | some a =>
    rw [ofLine_of_attribute hread, onRecord, if_pos rfl]
    rfl
  | none =>
    -- A line that holds no attribute and does not close the block says nothing.
    rcases inside_cases (rfl : some name = some name) text with heq | heq | ⟨a, ha, -⟩
    · simp [heq, onRecord]
    · rw [isBlockClose_of_close heq] at h
      cases h
    · rw [hread] at ha
      cases ha

/-- What the lines of a block add to the entity. -/
theorem recordAfter_inside (h : ∀ text ∈ inner, isBlockClose (trim text) = false) (n : Nat)
    (e : EntityRecord) : recordAfter name n (some name) inner e =
      { e with attributes := e.attributes ++ attributesFrom n inner } := by
  induction inner generalizing n e with
  | nil => simp [recordAfter, attributesFrom, numbered]
  | cons text inner ih =>
    obtain ⟨htext, hinner⟩ := List.forall_mem_cons.1 h
    obtain ⟨hnext, hrecord⟩ := Effect.onRecord_inside htext name n e
    rw [recordAfter, hnext, hrecord, ih hinner, attributesFrom_cons, List.append_assoc]

/-- The entity is declared as a block, with an attribute on each of the lines that hold one. -/
structure IsBlock (name : Text) (title : Option Text) (attributes : List Attribute)
    (front : List Text) (opener : Text) (inner : List Text) (closer : Text) (back : List Text)
    (s : Source) : Prop extends DeclaresOnce name front (opener :: inner ++ [closer]) back s where
  header : ∃ nameStart, EntityHeader.ofLine? opener = some ⟨name, nameStart, title, .blockOpen⟩
  stays : ∀ text ∈ inner, isBlockClose (trim text) = false
  attributes : inner.filterMap Attribute.ofLine? = attributes
  closer : isBlockClose (trim closer) = true

/-- The record of an entity that is a block with these inner lines, the opener of which has this
number. -/
def EntityRecord.ofBlock (name : Text) (title : Option Text) (inner : List Text) (n : Nat) :
    EntityRecord where
  name
  title
  span := some ⟨n, n + 1 + inner.length⟩
  attributes := attributesFrom (n + 1) inner

theorem IsBlock.entity? (h : IsBlock name title attributes front opener inner closer back s) :
    (View.ofSource s).entity? name = some (.ofBlock name title inner front.length) := by
  obtain ⟨start, hread⟩ := h.header
  have hopener := Effect.ofLine_none_eq_header_iff.2 hread
  have hcloser := Effect.ofLine_of_isBlockClose h.closer (some name)
  have hinner := (Stretch.of_forall_not_isBlockClose h.stays name).insideAfter
  have hopen : (Effect.header ⟨name, start, title, .blockOpen⟩).next none = some name := by
    rw [Effect.next, if_pos rfl]
  have hclosed : insideAfter none (opener :: inner ++ [closer]) = none := by
    rw [List.cons_append, insideAfter_cons, hopener, hopen, insideAfter_append, hinner,
      insideAfter_cons, hcloser]
    rfl
  have hrecord := h.record hclosed
  have hdeclare : (Effect.header ⟨name, start, title, .blockOpen⟩).onRecord name front.length { name } =
      { name, title, span := some (.single front.length) } := by
    simp [Effect.onRecord, EntityRecord.declare]
  rw [List.cons_append, recordAfter, hopener, hopen, hdeclare, recordAfter_append,
    recordAfter_inside h.stays, hinner, recordAfter, hcloser, recordAfter] at hrecord
  rw [View.entity?_of_span_record] <;> rw [hrecord]
  · simp [Effect.onRecord, EntityRecord.close, EntityRecord.ofBlock, BlockSpan.single]
  · simp [Effect.onRecord, EntityRecord.close]

theorem IsBlock.attributes?_ofSource
    (h : IsBlock name title attributes front opener inner closer back s) :
    (View.ofSource s).attributes? name = some attributes := by
  rw [View.attributes?, h.entity?, Option.map_some, EntityRecord.ofBlock, map_snd_attributesFrom,
    h.attributes]

end DiagramEditor.EntityRelation
