import DiagramEditor.EntityRelation.View
import DiagramEditor.Proofs.Source.Lines
import Mathlib.Data.List.Induction

/-!
# How an entity diagram is read

What a line does to the view depends on its text and on whether it stands in a block, and on nothing
else (`Effect.ofLine`); a step of the reader is that effect (`Reader.step_eq`). So what the view holds
can be traced back to the lines: every span of an entity starts at a header and ends there or where
a block of the entity is closed, and every attribute and every relationship stands on a line that
says it (`View.isTraced_ofSource`).
-/

namespace DiagramEditor.EntityRelation

open Text Source

variable {r : Reader} {lines more : List (Nat × Text)} {line : Nat} {text name : Text}

/-! ## Effects -/

/-- What a line does to the view. -/
inductive Effect where
  | skip
  /-- The end of the block of an entity. -/
  | close (name : Text)
  /-- An attribute of the entity whose block is open. -/
  | addAttribute (name : Text) (a : Attribute)
  | relationship (r : Relationship)
  | header (h : EntityHeader)
deriving DecidableEq

/-- What the line does where the block of this entity is open, or none. -/
def Effect.ofLine (inside : Option Text) (text : Text) : Effect :=
  if isSilent (trim text) then .skip
  else match inside with
    | some name =>
      if isBlockClose (trim text) then .close name
      else match Attribute.ofLine? text with
        | some a => .addAttribute name a
        | none => .skip
    | none =>
      match Statement.ofLine text with
      | .relationship r => .relationship r
      | .entity h => .header h
      | .other => .skip

namespace Reader

/-- The reader after the effect of the line with this number. -/
def act (r : Reader) (line : Nat) : Effect → Reader
  | .skip => r
  | .close name => { view := r.view.alter name (·.close line), openEntity := none }
  | .addAttribute name a => { r with view := r.view.alter name (·.addAttribute line a) }
  | .relationship rel => r.stepOutside line (.relationship rel)
  | .header h => r.stepOutside line (.entity h)

theorem step_eq (r : Reader) (line : Nat) (text : Text) :
    r.step line text = r.act line (Effect.ofLine r.openEntity text) := by
  rw [step, Effect.ofLine.eq_def]
  split
  · rfl
  · cases r.openEntity with
    | some name =>
      dsimp only [stepInside]
      split
      · rfl
      · cases Attribute.ofLine? text <;> rfl
    | none =>
      dsimp only
      cases Statement.ofLine text <;> rfl

/-- The lines read one after the other. -/
def readAll (r : Reader) (lines : List (Nat × Text)) : Reader :=
  lines.foldl (fun r p => r.step p.1 p.2) r

/-- The reader of a source before its first line. -/
def start (s : Source) : Reader :=
  { view := { declarationLine := s.declarationOf? .er } }

@[simp] theorem readAll_nil (r : Reader) : r.readAll [] = r := rfl

theorem readAll_cons (r : Reader) (p : Nat × Text) (lines : List (Nat × Text)) :
    r.readAll (p :: lines) = (r.step p.1 p.2).readAll lines := rfl

theorem readAll_append (r : Reader) (lines more : List (Nat × Text)) :
    r.readAll (lines ++ more) = (r.readAll lines).readAll more :=
  List.foldl_append

theorem readAll_concat (r : Reader) (lines : List (Nat × Text)) (p : Nat × Text) :
    r.readAll (lines ++ [p]) = (r.readAll lines).step p.1 p.2 :=
  readAll_append r lines [p]

/-- What every line keeps, all lines keep. -/
theorem readAll_invariant {P : Reader → Prop} (h : P r)
    (hstep : ∀ p ∈ lines, ∀ r, P r → P (r.step p.1 p.2)) : P (r.readAll lines) :=
  List.foldlRecOn lines _ h fun r hr p hp => hstep p hp r hr

end Reader

theorem View.ofSource_eq (s : Source) :
    View.ofSource s = ((Reader.start s).readAll (s.body .er)).view := rfl

@[simp] theorem View.declarationLine_ofSource (s : Source) :
    (View.ofSource s).declarationLine = s.declarationOf? .er := by
  refine Reader.readAll_invariant
    (P := fun r => r.view.declarationLine = s.declarationOf? .er) rfl fun p _ r hr => ?_
  rw [Reader.step_eq]
  cases Effect.ofLine r.openEntity p.2 <;> exact hr

/-! ## Places -/

namespace Effect

/-- The entity whose block is open behind a line with this effect. -/
def next (inside : Option Text) : Effect → Option Text
  | .close _ => none
  | .header h => if h.form = .blockOpen then some h.name else none
  | _ => inside

/-- The relationship that a line with this effect adds. -/
def relationship? : Effect → Option Relationship
  | .relationship rel => some rel
  | _ => none

/-- What a line does inside of a block concerns that block. -/
theorem inside_cases {inside : Option Text} (h : inside = some name) (text : Text) :
    ofLine inside text = .skip ∨ ofLine inside text = .close name ∨
      ∃ a, Attribute.ofLine? text = some a ∧ ofLine inside text = .addAttribute name a := by
  subst h
  rw [ofLine.eq_def]
  split
  · exact .inl rfl
  · dsimp only
    split
    · exact .inr (.inl rfl)
    · cases ha : Attribute.ofLine? text with
      | some a => exact .inr (.inr ⟨a, rfl, rfl⟩)
      | none => exact .inl rfl

theorem eq_none_of_header {inside : Option Text} {h : EntityHeader}
    (hh : ofLine inside text = .header h) : inside = none := by
  cases hinside : inside with
  | none => rfl
  | some name =>
    rcases inside_cases hinside text with heq | heq | ⟨a, -, heq⟩ <;> rw [heq] at hh <;> cases hh

theorem eq_none_of_relationship {inside : Option Text} {rel : Relationship}
    (hrel : ofLine inside text = .relationship rel) : inside = none := by
  cases hinside : inside with
  | none => rfl
  | some name =>
    rcases inside_cases hinside text with heq | heq | ⟨a, -, heq⟩ <;> rw [heq] at hrel <;> cases hrel

theorem eq_some_of_close {inside : Option Text} (h : ofLine inside text = .close name) :
    inside = some name := by
  cases hinside : inside with
  | none =>
    rw [hinside, ofLine.eq_def] at h
    split at h
    · cases h
    · dsimp only at h
      cases hst : Statement.ofLine text <;> rw [hst] at h <;> cases h
  | some name' =>
    rcases inside_cases hinside text with heq | heq | ⟨a, -, heq⟩ <;> rw [heq] at h <;> cases h
    rfl

theorem eq_some_of_addAttribute {inside : Option Text} {a : Attribute}
    (h : ofLine inside text = .addAttribute name a) : inside = some name := by
  cases hinside : inside with
  | none =>
    rw [hinside, ofLine.eq_def] at h
    split at h
    · cases h
    · dsimp only at h
      cases hst : Statement.ofLine text <;> rw [hst] at h <;> cases h
  | some name' =>
    rcases inside_cases hinside text with heq | heq | ⟨a', -, heq⟩ <;> rw [heq] at h <;> cases h
    rfl

end Effect

namespace Reader

theorem openEntity_act (r : Reader) (line : Nat) (text : Text) :
    (r.act line (Effect.ofLine r.openEntity text)).openEntity =
      (Effect.ofLine r.openEntity text).next r.openEntity := by
  cases Effect.ofLine r.openEntity text <;> rfl

theorem openEntity_step (r : Reader) (line : Nat) (text : Text) :
    (r.step line text).openEntity = (Effect.ofLine r.openEntity text).next r.openEntity := by
  rw [step_eq, openEntity_act]

/-- The lines together with the entity whose block each of them stands in. -/
def places (r : Reader) : List (Nat × Text) → List (Nat × Text × Option Text)
  | [] => []
  | p :: rest => (p.1, p.2, r.openEntity) :: (r.step p.1 p.2).places rest

theorem places_append (r : Reader) (lines more : List (Nat × Text)) :
    r.places (lines ++ more) = r.places lines ++ (r.readAll lines).places more := by
  induction lines generalizing r with
  | nil => rfl
  | cons p lines ih => rw [List.cons_append, places, places, ih, List.cons_append, readAll_cons]

theorem places_concat (r : Reader) (lines : List (Nat × Text)) (p : Nat × Text) :
    r.places (lines ++ [p]) = r.places lines ++ [(p.1, p.2, (r.readAll lines).openEntity)] :=
  places_append r lines [p]

theorem mem_places {inside : Option Text} : (line, text, inside) ∈ r.places lines ↔
    ∃ before after, lines = before ++ (line, text) :: after ∧
      (r.readAll before).openEntity = inside := by
  constructor
  · intro h
    induction lines generalizing r with
    | nil => cases h
    | cons p lines ih =>
      rcases List.mem_cons.1 h with h | h
      · cases h
        exact ⟨[], lines, rfl, rfl⟩
      · obtain ⟨before, after, rfl, hinside⟩ := ih h
        exact ⟨p :: before, after, rfl, hinside⟩
  · rintro ⟨before, after, rfl, rfl⟩
    rw [places_append]
    exact List.mem_append_right _ List.mem_cons_self

theorem mem_of_mem_places {q : Nat × Text × Option Text} (h : q ∈ r.places lines) :
    (q.1, q.2.1) ∈ lines := by
  obtain ⟨before, after, rfl, -⟩ := mem_places.1 h
  exact List.mem_append_right _ List.mem_cons_self

end Reader

/-- The lines of the body together with the entity whose block each of them stands in. -/
def places (s : Source) : List (Nat × Text × Option Text) :=
  (Reader.start s).places (s.body .er)

/-! ## Entities -/

namespace View

variable {f : EntityRecord → EntityRecord} {es : List EntityRecord}

theorem entity?_eq_some {v : View} {e : EntityRecord} (h : v.entity? name = some e) :
    e ∈ v.entities ∧ e.name = name :=
  ⟨List.mem_of_find?_eq_some h, by simpa using List.find?_some h⟩

theorem forall_alterEntity {P : EntityRecord → Prop} (h : ∀ e ∈ es, P e) (hnew : P (f { name }))
    (hf : ∀ e ∈ es, e.name = name → P (f e)) : ∀ e ∈ alterEntity name f es, P e := by
  induction es with
  | nil => exact List.forall_mem_singleton.2 hnew
  | cons e es ih =>
    obtain ⟨he, hes⟩ := List.forall_mem_cons.1 h
    obtain ⟨hfe, hfes⟩ := List.forall_mem_cons.1 hf
    rw [alterEntity]
    split
    · next heq => exact List.forall_mem_cons.2 ⟨hfe heq, hes⟩
    · exact List.forall_mem_cons.2 ⟨he, ih hes hfes⟩

/-- Where no name occurs twice, the entities of another name stay. -/
theorem forall_alterEntity_of_nodup {P : EntityRecord → Prop} (hnodup : (es.map (·.name)).Nodup)
    (hother : ∀ e ∈ es, e.name ≠ name → P e) (hnew : P (f { name }))
    (hf : ∀ e ∈ es, e.name = name → P (f e)) : ∀ e ∈ alterEntity name f es, P e := by
  induction es with
  | nil => exact List.forall_mem_singleton.2 hnew
  | cons e es ih =>
    obtain ⟨hnot, hnodup⟩ := List.nodup_cons.1 hnodup
    obtain ⟨he, hes⟩ := List.forall_mem_cons.1 hother
    obtain ⟨hfe, hfes⟩ := List.forall_mem_cons.1 hf
    rw [alterEntity]
    split
    · next heq =>
      refine List.forall_mem_cons.2 ⟨hfe heq, fun e' he' => hes e' he' fun hname => hnot ?_⟩
      exact List.mem_map.2 ⟨e', he', hname.trans heq.symm⟩
    · next hne => exact List.forall_mem_cons.2 ⟨he hne, ih hnodup hes hfes⟩

theorem map_name_alterEntity (hf : ∀ e, (f e).name = e.name) :
    (alterEntity name f es).map (·.name) =
      if name ∈ es.map (·.name) then es.map (·.name) else es.map (·.name) ++ [name] := by
  induction es with
  | nil => simp [alterEntity, hf]
  | cons e es ih =>
    rw [alterEntity]
    split
    · next heq => simp [heq, hf]
    · next hne =>
      have hiff : name ∈ (e :: es).map (·.name) ↔ name ∈ es.map (·.name) := by
        rw [List.map_cons, List.mem_cons]
        exact or_iff_right (Ne.symm hne)
      rw [List.map_cons, ih]
      simp only [hiff]
      split <;> rfl

theorem nodup_alterEntity (hf : ∀ e, (f e).name = e.name) (h : (es.map (·.name)).Nodup) :
    ((alterEntity name f es).map (·.name)).Nodup := by
  rw [map_name_alterEntity hf]
  split
  · exact h
  · next hnot =>
    exact List.nodup_append.2 ⟨h, by simp, fun a ha b hb => by
      rw [List.mem_singleton.1 hb]
      exact fun heq => hnot (heq ▸ ha)⟩

end View

/-- What the edits of a record have in common: the name stays. -/
theorem EntityRecord.name_declare (line : Nat) (h : EntityHeader) (e : EntityRecord) :
    (e.declare line h).name = e.name := by
  rw [declare]
  split <;> rfl

theorem Reader.nodup_names (h : (r.view.entities.map (·.name)).Nodup) :
    ((r.readAll lines).view.entities.map (·.name)).Nodup := by
  refine readAll_invariant (P := fun r => (r.view.entities.map (·.name)).Nodup) h
    fun p _ r hr => ?_
  rw [step_eq]
  cases Effect.ofLine r.openEntity p.2 with
  | skip => exact hr
  | close name => exact View.nodup_alterEntity (fun _ => rfl) hr
  | addAttribute name a => exact View.nodup_alterEntity (fun _ => rfl) hr
  | relationship rel =>
    exact View.nodup_alterEntity (fun _ => rfl) (View.nodup_alterEntity (fun _ => rfl) hr)
  | header header => exact View.nodup_alterEntity (EntityRecord.name_declare p.1 header) hr

/-! ## Traces -/

/-- Where the reader has what it knows about the entity from, having read these lines. -/
structure IsTraced (r : Reader) (lines : List (Nat × Text)) (e : EntityRecord) : Prop where
  /-- The span starts at a header. If it ends there too, the header has opened no block, or one that
  is still open. -/
  start : ∀ span ∈ e.span, ∃ text inside h, (span.start, text, inside) ∈ r.places lines ∧
    Effect.ofLine inside text = .header h ∧ h.name = e.name ∧
      (span.start = span.stop → h.form = .blockOpen →
        (r.readAll lines).openEntity = some e.name)
  le : ∀ span ∈ e.span, span.start ≤ span.stop
  /-- A span of several lines ends where a block of the entity is closed. -/
  stop : ∀ span ∈ e.span, span.start ≠ span.stop → ∃ text inside,
    (span.stop, text, inside) ∈ r.places lines ∧ Effect.ofLine inside text = .close e.name
  /-- An attribute stands inside of a block of the entity or on a header of it. -/
  attributes : ∀ p ∈ e.attributes, ∃ text inside, (p.1, text, inside) ∈ r.places lines ∧
    (Effect.ofLine inside text = .addAttribute e.name p.2 ∨
      e.inline = true ∧ ∃ h as, Effect.ofLine inside text = .header h ∧ h.name = e.name ∧
        h.form = .inline as ∧ p.2 ∈ as)

namespace IsTraced

variable {e : EntityRecord} {p : Nat × Text}

theorem new (name : Text) : IsTraced r lines { name } :=
  ⟨nofun, nofun, nofun, nofun⟩

/-- What is known stays known while the block of another entity is read, or none. -/
theorem concat (h : IsTraced r lines e)
    (hopen : (r.readAll lines).openEntity = some e.name →
      (r.readAll (lines ++ [p])).openEntity = some e.name) : IsTraced r (lines ++ [p]) e where
  start span hspan := by
    obtain ⟨text, inside, header, hmem, heffect, hname, hsingle⟩ := h.start span hspan
    refine ⟨text, inside, header, ?_, heffect, hname, fun heq hform => hopen (hsingle heq hform)⟩
    rw [Reader.places_append]
    exact List.mem_append_left _ hmem
  le := h.le
  stop span hspan hne := by
    obtain ⟨text, inside, hmem, heffect⟩ := h.stop span hspan hne
    refine ⟨text, inside, ?_, heffect⟩
    rw [Reader.places_append]
    exact List.mem_append_left _ hmem
  attributes a ha := by
    obtain ⟨text, inside, hmem, heffect⟩ := h.attributes a ha
    refine ⟨text, inside, ?_, heffect⟩
    rw [Reader.places_append]
    exact List.mem_append_left _ hmem

end IsTraced

namespace IsTraced

variable {e : EntityRecord} {p : Nat × Text}

theorem close (h : IsTraced r lines e) (hlt : ∀ q ∈ lines, q.1 < p.1)
    (heffect : Effect.ofLine (r.readAll lines).openEntity p.2 = .close e.name) :
    IsTraced r (lines ++ [p]) (e.close p.1) where
  start span hspan := by
    obtain ⟨old, hold, rfl⟩ := Option.map_eq_some_iff.1 hspan
    obtain ⟨text, inside, header, hmem, hheader, hname, -⟩ := h.start old hold
    refine ⟨text, inside, header, ?_, hheader, hname, fun heq => ?_⟩
    · rw [Reader.places_append]
      exact List.mem_append_left _ hmem
    · exact absurd heq (Nat.ne_of_lt (hlt _ (Reader.mem_of_mem_places hmem)))
  le span hspan := by
    obtain ⟨old, hold, rfl⟩ := Option.map_eq_some_iff.1 hspan
    obtain ⟨text, inside, header, hmem, -⟩ := h.start old hold
    exact Nat.le_of_lt (hlt _ (Reader.mem_of_mem_places hmem))
  stop span hspan _ := by
    obtain ⟨old, -, rfl⟩ := Option.map_eq_some_iff.1 hspan
    refine ⟨p.2, _, ?_, heffect⟩
    rw [Reader.places_concat]
    exact List.mem_append_right _ (List.mem_singleton.2 rfl)
  attributes a ha := by
    obtain ⟨text, inside, hmem, hattribute⟩ := h.attributes a ha
    refine ⟨text, inside, ?_, hattribute⟩
    rw [Reader.places_append]
    exact List.mem_append_left _ hmem

theorem addAttribute {a : Attribute} (h : IsTraced r (lines ++ [p]) e)
    (heffect : Effect.ofLine (r.readAll lines).openEntity p.2 = .addAttribute e.name a) :
    IsTraced r (lines ++ [p]) (e.addAttribute p.1 a) where
  start := h.start
  le := h.le
  stop := h.stop
  attributes b hb := by
    rcases List.mem_append.1 hb with hb | hb
    · exact h.attributes b hb
    · rw [List.mem_singleton.1 hb]
      refine ⟨p.2, _, ?_, .inl heffect⟩
      rw [Reader.places_concat]
      exact List.mem_append_right _ (List.mem_singleton.2 rfl)

theorem declare {header : EntityHeader} (h : IsTraced r (lines ++ [p]) e)
    (heffect : Effect.ofLine (r.readAll lines).openEntity p.2 = .header header)
    (hname : header.name = e.name)
    (hopen : header.form = .blockOpen → (r.readAll (lines ++ [p])).openEntity = some e.name) :
    IsTraced r (lines ++ [p]) (e.declare p.1 header) := by
  have hmem : (p.1, p.2, (r.readAll lines).openEntity) ∈ r.places (lines ++ [p]) := by
    rw [Reader.places_concat]
    exact List.mem_append_right _ (List.mem_singleton.2 rfl)
  have hspan : (e.declare p.1 header).span = e.span.or (some (.single p.1)) := by
    rw [EntityRecord.declare]
    split <;> rfl
  constructor
  · intro span hs
    rw [EntityRecord.name_declare]
    rcases Option.or_eq_some_iff.1 (hspan ▸ hs) with hs | ⟨-, hs⟩
    · exact h.start span hs
    · cases hs
      exact ⟨p.2, _, header, hmem, heffect, hname, fun _ => hopen⟩
  · intro span hs
    rcases Option.or_eq_some_iff.1 (hspan ▸ hs) with hs | ⟨-, hs⟩
    · exact h.le span hs
    · cases hs
      exact Nat.le_refl p.1
  · intro span hs hne
    rw [EntityRecord.name_declare]
    rcases Option.or_eq_some_iff.1 (hspan ▸ hs) with hs | ⟨-, hs⟩
    · exact h.stop span hs hne
    · cases hs
      exact absurd rfl hne
  · intro a ha
    rw [EntityRecord.name_declare]
    rw [EntityRecord.declare] at ha ⊢
    split at ha
    · next as has =>
      rcases List.mem_append.1 ha with ha | ha
      · obtain ⟨text, inside, hplace, hread | ⟨-, hread⟩⟩ := h.attributes a ha
        exacts [⟨text, inside, hplace, .inl hread⟩, ⟨text, inside, hplace, .inr ⟨rfl, hread⟩⟩]
      · obtain ⟨b, hb, rfl⟩ := List.mem_map.1 ha
        exact ⟨p.2, _, hmem, .inr ⟨rfl, header, as, heffect, hname, has, hb⟩⟩
    · exact h.attributes a ha

end IsTraced

/-- Everything that is known about an entity comes from somewhere. -/
theorem Reader.isTraced_readAll (hr : r.view.entities = [])
    (hlines : lines.Pairwise fun p q => p.1 < q.1) :
    ∀ e ∈ (r.readAll lines).view.entities, IsTraced r lines e := by
  -- The induction is on the last line: what is traced stays traced, and the line adds its own.
  induction lines using List.reverseRecOn with
  | nil =>
    rw [readAll_nil, hr]
    exact nofun
  | append_singleton lines p ih =>
    obtain ⟨hlines, -, hlt⟩ := List.pairwise_append.1 hlines
    have ih := ih hlines
    have hnodup : ((r.readAll lines).view.entities.map (·.name)).Nodup :=
      nodup_names (hr ▸ List.nodup_nil)
    have hopen := openEntity_step (r.readAll lines) p.1 p.2
    rw [readAll_concat, step_eq]
    rw [← readAll_concat] at hopen
    cases heffect : Effect.ofLine (r.readAll lines).openEntity p.2 with
    | skip =>
      rw [heffect] at hopen
      exact fun e he => (ih e he).concat hopen.trans
    | close name =>
      have hinside := Effect.eq_some_of_close heffect
      refine View.forall_alterEntity_of_nodup hnodup (fun e he hne => ?_) ?_ fun e he heq => ?_
      · refine (ih e he).concat fun hsome => ?_
        exact absurd (Option.some.inj (hsome.symm.trans hinside)) hne
      · exact .new name
      · exact (ih e he).close (fun q hq => hlt q hq p (List.mem_singleton.2 rfl)) (heq ▸ heffect)
    | addAttribute name a =>
      rw [heffect] at hopen
      refine View.forall_alterEntity_of_nodup hnodup (fun e he _ => (ih e he).concat hopen.trans) ?_
        fun e he heq => ((ih e he).concat hopen.trans).addAttribute (heq ▸ heffect)
      exact (IsTraced.new name).addAttribute heffect
    | relationship rel =>
      rw [heffect] at hopen
      have hold : ∀ e ∈ (r.readAll lines).view.entities, IsTraced r (lines ++ [p]) e :=
        fun e he => (ih e he).concat hopen.trans
      exact View.forall_alterEntity
        (View.forall_alterEntity hold (.new _) fun e he _ => hold e he) (.new _)
        fun e he _ => View.forall_alterEntity hold (.new _) (fun e he _ => hold e he) e he
    | header header =>
      have hinside := Effect.eq_none_of_header heffect
      rw [heffect] at hopen
      have hold : ∀ e ∈ (r.readAll lines).view.entities, IsTraced r (lines ++ [p]) e :=
        fun e he => (ih e he).concat fun hsome => nomatch hinside.symm.trans hsome
      have hblock : header.form = .blockOpen →
          (r.readAll (lines ++ [p])).openEntity = some header.name := by
        intro hform
        rw [hopen, Effect.next, if_pos hform]
      refine View.forall_alterEntity hold ?_ fun e he heq => ?_
      · exact (IsTraced.new _).declare heffect rfl hblock
      · exact (hold e he).declare heffect heq.symm fun hform => heq ▸ hblock hform

theorem View.isTraced_ofSource (s : Source) :
    ∀ e ∈ (View.ofSource s).entities, IsTraced (Reader.start s) (s.body .er) e := by
  refine Reader.isTraced_readAll rfl ?_
  rw [Source.body, numberedFrom_eq]
  exact pairwise_numbered _ _

/-- The relationships are what the lines say, in order. -/
theorem Reader.relationships_readAll (r : Reader) (lines : List (Nat × Text)) :
    (r.readAll lines).view.relationships.map (fun x => (x.line, x.relationship)) =
      r.view.relationships.map (fun x => (x.line, x.relationship)) ++
        (r.places lines).filterMap fun q =>
          (Effect.ofLine q.2.2 q.2.1).relationship?.map fun rel => (q.1, rel) := by
  induction lines generalizing r with
  | nil => exact (List.append_nil _).symm
  | cons p lines ih =>
    rw [readAll_cons, ih, places, step_eq]
    cases heffect : Effect.ofLine r.openEntity p.2 with
    | relationship rel =>
      rw [List.filterMap_cons_some (b := (p.1, rel)) (by simp only [heffect]; rfl)]
      simp [act, stepOutside, View.alter]
    | _ =>
      rw [List.filterMap_cons_none (by simp only [heffect]; rfl)]
      rfl

/-- A relationship is remembered with the line that says it. -/
theorem View.mem_relationships_iff {s : Source} {i : Nat} {rel : Relationship} :
    (∃ r ∈ (View.ofSource s).relationships, r.line = i ∧ r.relationship = rel) ↔
      ∃ line inside, (i, line, inside) ∈ places s ∧
        Effect.ofLine inside line = .relationship rel := by
  have h := (Reader.start s).relationships_readAll (s.body .er)
  have hmem : (i, rel) ∈ (View.ofSource s).relationships.map (fun x => (x.line, x.relationship)) ↔
      (i, rel) ∈ (places s).filterMap fun q =>
        (Effect.ofLine q.2.2 q.2.1).relationship?.map fun rel => (q.1, rel) := by
    rw [View.ofSource_eq, h]
    rfl
  simp only [List.mem_map, Prod.mk.injEq, List.mem_filterMap, Option.map_eq_some_iff] at hmem
  rw [hmem]
  constructor
  · rintro ⟨⟨_, line, inside⟩, hplace, rel', hrel, rfl, rfl⟩
    refine ⟨line, inside, hplace, ?_⟩
    cases heffect : Effect.ofLine inside line <;> rw [heffect] at hrel <;> cases hrel
    rfl
  · rintro ⟨line, inside, hplace, heffect⟩
    exact ⟨_, hplace, rel, by rw [heffect]; rfl, rfl, rfl⟩

/-- The positions count from zero. -/
def View.IsNumbered (v : View) : Prop :=
  v.relationships.map (·.index) = List.range v.relationships.length

theorem Reader.isNumbered_readAll (h : r.view.IsNumbered) : (r.readAll lines).view.IsNumbered := by
  refine readAll_invariant (P := fun r => r.view.IsNumbered) h fun p _ r hr => ?_
  rw [step_eq]
  cases Effect.ofLine r.openEntity p.2 with
  | relationship rel =>
    change List.map RelationshipRecord.index (_ ++ [_]) = List.range (List.length (_ ++ [_]))
    rw [List.map_append, List.length_append, List.length_singleton, List.range_succ]
    exact congrArg (· ++ [_]) hr
  | _ => exact hr

/-! ## Lines -/

/-- Every line that the view remembers satisfies `P`, that of the declaration apart. -/
structure View.IsWithin (P : Nat → Prop) (v : View) : Prop where
  spans : ∀ e ∈ v.entities, ∀ span ∈ e.span, P span.start ∧ P span.stop
  attributes : ∀ e ∈ v.entities, ∀ p ∈ e.attributes, P p.1
  relationships : ∀ r ∈ v.relationships, P r.line

theorem View.IsWithin.mono {P Q : Nat → Prop} {v : View} (h : v.IsWithin P)
    (hPQ : ∀ i, P i → Q i) : v.IsWithin Q where
  spans e he span hspan := (h.spans e he span hspan).imp (hPQ _) (hPQ _)
  attributes e he p hp := hPQ _ (h.attributes e he p hp)
  relationships r hr := hPQ _ (h.relationships r hr)

/-- The lines that the view remembers are lines of the body. -/
theorem View.isWithin_ofSource (s : Source) :
    (View.ofSource s).IsWithin fun i => ∃ text, (i, text) ∈ s.body .er := by
  have hplace : ∀ {q : Nat × Text × Option Text}, q ∈ places s →
      ∃ text, (q.1, text) ∈ s.body .er := fun hq => ⟨_, Reader.mem_of_mem_places hq⟩
  refine ⟨fun e he span hspan => ?_, fun e he p hp => ?_, fun r hr => ?_⟩
  · obtain ⟨_, _, _, hstart, -⟩ := (View.isTraced_ofSource s e he).start span hspan
    refine ⟨hplace hstart, ?_⟩
    by_cases hsingle : span.start = span.stop
    · exact hsingle ▸ hplace hstart
    · obtain ⟨_, _, hstop, -⟩ := (View.isTraced_ofSource s e he).stop span hspan hsingle
      exact hplace hstop
  · obtain ⟨_, _, hmem, -⟩ := (View.isTraced_ofSource s e he).attributes p hp
    exact hplace hmem
  · obtain ⟨_, _, hmem, -⟩ := View.mem_relationships_iff.1 ⟨r, hr, rfl, rfl⟩
    exact hplace hmem

end DiagramEditor.EntityRelation
