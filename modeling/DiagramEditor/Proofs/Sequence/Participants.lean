import DiagramEditor.Proofs.Sequence.Content

/-!
# The participants of a sequence diagram

A participant is what its first declaration makes it, placed in the innermost box that is open there; a
name that no declaration has but a message is a participant with nothing but this name
(`View.participant?_ofSource`). So a name is that of a participant exactly if a statement names it
(`View.mem_names_iff`).
-/

namespace DiagramEditor.Sequence

open Text Source

variable {r r' : Reader} {line : Nat} {st : Statement} {sts sts' : List (Nat × Statement)}
  {name : Text} {f : Nat → Nat} {s : Source} {v : View}

namespace Statement

/-- The participant that is declared. -/
def participant? : Statement → Option Participant
  | participant p => some p
  | _ => none

/-- The participants that the statement names and that thereby exist. -/
def names : Statement → List Text
  | participant p => [p.name]
  | message m => [m.sender, m.receiver]
  | _ => []

end Statement

/-- The participants that the statements name. -/
def namesOf (sts : List (Nat × Statement)) : List Text :=
  sts.flatMap (·.2.names)

@[simp] theorem namesOf_append (sts sts' : List (Nat × Statement)) :
    namesOf (sts ++ sts') = namesOf sts ++ namesOf sts' :=
  List.flatMap_append

theorem namesOf_cons (p : Nat × Statement) (sts : List (Nat × Statement)) :
    namesOf (p :: sts) = p.2.names ++ namesOf sts := rfl

/-! ## One participant -/

theorem View.participant?_alter {g : ParticipantRecord → ParticipantRecord}
    (hg : ∀ p, (g p).name = p.name) (v : View) (name other : Text) :
    (v.alter other g).participant? name =
      if name = other then some (g ((v.participant? name).getD { name })) else v.participant? name := by
  simp only [alter, participant?]
  generalize v.participants = ps
  induction ps with
  | nil => by_cases h : name = other <;> simp [alterParticipant, hg, h, eq_comm]
  | cons p ps ih =>
    rw [alterParticipant]
    by_cases hp : p.name = other
    · by_cases h : name = other
      · simp [hp, h, hg]
      · simp [hp, hg, h, Ne.symm h]
    · rw [if_neg hp]
      by_cases h : p.name = name
      · have hne : name ≠ other := h ▸ hp
        simp [h, hne]
      · rw [List.find?_cons_of_neg (by simpa using h), List.find?_cons_of_neg (by simpa using h), ih]

theorem View.name_of_participant? {p : ParticipantRecord} (h : v.participant? name = some p) :
    p.name = name := by
  simpa using List.find?_some h

theorem View.mem_names_iff_isSome : name ∈ v.names ↔ (v.participant? name).isSome = true := by
  rw [names, participant?, List.find?_isSome, List.mem_map]
  simp

namespace Reader

/-- The innermost box that is open. -/
def box? (r : Reader) : Option Nat :=
  r.openBlocks.findSome? (·.box?)

/-- What the statement makes of the participant with this name. -/
def declared (r : Reader) (line : Nat) (d : Participant) : ParticipantRecord :=
  ⟨d.name, d.label, d.type, some line, r.box?⟩

/-- The declarations among the statements, each as the participant that it makes if it is the first
one. -/
def declarations : Reader → List (Nat × Statement) → List ParticipantRecord
  | _, [] => []
  | r, p :: sts =>
    (p.2.participant?.map (r.declared p.1)).toList ++ declarations (r.step p.1 p.2) sts

theorem declarations_append (r : Reader) (sts sts' : List (Nat × Statement)) :
    r.declarations (sts ++ sts') = r.declarations sts ++ (r.run sts).declarations sts' := by
  induction sts generalizing r with
  | nil => rfl
  | cons p sts ih => rw [List.cons_append, declarations, ih, declarations, List.append_assoc, run_cons]

theorem mem_declarations {d : ParticipantRecord} (h : d ∈ r.declarations sts) :
    ∃ line p, (line, .participant p) ∈ sts ∧ d.line = some line ∧ d.name = p.name ∧
      d.label = p.label ∧ d.type = p.type := by
  induction sts generalizing r with
  | nil => cases h
  | cons q sts ih =>
    rw [declarations] at h
    rcases List.mem_append.1 h with h | h
    · obtain ⟨p, hp, rfl⟩ := Option.map_eq_some_iff.1 (Option.mem_toList.1 h)
      obtain ⟨line, st⟩ := q
      cases st with
      | participant p' =>
        obtain rfl := Option.some.inj hp
        exact ⟨line, p', List.mem_cons_self, rfl, rfl, rfl, rfl⟩
      | _ => cases hp
    · obtain ⟨line, p, hmem, hd⟩ := ih h
      exact ⟨line, p, List.mem_cons_of_mem _ hmem, hd⟩

theorem exists_mem_declarations {p : Participant} (h : (line, .participant p) ∈ sts) (r : Reader) :
    ∃ d ∈ r.declarations sts, d.line = some line ∧ d.name = p.name := by
  induction sts generalizing r with
  | nil => cases h
  | cons q sts ih =>
    rw [declarations]
    rcases List.mem_cons.1 h with rfl | h
    · exact ⟨_, List.mem_append_left _ (Option.mem_toList.2 rfl), rfl, rfl⟩
    · obtain ⟨d, hd, hline⟩ := ih h (r.step q.1 q.2)
      exact ⟨d, List.mem_append_right _ hd, hline⟩

/-- Where the declarations stand depends on the blocks alone. -/
theorem declarations_congr (h : r.outline = r'.outline) (sts : List (Nat × Statement)) :
    r.declarations sts = r'.declarations sts := by
  induction sts generalizing r r' with
  | nil => rfl
  | cons p sts ih =>
    have hbox : r.declared = r'.declared := by
      funext line d
      rw [declared, declared, box?, box?, (outline_eq_iff.1 h).2.2]
    rw [declarations, declarations, hbox, ih (outline_step h p.1 p.2)]

/-- Without statements that are not about blocks, the other declarations stay. -/
theorem declarations_filter {keep : Nat → Bool}
    (h : ∀ p ∈ sts, keep p.1 = false → p.2.isOnBlocks = false) (r : Reader) :
    r.declarations (sts.filter fun p => keep p.1) =
      (r.declarations sts).filter fun d => d.line.all keep := by
  induction sts generalizing r with
  | nil => rfl
  | cons p sts ih =>
    obtain ⟨hp, hsts⟩ := List.forall_mem_cons.1 h
    rw [declarations, List.filter_append]
    cases hkeep : keep p.1 with
    | true =>
      rw [List.filter_cons_of_pos (by exact hkeep), declarations, ih hsts]
      congr 1
      cases p.2.participant? <;> simp [declared, hkeep]
    | false =>
      have hnone : ((p.2.participant?.map (r.declared p.1)).toList.filter fun d => d.line.all keep) =
          [] := by
        cases p.2.participant? <;> simp [declared, hkeep]
      rw [List.filter_cons_of_neg (by simp [hkeep]), hnone, List.nil_append, ← ih hsts]
      exact declarations_congr (outline_step_of_not (hp hkeep) r p.1).symm _

theorem declarations_moved (f : Nat → Nat) (r : Reader) (sts : List (Nat × Statement)) :
    (r.moved f).declarations (sts.map fun p => (f p.1, p.2)) =
      (r.declarations sts).map (·.moved f) := by
  induction sts generalizing r with
  | nil => rfl
  | cons p sts ih =>
    rw [List.map_cons, declarations, declarations, List.map_append, step_moved, ih]
    congr 1
    cases p.2.participant? <;> rfl

/-! ## All statements -/

/-- The participant `before` after a declaration and a mention of its name: a declaration that is there
stays, and a mention adds to nothing that is there. -/
def settled? (name : Text) (before declaration : Option ParticipantRecord) (named : Bool) :
    Option ParticipantRecord :=
  match before with
  | some p => some (if p.line.isSome then p else declaration.getD p)
  | none => declaration.or (if named then some { name } else none)

theorem settled?_none (name : Text) (before : Option ParticipantRecord) :
    settled? name before none false = before := by
  cases before <;> simp [settled?]

theorem settled?_settled? {before d e : Option ParticipantRecord} {b c : Bool}
    (hd : ∀ p ∈ d, p.line.isSome = true) :
    settled? name (settled? name before d b) e c = settled? name before (d.or e) (b || c) := by
  cases d with
  | none =>
    rcases before with _ | p
    · cases b <;> cases e <;> simp [settled?]
    · cases hp : p.line <;> simp [settled?, hp]
  | some q =>
    have hq := hd q rfl
    rcases before with _ | p
    · simp [settled?, hq]
    · cases hp : p.line <;> simp [settled?, hp, hq]

/-- What a statement does to the participant with this name. -/
theorem participant?_step (r : Reader) (line : Nat) (st : Statement) (name : Text) :
    (r.step line st).view.participant? name =
      settled? name (r.view.participant? name)
        ((st.participant?.map (r.declared line)).toList.find? (·.name = name))
        (st.names.contains name) := by
  cases st with
  | participant d =>
    have hname : ∀ p : ParticipantRecord, (p.declare line r.box? d).name = p.name := by
      intro p
      rw [ParticipantRecord.declare]
      split <;> rfl
    change (r.view.alter d.name _).participant? name = _
    rw [show r.openBlocks.findSome? (·.box?) = r.box? from rfl, View.participant?_alter hname]
    by_cases h : name = d.name
    · subst h
      rw [if_pos rfl]
      cases hp : r.view.participant? d.name with
      | none =>
        simp [settled?, Statement.participant?, declared, ParticipantRecord.declare]
      | some p =>
        have hsame := View.name_of_participant? hp
        cases hline : p.line <;>
          simp [settled?, Statement.participant?, declared, ParticipantRecord.declare, hline, hsame]
    · rw [if_neg h]
      have hnone : (Statement.participant d).names.contains name = false := by
        simp [Statement.names, h]
      simp only [hnone, Statement.participant?, Option.map_some, Option.toList_some, declared]
      rw [List.find?_cons_of_neg (by simpa using Ne.symm h)]
      exact (settled?_none name _).symm
  | message m =>
    have hid : ∀ p : ParticipantRecord, (id p).name = p.name := fun _ => rfl
    change ((r.view.alter m.sender id).alter m.receiver id).participant? name = _
    rw [View.participant?_alter hid, View.participant?_alter hid]
    cases r.view.participant? name with
    | none =>
      simp only [settled?, Statement.participant?, Statement.names, id_eq, Option.getD_none,
        Option.map_none, Option.toList_none, List.find?_nil, Option.none_or, List.contains_cons,
        List.contains_nil, Bool.or_false, Bool.or_eq_true, beq_iff_eq]
      by_cases hr : name = m.receiver
      · rw [if_pos hr, if_pos (show name = m.sender ∨ name = m.receiver from .inr hr)]
        split <;> rfl
      · simp only [hr, if_false, or_false]
    | some p => simp [settled?, Statement.participant?]
  | blockEnd =>
    have hview : (r.step line .blockEnd).view.participants = r.view.participants := by
      rw [step]
      split
      · rfl
      · next block _ _ => cases block <;> rfl
    rw [View.participant?, hview]
    exact (settled?_none name _).symm
  | separator label =>
    have hview : (r.step line (.separator label)).view.participants = r.view.participants := by
      rw [step]
      split <;> rfl
    rw [View.participant?, hview]
    exact (settled?_none name _).symm
  | _ => exact (settled?_none name _).symm

/-- What the statements do to the participant with this name. -/
theorem participant?_run (r : Reader) (sts : List (Nat × Statement)) (name : Text) :
    (r.run sts).view.participant? name =
      settled? name (r.view.participant? name) ((r.declarations sts).find? (·.name = name))
        ((namesOf sts).contains name) := by
  induction sts generalizing r with
  | nil => exact (settled?_none name _).symm
  | cons p sts ih =>
    have hdeclared : ∀ q ∈ (p.2.participant?.map (r.declared p.1)).toList.find? (·.name = name),
        q.line.isSome = true := by
      intro q hq
      obtain ⟨d, -, rfl⟩ := Option.map_eq_some_iff.1 (Option.mem_toList.1 (List.mem_of_find?_eq_some hq))
      rfl
    rw [run_cons, ih, participant?_step, settled?_settled? hdeclared, declarations, List.find?_append,
      namesOf_cons, List.contains_append]

end Reader

/-! ## The participants of a source -/

namespace Reader

/-- A participant is what its first declaration makes it; without one, a message makes it. -/
theorem participant?_run_start (s : Source) (sts : List (Nat × Statement)) (name : Text) :
    ((start s).run sts).view.participant? name =
      (((start s).declarations sts).find? (·.name = name)).or
        (if (namesOf sts).contains name then some { name } else none) :=
  participant?_run (start s) sts name

/-- The participants are those that the statements name. -/
theorem mem_names_run (s : Source) (sts : List (Nat × Statement)) (name : Text) :
    name ∈ ((start s).run sts).view.names ↔ name ∈ namesOf sts := by
  rw [View.mem_names_iff_isSome, participant?_run_start, Option.isSome_or]
  constructor
  · intro h
    rcases Bool.or_eq_true_iff.1 h with h | h
    · obtain ⟨d, hd, hname⟩ := List.find?_isSome.1 h
      obtain ⟨line, p, hmem, -, heq, -⟩ := mem_declarations hd
      refine List.mem_flatMap.2 ⟨_, hmem, ?_⟩
      rw [← of_decide_eq_true hname, heq]
      exact List.mem_singleton_self _
    · by_contra hno
      rw [if_neg (by simpa using hno)] at h
      cases h
  · intro h
    rw [if_pos (by simpa using h)]
    exact Bool.or_true _

end Reader

/-- The declarations of a source. -/
def declarations (s : Source) : List ParticipantRecord :=
  (Reader.start s).declarations (statements s)

theorem View.participant?_ofSource (s : Source) (name : Text) :
    (View.ofSource s).participant? name = ((declarations s).find? (·.name = name)).or
      (if (namesOf (statements s)).contains name then some { name } else none) := by
  rw [View.ofSource_eq_run, Reader.participant?_run_start]
  rfl

/-- A participant with a line is declared there. -/
theorem View.declared_of_line {p : ParticipantRecord} (hp : (View.ofSource s).participant? name = some p)
    (hline : p.line = some line) : (line, .participant ⟨p.name, p.label, p.type⟩) ∈ statements s := by
  rw [View.participant?_ofSource] at hp
  rcases Option.or_eq_some_iff.1 hp with hp | ⟨-, hp⟩
  · obtain ⟨i, q, hmem, hq, hname, hlabel, htype⟩ :=
      Reader.mem_declarations (List.mem_of_find?_eq_some hp)
    obtain rfl := Option.some.inj (hq.symm.trans hline)
    rwa [hname, hlabel, htype]
  · split at hp
    · cases hp
      cases hline
    · cases hp

/-- A participant without a line is one that a message names. -/
theorem View.named_of_line_eq_none {p : ParticipantRecord}
    (hp : (View.ofSource s).participant? name = some p) (hline : p.line = none) : p = { name } ∧
      ∃ line m, (line, .message m) ∈ statements s ∧ (name = m.sender ∨ name = m.receiver) := by
  rw [View.participant?_ofSource] at hp
  rcases Option.or_eq_some_iff.1 hp with hp | ⟨hnone, hp⟩
  · obtain ⟨i, q, -, hq, -⟩ := Reader.mem_declarations (List.mem_of_find?_eq_some hp)
    rw [hline] at hq
    cases hq
  · split at hp
    · next hnamed =>
      obtain ⟨⟨line, st⟩, hst, hname⟩ := List.mem_flatMap.1 (List.contains_iff_mem.1 hnamed)
      refine ⟨(Option.some.inj hp).symm, ?_⟩
      cases st with
      | participant d =>
        obtain ⟨q, hq, -, hqname⟩ := Reader.exists_mem_declarations hst (Reader.start s)
        refine absurd (hqname.trans (List.mem_singleton.1 hname).symm) ?_
        simpa using List.find?_eq_none.1 hnone q hq
      | message m => exact ⟨line, m, hst, List.mem_pair.1 hname⟩
      | _ => cases hname
    · cases hp

theorem View.mem_names_iff : name ∈ (View.ofSource s).names ↔ name ∈ namesOf (statements s) := by
  rw [View.ofSource_eq_run, Reader.mem_names_run]

end DiagramEditor.Sequence
