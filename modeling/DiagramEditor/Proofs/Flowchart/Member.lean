import DiagramEditor.Proofs.Flowchart.Extent
import DiagramEditor.Proofs.Flowchart.Inlay
import DiagramEditor.Proofs.Flowchart.Place
import DiagramEditor.Proofs.Flowchart.Split

/-!
# Places without positions

Where a node is mentioned depends on the order of the statements only, not on their lines: while they
are read, a stack of names says which subgraphs are open (`Statement.openBehind`). So the places of the
nodes can be read off the statements alone (`placesIn`), and with them the subgraph of each node
(`View.subgraph_eq_firstPlace_placesIn`) and the members of each subgraph (`View.isMember_iff`).
Statements that neither open nor close a subgraph may come and go, and the places of all others stay
(`openAfter_filter`).
-/

namespace DiagramEditor.Flowchart

open Source

variable {s : Source} {r : Reader} {v : View} {st : Statement} {sts more : List Statement}
  {outer : List Text} {id name : Text} {c : Option Text} {line i : Nat}

/-! ## The open subgraphs -/

/-- The ids of the subgraphs that are open behind the statement, the innermost first. -/
def Statement.openBehind (outer : List Text) : Statement → List Text
  | subgraphOpen header => header.id :: outer
  | blockEnd => outer.tail
  | _ => outer

/-- The ids of the subgraphs that are open behind the statements. -/
def openAfter (outer : List Text) (sts : List Statement) : List Text :=
  sts.foldl (fun outer st => st.openBehind outer) outer

theorem openAfter_cons (outer : List Text) (st : Statement) (sts : List Statement) :
    openAfter outer (st :: sts) = openAfter (st.openBehind outer) sts := rfl

theorem openAfter_append (outer : List Text) (sts more : List Statement) :
    openAfter outer (sts ++ more) = openAfter (openAfter outer sts) more :=
  List.foldl_append ..

theorem Statement.openBehind_of_stay (h : st.blockStep = .stay) (outer : List Text) :
    st.openBehind outer = outer := by
  cases st with
  | subgraphOpen header => cases h
  | blockEnd => cases h
  | _ => rfl

theorem openAfter_of_stay (h : ∀ st ∈ sts, st.blockStep = .stay) (outer : List Text) :
    openAfter outer sts = outer := by
  induction sts with
  | nil => rfl
  | cons st sts ih =>
    obtain ⟨hst, hsts⟩ := List.forall_mem_cons.1 h
    rw [openAfter_cons, Statement.openBehind_of_stay hst, ih hsts]

/-! ## Places -/

/-- The ids that the statements mention, each with the subgraph that it is mentioned in. -/
def placesIn (outer : List Text) : List Statement → List (Text × Option Text)
  | [] => []
  | st :: sts => (st.tokens.map fun t => (t.id, outer.head?)) ++ placesIn (st.openBehind outer) sts

theorem placesIn_append (outer : List Text) (sts more : List Statement) :
    placesIn outer (sts ++ more) = placesIn outer sts ++ placesIn (openAfter outer sts) more := by
  induction sts generalizing outer with
  | nil => rfl
  | cons st sts ih =>
    rw [List.cons_append, placesIn, placesIn, ih, List.append_assoc]
    rfl

theorem Statement.mem_map_tokens_iff : (id, c) ∈ st.tokens.map (fun t => (t.id, outer.head?)) ↔
    id ∈ st.tokens.map (·.id) ∧ outer.head? = c := by
  rw [List.mem_map, List.mem_map]
  constructor
  · rintro ⟨t, ht, heq⟩
    obtain ⟨rfl, rfl⟩ := Prod.mk.inj heq
    exact ⟨⟨t, ht, rfl⟩, rfl⟩
  · rintro ⟨⟨t, ht, rfl⟩, rfl⟩
    exact ⟨t, ht, rfl⟩

theorem mem_placesIn_cons : (id, c) ∈ placesIn outer (st :: sts) ↔
    (id ∈ st.tokens.map (·.id) ∧ outer.head? = c) ∨ (id, c) ∈ placesIn (st.openBehind outer) sts := by
  rw [placesIn, List.mem_append, Statement.mem_map_tokens_iff]

theorem mem_placesIn_iff : (id, c) ∈ placesIn outer sts ↔ ∃ before st after,
    sts = before ++ st :: after ∧ id ∈ st.tokens.map (·.id) ∧ (openAfter outer before).head? = c := by
  induction sts generalizing outer with
  | nil => simp [placesIn]
  | cons st sts ih =>
    rw [mem_placesIn_cons, ih]
    constructor
    · rintro (h | ⟨before, st', after, rfl, h⟩)
      exacts [⟨[], st, sts, rfl, h⟩, ⟨st :: before, st', after, rfl, h⟩]
    · rintro ⟨_ | ⟨first, before⟩, st', after, heq, h⟩
      · obtain ⟨rfl, rfl⟩ := List.cons.inj heq
        exact .inl h
      · obtain ⟨rfl, rfl⟩ := List.cons.inj heq
        exact .inr ⟨before, st', after, rfl, h⟩

theorem map_fst_placesIn (outer : List Text) (sts : List Statement) :
    (placesIn outer sts).map Prod.fst = tokenIds sts := by
  induction sts generalizing outer with
  | nil => rfl
  | cons st sts ih =>
    rw [placesIn, List.map_append, ih, List.map_map, tokenIds, tokenIds, List.flatMap_cons,
      List.map_append]
    rfl

/-! ## Statements that come and go -/

theorem openAfter_insert {before after : List Statement} (hst : st.blockStep = .stay) :
    openAfter outer (before ++ st :: after) = openAfter outer (before ++ after) := by
  rw [openAfter_append, openAfter_append, openAfter_cons, Statement.openBehind_of_stay hst]

/-- A statement that neither opens nor closes a subgraph has places of its own and leaves those of all
others. -/
theorem mem_placesIn_insert {before after : List Statement} (hst : st.blockStep = .stay) :
    (id, c) ∈ placesIn outer (before ++ st :: after) ↔ (id, c) ∈ placesIn outer (before ++ after) ∨
      id ∈ st.tokens.map (·.id) ∧ (openAfter outer before).head? = c := by
  rw [placesIn_append, placesIn_append, List.mem_append, List.mem_append, mem_placesIn_cons,
    Statement.openBehind_of_stay hst, or_left_comm, or_comm]

section Filter

variable {numbered : List (Nat × Statement)} {keep : Nat × Statement → Bool}
  (hkeep : ∀ p ∈ numbered, keep p = false → p.2.blockStep = .stay)

include hkeep

theorem openAfter_filter : openAfter outer ((numbered.filter keep).map Prod.snd) =
    openAfter outer (numbered.map Prod.snd) := by
  induction numbered generalizing outer with
  | nil => rfl
  | cons p rest ih =>
    obtain ⟨hp, hrest⟩ := List.forall_mem_cons.1 hkeep
    cases h : keep p with
    | true => rw [List.filter_cons_of_pos h, List.map_cons, List.map_cons, openAfter_cons, ih hrest]; rfl
    | false =>
      rw [List.filter_cons_of_neg (by simp [h]), ih hrest, List.map_cons, openAfter_cons,
        Statement.openBehind_of_stay (hp h)]

/-- What is left has the places that it had. -/
theorem mem_placesIn_filter : (id, c) ∈ placesIn outer ((numbered.filter keep).map Prod.snd) ↔
    ∃ before p after, numbered = before ++ p :: after ∧ keep p = true ∧
      id ∈ p.2.tokens.map (·.id) ∧ (openAfter outer (before.map Prod.snd)).head? = c := by
  induction numbered generalizing outer with
  | nil => simp [placesIn]
  | cons first rest ih =>
    obtain ⟨hfirst, hrest⟩ := List.forall_mem_cons.1 hkeep
    -- A place is one of the first statement, or one of the others.
    have hcons : (∃ before p after, first :: rest = before ++ p :: after ∧ keep p = true ∧
          id ∈ p.2.tokens.map (·.id) ∧ (openAfter outer (before.map Prod.snd)).head? = c) ↔
        (keep first = true ∧ id ∈ first.2.tokens.map (·.id) ∧ outer.head? = c) ∨
          (id, c) ∈ placesIn (first.2.openBehind outer) ((rest.filter keep).map Prod.snd) := by
      rw [ih hrest]
      constructor
      · rintro ⟨_ | ⟨q, before⟩, p, after, heq, h⟩
        · obtain ⟨rfl, rfl⟩ := List.cons.inj heq
          exact .inl h
        · obtain ⟨rfl, rfl⟩ := List.cons.inj heq
          exact .inr ⟨before, p, after, rfl, h⟩
      · rintro (h | ⟨before, p, after, rfl, h⟩)
        exacts [⟨[], first, rest, rfl, h⟩, ⟨first :: before, p, after, rfl, h⟩]
    rw [hcons]
    cases h : keep first with
    | true =>
      rw [List.filter_cons_of_pos h, List.map_cons, mem_placesIn_cons]
      simp
    | false =>
      rw [List.filter_cons_of_neg (by simp [h]), Statement.openBehind_of_stay (hfirst h)]
      simp

omit hkeep in
/-- Statements that mention other nodes may go. -/
theorem firstPlace_placesIn_filter (hgone : ∀ p ∈ numbered, keep p = false →
    p.2.blockStep = .stay ∧ id ∉ p.2.tokens.map (·.id)) :
    firstPlace id (placesIn outer ((numbered.filter keep).map Prod.snd)) =
      firstPlace id (placesIn outer (numbered.map Prod.snd)) := by
  induction numbered generalizing outer with
  | nil => rfl
  | cons p rest ih =>
    obtain ⟨hp, hrest⟩ := List.forall_mem_cons.1 hgone
    cases h : keep p with
    | true =>
      rw [List.filter_cons_of_pos h, List.map_cons, List.map_cons, placesIn, placesIn, firstPlace_append,
        firstPlace_append, ih hrest]
    | false =>
      obtain ⟨hstay, hid⟩ := hp h
      have hnone : firstPlace id (p.2.tokens.map fun t => (t.id, outer.head?)) = none := by
        refine firstPlace_eq_none ?_
        rintro _ hq rfl
        obtain ⟨t, ht, rfl⟩ := List.mem_map.1 hq
        exact hid (List.mem_map_of_mem ht)
      rw [List.filter_cons_of_neg (by simp [h]), ih hrest, List.map_cons, placesIn, firstPlace_append,
        hnone, Option.none_or, Statement.openBehind_of_stay hstay]

end Filter

/-- Directives may be exchanged for others. -/
theorem placesIn_congr {sts' : List Statement}
    (h : List.Forall₂ (fun st st' => st' = st ∨ st.IsDirective ∧ st'.IsDirective) sts sts') :
    placesIn outer sts' = placesIn outer sts ∧ openAfter outer sts' = openAfter outer sts := by
  induction h generalizing outer with
  | nil => exact ⟨rfl, rfl⟩
  | @cons st st' sts sts' hst _ ih =>
    have hsame : st'.tokens = st.tokens ∧ st'.openBehind outer = st.openBehind outer := by
      rcases hst with rfl | ⟨hst, hst'⟩
      · exact ⟨rfl, rfl⟩
      · cases st <;> cases hst <;> cases st' <;> cases hst' <;> exact ⟨rfl, rfl⟩
    rw [placesIn, placesIn, openAfter_cons, openAfter_cons, hsame.1, hsame.2, ih.1, ih.2]
    exact ⟨rfl, rfl⟩

/-! ## Places of a reading -/

/-- The open subgraphs of the reader are these, the innermost first. -/
def Reader.HasOpen (outer : List Text) (r : Reader) : Prop :=
  r.openBlocks.map (r.view.subgraphIds[·]?) = outer.map some

namespace Reader.HasOpen

theorem container? (h : r.HasOpen outer) : r.container? = outer.head? := by
  rw [Reader.container?]
  simp only [← List.getElem?_map]
  rw [HasOpen] at h
  cases hopen : r.openBlocks with
  | nil =>
    rw [hopen, List.map_nil, eq_comm, List.map_eq_nil_iff] at h
    rw [h]
    rfl
  | cons i blocks =>
    rw [hopen] at h
    cases outer with
    | nil => cases h
    | cons id outer => exact (List.cons.inj h).1

theorem step (h : r.HasOpen outer) (line : Nat) (st : Statement) :
    (r.step line st).HasOpen (st.openBehind outer) := by
  rw [HasOpen, View.subgraphIds_step, openBlocks_step]
  -- The subgraphs that are open are found where they were.
  have hold : r.openBlocks.map ((r.view.subgraphIds ++ st.subgraph?.toList)[·]?) = outer.map some := by
    rw [← h]
    refine List.map_congr_left fun i hi => List.getElem?_append_left ?_
    have hmem : r.view.subgraphIds[i]? ∈ outer.map some := h ▸ List.mem_map_of_mem hi
    obtain ⟨id, -, hid⟩ := List.mem_map.1 hmem
    exact (List.getElem?_eq_some_iff.1 hid.symm).1
  cases st with
  | subgraphOpen header =>
    refine List.cons_eq_cons.2 ⟨?_, hold⟩
    rw [show r.view.subgraphs.length = r.view.subgraphIds.length from (List.length_map _).symm]
    simp [Statement.subgraph?]
  | blockEnd =>
    change r.openBlocks.tail.map _ = outer.tail.map some
    rw [List.map_tail, List.map_tail, hold]
  | _ => exact hold

theorem readAll (h : r.HasOpen outer) (sts : List (Nat × Statement)) :
    (r.readAll sts).HasOpen (openAfter outer (sts.map Prod.snd)) := by
  induction sts generalizing r outer with
  | nil => exact h
  | cons p sts ih => exact ih (h.step p.1 p.2)

theorem places (h : r.HasOpen outer) (sts : List (Nat × Statement)) :
    r.places sts = placesIn outer (sts.map Prod.snd) := by
  induction sts generalizing r outer with
  | nil => rfl
  | cons p sts ih =>
    rw [Reader.places, List.map_cons, placesIn, ih (h.step p.1 p.2), h.container?]

end Reader.HasOpen

theorem Reader.hasOpen_start (s : Source) : (Reader.start s).HasOpen [] := rfl

/-- A node belongs to the first subgraph in which it is mentioned. -/
theorem View.subgraph_eq_firstPlace_placesIn {n : NodeRecord} (hn : n ∈ (View.ofSource s).nodes) :
    n.subgraph = firstPlace n.id (placesIn [] ((statements s).map Prod.snd)) := by
  rw [subgraph_eq_firstPlace hn, (Reader.hasOpen_start s).places]

/-! ## Members -/

theorem mem_modify_iff {α : Type} {f : α → α} {l : List α} {a : α} :
    a ∈ l.modify i f ↔ ∃ (j : Nat) (b : α), l[j]? = some b ∧ a = if i = j then f b else b := by
  rw [List.mem_iff_getElem?]
  refine exists_congr fun j => ?_
  rw [List.getElem?_modify, Option.map_eq_map, Option.map_eq_some_iff]
  exact exists_congr fun b => and_congr Iff.rfl eq_comm

namespace SubgraphRecord

variable {g : SubgraphRecord} {ids : List Text}

theorem mem_addMember : name ∈ (g.addMember id).members ↔ name ∈ g.members ∨ name = id := by
  rw [addMember]
  split
  · next h =>
    refine ⟨.inl, fun hname => hname.elim (fun h => h) ?_⟩
    rintro rfl
    exact List.contains_iff_mem.1 h
  · simp

theorem mem_addMembers : name ∈ (g.addMembers ids).members ↔ name ∈ g.members ∨ name ∈ ids := by
  induction ids generalizing g with
  | nil => simp [addMembers]
  | cons x ids ih =>
    rw [show g.addMembers (x :: ids) = (g.addMember x).addMembers ids from rfl, ih, mem_addMember,
      List.mem_cons, or_assoc]

theorem id_addMembers : (g.addMembers ids).id = g.id := by
  induction ids generalizing g with
  | nil => rfl
  | cons x ids ih =>
    rw [show g.addMembers (x :: ids) = (g.addMember x).addMembers ids from rfl, ih, addMember]
    split <;> rfl

end SubgraphRecord

/-- A subgraph with the id `name` has the node `id` as a member. -/
def View.IsMember (name id : Text) (v : View) : Prop :=
  ∃ g ∈ v.subgraphs, g.id = name ∧ id ∈ g.members

theorem View.IsMember.mem_subgraphIds (h : v.IsMember name id) : name ∈ v.subgraphIds := by
  obtain ⟨g, hg, rfl, -⟩ := h
  exact List.mem_map_of_mem hg

/-- Who is a member of the first subgraph with this id is a member. -/
theorem View.isMember_of_subgraph? (hname : name ∈ v.subgraphIds)
    (h : ∀ g, v.subgraph? name = some g → id ∈ g.members) : v.IsMember name id := by
  obtain ⟨g, hg, rfl⟩ := List.mem_map.1 hname
  have hsome : (v.subgraph? g.id).isSome := List.find?_isSome.2 ⟨g, hg, by simp⟩
  obtain ⟨first, hfirst⟩ := Option.isSome_iff_exists.1 hsome
  exact ⟨first, List.mem_of_find?_eq_some hfirst, by simpa using List.find?_some hfirst,
    h first hfirst⟩

/-- What makes members of the innermost open subgraph. -/
theorem Reader.exists_mem_alterInnermost {f : SubgraphRecord → SubgraphRecord} {P : Prop}
    (hid : ∀ g, (f g).id = g.id) (hmembers : ∀ g, id ∈ (f g).members ↔ id ∈ g.members ∨ P) :
    (∃ g ∈ r.alterInnermost f, g.id = name ∧ id ∈ g.members) ↔
      r.view.IsMember name id ∨ P ∧ r.container? = some name := by
  rw [View.IsMember, Reader.container?]
  cases hopen : r.openBlocks with
  | nil =>
    rw [alterInnermost_nil hopen]
    simp
  | cons i blocks =>
    rw [alterInnermost_cons hopen, List.head?_cons, Option.bind_some, Option.map_eq_some_iff]
    constructor
    · rintro ⟨_, hg, hname, hmem⟩
      obtain ⟨j, g, hj, rfl⟩ := mem_modify_iff.1 hg
      by_cases hij : i = j
      · rw [if_pos hij] at hname hmem
        subst hij
        rw [hid] at hname
        rcases (hmembers g).1 hmem with hmem | hP
        exacts [.inl ⟨g, List.mem_of_getElem? hj, hname, hmem⟩, .inr ⟨hP, g, hj, hname⟩]
      · rw [if_neg hij] at hname hmem
        exact .inl ⟨g, List.mem_of_getElem? hj, hname, hmem⟩
    · rintro (⟨g, hg, hname, hmem⟩ | ⟨hP, g, hg, hname⟩)
      · obtain ⟨j, hj⟩ := List.getElem?_of_mem hg
        refine ⟨_, mem_modify_iff.2 ⟨j, g, hj, rfl⟩, ?_, ?_⟩
        · split
          exacts [(hid g).trans hname, hname]
        · split
          exacts [(hmembers g).2 (.inl hmem), hmem]
      · exact ⟨f g, mem_modify_iff.2 ⟨i, g, hg, by rw [if_pos rfl]⟩, (hid g).trans hname,
          (hmembers g).2 (.inr hP)⟩

namespace Reader

/-- A statement makes members of what it mentions, in the innermost open subgraph. -/
theorem isMember_step : (r.step line st).view.IsMember name id ↔
    r.view.IsMember name id ∨ id ∈ st.tokens.map (·.id) ∧ r.container? = some name := by
  cases hst : st.blockStep with
  | enter =>
    obtain ⟨header, rfl⟩ := Statement.exists_header hst
    simp [View.IsMember, step, Statement.tokens, or_and_right, exists_or]
  | leave =>
    obtain rfl := Statement.eq_blockEnd hst
    rw [View.IsMember, subgraphs_step_blockEnd]
    exact exists_mem_alterInnermost (fun _ => rfl) fun g => by
      simp [SubgraphRecord.closeAt, Statement.tokens]
  | stay =>
    rw [View.IsMember, subgraphs_step_of_stay hst]
    exact exists_mem_alterInnermost (fun _ => SubgraphRecord.id_addMembers) fun _ =>
      SubgraphRecord.mem_addMembers

theorem isMember_readAll (sts : List (Nat × Statement)) : (r.readAll sts).view.IsMember name id ↔
    r.view.IsMember name id ∨ (id, some name) ∈ r.places sts := by
  induction sts generalizing r with
  | nil => simp [places]
  | cons p sts ih =>
    have hplace : (id, some name) ∈ p.2.tokens.map (fun t => (t.id, r.container?)) ↔
        id ∈ p.2.tokens.map (·.id) ∧ r.container? = some name := by
      simp only [List.mem_map, Prod.mk.injEq, exists_and_right, ← and_assoc]
    rw [readAll_cons, ih, isMember_step, places, List.mem_append, or_assoc, hplace]

theorem isMember_closeAt : (closeAt i line v).IsMember name id ↔ v.IsMember name id := by
  have hmap : ∀ v : View, v.IsMember name id ↔
      ∃ p ∈ v.subgraphs.map fun g => (g.id, g.members), p.1 = name ∧ id ∈ p.2 := fun v => by
    simp [View.IsMember]
  have hsame : (closeAt i line v).subgraphs.map (fun g => (g.id, g.members)) =
      v.subgraphs.map fun g => (g.id, g.members) :=
    map_modify_of_eq (f := (·.closeAt line)) (g := fun g => (g.id, g.members)) (fun _ => rfl) i
      v.subgraphs
  rw [hmap, hmap, hsame]

end Reader

namespace View

theorem isMember_dropSubgraphIds : v.dropSubgraphIds.IsMember name id ↔
    v.IsMember name id ∧ id ∉ v.subgraphIds := by
  constructor
  · rintro ⟨_, hg, hname, hmem⟩
    obtain ⟨g, hg', rfl⟩ := List.mem_map.1 hg
    obtain ⟨hmem, hnot⟩ := List.mem_filter.1 hmem
    exact ⟨⟨g, hg', hname, hmem⟩, by simpa [subgraphIds] using hnot⟩
  · rintro ⟨⟨g, hg, hname, hmem⟩, hnot⟩
    refine ⟨_, List.mem_map_of_mem hg, hname, List.mem_filter.2 ⟨hmem, ?_⟩⟩
    simpa [subgraphIds] using hnot

theorem isMember_finish (length : Nat) (r : Reader) : (r.finish length).IsMember name id ↔
    r.view.IsMember name id ∧ id ∉ (r.finish length).subgraphIds := by
  have hclose : ∀ (is : List Nat) (v : View),
      ((is.foldl (fun v i => Reader.closeAt i (length - 1) v) v).IsMember name id ↔
        v.IsMember name id) ∧
      (is.foldl (fun v i => Reader.closeAt i (length - 1) v) v).subgraphIds = v.subgraphIds := by
    intro is
    induction is with
    | nil => exact fun _ => ⟨Iff.rfl, rfl⟩
    | cons i is ih =>
      exact fun v => ⟨(ih _).1.trans Reader.isMember_closeAt,
        (ih _).2.trans (subgraphIds_closeAt i _ v)⟩
  rw [subgraphIds_finish, Reader.finish, isMember_dropSubgraphIds, (hclose _ _).1, (hclose _ _).2]

/-- The members of a subgraph are the nodes that are mentioned while it is the innermost open one. -/
theorem isMember_iff : (View.ofSource s).IsMember name id ↔
    (id, some name) ∈ placesIn [] ((statements s).map Prod.snd) ∧
      id ∉ (View.ofSource s).subgraphIds := by
  rw [ofSource_eq, isMember_finish, Reader.isMember_readAll, (Reader.hasOpen_start s).places]
  refine and_congr (or_iff_right ?_) Iff.rfl
  rintro ⟨g, hg, -⟩
  cases hg

theorem IsMember.mem_tokenIds (h : (View.ofSource s).IsMember name id) :
    id ∈ tokenIds ((statements s).map Prod.snd) := by
  rw [← map_fst_placesIn []]
  exact List.mem_map_of_mem (isMember_iff.1 h).1

end View

/-! ## Ends -/

namespace SubgraphRecord

theorem span_addMembers {g : SubgraphRecord} {ids : List Text} : (g.addMembers ids).span = g.span := by
  induction ids generalizing g with
  | nil => rfl
  | cons x ids ih =>
    rw [show g.addMembers (x :: ids) = (g.addMember x).addMembers ids from rfl, ih, addMember]
    split <;> rfl

end SubgraphRecord

/-- A block ends on the line `stop`, and the subgraph `name` is the innermost open one in front of it,
where those in `outer` are open at first. -/
def EndsAt (outer : List Text) (stop : Nat) (name : Text) (sts : List (Nat × Statement)) : Prop :=
  ∃ before after, sts = before ++ (stop, .blockEnd) :: after ∧
    (openAfter outer (before.map Prod.snd)).head? = some name

theorem EndsAt.append {stop : Nat} {sts : List (Nat × Statement)} (h : EndsAt outer stop name sts)
    (more : List (Nat × Statement)) : EndsAt outer stop name (sts ++ more) := by
  obtain ⟨before, after, rfl, hopen⟩ := h
  exact ⟨before, after ++ more, by simp, hopen⟩

namespace Reader

/-- Of the subgraphs that satisfy `P`, those that are not open any more have ended on the statements. -/
def HasEnded (P : Nat → Prop) (outer : List Text) (sts : List (Nat × Statement)) (r : Reader) : Prop :=
  ∀ j g, P j → r.view.subgraphs[j]? = some g → j ∈ r.openBlocks ∨ EndsAt outer g.span.stop g.id sts

variable {P : Nat → Prop}

theorem HasEnded.step {sts : List (Nat × Statement)} (h : r.HasEnded P outer sts)
    (hopen : r.HasOpen (openAfter outer (sts.map Prod.snd))) (line : Nat) (st : Statement) :
    (r.step line st).HasEnded P outer (sts ++ [(line, st)]) := by
  intro j g hP hj
  rw [openBlocks_step]
  cases hst : st.blockStep with
  | enter =>
    obtain ⟨header, rfl⟩ := Statement.exists_header hst
    change (r.view.subgraphs ++ [_])[j]? = some g at hj
    rcases Nat.lt_or_ge j r.view.subgraphs.length with hlt | hge
    · rw [List.getElem?_append_left hlt] at hj
      exact (h j g hP hj).imp (List.mem_cons_of_mem _) (·.append _)
    · have hlt := (List.getElem?_eq_some_iff.1 hj).1
      rw [List.length_append, List.length_singleton] at hlt
      exact .inl (List.mem_cons.2 (.inl (by omega)))
  | leave =>
    obtain rfl := Statement.eq_blockEnd hst
    rw [subgraphs_step_blockEnd] at hj
    cases hblocks : r.openBlocks with
    | nil =>
      rw [alterInnermost_nil hblocks] at hj
      have hended := h j g hP hj
      rw [hblocks] at hended
      exact hended.imp_right (·.append _)
    | cons i blocks =>
      rw [alterInnermost_cons hblocks, List.getElem?_modify] at hj
      obtain ⟨g₀, hg₀, rfl⟩ := Option.map_eq_some_iff.1 hj
      by_cases hij : i = j
      · -- This is the subgraph that the line closes.
        subst hij
        refine .inr ⟨sts, [], by simp [SubgraphRecord.closeAt], ?_⟩
        rw [← hopen.container?, container?, hblocks]
        simp [hg₀, SubgraphRecord.closeAt]
      · rw [if_neg hij]
        have hended := h j g₀ hP hg₀
        rw [hblocks] at hended
        refine hended.imp (fun hmem => ?_) (·.append _)
        exact (List.mem_cons.1 hmem).resolve_left fun heq => hij heq.symm
  | stay =>
    rw [subgraphs_step_of_stay hst] at hj
    cases hblocks : r.openBlocks with
    | nil =>
      rw [alterInnermost_nil hblocks] at hj
      have hended := h j g hP hj
      rw [hblocks] at hended
      exact hended.imp_right (·.append _)
    | cons i blocks =>
      rw [alterInnermost_cons hblocks, List.getElem?_modify] at hj
      obtain ⟨g₀, hg₀, rfl⟩ := Option.map_eq_some_iff.1 hj
      have hended := h j g₀ hP hg₀
      rw [hblocks] at hended
      refine hended.imp id fun hended => ?_
      split
      · rw [SubgraphRecord.id_addMembers, SubgraphRecord.span_addMembers]
        exact hended.append _
      · exact hended.append _

theorem HasEnded.readAll {done : List (Nat × Statement)} (h : r.HasEnded P outer done)
    (hopen : r.HasOpen (openAfter outer (done.map Prod.snd))) (sts : List (Nat × Statement)) :
    (r.readAll sts).HasEnded P outer (done ++ sts) := by
  induction sts generalizing r done with
  | nil =>
    rw [List.append_nil]
    exact h
  | cons p sts ih =>
    have hnext := hopen.step p.1 p.2
    rw [List.append_cons]
    refine ih (h.step hopen p.1 p.2) ?_
    rw [List.map_append, openAfter_append]
    exact hnext

theorem hasEnded_readAll (s : Source) (sts : List (Nat × Statement)) :
    ((start s).readAll sts).HasEnded (fun _ => True) [] sts := by
  have hstart : (start s).HasEnded (fun _ => True) [] [] := fun j g _ hj => by cases hj
  exact hstart.readAll (hasOpen_start s) sts

end Reader

/-- Every subgraph that the source opens is closed below. -/
def ClosesAll (s : Source) : Prop :=
  openAfter [] ((statements s).map Prod.snd) = []

theorem ClosesAll.openBlocks_eq_nil (h : ClosesAll s) :
    ((Reader.start s).readAll (statements s)).openBlocks = [] := by
  have hopen := (Reader.hasOpen_start s).readAll (statements s)
  rw [show openAfter [] ((statements s).map Prod.snd) = [] from h] at hopen
  exact List.map_eq_nil_iff.1 hopen

/-- Each subgraph ends where it is the innermost open one. -/
theorem ClosesAll.endsAt (h : ClosesAll s) {g : SubgraphRecord} (hg : g ∈ (View.ofSource s).subgraphs) :
    EndsAt [] g.span.stop g.id (statements s) := by
  have hread := Reader.hasEnded_readAll s (statements s)
  rw [View.ofSource_eq, Reader.finish, h.openBlocks_eq_nil, List.foldl_nil] at hg
  obtain ⟨g₀, hg₀, rfl⟩ := List.mem_map.1 hg
  obtain ⟨j, hj⟩ := List.getElem?_of_mem hg₀
  refine (hread j g₀ trivial hj).resolve_left ?_
  rw [h.openBlocks_eq_nil]
  exact List.not_mem_nil

theorem closesAll_of_checkBalance {front body : List Text} {text : Text}
    (h : IsDeclared .flowchart front text body s) (hbalance : s.checkBalance blockRules = .ok ())
    (hlines : ∀ text ∈ s.lines, SubgraphHeader.IsUniform text) : ClosesAll s := by
  have hopen := (Reader.hasOpen_start s).readAll (statements s)
  have hnil : ((Reader.start s).readAll (statements s)).openBlocks = [] :=
    List.map_eq_nil_iff.1 (follows_statements h hbalance hlines).openBlocks
  rw [Reader.HasOpen, hnil] at hopen
  exact List.map_eq_nil_iff.1 hopen.symm

end DiagramEditor.Flowchart
