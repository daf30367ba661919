import DiagramEditor.Proofs.Flowchart.View

/-!
# The subgraph of a node

A node is mentioned in the innermost subgraph that is open there (`Reader.container?`). The mentions
of all nodes with these subgraphs are the places of a reading (`Reader.places`), and a node belongs to
the first subgraph among its places (`View.subgraph_eq_firstPlace`).
-/

namespace DiagramEditor.Flowchart

variable {id : Text} {r : Reader} {v : View} {name : Option Text}
  {ps qs : List (Text × Option Text)} {container : Option Nat}

/-- The first subgraph in which a node is mentioned. -/
def firstPlace (id : Text) (ps : List (Text × Option Text)) : Option Text :=
  (ps.filter (·.1 = id)).findSome? (·.2)

theorem firstPlace_append (id : Text) (ps qs : List (Text × Option Text)) :
    firstPlace id (ps ++ qs) = (firstPlace id ps).or (firstPlace id qs) := by
  rw [firstPlace, List.filter_append, List.findSome?_append]
  rfl

theorem firstPlace_eq_none (h : ∀ p ∈ ps, p.1 ≠ id) : firstPlace id ps = none := by
  have hnil : ps.filter (·.1 = id) = [] := List.filter_eq_nil_iff.2 fun p hp => by simpa using h p hp
  rw [firstPlace, hnil, List.findSome?_nil]

theorem firstPlace_singleton_self (id : Text) (name : Option Text) :
    firstPlace id [(id, name)] = name := by
  cases name <;> simp [firstPlace]

/-- Where `x` alone has the image `y`, the first place of `y` is the image of that of `x`. -/
theorem firstPlace_map {ρ : Text → Text} {x y : Text}
    (h : ∀ p ∈ ps, ρ p.1 = y ↔ p.1 = x) :
    firstPlace y (ps.map fun p => (ρ p.1, p.2.map ρ)) = (firstPlace x ps).map ρ := by
  have hfilter : (ps.filter fun p => ρ p.1 = y) = ps.filter fun p => p.1 = x :=
    List.filter_congr fun p hp => decide_eq_decide.2 (h p hp)
  rw [firstPlace, firstPlace, List.filter_map, ← hfilter, List.findSome?_map]
  exact List.map_findSome?.symm

namespace Reader

/-- The id of the innermost open subgraph. -/
def container? (r : Reader) : Option Text :=
  r.openBlocks.head?.bind fun i => (r.view.subgraphs[i]?).map (·.id)

/-- The nodes that the statements mention, each with the subgraph in which it is mentioned. -/
def places (r : Reader) : List (Nat × Statement) → List (Text × Option Text)
  | [] => []
  | (line, st) :: sts =>
    (st.tokens.map fun t => (t.id, r.container?)) ++ (r.step line st).places sts

theorem places_append (r : Reader) (sts more : List (Nat × Statement)) :
    r.places (sts ++ more) = r.places sts ++ (r.readAll sts).places more := by
  induction sts generalizing r with
  | nil => rfl
  | cons p sts ih =>
    obtain ⟨line, st⟩ := p
    rw [List.cons_append, places, ih, places, List.append_assoc]
    rfl

theorem map_fst_places (r : Reader) (sts : List (Nat × Statement)) :
    (r.places sts).map Prod.fst = (sts.flatMap fun p => p.2.tokens).map (·.id) := by
  induction sts generalizing r with
  | nil => rfl
  | cons p sts ih =>
    rw [places, List.map_append, ih, List.flatMap_cons, List.map_append, List.map_map]
    rfl

end Reader

namespace View

/-- Each node belongs to the first subgraph among its places. -/
structure IsPlaced (nodes : List NodeRecord) (ps : List (Text × Option Text)) : Prop where
  nodup : (nodes.map (·.id)).Nodup
  complete : ∀ p ∈ ps, ∃ n ∈ nodes, n.id = p.1
  subgraph : ∀ n ∈ nodes, n.subgraph = firstPlace n.id ps

namespace IsPlaced

/-- One more mention is one more place. -/
theorem alterNode {nodes : List NodeRecord} (h : IsPlaced nodes ps) (m : Mention) (t : NodeToken)
    (name : Option Text) :
    IsPlaced (View.alterNode t.id (·.addMention m t name) nodes) (ps ++ [(t.id, name)]) := by
  have hids : (View.alterNode t.id (·.addMention m t name) nodes).map (·.id) =
      if t.id ∈ nodes.map (·.id) then nodes.map (·.id) else nodes.map (·.id) ++ [t.id] :=
    map_id_alterNode (f := (·.addMention m t name)) (fun _ => rfl) nodes
  have hother : ∀ {id : Text}, id ≠ t.id → firstPlace id (ps ++ [(t.id, name)]) = firstPlace id ps := by
    intro id hne
    rw [firstPlace_append, firstPlace_eq_none (List.forall_mem_singleton.2 (Ne.symm hne)),
      Option.or_none]
  have hsame : firstPlace t.id (ps ++ [(t.id, name)]) = (firstPlace t.id ps).or name := by
    rw [firstPlace_append, firstPlace_singleton_self]
  refine ⟨?_, fun p hp => ?_, fun n hn => ?_⟩
  · rw [hids]
    split
    · exact h.nodup
    · next hno => exact List.nodup_append.2 ⟨h.nodup, by simp, by simpa using hno⟩
  · have hmem : p.1 ∈ (View.alterNode t.id (·.addMention m t name) nodes).map (·.id) := by
      rw [hids]
      rcases List.mem_append.1 hp with hp | hp
      · obtain ⟨n, hn, hid⟩ := h.complete p hp
        have hold := List.mem_map.2 ⟨n, hn, hid⟩
        split
        exacts [hold, List.mem_append_left _ hold]
      · rw [List.mem_singleton.1 hp]
        split
        exacts [‹_›, List.mem_append_right _ (List.mem_singleton.2 rfl)]
    obtain ⟨n, hn, hid⟩ := List.mem_map.1 hmem
    exact ⟨n, hn, hid⟩
  · rcases mem_alterNode h.nodup hn with ⟨hn, hne⟩ | ⟨n', hn', hid, rfl⟩ | ⟨hno, rfl⟩
    · rw [hother hne, h.subgraph n hn]
    · change n'.subgraph.or name = firstPlace n'.id _
      rw [hid, hsame, ← hid, h.subgraph n' hn']
    · -- A node that was not mentioned before has no other place.
      change none.or name = firstPlace t.id _
      rw [hsame, firstPlace_eq_none]
      intro p hp heq
      obtain ⟨n, hn, hid⟩ := h.complete p hp
      exact hno n hn (hid.trans heq)

theorem addMentions (h : IsPlaced v.nodes ps)
    (hname : (container.bind fun i => v.subgraphIds[i]?) = name)
    (ms : List (Mention × NodeToken)) : IsPlaced (v.addMentions container ms).nodes
      (ps ++ ms.map fun p => (p.2.id, name)) := by
  induction ms generalizing v ps with
  | nil =>
    rw [List.map_nil, List.append_nil]
    exact h
  | cons p ms ih =>
    have hcontainer : (container.bind fun i => (v.subgraphs[i]?).map (·.id)) = name := by
      rw [← hname]
      simp only [subgraphIds, List.getElem?_map]
    have hfirst : IsPlaced (v.addMention p.1 p.2 container).nodes (ps ++ [(p.2.id, name)]) := by
      have := h.alterNode p.1 p.2 name
      rw [← hcontainer] at this ⊢
      exact this
    have hrest := ih hfirst (by rw [subgraphIds_addMention, hname])
    rwa [List.append_assoc] at hrest

theorem step (h : IsPlaced r.view.nodes ps) (line : Nat) (st : Statement) :
    IsPlaced (r.step line st).view.nodes (ps ++ st.tokens.map fun t => (t.id, r.container?)) := by
  have hname : (r.openBlocks.head?.bind fun i => r.view.subgraphIds[i]?) = r.container? := by
    simp only [Reader.container?, subgraphIds, List.getElem?_map]
  cases st with
  | link l => exact h.addMentions hname ((Statement.link l).mentions line)
  | node n => exact h.addMentions hname ((Statement.node n).mentions line)
  | blockEnd =>
    rw [show Statement.blockEnd.tokens = [] from rfl, List.map_nil, List.append_nil, Reader.step]
    split <;> exact h
  | _ =>
    rw [show Statement.tokens _ = [] from rfl, List.map_nil, List.append_nil]
    exact h

theorem readAll (h : IsPlaced r.view.nodes ps) (sts : List (Nat × Statement)) :
    IsPlaced (r.readAll sts).view.nodes (ps ++ r.places sts) := by
  induction sts generalizing r ps with
  | nil =>
    rw [show r.places [] = [] from rfl, List.append_nil]
    exact h
  | cons p sts ih =>
    have hrest := ih (h.step p.1 p.2)
    rwa [List.append_assoc] at hrest

end IsPlaced

/-- A node belongs to the first subgraph in which it is mentioned. -/
theorem subgraph_eq_firstPlace {s : Source} {n : NodeRecord} (hn : n ∈ (View.ofSource s).nodes) :
    n.subgraph = firstPlace n.id ((Reader.start s).places (statements s)) := by
  have hstart : IsPlaced (Reader.start s).view.nodes [] :=
    ⟨List.nodup_nil, by simp, by simp [Reader.start]⟩
  rw [nodes_ofSource] at hn
  exact (hstart.readAll (statements s)).subgraph n (List.mem_filter.1 hn).1

end View

end DiagramEditor.Flowchart
