import DiagramEditor.Selection.Reconciler

/-!
# A selection follows its object

Whatever a handle is resolved to is one of the rendered objects (`Handle.contains_of_resolve?`), and
so is whatever is selected after a rendering (`Reconciler.contains_reconcile`).

Each bucket of rendered objects is a list of ids and handles (`Objects.handles`). Taking the handle of
a selection and resolving it are searches in such lists: the first object with the id gives the handle
(`Handle.ofSelection?_eq`), and the handle leads to the first object that has it too
(`Handle.resolve?_eq`). Only links need a second search, since the position of a link can be unknown or
can have changed.

A selection whose id is gone is therefore carried over to the object that its own one has become, and
is lost exactly if there is no such object (`Reconciler.reconcile_follows`).
-/

namespace DiagramEditor

variable {α : Type} {p : α → Prop} [DecidablePred p] {l : List α} {x : α} {o : Objects}
  {selection : Selection} {k : ObjectKind} {id : Text}

/-! ## Buckets -/

namespace Objects

theorem contains_iff {id : Text} {kind : ObjectKind} :
    o.contains id kind = true ↔ (id, kind) ∈ o.ids :=
  List.contains_iff_mem

/-- An object that is found in the bucket of its kind is contained. -/
theorem contains_of_find? {α : Type} {bucket : List α} {p : α → Bool} {id : α → Text}
    {kind : ObjectKind} (hbucket : ∀ x ∈ bucket, (id x, kind) ∈ o.ids)
    (h : ((bucket.find? p).map fun x => (⟨id x, kind⟩ : Selection)) = some selection) :
    o.contains selection.id selection.kind = true := by
  obtain ⟨x, hx, rfl⟩ := Option.map_eq_some_iff.1 h
  exact contains_iff.2 (hbucket x (List.mem_of_find?_eq_some hx))

end Objects

/-! ## What handles find -/

theorem Handle.mem_of_resolveEdge? {source target : Text} {linkIndex : Option Nat} {e : EdgeObject}
    (h : resolveEdge? o source target linkIndex = some e) : e ∈ o.edges := by
  rcases Option.or_eq_some_iff.1 h with hexact | ⟨-, hfirst⟩
  · exact (List.mem_filter.1 (List.mem_of_find?_eq_some hexact)).1
  · exact (List.mem_filter.1 (List.mem_of_head? hfirst)).1

/-- A handle is resolved to one of the objects. -/
theorem Handle.contains_of_resolve? {h : Handle} (hresolve : h.resolve? o = some selection) :
    o.contains selection.id selection.kind = true := by
  cases h with
  | edge source target linkIndex =>
    obtain ⟨e, he, rfl⟩ := Option.map_eq_some_iff.1 hresolve
    refine Objects.contains_iff.2 ?_
    simpa [Objects.ids] using ⟨e, mem_of_resolveEdge? he, rfl⟩
  | _ =>
    refine Objects.contains_of_find? (fun x hx => ?_) hresolve
    simpa [Objects.ids] using ⟨x, hx, rfl⟩

/-! ## What is selected -/

namespace Reconciler

theorem contains_of_carryOver? {previous : Option Objects} {current : Selection}
    (h : carryOver? previous o current = some selection) :
    o.contains selection.id selection.kind = true := by
  rw [carryOver?] at h
  split at h
  · next hcontains => exact Option.some.inj h ▸ hcontains
  · obtain ⟨handle, -, hresolve⟩ := Option.bind_eq_some_iff.1 h
    exact Handle.contains_of_resolve? hresolve

/-- What is selected after a rendering is one of its objects. -/
theorem contains_reconcile {r : Reconciler} {current : Option Selection}
    (h : (r.reconcile o current).1 = some selection) :
    o.contains selection.id selection.kind = true := by
  rw [reconcile] at h
  dsimp only at h
  split at h
  · exact Handle.contains_of_resolve? h
  · obtain ⟨c, -, hcarry⟩ := Option.bind_eq_some_iff.1 h
    exact contains_of_carryOver? hcarry

end Reconciler

/-! ## Handles in a list -/

/-- The entry is the first one of the list that satisfies `p`. -/
def IsFirst (p : α → Prop) (l : List α) (x : α) : Prop :=
  ∃ before after, l = before ++ x :: after ∧ p x ∧ ∀ y ∈ before, ¬p y

theorem find?_eq_some_iff_isFirst : l.find? (fun y => p y) = some x ↔ IsFirst p l x := by
  rw [List.find?_eq_some_iff_append, IsFirst]
  constructor
  · rintro ⟨hx, before, after, rfl, hbefore⟩
    exact ⟨before, after, rfl, of_decide_eq_true hx, by simpa using hbefore⟩
  · rintro ⟨before, after, rfl, hx, hbefore⟩
    exact ⟨decide_eq_true hx, before, after, rfl, by simpa using hbefore⟩

namespace Handle

/-- The kind of the objects that have such handles. -/
def kind : Handle → ObjectKind
  | edge .. => .edge
  | node _ => .node
  | subgraph _ => .subgraph
  | entity _ => .entity
  | relationship _ => .relationship
  | participant _ => .participant
  | message _ => .message
  | note _ => .note
  | fragment _ => .fragment

/-- The handle without the position of a link, which is all that links between the same two ids
have in common. -/
def withoutPosition : Handle → Handle
  | edge source target _ => edge source target none
  | h => h

/-- The handle does not leave open which link between its two ends it is. -/
def isExact : Handle → Bool
  | edge _ _ linkIndex => linkIndex.isSome
  | _ => true

/-- The handle leads to this entry: to the first one that has it too, or, if it leaves the link open or
no entry has it, to the first one that agrees with it up to the position of the link. -/
def LeadsTo (h : Handle) (l : List (Text × Handle)) (q : Text × Handle) : Prop :=
  if h.isExact = true ∧ h ∈ l.map Prod.snd then IsFirst (fun q => q.2 = h) l q
  else IsFirst (fun q => q.2.withoutPosition = h.withoutPosition) l q

end Handle

/-- The ids of the objects of one kind with their handles. -/
def Objects.handles (o : Objects) : ObjectKind → List (Text × Handle)
  | .node => o.nodes.map fun x => (x.id, .node x.coreId)
  | .edge => o.edges.map fun x => (x.id, .edge x.sourceCoreId x.targetCoreId x.linkIndex)
  | .subgraph => o.subgraphs.map fun x => (x.id, .subgraph x.coreId)
  | .entity => o.entities.map fun x => (x.id, .entity x.name)
  | .relationship => o.relationships.map fun x => (x.id, .relationship x.index)
  | .participant => o.participants.map fun x => (x.id, .participant x.name)
  | .message => o.messages.map fun x => (x.id, .message x.index)
  | .note => o.notes.map fun x => (x.id, .note x.index)
  | .fragment => o.fragments.map fun x => (x.id, .fragment x.index)
  | .other => []

/-- A contained object of a known kind has a handle. -/
theorem Objects.exists_mem_handles (h : o.contains id k = true) (hk : k ≠ .other) :
    ∃ handle, (id, handle) ∈ o.handles k := by
  have hid : id ∈ (o.handles k).map Prod.fst := by
    rw [contains_iff, ids] at h
    cases k with
    | other => exact absurd rfl hk
    | _ => simpa [handles] using h
  simpa using hid

theorem Objects.kind_of_mem_handles {handle : Handle} (h : (id, handle) ∈ o.handles k) :
    handle.kind = k := by
  cases k with
  | other => cases h
  | _ =>
    obtain ⟨x, -, heq⟩ := List.mem_map.1 h
    rw [← (Prod.mk.inj heq).2]
    rfl

namespace Handle

/-- The handle of a selection is that of the first object with its id. -/
theorem ofSelection?_eq (o : Objects) (s : Selection) :
    ofSelection? o s = ((o.handles s.kind).find? fun q => q.1 = s.id).map Prod.snd := by
  rw [ofSelection?]
  cases s.kind <;> simp [Objects.handles, List.find?_map, Function.comp_def]

/-- Resolving a handle is a search for the same handle, and then for one that is the same up to the
position of the link. -/
theorem resolve?_eq (o : Objects) (h : Handle) : h.resolve? o =
    (((o.handles h.kind).find? fun q => h.isExact = true ∧ q.2 = h).or
      ((o.handles h.kind).find? fun q => q.2.withoutPosition = h.withoutPosition)).map fun q =>
        ⟨q.1, h.kind⟩ := by
  cases h with
  | edge source target linkIndex =>
    simp [resolve?, resolveEdge?, kind, Objects.handles, isExact, withoutPosition, List.find?_map,
      List.find?_filter, Function.comp_def, Option.map_or, and_assoc, and_comm]
  | _ =>
    simp [resolve?, Objects.nodeByCoreId?, kind, Objects.handles, isExact, withoutPosition,
      List.find?_map, Function.comp_def]

theorem leadsTo_iff {h : Handle} {l : List (Text × Handle)} {q : Text × Handle} :
    h.LeadsTo l q ↔ (l.find? fun q => h.isExact = true ∧ q.2 = h).or
      (l.find? fun q => q.2.withoutPosition = h.withoutPosition) = some q := by
  rw [LeadsTo]
  split
  · next hexact =>
    obtain ⟨hexact, hmem⟩ := hexact
    obtain ⟨q', hq', hhandle⟩ := List.mem_map.1 hmem
    have hsome : (l.find? fun q => h.isExact = true ∧ q.2 = h).isSome = true :=
      List.find?_isSome.2 ⟨q', hq', by simpa using ⟨hexact, hhandle⟩⟩
    rw [Option.or_of_isSome hsome, ← find?_eq_some_iff_isFirst]
    simp [hexact]
  · next hno =>
    have hnone : (l.find? fun q => h.isExact = true ∧ q.2 = h) = none := by
      refine List.find?_eq_none.2 fun q hq hh => hno ?_
      obtain ⟨hexact, rfl⟩ := of_decide_eq_true hh
      exact ⟨hexact, List.mem_map_of_mem hq⟩
    rw [hnone, Option.none_or, find?_eq_some_iff_isFirst]

/-- What is found for a handle is what it leads to. -/
theorem resolve?_eq_some_iff {h : Handle} {s : Selection} : h.resolve? o = some s ↔
    s.kind = h.kind ∧ ∃ h', h.LeadsTo (o.handles h.kind) (s.id, h') := by
  rw [resolve?_eq, Option.map_eq_some_iff]
  constructor
  · rintro ⟨q, hq, rfl⟩
    exact ⟨rfl, q.2, leadsTo_iff.2 hq⟩
  · rintro ⟨hkind, h', hleads⟩
    exact ⟨_, leadsTo_iff.1 hleads, by rw [← hkind]⟩

/-- Nothing is found for a handle exactly if no object of its kind agrees with it up to the position
of a link. -/
theorem resolve?_eq_none_iff {h : Handle} : h.resolve? o = none ↔
    ∀ q ∈ o.handles h.kind, q.2.withoutPosition ≠ h.withoutPosition := by
  rw [resolve?_eq, Option.map_eq_none_iff, Option.or_eq_none_iff, List.find?_eq_none,
    List.find?_eq_none]
  constructor
  · rintro ⟨-, hno⟩ q hq
    simpa using hno q hq
  · refine fun hno => ⟨fun q hq heq => hno q hq ?_, fun q hq => by simpa using hno q hq⟩
    rw [(of_decide_eq_true heq).2]

end Handle

/-! ## Renderings -/

namespace Reconciler

/-- Where nothing is to be selected next, a selected object stays selected while its id is there. If
the id is gone, the selection goes to the object that has the handle of the first object that had the
id: of links, to the one at the same position if there is one, and to the first between the two ends
otherwise. It is empty exactly if there is no such object, or if the object was of no known kind. And
whatever is to be selected next, what is selected is there. -/
theorem reconcile_follows (r : Reconciler) (previous next : Objects) (current : Selection)
    (hpending : r.pending = none) (hprevious : r.previous = some previous)
    (hcurrent : previous.contains current.id current.kind = true) :
    let answer := (r.reconcile next (some current)).1
    (r.reconcile next (some current)).2 = ⟨none, some next⟩ ∧
    (next.contains current.id current.kind = true → answer = some current) ∧
    (next.contains current.id current.kind = false → current.kind = .other → answer = none) ∧
    (next.contains current.id current.kind = false → current.kind ≠ .other →
      ∃ h, IsFirst (fun q => q.1 = current.id) (previous.handles current.kind) (current.id, h) ∧
        (∀ s, answer = some s ↔
          s.kind = current.kind ∧ ∃ h', h.LeadsTo (next.handles current.kind) (s.id, h')) ∧
        (answer = none ↔
          ∀ q ∈ next.handles current.kind, q.2.withoutPosition ≠ h.withoutPosition)) ∧
    ∀ (r : Reconciler) (current : Option Selection) s,
      (r.reconcile next current).1 = some s → next.contains s.id s.kind = true := by
  intro answer
  have hanswer : answer = carryOver? (some previous) next current := by
    simp only [answer, reconcile, hpending, hprevious, Option.bind_some]
  have hgone (h : next.contains current.id current.kind = false) :
      answer = (Handle.ofSelection? previous current).bind (Handle.resolve? next) := by
    rw [hanswer, carryOver?, if_neg (by simp [h]), Option.bind_some]
  refine ⟨rfl, fun h => ?_, fun h hother => ?_, fun h hother => ?_,
    fun r current s => contains_reconcile⟩
  · rw [hanswer, carryOver?, if_pos h]
  · rw [hgone h, Handle.ofSelection?, hother]
    rfl
  · -- The first object with the id has a handle of the right kind, and that is what is looked up.
    obtain ⟨h₀, hmem⟩ := Objects.exists_mem_handles hcurrent hother
    obtain ⟨⟨id, handle⟩, hfind⟩ := Option.isSome_iff_exists.1 (List.find?_isSome
      (p := fun q : Text × Handle => q.1 = current.id) |>.2 ⟨_, hmem, decide_eq_true rfl⟩)
    obtain rfl : id = current.id := by simpa using List.find?_some hfind
    have hkind := Objects.kind_of_mem_handles (List.mem_of_find?_eq_some hfind)
    refine ⟨handle, find?_eq_some_iff_isFirst.1 hfind, fun s => ?_, ?_⟩
    · rw [hgone h, Handle.ofSelection?_eq, hfind, Option.map_some, Option.bind_some, ← hkind]
      exact Handle.resolve?_eq_some_iff
    · rw [hgone h, Handle.ofSelection?_eq, hfind, Option.map_some, Option.bind_some, ← hkind]
      exact Handle.resolve?_eq_none_iff

/-- Of two links between the same ends the second one is selected, and it is found again behind a
new one, whose position is not known. -/
theorem reconcile_follows_parallel_links :
    let link (id : String) (index : Option Nat) : EdgeObject :=
      { id := id.toList, sourceCoreId := ['A'], targetCoreId := ['B'], sourceLabel := ['A'],
        targetLabel := ['B'], linkIndex := index }
    let previous : Objects := { edges := [link "L_A_B_0" (some 0), link "L_A_B_1" (some 1)] }
    let next : Objects := { edges := [link "L_A_B_2" none, link "L_A_B_3" (some 1)] }
    let current : Selection := ⟨"L_A_B_1".toList, .edge⟩
    let r : Reconciler := ⟨none, some previous⟩
    previous.contains current.id .edge = true ∧ next.contains current.id .edge = false ∧
      (r.reconcile next (some current)).1 = some ⟨"L_A_B_3".toList, .edge⟩ ∧
      ∃ h, IsFirst (fun q => q.1 = current.id) (previous.handles .edge) (current.id, h) ∧
        ∃ h', h.LeadsTo (next.handles .edge) ("L_A_B_3".toList, h') := by
  intro link previous next current r
  have hprevious : previous.contains current.id .edge = true := by decide
  have hnext : next.contains current.id .edge = false := by decide
  have hanswer : (r.reconcile next (some current)).1 = some ⟨"L_A_B_3".toList, .edge⟩ := by decide
  obtain ⟨-, -, -, hfollows, -⟩ := reconcile_follows r previous next current rfl rfl hprevious
  obtain ⟨h, hfirst, hleads, -⟩ := hfollows hnext (by decide)
  exact ⟨hprevious, hnext, hanswer, h, hfirst, ((hleads _).1 hanswer).2⟩

end Reconciler

end DiagramEditor
