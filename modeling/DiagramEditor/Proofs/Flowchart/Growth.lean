import DiagramEditor.Proofs.Flowchart.Twice

/-!
# Sources that grow by a node

The lines of a source may move as a whole, as they do when a declaration is put on top, and the view
moves with them: a statement does the same to it wherever it stands (`View.IsMoved.step`), and so do
all statements (`View.IsMoved.readAll`). If they are followed by the line of a node that the view does
not know, the node comes last (`View.nodes_of_newNode`); links and directives stay
(`View.links_of_newNode`, `IsRead.of_newNode`), and so do the subgraphs that some line closes. A
subgraph that no line closes reaches to the end of the source, so such subgraphs end on the new line,
and the innermost of them has the new node as its last member (`View.subgraphs_of_newNode`).
-/

namespace DiagramEditor.Flowchart

open Source

variable {f : Nat → Nat} {s s' : Source} {r r' : Reader} {v v' : View} {m : Mention} {t : NodeToken}
  {n : NodeLine} {x : Text} {last line i : Nat} {is : List Nat} {container : Option Nat}

/-! ## Lines moved -/

/-- The mention on its line after the move. -/
def Mention.moved (f : Nat → Nat) (m : Mention) : Mention :=
  { m with line := f m.line }

/-- The node with its lines moved. -/
def NodeRecord.moved (f : Nat → Nat) (n : NodeRecord) : NodeRecord :=
  { n with
    definitionLine := n.definitionLine.map f
    mentions := n.mentions.map (·.moved f) }

/-- The link with its line moved. -/
def LinkRecord.moved (f : Nat → Nat) (l : LinkRecord) : LinkRecord :=
  { l with line := f l.line }

theorem NodeRecord.moved_addMention (f : Nat → Nat) (m : Mention) (t : NodeToken)
    (container : Option Text) (n : NodeRecord) :
    (n.addMention m t container).moved f = (n.moved f).addMention (m.moved f) t container := by
  have hline : ∀ richer : Bool, (if richer then some m.line else n.definitionLine).map f =
      if richer then some (f m.line) else n.definitionLine.map f := by
    intro richer
    cases richer <;> rfl
  simp only [addMention, moved, hline, List.map_append, List.map_singleton]
  rfl

namespace View

theorem alterNode_moved {g g' : NodeRecord → NodeRecord} (h : ∀ n, g' (n.moved f) = (g n).moved f)
    (nodes : List NodeRecord) :
    alterNode x g' (nodes.map (·.moved f)) = (alterNode x g nodes).map (·.moved f) := by
  induction nodes with
  | nil => exact congrArg (fun n => [n]) (h { id := x })
  | cons n nodes ih =>
    rw [List.map_cons, alterNode, alterNode, ih]
    split
    · next heq => rw [if_pos (show n.id = x from heq), List.map_cons, h]
    · next hne => rw [if_neg (show ¬n.id = x from hne), List.map_cons]

/-- A node that is not there is a new one at the end. -/
theorem alterNode_of_not_mem {g : NodeRecord → NodeRecord} {nodes : List NodeRecord}
    (h : x ∉ nodes.map (·.id)) : alterNode x g nodes = nodes ++ [g { id := x }] := by
  induction nodes with
  | nil => rfl
  | cons n nodes ih =>
    rw [List.map_cons, List.mem_cons, not_or] at h
    rw [alterNode, if_neg (Ne.symm h.1), ih h.2, List.cons_append]

/-- The second view is the first one with its lines moved, that of the declaration apart. -/
structure IsMoved (f : Nat → Nat) (v v' : View) : Prop where
  nodes : v'.nodes = v.nodes.map (·.moved f)
  links : v'.links = v.links.map (·.moved f)
  subgraphs : v'.subgraphs = v.subgraphs.map (·.moved f)
  styles : v'.styles = v.styles.map (Prod.map f id)
  linkStyles : v'.linkStyles = v.linkStyles.map (Prod.map f id)
  classes : v'.classes = v.classes.map (Prod.map f id)
  classDefs : v'.classDefs = v.classDefs.map (Prod.map f id)

namespace IsMoved

/-- Subgraphs keep their ids. -/
theorem map_id_getElem? (h : IsMoved f v v') (i : Nat) :
    (v'.subgraphs[i]?).map (·.id) = (v.subgraphs[i]?).map (·.id) := by
  rw [h.subgraphs, List.getElem?_map, Option.map_map]
  rfl

theorem addMention (h : IsMoved f v v') (m : Mention) (t : NodeToken) (container : Option Nat) :
    IsMoved f (v.addMention m t container) (v'.addMention (m.moved f) t container) := by
  refine { h with nodes := ?_, subgraphs := ?_ }
  · simp only [View.addMention, h.nodes, h.map_id_getElem?]
    exact alterNode_moved (fun n => (n.moved_addMention f m t _).symm) v.nodes
  · cases container with
    | none => exact h.subgraphs
    | some i =>
      simp only [View.addMention, h.subgraphs]
      exact (map_modify (fun g => SubgraphRecord.moved_addMember f t.id g) v.subgraphs i).symm

/-- A statement does the same to the view wherever it stands. -/
theorem step (h : IsMoved f r.view r'.view) (hopen : r'.openBlocks = r.openBlocks) (line : Nat)
    (st : Statement) : IsMoved f (r.step line st).view (r'.step (f line) st).view ∧
      (r'.step (f line) st).openBlocks = (r.step line st).openBlocks := by
  have hlength : r'.view.subgraphs.length = r.view.subgraphs.length := by
    rw [h.subgraphs, List.length_map]
  refine ⟨?_, by rw [Reader.openBlocks_step, Reader.openBlocks_step, hlength, hopen]⟩
  cases st with
  | silent => exact h
  | other => exact h
  | subgraphOpen header =>
    refine { h with subgraphs := ?_ }
    simp only [Reader.step, hopen, h.map_id_getElem?]
    rw [h.subgraphs, List.map_append]
    rfl
  | blockEnd =>
    rw [Reader.step, Reader.step, hopen]
    split
    · exact h
    · next j _ _ =>
      refine { h with subgraphs := ?_ }
      simp only [Reader.closeAt, h.subgraphs]
      exact (map_modify (g := SubgraphRecord.moved f) (k := SubgraphRecord.closeAt (f line))
        (fun _ => rfl) r.view.subgraphs j).symm
  | nodeStyle d => exact { h with styles := by simp [Reader.step, h.styles] }
  | linkStyle d => exact { h with linkStyles := by simp [Reader.step, h.linkStyles] }
  | classUse d => exact { h with classes := by simp [Reader.step, h.classes] }
  | classDef d => exact { h with classDefs := by simp [Reader.step, h.classDefs] }
  | link l =>
    have hmentions := (h.addMention
      ⟨line, l.sourceStart, l.source.text.length, false, l.source.definition.isSome⟩ l.source
      r.openBlocks.head?).addMention
      ⟨line, l.targetStart, l.target.text.length, false, l.target.definition.isSome⟩ l.target
      r.openBlocks.head?
    rw [Reader.step, Reader.step, hopen]
    refine { hmentions with links := ?_ }
    have hlinks := hmentions.links
    simp only [View.addMention] at hlinks ⊢
    rw [List.map_append, hlinks, List.length_map]
    rfl
  | node n =>
    have hmention := h.addMention
      ⟨line, n.lead.length, n.token.text.length, true, n.token.definition.isSome⟩ n.token
      r.openBlocks.head?
    rw [Reader.step, Reader.step, hopen]
    exact hmention

theorem readAll (h : IsMoved f r.view r'.view) (hopen : r'.openBlocks = r.openBlocks)
    (sts : List (Nat × Statement)) :
    IsMoved f (r.readAll sts).view (r'.readAll (sts.map (Prod.map f id))).view ∧
      (r'.readAll (sts.map (Prod.map f id))).openBlocks = (r.readAll sts).openBlocks := by
  induction sts generalizing r r' with
  | nil => exact ⟨h, hopen⟩
  | cons p sts ih =>
    obtain ⟨hview, hopen⟩ := h.step hopen p.1 p.2
    exact ih hview hopen

end IsMoved

/-- What is unknown to the view is neither a node of the reader nor a member of a subgraph. -/
theorem not_mem_of_not_mem_ids (h : x ∉ (View.ofSource s).ids) :
    x ∉ ((Reader.start s).readAll (statements s)).view.nodes.map (·.id) ∧
      ∀ g ∈ ((Reader.start s).readAll (statements s)).view.subgraphs, x ∉ g.members := by
  constructor
  · intro hmem
    obtain ⟨n, hn, rfl⟩ := List.mem_map.1 hmem
    obtain ⟨p, hp⟩ := List.exists_mem_of_ne_nil _ ((isGathered_readAll s).mentioned n hn)
    obtain ⟨hp, heq⟩ := List.mem_filter.1 hp
    exact h (of_decide_eq_true heq ▸ mem_ids_of_mem_mentions hp)
  · intro g hg hmem
    refine h (Reader.knowsOnly_readAll (S := {y | y ∈ (View.ofSource s).ids}) (r := Reader.start s)
      (fun _ hg => absurd hg List.not_mem_nil) ?_ g hg x hmem)
    intro p hp t ht
    rw [← Statement.map_snd_mentions p.1] at ht
    obtain ⟨q, hq, rfl⟩ := List.mem_map.1 ht
    exact mem_ids_of_mem_mentions (mem_mentions.2 ⟨p, hp, hq⟩)

end View

/-! ## Subgraphs at the end -/

/-- The positions of the subgraphs that no line of the source closes, the innermost first. -/
def openAtEnd (s : Source) : List Nat :=
  ((Reader.start s).readAll (statements s)).openBlocks

theorem getElem?_foldl_closeAt (is : List Nat) (line : Nat) (v : View) (i : Nat) :
    (is.foldl (fun v i => Reader.closeAt i line v) v).subgraphs[i]? =
      (v.subgraphs[i]?).map fun g => if i ∈ is then g.closeAt line else g := by
  induction is generalizing v with
  | nil => simp
  | cons j is ih =>
    rw [List.foldl_cons, ih, Reader.closeAt, List.getElem?_modify]
    cases v.subgraphs[i]? with
    | none => rfl
    | some g =>
      by_cases hj : j = i
      · by_cases his : i ∈ is <;> simp [hj, his, SubgraphRecord.closeAt]
      · by_cases his : i ∈ is <;> simp [hj, Ne.symm hj, his]

namespace Reader

/-- Subgraphs that are still open at the end reach to the last line. -/
theorem getElem?_subgraphs_finish (length : Nat) (r : Reader) (i : Nat) :
    (r.finish length).subgraphs[i]? = (r.view.subgraphs[i]?).map fun g =>
      (if i ∈ r.openBlocks then g.closeAt (length - 1) else g).withoutMembers r.view.subgraphIds := by
  have hids : (r.openBlocks.foldl (fun v i => closeAt i (length - 1) v) r.view).subgraphIds =
      r.view.subgraphIds := by
    generalize r.view = v
    induction r.openBlocks generalizing v with
    | nil => rfl
    | cons i is ih => exact (ih _).trans (View.subgraphIds_closeAt i _ v)
  rw [← hids, finish, View.dropSubgraphIds, List.getElem?_map, getElem?_foldl_closeAt, Option.map_map]
  rfl

theorem getElem?_alterInnermost_eq (g : SubgraphRecord → SubgraphRecord) (r : Reader) (i : Nat) :
    (r.alterInnermost g)[i]? =
      (r.view.subgraphs[i]?).map fun h => if r.openBlocks.head? = some i then g h else h := by
  cases hopen : r.openBlocks with
  | nil => simp [alterInnermost_nil hopen]
  | cons j outer =>
    rw [alterInnermost_cons hopen, List.getElem?_modify]
    cases r.view.subgraphs[i]? with
    | none => rfl
    | some h => by_cases hj : j = i <;> simp [hj]

end Reader

/-- What the end of the source makes of a subgraph. -/
theorem View.of_getElem?_subgraphs {g : SubgraphRecord} (h : (View.ofSource s).subgraphs[i]? = some g) :
    ∃ g₀, ((Reader.start s).readAll (statements s)).view.subgraphs[i]? = some g₀ ∧ g.id = g₀.id ∧
      g.parent = g₀.parent ∧ g.span.start = g₀.span.start ∧
        g.span.stop = if i ∈ openAtEnd s then s.length - 1 else g₀.span.stop := by
  rw [ofSource_eq, Reader.getElem?_subgraphs_finish, Option.map_eq_some_iff] at h
  obtain ⟨g₀, hg₀, rfl⟩ := h
  refine ⟨g₀, hg₀, ?_⟩
  rw [openAtEnd]
  split <;> exact ⟨rfl, rfl, rfl, rfl⟩

/-- The subgraph number `i` of a source that has become longer by the line of a new node, where the
subgraphs `opened` are closed by no line. -/
def SubgraphRecord.grown (f : Nat → Nat) (opened : List Nat) (last : Nat) (id : Text) (i : Nat)
    (g : SubgraphRecord) : SubgraphRecord :=
  { g with
    span := if i ∈ opened then ⟨f g.span.start, last⟩ else ⟨f g.span.start, f g.span.stop⟩
    members := if opened.head? = some i then g.members ++ [id] else g.members }

/-- A member that is new and names no subgraph is not left out. -/
theorem SubgraphRecord.withoutMembers_grown {ids : List Text} {g : SubgraphRecord}
    (hx : x ∉ g.members) (hids : x ∉ ids) (f : Nat → Nat) (opened : List Nat) (last stop i : Nat) :
    withoutMembers ids
        (if i ∈ opened then
          closeAt last (if opened.head? = some i then (g.moved f).addMembers [x] else g.moved f)
        else if opened.head? = some i then (g.moved f).addMembers [x] else g.moved f) =
      grown f opened last x i (withoutMembers ids (if i ∈ opened then g.closeAt stop else g)) := by
  have hadd : (g.moved f).addMembers [x] = { g.moved f with members := g.members ++ [x] } := by
    simp [addMembers, addMember, moved, hx]
  have hkept : (g.members ++ [x]).filter (fun y => !ids.contains y) =
      g.members.filter (fun y => !ids.contains y) ++ [x] := by
    simp [hids]
  rw [hadd]
  by_cases hhead : opened.head? = some i <;> by_cases hi : i ∈ opened <;>
    simp only [hhead, hi, if_true, if_false, withoutMembers, grown, closeAt, moved, hkept]

/-! ## One more node -/

/-- A node that is only mentioned on a line of its own. -/
def newNode (n : NodeLine) (line : Nat) (container : Option Text) : NodeRecord :=
  { id := n.token.id
    definition := n.token.definition
    definitionLine := n.token.definition.map fun _ => line
    mentions := [⟨line, n.lead.length, n.token.text.length, true, n.token.definition.isSome⟩]
    subgraph := container }

section NewNode

variable (hsts : statements s' = (statements s).map (Prod.map f id) ++ [(last, .node n)])

include hsts

/-- The readers of the two sources have come to the same in front of the new line. -/
theorem exists_reader_of_newNode : ∃ r' : Reader,
    (Reader.start s').readAll (statements s') = r'.step last (.node n) ∧
      View.IsMoved f ((Reader.start s).readAll (statements s)).view r'.view ∧
        r'.openBlocks = openAtEnd s := by
  have hstart : View.IsMoved f (Reader.start s).view (Reader.start s').view :=
    ⟨rfl, rfl, rfl, rfl, rfl, rfl, rfl⟩
  obtain ⟨hview, hopen⟩ := hstart.readAll rfl (statements s)
  refine ⟨(Reader.start s').readAll ((statements s).map (Prod.map f id)), ?_, hview, hopen⟩
  rw [hsts, Reader.readAll_append]
  rfl

theorem subgraphIds_of_newNode : (View.ofSource s').subgraphIds = (View.ofSource s).subgraphIds := by
  rw [View.subgraphIds_ofSource, View.subgraphIds_ofSource, hsts, List.map_append, List.map_map,
    List.filterMap_append]
  exact List.append_nil _

/-- What else the view holds stays. -/
theorem View.links_of_newNode :
    (View.ofSource s').links = (View.ofSource s).links.map (·.moved f) := by
  obtain ⟨r', hread, hmoved, -⟩ := exists_reader_of_newNode hsts
  rw [ofSource_eq, ofSource_eq, hread, finish_links, finish_links]
  exact hmoved.links

/-- The directives stay, on their lines after the move. -/
theorem IsRead.of_newNode {α : Type} {list : View → List (Nat × α)} {get : Statement → Option α}
    (h : IsRead list get) (hstart : ∀ s, list (Reader.start s).view = [])
    (hnode : get (.node n) = none) :
    list (View.ofSource s') = (list (View.ofSource s)).map (Prod.map f id) := by
  rw [h.ofSource s' (hstart s'), h.ofSource s (hstart s), hsts, found_append]
  have hlast : found get [(last, .node n)] = [] := by simp [found, hnode]
  rw [hlast, List.append_nil, found_map]

/-- The new node comes last, in the innermost of the open subgraphs. -/
theorem View.nodes_of_newNode (hnew : n.token.id ∉ (View.ofSource s).ids) :
    (View.ofSource s').nodes = (View.ofSource s).nodes.map (·.moved f) ++
      [newNode n last ((openAtEnd s).head?.bind fun i =>
        ((View.ofSource s).subgraphs[i]?).map (·.id))] := by
  obtain ⟨r', hread, hmoved, hopen⟩ := exists_reader_of_newNode hsts
  have hnode : n.token.id ∉ r'.view.nodes.map (·.id) := by
    rw [hmoved.nodes, List.map_map]
    exact (not_mem_of_not_mem_ids hnew).1
  have hsubgraph : n.token.id ∉ (View.ofSource s).subgraphIds :=
    fun hmem => hnew (mem_ids_of_mem_subgraphIds hmem)
  have hcontainer : ∀ i : Nat, ((View.ofSource s).subgraphs[i]?).map (·.id) =
      (r'.view.subgraphs[i]?).map (·.id) := by
    intro i
    rw [hmoved.map_id_getElem?, ofSource_eq, Reader.getElem?_subgraphs_finish, Option.map_map]
    congr 1
    funext g
    simp only [Function.comp_apply]
    split <;> rfl
  have hstep : (r'.step last (.node n)).view.nodes = r'.view.nodes ++
      [newNode n last ((openAtEnd s).head?.bind fun i => (r'.view.subgraphs[i]?).map (·.id))] := by
    change alterNode n.token.id (·.addMention _ n.token _) r'.view.nodes = _
    rw [alterNode_of_not_mem hnode, ← hopen]
    simp only [NodeRecord.addMention, newNode]
    cases n.token.definition <;> rfl
  rw [nodes_ofSource, nodes_ofSource, subgraphIds_of_newNode hsts, hread, hstep, hmoved.nodes,
    List.filter_append, List.filter_map]
  simp only [hcontainer]
  congr 1
  exact List.filter_eq_self.2 fun m hm => by
    rw [List.mem_singleton.1 hm]
    simpa [newNode] using hsubgraph

/-- Only subgraphs that no line closes are other ones. -/
theorem View.subgraphs_of_newNode (hlength : s'.length = last + 1)
    (hnew : n.token.id ∉ (View.ofSource s).ids) : (View.ofSource s').subgraphs =
      (View.ofSource s).subgraphs.mapIdx (SubgraphRecord.grown f (openAtEnd s) last n.token.id) := by
  obtain ⟨r', hread, hmoved, hopen⟩ := exists_reader_of_newNode hsts
  have hstay : (Statement.node n).blockStep = .stay := rfl
  have hids : (r'.step last (.node n)).view.subgraphIds = (View.ofSource s).subgraphIds := by
    rw [← subgraphIds_of_newNode hsts, ofSource_eq s', subgraphIds_finish, hread]
  have hids₀ : ((Reader.start s).readAll (statements s)).view.subgraphIds =
      (View.ofSource s).subgraphIds := by
    rw [ofSource_eq, subgraphIds_finish]
  refine List.ext_getElem? fun i => ?_
  rw [List.getElem?_mapIdx, ofSource_eq s', ofSource_eq s, hread, Reader.getElem?_subgraphs_finish,
    Reader.getElem?_subgraphs_finish, hids, hids₀, Reader.openBlocks_step, hlength,
    Nat.add_sub_cancel, Reader.subgraphs_step_of_stay hstay, Reader.getElem?_alterInnermost_eq, hopen,
    hmoved.subgraphs, List.getElem?_map]
  cases hg : ((Reader.start s).readAll (statements s)).view.subgraphs[i]? with
  | none => rfl
  | some g =>
    have hmember := (not_mem_of_not_mem_ids hnew).2 g (List.mem_of_getElem? hg)
    have hsubgraph : n.token.id ∉ (View.ofSource s).subgraphIds :=
      fun hmem => hnew (mem_ids_of_mem_subgraphIds hmem)
    have hopen₀ : ((Reader.start s).readAll (statements s)).openBlocks = openAtEnd s := rfl
    rw [hopen₀]
    exact congrArg some (SubgraphRecord.withoutMembers_grown hmember hsubgraph f _ last _ i)

end NewNode

end DiagramEditor.Flowchart
