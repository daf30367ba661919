import DiagramEditor.Edit.Flowchart
import DiagramEditor.Proofs.Edit.Flowchart.Add
import DiagramEditor.Proofs.Edit.Flowchart.Cascade

/-!
# Deleting nodes and links

Deleting a node takes away its links, and deleting a link takes away this one; all other links stay
in their order and are numbered anew, the deleted node is mentioned nowhere, and every other node
that had a definition has one (`delete_isPruned`). Where all definitions of a node stood on lines
that go, the node is defined anew as it was.

A class name behind three colons belongs to one mention of a node, and is not part of what the view
keeps about the node. Where a deletion takes away a mention it takes the class name with it: what is
written anew for the node afterwards has none (`Cascade.classNames_eq`). So a node keeps its class names
exactly if those that it has on links that go stand on one of its other mentions too
(`delete_keepsClassNames`).
-/

namespace DiagramEditor.Edit.Flowchart

open DiagramEditor.Flowchart Source Text

variable {targets : List Text} {extra : List Nat} {s s' : Source}

/-! ## Cascades -/

/-- The source `s'` is left when the ids and the extra lines of `s` are deleted, and `gone` says which
links go with them. -/
structure IsDeletion (gone : LinkRecord → Bool) (targets : List Text) (extra : List Nat)
    (s s' : Source) : Prop where
  areLinkLines : AreLinkLines extra s
  gone_iff : ∀ r ∈ (View.ofSource s).links, gone r = true ↔ Goes targets extra r.line r.link
  ok : deleteCascade targets extra (View.ofSource s) s = .ok s'

theorem isDeletion_deleteNode {e : Edited} {ids : IdAllocator} {id : Text}
    (hok : (apply (.deleteNode id) s ids).1 = .ok e) :
    IsDeletion (·.link.touches id) [id] [] s e.source := by
  obtain ⟨n, -, hok⟩ := bind_eq_ok.1 hok
  obtain ⟨s', hcascade, hok⟩ := bind_eq_ok.1 hok
  cases hok
  exact ⟨nofun, fun r _ => by simp [Goes, LinkLine.touches], hcascade⟩

theorem isDeletion_deleteEdge {e : Edited} {ids : IdAllocator} {i : Nat}
    (hok : (apply (.deleteEdge i) s ids).1 = .ok e) :
    ∃ line, IsDeletion (·.index = i) [] [line] s e.source := by
  obtain ⟨record, hrecord, hok⟩ := bind_eq_ok.1 hok
  obtain ⟨s', hcascade, hok⟩ := bind_eq_ok.1 hok
  cases hok
  have hget : (View.ofSource s).links[i]? = some record := requireLink_eq_ok hrecord
  refine ⟨record.line, fun _ hi => ?_, fun r hr => ?_, hcascade⟩
  · rw [List.mem_singleton.1 hi]
    exact ⟨record.link, View.mem_links (List.mem_of_getElem? hget)⟩
  · obtain ⟨k, hk⟩ := List.getElem?_of_mem hr
    rw [decide_eq_true_eq, Goes, List.mem_singleton, View.index_of_getElem?_links hk]
    constructor
    · rintro rfl
      rw [hget, Option.some.injEq] at hk
      exact .inl (by rw [hk])
    · rintro (hline | h | h)
      · exact View.eq_of_line_links hk hget hline
      · cases h
      · cases h

/-! ## What is left -/

/-- What a deletion leaves of a view, where `gone` says which links go, and with them some ids. -/
structure IsPruned (gone : LinkRecord → Bool) (ids : List Text) (before after : View) : Prop where
  /-- The links that stay, in order. -/
  links : after.links.map (·.link) = (before.links.filter fun r => !gone r).map (·.link)
  /-- The links are numbered from zero on. -/
  index : ∀ (k : Nat) (r : LinkRecord), after.links[k]? = some r → r.index = k
  node? : ∀ id ∈ ids, after.node? id = none
  touches : ∀ id ∈ ids, ∀ r ∈ after.links, r.link.touches id = false
  /-- A definition is left, and it is the old one where none stood on a line that stays. -/
  definition : ∀ id ∉ ids, ∀ n d, before.node? id = some n → n.definition = some d →
    ∃ n', after.node? id = some n' ∧ n'.definition.isSome ∧
      ((∀ m ∈ n.mentions, m.defines = true → ∃ r ∈ before.links, gone r = true ∧ r.line = m.line) →
        n'.definition = some d)

theorem IsDeletion.isPruned {gone : LinkRecord → Bool} (h : IsDeletion gone targets extra s s')
    (hkind : s.kind? = some .flowchart) :
    IsPruned gone targets (View.ofSource s) (View.ofSource s') := by
  obtain ⟨hextra, hgone, hok⟩ := h
  obtain ⟨removal, removed, w, h⟩ := exists_cascade hkind hextra hok
  have hlinks := h.map_link_links hextra hgone
  refine ⟨hlinks, fun k r hr => View.index_of_getElem?_links hr,
    fun id hid => h.node?_eq_none hextra hid, fun id hid r hr => ?_, fun id hid n d hn hd => ?_⟩
  · have hmem := List.mem_map_of_mem (f := LinkRecord.link) hr
    rw [hlinks] at hmem
    obtain ⟨r', hr', heq⟩ := List.mem_map.1 hmem
    obtain ⟨hr', hstay⟩ := List.mem_filter.1 hr'
    rw [Bool.not_eq_true', ← Bool.not_eq_true, hgone r' hr', heq] at hstay
    rw [← Bool.not_eq_true, LinkLine.touches, Bool.or_eq_true, decide_eq_true_eq, decide_eq_true_eq]
    rintro (rfl | rfl)
    exacts [hstay (.inr (.inl hid)), hstay (.inr (.inr hid))]
  · obtain ⟨n', hn', hsome, hsame⟩ := h.exists_node? hextra hn hd hid
    refine ⟨n', hn', hsome, fun hall => hsame fun m hm hdefines => ?_⟩
    obtain ⟨r, hr, hgo, hline⟩ := hall m hm hdefines
    rw [← hline, mem_lines_of_link hextra h.plan (View.mem_links hr)]
    exact (hgone r hr).1 hgo

/-- Deleting a node takes away what touches it, deleting a link takes away the link; the other links
stay, and the other nodes stay defined. -/
theorem delete_isPruned {e : Edited} (ids : IdAllocator) (hkind : s.kind? = some .flowchart) :
    (∀ id, (apply (.deleteNode id) s ids).1 = .ok e →
      IsPruned (·.link.touches id) [id] (View.ofSource s) (View.ofSource e.source)) ∧
    ∀ i, (apply (.deleteEdge i) s ids).1 = .ok e →
      IsPruned (·.index = i) [] (View.ofSource s) (View.ofSource e.source) := by
  constructor
  · intro id hok
    exact (isDeletion_deleteNode hok).isPruned hkind
  · intro i hok
    obtain ⟨line, h⟩ := isDeletion_deleteEdge hok
    exact h.isPruned hkind

/-- The only definition of a node stands on the link that goes, and is written on a line of its
own. -/
theorem delete_isPruned_defining_link :
    let s : Source := .ofText "flowchart TD\n  A --> B[b]\n  B --> C".toList
    let after : Source := .ofText "flowchart TD\n  B[b]\n  B --> C".toList
    s.kind? = some .flowchart ∧ (apply (.deleteNode ['A']) s {}).1 = .ok ⟨after, none⟩ ∧
      (apply (.deleteEdge 0) s {}).1 = .ok ⟨after, none⟩ ∧
      IsPruned (·.link.touches ['A']) [['A']] (View.ofSource s) (View.ofSource after) ∧
      IsPruned (·.index = 0) [] (View.ofSource s) (View.ofSource after) := by
  intro s after
  have hkind : s.kind? = some .flowchart := by decide +kernel
  have hnode : (apply (.deleteNode ['A']) s {}).1 = .ok ⟨after, none⟩ := by decide +kernel
  have hedge : (apply (.deleteEdge 0) s {}).1 = .ok ⟨after, none⟩ := by decide +kernel
  exact ⟨hkind, hnode, hedge, (delete_isPruned {} hkind).1 _ hnode,
    (delete_isPruned {} hkind).2 _ hedge⟩

end DiagramEditor.Edit.Flowchart

/-! ## Class names -/

namespace DiagramEditor

namespace Flowchart

variable {s : Source} {id name : Text}

/-- The class names that the statement attaches to the node. -/
def Statement.classNames (id : Text) (st : Statement) : List Text :=
  (st.tokens.filter (·.id = id)).filterMap (·.classSuffix)

/-- The class names that all mentions of the node attach to it. -/
def classNames (id : Text) (s : Source) : List Text :=
  ((statements s).map Prod.snd).flatMap (Statement.classNames id)

theorem Statement.mem_classNames {st : Statement} :
    name ∈ st.classNames id ↔ ∃ t ∈ st.tokens, t.id = id ∧ t.classSuffix = some name := by
  simp [classNames, and_assoc]

theorem mem_classNames : name ∈ classNames id s ↔
    ∃ p ∈ statements s, ∃ t ∈ p.2.tokens, t.id = id ∧ t.classSuffix = some name := by
  simp only [classNames, List.mem_flatMap, List.mem_map, exists_exists_and_eq_and,
    Statement.mem_classNames]

/-- A mention of the node attaches the class name to it, on a line of its own or on a link that does not
go. -/
def AttachesClass (gone : LinkRecord → Bool) (id name : Text) (s : Source) : Prop :=
  (∃ i n, (i, Statement.node n) ∈ statements s ∧ n.token.id = id ∧ n.token.classSuffix = some name) ∨
    ∃ r ∈ (View.ofSource s).links, gone r = false ∧
      ∃ t ∈ [r.link.source, r.link.target], t.id = id ∧ t.classSuffix = some name

/-- The class names of the node in the second source are those of the first one that do not go with a
link, and these are all exactly if every one that does go is attached elsewhere too. -/
structure KeepsClassNames (gone : LinkRecord → Bool) (id : Text) (s s' : Source) : Prop where
  mem_iff : ∀ name, name ∈ classNames id s' ↔ AttachesClass gone id name s
  all_iff : (∀ name, name ∈ classNames id s' ↔ name ∈ classNames id s) ↔
    ∀ r ∈ (View.ofSource s).links, gone r = true → ∀ t ∈ [r.link.source, r.link.target], t.id = id →
      ∀ name ∈ t.classSuffix, AttachesClass gone id name s

end Flowchart

namespace Edit.Flowchart

open DiagramEditor.Flowchart Source Text

variable {targets : List Text} {extra : List Nat} {s s' removed : Source} {removal : Removal}
  {w id name : Text} {gone : LinkRecord → Bool}

/-- What is written anew attaches no class names. -/
theorem Cascade.classNames_eq (h : Cascade targets extra removal removed w s s') (id : Text) :
    classNames id s' =
      ((keptStatements removal s).map Prod.snd).flatMap (Statement.classNames id) := by
  have hnone : ∀ w id' d text, Statement.classNames id (.node ⟨w, ⟨id', d, none, text⟩, []⟩) = [] := by
    intro w id' d text
    by_cases hid : id' = id <;> simp [Statement.classNames, Statement.tokens, hid]
  rw [classNames, h.flatMap_statements (fun _ _ => hnone _ _ _ _) rfl rfl,
    List.flatMap_eq_nil_iff.2 fun _ _ => hnone _ _ _ _, List.nil_append, flatMap_keptBody h.plan]
  rintro (_ | _) ⟨⟩ <;> rfl

theorem mem_classNames_of_attachesClass (h : AttachesClass gone id name s) : name ∈ classNames id s := by
  rw [mem_classNames]
  rcases h with ⟨i, n, hn, hid, hname⟩ | ⟨r, hr, -, t, ht, hid, hname⟩
  · exact ⟨_, hn, n.token, List.mem_singleton_self _, hid, hname⟩
  · exact ⟨_, View.mem_links hr, t, ht, hid, hname⟩

/-- What a deletion leaves of the class names of a node that stays. -/
theorem IsDeletion.keepsClassNames (h : IsDeletion gone targets extra s s')
    (hkind : s.kind? = some .flowchart) (hid : id ∉ targets) : KeepsClassNames gone id s s' := by
  obtain ⟨hextra, hgone, hok⟩ := h
  obtain ⟨removal, removed, w, h⟩ := exists_cascade hkind hextra hok
  have hstays : ∀ r ∈ (View.ofSource s).links, r.line ∉ removal.lines ↔ gone r = false := by
    intro r hr
    rw [mem_lines_of_link hextra h.plan (View.mem_links hr), ← hgone r hr, Bool.not_eq_true]
  have hmem : ∀ name, name ∈ classNames id s' ↔ AttachesClass gone id name s := by
    intro name
    simp only [h.classNames_eq, List.mem_flatMap, List.mem_map, exists_exists_and_eq_and,
      Statement.mem_classNames, keptStatements, List.mem_filter, Bool.not_eq_true', ← Bool.not_eq_true,
      List.contains_iff_mem]
    constructor
    · rintro ⟨⟨i, st⟩, ⟨hst, hi⟩, t, ht, hid, hname⟩
      cases st with
      | node n =>
        rw [List.mem_singleton.1 ht] at hid hname
        exact .inl ⟨i, n, hst, hid, hname⟩
      | link l =>
        obtain ⟨r, hr, rfl, rfl⟩ := View.exists_mem_links hst
        exact .inr ⟨r, hr, (hstays r hr).1 hi, t, ht, hid, hname⟩
      | _ => cases ht
    · rintro (⟨i, n, hn, hn', hname⟩ | ⟨r, hr, hgone, t, ht, hid, hname⟩)
      · -- A line of the node alone stays, as the node is none of those that go.
        refine ⟨_, ⟨hn, fun hi => ?_⟩, n.token, List.mem_singleton_self _, hn', hname⟩
        exact hid (hn' ▸ ((mem_lines_of_node hextra h.plan hn).1 hi).1)
      · exact ⟨_, ⟨View.mem_links hr, (hstays r hr).2 hgone⟩, t, ht, hid, hname⟩
  refine ⟨hmem, ?_⟩
  simp only [hmem]
  constructor
  · intro hall r hr _ t ht hid name hname
    exact (hall name).2 (mem_classNames.2 ⟨_, View.mem_links hr, t, ht, hid, hname⟩)
  · refine fun hall name => ⟨mem_classNames_of_attachesClass, fun hname => ?_⟩
    obtain ⟨⟨i, st⟩, hst, t, ht, hid, hname⟩ := mem_classNames.1 hname
    cases st with
    | node n =>
      rw [List.mem_singleton.1 ht] at hid hname
      exact .inl ⟨i, n, hst, hid, hname⟩
    | link l =>
      obtain ⟨r, hr, rfl, rfl⟩ := View.exists_mem_links hst
      cases hgoes : gone r with
      | true => exact hall r hr hgoes t ht hid name hname
      | false => exact .inr ⟨r, hr, hgoes, t, ht, hid, hname⟩
    | _ => cases ht

/-- A deletion keeps the class names of every node that stays, those apart that stand on links that go
and nowhere else. -/
theorem delete_keepsClassNames {e : Edited} (ids : IdAllocator) (hkind : s.kind? = some .flowchart) :
    (∀ n, (apply (.deleteNode n) s ids).1 = .ok e → ∀ id, id ≠ n →
      KeepsClassNames (·.link.touches n) id s e.source) ∧
    ∀ i, (apply (.deleteEdge i) s ids).1 = .ok e → ∀ id,
      KeepsClassNames (·.index = i) id s e.source := by
  constructor
  · intro n hok id hid
    exact (isDeletion_deleteNode hok).keepsClassNames hkind (by simpa using hid)
  · intro i hok id
    obtain ⟨line, h⟩ := isDeletion_deleteEdge hok
    exact h.keepsClassNames hkind List.not_mem_nil

/-- The class name of the link that goes stands on another link too, and one of several stays. -/
theorem delete_keepsClassNames_twice :
    let s : Source := .ofText "flowchart TD\nA --> B[b]:::c\nB:::d\nB:::c --> C".toList
    let after : Source := .ofText "flowchart TD\nB[b]\nB:::d\nB:::c --> C".toList
    s.kind? = some .flowchart ∧ (apply (.deleteNode ['A']) s {}).1 = .ok ⟨after, none⟩ ∧
      (apply (.deleteEdge 0) s {}).1 = .ok ⟨after, none⟩ ∧
      KeepsClassNames (·.link.touches ['A']) ['B'] s after ∧
      KeepsClassNames (·.index = 0) ['B'] s after ∧
      classNames ['B'] s = [['c'], ['d'], ['c']] ∧ classNames ['B'] after = [['d'], ['c']] := by
  intro s after
  have hkind : s.kind? = some .flowchart := by decide +kernel
  have hnode : (apply (.deleteNode ['A']) s {}).1 = .ok ⟨after, none⟩ := by decide +kernel
  have hedge : (apply (.deleteEdge 0) s {}).1 = .ok ⟨after, none⟩ := by decide +kernel
  exact ⟨hkind, hnode, hedge, (delete_keepsClassNames {} hkind).1 _ hnode ['B'] (by decide),
    (delete_keepsClassNames {} hkind).2 _ hedge ['B'], by decide +kernel, by decide +kernel⟩

/-- A node that is defined anew, as the link with its only definition has gone, has lost its class
name. -/
theorem not_delete_keepsClassNames :
    let s : Source := .ofText "flowchart TD\nA --> B[b]:::c\nB --> C".toList
    let after : Source := .ofText "flowchart TD\nB[b]\nB --> C".toList
    s.kind? = some .flowchart ∧ (apply (.deleteNode ['A']) s {}).1 = .ok ⟨after, none⟩ ∧
      (apply (.deleteEdge 0) s {}).1 = .ok ⟨after, none⟩ ∧
      ((View.ofSource after).node? ['B']).isSome ∧
      classNames ['B'] s = [['c']] ∧ classNames ['B'] after = [] := by
  decide +kernel

end Edit.Flowchart

end DiagramEditor
