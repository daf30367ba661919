import DiagramEditor.Edit.Flowchart.Move
import DiagramEditor.Proofs.Edit.Flowchart.Add
import DiagramEditor.Proofs.Edit.Flowchart.Restore

/-!
# Lines that move

A node moves by deleting lines that hold it alone and inserting one line somewhere else
(`moveLines?`). None of these lines is a mark, so every mark is carried along (`moveNode_carries`).
-/

namespace DiagramEditor.Edit.Flowchart

open DiagramEditor.Flowchart Source Text
open NodeToken (IsIdent)

variable {s s' : Source} {front body : List Text} {line : Text} {n : NodeRecord}

/-- What a move does with the lines: the ones that are deleted, and the number that the new line
gets afterwards. -/
def moveLines? (id : Text) (into : Option Text) (v : View) : Option (List Nat × Nat) := do
  let node ← v.node? id
  match into with
  | some target => do
    let g ← v.subgraph? target
    match node.standaloneLine? with
    | none => return ([], g.span.stop)
    | some line =>
      if (v.innermost? line).any (·.id = target) then none
      else return ([line], if line < g.span.stop then g.span.stop - 1 else g.span.stop)
  | none =>
    let nested := node.mentions.filter fun m => m.standalone && (v.innermost? m.line).isSome
    return (nested.map (·.line), v.declarationLine.elim 0 (· + 1))

/-- The number of a line after a move. -/
def lineAfterMove (id : Text) (into : Option Text) (v : View) : Nat → Nat :=
  match moveLines? id into v with
  | none => fun j => j
  | some (gone, slot) => fun j => lineAfterInsert slot 1 (lineAfterDelete gone j)

/-! ## Lines that hold a node -/

/-- A mention that stands alone has a line of its node. -/
theorem exists_node_of_standalone {m : Mention} (hn : n ∈ (View.ofSource s).nodes)
    (hm : m ∈ n.mentions) (halone : m.standalone = true) :
    ∃ t, (m.line, Statement.node t) ∈ statements s ∧ t.token.id = n.id := by
  obtain ⟨token, hmem, hid⟩ := (View.mem_mentions_of_node hn).1 hm
  obtain ⟨⟨i, st⟩, hst, hmt⟩ := View.mem_mentions.1 hmem
  obtain ⟨rfl, -⟩ := View.line_defines_of_mem_mentions hmt
  cases st with
  | node t =>
    obtain ⟨-, rfl⟩ := Prod.mk.inj (List.mem_singleton.1 hmt)
    exact ⟨t, hst, hid⟩
  | link l =>
    rcases List.mem_pair.1 hmt with heq | heq <;>
      · rw [(Prod.mk.inj heq).1] at halone
        cases halone
  | _ => cases hmt

theorem exists_mention_of_standaloneLine? {i : Nat} (h : n.standaloneLine? = some i) :
    ∃ m ∈ n.mentions, m.standalone = true ∧ m.line = i := by
  obtain ⟨m, hm, rfl⟩ := Option.map_eq_some_iff.1 h
  rcases Option.or_eq_some_iff.1 hm with hm | ⟨-, hm⟩
  · have hp := List.find?_some hm
    rw [Bool.and_eq_true] at hp
    exact ⟨m, List.mem_of_find?_eq_some hm, hp.1, rfl⟩
  · exact ⟨m, List.mem_of_find?_eq_some hm, List.find?_some hm, rfl⟩

/-- What a move writes: the text of a line that goes, behind other blanks, or the id of the node where no
line goes. -/
inductive IsMovedText (gone : List Nat) (moved? : Option Nat) (n : NodeRecord) (s : Source) : Text → Prop
  | named {w : Text} (hgone : gone = []) (hmoved : moved? = none) (hw : IsBlank w) :
      IsMovedText gone moved? n s (w ++ n.id)
  | moved {i : Nat} {t : NodeLine} {text w : Text} (hi : i ∈ gone) (hmoved : moved? = some i)
      (ht : (i, Statement.node t) ∈ statements s) (hid : t.token.id = n.id)
      (htext : lineAt i s = .ok text) (hw : IsBlank w) : IsMovedText gone moved? n s (w ++ trim text)

/-- A line of a node is read as one when it is written behind other blanks. -/
theorem ofLine?_of_node {i : Nat} {t : NodeLine} {text : Text}
    (ht : (i, Statement.node t) ∈ statements s) (htext : lineAt i s = .ok text) :
    NodeLine.ofLine? text = some t := by
  obtain ⟨text', hget, hread⟩ := exists_line_of_mem_statements ht
  rw [lineAt_eq_ok htext] at hget
  cases hget
  have hnode := Statement.readsFrom_ofLine text
  rwa [hread] at hnode

theorem IsMovedText.isMark {gone : List Nat} {moved? : Option Nat} {text : Text}
    (h : IsMovedText gone moved? n s text) (hid : IsIdent n.id) :
    (Statement.ofLine text).isMark = false := by
  cases h with
  | named _ _ hw => exact isMark_of_ident hw hid
  | moved _ _ ht _ htext hw => exact isMark_of_nodeLine (ofLine?_of_node ht htext) hw

/-- Lines that hold the node alone are deleted, and one is inserted in front of what was the line
`stop`. -/
structure IsMove (gone : List Nat) (stop : Nat) (moved? : Option Nat) (n : NodeRecord)
    (s s' : Source) : Prop where
  node : ∀ i ∈ gone, ∃ t, (i, Statement.node t) ∈ statements s ∧ t.token.id = n.id
  le : stop ≤ s.length
  insert : ∃ text, IsMovedText gone moved? n s text ∧
    insertLines (lineAfterDelete gone stop) [text] (s.deleteLineSet gone) = .ok s'

/-! ## Moving -/

section Declared

variable (h : IsDeclared .flowchart front line body s)

include h

theorem IsMove.lt {gone : List Nat} {stop : Nat} {moved? : Option Nat}
    (hmove : IsMove gone stop moved? n s s') : ∀ i ∈ gone, front.length < i := fun i hi =>
  (hmove.node i hi).elim fun _ ht => lt_of_mem_statements h ht.1

/-- No mark goes, and none comes. -/
theorem IsMove.carries {gone : List Nat} {stop : Nat} {moved? : Option Nat}
    (hmove : IsMove gone stop moved? n s s') (hid : IsIdent n.id) (hstop : front.length < stop) :
    Carries (fun j => lineAfterInsert (lineAfterDelete gone stop) 1 (lineAfterDelete gone j)) s s' := by
  obtain ⟨text, htext, hok⟩ := hmove.insert
  have hdecl := isDeclared_deleteLineSet h (hmove.lt h)
  have hcarries := carries_deleteLineSet h (hmove.lt h) fun i hi st hst => by
    obtain ⟨t, ht, -⟩ := hmove.node i hi
    rw [eq_of_mem_statements hst ht]
    rfl
  obtain ⟨k, rfl⟩ : ∃ k, stop = front.length + 1 + k := ⟨stop - (front.length + 1), by omega⟩
  have hslot := lineAfterDelete_add (hmove.lt h) k
  obtain ⟨before, after, hsplit, hbefore, hdecl'⟩ := insertLines_body hdecl (by omega) hok
  rw [hsplit] at hdecl
  have hinsert := carries_insert hdecl hdecl' fun t ht => List.mem_singleton.1 ht ▸ htext.isMark hid
  rw [show front.length + 1 + before.length = lineAfterDelete gone (front.length + 1 + k) by omega]
    at hinsert
  exact hcarries.trans hinsert

end Declared

/-- The mentions that hold the node alone inside of a subgraph. -/
def nestedMentions (n : NodeRecord) (v : View) : List Mention :=
  n.mentions.filter fun m => m.standalone && (v.innermost? m.line).isSome

/-- The line whose text a move into a subgraph, or out of all, writes at the new place. -/
def movedLine? (into : Option Text) (n : NodeRecord) (v : View) : Option Nat :=
  match into with
  | some _ => n.standaloneLine?
  | none => (((nestedMentions n v).find? (·.defines)).or (nestedMentions n v).head?).map (·.line)

/-- Into a subgraph a node moves in front of its last line, unless its own line is in there. -/
theorem moveInto_cases {target : Text} (hlength : s.length < indexBound)
    (hn : n ∈ (View.ofSource s).nodes) (hok : moveInto n target (View.ofSource s) s = .ok s') :
    ∃ g, (View.ofSource s).subgraph? target = some g ∧
      ((∃ i, n.standaloneLine? = some i ∧
          ((View.ofSource s).innermost? i).any (·.id = target) = true ∧
          moveLines? n.id (some target) (View.ofSource s) = none ∧ s' = s) ∨
        moveLines? n.id (some target) (View.ofSource s) =
            some (n.standaloneLine?.toList, lineAfterDelete n.standaloneLine?.toList g.span.stop) ∧
          IsMove n.standaloneLine?.toList g.span.stop n.standaloneLine? n s s') := by
  have hnode := View.node?_eq_some_iff.2 ⟨hn, rfl⟩
  obtain ⟨g, hg, hok⟩ := bind_eq_ok.1 hok
  obtain ⟨endText, -, hok⟩ := bind_eq_ok.1 hok
  have hsubgraph := requireSubgraph_eq_ok hg
  have hle : g.span.stop ≤ s.length := Nat.le_of_lt
    (View.spansWithin_ofSource s g (List.mem_of_find?_eq_some hsubgraph)).2.2
  have hw : IsBlank (indent endText ++ indentStep) := (isBlank_indent endText).append isBlank_indentStep
  refine ⟨g, hsubgraph, ?_⟩
  cases hline : n.standaloneLine? with
  | none =>
    simp only [hline] at hok
    rw [← deleteLineSet_nil s] at hok
    have hslot : lineAfterDelete [] g.span.stop = g.span.stop := by simp [lineAfterDelete]
    refine .inr ⟨by simp [moveLines?, hnode, hsubgraph, hline, hslot],
      fun _ hi => absurd hi List.not_mem_nil, hle, _, .named rfl rfl hw, ?_⟩
    rw [Option.toList_none, hslot]
    exact hok
  | some i =>
    simp only [hline] at hok
    obtain ⟨m, hm, halone, rfl⟩ := exists_mention_of_standaloneLine? hline
    obtain ⟨t, hst, hid⟩ := exists_node_of_standalone hn hm halone
    split at hok
    · next hmember =>
      cases hok
      exact .inl ⟨m.line, rfl, hmember, by simp [moveLines?, hnode, hsubgraph, hline, hmember], rfl⟩
    · next hmember =>
      obtain ⟨text, htext, hok⟩ := bind_eq_ok.1 hok
      obtain ⟨_, hdelete, hok⟩ := bind_eq_ok.1 hok
      have hlt : m.line < s.length := (List.getElem?_eq_some_iff.1 (lineAt_eq_ok htext)).1
      rw [deleteLines_one hlt hlength] at hdelete
      cases hdelete
      have hslot := lineAfterDelete_singleton m.line g.span.stop
      refine .inr ⟨?_, fun j hj => ⟨t, List.mem_singleton.1 hj ▸ hst, hid⟩, hle, _,
        .moved List.mem_cons_self rfl hst hid htext hw, ?_⟩
      · simp [moveLines?, hnode, hsubgraph, hline, hmember, hslot]
      · rw [Option.toList_some, hslot]
        exact hok

theorem exists_node_of_nested (hn : n ∈ (View.ofSource s).nodes) {i : Nat}
    (hi : i ∈ (nestedMentions n (View.ofSource s)).map (·.line)) :
    ∃ t, (i, Statement.node t) ∈ statements s ∧ t.token.id = n.id := by
  obtain ⟨m, hm, rfl⟩ := List.mem_map.1 hi
  obtain ⟨hm, hin⟩ := List.mem_filter.1 hm
  rw [Bool.and_eq_true] at hin
  exact exists_node_of_standalone hn hm hin.1

/-- Out of all subgraphs a node moves below the declaration. -/
theorem moveOut_isMove (h : IsDeclared .flowchart front line body s)
    (hn : n ∈ (View.ofSource s).nodes) (hok : moveOut n (View.ofSource s) s = .ok s') :
    ∃ gone, moveLines? n.id none (View.ofSource s) =
        some (gone, lineAfterDelete gone (front.length + 1)) ∧
      (movedLine? none n (View.ofSource s)).isSome ∧
      IsMove gone (front.length + 1) (movedLine? none n (View.ofSource s)) n s s' := by
  have hdecl : (View.ofSource s).declarationLine = some front.length := by
    rw [View.declarationLine_ofSource, h.declarationOf?]
  have hlines : moveLines? n.id none (View.ofSource s) =
      some ((nestedMentions n (View.ofSource s)).map (·.line), front.length + 1) := by
    simp [moveLines?, nestedMentions, View.node?_eq_some_iff.2 ⟨hn, rfl⟩, hdecl]
  have hgone := fun i => exists_node_of_nested (i := i) hn
  have hslot : lineAfterDelete ((nestedMentions n (View.ofSource s)).map (·.line)) (front.length + 1) =
      front.length + 1 :=
    lineAfterDelete_add (fun i hi => (hgone i hi).elim fun _ ht => lt_of_mem_statements h ht.1) 0
  have hle : front.length + 1 ≤ s.length := by
    rw [Source.length, h.lines, List.length_append, List.length_cons]
    omega
  simp only [moveOut] at hok
  rw [movedLine?]
  split at hok
  · cases hok
  · next moved hmoved =>
    have hin : moved ∈ nestedMentions n (View.ofSource s) := by
      rcases Option.or_eq_some_iff.1 hmoved with hfind | ⟨-, hhead⟩
      exacts [List.mem_of_find?_eq_some hfind, List.mem_of_head? hhead]
    obtain ⟨t, ht, hid⟩ := hgone _ (List.mem_map_of_mem hin)
    obtain ⟨text, htext, hok⟩ := bind_eq_ok.1 hok
    simp only [hdecl, Option.elim_some] at hok
    have hw := isBlank_bodyIndent (some front.length)
      (s.deleteLineSet ((nestedMentions n (View.ofSource s)).map (·.line)))
    refine ⟨_, by rw [hlines, hslot], by rw [nestedMentions, hmoved]; rfl, hgone, hle, _,
      .moved (List.mem_map_of_mem hin) (by rw [nestedMentions, hmoved]; rfl) ht hid htext hw, ?_⟩
    rw [hslot]
    exact hok

/-- A move carries every mark along. -/
theorem moveNode_carries {id : Text} {into : Option Text} {e : Edited}
    (h : IsDeclared .flowchart front line body s) (hlength : s.length < indexBound)
    (hok : moveNode id into s = .ok e) :
    Carries (lineAfterMove id into (View.ofSource s)) s e.source := by
  obtain ⟨n, hn, hok⟩ := bind_eq_ok.1 hok
  obtain ⟨hmem, rfl⟩ := View.node?_eq_some_iff.1 (requireNode_eq_ok hn)
  have hid : IsIdent n.id := (areScanned_nodes s n hmem).1
  cases into with
  | none =>
    obtain ⟨s', hs', hok⟩ := bind_eq_ok.1 hok
    cases hok
    obtain ⟨gone, hlines, -, hmove⟩ := moveOut_isMove h hmem hs'
    rw [lineAfterMove, hlines]
    exact hmove.carries h hid (Nat.lt_succ_self _)
  | some target =>
    obtain ⟨s', hs', hok⟩ := bind_eq_ok.1 hok
    cases hok
    obtain ⟨g, hg, ⟨_, -, -, hlines, rfl⟩ | ⟨hlines, hmove⟩⟩ := moveInto_cases hlength hmem hs'
    · rw [lineAfterMove, hlines]
      exact (List.map_id _).symm
    · rw [lineAfterMove, hlines]
      exact hmove.carries h hid (View.lt_stop_of_mem_subgraphs h (List.mem_of_find?_eq_some hg))

end DiagramEditor.Edit.Flowchart
