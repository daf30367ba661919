import DiagramEditor.Proofs.Edit.Flowchart.Relabel
import DiagramEditor.Proofs.Flowchart.Commute

/-!
# Edits of different nodes commute

A label or a shape for one node and a label or a shape for another one can be given in any order: the
text is the same, also when the nodes are the two ends of a link (`applyOps_comm`). The first edit
moves the mentions of the other node, but it does not change which of them are the ones to be defined
anew (`follows_chosenMentions`).

Both edits have to be safe in the source as it is (`IsShielded`). A label for the target of a link can
end a label that the source leaves open, but not once the source has got a label of its own. Then the
order matters (`not_applyOps_comm`).
-/

namespace DiagramEditor.Edit.Flowchart

open DiagramEditor.Flowchart Source Text
open DiagramEditor.Flowchart.View (mentions mentionsOf)

variable {s : Source} {id a b : Text} {n n' m : NodeRecord}
  {rebuild remake : Option NodeDefinition → NodeDefinition} {chosen : Mention → Bool}

/-! ## The mentions to be defined anew -/

/-- A mention of another node defines it after the edit if it did so before. -/
theorem defines_of_mem_recastPairs (h : IsRedefinable rebuild chosen id s)
    {w : (Mention × NodeToken) × (Mention × NodeToken)}
    (hw : w ∈ recastPairs rebuild chosen (statements s)) (hne : id ≠ w.1.2.id) :
    w.2.1.defines = w.1.1.defines := by
  have hrecast := recast_of_mem_recastPairs hw
  have hmem : w.1 ∈ mentions (statements s) :=
    map_fst_recastPairs rebuild chosen _ ▸ List.mem_map_of_mem hw
  obtain ⟨q, hq, hin⟩ := View.mem_mentions.1 hmem
  have hno : chosen w.1.1 = false := by
    rw [← Bool.not_eq_true]
    exact fun hchosen => hne (h.chooses q hq w.1 hin hchosen).symm
  rw [hrecast.defines, hrecast.token_of_not_chosen hno, (View.line_defines_of_mem_mentions hin).2]

/-- Side by side with the new mentions stand the old ones, and no two of either are the same. -/
theorem nodup_map_recastPairs (h : IsRedefinable rebuild chosen id s) :
    ((recastPairs rebuild chosen (statements s)).map fun w => w.1.1).Nodup ∧
      ((recastPairs rebuild chosen (statements s)).map fun w => w.2.1).Nodup := by
  have hold := nodup_map_fst_mentions s
  have hnew := nodup_map_fst_mentions (redefinedSource rebuild chosen s)
  rw [← map_fst_recastPairs rebuild chosen, List.map_map] at hold
  rw [statements_redefinedSource h, ← map_snd_recastPairs, List.map_map] at hnew
  exact ⟨hold, hnew⟩

/-- The old and the new mentions of a node that stand side by side are all that it has. -/
theorem mentions_eq_map_recastPairs (h : IsRedefinable rebuild chosen id s)
    (hn : n ∈ (View.ofSource s).nodes)
    (hn' : n' ∈ (View.ofSource (redefinedSource rebuild chosen s)).nodes) (hid : n'.id = n.id) :
    n.mentions = ((recastPairs rebuild chosen (statements s)).filter fun w => w.1.2.id = n.id).map
        (fun w => w.1.1) ∧
      n'.mentions = ((recastPairs rebuild chosen (statements s)).filter fun w => w.1.2.id = n.id).map
        fun w => w.2.1 := by
  constructor
  · rw [View.mentions_eq hn, ← map_fst_recastPairs rebuild chosen, mentionsOf,
      List.filter_map, List.map_map]
    rfl
  · rw [View.mentions_eq hn', statements_redefinedSource h, ← map_snd_recastPairs, mentionsOf,
      List.filter_map, List.map_map, hid]
    refine congrArg (List.map _) (List.filter_congr fun w hw => ?_)
    rw [Function.comp_apply, (recast_of_mem_recastPairs hw).id_eq]

/-- When another node is defined anew the same mentions of the node are the ones to be defined anew. -/
theorem follows_chosenMentions (h : IsRedefinable rebuild chosen id s) (hne : id ≠ n.id)
    (hn : n ∈ (View.ofSource s).nodes)
    (hn' : n' ∈ (View.ofSource (redefinedSource rebuild chosen s)).nodes) (hid : n'.id = n.id) :
    Follows rebuild chosen (chosenMentions n).contains (chosenMentions n').contains s := by
  obtain ⟨hold, hnew⟩ := mentions_eq_map_recastPairs h hn hn' hid
  obtain ⟨hnodup, hnodup'⟩ := nodup_map_recastPairs h
  -- The choice is made once, among the pairs, and both sources have it as theirs.
  let own := (recastPairs rebuild chosen (statements s)).filter fun w => w.1.2.id = n.id
  let picked := definingOrFirst (fun w => w.1.1.defines) own
  have hpicked : picked ⊆ recastPairs rebuild chosen (statements s) :=
    ((definingOrFirst_sublist _ _).trans List.filter_sublist).subset
  have hchosen : chosenMentions n = picked.map fun w => w.1.1 := by
    rw [chosenMentions_eq, hold, definingOrFirst_map]
    rfl
  have hchosen' : chosenMentions n' = picked.map fun w => w.2.1 := by
    rw [chosenMentions_eq, hnew, definingOrFirst_map]
    refine congrArg (List.map _) (definingOrFirst_congr fun w hw => ?_)
    obtain ⟨hmem, hown⟩ := List.mem_filter.1 hw
    exact defines_of_mem_recastPairs h hmem (of_decide_eq_true hown ▸ hne)
  intro w hw
  rw [Bool.eq_iff_iff, List.contains_iff_mem, List.contains_iff_mem, hchosen, hchosen']
  exact (mem_map_iff_of_nodup hnodup' hpicked hw).trans (mem_map_iff_of_nodup hnodup hpicked hw).symm

/-- The other node after the edit: it has the label it had, and its mentions are as safe as before. -/
theorem exists_behind (h : IsRedefinable rebuild chosen a s) (hne : a ≠ b)
    (hquotes : NodeDefinition.QuotesLabel rebuild) (hm : (View.ofSource s).node? b = some m)
    (h' : IsRedefinable remake (chosenMentions m).contains b s) :
    ∃ m', (View.ofSource (redefinedSource rebuild chosen s)).node? b = some m' ∧ m'.label = m.label ∧
      Follows rebuild chosen (chosenMentions m).contains (chosenMentions m').contains s ∧
      IsRedefinable remake (chosenMentions m').contains b (redefinedSource rebuild chosen s) := by
  obtain ⟨m', hm', hsame⟩ := (View.isRedefined_ofSource h).exists_node? hm
  obtain ⟨hmem, rfl⟩ := View.node?_eq_some_iff.1 hm
  have hmem' := (View.node?_eq_some_iff.1 hm').1
  have hfollows := follows_chosenMentions h hne hmem hmem' hsame.id_eq
  refine ⟨m', hm', ?_, hfollows, h.behind hne h' hfollows hquotes⟩
  rw [NodeRecord.label, NodeRecord.label, (hsame.definition hne.symm).1, hsame.id_eq]

/-! ## Labels and shapes -/

/-- An edit that defines a node anew. -/
inductive Redefinition
  /-- The node gets another label. -/
  | relabel (label : Text)
  /-- The node gets another shape. -/
  | reshape (shape : NodeShape)

namespace Redefinition

/-- The edit for the node `id`. -/
def op (id : Text) : Redefinition → Op
  | .relabel label => .flowchart (.editLabel id label)
  | .reshape shape => .flowchart (.setNodeShape id shape)

/-- How the mentions of the node are defined anew. -/
def rebuildFor (n : NodeRecord) : Redefinition → Option NodeDefinition → NodeDefinition
  | .relabel label => relabeled label
  | .reshape shape => reshaped shape n.label

theorem rebuildFor_congr (h : n'.label = n.label) (e : Redefinition) :
    e.rebuildFor n' = e.rebuildFor n := by
  cases e with
  | relabel label => rfl
  | reshape shape => rw [rebuildFor, rebuildFor, h]

theorem applyOp_op (hn : (View.ofSource s).node? id = some n) (e : Redefinition) {edited : Edited}
    (hok : redefine id (e.rebuildFor n) s = .ok edited) (ids : IdAllocator) :
    applyOp .flowchart (e.op id) s ids = (.ok edited, ids) := by
  cases e with
  | relabel label => rw [op, applyOp, Flowchart.apply, editLabel_eq, ← hok, rebuildFor]
  | reshape shape => rw [op, applyOp, Flowchart.apply, setNodeShape_eq hn, ← hok, rebuildFor]

end Redefinition

theorem quotesLabel_relabeled (label : Text) : NodeDefinition.QuotesLabel (relabeled label) := by
  intro d id
  cases d with
  | none => exact NodeDefinition.two_le_count_classic .rect label id
  | some d => exact d.two_le_count_withLabel label id

theorem quotesLabel_reshaped (shape : NodeShape) (label : Text) :
    NodeDefinition.QuotesLabel (reshaped shape label) :=
  fun _ id => NodeDefinition.two_le_count_classic shape label id

/-- Labels that are quoted alike are written alike. -/
theorem render_relabeled_congr {label label' : Text} (h : quote label = quote label')
    (d : Option NodeDefinition) (id : Text) :
    (relabeled label d).render id = (relabeled label' d).render id := by
  cases d with
  | none => simp only [relabeled, NodeDefinition.render, NodeDefinition.classic, h]
  | some d =>
    cases hform : d.form <;>
      simp only [relabeled, NodeDefinition.withLabel, NodeDefinition.render, NodeDefinition.classic,
        hform, h]

/-- Only what is written for a mention matters. -/
theorem redefine_congr (h : ∀ d id, (rebuild d).render id = (remake d).render id) (id : Text)
    (s : Source) : redefine id rebuild s = redefine id remake s := by
  have hmention : redefineMention id rebuild = redefineMention id remake := by
    funext s m
    simp only [redefineMention, redefineToken?, h]
  rw [redefine, redefine, hmention]

theorem IsShielded.congr (hshielded : IsShielded rebuild n s)
    (h : ∀ d id, (rebuild d).render id = (remake d).render id) : IsShielded remake n s := by
  intro r hr hchosen
  have htext : (r.link.target.redefine rebuild).text = (r.link.target.redefine remake).text := by
    simp only [NodeToken.redefine, h]
  exact htext ▸ hshielded r hr hchosen

/-- What the edit writes is read back, if need be as the definition with another label that is written
alike. -/
theorem Redefinition.exists_rebuilds (hn : n ∈ (View.ofSource s).nodes) (e : Redefinition) :
    ∃ rebuild, NodeDefinition.Rebuilds rebuild ∧ NodeDefinition.QuotesLabel rebuild ∧
      ∀ d id, (e.rebuildFor n d).render id = (rebuild d).render id := by
  cases e with
  | relabel label =>
    -- An entity in the label is read as a quote, and a quote is written as an entity.
    exact ⟨_, rebuilds_relabeled (not_infix_unquote (quote label)), quotesLabel_relabeled _,
      render_relabeled_congr (quote_unquote_quote label).symm⟩
  | reshape shape =>
    exact ⟨_, rebuilds_reshaped (not_infix_label hn) shape, quotesLabel_reshaped shape n.label,
      fun _ _ => rfl⟩

/-- One edit after the other. -/
theorem applyOps_pair {e f : Redefinition} (hn : (View.ofSource s).node? a = some n)
    (hm : (View.ofSource s).node? b = some m) (hne : a ≠ b)
    (hquotes : NodeDefinition.QuotesLabel rebuild)
    (h : IsRedefinable rebuild (chosenMentions n).contains a s)
    (h' : IsRedefinable remake (chosenMentions m).contains b s)
    (hsame : ∀ d id, (e.rebuildFor n d).render id = (rebuild d).render id)
    (hsame' : ∀ d id, (f.rebuildFor m d).render id = (remake d).render id) :
    ∃ other, Follows rebuild (chosenMentions n).contains (chosenMentions m).contains other s ∧
      ∀ earlier ids, applyOps .flowchart [e.op a, f.op b] ⟨s, earlier⟩ ids =
        (.ok ⟨redefinedSource remake other (redefinedSource rebuild (chosenMentions n).contains s),
          some (.node b)⟩, ids) := by
  obtain ⟨m', hm', hlabel, hfollows, hsafe⟩ := exists_behind h hne hquotes hm h'
  have hfirst := redefine_eq hn h
  have hsecond := redefine_eq hm' hsafe
  rw [← redefine_congr hsame] at hfirst
  rw [← redefine_congr hsame', ← Redefinition.rebuildFor_congr hlabel] at hsecond
  refine ⟨_, hfollows, fun earlier ids => ?_⟩
  rw [applyOps_cons_of_eq (e.applyOp_op hn hfirst ids) (checkBalance_redefinedSource h)]
  exact applyOps_singleton_of_eq (f.applyOp_op hm' hsecond ids) (checkBalance_redefinedSource hsafe) _

/-- Of two nodes each gets another label or another shape. The order does not matter, if no link into
either node leaves a label open that the new text would end. -/
theorem applyOps_comm (hn : (View.ofSource s).node? a = some n)
    (hm : (View.ofSource s).node? b = some m) (hne : a ≠ b) (e f : Redefinition)
    (hshielded : IsShielded (e.rebuildFor n) n s) (hshielded' : IsShielded (f.rebuildFor m) m s) :
    ∃ s', ∀ earlier ids,
      applyOps .flowchart [e.op a, f.op b] ⟨s, earlier⟩ ids = (.ok ⟨s', some (.node b)⟩, ids) ∧
      applyOps .flowchart [f.op b, e.op a] ⟨s, earlier⟩ ids = (.ok ⟨s', some (.node a)⟩, ids) := by
  obtain ⟨hmem, rfl⟩ := View.node?_eq_some_iff.1 hn
  obtain ⟨hmem', rfl⟩ := View.node?_eq_some_iff.1 hm
  obtain ⟨rebuild, hr, hquotes, hsame⟩ := e.exists_rebuilds hmem
  obtain ⟨remake, hr', hquotes', hsame'⟩ := f.exists_rebuilds hmem'
  have h := isRedefinable hmem hr (hshielded.congr hsame)
  have h' := isRedefinable hmem' hr' (hshielded'.congr hsame')
  -- Both orders are the same lemma, and what they leave is compared as sources.
  obtain ⟨_, hfollows, hok⟩ := applyOps_pair hn hm hne hquotes h h' hsame hsame'
  obtain ⟨_, hfollows', hok'⟩ := applyOps_pair hm hn hne.symm hquotes' h' h hsame' hsame
  rw [← redefinedSource_comm h hne h' hfollows hfollows'] at hok'
  exact ⟨_, fun earlier ids => ⟨hok earlier ids, hok' earlier ids⟩⟩

/-- The nodes are the two ends of two links, in both directions, and share a third line. The one is
defined in advanced form and gets a label with an entity in it; the other one is not defined at all, so
that its first mention is. -/
theorem applyOps_comm_ends :
    let s : Source := .ofText ("flowchart TD\nA --> B:::hot\nB -- t --> A@\x7b shape: circle \x7d\n" ++
      "A[\"(\"] --> B").toList
    let e : Redefinition := .relabel "\")#quot;".toList
    let f : Redefinition := .reshape .cylinder
    ∃ n m, (View.ofSource s).node? ['A'] = some n ∧ (View.ofSource s).node? ['B'] = some m ∧
      ['A'] ≠ ['B'] ∧ IsShielded (e.rebuildFor n) n s ∧ IsShielded (f.rebuildFor m) m s ∧
      ∃ s', ∀ earlier ids,
        applyOps .flowchart [e.op ['A'], f.op ['B']] ⟨s, earlier⟩ ids =
          (.ok ⟨s', some (.node ['B'])⟩, ids) ∧
        applyOps .flowchart [f.op ['B'], e.op ['A']] ⟨s, earlier⟩ ids =
          (.ok ⟨s', some (.node ['A'])⟩, ids) := by
  intro s e f
  -- The source is read once for all of it.
  obtain ⟨hsome, hsome', hshielded, hshielded'⟩ :
      ((View.ofSource s).node? ['A']).isSome ∧ ((View.ofSource s).node? ['B']).isSome ∧
        (∀ n ∈ (View.ofSource s).node? ['A'], IsShielded (e.rebuildFor n) n s) ∧
        ∀ m ∈ (View.ofSource s).node? ['B'], IsShielded (f.rebuildFor m) m s := by decide +kernel
  obtain ⟨n, hn⟩ := Option.isSome_iff_exists.1 hsome
  obtain ⟨m, hm⟩ := Option.isSome_iff_exists.1 hsome'
  have hne : ['A'] ≠ ['B'] := by decide
  exact ⟨n, m, hn, hm, hne, hshielded n hn, hshielded' m hm,
    applyOps_comm hn hm hne e f (hshielded n hn) (hshielded' m hm)⟩

/-- The label of `B` closes a shape that `A` opens with a double quote in it, and the link is no link
any more. Then `A` is defined anew where else it is mentioned, in the other order in the link. -/
theorem not_applyOps_comm :
    let s : Source := .ofText "flowchart TD\nA[(\"x] --> B\nA".toList
    let s₁ : Source := .ofText "flowchart TD\nA[\"y\"] --> B[\")]\"]\nA".toList
    let s₂ : Source := .ofText "flowchart TD\nA[(\"x] --> B[\")]\"]\nA[\"y\"]".toList
    let relabelA : Op := .flowchart (.editLabel ['A'] ['y'])
    let relabelB : Op := .flowchart (.editLabel ['B'] [')', ']'])
    (View.ofSource s).nodes.map (·.id) = [['A'], ['B']] ∧
      (applyOps .flowchart [relabelA, relabelB] ⟨s, none⟩ {}).1 = .ok ⟨s₁, some (.node ['B'])⟩ ∧
      (applyOps .flowchart [relabelB, relabelA] ⟨s, none⟩ {}).1 = .ok ⟨s₂, some (.node ['A'])⟩ ∧
      s₁.toText ≠ s₂.toText := by
  decide +kernel

end DiagramEditor.Edit.Flowchart
