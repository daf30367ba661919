import DiagramEditor.Proofs.Flowchart.Relabel

/-!
# Two nodes defined anew

Mentions of two nodes are chosen, and those of the one and then those of the other are defined anew.
The second choice is made in the source that the first one leaves, where mentions stand elsewhere. So
old and new mentions are put side by side (`recastPairs`), and a choice there `Follows` one here. Then
both orders write the same lines (`redefinedSource_comm`).

Each step is safe after the other one if it was safe before (`IsRedefinable.behind`). A target that is
not read as a part of the source in front of it is not so either when that source was defined anew,
as the new definition has a quoted label, and no quote is open behind it.
-/

namespace DiagramEditor.Flowchart

open Text Source

variable {s : Source} {id id' : Text} {i : Nat} {st : Statement} {sts : List (Nat × Statement)}
  {rebuild remake : Option NodeDefinition → NodeDefinition}
  {chosen chosen' other other' : Mention → Bool}

/-! ## Mentions side by side -/

/-- The mentions of the statement, each with what it is after the chosen ones are defined anew. -/
def Statement.recastPairs (rebuild : Option NodeDefinition → NodeDefinition) (chosen : Mention → Bool)
    (i : Nat) (st : Statement) : List ((Mention × NodeToken) × (Mention × NodeToken)) :=
  (st.mentions i).zip ((st.redefine rebuild chosen i).mentions i)

/-- The mentions of the statements, each with what it is after the chosen ones are defined anew. -/
def recastPairs (rebuild : Option NodeDefinition → NodeDefinition) (chosen : Mention → Bool)
    (sts : List (Nat × Statement)) : List ((Mention × NodeToken) × (Mention × NodeToken)) :=
  sts.flatMap fun q => q.2.recastPairs rebuild chosen q.1

namespace Statement

theorem map_fst_recastPairs (rebuild : Option NodeDefinition → NodeDefinition)
    (chosen : Mention → Bool) (i : Nat) (st : Statement) :
    (st.recastPairs rebuild chosen i).map Prod.fst = st.mentions i :=
  List.map_fst_zip (st.recast_mentions i).length_eq.le

theorem map_snd_recastPairs : (st.recastPairs rebuild chosen i).map Prod.snd =
    (st.redefine rebuild chosen i).mentions i :=
  List.map_snd_zip (st.recast_mentions i).length_eq.ge

theorem recast_of_mem_recastPairs {w : (Mention × NodeToken) × (Mention × NodeToken)}
    (h : w ∈ st.recastPairs rebuild chosen i) : Recast rebuild chosen w.1 w.2 :=
  (List.forall₂_iff_zip.1 (st.recast_mentions i)).2 h

end Statement

theorem map_fst_recastPairs (rebuild : Option NodeDefinition → NodeDefinition)
    (chosen : Mention → Bool) (sts : List (Nat × Statement)) :
    (recastPairs rebuild chosen sts).map Prod.fst = View.mentions sts := by
  rw [recastPairs, List.map_flatMap, View.mentions]
  exact List.flatMap_congr fun _ _ => Statement.map_fst_recastPairs ..

theorem map_snd_recastPairs : (recastPairs rebuild chosen sts).map Prod.snd =
    View.mentions (redefined rebuild chosen sts) := by
  rw [recastPairs, List.map_flatMap, View.mentions, redefined, List.flatMap_map]
  exact List.flatMap_congr fun _ _ => Statement.map_snd_recastPairs

theorem recast_of_mem_recastPairs {w : (Mention × NodeToken) × (Mention × NodeToken)}
    (h : w ∈ recastPairs rebuild chosen sts) : Recast rebuild chosen w.1 w.2 := by
  obtain ⟨_, -, hw⟩ := List.mem_flatMap.1 h
  exact Statement.recast_of_mem_recastPairs hw

/-- What `other` chooses of the statement, `other'` chooses after the mentions are defined anew. -/
def Statement.Follows (rebuild : Option NodeDefinition → NodeDefinition)
    (chosen other other' : Mention → Bool) (i : Nat) (st : Statement) : Prop :=
  ∀ w ∈ st.recastPairs rebuild chosen i, other' w.2.1 = other w.1.1

/-- What `other` chooses in the source, `other'` chooses after the mentions are defined anew. -/
def Follows (rebuild : Option NodeDefinition → NodeDefinition) (chosen other other' : Mention → Bool)
    (s : Source) : Prop :=
  ∀ w ∈ recastPairs rebuild chosen (statements s), other' w.2.1 = other w.1.1

theorem Follows.statement (h : Follows rebuild chosen other other' s) (hst : (i, st) ∈ statements s) :
    st.Follows rebuild chosen other other' i :=
  fun w hw => h w (List.mem_flatMap.2 ⟨(i, st), hst, hw⟩)

/-! ## One statement -/

/-- The token, defined anew if it is chosen. -/
def NodeToken.recast (rebuild : Option NodeDefinition → NodeDefinition) (chosen : Bool)
    (t : NodeToken) : NodeToken :=
  if chosen then t.redefine rebuild else t

/-- Of two ways to define a token anew only one is taken, so there is no first one. -/
theorem NodeToken.recast_comm {a b : Bool} (h : b = true → a = false) (t : NodeToken) :
    (t.recast rebuild a).recast remake b = (t.recast remake b).recast rebuild a := by
  cases b with
  | false => rfl
  | true => rw [h rfl]; rfl

/-- The link with the chosen ones of its two mentions defined anew. -/
def LinkLine.recast (rebuild : Option NodeDefinition → NodeDefinition) (chosen : Mention → Bool)
    (i : Nat) (l : LinkLine) : LinkLine :=
  { l with
    source := l.source.recast rebuild (chosen (l.sourceMention i))
    target := l.target.recast rebuild (chosen (l.targetMention i)) }

/-- The node line with its mention defined anew if it is chosen. -/
def NodeLine.recast (rebuild : Option NodeDefinition → NodeDefinition) (chosen : Mention → Bool)
    (i : Nat) (n : NodeLine) : NodeLine :=
  { n with token := n.token.recast rebuild (chosen (n.mention i)) }

namespace Statement

variable {l : LinkLine} {n : NodeLine}

theorem redefine_link_eq (rebuild : Option NodeDefinition → NodeDefinition)
    (chosen : Mention → Bool) (i : Nat) (l : LinkLine) :
    redefine rebuild chosen i (.link l) = .link (l.recast rebuild chosen i) := by
  rw [redefine, LinkLine.recast, NodeToken.recast, NodeToken.recast]
  split <;> split <;> rfl

theorem redefine_node_eq (rebuild : Option NodeDefinition → NodeDefinition)
    (chosen : Mention → Bool) (i : Nat) (n : NodeLine) :
    redefine rebuild chosen i (.node n) = .node (n.recast rebuild chosen i) := by
  rw [redefine, NodeLine.recast, NodeToken.recast]
  split <;> rfl

theorem follows_link_iff : (Statement.link l).Follows rebuild chosen other other' i ↔
    other' ((l.recast rebuild chosen i).sourceMention i) = other (l.sourceMention i) ∧
      other' ((l.recast rebuild chosen i).targetMention i) = other (l.targetMention i) := by
  rw [Follows, recastPairs, redefine_link_eq, mentions_link, mentions_link]
  simp

theorem follows_node_iff : (Statement.node n).Follows rebuild chosen other other' i ↔
    other' ((n.recast rebuild chosen i).mention i) = other (n.mention i) := by
  rw [Follows, recastPairs, redefine_node_eq, mentions_node, mentions_node]
  simp

/-- What is chosen after the first edit are the mentions that would have been chosen before it. -/
theorem recast_recast_link (h : (Statement.link l).Follows rebuild chosen other other' i) :
    (l.recast rebuild chosen i).recast remake other' i =
      { l with
        source := (l.source.recast rebuild (chosen (l.sourceMention i))).recast remake
          (other (l.sourceMention i))
        target := (l.target.recast rebuild (chosen (l.targetMention i))).recast remake
          (other (l.targetMention i)) } := by
  obtain ⟨hsource, htarget⟩ := follows_link_iff.1 h
  rw [LinkLine.recast, hsource, htarget]
  rfl

theorem recast_recast_node (h : (Statement.node n).Follows rebuild chosen other other' i) :
    (n.recast rebuild chosen i).recast remake other' i =
      { n with
        token := (n.token.recast rebuild (chosen (n.mention i))).recast remake
          (other (n.mention i)) } := by
  rw [NodeLine.recast, follows_node_iff.1 h]
  rfl

/-- A mention of the one node is none of the other one. -/
theorem not_chosen_of_chooses (hne : id ≠ id') (h : st.Chooses chosen id i)
    (h' : st.Chooses other id' i) {p : Mention × NodeToken} (hp : p ∈ st.mentions i)
    (hother : other p.1 = true) : chosen p.1 = false := by
  rw [← Bool.not_eq_true]
  intro hchosen
  exact hne ((h p hp hchosen).symm.trans (h' p hp hother))

/-- Mentions of two nodes are defined anew in any order. -/
theorem redefine_comm (hne : id ≠ id') (hchooses : st.Chooses chosen id i)
    (hchooses' : st.Chooses other id' i) (h : st.Follows rebuild chosen other other' i)
    (h' : st.Follows remake other chosen chosen' i) :
    (st.redefine rebuild chosen i).redefine remake other' i =
      (st.redefine remake other i).redefine rebuild chosen' i := by
  -- No mention is chosen twice, so no token is rebuilt from what the other edit made of it.
  have hno : ∀ p ∈ st.mentions i, other p.1 = true → chosen p.1 = false :=
    fun p hp => not_chosen_of_chooses hne hchooses hchooses' hp
  cases st with
  | link l =>
    rw [mentions_link] at hno
    have hsource := hno _ List.mem_cons_self
    have htarget := hno _ (List.mem_cons_of_mem _ List.mem_cons_self)
    rw [redefine_link_eq, redefine_link_eq, redefine_link_eq, redefine_link_eq,
      recast_recast_link h, recast_recast_link h', NodeToken.recast_comm hsource,
      NodeToken.recast_comm htarget]
  | node n =>
    rw [mentions_node] at hno
    have htoken := hno _ List.mem_cons_self
    rw [redefine_node_eq, redefine_node_eq, redefine_node_eq, redefine_node_eq,
      recast_recast_node h, recast_recast_node h', NodeToken.recast_comm htoken]
  | _ => rfl

/-- A statement that is defined anew is written over the line that it was written over. -/
theorem lineOr_lineOr (st : Statement) (line : Text) :
    (st.redefine rebuild chosen i).lineOr (st.lineOr line) =
      (st.redefine rebuild chosen i).lineOr line := by
  cases st <;> rfl

end Statement

/-! ## Quoted labels -/

namespace NodeDefinition

/-- The new definitions have a label in double quotes. -/
def QuotesLabel (rebuild : Option NodeDefinition → NodeDefinition) : Prop :=
  ∀ d id, 2 ≤ ((rebuild d).render id).count '"'

theorem two_le_count_of_isInfix {label text : Text} (h : quote label <:+: text) :
    2 ≤ text.count '"' :=
  (count_quote label).ge.trans (h.sublist.count_le '"')

theorem two_le_count_classic (shape : NodeShape) (label id : Text) :
    2 ≤ ((classic shape label).render id).count '"' :=
  two_le_count_of_isInfix ⟨id ++ shape.opening, shape.closing, rfl⟩

theorem mem_setEntry_self (key value : Text) (entries : List (Text × Text)) :
    (key, value) ∈ setEntry key value entries := by
  obtain ⟨front, back, heq, -⟩ := List.lookup_eq_some_iff.1 (lookup_setEntry key value entries)
  rw [heq]
  exact List.mem_append_right _ List.mem_cons_self

theorem isInfix_renderEntries {key value : Text} {entries : List (Text × Text)}
    (h : (key, value) ∈ entries) : value <:+: renderEntries entries := by
  have hjoin : key ++ ':' :: ' ' :: value <:+: renderEntries entries :=
    isInfix_join (List.mem_map_of_mem h)
  exact List.IsInfix.trans ⟨key ++ [':', ' '], [], by simp⟩ hjoin

/-- A definition with another label has this label in quotes. -/
theorem two_le_count_withLabel (label id : Text) (d : NodeDefinition) :
    2 ≤ ((d.withLabel label).render id).count '"' := by
  cases hform : d.form with
  | classic shape =>
    rw [withLabel, hform]
    exact two_le_count_classic shape label id
  | advanced entries =>
    rw [withLabel, hform]
    have hentries := isInfix_renderEntries (mem_setEntry_self labelKey (quote label) entries)
    exact two_le_count_of_isInfix (hentries.trans ⟨id ++ ['@', '{', ' '], [' ', '}'], rfl⟩)

end NodeDefinition

/-! ## Two sources -/

/-- What the second edit writes into a link is no part of the source of the link, also when the first
edit wrote that source. -/
theorem Statement.Shields.redefine (hshields : st.Shields remake other i) (hne : id ≠ id')
    (hquotes : NodeDefinition.QuotesLabel rebuild) (hchooses : st.Chooses chosen id i)
    (hchooses' : st.Chooses other id' i) (h : st.Follows rebuild chosen other other' i) :
    (st.redefine rebuild chosen i).Shields remake other' i := by
  rintro l' hl' hother'
  cases st with
  | link l =>
    rw [redefine_link_eq] at hl'
    obtain rfl := Statement.link.inj hl'
    rw [(follows_link_iff.1 h).2] at hother'
    have htarget : chosen (l.targetMention i) = false := not_chosen_of_chooses hne hchooses hchooses'
      (p := (_, l.target)) (List.mem_cons_of_mem _ List.mem_cons_self) hother'
    have hold := hshields l rfl hother'
    rw [LinkLine.recast, htarget]
    cases hsource : chosen (l.sourceMention i) with
    | false => exact hold
    | true =>
      -- The new source has a label in quotes, and no quote is open behind it.
      intro hone
      have htwo := hquotes l.source.definition l.source.id
      have htext : (l.source.recast rebuild true).text =
          (rebuild l.source.definition).render l.source.id ++ NodeToken.classText l.source.classSuffix :=
        rfl
      rw [htext, List.count_append, List.count_append] at hone
      omega
  | _ => cases hl'

theorem Statement.Chooses.redefine (hchooses : st.Chooses other id' i)
    (h : st.Follows rebuild chosen other other' i) :
    (st.redefine rebuild chosen i).Chooses other' id' i := by
  intro p' hp' hother'
  rw [← map_snd_recastPairs] at hp'
  obtain ⟨w, hw, rfl⟩ := List.mem_map.1 hp'
  rw [(recast_of_mem_recastPairs hw).id_eq]
  refine hchooses w.1 ?_ (h w hw ▸ hother')
  rw [← map_fst_recastPairs rebuild chosen]
  exact List.mem_map_of_mem hw

section Commute

variable (h : IsRedefinable rebuild chosen id s)

include h

/-- What is written in two steps is what the statements are after both. -/
theorem lines_redefinedSource_redefinedSource :
    (redefinedSource remake other' (redefinedSource rebuild chosen s)).lines =
      s.lines.take (s.bodyIndex .flowchart) ++ (s.body .flowchart).map fun p =>
        (((Statement.ofLine p.2).redefine rebuild chosen p.1).redefine remake other' p.1).lineOr
          p.2 := by
  have hfront : (redefinedSource rebuild chosen s).lines.take (s.bodyIndex .flowchart) =
      s.lines.take (s.bodyIndex .flowchart) :=
    List.take_left' (by rw [List.length_take, Nat.min_eq_left (bodyIndex_le _ _)])
  rw [redefinedSource, bodyIndex_redefinedSource h, hfront, body_redefinedSource h, List.map_map]
  refine congrArg _ (List.map_congr_left fun p hp => ?_)
  have hst : (p.1, Statement.ofLine p.2) ∈ statements s := mem_statements.2 ⟨p.2, hp, rfl⟩
  -- The second edit reads the line that the first one wrote, and finds the statement meant there.
  have hread := Statement.ofLine_lineOr h.rebuilds (h.shields _ hst)
  rw [Function.comp_apply, redefinedLine, redefinedLine]
  dsimp only at hread ⊢
  rw [hread, Statement.lineOr_lineOr]

variable (hne : id ≠ id') (h' : IsRedefinable remake other id' s)
  (hfollows : Follows rebuild chosen other other' s)

include hne h' hfollows

/-- The second edit is as safe after the first one as before. -/
theorem IsRedefinable.behind (hquotes : NodeDefinition.QuotesLabel rebuild) :
    IsRedefinable remake other' id' (redefinedSource rebuild chosen s) where
  rebuilds := h'.rebuilds
  chooses := by
    rw [statements_redefinedSource h]
    intro p hp
    obtain ⟨⟨i, st⟩, hst, rfl⟩ := List.mem_map.1 hp
    exact (h'.chooses _ hst).redefine (hfollows.statement hst)
  shields := by
    rw [statements_redefinedSource h]
    intro p hp
    obtain ⟨⟨i, st⟩, hst, rfl⟩ := List.mem_map.1 hp
    exact (h'.shields _ hst).redefine hne hquotes (h.chooses _ hst) (h'.chooses _ hst)
      (hfollows.statement hst)

/-- The nodes are defined anew in any order. -/
theorem redefinedSource_comm (hfollows' : Follows remake other chosen chosen' s) :
    redefinedSource remake other' (redefinedSource rebuild chosen s) =
      redefinedSource rebuild chosen' (redefinedSource remake other s) := by
  have hlines : (redefinedSource remake other' (redefinedSource rebuild chosen s)).lines =
      (redefinedSource rebuild chosen' (redefinedSource remake other s)).lines := by
    rw [lines_redefinedSource_redefinedSource h, lines_redefinedSource_redefinedSource h']
    refine congrArg _ (List.map_congr_left fun p hp => ?_)
    have hst : (p.1, Statement.ofLine p.2) ∈ statements s := mem_statements.2 ⟨p.2, hp, rfl⟩
    rw [Statement.redefine_comm hne (h.chooses _ hst) (h'.chooses _ hst) (hfollows.statement hst)
      (hfollows'.statement hst)]
  exact congrArg (Source.mk · s.trailingNewline) hlines

end Commute

end DiagramEditor.Flowchart
