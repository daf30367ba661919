import DiagramEditor.Proofs.Flowchart.Block
import DiagramEditor.Proofs.Flowchart.Redefine

/-!
# A source with mentions defined anew

Some mentions of one node are chosen, and the lines with them are written again with these tokens
defined anew (`redefinedSource`). Where every link with a chosen target keeps its source to itself,
each line says the same again with the new tokens (`Statement.ofLine_lineOr`), so the statements of the
new source are the old ones with new tokens (`statements_redefinedSource`). The view read off them
differs in the definition of this one node only (`View.isRedefined_ofSource`): reading goes over both
sources in step, and each step keeps the two views alike (`Reader.IsRedefined.step`).
-/

namespace DiagramEditor.Flowchart

open Text Source Identifier

variable {line : Text} {rest : Text} {id : Text} {s : Source} {i : Nat} {token : NodeToken}
  {rebuild : Option NodeDefinition → NodeDefinition} {chosen : Mention → Bool} {l : LinkLine}
  {n : NodeLine} {st : Statement}

/-! ## Lines -/

/-- The mention of the source. -/
def LinkLine.sourceMention (line : Nat) (l : LinkLine) : Mention :=
  ⟨line, l.sourceStart, l.source.text.length, false, l.source.definition.isSome⟩

/-- The mention of the target. -/
def LinkLine.targetMention (line : Nat) (l : LinkLine) : Mention :=
  ⟨line, l.targetStart, l.target.text.length, false, l.target.definition.isSome⟩

/-- The mention on the line. -/
def NodeLine.mention (line : Nat) (n : NodeLine) : Mention :=
  ⟨line, n.lead.length, n.token.text.length, true, n.token.definition.isSome⟩

namespace Statement

/-- The statement with the chosen mentions defined anew. -/
def redefine (rebuild : Option NodeDefinition → NodeDefinition) (chosen : Mention → Bool)
    (line : Nat) : Statement → Statement
  | .link l =>
    let l' := if chosen (l.targetMention line) then l.redefineTarget rebuild else l
    .link (if chosen (l.sourceMention line) then l'.redefineSource rebuild else l')
  | .node n => .node (if chosen (n.mention line) then n.redefine rebuild else n)
  | st => st

/-- The line of a link or a node, and `text` for every other statement. -/
def lineOr (text : Text) : Statement → Text
  | .link l => l.toLine
  | .node n => n.lead ++ (n.token.text ++ n.tail)
  | _ => text

theorem lineOr_ofLine (line : Text) : (ofLine line).lineOr line = line := by
  have hreads := readsFrom_ofLine line
  cases hst : ofLine line with
  | link l =>
    rw [hst] at hreads
    exact (LinkLine.ofLine?_eq_some_iff.1 hreads).2.symm
  | node n =>
    rw [hst] at hreads
    exact (NodeLine.ofLine?_eq_some_iff.1 hreads).2.symm
  | _ => rfl

/-- No chosen target is read as a part of the source in front of it. -/
def Shields (rebuild : Option NodeDefinition → NodeDefinition) (chosen : Mention → Bool)
    (line : Nat) (st : Statement) : Prop :=
  ∀ l, st = .link l → chosen (l.targetMention line) = true →
    l.Shields (l.target.redefine rebuild).text

theorem isRead_redefine_link (hr : NodeDefinition.Rebuilds rebuild) (h : l.IsRead)
    (hshields : Shields rebuild chosen i (.link l)) :
    ∃ l' : LinkLine, redefine rebuild chosen i (.link l) = .link l' ∧ l'.IsRead := by
  refine ⟨_, rfl, ?_⟩
  by_cases htarget : chosen (l.targetMention i) = true
  · have hnew := h.redefineTarget hr (hshields l rfl htarget)
    rw [if_pos htarget]
    split
    exacts [hnew.redefineSource hr, hnew]
  · rw [if_neg htarget]
    split
    exacts [h.redefineSource hr, h]

/-- The line with the chosen mentions defined anew says so. -/
theorem ofLine_lineOr (hr : NodeDefinition.Rebuilds rebuild)
    (hshields : Shields rebuild chosen i (ofLine line)) :
    ofLine (((ofLine line).redefine rebuild chosen i).lineOr line) =
      (ofLine line).redefine rebuild chosen i := by
  have hreads := readsFrom_ofLine line
  cases hst : ofLine line with
  | link l =>
    rw [hst] at hreads hshields
    obtain ⟨l', heq, hread⟩ :=
      isRead_redefine_link hr (LinkLine.ofLine?_eq_some_iff.1 hreads).1 hshields
    rw [heq]
    exact ofLine_of_link (LinkLine.ofLine?_eq_some_iff.2 ⟨hread, rfl⟩)
  | node n =>
    rw [hst] at hreads
    have hread := (NodeLine.ofLine?_eq_some_iff.1 hreads).1
    refine ofLine_of_node (NodeLine.ofLine?_eq_some_iff.2 ⟨?_, rfl⟩)
    split
    exacts [hread.redefine hr, hread]
  | _ => exact hst

/-- Where no mention is chosen, nothing changes. -/
theorem redefine_eq_self (h : ∀ p ∈ st.mentions i, chosen p.1 = false) :
    st.redefine rebuild chosen i = st := by
  cases st with
  | link l =>
    have hsource : chosen (l.sourceMention i) = false := h (_, l.source) List.mem_cons_self
    have htarget : chosen (l.targetMention i) = false :=
      h (_, l.target) (List.mem_cons_of_mem _ List.mem_cons_self)
    simp [redefine, hsource, htarget]
  | node n =>
    have htoken : chosen (n.mention i) = false := h (_, n.token) List.mem_cons_self
    simp [redefine, htoken]
  | _ => rfl

end Statement

/-! ## Mentions -/

/-- One mention in the old source and in the new one. -/
structure Recast (rebuild : Option NodeDefinition → NodeDefinition) (chosen : Mention → Bool)
    (p p' : Mention × NodeToken) : Prop where
  line : p'.1.line = p.1.line
  defines : p'.1.defines = p'.2.definition.isSome
  token : p'.2 = if chosen p.1 then p.2.redefine rebuild else p.2

namespace Recast

variable {p p' : Mention × NodeToken}

theorem id_eq (h : Recast rebuild chosen p p') : p'.2.id = p.2.id := by
  rw [h.token]
  split <;> rfl

theorem classSuffix_eq (h : Recast rebuild chosen p p') : p'.2.classSuffix = p.2.classSuffix := by
  rw [h.token]
  split <;> rfl

theorem token_of_chosen (h : Recast rebuild chosen p p') (hp : chosen p.1 = true) :
    p'.2 = p.2.redefine rebuild := by
  rw [h.token, if_pos hp]

theorem token_of_not_chosen (h : Recast rebuild chosen p p') (hp : chosen p.1 = false) :
    p'.2 = p.2 := by
  rw [h.token, hp]
  rfl

end Recast

theorem Statement.mentions_link (i : Nat) (l : LinkLine) : (Statement.link l).mentions i =
    [(l.sourceMention i, l.source), (l.targetMention i, l.target)] := rfl

theorem Statement.mentions_node (i : Nat) (n : NodeLine) :
    (Statement.node n).mentions i = [(n.mention i, n.token)] := rfl

/-- A mention stands on its line as the token that is read there. -/
theorem Statement.exists_scan?_of_mem_mentions {m : Mention} {t : NodeToken}
    (h : (m, t) ∈ (Statement.ofLine line).mentions i) : ∃ a rest, line = a ++ (t.text ++ rest) ∧
      m.line = i ∧ m.start = a.length ∧ NodeToken.scan? (t.text ++ rest) = some (t, rest) := by
  have hreads := Statement.readsFrom_ofLine line
  cases hline : Statement.ofLine line with
  | link l =>
    rw [hline] at h hreads
    obtain ⟨hread, rfl⟩ := LinkLine.ofLine?_eq_some_iff.1 hreads
    rw [Statement.mentions_link] at h
    rcases List.mem_cons.1 h with h | h
    · cases h
      exact ⟨l.lead, _, LinkLine.toLine_eq l, rfl, rfl, hread.source⟩
    · cases List.mem_singleton.1 h
      refine ⟨l.lead ++ (l.source.text ++ l.between), l.tail, ?_, rfl, ?_, hread.target⟩
      · simp [LinkLine.toLine_eq]
      · simp [LinkLine.targetMention, LinkLine.targetStart, LinkLine.betweenStart,
          LinkLine.sourceStart, Nat.add_assoc]
  | node n =>
    rw [hline] at h hreads
    obtain ⟨hread, rfl⟩ := NodeLine.ofLine?_eq_some_iff.1 hreads
    rw [Statement.mentions_node] at h
    cases List.mem_singleton.1 h
    exact ⟨n.lead, n.tail, rfl, rfl, rfl, hread.token⟩
  | _ =>
    rw [hline] at h
    cases h

/-- The mention stands in front of the other one. -/
def Before (a b : Mention) : Prop :=
  a.line < b.line ∨ a.line = b.line ∧ a.start < b.start

theorem pairwise_mentions (s : Source) :
    (View.mentions (statements s)).Pairwise fun p q => Before p.1 q.1 := by
  rw [View.mentions, List.pairwise_flatMap]
  constructor
  · rintro ⟨i, st⟩ hst
    obtain ⟨text, -, heq⟩ := mem_statements.1 hst
    obtain rfl : st = Statement.ofLine text := heq
    have hreads := Statement.readsFrom_ofLine text
    cases hst : Statement.ofLine text with
    | link l =>
      rw [hst] at hreads
      obtain ⟨c, r, htext, -⟩ :=
        NodeToken.exists_text_eq_cons (LinkLine.ofLine?_eq_some_iff.1 hreads).1.source
      have hlt : l.sourceStart < l.targetStart := by
        rw [LinkLine.targetStart, LinkLine.betweenStart, htext, List.length_cons]
        omega
      refine .cons (fun p hp => ?_) (List.pairwise_singleton ..)
      rw [List.mem_singleton.1 hp]
      exact .inr ⟨rfl, hlt⟩
    | node n => exact List.pairwise_singleton ..
    | _ => exact .nil
  · refine (View.pairwise_statements s).imp fun hlt x hx y hy => .inl ?_
    rw [(View.line_defines_of_mem_mentions hx).1, (View.line_defines_of_mem_mentions hy).1]
    exact hlt

theorem nodup_map_fst_mentions (s : Source) : ((View.mentions (statements s)).map Prod.fst).Nodup := by
  refine List.Pairwise.imp (fun h heq => ?_) (List.pairwise_map.2 (pairwise_mentions s))
  subst heq
  rcases h with h | ⟨-, h⟩ <;> exact Nat.lt_irrefl _ h

theorem mentions_sublist {n : NodeRecord} (hn : n ∈ (View.ofSource s).nodes) :
    n.mentions.Sublist ((View.mentions (statements s)).map Prod.fst) := by
  rw [View.mentions_eq hn]
  exact List.filter_sublist.map Prod.fst

theorem Statement.recast_mentions (st : Statement) (i : Nat) :
    List.Forall₂ (Recast rebuild chosen) (st.mentions i)
      ((st.redefine rebuild chosen i).mentions i) := by
  cases st with
  | link l =>
    rw [redefine, mentions_link, mentions_link]
    refine .cons ⟨rfl, rfl, ?_⟩ (.cons ⟨rfl, rfl, ?_⟩ .nil)
    · dsimp only
      split <;> split <;> rfl
    · dsimp only
      split <;> split <;> rfl
  | node n =>
    rw [redefine, mentions_node, mentions_node]
    refine .cons ⟨rfl, rfl, ?_⟩ .nil
    dsimp only
    split <;> rfl
  | _ => exact .nil

/-! ## Views -/

/-- One node in the old view and in the new one, where only the node `id` may be defined
differently. -/
structure NodeRecord.IsRedefined (id : Text) (n n' : NodeRecord) : Prop where
  id_eq : n'.id = n.id
  lines : n'.mentions.map (·.line) = n.mentions.map (·.line)
  subgraph : n'.subgraph = n.subgraph
  definition : n.id ≠ id → n'.definition = n.definition ∧ n'.definitionLine = n.definitionLine

/-- One link in the old view and in the new one. -/
structure LinkRecord.IsSame (r r' : LinkRecord) : Prop where
  index : r'.index = r.index
  line : r'.line = r.line
  source : r'.link.source.id = r.link.source.id
  target : r'.link.target.id = r.link.target.id
  connector : r'.link.connector = r.link.connector

/-- The new view is the old one but for the definition of the node `id`. -/
structure View.IsRedefined (id : Text) (v v' : View) : Prop where
  declarationLine : v'.declarationLine = v.declarationLine
  nodes : List.Forall₂ (NodeRecord.IsRedefined id) v.nodes v'.nodes
  links : List.Forall₂ LinkRecord.IsSame v.links v'.links
  subgraphs : v'.subgraphs = v.subgraphs
  styles : v'.styles = v.styles
  linkStyles : v'.linkStyles = v.linkStyles
  classes : v'.classes = v.classes
  classDefs : v'.classDefs = v.classDefs

/-- The two mentions are on one line, of one node, and alike unless this is the node `id`. -/
structure Mention.IsRedefined (id : Text) (p p' : Mention × NodeToken) : Prop where
  line : p'.1.line = p.1.line
  id_eq : p'.2.id = p.2.id
  definition : p.2.id ≠ id → p'.2.definition = p.2.definition

theorem Recast.isRedefined {p p' : Mention × NodeToken} (h : Recast rebuild chosen p p')
    (hp : chosen p.1 = true → p.2.id = id) : Mention.IsRedefined id p p' where
  line := h.line
  id_eq := h.id_eq
  definition hne := by
    rw [h.token_of_not_chosen (Bool.eq_false_iff.2 fun hc => hne (hp hc))]

theorem NodeRecord.IsRedefined.refl (id : Text) (n : NodeRecord) : n.IsRedefined id n :=
  ⟨rfl, rfl, rfl, fun _ => ⟨rfl, rfl⟩⟩

theorem LinkRecord.IsSame.refl (r : LinkRecord) : r.IsSame r :=
  ⟨rfl, rfl, rfl, rfl, rfl⟩

theorem View.IsRedefined.refl (id : Text) (v : View) : v.IsRedefined id v :=
  ⟨rfl, List.forall₂_same.2 fun n _ => .refl id n, List.forall₂_same.2 fun r _ => .refl r, rfl, rfl,
    rfl, rfl, rfl⟩

theorem NodeRecord.IsRedefined.addMention {n n' : NodeRecord} {p p' : Mention × NodeToken}
    (h : n.IsRedefined id n') (hp : Mention.IsRedefined id p p') (hid : n.id = p.2.id)
    (container : Option Text) : (n.addMention p.1 p.2 container).IsRedefined id
      (n'.addMention p'.1 p'.2 container) where
  id_eq := h.id_eq
  lines := by simp [NodeRecord.addMention, h.lines, hp.line]
  subgraph := by simp [NodeRecord.addMention, h.subgraph]
  definition hne := by
    have hne : n.id ≠ id := hne
    obtain ⟨hdef, hline⟩ := h.definition hne
    simp only [NodeRecord.addMention, hdef, hline, hp.definition (hid ▸ hne), hp.line, and_self]

namespace View.IsRedefined

variable {v v' : View}

theorem forall₂_alterNode {key : Text} {f f' : NodeRecord → NodeRecord} {ns ns' : List NodeRecord}
    (h : List.Forall₂ (NodeRecord.IsRedefined id) ns ns')
    (hf : ∀ n n', n.IsRedefined id n' → n.id = key → (f n).IsRedefined id (f' n')) :
    List.Forall₂ (NodeRecord.IsRedefined id) (alterNode key f ns) (alterNode key f' ns') := by
  induction h with
  | nil => exact .cons (hf _ _ (.refl id _) rfl) .nil
  | @cons n n' ns ns' hn hns ih =>
    rw [alterNode, alterNode, hn.id_eq]
    split
    · next hkey => exact .cons (hf n n' hn hkey) hns
    · exact .cons hn ih

theorem addMention (h : v.IsRedefined id v') {p p' : Mention × NodeToken}
    (hp : Mention.IsRedefined id p p') (container : Option Nat) :
    (v.addMention p.1 p.2 container).IsRedefined id (v'.addMention p'.1 p'.2 container) where
  declarationLine := h.declarationLine
  nodes := by
    simp only [View.addMention, h.subgraphs, hp.id_eq]
    exact forall₂_alterNode h.nodes fun n n' hn hid => hn.addMention hp hid _
  links := h.links
  subgraphs := by simp only [View.addMention, h.subgraphs, hp.id_eq]
  styles := h.styles
  linkStyles := h.linkStyles
  classes := h.classes
  classDefs := h.classDefs

theorem addMentions (h : v.IsRedefined id v') {ms ms' : List (Mention × NodeToken)}
    (hms : List.Forall₂ (Mention.IsRedefined id) ms ms') (container : Option Nat) :
    (v.addMentions container ms).IsRedefined id (v'.addMentions container ms') := by
  induction hms generalizing v v' with
  | nil => exact h
  | cons hp _ ih => exact ih (h.addMention hp container)

theorem closeAt (h : v.IsRedefined id v') (i line : Nat) :
    (Reader.closeAt i line v).IsRedefined id (Reader.closeAt i line v') :=
  { h with subgraphs := by simp only [Reader.closeAt, h.subgraphs] }

theorem dropSubgraphIds (h : v.IsRedefined id v') :
    v.dropSubgraphIds.IsRedefined id v'.dropSubgraphIds :=
  { h with
    nodes := by
      simp only [View.dropSubgraphIds, h.subgraphs]
      refine List.rel_filter ?_ h.nodes
      intro n n' hn
      dsimp only
      rw [hn.id_eq]
    subgraphs := by simp only [View.dropSubgraphIds, h.subgraphs] }

/-- The node in the new view. -/
theorem exists_node? (h : v.IsRedefined id v') {n : NodeRecord} {key : Text}
    (hn : v.node? key = some n) : ∃ n', v'.node? key = some n' ∧ n.IsRedefined id n' := by
  have hall := h.nodes
  rw [View.node?] at hn ⊢
  generalize v.nodes = ns at *
  generalize v'.nodes = ns' at *
  induction hall with
  | nil => cases hn
  | @cons m m' ms ms' hm _ ih =>
    rw [List.find?_cons, hm.id_eq]
    rw [List.find?_cons] at hn
    split at hn
    · exact ⟨m', rfl, Option.some.inj hn ▸ hm⟩
    · exact ih hn

end View.IsRedefined

/-! ## Reading -/

/-- Both readers have the same subgraphs open, and their views agree. -/
structure Reader.IsRedefined (id : Text) (r r' : Reader) : Prop where
  openBlocks : r'.openBlocks = r.openBlocks
  view : r.view.IsRedefined id r'.view

/-- The chosen mentions of the statement are of the node `id`. -/
def Statement.Chooses (chosen : Mention → Bool) (id : Text) (line : Nat) (st : Statement) : Prop :=
  ∀ p ∈ st.mentions line, chosen p.1 = true → p.2.id = id

theorem Statement.forall₂_mentions (rebuild : Option NodeDefinition → NodeDefinition)
    (h : st.Chooses chosen id i) :
    List.Forall₂ (Mention.IsRedefined id) (st.mentions i)
      ((st.redefine rebuild chosen i).mentions i) := by
  refine List.Forall₂.imp (fun p p' hp => ?_) ((List.forall₂_and_left _ _).2 ⟨h, st.recast_mentions i⟩)
  exact hp.2.isRedefined hp.1

theorem Statement.redefine_link (rebuild : Option NodeDefinition → NodeDefinition)
    (chosen : Mention → Bool) (i : Nat) (l : LinkLine) :
    ∃ l', redefine rebuild chosen i (.link l) = .link l' ∧ l'.source.id = l.source.id ∧
      l'.target.id = l.target.id ∧ l'.connector = l.connector := by
  refine ⟨_, rfl, ?_, ?_, ?_⟩ <;> split <;> split <;> rfl

theorem Reader.step_link (r : Reader) (i : Nat) (l : LinkLine) : r.step i (.link l) =
    let v := r.view.addMentions r.openBlocks.head? ((Statement.link l).mentions i)
    { r with view := { v with links := v.links ++ [⟨v.links.length, i, l⟩] } } := rfl

/-- One line leaves the two readers alike. -/
theorem Reader.IsRedefined.step {r r' : Reader} (h : r.IsRedefined id r')
    (hst : st.Chooses chosen id i) :
    (r.step i st).IsRedefined id (r'.step i (st.redefine rebuild chosen i)) := by
  obtain ⟨v, blocks⟩ := r
  obtain ⟨v', blocks'⟩ := r'
  obtain ⟨rfl, hview⟩ : blocks' = blocks ∧ v.IsRedefined id v' := ⟨h.openBlocks, h.view⟩
  have hmentions := Statement.forall₂_mentions rebuild hst
  cases st with
  | link l =>
    obtain ⟨l', hl', hsource, htarget, hconnector⟩ := Statement.redefine_link rebuild chosen i l
    rw [hl'] at hmentions ⊢
    have hread := hview.addMentions hmentions blocks'.head?
    rw [Reader.step_link, Reader.step_link]
    refine ⟨rfl, { hread with links := List.rel_append hread.links (.cons ?_ .nil) }⟩
    exact ⟨hread.links.length_eq.symm, rfl, hsource, htarget, hconnector⟩
  | node n => exact ⟨rfl, hview.addMentions hmentions blocks'.head?⟩
  | blockEnd =>
    cases blocks' with
    | nil => exact ⟨rfl, hview⟩
    | cons j outer => exact ⟨rfl, hview.closeAt j i⟩
  | subgraphOpen header =>
    refine ⟨?_, { hview with subgraphs := ?_ }⟩
    · change v'.subgraphs.length :: _ = v.subgraphs.length :: _
      rw [hview.subgraphs]
    · change v'.subgraphs ++ _ = v.subgraphs ++ _
      rw [hview.subgraphs]
  | nodeStyle d => exact ⟨rfl, { hview with styles := congrArg (· ++ [(i, d)]) hview.styles }⟩
  | linkStyle d =>
    exact ⟨rfl, { hview with linkStyles := congrArg (· ++ [(i, d)]) hview.linkStyles }⟩
  | classUse d => exact ⟨rfl, { hview with classes := congrArg (· ++ [(i, d)]) hview.classes }⟩
  | classDef d => exact ⟨rfl, { hview with classDefs := congrArg (· ++ [(i, d)]) hview.classDefs }⟩
  | silent => exact ⟨rfl, hview⟩
  | other => exact ⟨rfl, hview⟩

/-- The statements with the chosen mentions defined anew. -/
def redefined (rebuild : Option NodeDefinition → NodeDefinition) (chosen : Mention → Bool)
    (sts : List (Nat × Statement)) : List (Nat × Statement) :=
  sts.map fun p => (p.1, p.2.redefine rebuild chosen p.1)

/-- So does a whole source. -/
theorem Reader.IsRedefined.readAll {r r' : Reader} (h : r.IsRedefined id r')
    {sts : List (Nat × Statement)} (hsts : ∀ p ∈ sts, p.2.Chooses chosen id p.1) :
    (r.readAll sts).IsRedefined id (r'.readAll (redefined rebuild chosen sts)) := by
  induction sts generalizing r r' with
  | nil => exact h
  | cons p sts ih =>
    exact ih (h.step (hsts p List.mem_cons_self)) fun q hq => hsts q (List.mem_cons_of_mem p hq)

theorem Reader.IsRedefined.finish {r r' : Reader} (h : r.IsRedefined id r') (length : Nat) :
    (r.finish length).IsRedefined id (r'.finish length) := by
  have hclose : ∀ (blocks : List Nat) (v v' : View), v.IsRedefined id v' →
      (blocks.foldl (fun v i => closeAt i (length - 1) v) v).IsRedefined id
        (blocks.foldl (fun v i => closeAt i (length - 1) v) v') := by
    intro blocks
    induction blocks with
    | nil => exact fun _ _ h => h
    | cons i blocks ih => exact fun v v' h => ih _ _ (h.closeAt i _)
  rw [Reader.finish, Reader.finish, h.openBlocks]
  exact (hclose _ _ _ h.view).dropSubgraphIds

/-! ## Lines that begin with a node -/

/-- The line begins with a token that is no keyword. -/
def BeginsWithNode (line : Text) : Prop :=
  ∃ token rest, NodeToken.scan? (trimStart line) = some (token, rest) ∧ token.isKeyword = false

theorem beginsWithNode_of_link (h : LinkLine.ofLine? line = some l) : BeginsWithNode line := by
  obtain ⟨⟨token, rest⟩, hscan, hread⟩ := Option.bind_eq_some_iff.1 h
  obtain ⟨_, hkeyword, -⟩ := Option.bind_eq_some_iff.1 hread
  exact ⟨token, rest, hscan, by simpa using hkeyword⟩

theorem beginsWithNode_of_node (h : NodeLine.ofLine? line = some n) : BeginsWithNode line := by
  obtain ⟨⟨token, rest⟩, hscan, hread⟩ := Option.bind_eq_some_iff.1 h
  obtain ⟨_, -, hread⟩ := Option.bind_eq_some_iff.1 hread
  obtain ⟨_, hkeyword, -⟩ := Option.bind_eq_some_iff.1 hread
  exact ⟨token, rest, hscan, by simpa using hkeyword⟩

namespace BeginsWithNode

variable (h : BeginsWithNode line)

include h

theorem ne_append {word t : Text} (hword : word ∈ statementKeywords)
    (ht : ∀ c ∈ t.head?, isIdentChar c = false ∧ c ∉ NodeToken.openers) : trim line ≠ word ++ t := by
  intro htrim
  obtain ⟨token, rest, hscan, hkeyword⟩ := h
  rw [Statement.isKeyword_of_trim hscan hword htrim ht] at hkeyword
  cases hkeyword

theorem blockStep_eq : Source.blockStep blockRules line = .stay := by
  have hspace : ∀ c ∈ [' '], isIdentChar c = false ∧ c ∉ NodeToken.openers := fun c hc =>
    Statement.not_opener_of_isSpace (isBlank_singleton_space c hc)
  have hopen : isSubgraphOpen (trim line) = false := by
    refine Bool.eq_false_iff.2 fun hopen => ?_
    obtain ⟨after, htrim, rfl | hafter⟩ := isSubgraphOpen_iff.1 hopen
    · exact h.ne_append (by decide) (by simp) htrim
    · refine h.ne_append (by decide) (fun c hc => hspace c ?_) htrim
      rw [hafter] at hc
      exact List.mem_singleton.2 (Option.some.inj hc).symm
  obtain ⟨token, rest, hscan, hkeyword⟩ := h
  exact blockStep_eq_stay hopen (Statement.isBlockEnd_of_scan? hscan hkeyword)

theorem exists_head : ∃ c r, trim line = c :: r ∧ isIdentChar c = true := by
  obtain ⟨token, rest, hscan, -⟩ := h
  have hself := NodeToken.scan?_self hscan
  obtain ⟨c, r, htext, hc⟩ := NodeToken.exists_text_eq_cons hself
  have hhead := head?_trim line
  rw [(NodeToken.scan?_eq_some_iff_isToken.1 hscan).1, htext] at hhead
  obtain ⟨r', hr'⟩ := List.head?_eq_some_iff.1 hhead
  exact ⟨c, r', hr', hc⟩

theorem not_silent : isSilent (trim line) = false := by
  obtain ⟨token, rest, hscan, -⟩ := h
  obtain ⟨hline, definition, hident, htext, -⟩ := NodeToken.scan?_eq_some_iff_isToken.1 hscan
  rw [htext, List.append_assoc] at hline
  exact not_silent_of_ident hident hline

theorem not_fence : trim line ≠ frontMatterFence := by
  obtain ⟨c, r, htrim, hc⟩ := h.exists_head
  rw [htrim]
  intro heq
  have hdash : c = '-' := (List.cons.inj heq).1
  subst hdash
  exact absurd hc (by decide)

/-- The first word of the line does not declare a flowchart. -/
theorem not_declares : Kind.ofKeyword? (firstWord (trim line)) ≠ some .flowchart := by
  intro hkind
  obtain ⟨c, r, htrim, -⟩ := h.exists_head
  obtain ⟨after, hfirst, -, hafter⟩ := exists_firstWord_append (s := line) (by rw [htrim]; simp)
  have hno : ∀ word ∈ statementKeywords, ∀ t, (∀ c ∈ t.head?, isIdentChar c = false ∧
      c ∉ NodeToken.openers) → firstWord (trim line) ≠ word ++ t := by
    intro word hword t ht heq
    rw [heq, List.append_assoc] at hfirst
    refine h.ne_append hword (fun c hc => ?_) hfirst
    cases t with
    | nil => exact Statement.not_opener_of_isSpace (hafter c hc)
    | cons d t => exact ht c hc
  have hmem : (firstWord (trim line), Kind.flowchart) ∈ Kind.keywords := by
    obtain ⟨front, back, heq, -⟩ := List.lookup_eq_some_iff.1 hkind
    rw [heq]
    simp
  have hwords : ∀ p ∈ Kind.keywords, p.2 = .flowchart → p.1 = "flowchart".toList ++ [] ∨
      p.1 = "flowchart".toList ++ "-elk".toList ∨ p.1 = "graph".toList ++ [] := by decide
  rcases hwords _ hmem rfl with heq | heq | heq
  · exact hno _ (by decide) _ (by simp) heq
  · exact hno _ (by decide) _ (by rintro _ ⟨⟩; decide) heq
  · exact hno _ (by decide) _ (by simp) heq

end BeginsWithNode

/-! ## Sources -/

/-- The line with its chosen mentions defined anew. -/
def redefinedLine (rebuild : Option NodeDefinition → NodeDefinition) (chosen : Mention → Bool)
    (p : Nat × Text) : Text :=
  ((Statement.ofLine p.2).redefine rebuild chosen p.1).lineOr p.2

/-- The source with the chosen mentions defined anew. -/
def redefinedSource (rebuild : Option NodeDefinition → NodeDefinition) (chosen : Mention → Bool)
    (s : Source) : Source :=
  { s with
    lines := s.lines.take (s.bodyIndex .flowchart) ++
      (s.body .flowchart).map (redefinedLine rebuild chosen) }

/-- The chosen mentions are of the node `id`, and defining them anew is safe. -/
structure IsRedefinable (rebuild : Option NodeDefinition → NodeDefinition)
    (chosen : Mention → Bool) (id : Text) (s : Source) : Prop where
  rebuilds : NodeDefinition.Rebuilds rebuild
  chooses : ∀ p ∈ statements s, p.2.Chooses chosen id p.1
  shields : ∀ p ∈ statements s, p.2.Shields rebuild chosen p.1

/-- A line stays, or it begins with a node before and after. -/
theorem redefinedLine_cases (hr : NodeDefinition.Rebuilds rebuild) {p : Nat × Text}
    (hshields : (Statement.ofLine p.2).Shields rebuild chosen p.1) :
    redefinedLine rebuild chosen p = p.2 ∨
      BeginsWithNode p.2 ∧ BeginsWithNode (redefinedLine rebuild chosen p) := by
  have hold := Statement.readsFrom_ofLine p.2
  have hnew := Statement.readsFrom_ofLine (redefinedLine rebuild chosen p)
  rw [redefinedLine, Statement.ofLine_lineOr hr hshields] at hnew
  rw [redefinedLine]
  cases hst : Statement.ofLine p.2 with
  | link l =>
    rw [hst] at hold hnew
    exact .inr ⟨beginsWithNode_of_link hold, beginsWithNode_of_link hnew⟩
  | node n =>
    rw [hst] at hold hnew
    exact .inr ⟨beginsWithNode_of_node hold, beginsWithNode_of_node hnew⟩
  | _ => exact .inl rfl

/-- Lines that begin with nodes before and after do not decide where a flowchart is declared. -/
theorem declarationFrom?_congr {lines lines' : List Text}
    (h : List.Forall₂ (fun a b => b = a ∨ BeginsWithNode a ∧ BeginsWithNode b) lines lines')
    (index : Nat) (inside fenced : Bool) :
    (declarationFrom? index inside fenced lines').filter (fun d => d.2 = .flowchart) =
      (declarationFrom? index inside fenced lines).filter fun d => d.2 = .flowchart := by
  induction h generalizing index inside fenced with
  | nil => rfl
  | @cons a b lines lines' hab _ ih =>
    rw [declarationFrom?, declarationFrom?]
    rcases hab with rfl | ⟨ha, hb⟩
    · split
      · exact ih _ _ _
      · split
        · exact ih _ _ _
        · rfl
    · have hnone : ∀ line, BeginsWithNode line →
          ((Kind.ofKeyword? (firstWord (trim line))).map fun kind => (index, kind)).filter
            (fun d => d.2 = .flowchart) = none := by
        intro line hline
        cases hkind : Kind.ofKeyword? (firstWord (trim line)) with
        | none => rfl
        | some kind =>
          have hne : kind ≠ .flowchart := fun heq => hline.not_declares (heq ▸ hkind)
          simp [Option.filter, hne]
      simp only [ha.not_fence, hb.not_fence, ha.not_silent, hb.not_silent, decide_false,
        Bool.false_and, Bool.or_false, Bool.false_eq_true, if_false]
      split
      · exact ih _ _ _
      · rw [hnone a ha, hnone b hb]

/-- A line without chosen mentions stays. -/
theorem getElem?_redefinedSource (i : Nat)
    (hno : ∀ p ∈ View.mentions (statements s), p.1.line = i → chosen p.1 = false) :
    (redefinedSource rebuild chosen s).lines[i]? = s.lines[i]? := by
  have hlength : (s.lines.take (s.bodyIndex .flowchart)).length = s.bodyIndex .flowchart := by
    rw [List.length_take, Nat.min_eq_left (bodyIndex_le _ _)]
  rw [redefinedSource]
  conv_rhs => rw [← List.take_append_drop (s.bodyIndex .flowchart) s.lines]
  rw [List.getElem?_append, List.getElem?_append]
  split
  · rfl
  · next hi =>
    rw [hlength, Nat.not_lt] at hi
    rw [List.getElem?_map, hlength, body_eq_numbered, getElem?_numbered, Option.map_map]
    cases htext : (s.lines.drop (s.bodyIndex .flowchart))[i - s.bodyIndex .flowchart]? with
    | none => rfl
    | some text =>
      have hmem : (i, Statement.ofLine text) ∈ statements s := by
        refine mem_statements.2 ⟨text, ?_, rfl⟩
        rw [body_eq_numbered]
        exact mem_numbered.2 ⟨hi, htext⟩
      have hsame : (Statement.ofLine text).redefine rebuild chosen i = Statement.ofLine text := by
        refine Statement.redefine_eq_self fun p hp => hno p ?_ ?_
        · exact View.mem_mentions.2 ⟨_, hmem, hp⟩
        · exact (View.line_defines_of_mem_mentions hp).1
      rw [Option.map_some, Function.comp_apply, Nat.add_sub_cancel' hi, redefinedLine, hsame,
        Statement.lineOr_ofLine]

section Redefined

variable (h : IsRedefinable rebuild chosen id s)

include h

theorem forall₂_redefinedSource :
    List.Forall₂ (fun a b => b = a ∨ BeginsWithNode a ∧ BeginsWithNode b) s.lines
      (redefinedSource rebuild chosen s).lines := by
  conv_lhs => rw [← List.take_append_drop (s.bodyIndex .flowchart) s.lines]
  rw [redefinedSource, body_eq_numbered]
  refine List.rel_append (List.forall₂_same.2 fun _ _ => .inl rfl) (forall₂_map_numbered ?_)
  intro p hp
  refine redefinedLine_cases h.rebuilds (h.shields (p.1, Statement.ofLine p.2) ?_)
  exact mem_statements.2 ⟨p.2, by rwa [body_eq_numbered], rfl⟩

theorem length_redefinedSource : (redefinedSource rebuild chosen s).lines.length = s.lines.length :=
  (forall₂_redefinedSource h).length_eq.symm

theorem declarationOf?_redefinedSource :
    (redefinedSource rebuild chosen s).declarationOf? .flowchart = s.declarationOf? .flowchart :=
  congrArg (Option.map Prod.fst) (declarationFrom?_congr (forall₂_redefinedSource h) 0 false false)

theorem checkBalance_redefinedSource :
    (redefinedSource rebuild chosen s).checkBalance blockRules = s.checkBalance blockRules := by
  refine checkBalanceFrom_congr (List.Forall₂.imp (fun a b hab => ?_) (forall₂_redefinedSource h)) 0 []
  rcases hab with rfl | ⟨ha, hb⟩
  · rfl
  · rw [ha.blockStep_eq, hb.blockStep_eq]

theorem bodyIndex_redefinedSource :
    (redefinedSource rebuild chosen s).bodyIndex .flowchart = s.bodyIndex .flowchart := by
  rw [bodyIndex, bodyIndex, declarationOf?_redefinedSource h]

/-- The lines below the declaration are where they were. -/
theorem body_redefinedSource : (redefinedSource rebuild chosen s).body .flowchart =
    (s.body .flowchart).map fun p => (p.1, redefinedLine rebuild chosen p) := by
  have hdrop : (redefinedSource rebuild chosen s).lines.drop (s.bodyIndex .flowchart) =
      (s.body .flowchart).map (redefinedLine rebuild chosen) := by
    rw [redefinedSource, List.drop_left']
    rw [List.length_take, Nat.min_eq_left (bodyIndex_le _ _)]
  rw [body_eq_numbered, bodyIndex_redefinedSource h, hdrop, body_eq_numbered, numbered_map]

/-- The new source says what the old one does, with the chosen mentions defined anew. -/
theorem statements_redefinedSource : statements (redefinedSource rebuild chosen s) =
    redefined rebuild chosen (statements s) := by
  rw [statements, body_redefinedSource h, redefined, statements, List.map_map, List.map_map]
  refine List.map_congr_left fun p hp => ?_
  have hmem : (p.1, Statement.ofLine p.2) ∈ statements s := mem_statements.2 ⟨p.2, hp, rfl⟩
  exact Prod.ext rfl (Statement.ofLine_lineOr h.rebuilds (h.shields _ hmem))

/-- The view differs in the definition of the node only. -/
theorem View.isRedefined_ofSource :
    (View.ofSource s).IsRedefined id (View.ofSource (redefinedSource rebuild chosen s)) := by
  have hstart : (Reader.start s).IsRedefined id (Reader.start (redefinedSource rebuild chosen s)) := by
    refine ⟨rfl, ?_⟩
    rw [Reader.start, Reader.start, declarationOf?_redefinedSource h]
    exact .refl id _
  rw [View.ofSource_eq, View.ofSource_eq, statements_redefinedSource h, Source.length, Source.length,
    length_redefinedSource h]
  exact (hstart.readAll h.chooses).finish s.lines.length

/-- The mentions of the new source are those of the old one. -/
theorem recast_mentions_redefinedSource : List.Forall₂ (Recast rebuild chosen)
    (View.mentions (statements s))
    (View.mentions (statements (redefinedSource rebuild chosen s))) := by
  rw [statements_redefinedSource h]
  generalize statements s = sts
  induction sts with
  | nil => exact .nil
  | cons p sts ih => exact List.rel_append (p.2.recast_mentions p.1) ih

end Redefined

end DiagramEditor.Flowchart
