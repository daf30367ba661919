import DiagramEditor.Proofs.Edit.Batch
import DiagramEditor.Proofs.Edit.Flowchart.Flat
import DiagramEditor.Proofs.Flowchart.Relink

/-!
# Links are turned and rewritten on their line

Turning a link and giving it another arrow or text both write its line anew and nothing else, so the
view differs in this one link if the new line is a link again (`View.IsRelinked`).

A link is turned with the characters between its tokens as they are, and so it is a link again exactly
if its target goes with what followed its source (`LinkLine.Turns`). In `A-->B:::c` it does not: in
front, the class name takes the dashes of the arrow. The order of the ends shows where the first
mention counts, in the members of a subgraph and in the label of a node that the link joins to itself
(`not_applyOps_swapEdge`).

A connector is written with blanks around it, and what can go wrong is its text: it is quoted if it
holds a bar, but a bar ends it all the same (`not_applyOps_relink`).
-/

namespace DiagramEditor.Edit.Flowchart

open DiagramEditor.Flowchart Source Text

variable {s : Source} {r : LinkRecord} {index : Nat} {l' : LinkLine} {c : Connector}

/-! ## One line -/

/-- The new view is the old one but for one link, which is `l` now. -/
structure IsRelinked (index : Nat) (r : LinkRecord) (l : LinkLine) (v v' : View) : Prop where
  links : v'.links = v.links.set index { r with link := l }
  declarationLine : v'.declarationLine = v.declarationLine
  styles : v'.styles = v.styles
  linkStyles : v'.linkStyles = v.linkStyles
  classes : v'.classes = v.classes
  classDefs : v'.classDefs = v.classDefs

section SetLink

variable (hr : (View.ofSource s).link? index = some r)

include hr

theorem isRead_link : r.link.IsRead := by
  obtain ⟨text, -, heq⟩ := mem_statements.1 (View.mem_links (List.mem_of_getElem? hr))
  have hreads := Statement.readsFrom_ofLine text
  rw [← heq] at hreads
  exact (LinkLine.ofLine?_eq_some_iff.1 hreads).1

theorem differsIn_link (hread : l'.IsRead) : DiffersIn r.line r.link l' s (setLink r.line l' s) :=
  differsIn_setLink (View.mem_links (List.mem_of_getElem? hr)) hread

theorem isRelinked_setLink (hread : l'.IsRead) :
    IsRelinked index r l' (View.ofSource s) (View.ofSource (setLink r.line l' s)) := by
  have hdiffers := differsIn_link hr hread
  obtain rfl : r.index = index := View.index_of_getElem?_links hr
  refine ⟨hdiffers.links hr rfl, ?_, ?_, ?_, ?_, ?_⟩
  · rw [View.declarationLine_ofSource, View.declarationLine_ofSource, hdiffers.declaration]
  · rw [View.styles_ofSource, View.styles_ofSource, hdiffers.found_eq rfl rfl]
  · rw [View.linkStyles_ofSource, View.linkStyles_ofSource, hdiffers.found_eq rfl rfl]
  · rw [View.classes_ofSource, View.classes_ofSource, hdiffers.found_eq rfl rfl]
  · rw [View.classDefs_ofSource, View.classDefs_ofSource, hdiffers.found_eq rfl rfl]

theorem replaceLine_link (line : Text) :
    Edit.replaceLine r.line line s = .ok { s with lines := s.lines.set r.line line } := by
  obtain ⟨text, hline, -⟩ :=
    exists_line_of_mem_statements (View.mem_links (List.mem_of_getElem? hr))
  obtain ⟨hlt, -⟩ := List.getElem?_eq_some_iff.1 hline
  rw [Edit.replaceLine, Source.replaceLine, Source.length, if_pos hlt]
  rfl

theorem requireLink_eq : requireLink (View.ofSource s) index = .ok r := by
  rw [requireLink, hr]

end SetLink

/-! ## Turning a link -/

theorem swapped_eq (l : LinkLine) : swapped l = l.turned.toLine := rfl

theorem swapEdge_eq (hr : (View.ofSource s).link? index = some r) : swapEdge index s =
    .ok ⟨setLink r.line r.link.turned s,
      some (.edge r.link.target.id r.link.source.id (some index))⟩ := by
  rw [swapEdge, requireLink_eq hr]
  simp only [bind, Except.bind, replaceLine_link hr]
  rfl

/-- The link at its place in the new view. -/
theorem IsRelinked.link? {v v' : View} (h : IsRelinked index r l' v v')
    (hr : v.link? index = some r) : v'.link? index = some { r with link := l' } := by
  rw [View.link?, h.links, List.getElem?_set_self]
  exact (List.getElem?_eq_some_iff.1 hr).1

/-- A link that is turned twice is written as it was. -/
theorem setLink_turned_turned (hr : (View.ofSource s).link? index = some r) :
    setLink r.line r.link.turned.turned (setLink r.line r.link.turned s) = s := by
  obtain ⟨text, hline, heq⟩ :=
    exists_line_of_mem_statements (View.mem_links (List.mem_of_getElem? hr))
  have hreads := Statement.readsFrom_ofLine text
  rw [heq] at hreads
  obtain ⟨-, rfl⟩ := LinkLine.ofLine?_eq_some_iff.1 hreads
  obtain ⟨hlt, hget⟩ := List.getElem?_eq_some_iff.1 hline
  rw [setLink, setLink, LinkLine.turned_turned, List.set_set, ← hget, List.set_getElem_self]

/-- The link changes its direction. Beyond that only the order of its ends may show: a subgraph lists
them in the order in which they are mentioned, and a node that the link joins to itself may be defined
by the other token. -/
structure IsTurned (index : Nat) (r : LinkRecord) (v v' : View) : Prop
    extends IsRelinked index r r.link.turned v v' where
  definitions : ∀ id, (r.link.source.id = id → r.link.target.id = id →
    ∀ d ∈ r.link.source.definition, ∀ e ∈ r.link.target.definition,
      d.richness = e.richness → d = e) →
        (v'.node? id).map (·.definition) = (v.node? id).map (·.definition)
  subgraphs : List.Forall₂ (SubgraphRecord.IsTurned r.link.source.id r.link.target.id) v.subgraphs
    v'.subgraphs

theorem isTurned_setLink (hr : (View.ofSource s).link? index = some r) (hturns : r.link.Turns) :
    IsTurned index r (View.ofSource s) (View.ofSource (setLink r.line r.link.turned s)) := by
  have hread := (LinkLine.isRead_turned_iff (isRead_link hr)).2 hturns
  have hdiffers := differsIn_link hr hread
  exact {
    toIsRelinked := isRelinked_setLink hr hread
    definitions := fun id hself => hdiffers.definition_node?_turned hself
    subgraphs := hdiffers.subgraphs_turned }

theorem applyOps_swapEdge_eq (hr : (View.ofSource s).link? index = some r) (hturns : r.link.Turns)
    (earlier : Option Handle) (ids : IdAllocator) :
    applyOps .flowchart [.flowchart (.swapEdge index)] ⟨s, earlier⟩ ids =
      (.ok ⟨setLink r.line r.link.turned s,
        some (.edge r.link.target.id r.link.source.id (some index))⟩, ids) := by
  refine applyOps_singleton_of_eq ?_ ?_ earlier
  · rw [applyOp, apply, swapEdge_eq hr]
  · exact (differsIn_link hr ((LinkLine.isRead_turned_iff (isRead_link hr)).2 hturns)).balance

/-- The line of a link with its tokens in each other's place is the turned link exactly if the target
may stand in place of the source. Then the edit succeeds and turns the link, and done again it
restores the source. -/
theorem applyOps_swapEdge (hr : (View.ofSource s).link? index = some r) :
    (LinkLine.ofLine? (swapped r.link) = some r.link.turned ↔ r.link.Turns) ∧
      (r.link.Turns → ∃ s', IsTurned index r (View.ofSource s) (View.ofSource s') ∧
        (s.IsFlat → s'.IsFlat) ∧
        (∀ earlier ids, applyOps .flowchart [.flowchart (.swapEdge index)] ⟨s, earlier⟩ ids =
          (.ok ⟨s', some (.edge r.link.target.id r.link.source.id (some index))⟩, ids)) ∧
        ∀ earlier ids, applyOps .flowchart [.flowchart (.swapEdge index)] ⟨s', earlier⟩ ids =
          (.ok ⟨s, some (.edge r.link.source.id r.link.target.id (some index))⟩, ids)) := by
  have hread := isRead_link hr
  refine ⟨?_, fun hturns => ?_⟩
  · rw [← LinkLine.isRead_turned_iff hread, LinkLine.ofLine?_eq_some_iff, swapped_eq]
    exact and_iff_left rfl
  · have hturned := isTurned_setLink hr hturns
    refine ⟨_, hturned, fun hs => swapEdge_isFlat hs _ (swapEdge_eq hr),
      applyOps_swapEdge_eq hr hturns, fun earlier ids => ?_⟩
    have hback := applyOps_swapEdge_eq (hturned.link? hr) (LinkLine.turns_turned hread hturns)
      earlier ids
    rwa [setLink_turned_turned hr] at hback

/-- A link inside a subgraph, with a text between dashes, a class name and a semicolon. -/
theorem applyOps_swapEdge_inside :
    let s : Source := .ofText
      "flowchart TD\nsubgraph S\nA[(\"x] -- t --> B(\"y\"):::c;\nend\nstyle B fill:red".toList
    ∃ r, (View.ofSource s).link? 0 = some r ∧ r.link.Turns ∧
      (LinkLine.ofLine? (swapped r.link) = some r.link.turned ↔ r.link.Turns) ∧
      (r.link.Turns → ∃ s', IsTurned 0 r (View.ofSource s) (View.ofSource s') ∧
        (s.IsFlat → s'.IsFlat) ∧
        (∀ earlier ids, applyOps .flowchart [.flowchart (.swapEdge 0)] ⟨s, earlier⟩ ids =
          (.ok ⟨s', some (.edge r.link.target.id r.link.source.id (some 0))⟩, ids)) ∧
        ∀ earlier ids, applyOps .flowchart [.flowchart (.swapEdge 0)] ⟨s', earlier⟩ ids =
          (.ok ⟨s, some (.edge r.link.source.id r.link.target.id (some 0))⟩, ids)) := by
  intro s
  have hr : (View.ofSource s).link? 0 =
      some (((View.ofSource s).link? 0).get (by decide +kernel)) := by decide +kernel
  exact ⟨_, hr, by decide +kernel, applyOps_swapEdge hr⟩

/-- The members of the subgraph come in the order of their mentions, and `C` has the label of the token
that defines it first. -/
theorem not_applyOps_swapEdge :
    let inside : Source := .ofText "graph\nsubgraph S\nA --> B\nend".toList
    let inside' : Source := .ofText "graph\nsubgraph S\nB --> A\nend".toList
    let itself : Source := .ofText "graph\nC[x] --> C[y]".toList
    let itself' : Source := .ofText "graph\nC[y] --> C[x]".toList
    (applyOps .flowchart [.flowchart (.swapEdge 0)] ⟨inside, none⟩ {}).1 =
        .ok ⟨inside', some (.edge ['B'] ['A'] (some 0))⟩ ∧
      (View.ofSource inside').subgraphs ≠ (View.ofSource inside).subgraphs ∧
      (applyOps .flowchart [.flowchart (.swapEdge 0)] ⟨itself, none⟩ {}).1 =
        .ok ⟨itself', some (.edge ['C'] ['C'] (some 0))⟩ ∧
      ((View.ofSource itself').node? ['C']).map (·.definition) ≠
        ((View.ofSource itself).node? ['C']).map (·.definition) := by
  decide +kernel

/-! ## Arrows and texts -/

theorem withConnector_eq (c : Connector) (l : LinkLine) :
    withConnector c l = (l.relinked c).toLine := by
  simp [withConnector, LinkLine.toLine, LinkLine.relinked]

theorem relink_eq (hr : (View.ofSource s).link? index = some r) (c : Connector) : relink r c s =
    .ok ⟨setLink r.line (r.link.relinked c) s,
      some (.edge r.link.source.id r.link.target.id (some index))⟩ := by
  have hindex : r.index = index := View.index_of_getElem?_links hr
  rw [relink, replaceLine_link hr, withConnector_eq, hindex]
  rfl

/-- The connector may be written between the tokens of the link: its text has no bar, and the source
does not go on in it. -/
structure Takes (c : Connector) (l : LinkLine) : Prop where
  bar : ∀ text ∈ c.text, '|' ∉ text
  quote : l.source.runsInto (' ' :: (c.render ++ ' ' :: (l.target.text ++ l.tail))) = false

instance (c : Connector) (l : LinkLine) : Decidable (Takes c l) :=
  decidable_of_iff ((∀ text ∈ c.text, '|' ∉ text) ∧
    l.source.runsInto (' ' :: (c.render ++ ' ' :: (l.target.text ++ l.tail))) = false)
    ⟨fun h => ⟨h.1, h.2⟩, fun h => ⟨h.bar, h.quote⟩⟩

/-- One link has another connector between the tokens that it had. -/
structure IsRewired (index : Nat) (r : LinkRecord) (c : Connector) (v v' : View) : Prop where
  link : ∃ l, IsRelinked index r l v v' ∧ l.source = r.link.source ∧ l.target = r.link.target ∧
    l.connector = c
  definitions : ∀ id, (v'.node? id).map (·.definition) = (v.node? id).map (·.definition)
  subgraphs : v'.subgraphs = v.subgraphs

theorem isRewired_setLink (hr : (View.ofSource s).link? index = some r) (hplain : c.IsPlain)
    (htakes : Takes c r.link) : IsRewired index r c.reread (View.ofSource s)
      (View.ofSource (setLink r.line (r.link.relinked c) s)) := by
  have hread := (LinkLine.isRead_relinked_iff (isRead_link hr) hplain).2 htakes.quote
  have hdiffers := differsIn_link hr hread
  exact {
    link := ⟨_, isRelinked_setLink hr hread, rfl, rfl, rfl⟩
    definitions := hdiffers.definition_node?_of_tokens rfl rfl
    subgraphs := hdiffers.subgraphs_eq rfl rfl }

/-- An edit that gives the link another connector. -/
theorem applyOps_relink_eq {op : Op} (hr : (View.ofSource s).link? index = some r)
    (hplain : c.IsPlain) (htakes : Takes c r.link)
    (hop : ∀ ids, applyOp .flowchart op s ids = (relink r c s, ids)) (earlier : Option Handle)
    (ids : IdAllocator) : applyOps .flowchart [op] ⟨s, earlier⟩ ids =
      (.ok ⟨setLink r.line (r.link.relinked c) s,
        some (.edge r.link.source.id r.link.target.id (some index))⟩, ids) := by
  refine applyOps_singleton_of_eq ?_ ?_ earlier
  · rw [hop, relink_eq hr]
  · have hread := (LinkLine.isRead_relinked_iff (isRead_link hr) hplain).2 htakes.quote
    exact (differsIn_link hr hread).balance

/-- The connector with another text, or with none. -/
def retexted (text : Option Text) (c : Connector) : Connector :=
  match text.bind nonBlank? with
  | some text => ⟨.normal, some text⟩
  | none => ⟨c.arrow, none⟩

theorem setEdgeText_eq (hr : (View.ofSource s).link? index = some r) (text : Option Text) :
    setEdgeText index text s = relink r (retexted text r.link.connector) s := by
  rw [setEdgeText, requireLink_eq hr, retexted]
  simp only [bind, Except.bind]
  cases text.bind nonBlank? <;> rfl

theorem setEdgeArrow_eq (hr : (View.ofSource s).link? index = some r) (arrow : Arrow) :
    setEdgeArrow index arrow s =
      if r.link.connector.text.isSome && arrow ≠ .normal then .error (.arrowTextConflict index arrow)
      else relink r ⟨arrow, r.link.connector.text⟩ s := by
  rw [setEdgeArrow, requireLink_eq hr]
  simp only [bind, Except.bind]
  split <;> rfl

theorem reread_retexted (text : Option Text) (c : Connector) :
    (retexted text c).reread = retexted text c := by
  rw [retexted]
  split
  · next t ht =>
    obtain ⟨raw, -, hraw⟩ := Option.bind_eq_some_iff.1 ht
    rw [nonBlank?_eq_some hraw, Connector.reread]
    simp only [trim_trim, ite_self]
  · rfl

theorem isPlain_retexted {text : Option Text} (htext : ∀ t ∈ text, ¬quoteEntity <:+: t)
    (hbar : ∀ t ∈ (retexted text c).text, '|' ∉ t) : (retexted text c).IsPlain := by
  intro t ht
  refine ⟨hbar t ht, fun hin => ?_⟩
  rw [retexted] at ht
  split at ht
  · next t' ht' =>
    cases ht
    obtain ⟨raw, hmem, hraw⟩ := Option.bind_eq_some_iff.1 ht'
    obtain ⟨w, v, -, -, hsplit⟩ := exists_append_trim_append raw
    rw [nonBlank?_eq_some hraw] at hin
    exact htext raw hmem (hin.trans ⟨w, v, hsplit⟩)
  · cases ht

theorem isPlain_rearrowed (hr : (View.ofSource s).link? index = some r) (arrow : Arrow)
    (hbar : ∀ t ∈ r.link.connector.text, '|' ∉ t) :
    (Connector.mk arrow r.link.connector.text).IsPlain := by
  obtain ⟨w, text, v, -, -, -, hwritten⟩ := (isRead_link hr).between
  exact fun t ht => ⟨hbar t ht, hwritten.not_infix_text t ht⟩

/-- Another arrow for a link is refused exactly if the link has a text and the arrow is not the default
one. Otherwise the edit succeeds, and so does every edit of the text, and no link but this one is
another one then. It keeps both tokens and has the arrow that was asked for, with the text that it had,
or the text that was asked for with the default arrow. A text must not have a bar, and none that
is read has the entity of a quote. -/
theorem applyOps_relink (hr : (View.ofSource s).link? index = some r) (earlier : Option Handle)
    (ids : IdAllocator) :
    (∀ arrow, r.link.connector.text.isSome → arrow ≠ .normal →
      applyOps .flowchart [.flowchart (.setEdgeArrow index arrow)] ⟨s, earlier⟩ ids =
        (.error (.arrowTextConflict index arrow), ids)) ∧
    (∀ arrow, (r.link.connector.text.isSome → arrow = .normal) →
      Takes ⟨arrow, r.link.connector.text⟩ r.link →
        ∃ s', applyOps .flowchart [.flowchart (.setEdgeArrow index arrow)] ⟨s, earlier⟩ ids =
            (.ok ⟨s', some (.edge r.link.source.id r.link.target.id (some index))⟩, ids) ∧
          IsRewired index r
            ⟨arrow, r.link.connector.text.map fun t => if '"' ∈ t then t else trim t⟩
            (View.ofSource s) (View.ofSource s') ∧ (s.IsFlat → s'.IsFlat)) ∧
    ∀ text, (∀ t ∈ text, ¬quoteEntity <:+: t) → Takes (retexted text r.link.connector) r.link →
      ∃ s', applyOps .flowchart [.flowchart (.setEdgeText index text)] ⟨s, earlier⟩ ids =
          (.ok ⟨s', some (.edge r.link.source.id r.link.target.id (some index))⟩, ids) ∧
        IsRewired index r (retexted text r.link.connector) (View.ofSource s) (View.ofSource s') ∧
          (s.IsFlat → (∀ t ∈ text, Text.IsFlat t) → s'.IsFlat) := by
  refine ⟨fun arrow hsome hne => ?_, fun arrow hnormal htakes => ?_, fun text htext htakes => ?_⟩
  · rw [applyOps, applyOp, apply, setEdgeArrow_eq hr, if_pos (by simp [hsome, hne])]
  · have hplain := isPlain_rearrowed hr arrow htakes.bar
    have hedit : setEdgeArrow index arrow s = relink r ⟨arrow, r.link.connector.text⟩ s := by
      rw [setEdgeArrow_eq hr, if_neg]
      intro hconflict
      obtain ⟨hsome, hne⟩ := Bool.and_eq_true_iff.1 hconflict
      exact of_decide_eq_true hne (hnormal hsome)
    have hrewired := isRewired_setLink hr hplain htakes
    refine ⟨_, applyOps_relink_eq hr hplain htakes (fun ids => ?_) earlier ids, ?_, fun hs => ?_⟩
    · rw [applyOp, apply, hedit]
    · have hreread : Connector.reread ⟨arrow, r.link.connector.text⟩ =
          ⟨arrow, r.link.connector.text.map fun t => if '"' ∈ t then t else trim t⟩ := by
        cases htext : r.link.connector.text with
        | none => rfl
        | some t => rw [hnormal (by rw [htext]; rfl)]; rfl
      rwa [hreread] at hrewired
    · exact setEdgeArrow_isFlat hs arrow _ (hedit.trans (relink_eq hr _))
  · have hplain := isPlain_retexted htext htakes.bar
    have hrewired := isRewired_setLink hr hplain htakes
    rw [reread_retexted] at hrewired
    refine ⟨_, applyOps_relink_eq hr hplain htakes (fun ids => ?_) earlier ids, hrewired,
      fun hs hflat => ?_⟩
    · rw [applyOp, apply, setEdgeText_eq hr]
    · exact setEdgeText_isFlat hs hflat _ ((setEdgeText_eq hr text).trans (relink_eq hr _))

/-- A text between dashes is put between bars, and one with quotes and brackets is put in its place. -/
theorem applyOps_relink_quoted :
    let s : Source := .ofText "flowchart TD\nA:::c -- t --> B[\"y\"];\nB --> A".toList
    let text := "say \"hi\"; [x]".toList
    ∃ r, (View.ofSource s).link? 0 = some r ∧
      (∃ s', applyOps .flowchart [.flowchart (.setEdgeArrow 0 .normal)] ⟨s, none⟩ {} =
          (.ok ⟨s', some (.edge r.link.source.id r.link.target.id (some 0))⟩, {}) ∧
        IsRewired 0 r ⟨.normal, r.link.connector.text.map fun t => if '"' ∈ t then t else trim t⟩
          (View.ofSource s) (View.ofSource s') ∧ (s.IsFlat → s'.IsFlat)) ∧
      ∃ s', applyOps .flowchart [.flowchart (.setEdgeText 0 (some text))] ⟨s, none⟩ {} =
          (.ok ⟨s', some (.edge r.link.source.id r.link.target.id (some 0))⟩, {}) ∧
        IsRewired 0 r (retexted (some text) r.link.connector) (View.ofSource s)
          (View.ofSource s') ∧ (s.IsFlat → (∀ t ∈ some text, Text.IsFlat t) → s'.IsFlat) := by
  intro s text
  have hr : (View.ofSource s).link? 0 =
      some (((View.ofSource s).link? 0).get (by decide +kernel)) := by decide +kernel
  have htext : ∀ t ∈ some text, ¬quoteEntity <:+: t := by
    rintro _ ⟨⟩
    decide +kernel
  obtain ⟨-, harrow, hretext⟩ := applyOps_relink hr none {}
  exact ⟨_, hr, harrow .normal (fun _ => rfl) (by decide +kernel),
    hretext (some text) htext (by decide +kernel)⟩

/-- The second bar ends the text, quoted or not. The line is no link any more, and the text cannot be
set again. -/
theorem not_applyOps_relink :
    let s : Source := .ofText "flowchart TD\nA --> B".toList
    let s' : Source := .ofText "flowchart TD\nA -->|\"a|b\"| B".toList
    (applyOps .flowchart [.flowchart (.setEdgeText 0 (some "a|b".toList))] ⟨s, none⟩ {}).1 =
        .ok ⟨s', some (.edge ['A'] ['B'] (some 0))⟩ ∧
      (View.ofSource s).links.length = 1 ∧ (View.ofSource s').links = [] ∧
      (applyOps .flowchart [.flowchart (.setEdgeText 0 (some "a|b".toList))] ⟨s', none⟩ {}).1 =
        .error (.linkNotFound 0) := by
  decide +kernel

end DiagramEditor.Edit.Flowchart
