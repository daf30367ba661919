import DiagramEditor.Proofs.Edit.Batch
import DiagramEditor.Proofs.Edit.Flowchart.Membership
import DiagramEditor.Proofs.Edit.Flowchart.Move
import DiagramEditor.Proofs.Flowchart.Relocation

/-!
# Where a moved node ends up

A move writes one line of the node at another place and deletes others that hold it alone
(`IsMove.exists_isTransfer`). Everything else stays; but whether the node is where it was to go, and is
still the same, depends on what else the source says about it. A link that mentions it inside of
another subgraph keeps it there, and its definition may be on one of the lines that go. If there is
nothing of this kind (`Settles`), the node has moved (`moveInto_isMoved`, `moveOut_isMoved`).
-/

namespace DiagramEditor.Edit.Flowchart

open DiagramEditor.Flowchart Source Text
open NodeToken (IsIdent)

variable {s s' : Source} {front body : List Text} {line text target : Text} {gone : List Nat}
  {stop : Nat} {moved? : Option Nat} {n : NodeRecord} {into : Option Text}

/-! ## The lines of a move -/

/-- The lines that the move deletes. -/
def linesGone (into : Option Text) (n : NodeRecord) (v : View) : List Nat :=
  ((moveLines? n.id into v).map Prod.fst).getD []

/-- A mention on this line can put the node in a subgraph after the move: the line stays, and if there is
a new line inside of a subgraph, it stands above. -/
def decides (into : Option Text) (n : NodeRecord) (v : View) (i : Nat) : Bool :=
  match moveLines? n.id into v with
  | none => true
  | some (gone, _) => !gone.contains i && (into.bind v.subgraph?).all (i < ·.span.stop)

/-- What a move of the node does to the statements: `before` stands above the line `stop`, `after` from
there on, and between them comes the moved line, or one that names the node if none goes. -/
structure IsTransfer (gone : List Nat) (stop : Nat) (moved? : Option Nat) (n : NodeRecord)
    (t : NodeLine) (before after : List (Nat × Statement)) (s s' : Source) : Prop
    extends IsRelocated gone t before after s s' where
  id : t.token.id = n.id
  above : ∀ p ∈ before, p.1 < stop
  below : ∀ p ∈ after, stop ≤ p.1
  token : gone = [] ∧ t.token.definition = none ∨
    ∃ i ∈ gone, moved? = some i ∧ ∃ m, (i, Statement.node m) ∈ statements s ∧ m.token = t.token

/-- The new line is one of the node. -/
theorem IsMovedText.exists_ofLine (h : IsMovedText gone moved? n s text) (hid : IsIdent n.id)
    (hkeyword : moved? = none → n.id ∉ statementKeywords) :
    ∃ t, Statement.ofLine text = .node t ∧ t.token.id = n.id ∧
      (gone = [] ∧ t.token.definition = none ∨
        ∃ i ∈ gone, moved? = some i ∧
          ∃ m, (i, Statement.node m) ∈ statements s ∧ m.token = t.token) := by
  cases h with
  | named hgone hmoved hw =>
    exact ⟨_, Statement.ofLine_ident_of_not_keyword hw hid (hkeyword hmoved), rfl, .inl ⟨hgone, rfl⟩⟩
  | moved hi hmoved ht hid htext hw =>
    obtain ⟨tail, hread⟩ := nodeLine_behind (ofLine?_of_node ht htext) hw
    exact ⟨_, Statement.ofLine_of_node hread, hid, .inr ⟨_, hi, hmoved, _, ht, rfl⟩⟩

/-- The lines that stay of `texts`, the first of which has the number `start`. -/
def keptLines (gone : List Nat) (start : Nat) (texts : List Text) : List Text :=
  ((numbered start texts).filter fun p => !gone.contains p.1).map Prod.snd

/-- What the lines with these numbers say. -/
def readLines (start : Nat) (texts : List Text) : List (Nat × Statement) :=
  (numbered start texts).map fun p => (p.1, Statement.ofLine p.2)

theorem map_ofLine_keptLines (gone : List Nat) (start : Nat) (texts : List Text) :
    (keptLines gone start texts).map Statement.ofLine =
      (without gone (readLines start texts)).map Prod.snd := by
  rw [keptLines, without, readLines, List.filter_map, List.map_map, List.map_map]
  rfl

theorem le_of_mem_readLines {start : Nat} {texts : List Text} {p : Nat × Statement}
    (hp : p ∈ readLines start texts) : start ≤ p.1 ∧ p.1 < start + texts.length := by
  obtain ⟨q, hq, rfl⟩ := List.mem_map.1 hp
  obtain ⟨hle, hget⟩ := mem_numbered.1 hq
  have := (List.getElem?_eq_some_iff.1 hget).1
  exact ⟨hle, by simp only; omega⟩

section Body

variable {k : Nat} (h : IsDeclared .flowchart front line body s) (hk : k ≤ body.length)

include hk in
theorem numbered_split (start : Nat) : numbered start body =
    numbered start (body.take k) ++ numbered (start + k) (body.drop k) := by
  conv_lhs => rw [← List.take_append_drop k body, numbered_append, List.length_take_of_le hk]

include h hk

theorem statements_split : statements s = readLines (front.length + 1) (body.take k) ++
    readLines (front.length + 1 + k) (body.drop k) := by
  rw [statements, h.body_eq, numbered_split hk, List.map_append]
  rfl

/-- The new line stands between the lines that stay above the line number `k` of the body and the
others that stay. -/
theorem isDeclared_insert_deleteLineSet (hbody : ∀ i ∈ gone, front.length < i)
    (hok : insertLines (lineAfterDelete gone (front.length + 1 + k)) [text] (s.deleteLineSet gone) =
      .ok s') :
    IsDeclared .flowchart front line (keptLines gone (front.length + 1) (body.take k) ++
      text :: keptLines gone (front.length + 1 + k) (body.drop k)) s' := by
  rw [lineAfterDelete_add hbody] at hok
  obtain ⟨above, below, hlines, habove, hdecl⟩ :=
    insertLines_body (isDeclared_deleteLineSet h hbody) (by omega) hok
  rw [numbered_split hk, List.filter_append, List.map_append] at hlines
  have hrange : List.range' (front.length + 1) k =
      (numbered (front.length + 1) (body.take k)).map Prod.fst := by
    rw [map_fst_numbered, List.length_take_of_le hk]
  have hlength : (keptLines gone (front.length + 1) (body.take k)).length = above.length := by
    rw [habove, Nat.add_sub_cancel_left, hrange, List.filter_map, List.length_map, keptLines,
      List.length_map]
    rfl
  obtain ⟨rfl, rfl⟩ := List.append_inj hlines hlength
  rwa [List.append_assoc, List.singleton_append] at hdecl

end Body

/-- The statements of the lines that stay and of the new line. -/
theorem IsMove.exists_isTransfer (h : IsDeclared .flowchart front line body s)
    (hmove : IsMove gone stop moved? n s s') (hid : IsIdent n.id) (hstop : front.length < stop)
    (hkeyword : moved? = none → n.id ∉ statementKeywords) :
    ∃ t before after, IsTransfer gone stop moved? n t before after s s' := by
  have hbody := hmove.lt h
  obtain ⟨hnode, hle, text, htext, hok⟩ := hmove
  obtain ⟨t, ht, htid, htoken⟩ := htext.exists_ofLine hid hkeyword
  obtain ⟨k, rfl⟩ : ∃ k, stop = front.length + 1 + k := ⟨stop - (front.length + 1), by omega⟩
  have hk : k ≤ body.length := by
    rw [Source.length, h.lines, List.length_append, List.length_cons] at hle
    omega
  refine ⟨t, _, _, ⟨statements_split h hk, ?_, ?_⟩, htid, fun p hp => ?_, fun p hp => ?_, htoken⟩
  · rintro ⟨i, st⟩ hst hi
    obtain ⟨m, hm, hmid⟩ := hnode i hi
    exact ⟨m, eq_of_mem_statements hst hm, hmid.trans htid.symm⟩
  · rw [map_snd_statements (isDeclared_insert_deleteLineSet h hk hbody hok), List.map_append,
      List.map_cons, map_ofLine_keptLines, map_ofLine_keptLines, ht]
  · have := (le_of_mem_readLines hp).2
    rwa [List.length_take_of_le hk] at this
  · exact (le_of_mem_readLines hp).1

/-! ## The node that moves -/

namespace IsTransfer

variable {t : NodeLine} {before after : List (Nat × Statement)} {n' : NodeRecord}
  (h : IsTransfer gone stop moved? n t before after s s')

include h

theorem filter_lt (keep : Nat → Bool) : ((statements s).filter fun p => keep p.1 && p.1 < stop) =
    before.filter fun p => keep p.1 := by
  have habove : (before.filter fun p => keep p.1 && p.1 < stop) = before.filter fun p => keep p.1 :=
    List.filter_congr fun p hp => by simp [h.above p hp]
  have hbelow : (after.filter fun p => keep p.1 && p.1 < stop) = [] :=
    List.filter_eq_nil_iff.2 fun p hp => by simp [h.below p hp]
  rw [h.old, List.filter_append, habove, hbelow, List.append_nil]

/-- Lines that go neither open nor close a subgraph. -/
theorem stay {p : Nat × Statement} (hp : p ∈ statements s) (hgone : p.1 ∈ gone) :
    p.2.blockStep = .stay := by
  obtain ⟨m, hm, -⟩ := h.node p hp hgone
  rw [hm]
  rfl

variable (hn : n ∈ (View.ofSource s).nodes) (hclosed : ClosesAll s)
  (hn' : (View.ofSource s').node? n.id = some n')

include hn hclosed hn'

/-- In front of the end of a subgraph, the node is in there, unless a line above puts it elsewhere. -/
theorem subgraph_of_endsAt (hends : EndsAt [] stop target (statements s)) : n'.subgraph =
    ((View.ofSource s).placeOn (fun i => !gone.contains i && i < stop) n).or (some target) := by
  obtain ⟨above, below, hsts, hopen⟩ := hends
  obtain ⟨habove, hbelow⟩ := before_lt_after hsts
  have hbefore : before = above := by
    have hfilter := h.filter_lt fun _ => true
    simp only [Bool.true_and, List.filter_true] at hfilter
    rw [← hfilter, hsts, List.filter_append, List.filter_eq_self.2 fun p hp => by simpa using habove p hp,
      List.filter_eq_nil_iff.2 fun p hp => ?_, List.append_nil]
    rcases List.mem_cons.1 hp with rfl | hp
    · simp
    · simpa using Nat.le_of_lt (hbelow p hp)
  have hplace : firstPlace n.id (placesIn [] ((without gone before).map Prod.snd)) =
      (View.ofSource s).placeOn (fun i => !gone.contains i && i < stop) n := by
    rw [← View.firstPlace_eq_placeOn hclosed hn, h.filter_lt fun i => !gone.contains i]
    · rfl
    · intro p _ q hq hp hlt hno
      refine h.stay hq ?_
      simp only [Bool.and_eq_true, decide_eq_true_eq] at hp
      by_contra hstays
      simp [hstays, Nat.lt_trans hlt hp.2] at hno
  rw [← h.id] at hn' hplace
  rw [h.subgraph_eq hn', hplace, hbefore, hopen, Option.some_or]

/-- Above all statements, the node is in no subgraph, unless a line that stays puts it in one. -/
theorem subgraph_of_nil (hbefore : before = []) : n'.subgraph =
    (View.ofSource s).placeOn (fun i => !gone.contains i) n := by
  have hold := h.old
  subst hbefore
  have hplace : firstPlace n.id (placesIn [] ((without gone after).map Prod.snd)) =
      (View.ofSource s).placeOn (fun i => !gone.contains i) n := by
    rw [← View.firstPlace_eq_placeOn hclosed hn, hold]
    · rfl
    · intro p _ q hq _ _ hno
      exact h.stay hq (by simpa using hno)
  rw [← h.id] at hn' hplace
  exact (h.subgraph_eq hn').trans hplace

omit hclosed in
/-- The definition stays if it is still written somewhere and there is no other one that is as rich, or
if no line goes. -/
theorem definition_eq
    (hkept : ∀ d ∈ n.definition, ∃ p ∈ statements s,
      (p.1 ∉ gone ∨ moved? = some p.1) ∧ d ∈ p.2.definitionsOf n.id)
    (hunique : gone ≠ [] → ∀ d ∈ n.definition, ∀ p ∈ statements s, ∀ e ∈ p.2.definitionsOf n.id,
      e.richness = d.richness → e = d) : n'.definition = n.definition := by
  have hold := View.definition_eq hn
  rw [← h.id] at hn' hkept hunique hold
  have hmem : ∀ d, d ∈ ((statements s).map Prod.snd).flatMap (Statement.definitionsOf t.token.id) ↔
      ∃ p ∈ statements s, d ∈ p.2.definitionsOf t.token.id := fun d => by
    rw [List.flatMap_map, List.mem_flatMap]
  rcases h.token with ⟨rfl, hnone⟩ | ⟨i, hi, hmoved, m, hm, htoken⟩
  · have hall : ∀ sts : List (Nat × Statement), without [] sts = sts := fun sts => by
      simp [without]
    rw [h.toIsRelocated.definition_eq hn', hall, hall, hnone, hold, h.old, List.map_append,
      List.flatMap_append]
    rfl
  · obtain ⟨ds, hds, hleft⟩ := h.exists_definitions hn'
    -- The moved line has its definition from an old one.
    have hline : ∀ d, t.token.definition = some d ↔
        d ∈ (Statement.node m).definitionsOf t.token.id := fun d => by
      simp [Statement.definitionsOf, Statement.tokens, htoken]
    have hsub : ∀ d ∈ ds, d ∈ ((statements s).map Prod.snd).flatMap
        (Statement.definitionsOf t.token.id) := fun d hd => (hmem d).2 <| by
      rcases (hleft d).1 hd with hd | ⟨p, hp, -, hd⟩
      exacts [⟨_, hm, (hline d).1 hd⟩, ⟨p, hp, hd⟩]
    rw [hold] at hkept hunique
    rw [hds, hold]
    refine View.richest_eq_of_unique hsub (fun d hd => (hleft d).2 ?_) fun d hd e he heq => ?_
    · obtain ⟨p, hp, hstays | hp', hdp⟩ := hkept d hd
      · exact .inr ⟨p, hp, hstays, hdp⟩
      · -- The definition is the one of the moved line.
        obtain rfl : i = p.1 := Option.some.inj (hmoved.symm.trans hp')
        have hst : (p.1, p.2) ∈ statements s := hp
        rw [eq_of_mem_statements hst hm] at hdp
        exact .inl ((hline d).2 hdp)
    · obtain ⟨p, hp, hep⟩ := (hmem e).1 he
      exact hunique (List.ne_nil_of_mem hi) d hd p hp e hep heq

end IsTransfer

/-! ## Moving -/

/-- The node has moved: it is in the subgraph `into`, or in none, and everything else is as it was. -/
structure IsMoved (into : Option Text) (n : NodeRecord) (before after : View) : Prop where
  links : after.links.map (·.link) = before.links.map (·.link)
  node : ∃ n', after.node? n.id = some n' ∧ n'.subgraph = into ∧ n'.definition = n.definition ∧
    n'.label = n.label
  others : ∀ id, id ≠ n.id → (after.node? id).map (fun m => (m.definition, m.subgraph)) =
    (before.node? id).map fun m => (m.definition, m.subgraph)

/-- The lines that stay do not hold the node in another subgraph, and those that go are not needed for
what it is. -/
structure Settles (into : Option Text) (n : NodeRecord) (s : Source) : Prop where
  /-- An id that begins other lines names no node where it stands alone. -/
  named : into.isSome → n.standaloneLine? = none → n.id ∉ statementKeywords
  /-- The first mention inside of a subgraph that counts after the move is in the right one. -/
  placed : ∀ name ∈ (View.ofSource s).placeOn (decides into n (View.ofSource s)) n, into = some name
  /-- Out of all subgraphs, the definition moves along or stays where it is. -/
  kept : into = none → ∀ d ∈ n.definition, ∃ p ∈ statements s,
    (p.1 ∉ linesGone none n (View.ofSource s) ∨ movedLine? none n (View.ofSource s) = some p.1) ∧
      d ∈ p.2.definitionsOf n.id
  /-- Where lines move, the order of equally rich definitions may change. -/
  unique : linesGone into n (View.ofSource s) ≠ [] → ∀ d ∈ n.definition, ∀ p ∈ statements s,
    ∀ e ∈ p.2.definitionsOf n.id, e.richness = d.richness → e = d

theorem IsTransfer.isMoved {t : NodeLine} {before after : List (Nat × Statement)}
    (h : IsTransfer gone stop moved? n t before after s s') (hn : n ∈ (View.ofSource s).nodes)
    (hsubgraph : ∀ n', (View.ofSource s').node? n.id = some n' → n'.subgraph = into)
    (hdefinition : ∀ n', (View.ofSource s').node? n.id = some n' → n'.definition = n.definition) :
    IsMoved into n (View.ofSource s) (View.ofSource s') := by
  obtain ⟨n', hn'⟩ := h.exists_node? (h.id ▸ View.not_mem_subgraphIds hn)
  rw [h.id] at hn'
  refine ⟨h.map_link, ⟨n', hn', hsubgraph n' hn', hdefinition n' hn', ?_⟩,
    fun id hid => h.others (h.id ▸ hid)⟩
  rw [NodeRecord.label, NodeRecord.label, hdefinition n' hn', (View.node?_eq_some_iff.1 hn').2]

section Move

variable (h : IsDeclared .flowchart front line body s) (hclosed : ClosesAll s)
  (hn : n ∈ (View.ofSource s).nodes)

include h hclosed hn

theorem moveOut_isMoved (hsettles : Settles none n s)
    (hok : moveOut n (View.ofSource s) s = .ok s') :
    IsMoved none n (View.ofSource s) (View.ofSource s') := by
  obtain ⟨gone, hlines, hmoved, hmove⟩ := moveOut_isMove h hn hok
  have hgone : linesGone none n (View.ofSource s) = gone := by rw [linesGone, hlines]; rfl
  have hdecides : decides none n (View.ofSource s) = fun i => !gone.contains i := by
    funext i
    rw [decides, hlines]
    exact Bool.and_true _
  obtain ⟨-, hplaced, hkept, hunique⟩ := hsettles
  rw [hdecides] at hplaced
  rw [hgone] at hkept hunique
  obtain ⟨t, before, after, htransfer⟩ := hmove.exists_isTransfer h (areScanned_nodes s n hn).1
    (Nat.lt_succ_self _) fun hnone => by rw [hnone] at hmoved; cases hmoved
  refine htransfer.isMoved hn (fun n' hn' => ?_) fun n' hn' =>
    htransfer.definition_eq hn hn' (hkept rfl) hunique
  -- Below the declaration, the new line is the first one.
  have hbefore : before = [] := List.eq_nil_iff_forall_not_mem.2 fun p hp => by
    have hlt := lt_of_mem_statements h (htransfer.old ▸ List.mem_append_left after hp)
    have := htransfer.above p hp
    omega
  rw [htransfer.subgraph_of_nil hn hclosed hn' hbefore]
  exact Option.eq_none_iff_forall_not_mem.2 fun name hname => nomatch hplaced name hname

omit h in
/-- A mention inside of a subgraph puts the node in one. -/
theorem isSome_subgraph_of_innermost {m : Mention} (hm : m ∈ n.mentions)
    (hin : ((View.ofSource s).innermost? m.line).isSome) : n.subgraph.isSome := by
  rw [View.subgraph_eq_placeOn hclosed hn, View.placeOn, List.findSome?_isSome_iff]
  exact ⟨m, List.mem_filter.2 ⟨hm, rfl⟩, by rwa [Option.isSome_map]⟩

theorem moveInto_isMoved (hlength : s.length < indexBound) (hsettles : Settles (some target) n s)
    (hok : moveInto n target (View.ofSource s) s = .ok s') :
    IsMoved (some target) n (View.ofSource s) (View.ofSource s') := by
  have hnode := View.node?_eq_some_iff.2 ⟨hn, rfl⟩
  obtain ⟨hnamed, hplaced, -, hunique⟩ := hsettles
  obtain ⟨g, hg, ⟨i, hi, hin, hlines, rfl⟩ | ⟨hlines, hmove⟩⟩ := moveInto_cases hlength hn hok
  · have hdecides : decides (some target) n (View.ofSource s') = fun _ => true := by
      funext j
      rw [decides, hlines]
    rw [hdecides, ← View.subgraph_eq_placeOn hclosed hn] at hplaced
    obtain ⟨m, hm, -, rfl⟩ := exists_mention_of_standaloneLine? hi
    obtain ⟨g', hg', -⟩ := (Option.any_eq_true ..).1 hin
    obtain ⟨name, hname⟩ := Option.isSome_iff_exists.1 <|
      isSome_subgraph_of_innermost hclosed hn hm (by rw [hg']; rfl)
    exact ⟨rfl, ⟨n, hnode, hname.trans (hplaced name hname).symm, rfl, rfl⟩, fun _ _ => rfl⟩
  · have hgmem := List.mem_of_find?_eq_some hg
    obtain rfl : g.id = target := by simpa using List.find?_some hg
    have hgone : linesGone (some g.id) n (View.ofSource s) = n.standaloneLine?.toList := by
      rw [linesGone, hlines]
      rfl
    have hdecides : decides (some g.id) n (View.ofSource s) =
        fun i => !n.standaloneLine?.toList.contains i && i < g.span.stop := by
      funext i
      rw [decides, hlines, Option.bind_some, hg]
      rfl
    rw [hdecides] at hplaced
    rw [hgone] at hunique
    obtain ⟨t, before, after, htransfer⟩ := hmove.exists_isTransfer h (areScanned_nodes s n hn).1
      (View.lt_stop_of_mem_subgraphs h hgmem) (hnamed rfl)
    refine htransfer.isMoved hn (fun n' hn' => ?_) fun n' hn' =>
      htransfer.definition_eq hn hn' (fun d hd => ?_) hunique
    · rw [htransfer.subgraph_of_endsAt hn hclosed hn' (hclosed.endsAt hgmem)]
      cases hplace : (View.ofSource s).placeOn
          (fun i => !n.standaloneLine?.toList.contains i && i < g.span.stop) n with
      | none => rfl
      | some name => exact (hplaced name hplace).symm
    · rw [View.definition_eq hn] at hd
      have hmem := View.mem_of_richest hd
      rw [List.flatMap_map, List.mem_flatMap] at hmem
      obtain ⟨p, hp, hdp⟩ := hmem
      refine ⟨p, hp, ?_, hdp⟩
      rw [Option.mem_toList]
      exact (em _).symm

end Move

/-- A move that succeeds takes the node where it is to go, if it can settle there. -/
theorem moveNode_isMoved {e : Edited} (ids : IdAllocator) (hkind : s.kind? = some .flowchart)
    (hbalance : s.checkBalance blockRules = .ok ())
    (hlines : ∀ text ∈ s.lines,
      isSubgraphOpen (trim text) = (SubgraphHeader.ofLine? text).isSome)
    (hlength : s.length < indexBound) (hn : n ∈ (View.ofSource s).nodes) (hsettles : Settles into n s)
    (hok : (apply (.moveNode n.id into) s ids).1 = .ok e) :
    IsMoved into n (View.ofSource s) (View.ofSource e.source) := by
  obtain ⟨front, line, body, hdecl⟩ := exists_isDeclared hkind
  have hclosed := closesAll_of_checkBalance hdecl hbalance fun text htext =>
    SubgraphHeader.isUniform_iff.2 (hlines text htext)
  obtain ⟨m, hm, hok⟩ := bind_eq_ok.1 hok
  have hsome := requireNode_eq_ok hm
  rw [View.node?_eq_some_iff.2 ⟨hn, rfl⟩, Option.some.injEq] at hsome
  subst hsome
  cases into with
  | none =>
    obtain ⟨s', hs', hok⟩ := bind_eq_ok.1 hok
    cases hok
    exact moveOut_isMoved hdecl hclosed hn hsettles hs'
  | some target =>
    obtain ⟨s', hs', hok⟩ := bind_eq_ok.1 hok
    cases hok
    exact moveInto_isMoved hdecl hclosed hn hlength hsettles hs'

/-- From a subgraph into the one around it, and out of both. -/
theorem moveNode_isMoved_nested :
    let s : Source := .ofText "graph\nn --> m\nsubgraph a\nsubgraph b\nn[x]\nend\nend".toList
    let outer : Source := .ofText "graph\nn --> m\nsubgraph a\nsubgraph b\nend\n    n[x]\nend".toList
    let outside : Source := .ofText "graph\nn[x]\nn --> m\nsubgraph a\nsubgraph b\nend\nend".toList
    ∃ n ∈ (View.ofSource s).nodes, n.subgraph = some ['b'] ∧
      IsMoved (some ['a']) n (View.ofSource s) (View.ofSource outer) ∧
      IsMoved none n (View.ofSource s) (View.ofSource outside) := by
  intro s outer outside
  have hkind : s.kind? = some .flowchart := by decide +kernel
  have hbalance : s.checkBalance blockRules = .ok () := by decide +kernel
  have hlines : ∀ text ∈ s.lines,
      isSubgraphOpen (trim text) = (SubgraphHeader.ofLine? text).isSome := by decide +kernel
  have hlength : s.length < indexBound := by decide +kernel
  let n : NodeRecord := ⟨['n'], some ⟨.classic .rect, some ['x'], some ['x']⟩, some 4,
    [⟨1, 0, 1, false, false⟩, ⟨4, 0, 4, true, true⟩], some ['b']⟩
  have hn : n ∈ (View.ofSource s).nodes := by decide +kernel
  have houter : (apply (.moveNode n.id (some ['a'])) s {}).1 = .ok ⟨outer, some (.node n.id)⟩ := by
    decide +kernel
  have houtside : (apply (.moveNode n.id none) s {}).1 = .ok ⟨outside, some (.node n.id)⟩ := by
    decide +kernel
  have hsettles : Settles (some ['a']) n s := ⟨nofun, by decide +kernel, nofun, by decide +kernel⟩
  have hsettles' : Settles none n s :=
    ⟨nofun, by decide +kernel, fun _ => by decide +kernel, by decide +kernel⟩
  have hmoved := moveNode_isMoved {} hkind hbalance hlines hlength hn hsettles houter
  have hmoved' := moveNode_isMoved {} hkind hbalance hlines hlength hn hsettles' houtside
  exact ⟨n, hn, rfl, hmoved, hmoved'⟩

/-- Of two lines that define the node, a move out of the subgraph keeps the first one, though the second one
is richer; and a link holds its end in the subgraph that it stands in. -/
theorem moveNode_loses :
    let labelled : Source := .ofText "flowchart TD\nsubgraph a\nn@\x7b shape: circle \x7d\nn[x]\nend".toList
    let bare : Source := .ofText "flowchart TD\nn@\x7b shape: circle \x7d\nsubgraph a\nend".toList
    let linked : Source := .ofText "flowchart TD\nsubgraph a\nn --> m\nend\nsubgraph b\nend".toList
    let held : Source := .ofText "flowchart TD\nsubgraph a\nn --> m\nend\nsubgraph b\n    n\nend".toList
    (∀ s ∈ [labelled, linked], s.kind? = some .flowchart ∧ s.checkBalance blockRules = .ok () ∧
      s.length < indexBound ∧
      ∀ text ∈ s.lines, isSubgraphOpen (trim text) = (SubgraphHeader.ofLine? text).isSome) ∧
    ((apply (.moveNode ['n'] none) labelled {}).1 = .ok ⟨bare, some (.node ['n'])⟩ ∧
      ((View.ofSource labelled).node? ['n']).map (·.label) = some ['x'] ∧
      ((View.ofSource bare).node? ['n']).map (·.label) = some ['n']) ∧
    (apply (.moveNode ['n'] (some ['b'])) linked {}).1 = .ok ⟨held, some (.node ['n'])⟩ ∧
      ((View.ofSource held).node? ['n']).map (·.subgraph) = some (some ['a']) := by
  decide +kernel

end DiagramEditor.Edit.Flowchart
