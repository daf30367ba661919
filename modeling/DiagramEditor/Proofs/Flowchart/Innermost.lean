import DiagramEditor.Proofs.Flowchart.Growth
import DiagramEditor.Proofs.Flowchart.Member
import Mathlib.Data.List.Induction

/-!
# The innermost subgraph of a line

Which subgraphs a line is in can be asked in two ways: the finished view has the spans of the
subgraphs, and the reader has a stack of open ones. The subgraphs that are open on a line are those
whose spans enclose it (`encloses_iff`), also unclosed ones, which reach to the last line, so both
answers are the same (`View.map_id_around`). Where every subgraph is closed, the enclosed lines are
those between the first and the last one (`View.innermost?_eq`).
-/

namespace DiagramEditor.Flowchart

open Source

variable {s : Source} {r : Reader} {st : Statement} {before after : List (Nat × Statement)} {i j : Nat}
  {g : SubgraphRecord}

/-! ## The latest subgraph -/

/-- The line is between the first and the last line of the subgraph. -/
def SubgraphRecord.IsInside (line : Nat) (g : SubgraphRecord) : Prop :=
  g.span.start < line ∧ line < g.span.stop

instance (line : Nat) (g : SubgraphRecord) : Decidable (g.IsInside line) :=
  inferInstanceAs (Decidable (_ ∧ _))

/-- The line is behind the first line of the subgraph, and the subgraph has not ended above. -/
def SubgraphRecord.Encloses (line : Nat) (g : SubgraphRecord) : Prop :=
  g.span.start < line ∧ line ≤ g.span.stop

instance (line : Nat) (g : SubgraphRecord) : Decidable (g.Encloses line) :=
  inferInstanceAs (Decidable (_ ∧ _))

/-- The subgraphs around the line, the innermost first. -/
def View.around (line : Nat) (v : View) : List SubgraphRecord :=
  (v.subgraphs.filter fun g => g.Encloses line).reverse

/-- Of subgraphs in the order of their first lines, the innermost one comes last. -/
theorem View.innermost?_eq_getLast? (s : Source) (line : Nat) : (View.ofSource s).innermost? line =
    ((View.ofSource s).subgraphs.filter fun g => g.IsInside line).getLast? := by
  have hfilter : (View.ofSource s).subgraphs.filter (fun g => g.IsInside line) =
      (View.ofSource s).subgraphs.filter fun g => g.span.start < line && line < g.span.stop :=
    List.filter_congr fun g _ => Bool.decide_and _ _
  have hsorted : ((View.ofSource s).subgraphs.filter fun g => g.IsInside line).Pairwise
      fun g g' => g.span.start < g'.span.start :=
    (List.pairwise_map.1 (pairwise_spans s)).filter _
  rw [View.innermost?, ← hfilter]
  generalize (View.ofSource s).subgraphs.filter (fun g => g.IsInside line) = gs at hsorted
  induction gs using List.reverseRecOn with
  | nil => rfl
  | append_singleton gs g ih =>
    obtain ⟨hgs, -, hlt⟩ := List.pairwise_append.1 hsorted
    rw [List.foldl_append, ih hgs, List.getLast?_concat, List.foldl_cons, List.foldl_nil]
    split
    · next b hb =>
      have := hlt b (List.mem_of_getLast? hb) g (List.mem_singleton.2 rfl)
      rw [if_neg (by omega)]
    · rfl

/-- The entries that stand at the positions `js`, the greatest position first. -/
theorem reverse_filter_of_positions {α : Type} {l : List α} {p : α → Bool} {js : List Nat}
    (hsorted : js.Pairwise (· > ·)) (hlt : ∀ j ∈ js, j < l.length)
    (h : ∀ j a, l[j]? = some a → (p a = true ↔ j ∈ js)) :
    (l.filter p).reverse.map some = js.map (l[·]?) := by
  induction js generalizing l with
  | nil =>
    rw [List.filter_eq_nil_iff.2 fun a ha hp => ?_]
    · rfl
    · obtain ⟨j, hj⟩ := List.getElem?_of_mem ha
      cases (h j a hj).1 hp
  | cons j js ih =>
    obtain ⟨hmax, hsorted⟩ := List.pairwise_cons.1 hsorted
    have hj := hlt j List.mem_cons_self
    -- Behind the first of the positions there are no others.
    have hbehind : (l.drop (j + 1)).filter p = [] := by
      refine List.filter_eq_nil_iff.2 fun a ha hp => ?_
      obtain ⟨k, hk⟩ := List.getElem?_of_mem ha
      rw [List.getElem?_drop] at hk
      rcases List.mem_cons.1 ((h _ a hk).1 hp) with heq | hmem
      · omega
      · have := hmax _ hmem
        omega
    have hpos : p l[j] = true := (h j _ (List.getElem?_eq_getElem hj)).2 List.mem_cons_self
    have hfront : ((l.take j).filter p).reverse.map some = js.map ((l.take j)[·]?) := by
      refine ih hsorted (fun k hk => ?_) fun k a hk => ?_
      · rw [List.length_take]
        exact Nat.lt_min.2 ⟨hmax k hk, hlt k (List.mem_cons_of_mem j hk)⟩
      · have hkj : k < j := by
          have := (List.getElem?_eq_some_iff.1 hk).1
          rw [List.length_take] at this
          omega
        rw [List.getElem?_take_of_lt hkj] at hk
        rw [h k a hk, List.mem_cons, or_iff_right (Nat.ne_of_lt hkj)]
    conv_lhs => rw [← List.take_append_drop j l, List.drop_eq_getElem_cons hj]
    rw [List.filter_append, List.filter_cons_of_pos hpos, hbehind, List.reverse_append,
      List.reverse_singleton, List.singleton_append, List.map_cons, List.map_cons, hfront,
      List.getElem?_eq_getElem hj]
    exact congrArg _ (List.map_congr_left fun k hk => List.getElem?_take_of_lt (hmax k hk))

/-! ## Subgraphs that are open on a line -/

/-- The open subgraphs stand in the reader from the latest on. -/
theorem Reader.pairwise_openBlocks (sts : List (Nat × Statement))
    (h : r.openBlocks.Pairwise (· > ·)) (hlt : ∀ i ∈ r.openBlocks, i < r.view.subgraphs.length) :
    (r.readAll sts).openBlocks.Pairwise (· > ·) := by
  induction sts generalizing r with
  | nil => exact h
  | cons p sts ih =>
    refine ih ?_ (lt_of_mem_openBlocks_step hlt p.1 p.2)
    rw [openBlocks_step]
    cases p.2.blockStep with
    | enter => exact .cons hlt h
    | leave => exact h.tail
    | stay => exact h

section Line

variable (hsts : statements s = before ++ (i, st) :: after)

include hsts

theorem before_lt_after : (∀ p ∈ before, p.1 < i) ∧ ∀ p ∈ after, i < p.1 := by
  have hsorted := View.pairwise_statements s
  rw [hsts] at hsorted
  obtain ⟨-, hbehind, hlt⟩ := List.pairwise_append.1 hsorted
  exact ⟨fun p hp => hlt p hp _ List.mem_cons_self, (List.pairwise_cons.1 hbehind).1⟩

/-- The subgraphs that begin above the line are those that the reader has met there. -/
theorem start_lt_iff (hj : ((Reader.start s).readAll (statements s)).view.subgraphs[j]? = some g) :
    g.span.start < i ↔ j < ((Reader.start s).readAll before).view.subgraphs.length := by
  obtain ⟨hbefore, hafter⟩ := before_lt_after hsts
  have hget : (((Reader.start s).readAll (statements s)).view.spans.map (·.start))[j]? =
      some g.span.start := by
    simp [View.spans, hj]
  have hlength : (((Reader.start s).readAll before).view.spans.map (·.start)).length =
      ((Reader.start s).readAll before).view.subgraphs.length := by
    simp [View.spans]
  rw [hsts, Reader.readAll_append, Reader.starts_readAll] at hget
  rw [← hlength]
  constructor
  · intro hlt
    by_contra hge
    rw [List.getElem?_append_right (Nat.not_lt.1 hge)] at hget
    obtain ⟨p, hp, hstart⟩ := List.mem_map.1 (List.mem_of_getElem? hget)
    rcases List.mem_cons.1 (List.mem_filter.1 hp).1 with rfl | hp
    · omega
    · have := hafter p hp
      omega
  · intro hlt
    rw [List.getElem?_append_left hlt, Reader.starts_readAll] at hget
    obtain ⟨p, hp, hstart⟩ := List.mem_map.1 (List.mem_of_getElem? hget)
    exact hstart ▸ hbefore p (List.mem_filter.1 hp).1

theorem View.subgraphIds_eq_append : (View.ofSource s).subgraphIds =
    ((Reader.start s).readAll before).view.subgraphIds ++
      (((i, st) :: after).map Prod.snd).filterMap Statement.subgraph? := by
  rw [subgraphIds_ofSource, subgraphIds_readAll, hsts, List.map_append, List.filterMap_append]
  rfl

/-- A subgraph encloses a line exactly if it is open there, also where no line closes it. -/
theorem encloses_iff (hj : (View.ofSource s).subgraphs[j]? = some g) :
    g.Encloses i ↔ j ∈ ((Reader.start s).readAll before).openBlocks := by
  obtain ⟨g₀, hg₀, -, -, hstart, hstop⟩ := View.of_getElem?_subgraphs hj
  rw [SubgraphRecord.Encloses, hstart, hstop, openAtEnd, start_lt_iff hsts hg₀]
  obtain ⟨hbefore, hafter⟩ := before_lt_after hsts
  rw [hsts, Reader.readAll_append] at hg₀ ⊢
  constructor
  · rintro ⟨hmet, hle⟩
    by_contra hno
    -- The subgraph has ended above the line.
    have hended := Reader.hasEnded_readAll s before
    rw [Reader.getElem?_readAll hmet hno] at hg₀
    rw [if_neg (Reader.not_mem_openBlocks_readAll hmet hno _)] at hle
    obtain ⟨above, below, heq, -⟩ := (hended j g₀ trivial hg₀).resolve_left hno
    have := hbefore _ (heq ▸ List.mem_append_right above List.mem_cons_self)
    dsimp only at this
    omega
  · intro hmem
    refine ⟨Reader.lt_of_mem_openBlocks j hmem, ?_⟩
    -- The subgraph ends below, or it reaches to the last line.
    have hopen : ((Reader.start s).readAll before).HasEnded
        (· ∈ ((Reader.start s).readAll before).openBlocks) (openAfter [] (before.map Prod.snd)) [] :=
      fun j g hj _ => .inl hj
    have hended := hopen.readAll ((Reader.hasOpen_start s).readAll before) ((i, st) :: after)
    split
    · obtain ⟨text, hbody, -⟩ := mem_statements.1 (hsts ▸ List.mem_append_right before List.mem_cons_self)
      exact Nat.le_sub_one_of_lt (exists_mem_body_iff.1 ⟨text, hbody⟩).2
    · next hclosed =>
      obtain ⟨above, below, heq, -⟩ := (hended j g₀ hmem hg₀).resolve_left hclosed
      have hstop : (g₀.span.stop, Statement.blockEnd) ∈ (i, st) :: after := by
        rw [← List.nil_append ((i, st) :: after), heq]
        exact List.mem_append_right above List.mem_cons_self
      rcases List.mem_cons.1 hstop with heq | hstop
      exacts [Nat.le_of_eq (Prod.mk.inj heq).1.symm, Nat.le_of_lt (hafter _ hstop)]

/-- The subgraphs around a line are those that are open there. -/
theorem View.map_some_around : ((View.ofSource s).around i).map some =
    ((Reader.start s).readAll before).openBlocks.map ((View.ofSource s).subgraphs[·]?) := by
  have hsorted := Reader.pairwise_openBlocks (r := Reader.start s) before .nil fun i hi => by cases hi
  refine reverse_filter_of_positions hsorted (fun j hj => ?_) fun j g hj => ?_
  · have hlt := Reader.lt_of_mem_openBlocks j hj
    have hlength := congrArg List.length (subgraphIds_eq_append hsts)
    rw [List.length_append, subgraphIds, subgraphIds, List.length_map, List.length_map] at hlength
    omega
  · rw [decide_eq_true_eq]
    exact encloses_iff hsts hj

/-- The ids of the subgraphs around a line are those that the blocks above leave open. -/
theorem View.map_id_around :
    ((View.ofSource s).around i).map (·.id) = openAfter [] (before.map Prod.snd) := by
  have hopen := (Reader.hasOpen_start s).readAll before
  refine List.map_injective_iff.2 (Option.some_injective Text) ?_
  have hget : ∀ j ∈ ((Reader.start s).readAll before).openBlocks,
      ((View.ofSource s).subgraphs[j]?).map (·.id) =
        ((Reader.start s).readAll before).view.subgraphIds[j]? := by
    intro j hj
    have hlt := Reader.lt_of_mem_openBlocks j hj
    rw [← List.getElem?_map]
    refine (congrArg (·[j]?) (subgraphIds_eq_append hsts)).trans (List.getElem?_append_left ?_)
    rwa [subgraphIds, List.length_map]
  calc (((View.ofSource s).around i).map (·.id)).map some
      = (((View.ofSource s).around i).map some).map (Option.map (·.id)) := by simp
    _ = ((Reader.start s).readAll before).openBlocks.map
          fun j => ((View.ofSource s).subgraphs[j]?).map (·.id) := by
      rw [map_some_around hsts, List.map_map]
      rfl
    _ = ((Reader.start s).readAll before).openBlocks.map
          (((Reader.start s).readAll before).view.subgraphIds[·]?) := List.map_congr_left hget
    _ = (openAfter [] (before.map Prod.snd)).map some := hopen

variable (hclosed : ClosesAll s) (hst : st.blockStep = .stay)

include hclosed hst

/-- Where every subgraph is closed, a line that is no end is inside of the subgraphs that enclose
it. -/
theorem isInside_iff (hg : g ∈ (View.ofSource s).subgraphs) : g.IsInside i ↔ g.Encloses i := by
  refine and_congr_right fun _ => ⟨Nat.le_of_lt, fun hle => Nat.lt_of_le_of_ne hle ?_⟩
  rintro rfl
  obtain ⟨above, below, heq, -⟩ := hclosed.endsAt hg
  have hend : (g.span.stop, Statement.blockEnd) ∈ statements s :=
    heq ▸ List.mem_append_right above List.mem_cons_self
  have hmem : (g.span.stop, st) ∈ statements s := hsts ▸ List.mem_append_right before List.mem_cons_self
  rw [eq_of_mem_statements hmem hend] at hst
  cases hst

/-- The innermost subgraph that has the line inside is the innermost open one. -/
theorem View.innermost?_eq : ((View.ofSource s).innermost? i).map (·.id) =
    (openAfter [] (before.map Prod.snd)).head? := by
  have hsame : (View.ofSource s).subgraphs.filter (fun g => g.IsInside i) =
      (View.ofSource s).subgraphs.filter fun g => g.Encloses i :=
    List.filter_congr fun g hg => decide_eq_decide.2 (isInside_iff hsts hclosed hst hg)
  rw [innermost?_eq_getLast?, hsame, ← map_id_around hsts, List.head?_map, around, List.head?_reverse]

end Line

/-! ## Places by lines -/

/-- The first subgraph that a mention on one of the lines puts the node in. -/
def View.placeOn (lines : Nat → Bool) (n : NodeRecord) (v : View) : Option Text :=
  (n.mentions.filter fun m => lines m.line).findSome? fun m => (v.innermost? m.line).map (·.id)

theorem View.mentions_filter (keep : Nat → Bool) (sts : List (Nat × Statement)) :
    mentions (sts.filter fun p => keep p.1) = (mentions sts).filter fun q => keep q.1.line := by
  induction sts with
  | nil => rfl
  | cons p sts ih =>
    have hfirst : (p.2.mentions p.1).filter (fun q => keep q.1.line) =
        if keep p.1 then p.2.mentions p.1 else [] := by
      have hline : ∀ q ∈ p.2.mentions p.1, keep q.1.line = keep p.1 := fun q hq => by
        rw [(line_defines_of_mem_mentions hq).1]
      split
      · next hp => exact List.filter_eq_self.2 fun q hq => (hline q hq).trans hp
      · next hp => exact List.filter_eq_nil_iff.2 fun q hq => by rwa [hline q hq]
    rw [show mentions (p :: sts) = p.2.mentions p.1 ++ mentions sts from List.flatMap_cons,
      List.filter_append, ← ih, hfirst, List.filter_cons]
    split
    · exact List.flatMap_cons
    · rfl

/-- Places that are known from the lines. -/
theorem placesIn_eq_map {outer : List Text} (place : Nat → Option Text)
    {sts : List (Nat × Statement)} (h : ∀ before p after, sts = before ++ p :: after → p.2.blockStep = .stay →
      (openAfter outer (before.map Prod.snd)).head? = place p.1) :
    placesIn outer (sts.map Prod.snd) =
      (View.mentions sts).map fun q => (q.2.id, place q.1.line) := by
  induction sts generalizing outer with
  | nil => rfl
  | cons p sts ih =>
    have hfirst : p.2.tokens.map (fun t => (t.id, outer.head?)) =
        (p.2.mentions p.1).map fun q => (q.2.id, place q.1.line) := by
      rw [← Statement.map_snd_mentions p.1, List.map_map]
      refine List.map_congr_left fun q hq => ?_
      have htoken : q.2 ∈ p.2.tokens := Statement.map_snd_mentions p.1 p.2 ▸ List.mem_map_of_mem hq
      have hstay := (Statement.stay_of_mem_tokens htoken).1
      rw [Function.comp_apply, (View.line_defines_of_mem_mentions hq).1]
      exact congrArg (q.2.id, ·) (h [] p sts rfl hstay)
    rw [List.map_cons, placesIn, hfirst, ih fun before q after heq hq => by
      rw [← h (p :: before) q after (by rw [heq]; rfl) hq]; rfl]
    exact List.map_append.symm

variable {n : NodeRecord}

/-- The places on some of the lines, if what is left out above them neither opens nor closes a
subgraph. -/
theorem View.firstPlace_eq_placeOn (hclosed : ClosesAll s) (hn : n ∈ (View.ofSource s).nodes)
    {lines : Nat → Bool} (hstays : ∀ p ∈ statements s, ∀ q ∈ statements s, lines p.1 = true →
      q.1 < p.1 → lines q.1 = false → q.2.blockStep = .stay) :
    firstPlace n.id (placesIn [] (((statements s).filter fun p => lines p.1).map Prod.snd)) =
      (View.ofSource s).placeOn lines n := by
  rw [placesIn_eq_map fun i => ((View.ofSource s).innermost? i).map (·.id)]
  · rw [View.mentions_filter, firstPlace, List.filter_map, List.findSome?_map, placeOn, mentions_eq hn,
      mentionsOf, List.filter_map, List.findSome?_map, List.filter_filter, List.filter_filter]
    simp only [Function.comp_def, Bool.and_comm]
  · intro kept p rest hsplit hstay
    obtain ⟨above, below, hsts, rfl, hrest⟩ := List.filter_eq_append_iff.1 hsplit
    obtain ⟨between, after, rfl, hnone, hp, -⟩ := List.filter_eq_cons_iff.1 hrest
    rw [← List.append_assoc] at hsts
    have hnil : between.filter (fun q => lines q.1) = [] := List.filter_eq_nil_iff.2 hnone
    have hmem : ∀ q ∈ above ++ between, q ∈ statements s := fun q hq =>
      hsts ▸ List.mem_append_left _ hq
    rw [← List.append_nil (above.filter _), ← hnil, ← List.filter_append, openAfter_filter fun q hq hgone =>
      hstays p (hsts ▸ List.mem_append_right _ List.mem_cons_self) q (hmem q hq) hp
        ((before_lt_after hsts).1 q hq) hgone]
    exact (innermost?_eq hsts hclosed hstay).symm

/-- A node belongs to the subgraph that its first mention in one puts it in. -/
theorem View.subgraph_eq_placeOn (hclosed : ClosesAll s) (hn : n ∈ (View.ofSource s).nodes) :
    n.subgraph = (View.ofSource s).placeOn (fun _ => true) n := by
  rw [subgraph_eq_firstPlace_placesIn hn, ← firstPlace_eq_placeOn hclosed hn (by simp),
    List.filter_eq_self.2 fun _ _ => rfl]

end DiagramEditor.Flowchart
