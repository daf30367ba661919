import DiagramEditor.Proofs.Flowchart.Growth
import DiagramEditor.Proofs.Flowchart.Innermost
import DiagramEditor.Proofs.Source.Readings

/-!
# Nested subgraphs

While a source is read, the subgraphs that are closed lie beside each other or one inside of the
other, whatever is still open, and a subgraph lies in the one that was the innermost open one where it
began (`IsNested`). A header and the end of a block keep this up (`IsNested.enter`, `IsNested.leave`),
so it holds of every source, also where ends are missing or have no beginning
(`View.pairwise_isNested_spans`, `View.exists_parent`).
-/

namespace DiagramEditor.Flowchart

open Source

variable {s : Source} {r : Reader} {n m line i j length : Nat} {gs : List SubgraphRecord}
  {blocks outer : List Nat} {g b c : SubgraphRecord} {st : Statement} {x : Text}

/-- Subgraphs on lines above `n`, of which those at the positions `blocks` are open, the innermost
first. -/
structure IsNested (n : Nat) (gs : List SubgraphRecord) (blocks : List Nat) : Prop where
  sorted : blocks.Pairwise (· > ·)
  met : ∀ i ∈ blocks, i < gs.length
  above : ∀ g ∈ gs, g.span.start < n ∧ g.span.stop < n
  /-- What begins inside of a closed subgraph is closed there. -/
  closed : ∀ {i j : Nat} {b c : SubgraphRecord}, i < j → gs[i]? = some b → gs[j]? = some c →
    i ∉ blocks → b.span.stop < c.span.start ∨ j ∉ blocks ∧ c.span.stop < b.span.stop
  /-- A subgraph is closed before the one around it is. -/
  parent : ∀ {j : Nat} {g : SubgraphRecord} {p : Text}, gs[j]? = some g → g.parent = some p →
    ∃ i h, i < j ∧ gs[i]? = some h ∧ h.id = p ∧
      (i ∈ blocks ∨ j ∉ blocks ∧ g.span.stop < h.span.stop)

namespace IsNested

theorem mono (h : IsNested n gs blocks) (hn : n ≤ m) : IsNested m gs blocks where
  sorted := h.sorted
  met := h.met
  above g hg := (h.above g hg).imp (Nat.lt_of_lt_of_le · hn) (Nat.lt_of_lt_of_le · hn)
  closed := h.closed
  parent := h.parent

/-- A header opens one more subgraph, inside of the innermost open one. -/
theorem enter (h : IsNested n gs blocks) (hn : n ≤ line) (hspan : g.span = .single line)
    (hparent : g.parent = blocks.head?.bind fun i => (gs[i]?).map (·.id)) :
    IsNested (line + 1) (gs ++ [g]) (gs.length :: blocks) := by
  have hlength : (gs ++ [g]).length = gs.length + 1 := List.length_append
  have hold : ∀ {j : Nat}, j < gs.length → (j ∈ gs.length :: blocks ↔ j ∈ blocks) := fun hj =>
    List.mem_cons.trans (or_iff_right (Nat.ne_of_lt hj))
  -- A position is an old one, or the one of the new subgraph.
  have hcases : ∀ {j : Nat} {c : SubgraphRecord}, (gs ++ [g])[j]? = some c →
      (j < gs.length ∧ gs[j]? = some c) ∨ j = gs.length ∧ c = g := by
    intro j c hc
    have hlt := (List.getElem?_eq_some_iff.1 hc).1
    rcases Nat.lt_or_ge j gs.length with hj | hj
    · exact .inl ⟨hj, (List.getElem?_append_left hj).symm.trans hc⟩
    · obtain rfl : j = gs.length := by omega
      rw [List.getElem?_concat_length] at hc
      exact .inr ⟨rfl, (Option.some.inj hc).symm⟩
  refine ⟨.cons h.met h.sorted, fun i hi => ?_, fun b hb => ?_, fun {i j b c} hij hb hc hi => ?_,
    fun {j g' p} hg' hp => ?_⟩
  · rw [hlength]
    rcases List.mem_cons.1 hi with rfl | hi
    exacts [Nat.lt_succ_self _, Nat.lt_succ_of_lt (h.met i hi)]
  · rcases List.mem_append.1 hb with hb | hb
    · have := h.above b hb
      omega
    · rw [List.mem_singleton.1 hb, hspan]
      exact ⟨Nat.lt_succ_self line, Nat.lt_succ_self line⟩
  · have hbefore : gs[i]? = some b := by
      rcases hcases hb with ⟨-, hbefore⟩ | ⟨rfl, -⟩
      · exact hbefore
      · have := (List.getElem?_eq_some_iff.1 hc).1
        omega
    rcases hcases hc with ⟨hj, hc⟩ | ⟨-, rfl⟩
    · rw [hold (Nat.lt_trans hij hj)] at hi
      rw [hold hj]
      exact h.closed hij hbefore hc hi
    · rw [hspan]
      exact .inl (Nat.lt_of_lt_of_le (h.above b (List.mem_of_getElem? hbefore)).2 hn)
  · rcases hcases hg' with ⟨hj, hg'⟩ | ⟨rfl, rfl⟩
    · obtain ⟨i, h', hij, hh', hid, hor⟩ := h.parent hg' hp
      rw [hold hj]
      exact ⟨i, h', hij, (List.getElem?_append_left (Nat.lt_trans hij hj)).trans hh', hid,
        hor.imp_left (List.mem_cons_of_mem _)⟩
    · rw [hparent, Option.bind_eq_some_iff] at hp
      obtain ⟨i, hi, hp⟩ := hp
      obtain ⟨h', hh', hid⟩ := Option.map_eq_some_iff.1 hp
      have hmem := List.mem_of_head? hi
      have hlt := h.met i hmem
      exact ⟨i, h', hlt, (List.getElem?_append_left hlt).trans hh', hid,
        .inl (List.mem_cons_of_mem _ hmem)⟩

/-- What a record is after one of them is closed. -/
theorem of_getElem?_closeAt (h : (gs.modify i (·.closeAt line))[j]? = some g) :
    ∃ g₀, gs[j]? = some g₀ ∧ g.id = g₀.id ∧ g.parent = g₀.parent ∧ g.span.start = g₀.span.start ∧
      g.span.stop = if i = j then line else g₀.span.stop := by
  rw [List.getElem?_modify, Option.map_eq_map] at h
  obtain ⟨g₀, hg₀, rfl⟩ := Option.map_eq_some_iff.1 h
  refine ⟨g₀, hg₀, ?_⟩
  split <;> exact ⟨rfl, rfl, rfl, rfl⟩

/-- The end of a block closes the innermost open subgraph. -/
theorem leave (h : IsNested n gs (i :: outer)) (hn : n ≤ line) :
    IsNested (line + 1) (gs.modify i (·.closeAt line)) outer := by
  obtain ⟨hmax, hsorted⟩ := List.pairwise_cons.1 h.sorted
  have hlt : ∀ {j : Nat}, i < j → j ∉ i :: outer := by
    intro j hij hmem
    rcases List.mem_cons.1 hmem with rfl | hmem
    · exact Nat.lt_irrefl _ hij
    · exact Nat.lt_asymm hij (hmax j hmem)
  have hold : ∀ {j : Nat}, j ∉ i :: outer → j ∉ outer := fun hj => mt (List.mem_cons_of_mem i) hj
  refine ⟨hsorted, fun j hj => ?_, fun b hb => ?_, fun {j k b c} hjk hb hc hj => ?_,
    fun {j g p} hg hp => ?_⟩
  · rw [List.length_modify]
    exact h.met j (List.mem_cons_of_mem i hj)
  · obtain ⟨j, hj⟩ := List.getElem?_of_mem hb
    obtain ⟨b₀, hb₀, -, -, hstart, hstop⟩ := of_getElem?_closeAt hj
    have := h.above b₀ (List.mem_of_getElem? hb₀)
    rw [hstart, hstop]
    split <;> omega
  · obtain ⟨b₀, hb₀, -, -, -, hbstop⟩ := of_getElem?_closeAt hb
    obtain ⟨c₀, hc₀, -, -, hcstart, hcstop⟩ := of_getElem?_closeAt hc
    rw [hbstop, hcstart, hcstop]
    by_cases hij : i = j
    · -- What begins in the subgraph that is closed now has been closed before.
      subst hij
      have := (h.above c₀ (List.mem_of_getElem? hc₀)).2
      rw [if_pos rfl, if_neg (Nat.ne_of_lt hjk)]
      exact .inr ⟨hold (hlt hjk), by omega⟩
    · rw [if_neg hij]
      have hnot : j ∉ i :: outer := fun hmem =>
        hj ((List.mem_cons.1 hmem).resolve_left (Ne.symm hij))
      rcases h.closed hjk hb₀ hc₀ hnot with hbehind | ⟨hk, hstop⟩
      · exact .inl hbehind
      · rw [if_neg fun hik : i = k => hk (hik ▸ List.mem_cons_self)]
        exact .inr ⟨hold hk, hstop⟩
  · obtain ⟨g₀, hg₀, -, hparent, -, hstop⟩ := of_getElem?_closeAt hg
    rw [hparent] at hp
    obtain ⟨k, h₀, hkj, hh₀, hid, hor⟩ := h.parent hg₀ hp
    have hget : (gs.modify i (·.closeAt line))[k]? =
        some (if i = k then h₀.closeAt line else h₀) := by
      rw [List.getElem?_modify, hh₀]
      split <;> rfl
    refine ⟨k, _, hkj, hget, by split <;> exact hid, ?_⟩
    by_cases hik : i = k
    · -- The subgraph around it is the one that is closed now.
      subst hik
      have := (h.above g₀ (List.mem_of_getElem? hg₀)).2
      rw [hstop, if_neg (Nat.ne_of_lt hkj), if_pos rfl]
      exact .inr ⟨hold (hlt hkj), Nat.lt_of_lt_of_le this hn⟩
    · rw [if_neg hik]
      rcases hor with hmem | ⟨hj, hlt⟩
      · exact .inl ((List.mem_cons.1 hmem).resolve_left (Ne.symm hik))
      · rw [hstop, if_neg fun hij : i = j => hj (hij ▸ List.mem_cons_self)]
        exact .inr ⟨hold hj, hlt⟩

end IsNested

/-! ## Reading -/

/-- The record without its members. -/
def SubgraphRecord.frame (g : SubgraphRecord) : SubgraphRecord :=
  { g with members := [] }

/-- The subgraphs without their members. -/
def View.frames (v : View) : List SubgraphRecord :=
  v.subgraphs.map (·.frame)

theorem View.length_frames (v : View) : v.frames.length = v.subgraphs.length :=
  List.length_map _

theorem View.getElem?_frames {v : View} (h : v.subgraphs[j]? = some g) : v.frames[j]? = some g.frame := by
  rw [frames, List.getElem?_map, h]
  rfl

theorem SubgraphRecord.frame_addMembers (ids : List Text) (g : SubgraphRecord) :
    (g.addMembers ids).frame = g.frame := by
  induction ids generalizing g with
  | nil => rfl
  | cons x ids ih =>
    rw [show g.addMembers (x :: ids) = (g.addMember x).addMembers ids from rfl, ih, addMember]
    split <;> rfl

namespace Reader

/-- What the reader knows of subgraphs, their members apart, is nested. -/
abbrev IsNested (n : Nat) (r : Reader) : Prop :=
  Flowchart.IsNested n r.view.frames r.openBlocks

theorem IsNested.step (h : r.IsNested n) (hn : n ≤ line) (st : Statement) :
    (r.step line st).IsNested (line + 1) := by
  rw [IsNested, openBlocks_step]
  cases hst : st.blockStep with
  | stay =>
    have hframes : (r.step line st).view.frames = r.view.frames := by
      rw [View.frames, subgraphs_step_of_stay hst]
      cases hopen : r.openBlocks with
      | nil => rw [alterInnermost_nil hopen, View.frames]
      | cons i outer =>
        rw [alterInnermost_cons hopen]
        exact map_modify_of_eq (SubgraphRecord.frame_addMembers _) i _
    rw [hframes]
    exact h.mono (Nat.le_succ_of_le hn)
  | enter =>
    obtain ⟨header, rfl⟩ := Statement.exists_header hst
    have hframes : (r.step line (.subgraphOpen header)).view.frames = r.view.frames ++
        [⟨header.id, header.label, .single line, r.container?, []⟩] := by
      rw [View.frames, Reader.step, List.map_append]
      rfl
    rw [hframes, ← r.view.length_frames]
    refine h.enter hn rfl ?_
    simp only [container?, View.frames, List.getElem?_map, Option.map_map]
    rfl
  | leave =>
    obtain rfl := Statement.eq_blockEnd hst
    rw [View.frames, subgraphs_step_blockEnd]
    cases hopen : r.openBlocks with
    | nil =>
      rw [alterInnermost_nil hopen]
      rw [IsNested, hopen] at h
      exact h.mono (Nat.le_succ_of_le hn)
    | cons i outer =>
      rw [alterInnermost_cons hopen,
        map_modify (k := (·.closeAt line)) (g := SubgraphRecord.frame) fun _ => rfl]
      rw [IsNested, hopen] at h
      exact h.leave hn

theorem IsNested.readAll {sts : List (Nat × Statement)} (h : r.IsNested n)
    (hsorted : sts.Pairwise fun p q => p.1 < q.1) (hlines : ∀ p ∈ sts, n ≤ p.1 ∧ p.1 < m)
    (hn : n ≤ m) : (r.readAll sts).IsNested m := by
  induction sts generalizing r n with
  | nil => exact h.mono hn
  | cons p sts ih =>
    obtain ⟨hlt, hsorted⟩ := List.pairwise_cons.1 hsorted
    obtain ⟨⟨hle, hm⟩, hlines⟩ := List.forall_mem_cons.1 hlines
    exact ih (h.step hle p.2) hsorted (fun q hq => ⟨hlt q hq, (hlines q hq).2⟩) hm

/-- What has been read of a source is nested. -/
theorem isNested_readAll {before after : List (Nat × Statement)} (h : statements s = before ++ after)
    (hm : ∀ p ∈ before, p.1 < m) : ((start s).readAll before).IsNested m := by
  have hstart : (start s).IsNested 0 :=
    ⟨.nil, nofun, nofun, nofun, nofun⟩
  have hsorted := View.pairwise_statements s
  rw [h] at hsorted
  exact hstart.readAll (List.pairwise_append.1 hsorted).1 (fun p hp => ⟨Nat.zero_le _, hm p hp⟩)
    (Nat.zero_le m)

end Reader

/-! ## The finished view -/

namespace View

theorem isNested_ofSource (s : Source) :
    ((Reader.start s).readAll (statements s)).IsNested s.length := by
  refine Reader.isNested_readAll (List.append_nil _).symm fun p hp => ?_
  obtain ⟨text, hbody, -⟩ := mem_statements.1 hp
  exact (exists_mem_body_iff.1 ⟨text, hbody⟩).2

theorem stop_le (hg : g ∈ (View.ofSource s).subgraphs) : g.span.stop ≤ s.length - 1 :=
  Nat.le_sub_one_of_lt (spansWithin_ofSource s g hg).2.2

theorem start_lt_start (hij : i < j) (hb : (View.ofSource s).subgraphs[i]? = some b)
    (hc : (View.ofSource s).subgraphs[j]? = some c) : b.span.start < c.span.start := by
  obtain ⟨hi, rfl⟩ := List.getElem?_eq_some_iff.1 hb
  obtain ⟨hj, rfl⟩ := List.getElem?_eq_some_iff.1 hc
  exact List.pairwise_iff_getElem.1 (List.pairwise_map.1 (pairwise_spans s)) i j hi hj hij

/-- Of two subgraphs the later one ends inside of the other, or begins behind it. -/
theorem lt_start_or_stop_le (hij : i < j) (hb : (View.ofSource s).subgraphs[i]? = some b)
    (hc : (View.ofSource s).subgraphs[j]? = some c) :
    b.span.stop < c.span.start ∨ c.span.stop ≤ b.span.stop := by
  obtain ⟨b₀, hb₀, -, -, -, hbstop⟩ := of_getElem?_subgraphs hb
  obtain ⟨c₀, hc₀, -, -, hcstart, hcstop⟩ := of_getElem?_subgraphs hc
  by_cases hi : i ∈ openAtEnd s
  · rw [hbstop, if_pos hi]
    exact .inr (stop_le (List.mem_of_getElem? hc))
  · rw [hbstop, if_neg hi, hcstart]
    rcases (isNested_ofSource s).closed hij (getElem?_frames hb₀) (getElem?_frames hc₀) hi with
      hbehind | ⟨hj, hlt⟩
    · exact .inl hbehind
    · rw [hcstop, if_neg (show j ∉ openAtEnd s from hj)]
      exact .inr (Nat.le_of_lt hlt)

/-- Subgraphs lie beside each other or one inside of the other. -/
theorem pairwise_isNested_spans (s : Source) :
    (View.ofSource s).spans.Pairwise fun b c => b.IsNested c := by
  refine List.pairwise_map.2 (List.pairwise_iff_getElem.2 fun i j hi hj hij => ?_)
  have hb := List.getElem?_eq_getElem hi
  have hc := List.getElem?_eq_getElem hj
  rcases lt_start_or_stop_le hij hb hc with hbehind | hle
  · exact .inr (.inr (.inl hbehind))
  · exact .inr (.inl ⟨Nat.le_of_lt (start_lt_start hij hb hc), hle⟩)

/-- Of the subgraphs around a line, each one lies inside of the next. -/
theorem pairwise_around (s : Source) (line : Nat) :
    ((View.ofSource s).around line).Pairwise fun g h => g.span.IsWithin h.span := by
  have hall : (View.ofSource s).subgraphs.Pairwise fun b c =>
      b.Encloses line → c.Encloses line → c.span.IsWithin b.span := by
    refine List.pairwise_iff_getElem.2 fun i j hi hj hij hb hc => ?_
    have hgetb := List.getElem?_eq_getElem hi
    have hgetc := List.getElem?_eq_getElem hj
    refine ⟨Nat.le_of_lt (start_lt_start hij hgetb hgetc), ?_⟩
    -- Two subgraphs that enclose the same line do not lie beside each other.
    exact (lt_start_or_stop_le hij hgetb hgetc).resolve_left fun hbehind =>
      absurd (Nat.lt_of_lt_of_le hc.1 hb.2) (Nat.lt_asymm hbehind)
  rw [around, List.pairwise_reverse, List.pairwise_filter]
  exact hall.imp fun h hb hc => h (of_decide_eq_true hb) (of_decide_eq_true hc)

/-- A subgraph lies inside of one that its parent names. -/
theorem exists_parent {p : Text} (hg : g ∈ (View.ofSource s).subgraphs) (hp : g.parent = some p) :
    ∃ h ∈ (View.ofSource s).subgraphs, h.id = p ∧ h.span.start < g.span.start ∧
      g.span.IsWithin h.span := by
  obtain ⟨j, hj⟩ := List.getElem?_of_mem hg
  obtain ⟨g₀, hg₀, -, hparent, hstart, hstop⟩ := of_getElem?_subgraphs hj
  obtain ⟨i, h₀, hij, hh₀, hid, hor⟩ :=
    (isNested_ofSource s).parent (getElem?_frames hg₀) (hparent ▸ hp)
  have hi : i < (View.ofSource s).subgraphs.length :=
    Nat.lt_trans hij (List.getElem?_eq_some_iff.1 hj).1
  have hh := List.getElem?_eq_getElem hi
  have hmem := List.mem_of_getElem? hh
  have hlt := start_lt_start hij hh hj
  generalize (View.ofSource s).subgraphs[i] = h at hh hmem hlt
  obtain ⟨h₁, hh₁, hid', -, -, hstop'⟩ := of_getElem?_subgraphs hh
  obtain rfl : h₁.frame = h₀ := Option.some.inj ((getElem?_frames hh₁).symm.trans hh₀)
  refine ⟨h, hmem, hid'.trans hid, hlt, Nat.le_of_lt hlt, ?_⟩
  by_cases hopen : i ∈ openAtEnd s
  · rw [hstop', if_pos hopen]
    exact stop_le hg
  · obtain ⟨hclosed, hlt⟩ := hor.resolve_left hopen
    rw [hstop, hstop', if_neg hopen, if_neg (show j ∉ openAtEnd s from hclosed)]
    exact Nat.le_of_lt hlt

end View

end DiagramEditor.Flowchart
