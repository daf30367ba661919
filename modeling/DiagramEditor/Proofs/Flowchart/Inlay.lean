import DiagramEditor.Proofs.Flowchart.Place
import DiagramEditor.Proofs.Flowchart.Relink
import DiagramEditor.Proofs.Flowchart.Split

/-!
# Two readings side by side

Lines that say the same about other ids are read in the same way. What a reader knows of subgraphs then
stands in what the other reader knows, with other subgraphs laid in between (`Inlay`,
`Reader.Shows`), and one statement keeps this up (`Reader.Shows.enter`, `Reader.Shows.stay`,
`Reader.Shows.leave`).

Two runs are followed in this way. In the first, a block is read once more with other ids, right behind
itself, and each of its subgraphs has its copy (`Reader.Copying.readAll`). In the second, the lines
behind are read with the copies in between (`Reader.Shows.readAll_moved`).
-/

namespace DiagramEditor.Flowchart

open Source

variable {line line' n k cut i : Nat} {st st' : Statement} {sts sts' : List Statement}
  {r r' : Reader} {gs others : List SubgraphRecord} {g : SubgraphRecord} {ρ : Text → Text}
  {ids : List Text} {x : Text} {S : Set Text}

/-! ## Subgraphs with others laid in -/

/-- The first `cut` of some subgraphs, then others, then the rest of them, and each of them is written
as `front` and `back` say. -/
structure Inlay where
  cut : Nat
  others : List SubgraphRecord
  front : SubgraphRecord → SubgraphRecord
  back : SubgraphRecord → SubgraphRecord

namespace Inlay

variable {w : Inlay}

/-- The subgraphs with the others laid in. -/
def lay (w : Inlay) (gs : List SubgraphRecord) : List SubgraphRecord :=
  (gs.take w.cut).map w.front ++ w.others ++ (gs.drop w.cut).map w.back

/-- Where the subgraph number `i` stands among the others. -/
def index (w : Inlay) (i : Nat) : Nat :=
  if i < w.cut then i else i + w.others.length

/-- How the subgraph number `i` is written. -/
def record (w : Inlay) (i : Nat) : SubgraphRecord → SubgraphRecord :=
  if i < w.cut then w.front else w.back

theorem index_of_le (h : w.cut ≤ i) : w.index i = i + w.others.length :=
  if_neg (Nat.not_lt.2 h)

theorem record_of_le (h : w.cut ≤ i) : w.record i = w.back :=
  if_neg (Nat.not_lt.2 h)

theorem length_lay (h : w.cut ≤ gs.length) : (w.lay gs).length = w.index gs.length := by
  rw [index_of_le h, lay]
  simp only [List.length_append, List.length_map, List.length_take, List.length_drop]
  omega

theorem getElem?_lay (h : w.cut ≤ gs.length) (i : Nat) :
    (w.lay gs)[w.index i]? = gs[i]?.map (w.record i) := by
  rw [lay, index, record]
  by_cases hi : i < w.cut
  · rw [if_pos hi, if_pos hi, List.append_assoc,
      List.getElem?_append_left (by simp only [List.length_map, List.length_take]; omega),
      List.getElem?_map, List.getElem?_take_of_lt hi]
  · rw [if_neg hi, if_neg hi, List.getElem?_append_right (by
      simp only [List.length_append, List.length_map, List.length_take]; omega), List.getElem?_map,
      List.getElem?_drop]
    congr 2
    simp only [List.length_append, List.length_map, List.length_take]
    omega

theorem getElem?_lay_others (h : w.cut ≤ gs.length) {j : Nat} (hj : j < w.others.length) :
    (w.lay gs)[w.cut + j]? = w.others[j]? := by
  have hlength : ((gs.take w.cut).map w.front).length = w.cut := by
    rw [List.length_map, List.length_take_of_le h]
  rw [lay, List.getElem?_append_left (by rw [List.length_append, hlength]; omega),
    List.getElem?_append_right (by rw [hlength]; omega), hlength, Nat.add_sub_cancel_left]

/-- Two lists are the same if they agree where the subgraphs stand and in between. -/
theorem ext (w : Inlay) {l l' : List SubgraphRecord} (h : ∀ i, l[w.index i]? = l'[w.index i]?)
    (hothers : ∀ j < w.others.length, l[w.cut + j]? = l'[w.cut + j]?) : l = l' := by
  refine List.ext_getElem? fun j => ?_
  by_cases hj : j < w.cut
  · have := h j
    rwa [index, if_pos hj] at this
  · obtain ⟨j, rfl⟩ := Nat.exists_eq_add_of_le (Nat.not_lt.1 hj)
    by_cases hj : j < w.others.length
    · exact hothers j hj
    · obtain ⟨j, rfl⟩ := Nat.exists_eq_add_of_le (Nat.not_lt.1 hj)
      have := h (w.cut + j)
      rwa [index_of_le (Nat.le_add_right _ _), Nat.add_assoc, Nat.add_comm j] at this

theorem index_injective (w : Inlay) : Function.Injective w.index := by
  intro i j hij
  rw [index, index] at hij
  split at hij <;> split at hij <;> omega

theorem index_ne (w : Inlay) (i : Nat) {j : Nat} (hj : j < w.others.length) :
    w.index i ≠ w.cut + j := by
  rw [index]
  split <;> omega

theorem lay_modify (h : w.cut ≤ gs.length) {f f' : SubgraphRecord → SubgraphRecord}
    (hf : ∀ g, gs[i]? = some g → w.record i (f g) = f' (w.record i g)) :
    w.lay (gs.modify i f) = (w.lay gs).modify (w.index i) f' := by
  have h' : w.cut ≤ (gs.modify i f).length := by rwa [List.length_modify]
  refine w.ext (fun j => ?_) fun j hj => ?_
  · rw [getElem?_lay h', List.getElem?_modify, List.getElem?_modify, getElem?_lay h]
    by_cases hij : i = j
    · subst hij
      cases hg : gs[i]? with
      | none => rfl
      | some g => simp [hf g hg]
    · have hne : w.index i ≠ w.index j := fun heq => hij (w.index_injective heq)
      simp [hij, hne]
  · rw [getElem?_lay_others h' hj, List.getElem?_modify_ne _ _ (w.index_ne i hj),
      getElem?_lay_others h hj]

theorem lay_append (h : w.cut ≤ gs.length) (g : SubgraphRecord) :
    w.lay (gs ++ [g]) = w.lay gs ++ [w.back g] := by
  rw [lay, List.take_append_of_le_length h, List.drop_append_of_le_length h, List.map_append,
    ← List.append_assoc]
  rfl

end Inlay

/-! ## One statement -/

theorem Statement.exists_header (h : st.blockStep = .enter) : ∃ header, st = .subgraphOpen header := by
  cases st with
  | subgraphOpen header => exact ⟨header, rfl⟩
  | _ => cases h

theorem Statement.eq_blockEnd (h : st.blockStep = .leave) : st = .blockEnd := by
  cases st with
  | blockEnd => rfl
  | _ => cases h

/-- The subgraph with its last line moved. -/
def SubgraphRecord.closeAt (line : Nat) (g : SubgraphRecord) : SubgraphRecord :=
  { g with span := ⟨g.span.start, line⟩ }

namespace Reader

/-- The subgraphs with the innermost open one changed. -/
def alterInnermost (f : SubgraphRecord → SubgraphRecord) (r : Reader) : List SubgraphRecord :=
  match r.openBlocks with
  | [] => r.view.subgraphs
  | i :: _ => r.view.subgraphs.modify i f

theorem alterInnermost_nil (h : r.openBlocks = []) (f : SubgraphRecord → SubgraphRecord) :
    r.alterInnermost f = r.view.subgraphs := by
  rw [alterInnermost, h]

theorem alterInnermost_cons {outer : List Nat} (h : r.openBlocks = i :: outer)
    (f : SubgraphRecord → SubgraphRecord) :
    r.alterInnermost f = r.view.subgraphs.modify i f := by
  rw [alterInnermost, h]

theorem alterInnermost_id (r : Reader) : r.alterInnermost id = r.view.subgraphs := by
  cases h : r.openBlocks with
  | nil => exact alterInnermost_nil h _
  | cons i outer => rw [alterInnermost_cons h, List.modify_id]

theorem subgraphs_addMentions_head (r : Reader) (ms : List (Mention × NodeToken)) :
    (r.view.addMentions r.openBlocks.head? ms).subgraphs =
      r.alterInnermost (·.addMembers (ms.map (·.2.id))) := by
  rw [View.subgraphs_addMentions]
  cases h : r.openBlocks with
  | nil => rw [alterInnermost_nil h, List.head?_nil]
  | cons i outer => rw [alterInnermost_cons h, List.head?_cons]

theorem subgraphs_step_of_stay (h : st.blockStep = .stay) (r : Reader) (line : Nat) :
    (r.step line st).view.subgraphs = r.alterInnermost (·.addMembers (st.tokens.map (·.id))) := by
  cases st with
  | link l => exact r.subgraphs_addMentions_head ((Statement.link l).mentions line)
  | node n => exact r.subgraphs_addMentions_head ((Statement.node n).mentions line)
  | subgraphOpen header => cases h
  | blockEnd => cases h
  | _ => exact r.alterInnermost_id.symm

theorem subgraphs_step_blockEnd (r : Reader) (line : Nat) :
    (r.step line .blockEnd).view.subgraphs = r.alterInnermost (·.closeAt line) := by
  rw [step]
  split
  · next h => rw [alterInnermost_nil h]
  · next h =>
    rw [alterInnermost_cons h]
    rfl

/-- A statement opens a subgraph, closes the innermost one or leaves the open ones as they are. -/
theorem openBlocks_step (r : Reader) (line : Nat) (st : Statement) :
    (r.step line st).openBlocks =
      st.blockStep.openersBehind r.view.subgraphs.length r.openBlocks := by
  cases st with
  | blockEnd =>
    rw [step]
    split
    · next h =>
      rw [h]
      rfl
    · next h =>
      rw [h]
      rfl
  | _ => rfl

theorem length_subgraphs_step (r : Reader) (line : Nat) (st : Statement) :
    r.view.subgraphs.length ≤ (r.step line st).view.subgraphs.length := by
  have halter : ∀ f, (r.alterInnermost f).length = r.view.subgraphs.length := by
    intro f
    cases h : r.openBlocks with
    | nil => rw [alterInnermost_nil h]
    | cons i outer => rw [alterInnermost_cons h, List.length_modify]
  cases hst : st.blockStep with
  | stay => rw [subgraphs_step_of_stay hst, halter]
  | enter =>
    obtain ⟨header, rfl⟩ := Statement.exists_header hst
    simp [step]
  | leave =>
    obtain rfl := Statement.eq_blockEnd hst
    rw [subgraphs_step_blockEnd, halter]

theorem getElem?_alterInnermost (h : i ∉ r.openBlocks) (f : SubgraphRecord → SubgraphRecord) :
    (r.alterInnermost f)[i]? = r.view.subgraphs[i]? := by
  cases hopen : r.openBlocks with
  | nil => rw [alterInnermost_nil hopen]
  | cons j outer =>
    rw [hopen, List.mem_cons, not_or] at h
    rw [alterInnermost_cons hopen, List.getElem?_modify_ne _ _ (Ne.symm h.1)]

/-- A subgraph that is closed stays as it is. -/
theorem getElem?_step (hi : i < r.view.subgraphs.length) (h : i ∉ r.openBlocks) (line : Nat)
    (st : Statement) : (r.step line st).view.subgraphs[i]? = r.view.subgraphs[i]? ∧
      i ∉ (r.step line st).openBlocks := by
  rw [openBlocks_step]
  cases hst : st.blockStep with
  | stay => exact ⟨by rw [subgraphs_step_of_stay hst, getElem?_alterInnermost h], h⟩
  | enter =>
    obtain ⟨header, rfl⟩ := Statement.exists_header hst
    refine ⟨List.getElem?_append_left hi, fun hmem => ?_⟩
    rcases List.mem_cons.1 hmem with rfl | hmem
    exacts [Nat.lt_irrefl _ hi, h hmem]
  | leave =>
    obtain rfl := Statement.eq_blockEnd hst
    exact ⟨by rw [subgraphs_step_blockEnd, getElem?_alterInnermost h],
      fun hmem => h (List.mem_of_mem_tail hmem)⟩

theorem getElem?_readAll (hi : i < r.view.subgraphs.length) (h : i ∉ r.openBlocks)
    (sts : List (Nat × Statement)) : (r.readAll sts).view.subgraphs[i]? = r.view.subgraphs[i]? := by
  induction sts generalizing r with
  | nil => rfl
  | cons p sts ih =>
    obtain ⟨hsame, hclosed⟩ := getElem?_step hi h p.1 p.2
    rw [readAll_cons, ih (Nat.lt_of_lt_of_le hi (r.length_subgraphs_step p.1 p.2)) hclosed, hsame]

theorem not_mem_openBlocks_readAll (hi : i < r.view.subgraphs.length) (h : i ∉ r.openBlocks)
    (sts : List (Nat × Statement)) : i ∉ (r.readAll sts).openBlocks := by
  induction sts generalizing r with
  | nil => exact h
  | cons p sts ih =>
    exact ih (Nat.lt_of_lt_of_le hi (r.length_subgraphs_step p.1 p.2)) (getElem?_step hi h p.1 p.2).2

/-- Only subgraphs that were met are open. -/
theorem lt_of_mem_openBlocks_step (h : ∀ i ∈ r.openBlocks, i < r.view.subgraphs.length) (line : Nat)
    (st : Statement) :
    ∀ i ∈ (r.step line st).openBlocks, i < (r.step line st).view.subgraphs.length := by
  intro i hi
  have hle := r.length_subgraphs_step line st
  rw [openBlocks_step] at hi
  cases hst : st.blockStep with
  | stay =>
    rw [hst] at hi
    exact Nat.lt_of_lt_of_le (h i hi) hle
  | enter =>
    obtain ⟨header, rfl⟩ := Statement.exists_header hst
    rcases List.mem_cons.1 hi with rfl | hi
    · simp [step]
    · exact Nat.lt_of_lt_of_le (h i hi) hle
  | leave =>
    rw [hst] at hi
    exact Nat.lt_of_lt_of_le (h i (List.mem_of_mem_tail hi)) hle

theorem lt_of_mem_openBlocks_readAll (h : ∀ i ∈ r.openBlocks, i < r.view.subgraphs.length)
    (sts : List (Nat × Statement)) :
    ∀ i ∈ (r.readAll sts).openBlocks, i < (r.readAll sts).view.subgraphs.length := by
  induction sts generalizing r with
  | nil => exact h
  | cons p sts ih => exact ih (lt_of_mem_openBlocks_step h p.1 p.2)

theorem lt_of_mem_openBlocks {s : Source} {sts : List (Nat × Statement)} :
    ∀ i ∈ ((start s).readAll sts).openBlocks, i < ((start s).readAll sts).view.subgraphs.length :=
  lt_of_mem_openBlocks_readAll (fun _ hi => by cases hi) sts

end Reader

/-- The statement says of the ids `ρ` gives what another one says of the old ones. -/
structure Statement.IsAlike (ρ : Text → Text) (st st' : Statement) : Prop where
  blockStep : st'.blockStep = st.blockStep
  header : ∀ h, st = .subgraphOpen h →
    ∃ h', st' = .subgraphOpen h' ∧ h'.id = ρ h.id ∧ h'.label = h.label
  tokens : st'.tokens.map (·.id) = st.tokens.map fun t => ρ t.id

theorem Statement.IsAlike.refl (st : Statement) : IsAlike id st st where
  blockStep := rfl
  header h hst := ⟨h, hst, rfl, rfl⟩
  tokens := rfl

namespace Reader

/-- The subgraphs that the first reader has met and those that are open stand in those of the
second. -/
structure Shows (w : Inlay) (r r' : Reader) : Prop where
  subgraphs : r'.view.subgraphs = w.lay r.view.subgraphs
  openBlocks : r'.openBlocks = r.openBlocks.map w.index
  cut_le : w.cut ≤ r.view.subgraphs.length

namespace Shows

variable {w : Inlay}

theorem container? (h : r.Shows w r')
    (hid : ∀ i ∈ r.openBlocks.head?, ∀ g, r.view.subgraphs[i]? = some g →
      (w.record i g).id = ρ g.id) : r'.container? = r.container?.map ρ := by
  rw [Reader.container?, Reader.container?, h.openBlocks, h.subgraphs, List.head?_map]
  cases hopen : r.openBlocks.head? with
  | none => rfl
  | some i =>
    rw [Option.map_some, Option.bind_some, Option.bind_some, Inlay.getElem?_lay h.cut_le]
    cases hg : r.view.subgraphs[i]? with
    | none => rfl
    | some g => simp [hid i hopen g hg]

theorem alterInnermost (h : r.Shows w r') {f f' : SubgraphRecord → SubgraphRecord}
    (hf : ∀ i ∈ r.openBlocks.head?, ∀ g, r.view.subgraphs[i]? = some g →
      w.record i (f g) = f' (w.record i g)) :
    r'.alterInnermost f' = w.lay (r.alterInnermost f) := by
  have hopen' := h.openBlocks
  cases hopen : r.openBlocks with
  | nil =>
    rw [hopen] at hopen'
    rw [alterInnermost_nil hopen, alterInnermost_nil hopen', h.subgraphs]
  | cons i outer =>
    rw [hopen] at hopen'
    rw [alterInnermost_cons hopen, alterInnermost_cons hopen', h.subgraphs]
    exact (Inlay.lay_modify h.cut_le fun g hg => hf i (by rw [hopen]; rfl) g hg).symm

/-- A subgraph is opened among the last ones. -/
theorem enter (h : r.Shows w r') {header header' : SubgraphHeader}
    (hnew : w.back ⟨header.id, header.label, .single line, r.container?, []⟩ =
      ⟨header'.id, header'.label, .single line', r'.container?, []⟩) :
    (r.step line (.subgraphOpen header)).Shows w (r'.step line' (.subgraphOpen header')) where
  subgraphs := by
    change r'.view.subgraphs ++ [⟨header'.id, header'.label, .single line', r'.container?, []⟩] = _
    rw [← hnew, h.subgraphs]
    exact (Inlay.lay_append h.cut_le _).symm
  openBlocks := by
    change r'.view.subgraphs.length :: r'.openBlocks =
      w.index r.view.subgraphs.length :: r.openBlocks.map w.index
    rw [h.openBlocks, h.subgraphs, Inlay.length_lay h.cut_le]
  cut_le := Nat.le_trans h.cut_le (r.length_subgraphs_step _ _)

/-- Members are added to the innermost subgraph. -/
theorem stay (h : r.Shows w r') (hst : st.blockStep = .stay) (hst' : st'.blockStep = .stay)
    (hhead : ∀ i ∈ r.openBlocks.head?, ∀ g, r.view.subgraphs[i]? = some g →
      w.record i (g.addMembers (st.tokens.map (·.id))) =
        (w.record i g).addMembers (st'.tokens.map (·.id))) :
    (r.step line st).Shows w (r'.step line' st') where
  subgraphs := by
    rw [subgraphs_step_of_stay hst, subgraphs_step_of_stay hst']
    exact h.alterInnermost hhead
  openBlocks := by
    rw [openBlocks_step, openBlocks_step, hst, hst']
    exact h.openBlocks
  cut_le := Nat.le_trans h.cut_le (r.length_subgraphs_step _ _)

/-- The innermost subgraph is closed. -/
theorem leave (h : r.Shows w r')
    (hhead : ∀ i ∈ r.openBlocks.head?, ∀ g, r.view.subgraphs[i]? = some g →
      w.record i (g.closeAt line) = (w.record i g).closeAt line') :
    (r.step line .blockEnd).Shows w (r'.step line' .blockEnd) where
  subgraphs := by
    rw [subgraphs_step_blockEnd, subgraphs_step_blockEnd]
    exact h.alterInnermost hhead
  openBlocks := by
    rw [openBlocks_step, openBlocks_step]
    change r'.openBlocks.tail = r.openBlocks.tail.map w.index
    rw [h.openBlocks, List.map_tail]
  cut_le := Nat.le_trans h.cut_le (r.length_subgraphs_step _ _)

end Shows

end Reader

/-! ## A block that is read once more -/

namespace SubgraphRecord

/-- The subgraph with other ids, some lines further down. -/
def copied (ρ : Text → Text) (k : Nat) (g : SubgraphRecord) : SubgraphRecord :=
  ⟨ρ g.id, g.label, ⟨g.span.start + k, g.span.stop + k⟩, g.parent.map ρ, g.members.map ρ⟩

/-- The subgraph with its lines moved. -/
def moved (f : Nat → Nat) (g : SubgraphRecord) : SubgraphRecord :=
  { g with span := ⟨f g.span.start, f g.span.stop⟩ }

theorem moved_addMember (f : Nat → Nat) (x : Text) (g : SubgraphRecord) :
    (g.addMember x).moved f = (g.moved f).addMember x := by
  by_cases hx : x ∈ g.members <;> simp [addMember, moved, hx]

theorem moved_addMembers (f : Nat → Nat) (ids : List Text) (g : SubgraphRecord) :
    (g.addMembers ids).moved f = (g.moved f).addMembers ids := by
  induction ids generalizing g with
  | nil => rfl
  | cons x ids ih =>
    have hstep := ih (g.addMember x)
    rw [moved_addMember] at hstep
    exact hstep

/-- All members of the subgraph are known. -/
def KnowsOnly (S : Set Text) (g : SubgraphRecord) : Prop :=
  ∀ x ∈ g.members, x ∈ S

theorem KnowsOnly.addMember (h : g.KnowsOnly S) (hx : x ∈ S) : (g.addMember x).KnowsOnly S := by
  rw [SubgraphRecord.addMember]
  split
  · exact h
  · intro y hy
    rcases List.mem_append.1 hy with hy | hy
    exacts [h y hy, List.mem_singleton.1 hy ▸ hx]

theorem KnowsOnly.addMembers (h : g.KnowsOnly S) (hids : ∀ x ∈ ids, x ∈ S) :
    (g.addMembers ids).KnowsOnly S := by
  induction ids generalizing g with
  | nil => exact h
  | cons x ids ih =>
    obtain ⟨hx, hids⟩ := List.forall_mem_cons.1 hids
    exact ih (h.addMember hx) hids

/-- Among known ids, two have the same image only if they are the same. -/
theorem copied_addMember (hinj : Set.InjOn ρ S) (h : g.KnowsOnly S) (hx : x ∈ S) :
    (g.addMember x).copied ρ k = (g.copied ρ k).addMember (ρ x) := by
  have hmem : ρ x ∈ g.members.map ρ ↔ x ∈ g.members := by
    refine ⟨fun hmem => ?_, fun hmem => List.mem_map_of_mem hmem⟩
    obtain ⟨y, hy, heq⟩ := List.mem_map.1 hmem
    exact hinj (h y hy) hx heq ▸ hy
  by_cases hx : x ∈ g.members
  · have hcopy := hmem.2 hx
    simp [addMember, copied, hx, hcopy]
  · have hcopy := mt hmem.1 hx
    simp only [addMember, copied, List.contains_iff_mem, hx, hcopy, if_false, List.map_append,
      List.map_singleton]

theorem copied_addMembers (hinj : Set.InjOn ρ S) (h : g.KnowsOnly S) (hids : ∀ x ∈ ids, x ∈ S) :
    (g.addMembers ids).copied ρ k = (g.copied ρ k).addMembers (ids.map ρ) := by
  induction ids generalizing g with
  | nil => rfl
  | cons x ids ih =>
    obtain ⟨hx, hids⟩ := List.forall_mem_cons.1 hids
    have hstep := ih (h.addMember hx) hids
    rw [copied_addMember hinj h hx] at hstep
    exact hstep

end SubgraphRecord

namespace Reader

theorem knowsOnly_alterInnermost {f : SubgraphRecord → SubgraphRecord}
    (h : ∀ g ∈ r.view.subgraphs, g.KnowsOnly S) (hf : ∀ g, g.KnowsOnly S → (f g).KnowsOnly S) :
    ∀ g ∈ r.alterInnermost f, g.KnowsOnly S := by
  cases hopen : r.openBlocks with
  | nil => rwa [alterInnermost_nil hopen]
  | cons i outer =>
    rw [alterInnermost_cons hopen]
    exact forall_mem_modify i h hf

theorem knowsOnly_step (h : ∀ g ∈ r.view.subgraphs, g.KnowsOnly S)
    (hids : ∀ t ∈ st.tokens, t.id ∈ S) (line : Nat) :
    ∀ g ∈ (r.step line st).view.subgraphs, g.KnowsOnly S := by
  cases hst : st.blockStep with
  | stay =>
    rw [subgraphs_step_of_stay hst]
    refine knowsOnly_alterInnermost h fun g hg => hg.addMembers fun x hx => ?_
    obtain ⟨t, ht, rfl⟩ := List.mem_map.1 hx
    exact hids t ht
  | enter =>
    obtain ⟨header, rfl⟩ := Statement.exists_header hst
    intro g hg
    rcases List.mem_append.1 hg with hg | hg
    · exact h g hg
    · rw [List.mem_singleton.1 hg]
      intro x hx
      cases hx
  | leave =>
    obtain rfl := Statement.eq_blockEnd hst
    rw [subgraphs_step_blockEnd]
    exact knowsOnly_alterInnermost h fun g hg => hg

theorem knowsOnly_readAll (h : ∀ g ∈ r.view.subgraphs, g.KnowsOnly S) {sts : List (Nat × Statement)}
    (hids : ∀ p ∈ sts, ∀ t ∈ p.2.tokens, t.id ∈ S) :
    ∀ g ∈ (r.readAll sts).view.subgraphs, g.KnowsOnly S := by
  induction sts generalizing r with
  | nil => exact h
  | cons p sts ih =>
    obtain ⟨hp, hids⟩ := List.forall_mem_cons.1 hids
    exact ih (knowsOnly_step h hp p.1) hids

/-- The reader is inside of a block, where it has opened the subgraphs `inner`. The subgraphs `front`
were met in front of the block, and `outer` are open around it. -/
structure Inside (S : Set Text) (front : List SubgraphRecord) (inner outer : List Nat)
    (r : Reader) : Prop where
  openBlocks : r.openBlocks = inner ++ outer
  inside : ∀ i ∈ inner, front.length ≤ i ∧ i < r.view.subgraphs.length
  front_prefix : front <+: r.view.subgraphs
  knowsOnly : ∀ g ∈ r.view.subgraphs, g.KnowsOnly S

namespace Inside

variable {front : List SubgraphRecord} {inner outer : List Nat}

/-- The innermost subgraph is one of the block. -/
theorem le_of_mem_head? (h : Inside S front inner outer r) (hne : inner ≠ [])
    (hi : i ∈ r.openBlocks.head?) : front.length ≤ i := by
  obtain ⟨j, inner, rfl⟩ := List.exists_cons_of_ne_nil hne
  rw [h.openBlocks] at hi
  obtain rfl := Option.some.inj hi
  exact (h.inside j List.mem_cons_self).1

theorem isSome_container? (h : Inside S front inner outer r) (hne : inner ≠ []) :
    r.container?.isSome = true := by
  obtain ⟨j, inner, rfl⟩ := List.exists_cons_of_ne_nil hne
  rw [Reader.container?, h.openBlocks, List.cons_append, List.head?_cons, Option.bind_some,
    List.getElem?_eq_getElem (h.inside j List.mem_cons_self).2]
  rfl

theorem prefix_alterInnermost (h : Inside S front inner outer r) (hne : inner ≠ [])
    (f : SubgraphRecord → SubgraphRecord) : front <+: r.alterInnermost f := by
  obtain ⟨j, inner, rfl⟩ := List.exists_cons_of_ne_nil hne
  have hle := (h.inside j List.mem_cons_self).1
  rw [alterInnermost_cons (by rw [h.openBlocks]; rfl), List.prefix_iff_getElem?]
  intro i hi
  rw [List.getElem?_modify_ne _ _ (by omega), List.prefix_iff_getElem?.1 h.front_prefix i hi]

theorem step (h : Inside S front inner outer r) (hne : inner ≠ []) (hids : ∀ t ∈ st.tokens, t.id ∈ S)
    (n : Nat) : Inside S front (st.blockStep.openersBehind r.view.subgraphs.length inner) outer
      (r.step n st) where
  openBlocks := by
    rw [openBlocks_step, h.openBlocks]
    cases st.blockStep with
    | leave => exact List.tail_append_of_ne_nil hne
    | _ => rfl
  inside := by
    intro i hi
    have hle := r.length_subgraphs_step n st
    have hinside : ∀ i ∈ inner, front.length ≤ i ∧ i < (r.step n st).view.subgraphs.length :=
      fun i hi => ⟨(h.inside i hi).1, Nat.lt_of_lt_of_le (h.inside i hi).2 hle⟩
    cases hstep : st.blockStep with
    | stay =>
      rw [hstep] at hi
      exact hinside i hi
    | enter =>
      obtain ⟨header, rfl⟩ := Statement.exists_header hstep
      rcases List.mem_cons.1 hi with rfl | hi
      · exact ⟨h.front_prefix.length_le, by simp [Reader.step]⟩
      · exact hinside i hi
    | leave =>
      rw [hstep] at hi
      exact hinside i (List.mem_of_mem_tail hi)
  front_prefix := by
    cases hstep : st.blockStep with
    | stay =>
      rw [subgraphs_step_of_stay hstep]
      exact h.prefix_alterInnermost hne _
    | enter =>
      obtain ⟨header, rfl⟩ := Statement.exists_header hstep
      exact h.front_prefix.trans (List.prefix_append _ _)
    | leave =>
      obtain rfl := Statement.eq_blockEnd hstep
      rw [subgraphs_step_blockEnd]
      exact h.prefix_alterInnermost hne _
  knowsOnly := knowsOnly_step h.knowsOnly hids n

/-- A block with other subgraphs around it begins. -/
theorem of_header (hknows : ∀ g ∈ r.view.subgraphs, g.KnowsOnly S) (header : SubgraphHeader) (n : Nat) :
    Inside S r.view.subgraphs [r.view.subgraphs.length] r.openBlocks
      (r.step n (.subgraphOpen header)) where
  openBlocks := rfl
  inside := by
    intro i hi
    rw [List.mem_singleton.1 hi]
    exact ⟨Nat.le_refl _, by simp [Reader.step]⟩
  front_prefix := List.prefix_append _ _
  knowsOnly := knowsOnly_step hknows (fun t ht => by cases ht) n

end Inside

/-- The first reader is inside of a block, which the second one reads again with other ids. -/
structure Copying (S : Set Text) (ρ : Text → Text) (k : Nat) (front others : List SubgraphRecord)
    (inner outer : List Nat) (r r' : Reader) : Prop extends Inside S front inner outer r where
  shows : r.Shows ⟨front.length, others, id, .copied ρ k⟩ r'

namespace Copying

variable {front : List SubgraphRecord} {inner outer : List Nat}

theorem record_of_head? (h : Copying S ρ k front others inner outer r r') (hne : inner ≠ [])
    (hi : i ∈ r.openBlocks.head?) :
    (⟨front.length, others, id, .copied ρ k⟩ : Inlay).record i = .copied ρ k :=
  Inlay.record_of_le (h.le_of_mem_head? hne hi)

theorem container? (h : Copying S ρ k front others inner outer r r') (hne : inner ≠ []) :
    r'.container? = r.container?.map ρ :=
  h.shows.container? fun i hi g _ => by rw [h.record_of_head? hne hi]; rfl

theorem step (hinj : Set.InjOn ρ S) (h : Copying S ρ k front others inner outer r r')
    (hne : inner ≠ []) (hst : st.IsAlike ρ st') (hids : ∀ t ∈ st.tokens, t.id ∈ S) (n : Nat) :
    Copying S ρ k front others (st.blockStep.openersBehind r.view.subgraphs.length inner) outer
      (r.step n st) (r'.step (n + k) st') where
  toInside := h.toInside.step hne hids n
  shows := by
    have hst' := hst.blockStep
    cases hstep : st.blockStep with
    | stay =>
      refine h.shows.stay hstep (hst'.trans hstep) fun i hi g hg => ?_
      have hknows := h.knowsOnly g (List.mem_of_getElem? hg)
      have hmap : ∀ x ∈ st.tokens.map (·.id), x ∈ S := by simpa using hids
      rw [h.record_of_head? hne hi, hst.tokens, SubgraphRecord.copied_addMembers hinj hknows hmap,
        List.map_map]
      rfl
    | enter =>
      obtain ⟨header, rfl⟩ := Statement.exists_header hstep
      obtain ⟨header', rfl, hid, hlabel⟩ := hst.header header rfl
      refine h.shows.enter ?_
      rw [hid, hlabel, h.container? hne]
      rfl
    | leave =>
      obtain rfl := Statement.eq_blockEnd hstep
      obtain rfl := Statement.eq_blockEnd (hst'.trans hstep)
      refine h.shows.leave fun i hi g hg => ?_
      rw [h.record_of_head? hne hi]
      rfl

/-- The places on a line are copied. -/
theorem map_tokens (h : Copying S ρ k front others inner outer r r') (hne : inner ≠ [])
    (hst : st.IsAlike ρ st') : (st'.tokens.map fun t => (t.id, r'.container?)) =
      (st.tokens.map fun t => (t.id, r.container?)).map fun p => (ρ p.1, p.2.map ρ) := by
  have htokens := congrArg (List.map fun x => (x, r'.container?)) hst.tokens
  rw [List.map_map, List.map_map] at htokens
  rw [List.map_map]
  refine htokens.trans (List.map_congr_left fun t _ => ?_)
  change (ρ t.id, r'.container?) = (ρ t.id, r.container?.map ρ)
  rw [h.container? hne]

/-- Behind the block, each of its subgraphs has its copy, and so has each place in it. -/
theorem readAll (hinj : Set.InjOn ρ S) (h : Copying S ρ k front others inner outer r r')
    (hcloses : ClosesFrom inner.length sts) (hsts : List.Forall₂ (Statement.IsAlike ρ) sts sts')
    (hids : ∀ st ∈ sts, ∀ t ∈ st.tokens, t.id ∈ S) (n : Nat) :
    Copying S ρ k front others [] outer (r.readAll (numberFrom n sts))
        (r'.readAll (numberFrom (n + k) sts')) ∧
      r'.places (numberFrom (n + k) sts') =
        (r.places (numberFrom n sts)).map (fun p => (ρ p.1, p.2.map ρ)) ∧
      ∀ p ∈ r.places (numberFrom n sts), p.2.isSome = true := by
  induction hsts generalizing r r' inner n with
  | nil => exact absurd rfl hcloses.ne_nil.2
  | @cons st st' sts sts' hst hsts ih =>
    obtain ⟨hidst, hids⟩ := List.forall_mem_cons.1 hids
    have hne : inner ≠ [] := by
      rintro rfl
      exact hcloses.ne_nil.1 rfl
    have hstep := h.step hinj hne hst hidst n
    have hnumber : n + k + 1 = n + 1 + k := Nat.add_right_comm n k 1
    -- The last line leaves the block, and behind the others the reader is still inside.
    have hrest : Copying S ρ k front others [] outer
          ((r.step n st).readAll (numberFrom (n + 1) sts))
          ((r'.step (n + k) st').readAll (numberFrom (n + 1 + k) sts')) ∧
        (r'.step (n + k) st').places (numberFrom (n + 1 + k) sts') =
          ((r.step n st).places (numberFrom (n + 1) sts)).map (fun p => (ρ p.1, p.2.map ρ)) ∧
        ∀ p ∈ (r.step n st).places (numberFrom (n + 1) sts), p.2.isSome = true := by
      obtain ⟨depth, hlength⟩ : ∃ depth, inner.length = depth := ⟨_, rfl⟩
      rw [hlength] at hcloses
      cases hcloses with
      | enter hblock hcloses =>
        rw [hblock] at hstep
        exact ih hstep (by rwa [BlockStep.openersBehind, List.length_cons, hlength]) hids (n + 1)
      | stay hblock hcloses =>
        rw [hblock] at hstep
        exact ih hstep (by rwa [BlockStep.openersBehind, hlength]) hids (n + 1)
      | leave hblock hcloses =>
        rw [hblock] at hstep
        refine ih hstep ?_ hids (n + 1)
        rwa [BlockStep.openersBehind, List.length_tail, hlength]
      | last hblock =>
        cases hsts
        obtain ⟨i, rfl⟩ := List.length_eq_one_iff.1 hlength
        rw [hblock] at hstep
        exact ⟨hstep, rfl, fun p hp => by cases hp⟩
    obtain ⟨hcopying, hplaces, hsome⟩ := hrest
    rw [numberFrom, numberFrom, hnumber]
    refine ⟨hcopying, ?_, fun p hp => ?_⟩
    · rw [places, places, hplaces, h.map_tokens hne hst, List.map_append]
    · rcases List.mem_append.1 hp with hp | hp
      · obtain ⟨t, -, rfl⟩ := List.mem_map.1 hp
        exact h.isSome_container? hne
      · exact hsome p hp

end Copying

theorem copied_id : SubgraphRecord.copied id 0 = id := by
  funext g
  simp [SubgraphRecord.copied]

section Block

variable {header header' : SubgraphHeader} {r₁ : Reader}
  (hknows : ∀ g ∈ r.view.subgraphs, g.KnowsOnly S) (hids : ∀ st ∈ sts, ∀ t ∈ st.tokens, t.id ∈ S)
  (hcloses : ClosesFrom 1 sts)
  (hr₁ : r₁ = r.readAll (numberFrom n (.subgraphOpen header :: sts)))
include hknows hids hcloses hr₁

/-- A block leaves the subgraphs in front of it and the open ones as they are. -/
theorem inside_readBlock : Inside S r.view.subgraphs [] r.openBlocks r₁ := by
  -- A reader shows what it shows itself, with nothing in between.
  have hshows : ∀ r' : Reader, r.view.subgraphs.length ≤ r'.view.subgraphs.length →
      r'.Shows ⟨r.view.subgraphs.length, [], id, .copied id 0⟩ r' := by
    refine fun r' hle => ⟨?_, ?_, hle⟩
    · simp [Inlay.lay, copied_id]
    · refine (List.map_id _).symm.trans (List.map_congr_left fun i _ => ?_)
      simp [Inlay.index]
  have hself : Copying S id 0 r.view.subgraphs [] [r.view.subgraphs.length] r.openBlocks
      (r.step n (.subgraphOpen header)) (r.step n (.subgraphOpen header)) :=
    ⟨.of_header hknows header n, hshows _ (r.length_subgraphs_step n _)⟩
  have hrun := hself.readAll (Set.injOn_id S) hcloses (List.forall₂_same.2 fun st _ => .refl st)
    hids (n + 1)
  rw [hr₁]
  exact hrun.1.toInside

/-- A block that is read again right behind itself, with other ids, leaves a copy of each of its
subgraphs and of each place in it. -/
theorem readAll_readBlock (hinj : Set.InjOn ρ S) (hcontainer : r.container?.map ρ = r.container?)
    (hmet : ∀ i ∈ r.openBlocks, i < r.view.subgraphs.length)
    (hheader : header'.id = ρ header.id ∧ header'.label = header.label)
    (hsts : List.Forall₂ (Statement.IsAlike ρ) sts sts') {r₂ : Reader}
    (hr₂ : r₂ = r₁.readAll (numberFrom (n + k) (.subgraphOpen header' :: sts'))) :
    r₂.openBlocks = r.openBlocks ∧
      r₂.view.subgraphs = r₁.view.subgraphs ++
        (r₁.view.subgraphs.drop r.view.subgraphs.length).map (.copied ρ k) ∧
      r₁.places (numberFrom (n + k) (.subgraphOpen header' :: sts')) =
        (r.places (numberFrom n (.subgraphOpen header :: sts))).map
          (fun p => (ρ p.1, p.2.map ρ)) ∧
      ∀ p ∈ r.places (numberFrom n (.subgraphOpen header :: sts)), p.2.isSome = true := by
  have hinside := inside_readBlock hknows hids hcloses hr₁
  obtain ⟨block, hblock⟩ := hinside.front_prefix
  have hopen : r₁.openBlocks = r.openBlocks := hinside.openBlocks
  have hdrop : r₁.view.subgraphs.drop r.view.subgraphs.length = block := by
    rw [← hblock, List.drop_left]
  have hbefore : r.Shows ⟨r.view.subgraphs.length, block, id, .copied ρ k⟩ r₁ := by
    refine ⟨?_, ?_, Nat.le_refl _⟩
    · rw [Inlay.lay, List.take_length, List.drop_length, ← hblock, List.map_id, List.map_nil,
        List.append_nil]
    · rw [hopen]
      refine (List.map_id _).symm.trans (List.map_congr_left fun i hi => ?_)
      exact (if_pos (hmet i hi)).symm
  have hparent : r₁.container? = r.container? := by
    rw [Reader.container?, Reader.container?, hopen]
    cases hhead : r.openBlocks.head? with
    | none => rfl
    | some i =>
      have hi := hmet i (List.mem_of_head? hhead)
      rw [Option.bind_some, Option.bind_some, ← hblock, List.getElem?_append_left hi]
  have hfirst : (r.step n (.subgraphOpen header)).Shows
      ⟨r.view.subgraphs.length, block, id, .copied ρ k⟩
      (r₁.step (n + k) (.subgraphOpen header')) := by
    refine hbefore.enter ?_
    rw [hheader.1, hheader.2, hparent]
    change SubgraphRecord.mk _ _ _ (r.container?.map ρ) _ = _
    rw [hcontainer]
    rfl
  have hcopying : Copying S ρ k r.view.subgraphs block [r.view.subgraphs.length] r.openBlocks
      (r.step n (.subgraphOpen header)) (r₁.step (n + k) (.subgraphOpen header')) :=
    ⟨.of_header hknows header n, hfirst⟩
  obtain ⟨hend, hplaces, hsome⟩ := hcopying.readAll hinj hcloses hsts hids (n + 1)
  have hnumber : n + 1 + k = n + k + 1 := Nat.add_right_comm n 1 k
  rw [hnumber] at hend hplaces
  have hr₁' : (r.step n (.subgraphOpen header)).readAll (numberFrom (n + 1) sts) = r₁ := hr₁.symm
  have hr₂' : (r₁.step (n + k) (.subgraphOpen header')).readAll (numberFrom (n + k + 1) sts') = r₂ :=
    hr₂.symm
  rw [hr₁', hr₂'] at hend
  refine ⟨?_, ?_, hplaces, hsome⟩
  · rw [hend.shows.openBlocks, hopen]
    refine (List.map_congr_left fun i hi => ?_).trans (List.map_id _)
    exact if_pos (hmet i hi)
  · have hsubgraphs := hend.shows.subgraphs
    rw [Inlay.lay] at hsubgraphs
    change r₂.view.subgraphs = (r₁.view.subgraphs.take r.view.subgraphs.length).map id ++ block ++
      (r₁.view.subgraphs.drop r.view.subgraphs.length).map (.copied ρ k) at hsubgraphs
    rw [hsubgraphs, hdrop, List.map_id]
    congr 1
    rw [← hblock, List.take_left]

end Block

/-! ## Lines behind -/

/-- The lines behind are read alike with other subgraphs in between. -/
theorem Shows.readAll_moved {f : Nat → Nat} (h : r.Shows ⟨cut, others, .moved f, .moved f⟩ r')
    (hf : ∀ j, n ≤ j → f j = j + k) (sts : List Statement) :
    (r.readAll (numberFrom n sts)).Shows ⟨cut, others, .moved f, .moved f⟩
        (r'.readAll (numberFrom (n + k) sts)) ∧
      r'.places (numberFrom (n + k) sts) = r.places (numberFrom n sts) := by
  induction sts generalizing r r' n with
  | nil => exact ⟨h, rfl⟩
  | cons st sts ih =>
    have hrecord : ∀ i, (⟨cut, others, .moved f, .moved f⟩ : Inlay).record i = .moved f :=
      fun i => ite_self _
    have hcontainer : r'.container? = r.container? := by
      have hmap : r'.container? = r.container?.map id :=
        h.container? fun i _ g _ => by rw [hrecord]; rfl
      rwa [Option.map_id] at hmap
    have hline : f n = n + k := hf n (Nat.le_refl n)
    have hstep : (r.step n st).Shows ⟨cut, others, .moved f, .moved f⟩ (r'.step (n + k) st) := by
      cases hst : st.blockStep with
      | stay =>
        refine h.stay hst hst fun i _ g _ => ?_
        rw [hrecord, SubgraphRecord.moved_addMembers]
      | enter =>
        obtain ⟨header, rfl⟩ := Statement.exists_header hst
        refine h.enter ?_
        rw [hcontainer, ← hline]
        rfl
      | leave =>
        obtain rfl := Statement.eq_blockEnd hst
        refine h.leave fun i _ g _ => ?_
        rw [hrecord, ← hline]
        rfl
    obtain ⟨hrest, hplaces⟩ := ih hstep fun j hj => hf j (Nat.le_of_succ_le hj)
    have hnumber : n + k + 1 = n + 1 + k := Nat.add_right_comm n k 1
    rw [numberFrom, numberFrom, hnumber]
    refine ⟨hrest, ?_⟩
    rw [places, places, hplaces, hcontainer]

end Reader

end DiagramEditor.Flowchart
