import DiagramEditor.Proofs.Edit.Sequence.Basic
import DiagramEditor.Proofs.Edit.Sequence.Message
import DiagramEditor.Proofs.Sequence.Boxing

/-!
# A box around participants

The declarations of the participants move into the box, which comes to stand where the first of them
was, and a participant that only messages name gets a declaration there. In front of this place nothing is
deleted, and what counts of every participant is its first declaration, so the participants are in the box
and everything else is what it was (`addsBox_of_lines`).

What is read as the color and as the label of the box depends on how the two are written in one line. The
label comes back unless it holds the entity of a quote or, alone and without a blank, is read as a color
(`exists_ofLine?_boxHeader`). That is all that can go wrong where the declaration of the diagram stays, but
for names that no declaration can have (`applyOps_addBox`).
-/

namespace DiagramEditor.Edit.Sequence

open DiagramEditor.Sequence Source Text

variable {s s' : Source} {name indent label shown : Text} {color : Option Text} {names : List Text}
  {members : List ParticipantRecord} {p : ParticipantRecord}

/-! ## The header -/

/-- The header of a box is read back with its color and its label: no entity stands in the label, and where
the box has no color, a label that is one word does not begin with what is read as a color. -/
def KeepsHeader (color : Option Text) (label : Text) : Prop :=
  ¬quoteEntity <:+: label ∧
    (color = none → label.any isSpace = false → (BoxHeader.splitColor label).1 = none)

instance (color : Option Text) (label : Text) : Decidable (KeepsHeader color label) :=
  inferInstanceAs (Decidable (_ ∧ _))

/-- The header that is written is one that is read, and the box has the color and the label that it is to
have exactly if they are kept. -/
theorem exists_ofLine?_boxHeader (hw : IsBlank indent) (hlabel : nonBlank? label = some shown)
    (hquote : '"' ∉ shown) (hcolor : ∀ text ∈ color, BoxHeader.IsColorName text) : ∃ header,
      BoxHeader.ofLine? (boxHeader indent label color) = some header ∧
        ((header.color = color ∧ header.label = some shown) ↔ KeepsHeader color shown) := by
  have hne : shown ≠ [] := ne_nil_of_nonBlank? hlabel
  have htrim : IsTrimmed shown := nonBlank?_eq_some hlabel ▸ isTrimmed_trim label
  have hunquote : unquote shown = shown ↔ ¬quoteEntity <:+: shown :=
    ⟨fun heq => heq ▸ not_infix_unquote shown, fun hentity =>
      (unquote_of_not_mem hquote hentity).trans (trim_eq_self htrim)⟩
  cases color with
  | some name =>
    have hname := hcolor name rfl
    have hname_ne : name ≠ [] := hname.ne_nil
    have hself : nonBlank? name = some name := by
      have hsolid : IsTrimmed name := ⟨fun c hc => hname.isSpace_of_mem (List.mem_of_mem_head? hc),
        fun c hc => hname.isSpace_of_mem (List.mem_of_mem_getLast? hc)⟩
      rw [nonBlank?, trim_eq_self hsolid, if_neg (by simpa using hname_ne)]
    have hwritten : boxHeader indent label (some name) =
        indent ++ BoxHeader.keyword ++ ' ' :: (name ++ ' ' :: shown) := by
      simp [boxHeader, hlabel, hself]
    have hbody : IsTrimmed (name ++ ' ' :: shown) := by
      constructor
      · intro c hc
        rw [List.head?_append_of_ne_nil _ hname_ne] at hc
        exact hname.isSpace_of_mem (List.mem_of_mem_head? hc)
      · rw [List.append_cons, List.getLast?_append_of_ne_nil _ hne]
        exact htrim.last
    rw [hwritten, BoxHeader.ofLine?_append hw (by simp [hname_ne]) hbody, hname.splitColor_append htrim]
    refine ⟨_, rfl, ?_⟩
    simp [KeepsHeader, hne, hunquote]
  | none =>
    cases hblank : shown.any isSpace with
    | true =>
      have hwritten : boxHeader indent label none = indent ++ BoxHeader.keyword ++ ' ' :: quote shown := by
        simp [boxHeader, hlabel, hblank]
      have hread : unquote (quote shown) = shown ↔ ¬quoteEntity <:+: shown :=
        ⟨fun heq => heq ▸ not_infix_unquote (quote shown), unquote_quote⟩
      have hquoted : quote shown ≠ [] := List.cons_ne_nil _ _
      rw [hwritten, BoxHeader.ofLine?_append hw hquoted (isTrimmed_quote shown),
        BoxHeader.splitColor_quote]
      refine ⟨_, rfl, ?_⟩
      simp [KeepsHeader, hblank, hread, hquoted]
    | false =>
      have hwritten : boxHeader indent label none = indent ++ BoxHeader.keyword ++ ' ' :: shown := by
        simp [boxHeader, hlabel, hblank]
      rw [hwritten, BoxHeader.ofLine?_append hw hne htrim]
      refine ⟨_, rfl, ?_⟩
      rw [KeepsHeader]
      by_cases hfst : (BoxHeader.splitColor shown).1 = none
      · simp [BoxHeader.splitColor_of_fst hfst, hne, hunquote]
      · simp [hfst, hblank]

/-! ## Members -/

/-- What declares the participant, with its label and its type. -/
def declarationOf (p : ParticipantRecord) : Participant :=
  ⟨p.name, p.label, p.type⟩

/-- A participant that only messages name is written as one line in the box, whatever its name is. -/
theorem blockStep_declaration {w : Text} (hname : Message.isName name = true) (hw : IsBlank w) :
    blockStep blockRules (w ++ Participant.render [] ⟨name, none, .participant⟩) = .stay := by
  obtain ⟨hne, hsolid⟩ := isName_iff.1 hname
  have hrender : Participant.render [] ⟨name, none, .participant⟩ =
      ParticipantType.participant.name ++ ' ' :: name := by
    simp [Participant.render, ParticipantType.isPrimitive]
  have htrimmed : IsTrimmed (ParticipantType.participant.name ++ ' ' :: name) := by
    constructor
    · rintro _ ⟨⟩
      decide
    · rw [List.append_cons, List.getLast?_append_of_ne_nil _ hne]
      exact fun c hc => hsolid c (List.mem_of_mem_getLast? hc)
  have hword : firstWord (trim (w ++ Participant.render [] ⟨name, none, .participant⟩)) =
      ParticipantType.participant.name := by
    rw [hrender, trim_of_isBlank_append hw, trim_eq_self htrimmed]
    exact firstWord_of_front (by decide) (fun _ => eq_false_of_any (by decide))
      (by rintro _ ⟨⟩; decide)
  refine blockStep_of_firstWord ?_
  rw [hword]
  decide

/-- The declaration that is written is one line in the box. It says what the participant is, if its name
can be declared at all. -/
theorem exists_declarationText (hp : (View.ofSource s).participant? name = some p) : ∃ text,
    declarationText s p = .ok text ∧ ∀ w, IsBlank w → blockStep blockRules (w ++ text) = .stay ∧
      (hasText Participant.settingsOpening name = false →
        Statement.ofLine (w ++ text) = .participant (declarationOf p)) := by
  rw [declarationText]
  cases hline : p.line with
  | some i =>
    obtain ⟨-, text, htext, hst⟩ := mem_statements_iff.1 (View.declared_of_line hp hline)
    have hat : lineAt i s = .ok text := by
      rw [lineAt, Source.line?, htext]
    refine ⟨trim text, congrArg (Except.map trim) hat, fun w hw => ?_⟩
    have hread : Statement.ofLine (w ++ trim text) = .participant (declarationOf p) := by
      rw [Statement.ofLine_of_isBlank_append hw, Statement.ofLine_trim, hst]
      rfl
    refine ⟨?_, fun _ => hread⟩
    rw [← Statement.blockStep_ofLine, hread]
    rfl
  | none =>
    obtain ⟨rfl, line, m, hst, hname⟩ := View.named_of_line_eq_none hp hline
    obtain ⟨-, text, -, hst⟩ := mem_statements_iff.1 hst
    have hreads := Statement.readsFrom_ofLine text
    rw [hst] at hreads
    obtain ⟨hsender, hreceiver⟩ := Message.isName_of_ofLine? hreads
    have hisName : Message.isName name = true := by
      rcases hname with rfl | rfl <;> assumption
    refine ⟨_, rfl, fun w hw => ⟨blockStep_declaration hisName hw, fun hopening => ?_⟩⟩
    obtain ⟨hne, hsolid⟩ := isName_iff.1 hisName
    have hwritable : Participant.IsWritable (declarationOf { name }) := ⟨hne, hsolid, hopening, by rintro _ ⟨⟩⟩
    rw [Statement.ofLine_of_isBlank_append hw]
    exact hwritable.statement_render isBlank_nil

theorem exists_members (hunboxed : ∀ name ∈ names, ∃ p, (View.ofSource s).participant? name = some p ∧
    p.box = none) : ∃ members, names.mapM (requireUnboxed (View.ofSource s)) = .ok members ∧
      members.map (·.name) = names ∧
        ∀ p ∈ members, (View.ofSource s).participant? p.name = some p := by
  have hrequire : ∀ name ∈ names, ∃ p, requireUnboxed (View.ofSource s) name = .ok p ∧
      (View.ofSource s).participant? name = some p := by
    intro name hname
    obtain ⟨p, hp, hbox⟩ := hunboxed name hname
    refine ⟨p, ?_, hp⟩
    simp [requireUnboxed, requireParticipant, hp, hbox, bind, Except.bind, pure, Except.pure]
  obtain ⟨members, hmembers, hall⟩ := exists_mapM_eq_ok hrequire
  have hnames : members.map (·.name) = names :=
    (map_eq_map_of_forall₂ (f := id) (hall.imp fun _ _ => View.name_of_participant?)).trans (List.map_id _)
  refine ⟨members, hmembers, hnames, fun p hp => ?_⟩
  obtain ⟨name, -, hname⟩ := exists_of_forall₂ hall hp
  rwa [View.name_of_participant? hname]

/-- A participant that no declaration can name is in no box. -/
theorem box_of_opening (hopening : hasText Participant.settingsOpening name = true)
    (hp : (View.ofSource s).participant? name = some p) : p.box = none := by
  cases hline : p.line with
  | some i =>
    obtain ⟨-, text, -, hst⟩ := mem_statements_iff.1 (View.declared_of_line hp hline)
    have hreads := Statement.readsFrom_ofLine text
    rw [hst] at hreads
    have hno := Participant.opening_of_ofLine? hreads
    rw [View.name_of_participant? hp, hopening] at hno
    cases hno
  | none =>
    obtain ⟨rfl, -⟩ := View.named_of_line_eq_none hp hline
    rfl

/-! ## The place -/

theorem bodyIndex_le_declarationSlot (s : Source) :
    s.bodyIndex .sequence ≤ declarationSlot (View.ofSource s) := by
  cases hd : s.declarationOf? .sequence with
  | none =>
    rw [bodyIndex, hd]
    exact Nat.zero_le _
  | some d =>
    obtain ⟨front, line, hdeclares⟩ := exists_declares_of_declarationOf? hd
    rw [bodyIndex, hdeclares.declarationOf?]
    exact Nat.succ_le_of_lt (lt_declarationSlot hdeclares)

/-- A box goes to a line of the body in front of which nothing is deleted. -/
theorem exists_boxSlot {moved : List Nat} (hmoved : ∀ i ∈ moved, s.bodyIndex .sequence ≤ i ∧ i < s.length) :
    ∃ k, moved.min?.getD (declarationSlot (View.ofSource s)) = s.bodyIndex .sequence + k ∧
      s.bodyIndex .sequence + k ≤ s.lines.length ∧ ∀ i ∈ moved, s.bodyIndex .sequence + k ≤ i := by
  cases hmin : moved.min? with
  | none =>
    obtain ⟨k, hk⟩ := Nat.exists_eq_add_of_le (bodyIndex_le_declarationSlot s)
    obtain rfl := List.min?_eq_none_iff.1 hmin
    exact ⟨k, hk, hk ▸ declarationSlot_le s, nofun⟩
  | some i =>
    obtain ⟨hi, hleast⟩ := List.min?_eq_some_iff.1 hmin
    obtain ⟨hle, hlt⟩ := hmoved i hi
    obtain ⟨k, rfl⟩ := Nat.exists_eq_add_of_le hle
    exact ⟨k, rfl, Nat.le_of_lt hlt, hleast⟩

/-! ## The new source -/

/-- The lines of the box. -/
theorem exists_block (hw : IsBlank indent) (hlabel : nonBlank? label = some shown) (hquote : '"' ∉ shown)
    (hcolor : ∀ text ∈ color, BoxHeader.IsColorName text)
    (hmembers : ∀ p ∈ members, (View.ofSource s).participant? p.name = some p) :
    ∃ header texts, members.mapM (declarationText s) = .ok texts ∧
      Statement.ofLine (boxHeader indent label color) = .boxOpen header ∧
      (∀ line ∈ texts.map fun text => indent ++ indentStep ++ text, blockStep blockRules line = .stay) ∧
      ((∀ p ∈ members, hasText Participant.settingsOpening p.name = false) →
        (texts.map fun text => indent ++ indentStep ++ text).map Statement.ofLine =
          (members.map declarationOf).map .participant) ∧
      Statement.ofLine (indent ++ "end".toList) = .blockEnd ∧
      ((header.color = color ∧ header.label = some shown) ↔ KeepsHeader color shown) := by
  obtain ⟨header, hheader, hkeeps⟩ := exists_ofLine?_boxHeader hw hlabel hquote hcolor
  obtain ⟨texts, htexts, hall⟩ := exists_mapM_eq_ok fun p hp => exists_declarationText (hmembers p hp)
  have hstep := hw.append isBlank_indentStep
  refine ⟨header, texts, htexts, Statement.ofLine_of_boxHeader hheader, ?_, fun hopening => ?_, ?_, hkeeps⟩
  · rw [List.forall_mem_map]
    intro text htext
    obtain ⟨p, -, hp⟩ := exists_of_forall₂ hall htext
    exact (hp _ hstep).1
  · rw [List.map_map, List.map_map]
    refine map_eq_map_of_forall₂ (List.forall₂_iff_get.2 ⟨hall.length_eq, fun i hi hi' => ?_⟩)
    exact (hall.get hi hi' _ hstep).2 (hopening _ (List.get_mem ..))
  · rw [Statement.ofLine_of_isBlank_append hw]
    decide

/-- The view has one more box, with the participants in it; everything else is what it was, with its lines
moved, and of the other lines the order stays. -/
structure AddsBox (k : Nat) (b : BoxRecord) (names : List Text) (f : Nat → Nat) (v v' : View) : Prop where
  position : k ≤ v.boxes.length
  boxes : v'.boxes = ((v.moved f).withBox k b).boxes
  members : ∀ name ∈ names, ∃ p line, v.participant? name = some p ∧
    v'.participant? name = some { p with line := some line, box := some k }
  others : ∀ name ∉ names, v'.participant? name = (v.participant? name).map fun p => (p.moved f).behind k
  messages : v'.messages = v.messages.map (·.moved f)
  notes : v'.notes = v.notes.map (·.moved f)
  fragments : v'.fragments = v.fragments.map (·.moved f)
  order : ∀ i j, (∀ name ∈ names, (v.participant? name).bind (·.line) ≠ some i) → i < j → f i < f j

/-- There is one way to add a box, as far as its color and its label go. -/
theorem AddsBox.header_eq {k k' : Nat} {b b' : BoxRecord} {f f' : Nat → Nat} {v v' : View}
    (h : AddsBox k b names f v v') (h' : AddsBox k' b' names f' v v') :
    (b.color, b.label) = (b'.color, b'.label) := by
  have hboxes := congrArg (List.map fun b => (b.color, b.label)) (h.boxes.symm.trans h'.boxes)
  rw [View.map_boxes_withBox, View.map_boxes_withBox] at hboxes
  refine eq_of_insertIdx ?_ ?_ hboxes
  · exact h.position.trans_eq (List.length_map _).symm
  · exact h'.position.trans_eq (List.length_map _).symm

/-- The line declares none of the members, as far as what counts goes. -/
def isKept (members : List ParticipantRecord) (i : Nat) : Bool :=
  !(members.filterMap (·.line)).contains i

theorem isKept_iff {i : Nat} : isKept members i = true ↔ i ∉ members.filterMap (·.line) := by
  rw [isKept, Bool.not_eq_true', ← Bool.not_eq_true, List.contains_iff_mem]

theorem exists_of_not_isKept {i : Nat} (h : isKept members i = false) :
    ∃ p ∈ members, p.line = some i := by
  rw [← Bool.not_eq_true, isKept_iff, not_not] at h
  exact List.mem_filterMap.1 h

section Boxed

variable {k : Nat} {header : BoxHeader} {opener closer : Text} {texts : List Text}
  (hmembers : ∀ p ∈ members, (View.ofSource s).participant? p.name = some p)
  (hopener : Statement.ofLine opener = .boxOpen header)
  (hcloser : Statement.ofLine closer = .blockEnd)
  (hlines : s'.lines =
    (s.deleteLineSet (members.filterMap (·.line))).lines.take (s.bodyIndex .sequence + k) ++
      (opener :: texts ++ [closer]) ++
        (s.deleteLineSet (members.filterMap (·.line))).lines.drop (s.bodyIndex .sequence + k))

include hmembers hopener hcloser hlines

/-- The box is a whole block, and the lines that it takes the place of are about no block. -/
theorem checkBalance_of_lines (hinner : ∀ line ∈ texts, blockStep blockRules line = .stay)
    (hbalance : s.checkBalance blockRules = .ok ()) : s'.checkBalance blockRules = .ok () := by
  have hopen : blockStep blockRules opener = .enter := by
    rw [← Statement.blockStep_ofLine, hopener]
    rfl
  have hclose : blockStep blockRules closer = .leave := by
    rw [← Statement.blockStep_ofLine, hcloser]
    rfl
  have hgone : ∀ p ∈ numbered 0 s.lines, isKept members p.1 = false →
      blockStep blockRules p.2 = .stay := by
    intro p hp hkeep
    obtain ⟨m, hm, hline⟩ := exists_of_not_isKept hkeep
    obtain ⟨-, text, htext, hst⟩ := mem_statements_iff.1 (View.declared_of_line (hmembers m hm) hline)
    obtain rfl := Option.some.inj ((mem_numbered.1 hp).2.symm.trans htext)
    rw [← Statement.blockStep_ofLine, hst]
    rfl
  rw [checkBalance_eq_ok_iff] at hbalance ⊢
  rw [hlines, depthAfter?_insert (depthAfter?_block hopen hinner hclose), List.take_append_drop,
    lines_deleteLineSet]
  refine (depthAfter?_map_filter (fun _ _ _ => rfl) hgone 0).trans ?_
  rw [map_snd_numbered]
  exact hbalance

variable (hle : s.bodyIndex .sequence + k ≤ s.lines.length)
  (hfront : ∀ i ∈ members.filterMap (·.line), s.bodyIndex .sequence + k ≤ i)
  (htexts : texts.map Statement.ofLine = (members.map declarationOf).map .participant)

include hle hfront htexts

theorem isBoxed_of_lines (hdecl : s'.declarationOf? .sequence = s.declarationOf? .sequence) :
    IsBoxed s s' (isKept members) k header (members.map declarationOf) := by
  have hkeep : ∀ i < s.bodyIndex .sequence + k, isKept members i = true := fun i hi =>
    isKept_iff.2 fun hmem => absurd (hfront i hmem) (Nat.not_le.2 hi)
  refine ⟨hdecl, hle, hkeep, ⟨opener, texts, closer, hopener, htexts, hcloser, ?_⟩, ?_, ?_⟩
  · rw [hlines, lines_deleteLineSet]
    exact congrArg (· ++ _ ++ _) (take_map_filter hkeep hle)
  · intro p hp hgone
    obtain ⟨m, hm, hline⟩ := exists_of_not_isKept hgone
    have hdeclared := View.declared_of_line (hmembers m hm) hline
    exact ⟨declarationOf m, statement_unique hp hdeclared, List.mem_map_of_mem (List.mem_map_of_mem hm)⟩
  · -- The line of a member is that of its first declaration, and it is not in front of the box.
    intro line d hmem hname
    obtain ⟨p, i, hp, hline, hlt⟩ := View.line_lt_of_mem_statementsBefore hle hmem
    obtain ⟨_, hdeclaration, heq⟩ := List.mem_map.1 hname
    obtain ⟨m, hm, rfl⟩ := List.mem_map.1 hdeclaration
    have hsame : (View.ofSource s).participant? d.name = some m := heq ▸ hmembers m hm
    obtain rfl := Option.some.inj (hp.symm.trans hsame)
    exact absurd (hfront i (List.mem_filterMap.2 ⟨p, hm, hline⟩)) (Nat.not_le.2 hlt)

/-- The box is the one that the header opens. -/
theorem addsBox_of_lines (hnodup : names.Nodup) (hnames : members.map (·.name) = names)
    (hdecl : s'.declarationOf? .sequence = s.declarationOf? .sequence) :
    AddsBox (readerAt s k).view.boxes.length (newBox s k members.length header) names
      (boxedLine s (isKept members) k members.length) (View.ofSource s) (View.ofSource s') := by
  have hboxed := isBoxed_of_lines hmembers hopener hcloser hlines hle hfront htexts hdecl
  have hnames' : (members.map declarationOf).map (·.name) = names := by
    rw [List.map_map]
    exact hnames
  have hlength : (members.map declarationOf).length = members.length := List.length_map _
  obtain ⟨hfragments, hboxes⟩ := hboxed.blocks
  rw [hlength] at hfragments hboxes
  refine ⟨?_, hboxes, fun name hname => ?_, fun name hname => ?_, ?_, ?_, hfragments, fun i j hi hij => ?_⟩
  · rw [View.ofSource_eq_run, hboxed.run_statements, Reader.length_boxes_run]
    exact Nat.le_add_right _ _
  · rw [← hnames] at hname
    obtain ⟨p, hp, rfl⟩ := List.mem_map.1 hname
    obtain ⟨line, hline⟩ := hboxed.participant?_of_mem (hnames'.symm ▸ hnodup) (List.mem_map_of_mem hp)
    exact ⟨p, line, hmembers p hp, hline⟩
  · rw [← hnames'] at hname
    exact hlength ▸ hboxed.participant?_of_notMem hname
  · exact hlength ▸ hboxed.messages
  · exact hlength ▸ hboxed.notes
  · refine moveDown_lt_moveDown _ _ (rank_lt_rank (isKept_iff.2 fun hmem => ?_) hij)
    obtain ⟨p, hp, hline⟩ := List.mem_filterMap.1 hmem
    refine hi p.name (hnames ▸ List.mem_map_of_mem hp) ?_
    rw [hmembers p hp]
    exact hline

end Boxed

/-- A box is put around participants that are in none. This succeeds and leaves the declaration of the
diagram where it is. Then there is one more box with these participants in it, and everything else is what
it was, if and only if all the names are names that can be declared. The box has the color and the label
that it is to have if and only if the header keeps them. -/
theorem applyOps_addBox (hbalance : s.checkBalance blockRules = .ok ()) (hnodup : names.Nodup)
    (hunboxed : ∀ name ∈ names, ∃ p, (View.ofSource s).participant? name = some p ∧ p.box = none)
    (hcolor : ∀ text ∈ color, BoxHeader.IsColorName text) (hlabel : nonBlank? label = some shown)
    (hquote : '"' ∉ shown) (earlier : Option Handle) (ids : IdAllocator) : ∃ s',
      applyOps .sequence [.sequence (.addBox label color names)] ⟨s, earlier⟩ ids =
          (.ok ⟨s', earlier⟩, ids) ∧
        ((s.declarationOf? .sequence).isSome = true →
          s'.declarationOf? .sequence = s.declarationOf? .sequence) ∧
        (s'.declarationOf? .sequence = s.declarationOf? .sequence →
          ((∃ k b f, AddsBox k b names f (View.ofSource s) (View.ofSource s')) ↔
            ∀ name ∈ names, hasText Participant.settingsOpening name = false) ∧
          ∀ k b f, AddsBox k b names f (View.ofSource s) (View.ofSource s') →
            ((b.color = color ∧ b.label = some shown) ↔ KeepsHeader color shown)) := by
  obtain ⟨members, hmapM, hnames, hmembers⟩ := exists_members hunboxed
  obtain ⟨header, texts, htextsM, hopener, hinner, htexts, hcloser, hkeeps⟩ :=
    exists_block (isBlank_bodyIndent (View.ofSource s).declarationLine s) hlabel hquote hcolor hmembers
  have hmoved : ∀ i ∈ members.filterMap (·.line), s.bodyIndex .sequence ≤ i ∧ i < s.length := by
    intro i hi
    obtain ⟨p, hp, hline⟩ := List.mem_filterMap.1 hi
    obtain ⟨hle, text, htext, -⟩ := mem_statements_iff.1 (View.declared_of_line (hmembers p hp) hline)
    exact ⟨hle, (List.getElem?_eq_some_iff.1 htext).1⟩
  obtain ⟨k, hslot, hle, hfront⟩ := exists_boxSlot hmoved
  obtain ⟨s', hinsert⟩ : ∃ s', insertLines (s.bodyIndex .sequence + k)
      (boxHeader (bodyIndent (View.ofSource s).declarationLine s) label color ::
        (texts.map fun text => bodyIndent (View.ofSource s).declarationLine s ++ indentStep ++ text) ++
          [bodyIndent (View.ofSource s).declarationLine s ++ "end".toList])
      (s.deleteLineSet (members.filterMap (·.line))) = .ok s' := by
    rw [insertLines, Source.insertLines, if_pos (le_length_deleteLineSet hle hfront)]
    exact ⟨_, rfl⟩
  have hlines := congrArg Source.lines (insertLines_eq_ok hinsert).2
  have hbox : addBox label color names s = .ok { source := s' } := by
    rw [addBox]
    simp only [hmapM, htextsM, hslot, hinsert, bind, Except.bind]
    rfl
  have hop : applyOp .sequence (.sequence (.addBox label color names)) s ids =
      (.ok { source := s' }, ids) :=
    congrArg (·, ids) hbox
  have hadds : (∀ name ∈ names, hasText Participant.settingsOpening name = false) →
      s'.declarationOf? .sequence = s.declarationOf? .sequence →
        AddsBox (readerAt s k).view.boxes.length (newBox s k members.length header) names
          (boxedLine s (isKept members) k members.length) (View.ofSource s) (View.ofSource s') :=
    fun hopening hdecl => addsBox_of_lines hmembers hopener hcloser hlines hle hfront
      (htexts fun p hp => hopening p.name (hnames ▸ List.mem_map_of_mem hp)) hnodup hnames hdecl
  -- The participants are in a box now, and of those that cannot be declared none is in any.
  have hopening : ∀ {k' b f}, AddsBox k' b names f (View.ofSource s) (View.ofSource s') →
      ∀ name ∈ names, hasText Participant.settingsOpening name = false := by
    intro k' b f h name hname
    obtain ⟨p, line, -, hp⟩ := h.members name hname
    by_contra hno
    cases box_of_opening (Bool.not_eq_false _ ▸ hno) hp
  refine ⟨s', applyOps_singleton_of_isBalanced hop (fun _ => ?_) earlier, fun hdecl => ?_,
    fun hdecl => ⟨⟨?_, fun h => ⟨_, _, _, hadds h hdecl⟩⟩, fun k' b f h => ?_⟩⟩
  · have hbalance' := checkBalance_of_lines hmembers hopener hcloser hlines hinner hbalance
    rw [isBalanced, show Kind.sequence.blockRules = blockRules from rfl, hbalance']
    rfl
  · obtain ⟨d, hd⟩ := Option.isSome_iff_exists.1 hdecl
    obtain ⟨front, line, hdeclares⟩ := exists_declares_of_declarationOf? hd
    exact (addBox_declares hdeclares names _ hbox).declarationOf?.trans hdeclares.declarationOf?.symm
  · rintro ⟨_, _, _, h⟩
    exact hopening h
  · obtain ⟨hcolor', hlabel'⟩ := Prod.mk.inj (h.header_eq (hadds (hopening h) hdecl))
    rw [hcolor', hlabel']
    exact hkeeps

/-- One participant is declared with a label, behind the other one that only messages name, and there are
a box in front of it, a fragment and a note. -/
theorem applyOps_addBox_scattered :
    let s : Source := .ofText ("sequenceDiagram\nbox red\nactor C\nend\nB->>A: hi\nparticipant A as X\n" ++
      "loop y\nC->>B: z\nend\nbox\nparticipant D\nend\nNote over A,C: n").toList
    let label : Text := " my box ".toList
    let shown : Text := "my box".toList
    let color : Option Text := some "#eee".toList
    let names : List Text := [['A'], ['B']]
    s.checkBalance blockRules = .ok () ∧ names.Nodup ∧
      (∀ name ∈ names, ∃ p, (View.ofSource s).participant? name = some p ∧ p.box = none) ∧
      (∀ text ∈ color, BoxHeader.IsColorName text) ∧ nonBlank? label = some shown ∧ '"' ∉ shown ∧
      (s.declarationOf? .sequence).isSome = true ∧ KeepsHeader color shown ∧
      (∀ name ∈ names, hasText Participant.settingsOpening name = false) ∧ ∃ s',
        applyOps .sequence [.sequence (.addBox label color names)] ⟨s, none⟩ {} =
            (.ok ⟨s', none⟩, {}) ∧
          ((s.declarationOf? .sequence).isSome = true →
            s'.declarationOf? .sequence = s.declarationOf? .sequence) ∧
          (s'.declarationOf? .sequence = s.declarationOf? .sequence →
            ((∃ k b f, AddsBox k b names f (View.ofSource s) (View.ofSource s')) ↔
              ∀ name ∈ names, hasText Participant.settingsOpening name = false) ∧
            ∀ k b f, AddsBox k b names f (View.ofSource s) (View.ofSource s') →
              ((b.color = color ∧ b.label = some shown) ↔ KeepsHeader color shown)) := by
  intro s label shown color names
  have hbalance : s.checkBalance blockRules = .ok () := by decide +kernel
  have hnodup : names.Nodup := by decide +kernel
  have hunboxed : ∀ name ∈ names, ∃ p, (View.ofSource s).participant? name = some p ∧ p.box = none := by
    have hbox : ∀ name ∈ names, ((View.ofSource s).participant? name).map (·.box) = some none := by
      decide +kernel
    exact fun name hname => Option.map_eq_some_iff.1 (hbox name hname)
  have hcolor : ∀ text ∈ color, BoxHeader.IsColorName text := by decide +kernel
  have hlabel : nonBlank? label = some shown := by decide +kernel
  have hquote : '"' ∉ shown := by decide +kernel
  exact ⟨hbalance, hnodup, hunboxed, hcolor, hlabel, hquote, by decide +kernel, by decide +kernel,
    by decide +kernel, applyOps_addBox hbalance hnodup hunboxed hcolor hlabel hquote none {}⟩

/-- A label that is one word is read as a color, and a quote is read where the label has its entity. A name
that cannot be declared is put into no box. Without the declaration in front of it a line may declare the
diagram, and the box between the fences is read no longer. -/
theorem not_applyOps_addBox :
    let s : Source := .ofText "sequenceDiagram\nparticipant A".toList
    let red : Source := .ofText "sequenceDiagram\nbox red\n    participant A\nend".toList
    let entity : Source := .ofText "sequenceDiagram\nbox a#quot;b\n    participant A\nend".toList
    let named : Source := .ofText "sequenceDiagram\nA@\x7b->>B: hi".toList
    let named' : Source := .ofText
      "sequenceDiagram\nbox x\n    participant A@\x7b\nend\nA@\x7b->>B: hi".toList
    let fenced : Source := .ofText "---\nparticipant A\n---\nparticipant B\nsequenceDiagram".toList
    let fenced' : Source := .ofText
      "---\nbox x\n    participant A\n    participant B\nend\n---\nsequenceDiagram".toList
    (applyOps .sequence [.sequence (.addBox "red".toList none [['A']])] ⟨s, none⟩ {}).1 =
        .ok ⟨red, none⟩ ∧
      (View.ofSource red).boxes.map (fun b => (b.color, b.label)) = [(some "red".toList, none)] ∧
      (applyOps .sequence [.sequence (.addBox "a#quot;b".toList none [['A']])] ⟨s, none⟩ {}).1 =
        .ok ⟨entity, none⟩ ∧
      (View.ofSource entity).boxes.map (·.label) = [some "a\"b".toList] ∧
      (applyOps .sequence [.sequence (.addBox ['x'] none ["A@\x7b".toList])] ⟨named, none⟩ {}).1 =
        .ok ⟨named', none⟩ ∧
      (View.ofSource named').participants.map (fun p => (p.name, p.box)) =
        [("A@\x7b".toList, none), (['B'], none)] ∧
      (applyOps .sequence [.sequence (.addBox ['x'] none [['A'], ['B']])] ⟨fenced, none⟩ {}).1 =
        .ok ⟨fenced', none⟩ ∧
      (View.ofSource fenced).participants.map (fun p => (p.name, p.box)) = [(['A'], none), (['B'], none)] ∧
      (View.ofSource fenced').participants = [] ∧ (View.ofSource fenced').boxes = [] := by
  decide +kernel

end DiagramEditor.Edit.Sequence
