import DiagramEditor.Proofs.Edit.Batch
import DiagramEditor.Proofs.Sequence.Line
import DiagramEditor.Proofs.Sequence.Participants
import DiagramEditor.Proofs.Source.Depth
import DiagramEditor.Proofs.Source.Reload
import Mathlib.Data.List.InsertIdx

/-!
# Messages are the entries of a list

Where all participants are named by identifiers, a line that is written for a message is read as this
message, whatever else begins with its first letters. So a new message is the last one, and a changed
one stays where it was; notes, fragments and boxes do not change (`applyOps_message`).

A deleted line makes the lines behind it move up, and in a source that does not declare the diagram it
may do more: the next line may declare it, and then nothing in front of that line is read any more. A
deletion leaves out exactly one message if and only if there is nothing on such lines.
-/

namespace DiagramEditor.Edit.Sequence

open DiagramEditor.Sequence Source Text

variable {s s' : Source} {name : Text} {m : Message} {r : MessageRecord} {index : Nat}

/-- Notes, fragments and boxes are what they were, with their lines moved. -/
structure KeepsOthers (f : Nat → Nat) (v v' : View) : Prop where
  notes : v'.notes = v.notes.map (·.moved f)
  fragments : v'.fragments = v.fragments.map (·.moved f)
  boxes : v'.boxes = v.boxes.map (·.moved f)

theorem requireParticipant_of_mem {v : View} (h : name ∈ v.names) :
    ∃ p, requireParticipant v name = .ok p := by
  obtain ⟨p, hp⟩ := Option.isSome_iff_exists.1 (View.mem_names_iff_isSome.1 h)
  exact ⟨p, by rw [requireParticipant, hp]⟩

theorem requireMessage_of_eq {v : View} (h : v.message? index = some r) :
    requireMessage v index = .ok r := by
  rw [requireMessage, h]

/-! ## Written lines -/

theorem keepsOthers_id {v v' : View} (hnotes : v'.notes = v.notes)
    (hblocks : v'.fragments = v.fragments ∧ v'.boxes = v.boxes) : KeepsOthers id v v' where
  notes := hnotes.trans (List.map_id v.notes).symm
  fragments := by
    have hid : FragmentRecord.moved id = id := by
      funext b
      simp [FragmentRecord.moved, BlockSpan.moved]
    rw [hblocks.1, hid, List.map_id]
  boxes := hblocks.2.trans (List.map_id v.boxes).symm

/-- The first word of a message declares nothing. -/
theorem ofKeyword?_firstWord (h : m.IsWritable) {w : Text} (hw : IsBlank w) :
    Kind.ofKeyword? (firstWord (trim (m.render w))) = none := by
  rw [h.firstWord_render hw, Kind.ofKeyword?, List.lookup_eq_none_iff]
  have hall : Kind.keywords.all (fun p => !p.1.contains ':') = true := by decide
  intro p hp
  have hcolon := List.all_eq_true.1 hall p hp
  rw [bne_iff_ne]
  intro heq
  simp [← heq] at hcolon

theorem blockStep_render (h : m.IsWritable) {w : Text} (hw : IsBlank w) :
    blockStep blockRules (m.render w) = .stay := by
  rw [← Statement.blockStep_ofLine, h.statement_render hw]
  rfl

/-! ## A message that is added -/

section Add

variable {text : Text} (htext : Statement.ofLine text = .message m)
  (hdecl : (s.pushLine text).declarationOf? .sequence = s.declarationOf? .sequence)

include htext hdecl

theorem messages_pushLine : (View.ofSource (s.pushLine text)).messages =
    (View.ofSource s).messages ++ [⟨(View.ofSource s).messages.length, s.length, m⟩] := by
  rw [View.messages_ofSource, View.messages_ofSource, statements_pushLine hdecl, said_append,
    List.mapIdx_append, List.length_mapIdx, htext, said_message_cons]
  simp

theorem keepsOthers_pushLine :
    KeepsOthers id (View.ofSource s) (View.ofSource (s.pushLine text)) := by
  refine keepsOthers_id ?_ (View.blocks_eq ?_)
  · rw [View.notes_ofSource, View.notes_ofSource, statements_pushLine hdecl, said_append, htext]
    exact congrArg _ (List.append_nil _)
  · rw [statements_pushLine hdecl, List.filter_append, htext]
    exact List.append_nil _

end Add

/-! ## A message that is changed -/

/-- Where a message stands in the source. -/
theorem exists_line_of_message (hr : (View.ofSource s).message? index = some r) :
    s.bodyIndex .sequence ≤ r.line ∧ ∃ text, s.lines[r.line]? = some text ∧
      Statement.ofLine text = .message r.message := by
  obtain ⟨before, after, hsts, -⟩ := View.exists_split_of_message hr
  refine mem_statements_iff.1 (hsts ▸ ?_)
  simp

/-- The source with another line for one. -/
def withLine (i : Nat) (text : Text) (s : Source) : Source :=
  { s with lines := s.lines.set i text }

section Update

variable {text : Text} (hr : (View.ofSource s).message? index = some r)
  (htext : Statement.ofLine text = .message m)

include hr htext

theorem forall₂_withLine : List.Forall₂ (fun a b => b = a ∨ ∃ word, BeginsWith word a ∧
    BeginsWith (firstWord (trim text)) b ∧ blockStep blockRules b = blockStep blockRules a)
      s.lines (withLine r.line text s).lines := by
  obtain ⟨-, old, hold, hstatement⟩ := exists_line_of_message hr
  refine forall₂_set (fun _ => .inl rfl) hold (.inr ⟨firstWord (trim old), ?_, ?_, ?_⟩)
  · exact Statement.beginsWith_of_ofLine (by simp [hstatement]) (by simp [hstatement])
  · exact Statement.beginsWith_of_ofLine (by simp [htext]) (by simp [htext])
  · rw [← Statement.blockStep_ofLine, ← Statement.blockStep_ofLine, htext, hstatement]
    rfl

theorem checkBalance_withLine :
    (withLine r.line text s).checkBalance blockRules = s.checkBalance blockRules := by
  refine checkBalanceFrom_congr ((forall₂_withLine hr htext).imp ?_) 0 []
  rintro a b (rfl | ⟨_, -, -, hstep⟩)
  exacts [rfl, hstep]

variable (hword : Kind.ofKeyword? (firstWord (trim text)) = none)

include hword

theorem declarationOf?_withLine :
    (withLine r.line text s).declarationOf? .sequence = s.declarationOf? .sequence := by
  cases hdecl : s.declarationOf? .sequence with
  | none =>
    refine declarationOf?_eq_none_of_beginsWith ((forall₂_withLine hr htext).imp ?_) hdecl
    rintro a b (hab | ⟨word, ha, hb, -⟩)
    exacts [.inl hab, .inr ⟨word, _, ha, hb, by simp [hword]⟩]
  | some d =>
    obtain ⟨front, line, hdeclares⟩ := exists_declares_of_declarationOf? hdecl
    obtain rfl := Option.some.inj (hdeclares.declarationOf?.symm.trans hdecl)
    obtain ⟨hle, old, hold, -⟩ := exists_line_of_message hr
    rw [bodyIndex, hdecl] at hle
    have hlt := (List.getElem?_eq_some_iff.1 hold).1
    have hreplace : replaceLine r.line text s = .ok (withLine r.line text s) := by
      rw [replaceLine, Source.replaceLine, Source.length, if_pos hlt]
      rfl
    exact (replaceLine_declares hdeclares hle _ hreplace).declarationOf?

theorem exists_statements_withLine : ∃ before after,
    statements s = before ++ (r.line, .message r.message) :: after ∧
      statements (withLine r.line text s) = before ++ (r.line, .message m) :: after ∧
      (said Statement.message? before).length = index := by
  obtain ⟨before, after, hsts, hlength⟩ := View.exists_split_of_message hr
  refine ⟨before, after, hsts, ?_, hlength⟩
  rw [statements_set (declarationOf?_withLine hr htext hword) (exists_line_of_message hr).1 rfl, hsts,
    htext]
  exact map_update (hsts ▸ nodup_map_fst_statements s) _

theorem messages_withLine : (View.ofSource (withLine r.line text s)).messages =
    (View.ofSource s).messages.modify index fun r => { r with message := m } := by
  obtain ⟨before, after, hsts, hsts', rfl⟩ := exists_statements_withLine hr htext hword
  rw [View.messages_ofSource, View.messages_ofSource, hsts, hsts', said_append, said_append,
    said_message_cons, said_message_cons,
    ← modify_append_cons (f := fun p : Nat × Message => (p.1, m)) _ (r.line, r.message)]
  refine mapIdx_modify (fun i p => ?_) _ _
  rfl

theorem keepsOthers_withLine :
    KeepsOthers id (View.ofSource s) (View.ofSource (withLine r.line text s)) := by
  obtain ⟨before, after, hsts, hsts', -⟩ := exists_statements_withLine hr htext hword
  refine keepsOthers_id ?_ (View.blocks_eq ?_)
  · rw [View.notes_ofSource, View.notes_ofSource, hsts, hsts', said_append, said_append, said_cons,
      said_cons]
    rfl
  · rw [hsts, hsts', List.filter_append, List.filter_append]
    rfl

end Update

/-! ## A message that is deleted -/

/-- Where a line goes if the line `i` is deleted. -/
def lineWithout (i j : Nat) : Nat :=
  if i < j then j - 1 else j

/-- Exactly one message is gone. -/
structure RemovesMessage (index : Nat) (f : Nat → Nat) (v v' : View) : Prop
    extends KeepsOthers f v v' where
  messages : (v'.messages.map fun r => (r.line, r.message)) =
    (v.messages.eraseIdx index).map fun r => (f r.line, r.message)

section Delete

variable (hr : (View.ofSource s).message? index = some r)

include hr

/-- A declaration that is there stays. -/
theorem declarationOf?_deleteLine {d : Nat} (hd : s.declarationOf? .sequence = some d) :
    (s.deleteLineSet [r.line]).declarationOf? .sequence = some d := by
  obtain ⟨front, line, hdeclares⟩ := exists_declares_of_declarationOf? hd
  obtain rfl := Option.some.inj (hdeclares.declarationOf?.symm.trans hd)
  have hlt := (isWithin_of_declares hdeclares).messages r (List.mem_of_getElem? hr)
  refine (deleteLineSet_declares hdeclares fun i hi => ?_).declarationOf?
  rw [List.mem_singleton.1 hi]
  exact hlt

theorem bodyIndex_deleteLine :
    s.bodyIndex .sequence ≤ (s.deleteLineSet [r.line]).bodyIndex .sequence :=
  bodyIndex_le_bodyIndex fun _ => declarationOf?_deleteLine hr

theorem statementsAt_deleteLine :
    statementsAt (s.bodyIndex .sequence) (s.deleteLineSet [r.line]) =
      ((statements s).filter fun p => ! [r.line].contains p.1).map fun p =>
        (lineWithout r.line p.1, p.2) := by
  have hle := (exists_line_of_message hr).1
  rw [statementsAt_map_filter (! [r.line].contains ·) id (lines_deleteLineSet [r.line] s)
    (fun i hi => ?_) fun _ _ _ => rfl]
  · refine List.map_congr_left fun p _ => Prod.ext ?_ rfl
    exact rank_ne r.line p.1
  · simpa using Nat.ne_of_lt (Nat.lt_of_lt_of_le hi hle)

theorem said_deleteLine {α : Type} (part : Statement → Option α) :
    said part (statementsAt (s.bodyIndex .sequence) (s.deleteLineSet [r.line])) =
      ((said part (statements s)).filter fun p => ! [r.line].contains p.1).map fun p =>
        (lineWithout r.line p.1, p.2) := by
  rw [statementsAt_deleteLine hr]
  exact said_map_filter (! [r.line].contains ·) id id fun p _ _ => by simp

theorem said_message_deleteLine :
    said Statement.message? (statementsAt (s.bodyIndex .sequence) (s.deleteLineSet [r.line])) =
      ((said Statement.message? (statements s)).eraseIdx index).map fun p =>
        (lineWithout r.line p.1, p.2) := by
  obtain ⟨before, after, hsts, rfl⟩ := View.exists_split_of_message hr
  have hsaid : said Statement.message? (statements s) = said Statement.message? before ++
      (r.line, r.message) :: said Statement.message? after := by
    rw [hsts, said_append, said_message_cons]
  have hnodup : ((said Statement.message? (statements s)).map Prod.fst).Nodup :=
    (map_fst_said_sublist _ _).nodup (nodup_map_fst_statements s)
  rw [hsaid] at hnodup
  rw [said_deleteLine hr, hsaid, filter_key hnodup, eraseIdx_append_cons]

/-- What is said besides messages is said as before. -/
theorem said_deleteLine_of_none {α : Type} {part : Statement → Option α}
    (h : part (.message r.message) = none) :
    said part (statementsAt (s.bodyIndex .sequence) (s.deleteLineSet [r.line])) =
      (said part (statements s)).map fun p => (lineWithout r.line p.1, p.2) := by
  rw [said_deleteLine hr, List.filter_eq_self.2]
  rintro ⟨i, a⟩ hp
  obtain ⟨st, hst, hpart⟩ := mem_said.1 hp
  simp only [List.contains_cons, List.contains_nil, Bool.or_false, Bool.not_eq_true',
    beq_eq_false_iff_ne]
  rintro rfl
  obtain ⟨before, after, hsts, -⟩ := View.exists_split_of_message hr
  have hmessage : (r.line, Statement.message r.message) ∈ statements s := by
    rw [hsts]
    exact List.mem_append_right _ List.mem_cons_self
  rw [statement_unique hst hmessage, h] at hpart
  cases hpart

theorem isBalanced_deleteLine (hbalance : isBalanced .sequence s = true) :
    isBalanced .sequence (s.deleteLineSet [r.line]) = true := by
  obtain ⟨-, text, htext, hstatement⟩ := exists_line_of_message hr
  rw [isBalanced_iff, Kind.blockRules, checkBalance_eq_ok_iff] at hbalance ⊢
  rw [lines_deleteLineSet, depthAfter?_map_filter (fun _ _ _ => rfl) fun p hp hgone => ?_,
    map_snd_numbered]
  · exact hbalance
  · obtain ⟨i, line⟩ := p
    obtain rfl : i = r.line := by simpa using hgone
    obtain rfl : line = text := Option.some.inj ((mem_numbered.1 hp).2.symm.trans htext)
    rw [← Statement.blockStep_ofLine, hstatement]
    rfl

/-- Exactly one message is gone, and everything else is there, if and only if no entry stands on a line
that is no longer read. -/
theorem removesMessage_iff : RemovesMessage index (lineWithout r.line) (View.ofSource s)
    (View.ofSource (s.deleteLineSet [r.line])) ↔
      ∀ text ∈ unreadLines .sequence s (s.deleteLineSet [r.line]),
        (Statement.ofLine text).isEntry = false := by
  have hle := bodyIndex_deleteLine hr
  refine ⟨fun h => (forall_isEntry_iff hle).2 ⟨?_, ?_, ?_, ?_⟩, fun h => ?_⟩
  · rw [said_message_deleteLine hr, ← View.map_messages_ofSource, ← View.map_messages_ofSource,
      h.messages, List.eraseIdx_map, List.length_map, List.length_map, List.length_map]
  · rw [said_deleteLine_of_none hr rfl, ← View.map_notes_ofSource, ← View.map_notes_ofSource, h.notes]
    simp
  · rw [said_deleteLine_of_none hr rfl, ← View.length_boxes_ofSource, h.boxes, List.length_map,
      List.length_map, View.length_boxes_ofSource]
  · rw [said_deleteLine_of_none hr rfl, ← View.length_fragments_ofSource, h.fragments, List.length_map,
      List.length_map, View.length_fragments_ofSource]
  have hentry := fun text htext => Statement.isEntry_eq_false_iff.1 (h text htext)
  have hgone : ∀ p ∈ statements s, (! [r.line].contains p.1) = false → p.2.isOnBlocks = false := by
    rintro ⟨i, st⟩ hp hgone
    obtain rfl : i = r.line := by simpa using hgone
    obtain ⟨before, after, hsts, -⟩ := View.exists_split_of_message hr
    rw [statement_unique hp (hsts ▸ List.mem_append_right _ List.mem_cons_self)]
    rfl
  obtain ⟨hfragments, hboxes⟩ := View.blocks_of_statementsAt (! [r.line].contains ·) id hle h
    (statementsAt_deleteLine hr) hgone (fun _ _ => rfl) fun _ h => h
  refine { notes := ?_, fragments := hfragments, boxes := hboxes, messages := ?_ }
  · rw [View.notes_ofSource, View.notes_ofSource,
      said_statements hle fun text htext => (hentry text htext).2.1, said_deleteLine_of_none hr rfl]
    refine mapIdx_map (fun i p => ?_) _
    rfl
  · rw [View.map_messages_ofSource, said_statements hle fun text htext => (hentry text htext).1,
      said_message_deleteLine hr, ← View.map_messages_ofSource, List.eraseIdx_map, List.map_map]
    rfl

end Delete

/-! ## The edits -/

/-- All participants are named by identifiers. -/
def HasIdentifiers (v : View) : Prop :=
  ∀ name ∈ v.names, Identifier.checkNode name = .ok ()

instance (v : View) : Decidable (HasIdentifiers v) :=
  inferInstanceAs (Decidable (∀ name ∈ v.names, Identifier.checkNode name = .ok ()))

section Edits

variable (hnames : HasIdentifiers (View.ofSource s)) (earlier : Option Handle) (ids : IdAllocator)

include hnames

/-- A message between participants can be written. -/
theorem isWritable_of_mem (hsender : m.sender ∈ (View.ofSource s).names)
    (hreceiver : m.receiver ∈ (View.ofSource s).names) (htext : IsTrimmed m.text) : m.IsWritable where
  sender := isIdent_of_checkNode (hnames _ hsender)
  receiver := isIdent_of_checkNode (hnames _ hreceiver)
  text := htext

theorem applyOps_addMessage {sender receiver : Text} (hsender : sender ∈ (View.ofSource s).names)
    (hreceiver : receiver ∈ (View.ofSource s).names) (arrow : MessageArrow) (text : Text) :
    ∃ s', applyOps .sequence [.sequence (.addMessage sender receiver arrow text)] ⟨s, earlier⟩ ids =
        (.ok ⟨s', some (.message (View.ofSource s).messages.length)⟩, ids) ∧
      (View.ofSource s').messages = (View.ofSource s).messages ++
        [⟨(View.ofSource s).messages.length, s.length, ⟨sender, receiver, arrow, none, trim text⟩⟩] ∧
      KeepsOthers id (View.ofSource s) (View.ofSource s') := by
  have hwritable : (Message.mk sender receiver arrow none (trim text)).IsWritable :=
    isWritable_of_mem hnames hsender hreceiver (isTrimmed_trim text)
  have hindent := isBlank_bodyIndent (View.ofSource s).declarationLine s
  have hstatement := hwritable.statement_render hindent
  have hdecl := (declarationOf?_pushLine .sequence s _).resolve_right fun hdecl =>
    absurd ((ofKeyword?_firstWord hwritable hindent).symm.trans hdecl.2) nofun
  obtain ⟨p, hp⟩ := requireParticipant_of_mem hsender
  obtain ⟨q, hq⟩ := requireParticipant_of_mem hreceiver
  refine ⟨_, applyOps_singleton_of_eq ?_ ?_ earlier, messages_pushLine hstatement hdecl,
    keepsOthers_pushLine hstatement hdecl⟩
  · rw [applyOp, apply, addMessage, hp, hq]
    rfl
  · exact checkBalance_pushLine (blockStep_render hwritable hindent) s

theorem isWritable_patched (hr : (View.ofSource s).message? index = some r) {patch : MessagePatch}
    (hsender : ∀ name ∈ patch.sender, name ∈ (View.ofSource s).names)
    (hreceiver : ∀ name ∈ patch.receiver, name ∈ (View.ofSource s).names) :
    (patched patch r.message).IsWritable := by
  obtain ⟨hle, old, hold, hstatement⟩ := exists_line_of_message hr
  have hreads := Statement.readsFrom_ofLine old
  rw [hstatement] at hreads
  have hmem : (r.line, Statement.message r.message) ∈ statements s :=
    mem_statements_iff.2 ⟨hle, old, hold, hstatement⟩
  have hends : ∀ name ∈ [r.message.sender, r.message.receiver], name ∈ (View.ofSource s).names :=
    fun name hname => View.mem_names_iff.2 (List.mem_flatMap.2 ⟨_, hmem, hname⟩)
  refine isWritable_of_mem hnames ?_ ?_ ?_
  · cases hpatch : patch.sender with
    | none => simpa [patched, hpatch] using hends _ List.mem_cons_self
    | some name => simpa [patched, hpatch] using hsender name hpatch
  · cases hpatch : patch.receiver with
    | none => simpa [patched, hpatch] using hends r.message.receiver (by simp)
    | some name => simpa [patched, hpatch] using hreceiver name hpatch
  · cases hpatch : patch.text with
    | none => simpa [patched, hpatch] using Message.isTrimmed_of_ofLine? hreads
    | some text => simpa [patched, hpatch] using isTrimmed_trim text

theorem applyOps_updateMessage (hindex : index < (View.ofSource s).messages.length)
    {patch : MessagePatch} (hsender : ∀ name ∈ patch.sender, name ∈ (View.ofSource s).names)
    (hreceiver : ∀ name ∈ patch.receiver, name ∈ (View.ofSource s).names) :
    ∃ s', applyOps .sequence [.sequence (.updateMessage index patch)] ⟨s, earlier⟩ ids =
        (.ok ⟨s', some (.message index)⟩, ids) ∧
      (View.ofSource s').messages = (View.ofSource s).messages.modify index
        (fun r => { r with message := patched patch r.message }) ∧
      KeepsOthers id (View.ofSource s) (View.ofSource s') := by
  have hr : (View.ofSource s).message? index = some (View.ofSource s).messages[index] :=
    List.getElem?_eq_getElem hindex
  generalize (View.ofSource s).messages[index] = r at hr
  have hwritable := isWritable_patched hnames hr hsender hreceiver
  obtain ⟨-, old, hold, -⟩ := exists_line_of_message hr
  have hindent := isBlank_indent old
  have hstatement := hwritable.statement_render hindent
  have hword := ofKeyword?_firstWord hwritable hindent
  refine ⟨_, applyOps_singleton_of_eq ?_ ?_ earlier, ?_, keepsOthers_withLine hr hstatement hword⟩
  · have hforM : ∀ name : Option Text, (∀ text ∈ name, text ∈ (View.ofSource s).names) →
        (name.forM fun name => discard (requireParticipant (View.ofSource s) name)) = .ok () := by
      rintro (_ | name) h
      · rfl
      · obtain ⟨p, hp⟩ := requireParticipant_of_mem (h name rfl)
        change discard (requireParticipant (View.ofSource s) name) = _
        rw [hp]
        rfl
    have hline : lineAt r.line s = .ok old := by rw [lineAt, Source.line?, hold]
    have hreplace : replaceLine r.line ((patched patch r.message).render (indent old)) s =
        .ok (withLine r.line ((patched patch r.message).render (indent old)) s) := by
      rw [replaceLine, Source.replaceLine, Source.length,
        if_pos (List.getElem?_eq_some_iff.1 hold).1]
      rfl
    rw [applyOp, apply, updateMessage, requireMessage_of_eq hr]
    simp only [bind, Except.bind, hforM _ hsender, hforM _ hreceiver, hline, hreplace]
    rfl
  · exact checkBalance_withLine hr hstatement
  · rw [messages_withLine hr hstatement hword]
    refine List.ext_getElem? fun j => ?_
    rw [List.getElem?_modify, List.getElem?_modify]
    split
    · next heq =>
      subst heq
      rw [show (View.ofSource s).messages[index]? = some r from hr]
      rfl
    · rfl

end Edits

theorem applyOps_deleteMessage (hr : (View.ofSource s).message? index = some r)
    (hlength : s.length < indexBound) (earlier : Option Handle) (ids : IdAllocator) :
    applyOps .sequence [.sequence (.deleteMessage index)] ⟨s, earlier⟩ ids =
      (.ok ⟨s.deleteLineSet [r.line], earlier⟩, ids) := by
  obtain ⟨-, old, hold, -⟩ := exists_line_of_message hr
  have hdelete := deleteLines_one (List.getElem?_eq_some_iff.1 hold).1 hlength
  refine applyOps_singleton_of_isBalanced (e := ⟨s.deleteLineSet [r.line], none⟩) ?_
    (isBalanced_deleteLine hr) earlier
  rw [applyOp, apply, deleteMessage, requireMessage_of_eq hr]
  simp only [bind, Except.bind, hdelete]
  rfl

/-- Where all participants are named by identifiers, the edits of messages are edits of a list. A new
message between known participants is the last one, without an activation; of a changed one only the
parts change that are given; both edits answer the index of the message, and notes, fragments and boxes
are what they were. A deletion leaves out one message and nothing else exactly if no message, note or
header stands on a line that is read no longer: such lines are there only if the source does not declare
the diagram before, and does so afterwards. -/
theorem applyOps_message (hnames : HasIdentifiers (View.ofSource s)) (earlier : Option Handle)
    (ids : IdAllocator) :
    (∀ sender ∈ (View.ofSource s).names, ∀ receiver ∈ (View.ofSource s).names, ∀ arrow text, ∃ s',
      applyOps .sequence [.sequence (.addMessage sender receiver arrow text)] ⟨s, earlier⟩ ids =
          (.ok ⟨s', some (.message (View.ofSource s).messages.length)⟩, ids) ∧
        (View.ofSource s').messages = (View.ofSource s).messages ++
          [⟨(View.ofSource s).messages.length, s.length,
            ⟨sender, receiver, arrow, none, trim text⟩⟩] ∧
        KeepsOthers id (View.ofSource s) (View.ofSource s')) ∧
    (∀ index < (View.ofSource s).messages.length, ∀ patch : MessagePatch,
      (∀ name ∈ patch.sender, name ∈ (View.ofSource s).names) →
      (∀ name ∈ patch.receiver, name ∈ (View.ofSource s).names) → ∃ s',
        applyOps .sequence [.sequence (.updateMessage index patch)] ⟨s, earlier⟩ ids =
            (.ok ⟨s', some (.message index)⟩, ids) ∧
          (View.ofSource s').messages = (View.ofSource s).messages.modify index
            (fun r => { r with message := patched patch r.message }) ∧
          KeepsOthers id (View.ofSource s) (View.ofSource s')) ∧
    ∀ index r, (View.ofSource s).message? index = some r → s.length < indexBound → ∃ s',
      applyOps .sequence [.sequence (.deleteMessage index)] ⟨s, earlier⟩ ids =
          (.ok ⟨s', earlier⟩, ids) ∧
        (RemovesMessage index (lineWithout r.line) (View.ofSource s) (View.ofSource s') ↔
          ∀ text ∈ unreadLines .sequence s s', (Statement.ofLine text).isEntry = false) ∧
        ((s.declarationOf? .sequence).isSome = true → unreadLines .sequence s s' = []) := by
  refine ⟨fun sender hsender receiver hreceiver arrow text =>
      applyOps_addMessage hnames earlier ids hsender hreceiver arrow text,
    fun index hindex patch hsender hreceiver =>
      applyOps_updateMessage hnames earlier ids hindex hsender hreceiver,
    fun index r hr hlength => ⟨_, applyOps_deleteMessage hr hlength earlier ids,
      removesMessage_iff hr, fun hdecl => unreadLines_eq_nil ?_⟩⟩
  obtain ⟨d, hd⟩ := Option.isSome_iff_exists.1 hdecl
  rw [hd, declarationOf?_deleteLine hr hd]

/-- Participants that are called like keywords, and an activation that a change of the text leaves as it
is. -/
theorem applyOps_message_keywords :
    let s : Source := .ofText
      "sequenceDiagram\nbox Aqua\nactor Note\nend\nloop->>+Note: hi\nNote over loop: n".toList
    let loop := "loop".toList
    let note := "Note".toList
    let patch : MessagePatch := { text := some " a: b -->> c ".toList }
    HasIdentifiers (View.ofSource s) ∧ loop ∈ (View.ofSource s).names ∧
      note ∈ (View.ofSource s).names ∧
      (∃ s', applyOps .sequence [.sequence (.addMessage note loop .dottedCross " end ".toList)]
          ⟨s, none⟩ {} = (.ok ⟨s', some (.message 1)⟩, {}) ∧
        (View.ofSource s').messages = (View.ofSource s).messages ++
          [⟨1, 6, ⟨note, loop, .dottedCross, none, trim " end ".toList⟩⟩] ∧
        KeepsOthers id (View.ofSource s) (View.ofSource s')) ∧
      (∃ s', applyOps .sequence [.sequence (.updateMessage 0 patch)] ⟨s, none⟩ {} =
          (.ok ⟨s', some (.message 0)⟩, {}) ∧
        (View.ofSource s').messages = (View.ofSource s).messages.modify 0
          (fun r => { r with message := patched patch r.message }) ∧
        KeepsOthers id (View.ofSource s) (View.ofSource s')) ∧
      ∃ s', applyOps .sequence [.sequence (.deleteMessage 0)] ⟨s, none⟩ {} = (.ok ⟨s', none⟩, {}) ∧
        (RemovesMessage 0 (lineWithout 4) (View.ofSource s) (View.ofSource s') ↔
          ∀ text ∈ unreadLines .sequence s s', (Statement.ofLine text).isEntry = false) ∧
        ((s.declarationOf? .sequence).isSome = true → unreadLines .sequence s s' = []) := by
  intro s loop note patch
  have hnames : HasIdentifiers (View.ofSource s) := by decide +kernel
  have hloop : loop ∈ (View.ofSource s).names := by decide +kernel
  have hnote : note ∈ (View.ofSource s).names := by decide +kernel
  have hmessages : (View.ofSource s).messages =
      [⟨0, 4, ⟨loop, note, .solidArrow, some .start, "hi".toList⟩⟩] := by decide +kernel
  have hlength : (View.ofSource s).messages.length = 1 := by rw [hmessages]; rfl
  obtain ⟨hadd, hupdate, hdelete⟩ := applyOps_message hnames none {}
  have hadd := hadd note hnote loop hloop .dottedCross " end ".toList
  rw [hlength] at hadd
  exact ⟨hnames, hloop, hnote, hadd, hupdate 0 (by rw [hlength]; decide) patch nofun nofun,
    hdelete 0 ⟨0, 4, _⟩ (by rw [View.message?, hmessages]; rfl) (by decide)⟩

/-- Without the message in front of it, the last line declares the diagram, and the message between the
fences is read no longer. -/
theorem not_applyOps_deleteMessage :
    let s : Source := .ofText "---\nA->>B: x\n---\nC->>D: m\nsequenceDiagram".toList
    let s' : Source := .ofText "---\nA->>B: x\n---\nsequenceDiagram".toList
    HasIdentifiers (View.ofSource s) ∧ ((View.ofSource s).message? 1).isSome = true ∧
      (applyOps .sequence [.sequence (.deleteMessage 1)] ⟨s, none⟩ {}).1 = .ok ⟨s', none⟩ ∧
      (View.ofSource s).messages.length = 2 ∧ (View.ofSource s').messages = [] ∧
      (applyOps .sequence [.sequence (.deleteMessage 0)] ⟨s', none⟩ {}).1 =
        .error (.messageNotFound 0) := by
  decide +kernel

end DiagramEditor.Edit.Sequence
