import DiagramEditor.Proofs.Sequence.Block
import DiagramEditor.Proofs.Source.Declaration
import DiagramEditor.Proofs.Text.Flat
import DiagramEditor.Proofs.Text.Quoted

/-!
# What written lines say

A line is read by its first word, as far as the word is one of the keywords (`Statement.ofLine_eq`). So a
message between two identifiers is read as this message: its first word ends with the colon
(`Message.statement_render`). A note with names that hold neither commas nor colons is read as this note
(`Note.statement_render`), and the declaration of a participant as this declaration
(`Participant.statement_render`).
-/

namespace DiagramEditor.Sequence

open Text Source Identifier

variable {w text rest before line : Text}

/-! ## Keywords -/

/-- The words that make a line something else than a note or a message. -/
def keywords : List Text :=
  ["autonumber", "participant", "actor", "end"].map String.toList ++ blockWords ++ separatorWords

namespace Statement

/-- What a line says is decided by the line without the blanks around it. -/
theorem ofLine_congr {a b : Text} (h : trim a = trim b) : ofLine a = ofLine b := by
  simp only [ofLine, Participant.ofLine?, BoxHeader.ofLine?, FragmentHeader.ofLine?,
    separatorOfLine?, Note.ofLine?, Message.ofLine?, h]

theorem ofLine_of_isBlank_append (hw : IsBlank w) (text : Text) : ofLine (w ++ text) = ofLine text :=
  ofLine_congr (trim_of_isBlank_append hw text)

theorem ofLine_trim (text : Text) : ofLine (trim text) = ofLine text :=
  ofLine_congr (trim_trim text)

/-- The recognizer that the statement names reads it from the line. -/
def ReadsFrom (line : Text) : Statement → Prop
  | silent => isSilent (trim line) = true
  | autonumber => isAutonumber (trim line) = true
  | participant p => Participant.ofLine? line = some p
  | boxOpen h => BoxHeader.ofLine? line = some h
  | fragmentOpen h => FragmentHeader.ofLine? line = some h
  | blockEnd => isBlockEnd (trim line) = true
  | separator label => ∃ word, separatorOfLine? line = some (word, label)
  | note n => Note.ofLine? line = some n
  | message m => Message.ofLine? line = some m
  | other => True

theorem readsFrom_ofLine (line : Text) : (ofLine line).ReadsFrom line := by
  rw [ofLine]
  split
  · assumption
  · repeat' split
    all_goals first | assumption | trivial | exact ⟨_, by assumption⟩

/-- A line of content is no silent one, and no fence if something can be read from it. -/
theorem beginsWith_of_ofLine (hsilent : ofLine line ≠ .silent) (hother : ofLine line ≠ .other) :
    BeginsWith (firstWord (trim line)) line := by
  refine ⟨fun hfence => hother ?_, ?_, rfl⟩
  · have htrim : trim line = trim frontMatterFence := hfence.trans (by decide)
    rw [ofLine_congr htrim]
    decide
  · rw [← Bool.not_eq_true]
    intro h
    rw [ofLine] at hsilent
    simp [h] at hsilent

/-- A line without a keyword in front is a note, a message or nothing. -/
theorem ofLine_eq (hsilent : isSilent (trim text) = false) (h : firstWord (trim text) ∉ keywords) :
    ofLine text = match Note.ofLine? text with
      | some n => .note n
      | none => (Message.ofLine? text).elim .other .message := by
  have hauto : isAutonumber (trim text) = false := by
    rw [isAutonumber, decide_eq_false_iff_not]
    intro hword
    rw [hword] at h
    exact h (by decide)
  have hparticipant : Participant.ofLine? text = none := by
    rw [Option.eq_none_iff_forall_ne_some]
    intro p hp
    rcases firstWord_of_participant hp with hword | hword <;> rw [hword] at h <;> exact h (by decide)
  have hopen : isBlockOpen (trim text) = false := by
    rw [isBlockOpen, ← Bool.not_eq_true, List.contains_iff_mem]
    exact fun hword => h (List.mem_append_left _ (List.mem_append_right _ hword))
  rw [← Bool.not_eq_true, isBlockOpen_trim, not_or, Bool.not_eq_true, Bool.not_eq_true,
    Option.isSome_eq_false_iff, Option.isSome_eq_false_iff, Option.isNone_iff_eq_none,
    Option.isNone_iff_eq_none] at hopen
  have hend : isBlockEnd (trim text) = false := by
    rw [isBlockEnd, decide_eq_false_iff_not]
    intro hword
    rw [hword] at h
    exact h (by decide)
  have hseparator : separatorOfLine? text = none := by
    rw [separatorOfLine?, if_neg]
    rw [List.contains_iff_mem]
    exact fun hword => h (List.mem_append_right _ hword)
  rw [ofLine]
  simp only [hsilent, hauto, hparticipant, hopen.1, hopen.2, hend, hseparator, Bool.false_eq_true,
    if_false]
  cases Note.ofLine? text with
  | some n => rfl
  | none => cases Message.ofLine? text <;> rfl

theorem not_isSilent_of_firstWord {word : Text} (h : firstWord (trim text) = word) (hne : word ≠ [])
    (hhead : word.head? ≠ some '%') : isSilent (trim text) = false := by
  rw [← Bool.not_eq_true]
  intro hsilent
  rcases firstWord_of_silent hsilent with hword | hword
  exacts [hne (h.symm.trans hword), hhead (h ▸ hword)]

theorem ofLine_of_participant {p : Participant} (h : Participant.ofLine? text = some p) :
    ofLine text = .participant p := by
  have hsilent : isSilent (trim text) = false := by
    rcases firstWord_of_participant h with hword | hword <;>
      exact not_isSilent_of_firstWord hword (by decide) (by decide)
  have hauto : isAutonumber (trim text) = false := by
    rw [isAutonumber]
    rcases firstWord_of_participant h with hword | hword <;> rw [hword] <;> decide
  rw [ofLine, hsilent, hauto, h]
  rfl

theorem ofLine_of_boxHeader {header : BoxHeader} (h : BoxHeader.ofLine? text = some header) :
    ofLine text = .boxOpen header := by
  have hword : firstWord (trim text) = BoxHeader.keyword := boxHeader_isSome.1 (by rw [h]; rfl)
  have hsilent : isSilent (trim text) = false :=
    not_isSilent_of_firstWord hword (by decide) (by decide)
  have hauto : isAutonumber (trim text) = false := by
    rw [isAutonumber, hword]
    decide
  have hparticipant : Participant.ofLine? text = none := by
    rw [Option.eq_none_iff_forall_ne_some]
    intro p hp
    rcases firstWord_of_participant hp with hname | hname <;>
      exact absurd (hname.symm.trans hword) (by decide)
  rw [ofLine, hsilent, hauto, hparticipant, h]
  rfl

end Statement

/-- What `Note.ofLine?` reads: the keyword, the placement, the names up to the first colon, and the
text. -/
theorem Note.ofLine?_eq_some_iff {n : Note} : Note.ofLine? text = some n ↔
    ∃ rest after targets tail, stripKeyword? (trim text) = some rest ∧ startsWithSpace rest = true ∧
      NotePlacement.scan? (trimStart rest) = some (n.placement, after) ∧
      cutChar? ':' after = some (targets, tail) ∧
      n.participants = ((splitOn ',' targets).map trim).filter (fun t => !t.isEmpty) ∧
      n.participants ≠ [] ∧ n.text = trim tail := by
  simp only [ofLine?, Option.bind_eq_bind, Option.bind_eq_some_iff, Option.guard_eq_some',
    Prod.exists, Option.pure_def, Option.some.injEq, Bool.not_eq_true', List.isEmpty_eq_false_iff]
  constructor
  · rintro ⟨rest, hrest, -, hspace, placement, after, hplacement, targets, tail, hcut, -, hne, rfl⟩
    exact ⟨rest, after, targets, tail, hrest, hspace, hplacement, hcut, rfl, hne, rfl⟩
  · rintro ⟨rest, after, targets, tail, hrest, hspace, hplacement, hcut, hparticipants, hne, htext⟩
    refine ⟨rest, hrest, (), hspace, n.placement, after, hplacement, targets, tail, hcut, (), ?_, ?_⟩
    · exact hparticipants ▸ hne
    · rw [← hparticipants, ← htext]

theorem firstWord_of_note {n : Note} (h : Note.ofLine? text = some n) :
    firstWord (trim text) ∈ ["Note".toList, "note".toList] := by
  obtain ⟨rest, -, -, -, hkeyword, hspace, -⟩ := Note.ofLine?_eq_some_iff.1 h
  have hrest := head?_of_startsWithSpace hspace
  rcases Option.or_eq_some_iff.1 hkeyword with hfront | ⟨-, hfront⟩ <;>
    rw [stripFront?_eq_some.1 hfront,
      firstWord_of_front (by decide) (fun _ => eq_false_of_any (by decide)) hrest] <;>
    decide

theorem Statement.ofLine_of_note {n : Note} (h : Note.ofLine? text = some n) :
    ofLine text = .note n := by
  have hword := firstWord_of_note h
  have hsilent : isSilent (trim text) = false := by
    have hall : ["Note".toList, "note".toList].all (fun word => word ≠ [] ∧ word.head? ≠ some '%') =
        true := by decide
    obtain ⟨hne, hhead⟩ := of_decide_eq_true (List.all_eq_true.1 hall _ hword)
    exact not_isSilent_of_firstWord rfl hne hhead
  have hkeywords : firstWord (trim text) ∉ keywords := by
    have hall : ["Note".toList, "note".toList].all (fun word => !keywords.contains word) = true := by
      decide
    simpa using List.all_eq_true.1 hall _ hword
  rw [ofLine_eq hsilent hkeywords, h]

/-! ## Messages -/

namespace MessageArrow

/-- Nothing makes an arrow longer but the tip of one. -/
theorem scan?_token_append (arrow : MessageArrow) (h : rest.head? ≠ some '>') :
    scan? (arrow.token ++ rest) = some (arrow, rest) := by
  cases rest with
  | nil => cases arrow <;> rfl
  | cons c rest =>
    have hc : ¬ '>' = c := fun heq => h (congrArg some heq.symm)
    cases arrow <;> simp [scan?, all, token, stripFront?, hc]

theorem scan?_cons {c : Char} (h : c ≠ '-') (s : Text) : scan? (c :: s) = none := by
  have hc : ¬ '-' = c := Ne.symm h
  simp [scan?, all, token, stripFront?, hc]

/-- Of the arrows in a text the first one counts. -/
theorem cut?_append (arrow : MessageArrow) (hbefore : '-' ∉ before) (h : rest.head? ≠ some '>') :
    cut? (before ++ (arrow.token ++ rest)) = some (before, arrow, rest) := by
  induction before with
  | nil => rw [List.nil_append, cut?.eq_def, scan?_token_append arrow h]
  | cons c before ih =>
    obtain ⟨hc, hbefore⟩ := not_or.1 (mt List.mem_cons.2 hbefore)
    rw [List.cons_append, cut?.eq_def, scan?_cons (Ne.symm hc)]
    dsimp only
    rw [ih hbefore]
    rfl

end MessageArrow

theorem not_mem_of_isIdent {name : Text} {c : Char} (h : isIdent name = true)
    (hc : isIdentChar c = false) : c ∉ name := by
  intro hmem
  have := List.all_eq_true.1 (Bool.and_eq_true_iff.1 h).2 c hmem
  rw [hc] at this
  cases this

theorem isSpace_of_mem_isIdent {name : Text} {c : Char} (h : isIdent name = true) (hc : c ∈ name) :
    isSpace c = false :=
  isSpace_of_isIdentChar (List.all_eq_true.1 (Bool.and_eq_true_iff.1 h).2 c hc)

theorem ne_nil_of_isIdent {name : Text} (h : isIdent name = true) : name ≠ [] := by
  rintro rfl
  cases h

theorem isName_iff {word : Text} :
    Message.isName word = true ↔ word ≠ [] ∧ ∀ c ∈ word, isSpace c = false := by
  simp [Message.isName]

theorem isName_of_isIdent {name : Text} (h : isIdent name = true) : Message.isName name = true :=
  isName_iff.2 ⟨ne_nil_of_isIdent h, fun _ hc => isSpace_of_mem_isIdent h hc⟩

namespace Activation

theorem scan_append (a : Option Activation) {name : Text} (h : isIdent name = true) :
    scan ((a.map sign).toList ++ name) = (a, name) := by
  rcases a with _ | _ | _
  · rw [Option.map_none, Option.toList_none, List.nil_append, scan.eq_def]
    split
    · exact absurd List.mem_cons_self (not_mem_of_isIdent h (by decide))
    · exact absurd List.mem_cons_self (not_mem_of_isIdent h (by decide))
    · rfl
  · rfl
  · rfl

end Activation

namespace Message

variable {m : Message}

/-- No blanks stand around a text that was read. -/
theorem isTrimmed_of_ofLine? (h : ofLine? line = some m) : IsTrimmed m.text := by
  simp only [ofLine?, Option.bind_eq_bind, Option.bind_eq_some_iff, Option.guard_eq_some',
    Prod.exists, Option.pure_def, Option.some.injEq] at h
  obtain ⟨_, text, _, _, _, _, _, _, _, rfl⟩ := h
  exact isTrimmed_trim text

theorem isName_of_ofLine? (h : ofLine? line = some m) :
    isName m.sender = true ∧ isName m.receiver = true := by
  simp only [ofLine?, Option.bind_eq_bind, Option.bind_eq_some_iff, Option.guard_eq_some',
    Prod.exists, Option.pure_def, Option.some.injEq] at h
  obtain ⟨_, _, _, _, _, _, _, _, hnames, rfl⟩ := h
  exact Bool.and_eq_true_iff.1 hnames

/-- Both ends of the message are identifiers, and no blanks stand around its text. -/
structure IsWritable (m : Message) : Prop where
  sender : isIdent m.sender = true
  receiver : isIdent m.receiver = true
  text : IsTrimmed m.text

/-- What is written in front of the colon. -/
def written (m : Message) : Text :=
  m.sender ++ (m.arrow.token ++ ((m.activation.map Activation.sign).toList ++ m.receiver))

theorem render_eq (w : Text) (m : Message) : m.render w = w ++ (m.written ++ ':' :: ' ' :: m.text) := by
  simp [render, written]

namespace IsWritable

theorem not_mem_written (h : m.IsWritable) {c : Char} (hc : isIdentChar c = false)
    (hsigns : c ∉ "->x)+".toList) : c ∉ m.written := by
  have harrow : m.arrow.token ⊆ "->x)+".toList := by cases m.arrow <;> decide
  have hsign : (m.activation.map Activation.sign).toList ⊆ "->x)+".toList := by
    rcases m.activation with _ | _ | _ <;> decide
  simp only [written, List.mem_append, not_or]
  exact ⟨not_mem_of_isIdent h.sender hc, fun hmem => hsigns (harrow hmem),
    fun hmem => hsigns (hsign hmem), not_mem_of_isIdent h.receiver hc⟩

theorem isSpace_of_mem_written (h : m.IsWritable) {c : Char} (hc : c ∈ m.written) :
    isSpace c = false := by
  by_contra hspace
  rw [Bool.not_eq_false] at hspace
  refine h.not_mem_written (isIdentChar_of_isSpace hspace) (fun hmem => ?_) hc
  have hall : "->x)+".toList.all (fun c => !isSpace c) = true := by decide
  simpa [hspace] using List.all_eq_true.1 hall c hmem

theorem head?_written (h : m.IsWritable) : m.written.head? = m.sender.head? := by
  rw [written, List.head?_append_of_ne_nil _ (ne_nil_of_isIdent h.sender)]

theorem trim_render (h : m.IsWritable) (hw : IsBlank w) :
    trim (m.render w) = m.written ++ ':' :: trimEnd (' ' :: m.text) := by
  have hhead : ∀ c ∈ (m.written ++ ':' :: ' ' :: m.text).head?, isSpace c = false := by
    intro c hc
    rw [List.head?_append] at hc
    rcases Option.or_eq_some_iff.1 hc with hc | ⟨-, hc⟩
    · exact h.isSpace_of_mem_written (List.mem_of_mem_head? hc)
    · cases hc
      decide
  rw [render_eq, trim_of_isBlank_append hw, trim, trimStart_eq_self hhead,
    trimEnd_append_cons (by decide)]

/-- The message is read back. -/
theorem ofLine?_render (h : m.IsWritable) (hw : IsBlank w) : ofLine? (m.render w) = some m := by
  have hcolon : cutChar? ':' (trim (m.render w)) = some (m.written, trimEnd (' ' :: m.text)) := by
    rw [h.trim_render hw]
    exact cutChar?_append_cons (h.not_mem_written (by decide) (by decide)) _
  have hrest : ((m.activation.map Activation.sign).toList ++ m.receiver).head? ≠ some '>' := by
    intro hhead
    rcases List.mem_append.1 (List.mem_of_mem_head? hhead) with hmem | hmem
    · have hsign : '>' ∉ (m.activation.map Activation.sign).toList := by
        rcases m.activation with _ | _ | _ <;> decide
      exact hsign hmem
    · exact not_mem_of_isIdent h.receiver (by decide) hmem
  have harrow : MessageArrow.cut? m.written = some (m.sender, m.arrow,
      (m.activation.map Activation.sign).toList ++ m.receiver) :=
    MessageArrow.cut?_append m.arrow (not_mem_of_isIdent h.sender (by decide)) hrest
  have htrimmed : ∀ {s : Text}, s ⊆ m.written → trim s = s := fun hs =>
    trim_eq_self ⟨fun c hc => h.isSpace_of_mem_written (hs (List.mem_of_mem_head? hc)),
      fun c hc => h.isSpace_of_mem_written (hs (List.mem_of_mem_getLast? hc))⟩
  have hsender : trim m.sender = m.sender := htrimmed (List.subset_append_left _ _)
  have hafter : trim ((m.activation.map Activation.sign).toList ++ m.receiver) =
      (m.activation.map Activation.sign).toList ++ m.receiver :=
    htrimmed fun c hc => List.mem_append_right _ (List.mem_append_right _ hc)
  have hreceiver : trimStart m.receiver = m.receiver :=
    trimStart_eq_self fun c hc => isSpace_of_mem_isIdent h.receiver (List.mem_of_mem_head? hc)
  have htext : trim (trimEnd (' ' :: m.text)) = m.text := by
    obtain ⟨v, hv, hend⟩ := exists_trimEnd_append (' ' :: m.text)
    rw [← trim_append_of_isBlank _ hv, hend]
    exact (trim_of_isBlank_append isBlank_singleton_space _).trans (trim_eq_self h.text)
  rw [ofLine?, hcolon]
  simp [harrow, hsender, hafter, Activation.scan_append m.activation h.receiver, hreceiver,
    isName_of_isIdent h.sender, isName_of_isIdent h.receiver, htext]

theorem firstWord_render (h : m.IsWritable) (hw : IsBlank w) :
    firstWord (trim (m.render w)) = m.written ++ [':'] := by
  rw [h.trim_render hw, List.append_cons]
  refine firstWord_of_front (by simp) (fun c hc => ?_) fun c hc => ?_
  · rcases List.mem_append.1 hc with hc | hc
    · exact h.isSpace_of_mem_written hc
    · rw [List.mem_singleton.1 hc]
      decide
  · obtain ⟨v, hv, hend⟩ := exists_trimEnd_append (' ' :: m.text)
    have hhead := congrArg List.head? hend
    rw [List.head?_append, hc] at hhead
    cases hhead
    decide

/-- A line that is written for a message says this message. -/
theorem statement_render (h : m.IsWritable) (hw : IsBlank w) :
    Statement.ofLine (m.render w) = .message m := by
  have hword := h.firstWord_render hw
  have hcolon : ':' ∈ firstWord (trim (m.render w)) := by
    rw [hword]
    simp
  have hall : (["Note".toList, "note".toList] ++ keywords).all (fun word => !word.contains ':') = true := by
    decide
  have hno : firstWord (trim (m.render w)) ∉ ["Note".toList, "note".toList] ++ keywords := by
    intro hmem
    have := List.all_eq_true.1 hall _ hmem
    simp [hcolon] at this
  have hsilent : isSilent (trim (m.render w)) = false := by
    refine Statement.not_isSilent_of_firstWord hword (by simp) fun hhead => ?_
    rw [List.head?_append, h.head?_written] at hhead
    obtain ⟨c, name, hname⟩ := List.exists_cons_of_ne_nil (ne_nil_of_isIdent h.sender)
    rw [hname] at hhead
    obtain rfl : c = '%' := Option.some.inj hhead
    exact not_mem_of_isIdent h.sender (by decide) (hname ▸ List.mem_cons_self)
  have hnote : Note.ofLine? (m.render w) = none := by
    rw [Option.eq_none_iff_forall_ne_some]
    exact fun n hn => hno (List.mem_append_left _ (firstWord_of_note hn))
  rw [Statement.ofLine_eq hsilent fun hmem => hno (List.mem_append_right _ hmem), hnote,
    h.ofLine?_render hw]
  rfl

end IsWritable

end Message

/-! ## Notes -/

namespace Note

variable {n : Note}

/-- The note names someone, its names hold neither commas nor colons, and no blanks stand around its
names and its text. -/
structure IsWritable (n : Note) : Prop where
  participants_ne_nil : n.participants ≠ []
  participants : ∀ name ∈ n.participants, name ≠ [] ∧ IsTrimmed name ∧ ',' ∉ name ∧ ':' ∉ name
  text : IsTrimmed n.text

/-- A note that was read can be written. -/
theorem isWritable_of_ofLine? (h : ofLine? text = some n) : n.IsWritable := by
  obtain ⟨-, after, targets, tail, -, -, -, hcut, hparticipants, hne, htext⟩ :=
    ofLine?_eq_some_iff.1 h
  refine ⟨hne, fun name hname => ?_, htext ▸ isTrimmed_trim tail⟩
  rw [hparticipants] at hname
  obtain ⟨hname, hnonempty⟩ := List.mem_filter.1 hname
  obtain ⟨field, hfield, rfl⟩ := List.mem_map.1 hname
  refine ⟨by simpa using hnonempty, isTrimmed_trim field,
    not_mem_trim (not_mem_of_mem_splitOn hfield), not_mem_trim fun hcolon => ?_⟩
  exact (cutChar?_eq_some hcut).2 (subset_of_mem_splitWhere hfield hcolon)

namespace IsWritable

theorem trim_render (h : n.IsWritable) (hw : IsBlank w) : ∃ tail, trim tail = n.text ∧
    trim (n.render w) = "Note ".toList ++ (n.placement.text ++ (' ' ::
      (join [','] n.participants ++ ':' :: tail))) := by
  refine ⟨trimEnd (' ' :: n.text), ?_, ?_⟩
  · obtain ⟨v, hv, hend⟩ := exists_trimEnd_append (' ' :: n.text)
    rw [← trim_append_of_isBlank _ hv, hend]
    exact (trim_of_isBlank_append isBlank_singleton_space _).trans (trim_eq_self h.text)
  · have hrender : n.render w = w ++ (("Note ".toList ++ (n.placement.text ++ (' ' ::
        join [','] n.participants))) ++ ':' :: ' ' :: n.text) := by
      simp [render]
    have hhead : ∀ c ∈ (("Note ".toList ++ (n.placement.text ++ (' ' ::
        join [','] n.participants))) ++ ':' :: ' ' :: n.text).head?, isSpace c = false := by
      rintro _ ⟨⟩
      decide
    rw [hrender, trim_of_isBlank_append hw, trim, trimStart_eq_self hhead,
      trimEnd_append_cons (by decide)]
    simp

/-- The note is read back. -/
theorem ofLine?_render (h : n.IsWritable) (hw : IsBlank w) : ofLine? (n.render w) = some n := by
  obtain ⟨tail, htail, htrim⟩ := h.trim_render hw
  have hcolon : ':' ∉ ' ' :: join [','] n.participants := by
    intro hmem
    rcases List.mem_cons.1 hmem with hmem | hmem
    · cases hmem
    · rcases List.mem_append.1 (join_subset _ _ hmem) with hmem | hmem
      · cases List.mem_singleton.1 hmem
      · obtain ⟨name, hname, hmem⟩ := List.mem_flatten.1 hmem
        exact (h.participants name hname).2.2.2 hmem
  have hsplit : (splitOn ',' (' ' :: join [','] n.participants)).map trim = n.participants := by
    obtain ⟨first, others, heq⟩ := List.exists_cons_of_ne_nil h.participants_ne_nil
    have hparticipants := h.participants
    rw [heq] at hparticipants ⊢
    obtain ⟨hfirst, hothers⟩ := List.forall_mem_cons.1 hparticipants
    have hjoin : ' ' :: join [','] (first :: others) = join [','] ((' ' :: first) :: others) := by
      cases others <;> simp [join_cons]
    have hcomma : ∀ field ∈ (' ' :: first) :: others, ',' ∉ field := by
      refine List.forall_mem_cons.2 ⟨?_, fun name hname => (hothers name hname).2.2.1⟩
      simpa using hfirst.2.2.1
    have htrim : trim (' ' :: first) = first :=
      (trim_of_isBlank_append isBlank_singleton_space first).trans (trim_eq_self hfirst.2.1)
    rw [hjoin, splitOn_join (List.cons_ne_nil _ _) hcomma, List.map_cons, htrim]
    congr 1
    exact (List.map_congr_left fun name hname => trim_eq_self (hothers name hname).2.1).trans
      (List.map_id _)
  refine ofLine?_eq_some_iff.2 ⟨' ' :: (n.placement.text ++ (' ' ::
    (join [','] n.participants ++ ':' :: tail))), ' ' :: (join [','] n.participants ++ ':' :: tail),
    ' ' :: join [','] n.participants, tail, ?_, rfl, ?_, ?_, ?_, h.participants_ne_nil, htail.symm⟩
  · rw [htrim]
    rfl
  · cases n.placement <;> rfl
  · exact cutChar?_append_cons hcolon tail
  · rw [hsplit, List.filter_eq_self.2]
    intro name hname
    simp [(h.participants name hname).1]

/-- A line that is written for a note says this note. -/
theorem statement_render (h : n.IsWritable) (hw : IsBlank w) :
    Statement.ofLine (n.render w) = .note n :=
  Statement.ofLine_of_note (h.ofLine?_render hw)

end IsWritable

end Note

/-! ## Participants -/

theorem cutText?_append_settingsOpening {name : Text}
    (h : hasText Participant.settingsOpening name = false) :
    cutText? Participant.settingsOpening (name ++ Participant.settingsOpening) = some (name, []) := by
  induction name with
  | nil => rfl
  | cons c name ih =>
    rw [hasText, Option.isSome_eq_false_iff, Option.isNone_iff_eq_none] at h
    have hfront : stripFront? Participant.settingsOpening (c :: name) = none := by
      rw [Option.eq_none_iff_forall_ne_some]
      intro rest hrest
      rw [cutText?_of_stripFront? hrest] at h
      cases h
    rw [cutText?_cons hfront, Option.map_eq_none_iff] at h
    -- An opening that begins with the last character would be written with two signs.
    have hfront' : stripFront? Participant.settingsOpening
        (c :: (name ++ Participant.settingsOpening)) = none := by
      cases name with
      | nil => cases hc : decide ('@' = c) <;> simp_all [Participant.settingsOpening, stripFront?]
      | cons d name => simpa [Participant.settingsOpening, stripFront?] using hfront
    have hrest := ih (by rw [hasText, h]; rfl)
    rw [List.cons_append, cutText?_cons hfront', hrest]
    rfl

namespace Participant

variable {p : Participant}

theorem opening_scanName (s : Text) : hasText settingsOpening (scanName s) = false := by
  rw [scanName]
  split
  · next hcut => exact hasText_of_cutText? (List.cons_ne_nil _ _) hcut
  · next hcut => rw [hasText, hcut, Option.isSome_none]

/-- No name that is declared holds the opening of settings. -/
theorem opening_of_ofLine? (h : ofLine? line = some p) : hasText settingsOpening p.name = false := by
  simp only [ofLine?, Option.bind_eq_bind, Option.bind_eq_some_iff, Option.pure_def, Prod.exists,
    Option.some.injEq] at h
  obtain ⟨_, _, _, _, _, _, _, _, _, _, _, _, rfl⟩ := h
  exact opening_scanName _

/-- The name is one word without the opening of settings, and the label is trimmed and comes back
without quotes. -/
structure IsWritable (p : Participant) : Prop where
  name_ne_nil : p.name ≠ []
  name_solid : ∀ c ∈ p.name, isSpace c = false
  opening : hasText settingsOpening p.name = false
  label : ∀ text ∈ p.label, text ≠ [] ∧ IsTrimmed text ∧ unquote text = text

/-- The keyword that is written. -/
def keyword (p : Participant) : ParticipantType :=
  if p.type.isPrimitive then p.type else .participant

/-- The settings that are written behind the name. -/
def settings (p : Participant) : Text :=
  if p.type.isPrimitive then []
  else settingsOpening ++ (" \"type\": \"".toList ++ p.type.name ++ ['"', ' ']) ++ ['}']

/-- What is written for the label. -/
def labelPart (p : Participant) : Text :=
  match p.label with
  | some label => if label = p.name then [] else " as ".toList ++ label
  | none => []

theorem render_eq (w : Text) (p : Participant) : p.render w =
    w ++ (p.keyword.name ++ ' ' :: (p.name ++ (p.settings ++ p.labelPart))) := by
  rw [render, keyword, settings, labelPart]
  cases p.type.isPrimitive <;> cases p.label <;> simp [settingsOpening]

theorem scanKeyword?_keyword (p : Participant) (rest : Text) :
    scanKeyword? (p.keyword.name ++ ' ' :: rest) = some (p.keyword, ' ' :: rest) := by
  rw [keyword]
  cases p.type <;> rfl

theorem scanSettings?_settings (p : Participant) {tail : Text} (h : tail.head? ≠ some '@') :
    scanSettings? (p.settings ++ tail) =
      some (if p.type.isPrimitive then none else some p.type, tail) := by
  cases hprimitive : p.type.isPrimitive with
  | true =>
    have hfront : stripFront? settingsOpening tail = none :=
      stripFront?_eq_none_of_head fun d hd heq => h (heq ▸ hd)
    rw [settings, hprimitive, if_pos rfl, List.nil_append, scanSettings?, hfront]
    rfl
  | false =>
    rw [settings, hprimitive, if_neg Bool.false_ne_true, scanSettings?, List.append_assoc,
      List.append_assoc, stripFront?_self_append]
    have hclose : '}' ∉ " \"type\": \"".toList ++ p.type.name ++ ['"', ' '] := by
      cases p.type <;> decide
    have htype : typeOfSettings? (" \"type\": \"".toList ++ p.type.name ++ ['"', ' ']) =
        some p.type := by
      cases p.type <;> decide +kernel
    dsimp only
    rw [List.singleton_append, cutChar?_append_cons hclose, Option.map_some, htype]
    rfl

namespace IsWritable

theorem scanName_written (h : p.IsWritable) {tail : Text} (htail : ∀ c ∈ tail.head?, isSpace c = true) :
    scanName (p.name ++ (p.settings ++ tail)) = p.name := by
  have htake : ∀ {name rest : Text}, (∀ c ∈ name, isSpace c = false) →
      (∀ c ∈ rest.head?, isSpace c = true) → (name ++ rest).takeWhile (!isSpace ·) = name := by
    intro name rest hname hrest
    rw [List.takeWhile_append_of_pos fun c hc => by simp [hname c hc]]
    cases rest with
    | nil => simp
    | cons c rest => rw [List.takeWhile_cons_of_neg (by simp [hrest c rfl]), List.append_nil]
  rw [scanName]
  cases hprimitive : p.type.isPrimitive with
  | true =>
    rw [settings, hprimitive, if_pos rfl, List.nil_append, htake h.name_solid htail]
    have hopening := h.opening
    rw [hasText, Option.isSome_eq_false_iff, Option.isNone_iff_eq_none] at hopening
    rw [hopening]
  | false =>
    have hsolid : ∀ c ∈ p.name ++ settingsOpening, isSpace c = false := by
      intro c hc
      rcases List.mem_append.1 hc with hc | hc
      · exact h.name_solid c hc
      · exact eq_false_of_any (s := settingsOpening) (by decide) hc
    rw [settings, hprimitive, if_neg Bool.false_ne_true, List.append_assoc, List.append_assoc,
      ← List.append_assoc, htake hsolid, cutText?_append_settingsOpening h.opening]
    rintro _ ⟨⟩
    decide

theorem label?_labelPart (h : p.IsWritable) :
    label? p.labelPart = some (p.label.filter (· ≠ p.name)) := by
  rw [labelPart]
  cases hlabel : p.label with
  | none => rfl
  | some label =>
    obtain ⟨hne, htrimmed, hunquote⟩ := h.label label hlabel
    dsimp only
    split
    · next heq =>
      rw [heq, Option.filter_some_neg (by simp)]
      rfl
    · next hneq =>
      have htrim : trim (" as ".toList ++ label) = ['a', 's'] ++ ' ' :: label := by
        have htrimmed' : IsTrimmed (['a', 's'] ++ ' ' :: label) := by
          constructor
          · rintro _ ⟨⟩
            decide
          · rw [show ['a', 's'] ++ ' ' :: label = ['a', 's', ' '] ++ label from rfl,
              List.getLast?_append_of_ne_nil _ hne]
            exact htrimmed.last
        exact (trim_of_isBlank_append isBlank_singleton_space _).trans (trim_eq_self htrimmed')
      have hlabel : unquote (' ' :: label) = label := by
        have hblank : trim (' ' :: label) = trim label :=
          trim_of_isBlank_append isBlank_singleton_space label
        rwa [unquote, hblank]
      have hspace : startsWithSpace (' ' :: label) = true :=
        isBlank_singleton_space ' ' List.mem_cons_self
      rw [label?, htrim, Option.filter_some_pos (by simpa using hneq), if_neg (by simp),
        stripFront?_self_append]
      simp only [Option.bind_eq_bind, Option.bind_some, hspace, hlabel]
      rfl

theorem head?_labelPart (p : Participant) : ∀ c ∈ p.labelPart.head?, c = ' ' := by
  rw [labelPart]
  split
  · split
    · exact nofun
    · rintro _ ⟨⟩
      rfl
  · exact nofun

theorem isTrimmed_written (h : p.IsWritable) :
    IsTrimmed (p.keyword.name ++ ' ' :: (p.name ++ (p.settings ++ p.labelPart))) where
  head := by
    intro c hc
    rw [keyword] at hc
    cases htype : p.type <;> rw [htype] at hc <;> cases hc <;> decide
  last := by
    have hlabel : ∀ c ∈ p.labelPart.getLast?, isSpace c = false := by
      intro c hc
      rw [labelPart] at hc
      split at hc
      · next label hlabel =>
        obtain ⟨hne, htrimmed, -⟩ := h.label label hlabel
        split at hc
        · cases hc
        · rw [List.getLast?_append_of_ne_nil _ hne] at hc
          exact htrimmed.last c hc
      · cases hc
    have hsettings : ∀ c ∈ p.settings.getLast?, isSpace c = false := by
      intro c hc
      rw [settings] at hc
      split at hc
      · cases hc
      · rw [List.getLast?_concat] at hc
        cases hc
        decide
    have hname : ∀ c ∈ p.name.getLast?, isSpace c = false := fun c hc =>
      h.name_solid c (List.mem_of_mem_getLast? hc)
    intro c hc
    rw [List.append_cons, List.getLast?_append_of_ne_nil _ (by simp [h.name_ne_nil]),
      List.getLast?_append, List.getLast?_append] at hc
    rcases Option.or_eq_some_iff.1 hc with hc | ⟨-, hc⟩
    · rcases Option.or_eq_some_iff.1 hc with hc | ⟨-, hc⟩
      exacts [hlabel c hc, hsettings c hc]
    · exact hname c hc

/-- The participant is read back, but for a label that only repeats the name. -/
theorem ofLine?_render (h : p.IsWritable) (hw : IsBlank w) :
    ofLine? (p.render w) = some { p with label := p.label.filter (· ≠ p.name) } := by
  have hhead := head?_labelPart p
  have hsolid : ∀ c ∈ (p.name ++ (p.settings ++ p.labelPart)).head?, isSpace c = false := by
    intro c hc
    rw [List.head?_append_of_ne_nil _ h.name_ne_nil] at hc
    exact h.name_solid c (List.mem_of_mem_head? hc)
  have htrimStart : trimStart (' ' :: (p.name ++ (p.settings ++ p.labelPart))) =
      p.name ++ (p.settings ++ p.labelPart) :=
    (trimStart_of_isBlank_append isBlank_singleton_space _).trans (trimStart_eq_self hsolid)
  have hname : scanName (p.name ++ (p.settings ++ p.labelPart)) = p.name :=
    h.scanName_written fun c hc => by rw [hhead c hc]; decide
  have hsettings : scanSettings? (p.settings ++ p.labelPart) =
      some (if p.type.isPrimitive then none else some p.type, p.labelPart) :=
    scanSettings?_settings p fun hat => absurd (hhead _ hat) (by decide)
  have htype : (if p.type.isPrimitive then none else some p.type).getD p.keyword = p.type := by
    rw [keyword]
    split <;> rfl
  rw [ofLine?, render_eq, trim_of_isBlank_append hw, trim_eq_self h.isTrimmed_written,
    scanKeyword?_keyword]
  have hspace : isSpace ' ' = true := by decide
  simp [startsWithSpace, hspace, htrimStart, hname, h.name_ne_nil, hsettings, h.label?_labelPart,
    htype]

/-- A line that is written for a participant declares this participant. -/
theorem statement_render (h : p.IsWritable) (hw : IsBlank w) :
    Statement.ofLine (p.render w) =
      .participant { p with label := p.label.filter (· ≠ p.name) } :=
  Statement.ofLine_of_participant (h.ofLine?_render hw)

end IsWritable

end Participant

/-! ## Boxes -/

namespace BoxHeader

variable {label indent body : Text}

/-- The text names a color: one that is known by name, or one that a sign begins. -/
def IsColorName (text : Text) : Prop :=
  text ∈ namedColors ∨ text.head? = some '#' ∧ ∀ c ∈ text, isSpace c = false

instance (text : Text) : Decidable (IsColorName text) :=
  decidable_of_iff (namedColors.contains text ∨ text.head? = some '#' ∧ text.any isSpace = false)
    (by simp [IsColorName])

/-- Without a color in front, all of the text is the label. -/
theorem splitColor_of_fst (h : (splitColor label).1 = none) : splitColor label = (none, label) := by
  rw [splitColor] at h ⊢
  split
  · next hfunction =>
    rw [if_pos hfunction] at h
    split
    · next hcut =>
      rw [hcut] at h
      cases h
    · rfl
  · next hfunction =>
    rw [if_neg hfunction] at h
    dsimp only at h ⊢
    split
    · next hcolor =>
      rw [if_pos hcolor] at h
      cases h
    · rfl

theorem startsWith_eq_false {c d : Char} (h : d ≠ c) (front rest : Text) :
    startsWith (c :: front) (d :: rest) = false := by
  rw [startsWith, stripFront?_eq_none_of_head]
  · rfl
  · rintro _ ⟨⟩
    exact h

namespace IsColorName

variable (h : IsColorName body)

include h

theorem isColor : isColor body = true := by
  rcases h with h | ⟨hhead, -⟩
  · have hall : namedColors.all BoxHeader.isColor = true := by decide
    exact List.all_eq_true.1 hall body h
  · obtain ⟨rest, rfl⟩ := List.head?_eq_some_iff.1 hhead
    rfl

theorem isSpace_of_mem {c : Char} (hc : c ∈ body) : isSpace c = false := by
  rcases h with h | ⟨-, hsolid⟩
  · have hall : namedColors.all (fun name => ! name.any isSpace) = true := by decide
    exact eq_false_of_any (by simpa using List.all_eq_true.1 hall body h) hc
  · exact hsolid c hc

theorem ne_nil : body ≠ [] := by
  rintro rfl
  rcases h with h | ⟨hhead, -⟩
  · exact absurd h (by decide)
  · cases hhead

/-- It is no color in parentheses. -/
theorem startsWith_append {front : Text} (hfront : front ∈ ["rgb".toList, "hsl".toList]) (rest : Text) :
    startsWith front (body ++ rest) = false := by
  rcases h with h | ⟨hhead, -⟩
  · have hall : namedColors.all (fun name => 3 ≤ name.length ∧
        (["rgb".toList, "hsl".toList].all fun front => (stripFront? front name).isNone) = true) = true := by
      decide
    obtain ⟨hlength, hnone⟩ := of_decide_eq_true (List.all_eq_true.1 hall body h)
    have hthree : front.length = 3 := by
      rcases List.mem_pair.1 hfront with rfl | rfl <;> rfl
    rw [startsWith, stripFront?_eq_none_append
      (Option.isNone_iff_eq_none.1 (List.all_eq_true.1 hnone front hfront)) (hthree ▸ hlength)]
    rfl
  · obtain ⟨tail, rfl⟩ := List.head?_eq_some_iff.1 hhead
    rcases List.mem_pair.1 hfront with rfl | rfl <;> exact startsWith_eq_false (by decide) _ _

/-- A color is read as the color, and what follows it is the label. -/
theorem splitColor_append (htrim : IsTrimmed label) :
    splitColor (body ++ ' ' :: label) = (some body, label) := by
  have hspace : isSpace ' ' = true := by decide
  have hlabel : trim (' ' :: label) = label :=
    (trim_of_isBlank_append isBlank_singleton_space label).trans (trim_eq_self htrim)
  have hrgb := h.startsWith_append List.mem_cons_self (' ' :: label)
  have hhsl := h.startsWith_append (List.mem_cons_of_mem _ List.mem_cons_self) (' ' :: label)
  rw [splitColor, hrgb, hhsl, if_neg (by decide),
    headAndRest_append_cons (fun _ => h.isSpace_of_mem) hspace, hlabel]
  exact if_pos h.isColor

end IsColorName

/-- A label in quotes is no color. -/
theorem splitColor_quote (label : Text) : splitColor (quote label) = (none, quote label) := by
  have hcolor : ∀ rest, isColor ('"' :: rest) = false := by
    intro rest
    have hnamed : toLowerAscii ('"' :: rest) ∉ namedColors := by
      have hall : namedColors.all (fun name => name.head? ≠ some '"') = true := by decide
      intro hmem
      exact of_decide_eq_true (List.all_eq_true.1 hall _ hmem) rfl
    simp [isColor, startsWith_eq_false, hnamed]
  have hhead : headAndRest ('"' :: (escape label ++ ['"'])) =
      ('"' :: (headAndRest (escape label ++ ['"'])).1, (headAndRest (escape label ++ ['"'])).2) := by
    simp [headAndRest, isSpace_quote]
  rw [quote_eq_escape, splitColor, hhead]
  simp [startsWith_eq_false, hcolor]

/-- What is read of a header that is written. -/
theorem ofLine?_append (hw : IsBlank indent) (hne : body ≠ []) (htrim : IsTrimmed body) :
    ofLine? (indent ++ keyword ++ ' ' :: body) = some ⟨(splitColor body).1,
      if (splitColor body).2.isEmpty then none else some (unquote (splitColor body).2)⟩ := by
  have hwritten : IsTrimmed (keyword ++ ' ' :: body) := by
    constructor
    · rintro _ ⟨⟩
      decide
    · rw [List.append_cons, List.getLast?_append_of_ne_nil _ hne]
      exact htrim.last
  have hbody : trim (' ' :: body) = body :=
    (trim_of_isBlank_append isBlank_singleton_space body).trans (trim_eq_self htrim)
  have hspace : startsWithSpace (' ' :: body) = true := isBlank_singleton_space ' ' List.mem_cons_self
  rw [ofLine?, List.append_assoc, trim_of_isBlank_append hw, trim_eq_self hwritten,
    stripFront?_self_append]
  simp [hspace, hbody]
  

end BoxHeader

end DiagramEditor.Sequence
