import DiagramEditor.Proofs.Edit.Batch
import DiagramEditor.Proofs.Edit.EntityRelation.Flat
import DiagramEditor.Proofs.Edit.Flowchart.Flat
import DiagramEditor.Proofs.Edit.Sequence.Flat
import DiagramEditor.Session

/-!
# Sessions that are saved and loaded

A session changes its text in two ways: by batches of edits and by texts that the user types
(`TextChange`). As long as no carriage return is typed and no edit writes a line break
(`TextChange.IsFlat`), the source stays flat, so at every point of a run it comes back from the
stored text with the balance that it has in memory (`Session.run_reloads`).

An edit does write line breaks, though: a label with line feeds is one line in memory and several in
the text (`Session.run_not_reloads`).

Without any change in between, the text is stored as it was opened, except for carriage returns at
the ends of lines (`Session.round_trip`).
-/

namespace DiagramEditor

open Text Source

/-- The texts that the edit writes without having checked them. -/
def Op.freeTexts : Op → List Text
  | flowchart op => op.freeTexts
  | er op => op.freeTexts
  | sequence op => op.freeTexts

/-! ## Batches -/

namespace Edit

variable {kind : Kind} {s : Source}

theorem applyOp_isFlat {op : Op} (h : s.IsFlat) (hop : AllFlat op.freeTexts) (ids : IdAllocator) :
    LeavesFlat (applyOp kind op s ids).1 := by
  cases kind <;> cases op <;> first
    | exact Flowchart.apply_isFlat h hop ids
    | exact EntityRelation.apply_isFlat h hop ids
    | exact Sequence.apply_isFlat h hop
    | exact .error _

theorem applyOps_isFlat {ops : List Op} {e : Edited} (h : e.source.IsFlat)
    (hops : ∀ op ∈ ops, AllFlat op.freeTexts) (ids : IdAllocator) :
    LeavesFlat (applyOps kind ops e ids).1 :=
  applyOps_invariant (fun op hop _ ids next hs hnext _ => applyOp_isFlat hs (hops op hop) ids next hnext)
    h ids

end Edit

/-! ## Runs -/

/-- One change of the text of a session. -/
inductive TextChange where
  | edit (baseRev : Nat) (ops : List Op)
  | type (text : Text)
deriving DecidableEq, Repr

/-- The change brings no line break into a line. -/
def TextChange.IsFlat : TextChange → Prop
  | edit _ ops => ∀ op ∈ ops, AllFlat op.freeTexts
  | type text => '\r' ∉ text

instance : DecidablePred TextChange.IsFlat
  | .edit _ ops => inferInstanceAs (Decidable (∀ op ∈ ops, AllFlat op.freeTexts))
  | .type text => inferInstanceAs (Decidable ('\r' ∉ text))

theorem DiagramId.text_of_ofText {text : Text} {id : DiagramId} (h : DiagramId.ofText text = .ok id) :
    id.text = text := by
  rw [DiagramId.ofText] at h
  split at h
  · cases h
  · split at h
    · cases h
    · cases h
      rfl

namespace Session

variable {session : Session}

/-- The session after the change. -/
def change (session : Session) : TextChange → Session
  | .edit baseRev ops => (session.applyBatch baseRev ops).2
  | .type text => session.replaceText text

/-- The session after the changes, one after the other. -/
def run (session : Session) (changes : List TextChange) : Session :=
  changes.foldl change session

theorem applyBatch_isFlat {ops : List Op} (h : session.document.source.IsFlat)
    (hops : ∀ op ∈ ops, AllFlat op.freeTexts) (baseRev : Nat) :
    (session.applyBatch baseRev ops).2.document.source.IsFlat := by
  have hbatch : Edit.LeavesFlat (Edit.applyOps session.document.kind ops
      ⟨session.document.source, none⟩ session.ids).1 := Edit.applyOps_isFlat h hops session.ids
  rw [applyBatch]
  split
  · next result document ids hok =>
    rw [Document.applyBatch] at hok
    split at hok
    · cases hok
    · split at hok
      · cases hok
        exact h
      · obtain ⟨e, he, heq⟩ := Edit.map_eq_ok.1 (congrArg Prod.fst hok)
        cases heq
        exact hbatch e he
  · exact h

theorem change_isFlat {c : TextChange} (h : session.document.source.IsFlat) (hc : c.IsFlat) :
    (session.change c).document.source.IsFlat := by
  cases c with
  | edit baseRev ops => exact applyBatch_isFlat h hc baseRev
  | type text => exact isFlat_ofText hc

theorem run_isFlat {changes : List TextChange} (h : session.document.source.IsFlat)
    (hchanges : ∀ c ∈ changes, c.IsFlat) : (session.run changes).document.source.IsFlat :=
  List.foldlRecOn changes change (motive := fun s : Session => s.document.source.IsFlat) h
    fun _ hs c hc => change_isFlat hs (hchanges c hc)

/-- A run without line breaks that starts from a text without carriage returns: at its end the
source comes back from the stored text, with the balance that it has in memory. -/
theorem run_reloads {text : Text} {changes : List TextChange}
    (hsource : session.document.source = .ofText text) (htext : '\r' ∉ text)
    (hchanges : ∀ c ∈ changes, c.IsFlat) :
    Reloads (session.run changes).document.source ∧
      ∀ kind : Kind, (Source.ofText (session.run changes).toSaved.code).checkBalance kind.blockRules =
        (session.run changes).document.source.checkBalance kind.blockRules := by
  have hflat : session.document.source.IsFlat := hsource ▸ isFlat_ofText htext
  have hreloads := (run_isFlat hflat hchanges).reloads
  refine ⟨hreloads, fun kind => checkBalance_of_reloads ?_ hreloads⟩
  cases kind <;> decide

/-- A node that is added, a text that is typed and a node that is deleted. -/
theorem run_reloads_sample :
    let code := "flowchart TD\nA".toList
    let changes : List TextChange :=
      [.edit 0 [.flowchart (.addNode (some ['N']) .rect "a label".toList)],
        .type "flowchart TD\nsubgraph s\nA --> N\nend\n".toList,
        .edit 2 [.flowchart (.deleteNode ['A'])]]
    ∃ session, ofSaved ⟨"d1".toList, "T".toList, code, 0⟩ = .ok session ∧
      session.document.source = .ofText code ∧ '\r' ∉ code ∧ (∀ c ∈ changes, c.IsFlat) ∧
        (session.run changes).document.rev = 3 ∧
        Reloads (session.run changes).document.source ∧
        ∀ kind : Kind,
          (Source.ofText (session.run changes).toSaved.code).checkBalance kind.blockRules =
            (session.run changes).document.source.checkBalance kind.blockRules := by
  intro code changes
  have htext : '\r' ∉ code := by decide
  have hchanges : ∀ c ∈ changes, c.IsFlat := by decide
  exact ⟨_, rfl, rfl, htext, hchanges, by decide +kernel, run_reloads rfl htext hchanges⟩

/-- A label with line feeds is one line of the source, balanced, and several lines of the text, the
second of which closes a block that nothing opened. -/
theorem run_not_reloads :
    ∃ session, ofSaved ⟨"d1".toList, "T".toList, "flowchart TD\nA".toList, 0⟩ = .ok session ∧
      let op := FlowchartOp.addNode (some ['N']) .rect "x\nend\ny".toList
      let after := (session.run [.edit 0 [.flowchart op]]).document
      after.rev = 1 ∧ Edit.isBalanced .flowchart after.source = true ∧ ¬Reloads after.source ∧
        Edit.isBalanced .flowchart (Source.ofText after.source.toText) = false := by
  refine ⟨_, rfl, by decide +kernel, by decide +kernel, ?_, by decide +kernel⟩
  unfold Reloads
  decide +kernel

/-! ## Storing what was opened -/

/-- A stored diagram that can be opened is stored again as it was, without the carriage returns at
the ends of its lines. -/
theorem ofSaved_map_toSaved {saved : SavedDiagram} {id : DiagramId} {kind : Kind}
    (hid : DiagramId.ofText saved.id = .ok id) (hkind : (Source.ofText saved.code).kind? = some kind) :
    (ofSaved saved).map toSaved = .ok { saved with code := withoutReturns saved.code } := by
  have hdocument : Document.ofText? saved.code = some ⟨kind, Source.ofText saved.code, 0⟩ := by
    rw [Document.ofText?, hkind]
    rfl
  rw [ofSaved, hid, hdocument]
  simp [Except.mapError, Except.map, toSaved, bind, Except.bind, pure, Except.pure,
    DiagramId.text_of_ofText hid, toText_ofText]

/-- A text comes back from its lines without the carriage returns in front of line feeds and at its
end. So it comes back as it was if it has none, and so does a diagram with such a text that is
opened and stored again. -/
theorem round_trip :
    (∀ text, (Source.ofText text).toText = withoutReturns text) ∧
      (∀ text, '\r' ∉ text → (Source.ofText text).toText = text) ∧
      ∀ (saved : SavedDiagram) (id : DiagramId) (kind : Kind),
        DiagramId.ofText saved.id = .ok id → (Source.ofText saved.code).kind? = some kind →
          '\r' ∉ saved.code → (ofSaved saved).map toSaved = .ok saved := by
  refine ⟨toText_ofText, fun text h => ?_, fun saved id kind hid hkind hcode => ?_⟩
  · rw [toText_ofText, withoutReturns_eq_self h]
  · rw [ofSaved_map_toSaved hid hkind, withoutReturns_eq_self hcode]

/-- Line ends of both kinds, a carriage return in front of another one and a last line that ends in
one; and a diagram with a blank line at its end. -/
theorem round_trip_sample :
    (Source.ofText "a\r\n\nb\r\r\nc\rd\r".toList).toText = "a\n\nb\r\nc\rd".toList ∧
      (Source.ofText "a\n\n".toList).toText = "a\n\n".toList ∧
      let saved : SavedDiagram := ⟨"d1".toList, "T".toList, "flowchart TD\nA --> B\n\n".toList, 7⟩
      (ofSaved saved).map toSaved = .ok saved := by
  obtain ⟨hreturns, hsame, hsaved⟩ := round_trip
  refine ⟨(hreturns _).trans (by decide), hsame _ (by decide), ?_⟩
  exact hsaved _ ⟨"d1".toList, by decide, by decide⟩ .flowchart rfl (by decide +kernel) (by decide)

end Session

end DiagramEditor
