import DiagramEditor.Proofs.Session.Transaction
import Mathlib.Data.List.Induction
import Mathlib.Logic.Function.Basic

/-!
# Sessions with several clients

Any number of clients edit one session, and the text may be typed anew at any moment. A client reads
the document, and later sends a batch of edits for the revision that it has read. In between other
clients may have done the same.

A batch is accepted only for the revision that the document has, and whatever changes the source
counts the revision up (`SharedSession.document_step`). So a document is known by its revision, and
no client changes a document that it has not read: `SharedSession.run_noLostUpdate`. This ends where
revisions end, since the last of them is never left.
-/

namespace DiagramEditor

/-- A session and what its clients know. -/
structure SharedSession where
  session : Session
  /-- The document as the client has read it last. -/
  readings : Nat → Option Document := fun _ => none

/-- What a client does, or the user who types. -/
inductive SharedStep where
  | read (client : Nat)
  /-- The client sends edits for the revision that it has read last. -/
  | submit (client : Nat) (ops : List Op)
  | type (text : Text)
deriving DecidableEq, Repr

namespace SharedSession

/-- The session after one step. A client that has read nothing has nothing to edit. -/
def step (s : SharedSession) : SharedStep → SharedSession
  | .read client => { s with readings := Function.update s.readings client s.session.document }
  | .submit client ops =>
    match s.readings client with
    | some d => { s with session := (s.session.applyBatch d.rev ops).2 }
    | none => s
  | .type text => { s with session := s.session.replaceText text }

/-- The session after the steps, in which nobody has read anything at the start. -/
def ofSteps (start : Session) (steps : List SharedStep) : SharedSession :=
  steps.foldl step { session := start }

/-- The document of the session. -/
def document (s : SharedSession) : Document :=
  s.session.document

variable {s : SharedSession} {st : SharedStep} {start : Session}
  {steps front back : List SharedStep}

theorem ofSteps_concat (start : Session) (steps : List SharedStep) (st : SharedStep) :
    ofSteps start (steps ++ [st]) = (ofSteps start steps).step st :=
  List.foldl_append

/-! ## Revisions -/

/-- A step leaves the document alone, or it leaves another one with the next revision. -/
theorem document_step (s : SharedSession) (st : SharedStep) :
    (s.step st).document = s.document ∨
      (s.step st).document.rev = min (s.document.rev + 1) Document.lastRev := by
  cases st with
  | read client => exact .inl rfl
  | submit client ops =>
    rw [step]
    cases s.readings client with
    | none => exact .inl rfl
    | some d =>
      dsimp only
      have hanswers := s.session.answers_applyBatch d.rev ops
      generalize s.session.applyBatch d.rev ops = answer at hanswers ⊢
      cases hanswers with
      | refused => exact .inl rfl
      | empty => exact .inl rfl
      | committed => exact .inr rfl
  | type text => exact .inr rfl

/-- Whoever comes behind the last revision stays there. -/
theorem rev_lt_of_step (h : (s.step st).document.rev < Document.lastRev) :
    s.document.rev < Document.lastRev := by
  rcases document_step s st with hsame | hnext
  · rwa [hsame] at h
  · omega

theorem rev_lt_of_append (h : (ofSteps start (front ++ back)).document.rev < Document.lastRev) :
    (ofSteps start front).document.rev < Document.lastRev := by
  induction back using List.reverseRecOn with
  | nil => rwa [List.append_nil] at h
  | append_singleton back st ih =>
    rw [← List.append_assoc, ofSteps_concat] at h
    exact ih (rev_lt_of_step h)

/-- In the course of a run the document stays as it is, or its revision grows. -/
theorem document_append (h : (ofSteps start (front ++ back)).document.rev < Document.lastRev) :
    (ofSteps start (front ++ back)).document = (ofSteps start front).document ∨
      (ofSteps start front).document.rev < (ofSteps start (front ++ back)).document.rev := by
  induction back using List.reverseRecOn with
  | nil => exact .inl (by rw [List.append_nil])
  | append_singleton back st ih =>
    rw [← List.append_assoc, ofSteps_concat] at h ⊢
    have hlt := rev_lt_of_step h
    rcases document_step (ofSteps start (front ++ back)) st with hsame | hnext
    · rw [hsame]
      exact ih hlt
    · -- Below the last revision the next one is greater, whatever came before it.
      refine .inr ?_
      rcases ih hlt with heq | hgrown
      · rw [heq] at hlt hnext
        omega
      · omega

/-- Two moments of a run with the same revision have the same document. -/
theorem document_eq_of_rev_eq {front' : List SharedStep} (hfront : front <+: steps)
    (hfront' : front' <+: steps) (h : (ofSteps start steps).document.rev < Document.lastRev)
    (hrev : (ofSteps start front).document.rev = (ofSteps start front').document.rev) :
    (ofSteps start front).document = (ofSteps start front').document := by
  have hsame : ∀ {a b : List SharedStep}, a <+: b → b <+: steps →
      (ofSteps start a).document.rev = (ofSteps start b).document.rev →
        (ofSteps start a).document = (ofSteps start b).document := by
    rintro a _ ⟨more, rfl⟩ ⟨rest, rfl⟩ hrev
    rcases document_append (rev_lt_of_append h) with heq | hlt
    · exact heq.symm
    · omega
  rcases List.prefix_or_prefix_of_prefix hfront hfront' with hle | hle
  · exact hsame hle hfront' hrev
  · exact (hsame hle hfront hrev.symm).symm

/-- What a client has read is what the document was at that moment. -/
theorem exists_prefix_of_reading {client : Nat} {d : Document}
    (h : (ofSteps start steps).readings client = some d) :
    ∃ front, front <+: steps ∧ (ofSteps start front).document = d := by
  induction steps using List.reverseRecOn with
  | nil => cases h
  | append_singleton steps st ih =>
    have hearlier : (ofSteps start steps).readings client = some d →
        ∃ front, front <+: steps ++ [st] ∧ (ofSteps start front).document = d := by
      intro h
      obtain ⟨front, hfront, hd⟩ := ih h
      exact ⟨front, hfront.trans (List.prefix_append _ _), hd⟩
    rw [ofSteps_concat] at h
    -- Only its own readings change what a client knows.
    cases st with
    | read other =>
      by_cases hclient : client = other
      · subst hclient
        have h : Function.update (ofSteps start steps).readings client _ client = some d := h
        rw [Function.update_self] at h
        exact ⟨steps, List.prefix_append _ _, Option.some.inj h⟩
      · have h : Function.update (ofSteps start steps).readings other _ client = some d := h
        rw [Function.update_of_ne hclient] at h
        exact hearlier h
    | submit other ops =>
      rw [step] at h
      split at h <;> exact hearlier h
    | type text => exact hearlier h

/-! ## Updates -/

/-- The promises of a session to the clients of this run. -/
structure NoLostUpdate (start : Session) (steps : List SharedStep) : Prop where
  /-- Edits that are accepted are made to the document that their client has read. -/
  committed : ∀ front client ops back, steps = front ++ .submit client ops :: back → ops ≠ [] →
    ∀ d, (ofSteps start front).readings client = some d →
      ∀ result, ((ofSteps start front).session.applyBatch d.rev ops).1 = .ok result →
        (ofSteps start front).document.source = d.source ∧
          (ofSteps start front).document.kind = d.kind
  /-- Edits that are refused change the notice, and perhaps the allocator, and nothing else. -/
  refused : ∀ front client ops back, steps = front ++ .submit client ops :: back →
    ∀ d, (ofSteps start front).readings client = some d →
      ∀ e, ((ofSteps start front).session.applyBatch d.rev ops).1 = .error e → ∃ ids,
        ofSteps start (front ++ [.submit client ops]) =
          { ofSteps start front with
            session := { (ofSteps start front).session with ids, notice := some e.message } }
  /-- The source and its kind are known by the revision. -/
  same : ∀ front front', front <+: steps → front' <+: steps →
    (ofSteps start front).document.rev = (ofSteps start front').document.rev →
      (ofSteps start front).document.source = (ofSteps start front').document.source ∧
        (ofSteps start front).document.kind = (ofSteps start front').document.kind

/-- However many clients there are, and whatever the order of their steps. -/
theorem run_noLostUpdate (start : Session) (steps : List SharedStep)
    (h : (ofSteps start steps).document.rev < Document.lastRev) : NoLostUpdate start steps where
  committed front client ops back hsplit hops d hd result hok := by
    have hprefix : front <+: steps := hsplit ▸ List.prefix_append _ _
    obtain ⟨read, hread, rfl⟩ := exists_prefix_of_reading hd
    have hanswers := (ofSteps start front).session.answers_applyBatch
      (ofSteps start read).document.rev ops
    generalize (ofSteps start front).session.applyBatch _ ops = answer at hanswers hok
    cases hanswers with
    | refused => cases hok
    | empty hnil => exact absurd hnil hops
    | committed _ _ _ _ hrev =>
      -- Then and now the document has the same revision.
      have heq := document_eq_of_rev_eq hprefix (hread.trans hprefix) h hrev.symm
      exact ⟨congrArg _ heq, congrArg _ heq⟩
  refused front client ops back hsplit d hd e herror := by
    have hanswers := (ofSteps start front).session.answers_applyBatch d.rev ops
    rw [ofSteps_concat, step, hd]
    dsimp only
    generalize (ofSteps start front).session.applyBatch d.rev ops = answer at hanswers herror ⊢
    cases hanswers with
    | refused e' ids => cases herror; exact ⟨ids, rfl⟩
    | empty => cases herror
    | committed => cases herror
  same front front' hfront hfront' hrev := by
    have heq := document_eq_of_rev_eq hfront hfront' h hrev
    exact ⟨congrArg _ heq, congrArg _ heq⟩

/-- Two clients read the same document. The second one is refused, and so it is after it has read
again and the text has been typed in the meantime. -/
theorem run_noLostUpdate_two_clients :
    let steps : List SharedStep :=
      [.read 0, .read 1, .submit 0 [.flowchart (.addNode none .rect "new".toList)],
        .submit 1 [.flowchart (.deleteNode ['A'])], .read 1, .type "flowchart TD\nA\nB".toList,
        .submit 1 [.flowchart (.deleteNode ['A'])], .read 1,
        .submit 1 [.flowchart (.deleteNode ['A'])]]
    ∃ start, Session.ofSaved ⟨"d1".toList, "T".toList, "flowchart TD\nA".toList, 0⟩ = .ok start ∧
      (ofSteps start (steps.take 4)).document.source.toText =
        "flowchart TD\nA\nN1[\"new\"]".toList ∧
      (ofSteps start (steps.take 7)).document.source.toText = "flowchart TD\nA\nB".toList ∧
      (ofSteps start steps).document.source.toText = "flowchart TD\nB".toList ∧
      (ofSteps start steps).document.rev < Document.lastRev ∧ NoLostUpdate start steps := by
  intro steps
  refine ⟨_, rfl, by decide +kernel, by decide +kernel, by decide +kernel, by decide +kernel, ?_⟩
  exact run_noLostUpdate _ steps (by decide +kernel)

end SharedSession

end DiagramEditor
