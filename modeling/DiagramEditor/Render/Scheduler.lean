import DiagramEditor.Text.Numeral

/-!
# Render requests

A renderer outside of the editor turns a source into markup, which takes time, while the user goes
on typing. So each request has a token, tokens count up, and only the request with the latest token
matters: the others are superseded.

A request waits until the text has not changed for a while, then asks the renderer, and waits once
more after a good answer. After each of these it looks whether its token is still the latest, and
gives up if it is not (`Scheduler.step`). Any number of requests are under way at the same time, and
their steps may come in any order; a step for a request that is not at that point does nothing.
-/

namespace DiagramEditor

/-- What became of a request. -/
inductive RenderOutcome where
  /-- The markup of the text. -/
  | rendered (token : Nat) (text svg : Text)
  /-- The renderer refused the text. -/
  | failed (token : Nat) (message : Text)
  /-- There is a later request. -/
  | superseded (token : Nat)
deriving DecidableEq, Repr

namespace RenderOutcome

/-- The token of the request. -/
def token : RenderOutcome → Nat
  | rendered token _ _ | failed token _ | superseded token => token

/-- What the user reads when the renderer refused the text. -/
def failureText (message : Text) : Text :=
  "render failed: ".toList ++ message

end RenderOutcome

/-- The tokens that have been given out: all numbers from one to the latest. They are numbers of 64
bits, and begin anew at zero behind the last one. -/
structure TokenCounter where
  latest : Nat := 0
deriving DecidableEq, Repr

namespace TokenCounter

/-- The counter after one more token, which is the latest then. -/
def next (c : TokenCounter) : TokenCounter :=
  ⟨(c.latest + 1) % Text.indexBound⟩

/-- The token is the latest. -/
def isCurrent (token : Nat) (c : TokenCounter) : Bool :=
  c.latest = token

end TokenCounter

/-- The id that the renderer is given for the request with this token. -/
def renderId (stem : Text) (token : Nat) : Text :=
  stem ++ '-' :: Text.ofNat token

/-- How far a request has come. -/
inductive RequestStage where
  /-- The text may still change. -/
  | waiting
  /-- The renderer has been asked. -/
  | rendering
  /-- The renderer has given its markup. -/
  | settling (svg : Text)
  | finished (outcome : RenderOutcome)
deriving DecidableEq, Repr

/-- A request. -/
structure RenderRequest where
  token : Nat
  text : Text
  stage : RequestStage := .waiting
deriving DecidableEq, Repr

/-- All requests in the order of their tokens, and those that the renderer was asked for. -/
structure Scheduler where
  counter : TokenCounter := {}
  requests : List RenderRequest := []
  /-- The tokens and texts that the renderer was asked for, in order. -/
  calls : List (Nat × Text) := []
deriving DecidableEq, Repr

/-- One step of one request. Requests are numbered in the order in which they are made. -/
inductive ScheduleStep where
  /-- A new request. -/
  | claim (text : Text)
  /-- All requests so far are out of date. -/
  | invalidate
  /-- The request has waited long enough. -/
  | wake (request : Nat)
  /-- The renderer answers the request with a message or with markup. -/
  | answer (request : Nat) (result : Except Text Text)
  /-- The request has waited once more. -/
  | settle (request : Nat)

namespace Scheduler

/-- The request at another stage. -/
def setStage (i : Nat) (stage : RequestStage) (s : Scheduler) : Scheduler :=
  { s with requests := s.requests.modify i fun r => { r with stage } }

/-- The request goes on to `stage` if its token is the latest, and is superseded otherwise. -/
def advance (i : Nat) (r : RenderRequest) (stage : RequestStage) (s : Scheduler) : Scheduler :=
  if s.counter.isCurrent r.token then s.setStage i stage
  else s.setStage i (.finished (.superseded r.token))

/-- The scheduler after one step. -/
def step (s : Scheduler) : ScheduleStep → Scheduler
  | .claim text =>
    let counter := s.counter.next
    { s with counter, requests := s.requests ++ [{ token := counter.latest, text }] }
  | .invalidate => { s with counter := s.counter.next }
  | .wake i =>
    match s.requests[i]? with
    | some ⟨token, text, .waiting⟩ =>
      let asked := if s.counter.isCurrent token then
        { s with calls := s.calls ++ [(token, text)] } else s
      asked.advance i ⟨token, text, .waiting⟩ .rendering
    | _ => s
  | .answer i result =>
    match s.requests[i]? with
    | some ⟨token, text, .rendering⟩ =>
      s.advance i ⟨token, text, .rendering⟩ (match result with
        | .ok svg => .settling svg
        | .error message => .finished (.failed token message))
    | _ => s
  | .settle i =>
    match s.requests[i]? with
    | some ⟨token, text, .settling svg⟩ =>
      s.advance i ⟨token, text, .settling svg⟩ (.finished (.rendered token text svg))
    | _ => s

/-- What became of the request, if it has come to its end. -/
def outcome? (i : Nat) (s : Scheduler) : Option RenderOutcome :=
  match s.requests[i]? with
  | some ⟨_, _, .finished outcome⟩ => some outcome
  | _ => none

end Scheduler

end DiagramEditor
