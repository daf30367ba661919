import DiagramEditor.Render.Scheduler

/-!
# Requests over time

A run of the scheduler in which everything takes the time that it is said to take. The events of a
timeline come at given moments; each one makes a request, or puts all requests out of date. What is
due first happens first, and of several things due at the same moment the one of the earlier event.
-/

namespace DiagramEditor

/-- An event: a request for the text, or without one the end of all requests so far. -/
structure TimelineEvent where
  /-- When it comes, in milliseconds. -/
  moment : Nat
  text : Option Text
  /-- How long the renderer takes. -/
  latency : Nat
deriving DecidableEq, Repr

/-- What an event does next. -/
inductive TimelineAction where
  | arrive
  | wake (request : Nat)
  | answer (request : Nat)
  | settle (request : Nat)
deriving DecidableEq, Repr

/-- What is due, by the number of the event. -/
structure TimelineEntry where
  due : Nat
  event : Nat
  action : TimelineAction
deriving DecidableEq, Repr

/-- How long requests wait and how the renderer answers. -/
structure TimelineSetting where
  debounce : Nat
  extractionDelay : Nat
  /-- The message or the markup for a text. -/
  renderer : Text → Except Text Text

namespace Timeline

/-- The scheduler, what is due, and which request each event made. -/
structure State where
  scheduler : Scheduler := {}
  agenda : List TimelineEntry
  made : List (Nat × Nat) := []

/-- The first entry that is due, of several at the same moment that of the earliest event, and the
other entries. -/
def takeFirst? : List TimelineEntry → Option (TimelineEntry × List TimelineEntry)
  | [] => none
  | e :: rest =>
    match takeFirst? rest with
    | none => some (e, [])
    | some (f, others) =>
      if e.due < f.due || (e.due = f.due && e.event ≤ f.event) then some (e, rest)
      else some (f, e :: others)

/-- What the entry does, in the setting. -/
def perform (setting : TimelineSetting) (event : TimelineEvent) (entry : TimelineEntry)
    (s : State) : State :=
  match entry.action with
  | .arrive =>
    match event.text with
    | none => { s with scheduler := s.scheduler.step .invalidate }
    | some text =>
      let request := s.scheduler.requests.length
      { scheduler := s.scheduler.step (.claim text)
        agenda := ⟨entry.due + setting.debounce, entry.event, .wake request⟩ :: s.agenda
        made := (entry.event, request) :: s.made }
  | .wake request =>
    { s with
      scheduler := s.scheduler.step (.wake request)
      agenda := ⟨entry.due + event.latency, entry.event, .answer request⟩ :: s.agenda }
  | .answer request =>
    { s with
      scheduler := s.scheduler.step (.answer request (setting.renderer (event.text.getD [])))
      agenda := ⟨entry.due + setting.extractionDelay, entry.event, .settle request⟩ :: s.agenda }
  | .settle request => { s with scheduler := s.scheduler.step (.settle request) }

/-- The state after at most `fuel` more entries. -/
def runIn (setting : TimelineSetting) (events : List TimelineEvent) : (fuel : Nat) → State → State
  | 0, s => s
  | fuel + 1, s =>
    match takeFirst? s.agenda with
    | none => s
    | some (entry, rest) =>
      -- Every entry was made for an event of the list, so the first case does not occur.
      match events[entry.event]? with
      | none => runIn setting events fuel { s with agenda := rest }
      | some event => runIn setting events fuel (perform setting event entry { s with agenda := rest })

/-- The state when everything is over. An event takes at most four steps. -/
def run (setting : TimelineSetting) (events : List TimelineEvent) : State :=
  runIn setting events (4 * events.length)
    { agenda := events.mapIdx fun i event => ⟨event.moment, i, .arrive⟩ }

/-- What became of each event: the outcome of its request, or none if it made no request. -/
def outcomes (events : List TimelineEvent) (s : State) : List (Option RenderOutcome) :=
  events.mapIdx fun i _ => (s.made.lookup i).bind fun request => s.scheduler.outcome? request

end Timeline

end DiagramEditor
