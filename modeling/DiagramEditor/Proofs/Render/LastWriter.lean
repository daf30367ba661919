import DiagramEditor.Proofs.Lists
import DiagramEditor.Proofs.Text.Numeral
import DiagramEditor.Render.Scheduler
import Mathlib.Data.List.Induction
import Mathlib.Data.List.Nodup

/-!
# The last writer wins

Requests and invalidations come in any number, and their steps in any order. A request goes on only
while its token is the latest (`RenderRequest.GoesOn`), so one that is overtaken can only end as
superseded (`Scheduler.IsOvertaken`). As tokens are given out in increasing order, what is known of
a scheduler after a run is `Scheduler.IsConsistent`: its tokens increase up to the latest one, and
the renderer was asked at most once for each.

The main statement is `Scheduler.run_lastWriterWins`. It holds as long as the counter of tokens has
not begun anew, which takes more tokens than there are numbers of 64 bits.
-/

namespace DiagramEditor

open Text

/-- There was a later request. -/
def RenderOutcome.isSuperseded : RenderOutcome → Bool
  | superseded _ => true
  | _ => false

namespace ScheduleStep

/-- The step gives out a token. -/
def givesToken : ScheduleStep → Bool
  | claim _ | invalidate => true
  | _ => false

/-- The text of the request that the step makes. -/
def claimed? : ScheduleStep → Option Text
  | claim text => some text
  | _ => none

/-- The request that the step is about. -/
def request? : ScheduleStep → Option Nat
  | wake i | answer i _ | settle i => some i
  | _ => none

end ScheduleStep

/-! ## One request -/

/-- What became of a request at this stage. -/
def RequestStage.outcome? : RequestStage → Option RenderOutcome
  | finished outcome => some outcome
  | _ => none

namespace RenderRequest

/-- The stages that a request can come to in one step while `latest` is the latest token. -/
inductive GoesOn (latest : Nat) : RenderRequest → RequestStage → Prop
  | superseded {r : RenderRequest} : r.stage.outcome? = none → r.token ≠ latest →
      GoesOn latest r (.finished (.superseded r.token))
  | asked {text : Text} : GoesOn latest ⟨latest, text, .waiting⟩ .rendering
  | answered {text svg : Text} : GoesOn latest ⟨latest, text, .rendering⟩ (.settling svg)
  | failed {text message : Text} :
      GoesOn latest ⟨latest, text, .rendering⟩ (.finished (.failed latest message))
  | rendered {text svg : Text} :
      GoesOn latest ⟨latest, text, .settling svg⟩ (.finished (.rendered latest text svg))

/-- What the renderer is asked for by a request that comes to this stage. -/
def callsAt (stage : RequestStage) (r : RenderRequest) : List (Nat × Text) :=
  if stage = .rendering then [(r.token, r.text)] else []

variable {latest : Nat} {r : RenderRequest} {stage : RequestStage} {o : RenderOutcome}

theorem GoesOn.unfinished (h : r.GoesOn latest stage) : r.stage.outcome? = none := by
  cases h with
  | superseded h => exact h
  | _ => rfl

theorem GoesOn.ne_waiting (h : r.GoesOn latest stage) : stage ≠ .waiting := by
  cases h <;> exact nofun

theorem GoesOn.token_eq (h : r.GoesOn latest (.finished o)) : o.token = r.token := by
  cases h <;> rfl

/-- A request that comes to its end is superseded exactly if its token is not the latest. -/
theorem GoesOn.isSuperseded_iff (h : r.GoesOn latest (.finished o)) :
    o.isSuperseded = false ↔ r.token = latest := by
  cases h with
  | superseded _ hne => simpa [RenderOutcome.isSuperseded] using hne
  | _ => simp [RenderOutcome.isSuperseded]

/-- The renderer is asked only for the request with the latest token, while it waits. -/
theorem GoesOn.of_mem_callsAt (h : r.GoesOn latest stage) {c : Nat × Text}
    (hc : c ∈ r.callsAt stage) : c = (r.token, r.text) ∧ r.stage = .waiting ∧ r.token = latest := by
  cases h with
  | asked => exact ⟨List.mem_singleton.1 hc, rfl, rfl⟩
  | _ => cases hc

end RenderRequest

/-! ## One step -/

namespace Scheduler

variable {s : Scheduler} {st : ScheduleStep} {i : Nat} {r : RenderRequest} {stage : RequestStage}
  {o : RenderOutcome} {steps : List ScheduleStep}

/-- The scheduler after the request number `i` has come to another stage. -/
def goOn (i : Nat) (r : RenderRequest) (stage : RequestStage) (s : Scheduler) : Scheduler :=
  { s.setStage i stage with calls := s.calls ++ r.callsAt stage }

/-- Everything that a step can do. -/
inductive Follows (s : Scheduler) : ScheduleStep → Scheduler → Prop
  | claim (text : Text) : Follows s (.claim text)
      { s with
        counter := s.counter.next
        requests := s.requests ++ [{ token := s.counter.next.latest, text }] }
  | invalidate : Follows s .invalidate { s with counter := s.counter.next }
  /-- The request is not at the point that the step is about, or there is no such request. -/
  | idle {step : ScheduleStep} : step.givesToken = false → Follows s step s
  | goesOn {step : ScheduleStep} {i : Nat} {r : RenderRequest} {stage : RequestStage} :
      step.request? = some i → s.requests[i]? = some r → r.GoesOn s.counter.latest stage →
      Follows s step (s.goOn i r stage)

/-- A request that the step goes on with, after its token has been looked at. -/
theorem Follows.advance (hst : st.request? = some i) (hr : s.requests[i]? = some r)
    (hstage : stage ≠ .rendering) (hopen : r.stage.outcome? = none)
    (hgoes : r.token = s.counter.latest → r.GoesOn s.counter.latest stage) :
    Follows s st (s.advance i r stage) := by
  rw [Scheduler.advance, TokenCounter.isCurrent]
  -- With any token but the latest the request ends here, whatever it was about to do.
  by_cases hcurrent : s.counter.latest = r.token
  · rw [if_pos (decide_eq_true hcurrent)]
    simpa [goOn, RenderRequest.callsAt, hstage, setStage] using
      Follows.goesOn hst hr (hgoes hcurrent.symm)
  · rw [if_neg (by simpa using hcurrent)]
    simpa [goOn, RenderRequest.callsAt, setStage] using
      Follows.goesOn hst hr (.superseded hopen (Ne.symm hcurrent))

theorem follows_step (s : Scheduler) (st : ScheduleStep) : Follows s st (s.step st) := by
  cases st with
  | claim text => exact .claim text
  | invalidate => exact .invalidate
  | wake i =>
    rw [step]
    split
    · next token text hr =>
      by_cases hcurrent : s.counter.latest = token
      · -- The renderer is asked before the stage changes, which makes no difference.
        subst hcurrent
        simpa [goOn, RenderRequest.callsAt, TokenCounter.isCurrent, advance, setStage] using
          (Follows.goesOn rfl hr .asked : Follows s (.wake i) _)
      · simpa [goOn, RenderRequest.callsAt, TokenCounter.isCurrent, advance, setStage, hcurrent]
          using (Follows.goesOn rfl hr (.superseded rfl (Ne.symm hcurrent)) : Follows s (.wake i) _)
    · exact .idle rfl
  | answer i result =>
    rw [step]
    split
    · next token text hr =>
      cases result with
      | ok svg => exact .advance rfl hr nofun rfl fun h => by cases h; exact .answered
      | error message => exact .advance rfl hr nofun rfl fun h => by cases h; exact .failed
    · exact .idle rfl
  | settle i =>
    rw [step]
    split
    · next token text svg hr =>
      exact .advance rfl hr nofun rfl fun h => by cases h; exact .rendered
    · exact .idle rfl

/-! ### One request among the others -/

theorem getElem?_goOn_self (stage : RequestStage) (hr : s.requests[i]? = some r) :
    (s.goOn i r stage).requests[i]? = some { r with stage } := by
  rw [goOn, setStage, List.getElem?_modify_eq, hr]
  rfl

theorem getElem?_goOn_of_ne {j : Nat} (hij : i ≠ j) (r : RenderRequest) (stage : RequestStage) :
    (s.goOn i r stage).requests[j]? = s.requests[j]? :=
  List.getElem?_modify_ne _ _ hij

theorem map_token_goOn : (s.goOn i r stage).requests.map (·.token) = s.requests.map (·.token) :=
  map_modify_of_eq (f := fun r : RenderRequest => { r with stage }) (fun _ => rfl) i s.requests

theorem map_text_goOn : (s.goOn i r stage).requests.map (·.text) = s.requests.map (·.text) :=
  map_modify_of_eq (f := fun r : RenderRequest => { r with stage }) (fun _ => rfl) i s.requests

/-- The request that goes on is at its new stage, and the others are where they were. -/
theorem mem_goOn {r' : RenderRequest} (stage : RequestStage) (hr : s.requests[i]? = some r)
    (h : r' ∈ s.requests) : r' ∈ (s.goOn i r stage).requests ∨
      r' = r ∧ { r' with stage } ∈ (s.goOn i r stage).requests := by
  obtain ⟨j, hj⟩ := List.getElem?_of_mem h
  by_cases hij : i = j
  · subst hij
    obtain rfl := Option.some.inj (hj.symm.trans hr)
    exact .inr ⟨rfl, List.mem_of_getElem? (getElem?_goOn_self stage hr)⟩
  · exact .inl (List.mem_of_getElem? ((getElem?_goOn_of_ne hij r stage).trans hj))

/-! ## Runs -/

/-- The scheduler after the steps, one after the other. -/
def run (s : Scheduler) (steps : List ScheduleStep) : Scheduler :=
  steps.foldl step s

/-- The scheduler after the steps from the start. -/
def ofSteps (steps : List ScheduleStep) : Scheduler :=
  run {} steps

theorem run_append (s : Scheduler) (steps more : List ScheduleStep) :
    s.run (steps ++ more) = (s.run steps).run more :=
  List.foldl_append

theorem ofSteps_concat (steps : List ScheduleStep) (st : ScheduleStep) :
    ofSteps (steps ++ [st]) = (ofSteps steps).step st :=
  run_append {} steps [st]

/-- The number of tokens that the steps give out. -/
def tokensGiven (steps : List ScheduleStep) : Nat :=
  steps.countP ScheduleStep.givesToken

/-- What is known of the scheduler after these steps. -/
structure IsConsistent (steps : List ScheduleStep) (s : Scheduler) : Prop where
  latest_eq : s.counter.latest = tokensGiven steps
  texts : s.requests.map (·.text) = steps.filterMap ScheduleStep.claimed?
  increasing : (s.requests.map (·.token)).Pairwise (· < ·)
  le_latest : ∀ token ∈ s.requests.map (·.token), token ≤ s.counter.latest
  /-- The renderer is asked once at most. -/
  nodup_calls : (s.calls.map Prod.fst).Nodup
  /-- A request that the renderer was asked for does not wait any more. -/
  called : ∀ c ∈ s.calls, ∃ r ∈ s.requests, (r.token, r.text) = c ∧ r.stage ≠ .waiting

/-- A token stands for one request. -/
theorem IsConsistent.eq_of_token_eq {r' : RenderRequest} (h : IsConsistent steps s)
    (hr : r ∈ s.requests) (hr' : r' ∈ s.requests) (htoken : r.token = r'.token) : r = r' :=
  List.inj_on_of_nodup_map (h.increasing.imp Nat.ne_of_lt) hr hr' htoken

theorem IsConsistent.latest_next (h : IsConsistent steps s) (hst : st.givesToken = true)
    (hcount : tokensGiven (steps ++ [st]) < indexBound) :
    s.counter.next.latest = s.counter.latest + 1 ∧
      s.counter.next.latest = tokensGiven (steps ++ [st]) := by
  have hlatest : s.counter.latest + 1 = tokensGiven (steps ++ [st]) := by
    simp [h.latest_eq, tokensGiven, hst]
  have hnext : s.counter.next.latest = s.counter.latest + 1 := Nat.mod_eq_of_lt (hlatest ▸ hcount)
  exact ⟨hnext, hnext.trans hlatest⟩

/-- The renderer has not been asked for a request that waits. -/
theorem IsConsistent.not_mem_calls (h : IsConsistent steps s) (hr : r ∈ s.requests)
    (hstage : r.stage = .waiting) : r.token ∉ s.calls.map Prod.fst := by
  intro hmem
  obtain ⟨c, hc, htoken⟩ := List.mem_map.1 hmem
  obtain ⟨r', hr', rfl, hne⟩ := h.called c hc
  exact hne (h.eq_of_token_eq hr' hr htoken ▸ hstage)

theorem IsConsistent.goOn (h : IsConsistent steps s) (hr : s.requests[i]? = some r)
    (hgoes : r.GoesOn s.counter.latest stage) : IsConsistent steps (s.goOn i r stage) where
  latest_eq := h.latest_eq
  texts := map_text_goOn.trans h.texts
  increasing := by rw [map_token_goOn]; exact h.increasing
  le_latest := by rw [map_token_goOn]; exact h.le_latest
  nodup_calls := by
    rw [Scheduler.goOn, List.map_append, List.nodup_append]
    refine ⟨h.nodup_calls, ?_, ?_⟩
    · rw [RenderRequest.callsAt]
      split <;> simp
    · -- The request waited until now, so the renderer was not asked for it before.
      rintro _ hold _ hnew rfl
      obtain ⟨c, hc, rfl⟩ := List.mem_map.1 hnew
      obtain ⟨rfl, hwaiting, -⟩ := hgoes.of_mem_callsAt hc
      exact h.not_mem_calls (List.mem_of_getElem? hr) hwaiting hold
  called := by
    intro c hc
    rcases List.mem_append.1 hc with hc | hc
    · obtain ⟨r', hr', rfl, hne⟩ := h.called c hc
      rcases mem_goOn stage hr hr' with hmem | ⟨-, hmem⟩
      exacts [⟨r', hmem, rfl, hne⟩, ⟨_, hmem, rfl, hgoes.ne_waiting⟩]
    · obtain ⟨rfl, hwaiting, -⟩ := hgoes.of_mem_callsAt hc
      exact ⟨_, List.mem_of_getElem? (getElem?_goOn_self stage hr), rfl, hgoes.ne_waiting⟩

theorem IsConsistent.step (h : IsConsistent steps s)
    (hcount : tokensGiven (steps ++ [st]) < indexBound) :
    IsConsistent (steps ++ [st]) (s.step st) := by
  -- A step that gives out no token counts for nothing, and claims no text.
  have hquiet : ∀ {s' : Scheduler}, st.givesToken = false → IsConsistent steps s' →
      IsConsistent (steps ++ [st]) s' := by
    intro s' hst h'
    have hclaim : st.claimed? = none := by cases st <;> first | rfl | cases hst
    exact { h' with
      latest_eq := by simp [h'.latest_eq, tokensGiven, hst]
      texts := by simp [h'.texts, hclaim] }
  have hfollows := follows_step s st
  generalize s.step st = s' at hfollows ⊢
  cases hfollows with
  | claim text =>
    obtain ⟨hnext, hlatest⟩ := h.latest_next rfl hcount
    refine ⟨hlatest, by simp [h.texts, ScheduleStep.claimed?], ?_, ?_, h.nodup_calls, ?_⟩
    · -- The new token is one more than the latest, and that one is no less than all the others.
      rw [List.map_append, List.pairwise_append]
      refine ⟨h.increasing, List.pairwise_singleton .., fun token htoken new hnew => ?_⟩
      rw [List.mem_singleton.1 hnew, hnext]
      exact Nat.lt_succ_of_le (h.le_latest token htoken)
    · rw [List.map_append]
      refine List.forall_mem_append.2 ⟨fun token htoken => ?_, ?_⟩
      · exact (h.le_latest token htoken).trans (hnext ▸ Nat.le_succ _)
      · exact List.forall_mem_singleton.2 le_rfl
    · intro c hc
      obtain ⟨r, hr, hrest⟩ := h.called c hc
      exact ⟨r, List.mem_append_left _ hr, hrest⟩
  | invalidate =>
    obtain ⟨hnext, hlatest⟩ := h.latest_next rfl hcount
    exact { h with
      latest_eq := hlatest
      texts := by simp [h.texts, ScheduleStep.claimed?]
      le_latest := fun token htoken => (h.le_latest token htoken).trans (hnext ▸ Nat.le_succ _) }
  | idle hst => exact hquiet hst h
  | goesOn hst hr hgoes =>
    refine hquiet ?_ (h.goOn hr hgoes)
    cases st <;> first | rfl | cases hst

theorem tokensGiven_le_append (steps more : List ScheduleStep) :
    tokensGiven steps ≤ tokensGiven (steps ++ more) :=
  (List.sublist_append_left steps more).countP_le

theorem isConsistent_ofSteps (hcount : tokensGiven steps < indexBound) :
    IsConsistent steps (ofSteps steps) := by
  induction steps using List.reverseRecOn with
  | nil => exact ⟨rfl, rfl, .nil, nofun, .nil, nofun⟩
  | append_singleton steps st ih =>
    rw [ofSteps_concat]
    exact (ih ((tokensGiven_le_append steps [st]).trans_lt hcount)).step hcount

/-- The request with the latest token is the last one, and the last text is its text. -/
theorem IsConsistent.getLast?_claimed (h : IsConsistent steps s) (hr : r ∈ s.requests)
    (htoken : r.token = s.counter.latest) :
    (steps.filterMap ScheduleStep.claimed?).getLast? = some r.text := by
  obtain ⟨front, back, hsplit⟩ := List.append_of_mem hr
  -- Any request behind it would have a later token.
  have hback : back = [] := by
    refine List.eq_nil_iff_forall_not_mem.2 fun r' hr' => ?_
    have hincreasing := List.pairwise_map.1 h.increasing
    rw [hsplit, List.pairwise_append, List.pairwise_cons] at hincreasing
    have hlt : r.token < r'.token := hincreasing.2.1.1 r' hr'
    have hle := h.le_latest r'.token (List.mem_map_of_mem (by simp [hsplit, hr']))
    omega
  rw [← h.texts, hsplit, hback, List.map_append]
  exact List.getLast?_concat

/-- While the counter has not begun anew, the latest token only grows. -/
theorem latest_le_append {more : List ScheduleStep}
    (hcount : tokensGiven (steps ++ more) < indexBound) :
    (ofSteps steps).counter.latest ≤ (ofSteps (steps ++ more)).counter.latest := by
  have hle := tokensGiven_le_append steps more
  rw [(isConsistent_ofSteps (hle.trans_lt hcount)).latest_eq,
    (isConsistent_ofSteps hcount).latest_eq]
  exact hle

/-! ### Ends of requests -/

/-- What becomes of a request by this step. -/
def ended? (st : ScheduleStep) (s : Scheduler) : Option RenderOutcome :=
  st.request?.bind fun i => if (s.outcome? i).isNone then (s.step st).outcome? i else none

/-- What becomes of requests by these steps, in the order in which they end. -/
def outcomes (s : Scheduler) : List ScheduleStep → List RenderOutcome
  | [] => []
  | st :: rest => (s.ended? st).toList ++ (s.step st).outcomes rest

theorem outcomes_concat (s : Scheduler) (steps : List ScheduleStep) (st : ScheduleStep) :
    s.outcomes (steps ++ [st]) = s.outcomes steps ++ ((s.run steps).ended? st).toList := by
  induction steps generalizing s with
  | nil => exact List.append_nil _
  | cons st' steps ih =>
    rw [List.cons_append, outcomes, ih, outcomes, List.append_assoc]
    rfl

theorem outcome?_eq (s : Scheduler) (i : Nat) :
    s.outcome? i = s.requests[i]?.bind (·.stage.outcome?) := by
  rw [outcome?]
  split
  · next hr => rw [hr]; rfl
  · next hne =>
    cases hr : s.requests[i]? with
    | none => rfl
    | some r =>
      cases hstage : r.stage with
      | finished o => exact absurd (hr.trans (congrArg some (hstage ▸ rfl))) (hne r.token r.text o)
      | _ => simp [hstage, RequestStage.outcome?]

/-- A request that has come to its end stays as it is. -/
theorem getElem?_step_of_finished (hr : s.requests[i]? = some r) (hstage : r.stage = .finished o)
    (st : ScheduleStep) : (s.step st).requests[i]? = some r := by
  have hfollows := follows_step s st
  generalize s.step st = s' at hfollows ⊢
  cases hfollows with
  | claim text =>
    exact (List.getElem?_append_left (List.getElem?_eq_some_iff.1 hr).1).trans hr
  | invalidate => exact hr
  | idle => exact hr
  | @goesOn _ j r' stage _ hr' hgoes =>
    have hij : j ≠ i := by
      rintro rfl
      have hopen := hgoes.unfinished
      rw [Option.some.inj (hr'.symm.trans hr), hstage] at hopen
      cases hopen
    exact (getElem?_goOn_of_ne hij r' stage).trans hr

theorem exists_goesOn_of_ended? (h : s.ended? st = some o) : ∃ (i : Nat) (r : RenderRequest),
    st.request? = some i ∧ s.requests[i]? = some r ∧ r.GoesOn s.counter.latest (.finished o) ∧
      s.step st = s.goOn i r (.finished o) := by
  rw [ended?, Option.bind_eq_some_iff] at h
  obtain ⟨i, hi, h⟩ := h
  obtain ⟨hnone, hsome⟩ := Option.ite_none_right_eq_some.1 h
  have hfollows := follows_step s st
  generalize s.step st = s' at hfollows hsome ⊢
  cases hfollows with
  | claim text => cases hi
  | invalidate => cases hi
  | idle => rw [hsome] at hnone; cases hnone
  | @goesOn _ j r stage hj hr hgoes =>
    obtain rfl : j = i := Option.some.inj (hj.symm.trans hi)
    obtain rfl : stage = .finished o := by
      rw [outcome?_eq, getElem?_goOn_self stage hr, Option.bind_some] at hsome
      cases stage with
      | finished o' => exact congrArg _ (Option.some.inj hsome)
      | _ => cases hsome
    exact ⟨j, r, hj, hr, hgoes, rfl⟩

/-- An outcome is kept by its request. -/
theorem exists_finished_of_mem_outcomes (h : o ∈ s.outcomes steps) :
    ∃ (i : Nat) (r : RenderRequest), (s.run steps).requests[i]? = some r ∧ r.stage = .finished o ∧
      r.token = o.token := by
  induction steps using List.reverseRecOn with
  | nil => cases h
  | append_singleton steps st ih =>
    rw [run_append]
    rw [outcomes_concat] at h
    rcases List.mem_append.1 h with h | h
    · obtain ⟨i, r, hr, hstage, htoken⟩ := ih h
      exact ⟨i, r, getElem?_step_of_finished hr hstage st, hstage, htoken⟩
    · obtain ⟨i, r, -, hr, hgoes, hstep⟩ := exists_goesOn_of_ended? (Option.mem_toList.1 h)
      refine ⟨i, { r with stage := .finished o }, ?_, rfl, hgoes.token_eq.symm⟩
      exact (congrArg (·.requests[i]?) hstep).trans (getElem?_goOn_self _ hr)

/-- The results come in the order of their tokens. -/
theorem pairwise_results (hcount : tokensGiven steps < indexBound) :
    ((outcomes {} steps).filter (!·.isSuperseded)).Pairwise fun o o' => o.token < o'.token := by
  induction steps using List.reverseRecOn with
  | nil => exact .nil
  | append_singleton steps st ih =>
    have hcount' := (tokensGiven_le_append steps [st]).trans_lt hcount
    rw [outcomes_concat, List.filter_append, List.pairwise_append]
    refine ⟨ih hcount', ?_, fun o ho o' ho' => ?_⟩
    · refine List.Pairwise.filter _ ?_
      cases (run {} steps).ended? st <;> simp
    · have hconsistent := isConsistent_ofSteps hcount'
      obtain ⟨ho', hresult⟩ := List.mem_filter.1 ho'
      obtain ⟨i, r, -, hr, hgoes, -⟩ := exists_goesOn_of_ended? (Option.mem_toList.1 ho')
      have hlatest := hgoes.isSuperseded_iff.1 (by simpa using hresult)
      obtain ⟨j, r', hr', hstage, htoken⟩ :=
        exists_finished_of_mem_outcomes (List.mem_filter.1 ho).1
      have hle := hconsistent.le_latest r'.token (List.mem_map_of_mem (List.mem_of_getElem? hr'))
      -- A request with the same token would be the same one, but that has not ended yet.
      have hne : r'.token ≠ r.token := by
        intro heq
        have hsame := hconsistent.eq_of_token_eq (List.mem_of_getElem? hr')
          (List.mem_of_getElem? hr) heq
        have hopen := hgoes.unfinished
        rw [← hsame, hstage] at hopen
        cases hopen
      rw [hgoes.token_eq, ← htoken]
      exact Nat.lt_of_le_of_ne (hlatest ▸ hle) hne

/-! ### Requests that are overtaken -/

/-- There is a later token than the one of the request number `i`, which has not come to a
result. -/
structure IsOvertaken (i token : Nat) (s : Scheduler) : Prop where
  lt_latest : token < s.counter.latest
  request : ∃ r : RenderRequest, s.requests[i]? = some r ∧ r.token = token ∧
    ∀ o, r.stage.outcome? = some o → o = .superseded token

theorem IsOvertaken.step {token : Nat} (h : IsOvertaken i token s)
    (hlatest : s.counter.latest ≤ (s.step st).counter.latest) :
    IsOvertaken i token (s.step st) := by
  refine ⟨h.lt_latest.trans_le hlatest, ?_⟩
  obtain ⟨r, hr, rfl, hended⟩ := h.request
  have hfollows := follows_step s st
  generalize s.step st = s' at hfollows ⊢
  cases hfollows with
  | claim text =>
    exact ⟨r, (List.getElem?_append_left (List.getElem?_eq_some_iff.1 hr).1).trans hr, rfl, hended⟩
  | invalidate => exact ⟨r, hr, rfl, hended⟩
  | idle => exact ⟨r, hr, rfl, hended⟩
  | @goesOn _ j r' stage _ hr' hgoes =>
    by_cases hij : j = i
    · subst hij
      obtain rfl : r' = r := Option.some.inj (hr'.symm.trans hr)
      refine ⟨{ r' with stage }, getElem?_goOn_self stage hr, rfl, ?_⟩
      -- Its token is not the latest, so there is nothing else that it can go on to.
      have hlt := h.lt_latest
      cases hgoes with
      | superseded => exact fun o ho => (Option.some.inj ho).symm
      | _ => exact absurd hlt (lt_irrefl _)
    · exact ⟨r, (getElem?_goOn_of_ne hij r' stage).trans hr, rfl, hended⟩

theorem IsOvertaken.append {token : Nat} {more : List ScheduleStep}
    (h : IsOvertaken i token (ofSteps steps)) (hcount : tokensGiven (steps ++ more) < indexBound) :
    IsOvertaken i token (ofSteps (steps ++ more)) := by
  induction more using List.reverseRecOn with
  | nil => rwa [List.append_nil]
  | append_singleton more st ih =>
    rw [← List.append_assoc] at hcount ⊢
    have hlatest := latest_le_append hcount
    rw [ofSteps_concat] at hlatest ⊢
    exact (ih ((tokensGiven_le_append _ _).trans_lt hcount)).step hlatest

/-- The renderer is asked for nothing but what has the latest token. -/
theorem mem_calls_step {c : Nat × Text} (h : c ∈ (s.step st).calls) :
    c ∈ s.calls ∨ c.1 = s.counter.latest := by
  have hfollows := follows_step s st
  generalize s.step st = s' at hfollows h
  cases hfollows with
  | goesOn _ _ hgoes =>
    rcases List.mem_append.1 h with h | h
    · exact .inl h
    · obtain ⟨rfl, -, htoken⟩ := hgoes.of_mem_callsAt h
      exact .inr htoken
  | _ => exact .inl h

theorem mem_calls_append {more : List ScheduleStep} {c : Nat × Text}
    (hcount : tokensGiven (steps ++ more) < indexBound) (h : c ∈ (ofSteps (steps ++ more)).calls) :
    c ∈ (ofSteps steps).calls ∨ (ofSteps steps).counter.latest ≤ c.1 := by
  induction more using List.reverseRecOn with
  | nil => exact .inl (by rwa [List.append_nil] at h)
  | append_singleton more st ih =>
    rw [← List.append_assoc] at hcount h
    rw [ofSteps_concat] at h
    have hcount' := (tokensGiven_le_append (steps ++ more) [st]).trans_lt hcount
    rcases mem_calls_step h with h | h
    · exact ih hcount' h
    · exact .inr (h ▸ latest_le_append hcount')

/-! ## The last writer -/

/-- The promises of the scheduler about a run of these steps. -/
structure LastWriterWins (steps : List ScheduleStep) : Prop where
  /-- Of the requests that come to an end at some moment, those with the latest token have a result,
  and the others are superseded. -/
  current : ∀ front st back, steps = front ++ st :: back →
    ∀ o, (ofSteps front).ended? st = some o → ∃ (i : Nat) (r : RenderRequest),
      st.request? = some i ∧ (ofSteps front).requests[i]? = some r ∧ o.token = r.token ∧
        (o.isSuperseded = false ↔ r.token = (ofSteps front).counter.latest)
  /-- What is shown is the text of the latest request. -/
  text : ∀ front st back, steps = front ++ st :: back →
    ∀ token text svg, (ofSteps front).ended? st = some (.rendered token text svg) →
      (front.filterMap ScheduleStep.claimed?).getLast? = some text
  /-- A request that is overtaken before its end never comes to a result. -/
  overtaken : ∀ front back, steps = front ++ back →
    ∀ (i : Nat) (r : RenderRequest), (ofSteps front).requests[i]? = some r →
      r.stage.outcome? = none → r.token < (ofSteps front).counter.latest →
        ∀ o, (ofSteps steps).outcome? i = some o → o = .superseded r.token
  /-- Results come in the order of the requests. -/
  increasing : ((outcomes {} steps).filter (!·.isSuperseded)).Pairwise
    fun o o' => o.token < o'.token
  nodup_tokens : ((ofSteps steps).requests.map (·.token)).Nodup
  /-- The renderer is asked for requests, -/
  called : ∀ c ∈ (ofSteps steps).calls, ∃ r ∈ (ofSteps steps).requests, (r.token, r.text) = c
  /-- once at most for each, -/
  nodup_calls : ((ofSteps steps).calls.map Prod.fst).Nodup
  /-- never for one that was overtaken while it waited, -/
  not_called : ∀ front back, steps = front ++ back →
    ∀ (i : Nat) (r : RenderRequest), (ofSteps front).requests[i]? = some r → r.stage = .waiting →
      r.token < (ofSteps front).counter.latest → r.token ∉ (ofSteps steps).calls.map Prod.fst
  /-- and under another id each time. -/
  nodup_renderIds : ∀ stem, ((ofSteps steps).calls.map fun c => renderId stem c.1).Nodup

theorem renderId_injective (stem : Text) : Function.Injective (renderId stem) := by
  intro token token' h
  exact ofNat_injective (List.cons_injective (List.append_cancel_left h))

/-- Whatever the order of the steps, and however many requests are under way. -/
theorem run_lastWriterWins (hcount : tokensGiven steps < indexBound) : LastWriterWins steps := by
  have hconsistent := isConsistent_ofSteps hcount
  have hfront : ∀ {front back}, steps = front ++ back → tokensGiven front < indexBound := by
    rintro front back rfl
    exact (tokensGiven_le_append front back).trans_lt hcount
  refine
    { current := fun front st back hsplit o ho => ?_
      text := fun front st back hsplit token text svg ho => ?_
      overtaken := fun front back hsplit i r hr hopen hlt o ho => ?_
      increasing := pairwise_results hcount
      nodup_tokens := hconsistent.increasing.imp Nat.ne_of_lt
      called := fun c hc => ?_
      nodup_calls := hconsistent.nodup_calls
      not_called := fun front back hsplit i r hr hstage hlt => ?_
      nodup_renderIds := fun stem => ?_ }
  · obtain ⟨i, r, hi, hr, hgoes, -⟩ := exists_goesOn_of_ended? ho
    exact ⟨i, r, hi, hr, hgoes.token_eq, hgoes.isSuperseded_iff⟩
  · obtain ⟨i, r, -, hr, hgoes, -⟩ := exists_goesOn_of_ended? ho
    cases hgoes with
    | rendered =>
      exact (isConsistent_ofSteps (hfront hsplit)).getLast?_claimed (List.mem_of_getElem? hr) rfl
  · subst hsplit
    have hstart : IsOvertaken i r.token (ofSteps front) :=
      ⟨hlt, r, hr, rfl, fun o ho => by rw [hopen] at ho; cases ho⟩
    obtain ⟨r', hr', -, hended⟩ := (hstart.append hcount).request
    exact hended o (by rwa [outcome?_eq, hr', Option.bind_some] at ho)
  · obtain ⟨r, hr, hc, -⟩ := hconsistent.called c hc
    exact ⟨r, hr, hc⟩
  · subst hsplit
    intro hmem
    obtain ⟨c, hc, htoken⟩ := List.mem_map.1 hmem
    -- Calls of `front` are not for requests that wait there, and later ones are for later tokens.
    rcases mem_calls_append hcount hc with hc | hle
    · exact (isConsistent_ofSteps (hfront rfl)).not_mem_calls (List.mem_of_getElem? hr) hstage
        (List.mem_map.2 ⟨c, hc, htoken⟩)
    · omega
  · rw [← Function.comp_def, ← List.map_map]
    exact hconsistent.nodup_calls.map (renderId_injective stem)

/-- A request that is overtaken while the renderer is at it, and one that is overtaken while it
waits. -/
theorem run_lastWriterWins_overtaken :
    let steps : List ScheduleStep :=
      [.claim "A".toList, .wake 0, .claim "B".toList, .claim "C".toList, .answer 0 (.ok "a".toList),
        .wake 2, .wake 1, .answer 2 (.ok "c".toList), .settle 2]
    tokensGiven steps < indexBound ∧
      outcomes {} steps = [.superseded 1, .superseded 2, .rendered 3 "C".toList "c".toList] ∧
      (ofSteps steps).calls = [(1, "A".toList), (3, "C".toList)] ∧ LastWriterWins steps := by
  intro steps
  have hcount : tokensGiven steps < indexBound := by decide
  exact ⟨hcount, rfl, rfl, run_lastWriterWins hcount⟩

end Scheduler

end DiagramEditor
