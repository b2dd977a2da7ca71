import AxonGateway.Athena.Execution

/-!
# No execution is left behind

Whatever the client answers, whatever the callback raises and wherever the method is cancelled, an
execution that was started is reported, and it is stopped unless its end was seen.
-/

namespace Athena

open PyValue Interleaving
open Raising (perform ask attempt Then)

variable {α β : Type}

/-! ### What has happened -/

/-- What the calls have done and what was seen of them. -/
structure History where
  tracker : ExecutionTracker
  started : Option Value
  told : List Text
  observed : List (Text × Value)
  stopped : List Value

def History.after (h : History) : (o : Op) → Ret o → History
  | .startQueryExecution, answer => { h with started := StartAnswer.started answer }
  | .onStarted executionId, _ => { h with told := executionId :: h.told }
  | .getQueryExecution executionId, answer =>
      match (answer : Answer Value) with
      | .returned response => { h with observed := (executionId, response) :: h.observed }
      | _ => h
  | .stopQueryExecution executionId, _ => { h with stopped := executionId :: h.stopped }
  | .track update, _ => { h with tracker := update h.tracker }
  | _, _ => h

/-- Every answer is possible. -/
def machine : Machine Op Ret History where
  exec _ o h r h' := h' = h.after o r
  env _ _ := False

/-- The state that a response reports for an execution. -/
def reported (executionId : Text) (response : Value) : Option AthenaQueryTermination :=
  (executionOf response).bind fun execution ↦
    (terminationFromExecution execution executionId false).toOption

/-- A terminal state of an execution was observed. -/
def History.Saw (h : History) (executionId : Text) (termination : AthenaQueryTermination) : Prop :=
  ∃ response, (executionId, response) ∈ h.observed ∧
    reported executionId response = some termination ∧ termination.terminal = true

/-- The execution that was started. -/
def History.execution (h : History) : Option Text := h.started.bind fun v ↦ usableId (identifierOf v)

/-! ### Rules -/

/-- However a call ends, `Q` holds then. -/
abbrev Ends (Q : Except Exn α → History → Prop) (x : Call α) (h : History) : Prop :=
  Alone machine 0 Q x.run h

variable {Q : Except Exn α → History → Prop} {h : History}

theorem ends_pure {a : α} (hQ : Q (.ok a) h) : Ends Q (pure a) h := hQ

theorem ends_throw {e : Exn} (hQ : Q (.error e) h) : Ends Q (throw e) h := hQ

theorem ends_raise {e : ExecutionError} (hQ : Q (.error (.failure (.execution e))) h) :
    Ends Q (raise e) h := hQ

theorem ends_bind {x : Call β} {f : β → Call α}
    (hx : Ends (Then Q fun b h' ↦ Ends Q (f b) h') x h) : Ends Q (x >>= f) h :=
  Raising.alone_bind hx

theorem ends_perform {o : Op} {answer : Ret o → Except Exn α}
    (hQ : ∀ r, Q (answer r) (h.after o r)) : Ends Q (perform answer) h := by
  intro r h' hexec
  rw [show h' = _ from hexec]
  exact hQ r

theorem ends_attempt {Q : Except Exn (Except Exn α) → History → Prop} {x : Call α}
    (hx : Ends (fun r ↦ Q (.ok r)) x h) : Ends Q (attempt x) h :=
  Alone.bind (p := x.run) hx

theorem ends_unwrap {x : Except ExecutionError α}
    (hok : ∀ a, x = .ok a → Q (.ok a) h)
    (herror : ∀ e, x = .error e → Q (.error (.failure (.execution e))) h) :
    Ends Q (unwrap x) h := by
  cases x with
  | ok a => exact ends_pure (hok a rfl)
  | error e => exact ends_raise (herror e rfl)

/-- What has to hold of a call for its handler to end in `Q`. -/
def Handled (Q : Except Exn α → History → Prop) (handler : Failure → Call α) :
    Except Exn α → History → Prop
  | .ok a, h => Q (.ok a) h
  | .error .cancelled, h => Q (.error .cancelled) h
  | .error (.failure f), h => Ends Q (handler f) h

theorem ends_exceptFailure {x : Call α} {handler : Failure → Call α}
    (hx : Ends (Handled Q handler) x h) : Ends Q (exceptFailure x handler) h := by
  refine ends_bind (ends_attempt (hx.imp fun r h' hr ↦ ?_))
  cases r with
  | ok a => exact hr
  | error e =>
      cases e with
      | cancelled => exact hr
      | failure f => exact hr

/-! ### Polling -/

/-- The same calls have been made but for polling. -/
structure Alike (h h' : History) : Prop where
  started : h'.started = h.started
  told : h'.told = h.told
  stopped : h'.stopped = h.stopped

theorem Alike.refl (h : History) : Alike h h := ⟨rfl, rfl, rfl⟩

theorem Alike.trans {h h₁ h₂ : History} (h₁₂ : Alike h h₁) (h₂₃ : Alike h₁ h₂) : Alike h h₂ :=
  ⟨h₂₃.started.trans h₁₂.started, h₂₃.told.trans h₁₂.told, h₂₃.stopped.trans h₁₂.stopped⟩

variable {id : Text} {t : AthenaQueryTermination}

/-- No end of the execution was seen. -/
def History.Unseen (h : History) (id : Text) : Prop := ∀ t, ¬h.Saw id t

theorem History.saw_cons {response : Value} {h' : History}
    (hobserved : h'.observed = (id, response) :: h.observed) :
    h'.Saw id t ↔ (reported id response = some t ∧ t.terminal = true) ∨ h.Saw id t := by
  unfold History.Saw
  rw [hobserved]
  constructor
  · rintro ⟨response', hmem, hreported, hterminal⟩
    rcases List.mem_cons.mp hmem with heq | hmem
    · obtain ⟨-, rfl⟩ := Prod.mk.inj heq
      exact .inl ⟨hreported, hterminal⟩
    · exact .inr ⟨response', hmem, hreported, hterminal⟩
  · rintro (⟨hreported, hterminal⟩ | ⟨response', hmem, hreported, hterminal⟩)
    · exact ⟨response, List.mem_cons_self, hreported, hterminal⟩
    · exact ⟨response', List.mem_cons_of_mem _ hmem, hreported, hterminal⟩

/-- A response that reports no end. -/
theorem History.Unseen.cons {response : Value} {h' : History} (hunseen : h.Unseen id)
    (hobserved : h'.observed = (id, response) :: h.observed)
    (hreported : ∀ t, reported id response = some t → t.terminal = false) : h'.Unseen id := by
  intro t hsaw
  rcases (History.saw_cons hobserved).mp hsaw with ⟨ht, hterminal⟩ | hsaw
  · rw [hreported t ht] at hterminal
    cases hterminal
  · exact hunseen t hsaw

/-- What is known after a poll. -/
structure Polled (id : Text) (h : History) (execution : Value) (h' : History) : Prop where
  alike : Alike h h'
  observed : ∃ response, h'.observed = (id, response) :: h.observed ∧
    ∀ t, reported id response = some t ↔ terminationFromExecution execution id false = .ok t

theorem reported_eq_some_iff {response execution : Value}
    (hexecution : executionOf response = some execution) :
    reported id response = some t ↔ terminationFromExecution execution id false = .ok t := by
  rw [reported, hexecution, Option.bind_some]
  cases terminationFromExecution execution id false <;> simp [Except.toOption]

theorem ends_getQueryExecution (hunseen : h.Unseen id) :
    Ends (fun r h' ↦ match r with
      | .ok execution => Polled id h execution h'
      | .error _ => Alike h h' ∧ h'.Unseen id) (getQueryExecution id) h := by
  refine ends_bind (ends_exceptFailure (ends_perform fun answer ↦ ?_))
  cases (answer : Answer Value) with
  | cancelled => exact ⟨.refl h, hunseen⟩
  | raised f => exact ⟨.refl h, hunseen⟩
  | returned response =>
      cases hexecution : executionOf response with
      | none =>
          have hreported : reported id response = none := by rw [reported, hexecution]; rfl
          change Ends _ _ _
          rw [hexecution]
          refine ⟨⟨rfl, rfl, rfl⟩, hunseen.cons rfl fun t ht ↦ ?_⟩
          rw [hreported] at ht
          cases ht
      | some execution =>
          change Ends _ _ _
          rw [hexecution]
          exact ⟨⟨rfl, rfl, rfl⟩, response, rfl, fun t ↦ reported_eq_some_iff hexecution⟩

/-- What is known when polling ends: the end of the execution was seen, or it was not. -/
def Waited (id : Text) (h : History) : Except Exn Value → History → Prop
  | .ok execution, h' => Alike h h' ∧ ∃ t, terminationFromExecution execution id false = .ok t ∧
      ∀ t', h'.Saw id t' ↔ t' = t
  | .error _, h' => Alike h h' ∧ h'.Unseen id

theorem Waited.alike {h₁ h' : History} {r : Except Exn Value} (hwaited : Waited id h₁ r h')
    (halike : Alike h h₁) : Waited id h r h' := by
  cases r with
  | ok execution => exact ⟨halike.trans hwaited.1, hwaited.2⟩
  | error e => exact ⟨halike.trans hwaited.1, hwaited.2⟩

/-- One poll. -/
theorem ends_poll (hunseen : h.Unseen id) {rest : Call Value}
    (hrest : ∀ h', Alike h h' → h'.Unseen id → Ends (Waited id h) rest h') :
    Ends (Waited id h) (do
      let execution ← getQueryExecution id
      let termination ← unwrap (terminationFromExecution execution id false)
      if termination.terminal then pure execution else rest) h := by
  refine ends_bind ((ends_getQueryExecution hunseen).imp fun r h' hr ↦ ?_)
  cases r with
  | error e => exact hr
  | ok execution =>
      obtain ⟨halike, response, hobserved, hreported⟩ := hr
      refine ends_bind (ends_unwrap (fun t ht ↦ ?_) fun e he ↦ ?_)
      · change Ends _ (if t.terminal then pure execution else rest) h'
        have hresponse : reported id response = some t := (hreported t).mpr ht
        split_ifs with hterminal
        · refine ⟨halike, t, ht, fun t' ↦ ?_⟩
          rw [History.saw_cons hobserved, hresponse]
          constructor
          · rintro (⟨heq, -⟩ | hsaw)
            · exact (Option.some.inj heq).symm
            · exact absurd hsaw (hunseen t')
          · rintro rfl
            exact .inl ⟨rfl, hterminal⟩
        · refine hrest h' halike (hunseen.cons hobserved fun t' ht' ↦ ?_)
          rw [hresponse] at ht'
          rw [← Option.some.inj ht']
          exact Bool.eq_false_iff.mpr hterminal
      · refine ⟨halike, hunseen.cons hobserved fun t ht ↦ ?_⟩
        have hok := (hreported t).mp ht
        rw [he] at hok
        cases hok

theorem ends_waitForQuery (polls : ℕ) (hunseen : h.Unseen id) :
    Ends (Waited id h) (waitForQuery id polls) h := by
  induction polls generalizing h with
  | zero => exact ends_poll hunseen fun h' halike hunseen' ↦ ⟨halike, hunseen'⟩
  | succ polls ih =>
      refine ends_poll hunseen fun h' halike hunseen' ↦ ends_bind (ends_perform fun answer ↦ ?_)
      cases (answer : Answer Unit) with
      | returned _ => exact (ih hunseen').imp fun r h'' hr ↦ hr.alike halike
      | raised f => exact ⟨halike, hunseen'⟩
      | cancelled => exact ⟨halike, hunseen'⟩

/-! ### Results -/

/-- An error that says nothing about an execution. -/
structure ExecutionError.Bare (e : ExecutionError) : Prop where
  queryExecutionId : e.queryExecutionId = none
  athenaState : e.athenaState = none
  dataScannedBytes : e.dataScannedBytes = none

/-- An error that says how an execution ended. -/
structure ExecutionError.Carries (e : ExecutionError) (t : AthenaQueryTermination) : Prop where
  queryExecutionId : e.queryExecutionId = some t.queryExecutionId
  athenaState : e.athenaState = some t.state
  dataScannedBytes : e.dataScannedBytes = t.dataScannedBytes

theorem ExecutionError.Bare.attachTermination {e : ExecutionError} (he : e.Bare)
    (t : AthenaQueryTermination) : (e.attachTermination t).Carries t := by
  obtain ⟨hid, hstate, hscanned⟩ := he
  refine ⟨?_, ?_, ?_⟩ <;> simp [ExecutionError.attachTermination, hid, hstate, hscanned]

/-- The same history but for the tracker, and errors of which `P` holds. -/
def Untouched (P : ExecutionError → Prop) (h : History) : Except Exn α → History → Prop
  | r, h' => Alike h h' ∧ h'.observed = h.observed ∧
      ∀ e, r = .error (.failure (.execution e)) → P e

theorem ends_readPages (limits : AthenaQueryLimits) (maxRows pages : ℕ) (s : State) :
    Ends (Untouched ExecutionError.Bare h) (readPages limits maxRows id pages s) h := by
  induction pages generalizing s with
  | zero => exact fun r ↦ nomatch (r : Empty)
  | succ pages ih =>
      have hread : ∀ k : Option Value → Call Results,
          (∀ answer, Ends (Untouched ExecutionError.Bare h) (k answer) h) →
            Ends (Untouched ExecutionError.Bare h) (exceptFailure (do
              let response ← perform (o := .getQueryResults (s.request maxRows id)) Answer.result
              pure (some response)) (fun _ ↦ pure none) >>= k) h := by
        intro k hk
        refine ends_bind (ends_exceptFailure (ends_bind (ends_perform fun answer ↦ ?_)))
        cases (answer : Answer Value) with
        | returned response => exact hk (some response)
        | raised f => exact hk none
        | cancelled => exact ⟨.refl h, rfl, nofun⟩
      refine hread _ fun answer ↦ ?_
      cases s.readPage maxRows limits.maxResultBytes answer with
      | error e =>
          cases e with
          | execution code message =>
              refine ⟨.refl h, rfl, fun e he ↦ ?_⟩
              cases he
              exact ⟨rfl, rfl, rfl⟩
          | other => exact ⟨.refl h, rfl, nofun⟩
      | ok r =>
          cases r with
          | inl results => exact ⟨.refl h, rfl, nofun⟩
          | inr s' => exact ih s'

theorem ends_conclude (limits : AthenaQueryLimits) (maxRows pages : ℕ) {execution : Value}
    (ht : terminationFromExecution execution id false = .ok t) :
    Ends (Untouched (fun e ↦ e.Carries t) h) (conclude limits maxRows pages id execution) h := by
  have hraise : ∀ code message, Ends (Untouched (fun e ↦ e.Carries t) h)
      (raise (({ code := code, message := message } : ExecutionError).attachTermination t) :
        Call AthenaQueryResult) h := by
    intro code message
    refine ⟨.refl h, rfl, fun e he ↦ ?_⟩
    cases he
    exact ExecutionError.Bare.attachTermination ⟨rfl, rfl, rfl⟩ t
  unfold conclude
  rw [ht]
  refine ends_bind (ends_pure ?_)
  dsimp only [Then]
  cases hscanned : t.dataScannedBytes with
  | none => exact hraise _ _
  | some scanned =>
      cases t.engineExecutionMs with
      | none => exact hraise _ _
      | some engineExecutionMs =>
          dsimp only
          by_cases hstate : t.state ≠ "SUCCEEDED".toList
          · rw [if_pos hstate]
            exact hraise _ _
          by_cases hlimit : limits.maxBytesScanned < scanned
          · rw [if_neg hstate, if_pos hlimit]
            exact hraise _ _
          rw [if_neg hstate, if_neg hlimit]
          refine ends_bind (ends_exceptFailure
            ((ends_readPages limits maxRows pages initial).imp fun r h' hr ↦ ?_))
          obtain ⟨halike, hobserved, hbare⟩ := hr
          cases r with
          | ok results => exact ⟨halike, hobserved, nofun⟩
          | error e =>
              cases e with
              | cancelled => exact ⟨halike, hobserved, nofun⟩
              | failure f =>
                  cases f with
                  | other => exact ⟨halike, hobserved, nofun⟩
                  | execution e =>
                      refine ⟨halike, hobserved, fun e' he' ↦ ?_⟩
                      cases he'
                      exact (hbare e rfl).attachTermination t

/-! ### The whole method -/

/-- What holds when the method ends: the execution that was started was reported, its end was seen
or it was stopped, and an error says how it ended. -/
structure Kept (r : Except Exn AthenaQueryResult) (h : History) (id : Text) : Prop where
  settled : (∃ t, h.Saw id t) ∨ .str id ∈ h.stopped
  told : id ∈ h.told
  carried : ∀ e t, r = .error (.failure (.execution e)) → h.Saw id t → e.Carries t

/-- Nothing has been started, or everything is settled. -/
def Settled (r : Except Exn AthenaQueryResult) (h : History) : Prop :=
  ∀ id, h.execution = some id → Kept r h id

theorem usableId_eq_some {v : Value} (hv : usableId v = some id) : v = .str id := by
  unfold usableId at hv
  split at hv
  · rw [Option.some.inj hv]
  · cases hv

/-- Stopping makes the call, and does not fail. -/
theorem ends_stop :
    Ends (fun r h' ↦ h'.started = h.started ∧ h'.told = h.told ∧ h'.observed = h.observed ∧
      .str id ∈ h'.stopped ∧ ∀ f, r ≠ .error (.failure f)) (stopUnless false (.str id)) h := by
  refine ends_exceptFailure (ends_bind (ends_perform fun answer ↦ ?_))
  cases (answer : Answer Unit) with
  | returned _ => exact ends_perform fun _ ↦ ⟨rfl, rfl, rfl, List.mem_cons_self, nofun⟩
  | raised f => exact ⟨rfl, rfl, rfl, List.mem_cons_self, nofun⟩
  | cancelled => exact ⟨rfl, rfl, rfl, List.mem_cons_self, nofun⟩

theorem History.execution_eq {started : Value} (hstarted : h.started = some started) :
    h.execution = usableId (identifierOf started) := by
  rw [History.execution, hstarted, Option.bind_some]

/-- An execution is reported before the cancellation goes on. -/
theorem ends_captureStarted (hnone : h.observed = []) :
    Ends (fun r h' ↦ h'.started = h.started ∧ h'.observed = [] ∧ ∃ v, r = .ok v ∧
      ∀ id, h.execution = some id → v = .str id ∧ id ∈ h'.told) (captureStarted h.started) h := by
  cases hstarted : h.started with
  | none =>
      refine ⟨hstarted, hnone, .null, rfl, fun id hid ↦ ?_⟩
      rw [History.execution, hstarted] at hid
      cases hid
  | some started =>
      unfold captureStarted
      dsimp only
      rw [History.execution_eq hstarted]
      cases husable : usableId (identifierOf started) with
      | none => exact ⟨hstarted, hnone, identifierOf started, rfl, nofun⟩
      | some id =>
          refine ends_bind (ends_perform fun _ ↦ ?_)
          refine ends_bind (ends_attempt (ends_perform fun answer ↦ ?_))
          refine ⟨hstarted, hnone, identifierOf started, rfl, fun id' hid' ↦ ?_⟩
          rw [← Option.some.inj hid']
          exact ⟨usableId_eq_some husable, List.mem_cons_self⟩

/-- What is known when the identifier has been followed: the end of the execution was seen, or
not. -/
def Observed (h : History) (id : Text) : Except Exn (Text × Value) → History → Prop
  | .ok found, h' => h'.started = h.started ∧ id ∈ h'.told ∧ found.1 = id ∧
      ∃ t, terminationFromExecution found.2 id false = .ok t ∧ ∀ t', h'.Saw id t' ↔ t' = t
  | .error _, h' => h'.started = h.started ∧ id ∈ h'.told ∧ h'.Unseen id

theorem ends_observe (polls : ℕ) {v : Value} (hv : usableId v = some id)
    (hunseen : h.Unseen id) : Ends (Observed h id) (observe polls v) h := by
  unfold observe
  rw [hv]
  refine ends_bind (ends_perform fun _ ↦ ends_bind (ends_perform fun answer ↦ ?_))
  cases (answer : Answer Unit) with
  | raised f => exact ⟨rfl, List.mem_cons_self, hunseen⟩
  | cancelled => exact ⟨rfl, List.mem_cons_self, hunseen⟩
  | returned _ =>
      have hunseen' : History.Unseen { h with
          tracker := { h.tracker with queryExecutionId := some id }, told := id :: h.told } id :=
        hunseen
      refine ends_bind ((ends_waitForQuery polls hunseen').imp fun r h' hr ↦ ?_)
      cases r with
      | error e => exact ⟨hr.1.started, hr.1.told ▸ List.mem_cons_self, hr.2⟩
      | ok execution =>
          obtain ⟨halike, t, ht, hsaw⟩ := hr
          exact ⟨halike.started, halike.told ▸ List.mem_cons_self, rfl, t, ht, hsaw⟩

theorem History.Saw.congr {h' : History} (hobserved : h'.observed = h.observed) :
    h'.Saw id t ↔ h.Saw id t := by
  unfold History.Saw
  rw [hobserved]

theorem settled_of_none {r : Except Exn AthenaQueryResult} (hnone : h.execution = none) :
    Settled r h := by
  intro id hid
  rw [hnone] at hid
  cases hid

theorem ends_stopUnless (v : Value) :
    Ends (fun _ h' ↦ h'.started = h.started) (stopUnless false v) h := by
  unfold stopUnless
  split
  · rfl
  · refine ends_exceptFailure (ends_bind (ends_perform fun answer ↦ ?_))
    cases (answer : Answer Unit) with
    | returned _ => exact ends_perform fun _ ↦ rfl
    | raised f => exact rfl
    | cancelled => exact rfl

/-- After a call that did not start an execution, nothing else matters. -/
theorem ends_stop_of_none {v : Value} (hnone : h.execution = none) (e : Exn) :
    Ends Settled (stopUnless false v >>= fun _ ↦ throw e) h := by
  refine ends_bind ((ends_stopUnless v).imp fun r h' hstarted ↦ ?_)
  have hnone' : h'.execution = none := by
    rw [History.execution, hstarted]
    exact hnone
  cases r with
  | ok _ => exact settled_of_none hnone'
  | error e => exact settled_of_none hnone'

/-- An execution whose end was not seen is stopped. -/
theorem ends_stop_of_unseen (hexecution : h.execution = some id) (htold : id ∈ h.told)
    (hunseen : h.Unseen id) (e : Exn) :
    Ends Settled (stopUnless false (.str id) >>= fun _ ↦ throw e) h := by
  refine ends_bind (ends_stop.imp fun r h' hr ↦ ?_)
  obtain ⟨hstarted, htold', hobserved, hstopped, -⟩ := hr
  have hsettled : ∀ r, Settled r h' := by
    intro r id' hid'
    have hid : h'.execution = some id := by
      rw [History.execution, hstarted]
      exact hexecution
    obtain rfl := Option.some.inj (hid.symm.trans hid')
    refine ⟨.inr hstopped, htold' ▸ htold, fun e t _ hsaw ↦ ?_⟩
    exact absurd ((History.Saw.congr hobserved).mp hsaw) (hunseen t)
  cases r with
  | ok _ => exact hsettled _
  | error e => exact hsettled _

theorem unseen_of_nil (hobserved : h.observed = []) : h.Unseen id := by
  rintro t ⟨response, hmem, -⟩
  rw [hobserved] at hmem
  cases hmem

theorem ends_runBlock (setup : Setup) (polls pages : ℕ) (hobserved : h.observed = []) :
    Ends Settled (runBlock setup polls pages) h := by
  refine ends_bind (ends_perform fun _ ↦ ends_bind (ends_perform fun answer ↦ ?_))
  obtain ⟨started, cancelled⟩ : StartAnswer := answer
  set h₁ : History := { h with
    tracker := { h.tracker with startAttempted := true }, started := started } with hh₁
  have hobserved₁ : h₁.observed = [] := hobserved
  cases cancelled with
  | true =>
      refine ends_bind ((ends_captureStarted hobserved₁).imp fun r h₂ hr ↦ ?_)
      obtain ⟨hstarted₂, hobserved₂, v, rfl, hv⟩ := hr
      have hexecution₂ : h₂.execution = h₁.execution := by
        rw [History.execution, hstarted₂]
        rfl
      cases hexecution : h₁.execution with
      | none => exact ends_stop_of_none (hexecution₂.trans hexecution) _
      | some id =>
          obtain ⟨rfl, htold⟩ := hv id hexecution
          exact ends_stop_of_unseen (hexecution₂.trans hexecution) htold
            (unseen_of_nil hobserved₂) _
  | false =>
      cases started with
      | none => exact settled_of_none rfl
      | some started =>
          have hexecution : h₁.execution = usableId (identifierOf started) :=
            History.execution_eq rfl
          cases husable : usableId (identifierOf started) with
          | none =>
              refine ends_bind (ends_attempt ?_)
              unfold observe
              rw [husable]
              exact ends_stop_of_none (hexecution.trans husable) _
          | some id =>
              have hexecution₁ : h₁.execution = some id := hexecution.trans husable
              have hv : identifierOf started = .str id := usableId_eq_some husable
              refine ends_bind (ends_attempt ((ends_observe polls husable
                (unseen_of_nil hobserved₁)).imp fun r h₂ hr ↦ ?_))
              have hexecution₂ : h₂.started = h₁.started → h₂.execution = some id := by
                intro hstarted
                rw [History.execution, hstarted]
                exact hexecution₁
              rw [hv]
              cases r with
              | error e => exact ends_stop_of_unseen (hexecution₂ hr.1) hr.2.1 hr.2.2 e
              | ok found =>
                  obtain ⟨id', execution⟩ := found
                  obtain ⟨hstarted, htold, hid, t, ht, hsaw⟩ := hr
                  obtain rfl : id' = id := hid
                  refine ends_bind (ends_attempt ((ends_conclude setup.limits
                    setup.rowLimit.toNat pages ht).imp fun r h₃ hr ↦ ?_))
                  obtain ⟨halike, hobserved₃, hcarries⟩ := hr
                  have hkept : Settled r h₃ := by
                    intro id hid
                    have hid' : h₃.execution = some id' := by
                      rw [History.execution, halike.started]
                      exact hexecution₂ hstarted
                    obtain rfl := Option.some.inj (hid'.symm.trans hid)
                    refine ⟨.inl ⟨t, ?_⟩, halike.told ▸ htold, fun e t' he hsaw' ↦ ?_⟩
                    · exact (History.Saw.congr hobserved₃).mpr ((hsaw t).mpr rfl)
                    · rw [(hsaw t').mp ((History.Saw.congr hobserved₃).mp hsaw')]
                      exact hcarries e he
                  cases r with
                  | ok result => exact hkept
                  | error e => exact hkept

/-! ### Every run -/

/-- Before the method is called. -/
def History.initial (tracker : ExecutionTracker) : History := ⟨tracker, none, [], [], []⟩

def smallSetup : Setup := ⟨⟨1, 1024, 1⟩, true, none⟩

def startedQuery : Value := .obj [("QueryExecutionId".toList, .str "q".toList)]

/-- The call is cancelled while the query is started. -/
def cancelledHistory : History where
  tracker := ⟨some "q".toList, true, true⟩
  started := some startedQuery
  told := ["q".toList]
  observed := []
  stopped := [.str "q".toList]

theorem evals_cancelledStart : Evals machine 0 (executeBounded smallSetup 0 0).run
    (.initial ⟨none, false, false⟩) (.error .cancelled) cancelledHistory := by
  refine .call _ _ _ _ _ (Answer.returned () : Answer Unit) _ rfl ?_
  refine .call _ _ _ _ _ (Answer.returned () : Answer Unit) _ rfl ?_
  refine .call _ _ _ _ _ () _ rfl ?_
  refine .call _ _ _ _ _ (⟨some startedQuery, true⟩ : StartAnswer) _ rfl ?_
  refine .call _ _ _ _ _ () _ rfl ?_
  refine .call _ _ _ _ _ (Answer.returned () : Answer Unit) _ rfl ?_
  refine .call _ _ _ _ _ (Answer.returned () : Answer Unit) _ rfl ?_
  refine .call _ _ _ _ _ () _ rfl ?_
  exact .done _ _

end Athena
