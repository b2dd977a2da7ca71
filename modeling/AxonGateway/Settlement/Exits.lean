import AxonGateway.Settlement.Agent

/-!
# Settlement on every exit

A reservation is handed over exactly once on every way out of a request, and released only
when no response was obtained, unless one of the recorded faults happened. Most of a stream
changes nothing in the record; what does is the accounting at its end and the guard around it.
-/

namespace Settlement

open Interleaving
open Raising (perform ask attempt Then alone_bind quiet_bind flows_bind quiet_attempt flows_attempt
  quiet_perform flows_perform)

variable {α β : Type} {w w' : World}

/-! ### What the record says -/

/-- Handed over exactly once, and released only without a provider response. -/
def Settled (w : World) : Prop :=
  ∃ h, w.handed = [h] ∧ (h = .release → w.obtained = false)

/-- A fault happened; that the cost of a stream could not be computed is one if the stream was
exhausted. -/
def Spoiled (a : Except Exn Ended) (w : World) : Prop :=
  (∃ f ∈ w.faults, f ≠ .streamUnpriced) ∨ .streamUnpriced ∈ w.faults ∧ a = .ok .exhausted

namespace World

def close (w : World) : World := { w with closing := true }

/-- Nothing has been handed over or gone wrong; a guarded stream has registered for it. -/
structure Fresh (guarded : Bool) (w : World) : Prop where
  handed : w.handed = []
  settlement : w.settlement = if guarded then some false else none
  faults : w.faults = []

/-- Nothing has been handed over, which the guard of the stream can make up for. -/
structure Pending (w : World) : Prop where
  handed : w.handed = []
  settlement : w.settlement = some false
  faults : ∀ f ∈ w.faults, f = .streamUnpriced

/-- Nothing has been handed over, and nothing will be. -/
structure Lost (w : World) : Prop where
  handed : w.handed = []
  faults : ∃ f ∈ w.faults, f ≠ .streamUnpriced

/-- Handed over, and nothing has gone wrong. -/
structure Done (guarded : Bool) (w : World) : Prop where
  settled : Settled w
  settlement : w.settlement = if guarded then some true else none
  faults : w.faults = []

/-- Released although a response was obtained. -/
structure Late (w : World) : Prop where
  handed : w.handed = [.release]
  obtained : w.obtained = true
  settlement : w.settlement = some true
  faults : ∃ f ∈ w.faults, f ≠ .streamUnpriced

def Over (w : World) : Prop := w.Done true ∨ w.Late

theorem Over.close (h : w.Over) : w.close.Over := by
  rcases h with ⟨hsettled, hsettlement, hfaults⟩ | ⟨hhanded, hobtained, hsettlement, hfaults⟩
  · exact .inl ⟨hsettled, hsettlement, hfaults⟩
  · exact .inr ⟨hhanded, hobtained, hsettlement, hfaults⟩

theorem Fresh.close {guarded : Bool} (h : w.Fresh guarded) : w.close.Fresh guarded :=
  ⟨h.handed, h.settlement, h.faults⟩

theorem Fresh.of_eq {guarded : Bool} (h : w.Fresh guarded) (hhanded : w'.handed = w.handed)
    (hsettlement : w'.settlement = w.settlement) (hfaults : w'.faults = w.faults) :
    w'.Fresh guarded :=
  ⟨hhanded.trans h.handed, hsettlement.trans h.settlement, hfaults.trans h.faults⟩

theorem Fresh.pending (h : w.Fresh true) : w.Pending :=
  ⟨h.handed, h.settlement, by simp [h.faults]⟩

theorem Fresh.finalize {guarded : Bool} (h : w.Fresh guarded) (charge : Charge) :
    (w.hand (.finalize charge)).Done guarded := by
  obtain ⟨hhanded, hsettlement, hfaults⟩ := h
  refine ⟨⟨.finalize charge, by simp [hand, hhanded], by simp⟩, ?_, hfaults⟩
  rw [hand, hsettlement]
  cases guarded <;> rfl

theorem Fresh.release {guarded : Bool} (h : w.Fresh guarded) (hobtained : w.obtained = false) :
    (w.hand .release).Done guarded := by
  obtain ⟨hhanded, hsettlement, hfaults⟩ := h
  refine ⟨⟨.release, by simp [hand, hhanded], fun _ ↦ hobtained⟩, ?_, hfaults⟩
  rw [hand, hsettlement]
  cases guarded <;> rfl

theorem Lost.not_settled (h : w.Lost) : ¬ Settled w := by
  rintro ⟨x, hx, -⟩
  rw [h.handed] at hx
  cases hx

theorem Pending.not_settled (h : w.Pending) : ¬ Settled w := by
  rintro ⟨x, hx, -⟩
  rw [h.handed] at hx
  cases hx

theorem Late.not_settled (h : w.Late) : ¬ Settled w := by
  rintro ⟨x, hx, hrelease⟩
  rw [h.handed] at hx
  cases hx
  rw [h.obtained] at hrelease
  cases hrelease rfl

end World

/-! ### Steps that change nothing -/

abbrev Quietly (Q : Except Exn α → World → Prop) (x : Gen α) (w : World) : Prop :=
  Quiet machine emission 0 Q x.run w

abbrev Streams (Q C : Except Exn α → World → Prop) (x : Gen α) (w : World) : Prop :=
  Flows machine emission 0 Q C x.run w

/-- The program leaves the record as it is; if it is closed, it ends there. -/
def Idle (x : Gen α) : Prop :=
  ∀ w, Streams (fun _ w' ↦ w' = w) (fun r w' ↦ r = .error .generatorExit ∧ w' = w.close) x w

/-- The program neither emits nor changes the record. -/
def Still (x : Gen α) : Prop := ∀ w, Quietly (fun _ w' ↦ w' = w) x w

theorem Still.idle {x : Gen α} (h : Still x) : Idle x := fun w ↦ (h w).flows

theorem still_pure (a : α) : Still (pure a : Gen α) := fun _ ↦ rfl

theorem still_rethrow (r : Except Exn Unit) : Still (rethrow r) := by
  intro w
  cases r <;> rfl

theorem Still.bind {x : Gen α} {f : α → Gen β} (hx : Still x) (hf : ∀ a, Still (f a)) :
    Still (x >>= f) := by
  intro w
  refine quiet_bind ((hx w).imp fun r w' hw' ↦ ?_)
  subst hw'
  cases r with
  | ok a => exact hf a w'
  | error e => rfl

theorem Idle.bind {x : Gen α} {f : α → Gen β} (hx : Idle x) (hf : ∀ a, Idle (f a)) :
    Idle (x >>= f) := by
  intro w
  refine flows_bind ((hx w).imp (fun r w' hw' ↦ ?_) fun r w' hw' ↦ ?_)
  · subst hw'
    cases r with
    | ok a => exact hf a w'
    | error e => rfl
  · obtain ⟨rfl, rfl⟩ := hw'
    exact ⟨rfl, rfl⟩

/-- An operation that the record does not show. -/
theorem still_perform {o : Op} (answer : Ret o → Except Exn α) (hemits : emission.emits o = false)
    (h : ∀ w r, Possible w o r → w.after o r = w) : Still (perform (o := o) answer) := by
  intro w
  refine quiet_perform hemits fun r w' hexec ↦ ?_
  rw [hexec.2]
  exact h w r hexec.1

theorem after_eq {o : Op} {r : Ret o} (hchange : w.change o r = w) (hfault : w.fault o r = []) :
    w.after o r = w := by
  rw [World.after, hchange, hfault, List.append_nil]

/-- A step whose cancellation is no fault. -/
def Step.plain : Step → Bool
  | .closeProvider | .estimateTokens => false
  | _ => true

theorem still_step {s : Step} (hs : s.plain = true) : Still (step s) := by
  refine still_perform answered rfl fun w r _ ↦ after_eq rfl ?_
  cases s <;> first | rfl | cases hs

theorem still_steps {ss : List Step} (hss : ss.all Step.plain = true) : Still (steps ss) := by
  induction ss with
  | nil => exact still_pure ()
  | cons s ss ih =>
      rw [List.all_cons, Bool.and_eq_true] at hss
      exact Still.bind (still_step hss.1) fun _ ↦ ih hss.2

theorem still_length : Still (ask Op.length : Gen ℕ) :=
  still_perform .ok rfl fun _ _ _ ↦ after_eq rfl rfl

theorem idle_emit (e : Event) : Idle (emit e) := by
  intro w
  refine flows_perform fun goesOn w' hexec ↦ ?_
  obtain ⟨-, rfl⟩ := hexec
  cases goesOn with
  | true => exact ⟨fun h ↦ (by cases h), fun _ ↦ after_eq rfl rfl⟩
  | false =>
      refine ⟨fun _ ↦ ⟨rfl, ?_⟩, fun h ↦ by cases h⟩
      rw [World.after]
      simp [World.change, World.fault, World.close]

theorem idle_emitHeaders (headers : Bool) : Idle (emitHeaders headers) := by
  cases headers with
  | true => exact idle_emit .headers
  | false => exact (still_pure ()).idle

theorem idle_chunks (n : ℕ) : Idle (chunks n) := by
  induction n with
  | zero => exact (still_pure ()).idle
  | succ n ih => exact (still_step rfl).idle.bind fun _ ↦ (idle_emit .chunk).bind fun _ ↦ ih

theorem idle_failStream : Idle failStream := (idle_emit .error).bind fun _ ↦ idle_emit .done

theorem Still.attempt_idle {x : Gen α} (hx : Still x) {f : Except Exn α → Gen β}
    (hf : ∀ r, Idle (f r)) : Idle (attempt x >>= f) := by
  intro w
  refine flows_bind (flows_attempt ((hx w).imp fun r w' hw' ↦ ?_).flows)
  subst hw'
  exact hf r w'

/-- A failure is caught. -/
theorem Idle.recover {x y : Gen Unit} (hx : Idle x) (hy : Idle y) {rest : Gen Unit}
    (hrest : Idle rest) : Idle (do
      match ← attempt x with
      | .error (.failure _) => y
      | ended => rethrow ended
      rest) := by
  intro w
  refine flows_bind (flows_attempt ((hx w).imp (fun r w' hw' ↦ ?_) fun r w' hw' ↦ ?_))
  · subst hw'
    cases r with
    | ok a => exact hrest w'
    | error e =>
        cases e with
        | failure f => exact (hy.bind fun _ ↦ hrest) w'
        | cancelled => rfl
        | generatorExit => rfl
  · obtain ⟨rfl, rfl⟩ := hw'
    exact ⟨rfl, rfl⟩

theorem idle_streamResponse (headers : Bool) : Idle (streamResponse headers) :=
  (idle_emitHeaders headers).bind fun _ ↦ still_length.idle.bind fun n ↦
    (idle_chunks n).recover (idle_emit .error) (idle_emit .done)

theorem still_pull_answer (first : Bool) : Still (perform (o := .pull first) fun
    | .chunk emits => .ok emits
    | .failed => .error (.failure .other)
    | .cancelled => .error .cancelled : Gen Bool) :=
  still_perform _ rfl fun _ _ _ ↦ after_eq rfl rfl

theorem idle_pull (first buffers : Bool) : Idle (pull first buffers) := by
  refine (still_pull_answer first).idle.bind fun emits ↦ ?_
  split_ifs
  · exact idle_emit .chunk
  · exact (still_pure ()).idle

theorem idle_pulls (buffers : Bool) (n : ℕ) : Idle (pulls buffers n) := by
  induction n with
  | zero => exact (still_pure ()).idle
  | succ n ih => exact (idle_pull false buffers).bind fun _ ↦ ih

theorem idle_relayStream (headers buffers : Bool) : Idle (relayStream headers buffers) := by
  refine (idle_emitHeaders headers).bind fun _ ↦ (idle_pull true buffers).bind fun _ ↦
    still_length.idle.bind fun n ↦ (idle_pulls buffers n).bind fun _ ↦ ?_
  split_ifs
  · exact (still_steps rfl).idle.bind fun _ ↦ still_length.idle.bind fun m ↦ idle_chunks m
  · exact (still_pure ()).idle

/-! ### The accounting at the end of a stream -/

/-- The accounting hands the reservation over, unless the cost cannot be computed or it is
cancelled before. -/
def Accounts (Unpriced : Except Exn α → Prop) (closing : Bool) (r : Except Exn α) (w : World) :
    Prop :=
  w.Done true ∨
  w.Pending ∧
    (Unpriced r ∧ .streamUnpriced ∈ w.faults ∨ r = .error .cancelled ∧ closing = false) ∨
  w.Lost ∧ r = .error .cancelled ∧ closing = true

namespace World

/-- A cancellation of the accounting: a fault if the stream is being closed. -/
def cut (w : World) : World :=
  { w with faults := w.faults ++ if w.closing then [.closeCut] else [] }

theorem Fresh.cut (h : w.Fresh true) :
    w.cut.Pending ∧ w.closing = false ∨ w.cut.Lost ∧ w.closing = true := by
  obtain ⟨hhanded, hsettlement, hfaults⟩ := h
  cases hclosing : w.closing with
  | false => exact .inl ⟨⟨hhanded, hsettlement, by simp [World.cut, hfaults, hclosing]⟩, rfl⟩
  | true => exact .inr ⟨⟨hhanded, .closeCut, by simp [World.cut, hclosing], by simp⟩, rfl⟩

end World

/-- The program ended in time, and changed nothing, or it was cut. -/
def CutOr (P : Except Exn α → Prop) (w : World) (r : Except Exn α) (w' : World) : Prop :=
  P r ∧ w' = w ∨ r = .error .cancelled ∧ w' = w.cut

def Fails (r : Except Exn α) : Prop := ∀ e, r = .error e → ∃ f, e = .failure f

/-- The program may fail or be cut. -/
def Cuts (x : Gen α) : Prop := ∀ w, Quietly (CutOr Fails w) x w

/-- The program may be cut. -/
def Catches (x : Gen α) : Prop := ∀ w, Quietly (CutOr (fun r ↦ ∃ a, r = .ok a) w) x w

theorem cuts_step {s : Step} (hs : s.plain = false) : Cuts (step s) := by
  intro w
  refine quiet_perform rfl fun r w' hexec ↦ ?_
  obtain ⟨-, rfl⟩ := hexec
  cases r with
  | cancelled =>
      refine .inr ⟨rfl, ?_⟩
      cases s <;> first | rfl | cases hs
  | done =>
      refine .inl ⟨fun e he ↦ (by cases he), after_eq rfl ?_⟩
      cases s <;> rfl
  | failed =>
      refine .inl ⟨fun e he ↦ ⟨.other, by cases he; rfl⟩, after_eq rfl ?_⟩
      cases s <;> rfl

theorem cuts_pure (a : α) : Cuts (pure a : Gen α) := fun _ ↦ .inl ⟨fun _ he ↦ (by cases he), rfl⟩

theorem Cuts.bind {x : Gen α} {f : α → Gen β} (hx : Cuts x) (hf : ∀ a, Cuts (f a)) :
    Cuts (x >>= f) := by
  intro w
  refine quiet_bind ((hx w).imp fun r w' hw' ↦ ?_)
  rcases hw' with ⟨hr, rfl⟩ | ⟨rfl, rfl⟩
  · cases r with
    | ok a => exact hf a w'
    | error e =>
        obtain ⟨f, rfl⟩ := hr e rfl
        exact .inl ⟨fun e he ↦ ⟨f, by cases he; rfl⟩, rfl⟩
  · exact .inr ⟨rfl, rfl⟩

theorem Cuts.recover {x : Gen Unit} (hx : Cuts x) : Catches (do
    match ← attempt x with
    | .error (.failure _) => pure ()
    | ended => rethrow ended) := by
  intro w
  refine quiet_bind (quiet_attempt ((hx w).imp fun r w' hw' ↦ ?_))
  rcases hw' with ⟨hr, rfl⟩ | ⟨rfl, rfl⟩
  · cases r with
    | ok a => exact .inl ⟨⟨(), rfl⟩, rfl⟩
    | error e =>
        obtain ⟨f, rfl⟩ := hr e rfl
        exact .inl ⟨⟨(), rfl⟩, rfl⟩
  · exact .inr ⟨rfl, rfl⟩

theorem catches_closeProvider : Catches closeProvider := (cuts_step rfl).recover

theorem catches_estimateUsage : Catches estimateUsage := by
  intro w
  refine quiet_bind (quiet_perform rfl fun reported w' hexec ↦ ?_)
  rw [hexec.2, after_eq rfl rfl]
  cases reported with
  | true => exact .inl ⟨⟨(), rfl⟩, rfl⟩
  | false =>
      refine Cuts.recover ?_ w
      exact (cuts_step rfl).bind fun _ ↦ (cuts_step rfl).bind fun _ ↦ cuts_pure ()

/-- What is cut before the accounting is lost when the stream is being closed. -/
theorem Catches.accounts {x : Gen α} {f : α → Gen β} {P : Except Exn β → Prop} (hx : Catches x)
    (hfresh : w.Fresh true) (hf : ∀ a, Quietly (Accounts P w.closing) (f a) w) :
    Quietly (Accounts P w.closing) (x >>= f) w := by
  refine quiet_bind ((hx w).imp fun r w' hw' ↦ ?_)
  rcases hw' with ⟨⟨a, rfl⟩, rfl⟩ | ⟨rfl, rfl⟩
  · exact hf a
  · rcases hfresh.cut with ⟨hpending, hclosing⟩ | ⟨hlost, hclosing⟩
    · exact .inr (.inl ⟨hpending, .inr ⟨rfl, hclosing⟩⟩)
    · exact .inr (.inr ⟨hlost, rfl, hclosing⟩)

theorem Still.keeps {x : Gen α} (hx : Still x) {P : World → Prop} (hw : P w) :
    Quietly (fun _ w' ↦ P w') x w :=
  (hx w).imp fun _ _ hw' ↦ hw' ▸ hw

theorem after_finalize (w : World) (charge : Charge) (r : FinalizeAnswer) :
    w.after (.finalize charge) r = w.hand (.finalize charge) :=
  congrArg (fun l ↦ { w.hand (.finalize charge) with faults := l }) (List.append_nil _)

theorem after_release (w : World) (r : Answer) : w.after .release r = w.hand .release :=
  congrArg (fun l ↦ { w.hand .release with faults := l }) (List.append_nil _)

/-- The hand-over to `finalize_budget`. -/
theorem finalize_quiet {P : World → Prop} {charge : Charge} (h : P (w.hand (.finalize charge))) :
    Quietly (fun _ w' ↦ P w') (finalizeRequestBudget charge) w := by
  refine quiet_perform rfl fun r w' hexec ↦ ?_
  rw [hexec.2, after_finalize]
  exact h

/-- The hand-over to `release_budget`. -/
theorem release_quiet {P : World → Prop} (h : P (w.hand .release)) :
    Quietly (fun _ w' ↦ P w') releaseRequestBudget w := by
  refine quiet_perform rfl fun r w' hexec ↦ ?_
  rw [hexec.2, after_release]
  exact h

theorem finalize_still {P : World → Prop} {charge : Charge} {f : Bool → Gen α}
    (hf : ∀ b, Still (f b)) (h : P (w.hand (.finalize charge))) :
    Quietly (fun _ w' ↦ P w') (finalizeRequestBudget charge >>= f) w := by
  refine quiet_bind ((finalize_quiet h).imp fun r w' hw' ↦ ?_)
  cases r with
  | ok totals => exact (hf totals).keeps hw'
  | error e => exact hw'

def Failed (r : Except Exn α) : Prop := ∃ f, r = .error (.failure f)

theorem finalizeStream_accounts (usageKnown : Bool) (hfresh : w.Fresh true) :
    Quietly (Accounts Failed w.closing) (finalizeStream usageKnown) w := by
  have htail : ∀ u : Unit, Quietly (Accounts Failed w.closing) (do
      price true
      let totals ← finalizeRequestBudget .actual
      step .recordUsage
      if totals then
        steps [.adoptSpend, .forwardTrace, .exportUsage, .recordSpend, .audit]
      else
        throw (.failure .other)) w := by
    intro _
    refine quiet_bind (quiet_perform rfl fun priced w' hexec ↦ ?_)
    obtain ⟨-, rfl⟩ := hexec
    cases priced with
    | false =>
        refine .inr (.inl ⟨⟨hfresh.handed, hfresh.settlement, ?_⟩, .inl ⟨⟨_, rfl⟩, ?_⟩⟩)
        · rw [World.after, hfresh.faults]
          simp [World.fault]
        · rw [World.after]
          simp [World.fault]
    | true =>
        have hsame : w.after (.price true) true = w := after_eq rfl rfl
        rw [hsame]
        refine (finalize_still (fun totals ↦ ?_) (hfresh.finalize .actual)).imp fun _ _ h ↦ .inl h
        refine (still_step rfl).bind fun _ ↦ ?_
        split_ifs
        · exact still_steps rfl
        · exact still_rethrow (.error (.failure .other))
  cases usageKnown with
  | true => exact htail ()
  | false => exact catches_estimateUsage.accounts hfresh htail

theorem finalizeStreamSafely_accounts (usageKnown : Bool) (hfresh : w.Fresh true) :
    Quietly (Accounts (· = .ok false) w.closing) (finalizeStreamSafely usageKnown) w := by
  refine quiet_bind (quiet_attempt ((finalizeStream_accounts usageKnown hfresh).imp
    fun r w' hw' ↦ ?_))
  rcases hw' with hdone | ⟨hpending, ⟨⟨f, rfl⟩, hfault⟩ | ⟨rfl, hclosing⟩⟩ | ⟨hlost, rfl, hclosing⟩
  · rcases r with ⟨f | _ | _⟩ | _ <;> exact .inl hdone
  · exact .inr (.inl ⟨hpending, .inl ⟨rfl, hfault⟩⟩)
  · exact .inr (.inl ⟨hpending, .inr ⟨rfl, hclosing⟩⟩)
  · exact .inr (.inr ⟨hlost, rfl, hclosing⟩)

/-! ### Streams under the guard -/

def StreamEnds (r : Except Exn Unit) (w : World) : Prop :=
  w.Over ∨ w.Pending ∧ (r = .ok () → .streamUnpriced ∈ w.faults)

def StreamCloses (r : Except Exn Unit) (w : World) : Prop :=
  w.Over ∨ w.Pending ∧ r ≠ .error .cancelled ∨ w.Lost ∧ r = .error .cancelled

namespace World

theorem Pending.close (h : w.Pending) : w.close.Pending := ⟨h.handed, h.settlement, h.faults⟩

end World

/-- A stream that goes on after its settlement. -/
theorem Idle.over {x : Gen Unit} (hx : Idle x) (hover : w.Over) :
    Streams StreamEnds StreamCloses x w := by
  refine (hx w).imp (fun r w' hw' ↦ ?_) fun r w' hw' ↦ ?_
  · exact .inl (hw' ▸ hover)
  · exact .inl (hw'.2 ▸ hover.close)

/-- A stream that goes on without one. -/
theorem Idle.pending {x : Gen Unit} (hx : Idle x) (hpending : w.Pending)
    (hfault : .streamUnpriced ∈ w.faults) : Streams StreamEnds StreamCloses x w := by
  refine (hx w).imp (fun r w' hw' ↦ ?_) fun r w' hw' ↦ ?_
  · subst hw'
    exact .inr ⟨hpending, fun _ ↦ hfault⟩
  · obtain ⟨rfl, rfl⟩ := hw'
    exact .inr (.inl ⟨hpending.close, by rintro ⟨⟩⟩)

/-- The events after the accounting. -/
def lastEvents (accounted : Bool) (ended reported : Except Exn Unit) : Gen Unit := do
  rethrow reported
  if !accounted && ended.isOk then
    emit .error
  emit .done

theorem idle_lastEvents (accounted : Bool) (ended reported : Except Exn Unit) :
    Idle (lastEvents accounted ended reported) := by
  refine (still_rethrow reported).idle.bind fun _ ↦ ?_
  split_ifs
  · exact (idle_emit .error).bind fun _ ↦ idle_emit .done
  · exact idle_emit .done

/-- The accounting and the last events of a stream that is not closed yet. -/
theorem account_flows {account : Gen Bool} (ended reported : Except Exn Unit)
    (haccount : Quietly (Accounts (· = .ok false) false) account w) :
    Streams StreamEnds StreamCloses
      (account >>= fun accounted ↦ lastEvents accounted ended reported) w := by
  refine flows_bind (haccount.imp fun r w' hw' ↦ ?_).flows
  rcases hw' with hdone | ⟨hpending, ⟨rfl, hfault⟩ | ⟨rfl, -⟩⟩ | ⟨-, -, h⟩
  · cases r with
    | ok accounted => exact (idle_lastEvents accounted ended reported).over (.inl hdone)
    | error e => exact .inl (.inl hdone)
  · exact (idle_lastEvents false ended reported).pending hpending hfault
  · exact .inr ⟨hpending, by rintro ⟨⟩⟩
  · cases h

/-- The accounting of a stream that is closed. -/
theorem account_closed {account : Gen Bool} (ended : Except Exn Unit)
    (haccount : Quietly (Accounts (· = .ok false) true) account w) :
    Quietly StreamCloses
      (account >>= fun accounted ↦ lastEvents accounted ended (.error .generatorExit)) w := by
  refine quiet_bind (haccount.imp fun r w' hw' ↦ ?_)
  rcases hw' with hdone | ⟨hpending, ⟨rfl, hfault⟩ | ⟨-, h⟩⟩ | ⟨hlost, rfl, -⟩
  · cases r with
    | ok accounted => exact .inl (.inl hdone)
    | error e => exact .inl (.inl hdone)
  · exact .inr (.inl ⟨hpending, by rintro ⟨⟩⟩)
  · cases h
  · exact .inr (.inr ⟨hlost, rfl⟩)

theorem concludeStream_flows {content : Gen Unit} {account : Gen Bool} (hcontent : Idle content)
    (haccount : ∀ w, w.Fresh true → Quietly (Accounts (· = .ok false) w.closing) account w)
    (hfresh : w.Fresh true) (hopen : w.closing = false) :
    Streams StreamEnds StreamCloses (concludeStream content account) w := by
  have hwhile := haccount w hfresh
  rw [hopen] at hwhile
  have hclosed := haccount w.close hfresh.close
  refine flows_bind (flows_attempt ((hcontent w).imp (fun ended w' hw' ↦ ?_) fun ended w' hw' ↦ ?_))
  · subst hw'
    cases ended with
    | ok a => exact account_flows (.ok a) (.ok a) hwhile
    | error e =>
        cases e with
        | failure f =>
            refine flows_bind (flows_attempt ((idle_emit .error w').imp (fun r w'' hr ↦ ?_)
              fun r w'' hr ↦ ?_))
            · subst hr
              exact account_flows (.error (.failure f)) r hwhile
            · obtain ⟨rfl, rfl⟩ := hr
              exact account_closed (.error (.failure f)) hclosed
        | cancelled => exact account_flows (.error .cancelled) (.error .cancelled) hwhile
        | generatorExit => exact account_flows (.error .generatorExit) (.error .generatorExit) hwhile
  · obtain ⟨rfl, rfl⟩ := hw'
    exact account_closed (.error .generatorExit) hclosed

theorem release_flows {x : Gen Unit} (hx : Idle x) (hover : (w.hand .release).Over) :
    Streams StreamEnds StreamCloses (releaseRequestBudget >>= fun _ ↦ x) w := by
  refine flows_bind ((release_quiet (P := World.Over) hover).imp fun r w' hw' ↦ ?_).flows
  cases r with
  | ok a => exact hx.over hw'
  | error e => exact .inl hw'

theorem bufferedStream_flows (headers : Bool) (hfresh : w.Fresh true) (hopen : w.closing = false)
    (hobtained : w.obtained = false) :
    Streams StreamEnds StreamCloses (bufferedStream headers) w := by
  refine flows_bind (flows_attempt (quiet_perform rfl fun r w' hexec ↦ ?_).flows)
  obtain ⟨-, rfl⟩ := hexec
  cases r with
  | response =>
      have hfresh' : (w.after (.route .bufferedStream) .response).Fresh true :=
        hfresh.of_eq rfl rfl (List.append_nil _)
      have haccount : ∀ w : World, w.Fresh true →
          Quietly (Accounts (· = .ok false) w.closing) (finalizeStreamSafely true) w :=
        fun w h ↦ finalizeStreamSafely_accounts true h
      refine flows_bind (flows_attempt ((still_steps rfl _).imp fun r w' hw' ↦ ?_).flows)
      subst hw'
      cases r with
      | ok a =>
          refine concludeStream_flows ?_ haccount hfresh' hopen
          exact (idle_emitHeaders headers).bind fun _ ↦ still_length.idle.bind fun n ↦ idle_chunks n
      | error e =>
          cases e with
          | failure f =>
              refine flows_bind ((haccount _ hfresh').imp fun r w' hr ↦ ?_).flows
              rcases hr with hdone | ⟨hpending, ⟨rfl, hfault⟩ | ⟨rfl, -⟩⟩ | ⟨-, -, h⟩
              · cases r with
                | ok a => exact idle_failStream.over (.inl hdone)
                | error e => exact .inl (.inl hdone)
              · exact idle_failStream.pending hpending hfault
              · exact .inr ⟨hpending, by rintro ⟨⟩⟩
              · exact absurd (h.symm.trans hopen) (by decide)
          | cancelled => exact .inr ⟨hfresh'.pending, by rintro ⟨⟩⟩
          | generatorExit => exact .inr ⟨hfresh'.pending, by rintro ⟨⟩⟩
  | failed f obtained =>
      refine release_flows idle_failStream ?_
      cases obtained with
      | true =>
          refine .inr ⟨?_, ?_, ?_, ?_⟩
          all_goals simp [World.hand, World.after, World.change, World.fault, hfresh.handed,
            hfresh.settlement]
      | false =>
          refine .inl (World.Fresh.release (hfresh.of_eq rfl rfl (List.append_nil _)) ?_)
          exact (Bool.or_false _).trans hobtained
  | cancelled obtained =>
      have hfresh' : (w.after (.route .bufferedStream) (.cancelled obtained)).Fresh true :=
        hfresh.of_eq rfl rfl (List.append_nil _)
      exact .inr ⟨hfresh'.pending, by rintro ⟨⟩⟩

theorem streamTrue_flows (allowed headers buffers : Bool) (hfresh : w.Fresh true)
    (hopen : w.closing = false) (hobtained : w.obtained = false) :
    Streams StreamEnds StreamCloses (streamTrue allowed headers buffers) w := by
  cases allowed with
  | false => exact release_flows idle_failStream (.inl (hfresh.release hobtained))
  | true =>
      refine flows_bind (Quiet.flows (quiet_perform rfl fun r w' hexec ↦ ?_))
      obtain ⟨-, rfl⟩ := hexec
      have hfresh' : (w.after .openStream r).Fresh true := by
        cases r <;> exact hfresh.of_eq rfl rfl (List.append_nil _)
      have hopen' : (w.after .openStream r).closing = false := by
        cases r <;> exact hopen
      cases r with
      | opened =>
          refine concludeStream_flows (idle_relayStream headers buffers) (fun w h ↦ ?_) hfresh' hopen'
          exact catches_closeProvider.accounts h fun _ ↦ finalizeStreamSafely_accounts false h
      | unavailable => exact bufferedStream_flows headers hfresh' hopen' hobtained
      | failed => exact .inr ⟨hfresh'.pending, by rintro ⟨⟩⟩
      | cancelled => exact .inr ⟨hfresh'.pending, by rintro ⟨⟩⟩

/-- A hand-over to `finalize_budget` in a stream. -/
theorem finalize_flows (charge : Charge) {f : Bool → Gen Unit} (hf : ∀ b, Idle (f b))
    (hfresh : w.Fresh true) :
    Streams StreamEnds StreamCloses (finalizeRequestBudget charge >>= f) w := by
  refine flows_bind ((finalize_quiet (hfresh.finalize charge)).imp fun r w' hw' ↦ ?_).flows
  cases r with
  | ok totals => exact (hf totals).over (.inl hw')
  | error e => exact .inl (.inl hw')

theorem streamEnsembleResponse_flows (headers : Bool) (hfresh : w.Fresh true)
    (hobtained : w.obtained = false) :
    Streams StreamEnds StreamCloses (streamEnsembleResponse headers) w := by
  have hlast : Idle (do
      emitHeaders headers
      failStream) := (idle_emitHeaders headers).bind fun _ ↦ idle_failStream
  refine flows_bind (flows_attempt (quiet_perform rfl fun r w' hexec ↦ ?_).flows)
  obtain ⟨hpossible, rfl⟩ := hexec
  have hfresh' : (w.after (.route .ensembleStream) r).Fresh true := by
    cases r <;> exact hfresh.of_eq rfl rfl (List.append_nil _)
  cases r with
  | response =>
      refine finalize_flows .decision (fun totals ↦ ?_) hfresh'
      cases totals with
      | true =>
          refine (still_step rfl).idle.bind fun _ ↦ (idle_emitHeaders headers).bind fun _ ↦ ?_
          refine Still.attempt_idle (still_steps rfl) fun r ↦ ?_
          cases r with
          | ok a => exact idle_streamResponse false
          | error e =>
              cases e with
              | failure f => exact idle_failStream
              | cancelled => exact (still_rethrow (.error .cancelled)).idle
              | generatorExit => exact (still_rethrow (.error .generatorExit)).idle
      | false => exact idle_failStream
  | failed f obtained =>
      have hearly : f.early = true →
          World.Over ((w.after (.route .ensembleStream) (.failed f obtained)).hand .release) := by
        intro h
        refine .inl (hfresh'.release ?_)
        change (w.obtained || obtained) = false
        rw [hobtained, hpossible h]
        rfl
      have hdecision : Streams StreamEnds StreamCloses (do
          let _ ← finalizeRequestBudget .decision
          step .adoptSpend
          emitHeaders headers
          failStream) (w.after (.route .ensembleStream) (.failed f obtained)) :=
        finalize_flows .decision (fun _ ↦ (still_step rfl).idle.bind fun _ ↦ hlast) hfresh'
      have hthrow : Streams StreamEnds StreamCloses (throw (.failure f) : Gen Unit)
          (w.after (.route .ensembleStream) (.failed f obtained)) :=
        .inr ⟨hfresh'.pending, by rintro ⟨⟩⟩
      cases f with
      | ensembleAccess => exact release_flows hlast (hearly rfl)
      | ensembleCostCeiling => exact release_flows hlast (hearly rfl)
      | ensembleNoSurvivors => exact hdecision
      | ensembleQuorum => exact hdecision
      | ensembleSynthesis => exact hdecision
      | allProvidersExhausted => exact hthrow
      | noCandidateModels => exact hthrow
      | other => exact hthrow
  | cancelled obtained => exact .inr ⟨hfresh'.pending, by rintro ⟨⟩⟩

/-! ### The guard -/

abbrev Comes (Q : Except Exn α → World → Prop) (x : Gen α) (w : World) : Prop :=
  Alone machine 0 Q x.run w

theorem Quietly.comes {Q : Except Exn α → World → Prop} {x : Gen α} (h : Quietly Q x w) :
    Comes Q x w :=
  Quiet.alone h

/-- A request is settled unless it is spoiled. -/
def Verdict (a : Except Exn Ended) (w : World) : Prop := Settled w ↔ ¬ Spoiled a w

theorem verdict_of_settled {a : Except Exn Ended} (hsettled : Settled w)
    (hfaults : ∀ f ∈ w.faults, f = .streamUnpriced ∧ a ≠ .ok .exhausted) : Verdict a w := by
  refine iff_of_true hsettled ?_
  rintro (⟨f, hf, hne⟩ | ⟨hf, ha⟩)
  · exact hne (hfaults f hf).1
  · exact (hfaults _ hf).2 ha

theorem verdict_of_done {a : Except Exn Ended} (hsettled : Settled w) (hfaults : w.faults = []) :
    Verdict a w :=
  verdict_of_settled hsettled fun f hf ↦ by rw [hfaults] at hf; cases hf

theorem verdict_of_spoiled {a : Except Exn Ended} (hsettled : ¬ Settled w) (hspoiled : Spoiled a w) :
    Verdict a w :=
  iff_of_false hsettled (not_not_intro hspoiled)

theorem relayed_comes {x : Gen Unit} {Q C : Except Exn Unit → World → Prop} (hx : Streams Q C x w) :
    Comes (fun r w' ↦ ∃ ended, r = .ok ended ∧ RelayEnds Q C ended w') (relayed x) w :=
  Alone.bind (hx.relay.imp fun r _ hr ↦ ⟨r, rfl, hr⟩)

namespace World

/-- Charged in the end, whatever could not be computed before. -/
structure Paid (w : World) : Prop where
  settled : Settled w
  faults : ∀ f ∈ w.faults, f = .streamUnpriced

theorem Done.paid {guarded : Bool} (h : w.Done guarded) : w.Paid :=
  ⟨h.settled, by simp [h.faults]⟩

end World

/-- What a stream leaves behind is charged in full, and only once. -/
theorem settleAbandoned_over (hover : w.Over) :
    Quietly (fun _ w' ↦ w' = w) settleAbandoned w := by
  have hsettlement : w.settlement = some true := hover.elim World.Done.settlement World.Late.settlement
  refine quiet_bind (quiet_perform rfl fun claimed w' hexec ↦ ?_)
  obtain ⟨hclaimed, rfl⟩ := hexec
  obtain rfl : true = claimed := Option.some.inj (hsettlement.symm.trans hclaimed)
  exact after_eq rfl rfl

theorem settleAbandoned_pending (hpending : w.Pending) :
    Quietly (fun _ w' ↦ w'.Paid) settleAbandoned w := by
  refine quiet_bind (quiet_perform rfl fun claimed w' hexec ↦ ?_)
  obtain ⟨hclaimed, rfl⟩ := hexec
  obtain rfl : false = claimed := Option.some.inj (hpending.settlement.symm.trans hclaimed)
  have hsame : w.after .claimed false = w := after_eq rfl rfl
  rw [hsame]
  have hpaid : (w.hand (.finalize .reserved)).Paid :=
    ⟨⟨.finalize .reserved, by simp [World.hand, hpending.handed], by simp⟩, hpending.faults⟩
  refine quiet_bind (quiet_attempt ((finalize_still (fun _ ↦ still_step rfl) hpaid).imp
    fun r w' hw' ↦ ?_))
  rcases r with ⟨f | _ | _⟩ | _ <;> exact hw'

namespace World

theorem Over.verdict (h : w.Over) (a : Except Exn Ended) : Verdict a w := by
  rcases h with hdone | hlate
  · exact verdict_of_done hdone.settled hdone.faults
  · exact verdict_of_spoiled hlate.not_settled (.inl hlate.faults)

theorem Lost.verdict (h : w.Lost) (a : Except Exn Ended) : Verdict a w :=
  verdict_of_spoiled h.not_settled (.inl h.faults)

theorem Paid.verdict (h : w.Paid) (e : Exn) : Verdict (.error e) w :=
  verdict_of_settled h.settled fun f hf ↦ ⟨h.faults f hf, by rintro ⟨⟩⟩

end World

theorem StreamCloses.still {r : Except Exn Unit} (h : StreamCloses r w)
    (hr : r ≠ .error .cancelled) : w.Over ∨ w.Pending := by
  rcases h with hover | ⟨hpending, -⟩ | ⟨-, h⟩
  · exact .inl hover
  · exact .inr hpending
  · exact absurd h hr

theorem StreamCloses.cancelled (h : StreamCloses (.error .cancelled) w) (a : Except Exn Ended) :
    Verdict a w := by
  rcases h with hover | ⟨-, h⟩ | ⟨hlost, -⟩
  · exact hover.verdict a
  · exact absurd rfl h
  · exact hlost.verdict a

/-- How the guard ends. -/
def finish (settled : Except Exn Unit) (ended : Relayed (Except Exn Unit)) : Gen Ended := do
  let _ ← ask .unregister
  rethrow settled
  match ended with
  | .ended (.ok _) => pure .exhausted
  | .ended (.error e) => throw e
  | .closed _ => throw .generatorExit

theorem unregister_comes {Q : Except Exn Ended → World → Prop} {x : Gen Ended}
    (h : Comes Q x { w with settlement := none }) :
    Comes Q (ask Op.unregister >>= fun _ ↦ x) w := by
  refine alone_bind (Quietly.comes (quiet_perform rfl fun r w' hexec ↦ ?_))
  obtain ⟨-, rfl⟩ := hexec
  have hsame : w.after .unregister r = { w with settlement := none } :=
    congrArg (fun l ↦ { w with settlement := none, faults := l }) (List.append_nil _)
  rw [hsame]
  exact h

theorem finish_exhausted (h : Verdict (.ok .exhausted) w) :
    Comes Verdict (finish (.ok ()) (.ended (.ok ()))) w :=
  unregister_comes h

theorem finish_error (settled : Except Exn Unit) (ended : Relayed (Except Exn Unit))
    (hended : ended ≠ .ended (.ok ())) (h : ∀ e, Verdict (.error e) w) :
    Comes Verdict (finish settled ended) w := by
  refine unregister_comes ?_
  cases settled with
  | error e => exact h e
  | ok _ =>
      rcases ended with ⟨_ | _⟩ | _
      · exact h _
      · exact absurd rfl hended
      · exact h _

theorem settleAbandoned_finish (ended : Relayed (Except Exn Unit))
    (hended : ended ≠ .ended (.ok ())) (hw : w.Over ∨ w.Pending) :
    Comes Verdict (attempt settleAbandoned >>= fun settled ↦ finish settled ended) w := by
  refine alone_bind (Quietly.comes (quiet_attempt ?_))
  rcases hw with hover | hpending
  · refine (settleAbandoned_over hover).imp fun settled w' hw' ↦ ?_
    exact finish_error settled ended hended fun e ↦ (hw' ▸ hover).verdict (.error e)
  · refine (settleAbandoned_pending hpending).imp fun settled w' hpaid ↦ ?_
    exact finish_error settled ended hended hpaid.verdict

/-- The guard settles what the stream did not. -/
theorem guardBudgetedStream_comes {g : Gen Unit}
    (hg : ∀ w : World, w.Fresh true → w.closing = false → w.obtained = false →
      Streams StreamEnds StreamCloses g w)
    (hfresh : w.Fresh false) (hopen : w.closing = false) (hobtained : w.obtained = false) :
    Comes Verdict (guardBudgetedStream g) w := by
  refine alone_bind (Quietly.comes (quiet_perform rfl fun r w' hexec ↦ ?_))
  obtain ⟨-, rfl⟩ := hexec
  have hregistered : (w.after .register r).Fresh true :=
    ⟨hfresh.handed, rfl, (List.append_nil _).trans hfresh.faults⟩
  refine alone_bind ((relayed_comes (hg _ hregistered hopen hobtained)).imp fun r w' hr ↦ ?_)
  obtain ⟨ended, rfl, hends⟩ := hr
  cases ended with
  | ended a =>
      cases a with
      | ok _ =>
          refine finish_exhausted ?_
          rcases hends with hover | ⟨hpending, hfault⟩
          · exact hover.verdict _
          · exact verdict_of_spoiled hpending.not_settled (.inr ⟨hfault rfl, rfl⟩)
      | error e => exact settleAbandoned_finish (.ended (.error e)) (by simp) (hends.imp_right And.left)
  | closed a =>
      obtain ⟨b, rfl, hends⟩ := hends
      rcases b with ⟨f | _ | _⟩ | _
      · exact settleAbandoned_finish (.closed (some (.error (.failure f)))) (by simp)
          (hends.still (by simp))
      · exact finish_error (.error .cancelled) (.closed (some (.error .cancelled))) (by simp)
          fun e ↦ hends.cancelled (.error e)
      · exact settleAbandoned_finish (.closed (some (.error .generatorExit))) (by simp)
          (hends.still (by simp))
      · exact settleAbandoned_finish (.closed (some (.ok ()))) (by simp) (hends.still (by simp))

/-! ### The handlers -/

/-- A stream that can be put under the guard. -/
def Guardable (g : Gen Unit) : Prop :=
  ∀ w : World, w.Fresh true → w.closing = false → w.obtained = false →
    Streams StreamEnds StreamCloses g w

/-- A handler has handed the reservation over or lost it, unless it leaves it to a guard. -/
def HandlerEnds : Except Exn Returned → World → Prop
  | .ok (.guarded g), w => w = granted ∧ Guardable g
  | .ok (.plain g), w => w.Done false ∧ Idle g
  | .ok .response, w => w.Done false
  | .error _, w => w.Done false ∨ w.Lost

theorem granted_fresh : granted.Fresh false := ⟨rfl, rfl, rfl⟩

theorem settleFailure_done (f : Failure) (hfresh : w.Fresh false)
    (hearly : f.early = true → w.obtained = false) :
    Quietly (fun _ w' ↦ w'.Done false) (settleFailure f) w := by
  have hdecision : Quietly (fun _ w' ↦ w'.Done false) (do
      let _ ← finalizeRequestBudget .decision
      step .adoptSpend) w :=
    finalize_still (fun _ ↦ still_step rfl) (hfresh.finalize .decision)
  cases f with
  | ensembleAccess => exact release_quiet (hfresh.release (hearly rfl))
  | ensembleCostCeiling => exact release_quiet (hfresh.release (hearly rfl))
  | allProvidersExhausted => exact release_quiet (hfresh.release (hearly rfl))
  | noCandidateModels => exact release_quiet (hfresh.release (hearly rfl))
  | ensembleNoSurvivors => exact hdecision
  | ensembleQuorum => exact hdecision
  | ensembleSynthesis => exact hdecision
  | other =>
      exact finalize_still (fun _ ↦ still_rethrow (.error (.failure .other)))
        (hfresh.finalize .reserved)

/-- A cost that cannot be computed after the response raises before the reservation is handed
over. -/
theorem price_quiet {Q : Except Exn α → World → Prop} {f : Unit → Gen α} (hfresh : w.Fresh false)
    (hpriced : Quietly Q (f ()) w) (hunpriced : ∀ w' e, w'.Lost → Q (.error e) w') :
    Quietly Q (price false >>= f) w := by
  refine quiet_bind (quiet_perform rfl fun priced w' hexec ↦ ?_)
  obtain ⟨-, rfl⟩ := hexec
  cases priced with
  | true =>
      have hsame : w.after (.price false) true = w := after_eq rfl rfl
      rw [hsame]
      exact hpriced
  | false =>
      refine hunpriced _ _ ⟨hfresh.handed, .unpriced, ?_, by simp⟩
      simp [World.after, World.fault]

theorem accountUsage_quiet (path : Path) (hfresh : w.Fresh false) :
    Quietly (fun r w' ↦ w'.Done false ∨ w'.Lost ∧ r.isOk = false) (accountUsage path) w := by
  have hothers : Quietly (fun r w' ↦ w'.Done false ∨ w'.Lost ∧ r.isOk = false) (do
      price false
      let totals ← finalizeRequestBudget .actual
      steps [.recordUsage, .adoptSpend, .forwardTrace, .exportUsage, .recordSpend]
      pure totals) w := by
    refine price_quiet hfresh ?_ fun _ _ h ↦ .inr ⟨h, rfl⟩
    refine (finalize_still (fun totals ↦ ?_) (hfresh.finalize .actual)).imp fun _ _ h ↦ .inl h
    exact (still_steps rfl).bind fun _ ↦ still_pure totals
  cases path with
  | ensemble =>
      refine (finalize_still (fun totals ↦ ?_) (hfresh.finalize .decision)).imp fun _ _ h ↦ .inl h
      exact (still_steps rfl).bind fun _ ↦ still_pure totals
  | smart => exact hothers
  | direct => exact hothers
  | embeddings => exact hothers

/-- A handler goes on after it has handed the reservation over. -/
theorem Still.handler {x : Gen α} (hx : Still x) {f : α → Gen Returned}
    (hf : ∀ a, Quietly HandlerEnds (f a) w) (hdone : w.Done false) :
    Quietly HandlerEnds (x >>= f) w := by
  refine quiet_bind ((hx w).imp fun r w' hw' ↦ ?_)
  subst hw'
  cases r with
  | ok a => exact hf a
  | error e => exact .inl hdone

theorem account_quiet (setup : Setup) (hfresh : w.Fresh false) :
    Quietly HandlerEnds (account setup) w := by
  refine quiet_bind ((accountUsage_quiet setup.path hfresh).imp fun r w' hw' ↦ ?_)
  cases r with
  | error e => exact hw'.imp_right And.left
  | ok totals =>
      have hdone : w'.Done false := hw'.elim id fun h ↦ by cases h.2
      cases totals with
      | false => exact hdone
      | true =>
          refine (still_steps rfl).handler (fun _ ↦ ?_) hdone
          split_ifs
          · exact ⟨hdone, idle_streamResponse setup.headers⟩
          · exact (still_steps rfl).handler (fun _ ↦ hdone) hdone

/-- The reservation was handed over on the way to a response. -/
theorem responded {x : Gen Unit} (hx : Quietly (fun _ w' ↦ w'.Done false) x w) :
    Quietly HandlerEnds (x >>= fun _ ↦ pure .response) w := by
  refine quiet_bind (hx.imp fun r w' hdone ↦ ?_)
  cases r with
  | ok _ => exact hdone
  | error e => exact .inl hdone

theorem route_handler_fresh {r : RouteAnswer} (hr : ∀ obtained, r ≠ .cancelled obtained)
    (hfresh : w.Fresh false) : (w.after (.route .handler) r).Fresh false := by
  cases r with
  | response => exact hfresh.of_eq rfl rfl (List.append_nil _)
  | failed f obtained => exact hfresh.of_eq rfl rfl (List.append_nil _)
  | cancelled obtained => exact absurd rfl (hr obtained)

theorem route_handler_lost (obtained : Bool) (hfresh : w.Fresh false) :
    (w.after (.route .handler) (.cancelled obtained)).Lost :=
  ⟨hfresh.handed, .cutOff, by simp [World.after, World.fault], by simp⟩

theorem route_handler_early {f : Failure} {obtained : Bool}
    (hpossible : Possible w (.route .handler) (.failed f obtained)) (hobtained : w.obtained = false)
    (hf : f.early = true) :
    (w.after (.route .handler) (.failed f obtained)).obtained = false := by
  change (w.obtained || obtained) = false
  rw [hobtained, hpossible hf]
  rfl

theorem handleEmbeddings_quiet (setup : Setup) (hfresh : w.Fresh false)
    (hobtained : w.obtained = false) : Quietly HandlerEnds (handleEmbeddings setup) w := by
  unfold handleEmbeddings
  split_ifs
  · refine quiet_bind (quiet_attempt (quiet_perform rfl fun r w' hexec ↦ ?_))
    obtain ⟨hpossible, rfl⟩ := hexec
    cases r with
    | response =>
        have hfresh' := route_handler_fresh (r := .response) (by simp) hfresh
        refine price_quiet hfresh' ?_ fun _ _ h ↦ .inr h
        refine quiet_bind ((finalize_quiet (hfresh'.finalize .actual)).imp fun r w' hdone ↦ ?_)
        cases r with
        | error e => exact .inl hdone
        | ok totals =>
            cases totals with
            | true => exact responded ((still_steps rfl).keeps hdone)
            | false => exact hdone
    | failed f obtained =>
        have hfresh' := route_handler_fresh (r := .failed f obtained) (by simp) hfresh
        have hreserved : Quietly HandlerEnds (do
            let _ ← finalizeRequestBudget .reserved
            pure .response) (w.after (.route .handler) (.failed f obtained)) := by
          refine quiet_bind ((finalize_quiet (hfresh'.finalize .reserved)).imp fun r w' hdone ↦ ?_)
          cases r with
          | ok totals => exact hdone
          | error e => exact .inl hdone
        cases f with
        | allProvidersExhausted =>
            refine responded (release_quiet (hfresh'.release ?_))
            exact route_handler_early hpossible hobtained rfl
        | ensembleAccess => exact hreserved
        | ensembleCostCeiling => exact hreserved
        | ensembleNoSurvivors => exact hreserved
        | ensembleQuorum => exact hreserved
        | ensembleSynthesis => exact hreserved
        | noCandidateModels => exact hreserved
        | other => exact hreserved
    | cancelled obtained => exact .inr (route_handler_lost obtained hfresh)
  · exact responded (release_quiet (hfresh.release hobtained))

theorem handleChatCompletion_quiet (setup : Setup) :
    Quietly HandlerEnds (handleChatCompletion setup) granted := by
  unfold handleChatCompletion
  split_ifs
  · exact ⟨rfl, fun w hfresh _ ↦ streamEnsembleResponse_flows setup.headers hfresh⟩
  · exact ⟨rfl, fun w ↦ streamTrue_flows _ setup.headers setup.buffers⟩
  · refine quiet_bind (quiet_attempt (quiet_perform rfl fun r w' hexec ↦ ?_))
    obtain ⟨hpossible, rfl⟩ := hexec
    cases r with
    | response => exact account_quiet setup (route_handler_fresh (r := .response) (by simp) granted_fresh)
    | failed f obtained =>
        refine responded (settleFailure_done f ?_ (route_handler_early hpossible rfl))
        exact route_handler_fresh (r := .failed f obtained) (by simp) granted_fresh
    | cancelled obtained => exact .inr (route_handler_lost obtained granted_fresh)

theorem handle_quiet (setup : Setup) : Quietly HandlerEnds (handle setup) granted := by
  unfold handle
  split
  · exact handleEmbeddings_quiet setup granted_fresh rfl
  · exact handleChatCompletion_quiet setup

/-- A stream that guards nothing changes nothing. -/
theorem iterate_comes {g : Gen Unit} (hg : Idle g) (hdone : w.Done false) :
    Comes Verdict (iterate g) w := by
  have hends : ∀ w' : World, w'.handed = w.handed → w'.obtained = w.obtained →
      w'.faults = w.faults → ∀ a, Verdict a w' := by
    intro w' hhanded hobtained hfaults a
    obtain ⟨h, hh, hrelease⟩ := hdone.settled
    refine verdict_of_done ⟨h, hhanded.trans hh, fun h' ↦ ?_⟩ (hfaults.trans hdone.faults)
    exact hobtained.trans (hrelease h')
  refine alone_bind ((relayed_comes (hg w)).imp fun r w' hr ↦ ?_)
  obtain ⟨ended, rfl, hended⟩ := hr
  cases ended with
  | ended a =>
      obtain rfl : w' = w := hended
      cases a with
      | ok _ => exact hends w' rfl rfl rfl _
      | error e => exact hends w' rfl rfl rfl _
  | closed a =>
      obtain ⟨b, rfl, -, rfl⟩ := hended
      exact hends w.close rfl rfl rfl _

theorem request_comes (setup : Setup) : Comes Verdict (request setup) granted := by
  refine alone_bind (Quietly.comes ((handle_quiet setup).imp fun r w hends ↦ ?_))
  cases r with
  | error e => exact hends.elim (fun h ↦ verdict_of_done h.settled h.faults) fun h ↦ h.verdict _
  | ok returned =>
      cases returned with
      | response => exact verdict_of_done hends.settled hends.faults
      | guarded g =>
          obtain ⟨rfl, hg⟩ := hends
          refine alone_bind (Quietly.comes (quiet_perform rfl fun started w' hexec ↦ ?_))
          obtain ⟨-, rfl⟩ := hexec
          cases started with
          | true => exact guardBudgetedStream_comes hg granted_fresh rfl rfl
          | false =>
              have hlost : (granted.after (.start true) false).Lost :=
                ⟨rfl, .neverStarted, by decide, by decide⟩
              exact hlost.verdict _
      | plain g =>
          obtain ⟨hdone, hg⟩ := hends
          refine alone_bind (Quietly.comes (quiet_perform rfl fun started w' hexec ↦ ?_))
          have hsame : w' = w := hexec.2.trans (after_eq (by cases started <;> rfl) (by cases started <;> rfl))
          subst hsame
          cases started with
          | true => exact iterate_comes hg hdone
          | false => exact verdict_of_done hdone.settled hdone.faults

/-- On every way out, a granted reservation is handed over exactly once, and released only
without a provider response, unless the request is spoiled, and only then. -/
theorem settled_iff_not_spoiled (setup : Setup) {a : Except Exn Ended}
    (hrun : Evals machine 0 (request setup).run granted a w) : Settled w ↔ ¬ Spoiled a w :=
  (request_comes setup).evals hrun

/-- A request for an ensemble, streamed or not. -/
def ensembleRequest (stream : Bool) : Setup where
  path := .ensemble
  stream := stream
  streamsTrue := false
  allowed := true
  buffers := false
  headers := false
  runtime := true

theorem evals_call (o : Op) (r : Ret o) {k : Ret o → Prog Op Ret (Except Exn Ended)}
    {a : Except Exn Ended} (h : Possible w o r) (hk : Evals machine 0 (k r) (w.after o r) a w') :
    Evals machine 0 (.call o k) w a w' :=
  .call o k w _ w' r a ⟨h, rfl⟩ hk

/-- An ensemble stream that is charged and then closed at its first event. -/
theorem settled_abandoned :
    Settled ⟨[.finalize .decision], none, true, true, []⟩ ↔
      ¬ Spoiled (.error .generatorExit) ⟨[.finalize .decision], none, true, true, []⟩ := by
  refine settled_iff_not_spoiled (ensembleRequest true) ?_
  refine evals_call (.start true) true trivial ?_
  refine evals_call .register () trivial ?_
  refine evals_call (.route .ensembleStream) .response trivial ?_
  refine evals_call (.finalize .decision) .totals trivial ?_
  refine evals_call (.await .adoptSpend) .done trivial ?_
  refine evals_call (.await .outputPolicy) .done trivial ?_
  refine evals_call (.await .recordRedaction) .done trivial ?_
  refine evals_call (.await .audit) .done trivial ?_
  refine evals_call .length (0 : ℕ) trivial ?_
  refine evals_call (.emit .done) false trivial ?_
  refine evals_call .claimed true rfl ?_
  refine evals_call .unregister () trivial ?_
  exact .done _ _

/-- A handler that is cancelled while it waits for the router leaves the reservation behind. -/
theorem cancelled_not_settled :
    ∃ w, Evals machine 0 (request (ensembleRequest false)).run granted (.error .cancelled) w ∧
      ¬ Settled w := by
  refine ⟨⟨[], none, false, false, [.cutOff]⟩, ?_, ?_⟩
  · exact evals_call (.route .handler) (.cancelled false) trivial (.done _ _)
  · rintro ⟨h, hh, -⟩
    cases hh

end Settlement
