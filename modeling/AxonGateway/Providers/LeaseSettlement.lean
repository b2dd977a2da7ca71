import AxonGateway.Providers.Cooldown
import AxonGateway.Providers.Execution

/-!
# Every lease is settled once

A call books one settlement for every lease that it obtains, and a release where its
consumer has stopped. What can go wrong is a number of tokens that is none: the success is
booked before it is looked at, and the lease is settled again.
-/

namespace AxonGateway.Providers

open Interleaving
open Raising (perform ask attempt Then alone_bind)

variable {α β : Type} {lower : String → String} {w w' : World} {pool pool' : RoutePool}
  {lease : RouteLease} {key : GenerationKey} {state state' : RouteRuntime} {b : Booking}

/-! ## Bookings -/

/-- One request less of the generation is in flight, and the other generations are as before. -/
structure Decremented (key : GenerationKey) (before after : RoutePool) : Prop where
  own : ∀ state, before.runtime.lookup key = some state →
    (∃ state', after.runtime.lookup key = some state' ∧ state'.inflight = state.inflight - 1) ∨
      (state.inflight ≤ 1 ∧ after.runtime.lookup key = none)
  others : ∀ key', key' ≠ key → after.runtime.lookup key' = before.runtime.lookup key'

/-- The failure counters and the cooldown of the generation are as before. -/
def Untouched (key : GenerationKey) (before after : RoutePool) : Prop :=
  ∀ state state', before.runtime.lookup key = some state → after.runtime.lookup key = some state' →
    state'.failures = state.failures ∧ state'.consecutiveFailures = state.consecutiveFailures ∧
      state'.errorEwma = state.errorEwma ∧ state'.cooldownUntil = state.cooldownUntil

/-- One request is settled, and only released where the consumer has stopped. -/
structure Proper (b : Booking) : Prop where
  decremented : Decremented b.lease.key b.before b.after
  released : b.late = true → b.settlement = .release ∧ Untouched b.lease.key b.before b.after

/-- The success of a lease was given a number of tokens that cannot be counted. -/
def Booking.Raised (b : Booking) : Prop :=
  ∃ tokens, b.settlement = .success tokens ∧ ¬ tokens.Countable ∧ b.lease.key ∈ b.before.runtime

/-- Every lease that was obtained is settled once, in turn. -/
structure SettledOnce (w : World) : Prop where
  each : w.bookings.map Booking.lease = w.obtained
  proper : ∀ b ∈ w.bookings, Proper b

theorem decremented_setRuntime (hstate : pool.runtime.lookup key = some state)
    (hinflight : state'.inflight = state.inflight - 1) :
    Decremented key pool (pool.setRuntime key state') := by
  refine ⟨fun old hold ↦ .inl ⟨state', ?_, ?_⟩, fun key' hne ↦ ?_⟩
  · rw [lookup_setRuntime, if_pos rfl]
  · obtain rfl := Option.some.inj (hold.symm.trans hstate)
    exact hinflight
  · rw [lookup_setRuntime, if_neg hne]

theorem decremented_settle (hstate : pool.runtime.lookup key = some state)
    (hinflight : state'.inflight = state.inflight - 1) :
    Decremented key pool (pool.settle key state') := by
  refine ⟨fun old hold ↦ ?_, fun key' hne ↦ lookup_settle_of_ne hne pool state'⟩
  obtain rfl := Option.some.inj (hold.symm.trans hstate)
  rw [lookup_settle_self]
  split_ifs with hgone
  · exact .inr ⟨by omega, rfl⟩
  · exact .inl ⟨state', rfl, hinflight⟩

/-- A lease whose generation is not there. -/
theorem decremented_of_none (hstate : pool.runtime.lookup key = none) : Decremented key pool pool := by
  refine ⟨fun old hold ↦ ?_, fun _ _ ↦ rfl⟩
  cases hold.symm.trans hstate

theorem decremented_release (pool : RoutePool) (lease : RouteLease) :
    Decremented lease.key pool (pool.release lease) := by
  cases hstate : pool.runtime.lookup lease.key with
  | none =>
      unfold RoutePool.release
      rw [hstate]
      exact decremented_of_none hstate
  | some state =>
      rw [release_eq_settle hstate]
      exact decremented_settle hstate rfl

theorem untouched_release (pool : RoutePool) (lease : RouteLease) :
    Untouched lease.key pool (pool.release lease) := by
  intro state state' hstate hstate'
  rw [release_eq_settle hstate, lookup_settle_self] at hstate'
  split_ifs at hstate'
  obtain rfl := Option.some.inj hstate'
  exact ⟨rfl, rfl, rfl, rfl⟩

theorem decremented_recordFailure {statusCode : ℤ} {now : ℚ} (hpool : Consistent pool)
    (hok : pool.recordFailure lease statusCode now = .ok pool') :
    Decremented lease.key pool pool' := by
  obtain ⟨leases, hw, hc⟩ := hpool
  cases hstate : pool.runtime.lookup lease.key with
  | none =>
      rw [recordFailure_none hstate] at hok
      obtain rfl := Except.ok.inj hok
      exact decremented_of_none hstate
  | some state =>
      obtain ⟨hasSibling, -, hrecord⟩ := recordFailure_spec hw hc hstate statusCode now
      obtain rfl := Except.ok.inj (hrecord.symm.trans hok)
      exact decremented_settle hstate (inflight_affect ..)

theorem floatLimit_pos : 0 < floatLimit :=
  sub_pos.mpr (pow_lt_pow_right₀ (by norm_num) (by norm_num))

theorem perToken?_eq_none_iff (latencyMs : ℚ) (tokens : TokenCount) :
    tokens.perToken? latencyMs = none ↔ ¬ tokens.Countable := by
  cases tokens with
  | int n =>
      have hpos := floatLimit_pos
      unfold TokenCount.perToken? TokenCount.Countable
      dsimp only
      split_ifs with hn hlimit
      · simpa using hlimit
      · simpa using hlimit
      · simp only [false_iff, not_not]
        omega
  | float x => simp [TokenCount.perToken?, TokenCount.Countable]
  | nonFinite positive => simp [TokenCount.perToken?, TokenCount.Countable]
  | other => simp [TokenCount.perToken?, TokenCount.Countable]

/-- The success is booked in any case; it raises for a number that cannot be counted. -/
theorem recordAnySuccess_spec {latencyMs : ℚ} {tokens : TokenCount} {raises : Bool}
    (h : pool.recordAnySuccess lease latencyMs tokens = (raises, pool')) :
    Decremented lease.key pool pool' ∧
      (raises = true ↔ ¬ tokens.Countable ∧ lease.key ∈ pool.runtime) := by
  unfold RoutePool.recordAnySuccess at h
  cases hstate : pool.runtime.lookup lease.key with
  | none =>
      rw [hstate] at h
      obtain ⟨rfl, rfl⟩ := Prod.mk.inj h
      refine ⟨decremented_of_none hstate, ?_⟩
      rw [Dict.mem_iff_lookup, hstate]
      simp
  | some state =>
      have hkey : lease.key ∈ pool.runtime := Dict.mem_iff_lookup.mpr ⟨state, hstate⟩
      rw [hstate] at h
      dsimp only at h
      cases htokens : tokens.perToken? (max 0 latencyMs) with
      | none =>
          rw [htokens] at h
          obtain ⟨rfl, rfl⟩ := Prod.mk.inj h
          refine ⟨decremented_setRuntime hstate rfl, ?_⟩
          exact iff_of_true rfl ⟨(perToken?_eq_none_iff _ _).mp htokens, hkey⟩
      | some perToken =>
          rw [htokens] at h
          obtain ⟨rfl, rfl⟩ := Prod.mk.inj h
          refine ⟨decremented_settle hstate rfl, ?_⟩
          refine iff_of_false (by simp) fun hraised ↦ ?_
          rw [(perToken?_eq_none_iff _ _).mpr hraised.1] at htokens
          cases htokens

/-! ## Steps -/

/-- Every end of the call satisfies `Q`. -/
abbrev Runs (lower : String → String) (Q : Except Exn α → World → Prop) (x : Call α) (w : World) :
    Prop :=
  Alone (machine lower) 0 Q x.run w

/-- The result of a call that was cancelled, or whose consumer has stopped. -/
def interrupted : Except Exn α → Bool
  | .error e => !e.isException
  | .ok _ => false

/-- The call obtains and settles nothing. -/
def Passes (lower : String → String) (x : Call α) : Prop :=
  ∀ w, Runs lower (fun r w' ↦ w' = w.stop (interrupted r)) x w

@[simp] theorem World.stop_false (w : World) : w.stop false = w := by
  obtain ⟨obtained, bookings, stopped⟩ := w
  simp [World.stop]

theorem interrupted_eq {r : Except Exn α} {waits : Bool} (hr : raisesOnly waits r) :
    interrupted r = isCancelled r := by
  cases r with
  | ok a => rfl
  | error e =>
      rcases hr with hexception | ⟨-, rfl⟩
      · cases e <;> first | rfl | cases hexception
      · rfl

theorem interrupted_of_raisesOnly {r : Except Exn α} (hr : raisesOnly false r) :
    interrupted r = false := by
  cases r with
  | ok a => rfl
  | error e =>
      rcases hr with hexception | ⟨hwaits, -⟩
      · exact congrArg not hexception
      · cases hwaits

theorem runs_pure (Q : Except Exn α → World → Prop) (a : α) (h : Q (.ok a) w) :
    Runs lower Q (pure a : Call α) w := h

theorem runs_throw (Q : Except Exn α → World → Prop) (e : Exn) (h : Q (.error e) w) :
    Runs lower Q (throw e : Call α) w := h

/-- The sequencing rule. -/
theorem runs_bind {Q : Except Exn α → World → Prop} {Q' : Except Exn β → World → Prop} {x : Call α}
    {f : α → Call β} (hx : Runs lower Q x w) (hok : ∀ a w', Q (.ok a) w' → Runs lower Q' (f a) w')
    (herror : ∀ e w', Q (.error e) w' → Q' (.error e) w') : Runs lower Q' (x >>= f) w := by
  refine alone_bind (hx.imp fun r w' hr ↦ ?_)
  cases r with
  | ok a => exact hok a w' hr
  | error e => exact herror e w' hr

theorem runs_attempt {Q : Except Exn α → World → Prop} {x : Call α} (hx : Runs lower Q x w) :
    Runs lower (fun r w' ↦ ∃ outcome, r = .ok outcome ∧ Q outcome w') (attempt x) w :=
  Alone.bind (p := x.run) (hx.imp fun outcome _ h ↦ ⟨outcome, rfl, h⟩)

/-- The rule for a handler. -/
theorem runs_handler {Q : Except Exn α → World → Prop} {Q' : Except Exn β → World → Prop}
    {x : Call α} {f : Except Exn α → Call β} (hx : Runs lower Q x w)
    (hf : ∀ r w₁, Q r w₁ → Runs lower Q' (f r) w₁) : Runs lower Q' (attempt x >>= f) w := by
  refine runs_bind (runs_attempt hx) (fun outcome w' h ↦ ?_) fun e w' h ↦ ?_
  · obtain ⟨_, ⟨⟩, h⟩ := h
    exact hf outcome w' h
  · obtain ⟨_, ⟨⟩, -⟩ := h

theorem passes_pure (a : α) : Passes lower (pure a : Call α) := fun w ↦ (World.stop_false w).symm

theorem Passes.bind {x : Call α} {f : α → Call β} (hx : Passes lower x)
    (hf : ∀ a, Passes lower (f a)) : Passes lower (x >>= f) := by
  intro w
  refine runs_bind (hx w) (fun a w' hw' ↦ ?_) fun e w' hw' ↦ hw'
  rw [interrupted, World.stop_false] at hw'
  rw [hw']
  exact hf a w

/-- A step without an await. -/
theorem stop_interrupted_of_raisesOnly {r : Except Exn α} (hr : raisesOnly false r) :
    w = w.stop (interrupted r) := by
  rw [interrupted_of_raisesOnly hr, World.stop_false]

theorem passes_prepare (step : Preparation) : Passes lower (prepare step) := by
  intro w r w' hexec
  cases hexec with
  | prepare _ _ _ hr => exact stop_interrupted_of_raisesOnly hr

theorem passes_openStream : Passes lower openStream := by
  refine (passes_prepare .adapter).bind fun _ ↦ (passes_prepare .config).bind fun _ ↦ ?_
  intro w r w' hexec
  cases hexec with
  | openStream _ _ hr => exact stop_interrupted_of_raisesOnly hr

theorem passes_next : Passes lower nextChunk := by
  intro w r w' hexec
  cases hexec with
  | next _ _ hr => exact congrArg w.stop (interrupted_eq hr).symm

theorem passes_emit : Passes lower emit := by
  intro w (goesOn : Bool) w' hexec
  cases hexec with
  | emit => cases goesOn <;> rfl

theorem passes_length : Passes lower (ask Op.length : Call ℕ) := by
  intro w r w' hexec
  cases hexec with
  | length _ n => exact (World.stop_false w).symm

theorem passes_hasAvailable (excluded : Option RouteLease) :
    Passes lower (ask (Op.hasAvailable excluded) : Call Bool) := by
  intro w r w' hexec
  cases hexec with
  | hasAvailable _ _ available => exact (World.stop_false w).symm

theorem passes_transport (provider : String) : Passes lower (transport provider) := by
  have hexecute : Passes lower (perform (o := .execute) id : Call TokenCount) := by
    intro w r w' hexec
    cases hexec with
    | execute _ _ hr => exact congrArg w.stop (interrupted_eq hr).symm
  unfold transport
  split_ifs
  · exact (passes_prepare _).bind fun _ ↦ hexecute
  · exact (passes_prepare _).bind fun _ ↦ hexecute
  · exact (passes_prepare _).bind fun _ ↦ (passes_prepare _).bind fun _ ↦ hexecute

theorem passes_embeddingTransport : Passes lower embeddingTransport := by
  refine (passes_prepare .adapter).bind fun _ ↦ (passes_prepare .config).bind fun _ ↦ ?_
  intro w r w' hexec
  cases hexec with
  | executeEmbeddings _ _ hr => exact congrArg w.stop (interrupted_eq hr).symm

theorem passes_throw (e : Exn) (he : e.isException = true) : Passes lower (throw e : Call α) := by
  intro w
  refine runs_throw _ e ?_
  rw [show interrupted (.error e : Except Exn α) = false from congrArg not he, World.stop_false]

theorem passes_relayChunks (n : ℕ) (final : Option TokenCount) :
    Passes lower (relayChunks n final) := by
  induction n generalizing final with
  | zero => exact passes_pure final
  | succ n ih =>
      intro w
      refine runs_handler (passes_next w) fun r w' hw' ↦ ?_
      subst hw'
      cases r with
      | ok usage =>
          rw [interrupted, World.stop_false]
          exact (passes_emit.bind fun _ ↦ ih (usage <|> final)) w
      | error e => cases e <;> first | exact runs_throw _ _ rfl | exact runs_pure _ _ rfl

/-- The error to raise is looked up without any effect. -/
theorem runs_routedError (lease : RouteLease) (e : Routing.ProviderError) :
    Runs lower (fun r w' ↦ w' = w ∧ ∃ routed, r = .ok routed) (routedError lease e) w := by
  intro alternate w₁ h₁
  cases h₁
  intro available w₂ h₂
  cases h₂
  exact ⟨rfl, _, rfl⟩

/-! ## Settlements -/

/-- A booking has been made for the lease. -/
def Books (w : World) (lease : RouteLease) (settlement : Settlement) (w' : World) : Prop :=
  ∃ before after, w' = w.book lease settlement before after ∧
    Decremented lease.key before after ∧
    (settlement = .release → Untouched lease.key before after)

theorem runs_release : Runs lower (fun r w' ↦ r = .ok () ∧ Books w lease .release w')
    (release lease) w := by
  intro r w' hexec
  cases hexec with
  | release _ _ before hbefore =>
      exact ⟨rfl, before, _, rfl, decremented_release before lease,
        fun _ ↦ untouched_release before lease⟩

theorem runs_recordFailure (statusCode : ℤ) :
    Runs lower (fun r w' ↦ r = .ok () ∧ Books w lease (.failure statusCode) w')
      (recordFailure lease statusCode) w := by
  intro r w' hexec
  cases hexec with
  | recordFailure _ _ _ before after now hbefore h =>
      exact ⟨rfl, before, after, rfl, decremented_recordFailure hbefore h, fun h ↦ nomatch h⟩

theorem runs_recordSuccess (tokens : TokenCount) :
    Runs lower (fun r w' ↦ ∃ b : Booking, b.lease = lease ∧ b.settlement = .success tokens ∧
        b.late = w.stopped ∧ w' = { w with bookings := w.bookings ++ [b] } ∧
        Decremented lease.key b.before b.after ∧
        (r = .ok () ∧ ¬ b.Raised ∨ r = .error .failure ∧ b.Raised))
      (recordSuccess lease tokens) w := by
  intro (raises : Bool) w' hexec
  cases hexec with
  | recordSuccess _ _ _ before after latencyMs _ hbefore h =>
      obtain ⟨hdecremented, hraises⟩ := recordAnySuccess_spec h
      refine ⟨⟨lease, .success tokens, w.stopped, before, after⟩, rfl, rfl, rfl, rfl, hdecremented, ?_⟩
      cases raises with
      | true => exact .inr ⟨rfl, tokens, rfl, hraises.mp rfl⟩
      | false =>
          refine .inl ⟨rfl, ?_⟩
          rintro ⟨_, htokens, hraised⟩
          obtain rfl := Settlement.success.inj htokens
          exact absurd (hraises.mpr hraised) (by simp)

/-! ## The state of a call -/

/-- Nothing is leased, and nothing went wrong. -/
structure Calm (w : World) : Prop where
  settled : SettledOnce w
  unraised : ∀ b ∈ w.bookings, ¬ b.Raised

/-- The lease is open. -/
structure Held (w : World) (lease : RouteLease) : Prop where
  each : w.obtained = w.bookings.map Booking.lease ++ [lease]
  proper : ∀ b ∈ w.bookings, Proper b
  unraised : ∀ b ∈ w.bookings, ¬ b.Raised

/-- The success of a lease has been booked and has raised. -/
structure Torn (w : World) : Prop where
  each : w.bookings.length = w.obtained.length
  raised : ∃ b ∈ w.bookings, b.Raised

/-- A lease has been settled again after that. -/
structure Spoiled (w : World) : Prop where
  more : w.obtained.length < w.bookings.length
  raised : ∃ b ∈ w.bookings, b.Raised

def Ends (w : World) : Prop := Calm w ∨ Spoiled w

theorem Ends.settled_iff (h : Ends w) : SettledOnce w ↔ ∀ b ∈ w.bookings, ¬ b.Raised := by
  rcases h with hcalm | ⟨hmore, b, hb, hraised⟩
  · exact iff_of_true hcalm.settled hcalm.unraised
  · refine iff_of_false (fun hsettled ↦ ?_) fun hunraised ↦ hunraised b hb hraised
    have hlength := congrArg List.length hsettled.each
    rw [List.length_map] at hlength
    omega

theorem Calm.obtain (h : Calm w) (lease : RouteLease) : Held (w.obtain lease) lease := by
  refine ⟨?_, h.settled.proper, h.unraised⟩
  change w.obtained ++ [lease] = w.bookings.map Booking.lease ++ [lease]
  rw [h.settled.each]

theorem Ends.stop (h : Ends w) (stops : Bool) : Ends (w.stop stops) := by
  rcases h with hcalm | hspoiled
  · exact .inl ⟨⟨hcalm.settled.each, hcalm.settled.proper⟩, hcalm.unraised⟩
  · exact .inr ⟨hspoiled.more, hspoiled.raised⟩

theorem Held.stop (h : Held w lease) (stops : Bool) : Held (w.stop stops) lease :=
  ⟨h.each, h.proper, h.unraised⟩

theorem Held.settle (h : Held w lease) (hlease : b.lease = lease) (hproper : Proper b)
    (hraised : ¬ b.Raised) : Calm { w with bookings := w.bookings ++ [b] } := by
  refine ⟨⟨?_, fun b' hb' ↦ ?_⟩, fun b' hb' ↦ ?_⟩
  · change (w.bookings ++ [b]).map Booking.lease = w.obtained
    rw [h.each, List.map_append, List.map_singleton, hlease]
  · rcases List.mem_append.mp hb' with hb' | hb'
    · exact h.proper b' hb'
    · rwa [List.mem_singleton.mp hb']
  · rcases List.mem_append.mp hb' with hb' | hb'
    · exact h.unraised b' hb'
    · rwa [List.mem_singleton.mp hb']

theorem Held.books (h : Held w lease) {settlement : Settlement}
    (hbooks : Books w lease settlement w') (hlate : w.stopped = true → settlement = .release)
    (hsettlement : ∀ tokens, settlement ≠ .success tokens) : Calm w' := by
  obtain ⟨before, after, rfl, hdecremented, huntouched⟩ := hbooks
  refine h.settle rfl ⟨hdecremented, fun hstopped ↦ ?_⟩ ?_
  · exact ⟨hlate hstopped, huntouched (hlate hstopped)⟩
  · rintro ⟨tokens, htokens, -⟩
    exact hsettlement tokens htokens

theorem Torn.books (h : Torn w) {settlement : Settlement} (hbooks : Books w lease settlement w') :
    Spoiled w' := by
  obtain ⟨before, after, rfl, -⟩ := hbooks
  obtain ⟨b, hb, hraised⟩ := h.raised
  refine ⟨?_, b, List.mem_append_left _ hb, hraised⟩
  change w.obtained.length < (w.bookings ++ [_]).length
  rw [List.length_append, h.each]
  exact Nat.lt_succ_self _

theorem stopped_of_books {settlement : Settlement} (hbooks : Books w lease settlement w') :
    w'.stopped = w.stopped := by
  obtain ⟨before, after, rfl, -⟩ := hbooks
  rfl

/-- The success of an open lease settles it, or raises after that. -/
theorem Held.runs_recordSuccess (h : Held w lease) (hstopped : w.stopped = false)
    (tokens : TokenCount) :
    Runs lower (fun r w' ↦ w'.stopped = false ∧
        (r = .ok () ∧ Calm w' ∨ r = .error .failure ∧ Torn w' ∧ ¬ tokens.Countable))
      (recordSuccess lease tokens) w := by
  refine (Providers.runs_recordSuccess tokens).imp ?_
  rintro r w' ⟨b, hlease, hsettlement, hlate, rfl, hdecremented, hr⟩
  refine ⟨hstopped, ?_⟩
  rcases hr with ⟨rfl, hunraised⟩ | ⟨rfl, hraised⟩
  · refine .inl ⟨rfl, h.settle hlease ⟨by rwa [hlease], fun hb ↦ ?_⟩ hunraised⟩
    rw [hlate, hstopped] at hb
    cases hb
  · refine .inr ⟨rfl, ⟨?_, b, by simp, hraised⟩, ?_⟩
    · change (w.bookings ++ [b]).length = w.obtained.length
      rw [h.each, List.length_append, List.length_append, List.length_map]
      rfl
    · obtain ⟨tokens', htokens, hcount, -⟩ := hraised
      obtain rfl := Settlement.success.inj (hsettlement.symm.trans htokens)
      exact hcount

/-- The failure of an open lease settles it, and one of a lease that is settled already is
one too many. -/
theorem runs_fail (message : String) (e : Exn) :
    Runs lower (fun r w' ↦ ∃ routed, r = .ok routed ∧ w'.stopped = w.stopped ∧
        (Torn w → Spoiled w') ∧ (Held w lease → w.stopped = false → Calm w'))
      (fail lease message e) w := by
  refine runs_bind (runs_recordFailure _) (fun _ w₁ hw₁ ↦ ?_) fun e w₁ hw₁ ↦ nomatch hw₁.1
  obtain ⟨-, hbooks⟩ := hw₁
  refine (runs_routedError lease _).imp ?_
  rintro r w' ⟨rfl, routed, rfl⟩
  refine ⟨routed, rfl, stopped_of_books hbooks, fun ht ↦ ht.books hbooks, fun hh hs ↦ ?_⟩
  refine hh.books hbooks (fun hstopped ↦ ?_) fun _ ↦ nofun
  rw [hs] at hstopped
  cases hstopped

/-- The release of an open lease settles it, and one of a lease that is settled already is
one too many. -/
theorem runs_release_spec :
    Runs lower (fun r w' ↦ r = .ok () ∧ (Torn w → Spoiled w') ∧ (Held w lease → Calm w'))
      (release lease) w := by
  refine runs_release.imp ?_
  rintro r w' ⟨rfl, hbooks⟩
  exact ⟨rfl, fun h ↦ h.books hbooks, fun h ↦ h.books hbooks (fun _ ↦ rfl) fun _ ↦ nofun⟩

/-! ## Buffered calls -/

theorem runs_acquire (mapping : Routing.ProviderModelMapping) :
    Runs lower (fun r w' ↦ (∃ lease, r = .ok lease ∧ w' = w.obtain lease) ∨
      (∃ e, r = .error e) ∧ w' = w) (acquire mapping) w := by
  intro r w' hexec
  cases hexec with
  | unavailable _ temporarily => exact .inr ⟨⟨_, rfl⟩, rfl⟩
  | acquire _ before after name modelId now random lease hbefore h => exact .inl ⟨lease, rfl, rfl⟩

/-- The handlers around a transport settle the lease. -/
theorem runs_settleCall (h : Held w lease) (message : String) (tokens : α → TokenCount)
    (outcome : Except Exn α) (hstopped : interrupted outcome = false → w.stopped = false) :
    Runs lower (fun _ w' ↦ Ends w') (settleCall lease message tokens outcome) w := by
  cases outcome with
  | ok a =>
      refine runs_handler (h.runs_recordSuccess (hstopped rfl) (tokens a)) fun r w₁ hr ↦ ?_
      rcases hr with ⟨-, ⟨rfl, hcalm⟩ | ⟨rfl, htorn, -⟩⟩
      · exact runs_pure _ a (.inl hcalm)
      · refine runs_bind runs_release_spec (fun _ w₂ hw₂ ↦ ?_) fun e w₂ hw₂ ↦ nomatch hw₂.1
        exact runs_throw _ _ (.inr (hw₂.2.1 htorn))
  | error e =>
      cases he : e.isException with
      | true =>
          have hopen : w.stopped = false := hstopped (congrArg not he)
          unfold settleCall
          dsimp only
          rw [if_pos he]
          refine runs_bind (runs_fail message e) (fun routed w₁ hw₁ ↦ ?_) fun e' w₁ hw₁ ↦ ?_
          · obtain ⟨-, -, -, -, hheld⟩ := hw₁
            exact runs_throw _ _ (.inl (hheld h hopen))
          · obtain ⟨_, hr, -⟩ := hw₁
            cases hr
      | false =>
          unfold settleCall
          dsimp only
          rw [if_neg (by simp [he])]
          refine runs_bind runs_release_spec (fun _ w₁ hw₁ ↦ ?_) fun e' w₁ hw₁ ↦ nomatch hw₁.1
          exact runs_throw _ _ (.inl (hw₁.2.2 h))

/-- A call over one lease. -/
theorem runs_leased (h : Calm w) (hstopped : w.stopped = false)
    (mapping : Routing.ProviderModelMapping) (message : String) (tokens : α → TokenCount)
    {x : Call α} (hx : Passes lower x) :
    Runs lower (fun _ w' ↦ Ends w') (do
      let lease ← acquire mapping
      let outcome ← attempt x
      settleCall lease message tokens outcome) w := by
  refine runs_bind (runs_acquire mapping) (fun lease w₁ hw₁ ↦ ?_) fun e w₁ hw₁ ↦ ?_
  · rcases hw₁ with ⟨_, ⟨⟩, rfl⟩ | ⟨⟨_, ⟨⟩⟩, -⟩
    refine runs_handler (hx _) fun outcome w₂ hw₂ ↦ ?_
    subst hw₂
    refine runs_settleCall ((h.obtain lease).stop _) message tokens outcome fun hr ↦ ?_
    rw [hr, World.stop_false]
    exact hstopped
  · rcases hw₁ with ⟨_, ⟨⟩, -⟩ | ⟨-, rfl⟩
    exact .inl h

/-! ## Streams -/

/-- What the handlers leave: the lease is settled, or open; another route is tried only where
nothing went wrong and the consumer is still there. -/
structure HandledWell (w : World) (lease : RouteLease) (handled : Handled) : Prop where
  settled : handled.1 = true → Ends w
  open' : handled.1 = false → Held w lease
  again : ∀ e, handled.2 = .ok (some e) → handled.1 = true ∧ Calm w ∧ w.stopped = false

theorem runs_handleStream (h : Held w lease) (yielded : Bool) (e : Exn)
    (hstopped : e.isException = true → w.stopped = false) :
    Runs lower (fun r w' ↦ ∃ handled, r = .ok handled ∧ HandledWell w' lease handled)
      (handleStream lease yielded e) w := by
  have hfail : e.isException = true → e ≠ .stopAsyncIteration →
      Runs lower (fun r w' ↦ ∃ handled, r = .ok handled ∧ HandledWell w' lease handled)
        (fail lease "Provider streaming transport failed" e >>= fun routed ↦
          if yielded || !(routed.retryable.getD false) then
            pure (true, .error (.providerError routed))
          else pure (true, .ok (some routed))) w := by
    intro he hne
    refine runs_bind (runs_fail _ e) (fun routed w₁ hw₁ ↦ ?_) fun e' w₁ hw₁ ↦ ?_
    · obtain ⟨_, -, hsame, -, hheld⟩ := hw₁
      have hcalm : Calm w₁ := hheld h (hstopped he)
      split_ifs
      · exact ⟨_, rfl, fun _ ↦ .inl hcalm, nofun, nofun⟩
      · exact ⟨_, rfl, fun _ ↦ .inl hcalm, nofun, fun _ _ ↦ ⟨rfl, hcalm, hsame.trans (hstopped he)⟩⟩
    · obtain ⟨_, hr, -⟩ := hw₁
      cases hr
  cases e with
  | stopAsyncIteration =>
      refine runs_handler (h.runs_recordSuccess (hstopped rfl) (.int 0)) fun r w₁ hr ↦ ?_
      rcases hr with ⟨-, ⟨rfl, hcalm⟩ | ⟨rfl, -, hcount⟩⟩
      · exact ⟨_, rfl, fun _ ↦ .inl hcalm, nofun, nofun⟩
      · exact absurd floatLimit_pos hcount
  | providerError e => exact hfail rfl nofun
  | failure => exact hfail rfl nofun
  | cancelled => exact ⟨_, rfl, nofun, fun _ ↦ h, nofun⟩
  | generatorExit => exact ⟨_, rfl, nofun, fun _ ↦ h, nofun⟩

/-- A success that raises is handled as a failure of the transport. -/
theorem runs_handleStream_torn (h : Torn w) :
    Runs lower (fun r w' ↦ ∃ handled, r = .ok handled ∧ HandledWell w' lease handled)
      (handleStream lease true .failure) w := by
  refine runs_bind (runs_fail _ .failure) (fun routed w₁ hw₁ ↦ ?_) fun e' w₁ hw₁ ↦ ?_
  · obtain ⟨_, -, -, htorn, -⟩ := hw₁
    exact ⟨_, rfl, fun _ ↦ .inr (htorn h), nofun, nofun⟩
  · obtain ⟨_, hr, -⟩ := hw₁
    cases hr

theorem passes_close : Passes lower (perform (o := .close) id : Call Unit) := by
  intro w r w' hexec
  cases hexec with
  | close _ _ hr => exact congrArg w.stop (interrupted_eq hr).symm

/-- How an attempt at a stream ends. -/
def Attempted (r : Except Exn (Option Routing.ProviderError)) (w : World) : Prop :=
  Ends w ∧ ∀ e, r = .ok (some e) → Calm w ∧ w.stopped = false

theorem runs_finishStream {handled : Handled} (h : HandledWell w lease handled) (opened : Bool) :
    Runs lower Attempted (finishStream lease opened handled) w := by
  have hclosed : Runs lower (fun r w' ↦ ∃ closed, r = .ok closed ∧ w' = w.stop (interrupted closed))
      (closeStream opened) w := by
    cases opened with
    | true => exact runs_attempt (passes_close w)
    | false => exact ⟨.ok (), rfl, (World.stop_false w).symm⟩
  refine runs_bind hclosed (fun closed w₁ hw₁ ↦ ?_) fun e w₁ hw₁ ↦ ?_
  · obtain ⟨_, ⟨⟩, rfl⟩ := hw₁
    have hgiven : Runs lower (fun r w' ↦ r = .ok () ∧ Ends w' ∧
        (handled.1 = true → w' = w.stop (interrupted closed)))
        (releaseUnless handled.1 lease) (w.stop (interrupted closed)) := by
      cases hsettled : handled.1 with
      | true => exact ⟨rfl, (h.settled hsettled).stop _, fun _ ↦ rfl⟩
      | false =>
          refine runs_release_spec.imp fun r w' hr ↦ ⟨hr.1, .inl (hr.2.2 ?_), nofun⟩
          exact (h.open' hsettled).stop _
    refine runs_bind hgiven (fun _ w₂ hw₂ ↦ ?_) fun e w₂ hw₂ ↦ nomatch hw₂.1
    obtain ⟨-, hends, hsame⟩ := hw₂
    -- The result of the attempt goes on only if the closing was not interrupted.
    have hrethrow : interrupted closed = false →
        Runs lower Attempted (rethrow handled.2) w₂ := by
      intro hclosing
      cases hresult : handled.2 with
      | error e => exact ⟨hends, nofun⟩
      | ok again =>
          refine ⟨hends, ?_⟩
          rintro e ⟨⟩
          obtain ⟨hsettled, hcalm, hstopped⟩ := h.again e hresult
          rw [hsame hsettled, hclosing, World.stop_false]
          exact ⟨hcalm, hstopped⟩
    cases closed with
    | ok _ => exact hrethrow rfl
    | error e =>
        dsimp only
        split_ifs with he
        · exact hrethrow (congrArg not he)
        · exact ⟨hends, nofun⟩
  · obtain ⟨_, ⟨⟩, -⟩ := hw₁

/-- A stream whose success raises leaves the lease torn. -/
theorem runs_relayStream (h : Held w lease) (hstopped : w.stopped = false)
    (first : Option TokenCount) :
    Runs lower (fun r w' ↦ r = .ok () ∧ Calm w' ∧ w'.stopped = false ∨
        (∃ e, r = .error e ∧ Held w' lease ∧ (e.isException = true → w'.stopped = false)) ∨
        r = .error .failure ∧ Torn w') (relayStream lease first) w := by
  have hopen : ∀ {β : Type} (e : Exn) (r : Except Exn β), r = .error e → e.isException = true →
      (w.stop (interrupted r)).stopped = false := by
    rintro β e _ rfl he
    rw [show interrupted (.error e : Except Exn β) = false from congrArg not he, World.stop_false]
    exact hstopped
  refine runs_bind (passes_emit w) (fun _ w₁ hw₁ ↦ ?_) fun e w₁ hw₁ ↦ ?_
  · rw [interrupted, World.stop_false] at hw₁
    subst hw₁
    refine runs_bind (passes_length w₁) (fun n w₂ hw₂ ↦ ?_) fun e w₂ hw₂ ↦ ?_
    · rw [interrupted, World.stop_false] at hw₂
      subst hw₂
      refine runs_bind (passes_relayChunks n first w₂) (fun final w₃ hw₃ ↦ ?_) fun e w₃ hw₃ ↦ ?_
      · rw [interrupted, World.stop_false] at hw₃
        subst hw₃
        refine (h.runs_recordSuccess hstopped _).imp fun r w' hr ↦ ?_
        rcases hr with ⟨hsame, ⟨rfl, hcalm⟩ | ⟨rfl, htorn, -⟩⟩
        · exact .inl ⟨rfl, hcalm, hsame⟩
        · exact .inr (.inr ⟨rfl, htorn⟩)
      · subst hw₃
        exact .inr (.inl ⟨e, rfl, h.stop _, hopen e _ rfl⟩)
    · subst hw₂
      exact .inr (.inl ⟨e, rfl, h.stop _, hopen e _ rfl⟩)
  · subst hw₁
    exact .inr (.inl ⟨e, rfl, h.stop _, hopen e _ rfl⟩)

theorem runs_handled {x : Call Handled} (hx : Runs lower
      (fun r w' ↦ ∃ handled, r = .ok handled ∧ HandledWell w' lease handled) x w) (opened : Bool) :
    Runs lower Attempted (x >>= fun handled ↦ finishStream lease opened handled) w := by
  refine runs_bind hx (fun handled w₁ hw₁ ↦ ?_) fun e w₁ hw₁ ↦ ?_
  · obtain ⟨_, ⟨⟩, hwell⟩ := hw₁
    exact runs_finishStream hwell opened
  · obtain ⟨_, ⟨⟩, -⟩ := hw₁

theorem runs_streamOnce (h : Held w lease) (hstopped : w.stopped = false) :
    Runs lower Attempted (streamOnce lease) w := by
  have hopen : ∀ {β : Type} (e : Exn), e.isException = true →
      (w.stop (interrupted (.error e : Except Exn β))).stopped = false := by
    intro β e he
    rw [show interrupted (.error e : Except Exn β) = false from congrArg not he, World.stop_false]
    exact hstopped
  refine runs_handler (passes_openStream w) fun opened w₁ hw₁ ↦ ?_
  subst hw₁
  cases opened with
  | error e => exact runs_handled (runs_handleStream (h.stop _) false e (hopen e)) false
  | ok _ =>
      rw [interrupted, World.stop_false]
      refine runs_handler (passes_next w) fun first w₂ hw₂ ↦ ?_
      subst hw₂
      cases first with
      | error e => exact runs_handled (runs_handleStream (h.stop _) false e (hopen e)) true
      | ok first =>
          rw [interrupted, World.stop_false]
          refine runs_handler (runs_relayStream h hstopped first) fun r w₃ hw₃ ↦ ?_
          rcases hw₃ with ⟨rfl, hcalm, -⟩ | ⟨e, rfl, hheld, hsame⟩ | ⟨rfl, htorn⟩
          · have hwell : HandledWell w₃ lease (true, .ok none) := by
              refine ⟨fun _ ↦ .inl hcalm, ?_, ?_⟩
              · rintro ⟨⟩
              · rintro _ ⟨⟩
            exact runs_finishStream hwell true
          · exact runs_handled (runs_handleStream hheld true e hsame) true
          · exact runs_handled (runs_handleStream_torn htorn) true

/-- The run lemma for the attempts at a stream. -/
theorem runs_rotateRoutes (mapping : Routing.ProviderModelMapping) (n : ℕ)
    (last : Option Routing.ProviderError) (h : Calm w) (hstopped : w.stopped = false) :
    Runs lower (fun _ w' ↦ Ends w') (rotateRoutes mapping n last) w := by
  induction n generalizing last w with
  | zero => exact runs_throw _ _ (.inl h)
  | succ n ih =>
      refine runs_bind (runs_acquire mapping) (fun lease w₁ hw₁ ↦ ?_) fun e w₁ hw₁ ↦ ?_
      · rcases hw₁ with ⟨_, ⟨⟩, rfl⟩ | ⟨⟨_, ⟨⟩⟩, -⟩
        refine runs_bind (runs_streamOnce (h.obtain lease) hstopped) (fun again w₂ hw₂ ↦ ?_)
          fun e w₂ hw₂ ↦ hw₂.1
        cases again with
        | none => exact runs_pure _ () hw₂.1
        | some e =>
            obtain ⟨hcalm, hstopped'⟩ := hw₂.2 e rfl
            exact ih (some e) hcalm hstopped'
      · rcases hw₁ with ⟨_, ⟨⟩, -⟩ | ⟨-, rfl⟩
        exact .inl h

theorem runs_consume (h : Calm w) (hstopped : w.stopped = false)
    (mapping : Routing.ProviderModelMapping) :
    Runs lower (fun _ w' ↦ Ends w') (consume mapping) w := by
  intro (starts : Bool) w₁ h₁
  cases h₁
  cases starts with
  | false => exact .inl h
  | true =>
      change Runs lower _ (executeStreaming mapping) w
      unfold executeStreaming
      split_ifs
      · exact runs_throw _ _ (.inl h)
      · intro count w₂ h₂
        cases h₂
        exact runs_rotateRoutes mapping _ none h hstopped

/-! ## Every call -/

/-- The calls that lease a route. -/
inductive LeasedCall where
  | route (mapping : Routing.ProviderModelMapping)
  | embedding (mapping : Routing.ProviderModelMapping)
  | streaming (mapping : Routing.ProviderModelMapping)

/-- The call, whatever it returns. -/
def LeasedCall.program : LeasedCall → Call Unit
  | .route mapping => do
      let _ ← executeRoute mapping
      pure ()
  | .embedding mapping => executeEmbeddingRoute mapping
  | .streaming mapping => consume mapping

theorem calm_start : Calm {} where
  settled := ⟨rfl, fun _ hb ↦ absurd hb List.not_mem_nil⟩
  unraised _ hb := absurd hb List.not_mem_nil

/-- In every run of a call each lease is settled once, and only released after its consumer
has stopped, exactly if no success is given a number of tokens that cannot be counted. -/
theorem settledOnce_iff (lower : String → String) (call : LeasedCall) :
    Runs lower (fun _ w ↦ SettledOnce w ↔ ∀ b ∈ w.bookings, ¬ b.Raised) call.program {} := by
  have hends : Runs lower (fun _ w ↦ Ends w) call.program {} := by
    cases call with
    | route mapping =>
        refine runs_bind (runs_leased calm_start rfl mapping _ _ (passes_transport _))
          (fun _ w hw ↦ hw) fun e w hw ↦ hw
    | embedding mapping => exact runs_leased calm_start rfl mapping _ _ passes_embeddingTransport
    | streaming mapping => exact runs_consume calm_start rfl mapping
  exact hends.imp fun _ w hw ↦ hw.settled_iff

/-! ## A response without a count -/

theorem Visited.consistent {s : System} (hs : Visited lower s) : Consistent s.pool := by
  obtain ⟨leases, h⟩ := hs.balanced
  exact ⟨leases, h.wired, h.counted⟩

/-- A success that raises leaves the pool consistent. -/
theorem consistent_recordAnySuccess {leases : List RouteLease} (h : Balanced pool leases)
    (latencyMs : ℚ) (tokens : TokenCount) :
    Consistent (pool.recordAnySuccess lease latencyMs tokens).2 := by
  unfold RoutePool.recordAnySuccess
  cases hstate : pool.runtime.lookup lease.key with
  | none => exact ⟨leases, h.wired, h.counted⟩
  | some state =>
      have hkey : lease.key ∈ pool.runtime := Dict.mem_iff_lookup.mpr ⟨state, hstate⟩
      cases tokens.perToken? (max 0 latencyMs) with
      | none => exact ⟨_, h.wired.setRuntime hkey _, counted_dropLease h.counted hstate rfl⟩
      | some perToken =>
          have hinflight : ((state.countSuccess latencyMs).finishSuccess perToken).inflight =
              state.inflight - 1 := rfl
          have hsettled := balanced_dropLease h hstate hinflight
          exact ⟨_, hsettled.wired, hsettled.counted⟩

/-- A mapping to the model `x` of the provider. -/
def openaiMapping : Routing.ProviderModelMapping where
  ref := 0
  provider := "openai"
  modelId := "x"

/-- A request is under way over the only route when another one is answered without a number of
tokens. Both are then taken off the load, though one of them is still under way. -/
theorem settledTwice_route : ∃ w r, Evals (machine fun s ↦ s) 0
      (LeasedCall.program (.route openaiMapping)).run {} r w ∧ ¬ SettledOnce w ∧
    ∃ first second, w.bookings = [first, second] ∧ first.lease = firstLease ∧
      second.lease = firstLease ∧ first.settlement = .success .other ∧
      (first.before.runtime.lookup firstLease.key).map RouteRuntime.inflight = some 2 ∧
      second.before = first.after ∧
      (second.after.runtime.lookup firstLease.key).map RouteRuntime.inflight = some 0 := by
  have hrun : ([Action.replace [firstLease.route], .acquire "openai" "x" 0 0].foldlM
      (System.perform fun s ↦ s) {} >>= fun s ↦
        (s.pool.acquire (fun s ↦ s) "openai" "x" 0 0).map fun r ↦ (r.1,
          (r.2.runtime.lookup firstLease.key).map RouteRuntime.inflight,
          (r.2.recordAnySuccess firstLease 0 .other).1,
          (((r.2.recordAnySuccess firstLease 0 .other).2.release firstLease).runtime.lookup
            firstLease.key).map RouteRuntime.inflight)) =
      .ok (firstLease, some 2, true, some 0) := by decide +kernel
  obtain ⟨s, hs, hrun⟩ := bind_ok_iff.mp hrun
  obtain ⟨⟨lease, pool⟩, hacquire, h⟩ := ok_of_map hrun
  simp only [Prod.mk.injEq] at h
  obtain ⟨rfl, htwo, hraises, hzero⟩ := h
  have hvisited := visited_foldlM .start hs
  have hvisited' : Visited (fun s ↦ s) ⟨pool, firstLease :: s.leases⟩ :=
    .perform s _ (.acquire "openai" "x" 0 0) hvisited (bind_ok_iff.mpr ⟨_, hacquire, rfl⟩)
  obtain ⟨leases, hbalanced⟩ := hvisited'.balanced
  let first : Booking := ⟨firstLease, .success .other, false, pool,
    (pool.recordAnySuccess firstLease 0 .other).2⟩
  let second : Booking := ⟨firstLease, .release, false, first.after, first.after.release firstLease⟩
  refine ⟨⟨[firstLease], [first, second], false⟩, .error .failure, ?_, fun hsettled ↦ ?_,
    first, second, rfl, rfl, rfl, rfl, htwo, rfl, hzero⟩
  · have h₁ : (machine fun s ↦ s).exec 0 .acquire {} (.ok firstLease) (World.obtain {} firstLease) :=
      .acquire _ _ _ _ _ _ _ _ hvisited.consistent hacquire
    have h₂ : ∀ step w, (machine fun s ↦ s).exec 0 (.prepare step) w (.ok ()) w :=
      fun step w ↦ .prepare w step _ trivial
    have h₃ : ∀ w, (machine fun s ↦ s).exec 0 .execute w (.ok .other) (w.stop false) :=
      fun w ↦ .execute w _ trivial
    have h₄ : ∀ w, (machine fun s ↦ s).exec 0 (.recordSuccess firstLease .other) w true
        (w.book firstLease (.success .other) pool first.after) := fun w ↦
      .recordSuccess w firstLease .other pool _ 0 true hvisited'.consistent (Prod.ext hraises rfl)
    have h₅ : ∀ w, (machine fun s ↦ s).exec 0 (.release firstLease) w ()
        (w.book firstLease .release first.after second.after) := fun w ↦
      .release w firstLease _ (consistent_recordAnySuccess hbalanced 0 .other)
    refine .call _ _ _ _ _ _ _ h₁ (.call _ _ _ _ _ _ _ (h₂ .adapter _) ?_)
    refine .call _ _ _ _ _ _ _ (h₂ .config _) (.call _ _ _ _ _ _ _ (h₃ _) ?_)
    exact .call _ _ _ _ _ _ _ (h₄ _) (.call _ _ _ _ _ _ _ (h₅ _) (.done _ _))
  · have hlength := congrArg List.length hsettled.each
    simp at hlength

end AxonGateway.Providers
