import AxonGateway.Routing.Router

/-!
# One request and its fallback chain

A request looks at the health of the providers when the strategy chooses and once before each
mapping it falls back to.  In between anything may happen to the state, so every look has a
moment of its own.  A mapping whose provider the first choice has tried in vain is never looked
at, though nothing is wrong with it.
-/

namespace AxonGateway.Routing

open Interleaving

/-- A state of the router at some time. -/
structure Moment where
  now : ℚ
  state : RouterState

def Moment.isHealthy (t : Moment) (provider : String) : Bool := t.state.isHealthy t.now provider

/-- What a request meets: the moments of its looks, and what the calls of a turn of a mapping
would come to. -/
structure Surroundings where
  first : Moment
  checks : ℕ → Moment
  call : ProviderModelMapping → ℕ → CallResult

/-- A call of a provider, with the moment of the look before its turn. -/
structure ProviderCall where
  start : Moment
  mapping : ProviderModelMapping
  number : ℕ

/-- What a request has done. -/
structure Course where
  start : Moment
  checked : ℕ
  calls : List ProviderCall
  marked : List String

/-- The answers to the operations of a request; it opens no stream. -/
def reply (pricing : PricingConfig) (W : Surroundings) : (o : Op) → Course → Ret o × Course
  | .select strategy ms, c =>
      ((select pricing W.first.now strategy ms W.first.state).1, { c with start := W.first })
  | .isHealthy p, c => ((W.checks c.checked).isHealthy p,
      { c with start := W.checks c.checked, checked := c.checked + 1 })
  | .markUnhealthy p _, c => ((), { c with marked := c.marked ++ [p] })
  | .call _ m n, c => (W.call m n, { c with calls := c.calls ++ [⟨c.start, m, n⟩] })
  | .openStream _ _, c => (.raised "", c)
  | .isOverBudget _, c => (false, c)
  | .gate _, c => (true, c)

namespace Surroundings

variable (W : Surroundings)

/-- A part of a request, after what it has done so far. -/
def resume {α : Type} (R : Router) (x : Route α) (c : Course) : Except RouteError α × Course :=
  Raising.play (reply R.pricing W) x c

/-- A request from its start. -/
def serve {α : Type} (R : Router) (x : Route α) : Except RouteError α × Course :=
  W.resume R x ⟨W.first, 0, [], []⟩

/-- The provider is out of cooldown at every look of the request, and the request does not mark
it. -/
def HealthyThroughout (c : Course) (provider : String) : Prop :=
  W.first.isHealthy provider = true ∧ (∀ k < c.checked, (W.checks k).isHealthy provider = true) ∧
    provider ∉ c.marked

/-- The request has returned what its last call answered, under the names of the mapping. -/
def Answered (model : String) (ms : List ProviderModelMapping)
    (result : Except RouteError ChatCompletionResponse) (c : Course) : Prop :=
  ∃ before last content, c.calls = before ++ [last] ∧ last.mapping ∈ ms ∧
    W.call last.mapping last.number = .response content ∧
    result = .ok ⟨last.mapping.provider, last.mapping.modelId, model, content⟩

end Surroundings

/-- What a request promises: it calls no provider in cooldown and no mapping in two turns or too
often, it finds a success where one is sure, and else it lists an attempt for each mapping. -/
structure FallsBack (R : Router) (W : Surroundings) (model : String)
    (ms : List ProviderModelMapping) (result : Except RouteError ChatCompletionResponse)
    (c : Course) : Prop where
  healthy : ∀ e ∈ c.calls, e.start.isHealthy e.mapping.provider = true
  bounded : ∀ m, (c.calls.filter fun e ↦ e.mapping = m).length ≤ R.maxRetries + 1
  one_turn : ∀ m, (c.calls.filter fun e ↦ e.mapping = m ∧ e.number = 0).length ≤ 1
  complete : (∃ m ∈ ms, W.HealthyThroughout c m.provider ∧
    ∃ content, W.call m 0 = .response content) → W.Answered model ms result c
  exhausted : W.Answered model ms result c ∨
    ∃ attempts, result = .error (.allProvidersExhausted attempts) ∧
      (attempts.map Attempt.provider).Perm (ms.map ProviderModelMapping.provider)

/-! ## What the surroundings decide -/

/-- How the turn of a mapping ends. -/
inductive TurnEnd where
  | answers (content : String)
  | raises (message : String)
  | givesUp (e : ProviderError)

def TurnEnd.isGivesUp : TurnEnd → Bool
  | .givesUp _ => true
  | _ => false

namespace Surroundings

variable (W : Surroundings) (R : Router)

/-- The calls of a turn from call number `n`, with `left` calls after it. -/
def turnFrom (m : ProviderModelMapping) : ℕ → ℕ → TurnEnd
  | n, 0 =>
      match W.call m n with
      | .response content => .answers content
      | .raised message => .raises message
      | .providerError e => .givesUp e
  | n, left + 1 =>
      match W.call m n with
      | .response content => .answers content
      | .raised message => .raises message
      | .providerError e => if R.shouldRetry e then turnFrom m (n + 1) left else .givesUp e

def turn (m : ProviderModelMapping) : TurnEnd := W.turnFrom R m 0 R.maxRetries

/-- The mappings of a chain whose providers are healthy when it comes to them. -/
def chain : ℕ → List ProviderModelMapping → List ProviderModelMapping
  | _, [] => []
  | k, m :: ms =>
      if (W.checks k).isHealthy m.provider then m :: chain (k + 1) ms else chain (k + 1) ms

/-- The first choice. -/
def choose (model : String) (ms : List ProviderModelMapping) :
    Except RouteError ProviderModelMapping :=
  match R.getStrategy model with
  | .ok strategy => (select R.pricing W.first.now strategy ms W.first.state).1
  | .error e => .error e

/-- The mappings that come after a first choice. -/
def rest (ms : List ProviderModelMapping) (initial : ProviderModelMapping) :
    List ProviderModelMapping :=
  sortedByOrder (ms.filter (·.provider != initial.provider))

/-- There is a choice, unless no provider is healthy, and the first turn that does not give up
answers; if all give up, no other mapping has the provider of the first choice. -/
def Decides (model : String) (ms : List ProviderModelMapping) : Prop :=
  ms ≠ [] ∧
    match W.choose R model ms with
    | .error .noHealthyProvider => True
    | .error _ => False
    | .ok initial =>
        match (initial :: W.chain 0 (rest ms initial)).find? fun m ↦ !(W.turn R m).isGivesUp with
        | some m => ∃ content, W.turn R m = .answers content
        | none => ∀ m ∈ ms, m.provider = initial.provider → m = initial

end Surroundings

/-! ## Calls -/

/-- Calls of the mappings of a list, as a request may make them. -/
structure WellCalled (R : Router) (ms : List ProviderModelMapping) (calls : List ProviderCall) :
    Prop where
  mem : ∀ e ∈ calls, e.mapping ∈ ms
  healthy : ∀ e ∈ calls, e.start.isHealthy e.mapping.provider = true
  bounded : ∀ m, (calls.filter fun e ↦ e.mapping = m).length ≤ R.maxRetries + 1
  one_turn : ∀ m, (calls.filter fun e ↦ e.mapping = m ∧ e.number = 0).length ≤ 1

section Calls

variable {R : Router} {ms ms' : List ProviderModelMapping} {calls calls' : List ProviderCall}

theorem wellCalled_nil : WellCalled R ms [] := by
  constructor <;> simp

theorem WellCalled.mono (h : WellCalled R ms calls) (hsub : ∀ m ∈ ms, m ∈ ms') :
    WellCalled R ms' calls :=
  ⟨fun e he ↦ hsub _ (h.mem e he), h.healthy, h.bounded, h.one_turn⟩

theorem WellCalled.filter_eq_nil (h : WellCalled R ms calls) {m : ProviderModelMapping}
    (hm : m ∉ ms) (p : ProviderCall → Bool) :
    calls.filter (fun e ↦ decide (e.mapping = m) && p e) = [] := by
  refine List.filter_eq_nil_iff.mpr fun e he ↦ ?_
  have hne : e.mapping ≠ m := by
    rintro rfl
    exact hm (h.mem e he)
  simp [hne]

/-- Calls of one mapping and then of others. -/
theorem WellCalled.append (h : WellCalled R ms calls) (h' : WellCalled R ms' calls')
    (hdisjoint : ∀ m ∈ ms, m ∉ ms') : WellCalled R (ms ++ ms') (calls ++ calls') := by
  have hcount : ∀ m (p : ProviderCall → Bool),
      calls.filter (fun e ↦ decide (e.mapping = m) && p e) = [] ∨
        calls'.filter (fun e ↦ decide (e.mapping = m) && p e) = [] := by
    intro m p
    by_cases hm : m ∈ ms
    · exact .inr (h'.filter_eq_nil (hdisjoint m hm) p)
    · exact .inl (h.filter_eq_nil hm p)
  constructor
  · intro e he
    rcases List.mem_append.mp he with he | he
    · exact List.mem_append_left _ (h.mem e he)
    · exact List.mem_append_right _ (h'.mem e he)
  · intro e he
    rcases List.mem_append.mp he with he | he
    · exact h.healthy e he
    · exact h'.healthy e he
  · intro m
    have hm := hcount m fun _ ↦ true
    simp only [Bool.and_true] at hm
    rw [List.filter_append, List.length_append]
    rcases hm with hm | hm <;> rw [hm, List.length_nil]
    · simpa using h'.bounded m
    · simpa using h.bounded m
  · intro m
    have hm := hcount m fun e ↦ decide (e.number = 0)
    simp only [Bool.decide_and]
    rw [List.filter_append, List.length_append]
    rcases hm with hm | hm <;> rw [hm, List.length_nil]
    · simpa using h'.one_turn m
    · simpa using h.one_turn m

/-- The calls of one turn. -/
theorem wellCalled_turn {start : Moment} {m : ProviderModelMapping} {j : ℕ}
    (hstart : start.isHealthy m.provider = true) (hj : j ≤ R.maxRetries + 1) :
    WellCalled R [m] ((List.range' 0 j).map fun n ↦ ⟨start, m, n⟩) := by
  constructor
  · intro e he
    obtain ⟨n, -, rfl⟩ := List.mem_map.mp he
    exact List.mem_singleton_self m
  · intro e he
    obtain ⟨n, -, rfl⟩ := List.mem_map.mp he
    exact hstart
  · intro m'
    refine (List.length_filter_le _ _).trans ?_
    simpa using hj
  · intro m'
    have hzeros : ((List.range' 0 j).filter fun n ↦ n = 0).length ≤ 1 := by
      cases j with
      | zero => simp
      | succ j =>
          rw [List.range'_succ, List.filter_cons_of_pos (by simp)]
          have hnone : (List.range' (0 + 1) j).filter (fun n ↦ n = 0) = [] := by
            refine List.filter_eq_nil_iff.mpr fun n hn ↦ ?_
            have hle := (List.mem_range'_1.mp hn).1
            simp only [decide_eq_true_eq]
            omega
          rw [hnone, List.length_singleton]
    rw [List.filter_map, List.length_map]
    refine le_trans (List.Sublist.length_le ?_) hzeros
    refine List.monotone_filter_right _ fun n hn ↦ ?_
    simp only [Function.comp_apply, decide_eq_true_eq] at hn ⊢
    exact hn.2

end Calls

/-! ## Turns -/

namespace Surroundings

section Turns

variable {W : Surroundings} {R : Router} {model : String} {m : ProviderModelMapping}
  {ms : List ProviderModelMapping} {α β : Type}

theorem resume_ask_bind (o : Op) (f : Ret o → Route α) (c : Course) :
    W.resume R (Raising.ask o >>= f) c =
      W.resume R (f (reply R.pricing W o c).1) (reply R.pricing W o c).2 :=
  Raising.play_bind_ok (Raising.play_ask o c)

theorem resume_bind_ok {x : Route α} {f : α → Route β} {c c' : Course} {a : α}
    (h : W.resume R x c = (.ok a, c')) : W.resume R (x >>= f) c = W.resume R (f a) c' :=
  Raising.play_bind_ok h

theorem resume_bind_error {x : Route α} {f : α → Route β} {c c' : Course} {e : RouteError}
    (h : W.resume R x c = (.error e, c')) : W.resume R (x >>= f) c = (.error e, c') :=
  Raising.play_bind_error h

/-- What a turn returns or raises. -/
def turnResult (model : String) (m : ProviderModelMapping) (attempts : List Attempt) :
    TurnEnd → Except RouteError (Option ChatCompletionResponse × List Attempt)
  | .answers content => .ok (some ⟨m.provider, m.modelId, model, content⟩, attempts)
  | .raises message => .error (.raised message)
  | .givesUp e => .ok (none, attempts ++ [failed m e])

theorem resume_markFailed_bind (e : ProviderError) (a : α) (c : Course) :
    ∃ marks, W.resume R (R.markFailed m e >>= fun _ ↦ pure a) c =
      (.ok a, { c with marked := c.marked ++ marks }) := by
  unfold Router.markFailed
  split_ifs
  · exact ⟨[m.provider], rfl⟩
  · exact ⟨[], by rw [List.append_nil]; rfl⟩

variable (model) in
/-- A turn makes its calls one after the other and ends as the last of them does. -/
theorem resume_tryFrom (m : ProviderModelMapping) (attempts : List Attempt) (left n : ℕ)
    (c : Course) : ∃ j marks, 0 < j ∧ j ≤ left + 1 ∧
      W.resume R (R.tryFrom model m attempts n left) c =
        (turnResult model m attempts (W.turnFrom R m n left),
          { c with
            calls := c.calls ++ (List.range' n j).map fun i ↦ ⟨c.start, m, i⟩
            marked := c.marked ++ marks }) ∧
      ∀ content, W.turnFrom R m n left = .answers content →
        W.call m (n + j - 1) = .response content := by
  induction left generalizing n c with
  | zero =>
      rw [Router.tryFrom, turnFrom, resume_ask_bind]
      simp only [reply]
      cases hcall : W.call m n with
      | response content =>
          refine ⟨1, [], by omega, by omega, by rw [List.append_nil]; rfl, fun content' h ↦ ?_⟩
          rw [Nat.add_sub_cancel, hcall]
          exact congrArg _ (TurnEnd.answers.inj h)
      | raised message =>
          exact ⟨1, [], by omega, by omega, by rw [List.append_nil]; rfl, fun _ h ↦ by cases h⟩
      | providerError e =>
          by_cases hretry : R.shouldRetry e = true
          · obtain ⟨marks, hmark⟩ := resume_markFailed_bind (W := W) (R := R) (m := m) e
              ((none : Option ChatCompletionResponse), attempts ++ [failed m e])
              { c with calls := c.calls ++ [⟨c.start, m, n⟩] }
            refine ⟨1, marks, by omega, by omega, ?_, fun _ h ↦ by cases h⟩
            simp only [Router.afterCall, hretry, if_true]
            exact hmark
          · refine ⟨1, [], by omega, by omega, ?_, fun _ h ↦ by cases h⟩
            simp only [Router.afterCall, hretry, if_false, Bool.false_eq_true]
            rw [List.append_nil]
            rfl
  | succ left ih =>
      rw [Router.tryFrom, turnFrom, resume_ask_bind]
      simp only [reply]
      cases hcall : W.call m n with
      | response content =>
          refine ⟨1, [], by omega, by omega, by rw [List.append_nil]; rfl, fun content' h ↦ ?_⟩
          rw [Nat.add_sub_cancel, hcall]
          exact congrArg _ (TurnEnd.answers.inj h)
      | raised message =>
          exact ⟨1, [], by omega, by omega, by rw [List.append_nil]; rfl, fun _ h ↦ by cases h⟩
      | providerError e =>
          by_cases hretry : R.shouldRetry e = true
          · obtain ⟨j, marks, hpos, hle, hresume, hlast⟩ :=
              ih (n + 1) { c with calls := c.calls ++ [⟨c.start, m, n⟩] }
            refine ⟨j + 1, marks, by omega, by omega, ?_, fun content h ↦ ?_⟩
            · simp only [Router.afterCall, hretry, if_true]
              rw [hresume, List.range'_succ, List.map_cons, List.append_assoc,
                List.singleton_append]
            · simp only [hretry, if_true] at h
              rw [← hlast content h]
              congr 1
              omega
          · refine ⟨1, [], by omega, by omega, ?_, fun _ h ↦ ?_⟩
            · simp only [Router.afterCall, hretry, if_false, Bool.false_eq_true]
              rw [List.append_nil]
              rfl
            · simp only [hretry, if_false, Bool.false_eq_true] at h
              cases h

/-- The last of some calls has answered for the mapping. -/
def LastAnswers (W : Surroundings) (calls : List ProviderCall) (m : ProviderModelMapping)
    (content : String) : Prop :=
  ∃ before last, calls = before ++ [last] ∧ last.mapping = m ∧
    W.call m last.number = .response content

theorem LastAnswers.append {calls : List ProviderCall} {content : String}
    (h : LastAnswers W calls m content) (calls' : List ProviderCall) :
    LastAnswers W (calls' ++ calls) m content := by
  obtain ⟨before, last, rfl, hlast⟩ := h
  exact ⟨calls' ++ before, last, by rw [List.append_assoc], hlast⟩

variable (model) in
theorem resume_tryProvider (attempts : List Attempt) {c : Course}
    (hstart : c.start.isHealthy m.provider = true) : ∃ new marks, WellCalled R [m] new ∧
      W.resume R (R.tryProvider model m attempts) c = (turnResult model m attempts (W.turn R m),
        { c with calls := c.calls ++ new, marked := c.marked ++ marks }) ∧
      ∀ content, W.turn R m = .answers content → LastAnswers W new m content := by
  obtain ⟨j, marks, hpos, hle, hresume, hlast⟩ :=
    resume_tryFrom (W := W) (R := R) model m attempts R.maxRetries 0 c
  refine ⟨_, marks, wellCalled_turn hstart hle, hresume, fun content h ↦ ?_⟩
  obtain ⟨i, rfl⟩ := Nat.exists_eq_add_of_lt hpos
  refine ⟨(List.range' 0 i).map fun n ↦ ⟨c.start, m, n⟩, ⟨c.start, m, i⟩, ?_, rfl, ?_⟩
  · rw [Nat.zero_add, List.range'_1_concat, List.map_append, Nat.zero_add]
    rfl
  · have hcall := hlast content h
    rw [Nat.zero_add, Nat.zero_add, Nat.add_sub_cancel] at hcall
    exact hcall

/-- How a chain ends: with the first mapping in turn that does not give up, or with an attempt
for each. -/
structure ChainEnds (W : Surroundings) (R : Router) (model : String)
    (ms turns : List ProviderModelMapping) (attempts : List Attempt) (new : List ProviderCall)
    (result : Except RouteError ChatCompletionResponse) : Prop where
  answers : ∀ m content, (turns.find? fun m ↦ !(W.turn R m).isGivesUp) = some m →
    W.turn R m = .answers content →
      result = .ok ⟨m.provider, m.modelId, model, content⟩ ∧ LastAnswers W new m content
  raises : ∀ m message, (turns.find? fun m ↦ !(W.turn R m).isGivesUp) = some m →
    W.turn R m = .raises message → result = .error (.raised message)
  givesUp : (turns.find? fun m ↦ !(W.turn R m).isGivesUp) = none →
    ∃ extra : List Attempt, result = .error (.allProvidersExhausted (attempts ++ extra)) ∧
      extra.map Attempt.provider = ms.map ProviderModelMapping.provider

/-- What a part of a request has come to, after some calls, that takes turns at the mappings of
a list; it has looked `looks` times if all of them give up. -/
def Follows (W : Surroundings) (R : Router) (model : String)
    (ms turns : List ProviderModelMapping) (attempts : List Attempt) (calls : List ProviderCall)
    (looks : ℕ) (x : Except RouteError ChatCompletionResponse × Course) : Prop :=
  ∃ new, WellCalled R ms new ∧ x.2.calls = calls ++ new ∧
    ChainEnds W R model ms turns attempts new x.1 ∧
    ((∀ m ∈ turns, (W.turn R m).isGivesUp = true) → x.2.checked = looks)

/-- A turn and what follows it where it gives up. -/
theorem follows_turn {c : Course} {attempts : List Attempt} {turns : List ProviderModelMapping}
    {looks : ℕ} {f : Option ChatCompletionResponse × List Attempt → Route ChatCompletionResponse}
    (hstart : c.start.isHealthy m.provider = true) (hnew : m ∉ ms)
    (hsome : ∀ response attempts, f (some response, attempts) = pure response)
    (hnone : ∀ attempts c', c'.checked = c.checked →
      Follows W R model ms turns attempts c'.calls looks (W.resume R (f (none, attempts)) c')) :
    Follows W R model (m :: ms) (m :: turns) attempts c.calls looks
      (W.resume R (R.tryProvider model m attempts >>= f) c) := by
  obtain ⟨new, marks, hwell, hresume, hlast⟩ :=
    resume_tryProvider (W := W) (R := R) model attempts hstart
  have hone : WellCalled R (m :: ms) new :=
    hwell.mono fun m' hm' ↦ List.mem_singleton.mp hm' ▸ List.mem_cons_self
  cases hturn : W.turn R m with
  | answers content =>
      have hfind : (m :: turns).find? (fun m ↦ !(W.turn R m).isGivesUp) = some m := by
        simp [hturn, TurnEnd.isGivesUp]
      rw [hturn] at hresume
      rw [resume_bind_ok hresume, hsome]
      refine ⟨new, hone, rfl, ⟨fun m' content' hm' hanswers ↦ ?_, fun m' message hm' hraises ↦ ?_,
        fun hall ↦ ?_⟩, fun hall ↦ ?_⟩
      · obtain rfl := Option.some.inj (hfind.symm.trans hm')
        obtain rfl := TurnEnd.answers.inj (hturn.symm.trans hanswers)
        exact ⟨rfl, hlast content hturn⟩
      · obtain rfl := Option.some.inj (hfind.symm.trans hm')
        cases hturn.symm.trans hraises
      · cases hfind.symm.trans hall
      · have hgives := hall m List.mem_cons_self
        rw [hturn] at hgives
        cases hgives
  | raises message =>
      have hfind : (m :: turns).find? (fun m ↦ !(W.turn R m).isGivesUp) = some m := by
        simp [hturn, TurnEnd.isGivesUp]
      rw [hturn] at hresume
      rw [resume_bind_error hresume]
      refine ⟨new, hone, rfl, ⟨fun m' content' hm' hanswers ↦ ?_,
        fun m' message' hm' hraises ↦ ?_, fun hall ↦ ?_⟩, fun hall ↦ ?_⟩
      · obtain rfl := Option.some.inj (hfind.symm.trans hm')
        cases hturn.symm.trans hanswers
      · obtain rfl := Option.some.inj (hfind.symm.trans hm')
        obtain rfl := TurnEnd.raises.inj (hturn.symm.trans hraises)
        rfl
      · cases hfind.symm.trans hall
      · have hgives := hall m List.mem_cons_self
        rw [hturn] at hgives
        cases hgives
  | givesUp e =>
      have hfind : (m :: turns).find? (fun m ↦ !(W.turn R m).isGivesUp) =
          turns.find? fun m ↦ !(W.turn R m).isGivesUp := by
        simp [hturn, TurnEnd.isGivesUp]
      rw [hturn] at hresume
      rw [resume_bind_ok hresume]
      obtain ⟨later, hlater, hcalls, hends, hchecked⟩ := hnone (attempts ++ [failed m e])
        { c with calls := c.calls ++ new, marked := c.marked ++ marks } rfl
      refine ⟨new ++ later, ?_, ?_, ⟨fun m' content hm' hanswers ↦ ?_,
        fun m' message hm' hraises ↦ ?_, fun hall ↦ ?_⟩, fun hall ↦ ?_⟩
      · exact hwell.append hlater fun m' hm' ↦ List.mem_singleton.mp hm' ▸ hnew
      · rw [← List.append_assoc]
        exact hcalls
      · rw [hfind] at hm'
        obtain ⟨hresult, hanswered⟩ := hends.answers m' content hm' hanswers
        exact ⟨hresult, hanswered.append new⟩
      · rw [hfind] at hm'
        exact hends.raises m' message hm' hraises
      · rw [hfind] at hall
        obtain ⟨extra, hresult, hextra⟩ := hends.givesUp hall
        refine ⟨failed m e :: extra, ?_, ?_⟩
        · refine hresult.trans ?_
          rw [List.append_assoc, List.singleton_append]
        · rw [List.map_cons, List.map_cons, hextra]
          rfl
      · exact hchecked fun m' hm' ↦ hall m' (List.mem_cons_of_mem _ hm')

variable (model) in
/-- A chain of distinct mappings. -/
theorem follows_fallBack (hnodup : ms.Nodup) (attempts : List Attempt) (c : Course) :
    Follows W R model ms (W.chain c.checked ms) attempts c.calls (c.checked + ms.length)
      (W.resume R (R.fallBack model ms attempts) c) := by
  induction ms generalizing attempts c with
  | nil =>
      refine ⟨[], wellCalled_nil, (List.append_nil _).symm, ⟨?_, ?_, ?_⟩, fun _ ↦ rfl⟩
      · exact fun m content h ↦ by cases h
      · exact fun m message h ↦ by cases h
      · exact fun _ ↦ ⟨[], by rw [List.append_nil]; rfl, rfl⟩
  | cons m ms ih =>
      obtain ⟨hnew, hms⟩ := List.nodup_cons.mp hnodup
      have hlooks : c.checked + (m :: ms).length = c.checked + 1 + ms.length := by
        rw [List.length_cons]
        omega
      rw [Router.fallBack, tryEach, isHealthy, resume_ask_bind, chain, hlooks]
      simp only [reply]
      by_cases hup : (W.checks c.checked).isHealthy m.provider = true
      · simp only [hup, if_true]
        refine follows_turn (c := { c with start := W.checks c.checked, checked := c.checked + 1 })
          hup hnew (fun _ _ ↦ rfl) fun attempts c' hc' ↦ ?_
        have hnext := ih hms attempts c'
        rw [hc'] at hnext
        exact hnext
      · simp only [hup, if_false, Bool.false_eq_true]
        obtain ⟨new, hwell, hcalls, hends, hchecked⟩ := ih hms (attempts ++ [skipped m])
          { c with start := W.checks c.checked, checked := c.checked + 1 }
        refine ⟨new, hwell.mono fun m' hm' ↦ List.mem_cons_of_mem _ hm', hcalls,
          ⟨hends.answers, hends.raises, fun hall ↦ ?_⟩, hchecked⟩
        obtain ⟨extra, hresult, hextra⟩ := hends.givesUp hall
        refine ⟨skipped m :: extra, ?_, ?_⟩
        · refine hresult.trans ?_
          rw [List.append_assoc, List.singleton_append]
        · rw [List.map_cons, List.map_cons, hextra]
          rfl

end Turns

end Surroundings

/-! ## Requests -/

section Requests

variable {W : Surroundings} {R : Router} {model : String} {initial : ProviderModelMapping}
  {ms : List ProviderModelMapping}

theorem choice_ne_exhausted (attempts : List Attempt) (population : List ProviderModelMapping)
    (u : ℚ) : choice population u ≠ .error (.allProvidersExhausted attempts) := by
  simp only [choice]
  split_ifs
  · simp
  · split <;> simp

theorem select_ne_exhausted (attempts : List Attempt) (pricing : PricingConfig) (now : ℚ)
    (strategy : RoutingStrategy) (s : RouterState) :
    (select pricing now strategy ms s).1 ≠ .error (.allProvidersExhausted attempts) := by
  unfold select
  split_ifs
  · simp
  · cases strategy with
    | weighted =>
        simp only [selectAmong]
        split
        · simp
        · rename_i e he
          intro h
          obtain rfl := Except.error.inj h
          exact choice_ne_exhausted attempts _ _ he
    | roundRobin | leastLatency | costOptimized | smart =>
        simp only [selectAmong]
        split <;> simp
    | ensemble => simp [selectAmong]

theorem choose_ne_exhausted (attempts : List Attempt) :
    W.choose R model ms ≠ .error (.allProvidersExhausted attempts) := by
  unfold Surroundings.choose
  cases hstrategy : R.getStrategy model with
  | error e =>
      intro h
      obtain rfl := Except.error.inj h
      unfold Router.getStrategy at hstrategy
      split at hstrategy
      · cases hstrategy
      · split at hstrategy
        · cases hstrategy
        · split_ifs at hstrategy
          cases hstrategy
        · cases hstrategy
  | ok strategy => exact select_ne_exhausted attempts _ _ _ _

theorem choose_ok (h : W.choose R model ms = .ok initial) :
    initial ∈ ms ∧ W.first.isHealthy initial.provider = true := by
  unfold Surroundings.choose at h
  cases hstrategy : R.getStrategy model with
  | error e =>
      rw [hstrategy] at h
      cases h
  | ok strategy =>
      rw [hstrategy] at h
      exact mem_of_select h

theorem choose_noHealthy (h : W.choose R model ms = .error .noHealthyProvider)
    {m : ProviderModelMapping} (hm : m ∈ ms) : W.first.isHealthy m.provider = false := by
  unfold Surroundings.choose at h
  cases hstrategy : R.getStrategy model with
  | error e =>
      rw [hstrategy] at h
      obtain rfl := Except.error.inj h
      exact absurd hstrategy Router.getStrategy_ne
  | ok strategy =>
      rw [hstrategy] at h
      have hnone := List.filter_eq_nil_iff.mp (healthyProviders_of_select h) m hm
      simpa [Moment.isHealthy] using hnone

theorem serve_executeWithFallback (hms : R.availableMappings model = some ms) :
    W.serve R (R.executeWithFallback model) =
      if ms = [] then
        (.error (.allProvidersExhausted (Router.noProvider model)), ⟨W.first, 0, [], []⟩)
      else W.serve R (R.executeSelected model ms) := by
  have hmappings : W.resume R (R.mappingsOrRaise model) ⟨W.first, 0, [], []⟩ =
      (.ok ms, ⟨W.first, 0, [], []⟩) := by
    rw [Router.mappingsOrRaise, hms]
    rfl
  refine (Surroundings.resume_bind_ok hmappings).trans ?_
  rw [if_neg (by simp)]
  split_ifs <;> rfl

variable (model ms) in
theorem resume_initialMapping : W.resume R (R.initialMapping model ms) ⟨W.first, 0, [], []⟩ =
    (.ok (W.choose R model ms), ⟨W.first, 0, [], []⟩) := by
  unfold Router.initialMapping Surroundings.choose
  cases R.getStrategy model <;> rfl

theorem serve_executeSelected_noHealthy
    (hchoose : W.choose R model ms = .error .noHealthyProvider) :
    W.serve R (R.executeSelected model ms) =
      (.error (.allProvidersExhausted ((sortedByOrder ms).map skipped)), ⟨W.first, 0, [], []⟩) := by
  have hinitial := resume_initialMapping (W := W) (R := R) model ms
  rw [hchoose] at hinitial
  exact Surroundings.resume_bind_ok hinitial

theorem serve_executeSelected_error {e : RouteError} (hchoose : W.choose R model ms = .error e)
    (hne : e ≠ .noHealthyProvider) :
    W.serve R (R.executeSelected model ms) = (.error e, ⟨W.first, 0, [], []⟩) := by
  have hinitial := resume_initialMapping (W := W) (R := R) model ms
  rw [hchoose] at hinitial
  refine (Surroundings.resume_bind_ok hinitial).trans ?_
  cases e with
  | noHealthyProvider => exact absurd rfl hne
  | _ => rfl

/-- The strategy's choice is the first look. -/
theorem serve_executeSelected (hchoose : W.choose R model ms = .ok initial) :
    W.serve R (R.executeSelected model ms) = W.serve R (do
      match ← R.tryProvider model initial [] with
      | (some response, _) => pure response
      | (none, attempts) => R.fallBack model (Surroundings.rest ms initial) attempts) := by
  have hinitial := resume_initialMapping (W := W) (R := R) model ms
  rw [hchoose] at hinitial
  exact Surroundings.resume_bind_ok hinitial

theorem turn_of_response {m : ProviderModelMapping} {content : String}
    (h : W.call m 0 = .response content) : W.turn R m = .answers content := by
  unfold Surroundings.turn
  cases R.maxRetries <;> rw [Surroundings.turnFrom, h]

/-- A chain comes to each mapping that is healthy at its look. -/
theorem mem_chain {k i : ℕ} {m : ProviderModelMapping} (hm : ms[k]? = some m)
    (hup : (W.checks (i + k)).isHealthy m.provider = true) : m ∈ W.chain i ms := by
  induction ms generalizing k i with
  | nil => simp at hm
  | cons a ms ih =>
      rw [Surroundings.chain]
      cases k with
      | zero =>
          obtain rfl : a = m := by simpa using hm
          rw [Nat.add_zero] at hup
          rw [if_pos hup]
          exact List.mem_cons_self
      | succ k =>
          have hmem : m ∈ W.chain (i + 1) ms := by
            refine ih (by simpa using hm) ?_
            rw [Nat.add_assoc, Nat.add_comm 1 k]
            exact hup
          split_ifs
          · exact List.mem_cons_of_mem _ hmem
          · exact hmem

theorem mem_rest {m : ProviderModelMapping} :
    m ∈ Surroundings.rest ms initial ↔ m ∈ ms ∧ m.provider ≠ initial.provider := by
  simp [Surroundings.rest]

theorem nodup_rest (h : ms.Nodup) : (Surroundings.rest ms initial).Nodup :=
  (List.perm_insertionSort ByOrder _).nodup_iff.mpr (h.filter _)

/-- The mappings beside those on the provider of the first choice. -/
theorem rest_perm (ms : List ProviderModelMapping) (initial : ProviderModelMapping) :
    ms.Perm (ms.filter (·.provider == initial.provider) ++ Surroundings.rest ms initial) := by
  have hsplit := List.filter_append_perm (·.provider == initial.provider) ms
  exact hsplit.symm.trans ((List.perm_insertionSort ByOrder _).symm.append_left _)

/-- Without a sibling of the first choice every mapping has its turn. -/
theorem cons_rest_perm (hnodup : ms.Nodup) (hinitial : initial ∈ ms)
    (halone : ∀ m ∈ ms, m.provider = initial.provider → m = initial) :
    (initial :: Surroundings.rest ms initial).Perm ms := by
  have hone : ms.filter (·.provider == initial.provider) = [initial] := by
    have hsub : ∀ m ∈ ms.filter (·.provider == initial.provider), m = initial := by
      intro m hm
      obtain ⟨hm, hprovider⟩ := List.mem_filter.mp hm
      exact halone m hm (beq_iff_eq.mp hprovider)
    have hmem : initial ∈ ms.filter (·.provider == initial.provider) :=
      List.mem_filter.mpr ⟨hinitial, beq_self_eq_true _⟩
    have hcount := (hnodup.filter (·.provider == initial.provider))
    obtain ⟨n, hn⟩ : ∃ n, ms.filter (·.provider == initial.provider) = List.replicate n initial :=
      ⟨_, List.eq_replicate_of_mem hsub⟩
    rw [hn] at hcount hmem ⊢
    have hle : n ≤ 1 := List.nodup_replicate.mp hcount
    have hpos : n ≠ 0 := fun hzero ↦ by simp [hzero] at hmem
    obtain rfl : n = 1 := by omega
    rfl
  have hperm := rest_perm ms initial
  rw [hone, List.singleton_append] at hperm
  exact hperm.symm

/-- An attempt for each mapping leaves no sibling of the first choice. -/
theorem alone_of_perm (hinitial : initial ∈ ms)
    (hperm : ((initial :: Surroundings.rest ms initial).map ProviderModelMapping.provider).Perm
      (ms.map ProviderModelMapping.provider)) :
    ∀ m ∈ ms, m.provider = initial.provider → m = initial := by
  intro m hm hprovider
  have hlength := hperm.length_eq
  have hsplit := (rest_perm ms initial).length_eq
  rw [List.length_map, List.length_map, List.length_cons] at hlength
  rw [List.length_append] at hsplit
  obtain ⟨a, ha⟩ := List.length_eq_one_iff.mp
    (by omega : (ms.filter (·.provider == initial.provider)).length = 1)
  have hmem : m ∈ ms.filter (·.provider == initial.provider) :=
    List.mem_filter.mpr ⟨hm, beq_iff_eq.mpr hprovider⟩
  have hmem' : initial ∈ ms.filter (·.provider == initial.provider) :=
    List.mem_filter.mpr ⟨hinitial, beq_self_eq_true _⟩
  rw [ha, List.mem_singleton] at hmem hmem'
  rw [hmem, hmem']

theorem fallsBack_of_wellCalled {ms' : List ProviderModelMapping}
    {result : Except RouteError ChatCompletionResponse} {c : Course}
    (hwell : WellCalled R ms' c.calls)
    (hcomplete : (∃ m ∈ ms, W.HealthyThroughout c m.provider ∧
      ∃ content, W.call m 0 = .response content) → W.Answered model ms result c)
    (hexhausted : W.Answered model ms result c ∨
      ∃ attempts, result = .error (.allProvidersExhausted attempts) ∧
        (attempts.map Attempt.provider).Perm (ms.map ProviderModelMapping.provider)) :
    FallsBack R W model ms result c :=
  ⟨hwell.healthy, hwell.bounded, hwell.one_turn, hcomplete, hexhausted⟩

theorem not_answered {e : RouteError} {c : Course} :
    ¬ W.Answered model ms (.error e) c := by
  rintro ⟨before, last, content, -, -, -, hresult⟩
  cases hresult

/-- A request with a first choice. -/
theorem fallsBack_selected_iff (hnodup : ms.Nodup) (hchoose : W.choose R model ms = .ok initial) :
    FallsBack R W model ms (W.serve R (R.executeSelected model ms)).1
        (W.serve R (R.executeSelected model ms)).2 ↔
      match (initial :: W.chain 0 (Surroundings.rest ms initial)).find?
          fun m ↦ !(W.turn R m).isGivesUp with
      | some m => ∃ content, W.turn R m = .answers content
      | none => ∀ m ∈ ms, m.provider = initial.provider → m = initial := by
  obtain ⟨hinitial, hhealthy⟩ := choose_ok hchoose
  have hnew : initial ∉ Surroundings.rest ms initial := fun h ↦ (mem_rest.mp h).2 rfl
  have hfollows : Surroundings.Follows W R model (initial :: Surroundings.rest ms initial)
      (initial :: W.chain 0 (Surroundings.rest ms initial)) [] []
      (0 + (Surroundings.rest ms initial).length) (W.serve R (R.executeSelected model ms)) := by
    rw [serve_executeSelected hchoose]
    refine Surroundings.follows_turn (c := ⟨W.first, 0, [], []⟩) hhealthy hnew (fun _ _ ↦ rfl)
      fun attempts c' hc' ↦ ?_
    have hnext := Surroundings.follows_fallBack (W := W) (R := R) model
      (nodup_rest hnodup : (Surroundings.rest ms initial).Nodup) attempts c'
    rw [hc'] at hnext
    exact hnext
  obtain ⟨new, hwell, hcalls, hends, hchecked⟩ := hfollows
  generalize W.serve R (R.executeSelected model ms) = x at hcalls hends hchecked
  obtain ⟨result, c⟩ := x
  dsimp only at hcalls hends hchecked ⊢
  rw [List.nil_append] at hcalls
  have hsub : ∀ m ∈ initial :: Surroundings.rest ms initial, m ∈ ms := by
    intro m hm
    rcases List.mem_cons.mp hm with rfl | hm
    · exact hinitial
    · exact (mem_rest.mp hm).1
  cases hfind : (initial :: W.chain 0 (Surroundings.rest ms initial)).find?
      fun m ↦ !(W.turn R m).isGivesUp with
  | some m =>
      have hgives : (W.turn R m).isGivesUp = false := by simpa using List.find?_some hfind
      dsimp only
      cases hturn : W.turn R m with
      | answers content =>
          obtain ⟨hresult, before, last, hnewcalls, hlast, hcall⟩ := hends.answers m content hfind hturn
          have hanswered : W.Answered model ms result c := by
            refine ⟨before, last, content, hcalls.trans hnewcalls, ?_, ?_, ?_⟩
            · have hmem : last ∈ new := by rw [hnewcalls]; simp
              exact hsub _ (hwell.mem last hmem)
            · rw [hlast]
              exact hcall
            · rw [hlast]
              exact hresult
          refine iff_of_true (fallsBack_of_wellCalled (by rw [hcalls]; exact hwell)
            (fun _ ↦ hanswered) (.inl hanswered)) ⟨content, rfl⟩
      | raises message =>
          have hresult := hends.raises m message hfind hturn
          refine iff_of_false (fun h ↦ ?_) (by simp)
          rcases h.exhausted with hanswered | ⟨attempts, hexhausted, -⟩
          · rw [hresult] at hanswered
            exact not_answered hanswered
          · cases hresult.symm.trans hexhausted
      | givesUp e =>
          rw [hturn] at hgives
          cases hgives
  | none =>
      obtain ⟨extra, hresult, hextra⟩ := hends.givesUp hfind
      rw [List.nil_append] at hresult
      have hall : ∀ m ∈ initial :: W.chain 0 (Surroundings.rest ms initial),
          (W.turn R m).isGivesUp = true := by
        intro m hm
        simpa using List.find?_eq_none.mp hfind m hm
      dsimp only
      constructor
      · intro h
        rcases h.exhausted with hanswered | ⟨attempts, hexhausted, hperm⟩
        · rw [hresult] at hanswered
          exact absurd hanswered not_answered
        · rw [hresult] at hexhausted
          obtain rfl := RouteError.allProvidersExhausted.inj (Except.error.inj hexhausted)
          rw [hextra] at hperm
          exact alone_of_perm hinitial hperm
      · intro halone
        refine fallsBack_of_wellCalled (by rw [hcalls]; exact hwell) ?_ (.inr ⟨extra, hresult, ?_⟩)
        · rintro ⟨m, hm, ⟨-, hchecks, -⟩, content, hcall⟩
          -- a sure success would have had its turn
          have hanswers : W.turn R m = .answers content := turn_of_response hcall
          have hturn : m ∈ initial :: W.chain 0 (Surroundings.rest ms initial) := by
            by_cases hprovider : m.provider = initial.provider
            · rw [halone m hm hprovider]
              exact List.mem_cons_self
            · obtain ⟨k, hk, hget⟩ := List.getElem_of_mem (mem_rest.mpr ⟨hm, hprovider⟩)
              refine List.mem_cons_of_mem _ (mem_chain (k := k) ?_ (hchecks _ ?_))
              · rw [List.getElem?_eq_getElem hk, hget]
              · rw [hchecked hall]
                omega
          have hgives := hall m hturn
          rw [hanswers] at hgives
          cases hgives
        · rw [hextra]
          exact (cons_rest_perm hnodup hinitial halone).map _

/-- A request falls back as promised exactly when its turns decide it, or no mapping shares the
provider of a first choice that fails. -/
theorem fallsBack_iff (hms : R.availableMappings model = some ms) :
    FallsBack R W model ms (W.serve R (R.executeWithFallback model)).1
      (W.serve R (R.executeWithFallback model)).2 ↔ W.Decides R model ms := by
  have hnodup := Router.nodup_availableMappings hms
  rw [serve_executeWithFallback hms, Surroundings.Decides]
  by_cases hne : ms = []
  · rw [if_pos hne]
    refine iff_of_false (fun h ↦ ?_) (fun h ↦ h.1 hne)
    rcases h.exhausted with hanswered | ⟨attempts, hexhausted, hperm⟩
    · exact not_answered hanswered
    · obtain rfl := RouteError.allProvidersExhausted.inj (Except.error.inj hexhausted)
      have hlength := hperm.length_eq
      rw [hne] at hlength
      cases hlength
  · rw [if_neg hne]
    cases hchoose : W.choose R model ms with
    | ok initial =>
        rw [fallsBack_selected_iff hnodup hchoose]
        exact (and_iff_right hne).symm
    | error e =>
        by_cases he : e = .noHealthyProvider
        · subst he
          rw [serve_executeSelected_noHealthy hchoose]
          refine iff_of_true (fallsBack_of_wellCalled (wellCalled_nil : WellCalled R ms []) ?_
            (.inr ⟨_, rfl, ?_⟩)) ⟨hne, trivial⟩
          · rintro ⟨m, hm, ⟨hup, -⟩, -⟩
            rw [choose_noHealthy hchoose hm] at hup
            cases hup
          · rw [List.map_map]
            exact (List.perm_insertionSort ByOrder ms).map _
        · rw [serve_executeSelected_error hchoose he]
          refine iff_of_false (fun h ↦ ?_) (fun h ↦ ?_)
          · rcases h.exhausted with hanswered | ⟨attempts, hexhausted, -⟩
            · exact not_answered hanswered
            · rw [Except.error.inj hexhausted] at hchoose
              exact choose_ne_exhausted attempts hchoose
          · have hfalse := h.2
            cases e with
            | noHealthyProvider => exact he rfl
            | _ => exact hfalse

end Requests

/-- Two mappings of a model, the second on the given provider. -/
def twoMappings (second : String) : Router where
  modelRegistry :=
    { models := [{ name := "m",
                   providers := [⟨0, "a", "x", 1, 0, none⟩, ⟨1, second, "y", 1, 1, none⟩],
                   distinct := by simp }]
      distinct := List.nodup_singleton _ }

def allUp : Moment := ⟨0, fun _ ↦ none, fun _ ↦ [], fun _ ↦ 0, fun _ ↦ 0, []⟩

/-- Every provider is up, and the first mapping refuses the request for good. -/
def allRefused : Surroundings where
  first := allUp
  checks _ := allUp
  call m _ := if m.ref = 0 then .providerError { statusCode := 400, message := "refused" }
    else .response "Hello."

theorem fallsBack_twoProviders :
    FallsBack (twoMappings "b") allRefused "m" [⟨0, "a", "x", 1, 0, none⟩, ⟨1, "b", "y", 1, 1, none⟩]
      (allRefused.serve (twoMappings "b") ((twoMappings "b").executeWithFallback "m")).1
      (allRefused.serve (twoMappings "b") ((twoMappings "b").executeWithFallback "m")).2 :=
  (fallsBack_iff rfl).mpr ⟨by simp, "Hello.", rfl⟩

/-- The second mapping of the provider would have answered. -/
theorem not_fallsBack_oneProvider :
    ¬ FallsBack (twoMappings "a") allRefused "m"
      [⟨0, "a", "x", 1, 0, none⟩, ⟨1, "a", "y", 1, 1, none⟩]
      (allRefused.serve (twoMappings "a") ((twoMappings "a").executeWithFallback "m")).1
      (allRefused.serve (twoMappings "a") ((twoMappings "a").executeWithFallback "m")).2 := by
  intro h
  obtain ⟨before, last, content, -, -, -, hresult⟩ := h.complete
    ⟨⟨1, "a", "y", 1, 1, none⟩, by simp, ⟨rfl, fun _ _ ↦ rfl, by decide +kernel⟩, "Hello.", rfl⟩
  have hnone : (allRefused.serve (twoMappings "a")
      ((twoMappings "a").executeWithFallback "m")).1.toOption = none := by decide +kernel
  rw [hresult] at hnone
  cases hnone

end AxonGateway.Routing
