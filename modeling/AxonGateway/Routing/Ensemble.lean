import AxonGateway.Lib.PyValue
import AxonGateway.Routing.Router

/-!
# The outcome and the cost of an ensemble

The members of a panel are called concurrently and record their usage as they come back, in any
order; what follows depends on how many came back and on the judge.  On every way out the decision
carries the cost of what was recorded, since the reserved budget is settled from it.
-/

namespace AxonGateway.Routing.Ensemble

open PyValue

/-! ### Presets -/

/-- What `validate_preset` checks. -/
structure Valid (preset : EnsemblePreset) : Prop where
  name_pos : 1 ≤ preset.name.length
  name_le : preset.name.length ≤ 128
  panel_pos : 1 ≤ preset.panel.length
  panel_le : preset.panel.length ≤ 10
  quorum_pos : 1 ≤ preset.quorum
  quorum_le : preset.quorum ≤ preset.panel.length
  policy : preset.fallbackPolicy = "best-single" ∨ preset.fallbackPolicy = "error"

structure ValidPreset extends EnsemblePreset where
  valid : Valid toEnsemblePreset

/-! ### Responses and usage -/

structure TokenUsage where
  promptTokens : ℕ
  completionTokens : ℕ
  totalTokens : ℕ
  cachedTokens : ℕ
  cacheCreationTokens : ℕ
  deriving DecidableEq

structure ChatCompletionResponse where
  id : String
  choices : List Value
  usage : TokenUsage
  model : String
  provider : String
  providerModel : Option String

structure UsageRecord where
  requestId : String
  projectId : Option String
  userId : Option String
  tenantId : Option String
  provider : String
  model : String
  promptTokens : ℕ
  completionTokens : ℕ
  totalTokens : ℕ
  cost : ℚ
  cachedTokens : ℕ
  cacheCreationTokens : ℕ

/-- `calculate_cost` of the cost tracker: of a provider, a model, the prompt and completion tokens,
and the cached and cache creation tokens. -/
abbrev Pricing := String → String → ℕ → ℕ → ℕ → ℕ → ℚ

structure PanelMemberResult where
  model : String
  status : String
  response : Option ChatCompletionResponse := none
  cost : ℚ := 0
  failureReason : Option String := none

/-- How the call of a panel member ends. -/
inductive MemberOutcome where
  | success (response : ChatCompletionResponse)
  | timeout
  | exhausted (reason : String)
  | raised

inductive JudgeOutcome where
  | success (response : ChatCompletionResponse)
  | exhausted (reason : String)
  | raised

structure EnsembleDecision where
  presetName : String
  panelMembers : List String
  judgeModel : String
  succeeded : List String
  failed : List (String × Option String)
  quorumMet : Bool
  succeededCount : ℕ
  quorumThreshold : ℤ
  totalCost : ℚ
  costMultiplier : ℚ
  fallbackUsed : Bool := false
  judgeInvoked : Bool := false
  error : Option String := none

inductive EnsembleError where
  | access (model : String)
  | costCeiling (estimated ceiling : ℚ)
  | noSurvivors (decision : EnsembleDecision)
  | quorum (decision : EnsembleDecision)
  | synthesis (decision : EnsembleDecision)

abbrev Result := Except EnsembleError (Option ChatCompletionResponse × EnsembleDecision)

/-- One request for an ensemble. -/
structure Request where
  preset : ValidPreset
  pricing : Pricing
  allowedModels : Option (List String)
  projectId : Option String
  userId : Option String
  tenantId : Option String
  perCallCostEstimate : ℚ

/-! ### Ranking -/

/-- `_extract_content` -/
def extractContent (result : PanelMemberResult) : Text :=
  match result.response.bind fun response ↦ response.choices.head? with
  | some (.obj choice) =>
      match choice.lookup "message".toList with
      | some (.obj message) =>
          match message.lookup "content".toList with
          | some (.str content) => content
          | _ => []
      | _ => []
  | _ => []

/-- `rank_survivors`; the sort is stable. -/
def rankSurvivors (survivors : List PanelMemberResult) (criteria : String) :
    List PanelMemberResult :=
  if criteria = "length" then
    survivors.insertionSort fun a b ↦ (extractContent b).length ≤ (extractContent a).length
  else survivors

/-- The survivor that comes first: the first one with the longest content. -/
def IsBest (criteria : String) (survivors : List PanelMemberResult) (best : PanelMemberResult) :
    Prop :=
  ∃ before after, survivors = before ++ best :: after ∧
    if criteria = "length" then
      (∀ r ∈ before, (extractContent r).length < (extractContent best).length) ∧
        ∀ r ∈ after, (extractContent r).length ≤ (extractContent best).length
    else before = []

namespace Request

variable (R : Request)

/-! ### The panel -/

def cost (response : ChatCompletionResponse) : ℚ :=
  R.pricing response.provider (response.providerModel.getD response.model)
    response.usage.promptTokens response.usage.completionTokens response.usage.cachedTokens
    response.usage.cacheCreationTokens

/-- The record that `_record_member_cost` makes of one successful call. -/
def usageRecord (model : String) (response : ChatCompletionResponse) : UsageRecord where
  requestId := response.id
  projectId := R.projectId
  userId := R.userId
  tenantId := R.tenantId
  provider := response.provider
  model := model
  promptTokens := response.usage.promptTokens
  completionTokens := response.usage.completionTokens
  totalTokens := response.usage.totalTokens
  cost := R.cost response
  cachedTokens := response.usage.cachedTokens
  cacheCreationTokens := response.usage.cacheCreationTokens

def succeeded (model : String) (response : ChatCompletionResponse) : PanelMemberResult where
  model := model
  status := "succeeded"
  response := some response
  cost := R.cost response

/-- What `_dispatch` returns for a member. -/
def memberResult (model : String) : MemberOutcome → PanelMemberResult
  | .success response => R.succeeded model response
  | .timeout => { model, status := "failed", failureReason := some "timeout (60s)" }
  | .exhausted reason => { model, status := "failed", failureReason := some reason }
  | .raised => { model, status := "failed", failureReason := some "provider execution failed" }

/-- Where the task of a member is. -/
inductive Member where
  | calling
  /-- The call has returned a response and its usage is not recorded yet. -/
  | returned (response : ChatCompletionResponse)
  | done (result : PanelMemberResult)

/-- The tasks that are gathered, and what they have recorded so far. -/
structure Panel where
  members : List Member
  records : List UsageRecord

def scatter : Panel := ⟨R.preset.panel.map fun _ ↦ .calling, []⟩

/-- The next thing that happens to one of the members. -/
inductive Step (outcome : ℕ → MemberOutcome) (panel : Panel) : Panel → Prop
  | fails (i : ℕ) (model : String) (hmodel : R.preset.panel[i]? = some model)
      (hmember : panel.members[i]? = some .calling) (hfails : ∀ r, outcome i ≠ .success r) :
      Step outcome panel
        ⟨panel.members.set i (.done (R.memberResult model (outcome i))), panel.records⟩
  | returns (i : ℕ) (response : ChatCompletionResponse)
      (hmember : panel.members[i]? = some .calling) (hsuccess : outcome i = .success response) :
      Step outcome panel ⟨panel.members.set i (.returned response), panel.records⟩
  | records (i : ℕ) (model : String) (response : ChatCompletionResponse)
      (hmodel : R.preset.panel[i]? = some model)
      (hmember : panel.members[i]? = some (.returned response)) :
      Step outcome panel ⟨panel.members.set i (.done (R.succeeded model response)),
        panel.records ++ [R.usageRecord model response]⟩

/-! ### The request -/

/-- `_build_decision` -/
def buildDecision (results : List PanelMemberResult) (panelCost : ℚ) : EnsembleDecision :=
  let survivors := results.filter fun r ↦ r.status = "succeeded"
  let failures := results.filter fun r ↦ r.status ≠ "succeeded"
  { presetName := R.preset.name
    panelMembers := results.map PanelMemberResult.model
    judgeModel := R.preset.judge
    succeeded := survivors.map PanelMemberResult.model
    failed := failures.map fun r ↦ (r.model, r.failureReason)
    quorumMet := R.preset.quorum ≤ survivors.length
    succeededCount := survivors.length
    quorumThreshold := R.preset.quorum
    totalCost := panelCost
    costMultiplier := R.preset.panel.length + 1 }

/-- `ensemble_route` from step 4 on: what comes out of it, and the records then. -/
def conclude (results : List PanelMemberResult) (judge : JudgeOutcome)
    (records : List UsageRecord) : Result × List UsageRecord :=
  let survivors := results.filter fun r ↦ r.status = "succeeded"
  let panelCost := (survivors.map PanelMemberResult.cost).sum
  let decision := R.buildDecision results panelCost
  match (rankSurvivors survivors R.preset.rankingCriteria).head? with
  | none => (.error (.noSurvivors { decision with error := some "no panel responses available" }),
      records)
  | some best =>
      if (survivors.length : ℤ) < R.preset.quorum then
        if R.preset.fallbackPolicy = "best-single" then
          (.ok (best.response, { decision with fallbackUsed := true }), records)
        else (.error (.quorum { decision with
          error := some s!"quorum not met: {survivors.length} < {R.preset.quorum}" }), records)
      else
        match judge with
        | .exhausted reason => (.error (.synthesis { decision with
            error := some ("judge synthesis failed: " ++ reason) }), records)
        | .raised => (.error (.synthesis { decision with
            error := some "judge synthesis failed" }), records)
        | .success response => (.ok (some response, { decision with
            judgeInvoked := true
            totalCost := panelCost + R.cost response }),
            records ++ [R.usageRecord R.preset.judge response])

/-- The first model that the caller may not use. -/
def denied : Option String :=
  R.allowedModels.bind fun allowed ↦ (R.preset.panel ++ [R.preset.judge]).find? (· ∉ allowed)

def estimatedCost : ℚ := (R.preset.panel.length + 1) * R.perCallCostEstimate

/-- `ensemble_route`: what comes out of it, and the usage that was recorded.  The tasks are gathered
once all of them are done. -/
inductive Routes (outcome : ℕ → MemberOutcome) (judge : JudgeOutcome) :
    Result → List UsageRecord → Prop
  | access (model : String) (hdenied : R.denied = some model) :
      Routes outcome judge (.error (.access model)) []
  | costCeiling (ceiling : ℚ) (hdenied : R.denied = none)
      (hceiling : R.preset.costCeiling = some ceiling) (hexceeds : ceiling < R.estimatedCost) :
      Routes outcome judge (.error (.costCeiling R.estimatedCost ceiling)) []
  | gathered (hdenied : R.denied = none)
      (hceiling : ∀ ceiling, R.preset.costCeiling = some ceiling → R.estimatedCost ≤ ceiling)
      (panel : Panel) (hrun : Relation.ReflTransGen (R.Step outcome) R.scatter panel)
      (results : List PanelMemberResult) (hdone : panel.members = results.map .done) :
      Routes outcome judge (R.conclude results judge panel.records).1
        (R.conclude results judge panel.records).2

end Request

/-- The decision that is returned or carried by the exception. -/
def decisionOf : Result → Option EnsembleDecision
  | .ok (_, decision) => some decision
  | .error (.access _) => none
  | .error (.costCeiling _ _) => none
  | .error (.noSurvivors decision) => some decision
  | .error (.quorum decision) => some decision
  | .error (.synthesis decision) => some decision

/-- The cost that `handle_chat_completion` settles the reserved budget with; nothing where it
releases the reservation. -/
def actualCost (result : Result) : Option ℚ := (decisionOf result).map EnsembleDecision.totalCost

/-! ### What the outcomes ask for -/

namespace Request

variable (R : Request)

/-- The members whose call succeeds, in the order of the panel. -/
def successes (outcome : ℕ → MemberOutcome) : List (String × ChatCompletionResponse) :=
  R.preset.panel.zipIdx.filterMap fun (model, i) ↦
    match outcome i with
    | .success response => some (model, response)
    | _ => none

/-- Nothing keeps the request from being dispatched. -/
def Admitted : Prop :=
  R.denied = none ∧ ∀ ceiling, R.preset.costCeiling = some ceiling → R.estimatedCost ≤ ceiling

/-- The calls that are made and succeed. -/
inductive Called (outcome : ℕ → MemberOutcome) (judge : JudgeOutcome) :
    List (String × ChatCompletionResponse) → Prop
  | refused (h : ¬ R.Admitted) : Called outcome judge []
  | panel (h : R.Admitted)
      (hjudge : (∀ response, judge ≠ .success response) ∨
        (R.successes outcome).length < R.preset.quorum) :
      Called outcome judge (R.successes outcome)
  | judge (h : R.Admitted) (response : ChatCompletionResponse) (hjudge : judge = .success response)
      (hquorum : R.preset.quorum ≤ (R.successes outcome).length) :
      Called outcome judge (R.successes outcome ++ [(R.preset.judge, response)])

variable {R} {outcome : ℕ → MemberOutcome} {judge : JudgeOutcome}

/-! ### The panel -/

/-- Where a task is agrees with how its call ends. -/
def Member.Fits (R : Request) (model : String) (outcome : MemberOutcome) : Member → Prop
  | .calling => True
  | .returned response => outcome = .success response
  | .done result => result = R.memberResult model outcome

/-- What a task has recorded. -/
def Member.recorded (R : Request) : Member → List UsageRecord
  | .done result => (result.response.map (R.usageRecord result.model)).toList
  | _ => []

structure Inv (R : Request) (outcome : ℕ → MemberOutcome) (panel : Panel) : Prop where
  length : panel.members.length = R.preset.panel.length
  fits : ∀ (i : ℕ) (model : String) (member : Member), R.preset.panel[i]? = some model →
    panel.members[i]? = some member → member.Fits R model (outcome i)
  records : panel.records.Perm (panel.members.flatMap (Member.recorded R))

theorem inv_scatter : Inv R outcome R.scatter where
  length := List.length_map _
  fits i model member _ hmember := by
    rw [scatter, List.getElem?_map] at hmember
    obtain ⟨_, _, rfl⟩ := Option.map_eq_some_iff.mp hmember
    trivial
  records := by
    have hnone : R.scatter.members.flatMap (Member.recorded R) = [] := by
      simp [scatter, Member.recorded]
    rw [hnone]
    exact List.Perm.refl _

/-- One task goes on: what it records is recorded once. -/
theorem Inv.set {panel : Panel} (h : Inv R outcome panel) {i : ℕ} {member : Member} (member' : Member)
    (hmember : panel.members[i]? = some member) (hnothing : member.recorded R = [])
    (hfits : ∀ model, R.preset.panel[i]? = some model → member'.Fits R model (outcome i)) :
    Inv R outcome ⟨panel.members.set i member', panel.records ++ member'.recorded R⟩ where
  length := by rw [List.length_set, h.length]
  fits j model other hmodel hother := by
    by_cases hj : i = j
    · subst hj
      have hlt := (List.getElem?_eq_some_iff.mp hmember).1
      rw [List.getElem?_set_self hlt] at hother
      obtain rfl := Option.some.inj hother
      exact hfits model hmodel
    · rw [List.getElem?_set_ne hj] at hother
      exact h.fits j model other hmodel hother
  records := by
    obtain ⟨hlt, hget⟩ := List.getElem?_eq_some_iff.mp hmember
    obtain ⟨before, after, hmembers, -, hset⟩ : ∃ before after,
        panel.members = before ++ panel.members[i] :: after ∧ before.length = i ∧
          panel.members.set i member' = before ++ member' :: after := List.exists_of_set hlt
    have hrecords := h.records
    rw [hmembers, hget] at hrecords
    simp only [List.flatMap_append, List.flatMap_cons, hnothing, List.nil_append] at hrecords
    rw [hset]
    simp only [List.flatMap_append, List.flatMap_cons]
    refine (hrecords.append_right _).trans ?_
    rw [List.append_assoc]
    exact List.perm_append_comm.append_left _

theorem Inv.step {panel panel' : Panel} (h : Inv R outcome panel)
    (hstep : R.Step outcome panel panel') : Inv R outcome panel' := by
  cases hstep with
  | fails i model hmodel hmember hfails =>
      have hset := h.set (.done (R.memberResult model (outcome i))) hmember rfl
        fun model' hmodel' ↦ by
          rw [hmodel] at hmodel'
          obtain rfl := Option.some.inj hmodel'
          rfl
      have hnone : (Member.done (R.memberResult model (outcome i))).recorded R = [] := by
        cases hout : outcome i with
        | success response => exact absurd hout (hfails response)
        | timeout => rfl
        | exhausted reason => rfl
        | raised => rfl
      rwa [hnone, List.append_nil] at hset
  | returns i response hmember hsuccess =>
      have hset := h.set (.returned response) hmember rfl fun _ _ ↦ hsuccess
      have hnone : (Member.returned response).recorded R = [] := rfl
      rwa [hnone, List.append_nil] at hset
  | records i model response hmodel hmember =>
      have hsuccess := h.fits i model _ hmodel hmember
      exact h.set (.done (R.succeeded model response)) hmember rfl
        fun model' hmodel' ↦ by
          rw [hmodel] at hmodel'
          obtain rfl := Option.some.inj hmodel'
          rw [Member.Fits, hsuccess]
          rfl

theorem inv_of_run {panel : Panel}
    (hrun : Relation.ReflTransGen (R.Step outcome) R.scatter panel) : Inv R outcome panel := by
  induction hrun with
  | refl => exact inv_scatter
  | tail _ hstep ih => exact ih.step hstep

/-- Once every task is done, each has the result of its call. -/
theorem Inv.results {panel : Panel} (h : Inv R outcome panel) {results : List PanelMemberResult}
    (hdone : panel.members = results.map .done) :
    results = R.preset.panel.zipIdx.map fun p ↦ R.memberResult p.1 (outcome p.2) := by
  have hlength : results.length = R.preset.panel.length := by
    rw [← h.length, hdone, List.length_map]
  refine List.ext_getElem? fun i ↦ ?_
  rw [List.getElem?_map, List.getElem?_zipIdx, Nat.zero_add]
  rcases lt_or_ge i results.length with hi | hi
  · have hmodel := List.getElem?_eq_getElem (hlength ▸ hi)
    have hmember : panel.members[i]? = some (.done results[i]) := by
      rw [hdone, List.getElem?_map, List.getElem?_eq_getElem hi]
      rfl
    have hresult := h.fits i _ _ hmodel hmember
    rw [hmodel, List.getElem?_eq_getElem hi, hresult]
    rfl
  · rw [List.getElem?_eq_none hi, List.getElem?_eq_none (hlength ▸ hi)]
    rfl

/-- What a list of results has recorded. -/
theorem flatMap_recorded (results : List PanelMemberResult) :
    (results.map Member.done).flatMap (Member.recorded R) =
      (results.filterMap fun r ↦ r.response.map fun response ↦ (r.model, response)).map
        fun c ↦ R.usageRecord c.1 c.2 := by
  induction results with
  | nil => rfl
  | cons result results ih =>
      rw [List.map_cons, List.flatMap_cons, ih]
      cases hresponse : result.response <;> simp [Member.recorded, hresponse]

theorem filterMap_memberResult (members : List (String × ℕ)) :
    (members.map fun p ↦ R.memberResult p.1 (outcome p.2)).filterMap
        (fun r ↦ r.response.map fun response ↦ (r.model, response)) =
      members.filterMap fun (model, i) ↦
        match outcome i with
        | .success response => some (model, response)
        | _ => none := by
  rw [List.filterMap_map]
  refine List.filterMap_congr fun p _ ↦ ?_
  rcases hout : outcome p.2 <;> simp [Request.memberResult, Request.succeeded, hout]

theorem filter_memberResult (members : List (String × ℕ)) :
    (members.map fun p ↦ R.memberResult p.1 (outcome p.2)).filter
        (fun r ↦ r.status = "succeeded") =
      (members.filterMap fun (model, i) ↦
        match outcome i with
        | .success response => some (model, response)
        | _ => none).map fun c ↦ R.succeeded c.1 c.2 := by
  induction members with
  | nil => rfl
  | cons p members ih =>
      rw [List.map_cons, List.filter_cons, ih]
      rcases hout : outcome p.2 <;>
        simp [Request.memberResult, Request.succeeded, hout]

/-! ### The best survivor -/

/-- The head of a stable sort is the first of the largest ones. -/
theorem head?_insertionSort {α : Type} (size : α → ℕ) {l : List α} {best : α}
    (h : (l.insertionSort fun a b ↦ size b ≤ size a).head? = some best) :
    ∃ before after, l = before ++ best :: after ∧ (∀ r ∈ before, size r < size best) ∧
      ∀ r ∈ after, size r ≤ size best := by
  induction l generalizing best with
  | nil => cases h
  | cons a l ih =>
      rw [List.insertionSort_cons] at h
      cases hsorted : List.insertionSort (fun a b ↦ size b ≤ size a) l with
      | nil =>
          have hnil : l = [] := by
            have hperm := List.perm_insertionSort (fun a b ↦ size b ≤ size a) l
            rw [hsorted] at hperm
            exact hperm.nil_eq.symm
          rw [hsorted, List.orderedInsert_nil] at h
          obtain rfl := Option.some.inj h
          exact ⟨[], l, rfl, by simp, by simp [hnil]⟩
      | cons x xs =>
          obtain ⟨before, after, rfl, hbefore, hafter⟩ := ih (by rw [hsorted, List.head?_cons])
          rw [hsorted, List.orderedInsert_cons] at h
          split_ifs at h with hle
          · obtain rfl := Option.some.inj h
            refine ⟨[], _, rfl, by simp, fun r hr ↦ ?_⟩
            rcases List.mem_append.mp hr with hr | hr
            · exact (hbefore r hr).le.trans hle
            · rcases List.mem_cons.mp hr with rfl | hr
              · exact hle
              · exact (hafter r hr).trans hle
          · obtain rfl := Option.some.inj h
            refine ⟨a :: before, after, rfl, fun r hr ↦ ?_, hafter⟩
            rcases List.mem_cons.mp hr with rfl | hr
            · exact not_le.mp hle
            · exact hbefore r hr

theorem head?_rankSurvivors {survivors : List PanelMemberResult} {criteria : String}
    {best : PanelMemberResult} (h : (rankSurvivors survivors criteria).head? = some best) :
    IsBest criteria survivors best := by
  unfold rankSurvivors at h
  split_ifs at h with hlength
  · obtain ⟨before, after, hsplit, hbefore, hafter⟩ :=
      head?_insertionSort (fun r ↦ (extractContent r).length) h
    exact ⟨before, after, hsplit, by rw [if_pos hlength]; exact ⟨hbefore, hafter⟩⟩
  · obtain ⟨after, rfl⟩ := List.head?_eq_some_iff.mp h
    exact ⟨[], after, rfl, by rw [if_neg hlength]⟩

theorem head?_rankSurvivors_eq_none {survivors : List PanelMemberResult} {criteria : String} :
    (rankSurvivors survivors criteria).head? = none ↔ survivors = [] := by
  unfold rankSurvivors
  split_ifs
  · rw [List.head?_eq_none_iff, ← List.length_eq_zero_iff, List.length_insertionSort,
      List.length_eq_zero_iff]
  · exact List.head?_eq_none_iff

/-! ### The outcome -/

/-- The ways in which `ensemble_route` ends once the panel is gathered, by the number of successful
members and the judge; `spent` is what the panel has cost. -/
inductive Concludes (R : Request) (survivors : List (String × ChatCompletionResponse))
    (judge : JudgeOutcome) (records : List UsageRecord) (spent : ℚ) :
    Result → List UsageRecord → Prop
  | noSurvivors (d : EnsembleDecision) (hnone : survivors = []) (hcost : d.totalCost = spent) :
      Concludes R survivors judge records spent (.error (.noSurvivors d)) records
  | bestSingle (d : EnsembleDecision) (best : PanelMemberResult) (hsome : 1 ≤ survivors.length)
      (hquorum : (survivors.length : ℤ) < R.preset.quorum)
      (hpolicy : R.preset.fallbackPolicy = "best-single")
      (hbest : IsBest R.preset.rankingCriteria (survivors.map fun c ↦ R.succeeded c.1 c.2) best)
      (hcost : d.totalCost = spent) (hused : d.fallbackUsed = true)
      (hjudge : d.judgeInvoked = false) :
      Concludes R survivors judge records spent (.ok (best.response, d)) records
  | quorum (d : EnsembleDecision) (hsome : 1 ≤ survivors.length)
      (hquorum : (survivors.length : ℤ) < R.preset.quorum)
      (hpolicy : R.preset.fallbackPolicy ≠ "best-single") (hcost : d.totalCost = spent) :
      Concludes R survivors judge records spent (.error (.quorum d)) records
  | synthesis (d : EnsembleDecision) (hsome : 1 ≤ survivors.length)
      (hquorum : R.preset.quorum ≤ survivors.length)
      (hjudge : ∀ response, judge ≠ .success response) (hcost : d.totalCost = spent) :
      Concludes R survivors judge records spent (.error (.synthesis d)) records
  | judge (d : EnsembleDecision) (response : ChatCompletionResponse)
      (hsome : 1 ≤ survivors.length) (hquorum : R.preset.quorum ≤ survivors.length)
      (hresponse : judge = .success response) (hcost : d.totalCost = spent + R.cost response)
      (hused : d.fallbackUsed = false) (hjudge : d.judgeInvoked = true) :
      Concludes R survivors judge records spent (.ok (some response, d))
        (records ++ [R.usageRecord R.preset.judge response])

theorem conclude_concludes {survivors : List (String × ChatCompletionResponse)}
    {results : List PanelMemberResult}
    (hsurvivors : results.filter (fun r ↦ r.status = "succeeded") =
      survivors.map fun c ↦ R.succeeded c.1 c.2) (records : List UsageRecord) :
    Concludes R survivors judge records (survivors.map fun c ↦ R.cost c.2).sum
      (R.conclude results judge records).1 (R.conclude results judge records).2 := by
  have hcost : ((results.filter fun r ↦ r.status = "succeeded").map PanelMemberResult.cost).sum =
      (survivors.map fun c ↦ R.cost c.2).sum := by
    rw [hsurvivors, List.map_map]
    rfl
  have hlength : (results.filter fun r ↦ r.status = "succeeded").length = survivors.length := by
    rw [hsurvivors, List.length_map]
  unfold conclude
  dsimp only
  rw [hcost, hlength]
  cases hhead : (rankSurvivors (results.filter fun r ↦ r.status = "succeeded")
      R.preset.rankingCriteria).head? with
  | none =>
      rw [head?_rankSurvivors_eq_none, hsurvivors, List.map_eq_nil_iff] at hhead
      exact .noSurvivors _ hhead rfl
  | some best =>
      have hbest := head?_rankSurvivors hhead
      have hsome : 1 ≤ survivors.length := by
        obtain ⟨before, after, hsplit, -⟩ := hbest
        rw [← hlength, hsplit, List.length_append, List.length_cons]
        omega
      rw [hsurvivors] at hbest
      by_cases hquorum : (survivors.length : ℤ) < R.preset.quorum
      · simp only [if_pos hquorum]
        split_ifs with hpolicy
        · exact .bestSingle _ best hsome hquorum hpolicy hbest rfl rfl rfl
        · exact .quorum _ hsome hquorum hpolicy rfl
      · simp only [if_neg hquorum]
        cases judge with
        | success response => exact .judge _ response hsome (not_lt.mp hquorum) rfl rfl rfl rfl
        | exhausted reason =>
            exact .synthesis _ hsome (not_lt.mp hquorum) (fun _ ↦ by simp) rfl
        | raised => exact .synthesis _ hsome (not_lt.mp hquorum) (fun _ ↦ by simp) rfl

/-! ### Every request ends -/

/-- The members when the first `n` of them are done. -/
def doneUpTo (R : Request) (outcome : ℕ → MemberOutcome) (n : ℕ) : List Member :=
  R.preset.panel.zipIdx.map fun p ↦
    if p.2 < n then .done (R.memberResult p.1 (outcome p.2)) else .calling

theorem getElem?_doneUpTo (n i : ℕ) :
    (doneUpTo R outcome n)[i]? = R.preset.panel[i]?.map fun model ↦
      if i < n then .done (R.memberResult model (outcome i)) else .calling := by
  rw [doneUpTo, List.getElem?_map, List.getElem?_zipIdx, Nat.zero_add, Option.map_map]
  rfl

theorem set_doneUpTo {n : ℕ} {model : String} (hmodel : R.preset.panel[n]? = some model)
    (member : Member) (hmember : member = .done (R.memberResult model (outcome n))) :
    (doneUpTo R outcome n).set n member = doneUpTo R outcome (n + 1) := by
  have hlt : n < (doneUpTo R outcome n).length := by
    rw [doneUpTo, List.length_map, List.length_zipIdx]
    exact (List.getElem?_eq_some_iff.mp hmodel).1
  refine List.ext_getElem? fun i ↦ ?_
  by_cases hi : n = i
  · subst hi
    rw [List.getElem?_set_self hlt, getElem?_doneUpTo, hmodel, hmember]
    simp
  · have hsame : i < n + 1 ↔ i < n := by omega
    rw [List.getElem?_set_ne hi, getElem?_doneUpTo, getElem?_doneUpTo]
    simp only [hsame]

/-- The members may come back one after the other. -/
theorem exists_run (n : ℕ) (hn : n ≤ R.preset.panel.length) :
    ∃ records, Relation.ReflTransGen (R.Step outcome) R.scatter ⟨doneUpTo R outcome n, records⟩ := by
  induction n with
  | zero =>
      have hstart : R.scatter = ⟨doneUpTo R outcome 0, []⟩ := by
        rw [scatter, doneUpTo]
        simp [List.map_const']
      exact ⟨[], hstart ▸ .refl⟩
  | succ n ih =>
      obtain ⟨records, hrun⟩ := ih (by omega)
      have hmodel := List.getElem?_eq_getElem (l := R.preset.panel) (i := n) (by omega)
      have hcalling : (doneUpTo R outcome n)[n]? = some .calling := by
        rw [getElem?_doneUpTo, hmodel]
        simp
      cases hout : outcome n with
      | success response =>
          have hreturned := hrun.tail (.returns n response hcalling hout)
          have hset : ((doneUpTo R outcome n).set n (.returned response))[n]? =
              some (.returned response) := List.getElem?_set_self (List.getElem?_eq_some_iff.mp hcalling).1
          have hrecorded := hreturned.tail (.records n _ response hmodel hset)
          rw [List.set_set, set_doneUpTo hmodel _ (by rw [hout]; rfl)] at hrecorded
          exact ⟨_, hrecorded⟩
      | _ =>
          have hfailed := hrun.tail (.fails n _ hmodel hcalling (by simp [hout]))
          rw [set_doneUpTo hmodel _ rfl] at hfailed
          exact ⟨_, hfailed⟩

theorem exists_routes (outcome : ℕ → MemberOutcome) (judge : JudgeOutcome) :
    ∃ result records, R.Routes outcome judge result records := by
  cases hdenied : R.denied with
  | some model => exact ⟨_, _, .access model hdenied⟩
  | none =>
      by_cases hceiling : ∀ ceiling, R.preset.costCeiling = some ceiling → R.estimatedCost ≤ ceiling
      · obtain ⟨records, hrun⟩ : ∃ records, Relation.ReflTransGen (R.Step outcome) R.scatter
            ⟨doneUpTo R outcome R.preset.panel.length, records⟩ := exists_run _ le_rfl
        refine ⟨_, _, .gathered hdenied hceiling _ hrun
          (R.preset.panel.zipIdx.map fun p ↦ R.memberResult p.1 (outcome p.2)) ?_⟩
        rw [doneUpTo, List.map_map]
        refine List.map_congr_left fun p hp ↦ ?_
        have hlt := List.snd_lt_of_mem_zipIdx hp
        simp only [Nat.add_zero] at hlt
        simp [hlt]
      · push Not at hceiling
        obtain ⟨ceiling, hceiling, hexceeds⟩ := hceiling
        exact ⟨_, _, .costCeiling ceiling hdenied hceiling hexceeds⟩

theorem sum_cost_usageRecord (calls : List (String × ChatCompletionResponse)) :
    ((calls.map fun c ↦ R.usageRecord c.1 c.2).map UsageRecord.cost).sum =
      (calls.map fun c ↦ R.cost c.2).sum := by
  rw [List.map_map]
  rfl

/-- How an ensemble request ends: refused before any call, or concluded from the successful members
with everything they cost recorded once. -/
theorem Routes.cases {result : Result} {records : List UsageRecord}
    (h : R.Routes outcome judge result records) :
    (¬ R.Admitted ∧ records = [] ∧ (∃ e, result = .error e) ∧ decisionOf result = none) ∨
    R.Admitted ∧ ∃ panelRecords : List UsageRecord,
      panelRecords.Perm ((R.successes outcome).map fun c ↦ R.usageRecord c.1 c.2) ∧
      Concludes R (R.successes outcome) judge panelRecords
        ((R.successes outcome).map fun c ↦ R.cost c.2).sum result records := by
  cases h with
  | access model hdenied =>
      refine .inl ⟨fun hadmitted ↦ ?_, rfl, ⟨_, rfl⟩, rfl⟩
      rw [hadmitted.1] at hdenied
      cases hdenied
  | costCeiling ceiling hdenied hceiling hexceeds =>
      exact .inl ⟨fun hadmitted ↦ not_le.mpr hexceeds (hadmitted.2 ceiling hceiling), rfl, ⟨_, rfl⟩,
        rfl⟩
  | gathered hdenied hceiling panel hrun results hdone =>
      have hinv := inv_of_run hrun
      have hresults := hinv.results hdone
      refine .inr ⟨⟨hdenied, hceiling⟩, panel.records, ?_, conclude_concludes ?_ _⟩
      · have hperm := hinv.records
        rw [hdone, flatMap_recorded, hresults, filterMap_memberResult] at hperm
        exact hperm
      · rw [hresults, filter_memberResult]
        rfl

/-- An ensemble request ends; it returns what the judge says, or the best survivor, or raises, by
the number of successful members.  Each successful call is recorded once, and the decision carries
their cost. -/
theorem ensembleRoute_spec (R : Request) (outcome : ℕ → MemberOutcome) (judge : JudgeOutcome) :
    (∃ result records, R.Routes outcome judge result records) ∧
    ∀ result records, R.Routes outcome judge result records →
      ((∃ response d, result = .ok (some response, d) ∧ d.judgeInvoked = true ∧
          judge = .success response) ↔
        R.Admitted ∧ R.preset.quorum ≤ (R.successes outcome).length ∧
          ∃ response, judge = .success response) ∧
      ((∃ best d, result = .ok (best.response, d) ∧ d.fallbackUsed = true ∧
          IsBest R.preset.rankingCriteria
            ((R.successes outcome).map fun c ↦ R.succeeded c.1 c.2) best) ↔
        R.Admitted ∧ 1 ≤ (R.successes outcome).length ∧
          ((R.successes outcome).length : ℤ) < R.preset.quorum ∧
          R.preset.fallbackPolicy = "best-single") ∧
      ((∃ e, result = .error e) ↔
        ¬ (R.Admitted ∧ R.preset.quorum ≤ (R.successes outcome).length ∧
          ∃ response, judge = .success response) ∧
        ¬ (R.Admitted ∧ 1 ≤ (R.successes outcome).length ∧
          ((R.successes outcome).length : ℤ) < R.preset.quorum ∧
          R.preset.fallbackPolicy = "best-single")) ∧
      (∃ calls, R.Called outcome judge calls ∧
        records.Perm (calls.map fun c ↦ R.usageRecord c.1 c.2)) ∧
      (∀ d, decisionOf result = some d → d.totalCost = (records.map UsageRecord.cost).sum) ∧
      (actualCost result = none → records = []) := by
  refine ⟨exists_routes outcome judge, fun result records h ↦ ?_⟩
  have hpos := R.preset.valid.quorum_pos
  rcases h.cases with ⟨hrefused, rfl, ⟨e, rfl⟩, hnone⟩ | ⟨hadmitted, panelRecords, hperm, hends⟩
  · simp [hrefused, hnone, Called.refused hrefused]
  · have hspent : (panelRecords.map UsageRecord.cost).sum =
        ((R.successes outcome).map fun c ↦ R.cost c.2).sum := by
      rw [(hperm.map _).sum_eq, sum_cost_usageRecord]
    cases hends with
    | noSurvivors d hnone hcost =>
        have hbelow : ((R.successes outcome).length : ℤ) < R.preset.quorum := by
          rw [hnone, List.length_nil]
          omega
        refine ⟨?_, ?_, ?_, ⟨_, .panel hadmitted (.inr hbelow), hperm⟩, ?_,
          by simp [actualCost, decisionOf]⟩
        · simp [not_le.mpr hbelow]
        · simp [hnone]
        · refine iff_of_true ⟨_, rfl⟩ ⟨fun hjudge ↦ not_le.mpr hbelow hjudge.2.1, fun hbest ↦ ?_⟩
          simp [hnone] at hbest
        · rintro _ ⟨⟩
          rw [hcost, hspent]
    | bestSingle d best hsome hbelow hpolicy hbest hcost hused hjudge =>
        refine ⟨?_, ?_, ?_, ⟨_, .panel hadmitted (.inr hbelow), hperm⟩, ?_,
          by simp [actualCost, decisionOf]⟩
        · simp [not_le.mpr hbelow, hjudge]
        · exact iff_of_true ⟨best, d, rfl, hused, hbest⟩ ⟨hadmitted, hsome, hbelow, hpolicy⟩
        · simp [hadmitted, hsome, hbelow, hpolicy]
        · rintro _ ⟨⟩
          rw [hcost, hspent]
    | quorum d hsome hbelow hpolicy hcost =>
        refine ⟨?_, ?_, ?_, ⟨_, .panel hadmitted (.inr hbelow), hperm⟩, ?_,
          by simp [actualCost, decisionOf]⟩
        · simp [not_le.mpr hbelow]
        · simp [hpolicy]
        · simp [not_le.mpr hbelow, hpolicy]
        · rintro _ ⟨⟩
          rw [hcost, hspent]
    | synthesis d hsome hquorum hjudge hcost =>
        refine ⟨?_, ?_, ?_, ⟨_, .panel hadmitted (.inl hjudge), hperm⟩, ?_,
          by simp [actualCost, decisionOf]⟩
        · simp [hjudge]
        · simp [not_lt.mpr hquorum]
        · simp [hjudge, not_lt.mpr hquorum]
        · rintro _ ⟨⟩
          rw [hcost, hspent]
    | judge d response hsome hquorum hresponse hcost hused hjudge =>
        refine ⟨?_, ?_, ?_, ⟨_, .judge hadmitted response hresponse hquorum, ?_⟩, ?_,
          by simp [actualCost, decisionOf]⟩
        · exact iff_of_true ⟨response, d, rfl, hjudge, hresponse⟩
            ⟨hadmitted, hquorum, response, hresponse⟩
        · simp [not_lt.mpr hquorum, hused]
        · simp [hadmitted, hquorum, hresponse]
        · rw [List.map_append]
          exact hperm.append_right _
        · rintro _ ⟨⟩
          rw [hcost, List.map_append, List.sum_append, hspent, List.map_singleton,
            List.sum_singleton]
          rfl

end Request

/-- A panel of two models that may answer with the better of them. -/
def pairPreset : ValidPreset where
  name := "pair"
  panel := ["small", "large"]
  judge := "large"
  quorum := 2
  fallbackPolicy := "best-single"
  valid := ⟨by decide, by decide, by decide, by decide, by decide, by decide, .inl rfl⟩

def pairRequest : Request where
  preset := pairPreset
  pricing := fun _ _ prompt completion _ _ ↦ prompt + completion
  allowedModels := none
  projectId := none
  userId := none
  tenantId := none
  perCallCostEstimate := 0

def smallResponse : ChatCompletionResponse where
  id := "r"
  choices := []
  usage := ⟨2, 3, 5, 0, 0⟩
  model := "small"
  provider := "openai"
  providerModel := none

/-- The first member answers and the second one is too slow. -/
def firstOnly : ℕ → MemberOutcome
  | 0 => .success smallResponse
  | _ => .timeout

theorem ensembleRoute_firstOnly : ∃ result records,
    pairRequest.Routes firstOnly .raised result records ∧
      (∃ (best : PanelMemberResult) (d : EnsembleDecision), result = .ok (best.response, d) ∧
        d.fallbackUsed = true ∧ d.totalCost = (records.map UsageRecord.cost).sum) := by
  have hreturned : pairRequest.Step firstOnly pairRequest.scatter
      ⟨[.returned smallResponse, .calling], []⟩ := .returns 0 smallResponse rfl rfl
  have hfailed : pairRequest.Step firstOnly ⟨[.returned smallResponse, .calling], []⟩
      ⟨[.returned smallResponse, .done (pairRequest.memberResult "large" .timeout)], []⟩ :=
    .fails 1 "large" rfl rfl (by simp [firstOnly])
  have hrecorded : pairRequest.Step firstOnly
      ⟨[.returned smallResponse, .done (pairRequest.memberResult "large" .timeout)], []⟩
      ⟨[.done (pairRequest.succeeded "small" smallResponse),
        .done (pairRequest.memberResult "large" .timeout)],
        [pairRequest.usageRecord "small" smallResponse]⟩ :=
    .records 0 "small" smallResponse rfl rfl
  have hroutes : pairRequest.Routes firstOnly .raised _ _ := .gathered rfl
    (by simp [pairRequest, pairPreset]) _
    (((Relation.ReflTransGen.single hreturned).tail hfailed).tail hrecorded)
    [pairRequest.succeeded "small" smallResponse, pairRequest.memberResult "large" .timeout] rfl
  obtain ⟨-, hbest, -, -, hcost, -⟩ :=
    (Request.ensembleRoute_spec pairRequest firstOnly .raised).2 _ _ hroutes
  obtain ⟨best, d, hresult, hused, -⟩ := hbest.mpr
    ⟨⟨rfl, by simp [pairRequest, pairPreset]⟩, by decide, by decide, rfl⟩
  exact ⟨_, _, hroutes, best, d, hresult, hused, hcost d (by rw [hresult]; rfl)⟩

end AxonGateway.Routing.Ensemble
