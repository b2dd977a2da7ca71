import AxonGateway.Query.Cursor

/-!
# The claims of a page

A well-formed row that passes the filter is claimed, so a page claims the first ones up to its limit
and changes no other row.
-/

namespace AxonGateway.Query

open PyValue

/-! ### Well-formed rows -/

structure QueryTerminalAudit.WellFormed (a : QueryTerminalAudit) : Prop where
  terminal : a.status.isTerminal = true
  observed : ∀ n ∈ a.observedScanBytes, 0 ≤ n
  accounted : 0 ≤ a.accountedScanBytes
  engine : ∀ n ∈ a.engineExecutionMs, 0 ≤ n
  rows : ∀ n ∈ a.rowCount, 0 ≤ n
  bytes : ∀ n ∈ a.resultBytes, 0 ≤ n
  failureCode_ne : a.failureCode ≠ some []
  executionId_ne : a.executionId ≠ some []
  succeeded : a.status = .succeeded → a.failureCode = none
  failed : a.status ≠ .succeeded → a.failureCode ≠ none
  result : a.status ≠ .succeeded → a.rowCount = none ∧ a.truncated = none ∧ a.resultBytes = none

structure Lifecycle.WellFormed (sha256 : Text → Text) (key : Key) (l : Lifecycle) : Prop where
  key_eq : key = queryLifecycleKey sha256 l.tenantId l.projectId l.requestId
  texts : ∀ t ∈ [l.tenantId, l.projectId, l.requestId, l.principalId, l.datasourceId, l.querySha256,
    l.leaseToken], t ≠ [] ∧ t.length ≤ 2048
  windowStart : 0 ≤ l.windowStart
  leaseExpiresAt : 1 ≤ l.leaseExpiresAt
  projectSlot : 0 ≤ l.projectSlot
  principalSlot : 0 ≤ l.principalSlot
  reservedScanBytes : 1 ≤ l.reservedScanBytes
  executionId_ne : l.executionId ≠ some []
  accepted : l.status = .accepted → l.executionId = none
  running : l.status = .running → l.executionId ≠ none
  audit : l.status.isTerminal = true → ∃ a, l.terminalAudit = some a ∧ a.WellFormed ∧
    a.status = l.status ∧ a.executionId = l.executionId ∧
      a.accountedScanBytes ≤ l.reservedScanBytes

theorem require_of {ok : Prop} [Decidable ok] (h : ok) (message : String) :
    require ok message = .ok () := if_pos h

theorem QueryTerminalAudit.WellFormed.postInit {a : QueryTerminalAudit} (h : a.WellFormed) :
    a.postInit = .ok () := by
  have hobserved := h.observed
  have hengine := h.engine
  have hrows := h.rows
  have hbytes := h.bytes
  simp only [QueryTerminalAudit.postInit, require_of h.terminal, List.forIn_cons, List.forIn_nil,
    require_of hobserved, require_of hengine, require_of hrows, require_of hbytes,
    require_of h.accounted, require_of h.failureCode_ne, require_of h.executionId_ne,
    require_of h.succeeded, require_of h.failed, require_of h.result]
  rfl

theorem optionalInteger_of {value : Option ℤ} (h : ∀ n ∈ value, 0 ≤ n) (name : String) :
    optionalInteger name value = .ok () := by
  cases value with
  | none => rfl
  | some n => exact require_of (h n rfl) _

/-- The claim on a lifecycle. -/
def claimOf (l : Lifecycle) (claimToken : ℕ) : QueryLifecycleClaim where
  lease := l.toQueryAdmissionLease
  claimToken := claimToken
  status := l.status
  executionId := l.executionId
  terminalAudit := if l.status.isTerminal then l.terminalAudit else none

variable {sha256 : Text → Text} {key : Key} {l : Lifecycle}

theorem Lifecycle.WellFormed.terminalAudit (h : l.WellFormed sha256 key)
    (hpending : l.status.isTerminal = true → l.auditPending = true) :
    terminalAuditFromItem l = .ok (if l.status.isTerminal then l.terminalAudit else none) := by
  unfold terminalAuditFromItem
  split_ifs with hterminal
  · obtain ⟨a, ha, hwell, -⟩ := h.audit hterminal
    simp only [require_of (hpending hterminal), ha,
      optionalInteger_of hwell.observed, queryReconciliationInteger, require_of hwell.accounted,
      optionalInteger_of hwell.engine, optionalInteger_of hwell.rows,
      optionalInteger_of hwell.bytes, hwell.postInit]
    rfl
  · rfl

theorem QueryLifecycleClaim.postInit_ok {c : QueryLifecycleClaim} (hexecution : c.executionId ≠ some [])
    (hrunning : c.status = .running → c.executionId ≠ none)
    (haccepted : c.status = .accepted → c.executionId = none)
    (hactive : c.status.isTerminal = false → c.terminalAudit = none)
    (hterminal : c.status.isTerminal = true → ∃ a, c.terminalAudit = some a ∧ a.status = c.status ∧
      a.executionId = c.executionId ∧ a.accountedScanBytes ≤ c.lease.reservedScanBytes) :
    c.postInit = .ok () := by
  unfold QueryLifecycleClaim.postInit
  rw [require_of hexecution, require_of hrunning, require_of haccepted]
  cases hstatus : c.status.isTerminal with
  | false =>
      rw [hactive hstatus]
      rfl
  | true =>
      obtain ⟨a, ha, hsame, hid, hbytes⟩ := hterminal hstatus
      rw [ha]
      dsimp only
      rw [require_of hsame, require_of hid, require_of hbytes]
      rfl

theorem Lifecycle.WellFormed.postInit (h : l.WellFormed sha256 key) (claimToken : ℕ) :
    (claimOf l claimToken).postInit = .ok () := by
  refine QueryLifecycleClaim.postInit_ok h.executionId_ne h.running h.accepted ?_ ?_
  · intro hactive
    have hactive' : l.status.isTerminal = false := hactive
    exact if_neg (by rw [hactive']; exact Bool.false_ne_true)
  · intro hterminal
    obtain ⟨a, ha, -, haudit⟩ := h.audit hterminal
    exact ⟨a, (if_pos hterminal).trans ha, haudit⟩

theorem Lifecycle.WellFormed.claim (h : l.WellFormed sha256 key)
    (hpending : l.status.isTerminal = true → l.auditPending = true) (claimToken : ℕ) :
    lifecycleClaim sha256 key l claimToken = .ok (claimOf l claimToken) := by
  have htext : ∀ name, ∀ t ∈ [l.tenantId, l.projectId, l.requestId, l.principalId, l.datasourceId,
      l.querySha256, l.leaseToken], requiredString name t = .ok () :=
    fun name t ht ↦ require_of (h.texts t ht) _
  unfold lifecycleClaim queryReconciliationInteger
  rw [htext _ l.tenantId (by simp), htext _ l.projectId (by simp), htext _ l.requestId (by simp),
    htext _ l.principalId (by simp), htext _ l.datasourceId (by simp),
    htext _ l.querySha256 (by simp), htext _ l.leaseToken (by simp), require_of h.key_eq,
    require_of h.windowStart, require_of h.leaseExpiresAt, require_of h.projectSlot,
    require_of h.principalSlot, require_of h.reservedScanBytes, require_of h.executionId_ne,
    h.terminalAudit hpending]
  have hpost := h.postInit claimToken
  unfold claimOf at hpost ⊢
  change (do
    QueryLifecycleClaim.postInit _
    pure _ : Except String QueryLifecycleClaim) = _
  rw [hpost]
  rfl

/-! ### Claims on a page -/

/-- A row that the filter lets through is well-formed. -/
def Row.Good (sha256 : Text → Text) (now : ℤ) (row : Row) : Prop :=
  row.key.Legal ∧ ∀ l ∈ row.lifecycle, row.isEligible now = true → l.WellFormed sha256 row.key

section Claims

variable {owner : Text} {now claimExpiresAt : ℤ} {limit : ℕ} {row : Row} {table : List Row}

theorem Row.exists_of_isEligible (h : row.isEligible now = true) :
    ∃ l, row.lifecycle = some l ∧ l.isUnclaimed now = true ∧
      if l.status.isTerminal then l.auditPending = true else l.leaseExpiresAt ≤ now := by
  cases hrow : row.lifecycle with
  | none => simp [Row.isEligible, hrow] at h
  | some l =>
      simp only [Row.isEligible, hrow, Option.any_some, Bool.and_eq_true, Bool.or_eq_true,
        decide_eq_true_eq] at h
      obtain ⟨hstatus, hunclaimed⟩ := h
      refine ⟨l, rfl, hunclaimed, ?_⟩
      cases hs : l.status <;> simp_all [Status.isTerminal]

theorem find?_key (hnodup : (table.map Row.key).Nodup) (h : row ∈ table) :
    table.find? (fun r ↦ r.key = row.key) = some row := by
  induction table with
  | nil => cases h
  | cons r table ih =>
      rw [List.map_cons, List.nodup_cons] at hnodup
      rcases List.mem_cons.mp h with rfl | h
      · simp
      · have hne : ¬ r.key = row.key := fun heq ↦ hnodup.1 (heq ▸ List.mem_map_of_mem h)
        rw [List.find?_cons_of_neg (by simpa using hne), ih hnodup.2 h]

/-- The key of the row that a claim is about. -/
def claimKey (sha256 : Text → Text) (c : QueryLifecycleClaim) : Key :=
  queryLifecycleKey sha256 c.lease.tenantId c.lease.projectId c.lease.requestId

variable (owner claimExpiresAt limit) in
/-- The row is claimed, and the others stay as they are. -/
theorem claimItems_cons (hgood : row.Good sha256 now) (heligible : row.isEligible now = true)
    {p : Progress} (hmem : row ∈ p.table) (hnodup : (p.table.map Row.key).Nodup) (token : ℕ)
    (items : List Row) :
    ∃ (claimed : Row) (claim : QueryLifecycleClaim) (q : Progress),
      claimed.key = row.key ∧ claimKey sha256 claim = row.key ∧
      q = ⟨p.table.map fun r ↦ if r.key = row.key then claimed else r, p.claims ++ [claim],
        some row.key, p.stoppedBeforePageEnd⟩ ∧
      claimItems sha256 owner now claimExpiresAt limit token p (row :: items) =
        if limit ≤ p.claims.length + 1 then .ok { q with stoppedBeforePageEnd := !items.isEmpty }
        else claimItems sha256 owner now claimExpiresAt limit (token + 1) q items := by
  obtain ⟨l, hl, hunclaimed, hstatus⟩ := row.exists_of_isEligible heligible
  have hwell := hgood.2 l hl heligible
  have hpending : l.status.isTerminal = true → l.auditPending = true := by
    intro hterminal
    rwa [if_pos hterminal] at hstatus
  let marked : Lifecycle := { l with reconciliation := some ⟨token, owner, claimExpiresAt⟩ }
  have hmarked : marked.WellFormed sha256 row.key :=
    ⟨hwell.key_eq, hwell.texts, hwell.windowStart, hwell.leaseExpiresAt, hwell.projectSlot,
      hwell.principalSlot, hwell.reservedScanBytes, hwell.executionId_ne, hwell.accepted,
      hwell.running, hwell.audit⟩
  have hcandidate : queryReconciliationClaimFromItem sha256 row token = .ok (claimOf l token) := by
    rw [queryReconciliationClaimFromItem, hl]
    exact hwell.claim hpending token
  have hclaim : queryReconciliationClaimFromItem sha256 ⟨row.key, some marked⟩ token =
      .ok (claimOf l token) := hmarked.claim hpending token
  have hmark : markRow now (claimOf l token) ⟨token, owner, claimExpiresAt⟩ row =
      some ⟨row.key, some marked⟩ := by
    have hcondition : if (claimOf l token).status.isTerminal then l.auditPending = true
        else l.leaseExpiresAt ≤ now := hstatus
    simp only [markRow, hl, Option.bind_some]
    rw [if_pos ⟨rfl, rfl, by simpa using hcondition, hunclaimed⟩]
  have hupdate : updateItem row.key (markRow now (claimOf l token) ⟨token, owner, claimExpiresAt⟩)
      p.table = some (p.table.map fun r ↦ if r.key = row.key then ⟨row.key, some marked⟩ else r,
        ⟨row.key, some marked⟩) := by
    rw [updateItem, find?_key hnodup hmem, Option.bind_some, hmark]
    rfl
  refine ⟨⟨row.key, some marked⟩, claimOf l token, _, rfl, hwell.key_eq.symm, rfl, ?_⟩
  rw [claimItems, encode_of_legal hgood.1, hcandidate]
  dsimp only
  rw [hupdate]
  dsimp only
  rw [hclaim]
  simp [bind, Except.bind]

variable (owner claimExpiresAt) in
/-- The claims of a page, for the first rows that pass the filter. -/
theorem claimItems_spec (token : ℕ) {items : List Row} (hgood : ∀ row ∈ items, row.Good sha256 now)
    (heligible : ∀ row ∈ items, row.isEligible now = true) (hitems : (items.map Row.key).Nodup)
    {k : ℕ} {p : Progress} (hmem : ∀ row ∈ items, row ∈ p.table)
    (hnodup : (p.table.map Row.key).Nodup) (hk : p.claims.length + (k + 1) = limit)
    (hstopped : p.stoppedBeforePageEnd = false) :
    ∃ (f : Row → Row) (claims : List QueryLifecycleClaim) (q : Progress),
      claimItems sha256 owner now claimExpiresAt limit token p items = .ok q ∧
      q.table = p.table.map f ∧ (∀ row, (f row).key = row.key) ∧
      (∀ row, row.key ∉ (items.take (k + 1)).map Row.key → f row = row) ∧
      q.claims = p.claims ++ claims ∧
      claims.map (claimKey sha256) = (items.take (k + 1)).map Row.key ∧
      q.stoppedBeforePageEnd = decide (k + 1 < items.length) ∧
      (k + 1 < items.length →
        q.lastExaminedKey = (items.take (k + 1)).getLast?.map Row.key) := by
  induction items generalizing token k p with
  | nil =>
      exact ⟨id, [], p, rfl, by simp, fun _ ↦ rfl, fun _ _ ↦ rfl, by simp, rfl, hstopped, by simp⟩
  | cons row items ih =>
      obtain ⟨claimed, claim, q, hclaimed, hclaim, rfl, hstep⟩ :=
        claimItems_cons owner claimExpiresAt limit (hgood row List.mem_cons_self)
          (heligible row List.mem_cons_self) (hmem row List.mem_cons_self) hnodup token items
      rw [List.map_cons, List.nodup_cons] at hitems
      have hkeys : ∀ r : Row, (if r.key = row.key then claimed else r).key = r.key := by
        intro r
        split_ifs with heq
        · exact hclaimed.trans heq.symm
        · rfl
      rcases Nat.eq_zero_or_eq_succ_pred k with rfl | hsucc
      · rw [if_pos (by omega)] at hstep
        refine ⟨fun r ↦ if r.key = row.key then claimed else r, [claim], _, hstep, rfl, hkeys, ?_,
          rfl, by simp [hclaim], ?_, fun _ ↦ by simp⟩
        · intro r hr
          exact if_neg (by simpa using hr)
        · cases items <;> simp
      · obtain ⟨k, rfl⟩ : ∃ k', k = k' + 1 := ⟨_, hsucc⟩
        rw [if_neg (by omega)] at hstep
        have hrest : ∀ r ∈ items, (if r.key = row.key then claimed else r) = r :=
          fun r hr ↦ if_neg fun heq : r.key = row.key ↦ hitems.1 (heq ▸ List.mem_map_of_mem hr)
        have htable : ∀ r ∈ items,
            r ∈ p.table.map fun r ↦ if r.key = row.key then claimed else r :=
          fun r hr ↦ List.mem_map.mpr ⟨r, hmem r (List.mem_cons_of_mem _ hr), hrest r hr⟩
        have hnodup' : ((p.table.map fun r ↦ if r.key = row.key then claimed else r).map
            Row.key).Nodup := by
          rwa [List.map_map, show Row.key ∘ (fun r : Row ↦ if r.key = row.key then claimed else r) =
            Row.key from funext hkeys]
        obtain ⟨f, claims, q, hrun, hq, hf, hframe, hclaims, hnames, hstop, hlast⟩ :=
          ih (token + 1) (p := ⟨_, p.claims ++ [claim], some row.key, p.stoppedBeforePageEnd⟩)
            (fun r hr ↦ hgood r (List.mem_cons_of_mem _ hr))
            (fun r hr ↦ heligible r (List.mem_cons_of_mem _ hr)) hitems.2 htable hnodup'
            (show (p.claims ++ [claim]).length + (k + 1) = limit by
              rw [List.length_append, List.length_singleton]
              omega) hstopped
        refine ⟨fun r ↦ f (if r.key = row.key then claimed else r), claim :: claims, q,
          hstep.trans hrun, ?_, fun r ↦ (hf _).trans (hkeys r), ?_, ?_, ?_, ?_, ?_⟩
        · rw [hq, List.map_map]
          rfl
        · intro r hr
          rw [List.take_succ_cons, List.map_cons, List.mem_cons, not_or] at hr
          dsimp only
          rw [if_neg hr.1, hframe r hr.2]
        · rw [hclaims, List.append_assoc, List.singleton_append]
        · rw [List.map_cons, hnames, hclaim, List.take_succ_cons, List.map_cons]
        · rw [hstop, List.length_cons]
          simp
        · intro hlt
          rw [List.length_cons] at hlt
          cases items with
          | nil => simp at hlt
          | cons r items =>
              rw [hlast (by omega), List.take_succ_cons, List.take_succ_cons,
                List.take_succ_cons, List.getLast?_cons_cons]

end Claims

end AxonGateway.Query
