import AxonGateway.Audit.Trail
import AxonGateway.Lib.HashChain

/-!
# The chain of a tenant verifies

The committed records always form one chain up to the head.  The store hands
them out by time stamp, so the chain is found intact as long as each record is
committed with a later sort key than the ones before it.
-/

namespace AxonGateway.Audit

open Interleaving HashChain

variable {digest : Digest} {tenant : TenantId}

/-- The records are one chain from the start to the head, and whoever loads them
finds them so. -/
structure Verified (digest : Digest) (tenant : TenantId) (w : World) : Prop where
  chain : Linked Row.prevHash Row.recordHash genesisHash w.rows (w.head.getD genesisHash)
  head_eq_none_iff : w.head = none ↔ w.rows = []
  verifies : ∀ projectId : Option String,
    verifyPersistedChain digest tenant.id projectId genesisHash
        (some (w.loadTenantAuditRecords, w.head)) = {
      available := true, valid := true, checked := w.rows.length
      matched := w.rows.countP fun row ↦ projectId.all (· == row.projectId) }
  hydrates : ∃ records,
    hydrateRecords digest tenant.id w.loadTenantAuditRecords w.head =
      .ok (records, w.head.getD genesisHash) ∧ records.length = w.rows.length

/-- An append that meets the head it expects carries a later sort key than all
records on file. -/
def InOrder (_ : ℕ) : Op → World → Prop
  | .transactAppend row expected, w =>
      w.HeadIs expected → ∀ r ∈ w.rows, r.sortKey < row.sortKey
  | _, _ => True

/-- The row of a record of the tenant with its own hash. -/
def Genuine (digest : Digest) (tenant : TenantId) (row : Row) : Prop :=
  ∃ r : AuditRecord, row = serializeRecord r ∧ r.tenantId = tenant.id ∧
    r.recordHash = r.computeHash digest

structure Inv (digest : Digest) (tenant : TenantId) (w : World) : Prop where
  genuine : ∀ row ∈ w.rows, Genuine digest tenant row
  chain : Linked Row.prevHash Row.recordHash genesisHash w.rows (w.head.getD genesisHash)
  head_eq_none_iff : w.head = none ↔ w.rows = []
  sorted : w.rows.Pairwise fun a b ↦ a.sortKey < b.sortKey

/-! ## Loading and checking -/

theorem Inv.load {w : World} (hinv : Inv digest tenant w) :
    w.loadTenantAuditRecords = w.rows := by
  exact List.Pairwise.insertionSort_eq (hinv.sorted.imp fun h ↦ le_of_lt h)

section Check

variable {rows : List Row} {prev last : String}

/-- Genuine rows that are linked pass the check. -/
theorem verifyRows_of_linked (hrows : ∀ row ∈ rows, Genuine digest tenant row)
    (hlinked : Linked Row.prevHash Row.recordHash prev rows last) (projectId : Option String)
    (genesis : Bool) (checked matched : ℕ) :
    verifyRows digest tenant.id projectId genesis rows prev checked matched = .ok (last,
      checked + rows.length,
      matched + rows.countP fun row ↦ projectId.all (· == row.projectId)) := by
  induction rows generalizing prev checked matched with
  | nil =>
      obtain rfl : prev = last := hlinked
      rfl
  | cons row rows ih =>
      obtain ⟨r, rfl, htenant, hhash⟩ := hrows row List.mem_cons_self
      obtain ⟨hprev, hrest⟩ := hlinked
      have hprev' : r.prevHash = prev := hprev
      have hrest' : Linked Row.prevHash Row.recordHash r.recordHash rows last := hrest
      have hproject : (serializeRecord r).projectId = r.projectId := rfl
      rw [verifyRows, deserializeRecord_serializeRecord htenant tenant.notBlank]
      simp only [ne_eq, hhash.symm, hprev', not_true_eq_false, if_false]
      rw [ih (fun row hrow ↦ hrows row (List.mem_cons_of_mem _ hrow)) hrest', List.countP_cons,
        List.length_cons, hproject]
      split_ifs <;> simp only [Except.ok.injEq, Prod.mk.injEq, true_and] <;> omega

theorem mapM_deserializeRecord (hrows : ∀ row ∈ rows, Genuine digest tenant row) :
    ∃ records, rows.mapM (deserializeRecord · tenant.id) = some records ∧
      rows = records.map serializeRecord ∧ ∀ r ∈ records, r.recordHash = r.computeHash digest := by
  induction rows with
  | nil => exact ⟨[], rfl, rfl, by simp⟩
  | cons row rows ih =>
      obtain ⟨r, rfl, htenant, hhash⟩ := hrows row List.mem_cons_self
      obtain ⟨records, hmap, rfl, hhashes⟩ :=
        ih fun row hrow ↦ hrows row (List.mem_cons_of_mem _ hrow)
      refine ⟨r :: records, ?_, rfl, List.forall_mem_cons.mpr ⟨hhash, hhashes⟩⟩
      rw [List.mapM_cons, deserializeRecord_serializeRecord htenant tenant.notBlank, hmap]
      rfl

theorem followChain_of_linked {records : List AuditRecord}
    (hhashes : ∀ r ∈ records, r.recordHash = r.computeHash digest)
    (hlinked : Linked Row.prevHash Row.recordHash prev (records.map serializeRecord) last) :
    followChain digest records prev = .ok last := by
  induction records generalizing prev with
  | nil =>
      obtain rfl : prev = last := hlinked
      rfl
  | cons r records ih =>
      obtain ⟨hprev, hrest⟩ := hlinked
      have hprev' : r.prevHash = prev := hprev
      rw [followChain, if_neg (not_not.mpr hprev'),
        if_neg (not_not.mpr (hhashes r List.mem_cons_self))]
      exact ih (fun r hr ↦ hhashes r (List.mem_cons_of_mem _ hr)) hrest

end Check

theorem Inv.verified {w : World} (hinv : Inv digest tenant w) : Verified digest tenant w := by
  have hhead : w.rows ≠ [] → w.head = some (w.head.getD genesisHash) := by
    intro hrows
    cases hw : w.head with
    | none => exact absurd (hinv.head_eq_none_iff.mp hw) hrows
    | some head => rfl
  refine ⟨hinv.chain, hinv.head_eq_none_iff, fun projectId ↦ ?_, ?_⟩
  · rw [hinv.load, verifyPersistedChain,
      verifyRows_of_linked hinv.genuine hinv.chain projectId _ 0 0]
    have hgood : ¬ ((w.rows ≠ [] ∧ w.head ≠ some (w.head.getD genesisHash)) ∨
        (w.rows = [] ∧ w.head ≠ none)) := by
      rintro (⟨hrows, hne⟩ | ⟨hrows, hne⟩)
      · exact hne (hhead hrows)
      · exact hne (hinv.head_eq_none_iff.mpr hrows)
    simp only [if_neg hgood, Nat.zero_add]
  · obtain ⟨records, hmap, hrecords, hhashes⟩ := mapM_deserializeRecord hinv.genuine
    have hlinked := hinv.chain
    rw [hrecords] at hlinked
    refine ⟨records, ?_, by rw [hrecords, List.length_map]⟩
    rw [hinv.load, hydrateRecords, hmap]
    simp only [followChain_of_linked hhashes hlinked]
    rw [if_neg]
    cases records with
    | nil =>
        rw [not_not]
        exact hinv.head_eq_none_iff.mpr hrecords
    | cons r records =>
        rw [not_not]
        exact hhead (by simp [hrecords])

/-! ## Appending -/

/-- Every row that a trail tries to append is genuine and names the hash it expects. -/
def Proper (digest : Digest) (tenant : TenantId) : Op → Prop
  | .transactAppend row expected => Genuine digest tenant row ∧ row.prevHash = expected
  | _ => True

theorem Inv.commit {w : World} (hinv : Inv digest tenant w) {row : Row} {expected : String}
    (hproper : Proper digest tenant (.transactAppend row expected)) (hhead : w.HeadIs expected)
    (horder : ∀ r ∈ w.rows, r.sortKey < row.sortKey) : Inv digest tenant (w.commit row) := by
  obtain ⟨hgenuine, hprev⟩ := hproper
  have hexpected : row.prevHash = w.head.getD genesisHash := by
    rcases hhead with h | ⟨h, rfl⟩
    · rw [hprev, h, Option.getD_some]
    · rw [hprev, h, Option.getD_none]
  refine ⟨?_, hinv.chain.append_singleton hexpected, by simp [World.commit], ?_⟩
  · intro r hr
    rcases List.mem_append.mp hr with hr | hr
    · exact hinv.genuine r hr
    · obtain rfl := List.mem_singleton.mp hr
      exact hgenuine
  · refine List.pairwise_append.mpr ⟨hinv.sorted, List.pairwise_singleton _ _, fun r hr r' hr' ↦ ?_⟩
    obtain rfl := List.mem_singleton.mp hr'
    exact horder r hr

/-- The step lemma. -/
theorem Inv.exec {i : ℕ} {o : Op} {w w' : World} {r : Ret o} (hinv : Inv digest tenant w)
    (h : Exec w o r w') (horder : InOrder i o w) (hproper : Proper digest tenant o) :
    Inv digest tenant w' := by
  cases h with
  | append row expected hnew hhead => exact hinv.commit hproper hhead (horder hhead)
  | append_lost row expected hnew hhead => exact hinv.commit hproper hhead (horder hhead)
  | _ => exact ⟨hinv.genuine, hinv.chain, hinv.head_eq_none_iff, hinv.sorted⟩

def protocol (digest : Digest) (tenant : TenantId) : Protocol World where
  inv := Inv digest tenant
  rely _ _ _ := True
  refl _ _ := trivial
  trans _ _ _ _ _ _ := trivial

abbrev machine (digest : Digest) (tenant : TenantId) : Machine Op Ret World :=
  ((trailService digest tenant).restrict InOrder).machine

section Programs

variable {i : ℕ} {w : World} {α β : Type}

abbrev Keeps (digest : Digest) (tenant : TenantId) (i : ℕ) (p : Program α) (w : World) : Prop :=
  Safe (machine digest tenant) (protocol digest tenant) i (fun _ _ ↦ True) p w

theorem keeps_done (a : α) : Keeps digest tenant i (.done a) w := Safe.done fun _ _ _ ↦ trivial

theorem keeps_call {o : Op} {k : Ret o → Program α} (hproper : Proper digest tenant o)
    (hk : ∀ r w', Keeps digest tenant i (k r) w') : Keeps digest tenant i (.call o k) w := by
  intro w₁ _ hinv r w' hexec
  exact ⟨hinv.exec hexec.1 hexec.2 hproper, fun _ _ ↦ trivial, hk r w'⟩

theorem Keeps.bind {p : Program α} {f : α → Program β} (h : Keeps digest tenant i p w)
    (hf : ∀ a w', Keeps digest tenant i (f a) w') : Keeps digest tenant i (p >>= f) w := by
  apply Safe.bind
  refine Safe.imp ?_ h
  exact fun a w' _ _ ↦ hf a w'

theorem genuine_link {r : AuditRecord} (htenant : r.tenantId = tenant.id) (expected : String) :
    Genuine digest tenant (serializeRecord (r.link digest expected)) :=
  ⟨r.link digest expected, rfl, htenant, rfl⟩

theorem initialize_keeps (j : ℕ) (tenantId : String) :
    Keeps digest tenant i (initializeTenantLocked j tenantId) w := by
  refine keeps_call trivial fun last w₁ ↦ ?_
  cases last with
  | some hash => exact keeps_done _
  | none =>
      refine keeps_call trivial fun head w₂ ↦ ?_
      cases head with
      | none => exact keeps_done _
      | some head => exact keeps_call trivial fun _ _ ↦ keeps_done _

theorem appendTenantAuditRecord_keeps {row : Row} {expected : String}
    (hproper : Proper digest tenant (.transactAppend row expected)) :
    Keeps digest tenant i (appendTenantAuditRecord row expected) w := by
  unfold appendTenantAuditRecord
  split_ifs
  · exact keeps_call hproper fun _ _ ↦ keeps_done _
  · exact keeps_done _

/-- Induction on the attempts that are left. -/
theorem appendAttempts_keeps (j attempts : ℕ) (again : Bool) {r : AuditRecord}
    (htenant : r.tenantId = tenant.id) :
    Keeps digest tenant i (appendAttempts digest j attempts again r) w := by
  induction attempts generalizing again r w with
  | zero => exact keeps_done _
  | succ attempts ih =>
      have htime : Keeps digest tenant i (takeTime again r.timestamp) w := by
        unfold takeTime
        split_ifs
        · exact keeps_call trivial fun _ _ ↦ keeps_done _
        · exact keeps_done _
      refine Keeps.bind htime fun timestamp w₁ ↦ ?_
      refine keeps_call trivial fun last w₂ ↦ ?_
      have hrow : Proper digest tenant (.transactAppend
          (serializeRecord ({ r with timestamp := timestamp }.link digest (last.getD genesisHash)))
          (last.getD genesisHash)) :=
        ⟨genuine_link (r := { r with timestamp := timestamp }) htenant _, rfl⟩
      change Keeps digest tenant i (appendTenantAuditRecord _ _ >>= _) w₂
      refine Keeps.bind (appendTenantAuditRecord_keeps hrow) fun appended w₃ ↦ ?_
      cases appended with
      | committed => exact keeps_done _
      | unavailable => exact keeps_done _
      | conflict =>
          refine keeps_call trivial fun head w₄ ↦ ?_
          cases head with
          | none => exact keeps_done _
          | some head => exact keeps_call trivial fun _ _ ↦ ih true htenant

theorem recordLocked_keeps (c : Call) :
    Keeps digest tenant i (recordLocked digest tenant.id c) w := by
  refine Keeps.bind (initialize_keeps c.trail tenant.id) fun initialized w₁ ↦ ?_
  cases initialized with
  | error e => exact keeps_done _
  | ok =>
      refine keeps_call trivial fun recordId w₂ ↦ keeps_call trivial fun timestamp w₃ ↦ ?_
      change Keeps digest tenant i (appendAttempts digest _ _ _ _ >>= _) w₃
      refine Keeps.bind (appendAttempts_keeps _ _ _ rfl) fun appended w₄ ↦ ?_
      cases appended with
      | error e => exact keeps_done _
      | ok r => exact keeps_call trivial fun _ _ ↦ keeps_done _

theorem record_keeps (c : Call) : Keeps digest tenant i (record digest tenant.id c) w :=
  keeps_call trivial fun _ _ ↦ (recordLocked_keeps c).bind fun _ _ ↦
    keeps_call trivial fun _ _ ↦ keeps_done _

end Programs

theorem obligations (digest : Digest) (tenant : TenantId) :
    Obligations ((trailService digest tenant).restrict InOrder) (protocol digest tenant)
      (fun _ _ ↦ True) (fun _ _ _ _ _ ↦ True) where
  pre_rely _ _ _ _ _ := trivial
  env w w' hinv henv := by
    obtain rfl : w = w' := henv
    exact ⟨hinv, fun _ ↦ trivial⟩
  start _ c _ _ _ _ := record_keeps c

theorem inv_start : Inv digest tenant start :=
  ⟨by simp [start], rfl, by simp [start], List.Pairwise.nil⟩

abbrev TrailPool := Pool Op Ret World Call (Except String AuditRecord)

/-- Any number of trails, clocks, conflicts and lost answers: as long as every
committed record sorts after the ones before it, the chain verifies in every
state. -/
theorem verified_of_inOrder {p : TrailPool}
    (hp : Reachable ((trailService digest tenant).restrict InOrder) start p) :
    Verified digest tenant p.state :=
  (Reachable.poolSafe (obligations digest tenant) inv_start (fun _ ↦ trivial) hp).inv.verified

/-! ## Two runs -/

/-- A stand-in for the hash that tells the records of the runs below apart. -/
def plainDigest : Digest := fun payload ↦ "sha256:" ++ payload.recordId

def acme : TenantId := ⟨"acme", by decide +kernel, by decide +kernel⟩

/-- How an operation turns out when nothing fails and thread `i` reads `clock i`. -/
def act (clock : ℕ → String) (i : ℕ) : (o : Op) → World → Option (Ret o × World)
  | .acquire j, w => if w.locked j then none
      else some ((), { w with locked := Function.update w.locked j true })
  | .release j, w => some ((), { w with locked := Function.update w.locked j false })
  | .lastHash j, w => some ((w.trails j).lastHash, w)
  | .setLastHash j hash, w =>
      some ((), w.setTrail j { w.trails j with lastHash := some hash })
  | .remember j record, w => some ((), w.setTrail j
      { lastHash := some record.recordHash, buffer := (w.trails j).buffer ++ [record] })
  | .now, w => some (clock i, w)
  | .newRecordId, w => some ("aud_" ++ toString i, w)
  | .getLatestTenantAuditHash, w => some (some w.head, w)
  | .transactAppend row expected, w =>
      if w.HeadIs expected then
        if row.sortKey ∈ w.rows.map Row.sortKey then some (.unavailable, w)
        else some (.committed, w.commit row)
      else some (.conflict, w)

theorem exec_act {clock : ℕ → String} {i : ℕ} {o : Op} {w w' : World} {r : Ret o}
    (h : act clock i o w = some (r, w')) : Exec w o r w' := by
  cases o with
  | acquire j =>
      dsimp only [act] at h
      split_ifs at h with hlocked
      cases h
      exact .acquire j (by simpa using hlocked)
  | release j =>
      cases h
      exact .release j
  | lastHash j =>
      cases h
      exact .lastHash j
  | setLastHash j hash =>
      cases h
      exact .setLastHash j hash
  | remember j record =>
      cases h
      exact .remember j record
  | now =>
      cases h
      exact .now (clock i)
  | newRecordId =>
      cases h
      exact .newRecordId _
  | getLatestTenantAuditHash =>
      cases h
      exact .getLatestTenantAuditHash
  | transactAppend row expected =>
      dsimp only [act] at h
      split_ifs at h with hhead hkey
      · cases h
        exact .append_failed row expected
      · cases h
        exact .append row expected hkey hhead
      · cases h
        exact .append_conflict row expected hhead

instance (i : ℕ) (o : Op) (w : World) : Decidable (InOrder i o w) := by
  cases o <;> unfold InOrder <;> infer_instance

/-- A record on one trail and then a record on another one, which meets the head
of the first. -/
def twoTrails (ok : ℕ → (o : Op) → World → Bool) (clock : ℕ → String) : TrailPool :=
  Pool.playTurns (record plainDigest "acme")
    (fun i o w ↦ if ok i o w then act clock i o w else none)
    (.start ⟨0, .authSuccess, "u", "p", "r", .null⟩ :: List.replicate 10 (.next 0) ++
      .start ⟨1, .authFailure, "u", "p", "r", .null⟩ :: List.replicate 10 (.next 1))
    ⟨start, []⟩

/-- The second trail's clock is ahead. -/
def aheadClock (i : ℕ) : String :=
  if i = 0 then "2026-08-07T00:00:01+00:00" else "2026-08-07T00:00:02+00:00"

/-- The second trail's clock is behind. -/
def behindClock (i : ℕ) : String :=
  if i = 0 then "2026-08-07T00:00:02+00:00" else "2026-08-07T00:00:01+00:00"

theorem verified_aheadClock :
    Verified plainDigest acme
        (twoTrails (fun i o w ↦ decide (InOrder i o w)) aheadClock).state ∧
      (twoTrails (fun i o w ↦ decide (InOrder i o w)) aheadClock).state.rows.length = 2 := by
  refine ⟨verified_of_inOrder ?_, by decide +kernel⟩
  refine Steps.playTurns (S := (trailService plainDigest acme).restrict InOrder)
    (fun i o w r w' h ↦ ?_) _ (fun _ _ _ ↦ trivial) _
  split_ifs at h with hok
  exact ⟨exec_act h, of_decide_eq_true hok⟩

/-- Two trails append one after the other, the second with a clock that is behind:
the store hands the records out in the wrong order and the chain does not verify. -/
theorem not_verified_behindClock :
    Reachable (trailService plainDigest acme) start
        (twoTrails (fun _ _ _ ↦ true) behindClock) ∧
      ¬ Verified plainDigest acme (twoTrails (fun _ _ _ ↦ true) behindClock).state := by
  constructor
  · exact Steps.playTurns (S := trailService plainDigest acme)
      (fun i o w r w' h ↦ exec_act (by simpa using h)) _ (fun _ _ _ ↦ trivial) _
  · intro hverified
    have hvalid := congrArg VerifyResult.valid (hverified.verifies none)
    revert hvalid
    decide +kernel

end AxonGateway.Audit
