import AxonGateway.Lib.Interleaving

/-!
# A key-value table with atomic conditional writes

The table maps keys to typed rows.  A write names one key, a condition on the
row stored there and the row it leaves.  A transaction applies several writes
to distinct keys or, when one condition fails, none of them.  The store keeps
the committed transactions as a log next to the table: the log is what makes
statements about the past of a table expressible, no operation reads it.
-/

namespace ConditionalStore

open Interleaving

/-- Keys, the rows stored under them, and the conditional writes of a table. -/
structure Schema where
  Key : Type
  Row : Key → Type
  Write : Type
  key : Write → Key
  cond : (w : Write) → Option (Row (key w)) → Bool
  next : (w : Write) → Option (Row (key w)) → Option (Row (key w))
  sortKey : Key → String
  [decEq : DecidableEq Key]

attribute [instance] Schema.decEq

variable {S : Schema} {α : Type}

/-- A finite table. -/
abbrev Table (S : Schema) := AList S.Row

namespace Table

/-- Store a row, or delete what is stored. -/
def put (t : Table S) (k : S.Key) : Option (S.Row k) → Table S
  | some r => t.insert k r
  | none => t.erase k

@[simp] theorem lookup_put_self (t : Table S) (k : S.Key) (r : Option (S.Row k)) :
    (t.put k r).lookup k = r := by
  cases r with
  | none => exact AList.lookup_erase k t
  | some r => exact AList.lookup_insert t

theorem lookup_put_ne (t : Table S) {k k' : S.Key} (h : k' ≠ k) (r : Option (S.Row k)) :
    (t.put k r).lookup k' = t.lookup k' := by
  cases r with
  | none => exact AList.lookup_erase_ne h
  | some r => exact AList.lookup_insert_ne h

/-- The effect of one write, its condition aside. -/
def write (t : Table S) (w : S.Write) : Table S :=
  t.put (S.key w) (S.next w (t.lookup (S.key w)))

/-- The effect of several writes in order. -/
def applyAll (t : Table S) (ws : List S.Write) : Table S := ws.foldl write t

@[simp] theorem applyAll_nil (t : Table S) : t.applyAll [] = t := rfl

@[simp] theorem applyAll_cons (t : Table S) (w : S.Write) (ws : List S.Write) :
    t.applyAll (w :: ws) = (t.write w).applyAll ws := rfl

/-- Writes leave every key alone that none of them names. -/
theorem lookup_applyAll_of_notMem {t : Table S} {ws : List S.Write} {k : S.Key}
    (h : k ∉ ws.map S.key) : (t.applyAll ws).lookup k = t.lookup k := by
  induction ws generalizing t with
  | nil => rfl
  | cons w ws ih =>
      simp only [List.map_cons, List.mem_cons, not_or] at h
      rw [applyAll_cons, ih h.2]
      exact t.lookup_put_ne h.1 _

/-- Writes to distinct keys act on the rows that were stored before any of them. -/
theorem lookup_applyAll_of_mem {t : Table S} {ws : List S.Write}
    (hnd : (ws.map S.key).Nodup) {w : S.Write} (hw : w ∈ ws) :
    (t.applyAll ws).lookup (S.key w) = S.next w (t.lookup (S.key w)) := by
  induction ws generalizing t with
  | nil => simp at hw
  | cons v ws ih =>
      rw [List.map_cons, List.nodup_cons] at hnd
      rw [applyAll_cons]
      rcases List.mem_cons.mp hw with rfl | hw
      · rw [lookup_applyAll_of_notMem hnd.1]
        exact t.lookup_put_self _ _
      · have hne : S.key w ≠ S.key v := fun h ↦ hnd.1 (h ▸ List.mem_map_of_mem hw)
        rw [ih hnd.2 hw, write, t.lookup_put_ne hne]

/-- What holds between a row and each row that an accepted write makes of it
holds, key by key, between the tables before and after accepted writes. -/
theorem applyAll_rel {R : (k : S.Key) → Option (S.Row k) → Option (S.Row k) → Prop}
    (hrefl : ∀ k r, R k r r)
    (hwrite : ∀ w r, S.cond w r = true → R (S.key w) r (S.next w r)) {t : Table S}
    {ws : List S.Write} (hnd : (ws.map S.key).Nodup)
    (hcond : ∀ w ∈ ws, S.cond w (t.lookup (S.key w)) = true) (k : S.Key) :
    R k (t.lookup k) ((t.applyAll ws).lookup k) := by
  by_cases hk : k ∈ ws.map S.key
  · obtain ⟨w, hw, rfl⟩ := List.mem_map.mp hk
    rw [lookup_applyAll_of_mem hnd hw]
    exact hwrite w _ (hcond w hw)
  · rw [lookup_applyAll_of_notMem hk]
    exact hrefl k _

/-! ## Sums over a table -/

section Total

variable {M : Type} [AddCommGroup M]

/-- The sum of `f` over the stored rows. -/
def total (f : (k : S.Key) → S.Row k → M) (t : Table S) : M :=
  (t.entries.map fun x ↦ f x.1 x.2).sum

/-- The value of `f` at one key, zero where nothing is stored. -/
def valueAt (f : (k : S.Key) → S.Row k → M) (k : S.Key) : Option (S.Row k) → M
  | some r => f k r
  | none => 0

@[simp] theorem total_empty (f : (k : S.Key) → S.Row k → M) :
    total f (∅ : Table S) = 0 := rfl

theorem total_erase (f : (k : S.Key) → S.Row k → M) (t : Table S) (k : S.Key) :
    total f (t.erase k) = total f t - valueAt f k (t.lookup k) := by
  by_cases hk : k ∈ t.entries.keys
  · obtain ⟨r, l₁, l₂, -, hentries, herase⟩ := List.exists_of_kerase hk
    have hlookup : t.lookup k = some r :=
      AList.mem_lookup_iff.mpr (by rw [hentries]; simp)
    have hrest : (t.erase k).entries = l₁ ++ l₂ := herase
    simp only [total, hrest, hentries, hlookup, valueAt, List.map_append, List.map_cons,
      List.sum_append, List.sum_cons]
    abel
  · have hlookup : t.lookup k = none := AList.lookup_eq_none.mpr hk
    have hrest : (t.erase k).entries = t.entries := List.kerase_of_notMem_keys hk
    simp [total, hrest, hlookup, valueAt]

/-- Storing a row changes the sum at its key only. -/
theorem total_put (f : (k : S.Key) → S.Row k → M) (t : Table S) (k : S.Key)
    (r : Option (S.Row k)) :
    total f (t.put k r) = total f t - valueAt f k (t.lookup k) + valueAt f k r := by
  cases r with
  | none => simp [put, valueAt, total_erase]
  | some r =>
      have hinsert : total f (t.insert k r) = f k r + total f (t.erase k) := by
        simp [total, AList.insert, AList.erase, List.kinsert]
      rw [put, hinsert, total_erase]
      simp only [valueAt]
      abel

/-- Writes to distinct keys change the sum by the differences at their keys. -/
theorem total_applyAll (f : (k : S.Key) → S.Row k → M) {t : Table S} {ws : List S.Write}
    (hnd : (ws.map S.key).Nodup) :
    total f (t.applyAll ws) = total f t +
      (ws.map fun w ↦ valueAt f (S.key w) (S.next w (t.lookup (S.key w))) -
        valueAt f (S.key w) (t.lookup (S.key w))).sum := by
  induction ws generalizing t with
  | nil => simp
  | cons w ws ih =>
      rw [List.map_cons, List.nodup_cons] at hnd
      have hother : ∀ v ∈ ws, (t.write w).lookup (S.key v) = t.lookup (S.key v) := by
        intro v hv
        have hne : S.key v ≠ S.key w := fun h ↦ hnd.1 (h ▸ List.mem_map_of_mem hv)
        exact t.lookup_put_ne hne _
      have hmap : (ws.map fun v ↦
          valueAt f (S.key v) (S.next v ((t.write w).lookup (S.key v))) -
            valueAt f (S.key v) ((t.write w).lookup (S.key v))) =
          ws.map fun v ↦ valueAt f (S.key v) (S.next v (t.lookup (S.key v))) -
            valueAt f (S.key v) (t.lookup (S.key v)) :=
        List.map_congr_left fun v hv ↦ by rw [hother v hv]
      rw [applyAll_cons, ih hnd.2, hmap, write, total_put, List.map_cons, List.sum_cons]
      abel

theorem total_congr {f g : (k : S.Key) → S.Row k → M} {t : Table S}
    (h : ∀ k r, t.lookup k = some r → f k r = g k r) : total f t = total g t := by
  refine congrArg List.sum (List.map_congr_left fun x hx ↦ h x.1 x.2 ?_)
  exact AList.mem_lookup_iff.mpr hx

theorem total_eq_zero {f : (k : S.Key) → S.Row k → M} {t : Table S}
    (h : ∀ k r, t.lookup k = some r → f k r = 0) : total f t = 0 := by
  refine List.sum_eq_zero fun x hx ↦ ?_
  obtain ⟨e, he, rfl⟩ := List.mem_map.mp hx
  exact h e.1 e.2 (AList.mem_lookup_iff.mpr he)

section Order

variable [LinearOrder M] [IsOrderedAddMonoid M]

/-- One row's share is at most the sum when no share is negative. -/
theorem le_total {f : (k : S.Key) → S.Row k → M} {t : Table S}
    (hf : ∀ k r, t.lookup k = some r → 0 ≤ f k r) {k : S.Key} {r : S.Row k}
    (hk : t.lookup k = some r) : f k r ≤ total f t := by
  refine List.single_le_sum (fun x hx ↦ ?_) (f k r) ?_
  · obtain ⟨e, he, rfl⟩ := List.mem_map.mp hx
    exact hf e.1 e.2 (AList.mem_lookup_iff.mpr he)
  · exact List.mem_map.mpr ⟨⟨k, r⟩, AList.mem_lookup_iff.mp hk, rfl⟩

theorem total_nonneg {f : (k : S.Key) → S.Row k → M} {t : Table S}
    (hf : ∀ k r, t.lookup k = some r → 0 ≤ f k r) : 0 ≤ total f t := by
  refine List.sum_nonneg fun x hx ↦ ?_
  obtain ⟨e, he, rfl⟩ := List.mem_map.mp hx
  exact hf e.1 e.2 (AList.mem_lookup_iff.mpr he)

end Order

end Total

/-! ## Transactions -/

/-- All writes name distinct keys and all conditions hold. -/
def Accepts (t : Table S) (ws : List S.Write) : Prop :=
  (ws.map S.key).Nodup ∧ ∀ w ∈ ws, S.cond w (t.lookup (S.key w)) = true

instance (t : Table S) (ws : List S.Write) : Decidable (t.Accepts ws) :=
  inferInstanceAs (Decidable (_ ∧ _))

end Table

/-- Why a write was not carried out, as far as the caller can tell. -/
inductive StoreError where
  | conditionalCheckFailed
  | transactionCanceled (reasons : List Bool)
  | unavailable
  deriving DecidableEq, Repr

/-- A committed transaction: who issued it, its writes and the table it met. -/
structure Commit (S : Schema) where
  who : ℕ
  writes : List S.Write
  before : Table S

/-- The table with the log of its commits, the newest first, and the time. -/
structure Store (S : Schema) where
  table : Table S
  log : List (Commit S)
  clock : ℤ

namespace Store

def empty (S : Schema) : Store S := ⟨∅, [], 0⟩

def commit (s : Store S) (who : ℕ) (ws : List S.Write) : Store S :=
  { s with table := s.table.applyAll ws, log := ⟨who, ws, s.table⟩ :: s.log }

@[simp] theorem commit_table (s : Store S) (who : ℕ) (ws : List S.Write) :
    (s.commit who ws).table = s.table.applyAll ws := rfl

@[simp] theorem commit_log (s : Store S) (who : ℕ) (ws : List S.Write) :
    (s.commit who ws).log = ⟨who, ws, s.table⟩ :: s.log := rfl

@[simp] theorem commit_clock (s : Store S) (who : ℕ) (ws : List S.Write) :
    (s.commit who ws).clock = s.clock := rfl

/-- The answer to a transaction that is not accepted: one flag for each write,
or a plain refusal when two writes name one key. -/
def refusal (t : Table S) (ws : List S.Write) : StoreError :=
  if (ws.map S.key).Nodup then
    .transactionCanceled (ws.map fun w ↦ !S.cond w (t.lookup (S.key w)))
  else .unavailable

end Store

/-- A table is the result of the transactions in its log, each of which was
accepted by the table that it met. -/
def Logged : List (Commit S) → Table S → Prop
  | [], t => t = ∅
  | c :: l, t => t = c.before.applyAll c.writes ∧ c.before.Accepts c.writes ∧ Logged l c.before

theorem Logged.commit {s : Store S} (h : Logged s.log s.table) {ws : List S.Write}
    (hws : s.table.Accepts ws) (who : ℕ) :
    Logged (s.commit who ws).log (s.commit who ws).table :=
  ⟨rfl, hws, h⟩

/-- Induction over the log: what holds of the empty table and is kept by every
logged transaction holds of the table. -/
theorem Logged.induction {P : List (Commit S) → Table S → Prop} {l : List (Commit S)} {t : Table S}
    (h : Logged l t) (h0 : P [] ∅)
    (hstep : ∀ (c : Commit S) (l' : List (Commit S)), (c :: l') <:+ l → c.before.Accepts c.writes →
      Logged l' c.before → P l' c.before → P (c :: l') (c.before.applyAll c.writes)) : P l t := by
  induction l generalizing t with
  | nil =>
      obtain rfl : t = ∅ := h
      exact h0
  | cons c l ih =>
      obtain ⟨rfl, hacc, hrest⟩ := h
      refine hstep c l List.suffix_rfl hacc hrest (ih hrest fun c' l' hsuf ↦ ?_)
      exact hstep c' l' (hsuf.trans (List.suffix_cons c l))

/-- Each logged transaction was accepted by the result of those before it. -/
theorem Logged.of_mem {l : List (Commit S)} {t : Table S} (h : Logged l t) {c : Commit S}
    (hc : c ∈ l) : ∃ l', (c :: l') <:+ l ∧ c.before.Accepts c.writes ∧ Logged l' c.before := by
  induction l generalizing t with
  | nil => cases hc
  | cons d l ih =>
      obtain ⟨-, hacc, hrest⟩ := h
      rcases List.mem_cons.mp hc with rfl | hc
      · exact ⟨l, List.suffix_rfl, hacc, hrest⟩
      · obtain ⟨l', hsuffix, h'⟩ := ih hrest hc
        exact ⟨l', hsuffix.trans (List.suffix_cons d l), h'⟩

theorem Logged.table_unique {l : List (Commit S)} {t t' : Table S} (h : Logged l t)
    (h' : Logged l t') : t = t' := by
  cases l with
  | nil => exact Eq.trans h (Eq.symm h')
  | cons c l => exact h.1.trans h'.1.symm

/-! ## Operations -/

inductive Op (S : Schema) where
  | get (k : S.Key)
  | update (w : S.Write)
  | transact (ws : List S.Write)
  | query (p : S.Key → Bool) (start : Option S.Key)
  | scan (p : (k : S.Key) → S.Row k → Bool)

/-- The writes that an operation may commit. -/
def Op.writes : Op S → Option (List S.Write)
  | .update w => some [w]
  | .transact ws => some ws
  | _ => none

/-- What an operation may commit in the state it meets satisfies `extra`. -/
def Commits (extra : Commit S → Prop) (i : ℕ) (o : Op S) (s : Store S) : Prop :=
  ∀ ws, o.writes = some ws → s.table.Accepts ws → extra ⟨i, ws, s.table⟩

/-- The answers: a read returns the stored row, an update the new row, a query
one page with the key to continue after, a scan some of the matching rows. -/
def Ret : Op S → Type
  | .get k => Except StoreError (Option (S.Row k))
  | .update w => Except StoreError (Option (S.Row (S.key w)))
  | .transact _ => Except StoreError Unit
  | .query _ _ => Except StoreError (List (Sigma S.Row) × Option S.Key)
  | .scan _ => Except StoreError (List (Sigma S.Row))

/-- The key comes after the place where a page starts. -/
def After (start : Option S.Key) (k : S.Key) : Prop :=
  ∀ k₀, start = some k₀ → S.sortKey k₀ < S.sortKey k

/-- A page of the rows whose keys satisfy `p`: it misses no row between the
place where it starts and the key to continue after. -/
structure QueryPage (t : Table S) (p : S.Key → Bool) (start : Option S.Key)
    (items : List (Sigma S.Row)) (last : Option S.Key) : Prop where
  sound : ∀ x ∈ items, t.lookup x.1 = some x.2 ∧ p x.1 = true ∧ After start x.1
  complete : ∀ k r, t.lookup k = some r → p k = true → After start k →
    (∀ k₁, last = some k₁ → S.sortKey k ≤ S.sortKey k₁) → ⟨k, r⟩ ∈ items
  nodup : (items.map Sigma.fst).Nodup
  bounded : ∀ x ∈ items, ∀ k₁, last = some k₁ → S.sortKey x.1 ≤ S.sortKey k₁
  progress : ∀ k₁, last = some k₁ → k₁ ∈ items.map Sigma.fst

/-- A write succeeds, is refused, or (in a faulty store) is answered by an
error whether or not it took effect. -/
def Writes (faulty : Bool) (i : ℕ) (ws : List S.Write) {ρ : Type} (ok : ρ)
    (refused : StoreError) (s : Store S) (r : Except StoreError ρ) (s' : Store S) : Prop :=
  (s.table.Accepts ws ∧ r = .ok ok ∧ s' = s.commit i ws) ∨
  (¬ s.table.Accepts ws ∧ r = .error refused ∧ s' = s) ∨
  (faulty = true ∧ r = .error .unavailable ∧
    (s' = s ∨ s.table.Accepts ws ∧ s' = s.commit i ws))

/-- What an operation may answer and do. -/
def Exec (faulty : Bool) (i : ℕ) : (o : Op S) → Store S → Ret o → Store S → Prop
  | .get k, s, r, s' =>
      (r = .ok (s.table.lookup k) ∨ faulty = true ∧ r = .error .unavailable) ∧ s' = s
  | .update w, s, r, s' =>
      Writes faulty i [w] (S.next w (s.table.lookup (S.key w))) .conditionalCheckFailed s r s'
  | .transact ws, s, r, s' => Writes faulty i ws () (Store.refusal s.table ws) s r s'
  | .query p start, s, r, s' =>
      ((∃ items last, r = .ok (items, last) ∧ QueryPage s.table p start items last) ∨
        faulty = true ∧ r = .error .unavailable) ∧ s' = s
  | .scan p, s, r, s' =>
      ((∃ items, r = .ok items ∧ ∀ x ∈ items, s.table.lookup x.1 = some x.2 ∧ p x.1 x.2 = true) ∨
        faulty = true ∧ r = .error .unavailable) ∧ s' = s

/-- The store as a machine; `faulty` says whether operations may fail.  Between
the operations time passes. -/
def machine (S : Schema) (faulty : Bool) : Machine (Op S) Ret (Store S) where
  exec := Exec faulty
  env s s' := ∃ time, s.clock ≤ time ∧ s' = { s with clock := time }

theorem exec_restrict_true {faulty : Bool} {i : ℕ} {o : Op S} {s s' : Store S} {r : Ret o}
    (h : (machine S faulty).exec i o s r s') :
    ((machine S faulty).restrict (Commits fun _ ↦ True)).exec i o s r s' :=
  ⟨h, fun _ _ _ ↦ trivial⟩

/-- The log only grows, and without faults whatever is accepted is logged. -/
theorem Exec.log {faulty : Bool} {i : ℕ} {o : Op S} {s s' : Store S} {r : Ret o}
    (h : Exec faulty i o s r s') : s.log ⊆ s'.log ∧ (faulty = false → ∀ ws, o.writes = some ws →
      s.table.Accepts ws → ⟨i, ws, s.table⟩ ∈ s'.log) := by
  have hwrites : ∀ {ws : List S.Write} {ρ : Type} {ok : ρ} {refused : StoreError}
      {r : Except StoreError ρ}, Writes faulty i ws ok refused s r s' →
      s.log ⊆ s'.log ∧ (faulty = false → s.table.Accepts ws → ⟨i, ws, s.table⟩ ∈ s'.log) := by
    intro ws ρ ok refused r hw
    rcases hw with ⟨-, -, rfl⟩ | ⟨hnacc, -, rfl⟩ | ⟨hfaulty, -, hs'⟩
    · exact ⟨List.subset_cons_self _ _, fun _ _ ↦ List.mem_cons_self⟩
    · exact ⟨List.Subset.refl _, fun _ hacc ↦ absurd hacc hnacc⟩
    · refine ⟨?_, fun hf ↦ by rw [hfaulty] at hf; cases hf⟩
      rcases hs' with rfl | ⟨-, rfl⟩
      · exact List.Subset.refl _
      · exact List.subset_cons_self _ _
  cases o with
  | get k => exact ⟨by rw [h.2]; exact List.Subset.refl _, fun _ ws hws ↦ by cases hws⟩
  | update w =>
      refine ⟨(hwrites h).1, fun hf ws hws hacc ↦ ?_⟩
      obtain rfl := Option.some.inj hws
      exact (hwrites h).2 hf hacc
  | transact ws =>
      refine ⟨(hwrites h).1, fun hf ws' hws hacc ↦ ?_⟩
      obtain rfl := Option.some.inj hws
      exact (hwrites h).2 hf hacc
  | query p start => exact ⟨by rw [h.2]; exact List.Subset.refl _, fun _ ws hws ↦ by cases hws⟩
  | scan p => exact ⟨by rw [h.2]; exact List.Subset.refl _, fun _ ws hws ↦ by cases hws⟩

/-- Every operation keeps the table in step with its log. -/
theorem Exec.logged {faulty : Bool} {i : ℕ} {o : Op S} {s s' : Store S} {r : Ret o}
    (h : Exec faulty i o s r s') (hs : Logged s.log s.table) : Logged s'.log s'.table := by
  have hwrites : ∀ {ws : List S.Write} {ρ : Type} {ok : ρ} {refused : StoreError}
      {r : Except StoreError ρ}, Writes faulty i ws ok refused s r s' → Logged s'.log s'.table := by
    intro ws ρ ok refused r hw
    rcases hw with ⟨hacc, -, rfl⟩ | ⟨-, -, rfl⟩ | ⟨-, -, rfl | ⟨hacc, rfl⟩⟩
    · exact hs.commit hacc i
    · exact hs
    · exact hs
    · exact hs.commit hacc i
  cases o with
  | get k => exact h.2 ▸ hs
  | update w => exact hwrites h
  | transact ws => exact hwrites h
  | query p start => exact h.2 ▸ hs
  | scan p => exact h.2 ▸ hs

/-! ## Disciplines -/

/-- What the clients of a table agree on: which commits are proper, and how a row
may change under any accepted write. -/
structure Discipline (S : Schema) where
  proper : Commit S → Prop
  grows : (k : S.Key) → Option (S.Row k) → Option (S.Row k) → Prop
  refl : ∀ k r, grows k r r
  trans : ∀ k r₁ r₂ r₃, grows k r₁ r₂ → grows k r₂ r₃ → grows k r₁ r₃
  write : ∀ w r, S.cond w r = true → grows (S.key w) r (S.next w r)

namespace Discipline

/-- All commits are proper; the others append to the log, let rows change as
agreed and cannot turn time back. -/
def protocol (D : Discipline S) : Protocol (Store S) where
  inv s := Logged s.log s.table ∧ ∀ c ∈ s.log, D.proper c
  rely i s s' := (∃ new, s'.log = new ++ s.log ∧ ∀ c ∈ new, c.who ≠ i) ∧
    (∀ k, D.grows k (s.table.lookup k) (s'.table.lookup k)) ∧ s.clock ≤ s'.clock
  refl i s := ⟨⟨[], rfl, by simp⟩, fun k ↦ D.refl k _, le_rfl⟩
  trans := by
    rintro i s₁ s₂ s₃ ⟨⟨new, hnew, hwho⟩, hgrows, hclock⟩ ⟨⟨new', hnew', hwho'⟩, hgrows', hclock'⟩
    refine ⟨⟨new' ++ new, by rw [hnew', hnew, List.append_assoc], fun c hc ↦ ?_⟩,
      fun k ↦ D.trans k _ _ _ (hgrows k) (hgrows' k), hclock.trans hclock'⟩
    rcases List.mem_append.mp hc with hc | hc
    · exact hwho' c hc
    · exact hwho c hc

variable {D : Discipline S} {i : ℕ} {s s' : Store S}

theorem grows_commit {ws : List S.Write} (hacc : s.table.Accepts ws) (who : ℕ) (k : S.Key) :
    D.grows k (s.table.lookup k) ((s.commit who ws).table.lookup k) :=
  Table.applyAll_rel D.refl D.write hacc.1 hacc.2 k

/-- Rows change as agreed from any earlier table to the present one. -/
theorem grows_of_suffix (D : Discipline S) {l l' : List (Commit S)} {t t' : Table S}
    (h : Logged l t) (h' : Logged l' t') (hsuffix : l' <:+ l) (k : S.Key) :
    D.grows k (t'.lookup k) (t.lookup k) := by
  induction l generalizing t with
  | nil =>
      obtain rfl := List.suffix_nil.mp hsuffix
      rw [h'.table_unique h]
      exact D.refl k _
  | cons c l ih =>
      rcases List.suffix_cons_iff.mp hsuffix with rfl | hsuffix
      · rw [h'.table_unique h]
        exact D.refl k _
      · obtain ⟨rfl, hacc, hrest⟩ := h
        exact D.trans k _ _ _ (ih hrest hsuffix) (Table.applyAll_rel D.refl D.write hacc.1 hacc.2 k)

/-- The commits of one client, which the others leave alone. -/
def own (i : ℕ) (s : Store S) : List (Commit S) := s.log.filter fun c ↦ decide (c.who = i)

theorem own_rely (h : D.protocol.rely i s s') : own i s' = own i s := by
  obtain ⟨new, hnew, hwho⟩ := h.1
  rw [own, hnew, List.filter_append, List.filter_eq_nil_iff.mpr fun c hc ↦ by simp [hwho c hc]]
  rfl

theorem own_commit (ws : List S.Write) : own i (s.commit i ws) = ⟨i, ws, s.table⟩ :: own i s := by
  simp [own]

theorem mem_log_rely (h : D.protocol.rely i s s') {c : Commit S} (hc : c ∈ s.log) : c ∈ s'.log := by
  obtain ⟨new, hnew, -⟩ := h.1
  rw [hnew]
  exact List.mem_append_right _ hc

/-- Nothing that the environment does concerns a discipline. -/
theorem env_rely {faulty : Bool} (hinv : D.protocol.inv s) (h : (machine S faulty).env s s') :
    D.protocol.inv s' ∧ ∀ i, D.protocol.rely i s s' := by
  obtain ⟨time, htime, rfl⟩ := h
  exact ⟨hinv, fun i ↦ ⟨⟨[], rfl, by simp⟩, fun k ↦ D.refl k _, htime⟩⟩

end Discipline

/-! ## Running a program -/

/-- What a store without faults does, with every query answered in one page. -/
def step (i : ℕ) : (o : Op S) → Store S → Ret o × Store S
  | .get k, s => (.ok (s.table.lookup k), s)
  | .update w, s =>
      if s.table.Accepts [w] then
        (.ok (S.next w (s.table.lookup (S.key w))), s.commit i [w])
      else (.error .conditionalCheckFailed, s)
  | .transact ws, s =>
      if s.table.Accepts ws then (.ok (), s.commit i ws)
      else (.error (Store.refusal s.table ws), s)
  | .query p start, s =>
      (.ok (s.table.entries.filter fun x ↦
        p x.1 && start.all fun k₀ ↦ decide (S.sortKey k₀ < S.sortKey x.1), none), s)
  | .scan p, s => (.ok (s.table.entries.filter fun x ↦ p x.1 x.2), s)

theorem step_exec (faulty : Bool) (i : ℕ) (o : Op S) (s : Store S) :
    Exec faulty i o s (step i o s).1 (step i o s).2 := by
  cases o with
  | get k => exact ⟨.inl rfl, rfl⟩
  | update w =>
      by_cases h : s.table.Accepts [w]
      · simp [step, Exec, Writes, h]
      · simp [step, Exec, Writes, h]
  | transact ws =>
      by_cases h : s.table.Accepts ws
      · simp [step, Exec, Writes, h]
      · simp [step, Exec, Writes, h]
  | query p start =>
      refine ⟨.inl ⟨_, _, rfl, ?_⟩, rfl⟩
      have hafter : ∀ k, (start.all fun k₀ ↦ decide (S.sortKey k₀ < S.sortKey k)) = true ↔
          After start k := by
        intro k
        cases start <;> simp [After]
      refine ⟨fun x hx ↦ ?_, fun k r hk hp hstart _ ↦ ?_, ?_, by simp, by simp⟩
      · obtain ⟨hmem, hx⟩ := List.mem_filter.mp hx
        rw [Bool.and_eq_true, hafter] at hx
        exact ⟨AList.mem_lookup_iff.mpr hmem, hx.1, hx.2⟩
      · refine List.mem_filter.mpr ⟨AList.mem_lookup_iff.mp hk, ?_⟩
        rw [Bool.and_eq_true, hafter]
        exact ⟨hp, hstart⟩
      · exact s.table.keys_nodup.sublist (List.filter_sublist.map _)
  | scan p =>
      refine ⟨.inl ⟨_, rfl, fun x hx ↦ ?_⟩, rfl⟩
      obtain ⟨hmem, hx⟩ := List.mem_filter.mp hx
      exact ⟨AList.mem_lookup_iff.mpr hmem, hx⟩

/-- Run a program alone. -/
def run (i : ℕ) : Prog (Op S) Ret α → Store S → α × Store S
  | .done a, s => (a, s)
  | .call o k, s => run i (k (step i o s).1) (step i o s).2

theorem run_evals (faulty : Bool) (i : ℕ) (p : Prog (Op S) Ret α) (s : Store S) :
    Evals (machine S faulty) i p s (run i p s).1 (run i p s).2 := by
  induction p generalizing s with
  | done a => exact .done a s
  | call o k ih => exact .call o k s _ _ _ _ (step_exec faulty i o s) (ih _ _)

section Schedule

variable {Call : Type}

/-- A move of a schedule: a call starts, or a thread performs some operations. -/
inductive Move (Call : Type) where
  | start (c : Call)
  | run (i n : ℕ)

/-- One operation of a thread that has any left. -/
def advance (i : ℕ) (p : Pool (Op S) Ret (Store S) Call α) : Pool (Op S) Ret (Store S) Call α :=
  match p.threads[i]? with
  | some ⟨c, s₀, .call o k⟩ =>
      ⟨(step i o p.state).2, p.threads.set i ⟨c, s₀, k (step i o p.state).1⟩⟩
  | _ => p

def Move.apply (body : Call → Prog (Op S) Ret α) (p : Pool (Op S) Ret (Store S) Call α) :
    Move Call → Pool (Op S) Ret (Store S) Call α
  | .start c => ⟨p.state, p.threads ++ [⟨c, p.state, body c⟩]⟩
  | .run i n => (advance i)^[n] p

/-- The pool that a schedule leads to. -/
def play (body : Call → Prog (Op S) Ret α) (moves : List (Move Call))
    (p : Pool (Op S) Ret (Store S) Call α) : Pool (Op S) Ret (Store S) Call α :=
  moves.foldl (Move.apply body) p

variable {V : Service (Op S) Ret (Store S) Call α} {faulty : Bool}
  {p : Pool (Op S) Ret (Store S) Call α}

theorem steps_advance (hmachine : V.machine = machine S faulty) (i : ℕ) :
    Steps V p (advance i p) := by
  unfold advance
  split
  next c s₀ o k hi =>
    refine Relation.ReflTransGen.single (.run p i c s₀ o k _ _ hi ?_)
    rw [hmachine]
    exact step_exec faulty i o p.state
  · exact Relation.ReflTransGen.refl

theorem calls_advance (i : ℕ) : (advance i p).calls = p.calls := by
  unfold advance
  split
  next c s₀ o k hi =>
    obtain ⟨hlt, hget⟩ := List.getElem?_eq_some_iff.mp hi
    have hmap : i < (p.threads.map Thread.call).length := by rwa [List.length_map]
    have hcall : (p.threads.map Thread.call)[i] = c := by rw [List.getElem_map, hget]
    rw [Pool.calls, List.map_set, Pool.calls, ← hcall, List.set_getElem_self hmap]
  · rfl

/-- A schedule is a run when its calls are admitted next to each other. -/
theorem steps_play (hmachine : V.machine = machine S faulty) {cs : List Call}
    (hadmits : ∀ q c, q.calls ⊆ cs → c ∈ cs → V.admits q c) {moves : List (Move Call)}
    (hmoves : ∀ c, .start c ∈ moves → c ∈ cs) (hp : p.calls ⊆ cs) :
    Steps V p (play V.body moves p) := by
  induction moves generalizing p with
  | nil => exact Relation.ReflTransGen.refl
  | cons move moves ih =>
      have hrest : ∀ c, .start c ∈ moves → c ∈ cs :=
        fun c hc ↦ hmoves c (List.mem_cons_of_mem _ hc)
      cases move with
      | start c =>
          have hc : c ∈ cs := hmoves c List.mem_cons_self
          refine Relation.ReflTransGen.head (.start p c (hadmits p c hp hc)) (ih hrest ?_)
          simp only [Pool.calls, List.map_append, List.map_cons, List.map_nil]
          exact List.append_subset.mpr ⟨hp, List.cons_subset.mpr ⟨hc, List.nil_subset _⟩⟩
      | run i n =>
          have hrun : Steps V p ((advance i)^[n] p) ∧ ((advance i)^[n] p).calls = p.calls := by
            clear hmoves hrest ih hp
            induction n generalizing p with
            | zero => exact ⟨Relation.ReflTransGen.refl, rfl⟩
            | succ n ihn =>
                rw [Function.iterate_succ_apply]
                obtain ⟨hsteps, hcalls⟩ := ihn (p := advance i p)
                exact ⟨Relation.ReflTransGen.trans (steps_advance hmachine i) hsteps,
                  hcalls.trans (calls_advance i)⟩
          exact Relation.ReflTransGen.trans hrun.1 (ih hrest (hrun.2 ▸ hp))

/-- A run without faults is restricted as all its commits are. -/
theorem steps_restrict (hmachine : V.machine = machine S false) {extra : Commit S → Prop}
    {q : Pool (Op S) Ret (Store S) Call α} (h : Steps V p q) (hlog : ∀ c ∈ q.state.log, extra c) :
    Steps (V.restrict (Commits extra)) p q := by
  induction h with
  | refl => exact Relation.ReflTransGen.refl
  | @tail q q' _ hstep ih =>
      cases hstep with
      | start c hc => exact Relation.ReflTransGen.tail (ih hlog) (.start q c hc)
      | run i c s₀ o k r s' hi hexec =>
          have hexec' : Exec false i o q.state r s' := by
            rw [hmachine] at hexec
            exact hexec
          obtain ⟨hsub, hmem⟩ := hexec'.log
          refine Relation.ReflTransGen.tail (ih fun c hc ↦ hlog c (hsub hc)) ?_
          refine .run q i c s₀ o k r s' hi ⟨hexec, fun ws hws hacc ↦ hlog _ (hmem rfl ws hws hacc)⟩
      | env s' henv =>
          have hlog' : s'.log = q.state.log := by
            rw [hmachine] at henv
            obtain ⟨time, -, rfl⟩ := henv
            rfl
          refine Relation.ReflTransGen.tail (ih fun c hc ↦ hlog c ?_) (.env q s' henv)
          exact hlog' ▸ hc

end Schedule

/-! ## Clients -/

/-- What interrupts a client: an error of the store or one of its own. -/
inductive Failure where
  | store (e : StoreError)
  | raised (message : String)
  deriving DecidableEq, Repr

/-- The failure is a failed condition of the write with the given number. -/
def Failure.conditionFailed : Failure → ℕ → Bool
  | .store .conditionalCheckFailed, _ => true
  | .store (.transactionCanceled reasons), n => reasons.getD n false
  | _, _ => false

/-- Programs over the store that a failure interrupts. -/
abbrev Client (S : Schema) (α : Type) := ExceptT Failure (Prog (Op S) Ret) α

namespace Client

/-- Perform an operation; an error of the store is a failure of the client. -/
def perform {ρ : Type} (o : Op S) (answer : Ret o → Except StoreError ρ) : Client S ρ :=
  ExceptT.mk (.call o fun r ↦ .done ((answer r).mapError .store))

def get (k : S.Key) : Client S (Option (S.Row k)) := perform (.get k) id

def update (w : S.Write) : Client S (Option (S.Row (S.key w))) := perform (.update w) id

def transact (ws : List S.Write) : Client S Unit := perform (.transact ws) id

def query (p : S.Key → Bool) (start : Option S.Key) :
    Client S (List (Sigma S.Row) × Option S.Key) := perform (.query p start) id

def scan (p : (k : S.Key) → S.Row k → Bool) : Client S (List (Sigma S.Row)) := perform (.scan p) id

def raise (message : String) : Client S α := throw (.raised message)

/-- Run a client up to its end or its failure, without failing. -/
def attempt (x : Client S α) : Client S (Except Failure α) :=
  ExceptT.mk (x.run >>= fun r ↦ .done (.ok r))

@[simp] theorem pure_bind {β : Type} (a : α) (f : α → Client S β) :
    ((pure a : Client S α) >>= f) = f a := rfl

@[simp] theorem throw_bind {β : Type} (e : Failure) (f : α → Client S β) :
    ((throw e : Client S α) >>= f) = throw e := rfl

end Client

/-! ### Interleaved clients -/

section Holds

variable {faulty : Bool} {extra : Commit S → Prop} {P : Protocol (Store S)} {i : ℕ} {s s' : Store S} {β : Type}
  {E : Failure → Store S → Prop}

/-- The client number `i` is safe from `s`: it ends with `Q`, or with `E` when it
fails, in every run whose commits satisfy `extra`. -/
def Holds (faulty : Bool) (extra : Commit S → Prop) (P : Protocol (Store S)) (i : ℕ)
    (E : Failure → Store S → Prop) (Q : α → Store S → Prop) (x : Client S α) (s : Store S) : Prop :=
  Safe ((machine S faulty).restrict (Commits extra)) P i
    (fun r s₁ ↦ match r with
      | .ok a => Q a s₁
      | .error e => E e s₁) x.run s

theorem Holds.rely {Q : α → Store S → Prop} {x : Client S α} (h : Holds faulty extra P i E Q x s)
    (hs : P.rely i s s') : Holds faulty extra P i E Q x s' := Safe.rely h hs

theorem Holds.imp {E' : Failure → Store S → Prop} {Q Q' : α → Store S → Prop} {x : Client S α}
    (hE : ∀ e s, E e s → E' e s) (hQ : ∀ a s, Q a s → Q' a s)
    (h : Holds faulty extra P i E Q x s) : Holds faulty extra P i E' Q' x s := by
  refine Safe.imp (fun r s₁ hr ↦ ?_) h
  cases r with
  | ok a => exact hQ a s₁ hr
  | error e => exact hE e s₁ hr

theorem Holds.pure {Q : α → Store S → Prop} {a : α}
    (h : ∀ s', P.rely i s s' → P.inv s' → Q a s') : Holds faulty extra P i E Q (pure a) s :=
  Safe.done h

theorem Holds.throw {Q : α → Store S → Prop} {e : Failure}
    (h : ∀ s', P.rely i s s' → P.inv s' → E e s') :
    Holds faulty extra P i E Q (throw e) s :=
  Safe.done h

/-- The sequencing rule; `E` must survive what the others do. -/
theorem Holds.bind {Q : β → Store S → Prop} {x : Client S α} {f : α → Client S β}
    (hE : ∀ e s s', P.rely i s s' → E e s → E e s')
    (h : Holds faulty extra P i E (fun a s₁ ↦ P.inv s₁ → Holds faulty extra P i E Q (f a) s₁) x s) :
    Holds faulty extra P i E Q (x >>= f) s := by
  refine Safe.bind (Safe.imp (fun r s₁ hr hinv ↦ ?_) h)
  cases r with
  | ok a => exact hr hinv
  | error e => exact Safe.done fun s₂ hs₂ _ ↦ hE e s₁ s₂ hs₂ hr

theorem Holds.attempt {Q : Except Failure α → Store S → Prop} {x : Client S α}
    (h : Holds faulty extra P i (fun e s₁ ↦ ∀ s', P.rely i s₁ s' → P.inv s' → Q (.error e) s')
      (fun a s₁ ↦ ∀ s', P.rely i s₁ s' → P.inv s' → Q (.ok a) s') x s) :
    Holds faulty extra P i E Q (Client.attempt x) s := by
  refine Safe.bind (Safe.imp (fun r s₁ hr _ ↦ ?_) h)
  cases r with
  | ok a => exact Safe.done hr
  | error e => exact Safe.done hr

/-- The rule for reading one row. -/
theorem Holds.get {k : S.Key} {Q : Option (S.Row k) → Store S → Prop}
    (hok : ∀ s₁, P.rely i s s₁ → P.inv s₁ →
      ∀ s₂, P.rely i s₁ s₂ → P.inv s₂ → Q (s₁.table.lookup k) s₂)
    (herror : ∀ s₁, faulty = true → P.rely i s s₁ → P.inv s₁ → E (.store .unavailable) s₁) :
    Holds faulty extra P i E Q (Client.get k) s := by
  refine Safe.read (fun s₁ r s₂ h ↦ h.1.2) fun s₁ hs₁ hinv r hr ↦ ?_
  rcases hr.1.1 with rfl | ⟨hfaulty, rfl⟩
  · exact Safe.done fun s₂ hs₂ hinv₂ ↦ hok s₁ hs₁ hinv s₂ hs₂ hinv₂
  · exact Safe.done fun s₂ hs₂ hinv₂ ↦ herror s₂ hfaulty (P.trans i _ _ _ hs₁ hs₂) hinv₂

/-- The rule for a query. -/
theorem Holds.query {p : S.Key → Bool} {start : Option S.Key}
    {Q : List (Sigma S.Row) × Option S.Key → Store S → Prop}
    (hok : ∀ s₁, P.rely i s s₁ → P.inv s₁ → ∀ items last, QueryPage s₁.table p start items last →
      ∀ s₂, P.rely i s₁ s₂ → P.inv s₂ → Q (items, last) s₂)
    (herror : ∀ s₁, faulty = true → P.rely i s s₁ → P.inv s₁ → E (.store .unavailable) s₁) :
    Holds faulty extra P i E Q (Client.query p start) s := by
  refine Safe.read (fun s₁ r s₂ h ↦ h.1.2) fun s₁ hs₁ hinv r hr ↦ ?_
  rcases hr.1.1 with ⟨items, last, rfl, hpage⟩ | ⟨hfaulty, rfl⟩
  · exact Safe.done fun s₂ hs₂ hinv₂ ↦ hok s₁ hs₁ hinv items last hpage s₂ hs₂ hinv₂
  · exact Safe.done fun s₂ hs₂ hinv₂ ↦ herror s₂ hfaulty (P.trans i _ _ _ hs₁ hs₂) hinv₂

/-- The rule for a scan. -/
theorem Holds.scan {p : (k : S.Key) → S.Row k → Bool} {Q : List (Sigma S.Row) → Store S → Prop}
    (hok : ∀ s₁, P.rely i s s₁ → P.inv s₁ → ∀ items : List (Sigma S.Row),
      (∀ x ∈ items, s₁.table.lookup x.1 = some x.2 ∧ p x.1 x.2 = true) →
        ∀ s₂, P.rely i s₁ s₂ → P.inv s₂ → Q items s₂)
    (herror : ∀ s₁, faulty = true → P.rely i s s₁ → P.inv s₁ → E (.store .unavailable) s₁) :
    Holds faulty extra P i E Q (Client.scan p) s := by
  refine Safe.read (fun s₁ r s₂ h ↦ h.1.2) fun s₁ hs₁ hinv r hr ↦ ?_
  rcases hr.1.1 with ⟨items, rfl, hitems⟩ | ⟨hfaulty, rfl⟩
  · exact Safe.done fun s₂ hs₂ hinv₂ ↦ hok s₁ hs₁ hinv items hitems s₂ hs₂ hinv₂
  · exact Safe.done fun s₂ hs₂ hinv₂ ↦ herror s₂ hfaulty (P.trans i _ _ _ hs₁ hs₂) hinv₂

/-- What a committed write must keep: the invariant and what the others rely on. -/
def Keeps (P : Protocol (Store S)) (i : ℕ) (ws : List S.Write) (s : Store S) : Prop :=
  P.inv (s.commit i ws) ∧ ∀ j, j ≠ i → P.rely j s (s.commit i ws)

theorem Discipline.keeps {D : Discipline S} {ws : List S.Write} (hinv : D.protocol.inv s)
    (hacc : s.table.Accepts ws) (hproper : D.proper ⟨i, ws, s.table⟩) :
    Keeps D.protocol i ws s := by
  refine ⟨⟨hinv.1.commit hacc i, ?_⟩, fun j hj ↦ ⟨⟨[⟨i, ws, s.table⟩], rfl, ?_⟩, ?_, le_rfl⟩⟩
  · rw [Store.commit_log, List.forall_mem_cons]
    exact ⟨hproper, hinv.2⟩
  · simpa using hj.symm
  · exact fun k ↦ Discipline.grows_commit hacc i k

theorem Holds.writes {ρ : Type} {o : Op S} {answer : Ret o → Except StoreError ρ}
    {ws : List S.Write} (ok : Store S → ρ) (refused : Store S → StoreError)
    (hwrites : o.writes = some ws)
    (hexec : ∀ s₁ r s₂, Exec faulty i o s₁ r s₂ →
      Writes faulty i ws (ok s₁) (refused s₁) s₁ (answer r) s₂)
    {Q : ρ → Store S → Prop}
    (hkeeps : ∀ s₁, P.rely i s s₁ → P.inv s₁ → s₁.table.Accepts ws →
      extra ⟨i, ws, s₁.table⟩ → Keeps P i ws s₁)
    (hok : ∀ s₁, P.rely i s s₁ → P.inv s₁ → s₁.table.Accepts ws →
      ∀ s₂, P.rely i (s₁.commit i ws) s₂ → P.inv s₂ → Q (ok s₁) s₂)
    (hrefused : ∀ s₁, P.rely i s s₁ → P.inv s₁ → ¬ s₁.table.Accepts ws →
      ∀ s₂, P.rely i s₁ s₂ → P.inv s₂ → E (.store (refused s₁)) s₂)
    (hlost : ∀ s₁, faulty = true → P.rely i s s₁ → P.inv s₁ →
      ∀ s₂, (P.rely i s₁ s₂ ∨ s₁.table.Accepts ws ∧ P.rely i (s₁.commit i ws) s₂) → P.inv s₂ →
        E (.store .unavailable) s₂) :
    Holds faulty extra P i E Q (Client.perform o answer) s := by
  refine Safe.call fun s₁ hs₁ hinv r s₂ hr ↦ ?_
  have hextra : s₁.table.Accepts ws → extra ⟨i, ws, s₁.table⟩ := hr.2 ws hwrites
  have hsame : (∀ j, j ≠ i → P.rely j s₁ s₁) := fun j _ ↦ P.refl j s₁
  rcases hexec s₁ r s₂ hr.1 with
    ⟨hacc, hans, rfl⟩ | ⟨hnacc, hans, rfl⟩ | ⟨hfaulty, hans, rfl | ⟨hacc, rfl⟩⟩
  · obtain ⟨hinv₂, hrely⟩ := hkeeps s₁ hs₁ hinv hacc (hextra hacc)
    refine ⟨hinv₂, hrely, ?_⟩
    simp only [hans]
    exact Safe.done fun s₃ hs₃ hinv₃ ↦ hok s₁ hs₁ hinv hacc s₃ hs₃ hinv₃
  · refine ⟨hinv, hsame, ?_⟩
    simp only [hans]
    exact Safe.done fun s₃ hs₃ hinv₃ ↦ hrefused s₂ hs₁ hinv hnacc s₃ hs₃ hinv₃
  · refine ⟨hinv, hsame, ?_⟩
    simp only [hans]
    exact Safe.done fun s₃ hs₃ hinv₃ ↦ hlost s₂ hfaulty hs₁ hinv s₃ (.inl hs₃) hinv₃
  · obtain ⟨hinv₂, hrely⟩ := hkeeps s₁ hs₁ hinv hacc (hextra hacc)
    refine ⟨hinv₂, hrely, ?_⟩
    simp only [hans]
    exact Safe.done fun s₃ hs₃ hinv₃ ↦ hlost s₁ hfaulty hs₁ hinv s₃ (.inr ⟨hacc, hs₃⟩) hinv₃

theorem Holds.transact {ws : List S.Write} {Q : Unit → Store S → Prop}
    (hkeeps : ∀ s₁, P.rely i s s₁ → P.inv s₁ → s₁.table.Accepts ws →
      extra ⟨i, ws, s₁.table⟩ → Keeps P i ws s₁)
    (hok : ∀ s₁, P.rely i s s₁ → P.inv s₁ → s₁.table.Accepts ws →
      ∀ s₂, P.rely i (s₁.commit i ws) s₂ → P.inv s₂ → Q () s₂)
    (hrefused : ∀ s₁, P.rely i s s₁ → P.inv s₁ → ¬ s₁.table.Accepts ws →
      ∀ s₂, P.rely i s₁ s₂ → P.inv s₂ → E (.store (Store.refusal s₁.table ws)) s₂)
    (hlost : ∀ s₁, faulty = true → P.rely i s s₁ → P.inv s₁ →
      ∀ s₂, (P.rely i s₁ s₂ ∨ s₁.table.Accepts ws ∧ P.rely i (s₁.commit i ws) s₂) → P.inv s₂ →
        E (.store .unavailable) s₂) :
    Holds faulty extra P i E Q (Client.transact ws) s := by
  apply Holds.writes (fun _ ↦ ()) (fun s₁ ↦ Store.refusal s₁.table ws) rfl _
    hkeeps hok hrefused hlost
  exact fun s₁ r s₂ h ↦ h

theorem Holds.update {w : S.Write} {Q : Option (S.Row (S.key w)) → Store S → Prop}
    (hkeeps : ∀ s₁, P.rely i s s₁ → P.inv s₁ → s₁.table.Accepts [w] →
      extra ⟨i, [w], s₁.table⟩ → Keeps P i [w] s₁)
    (hok : ∀ s₁, P.rely i s s₁ → P.inv s₁ → s₁.table.Accepts [w] →
      ∀ s₂, P.rely i (s₁.commit i [w]) s₂ → P.inv s₂ →
        Q (S.next w (s₁.table.lookup (S.key w))) s₂)
    (hrefused : ∀ s₁, P.rely i s s₁ → P.inv s₁ → ¬ s₁.table.Accepts [w] →
      ∀ s₂, P.rely i s₁ s₂ → P.inv s₂ → E (.store .conditionalCheckFailed) s₂)
    (hlost : ∀ s₁, faulty = true → P.rely i s s₁ → P.inv s₁ →
      ∀ s₂, (P.rely i s₁ s₂ ∨ s₁.table.Accepts [w] ∧ P.rely i (s₁.commit i [w]) s₂) → P.inv s₂ →
        E (.store .unavailable) s₂) :
    Holds faulty extra P i E Q (Client.update w) s := by
  apply Holds.writes (fun s₁ ↦ S.next w (s₁.table.lookup (S.key w)))
    (fun _ ↦ .conditionalCheckFailed) rfl _ hkeeps hok hrefused hlost
  exact fun s₁ r s₂ h ↦ h

end Holds

/-! ### Clients that run alone -/

section Solo

variable {i : ℕ} {s : Store S} {β : Type} {E : Failure → Store S → Prop}

/-- From `s` the client, alone and without faults, ends with `Q`, or with `E`
when it fails. -/
def Solo (i : ℕ) (E : Failure → Store S → Prop) (Q : α → Store S → Prop) (x : Client S α)
    (s : Store S) : Prop :=
  Alone (machine S false) i (fun r s' ↦ match r with
    | .ok a => Q a s'
    | .error e => E e s') x.run s

theorem Solo.imp {E' : Failure → Store S → Prop} {Q Q' : α → Store S → Prop} {x : Client S α}
    (hE : ∀ e s, E e s → E' e s) (hQ : ∀ a s, Q a s → Q' a s) (h : Solo i E Q x s) :
    Solo i E' Q' x s := by
  refine Alone.imp (fun r s' hr ↦ ?_) h
  cases r with
  | ok a => exact hQ a s' hr
  | error e => exact hE e s' hr

theorem Solo.pure {Q : α → Store S → Prop} {a : α} (h : Q a s) : Solo i E Q (pure a) s := h

theorem Solo.throw {Q : α → Store S → Prop} {e : Failure} (h : E e s) :
    Solo i E Q (throw e : Client S α) s := h

theorem Solo.bind {Q : β → Store S → Prop} {x : Client S α} {f : α → Client S β}
    (h : Solo i E (fun a s' ↦ Solo i E Q (f a) s') x s) : Solo i E Q (x >>= f) s := by
  refine Alone.bind (Alone.imp (fun r s' hr ↦ ?_) h)
  cases r with
  | ok a => exact hr
  | error e => exact hr

theorem Solo.attempt {Q : Except Failure α → Store S → Prop} {x : Client S α}
    (h : Solo i (fun e s' ↦ Q (.error e) s') (fun a s' ↦ Q (.ok a) s') x s) :
    Solo i E Q (Client.attempt x) s := by
  refine Alone.bind (Alone.imp (fun r s' hr ↦ ?_) h)
  cases r with
  | ok a => exact hr
  | error e => exact hr

theorem Solo.get {k : S.Key} {Q : Option (S.Row k) → Store S → Prop}
    (h : Q (s.table.lookup k) s) : Solo i E Q (Client.get k) s := by
  intro r s' hexec
  obtain ⟨rfl | ⟨hfaulty, -⟩, rfl⟩ := hexec
  · exact h
  · cases hfaulty

theorem Solo.query {p : S.Key → Bool} {start : Option S.Key}
    {Q : List (Sigma S.Row) × Option S.Key → Store S → Prop}
    (h : ∀ items last, QueryPage s.table p start items last → Q (items, last) s) :
    Solo i E Q (Client.query p start) s := by
  intro r s' hexec
  obtain ⟨⟨items, last, rfl, hpage⟩ | ⟨hfaulty, -⟩, rfl⟩ := hexec
  · exact h items last hpage
  · cases hfaulty

theorem Solo.transact {ws : List S.Write} {Q : Unit → Store S → Prop}
    (hok : s.table.Accepts ws → Q () (s.commit i ws))
    (hrefused : ¬ s.table.Accepts ws → E (.store (Store.refusal s.table ws)) s) :
    Solo i E Q (Client.transact ws) s := by
  intro r s' hexec
  rcases hexec with ⟨hacc, rfl, rfl⟩ | ⟨hnacc, rfl, rfl⟩ | ⟨hfaulty, -⟩
  · exact hok hacc
  · exact hrefused hnacc
  · cases hfaulty

theorem Solo.update {w : S.Write} {Q : Option (S.Row (S.key w)) → Store S → Prop}
    (hok : s.table.Accepts [w] → Q (S.next w (s.table.lookup (S.key w))) (s.commit i [w]))
    (hrefused : ¬ s.table.Accepts [w] → E (.store .conditionalCheckFailed) s) :
    Solo i E Q (Client.update w) s := by
  intro r s' hexec
  rcases hexec with ⟨hacc, rfl, rfl⟩ | ⟨hnacc, rfl, rfl⟩ | ⟨hfaulty, -⟩
  · exact hok hacc
  · exact hrefused hnacc
  · cases hfaulty

end Solo

end ConditionalStore
