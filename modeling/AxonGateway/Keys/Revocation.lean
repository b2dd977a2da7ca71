import AxonGateway.Keys.Service

/-!
# An observed revocation is final

A revocation is final for an instance once the instance has recorded an epoch that covers it,
or once its own revocation of the key has come back. A cached key is then never returned, as
long as no key that was read before its revocation is stored after the revocation is final,
and the first epoch of a tenant does not find such a key in the cache.
-/

namespace Keys

open Interleaving

variable {i j : ℕ} {w w' w₁ w₂ w₃ : World}

namespace World

/-- The instance has recorded an epoch at or above the one that the key's revocation wrote. -/
def Covered (w : World) (ref : KeyRef) : Prop :=
  ∃ r m, w.revokedAt ref = some r ∧ w.highest ref.1 = some m ∧ r ≤ m

/-- The revocation of the key is known to the instance. -/
def Final (w : World) (ref : KeyRef) : Prop := w.evicted ref = true ∨ w.Covered ref

def RowRevoked (w : World) (ref : KeyRef) : Prop :=
  ∃ row, w.rows ref = some row ∧ row.revoked = true

/-- The cached keys of the tenant that the epoch covers are marked for another read. -/
def Adoptable (w : World) (tenant : Option String) (epoch : Option ℕ) : Prop :=
  w.recorded tenant = none → ∀ e, epoch = some e → ∀ hash k cachedAt,
    w.cache hash = some (k, cachedAt) → k.tenantId = tenant → w.requires hash = false →
      ∀ r, w.revokedAt k.ref = some r → e < r

end World

/-- The steps that a stale key or the first epoch can spoil, and the clock, which does not
pass the expiry of a key that waits for an epoch. -/
def Orderly (_ : ℕ) : Op → World → Prop
  | .settleCached _ tenant _ epoch, w => w.Adoptable tenant epoch
  | .settleReread _ _ (some k), w => w.usable k = true → ¬ w.Final k.ref
  | .checkLoaded k, w => w.usable k = true → w.recent k.tenantId = true → ¬ w.Final k.ref
  | .settleLoaded k epoch, w => w.Adoptable k.tenantId epoch ∧
      ((w.settle k.tenantId epoch).2 = false → ¬ w.Final k.ref)
  | .storeReread k, w => w.usable k = true → ¬ w.Final k.ref
  | .cacheIssued k, w => ¬ w.Final k.ref
  | .finishRotate _ replacement, w => ¬ w.Final replacement.ref
  | .tick t, w => ∀ entry ∈ w.held, ∀ e, entry.2.expiresAt = some e → t ≤ e
  | _, _ => True

/-! ### The invariant -/

/-- The rows and the lookup of their hashes fit together, and what is known as revoked is. -/
structure StoreInv (w : World) : Prop where
  ref : ∀ ref row, w.rows ref = some row → row.ref = ref
  hash : ∀ hash ref, w.lookup hash = some ref → ∃ row, w.rows ref = some row ∧ row.keyHash = hash
  listed : ∀ ref row, w.rows ref = some row → w.lookup row.keyHash = some ref
  revoked : ∀ ref, w.evicted ref = true ∨ (w.revokedAt ref).isSome = true → w.RowRevoked ref

structure CacheInv (w : World) : Prop where
  cached : ∀ hash k cachedAt, w.cache hash = some (k, cachedAt) →
    k.keyHash = hash ∧ w.lookup hash = some k.ref
  final : ∀ hash k cachedAt, w.cache hash = some (k, cachedAt) → w.Final k.ref →
    w.requires hash = true ∧ w.evicted k.ref = false
  recorded : ∀ tenant, w.recorded tenant = none → w.highest tenant = none
  highest : ∀ tenant m, w.highest tenant = some m → m ≤ w.epochs tenant
  held : ∀ entry ∈ w.held, ∀ e, entry.2.expiresAt = some e → w.now ≤ e

structure Inv (w : World) : Prop where
  store : StoreInv w
  cache : CacheInv w

/-- What the others leave to program `i`. -/
structure Leaves (i : ℕ) (w w' : World) : Prop where
  now : w.now ≤ w'.now
  final : ∀ ref, w.Final ref → w'.Final ref
  revoked : ∀ ref, w.RowRevoked ref → w'.RowRevoked ref
  lookup : ∀ hash ref, w.lookup hash = some ref → w'.lookup hash = some ref
  epochs : ∀ tenant, w.epochs tenant ≤ w'.epochs tenant
  held : ∀ k, (i, k) ∈ w.held → (i, k) ∈ w'.held

theorem Leaves.refl (i : ℕ) (w : World) : Leaves i w w :=
  ⟨le_rfl, fun _ h ↦ h, fun _ h ↦ h, fun _ _ h ↦ h, fun _ ↦ le_rfl, fun _ h ↦ h⟩

theorem Leaves.trans (h : Leaves i w₁ w₂) (h' : Leaves i w₂ w₃) : Leaves i w₁ w₃ :=
  ⟨h.now.trans h'.now, fun ref hf ↦ h'.final ref (h.final ref hf),
    fun ref hr ↦ h'.revoked ref (h.revoked ref hr),
    fun hash ref hl ↦ h'.lookup hash ref (h.lookup hash ref hl),
    fun tenant ↦ (h.epochs tenant).trans (h'.epochs tenant), fun k hk ↦ h'.held k (h.held k hk)⟩

/-! ### The cache -/

/-- The same store and clock, and no revocation is forgotten. -/
structure SameStore (w w' : World) : Prop where
  now : w'.now = w.now
  rows : w'.rows = w.rows
  lookup : w'.lookup = w.lookup
  revokedAt : w'.revokedAt = w.revokedAt
  epochs : w'.epochs = w.epochs
  final : ∀ ref, w.Final ref → w'.Final ref
  evicted : ∀ ref, w'.evicted ref = true → w.evicted ref = true ∨ w.RowRevoked ref
  held : w'.held = w.held

theorem SameStore.refl (w : World) : SameStore w w :=
  ⟨rfl, rfl, rfl, rfl, rfl, fun _ h ↦ h, fun _ h ↦ .inl h, rfl⟩

theorem SameStore.trans (h : SameStore w₁ w₂) (h' : SameStore w₂ w₃) : SameStore w₁ w₃ := by
  refine ⟨h'.now.trans h.now, h'.rows.trans h.rows, h'.lookup.trans h.lookup,
    h'.revokedAt.trans h.revokedAt, h'.epochs.trans h.epochs, fun ref hf ↦ h'.final ref (h.final ref hf), fun ref he ↦ ?_,
    h'.held.trans h.held⟩
  rcases h'.evicted ref he with he | hr
  · exact h.evicted ref he
  · refine .inr ?_
    rwa [World.RowRevoked, h.rows] at hr

theorem SameStore.storeInv (h : SameStore w w') (hs : StoreInv w) : StoreInv w' := by
  refine ⟨?_, ?_, ?_, fun ref hr ↦ ?_⟩
  · rw [h.rows]
    exact hs.ref
  · rw [h.rows, h.lookup]
    exact hs.hash
  · rw [h.rows, h.lookup]
    exact hs.listed
  · rw [World.RowRevoked, h.rows]
    rcases hr with he | hr
    · rcases h.evicted ref he with he | hr
      · exact hs.revoked ref (.inl he)
      · exact hr
    · exact hs.revoked ref (.inr (h.revokedAt ▸ hr))

theorem SameStore.leaves (h : SameStore w w') : Leaves i w w' := by
  refine ⟨h.now.ge, h.final, fun ref hr ↦ ?_, fun hash ref hl ↦ h.lookup ▸ hl,
    fun tenant ↦ by rw [h.epochs], fun k hk ↦ h.held ▸ hk⟩
  rwa [World.RowRevoked, h.rows]

/-- Two cached keys with the same reference have the same hash. -/
theorem StoreInv.hash_eq (hs : StoreInv w) {hash hash' : String} {ref : KeyRef}
    (h : w.lookup hash = some ref) (h' : w.lookup hash' = some ref) : hash = hash' := by
  obtain ⟨row, hrow, rfl⟩ := hs.hash hash ref h
  obtain ⟨row', hrow', rfl⟩ := hs.hash hash' ref h'
  rw [Option.some.inj (hrow.symm.trans hrow')]

theorem CacheInv.uncache (hc : CacheInv w) (hash : String) : CacheInv (w.uncache hash) := by
  have hold : ∀ hash' k t, (w.uncache hash).cache hash' = some (k, t) →
      hash' ≠ hash ∧ w.cache hash' = some (k, t) := by
    intro hash' k t h
    rcases eq_or_ne hash' hash with rfl | hne
    · simp [World.uncache] at h
    · exact ⟨hne, by simpa [World.uncache, hne] using h⟩
  refine ⟨fun hash' k t h ↦ hc.cached hash' k t (hold hash' k t h).2, fun hash' k t h hf ↦ ?_,
    hc.recorded, hc.highest, hc.held⟩
  obtain ⟨hne, h⟩ := hold hash' k t h
  obtain ⟨hreq, hev⟩ := hc.final hash' k t h hf
  exact ⟨by simpa [World.uncache, hne] using hreq, hev⟩

theorem sameStore_uncache (w : World) (hash : String) : SameStore w (w.uncache hash) :=
  ⟨rfl, rfl, rfl, rfl, rfl, fun _ h ↦ h, fun _ h ↦ .inl h, rfl⟩

theorem sameStore_store (w : World) (k : APIKey) (t : ℚ) : SameStore w (w.store k t) :=
  ⟨rfl, rfl, rfl, rfl, rfl, fun _ h ↦ h, fun _ h ↦ .inl h, rfl⟩

/-- A key is stored whose revocation is not final. -/
theorem CacheInv.store (hc : CacheInv w) {k : APIKey} (hl : w.lookup k.keyHash = some k.ref)
    (hf : ¬ w.Final k.ref) (t : ℚ) : CacheInv (w.store k t) := by
  have hcases : ∀ hash k' t', (w.store k t).cache hash = some (k', t') →
      (hash = k.keyHash ∧ k' = k) ∨ w.cache hash = some (k', t') := by
    intro hash k' t' h
    rcases eq_or_ne hash k.keyHash with rfl | hne
    · simp only [World.store, Function.update_self, Option.some.injEq, Prod.mk.injEq] at h
      exact .inl ⟨rfl, h.1.symm⟩
    · exact .inr (by simpa [World.store, hne] using h)
  refine ⟨fun hash k' t' h ↦ ?_, fun hash k' t' h hf' ↦ ?_, hc.recorded, hc.highest, hc.held⟩
  · rcases hcases hash k' t' h with ⟨rfl, rfl⟩ | h
    · exact ⟨rfl, hl⟩
    · exact hc.cached hash k' t' h
  · rcases hcases hash k' t' h with ⟨rfl, rfl⟩ | h
    · exact absurd hf' hf
    · exact hc.final hash k' t' h hf'

/-! ### Recording an epoch -/

theorem final_record (tenant : Option String) (epoch : ℕ) {ref : KeyRef} (h : w.Final ref) :
    (w.record tenant epoch).Final ref := by
  rcases h with h | ⟨r, m, hr, hm, hle⟩
  · exact .inl h
  · refine .inr ?_
    rcases eq_or_ne ref.1 tenant with heq | hne
    · refine ⟨r, max m epoch, hr, ?_, hle.trans (le_max_left _ _)⟩
      simp [World.record, ← heq, hm]
    · exact ⟨r, m, hr, by simpa [World.record, hne] using hm, hle⟩

/-- What a recorded epoch covers was covered before, or is covered by this epoch. -/
theorem final_of_record {tenant : Option String} {epoch : ℕ} {ref : KeyRef}
    (h : (w.record tenant epoch).Final ref) :
    w.Final ref ∨ ref.1 = tenant ∧ ∃ r, w.revokedAt ref = some r ∧ r ≤ epoch := by
  rcases h with h | ⟨r, m, hr, hm, hle⟩
  · exact .inl (.inl h)
  · rcases eq_or_ne ref.1 tenant with heq | hne
    · have hm' : max ((w.highest tenant).getD 0) epoch = m := by
        simpa [World.record, heq] using hm
      rcases le_total r epoch with hle' | hlt
      · exact .inr ⟨heq, r, hr, hle'⟩
      · cases hh : w.highest tenant with
        | none =>
            rw [hh, Option.getD_none, Nat.zero_max] at hm'
            exact .inr ⟨heq, r, hr, hm' ▸ hle⟩
        | some m' =>
            rw [hh, Option.getD_some] at hm'
            rcases le_total m' epoch with h₁ | h₁
            · rw [max_eq_right h₁] at hm'
              exact .inr ⟨heq, r, hr, hm' ▸ hle⟩
            · rw [max_eq_left h₁] at hm'
              exact .inl (.inr ⟨r, m', hr, heq ▸ hh, hm' ▸ hle⟩)
    · exact .inl (.inr ⟨r, m, hr, by simpa [World.record, hne] using hm, hle⟩)

theorem recorded_record (hc : CacheInv w) {tenant t : Option String} {epoch : ℕ}
    (h : (w.record tenant epoch).recorded t = none) : (w.record tenant epoch).highest t = none := by
  rcases eq_or_ne t tenant with rfl | hne
  · simp [World.record] at h
  · have := hc.recorded t (by simpa [World.record, hne] using h)
    simpa [World.record, hne] using this

theorem highest_record (hc : CacheInv w) {tenant t : Option String} {epoch m : ℕ}
    (hepoch : epoch ≤ w.epochs tenant) (h : (w.record tenant epoch).highest t = some m) :
    m ≤ w.epochs t := by
  rcases eq_or_ne t tenant with rfl | hne
  · have hm : max ((w.highest t).getD 0) epoch = m := by simpa [World.record] using h
    rw [← hm]
    refine max_le ?_ hepoch
    cases hh : w.highest t with
    | none => exact Nat.zero_le _
    | some m' => exact hc.highest t m' hh
  · exact hc.highest t m (by simpa [World.record, hne] using h)

theorem sameStore_record (w : World) (tenant : Option String) (epoch : ℕ) :
    SameStore w (w.record tenant epoch) :=
  ⟨rfl, rfl, rfl, rfl, rfl, fun _ h ↦ final_record tenant epoch h, fun _ h ↦ .inl h, rfl⟩

theorem sameStore_clear (w : World) (tenant : Option String) : SameStore w (w.clear tenant) :=
  ⟨rfl, rfl, rfl, rfl, rfl, fun _ h ↦ h, fun _ h ↦ .inl h, rfl⟩

theorem CacheInv.adopt (hc : CacheInv w) {tenant : Option String} {epoch : ℕ}
    (hnone : w.recorded tenant = none) (had : w.Adoptable tenant (some epoch))
    (hepoch : epoch ≤ w.epochs tenant) : CacheInv (w.record tenant epoch) := by
  refine ⟨hc.cached, fun hash k t h hf ↦ ?_, fun t h ↦ recorded_record hc h,
    fun t m h ↦ highest_record hc hepoch h, hc.held⟩
  rcases final_of_record hf with hf | ⟨htenant, r, hr, hle⟩
  · exact hc.final hash k t h hf
  · have hmark : w.requires hash = true := by
      by_contra hreq
      have := had hnone epoch rfl hash k t h htenant (by simpa using hreq) r hr
      omega
    refine ⟨hmark, ?_⟩
    by_contra hev
    have hev' : w.evicted k.ref = true := by simpa [World.record] using hev
    exact absurd (hc.final hash k t h (.inl hev')).2 (by simp [hev'])

/-- After a change of the epoch the tenant has no cached keys. -/
theorem CacheInv.change (hc : CacheInv w) {tenant : Option String} {epoch : ℕ}
    (hepoch : epoch ≤ w.epochs tenant) : CacheInv ((w.record tenant epoch).clear tenant) := by
  have hold : ∀ hash k t, ((w.record tenant epoch).clear tenant).cache hash = some (k, t) →
      w.cache hash = some (k, t) ∧ k.tenantId ≠ tenant := by
    intro hash k t h
    obtain ⟨h, hne⟩ := Option.filter_eq_some_iff.mp h
    exact ⟨h, by simpa using hne⟩
  refine ⟨fun hash k t h ↦ hc.cached hash k t (hold hash k t h).1, fun hash k t h hf ↦ ?_,
    fun t h ↦ recorded_record hc h, fun t m h ↦ highest_record hc hepoch h, hc.held⟩
  have hcached : (((w.record tenant epoch).clear tenant).cache hash).isSome = true := by simp [h]
  obtain ⟨h, hne⟩ := hold hash k t h
  have hf' : (w.record tenant epoch).Final k.ref := hf
  rcases final_of_record hf' with hf' | ⟨htenant, -⟩
  · obtain ⟨hreq, hev⟩ := hc.final hash k t h hf'
    refine ⟨?_, hev⟩
    have hreq' : (w.record tenant epoch).requires hash = true := hreq
    simp only [World.clear, hreq', Bool.true_and]
    exact hcached
  · exact absurd htenant hne

theorem CacheInv.settle (hc : CacheInv w) {tenant : Option String} {epoch : Option ℕ}
    (had : w.Adoptable tenant epoch) (hepoch : ∀ e, epoch = some e → e ≤ w.epochs tenant) :
    CacheInv (w.settle tenant epoch).1 ∧ SameStore w (w.settle tenant epoch).1 ∧
      ((w.settle tenant epoch).2 = false → (w.settle tenant epoch).1 = w) := by
  cases epoch with
  | none => exact ⟨hc, SameStore.refl w, fun _ ↦ rfl⟩
  | some epoch =>
      cases hrec : w.recorded tenant with
      | none =>
          simp only [World.settle, hrec]
          exact ⟨hc.adopt hrec had (hepoch epoch rfl), sameStore_record w tenant epoch, by simp⟩
      | some previous =>
          simp only [World.settle, hrec]
          split_ifs with hne
          · exact ⟨hc.change (hepoch epoch rfl),
              (sameStore_record w tenant epoch).trans (sameStore_clear _ tenant), by simp⟩
          · exact ⟨hc, SameStore.refl w, fun _ ↦ rfl⟩

/-! ### Sections of a validation -/

/-- A section keeps the cache in order, and the key that it returns is one that `Good` allows
at the moment. -/
structure Section (Good : APIKey → Prop) (w : World) (served : Served × World) : Prop where
  cache : CacheInv served.2
  same : SameStore w served.2
  good : ∀ k t, served.1 = .key k t → t = w.now ∧ w.usable k = true ∧ Good k

theorem serveEntry_section (hc : CacheInv w) (hash : String) :
    Section (fun k ↦ ∃ t, w.cache hash = some (k, t)) w (w.serveEntry hash) := by
  rw [World.serveEntry]
  cases h : w.cache hash with
  | none => exact ⟨hc, SameStore.refl w, fun k t hk ↦ by cases hk⟩
  | some entry =>
      obtain ⟨k, cachedAt⟩ := entry
      dsimp only
      split_ifs with hyoung
      · refine ⟨hc, SameStore.refl w, fun k' t hk ↦ ?_⟩
        cases hk
        exact ⟨rfl, hyoung.2, cachedAt, rfl⟩
      · exact ⟨hc.uncache hash, sameStore_uncache w hash, fun k t hk ↦ by cases hk⟩

/-- A cached key that is not read again is not final. -/
theorem serve_section (hc : CacheInv w) (hash : String) {tenant : Option String} (cachedAt : ℚ)
    (htenant : ∀ ref, w.lookup hash = some ref → ref.1 = tenant) :
    Section (fun k ↦ k.keyHash = hash ∧ ¬ w.Final k.ref) w (w.serve hash tenant cachedAt) := by
  rw [World.serve]
  split_ifs with hreread
  · exact ⟨hc, SameStore.refl w, fun k t hk ↦ by cases hk⟩
  · obtain ⟨hcache, hsame, hgood⟩ := serveEntry_section hc hash
    refine ⟨hcache, hsame, fun k t hk ↦ ?_⟩
    obtain ⟨ht, husable, t', hcached⟩ := hgood k t hk
    obtain ⟨hhash, hlookup⟩ := hc.cached hash k t' hcached
    refine ⟨ht, husable, hhash, fun hf ↦ ?_⟩
    obtain ⟨hreq, hev⟩ := hc.final hash k t' hcached hf
    rcases hf with hf | ⟨r, m, hr, hm, hle⟩
    · rw [hev] at hf
      cases hf
    · apply hreread
      refine ⟨hreq, ?_⟩
      rw [← htenant k.ref hlookup]
      by_contra hnone
      have := hc.recorded k.ref.1 (by simpa using hnone)
      rw [this] at hm
      cases hm

theorem lookupCache_section (hc : CacheInv w) (hash : String) :
    Section (fun k ↦ k.keyHash = hash ∧ ¬ w.Final k.ref) w (w.lookupCache hash) := by
  rw [World.lookupCache]
  cases h : w.cache hash with
  | none => exact ⟨hc, SameStore.refl w, fun k t hk ↦ by cases hk⟩
  | some entry =>
      obtain ⟨k, cachedAt⟩ := entry
      dsimp only
      split_ifs with hrecent
      · refine serve_section hc hash cachedAt fun ref href ↦ ?_
        obtain rfl := Option.some.inj ((hc.cached hash k cachedAt h).2.symm.trans href)
        rfl
      · exact ⟨⟨hc.cached, hc.final, hc.recorded, hc.highest, hc.held⟩,
          ⟨rfl, rfl, rfl, rfl, rfl, fun _ h ↦ h, fun _ h ↦ .inl h, rfl⟩, fun k t hk ↦ by cases hk⟩

theorem settleReread_section (hc : CacheInv w) (hash : String) (cachedAt : ℚ)
    {read : Option APIKey} (hread : ∀ k, read = some k → k.keyHash = hash ∧
      w.lookup k.keyHash = some k.ref ∧ (w.usable k = true → ¬ w.Final k.ref)) :
    Section (fun k ↦ read = some k) w (w.settleReread hash cachedAt read) := by
  rw [World.settleReread]
  cases h : read.filter (w.usable ·) with
  | none => exact ⟨hc.uncache hash, sameStore_uncache w hash, fun k t hk ↦ by cases hk⟩
  | some k =>
      obtain ⟨hread', husable⟩ := Option.filter_eq_some_iff.mp h
      obtain ⟨hhash, hlookup, hfinal⟩ := hread k hread'
      subst hhash
      -- The mark goes first: what keeps the cache in order is that the key is not final.
      have hmarks : ∀ w' : World, w' = ({ w with
          requires := Function.update w.requires k.keyHash false } : World).store k cachedAt →
          CacheInv w' ∧ SameStore w w' := by
        rintro _ rfl
        have hold : ∀ hash' k' t', hash' ≠ k.keyHash → (({ w with
            requires := Function.update w.requires k.keyHash false } : World).store k
              cachedAt).cache hash' = some (k', t') → w.cache hash' = some (k', t') := by
          intro hash' k' t' hne h'
          simpa [World.store, hne] using h'
        refine ⟨⟨fun hash' k' t' h' ↦ ?_, fun hash' k' t' h' hf ↦ ?_, hc.recorded, hc.highest, hc.held⟩,
          ⟨rfl, rfl, rfl, rfl, rfl, fun _ h ↦ h, fun _ h ↦ .inl h, rfl⟩⟩
        · rcases eq_or_ne hash' k.keyHash with rfl | hne
          · simp only [World.store, Function.update_self, Option.some.injEq, Prod.mk.injEq] at h'
            obtain ⟨rfl, -⟩ := h'
            exact ⟨rfl, hlookup⟩
          · exact hc.cached hash' k' t' (hold hash' k' t' hne h')
        · rcases eq_or_ne hash' k.keyHash with rfl | hne
          · simp only [World.store, Function.update_self, Option.some.injEq, Prod.mk.injEq] at h'
            obtain ⟨rfl, -⟩ := h'
            exact absurd hf (hfinal (by simpa using husable))
          · obtain ⟨hreq, hev⟩ := hc.final hash' k' t' (hold hash' k' t' hne h') hf
            exact ⟨by simpa [World.store, hne] using hreq, hev⟩
      obtain ⟨hc', hs'⟩ := hmarks _ rfl
      obtain ⟨hcache, hsame, hgood⟩ := serveEntry_section hc' k.keyHash
      refine ⟨hcache, hs'.trans hsame, fun k' t hk ↦ ?_⟩
      obtain ⟨ht, husable', t', hcached⟩ := hgood k' t hk
      simp only [World.store, Function.update_self, Option.some.injEq, Prod.mk.injEq] at hcached
      obtain ⟨rfl, -⟩ := hcached
      exact ⟨ht, by simpa using husable, hread'⟩

theorem usable_expiry {k : APIKey} (h : w.usable k = true) {e : ℚ} (he : k.expiresAt = some e) :
    w.now ≤ e := by
  simp only [World.usable, he, Option.all_some, Bool.and_eq_true, decide_eq_true_eq] at h
  exact h.2

theorem usable_not_revoked {k : APIKey} (h : w.usable k = true) : k.revoked = false := by
  simp only [World.usable, Bool.and_eq_true, Bool.not_eq_true'] at h
  exact h.1

/-! ### Operations -/

/-- What a program knows of the key that it hands on. -/
def Proper (i : ℕ) : Op → World → Prop
  | .settleCached hash tenant _ epoch, w => (∀ ref, w.lookup hash = some ref → ref.1 = tenant) ∧
      ∀ e, epoch = some e → e ≤ w.epochs tenant
  | .settleReread hash _ (some k), w => k.keyHash = hash ∧ w.lookup k.keyHash = some k.ref
  | .checkLoaded k, w => w.lookup k.keyHash = some k.ref
  | .settleLoaded k epoch, w => (w.lookup k.keyHash = some k.ref ∧ (i, k) ∈ w.held) ∧
      ∀ e, epoch = some e → e ≤ w.epochs k.tenantId
  | .storeReread k, w => w.lookup k.keyHash = some k.ref
  | .cacheIssued k, w => w.lookup k.keyHash = some k.ref
  | .evict k, w => w.lookup k.keyHash = some k.ref ∧ w.RowRevoked k.ref
  | .finishRotate k replacement, w => (w.lookup k.keyHash = some k.ref ∧ w.RowRevoked k.ref) ∧
      w.lookup replacement.keyHash = some replacement.ref ∧ replacement.ref ≠ k.ref
  | _, _ => True

/-- The invariant is kept, and so is what the others rely on. -/
abbrev Keeps' (i : ℕ) (w w' : World) : Prop := Inv w' ∧ ∀ j, j ≠ i → Leaves j w w'

theorem Inv.keeps (hinv : Inv w) (hcache : CacheInv w') (hsame : SameStore w w') :
    Keeps' i w w' :=
  ⟨⟨hsame.storeInv hinv.store, hcache⟩, fun _ _ ↦ hsame.leaves⟩

/-- A change of what is held only. -/
theorem Keeps'.held (h : Keeps' i w w') {l : List (ℕ × APIKey)}
    (hexpiry : ∀ entry ∈ l, ∀ e, entry.2.expiresAt = some e → w'.now ≤ e)
    (hothers : ∀ j k, j ≠ i → (j, k) ∈ w'.held → (j, k) ∈ l) :
    Keeps' i w { w' with held := l } := by
  obtain ⟨⟨hstore, hcache⟩, hleaves⟩ := h
  refine ⟨⟨⟨hstore.ref, hstore.hash, hstore.listed, hstore.revoked⟩,
    ⟨hcache.cached, hcache.final, hcache.recorded, hcache.highest, hexpiry⟩⟩, fun j hj ↦ ?_⟩
  obtain ⟨hnow, hfinal, hrevoked, hlookup, hepochs, hheld⟩ := hleaves j hj
  exact ⟨hnow, hfinal, hrevoked, hlookup, hepochs, fun k hk ↦ hothers j k hj (hheld k hk)⟩

theorem Inv.checkLoaded (hinv : Inv w) {k : APIKey} (hl : w.lookup k.keyHash = some k.ref)
    (hfinal : w.usable k = true → w.recent k.tenantId = true → ¬ w.Final k.ref) :
    Keeps' i w (w.checkLoaded i k).2 := by
  rw [World.checkLoaded]
  split_ifs with husable hrecent
  · exact hinv.keeps (hinv.cache.store hl (hfinal husable hrecent) _) (sameStore_store w k _)
  · have hmark : Keeps' i w (w.markChecked k.tenantId) :=
      hinv.keeps ⟨hinv.cache.cached, hinv.cache.final, hinv.cache.recorded, hinv.cache.highest, hinv.cache.held⟩
        ⟨rfl, rfl, rfl, rfl, rfl, fun _ h ↦ h, fun _ h ↦ .inl h, rfl⟩
    refine hmark.held (fun entry hentry e he ↦ ?_) fun j k' _ hk' ↦ List.mem_cons_of_mem _ hk'
    obtain rfl | hentry := List.mem_cons.mp hentry
    · exact usable_expiry husable he
    · exact hinv.cache.held entry hentry e he
  · exact ⟨hinv, fun j _ ↦ Leaves.refl j w⟩

theorem Inv.settleLoaded (hinv : Inv w) {k : APIKey} {epoch : Option ℕ}
    (hl : w.lookup k.keyHash = some k.ref) (had : w.Adoptable k.tenantId epoch)
    (hepoch : ∀ e, epoch = some e → e ≤ w.epochs k.tenantId)
    (hfinal : (w.settle k.tenantId epoch).2 = false → ¬ w.Final k.ref) :
    Keeps' i w (w.settleLoaded i k epoch).2 := by
  obtain ⟨hcache, hsame, hunchanged⟩ := hinv.cache.settle had hepoch
  have hothers : ∀ j k', j ≠ i → (j, k') ∈ (w.settle k.tenantId epoch).1.held →
      (j, k') ∈ (w.settle k.tenantId epoch).1.held.erase (i, k) := by
    intro j k' hj hk'
    exact (List.mem_erase_of_ne (by simp [hj])).mpr hk'
  rw [World.settleLoaded]
  dsimp only
  split_ifs with hreread
  · exact Keeps'.held (hinv.keeps hcache hsame)
      (fun entry hentry ↦ hcache.held entry (List.mem_of_mem_erase hentry)) hothers
  · have hw := hunchanged (by simpa using hreread)
    rw [hw] at hothers ⊢
    have hstored := hinv.cache.store hl (hfinal (by simpa using hreread)) w.now
    exact Keeps'.held (hinv.keeps hstored (sameStore_store w k w.now))
      (fun entry hentry ↦ hinv.cache.held entry (List.mem_of_mem_erase hentry)) hothers

theorem Inv.storeReread (hinv : Inv w) {k : APIKey} (hl : w.lookup k.keyHash = some k.ref)
    (hfinal : w.usable k = true → ¬ w.Final k.ref) : Keeps' i w (w.storeReread k).2 := by
  rw [World.storeReread]
  split_ifs with husable
  · exact hinv.keeps (hinv.cache.store hl (hfinal husable) _) (sameStore_store w k _)
  · exact ⟨hinv, fun j _ ↦ Leaves.refl j w⟩

/-- A mark more does no harm. -/
theorem Inv.cacheIssued (hinv : Inv w) {k : APIKey} (hl : w.lookup k.keyHash = some k.ref)
    (hfinal : ¬ w.Final k.ref) : Keeps' i w (w.cacheIssued k) := by
  have hstored := hinv.cache.store hl hfinal w.now
  refine hinv.keeps ⟨hstored.cached, fun hash k' t h hf ↦ ?_, hstored.recorded,
    hstored.highest, hstored.held⟩
    ⟨rfl, rfl, rfl, rfl, rfl, fun _ h ↦ h, fun _ h ↦ .inl h, rfl⟩
  obtain ⟨hreq, hev⟩ := hstored.final hash k' t h hf
  refine ⟨?_, hev⟩
  have hreq' : w.requires hash = true := hreq
  rw [World.cacheIssued]
  dsimp only
  split_ifs
  · exact hreq'
  · rcases eq_or_ne hash k.keyHash with rfl | hne
    · exact Function.update_self ..
    · rw [Function.update_of_ne hne]
      exact hreq'

theorem Inv.evict (hinv : Inv w) {k : APIKey} (hl : w.lookup k.keyHash = some k.ref)
    (hrow : w.RowRevoked k.ref) : Keeps' i w (w.evict k) := by
  have hc := hinv.cache.uncache k.keyHash
  have hevicted : ∀ ref, (w.evict k).evicted ref = true → w.evicted ref = true ∨ ref = k.ref := by
    intro ref h
    rcases eq_or_ne ref k.ref with heq | hne
    · exact .inr heq
    · exact .inl (by simpa [World.evict, hne, World.uncache] using h)
  have hgone : ∀ hash k' t, (w.evict k).cache hash = some (k', t) → k'.ref ≠ k.ref := by
    intro hash k' t h heq
    have h' : (w.uncache k.keyHash).cache hash = some (k', t) := h
    have hlookup : w.lookup hash = some k.ref := heq ▸ (hc.cached hash k' t h').2
    obtain rfl := hinv.store.hash_eq hlookup hl
    simp [World.uncache] at h'
  refine hinv.keeps ⟨hc.cached, fun hash k' t h hf ↦ ?_, hc.recorded, hc.highest, hc.held⟩
    ⟨rfl, rfl, rfl, rfl, rfl, fun ref hf ↦ ?_, fun ref he ↦ ?_, rfl⟩
  · have hne := hgone hash k' t h
    have hf' : (w.uncache k.keyHash).Final k'.ref := by
      rcases hf with hf | hf
      · exact .inl ((hevicted k'.ref hf).resolve_right hne)
      · exact .inr hf
    obtain ⟨hreq, hev⟩ := hc.final hash k' t h hf'
    exact ⟨hreq, by simpa [World.evict, World.uncache, hne] using hev⟩
  · rcases hf with hf | hf
    · refine .inl ?_
      rcases eq_or_ne ref k.ref with rfl | hne
      · exact Function.update_self ..
      · simpa [World.evict, hne, World.uncache] using hf
    · exact .inr hf
  · rcases hevicted ref he with he | rfl
    · exact .inl he
    · exact .inr hrow

theorem Inv.save (hinv : Inv w) {k : APIKey} (hfree : w.Free k) : Keeps' i w (w.save k) := by
  obtain ⟨hrows, hlookup⟩ := hfree
  have hkept : ∀ ref row, w.rows ref = some row → (w.save k).rows ref = some row := by
    intro ref row h
    have hne : ref ≠ k.ref := by
      rintro rfl
      rw [hrows] at h
      cases h
    simpa [World.save, hne] using h
  have hlookups : ∀ hash ref, w.lookup hash = some ref → (w.save k).lookup hash = some ref := by
    intro hash ref h
    have hne : hash ≠ k.keyHash := by
      rintro rfl
      rw [hlookup] at h
      cases h
    simpa [World.save, hne] using h
  have hrevoked : ∀ ref, w.RowRevoked ref → (w.save k).RowRevoked ref :=
    fun ref ⟨row, hrow, hr⟩ ↦ ⟨row, hkept ref row hrow, hr⟩
  refine ⟨⟨⟨fun ref row h ↦ ?_, fun hash ref h ↦ ?_, fun ref row h ↦ ?_,
    fun ref h ↦ hrevoked ref (hinv.store.revoked ref h)⟩,
    ⟨fun hash k' t h ↦ ?_, hinv.cache.final, hinv.cache.recorded, hinv.cache.highest,
      hinv.cache.held⟩⟩,
    fun j _ ↦ ⟨le_rfl, fun _ h ↦ h, hrevoked, hlookups, fun _ ↦ le_rfl, fun _ h ↦ h⟩⟩
  · rcases eq_or_ne ref k.ref with rfl | hne
    · have : k = row := by simpa [World.save] using h
      rw [this]
    · exact hinv.store.ref ref row (by simpa [World.save, hne] using h)
  · rcases eq_or_ne hash k.keyHash with rfl | hne
    · have : k.ref = ref := by simpa [World.save] using h
      subst this
      exact ⟨k, by simp [World.save], rfl⟩
    · obtain ⟨row, hrow, hhash⟩ := hinv.store.hash hash ref (by simpa [World.save, hne] using h)
      exact ⟨row, hkept ref row hrow, hhash⟩
  · rcases eq_or_ne ref k.ref with rfl | hne
    · obtain rfl : k = row := by simpa [World.save] using h
      exact Function.update_self ..
    · exact hlookups _ _ (hinv.store.listed ref row (by simpa [World.save, hne] using h))
  · obtain ⟨hhash, hl⟩ := hinv.cache.cached hash k' t h
    exact ⟨hhash, hlookups hash _ hl⟩

theorem Inv.not_revoked (hinv : Inv w) {k : APIKey} (h : w.Revocable k) :
    ¬ w.RowRevoked k.ref ∧ w.evicted k.ref = false ∧ w.revokedAt k.ref = none := by
  obtain ⟨row, hrow, -, hlive⟩ := h
  have hnot : ¬ w.RowRevoked k.ref := by
    rintro ⟨row', hrow', hrev⟩
    rw [hrow] at hrow'
    rw [← Option.some.inj hrow', hlive] at hrev
    cases hrev
  refine ⟨hnot, ?_, ?_⟩
  · by_contra hev
    exact hnot (hinv.store.revoked _ (.inl (by simpa using hev)))
  · by_contra hne
    exact hnot (hinv.store.revoked _ (.inr (Option.isSome_iff_ne_none.mpr hne)))

theorem Inv.revoke (hinv : Inv w) {k : APIKey} (h : w.Revocable k) :
    Keeps' i w (w.revoke k) ∧ (w.revoke k).RowRevoked k.ref := by
  obtain ⟨hnot, hevicted, hnone⟩ := hinv.not_revoked h
  obtain ⟨row, hrow, hhash, hlive⟩ := h
  have hself : (w.revoke k).rows k.ref = some { row with revoked := true } := by
    simp [World.revoke, hrow]
  have hother : ∀ ref, ref ≠ k.ref → (w.revoke k).rows ref = w.rows ref :=
    fun ref hne ↦ by simp [World.revoke, hne]
  have hrev : (w.revoke k).RowRevoked k.ref := ⟨_, hself, rfl⟩
  have hrevoked : ∀ ref, w.RowRevoked ref → (w.revoke k).RowRevoked ref := by
    rintro ref ⟨row', hrow', hr⟩
    rcases eq_or_ne ref k.ref with rfl | hne
    · exact hrev
    · exact ⟨row', by rw [hother ref hne, hrow'], hr⟩
  have hrevokedAt : ∀ ref, ref ≠ k.ref → (w.revoke k).revokedAt ref = w.revokedAt ref :=
    fun ref hne ↦ by simp [World.revoke, hne]
  have hepochs : ∀ tenant, w.epochs tenant ≤ (w.revoke k).epochs tenant := by
    intro tenant
    rcases eq_or_ne tenant k.tenantId with rfl | hne
    · simp [World.revoke]
    · simp [World.revoke, hne]
  -- No epoch that was recorded covers the new revocation.
  have hfinal : ∀ ref, (w.revoke k).Final ref ↔ w.Final ref := by
    intro ref
    rcases eq_or_ne ref k.ref with rfl | hne
    · constructor
      · rintro (hf | ⟨r, m, hr, hm, hle⟩)
        · exact .inl hf
        · have hr' : w.epochs k.tenantId + 1 = r := by simpa [World.revoke] using hr
          have := hinv.cache.highest k.tenantId m hm
          omega
      · rintro (hf | ⟨r, m, hr, hm, hle⟩)
        · exact .inl hf
        · rw [hnone] at hr
          cases hr
    · rw [World.Final, World.Covered, hrevokedAt ref hne]
      rfl
  refine ⟨⟨⟨⟨fun ref row' h ↦ ?_, fun hash ref h ↦ ?_, fun ref row' h ↦ ?_, fun ref h ↦ ?_⟩, ⟨hinv.cache.cached,
    fun hash k' t h hf ↦ hinv.cache.final hash k' t h ((hfinal _).mp hf), hinv.cache.recorded,
    fun tenant m h ↦ (hinv.cache.highest tenant m h).trans (hepochs tenant), hinv.cache.held⟩⟩,
    fun j _ ↦ ⟨le_rfl, fun ref ↦ (hfinal ref).mpr, hrevoked, fun _ _ h ↦ h, hepochs, fun _ h ↦ h⟩⟩,
    hrev⟩
  · rcases eq_or_ne ref k.ref with rfl | hne
    · rw [hself] at h
      obtain rfl := Option.some.inj h
      exact hinv.store.ref _ row hrow
    · exact hinv.store.ref ref row' (hother ref hne ▸ h)
  · obtain ⟨row', hrow', hhash'⟩ := hinv.store.hash hash ref h
    rcases eq_or_ne ref k.ref with rfl | hne
    · rw [hrow] at hrow'
      obtain rfl := Option.some.inj hrow'
      exact ⟨_, hself, hhash'⟩
    · exact ⟨row', by rw [hother ref hne, hrow'], hhash'⟩
  · rcases eq_or_ne ref k.ref with rfl | hne
    · rw [hself] at h
      obtain rfl := Option.some.inj h
      exact hinv.store.listed _ row hrow
    · exact hinv.store.listed ref row' (hother ref hne ▸ h)
  · rcases eq_or_ne ref k.ref with rfl | hne
    · exact hrev
    · rw [hrevokedAt ref hne] at h
      exact hrevoked ref (hinv.store.revoked ref h)

theorem Inv.tick (hinv : Inv w) {t : ℚ} (hlater : w.now ≤ t)
    (hheld : ∀ entry ∈ w.held, ∀ e, entry.2.expiresAt = some e → t ≤ e) :
    Keeps' i w { w with now := t } :=
  ⟨⟨⟨hinv.store.ref, hinv.store.hash, hinv.store.listed, hinv.store.revoked⟩,
    ⟨hinv.cache.cached, hinv.cache.final, hinv.cache.recorded, hinv.cache.highest, hheld⟩⟩,
    fun _ _ ↦ ⟨hlater, fun _ h ↦ h, fun _ h ↦ h, fun _ _ h ↦ h, fun _ ↦ le_rfl, fun _ h ↦ h⟩⟩

theorem Keeps'.trans (h : Keeps' i w₁ w₂) (h' : Keeps' i w₂ w₃) : Keeps' i w₁ w₃ :=
  ⟨h'.1, fun j hj ↦ (h.2 j hj).trans (h'.2 j hj)⟩

/-- The step lemma. -/
theorem inv_exec (hinv : Inv w) {o : Op} {a : Ret o} (h : Exec i w o a w')
    (horderly : Orderly i o w) (hproper : Proper i o w) : Keeps' i w w' := by
  cases h with
  | lookupCache hash =>
      obtain ⟨hcache, hsame, -⟩ := lookupCache_section hinv.cache hash
      exact hinv.keeps hcache hsame
  | settleCached hash tenant cachedAt epoch =>
      obtain ⟨hcache, hsame, -⟩ := hinv.cache.settle horderly hproper.2
      have htenant : ∀ ref, (w.settle tenant epoch).1.lookup hash = some ref → ref.1 = tenant :=
        hsame.lookup ▸ hproper.1
      obtain ⟨hcache', hsame', -⟩ := serve_section hcache hash cachedAt htenant
      exact hinv.keeps hcache' (hsame.trans hsame')
  | settleReread hash cachedAt read =>
      have hread : ∀ k, read = some k → k.keyHash = hash ∧ w.lookup k.keyHash = some k.ref ∧
          (w.usable k = true → ¬ w.Final k.ref) := by
        rintro k rfl
        exact ⟨hproper.1, hproper.2, horderly⟩
      obtain ⟨hcache, hsame, -⟩ := settleReread_section hinv.cache hash cachedAt hread
      exact hinv.keeps hcache hsame
  | checkLoaded k => exact hinv.checkLoaded hproper horderly
  | settleLoaded k epoch =>
      exact hinv.settleLoaded hproper.1.1 horderly.1 hproper.2 horderly.2
  | storeReread k => exact hinv.storeReread hproper horderly
  | saveKey k outcome hfree hrow hraised => exact hinv.save hfree
  | cacheIssued k => exact hinv.cacheIssued hproper horderly
  | revoke k outcome hrevocable hraised => exact (hinv.revoke hrevocable).1
  | evict k => exact hinv.evict hproper.1 hproper.2
  | rotate k replacement outcome hrevocable hfree hrow hraised =>
      have hrevoke := (hinv.revoke hrevocable (i := i)).1
      exact hrevoke.trans (hrevoke.1.save hfree)
  | finishRotate k replacement =>
      have hevict := hinv.evict hproper.1.1 hproper.1.2 (i := i)
      refine hevict.trans (hevict.1.cacheIssued hproper.2.1 fun hf ↦ horderly ?_)
      rcases hf with hf | hf
      · exact .inl (by simpa [World.evict, World.uncache, hproper.2.2] using hf)
      · exact .inr hf
  | tick t hlater => exact hinv.tick hlater horderly
  | _ => exact ⟨hinv, fun j _ ↦ Leaves.refl j w⟩

end Keys
