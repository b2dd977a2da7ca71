import AxonGateway.Keys.Revocation

/-!
# Validations after a final revocation

The programs keep the invariant of the cache. A validation that starts when the revocation of
a key is final does not return the key, and no validation returns an expired one.
-/

namespace Keys

open Interleaving

variable {i j : ℕ} {w₀ w w' w₁ w₂ : World} {α β : Type}

def protocol : Protocol World where
  inv := Inv
  rely := Leaves
  refl := Leaves.refl
  trans _ _ _ _ := Leaves.trans

abbrev machine : Machine Op Ret World := (service.restrict Orderly).machine

theorem op_safe {Q : α → World → Prop} {o : Op} {k : Ret o → Program α}
    (h : ∀ w₁, Leaves i w w₁ → Inv w₁ → Proper i o w₁ ∧
      ∀ a w₂, Exec i w₁ o a w₂ → Orderly i o w₁ → Inv w₂ → Safe machine protocol i Q (k a) w₂) :
    Safe machine protocol i Q (.call o k) w := by
  have hstep : ∀ o w a w', Inv w → machine.exec i o w a w' → Proper i o w →
      Inv w' ∧ ∀ j, j ≠ i → Leaves j w w' :=
    fun o w a w' hinv hexec ↦ inv_exec hinv hexec.1 hexec.2
  refine Safe.proper hstep fun w₁ hw hinv ↦ ?_
  obtain ⟨hproper, hk⟩ := h w₁ hw hinv
  exact ⟨hproper, fun a w₂ hexec ↦ hk a w₂ hexec.1 hexec.2⟩

/-! ### Validations -/

/-- The key was not final when the validation started, and is not expired when it is
returned. -/
def Sound (hash : String) (w₀ : World) (result : Validated) : Prop :=
  ∀ k t, result = some (k, t) →
    k.keyHash = hash ∧ ¬ w₀.Final k.ref ∧ ∀ e, k.expiresAt = some e → t ≤ e

theorem sound_none (hash : String) (w₀ : World) : Sound hash w₀ none :=
  fun k t h ↦ by cases h

theorem Inv.final_revoked (hinv : Inv w) {ref : KeyRef} (h : w.Final ref) : w.RowRevoked ref := by
  apply hinv.store.revoked
  rcases h with h | ⟨r, m, hr, -, -⟩
  · exact .inl h
  · exact .inr (by rw [hr]; rfl)

/-- The rows that were marked when the validation started are. -/
abbrev Marked (w₀ w : World) : Prop := ∀ ref, w₀.RowRevoked ref → w.RowRevoked ref

theorem Marked.leaves (h : Marked w₀ w) (hw : Leaves i w w') : Marked w₀ w' :=
  fun ref hr ↦ hw.revoked ref (h ref hr)

theorem Marked.of_rows (h : Marked w₀ w) (hrows : w'.rows = w.rows) : Marked w₀ w' := by
  intro ref hr
  rw [World.RowRevoked, hrows]
  exact h ref hr

/-- A key that the validation has read after it started. -/
structure Read (hash : String) (w₀ w : World) (k : APIKey) : Prop where
  hash : k.keyHash = hash
  listed : w.lookup k.keyHash = some k.ref
  live : k.revoked = false → ¬ w₀.Final k.ref

theorem Read.leaves {hash : String} {k : APIKey} (h : Read hash w₀ w k) (hw : Leaves i w w') :
    Read hash w₀ w' k :=
  ⟨h.hash, hw.lookup _ _ h.listed, h.live⟩

theorem Read.sound {hash : String} {k : APIKey} {t : ℚ} (h : Read hash w₀ w k)
    (hlive : k.revoked = false) (hexpiry : ∀ e, k.expiresAt = some e → t ≤ e) :
    Sound hash w₀ (some (k, t)) := by
  intro k' t' heq
  cases heq
  exact ⟨h.hash, h.live hlive, hexpiry⟩

theorem read_key (hinv₀ : Inv w₀) (hw : Marked w₀ w) (hinv : Inv w) {hash : String}
    {read : Option APIKey} (h : Exec i w (.readKey hash) read w') :
    w' = w ∧ ∀ k, read = some k → Read hash w₀ w k := by
  cases h with
  | readKey_failed => exact ⟨rfl, fun k hk ↦ by cases hk⟩
  | readKey =>
      refine ⟨rfl, fun k hk ↦ ?_⟩
      obtain ⟨ref, hlookup, hrow⟩ := Option.bind_eq_some_iff.mp hk
      obtain ⟨row, hrow', hhash⟩ := hinv.store.hash hash ref hlookup
      obtain rfl : k = row := Option.some.inj (hrow.symm.trans hrow')
      obtain rfl := hinv.store.ref ref k hrow
      refine ⟨hhash, hhash ▸ hlookup, fun hlive hf ↦ ?_⟩
      -- The row was marked when the validation started, and marks stay.
      obtain ⟨row, hrow'', hrevoked⟩ := hw _ (hinv₀.final_revoked hf)
      obtain rfl : k = row := Option.some.inj (hrow.symm.trans hrow'')
      rw [hlive] at hrevoked
      cases hrevoked

theorem read_epoch {tenant : Option String} {epoch : Option ℕ}
    (h : Exec i w (.readEpoch tenant) epoch w') :
    w' = w ∧ ∀ e, epoch = some e → e ≤ w.epochs tenant := by
  cases h with
  | readEpoch =>
      refine ⟨rfl, fun e he ↦ ?_⟩
      cases he
      exact le_rfl
  | readEpoch_failed => exact ⟨rfl, fun e he ↦ by cases he⟩

theorem answer_sound {hash : String} {served : Served}
    (h : ∀ k t, served = .key k t → Sound hash w₀ (some (k, t))) :
    Sound hash w₀ (answer served) := by
  cases served with
  | key k t => exact h k t rfl
  | poll tenant cachedAt => exact sound_none hash w₀
  | reread cachedAt => exact sound_none hash w₀
  | load => exact sound_none hash w₀
  | refused => exact sound_none hash w₀

theorem World.storeReread_key {k k' : APIKey} {t : ℚ} (h : (w.storeReread k).1 = .key k' t) :
    k' = k ∧ t = w.now ∧ w.usable k = true := by
  rw [storeReread] at h
  split_ifs at h with husable
  · cases h
    exact ⟨rfl, rfl, husable⟩

theorem World.checkLoaded_cases (w : World) (i : ℕ) (k : APIKey) :
    (w.checkLoaded i k).1 = .refused ∨
      (w.checkLoaded i k).1 = .key k w.now ∧ w.usable k = true ∨
      (w.checkLoaded i k).1 = .poll k.tenantId w.now ∧ w.usable k = true ∧
        (i, k) ∈ (w.checkLoaded i k).2.held := by
  rw [checkLoaded]
  split_ifs with husable hrecent
  · exact .inr (.inl ⟨rfl, husable⟩)
  · exact .inr (.inr ⟨rfl, husable, List.mem_cons_self⟩)
  · exact .inl rfl

theorem World.checkLoaded_store (w : World) (i : ℕ) (k : APIKey) :
    (w.checkLoaded i k).2.rows = w.rows ∧ (w.checkLoaded i k).2.lookup = w.lookup := by
  rw [checkLoaded]
  split_ifs <;> exact ⟨rfl, rfl⟩

theorem World.settle_rows (w : World) (tenant : Option String) (epoch : Option ℕ) :
    (w.settle tenant epoch).1.rows = w.rows := by
  cases epoch with
  | none => rfl
  | some epoch =>
      rw [settle]
      split
      · rfl
      · split_ifs <;> rfl

theorem World.settleLoaded_rows (w : World) (i : ℕ) (k : APIKey) (epoch : Option ℕ) :
    (w.settleLoaded i k epoch).2.rows = w.rows := by
  rw [settleLoaded]
  dsimp only
  split_ifs <;> exact w.settle_rows k.tenantId epoch

theorem World.settleLoaded_cases (w : World) (i : ℕ) (k : APIKey) (epoch : Option ℕ) :
    (w.settleLoaded i k epoch).1 = .reread w.now ∨ (w.settleLoaded i k epoch).1 = .key k w.now := by
  rw [settleLoaded]
  dsimp only
  split_ifs
  · exact .inl rfl
  · exact .inr rfl

theorem serve_not_poll (w : World) (hash : String) (tenant : Option String) (cachedAt : ℚ)
    {tenant' : Option String} {t : ℚ} : (w.serve hash tenant cachedAt).1 ≠ .poll tenant' t := by
  rw [World.serve]
  split_ifs
  · simp
  · rw [World.serveEntry]
    split
    · simp
    · split_ifs <;> simp

theorem lookupCache_poll (hc : CacheInv w) {hash : String} {tenant : Option String} {t : ℚ}
    (h : (w.lookupCache hash).1 = .poll tenant t) :
    ∃ ref, w.lookup hash = some ref ∧ ref.1 = tenant := by
  rw [World.lookupCache] at h
  cases hcached : w.cache hash with
  | none =>
      rw [hcached] at h
      cases h
  | some entry =>
      obtain ⟨k, cachedAt⟩ := entry
      rw [hcached] at h
      dsimp only at h
      split_ifs at h
      · exact absurd h (serve_not_poll w hash k.tenantId cachedAt)
      · cases h
        exact ⟨k.ref, (hc.cached hash k t hcached).2, rfl⟩

section Validations

variable (hinv₀ : Inv w₀)
include hinv₀

/-- The last read of a load. -/
theorem rereadKey_safe (hash : String) (hw : Marked w₀ w) :
    Safe machine protocol i (fun a _ ↦ Sound hash w₀ a) (do
      match ← Prog.op (Op.readKey hash) with
      | none => pure none
      | some k =>
          let served ← Prog.op (Op.storeReread k)
          pure (answer served)) w := by
  refine op_safe fun w₁ hw₁ hinv₁ ↦ ⟨trivial, fun read w₂ hexec _ _ ↦ ?_⟩
  obtain ⟨rfl, hread⟩ := read_key hinv₀ (hw.leaves hw₁) hinv₁ hexec
  cases read with
  | none => exact Safe.done fun _ _ _ ↦ sound_none hash w₀
  | some k =>
      refine op_safe fun w₃ hw₃ _ ↦ ?_
      have hk := (hread k rfl).leaves hw₃
      refine ⟨hk.listed, fun served w₄ hexec _ _ ↦ Safe.done fun _ _ _ ↦ ?_⟩
      cases hexec
      refine answer_sound fun k' t hserved ↦ ?_
      obtain ⟨rfl, rfl, husable⟩ := World.storeReread_key hserved
      exact hk.sound (usable_not_revoked husable) fun e ↦ usable_expiry husable

theorem loadKey_safe (hash : String) (hw : Marked w₀ w) :
    Safe machine protocol i (fun a _ ↦ Sound hash w₀ a) (loadKey hash) w := by
  refine op_safe fun w₁ hw₁ hinv₁ ↦ ⟨trivial, fun read w₂ hexec _ _ ↦ ?_⟩
  have hmarked := hw.leaves hw₁
  obtain ⟨rfl, hread⟩ := read_key hinv₀ hmarked hinv₁ hexec
  cases read with
  | none => exact Safe.done fun _ _ _ ↦ sound_none hash w₀
  | some k =>
  refine op_safe fun w₃ hw₃ _ ↦ ?_
  have hk := (hread k rfl).leaves hw₃
  refine ⟨hk.listed, fun served w₄ hexec _ hinv₄ ↦ ?_⟩
  cases hexec
  obtain hserved | ⟨hserved, husable⟩ | ⟨hserved, husable, hheld⟩ := w₃.checkLoaded_cases i k
  · rw [hserved]
    exact Safe.done fun _ _ _ ↦ sound_none hash w₀
  · rw [hserved]
    exact Safe.done fun _ _ _ ↦ hk.sound (usable_not_revoked husable) fun e ↦ usable_expiry husable
  · rw [hserved]
    obtain ⟨hrows, hlookup⟩ := w₃.checkLoaded_store i k
    have hmarked₄ := (hmarked.leaves hw₃).of_rows hrows
    have hk₄ : Read hash w₀ (w₃.checkLoaded i k).2 k := ⟨hk.hash, hlookup ▸ hk.listed, hk.live⟩
    refine op_safe fun w₅ hw₅ _ ↦ ⟨trivial, fun epoch w₆ hexec _ _ ↦ ?_⟩
    obtain ⟨rfl, hepoch⟩ := read_epoch hexec
    refine op_safe fun w₇ hw₇ hinv₇ ↦ ?_
    have hheld₇ := hw₇.held k (hw₅.held k hheld)
    have hk₇ := (hk₄.leaves hw₅).leaves hw₇
    have hmarked₇ := (hmarked₄.leaves hw₅).leaves hw₇
    have hepoch₇ : ∀ e, epoch = some e → e ≤ w₇.epochs k.tenantId :=
      fun e he ↦ (hepoch e he).trans (hw₇.epochs _)
    refine ⟨⟨⟨hk₇.listed, hheld₇⟩, hepoch₇⟩, fun served w₈ hexec _ _ ↦ ?_⟩
    cases hexec
    obtain hserved | hserved := w₇.settleLoaded_cases i k epoch
    · rw [hserved]
      exact rereadKey_safe hinv₀ hash (hmarked₇.of_rows (w₇.settleLoaded_rows i k epoch))
    · rw [hserved]
      refine Safe.done fun _ _ _ ↦ ?_
      exact hk₇.sound (usable_not_revoked husable) (hinv₇.cache.held (i, k) hheld₇)

/-- What was served from the cache while nothing was final for the validation. -/
theorem afterCache_safe (hash : String) (hw : Marked w₀ w) {served : Served}
    (hserved : ∀ k t, served = .key k t → Sound hash w₀ (some (k, t))) :
    Safe machine protocol i (fun a _ ↦ Sound hash w₀ a) (afterCache hash served) w := by
  cases served with
  | key k t => exact Safe.done fun _ _ _ ↦ hserved k t rfl
  | poll tenant cachedAt => exact Safe.done fun _ _ _ ↦ sound_none hash w₀
  | refused => exact Safe.done fun _ _ _ ↦ sound_none hash w₀
  | load => exact loadKey_safe hinv₀ hash hw
  | reread cachedAt =>
      refine op_safe fun w₁ hw₁ hinv₁ ↦ ⟨trivial, fun read w₂ hexec _ _ ↦ ?_⟩
      have hmarked := hw.leaves hw₁
      obtain ⟨rfl, hread⟩ := read_key hinv₀ hmarked hinv₁ hexec
      refine op_safe fun w₃ hw₃ hinv₃ ↦ ?_
      have hk₃ : ∀ k, read = some k → Read hash w₀ w₃ k := fun k hk ↦ (hread k hk).leaves hw₃
      refine ⟨?_, fun served w₄ hexec horderly _ ↦ ?_⟩
      · cases read with
        | none => trivial
        | some k => exact ⟨(hk₃ k rfl).hash, (hk₃ k rfl).listed⟩
      · cases hexec
        have hsection := settleReread_section hinv₃.cache hash cachedAt fun k hk ↦
          ⟨(hk₃ k hk).hash, (hk₃ k hk).listed, by subst hk; exact horderly⟩
        have hmarked₄ := (hmarked.leaves hw₃).of_rows hsection.same.rows
        cases hserved : (w₃.settleReread hash cachedAt read).1 with
        | load => exact loadKey_safe hinv₀ hash hmarked₄
        | key k t =>
            obtain ⟨rfl, husable, hread'⟩ := hsection.good k t hserved
            refine Safe.done fun _ _ _ ↦ ?_
            exact (hk₃ k hread').sound (usable_not_revoked husable) fun e ↦ usable_expiry husable
        | poll tenant cachedAt => exact Safe.done fun _ _ _ ↦ sound_none hash w₀
        | reread cachedAt => exact Safe.done fun _ _ _ ↦ sound_none hash w₀
        | refused => exact Safe.done fun _ _ _ ↦ sound_none hash w₀

theorem validateKey_safe (hash : String) (hw : Leaves i w₀ w) :
    Safe machine protocol i (fun a _ ↦ Sound hash w₀ a) (validateKey hash) w := by
  refine op_safe fun w₁ hw₁ hinv₁ ↦ ⟨trivial, fun served w₂ hexec _ _ ↦ ?_⟩
  have hw₀₁ := hw.trans hw₁
  cases hexec
  have hsection := lookupCache_section hinv₁.cache hash
  have hmarked : Marked w₀ (w₁.lookupCache hash).2 :=
    Marked.of_rows hw₀₁.revoked hsection.same.rows
  have hgood : ∀ k t, (w₁.lookupCache hash).1 = .key k t → Sound hash w₀ (some (k, t)) := by
    intro k t hserved k' t' heq
    cases heq
    obtain ⟨rfl, husable, hhash, hfinal⟩ := hsection.good k t hserved
    exact ⟨hhash, fun hf ↦ hfinal (hw₀₁.final _ hf), fun e ↦ usable_expiry husable⟩
  cases hserved : (w₁.lookupCache hash).1 with
  | poll tenant cachedAt =>
      refine op_safe fun w₃ hw₃ _ ↦ ⟨trivial, fun epoch w₄ hexec _ _ ↦ ?_⟩
      obtain ⟨rfl, hepoch⟩ := read_epoch hexec
      refine op_safe fun w₅ hw₅ hinv₅ ↦ ?_
      have htenant : ∀ ref, w₅.lookup hash = some ref → ref.1 = tenant := by
        obtain ⟨ref, hlookup, rfl⟩ := lookupCache_poll hinv₁.cache hserved
        intro ref' hlookup'
        have hlookup₅ := hw₅.lookup _ _ (hw₃.lookup hash ref (hsection.same.lookup ▸ hlookup))
        rw [← Option.some.inj (hlookup₅.symm.trans hlookup')]
      have hepoch₅ : ∀ e, epoch = some e → e ≤ w₅.epochs tenant :=
        fun e he ↦ (hepoch e he).trans (hw₅.epochs tenant)
      refine ⟨⟨htenant, hepoch₅⟩, fun served w₆ hexec horderly _ ↦ ?_⟩
      cases hexec
      obtain ⟨hcache, hsame, -⟩ := hinv₅.cache.settle horderly hepoch₅
      have hsection₅ := serve_section hcache hash cachedAt (hsame.lookup ▸ htenant)
      have hmarked₅ : Marked w₀ w₅ := (hmarked.leaves hw₃).leaves hw₅
      have hrows := hsection₅.same.rows.trans hsame.rows
      refine afterCache_safe hinv₀ hash (hmarked₅.of_rows hrows) fun k t hserved ↦ ?_
      intro k' t' heq
      cases heq
      obtain ⟨rfl, husable, hhash, hfinal⟩ := hsection₅.good k t hserved
      -- What was final at the start still is when the epoch has been settled.
      have hfinal₀ : ∀ ref, w₀.Final ref → w₅.Final ref := fun ref hf ↦
        hw₅.final ref (hw₃.final ref (hsection.same.final ref (hw₀₁.final ref hf)))
      exact ⟨hhash, fun hf ↦ hfinal (hsame.final _ (hfinal₀ _ hf)), fun e ↦ usable_expiry husable⟩
  | key k t => exact afterCache_safe hinv₀ hash hmarked (hserved ▸ hgood)
  | reread cachedAt => exact afterCache_safe hinv₀ hash hmarked (hserved ▸ hgood)
  | load => exact afterCache_safe hinv₀ hash hmarked (hserved ▸ hgood)
  | refused => exact afterCache_safe hinv₀ hash hmarked (hserved ▸ hgood)

end Validations

/-! ### Issues, revocations and rotations -/

theorem done_safe {Q : α → World → Prop} {a : α} (h : ∀ w, Q a w) :
    Safe machine protocol i Q (.done a) w :=
  Safe.done fun w' _ _ ↦ h w'

/-- An issue forgets no revocation. -/
theorem issueKey_safe (k : APIKey) :
    Safe machine protocol i (fun _ w' ↦ ∀ ref, w.Final ref → w'.Final ref) (issueKey k) w := by
  refine op_safe fun w₁ hw₁ _ ↦ ⟨trivial, fun outcome w₂ hexec _ _ ↦ ?_⟩
  cases hexec with
  | saveKey_refused => exact Safe.done fun w₃ hw₃ _ ref hf ↦ hw₃.final ref (hw₁.final ref hf)
  | saveKey_raised => exact Safe.done fun w₃ hw₃ _ ref hf ↦ hw₃.final ref (hw₁.final ref hf)
  | saveKey _ outcome hfree hrow hraised =>
      have hsaved : ∀ ref, w.Final ref → (w₁.save k).Final ref := hw₁.final
      cases outcome with
      | refused => exact absurd rfl hraised
      | raised => exact Safe.done fun w₃ hw₃ _ ref hf ↦ hw₃.final ref (hsaved ref hf)
      | committed =>
          refine op_safe fun w₃ hw₃ _ ↦ ⟨hw₃.lookup _ _ (Function.update_self ..),
            fun _ w₄ hexec _ _ ↦ Safe.done fun w₅ hw₅ _ ref hf ↦ ?_⟩
          cases hexec
          exact hw₅.final ref (hw₃.final ref (hsaved ref hf))

/-- The row of the key as it was read. -/
theorem get_key (hinv : Inv w) {keyId : String} {tenant : Option String} {read : Option APIKey}
    (h : Exec i w (.getKey keyId tenant) read w') :
    w' = w ∧ ∀ k, read = some k → k.ref = (tenant, keyId) ∧ w.lookup k.keyHash = some k.ref ∧
      (k.revoked = true → w.RowRevoked k.ref) := by
  cases h with
  | getKey_failed => exact ⟨rfl, fun k hk ↦ by cases hk⟩
  | getKey =>
      refine ⟨rfl, fun k hk ↦ ?_⟩
      have href := hinv.store.ref _ k hk
      refine ⟨href, ?_, fun hrevoked ↦ ⟨k, ?_, hrevoked⟩⟩
      · rw [href]
        exact hinv.store.listed _ k hk
      · rw [href]
        exact hk

theorem Inv.revoked_of_not_revocable (hinv : Inv w) {k : APIKey}
    (hlookup : w.lookup k.keyHash = some k.ref) (h : ¬ w.Revocable k) : w.RowRevoked k.ref := by
  obtain ⟨row, hrow, hhash⟩ := hinv.store.hash _ _ hlookup
  refine ⟨row, hrow, ?_⟩
  by_contra hlive
  exact h ⟨row, hrow, hhash, by simpa using hlive⟩

theorem evict_safe {k : APIKey} (hlookup : w.lookup k.keyHash = some k.ref)
    (hrow : w.RowRevoked k.ref) (result : Answer) :
    Safe machine protocol i (fun _ w' ↦ w'.Final k.ref) (do
      Prog.op (Op.evict k)
      pure result) w := by
  refine op_safe fun w₁ hw₁ _ ↦ ⟨⟨hw₁.lookup _ _ hlookup, hw₁.revoked _ hrow⟩,
    fun _ w₂ hexec _ _ ↦ Safe.done fun w₃ hw₃ _ ↦ ?_⟩
  cases hexec
  exact hw₃.final _ (.inl (Function.update_self ..))

/-- An own revocation that came back is final. -/
theorem revokeKey_safe (keyId : String) (tenant : Option String) :
    Safe machine protocol i (fun a w' ↦ a = .returned true → w'.Final (tenant, keyId))
      (revokeKey keyId tenant) w := by
  refine op_safe fun w₁ _ hinv₁ ↦ ⟨trivial, fun read w₂ hexec _ _ ↦ ?_⟩
  obtain ⟨rfl, hread⟩ := get_key hinv₁ hexec
  cases read with
  | none => exact done_safe fun _ h ↦ by cases h
  | some k =>
  obtain ⟨href, hlookup, hrow⟩ := hread k rfl
  rw [← href]
  have hevict : ∀ {w : World} (result : Answer), w.lookup k.keyHash = some k.ref →
      w.RowRevoked k.ref → Safe machine protocol i (fun a w' ↦ a = .returned true → w'.Final k.ref)
        (do
          Prog.op (Op.evict k)
          pure result) w :=
    fun result hlookup hrow ↦ (evict_safe hlookup hrow result).imp fun _ _ hf _ ↦ hf
  change Safe machine protocol i _ (ite _ _ _) _
  split_ifs with hrevoked
  · exact hevict _ hlookup (hrow hrevoked)
  · refine op_safe fun w₃ hw₃ hinv₃ ↦ ⟨trivial, fun outcome w₄ hexec _ _ ↦ ?_⟩
    have hlookup₃ := hw₃.lookup _ _ hlookup
    cases hexec with
    | revoke_refused _ hrevocable =>
        exact hevict _ hlookup₃ (hinv₃.revoked_of_not_revocable hlookup₃ hrevocable)
    | revoke_raised => exact done_safe fun _ h ↦ by cases h
    | revoke _ _ hrevocable hraised =>
        cases outcome with
        | refused => exact absurd rfl hraised
        | raised => exact done_safe fun _ h ↦ by cases h
        | committed => exact hevict _ hlookup₃ (hinv₃.revoke hrevocable (i := i)).2

theorem finishRotate_safe {k replacement : APIKey}
    (hk : w.lookup k.keyHash = some k.ref ∧ w.RowRevoked k.ref)
    (hreplacement : w.lookup replacement.keyHash = some replacement.ref)
    (hne : replacement.ref ≠ k.ref) :
    Safe machine protocol i (fun _ w' ↦ w'.Final k.ref) (do
      Prog.op (Op.finishRotate k replacement)
      pure (Answer.returned true)) w := by
  refine op_safe fun w₁ hw₁ _ ↦ ⟨?_, fun _ w₂ hexec _ _ ↦ Safe.done fun w₃ hw₃ _ ↦ ?_⟩
  · exact ⟨⟨hw₁.lookup _ _ hk.1, hw₁.revoked _ hk.2⟩, hw₁.lookup _ _ hreplacement, hne⟩
  · cases hexec
    exact hw₃.final _ (.inl (Function.update_self ..))

theorem rotateKey_safe (keyId : String) (tenant : Option String) (replacement : APIKey) :
    Safe machine protocol i (fun a w' ↦ a = .returned true → w'.Final (tenant, keyId))
      (rotateKey keyId tenant replacement) w := by
  refine op_safe fun w₁ _ hinv₁ ↦ ⟨trivial, fun read w₂ hexec _ _ ↦ ?_⟩
  obtain ⟨rfl, hread⟩ := get_key hinv₁ hexec
  cases read with
  | none => exact done_safe fun _ h ↦ by cases h
  | some k =>
  obtain ⟨href, hlookup, -⟩ := hread k rfl
  change Safe machine protocol i _ (ite _ _ _) _
  split_ifs with htenant
  · rw [← href]
    refine op_safe fun w₃ hw₃ hinv₃ ↦ ⟨trivial, fun outcome w₄ hexec _ _ ↦ ?_⟩
    have hlookup₃ := hw₃.lookup _ _ hlookup
    cases hexec with
    | rotate_refused _ _ hrevocable =>
        have hrow := hinv₃.revoked_of_not_revocable hlookup₃ hrevocable
        exact (evict_safe hlookup₃ hrow (.returned false)).imp fun _ _ hf _ ↦ hf
    | rotate_raised => exact done_safe fun _ h ↦ by cases h
    | rotate _ _ _ hrevocable hfree hrow hraised =>
        obtain ⟨hrevoke, hrevoked⟩ := hinv₃.revoke hrevocable (i := i)
        have hsave := (hrevoke.1.save hfree (i := i)).2 (i + 1) (Nat.succ_ne_self i)
        -- The replacement has a row of its own.
        have hne : replacement.ref ≠ k.ref := by
          intro heq
          obtain ⟨row, hrow', -⟩ := hrevoked
          have hnone := hfree.1
          rw [heq, hrow'] at hnone
          cases hnone
        cases outcome with
        | refused => exact absurd rfl hraised
        | raised => exact done_safe fun _ h ↦ by cases h
        | committed =>
            have hlookup₄ := hsave.lookup _ _ hlookup₃
            have hrevoked₄ := hsave.revoked _ hrevoked
            refine (finishRotate_safe ⟨hlookup₄, hrevoked₄⟩ ?_ hne).imp fun _ _ hf _ ↦ hf
            exact Function.update_self ..
  · have htenant' : tenant = k.tenantId := (congrArg Prod.fst href).symm
    rw [htenant']
    refine Safe.seq (revokeKey_safe keyId k.tenantId) fun a w₃ _ hf ↦ ?_
    rcases a with result | changed | _
    · exact done_safe fun _ h ↦ by cases h
    · cases changed with
      | false => exact done_safe fun _ h ↦ by cases h
      | true => exact (issueKey_safe replacement).imp fun _ _ hkeep _ ↦ hkeep _ (hf rfl)
    · exact done_safe fun _ h ↦ by cases h

/-- What a call has seen to when it returns. -/
def Fulfilled (c : Call) (w₀ : World) (a : Answer) (w : World) : Prop :=
  match c, a with
  | .validateKey hash, .validated result => Sound hash w₀ result
  | .revokeKey keyId tenant, .returned true => w.Final (tenant, keyId)
  | .rotateKey keyId tenant _, .returned true => w.Final (tenant, keyId)
  | _, _ => True

theorem body_safe (hinv : Inv w) (c : Call) :
    Safe machine protocol i (Fulfilled c w) (body c) w := by
  have helsewhere : ∀ {o : Op} {Q : Answer → World → Prop}, (∀ w, Proper i o w) →
      (∀ a w, Q a w) → Safe machine protocol i Q (elsewhere o) w := by
    intro o Q hproper hQ
    exact op_safe fun w₁ _ _ ↦ ⟨hproper w₁, fun _ w₂ _ _ _ ↦ done_safe (hQ _)⟩
  cases c with
  | validateKey hash =>
      exact Safe.seq (validateKey_safe hinv hash (Leaves.refl i w)) fun _ _ _ h ↦ done_safe fun _ ↦ h
  | issueKey k => exact (issueKey_safe k).imp fun _ _ _ ↦ trivial
  | revokeKey keyId tenant =>
      refine (revokeKey_safe keyId tenant).imp fun a w' h ↦ ?_
      rcases a with result | (_ | _) | _
      · trivial
      · trivial
      · exact h rfl
      · trivial
  | rotateKey keyId tenant replacement =>
      refine (rotateKey_safe keyId tenant replacement).imp fun a w' h ↦ ?_
      rcases a with result | (_ | _) | _
      · trivial
      · trivial
      · exact h rfl
      · trivial
  | issueElsewhere k => exact helsewhere (fun _ ↦ trivial) fun _ _ ↦ trivial
  | revokeElsewhere k => exact helsewhere (fun _ ↦ trivial) fun _ _ ↦ trivial
  | tick t => exact helsewhere (fun _ ↦ trivial) fun _ _ ↦ trivial

/-! ### Runs -/

theorem obligations : Obligations (service.restrict Orderly) protocol (fun _ _ ↦ True)
    (fun _ c w₀ a w ↦ Fulfilled c w₀ a w) where
  pre_rely _ _ _ _ _ := trivial
  env w w' hinv henv := by
    obtain rfl : w = w' := henv
    exact ⟨hinv, fun i ↦ Leaves.refl i w⟩
  start _ c hinv _ _ _ := body_safe hinv c

theorem inv_start (now : ℚ) : Inv (start now) := by
  refine ⟨⟨fun ref row h ↦ ?_, fun hash ref h ↦ ?_, fun ref row h ↦ ?_, fun ref h ↦ ?_⟩,
    ⟨fun hash k t h ↦ ?_, fun hash k t h ↦ ?_, fun _ _ ↦ rfl, fun tenant m h ↦ ?_, fun _ h ↦ ?_⟩⟩
  · cases h
  · cases h
  · cases h
  · rcases h with h | h <;> cases h
  · cases h
  · cases h
  · cases h
  · cases h

abbrev ServicePool := Pool Op Ret World Call Answer

/-- Any calls on one instance and any transactions elsewhere, in any order: as long as they
are orderly, a revocation of its own that came back is final, and a validation returns a key
that was not final when it started and that is not expired. -/
theorem final_of_orderly {now : ℚ} {p : ServicePool}
    (hp : Reachable (service.restrict Orderly) (start now) p) :
    (∀ (i : ℕ) (w₀ : World) (c : Call) (keyId : String) (tenant : Option String),
      p.threads[i]? = some ⟨c, w₀, .done (.returned true)⟩ →
      (c = .revokeKey keyId tenant ∨ ∃ replacement, c = .rotateKey keyId tenant replacement) →
        p.state.Final (tenant, keyId)) ∧
      ∀ (i : ℕ) (w₀ : World) (hash : String) (k : APIKey) (t : ℚ),
        p.threads[i]? = some ⟨.validateKey hash, w₀, .done (.validated (some (k, t)))⟩ →
          k.keyHash = hash ∧ ¬ w₀.Final k.ref ∧ ∀ e, k.expiresAt = some e → t ≤ e := by
  have hsafe := Reachable.poolSafe obligations (inv_start now) (fun _ ↦ trivial) hp
  refine ⟨fun i w₀ c keyId tenant hi hc ↦ ?_, fun i w₀ hash k t hi ↦ ?_⟩
  · have hfulfilled := hsafe.result hi
    rcases hc with rfl | ⟨replacement, rfl⟩
    · exact hfulfilled
    · exact hfulfilled
  · exact hsafe.result hi k t rfl

/-! ### A key that is read before its revocation and cached after it -/

/-- How an operation turns out when nothing fails. -/
def act (i : ℕ) : (o : Op) → World → Option (Ret o × World)
  | .lookupCache hash, w => some (w.lookupCache hash)
  | .readEpoch tenant, w => some (some (w.epochs tenant), w)
  | .readKey hash, w => some ((w.lookup hash).bind w.rows, w)
  | .checkLoaded k, w => some (w.checkLoaded i k)
  | .settleLoaded k epoch, w => some (w.settleLoaded i k epoch)
  | .storeReread k, w => some (w.storeReread k)
  | .getKey keyId tenant, w => some (w.rows (tenant, keyId), w)
  | .saveKey k, w =>
      if w.rows k.ref = none ∧ w.lookup k.keyHash = none ∧ k.revoked = false then
        some (.committed, w.save k)
      else none
  | .cacheIssued k, w => some ((), w.cacheIssued k)
  | .revoke k, w =>
      if (w.rows k.ref).any fun row ↦ row.keyHash == k.keyHash && !row.revoked then
        some (.committed, w.revoke k)
      else none
  | .evict k, w => some ((), w.evict k)
  | _, _ => none

theorem exec_pair {o : Op} {result : Ret o × World} (hexec : Exec i w o result.1 result.2)
    {a : Ret o} (h : some result = some (a, w')) : Exec i w o a w' := by
  cases h
  exact hexec

theorem exec_act {o : Op} {a : Ret o} (h : act i o w = some (a, w')) : Exec i w o a w' := by
  cases o with
  | lookupCache hash => exact exec_pair (.lookupCache hash) h
  | readEpoch tenant => exact exec_pair (.readEpoch tenant) h
  | readKey hash => exact exec_pair (.readKey hash) h
  | checkLoaded k => exact exec_pair (.checkLoaded k) h
  | settleLoaded k epoch => exact exec_pair (.settleLoaded k epoch) h
  | storeReread k => exact exec_pair (.storeReread k) h
  | getKey keyId tenant => exact exec_pair (.getKey keyId tenant) h
  | saveKey k =>
      dsimp only [act] at h
      split_ifs at h with hfree
      obtain ⟨hrow, hlookup, hlive⟩ := hfree
      exact exec_pair (.saveKey k .committed ⟨hrow, hlookup⟩ hlive (by simp)) h
  | cacheIssued k => exact exec_pair (.cacheIssued k) h
  | revoke k =>
      dsimp only [act] at h
      split_ifs at h with hany
      obtain ⟨row, hrow, hlive⟩ := (Option.any_eq_true ..).mp hany
      rw [Bool.and_eq_true, beq_iff_eq, Bool.not_eq_true'] at hlive
      exact exec_pair (.revoke k .committed ⟨row, hrow, hlive⟩ (by simp)) h
  | evict k => exact exec_pair (.evict k) h
  | _ => cases h

/-- A test of the order of a run that adopts no epoch. -/
def orderly : Op → World → Bool
  | .checkLoaded k, w => !w.usable k || !w.recent k.tenantId ||
      !w.evicted k.ref && (w.revokedAt k.ref).isNone
  | .cacheIssued k, w => !w.evicted k.ref && (w.revokedAt k.ref).isNone
  | .lookupCache _, _ | .readKey _, _ | .getKey _ _, _ | .saveKey _, _ | .revoke _, _
  | .evict _, _ => true
  | _, _ => false

def acmeKey (name : String) : APIKey :=
  { keyId := name, keyHash := name, tenantId := some "acme", expiresAt := none, revoked := false }

def play (ok : Op → World → Bool) (now : ℚ) (turns : List (Turn Call)) : ServicePool :=
  Pool.playTurns body (fun i o w ↦ if ok o w then act i o w else none) turns ⟨start now, []⟩

/-- The first epoch is recorded with another key; a validation reads the key, the key is
revoked here, the validation goes on, and the next one starts. -/
def overtaken : List (Turn Call) :=
  [.start (.issueElsewhere (acmeKey "first")), .next 0, .start (.issueElsewhere (acmeKey "key")),
    .next 1, .start (.validateKey "first")] ++ List.replicate 7 (.next 2) ++
  [.start (.validateKey "key"), .next 3, .next 3, .start (.revokeKey "key" (some "acme")),
    .next 4, .next 4, .next 4, .next 3, .start (.validateKey "key"), .next 5]

/-- The key is issued, returned, and revoked before the next validation. -/
def inTurn : List (Turn Call) :=
  [.start (.issueKey (acmeKey "key")), .next 0, .next 0, .start (.validateKey "key"), .next 1,
    .start (.revokeKey "key" (some "acme")), .next 2, .next 2, .next 2]

/-- Whether validation `i` returned a key, and whether this instance had revoked it. -/
def returnedKey (p : ServicePool) (i : ℕ) : Option (APIKey × Bool) :=
  match (p.threads[i]? : Option (Thread Op Ret World Call Answer)) with
  | some ⟨.validateKey "key", w₀, .done (.validated (some (k, _)))⟩ => some (k, w₀.evicted k.ref)
  | _ => none

/-- Whether the revocation came back. -/
def returnedTrue (p : ServicePool) (i : ℕ) : Bool :=
  match (p.threads[i]? : Option (Thread Op Ret World Call Answer)) with
  | some ⟨.revokeKey "key" (some "acme"), _, .done (.returned true)⟩ => true
  | _ => false

theorem returnedTrue_spec {p : ServicePool} (h : returnedTrue p i = true) : ∃ w₀ : World,
    p.threads[i]? = some ⟨.revokeKey "key" (some "acme"), w₀, .done (.returned true)⟩ := by
  unfold returnedTrue at h
  split at h
  next w₀ hi => exact ⟨w₀, hi⟩
  next => cases h

theorem returnedKey_spec {p : ServicePool} {k : APIKey} {evicted : Bool}
    (h : returnedKey p i = some (k, evicted)) : ∃ (w₀ : World) (t : ℚ),
      p.threads[i]? = some ⟨.validateKey "key", w₀, .done (.validated (some (k, t)))⟩ ∧
        w₀.evicted k.ref = evicted := by
  unfold returnedKey at h
  split at h
  next w₀ k' t hi =>
    cases h
    exact ⟨w₀, t, hi, rfl⟩
  next => cases h

theorem orderly_sound {o : Op} (h : orderly o w = true) : Orderly i o w := by
  have hfinal : ∀ {k : APIKey}, (!w.evicted k.ref && (w.revokedAt k.ref).isNone) = true →
      ¬ w.Final k.ref := by
    intro k hk hf
    rw [Bool.and_eq_true, Bool.not_eq_true', Option.isNone_iff_eq_none] at hk
    rcases hf with hf | ⟨r, m, hr, -, -⟩
    · exact absurd (hk.1.symm.trans hf) (by simp)
    · exact absurd (hk.2.symm.trans hr) (by simp)
  cases o with
  | checkLoaded k =>
      intro husable hrecent
      rw [orderly, husable, hrecent] at h
      exact hfinal h
  | cacheIssued k => exact hfinal h
  | lookupCache hash => trivial
  | readKey hash => trivial
  | getKey keyId tenant => trivial
  | saveKey k => trivial
  | revoke k => trivial
  | evict k => trivial
  | _ => cases h

theorem final_inTurn : (play orderly 0 inTurn).state.Final (acmeKey "key").ref ∧
    ∃ (w₀ : World) (t : ℚ), (play orderly 0 inTurn).threads[1]? =
      some ⟨.validateKey "key", w₀, .done (.validated (some (acmeKey "key", t)))⟩ ∧
        ¬ w₀.Final (acmeKey "key").ref := by
  have hplay : Steps (service.restrict Orderly) ⟨start 0, []⟩ (play orderly 0 inTurn) := by
    refine Steps.playTurns (S := service.restrict Orderly) (fun i o w a w' h ↦ ?_) _
      (fun _ _ _ ↦ trivial) _
    split_ifs at h with hok
    exact ⟨exec_act h, orderly_sound hok⟩
  obtain ⟨hfinal, hsound⟩ := final_of_orderly hplay
  obtain ⟨w₀, t, hi, -⟩ : ∃ (w₀ : World) (t : ℚ), (play orderly 0 inTurn).threads[1]? =
      some ⟨.validateKey "key", w₀, .done (.validated (some (acmeKey "key", t)))⟩ ∧
        w₀.evicted (acmeKey "key").ref = false := returnedKey_spec (by decide +kernel)
  refine ⟨?_, w₀, t, hi, (hsound 1 w₀ "key" _ t hi).2.1⟩
  obtain ⟨w₁, hw₁⟩ : ∃ w₁, (play orderly 0 inTurn).threads[2]? =
      some ⟨.revokeKey "key" (some "acme"), w₁, .done (.returned true)⟩ :=
    returnedTrue_spec (by decide +kernel)
  exact hfinal 2 w₁ _ "key" (some "acme") hw₁ (.inl rfl)

/-- The validation that starts after the revocation came back returns the key. -/
theorem overtaken_not_final : ∃ p : ServicePool, Reachable service (start 1000) p ∧
    ∃ (w₀ : World) (t : ℚ), p.threads[5]? =
      some ⟨.validateKey "key", w₀, .done (.validated (some (acmeKey "key", t)))⟩ ∧
        w₀.Final (acmeKey "key").ref := by
  refine ⟨play (fun _ _ ↦ true) 1000 overtaken, ?_, ?_⟩
  · exact Steps.playTurns (S := service) (fun i o w a w' h ↦ exec_act (by simpa using h)) _
      (fun _ _ _ ↦ trivial) _
  · obtain ⟨w₀, t, hi, hevicted⟩ : ∃ (w₀ : World) (t : ℚ),
        (play (fun _ _ ↦ true) 1000 overtaken).threads[5]? =
          some ⟨.validateKey "key", w₀, .done (.validated (some (acmeKey "key", t)))⟩ ∧
        w₀.evicted (acmeKey "key").ref = true := returnedKey_spec (by decide +kernel)
    exact ⟨w₀, t, hi, .inl hevicted⟩

end Keys
