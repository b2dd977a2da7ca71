import AxonGateway.Lib.Effects
import AxonGateway.RateLimit.SharedWindow

/-!
# Admission across a fleet

Every counter holds the number of calls whose transaction committed for its scope and window,
and never more than the limit.  A denied call is not among them; one of its counters was full,
and it is told to wait until the window has ended.
-/

namespace SharedLimit

open Interleaving

variable {sha256 : List Char → String} {limits : Limits} {i : ℕ} {w w' : World} {r : Request}

/-! ### Keys -/

theorem ResourceType.name_injective : Function.Injective ResourceType.name := by
  intro a b h
  cases a <;> cases b <;> first | rfl | exact absurd h (by decide)

/-- Scopes and windows have keys of their own. -/
theorem rateLimitCounterKey_inj (hsha : Function.Injective sha256) {s s' : Scope} {t t' : ℤ}
    (h : rateLimitCounterKey sha256 s t = rateLimitCounterKey sha256 s' t') : s = s' ∧ t = t' := by
  obtain ⟨hpk, hsk⟩ := Prod.mk.inj h
  have htext := JsonText.array_injective (hsha (String.append_right_inj _ |>.mp hpk))
  have hstart := Int.repr_injective (String.append_right_inj _ |>.mp hsk)
  obtain ⟨space, tenant, type, id⟩ := s
  obtain ⟨space', tenant', type', id'⟩ := s'
  simp only [List.cons.injEq, Option.some.injEq, and_true] at htext
  obtain ⟨rfl, rfl, htype, rfl⟩ := htext
  obtain rfl := ResourceType.name_injective htype
  exact ⟨rfl, hstart⟩

/-- The counters of a call are distinct. -/
theorem nodup_updates (r : Request) : (r.updates.map fun u ↦ (u.scope, u.windowStart)).Nodup := by
  unfold Request.updates Request.counters
  cases r.userLimit <;> cases r.userId <;> simp

/-- The counters of a call have different keys. -/
theorem nodup_keys (hsha : Function.Injective sha256) (r : Request) :
    (r.updates.map (Update.key sha256)).Nodup := by
  have hinj : Function.Injective fun p : Scope × ℤ ↦ rateLimitCounterKey sha256 p.1 p.2 := by
    intro p q h
    exact Prod.ext_iff.mpr (rateLimitCounterKey_inj hsha h)
  have hmap : r.updates.map (Update.key sha256) =
      (r.updates.map fun u ↦ (u.scope, u.windowStart)).map
        fun p ↦ rateLimitCounterKey sha256 p.1 p.2 := by
    rw [List.map_map]
    rfl
  rw [hmap]
  exact List.Nodup.map hinj (nodup_updates r)

theorem Limits.Agree.limit_eq (h : limits.Agree r) {u : Update} (hu : u ∈ r.updates) :
    u.limit = limits.limit u.scope := by
  obtain ⟨counter, hcounter, rfl⟩ := List.mem_map.mp hu
  exact h.2 counter hcounter

/-! ### Waiting -/

/-- The double next to 0.999999. -/
theorem le_round_fraction : (9007190247541737 : ℚ) / 2 ^ 53 ≤ Binary64.round (999999 / 1000000) := by
  have hlow : (-1 : ℤ) ≤ Int.log 2 (999999 / 1000000 : ℚ) :=
    (Int.zpow_le_iff_le_log (by norm_num) (by norm_num)).mp (by norm_num)
  have hhigh : Int.log 2 (999999 / 1000000 : ℚ) < 0 :=
    (Int.lt_zpow_iff_log_lt (by norm_num) (by norm_num)).mp (by norm_num)
  have hexpo : Binary64.expo (999999 / 1000000) = -53 := by
    rw [Binary64.expo]
    omega
  have hmant : (9007190247541737 : ℤ) ≤
      Binary64.roundHalfEven (999999 / 1000000 / 2 ^ (-53 : ℤ)) := by
    apply Binary64.le_roundHalfEven
    norm_num
  have hmant' : (9007190247541737 : ℚ) ≤
      Binary64.roundHalfEven (999999 / 1000000 / 2 ^ (-53 : ℤ)) := by
    exact_mod_cast hmant
  rw [Binary64.round, hexpo, div_le_iff₀ (by positivity), mul_assoc, ← zpow_natCast,
    ← zpow_add₀ (by norm_num)]
  simpa using hmant'

/-- One microsecond in units of the last place, rounded: adding the fraction to it comes closer
to one than half a place. -/
def tick (d : ℕ) : ℕ := (2 ^ (d + 1) + 1000000) / 2000000

theorem tick_spec : ∀ d ≤ 52, 2 * 1000000 * tick d < 1000000 + 2 ^ (d + 1) ∧
    2 ^ 53 * 2 ^ d ≤ 2 ^ 53 * tick d + 9007190247541737 * 2 ^ d + 2 ^ 52 := by
  decide

theorem natCast_le_ceilSeconds {micros : ℤ} {n : ℕ} (hn : n < 2 ^ 52) (hlow : n * 1000000 ≤ micros) :
    n ≤ ceilSeconds micros := by
  have hq : (n : ℚ) ≤ micros / 1000000 := by
    rw [le_div_iff₀ (by norm_num)]
    exact_mod_cast hlow
  have hround := Binary64.natCast_le_round hn.le hq
  have hfraction : (0 : ℚ) ≤ Binary64.round (999999 / 1000000) :=
    Binary64.round_nonneg (by norm_num)
  have h : (n : ℚ) ≤ Binary64.round
      (Binary64.round (micros / 1000000) + Binary64.round (999999 / 1000000)) :=
    Binary64.natCast_le_round hn.le (by linarith)
  apply Int.le_floor.mpr
  rw [Int.cast_natCast]
  exact h

/-- A second that has begun counts in full. -/
theorem succ_le_ceilSeconds {micros : ℤ} {n : ℕ} (hn : n + 1 < 2 ^ 52) (hpos : 0 < n)
    (hlow : n * 1000000 < micros) (hhigh : micros < (n + 1) * 1000000) :
    n + 1 ≤ ceilSeconds micros := by
  set e := Nat.log 2 n with he
  have hlog : e < 52 := Nat.log_lt_of_lt_pow hpos.ne' (by omega)
  obtain ⟨d, hd⟩ : ∃ d, e + d = 52 := ⟨52 - e, by omega⟩
  have hpow : 2 ^ e ≤ n := Nat.pow_log_le_self 2 hpos.ne'
  have hpow' : n + 1 ≤ 2 ^ (e + 1) := Nat.lt_pow_succ_log_self (by norm_num) n
  obtain ⟨hfirst, hsecond⟩ := tick_spec d (by omega)
  have hx : (n : ℚ) + 1 / 1000000 ≤ micros / 1000000 := by
    rw [le_div_iff₀ (by norm_num)]
    have : (n : ℤ) * 1000000 + 1 ≤ micros := hlow
    have : (n : ℚ) * 1000000 + 1 ≤ micros := by exact_mod_cast this
    linarith
  have hx' : (micros : ℚ) / 1000000 < n + 1 := by
    rw [div_lt_iff₀ (by norm_num)]
    exact_mod_cast hhigh
  have hle : (2 : ℚ) ^ e ≤ n := by exact_mod_cast hpow
  have hle' : (n : ℚ) + 1 ≤ 2 ^ (e + 1) := by exact_mod_cast hpow'
  have hd' : (0 : ℚ) < 2 ^ d := by positivity
  have hfirst' : 2 * 1000000 * (tick d : ℚ) < 1000000 + 2 * 2 ^ d := by
    have : 2 * 1000000 * (tick d : ℚ) < 1000000 + 2 ^ (d + 1) := by exact_mod_cast hfirst
    rwa [pow_succ, mul_comm (2 ^ d) 2] at this
  have hsecond' : 2 ^ 53 * (2 : ℚ) ^ d ≤ 2 ^ 53 * tick d + 9007190247541737 * 2 ^ d + 2 ^ 52 := by
    exact_mod_cast hsecond
  -- the time in seconds, rounded
  have hy : (n : ℚ) + tick d / 2 ^ d ≤ Binary64.round (micros / 1000000) := by
    have h := Binary64.le_round_of_binade (j := n * 2 ^ d + tick d) hd (by linarith) (by linarith)
      (q := micros / 1000000) (by
        push_cast
        have : ((n : ℚ) + 1 / 1000000) * 2 ^ d ≤ micros / 1000000 * 2 ^ d :=
          mul_le_mul_of_nonneg_right hx hd'.le
        linarith)
    push_cast at h
    rwa [add_div, mul_div_assoc, div_self hd'.ne', mul_one] at h
  have hc := le_round_fraction
  apply Int.le_floor.mpr
  push_cast
  set q := Binary64.round (micros / 1000000) + Binary64.round (999999 / 1000000) with hq
  have hlowq : (n : ℚ) + tick d / 2 ^ d + 9007190247541737 / 2 ^ 53 ≤ q := by linarith
  rcases le_or_gt ((n : ℚ) + 1) q with hge | hlt
  · exact_mod_cast Binary64.natCast_le_round (m := n + 1) (by omega) (by exact_mod_cast hge)
  · have htick : (0 : ℚ) ≤ tick d / 2 ^ d := by positivity
    have hscaled : ((n : ℚ) + 1) * 2 ^ d - 1 / 2 ≤ q * 2 ^ d := by
      have : ((n : ℚ) + tick d / 2 ^ d + 9007190247541737 / 2 ^ 53) * 2 ^ d ≤ q * 2 ^ d :=
        mul_le_mul_of_nonneg_right hlowq hd'.le
      refine le_trans ?_ this
      rw [add_mul, add_mul _ _ ((2 : ℚ) ^ d), add_mul, div_mul_cancel₀ _ hd'.ne']
      linarith
    have hpositive : (0 : ℚ) ≤ 9007190247541737 / 2 ^ 53 := by norm_num
    have h := Binary64.even_le_round_of_binade (j := (n + 1) * 2 ^ d) hd (q := q) (by linarith)
      (by linarith) (by
        obtain ⟨d', rfl⟩ : ∃ d', d = d' + 1 := ⟨d - 1, by omega⟩
        rw [pow_succ, ← mul_assoc]
        exact Int.mul_emod_left _ _) (by push_cast; exact hscaled)
    push_cast at h
    rwa [mul_div_assoc, div_self hd'.ne', mul_one] at h

/-- The wait covers the rest of the window. -/
theorem resetAt_le_retryAfter (resetAt now : Datetime) :
    resetAt.micros ≤ now.micros + retryAfter resetAt now * 1000000 := by
  have hupper := resetAt.upper
  have hlower := now.lower
  rcases le_or_gt (resetAt.micros - now.micros) 1000000 with hshort | hlong
  · have hone : 1 ≤ retryAfter resetAt now := le_max_left _ _
    omega
  · have hwait : ceilSeconds (resetAt.micros - now.micros) ≤ retryAfter resetAt now := by
      rw [retryAfter, if_pos (by omega)]
      exact le_max_right _ _
    set rest := resetAt.micros - now.micros with hrest
    obtain ⟨n, hn⟩ : ∃ n : ℕ, rest / 1000000 = n := Int.eq_ofNat_of_zero_le (by omega)
    rcases eq_or_ne rest (n * 1000000) with heq | hne
    · have hfull := natCast_le_ceilSeconds (n := n) (by omega) heq.ge
      omega
    · have hfull : n + 1 ≤ ceilSeconds rest :=
        succ_le_ceilSeconds (by omega) (by omega) (by omega) (by omega)
      omega

/-! ### Counting -/

theorem count_apply (t : Table) (u : Update) (key : CounterKey) :
    (u.apply sha256 t).count key = t.count key + if u.key sha256 = key then 1 else 0 := by
  unfold Update.apply
  by_cases hkey : u.key sha256 = key
  · subst hkey
    simp [Table.count]
  · rw [if_neg hkey, Table.count, Function.update_of_ne (Ne.symm hkey)]
    rfl

theorem count_foldl (us : List Update) (t : Table) (key : CounterKey) :
    (us.foldl (Update.apply sha256) t).count key =
      t.count key + us.countP fun u ↦ u.key sha256 = key := by
  induction us generalizing t with
  | nil => rfl
  | cons u us ih =>
      rw [List.foldl_cons, ih, count_apply, List.countP_cons]
      simp only [decide_eq_true_eq]
      omega

/-- The transactions that committed for a scope and a window. -/
def World.committed (w : World) (scope : Scope) (windowStart : ℤ) : ℕ :=
  w.log.countP fun e ↦ e.2.any fun u ↦ u.scope = scope ∧ u.windowStart = windowStart

structure Inv (sha256 : List Char → String) (limits : Limits) (w : World) : Prop where
  counted : ∀ scope start, w.table.count (rateLimitCounterKey sha256 scope start) =
    w.committed scope start
  bounded : ∀ scope start, (w.table.count (rateLimitCounterKey sha256 scope start) : ℤ) ≤
    limits.limit scope
  once : (w.log.map Prod.fst).Nodup

/-- The transaction of a call that has not committed. -/
def Proper (limits : Limits) (i : ℕ) : Op → World → Prop
  | .transact updates, w => (∃ r, limits.Agree r ∧ updates = r.updates) ∧ ∀ us, (i, us) ∉ w.log
  | .getItem _, _ => True

/-- The others leave the records of program `i` alone. -/
structure Leaves (i : ℕ) (w w' : World) : Prop where
  log : ∀ us, (i, us) ∈ w'.log ↔ (i, us) ∈ w.log
  refusedOn : w'.refusedOn i = w.refusedOn i

def protocol (sha256 : List Char → String) (limits : Limits) : Protocol World where
  inv := Inv sha256 limits
  rely := Leaves
  refl _ _ := ⟨fun _ ↦ Iff.rfl, rfl⟩
  trans _ _ _ _ h h' := ⟨fun us ↦ (h'.log us).trans (h.log us), h'.refusedOn.trans h.refusedOn⟩

/-- A call counts once for each of its keys. -/
theorem countP_key (hsha : Function.Injective sha256) (r : Request) (scope : Scope) (start : ℤ) :
    r.updates.countP (fun u ↦ u.key sha256 = rateLimitCounterKey sha256 scope start) =
      if r.updates.any fun u ↦ u.scope = scope ∧ u.windowStart = start then 1 else 0 := by
  have hcount : r.updates.countP (fun u ↦ u.key sha256 = rateLimitCounterKey sha256 scope start) =
      (r.updates.map (Update.key sha256)).count (rateLimitCounterKey sha256 scope start) := by
    rw [List.count, List.countP_map]
    apply List.countP_congr
    simp
  have hkey : ∀ u : Update, u.key sha256 = rateLimitCounterKey sha256 scope start ↔
      u.scope = scope ∧ u.windowStart = start := by
    refine fun u ↦ ⟨rateLimitCounterKey_inj hsha, ?_⟩
    rintro ⟨rfl, rfl⟩
    rfl
  rw [hcount, (nodup_keys hsha r).count]
  simp [hkey]

theorem Inv.commit (hsha : Function.Injective sha256) (hinv : Inv sha256 limits w)
    (hagree : limits.Agree r) (hnew : ∀ us, (i, us) ∉ w.log)
    (hadmits : ∀ u ∈ r.updates, u.Admits sha256 w.table) :
    Inv sha256 limits (w.commit sha256 i r.updates) := by
  have hcount : ∀ scope start,
      (w.commit sha256 i r.updates).table.count (rateLimitCounterKey sha256 scope start) =
        w.table.count (rateLimitCounterKey sha256 scope start) +
          if r.updates.any fun u ↦ u.scope = scope ∧ u.windowStart = start then 1 else 0 := by
    intro scope start
    rw [← countP_key hsha]
    exact count_foldl _ _ _
  refine ⟨fun scope start ↦ ?_, fun scope start ↦ ?_, ?_⟩
  · rw [hcount, hinv.counted, World.committed, World.committed, World.commit, List.countP_cons]
  · rw [hcount]
    split_ifs with hany
    · obtain ⟨u, hu, huk⟩ := List.any_eq_true.mp hany
      obtain ⟨rfl, rfl⟩ : u.scope = scope ∧ u.windowStart = start := by simpa using huk
      -- the condition of the transaction was tested on the same count
      have hlimit := hagree.limit_eq hu
      have hroom := hadmits u hu
      have hpos := limits.limit_pos u.scope
      rw [Table.count]
      change ((((w.table (u.key sha256)).map Counter.requestCount).getD 0 + 1 : ℕ) : ℤ) ≤ _
      cases hrow : w.table (u.key sha256) with
      | none => simpa using hpos
      | some row =>
          have := hroom row hrow
          simp only [Option.map_some, Option.getD_some]
          omega
    · simpa using hinv.bounded scope start
  · refine List.nodup_cons.mpr ⟨fun hmem ↦ ?_, hinv.once⟩
    obtain ⟨⟨j, us⟩, hus, rfl⟩ := List.mem_map.mp hmem
    exact hnew us hus

theorem Inv.refuse (hinv : Inv sha256 limits w) : Inv sha256 limits (w.refuse i) :=
  ⟨hinv.counted, hinv.bounded, hinv.once⟩

/-! ### Operations -/

/-- What one operation of program `i` preserves. -/
theorem Exec.preserves (hsha : Function.Injective sha256) {o : Op} {a : Ret o}
    (hinv : Inv sha256 limits w) (hexec : Exec sha256 i w o a w') (hproper : Proper limits i o w) :
    Inv sha256 limits w' ∧ ∀ j, j ≠ i → Leaves j w w' := by
  cases hexec with
  | committed updates outcome hadmits hraised =>
      obtain ⟨⟨r, hagree, rfl⟩, hnew⟩ := hproper
      refine ⟨hinv.commit hsha hagree hnew hadmits, fun j hj ↦ ⟨fun us ↦ ?_, rfl⟩⟩
      change (j, us) ∈ (i, r.updates) :: w.log ↔ _
      simp [hj]
  | refused updates hfull =>
      exact ⟨hinv.refuse, fun j hj ↦ ⟨fun us ↦ Iff.rfl, Function.update_of_ne hj _ _⟩⟩
  | raised updates => exact ⟨hinv, fun j _ ↦ ⟨fun us ↦ Iff.rfl, rfl⟩⟩
  | item key => exact ⟨hinv, fun j _ ↦ ⟨fun us ↦ Iff.rfl, rfl⟩⟩
  | item_raised key => exact ⟨hinv, fun j _ ↦ ⟨fun us ↦ Iff.rfl, rfl⟩⟩

/-! ### The call -/

/-- What the answer of call `i` says about the committed transactions. -/
structure Honest (sha256 : List Char → String) (i : ℕ) (r : Request) (result : RateLimitResult)
    (w : World) : Prop where
  allowed : result.allowed = true → (i, r.updates) ∈ w.log
  denied : result.allowed = false → ∀ us, (i, us) ∉ w.log
  full : result.allowed = false → ∃ t, w.refusedOn i = some t ∧
    ∃ u ∈ r.updates, u.limit ≤ t.count (u.key sha256)
  retry : result.allowed = false → ∃ seconds, result.retryAfterSeconds = some seconds ∧
    (r.windowStart + r.windowSeconds) * 1000000 ≤ r.now.micros + seconds * 1000000

theorem answer_eq_result {resetAt : Datetime} {allowed : Bool} {counts : List ℤ}
    {result : RateLimitResult} (h : r.answer resetAt allowed counts = .result result) :
    result.allowed = allowed ∧
      (allowed = false → result.retryAfterSeconds = some (retryAfter resetAt r.now)) := by
  unfold Request.answer at h
  dsimp only at h
  split at h
  next => cases h
  next =>
    cases h
    refine ⟨rfl, ?_⟩
    rintro rfl
    rfl

theorem ofTimestamp_micros {seconds : ℤ} {t : Datetime} (h : Datetime.ofTimestamp seconds = some t) :
    t.micros = seconds * 1000000 := by
  unfold Datetime.ofTimestamp at h
  split_ifs at h
  cases h
  rfl

theorem Honest.of_committed {resetAt : Datetime} {counts : List ℤ} {result : RateLimitResult}
    (hanswer : r.answer resetAt true counts = .result result) (hlog : (i, r.updates) ∈ w.log) :
    Honest sha256 i r result w := by
  obtain ⟨hallowed, -⟩ := answer_eq_result hanswer
  have hfalse : result.allowed ≠ false := by
    rw [hallowed]
    decide
  exact ⟨fun _ ↦ hlog, fun h ↦ absurd h hfalse, fun h ↦ absurd h hfalse,
    fun h ↦ absurd h hfalse⟩

theorem Honest.of_refused {resetAt : Datetime} {counts : List ℤ} {result : RateLimitResult}
    {t : Table} (hend : Datetime.ofTimestamp (r.windowStart + r.windowSeconds) = some resetAt)
    (hanswer : r.answer resetAt false counts = .result result) (hnew : ∀ us, (i, us) ∉ w.log)
    (hrefused : w.refusedOn i = some t) (hfull : ¬ ∀ u ∈ r.updates, u.Admits sha256 t) :
    Honest sha256 i r result w := by
  obtain ⟨hallowed, hretry⟩ := answer_eq_result hanswer
  refine ⟨fun h ↦ ?_, fun _ ↦ hnew, fun _ ↦ ⟨t, hrefused, ?_⟩, fun _ ↦ ⟨_, hretry rfl, ?_⟩⟩
  · rw [hallowed] at h
    cases h
  · obtain ⟨u, hu, row, hrow, hle⟩ : ∃ u ∈ r.updates, ∃ row,
        t (u.key sha256) = some row ∧ u.limit ≤ row.requestCount := by
      simpa [Update.Admits] using hfull
    refine ⟨u, hu, ?_⟩
    rw [Table.count, hrow]
    exact hle
  · rw [← ofTimestamp_micros hend]
    exact resetAt_le_retryAfter resetAt r.now

/-- The reads leave what the call knows. -/
theorem readCounts_safe (hsha : Function.Injective sha256) {K : World → Prop}
    (hK : ∀ w w', Leaves i w w' → K w → K w') (h : K w) (us : List Update) :
    Safe (service sha256 limits).machine (protocol sha256 limits) i (fun _ w' ↦ K w')
      (readCounts sha256 us) w := by
  induction us generalizing w with
  | nil => exact fun w' hrely _ ↦ hK w w' hrely h
  | cons u us ih =>
      refine Safe.proper (fun o s r s' ↦ Exec.preserves hsha) fun w₁ hrely _ ↦ ⟨trivial, ?_⟩
      intro item w₂ hexec hinv
      have h₂ : K w₂ := by
        have h₁ := hK w w₁ hrely h
        cases hexec <;> exact h₁
      cases item with
      | none => exact fun w' hrely' _ ↦ hK w₂ w' hrely' h₂
      | some item =>
          refine Safe.seq (p := readCounts sha256 us) (ih h₂) fun counts w₃ _ h₃ ↦ ?_
          exact fun w' hrely' _ ↦ hK w₃ w' hrely' h₃

/-- What a call does, whatever the others do meanwhile. -/
theorem consumeRateLimitWindow_safe (hsha : Function.Injective sha256) (enabled transactions : Bool)
    (hagree : limits.Agree r) (hnew : ∀ us, (i, us) ∉ w.log) :
    Safe (service sha256 limits).machine (protocol sha256 limits) i
      (fun a w' ↦ ∀ result, a = .result result → Honest sha256 i r result w')
      (consumeRateLimitWindow sha256 enabled transactions r) w := by
  have hother : ∀ {w : World} {a : Answer}, (∀ result, a ≠ .result result) →
      Safe (service sha256 limits).machine (protocol sha256 limits) i
        (fun a w' ↦ ∀ result, a = .result result → Honest sha256 i r result w') (.done a) w :=
    fun hne w' _ _ result h ↦ absurd h (hne result)
  unfold consumeRateLimitWindow
  split
  next => exact hother (by simp)
  next =>
    cases enabled with
    | false => exact hother (by simp)
    | true =>
    rw [if_neg (not_not.mpr rfl)]
    split
    next resetAt _ hreset _ =>
      cases transactions with
      | false => exact hother (by simp)
      | true =>
      rw [if_neg (not_not.mpr rfl)]
      refine Safe.proper (fun o s r s' ↦ Exec.preserves hsha) fun w₁ hrely _ ↦ ?_
      have hnew₁ : ∀ us, (i, us) ∉ w₁.log := fun us h ↦ hnew us ((hrely.log us).mp h)
      refine ⟨⟨⟨r, hagree, rfl⟩, hnew₁⟩, fun outcome w₂ hexec _ ↦ ?_⟩
      cases hexec with
      | committed _ _ hadmits hraised =>
          cases outcome with
          | committed =>
              refine Safe.seq (p := readCounts sha256 r.updates)
                (readCounts_safe (K := fun w ↦ (i, r.updates) ∈ w.log) hsha
                  (fun w w' hleaves h ↦ (hleaves.log _).mpr h) List.mem_cons_self r.updates) ?_
              intro counts w₃ _ hlog
              cases counts with
              | none => exact hother (by simp)
              | some counts =>
                  intro w' hleaves _ result hresult
                  exact Honest.of_committed hresult ((hleaves.log _).mpr hlog)
          | conditionFailed => exact absurd rfl hraised
          | raised => exact hother (by simp)
      | refused _ hfull =>
          refine Safe.seq (p := readCounts sha256 r.updates)
            (readCounts_safe (w := w₁.refuse i)
              (K := fun w ↦ (∀ us, (i, us) ∉ w.log) ∧ w.refusedOn i = some w₁.table) hsha
              (fun w w' hleaves h ↦ ⟨fun us hus ↦ h.1 us ((hleaves.log us).mp hus),
                hleaves.refusedOn.trans h.2⟩)
              ⟨hnew₁, Function.update_self i _ _⟩ r.updates) ?_
          intro counts w₃ _ hrefused
          cases counts with
          | none => exact hother (by simp)
          | some counts =>
              intro w' hleaves _ result hresult
              exact Honest.of_refused hreset hresult
                (fun us hus ↦ hrefused.1 us ((hleaves.log us).mp hus))
                (hleaves.refusedOn.trans hrefused.2) hfull
      | raised => exact hother (by simp)
    next => exact hother (by simp)

theorem inv_start (sha256 : List Char → String) (limits : Limits) : Inv sha256 limits start :=
  ⟨fun _ _ ↦ rfl, fun scope _ ↦ (zero_le_one.trans (limits.limit_pos scope)), List.nodup_nil⟩

theorem obligations (hsha : Function.Injective sha256) (limits : Limits) :
    Obligations (service sha256 limits) (protocol sha256 limits)
      (fun i w ↦ ∀ us, (i, us) ∉ w.log)
      (fun i c _ a w ↦ ∀ result, a = .result result → Honest sha256 i c.request result w) where
  pre_rely i w w' hrely hpre us hus := hpre us ((hrely.log us).mp hus)
  env w w' hinv henv := by
    obtain rfl : w = w' := henv
    exact ⟨hinv, fun i ↦ (protocol sha256 limits).refl i w⟩
  start p c _ hpre hagree _ :=
    consumeRateLimitWindow_safe hsha c.enabled c.transactions hagree hpre

/-! ### Whose transactions -/

/-- The only transaction of a call is its own. -/
def Own (c : Call) : Op → Prop
  | .transact us => us = c.request.updates
  | .getItem _ => True

theorem readCounts_every (c : Call) (us : List Update) :
    (readCounts sha256 us).Every (fun _ _ ↦ True) (Own c) fun _ ↦ True := by
  induction us with
  | nil => trivial
  | cons u us ih =>
      refine ⟨trivial, fun item _ ↦ ?_⟩
      cases item with
      | none => trivial
      | some item => exact Prog.Every.bind (p := readCounts sha256 us) ih fun _ _ ↦ trivial

theorem body_every (c : Call) :
    ((service sha256 limits).body c).Every (fun _ _ ↦ True) (Own c) fun _ ↦ True := by
  change (consumeRateLimitWindow sha256 c.enabled c.transactions c.request).Every _ _ _
  unfold consumeRateLimitWindow
  split
  next => trivial
  next =>
    split
    next => trivial
    split
    next =>
      split
      next => trivial
      refine ⟨rfl, fun outcome _ ↦ ?_⟩
      cases outcome with
      | raised => trivial
      | committed | conditionFailed =>
          refine Prog.Every.bind (p := readCounts sha256 _) (readCounts_every c _) fun counts _ ↦ ?_
          cases counts <;> trivial
    next => trivial

abbrev FleetPool := Pool Op Ret World Call Answer

/-- Every committed transaction is that of a call. -/
theorem owned {p : FleetPool} (hp : Reachable (service sha256 limits) start p) :
    ∀ i us, (i, us) ∈ p.state.log →
      ∃ t, p.threads[i]? = some t ∧ us = t.call.request.updates := by
  induction hp with
  | refl => exact fun i us h ↦ by cases h
  | @tail p q hp hstep ih =>
      have hprograms := Reachable.every body_every hp
      cases hstep with
      | start c hc =>
          intro i us h
          obtain ⟨t, ht, hus⟩ := ih i us h
          exact ⟨t, List.getElem?_append_left (List.getElem?_eq_some_iff.mp ht).1 ▸ ht, hus⟩
      | run i c w₀ o k a w' hi hexec =>
          have hlt : i < p.threads.length := (List.getElem?_eq_some_iff.mp hi).1
          have hset : ∀ (j : ℕ) (us : List Update) (t : Thread Op Ret World Call Answer),
              p.threads[j]? = some t → us = t.call.request.updates →
              ∃ t', (p.threads.set i ⟨c, w₀, k a⟩)[j]? = some t' ∧
                us = t'.call.request.updates := by
            intro j us t ht hus
            rcases eq_or_ne i j with rfl | hne
            · obtain rfl := Option.some.inj (hi.symm.trans ht)
              exact ⟨_, List.getElem?_set_self hlt, hus⟩
            · exact ⟨t, (List.getElem?_set_ne hne).trans ht, hus⟩
          have hown : Own c o := (hprograms i _ hi).1
          intro j us h
          cases hexec with
          | committed updates outcome hadmits hraised =>
              rcases List.mem_cons.mp h with heq | hmem
              · obtain ⟨rfl, rfl⟩ := Prod.mk.inj heq
                exact hset j us _ hi hown
              · obtain ⟨t, ht, hus⟩ := ih j us hmem
                exact hset j us t ht hus
          | refused | raised | item | item_raised =>
              obtain ⟨t, ht, hus⟩ := ih j us h
              exact hset j us t ht hus
      | env w' henv =>
          obtain rfl : p.state = w' := henv
          exact ih

/-! ### The fleet -/

/-- The counters of a fleet are the committed calls, and its answers tell the truth. -/
structure Exact (sha256 : List Char → String) (limits : Limits) (p : FleetPool) : Prop where
  counted : ∀ scope start, p.state.table.count (rateLimitCounterKey sha256 scope start) =
    p.state.committed scope start
  bounded : ∀ scope start, (p.state.committed scope start : ℤ) ≤ limits.limit scope
  once : (p.state.log.map Prod.fst).Nodup
  owned : ∀ i us, (i, us) ∈ p.state.log →
    ∃ t, p.threads[i]? = some t ∧ us = t.call.request.updates
  honest : ∀ i c w₀ result, p.threads[i]? = some ⟨c, w₀, .done (.result result)⟩ →
    Honest sha256 i c.request result p.state
  apart : ∀ (scope scope' : Scope) (start start' : ℤ), rateLimitCounterKey sha256 scope start =
    rateLimitCounterKey sha256 scope' start' → scope = scope' ∧ start = start'

/-- Any calls on any instances, in any order. -/
theorem exact_of_reachable (hsha : Function.Injective sha256) {p : FleetPool}
    (hp : Reachable (service sha256 limits) start p) : Exact sha256 limits p := by
  have hsafe := Reachable.poolSafe (obligations hsha limits) (inv_start sha256 limits)
    (fun _ _ h ↦ by cases h) hp
  refine ⟨hsafe.inv.counted, fun scope start ↦ ?_, hsafe.inv.once, owned hp, ?_, ?_⟩
  · rw [← hsafe.inv.counted]
    exact hsafe.inv.bounded scope start
  · exact fun i c w₀ result hi ↦ hsafe.result hi result rfl
  · exact fun _ _ _ _ h ↦ rateLimitCounterKey_inj hsha h

/-! ### Two calls for one slot -/

def once : Limits := ⟨fun _ ↦ 1, fun _ ↦ le_rfl, 60⟩

def asked : Call where
  enabled := true
  transactions := true
  request :=
    { keySpace := "production"
      tenantId := some "acme"
      userId := some "ann"
      projectId := "search"
      userLimit := some 1
      projectLimit := 1
      windowSeconds := 60
      now := ⟨1700000000 * 1000000 + 500000, by norm_num, by norm_num⟩
      aware := true }

theorem asked_agree : once.Agree asked.request := by
  refine ⟨rfl, fun counter hcounter ↦ ?_⟩
  rcases List.mem_cons.mp hcounter with rfl | hcounter
  · rfl
  · obtain rfl := List.mem_singleton.mp hcounter
    rfl

/-- How an operation turns out when nothing raises. -/
def act (sha256 : List Char → String) (i : ℕ) : (o : Op) → World → Option (Ret o × World)
  | .transact updates, w =>
      if ∀ u ∈ updates, u.Admits sha256 w.table then some (.committed, w.commit sha256 i updates)
      else some (.conditionFailed, w.refuse i)
  | .getItem key, w => some (some (w.table key), w)

theorem exec_act {o : Op} {a : Ret o} (h : act sha256 i o w = some (a, w')) :
    Exec sha256 i w o a w' := by
  cases o with
  | transact updates =>
      rw [act] at h
      split_ifs at h with hadmits
      · cases h
        exact .committed updates .committed hadmits (by decide)
      · cases h
        exact .refused updates hadmits
  | getItem key =>
      cases h
      exact .item key

def played : FleetPool :=
  Pool.playTurns (service String.ofList once).body (act String.ofList)
    [.start asked, .start asked, .next 0, .next 1, .next 1, .next 0, .next 1, .next 0] ⟨start, []⟩

/-- Whether a call was allowed, and the seconds that it waits otherwise. -/
def verdicts (p : FleetPool) : List (Option (Bool × Option ℤ)) :=
  p.threads.map fun t ↦ match t.prog with
    | .done (.result result) => some (result.allowed, result.retryAfterSeconds)
    | _ => none

theorem exact_played : verdicts played = [some (true, none), some (false, some 40)] ∧
    Exact String.ofList once played := by
  refine ⟨by decide +kernel, exact_of_reachable (fun _ _ ↦ String.ofList_injective) ?_⟩
  refine Steps.playTurns (S := service String.ofList once) (fun _ _ _ _ _ ↦ exec_act) _ ?_ _
  intro p c hc
  obtain rfl : c = asked := by simpa using hc
  exact asked_agree

end SharedLimit
