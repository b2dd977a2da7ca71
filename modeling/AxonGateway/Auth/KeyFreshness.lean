import AxonGateway.Auth.Jwks

/-!
# Fresh keys

Every selected key is from a set that the issuer has answered and that has been installed for
less than its lifetime, or in this moment.  Fetches for unknown key ids keep their distance, and
a key of the installed set is found at once.
-/

namespace Oidc

open Interleaving

variable {cfg : Config} {i : ℕ} {w w' : World} {jwks : Document} {key : Jwk} {kid : Option String}

/-! ### Looking up -/

theorem findKey_mem (h : findKey jwks kid = some key) : some key ∈ jwks.entries := by
  unfold findKey at h
  split_ifs at h
  split at h
  next key' hfilter =>
    cases h
    have hmem : key ∈ jwks.entries.reduceOption.filter fun key ↦ key.kid = kid := by
      rw [hfilter]
      exact List.mem_singleton_self key
    exact List.reduceOption_mem_iff.mp (List.mem_filter.mp hmem).1
  next => cases h

theorem filter_eq_singleton {keys : List Jwk} (hnodup : (keys.map Jwk.kid).Nodup)
    (hkey : key ∈ keys) : keys.filter (fun k ↦ k.kid = key.kid) = [key] := by
  induction keys with
  | nil => cases hkey
  | cons k keys ih =>
      obtain ⟨hnew, hnodup⟩ := List.nodup_cons.mp hnodup
      rcases List.mem_cons.mp hkey with rfl | hkey
      · rw [List.filter_cons_of_pos (by simp), List.filter_eq_nil_iff.mpr]
        intro k hk hkid
        refine hnew (List.mem_map.mpr ⟨k, hk, ?_⟩)
        simpa using hkid
      · rw [List.filter_cons_of_neg, ih hnodup hkey]
        intro hkid
        refine hnew (List.mem_map.mpr ⟨key, hkey, ?_⟩)
        have : k.kid = key.kid := by simpa using hkid
        exact this.symm

/-- A key of a valid set is found by its id. -/
theorem findKey_of_mem (hvalid : validJwks cfg.isPrintable jwks = true)
    (hkey : some key ∈ jwks.entries) : findKey jwks key.kid = some key := by
  have hmem := List.reduceOption_mem_iff.mpr hkey
  simp only [validJwks, Bool.decide_and, Bool.and_eq_true, decide_eq_true_eq] at hvalid
  obtain ⟨-, -, -, hkids, hnodup⟩ := hvalid
  have hkid : ¬ (key.kid = none ∨ key.kid = some "") := by
    have := hkids key hmem
    rintro (hnone | hempty)
    · rw [hnone] at this
      cases this
    · simp [hempty, validDirectOidcKid] at this
  rw [findKey, if_neg hkid, filter_eq_singleton hnodup hmem]

/-! ### The invariant -/

structure Inv (cfg : Config) (w : World) : Prop where
  cached : ∀ issuer, w.jwksCacheIssuer = some issuer → issuer = cfg.issuer ∧
    ∃ rest, w.installs = (w.jwksCache, w.jwksFetchedAt) :: rest
  cleared : w.jwksCacheIssuer = none → ∀ e ∈ w.installs.head?, e.2 + cfg.ttl ≤ w.now
  installs : ∀ e ∈ w.installs, e.1 ∈ w.fetched ∧ validJwks cfg.isPrintable e.1 = true ∧
    e.2 ≤ w.now
  selections : ∀ s ∈ w.selections, ∃ e ∈ w.installs, some s.2.1 ∈ e.1.entries ∧ e.2 ≤ s.2.2 ∧
    (s.2.2 < e.2 + cfg.ttl ∨ s.2.2 = e.2)
  charged : w.jwksLastUnknownRefreshAt = w.unknownFetches.head?
  spaced : w.unknownFetches.Pairwise fun later earlier ↦
    earlier + unknownKidRefreshIntervalSeconds ≤ later
  past : ∀ t ∈ w.unknownFetches, t ≤ w.now

/-- Answers and selections remain. -/
structure Grows (w w' : World) : Prop where
  fetched : w.fetched ⊆ w'.fetched
  selections : w.selections ⊆ w'.selections

theorem Grows.refl (w : World) : Grows w w := ⟨List.Subset.refl _, List.Subset.refl _⟩

theorem Grows.trans {w₁ w₂ w₃ : World} (h : Grows w₁ w₂) (h' : Grows w₂ w₃) : Grows w₁ w₃ :=
  ⟨fun _ hx ↦ h'.fetched (h.fetched hx), fun _ hx ↦ h'.selections (h.selections hx)⟩

def protocol (cfg : Config) : Protocol World where
  inv := Inv cfg
  rely _ := Grows
  refl _ := Grows.refl
  trans _ _ _ _ := Grows.trans

/-! ### Freshness -/

theorem Inv.fresh_some (hinv : Inv cfg w) (h : w.freshJwks cfg = some jwks) :
    (jwks, w.jwksFetchedAt) ∈ w.installs ∧ w.now < w.jwksFetchedAt + cfg.ttl := by
  unfold World.freshJwks at h
  split_ifs at h with hfresh
  cases h
  obtain ⟨hissuer, -, -, -, hage⟩ := hfresh
  obtain ⟨-, rest, hrest⟩ := hinv.cached _ hissuer
  refine ⟨?_, by linarith⟩
  rw [hrest]
  exact List.mem_cons_self

theorem Inv.fresh_none (hinv : Inv cfg w) (h : w.freshJwks cfg = none) :
    ∀ e ∈ w.installs.head?, e.2 + cfg.ttl ≤ w.now := by
  cases hissuer : w.jwksCacheIssuer with
  | none => exact hinv.cleared hissuer
  | some issuer =>
      obtain ⟨rfl, rest, hrest⟩ := hinv.cached _ hissuer
      obtain ⟨-, hvalid, hpast⟩ := hinv.installs _ (hrest ▸ List.mem_cons_self)
      rw [hrest]
      rintro _ ⟨⟩
      unfold World.freshJwks at h
      by_contra hlt
      rw [if_pos ⟨hissuer, by linarith, hvalid, by linarith, by linarith⟩] at h
      cases h

/-- The set that was installed last is used as long as it lives. -/
theorem Inv.fresh_of_head (hinv : Inv cfg w) {t : ℚ} {rest : List (Document × ℚ)}
    (hhead : w.installs = (jwks, t) :: rest) (hlive : w.now < t + cfg.ttl) :
    w.freshJwks cfg = some jwks := by
  cases h : w.freshJwks cfg with
  | none =>
      have := hinv.fresh_none h (jwks, t) (by rw [hhead]; rfl)
      exact absurd hlive (not_lt.mpr this)
  | some jwks' =>
      unfold World.freshJwks at h
      split_ifs at h with hfresh
      cases h
      obtain ⟨-, rest', hrest⟩ := hinv.cached _ hfresh.1
      have := (List.cons.inj (hrest.symm.trans hhead)).1
      rw [(Prod.mk.inj this).1]

/-! ### Sections -/

/-- What a section of program `i` leaves behind. -/
structure Section (cfg : Config) (i : ℕ) (w : World) (r : Next × World) : Prop where
  inv : Inv cfg r.2
  grows : Grows w r.2
  selected : ∀ key, r.1 = .selected key → ∃ t, (i, key, t) ∈ r.2.selections

theorem Inv.select (hinv : Inv cfg w) {e : Document × ℚ} (he : e ∈ w.installs)
    (hkey : some key ∈ e.1.entries) (htime : w.now < e.2 + cfg.ttl ∨ w.now = e.2) :
    Inv cfg { w with selections := (i, key, w.now) :: w.selections } := by
  refine ⟨hinv.cached, hinv.cleared, hinv.installs, ?_, hinv.charged, hinv.spaced, hinv.past⟩
  intro s hs
  rcases List.mem_cons.mp hs with rfl | hs
  · exact ⟨e, he, hkey, (hinv.installs e he).2.2, htime⟩
  · exact hinv.selections s hs

theorem Inv.lookUp (hinv : Inv cfg w) {e : Document × ℚ} (he : e ∈ w.installs)
    (htime : w.now < e.2 + cfg.ttl ∨ w.now = e.2) (kid : Option String) :
    Section cfg i w (w.lookUp i e.1 kid) ∧ Section cfg i w (w.lookUpAgain i e.1 kid) := by
  unfold World.lookUp World.lookUpAgain
  cases hfind : findKey e.1 kid with
  | none => exact ⟨⟨hinv, Grows.refl w, by simp⟩, ⟨hinv, Grows.refl w, by simp⟩⟩
  | some key =>
      have hselect : Section cfg i w
          (.selected key, { w with selections := (i, key, w.now) :: w.selections }) := by
        refine ⟨hinv.select he (findKey_mem hfind) htime, ⟨List.Subset.refl _,
          List.subset_cons_self _ _⟩, fun key' h ↦ ?_⟩
        cases h
        exact ⟨w.now, List.mem_cons_self⟩
      exact ⟨hselect, hselect⟩

theorem Inv.unlock (hinv : Inv cfg w) : Inv cfg w.unlock :=
  ⟨hinv.cached, hinv.cleared, hinv.installs, hinv.selections, hinv.charged, hinv.spaced,
    hinv.past⟩

theorem Inv.clear (hinv : Inv cfg w) (h : w.freshJwks cfg = none) :
    Inv cfg w.clearJwksCache :=
  ⟨(fun _ hissuer ↦ by cases hissuer), fun _ ↦ hinv.fresh_none h, hinv.installs, hinv.selections,
    hinv.charged, hinv.spaced, hinv.past⟩

theorem Inv.install (hinv : Inv cfg w) (hfetched : jwks ∈ w.fetched)
    (hvalid : validJwks cfg.isPrintable jwks = true) : Inv cfg (w.installJwks cfg jwks) := by
  refine ⟨fun issuer h ↦ ?_, (fun h ↦ by cases h), fun e he ↦ ?_, fun s hs ↦ ?_, hinv.charged,
    hinv.spaced, hinv.past⟩
  · cases h
    exact ⟨rfl, w.installs, rfl⟩
  · rcases List.mem_cons.mp he with rfl | he
    · exact ⟨hfetched, hvalid, le_rfl⟩
    · exact hinv.installs e he
  · obtain ⟨e, he, hkey⟩ := hinv.selections s hs
    exact ⟨e, List.mem_cons_of_mem _ he, hkey⟩

/-- The cooldown is over. -/
theorem Inv.charge (hinv : Inv cfg w) (hcool : ¬ ∃ last ∈ w.jwksLastUnknownRefreshAt,
      w.now - last < 0 ∨ w.now - last < unknownKidRefreshIntervalSeconds) :
    Inv cfg { w with
      jwksLastUnknownRefreshAt := some w.now
      unknownFetches := w.now :: w.unknownFetches } := by
  have hdistance : ∀ t ∈ w.unknownFetches, t + unknownKidRefreshIntervalSeconds ≤ w.now := by
    have hcharged := hinv.charged
    have hspaced := hinv.spaced
    intro t ht
    cases hfetches : w.unknownFetches with
    | nil =>
        rw [hfetches] at ht
        cases ht
    | cons last rest =>
        rw [hfetches] at ht hcharged hspaced
        have hlast : last + unknownKidRefreshIntervalSeconds ≤ w.now := by
          by_contra hlt
          exact hcool ⟨last, hcharged, .inr (by linarith)⟩
        rcases List.mem_cons.mp ht with rfl | ht
        · exact hlast
        · have hgap := (List.pairwise_cons.mp hspaced).1 t ht
          have hpositive : (0 : ℚ) ≤ unknownKidRefreshIntervalSeconds := by
            norm_num [unknownKidRefreshIntervalSeconds]
          linarith
  refine ⟨hinv.cached, hinv.cleared, hinv.installs, hinv.selections, rfl,
    List.pairwise_cons.mpr ⟨hdistance, hinv.spaced⟩, fun t ht ↦ ?_⟩
  rcases List.mem_cons.mp ht with rfl | ht
  · exact le_rfl
  · exact hinv.past t ht

theorem Section.of_eq {r : Next × World} (hinv : Inv cfg r.2) (hgrows : Grows w r.2)
    (hnext : ∀ key, r.1 ≠ .selected key) : Section cfg i w r :=
  ⟨hinv, hgrows, fun key h ↦ absurd h (hnext key)⟩

theorem beginCall_section (hinv : Inv cfg w) (token : Token) :
    Section cfg i w (w.beginCall cfg i token) := by
  unfold World.beginCall
  split_ifs
  · exact .of_eq hinv (Grows.refl w) (by simp)
  · cases hfresh : w.freshJwks cfg with
    | none => exact .of_eq hinv (Grows.refl w) (by simp)
    | some cached =>
        obtain ⟨hmem, hlive⟩ := hinv.fresh_some hfresh
        exact (hinv.lookUp hmem (.inl hlive) token.kid).1

theorem recheck_section (hinv : Inv cfg w) (kid : Option String) :
    Section cfg i w (w.recheck cfg i kid) := by
  unfold World.recheck
  cases hfresh : w.freshJwks cfg with
  | none => exact .of_eq (hinv.clear hfresh) ⟨List.Subset.refl _, List.Subset.refl _⟩ (by simp)
  | some cached =>
      obtain ⟨hmem, hlive⟩ := hinv.fresh_some hfresh
      obtain ⟨h, -⟩ := hinv.unlock.lookUp (i := i) (e := (cached, w.jwksFetchedAt)) hmem
        (.inl hlive) kid
      exact ⟨h.inv, ⟨h.grows.fetched, h.grows.selections⟩, h.selected⟩

/-- What the issuer has answered, and is a valid set. -/
def Answered (cfg : Config) (answer : Option Document) (w : World) : Prop :=
  ∀ jwks ∈ answer, jwks ∈ w.fetched ∧ validJwks cfg.isPrintable jwks = true

theorem settle_section (hinv : Inv cfg w) (kid : Option String) {answer : Option Document}
    (hanswer : Answered cfg answer w) : Section cfg i w (w.settle cfg i kid answer) ∧
      Section cfg i w (w.settleUnknown cfg i kid answer) := by
  cases answer with
  | none =>
      have hgrows : Grows w w.unlock := ⟨List.Subset.refl _, List.Subset.refl _⟩
      exact ⟨.of_eq hinv.unlock hgrows (by simp [World.settle]),
        .of_eq hinv.unlock hgrows (by simp [World.settleUnknown])⟩
  | some jwks =>
      obtain ⟨hfetched, hvalid⟩ := hanswer jwks rfl
      have hinstall := (hinv.install hfetched hvalid).unlock
      obtain ⟨h, h'⟩ := hinstall.lookUp (i := i) (e := (jwks, w.now)) List.mem_cons_self
        (.inr rfl) kid
      exact ⟨⟨h.inv, ⟨h.grows.fetched, h.grows.selections⟩, h.selected⟩,
        ⟨h'.inv, ⟨h'.grows.fetched, h'.grows.selections⟩, h'.selected⟩⟩

theorem inspect_section (hinv : Inv cfg w) (kid : Option String) (observedGeneration : ℕ) :
    Section cfg i w (w.inspect cfg i kid observedGeneration) := by
  unfold World.inspect
  cases hfresh : w.freshJwks cfg with
  | none => exact .of_eq hinv.unlock ⟨List.Subset.refl _, List.Subset.refl _⟩ (by simp)
  | some cached =>
      obtain ⟨hmem, hlive⟩ := hinv.fresh_some hfresh
      obtain ⟨-, h⟩ := hinv.unlock.lookUp (i := i) (e := (cached, w.jwksFetchedAt)) hmem
        (.inl hlive) kid
      have hagain : Section cfg i w (w.unlock.lookUpAgain i cached kid) :=
        ⟨h.inv, ⟨h.grows.fetched, h.grows.selections⟩, h.selected⟩
      dsimp only
      split_ifs with hfound hgeneration hcool
      · exact hagain
      · exact hagain
      · exact hagain
      · exact .of_eq (hinv.charge hcool) ⟨List.Subset.refl _, List.Subset.refl _⟩ (by simp)

/-! ### Programs -/

/-- Only what has been answered is installed. -/
def Proper (cfg : Config) : Op → World → Prop
  | .settle _ answer, w => Answered cfg answer w
  | .settleUnknown _ answer, w => Answered cfg answer w
  | _, _ => True

/-- What an operation returns has been recorded. -/
def Recorded (i : ℕ) (w : World) : (o : Op) → Ret o → Prop
  | .acquire, _ => True
  | .fetchJwks, answer => ∀ jwks ∈ answer, jwks ∈ w.fetched
  | .beginCall _, next => ∀ key, next = .selected key → ∃ t, (i, key, t) ∈ w.selections
  | .recheck _, next => ∀ key, next = .selected key → ∃ t, (i, key, t) ∈ w.selections
  | .settle _ _, next => ∀ key, next = .selected key → ∃ t, (i, key, t) ∈ w.selections
  | .inspect _ _, next => ∀ key, next = .selected key → ∃ t, (i, key, t) ∈ w.selections
  | .settleUnknown _ _, next => ∀ key, next = .selected key → ∃ t, (i, key, t) ∈ w.selections

theorem Exec.preserves {o : Op} {r : Ret o} (hinv : Inv cfg w) (hexec : Exec cfg i w o r w')
    (hproper : Proper cfg o w) : Inv cfg w' ∧ Grows w w' ∧ Recorded i w' o r := by
  cases hexec with
  | beginCall token =>
      have h := beginCall_section (i := i) hinv token
      exact ⟨h.inv, h.grows, h.selected⟩
  | recheck kid =>
      have h := recheck_section (i := i) hinv kid
      exact ⟨h.inv, h.grows, h.selected⟩
  | settle kid answer =>
      obtain ⟨h, -⟩ := settle_section (i := i) hinv kid hproper
      exact ⟨h.inv, h.grows, h.selected⟩
  | settleUnknown kid answer =>
      obtain ⟨-, h⟩ := settle_section (i := i) hinv kid hproper
      exact ⟨h.inv, h.grows, h.selected⟩
  | inspect kid observedGeneration =>
      have h := inspect_section (i := i) hinv kid observedGeneration
      exact ⟨h.inv, h.grows, h.selected⟩
  | acquire hfree =>
      exact ⟨⟨hinv.cached, hinv.cleared, hinv.installs, hinv.selections, hinv.charged,
        hinv.spaced, hinv.past⟩, ⟨List.Subset.refl _, List.Subset.refl _⟩, trivial⟩
  | fetched jwks =>
      refine ⟨⟨hinv.cached, hinv.cleared, fun e he ↦ ?_, hinv.selections, hinv.charged,
        hinv.spaced, hinv.past⟩, ⟨List.subset_cons_self _ _, List.Subset.refl _⟩, ?_⟩
      · obtain ⟨hfetched, hrest⟩ := hinv.installs e he
        exact ⟨List.mem_cons_of_mem _ hfetched, hrest⟩
      · rintro _ ⟨⟩
        exact List.mem_cons_self
  | failed => exact ⟨hinv, Grows.refl w, by rintro _ ⟨⟩⟩

theorem Inv.tick (hinv : Inv cfg w) {now : ℚ} (hnow : w.now ≤ now) :
    Inv cfg { w with now := now } := by
  refine ⟨hinv.cached, fun h e he ↦ (hinv.cleared h e he).trans hnow, fun e he ↦ ?_,
    hinv.selections, hinv.charged, hinv.spaced, fun t ht ↦ (hinv.past t ht).trans hnow⟩
  obtain ⟨hfetched, hvalid, hpast⟩ := hinv.installs e he
  exact ⟨hfetched, hvalid, hpast.trans hnow⟩

theorem safe_call {α : Type} {Q : α → World → Prop} {o : Op} {k : Ret o → Program α}
    (h : ∀ w₁, Grows w w₁ → Proper cfg o w₁ ∧ ∀ r w₂, Recorded i w₂ o r → Grows w₁ w₂ →
      Safe (service cfg).machine (protocol cfg) i Q (k r) w₂) :
    Safe (service cfg).machine (protocol cfg) i Q (Prog.op o >>= k) w := by
  intro w₁ hw hinv r w₂ hexec
  obtain ⟨hproper, hk⟩ := h w₁ hw
  obtain ⟨hinv₂, hgrows, hrecorded⟩ := Exec.preserves hinv hexec hproper
  exact ⟨hinv₂, fun _ _ ↦ hgrows, hk r w₂ hrecorded hgrows⟩

/-- A call that answers a key has selected it. -/
def Selected (i : ℕ) (answer : Option Jwk) (w : World) : Prop :=
  ∀ key, answer = some key → ∃ t, (i, key, t) ∈ w.selections

abbrev SafeCall (cfg : Config) (i : ℕ) (p : Program (Option Jwk)) (w : World) : Prop :=
  Safe (service cfg).machine (protocol cfg) i (Selected i) p w

theorem safe_none : SafeCall cfg i (.done none) w := fun _ _ _ key h ↦ by cases h

theorem safe_key (h : ∃ t, (i, key, t) ∈ w.selections) : SafeCall cfg i (.done (some key)) w := by
  intro w' hw _ key' hkey
  cases hkey
  obtain ⟨t, ht⟩ := h
  exact ⟨t, hw.selections ht⟩

theorem fetchValidJwks_safe : Safe (service cfg).machine (protocol cfg) i
    (fun answer w' ↦ Answered cfg answer w') (fetchValidJwks cfg) w := by
  refine safe_call fun w₁ _ ↦ ⟨trivial, fun answer w₂ hrecorded _ w' hw' _ jwks hjwks ↦ ?_⟩
  obtain ⟨hanswer, hvalid⟩ := Option.filter_eq_some_iff.mp hjwks
  exact ⟨hw'.fetched (hrecorded jwks hanswer), hvalid⟩

theorem Answered.grow {answer : Option Document} (h : Answered cfg answer w) (hw : Grows w w') :
    Answered cfg answer w' :=
  fun jwks hjwks ↦ ⟨hw.fetched (h jwks hjwks).1, (h jwks hjwks).2⟩

theorem refreshJwksForUnknownKid_safe (kid : Option String) (observedGeneration : ℕ) :
    SafeCall cfg i (refreshJwksForUnknownKid cfg kid observedGeneration) w := by
  refine safe_call fun _ _ ↦ ⟨trivial, fun _ w₁ _ _ ↦ ?_⟩
  refine safe_call fun _ _ ↦ ⟨trivial, fun next w₂ hselected _ ↦ ?_⟩
  cases next with
  | selected key => exact safe_key (hselected key rfl)
  | fetch =>
      refine Safe.seq fetchValidJwks_safe fun answer w₃ _ hanswer ↦ ?_
      refine safe_call fun w₄ h₄ ↦ ⟨hanswer.grow h₄, fun next w₅ hselected' _ ↦ ?_⟩
      cases next with
      | selected key => exact safe_key (hselected' key rfl)
      | _ => exact safe_none
  | _ => exact safe_none

theorem lookedUp_safe (kid : Option String) {next : Next}
    (h : ∀ key, next = .selected key → ∃ t, (i, key, t) ∈ w.selections) :
    SafeCall cfg i (lookedUp cfg kid next) w := by
  cases next with
  | selected key => exact safe_key (h key rfl)
  | unknown observedGeneration => exact refreshJwksForUnknownKid_safe kid observedGeneration
  | _ => exact safe_none

theorem getJwks_safe (kid : Option String) : SafeCall cfg i (getJwks cfg kid) w := by
  refine safe_call fun _ _ ↦ ⟨trivial, fun _ w₁ _ _ ↦ ?_⟩
  refine safe_call fun _ _ ↦ ⟨trivial, fun next w₂ hselected _ ↦ ?_⟩
  cases next with
  | fetch =>
      refine Safe.seq fetchValidJwks_safe fun answer w₃ _ hanswer ↦ ?_
      exact safe_call fun w₄ h₄ ↦ ⟨hanswer.grow h₄, fun next w₅ hselected' _ ↦
        lookedUp_safe kid hselected'⟩
  | rejected | selected | unknown | expired => exact lookedUp_safe kid hselected

theorem validateDirectOidcClaims_safe (token : Token) :
    SafeCall cfg i (validateDirectOidcClaims cfg token) w := by
  refine safe_call fun _ _ ↦ ⟨trivial, fun next w₁ hselected _ ↦ ?_⟩
  cases next with
  | expired => exact getJwks_safe token.kid
  | rejected | selected | unknown | fetch => exact lookedUp_safe token.kid hselected

/-! ### Runs -/

theorem obligations (cfg : Config) : Obligations (service cfg) (protocol cfg) (fun _ _ ↦ True)
    (fun i _ _ answer w ↦ Selected i answer w) where
  pre_rely _ _ _ _ _ := trivial
  env w w' hinv henv := by
    obtain ⟨now, hnow, rfl⟩ := henv
    exact ⟨hinv.tick hnow, fun _ ↦ ⟨List.Subset.refl _, List.Subset.refl _⟩⟩
  start _ token _ _ _ _ := validateDirectOidcClaims_safe token

theorem inv_start (cfg : Config) (now : ℚ) : Inv cfg (start now) := by
  refine ⟨fun issuer h ↦ ?_, fun _ e he ↦ ?_, fun e he ↦ ?_, fun s hs ↦ ?_, rfl,
    List.Pairwise.nil, fun t ht ↦ ?_⟩
  · cases h
  · cases he
  · cases he
  · cases hs
  · cases ht

abbrev OidcPool := Pool Op Ret World Token (Option Jwk)

/-- The selected keys are fresh, fetches for unknown ids keep their distance, and a key that is
installed is found. -/
structure Bounded (cfg : Config) (p : OidcPool) : Prop where
  selected : ∀ i token w₀ key, p.threads[i]? = some ⟨token, w₀, .done (some key)⟩ →
    ∃ t, (i, key, t) ∈ p.state.selections
  fresh : ∀ i key t, (i, key, t) ∈ p.state.selections → ∃ jwks installedAt,
    (jwks, installedAt) ∈ p.state.installs ∧ jwks ∈ p.state.fetched ∧
      some key ∈ jwks.entries ∧ installedAt ≤ t ∧ (t < installedAt + cfg.ttl ∨ t = installedAt)
  spaced : p.state.unknownFetches.Pairwise fun later earlier ↦
    earlier + unknownKidRefreshIntervalSeconds ≤ later
  found : ∀ jwks installedAt rest key, p.state.installs = (jwks, installedAt) :: rest →
    some key ∈ jwks.entries → p.state.now < installedAt + cfg.ttl →
      ∀ (i : ℕ) (token : Token) (w₀ : World), token.admissible = true → token.kid = key.kid →
        p.threads[i]? = some ⟨token, w₀, validateDirectOidcClaims cfg token⟩ →
          ∀ q, Step (service cfg) p q → q.threads[i]? = p.threads[i]? ∨
            q.threads[i]? = some ⟨token, w₀, .done (some key)⟩

/-- The first section of a call finds a key of the living set. -/
theorem Inv.beginCall_found (hinv : Inv cfg w) {t : ℚ} {rest : List (Document × ℚ)}
    (hhead : w.installs = (jwks, t) :: rest) (hkey : some key ∈ jwks.entries)
    (hlive : w.now < t + cfg.ttl) {token : Token} (hadmissible : token.admissible = true)
    (hkid : token.kid = key.kid) : (w.beginCall cfg i token).1 = .selected key := by
  obtain ⟨-, hvalid, -⟩ := hinv.installs (jwks, t) (by rw [hhead]; exact List.mem_cons_self)
  have hkidValid : validDirectOidcKid cfg.isPrintable key.kid = true := by
    simp only [validJwks, Bool.decide_and, Bool.and_eq_true, decide_eq_true_eq] at hvalid
    exact hvalid.2.2.2.1 key (List.reduceOption_mem_iff.mpr hkey)
  have hfound := findKey_of_mem hvalid hkey
  rw [World.beginCall, if_neg (by simp [hadmissible, hkid, hkidValid]),
    hinv.fresh_of_head hhead hlive]
  simp only [World.lookUp, hkid, hfound]

theorem found_of_step {p q : OidcPool} (hinv : Inv cfg p.state) {t : ℚ}
    {rest : List (Document × ℚ)} (hhead : p.state.installs = (jwks, t) :: rest)
    (hkey : some key ∈ jwks.entries) (hlive : p.state.now < t + cfg.ttl) {token : Token}
    {w₀ : World} (hadmissible : token.admissible = true) (hkid : token.kid = key.kid)
    (hi : p.threads[i]? = some ⟨token, w₀, validateDirectOidcClaims cfg token⟩)
    (hstep : Step (service cfg) p q) : q.threads[i]? = p.threads[i]? ∨
      q.threads[i]? = some ⟨token, w₀, .done (some key)⟩ := by
  have hlt : i < p.threads.length := (List.getElem?_eq_some_iff.mp hi).1
  cases hstep with
  | start token' _ => exact .inl (List.getElem?_append_left hlt)
  | env w' _ => exact .inl rfl
  | run j token' w₁ o k r w' hj hexec =>
      rcases eq_or_ne j i with rfl | hne
      · right
        rw [List.getElem?_set_self hlt]
        obtain ⟨rfl, rfl, hprog⟩ := Thread.mk.inj (Option.some.inj (hj.symm.trans hi))
        obtain ⟨rfl, hk⟩ := Prog.call.inj hprog
        obtain rfl := eq_of_heq hk
        have hfound := hinv.beginCall_found (i := j) hhead hkey hlive hadmissible hkid
        cases hexec
        rw [hfound]
        rfl
      · exact .inl (List.getElem?_set_ne hne)

/-- Any calls with any tokens, any answers of the issuer and any passing of time. -/
theorem bounded_of_reachable {now : ℚ} {p : OidcPool}
    (hp : Reachable (service cfg) (start now) p) : Bounded cfg p := by
  have hsafe := Reachable.poolSafe (obligations cfg) (inv_start cfg now) (fun _ ↦ trivial) hp
  refine ⟨fun i token w₀ key hi ↦ hsafe.result hi key rfl, fun i key t hmem ↦ ?_,
    hsafe.inv.spaced, fun jwks t rest key hhead hkey hlive i token w₀ hadmissible hkid hi q hq ↦
      found_of_step hsafe.inv hhead hkey hlive hadmissible hkid hi hq⟩
  obtain ⟨⟨jwks, t₀⟩, he, hkey, hpast, htime⟩ := hsafe.inv.selections _ hmem
  exact ⟨jwks, t₀, he, (hsafe.inv.installs _ he).1, hkey, hpast, htime⟩

/-! ### A lifetime of zero -/

def signingKey : Jwk := ⟨some "k1", [("kty", "RSA")]⟩

def keySet : Document := .keys [some signingKey]

def configured (ttl : ℚ) : Config := ⟨fun _ ↦ true, "https://issuer.example", some ttl⟩

/-- How an operation turns out when every fetch answers the key set. -/
def act (cfg : Config) (i : ℕ) : (o : Op) → World → Option (Ret o × World)
  | .beginCall token, w => some (w.beginCall cfg i token)
  | .acquire, w =>
      if w.refreshLock = none then some ((), { w with refreshLock := some i }) else none
  | .recheck kid, w => some (w.recheck cfg i kid)
  | .fetchJwks, w => some (some keySet, { w with fetched := keySet :: w.fetched })
  | .settle kid answer, w => some (w.settle cfg i kid answer)
  | .inspect kid observedGeneration, w => some (w.inspect cfg i kid observedGeneration)
  | .settleUnknown kid answer, w => some (w.settleUnknown cfg i kid answer)

theorem exec_act {o : Op} {r : Ret o} (h : act cfg i o w = some (r, w')) :
    Exec cfg i w o r w' := by
  have hpair : ∀ {o : Op} {result : Ret o × World}, Exec cfg i w o result.1 result.2 →
      ∀ {r : Ret o}, some result = some (r, w') → Exec cfg i w o r w' := by
    rintro o result hexec r heq
    cases heq
    exact hexec
  cases o with
  | beginCall token => exact hpair (.beginCall token) h
  | acquire =>
      rw [act] at h
      split_ifs at h with hfree
      cases h
      exact .acquire hfree
  | recheck kid => exact hpair (.recheck kid) h
  | fetchJwks => exact hpair (.fetched keySet) h
  | settle kid answer => exact hpair (.settle kid answer) h
  | inspect kid observedGeneration => exact hpair (.inspect kid observedGeneration) h
  | settleUnknown kid answer => exact hpair (.settleUnknown kid answer) h

def verified : Token := ⟨true, some "k1"⟩

/-- One call, which fetches the set. -/
def played (ttl : ℚ) : OidcPool :=
  Pool.playTurns (service (configured ttl)).body (act (configured ttl))
    [.start verified, .next 0, .next 0, .next 0, .next 0, .next 0] ⟨start 100, []⟩

theorem reachable_played (ttl : ℚ) :
    Reachable (service (configured ttl)) (start 100) (played ttl) :=
  Steps.playTurns (S := service (configured ttl)) (fun _ _ _ _ _ ↦ exec_act) _
    (fun _ _ _ ↦ trivial) _

theorem bounded_played : (played 3600).state.selections = [(0, signingKey, 100)] ∧
    Bounded (configured 3600) (played 3600) :=
  ⟨by decide +kernel, bounded_of_reachable (reachable_played 3600)⟩

/-- Without a lifetime a key is used when its set has just been installed. -/
theorem uncached_not_fresh : ∃ p : OidcPool, Reachable (service (configured 0)) (start 100) p ∧
    ∃ i key t, (i, key, t) ∈ p.state.selections ∧ ∀ e ∈ p.state.installs,
      ¬ t < e.2 + (configured 0).ttl := by
  refine ⟨played 0, reachable_played 0, 0, signingKey, 100, ?_, ?_⟩
  · decide +kernel
  · decide +kernel

end Oidc
