import AxonGateway.Auth.SessionFencing

/-!
# The life of a browser session

What each call makes sure of, and what follows for every run of any number of replicas.
-/

namespace BrowserSession

open Interleaving

variable {cfg : Config} {i : ℕ} {w w' w₀ : World} {key : String} {row : Row} {now : ℤ}

/-! ### Rules -/

theorem safe_ask {α : Type} {Q : α → World → Prop} {o : Op} {k : Ret o → Program α}
    (h : ∀ w₁, Keeps i w w₁ → Inv w₁ → Proper i o w₁ ∧
      ∀ r w₂, Exec cfg.sha256 i w₁ o r w₂ → (o ≠ .clock → Keeps i w₁ w₂) →
        Safe (service cfg).machine protocol i Q (k r) w₂) :
    Safe (service cfg).machine protocol i Q (ask o >>= k) w := by
  intro w₁ hw hinv r w₂ hexec
  obtain ⟨hproper, hk⟩ := h w₁ hw hinv
  obtain ⟨hinv₂, hkeeps⟩ := Exec.preserves hinv hexec hproper
  exact ⟨hinv₂, fun j hj ↦ hkeeps j fun h ↦ absurd h hj,
    hk r w₂ hexec fun hclock ↦ hkeeps i fun _ ↦ hclock⟩

/-- The rule for an operation that may be performed in any state. -/
theorem safe_free {α : Type} {Q : α → World → Prop} {o : Op} {k : Ret o → Program α}
    (hfree : ∀ w, Proper i o w) (hclock : o ≠ .clock)
    (h : ∀ r w₂, Keeps i w w₂ → Safe (service cfg).machine protocol i Q (k r) w₂) :
    Safe (service cfg).machine protocol i Q (ask o >>= k) w :=
  safe_ask fun w₁ hw _ ↦ ⟨hfree w₁, fun r w₂ _ hkeeps ↦ h r w₂ (hw.trans (hkeeps hclock))⟩

/-! ### Authentication -/

/-- The context is that of a stored session which has not expired by the clock of the call. -/
def Authentic (i : ℕ) (key : String) (c : RequestContext) (w : World) : Prop :=
  ∃ row now, w.Wrote key row ∧ row.context.issuer = c.issuer ∧ row.context.subject = c.subject ∧
    w.reading i = some now ∧ now < row.absoluteExpiresAt

abbrev SafeContext (cfg : Config) (i : ℕ) (key : String) (p : Program Answer) (w : World) : Prop :=
  Safe (service cfg).machine protocol i
    (fun a w' ↦ ∀ c, a = .context (some c) → Authentic i key c w') p w

theorem safe_silent {a : Answer} (h : ∀ c, a ≠ .context (some c)) :
    SafeContext cfg i key (.done a) w :=
  fun _ _ _ c hc ↦ absurd hc (h c)

theorem safe_context {c : RequestContext} (hwrote : w.Wrote key row)
    (hissuer : row.context.issuer = c.issuer) (hsubject : row.context.subject = c.subject)
    (hnow : w.reading i = some now) (hlive : now < row.absoluteExpiresAt) :
    SafeContext cfg i key (.done (.context (some c))) w := by
  intro w' hw _ c' hc
  cases hc
  exact ⟨row, now, hwrote.keep hw, hissuer, hsubject, hw.reading.trans hnow, hlive⟩

theorem currentContext_safe (hnow : w.reading i = some now) :
    SafeContext cfg i key (currentContext key now) w := by
  refine safe_ask fun w₁ h₁ hinv ↦ ⟨trivial, fun answer w₂ hexec _ ↦ ?_⟩
  cases hexec with
  | getRaised => exact safe_silent (by simp)
  | getSession =>
      cases hrow : w₁.sessions key with
      | none => exact safe_silent (by simp)
      | some row =>
          change SafeContext cfg i key (.done (.context _)) w₁
          split_ifs with hvalid
          · exact safe_context (hinv.current key row hrow).1 rfl rfl (h₁.reading.trans hnow)
              hvalid.2
          · exact safe_silent (by simp)

theorem rejectSession_safe {revision : ℕ}
    (hlease : ∃ old, w.written key revision = some (i, old)) :
    SafeContext cfg i key (rejectSession key revision) w := by
  obtain ⟨old, hold⟩ := hlease
  refine safe_ask fun w₁ h₁ _ ↦ ⟨fun _ ↦ ⟨revision, old, rfl, h₁.written _ _ _ hold⟩, ?_⟩
  intro answer w₂ _ _
  cases answer <;> exact safe_silent (by simp)

theorem validatedTokens_safe (tokens : Tokens) (nonce : Option String) (fallback : String) :
    Safe (service cfg).machine protocol i (fun _ w' ↦ Keeps i w w')
      (validatedTokens tokens nonce fallback) w := by
  have hdone : ∀ {w₁ : World} {a : Option (RequestContext × String × ℤ)}, Keeps i w w₁ →
      Safe (service cfg).machine protocol i (fun _ w' ↦ Keeps i w w') (.done a) w₁ :=
    fun h w' hw _ ↦ h.trans hw
  unfold validatedTokens
  split
  next =>
    split_ifs
    · exact hdone (Keeps.refl i w)
    · exact safe_free (fun _ ↦ trivial) (by simp) fun context w₂ h₂ ↦ hdone h₂
  next => exact hdone (Keeps.refl i w)

theorem refreshSession_safe (hwrote : w.Wrote key row) (hnow : w.reading i = some now)
    (hlive : now < row.absoluteExpiresAt) :
    SafeContext cfg i key (refreshSession key row now) w := by
  refine safe_ask fun w₁ h₁ _ ↦ ⟨⟨rfl, ⟨row, hwrote.keep h₁, ⟨rfl, rfl, rfl⟩⟩, by
    rintro (h | h) <;> cases h⟩, fun answer w₂ hexec hkeeps ↦ ?_⟩
  have hw₂ := h₁.trans (hkeeps (by simp))
  have hnow₂ : w₂.reading i = some now := hw₂.reading.trans hnow
  match answer, hexec with
  | none, _ => exact safe_silent (by simp)
  | some false, _ => exact currentContext_safe hnow₂
  | some true, .replaced _ _ _ _ _ _ old hold hrevision hlease =>
      -- from here on the lease row is the last one that this call has written
      have hleased : ((w₁.affect i .lease key row.revision).putSession i key
          (leasedRow row now)).written key (row.revision + 1) = some (i, leasedRow row now) := by
        rw [putSession_written, if_pos ⟨rfl, rfl⟩]
      refine safe_free (fun _ ↦ trivial) (by simp) fun answer w₃ h₃ ↦ ?_
      have hleased₃ := h₃.written _ _ _ hleased
      match answer with
      | none => exact safe_silent (by simp)
      | some none => exact rejectSession_safe ⟨_, hleased₃⟩
      | some (some tokens) =>
          refine Safe.seq (p := validatedTokens tokens none row.refreshToken)
            (validatedTokens_safe tokens none row.refreshToken) fun validated w₄ _ h₄ ↦ ?_
          have hleased₄ := h₄.written _ _ _ hleased₃
          match validated with
          | none => exact rejectSession_safe ⟨_, hleased₄⟩
          | some (context, refreshToken, expiresIn) =>
              dsimp only
              split_ifs with hother
              · exact rejectSession_safe ⟨_, hleased₄⟩
              push Not at hother
              obtain ⟨hissuer, hsubject⟩ := hother
              refine safe_ask fun w₅ h₅ _ ↦ ⟨⟨rfl, ⟨leasedRow row now,
                ⟨i, h₅.written _ _ _ hleased₄⟩, ⟨hissuer.symm, hsubject.symm, rfl⟩⟩,
                fun _ ↦ ⟨_, h₅.written _ _ _ hleased₄⟩⟩, fun answer w₆ _ hkeeps₆ ↦ ?_⟩
              have hw₆ := ((hw₂.trans h₃).trans (h₄.trans h₅)).trans (hkeeps₆ (by simp))
              have hnow₆ : w₆.reading i = some now := hw₆.reading.trans hnow
              match answer with
              | none => exact safe_silent (by simp)
              | some true =>
                  exact safe_context (hwrote.keep hw₆) hissuer.symm hsubject.symm hnow₆ hlive
              | some false => exact currentContext_safe hnow₆

/-- A context is returned for a session that has not been deleted before the call. -/
theorem authenticate_safe (token : String) :
    Safe (service cfg).machine protocol i
      (fun a w' ↦ ∀ c, a = .context (some c) → sessionKey cfg.sha256 token ∉ w.removed ∧
        Authentic i (sessionKey cfg.sha256 token) c w') (authenticate cfg token) w := by
  have hsilent : ∀ {w₁ : World} {a : Answer}, (∀ c, a ≠ .context (some c)) →
      Safe (service cfg).machine protocol i
        (fun a w' ↦ ∀ c, a = .context (some c) → sessionKey cfg.sha256 token ∉ w.removed ∧
          Authentic i (sessionKey cfg.sha256 token) c w') (.done a) w₁ :=
    fun h _ _ _ c hc ↦ absurd hc (h c)
  unfold authenticate
  split
  next => exact hsilent (by simp)
  refine safe_ask fun w₁ h₁ hinv ↦ ⟨trivial, fun answer w₂ hexec _ ↦ ?_⟩
  cases hexec with
  | getRaised => exact hsilent (by simp)
  | getSession =>
      cases hrow : w₁.sessions (sessionKey cfg.sha256 token) with
      | none => exact hsilent (by simp)
      | some row =>
          have hnot : sessionKey cfg.sha256 token ∉ w.removed := by
            intro hmem
            have hnone := (hinv.removed _ (h₁.removed hmem)).1
            rw [hrow] at hnone
            cases hnone
          have hwrote := (hinv.current _ row hrow).1
          dsimp only
          split
          next =>
            refine safe_ask fun w₂ _ _ ↦ ⟨(by rintro (h | h) <;> cases h), ?_⟩
            intro answer w₃ _ _
            cases answer <;> exact hsilent (by simp)
          refine Safe.imp (Q := fun a w' ↦ ∀ c, a = .context (some c) →
            Authentic i (sessionKey cfg.sha256 token) c w') (fun a w' h c hc ↦ ⟨hnot, h c hc⟩) ?_
          refine safe_ask fun w₂ h₂ _ ↦ ⟨trivial, fun now w₃ hexec _ ↦ ?_⟩
          have hwrote₂ := hwrote.keep h₂
          obtain ⟨hnow, hwrote₃⟩ : w₃.reading i = some now ∧
              w₃.Wrote (sessionKey cfg.sha256 token) row := by
            cases hexec with
            | clock => exact ⟨Function.update_self _ _ _, hwrote₂⟩
          split_ifs with hexpired hleased hfresh
          · refine safe_ask fun w₄ _ _ ↦ ⟨(by rintro (h | h) <;> cases h), ?_⟩
            intro answer w₅ _ _
            cases answer <;> exact safe_silent (by simp)
          · exact safe_context hwrote₃ rfl rfl hnow (by omega)
          · exact safe_context hwrote₃ rfl rfl hnow (by omega)
          · exact refreshSession_safe hwrote₃ hnow (by omega)

/-! ### The other calls -/

abbrev SafeQuiet (cfg : Config) (i : ℕ) {α : Type} (p : Program α) (w : World) : Prop :=
  Safe (service cfg).machine protocol i (fun _ _ ↦ True) p w

theorem beginLogin_safe (returnTo : Option String) :
    SafeQuiet cfg i (beginLogin cfg returnTo) w := by
  unfold beginLogin
  split
  next => exact fun _ _ _ ↦ trivial
  next =>
    refine safe_ask fun _ _ _ ↦ ⟨trivial, fun nonce w₁ _ _ ↦ ?_⟩
    refine safe_ask fun _ _ _ ↦ ⟨trivial, fun verifier w₂ _ _ ↦ ?_⟩
    refine safe_ask fun _ _ _ ↦ ⟨trivial, fun now w₃ _ _ ↦ ?_⟩
    exact safe_ask fun _ _ _ ↦ ⟨trivial, fun created w₄ _ _ _ _ _ ↦ trivial⟩

/-- A login that ends with a session has redeemed its state. -/
def Redeemed (cfg : Config) (i : ℕ) (state : String) (a : Answer) (w : World) : Prop :=
  ∀ token returnTo, a = .session token returnTo → (i, flowKey cfg.sha256 state) ∈ w.redeemed

theorem storeSession_safe {state : String} {row : String → Row} (hrow : ∀ key, (row key).revision = 1)
    (hredeemed : (i, flowKey cfg.sha256 state) ∈ w.redeemed) (returnTo : String) (attempts : ℕ) :
    Safe (service cfg).machine protocol i (Redeemed cfg i state)
      (storeSession row returnTo attempts) w := by
  have hdone : ∀ {w₁ : World} {a : Answer}, (i, flowKey cfg.sha256 state) ∈ w₁.redeemed →
      Safe (service cfg).machine protocol i (Redeemed cfg i state) (.done a) w₁ :=
    fun h _ hw _ _ _ _ ↦ hw.redeemed h
  induction attempts generalizing w with
  | zero => exact hdone hredeemed
  | succ attempts ih =>
      refine safe_free (fun _ ↦ hrow) (by simp) fun created w₁ h₁ ↦ ?_
      have hredeemed₁ := h₁.redeemed hredeemed
      split
      next => exact hdone hredeemed₁
      next => exact hdone hredeemed₁
      next => exact ih hredeemed₁

theorem completeLogin_safe (code state : String) :
    Safe (service cfg).machine protocol i (Redeemed cfg i state) (completeLogin cfg code state)
      w := by
  have hsilent : ∀ {w₁ : World} {a : Answer}, (∀ token returnTo, a ≠ .session token returnTo) →
      Safe (service cfg).machine protocol i (Redeemed cfg i state) (.done a) w₁ :=
    fun h _ _ _ token returnTo ha ↦ absurd ha (h token returnTo)
  unfold completeLogin
  split
  next => exact hsilent (by simp)
  refine safe_ask fun _ _ _ ↦ ⟨trivial, fun now w₁ _ _ ↦ ?_⟩
  refine safe_ask fun w₂ _ _ ↦ ⟨trivial, fun answer w₃ hexec _ ↦ ?_⟩
  match answer, hexec with
  | none, _ => exact hsilent (by simp)
  | some none, _ => exact hsilent (by simp)
  | some (some flow), .flowLost _ _ _ _ _ _ hanswer => exact absurd rfl (hanswer flow)
  | some (some flow), .flowConsumed _ _ _ hflow hlive =>
      dsimp only
      split
      next returnTo _ _ =>
        refine safe_free (fun _ ↦ trivial) (by simp) fun answer w₄ h₄ ↦ ?_
        match answer with
        | none => exact hsilent (by simp)
        | some none => exact hsilent (by simp)
        | some (some tokens) =>
            refine Safe.seq (p := validatedTokens tokens (some flow.nonce) "")
              (validatedTokens_safe tokens (some flow.nonce) "") fun validated w₅ _ h₅ ↦ ?_
            match validated with
            | none => exact hsilent (by simp)
            | some (context, refreshToken, expiresIn) =>
                refine storeSession_safe (fun _ ↦ rfl) ?_ returnTo 3
                exact (h₄.trans h₅).redeemed List.mem_cons_self
      next => exact hsilent (by simp)

/-- A logout leaves no row of a session that was stored before it. -/
theorem logout_safe (token : Option String) :
    Safe (service cfg).machine protocol i
      (fun a w' ↦ a = .loggedOut → ∀ t ∈ token, validSessionToken t = true →
        ∀ row, w.Wrote (sessionKey cfg.sha256 t) row → sessionKey cfg.sha256 t ∈ w'.removed)
      (logout cfg token) w := by
  unfold logout
  split
  next hfilter =>
    intro w' _ _ _ t ht hvalid row _
    have hsome : token.filter validSessionToken = some t :=
      Option.filter_eq_some_iff.mpr ⟨ht, hvalid⟩
    rw [hfilter] at hsome
    cases hsome
  next token' hfilter =>
    obtain ⟨htoken, -⟩ := Option.filter_eq_some_iff.mp hfilter
    refine safe_ask fun w₁ h₁ hinv ↦ ⟨(by rintro (h | h) <;> cases h), fun answer w₂ hexec _ ↦ ?_⟩
    cases answer with
    | none => exact fun w' _ _ h ↦ by cases h
    | some answer =>
        intro w' hw _ _ t ht _ row hrow
        obtain rfl : token' = t := Option.some.inj (htoken.symm.trans ht)
        cases hexec with
        | deleted => exact hw.removed List.mem_cons_self
        | nothingDeleted _ _ hnone => exact hw.removed (hinv.absent _ hnone row (hrow.keep h₁))

/-! ### Runs -/

/-- What a call says of the world when it ends. -/
def Post (cfg : Config) (i : ℕ) (c : Call) (w₀ : World) (a : Answer) (w : World) : Prop :=
  match c with
  | .beginLogin _ => True
  | .completeLogin _ state => Redeemed cfg i state a w
  | .authenticate token => ∀ c, a = .context (some c) →
      sessionKey cfg.sha256 token ∉ w₀.removed ∧
        Authentic i (sessionKey cfg.sha256 token) c w
  | .logout token => a = .loggedOut → ∀ t ∈ token, validSessionToken t = true →
      ∀ row, w₀.Wrote (sessionKey cfg.sha256 t) row → sessionKey cfg.sha256 t ∈ w.removed

theorem obligations (cfg : Config) :
    Obligations (service cfg) protocol (fun _ _ ↦ True) (Post cfg) where
  pre_rely _ _ _ _ _ := trivial
  env _ _ hinv henv := Expiry.preserves hinv henv
  start p c _ _ _ _ := by
    cases c with
    | beginLogin returnTo => exact beginLogin_safe returnTo
    | completeLogin code state => exact completeLogin_safe code state
    | authenticate token => exact authenticate_safe token
    | logout token => exact logout_safe token

theorem inv_start : Inv start := by
  refine ⟨fun key flow h ↦ ?_, fun e he ↦ ?_, List.nodup_nil, fun key row h ↦ ?_,
    fun key h ↦ ?_, fun key r j row h ↦ ?_, fun key row row' h ↦ ?_, fun e he ↦ ?_,
    fun key _ row h ↦ ?_⟩
  · cases h
  · cases he
  · cases h
  · cases h
  · cases h
  · obtain ⟨j, hj⟩ := h
    cases hj
  · cases he
  · obtain ⟨j, hj⟩ := h
    cases hj

abbrev SessionPool := Pool Op Ret World Call Answer

/-- What holds in every state that any replicas reach. -/
structure Secure (cfg : Config) (p : SessionPool) : Prop where
  /-- A state is handed out at most once, and a login has redeemed its own. -/
  once : (p.state.redeemed.map Prod.snd).Nodup
  redeemed : ∀ (i : ℕ) (w₀ : World) (code state token returnTo : String),
    p.threads[i]? = some ⟨.completeLogin code state, w₀, .done (.session token returnTo)⟩ →
      (i, flowKey cfg.sha256 state) ∈ p.state.redeemed
  /-- A deleted session is not stored again, and a logout deletes the session. -/
  gone : ∀ key ∈ p.state.removed, p.state.sessions key = none
  remain : ∀ q, Steps (service cfg) p q → p.state.removed ⊆ q.state.removed
  loggedOut : ∀ (i : ℕ) (w₀ : World) (token : String) (row : Row),
    p.threads[i]? = some ⟨.logout (some token), w₀, .done .loggedOut⟩ →
      validSessionToken token = true → w₀.Wrote (sessionKey cfg.sha256 token) row →
        sessionKey cfg.sha256 token ∈ p.state.removed
  /-- A context is returned for a session that was not deleted before the call, before its expiry
  by the clock of the call, and with its issuer and subject. -/
  context : ∀ (i : ℕ) (w₀ : World) (token : String) (c : RequestContext),
    p.threads[i]? = some ⟨.authenticate token, w₀, .done (.context (some c))⟩ →
      sessionKey cfg.sha256 token ∉ w₀.removed ∧
        Authentic i (sessionKey cfg.sha256 token) c p.state
  constant : ∀ key row row', p.state.Wrote key row → p.state.Wrote key row' →
    SameSession row row'
  /-- The last steps of a refresh only write or delete over the lease of the refresh. -/
  fenced : ∀ e ∈ p.state.effects, e.purpose.Settles →
    ∃ row, p.state.written e.key e.revision = some (e.thread, row)

/-- Any calls on any replicas, in any order. -/
theorem secure_of_reachable {p : SessionPool} (hp : Reachable (service cfg) start p) :
    Secure cfg p := by
  have hO := obligations cfg
  have hsafe := Reachable.poolSafe hO inv_start (fun _ ↦ trivial) hp
  refine ⟨hsafe.inv.once, fun i w₀ code state token returnTo hi ↦ ?_,
    fun key hkey ↦ (hsafe.inv.removed key hkey).1, fun q hq ↦ ?_,
    fun i w₀ token row hi hvalid hrow ↦ ?_, fun i w₀ token c hi ↦ hsafe.result hi c rfl,
    hsafe.inv.constant, hsafe.inv.fenced⟩
  · exact hsafe.result hi token returnTo rfl
  · exact PoolSafe.steps_of_rely hO (fun i w w' h ↦ h.removed) (fun _ _ _ h h' _ hx ↦ h' (h hx))
      hsafe hq
  · exact hsafe.result hi rfl token rfl hvalid row hrow

/-! ### One session -/

def demo : Config where
  sha256 := id
  safeReturnTo := some
  sessionMaxSeconds := 28800
  flowTtlSeconds := 600
  defaultReturnTo := "/admin/dashboard"

def demoToken : String := "aaaaaaaaaaaaaaaaaaaaaaaaaaaaaaaaaaaaaaaaaaa"

def ann : RequestContext :=
  ⟨"ann", "search", [], [], none, none, none, none, some "https://issuer.example", some "ann"⟩

/-- How an operation turns out when nothing fails. -/
def act (i : ℕ) : (o : Op) → World → Option (Ret o × World)
  | .clock, w => some (1000, { w with reading := Function.update w.reading i (some 1000) })
  | .randomToken, w => some ("r", w)
  | .createFlow flow, w =>
      if flowKey id demoToken ∈ w.flowKeys then none
      else some (⟨demoToken, some true⟩, w.putFlow (flowKey id demoToken) flow)
  | .consumeFlow key now, w =>
      match w.flows key with
      | some flow => if now < flow.expiresAt then some (some (some flow), w.takeFlow i key true)
          else none
      | none => some (some none, w)
  | .createSession row, w =>
      let key := sessionKey id demoToken
      if w.sessions key = none ∧ key ∉ w.removed then
        some (⟨demoToken, some true⟩, w.putSession i key (row key))
      else none
  | .getSession key, w => some (some (w.sessions key), w)
  | .deleteSession purpose key none, w =>
      match w.sessions key with
      | some old => some (some true, (w.affect i purpose key old.revision).removeSession key)
      | none => some (some true, w)
  | .requestTokens _, w => some (some (some ⟨some "id", some 3600, some (some "refresh")⟩), w)
  | .validateIdToken _ _, w => some (some ann, w)
  | _, _ => none

theorem exec_act {o : Op} {r : Ret o} (hinv : Inv w) (h : act i o w = some (r, w')) :
    Exec id i w o r w' := by
  cases o with
  | clock =>
      cases h
      exact .clock 1000
  | randomToken =>
      cases h
      exact .randomToken "r"
  | createFlow flow =>
      rw [act] at h
      split_ifs at h with hfresh
      cases h
      exact .flowCreated flow demoToken (some true) hfresh
  | consumeFlow key now =>
      rw [act] at h
      split at h
      next flow hflow =>
        split_ifs at h with hlive
        cases h
        exact .flowConsumed key now flow hflow hlive
      next hflow =>
        cases h
        refine .flowMissing key now fun flow h ↦ ?_
        rw [hflow] at h
        cases h
  | createSession row =>
      rw [act] at h
      split_ifs at h with hfresh
      cases h
      refine .sessionCreated row demoToken (some true) fun r ↦ ?_
      cases hwritten : w.written (sessionKey id demoToken) r with
      | none => rfl
      | some entry =>
          obtain rfl := hinv.revision _ _ _ _ hwritten
          exact absurd (hinv.absent _ hfresh.1 entry.2 ⟨entry.1, hwritten⟩) hfresh.2
  | getSession key =>
      cases h
      exact .getSession key
  | deleteSession purpose key expected =>
      cases expected with
      | some expected => cases h
      | none =>
          rw [act] at h
          split at h
          next old hold =>
            cases h
            exact .deleted purpose key none (some true) old hold (by simp)
          next hnone =>
            cases h
            exact .nothingDeleted purpose key hnone
  | replaceSession => cases h
  | requestTokens form =>
      cases h
      exact .requestTokens form _
  | validateIdToken token nonce =>
      cases h
      exact .validateIdToken token nonce _

/-- A login, a request, a logout and another request. -/
def visit : SessionPool :=
  Pool.playTurns (service demo).body act
    [.start (.beginLogin none), .next 0, .next 0, .next 0, .next 0,
      .start (.completeLogin "code" demoToken), .next 1, .next 1, .next 1, .next 1, .next 1,
      .start (.authenticate demoToken), .next 2, .next 2,
      .start (.logout (some demoToken)), .next 3,
      .start (.authenticate demoToken), .next 4] ⟨start, []⟩

/-- The contexts that the requests were given. -/
def contexts (p : SessionPool) : List (Option RequestContext) :=
  p.threads.filterMap fun t ↦ match t.prog with
    | .done (.context c) => some c
    | _ => none

theorem secure_visit : contexts visit = [some ann, none] ∧ Secure demo visit := by
  refine ⟨by decide +kernel, secure_of_reachable ?_⟩
  refine Steps.playTurns_of_reached (S := service demo) (fun q hq i o r w' h ↦ ?_) _
    (fun _ _ _ ↦ trivial)
  have hsafe := Reachable.poolSafe (obligations demo) inv_start (fun _ ↦ trivial) hq
  exact exec_act hsafe.inv h

end BrowserSession
