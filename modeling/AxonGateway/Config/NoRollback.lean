import AxonGateway.Config.ModelSync

/-!
# The live registry does not roll back

What goes live is the stored document of its revision.  A refresh compares revisions before it
adopts a document; a commit and a reload publish theirs as it is, so the live revision stands
still or grows as long as none of them comes after a later one.
-/

namespace ModelSync

open Interleaving

variable {Document Models : Type} {parse : Document → Option Models} {w w' : World parse}
  {s : Snapshot parse} {i : ℕ}

/-- The snapshot is a document that has been stored. -/
structure Genuine (s : Snapshot parse) (w : World parse) : Prop where
  stored : w.log s.revision = some s.document
  positive : 1 ≤ s.revision

/-- The live models are those of the stored document at the live revision, which is also that of
the last good snapshot. -/
structure Faithful (w : World parse) : Prop where
  models : ∃ document, w.log w.live.revision = some document ∧
    parse document = some w.live.models
  lastGood : w.lastGood.revision = w.live.revision

structure Inv (w : World parse) : Prop extends Faithful w where
  current : ∀ row, w.row = some row → 1 ≤ row.revision ∧
    w.log row.revision = some row.document ∧ ∀ r, row.revision < r → w.log r = none
  absent : w.row = none → ∀ r, 0 < r → w.log r = none

/-- Stored documents remain, and the live revision does not decrease. -/
structure Advances (w w' : World parse) : Prop where
  log : ∀ r document, w.log r = some document → w'.log r = some document
  revision : w.live.revision ≤ w'.live.revision

theorem Advances.refl (w : World parse) : Advances w w := ⟨fun _ _ h ↦ h, le_rfl⟩

theorem Advances.trans {w₁ w₂ w₃ : World parse} (h : Advances w₁ w₂) (h' : Advances w₂ w₃) :
    Advances w₁ w₃ :=
  ⟨fun r document hd ↦ h'.log r document (h.log r document hd), h.revision.trans h'.revision⟩

theorem Genuine.advance (hs : Genuine s w) (h : Advances w w') : Genuine s w' :=
  ⟨h.log _ _ hs.stored, hs.positive⟩

def protocol (parse : Document → Option Models) : Protocol (World parse) where
  inv := Inv
  rely _ := Advances
  refl _ := Advances.refl
  trans _ _ _ _ := Advances.trans

/-- A commit or a reload publishes no snapshot after a later one has gone live. -/
def Ordered : ℕ → Op parse → World parse → Prop
  | _, .publish s _, w => w.live.revision ≤ s.revision
  | _, _, _ => True

/-! ### Writes -/

/-- The next revision, or the current document again. -/
def Extends (row : Row Document) : Option (Row Document) → Prop
  | none => row.revision = 1
  | some old => row.revision = old.revision + 1 ∨
      row.revision = old.revision ∧ row.document = old.document

theorem Inv.put (hinv : Inv w) {row : Row Document} (h : Extends row w.row) :
    Inv (w.put row) ∧ Advances w (w.put row) := by
  have hpositive : 1 ≤ row.revision := by
    cases hrow : w.row with
    | none =>
        rw [hrow] at h
        exact (show row.revision = 1 from h).ge
    | some old =>
        rw [hrow] at h
        have hold := (hinv.current old hrow).1
        rcases h with h | ⟨h, -⟩ <;> omega
  have hlater : ∀ r, row.revision < r → w.log r = none := by
    intro r hr
    cases hrow : w.row with
    | none => exact hinv.absent hrow r (by omega)
    | some old =>
        rw [hrow] at h
        refine (hinv.current old hrow).2.2 r ?_
        rcases h with h | ⟨h, -⟩ <;> omega
  have hlog : ∀ r document, w.log r = some document → (w.put row).log r = some document := by
    intro r document hr
    rcases eq_or_ne r row.revision with rfl | hne
    · have hsame : document = row.document := by
        cases hrow : w.row with
        | none =>
            rw [hinv.absent hrow _ (by omega)] at hr
            cases hr
        | some old =>
            obtain ⟨-, hstored, hnone⟩ := hinv.current old hrow
            rw [hrow] at h
            rcases h with h | ⟨h, hdocument⟩
            · rw [hnone _ (by omega)] at hr
              cases hr
            · rw [h, hstored] at hr
              rw [hdocument]
              exact (Option.some.inj hr).symm
      rw [hsame]
      exact Function.update_self _ _ _
    · exact (Function.update_of_ne hne _ _).trans hr
  obtain ⟨document, hlive, hparse⟩ := hinv.models
  refine ⟨⟨⟨⟨document, hlog _ _ hlive, hparse⟩, hinv.lastGood⟩, ?_, ?_⟩, hlog, le_rfl⟩
  · rintro _ ⟨⟩
    refine ⟨hpositive, Function.update_self _ _ _, fun r hr ↦ ?_⟩
    exact (Function.update_of_ne (by omega) _ _).trans (hlater r hr)
  · intro hnone
    cases hnone

/-- A write whose condition holds goes on from the current row. -/
def Continues (row : Row Document) : Condition Document → Prop
  | .absent => row.revision = 1
  | .current revision _ => row.revision = revision + 1
  | .legacy revision document => row.revision = revision ∧ row.document = document

theorem Continues.extends {row : Row Document} {condition : Condition Document}
    {stored : Option (Row Document)} (h : Continues row condition)
    (hholds : condition.Holds stored) : Extends row stored := by
  cases condition with
  | absent =>
      obtain rfl : stored = none := hholds
      exact h
  | current revision signed =>
      obtain ⟨old, rfl, rfl, -⟩ := hholds
      exact .inl h
  | legacy revision document =>
      obtain ⟨old, rfl, rfl, rfl, -⟩ := hholds
      exact .inr h

theorem snapshot_genuine {row : Row Document} (hinv : Inv w) (hrow : w.row = some row)
    (h : row.snapshot parse = some s) : Genuine s w := by
  obtain ⟨-, hlog, -⟩ := hinv.current row hrow
  unfold Row.snapshot at h
  split at h
  next => cases h
  next hpositive =>
    split at h
    next =>
      cases h
      exact ⟨hlog, Nat.le_of_not_lt hpositive⟩
    next => cases h

theorem Genuine.sign (hs : Genuine s w) (signature : Option String) :
    Genuine { s with signature := signature } w :=
  ⟨hs.stored, hs.positive⟩

theorem fromConfig_revision {config : Document} {revision : ℕ}
    (h : Snapshot.fromConfig parse config revision = some s) : s.revision = revision := by
  unfold Snapshot.fromConfig at h
  split at h
  next =>
    cases h
    rfl
  next => cases h

/-! ### The live registry -/

theorem Inv.goLive (hinv : Inv w) (hs : Genuine s w) (hnewer : w.live.revision ≤ s.revision)
    (hrow : w'.row = w.row) (hlog : w'.log = w.log) (hlive : w'.live = ⟨s.models, s.revision⟩)
    (hgood : w'.lastGood = s) : Inv w' ∧ Advances w w' := by
  refine ⟨⟨⟨⟨s.document, ?_, ?_⟩, ?_⟩, ?_, ?_⟩, ⟨fun r document hr ↦ ?_, ?_⟩⟩
  · rw [hlog, hlive]
    exact hs.stored
  · rw [hlive]
    exact s.parsed
  · rw [hgood, hlive]
  · rw [hrow, hlog]
    exact hinv.current
  · rw [hrow, hlog]
    exact hinv.absent
  · rwa [hlog]
  · rw [hlive]
    exact hnewer

/-- Nothing changes that the invariant is about. -/
theorem Inv.frame (hinv : Inv w) (hrow : w'.row = w.row) (hlog : w'.log = w.log)
    (hlive : w'.live = w.live) (hgood : w'.lastGood = w.lastGood) : Inv w' ∧ Advances w w' := by
  refine ⟨⟨⟨?_, ?_⟩, ?_, ?_⟩, ⟨fun r document hr ↦ ?_, ?_⟩⟩
  · rw [hlog, hlive]
    exact hinv.models
  · rw [hgood, hlive]
    exact hinv.lastGood
  · rw [hrow, hlog]
    exact hinv.current
  · rw [hrow, hlog]
    exact hinv.absent
  · rwa [hlog]
  · rw [hlive]

theorem Inv.adopt (hinv : Inv w) (generation : ℕ) (answer : Option (Snapshot parse)) (now : ℚ)
    (hanswer : ∀ s ∈ answer, Genuine s w) :
    Inv (w.adopt generation answer now).2 ∧ Advances w (w.adopt generation answer now).2 := by
  unfold World.adopt
  by_cases hgeneration : generation = w.modelGeneration
  · rw [if_neg (not_not.mpr hgeneration)]
    cases answer with
    | none => exact hinv.frame rfl rfl rfl rfl
    | some s =>
        dsimp only
        split_ifs with hpositive hold
        · exact hinv.frame rfl rfl rfl rfl
        · exact hinv.frame rfl rfl rfl rfl
        · exact hinv.goLive (hanswer s rfl) (by omega) rfl rfl rfl rfl
  · rw [if_pos hgeneration]
    exact hinv.frame rfl rfl rfl rfl

theorem Inv.finishRefresh (hinv : Inv w) (generation : ℕ)
    (answer : Except LoadError (Option (Snapshot parse))) (now : ℚ)
    (hanswer : ∀ s, answer = .ok (some s) → Genuine s w) :
    Inv (w.finishRefresh generation answer now).2 ∧
      Advances w (w.finishRefresh generation answer now).2 := by
  cases answer with
  | error e => exact hinv.frame rfl rfl rfl rfl
  | ok answer =>
      obtain ⟨hinv₁, hadvances⟩ := hinv.adopt generation answer now fun s hs ↦
        hanswer s (congrArg Except.ok hs)
      obtain ⟨hinv₂, hadvances₂⟩ : Inv (w.finishRefresh generation (.ok answer) now).2 ∧
          Advances _ (w.finishRefresh generation (.ok answer) now).2 :=
        hinv₁.frame rfl rfl rfl rfl
      exact ⟨hinv₂, hadvances.trans hadvances₂⟩

theorem Inv.publish (hinv : Inv w) (hs : Genuine s w) (now : ℚ)
    (hordered : w.live.revision ≤ s.revision) :
    Inv (w.publish s now).2 ∧ Advances w (w.publish s now).2 := by
  have hpositive := hs.positive
  rw [World.publish, if_neg (by omega)]
  exact hinv.goLive hs hordered rfl rfl rfl rfl

/-! ### Operations -/

/-- Rows continue the one that their condition names, and only genuine snapshots are adopted. -/
def Proper : Op parse → World parse → Prop
  | .putItem row condition, _ => Continues row condition
  | .finishRefresh _ answer _, w => ∀ s, answer = .ok (some s) → Genuine s w
  | .publish s _, w => Genuine s w
  | _, _ => True

theorem Exec.preserves {o : Op parse} {r : Ret parse o} (hinv : Inv w) (hexec : Exec w o r w')
    (hordered : Ordered i o w) (hproper : Proper o w) : Inv w' ∧ Advances w w' := by
  cases hexec with
  | committed row condition outcome hholds houtcome =>
      exact hinv.put (Continues.extends hproper hholds)
  | finishRefresh generation answer now => exact hinv.finishRefresh generation answer now hproper
  | publish s now => exact hinv.publish hproper now hordered
  | checkStale now =>
      unfold World.checkStale
      split_ifs <;> exact hinv.frame rfl rfl rfl rfl
  | _ => exact hinv.frame rfl rfl rfl rfl

theorem Others.preserves (hinv : Inv w) (h : Others w w') : Inv w' ∧ Advances w w' := by
  cases h with
  | first document signature hrow => exact hinv.put (by rw [hrow]; rfl)
  | next row document signature hrow => exact hinv.put (by rw [hrow]; exact .inl rfl)
  | signed row signature hrow hlegacy => exact hinv.put (by rw [hrow]; exact .inr ⟨rfl, rfl⟩)

/-! ### Programs -/

section Programs

variable [DecidableEq Document] {mode : SigningMode} {oversized : Document → Bool} {α : Type}

/-- The instance as long as its publications come in order. -/
abbrev machine (parse : Document → Option Models) (mode : SigningMode)
    (oversized : Document → Bool) : Machine (Op parse) (Ret parse) (World parse) :=
  ((service parse mode oversized).restrict Ordered).machine

theorem safe_call {Q : α → World parse → Prop} {o : Op parse} {k : Ret parse o → Program parse α}
    (h : ∀ w₁, Advances w w₁ → Inv w₁ → Proper o w₁ ∧ ∀ r w₂, Exec w₁ o r w₂ → Advances w₁ w₂ →
      Safe (machine parse mode oversized) (protocol parse) i Q (k r) w₂) :
    Safe (machine parse mode oversized) (protocol parse) i Q (ask o >>= k) w := by
  intro w₁ hw hinv r w₂ hexec
  obtain ⟨hproper, hk⟩ := h w₁ hw hinv
  obtain ⟨hinv₂, hadvances⟩ := hexec.1.preserves hinv hexec.2 hproper
  exact ⟨hinv₂, fun _ _ ↦ hadvances, hk r w₂ hexec.1 hadvances⟩

/-- The rule for an operation that may be performed in any state. -/
theorem safe_free {Q : α → World parse → Prop} {o : Op parse} {k : Ret parse o → Program parse α}
    (hfree : ∀ w : World parse, Proper o w)
    (h : ∀ r w₂, Advances w w₂ →
      Safe (machine parse mode oversized) (protocol parse) i Q (k r) w₂) :
    Safe (machine parse mode oversized) (protocol parse) i Q (ask o >>= k) w :=
  safe_call fun w₁ hw _ ↦ ⟨hfree w₁, fun r w₂ _ hw₂ ↦ h r w₂ (hw.trans hw₂)⟩

theorem safe_done {Q : α → World parse → Prop} {a : α} (h : ∀ w', Advances w w' → Q a w') :
    Safe (machine parse mode oversized) (protocol parse) i Q (.done a) w :=
  fun w' hw _ ↦ h w' hw

/-- What is loaded has been stored. -/
def Loaded (r : Except LoadError (Option (Snapshot parse))) (w : World parse) : Prop :=
  ∀ s, r = .ok (some s) → Genuine s w

theorem safe_error {e : LoadError} :
    Safe (machine parse mode oversized) (protocol parse) i Loaded (.done (.error e)) w :=
  safe_done fun _ _ s h ↦ by cases h

theorem safe_loaded (hs : Genuine s w) :
    Safe (machine parse mode oversized) (protocol parse) i Loaded (.done (.ok (some s))) w := by
  refine safe_done fun w' hw s' h ↦ ?_
  cases h
  exact hs.advance hw

theorem migrate_safe (hs : Genuine s w) :
    Safe (machine parse mode oversized) (protocol parse) i
      (fun r w' ↦ ∀ signed, r = .ok signed → Genuine signed w')
      (migrateUnsignedModelRegistry s) w := by
  refine safe_free (fun _ ↦ trivial) fun answer w₁ h₁ ↦ ?_
  cases answer with
  | none => exact safe_done fun _ _ signed h ↦ by cases h
  | some signature =>
      refine safe_free (fun _ ↦ ⟨rfl, rfl⟩) fun outcome w₂ h₂ ↦ ?_
      cases outcome with
      | conflict | raised => exact safe_done fun _ _ signed h ↦ by cases h
      | committed =>
          refine safe_free (fun _ ↦ trivial) fun _ w₃ h₃ ↦ safe_done fun w' hw' signed h ↦ ?_
          cases h
          exact (hs.sign (some signature)).advance (((h₁.trans h₂).trans h₃).trans hw')

theorem loadSnapshot_safe (afterRevision : Option ℕ)
    {retry : Program parse (Except LoadError (Option (Snapshot parse)))}
    (hretry : ∀ w, Safe (machine parse mode oversized) (protocol parse) i Loaded retry w) :
    Safe (machine parse mode oversized) (protocol parse) i Loaded
      (loadSnapshot mode afterRevision retry) w := by
  refine safe_call fun w₁ h₁ hinv ↦ ⟨trivial, fun answer w₂ hexec _ ↦ ?_⟩
  cases hexec with
  | getItem_raised => exact safe_error
  | getItem =>
      cases hrow : w₁.row with
      | none => exact safe_done fun _ _ s h ↦ by cases h
      | some row =>
          dsimp only [Prog.bind]
          cases hsnapshot : row.snapshot parse with
          | none => exact safe_error
          | some s =>
              have hs := snapshot_genuine hinv hrow hsnapshot
              refine safe_free (fun _ ↦ trivial) fun authenticated w₂ h₂ ↦ ?_
              have hs₂ := hs.advance h₂
              split_ifs with hrollback hdisabled hunsigned hmode hsame
              · exact safe_loaded hs₂
              · exact safe_error
              · refine Safe.seq (migrate_safe hs₂) fun r w₃ _ hr ↦ ?_
                match r with
                | .ok signed => exact safe_loaded (hr signed rfl)
                | .error .conflict => exact hretry w₃
                | .error .other => exact safe_error
              · exact safe_loaded hs₂
              · refine safe_free (fun _ ↦ trivial) fun valid w₃ h₃ ↦ ?_
                cases valid with
                | false => exact safe_error
                | true =>
                    refine safe_free (fun _ ↦ trivial) fun _ w₄ h₄ ↦ ?_
                    exact safe_loaded (hs₂.advance (h₃.trans h₄))
              · exact safe_error

theorem loadModelRegistrySnapshot_safe (afterRevision : Option ℕ) :
    Safe (machine parse mode oversized) (protocol parse) i Loaded
      (loadModelRegistrySnapshot mode afterRevision) w :=
  loadSnapshot_safe afterRevision fun _ ↦ loadSnapshot_safe afterRevision fun _ ↦ safe_error

/-- What is saved has been stored. -/
def Saved (r : Except SaveError (Snapshot parse)) (w : World parse) : Prop :=
  ∀ s, r = .ok s → Genuine s w

theorem safe_unsaved {e : SaveError} :
    Safe (machine parse mode oversized) (protocol parse) i Saved (.done (.error e)) w :=
  safe_done fun _ _ s h ↦ by cases h

theorem safe_saved (hs : Genuine s w) :
    Safe (machine parse mode oversized) (protocol parse) i Saved (.done (.ok s)) w := by
  refine safe_done fun w' hw s' h ↦ ?_
  cases h
  exact hs.advance hw

theorem putSnapshot_safe {expected : ℕ} (hs : s.revision = expected + 1) :
    Safe (machine parse mode oversized) (protocol parse) i Saved (putSnapshot mode expected s)
      w := by
  refine safe_call fun w₁ _ _ ↦ ⟨?_, fun outcome w₂ hexec _ ↦ ?_⟩
  · split_ifs with hexpected
    · change s.revision = 1
      omega
    · exact hs
  · cases hexec with
    | conflict | raised => exact safe_unsaved
    | committed _ _ _ hholds houtcome =>
        have hgenuine : Genuine s (w₁.put s.row) := ⟨Function.update_self _ _ _, by omega⟩
        cases outcome with
        | conflict | raised => exact safe_unsaved
        | committed =>
            dsimp only
            split
            · exact safe_free (fun _ ↦ trivial) fun _ w₃ h₃ ↦ safe_saved (hgenuine.advance h₃)
            · exact safe_saved hgenuine

theorem newSignature_safe (s : Snapshot parse) :
    Safe (machine parse mode oversized) (protocol parse) i (fun _ _ ↦ True) (newSignature mode s)
      w := by
  unfold newSignature
  split
  · exact safe_free (fun _ ↦ trivial) fun _ _ _ ↦ safe_done fun _ _ ↦ trivial
  · exact safe_done fun _ _ ↦ trivial

theorem saveModelRegistry_safe (config : Document) (expected : ℕ) :
    Safe (machine parse mode oversized) (protocol parse) i Saved
      (saveModelRegistry mode oversized config expected) w := by
  unfold saveModelRegistry
  split
  next => exact safe_unsaved
  cases hconfig : Snapshot.fromConfig parse config (expected + 1) with
  | none => exact safe_unsaved
  | some unsigned =>
      dsimp only
      split
      next => exact safe_unsaved
      refine Safe.seq (newSignature_safe unsigned) fun signature w₁ _ _ ↦ ?_
      cases signature with
      | none => exact safe_unsaved
      | some signature =>
          have hrevision := fromConfig_revision hconfig
          exact putSnapshot_safe hrevision

/-! ### Calls -/

theorem safe_trivial {α : Type} {a : α} : Safe (machine parse mode oversized) (protocol parse) i
    (fun _ _ ↦ True) (.done a : Program parse α) w :=
  safe_done fun _ _ ↦ trivial

theorem reloadModelRegistry_safe (now : ℚ) :
    Safe (machine parse mode oversized) (protocol parse) i (fun _ _ ↦ True)
      (reloadModelRegistry mode now) w := by
  refine Safe.seq (loadModelRegistrySnapshot_safe none) fun r w₁ _ hr ↦ ?_
  match r with
  | .error _ => exact safe_trivial
  | .ok none => exact safe_trivial
  | .ok (some s) =>
      exact safe_call fun w₂ h₂ _ ↦ ⟨(hr s rfl).advance h₂, fun _ _ _ _ ↦ safe_trivial⟩

theorem commitModelRegistry_safe (config : Document) (expected : ℕ) (now : ℚ) :
    Safe (machine parse mode oversized) (protocol parse) i (fun _ _ ↦ True)
      (commitModelRegistry mode oversized config expected now) w := by
  refine Safe.seq (saveModelRegistry_safe config expected) fun r w₁ _ hr ↦ ?_
  match r with
  | .error .conflict =>
      exact Safe.seq (reloadModelRegistry_safe now) fun _ _ _ _ ↦ safe_trivial
  | .error .other => exact safe_trivial
  | .ok s =>
      dsimp only
      split_ifs with hrevision
      · exact safe_trivial
      · exact safe_call fun w₂ h₂ _ ↦ ⟨(hr s rfl).advance h₂, fun _ _ _ _ ↦ safe_trivial⟩

theorem settleRefresh_safe (result : Except LoadError Bool) :
    Safe (machine parse mode oversized) (protocol parse) i (fun _ _ ↦ True)
      (settleRefresh result) w := by
  cases result with
  | ok adopted => exact safe_trivial
  | error e => exact safe_free (fun _ ↦ trivial) fun _ _ _ ↦ safe_trivial

theorem refreshModelRegistry_safe (now : ℚ) :
    Safe (machine parse mode oversized) (protocol parse) i (fun _ _ ↦ True)
      (refreshModelRegistry mode now) w := by
  refine safe_free (fun _ ↦ trivial) fun seen w₁ _ ↦ ?_
  refine Safe.seq (loadModelRegistrySnapshot_safe (some seen.2)) fun answer w₂ _ hanswer ↦ ?_
  intro w₃ h₃ hinv r w₄ hexec
  have hloaded : Proper (.finishRefresh seen.1 answer now) w₃ :=
    fun s hs ↦ (hanswer s hs).advance h₃
  obtain ⟨hinv₄, h₄⟩ := hexec.1.preserves hinv hexec.2 hloaded
  exact ⟨hinv₄, fun _ _ ↦ h₄, safe_trivial⟩

theorem refreshRoutingIfStale_safe (now : ℚ) :
    Safe (machine parse mode oversized) (protocol parse) i (fun _ _ ↦ True)
      (refreshRoutingIfStale mode now) w := by
  refine safe_free (fun _ ↦ trivial) fun staleness w₁ _ ↦ ?_
  cases staleness with
  | fresh => exact safe_trivial
  | join => exact safe_free (fun _ ↦ trivial) fun result _ _ ↦ settleRefresh_safe result
  | create =>
      exact Safe.seq (refreshModelRegistry_safe now) fun result _ _ _ ↦ settleRefresh_safe result

/-! ### Runs -/

theorem obligations (parse : Document → Option Models) (mode : SigningMode)
    (oversized : Document → Bool) :
    Obligations ((service parse mode oversized).restrict Ordered) (protocol parse)
      (fun _ _ ↦ True) (fun _ _ _ _ _ ↦ True) where
  pre_rely _ _ _ _ _ := trivial
  env w w' hinv henv := by
    obtain ⟨hinv', hadvances⟩ := Others.preserves hinv henv
    exact ⟨hinv', fun _ ↦ hadvances⟩
  start p c _ _ _ _ := by
    cases c with
    | commit config expected now => exact commitModelRegistry_safe config expected now
    | refresh now =>
        exact Safe.seq (refreshRoutingIfStale_safe now) fun _ _ _ _ ↦ safe_trivial

omit [DecidableEq Document] in
theorem inv_start (first : Snapshot parse) : Inv (start first) := by
  refine ⟨⟨⟨first.document, if_pos rfl, first.parsed⟩, rfl⟩, fun row hrow ↦ ?_, fun hrow r hr ↦ ?_⟩
  · unfold start at hrow
    dsimp only at hrow
    split_ifs at hrow with hzero
    cases hrow
    refine ⟨Nat.one_le_iff_ne_zero.mpr hzero, if_pos rfl, fun r hr ↦ if_neg ?_⟩
    exact (ne_of_lt hr).symm
  · unfold start at hrow
    dsimp only at hrow
    split_ifs at hrow with hzero
    exact if_neg (by omega)

/-- Any commits and refreshes on the instance, and any of other instances, in any order: as long
as no commit or reload publishes its snapshot after a later one has gone live, the live registry
is the stored document of a revision that never decreases. -/
theorem no_rollback (first : Snapshot parse) {p : Pool (Op parse) (Ret parse) (World parse)
      (Call Document) Answer}
    (hp : Reachable ((service parse mode oversized).restrict Ordered) (start first) p) :
    Faithful p.state ∧ ∀ q, Steps ((service parse mode oversized).restrict Ordered) p q →
      p.state.live.revision ≤ q.state.live.revision := by
  have hO := obligations parse mode oversized
  have hsafe := Reachable.poolSafe hO (inv_start first) (fun _ ↦ trivial) hp
  refine ⟨hsafe.inv.toFaithful, fun q hq ↦ ?_⟩
  exact (PoolSafe.steps_rely hO (fun _ _ _ _ h ↦ h) hsafe hq 0).revision

end Programs

/-! ### A commit that waits -/

/-- Every document is its own configuration. -/
abbrev plain : ℕ → Option ℕ := some

def bootstrap : Snapshot plain := ⟨0, 100, none, 100, rfl⟩

abbrev plainService : Service (Op plain) (Ret plain) (World plain) (Call ℕ) Answer :=
  service plain .disabled fun _ ↦ false

def ordered : Op plain → World plain → Bool
  | .publish s _, w => w.live.revision ≤ s.revision
  | _, _ => true

theorem ordered_sound {o : Op plain} {w : World plain} (h : ordered o w = true) :
    Ordered i o w := by
  cases o with
  | publish s now =>
      have hle : w.live.revision ≤ s.revision := of_decide_eq_true h
      exact hle
  | _ => trivial

/-- How an operation turns out when nothing raises. -/
def act (_ : ℕ) : (o : Op plain) → World plain → Option (Ret plain o × World plain)
  | .getItem, w => some (some w.row, w)
  | .putItem row .absent, w =>
      if w.row = none then some (.committed, w.put row) else some (.conflict, w)
  | .putItem row (.current revision signed), w =>
      match w.row with
      | some old =>
          if old.revision = revision ∧ old.signature.isSome = signed then
            some (.committed, w.put row)
          else some (.conflict, w)
      | none => some (.conflict, w)
  | .checkStale now, w => some (w.checkStale now)
  | .authenticated, w => some (w.authenticated, w)
  | .beginRefresh, w => some ((w.modelGeneration, w.live.revision), w)
  | .finishRefresh generation answer now, w => some (w.finishRefresh generation answer now)
  | .publish s now, w => some (w.publish s now)
  | _, _ => none

theorem exec_act {o : Op plain} {w w' : World plain} {r : Ret plain o}
    (h : act i o w = some (r, w')) : Exec w o r w' := by
  have hpair : ∀ {o : Op plain} {result : Ret plain o × World plain},
      Exec w o result.1 result.2 → ∀ {r : Ret plain o}, some result = some (r, w') →
        Exec w o r w' := by
    rintro o result hexec r heq
    cases heq
    exact hexec
  cases o with
  | getItem => exact hpair (.getItem) h
  | putItem row condition =>
      cases condition with
      | absent =>
          rw [act] at h
          split_ifs at h with hrow
          · exact hpair (.committed row .absent .committed hrow (by decide)) h
          · exact hpair (.conflict row .absent hrow) h
      | current revision signed =>
          rw [act] at h
          split at h
          next old hrow =>
            split_ifs at h with hcurrent
            · have hholds : (Condition.current revision signed).Holds w.row := ⟨old, hrow, hcurrent⟩
              exact hpair (.committed row _ .committed hholds (by decide)) h
            · refine hpair (.conflict row _ ?_) h
              rintro ⟨old', hrow', hcurrent'⟩
              obtain rfl := Option.some.inj (hrow.symm.trans hrow')
              exact hcurrent hcurrent'
          next hrow =>
            refine hpair (.conflict row _ ?_) h
            rintro ⟨old, hrow', -⟩
            rw [hrow] at hrow'
            cases hrow'
      | legacy revision document => cases h
  | checkStale now => exact hpair (.checkStale now) h
  | authenticated => exact hpair .authenticated h
  | beginRefresh => exact hpair .beginRefresh h
  | finishRefresh generation answer now => exact hpair (.finishRefresh generation answer now) h
  | publish s now => exact hpair (.publish s now) h
  | _ => cases h

abbrev PlainPool := Pool (Op plain) (Ret plain) (World plain) (Call ℕ) Answer

def play (ok : Op plain → World plain → Bool) (turns : List (Turn (Call ℕ))) : PlainPool :=
  Pool.playTurns plainService.body (fun i o w ↦ if ok o w then act i o w else none) turns
    ⟨start bootstrap, []⟩

/-- A commit is published, and a second one after it. -/
def inTime : List (Turn (Call ℕ)) :=
  [.start (.commit 101 0 10), .next 0, .next 0, .start (.commit 102 1 12), .next 1, .next 1]

/-- A commit is stored, and before it is published a refresh adopts it and a second commit is
made and published. -/
def overtaken : List (Turn (Call ℕ)) :=
  [.start (.commit 101 0 10), .next 0, .start (.refresh 5), .next 1, .next 1, .next 1, .next 1,
    .next 1, .start (.commit 102 1 8), .next 2, .next 2]

theorem no_rollback_in_time : ∃ p : PlainPool, p.state.live = ⟨102, 2⟩ ∧ Faithful p.state ∧
    ∀ q, Steps (plainService.restrict Ordered) p q →
      p.state.live.revision ≤ q.state.live.revision := by
  refine ⟨play ordered inTime, by decide +kernel, no_rollback bootstrap ?_⟩
  refine Steps.playTurns (S := plainService.restrict Ordered) (fun i o w r w' h ↦ ?_) _
    (fun _ _ _ ↦ trivial) _
  split_ifs at h with hok
  exact ⟨exec_act (i := i) h, ordered_sound hok⟩

/-- The first commit then takes the registry back. -/
theorem overtaken_rolls_back : ∃ p q : PlainPool,
    Reachable plainService (start bootstrap) p ∧ Steps plainService p q ∧
      p.state.live.revision = 2 ∧ q.state.live.revision = 1 := by
  have hact : ∀ (i : ℕ) (o : Op plain) (w : World plain) (r : Ret plain o) (w' : World plain),
      (if true then act i o w else none) = some (r, w') → Exec w o r w' :=
    fun i o w r w' h ↦ exec_act (i := i) h
  refine ⟨play (fun _ _ ↦ true) overtaken, (play (fun _ _ ↦ true) overtaken).advance act 0,
    Steps.playTurns (S := plainService) hact _ (fun _ _ _ ↦ trivial) _,
    Steps.advance fun o r w' h ↦ exec_act h, ?_, ?_⟩
  · decide +kernel
  · decide +kernel

end ModelSync
