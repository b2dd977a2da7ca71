import AxonGateway.Auth.BrowserSession

/-!
# What a browser session keeps

Every row of a session is written at the revision after the one that it replaces, so a revision
has one writer, and a refresh only writes or deletes over its own lease.  Rows keep issuer,
subject and expiry, and a deleted session is not written again.
-/

namespace BrowserSession

open Interleaving

variable {cfg : Config} {sha256 : String → String} {i : ℕ} {w w' : World} {key : String}
  {row : Row}

/-- Both rows are of one session. -/
structure SameSession (row row' : Row) : Prop where
  issuer : row.context.issuer = row'.context.issuer
  subject : row.context.subject = row'.context.subject
  absoluteExpiresAt : row.absoluteExpiresAt = row'.absoluteExpiresAt

theorem SameSession.refl (row : Row) : SameSession row row := ⟨rfl, rfl, rfl⟩

theorem SameSession.symm {row row' : Row} (h : SameSession row row') : SameSession row' row :=
  ⟨h.issuer.symm, h.subject.symm, h.absoluteExpiresAt.symm⟩

theorem SameSession.trans {row₁ row₂ row₃ : Row} (h : SameSession row₁ row₂)
    (h' : SameSession row₂ row₃) : SameSession row₁ row₃ :=
  ⟨h.issuer.trans h'.issuer, h.subject.trans h'.subject,
    h.absoluteExpiresAt.trans h'.absoluteExpiresAt⟩

/-- The row has been stored for the key. -/
def World.Wrote (w : World) (key : String) (row : Row) : Prop :=
  ∃ j, w.written key row.revision = some (j, row)

structure Inv (w : World) : Prop where
  flows : ∀ key flow, w.flows key = some flow → key ∈ w.flowKeys ∧ key ∉ w.redeemed.map Prod.snd
  redeemed : ∀ e ∈ w.redeemed, e.2 ∈ w.flowKeys
  once : (w.redeemed.map Prod.snd).Nodup
  current : ∀ key row, w.sessions key = some row →
    w.Wrote key row ∧ ∀ r, row.revision < r → w.written key r = none
  removed : ∀ key ∈ w.removed, w.sessions key = none ∧ ∃ r, w.written key r ≠ none
  revision : ∀ key r j row, w.written key r = some (j, row) → row.revision = r
  constant : ∀ key row row', w.Wrote key row → w.Wrote key row' → SameSession row row'
  fenced : ∀ e ∈ w.effects, e.purpose.Settles →
    ∃ row, w.written e.key e.revision = some (e.thread, row)
  absent : ∀ key, w.sessions key = none → ∀ row, w.Wrote key row → key ∈ w.removed

/-- What program `i` can count on. -/
structure Keeps (i : ℕ) (w w' : World) : Prop where
  written : ∀ key r entry, w.written key r = some entry → w'.written key r = some entry
  removed : w.removed ⊆ w'.removed
  redeemed : w.redeemed ⊆ w'.redeemed
  reading : w'.reading i = w.reading i

theorem Keeps.refl (i : ℕ) (w : World) : Keeps i w w :=
  ⟨fun _ _ _ h ↦ h, List.Subset.refl _, List.Subset.refl _, rfl⟩

theorem Keeps.trans {w₁ w₂ w₃ : World} (h : Keeps i w₁ w₂) (h' : Keeps i w₂ w₃) :
    Keeps i w₁ w₃ :=
  ⟨fun key r entry he ↦ h'.written key r entry (h.written key r entry he),
    fun _ hx ↦ h'.removed (h.removed hx), fun _ hx ↦ h'.redeemed (h.redeemed hx),
    h'.reading.trans h.reading⟩

theorem World.Wrote.keep (h : w.Wrote key row) (hw : Keeps i w w') : w'.Wrote key row := by
  obtain ⟨j, hj⟩ := h
  exact ⟨j, hw.written _ _ _ hj⟩

def protocol : Protocol World where
  inv := Inv
  rely := Keeps
  refl := Keeps.refl
  trans _ _ _ _ := Keeps.trans

/-! ### Operations -/

/-- What a program makes sure of before an operation. -/
def Proper (i : ℕ) : Op → World → Prop
  | .createSession row, _ => ∀ key, (row key).revision = 1
  | .replaceSession purpose key row expected _, w => row.revision = expected + 1 ∧
      (∃ old, w.Wrote key old ∧ SameSession old row) ∧
        (purpose.Settles → ∃ old, w.written key expected = some (i, old))
  | .deleteSession purpose key expected, w => purpose.Settles →
      ∃ revision old, expected = some revision ∧ w.written key revision = some (i, old)
  | _, _ => True

theorem putSession_written (w : World) (i : ℕ) (key : String) (row : Row) (key' : String) (r : ℕ) :
    (w.putSession i key row).written key' r =
      if key' = key ∧ r = row.revision then some (i, row) else w.written key' r := by
  change Function.update w.written key _ key' r = _
  rcases eq_or_ne key' key with rfl | hkey
  · rw [Function.update_self]
    rcases eq_or_ne r row.revision with rfl | hr
    · rw [Function.update_self, if_pos ⟨rfl, rfl⟩]
    · rw [Function.update_of_ne hr, if_neg fun h ↦ hr h.2]
  · rw [Function.update_of_ne hkey, if_neg fun h ↦ hkey h.1]

/-- A row is written at a revision that nobody has written. -/
theorem Inv.putSession (hinv : Inv w) (i : ℕ) (row : Row) (hfree : ∀ r, row.revision ≤ r → w.written key r = none)
    (hremoved : key ∉ w.removed) (hsame : ∀ old, w.Wrote key old → SameSession old row) :
    Inv (w.putSession i key row) ∧ ∀ j, Keeps j w (w.putSession i key row) := by
  have hwritten := putSession_written w i key row
  have hkeep : ∀ key' r entry, w.written key' r = some entry →
      (w.putSession i key row).written key' r = some entry := by
    intro key' r entry h
    rw [hwritten, if_neg, h]
    rintro ⟨rfl, rfl⟩
    rw [hfree _ le_rfl] at h
    cases h
  have hwrote : ∀ key' row', (w.putSession i key row).Wrote key' row' →
      w.Wrote key' row' ∨ key' = key ∧ row' = row := by
    rintro key' row' ⟨j, hj⟩
    rw [hwritten] at hj
    split_ifs at hj with hnew
    · cases hj
      exact .inr ⟨hnew.1, rfl⟩
    · exact .inl ⟨j, hj⟩
  refine ⟨⟨hinv.flows, hinv.redeemed, hinv.once, ?_, ?_, ?_, ?_, ?_, ?_⟩,
    fun j ↦ ⟨hkeep, List.Subset.refl _, List.Subset.refl _, rfl⟩⟩
  · intro key' row' h
    rcases eq_or_ne key' key with rfl | hne
    · have hself : (w.putSession i key' row).sessions key' = some row := Function.update_self _ _ _
      obtain rfl : row = row' := Option.some.inj (hself.symm.trans h)
      refine ⟨⟨i, by rw [hwritten, if_pos ⟨rfl, rfl⟩]⟩, fun r hr ↦ ?_⟩
      rw [hwritten, if_neg fun h ↦ hr.ne' h.2]
      exact hfree r hr.le
    · obtain ⟨⟨j, hj⟩, hlater⟩ :=
        hinv.current key' row' ((Function.update_of_ne hne _ _).symm.trans h)
      refine ⟨⟨j, hkeep _ _ _ hj⟩, fun r hr ↦ ?_⟩
      rw [hwritten, if_neg fun h ↦ hne h.1]
      exact hlater r hr
  · intro key' hmem
    have hne : key' ≠ key := fun h ↦ hremoved (h ▸ hmem)
    obtain ⟨hnone, r, hr⟩ := hinv.removed key' hmem
    refine ⟨(Function.update_of_ne hne _ _).trans hnone, r, ?_⟩
    rwa [hwritten, if_neg fun h ↦ hne h.1]
  · intro key' r j row' h
    rw [hwritten] at h
    split_ifs at h with hnew
    · cases h
      exact hnew.2.symm
    · exact hinv.revision key' r j row' h
  · intro key' row₁ row₂ h₁ h₂
    rcases hwrote _ _ h₁ with hold₁ | ⟨rfl, rfl⟩
    · rcases hwrote _ _ h₂ with hold₂ | ⟨rfl, rfl⟩
      · exact hinv.constant key' row₁ row₂ hold₁ hold₂
      · exact hsame row₁ hold₁
    · rcases hwrote _ _ h₂ with hold₂ | ⟨-, rfl⟩
      · exact (hsame row₂ hold₂).symm
      · exact SameSession.refl _
  · intro e he hsettles
    obtain ⟨row', h⟩ := hinv.fenced e he hsettles
    exact ⟨row', hkeep _ _ _ h⟩
  · intro key' hnone row' h
    rcases hwrote _ _ h with hold | ⟨rfl, rfl⟩
    · rcases eq_or_ne key' key with rfl | hne
      · have hself : (w.putSession i key' row).sessions key' = some row :=
          Function.update_self _ _ _
        rw [hself] at hnone
        cases hnone
      · exact hinv.absent key' ((Function.update_of_ne hne _ _).symm.trans hnone) row' hold
    · have hself : (w.putSession i key' row').sessions key' = some row' :=
        Function.update_self _ _ _
      rw [hself] at hnone
      cases hnone

theorem Inv.affect (hinv : Inv w) {purpose : Purpose} {revision : ℕ}
    (hfenced : purpose.Settles → ∃ row, w.written key revision = some (i, row)) :
    Inv (w.affect i purpose key revision) ∧ ∀ j, Keeps j w (w.affect i purpose key revision) := by
  refine ⟨⟨hinv.flows, hinv.redeemed, hinv.once, hinv.current, hinv.removed, hinv.revision,
    hinv.constant, fun e he hsettles ↦ ?_, hinv.absent⟩,
    fun j ↦ ⟨fun _ _ _ h ↦ h, List.Subset.refl _, List.Subset.refl _, rfl⟩⟩
  rcases List.mem_cons.mp he with rfl | he
  · exact hfenced hsettles
  · exact hinv.fenced e he hsettles

theorem Inv.removeSession (hinv : Inv w) {old : Row} (hold : w.sessions key = some old) :
    Inv (w.removeSession key) ∧ ∀ j, Keeps j w (w.removeSession key) := by
  refine ⟨⟨hinv.flows, hinv.redeemed, hinv.once, fun key' row' h ↦ ?_, fun key' hmem ↦ ?_,
    hinv.revision, hinv.constant, hinv.fenced, fun key' hnone row' h ↦ ?_⟩,
    fun j ↦ ⟨fun _ _ _ h ↦ h, List.subset_cons_self _ _, List.Subset.refl _, rfl⟩⟩
  · rcases eq_or_ne key' key with rfl | hne
    · have hnone := (Function.update_self _ _ _).symm.trans h
      cases hnone
    · exact hinv.current key' row' ((Function.update_of_ne hne _ _).symm.trans h)
  · rcases List.mem_cons.mp hmem with rfl | hmem
    · obtain ⟨j, hj⟩ := (hinv.current _ old hold).1
      refine ⟨Function.update_self _ _ _, old.revision, ?_⟩
      change w.written _ _ ≠ none
      rw [hj]
      simp
    · obtain ⟨hnone, hwritten⟩ := hinv.removed key' hmem
      refine ⟨?_, hwritten⟩
      change Function.update w.sessions key none key' = none
      rcases eq_or_ne key' key with rfl | hne
      · exact Function.update_self _ _ _
      · exact (Function.update_of_ne hne _ _).trans hnone
  · rcases eq_or_ne key' key with rfl | hne
    · exact List.mem_cons_self
    · refine List.mem_cons_of_mem _ (hinv.absent key' ?_ row' h)
      exact (Function.update_of_ne hne _ _).symm.trans hnone

theorem Inv.putFlow (hinv : Inv w) (flow : Flow) (hfresh : key ∉ w.flowKeys) :
    Inv (w.putFlow key flow) ∧ ∀ j, Keeps j w (w.putFlow key flow) := by
  refine ⟨⟨fun key' flow' h ↦ ?_, fun e he ↦ List.mem_cons_of_mem _ (hinv.redeemed e he),
    hinv.once, hinv.current, hinv.removed, hinv.revision, hinv.constant, hinv.fenced, hinv.absent⟩,
    fun j ↦ ⟨fun _ _ _ h ↦ h, List.Subset.refl _, List.Subset.refl _, rfl⟩⟩
  rcases eq_or_ne key' key with rfl | hne
  · refine ⟨List.mem_cons_self, fun hmem ↦ ?_⟩
    obtain ⟨e, he, rfl⟩ := List.mem_map.mp hmem
    exact hfresh (hinv.redeemed e he)
  · obtain ⟨hmem, hnew⟩ := hinv.flows key' flow' ((Function.update_of_ne hne _ _).symm.trans h)
    exact ⟨List.mem_cons_of_mem _ hmem, hnew⟩

theorem Inv.takeFlow (hinv : Inv w) {flow : Flow} (hflow : w.flows key = some flow)
    (handed : Bool) : Inv (w.takeFlow i key handed) ∧ ∀ j, Keeps j w (w.takeFlow i key handed) := by
  obtain ⟨hmem, hnew⟩ := hinv.flows key flow hflow
  have hother : ∀ key' flow', (w.takeFlow i key handed).flows key' = some flow' →
      key' ≠ key ∧ w.flows key' = some flow' := by
    intro key' flow' h
    rcases eq_or_ne key' key with rfl | hne
    · have hnone := (Function.update_self _ _ _).symm.trans h
      cases hnone
    · exact ⟨hne, (Function.update_of_ne hne _ _).symm.trans h⟩
  cases handed with
  | false =>
      refine ⟨⟨fun key' flow' h ↦ hinv.flows key' flow' (hother key' flow' h).2, hinv.redeemed,
        hinv.once, hinv.current, hinv.removed, hinv.revision, hinv.constant, hinv.fenced, hinv.absent⟩, ?_⟩
      exact fun j ↦ ⟨fun _ _ _ h ↦ h, List.Subset.refl _, List.Subset.refl _, rfl⟩
  | true =>
      refine ⟨⟨fun key' flow' h ↦ ?_, fun e he ↦ ?_, List.nodup_cons.mpr ⟨hnew, hinv.once⟩,
        hinv.current, hinv.removed, hinv.revision, hinv.constant, hinv.fenced, hinv.absent⟩,
        fun j ↦ ⟨fun _ _ _ h ↦ h, List.Subset.refl _, List.subset_cons_self _ _, rfl⟩⟩
      · obtain ⟨hne, h'⟩ := hother key' flow' h
        obtain ⟨hmem', hnew'⟩ := hinv.flows key' flow' h'
        refine ⟨hmem', fun hcons ↦ ?_⟩
        rcases List.mem_cons.mp hcons with heq | hcons
        · exact hne heq
        · exact hnew' hcons
      · rcases List.mem_cons.mp he with rfl | he
        · exact hmem
        · exact hinv.redeemed e he

/-- What one operation of program `i` preserves; the clock is read for the program alone. -/
theorem Exec.preserves {o : Op} {r : Ret o} (hinv : Inv w) (hexec : Exec sha256 i w o r w')
    (hproper : Proper i o w) : Inv w' ∧ ∀ j, (j = i → o ≠ .clock) → Keeps j w w' := by
  have hsame : Inv w ∧ ∀ j, (j = i → o ≠ .clock) → Keeps j w w := ⟨hinv, fun j _ ↦ Keeps.refl j w⟩
  cases hexec with
  | clock now =>
      refine ⟨⟨hinv.flows, hinv.redeemed, hinv.once, hinv.current, hinv.removed, hinv.revision,
        hinv.constant, hinv.fenced, hinv.absent⟩, fun j hj ↦ ⟨fun _ _ _ h ↦ h, List.Subset.refl _,
        List.Subset.refl _, Function.update_of_ne (fun h ↦ hj h rfl) _ _⟩⟩
  | flowCreated flow state answer hfresh =>
      obtain ⟨hinv', hkeeps⟩ := hinv.putFlow flow hfresh
      exact ⟨hinv', fun j _ ↦ hkeeps j⟩
  | flowConsumed key now flow hflow hlive =>
      obtain ⟨hinv', hkeeps⟩ := hinv.takeFlow (i := i) hflow true
      exact ⟨hinv', fun j _ ↦ hkeeps j⟩
  | flowLost key now answer flow hflow hlive hanswer =>
      obtain ⟨hinv', hkeeps⟩ := hinv.takeFlow (i := i) hflow false
      exact ⟨hinv', fun j _ ↦ hkeeps j⟩
  | sessionCreated row token answer hfresh =>
      have hremoved : sessionKey sha256 token ∉ w.removed := by
        intro hmem
        obtain ⟨-, r, hr⟩ := hinv.removed _ hmem
        exact hr (hfresh r)
      obtain ⟨hinv', hkeeps⟩ := hinv.putSession i (row (sessionKey sha256 token))
        (fun r _ ↦ hfresh r) hremoved fun old hold ↦ by
          obtain ⟨j, hj⟩ := hold
          rw [hfresh] at hj
          cases hj
      exact ⟨hinv', fun j _ ↦ hkeeps j⟩
  | replaced purpose key row expected now answer old hold hrevision hlive =>
      obtain ⟨hnext, ⟨first, hwrote, hfirst⟩, hsettles⟩ := hproper
      obtain ⟨hinv₁, hkeeps₁⟩ := hinv.affect (i := i) hsettles
      obtain ⟨hcurrent, hlater⟩ := hinv.current key old hold
      obtain ⟨hinv', hkeeps⟩ := hinv₁.putSession i row
        (fun r hr ↦ hlater r (by omega))
        (fun hmem ↦ by
          have hnone := (hinv.removed key hmem).1
          rw [hold] at hnone
          cases hnone)
        (fun old' hold' ↦ (hinv.constant key old' first hold' hwrote).trans hfirst)
      exact ⟨hinv', fun j _ ↦ (hkeeps₁ j).trans (hkeeps j)⟩
  | deleted purpose key expected answer old hold hrevision =>
      have hfenced : purpose.Settles → ∃ row, w.written key old.revision = some (i, row) := by
        intro hsettles
        obtain ⟨revision, row, rfl, hwritten⟩ := hproper hsettles
        obtain rfl := hrevision revision rfl
        exact ⟨row, hwritten⟩
      obtain ⟨hinv₁, hkeeps₁⟩ := hinv.affect (i := i) hfenced
      obtain ⟨hinv', hkeeps⟩ := hinv₁.removeSession hold
      exact ⟨hinv', fun j _ ↦ (hkeeps₁ j).trans (hkeeps j)⟩
  | _ => exact hsame

theorem Expiry.preserves (hinv : Inv w) (h : Expiry w w') : Inv w' ∧ ∀ j, Keeps j w w' := by
  cases h with
  | flow key =>
      refine ⟨⟨fun key' flow' h ↦ ?_, hinv.redeemed, hinv.once, hinv.current, hinv.removed,
        hinv.revision, hinv.constant, hinv.fenced, hinv.absent⟩,
        fun j ↦ ⟨fun _ _ _ h ↦ h, List.Subset.refl _, List.Subset.refl _, rfl⟩⟩
      rcases eq_or_ne key' key with rfl | hne
      · have hnone := (Function.update_self _ _ _).symm.trans h
        cases hnone
      · exact hinv.flows key' flow' ((Function.update_of_ne hne _ _).symm.trans h)
  | session key old hold => exact hinv.removeSession hold

end BrowserSession
