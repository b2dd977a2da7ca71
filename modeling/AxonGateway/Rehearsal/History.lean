import AxonGateway.Rehearsal.Ledger

/-!
# What is written under one key

The records written under a key form a chain: each call turns the record that it finds into the
next one.  `added` tells which call has put which observation into the latest record.
-/

namespace Rehearsal

open Interleaving

abbrev History := List (ℕ × Record)

/-- The latest record. -/
def History.latest (l : History) : Option Record := l.head?.map Prod.snd

/-- The records that a call may write, given the one that it replaces. -/
inductive Writes : Call → Option Record → Record → Prop
  | first (b : RehearsalBinding) (nowEpoch : ℤ) :
      Writes (.claim b) none (emptyRecord b nowEpoch 1)
  | fenced (b : RehearsalBinding) (nowEpoch : ℤ) (older : Record)
      (hfence : older.binding.fenceToken < b.fenceToken) :
      Writes (.claim b) (some older) (emptyRecord b nowEpoch (older.revision + 1))
  | control (controlType name : String) (parameters : Attr) (active : Bool) (expected : ℤ)
      (nowEpoch : ℤ) (older : Record) (normalized : Fields)
      (hnormal : normalizeControlParameters controlType name parameters = some normalized) :
      Writes (.writeControl older.binding controlType name parameters active expected) (some older)
        (withControl older nowEpoch controlType name ⟨active, normalized⟩)
  | observation (kind : String) (payload : Attr) (nowEpoch : ℤ) (older : Record)
      (normalized : Fields)
      (hnormal : normalizeObservationPayload kind payload = some normalized) :
      Writes (.appendObservation older.binding kind payload) (some older)
        (withObservation older nowEpoch kind normalized)

theorem Writes.binding {c : Call} {older : Option Record} {r : Record} (h : Writes c older r) :
    r.binding = c.binding := by
  cases h <;> rfl

/-- Each record was written by a call of the given ones over the record before it. -/
def History.Chained (cs : List Call) : History → Prop
  | [] => True
  | (i, r) :: older =>
      (∃ c, cs[i]? = some c ∧ Writes c (History.latest older) r) ∧ Chained cs older

/-- The observations of the latest record with the calls that have added them. -/
def History.added : History → List (ℕ × RehearsalObservation)
  | [] => []
  | (i, r) :: older =>
      let kept := if (History.latest older).map Record.binding = some r.binding then added older
        else []
      kept ++ (r.observations.drop kept.length).map (i, ·)

section Chain

variable {cs : List Call} {l older : History} {i : ℕ} {r r' : Record}

theorem History.latest_cons (i : ℕ) (r : Record) (l : History) :
    History.latest ((i, r) :: l) = some r := rfl

/-- Fences and revisions do not decrease; under one fence observations are only added. -/
structure Precedes (r r' : Record) : Prop where
  fence : r.binding.fenceToken ≤ r'.binding.fenceToken
  revision : r.revision ≤ r'.revision
  observations : r.binding.fenceToken = r'.binding.fenceToken →
    r.binding = r'.binding ∧ r.observations <+: r'.observations

theorem Precedes.refl (r : Record) : Precedes r r :=
  ⟨le_rfl, le_rfl, fun _ ↦ ⟨rfl, List.prefix_refl _⟩⟩

theorem Precedes.trans {r₁ r₂ r₃ : Record} (h : Precedes r₁ r₂) (h' : Precedes r₂ r₃) :
    Precedes r₁ r₃ := by
  refine ⟨h.fence.trans h'.fence, h.revision.trans h'.revision, fun heq ↦ ?_⟩
  have hmid : r₁.binding.fenceToken = r₂.binding.fenceToken :=
    le_antisymm h.fence (h'.fence.trans heq.ge)
  obtain ⟨hb, ho⟩ := h.observations hmid
  obtain ⟨hb', ho'⟩ := h'.observations (hmid.symm.trans heq)
  exact ⟨hb.trans hb', ho.trans ho'⟩

theorem Writes.precedes {c : Call} (h : Writes c (some r) r') :
    Precedes r r' ∧ r'.revision = r.revision + 1 := by
  cases h with
  | fenced b nowEpoch _ hfence =>
      exact ⟨⟨hfence.le, (Int.lt_succ _).le, fun heq ↦ absurd heq hfence.ne⟩, rfl⟩
  | control controlType name parameters active expected nowEpoch _ normalized hnormal =>
      exact ⟨⟨le_rfl, (Int.lt_succ _).le, fun _ ↦ ⟨rfl, List.prefix_refl _⟩⟩, rfl⟩
  | observation kind payload nowEpoch _ normalized hnormal =>
      exact ⟨⟨le_rfl, (Int.lt_succ _).le, fun _ ↦ ⟨rfl, List.prefix_append _ _⟩⟩, rfl⟩

/-- Every earlier record precedes the latest one, and has a lower revision. -/
theorem History.Chained.precedes (h : History.Chained cs ((i, r') :: older)) {e : ℕ × Record}
    (he : e ∈ older) : Precedes e.2 r' ∧ e.2.revision < r'.revision := by
  induction older generalizing i r' with
  | nil => cases he
  | cons first older ih =>
      obtain ⟨⟨c, -, hwrites⟩, hrest⟩ := h
      obtain ⟨hfirst, hnext⟩ := hwrites.precedes
      rcases List.mem_cons.mp he with rfl | he
      · exact ⟨hfirst, by omega⟩
      · obtain ⟨hprec, hlt⟩ := ih hrest he
        exact ⟨hprec.trans hfirst, by omega⟩

theorem History.Chained.latest_precedes (h : History.Chained cs l) {e : ℕ × Record} (he : e ∈ l)
    (hlatest : l.latest = some r) : Precedes e.2 r := by
  cases l with
  | nil => cases he
  | cons first l =>
      obtain rfl : first.2 = r := Option.some.inj hlatest
      rcases List.mem_cons.mp he with rfl | he
      · exact Precedes.refl _
      · exact (h.precedes he).1

/-- A record that is as new as the latest one is the latest one. -/
theorem History.Chained.eq_latest (h : History.Chained cs l) {e : ℕ × Record} (he : e ∈ l)
    (hlatest : l.latest = some r) (hrevision : r.revision = e.2.revision) : e.2 = r := by
  cases l with
  | nil => cases he
  | cons first l =>
      obtain rfl : first.2 = r := Option.some.inj hlatest
      rcases List.mem_cons.mp he with rfl | he
      · rfl
      · have hlt := (h.precedes he).2
        omega

theorem History.Chained.of_append {new : History} (h : History.Chained cs (new ++ l)) :
    History.Chained cs l := by
  induction new with
  | nil => exact h
  | cons e new ih => exact ih h.2

theorem History.added_cons_same (hb : older.latest = some r) (hbinding : r.binding = r'.binding) :
    History.added ((i, r') :: older) = older.added ++
      (r'.observations.drop older.added.length).map (i, ·) := by
  simp [History.added, hb, hbinding]

theorem History.added_cons_fresh (hb : older.latest.map Record.binding ≠ some r'.binding) :
    History.added ((i, r') :: older) = r'.observations.map (i, ·) := by
  simp [History.added, hb]

/-- `added` has the observations of the latest record. -/
theorem History.Chained.added_latest (h : History.Chained cs l) (hlatest : l.latest = some r) :
    l.added.map Prod.snd = r.observations := by
  induction l generalizing r with
  | nil => cases hlatest
  | cons e older ih =>
      obtain ⟨i, r'⟩ := e
      obtain rfl : r' = r := Option.some.inj hlatest
      obtain ⟨⟨c, -, hwrites⟩, hrest⟩ := h
      by_cases hb : (History.latest older).map Record.binding = some r'.binding
      · obtain ⟨r₀, hr₀, hbinding⟩ := Option.map_eq_some_iff.mp hb
        have hkept := ih hrest hr₀
        rw [hr₀] at hwrites
        obtain ⟨-, hprefix⟩ := (hwrites.precedes).1.observations (by rw [hbinding])
        have hlength : (History.added older).length = r₀.observations.length := by
          rw [← hkept, List.length_map]
        rw [History.added_cons_same hr₀ hbinding, List.map_append, List.map_map, hkept, hlength]
        obtain ⟨rest, hrest'⟩ := hprefix
        rw [← hrest', List.drop_left]
        simp
      · rw [History.added_cons_fresh hb]
        simp

/-- An observation was added by a call that has written a record. -/
theorem History.Chained.exists_of_mem_added {j : ℕ} {o : RehearsalObservation}
    (h : (j, o) ∈ l.added) : ∃ r, (j, r) ∈ l := by
  induction l with
  | nil => cases h
  | cons e older ih =>
      obtain ⟨i, r'⟩ := e
      rcases List.mem_append.mp h with h | h
      · split_ifs at h
        · obtain ⟨r, hr⟩ := ih h
          exact ⟨r, List.mem_cons_of_mem _ hr⟩
        · cases h
      · obtain ⟨o', -, heq⟩ := List.mem_map.mp h
        obtain ⟨rfl, -⟩ := Prod.mk.inj heq
        exact ⟨r', List.mem_cons_self⟩

theorem Writes.same_binding {c : Call} (h : Writes c (some r) r') (hb : r.binding = r'.binding) :
    (∃ controlType name parameters active expected nowEpoch normalized,
        c = .writeControl r.binding controlType name parameters active expected ∧
        normalizeControlParameters controlType name parameters = some normalized ∧
        r' = withControl r nowEpoch controlType name ⟨active, normalized⟩) ∨
      ∃ kind payload nowEpoch normalized,
        c = .appendObservation r.binding kind payload ∧
        normalizeObservationPayload kind payload = some normalized ∧
        r' = withObservation r nowEpoch kind normalized := by
  cases h with
  | fenced b nowEpoch _ hfence =>
      have heq : r.binding.fenceToken = b.fenceToken := congrArg (·.fenceToken) hb
      omega
  | control controlType name parameters active expected nowEpoch _ normalized hnormal =>
      exact .inl ⟨controlType, name, parameters, active, expected, nowEpoch, normalized, rfl,
        hnormal, rfl⟩
  | observation kind payload nowEpoch _ normalized hnormal =>
      exact .inr ⟨kind, payload, nowEpoch, normalized, rfl, hnormal, rfl⟩

/-- A record under a binding that the one before it does not have is empty. -/
theorem Writes.empty {c : Call} {older : Option Record} (h : Writes c older r')
    (hb : older.map Record.binding ≠ some r'.binding) :
    r'.faults = [] ∧ r'.checkpoints = [] ∧ r'.observations = [] := by
  cases h with
  | first | fenced => exact ⟨rfl, rfl, rfl⟩
  | control | observation => exact absurd rfl hb

/-- An observation of the latest record was appended by a call of its binding. -/
def Appended (cs : List Call) (b : RehearsalBinding) (j : ℕ) (o : RehearsalObservation) : Prop :=
  ∃ payload, cs[j]? = some (.appendObservation b o.kind payload) ∧
    normalizeObservationPayload o.kind payload = some o.payload

theorem History.Chained.appended (h : History.Chained cs l) (hlatest : l.latest = some r) :
    ∀ e ∈ l.added, Appended cs r.binding e.1 e.2 := by
  induction l generalizing r with
  | nil => cases hlatest
  | cons e older ih =>
      obtain ⟨i, r'⟩ := e
      obtain rfl : r' = r := Option.some.inj hlatest
      obtain ⟨⟨c, hc, hwrites⟩, hrest⟩ := h
      by_cases hb : (History.latest older).map Record.binding = some r'.binding
      · obtain ⟨r₀, hr₀, hbinding⟩ := Option.map_eq_some_iff.mp hb
        have hlength : (History.added older).length = r₀.observations.length := by
          rw [← hrest.added_latest hr₀, List.length_map]
        rw [History.added_cons_same hr₀ hbinding, hlength]
        intro e he
        rcases List.mem_append.mp he with he | he
        · exact hbinding ▸ ih hrest hr₀ e he
        · obtain ⟨o, ho, rfl⟩ := List.mem_map.mp he
          rw [hr₀] at hwrites
          obtain ⟨controlType, name, parameters, active, expected, nowEpoch, normalized, -, -, rfl⟩ |
            ⟨kind, payload, nowEpoch, normalized, rfl, hnormal, rfl⟩ :=
              hwrites.same_binding hbinding
          · simp [withControl] at ho
          · obtain rfl : o = ⟨r₀.observations.length + 1, kind, nowEpoch, normalized⟩ := by
              simpa [withObservation] using ho
            exact ⟨payload, hc, hnormal⟩
      · rw [History.added_cons_fresh hb, (hwrites.empty hb).2.2]
        simp

/-- A control of the latest record was written by a call of its binding. -/
def Installed (cs : List Call) (b : RehearsalBinding) (controlType : String)
    (c : String × Control) : Prop :=
  ∃ (j : ℕ) (parameters : Attr) (expected : ℤ),
    cs[j]? = some (.writeControl b controlType c.1 parameters c.2.active expected) ∧
      normalizeControlParameters controlType c.1 parameters = some c.2.parameters

theorem mem_controls_withControl {nowEpoch : ℤ} {controlType controlType' name : String}
    {control : Control} {c : String × Control}
    (h : c ∈ (withControl r nowEpoch controlType name control).controls controlType') :
    c ∈ r.controls controlType' ∨
      (controlType = "fault" ↔ controlType' = "fault") ∧ c = (name, control) := by
  unfold Record.controls withControl at h
  unfold Record.controls
  by_cases h₁ : controlType = "fault" <;> by_cases h₂ : controlType' = "fault"
  · simp only [h₁, h₂, if_true] at h ⊢
    rcases PyValue.mem_set h with rfl | h
    · exact .inr ⟨trivial, rfl⟩
    · exact .inl h
  · simp only [h₁, h₂, if_true, if_false] at h ⊢
    exact .inl h
  · simp only [h₁, h₂, if_true, if_false] at h ⊢
    exact .inl h
  · simp only [h₁, h₂, if_false] at h ⊢
    rcases PyValue.mem_set h with rfl | h
    · exact .inr ⟨trivial, rfl⟩
    · exact .inl h

theorem History.Chained.installed (h : History.Chained cs l) (hlatest : l.latest = some r)
    {controlType : String} (htype : controlType = "fault" ∨ controlType = "checkpoint") :
    ∀ c ∈ r.controls controlType, Installed cs r.binding controlType c := by
  induction l generalizing r with
  | nil => cases hlatest
  | cons e older ih =>
      obtain ⟨i, r'⟩ := e
      obtain rfl : r' = r := Option.some.inj hlatest
      obtain ⟨⟨call, hc, hwrites⟩, hrest⟩ := h
      by_cases hb : (History.latest older).map Record.binding = some r'.binding
      · obtain ⟨r₀, hr₀, hbinding⟩ := Option.map_eq_some_iff.mp hb
        rw [hr₀] at hwrites
        have hold := ih hrest hr₀
        rw [hbinding] at hold
        obtain ⟨controlType', name, parameters, active, expected, nowEpoch, normalized, rfl, hnormal,
          rfl⟩ | ⟨kind, payload, nowEpoch, normalized, -, -, rfl⟩ := hwrites.same_binding hbinding
        · intro c hmem
          rcases mem_controls_withControl hmem with hmem | ⟨hsame, rfl⟩
          · exact hold c hmem
          · have hct : controlType' = controlType := by
              rcases controlType_of_normal hnormal with ⟨rfl, -⟩ | ⟨rfl, -⟩ <;>
                rcases htype with rfl | rfl <;> simp_all
            subst hct
            exact ⟨i, parameters, expected, hc, hnormal⟩
        · exact hold
      · obtain ⟨hf, hk, -⟩ := hwrites.empty hb
        intro c hmem
        rw [Record.controls, hf, hk, ite_self] at hmem
        cases hmem

/-- Whatever a written record has was put there by calls of its binding. -/
theorem History.Chained.provenance (h : History.Chained cs l) (hr : (i, r) ∈ l) :
    (∀ o ∈ r.observations, ∃ j, Appended cs r.binding j o) ∧
      (∀ c ∈ r.faults, Installed cs r.binding "fault" c) ∧
        ∀ c ∈ r.checkpoints, Installed cs r.binding "checkpoint" c := by
  obtain ⟨new, older, rfl⟩ := List.append_of_mem hr
  have hchain := h.of_append
  refine ⟨fun o ho ↦ ?_, hchain.installed rfl (.inl rfl), hchain.installed rfl (.inr rfl)⟩
  rw [← hchain.added_latest rfl] at ho
  obtain ⟨e, he, rfl⟩ := List.mem_map.mp ho
  exact ⟨e.1, hchain.appended rfl e he⟩

/-- The records that one call has written. -/
def History.own (l : History) (i : ℕ) : History := l.filter fun e ↦ e.1 = i

/-- An append that has written once has added one observation, unless the fence has moved on. -/
theorem History.Chained.once (h : History.Chained cs l) {b : RehearsalBinding} {kind : String}
    {payload : Attr} (hcall : cs[i]? = some (.appendObservation b kind payload)) {w : Record}
    (hown : l.own i = [(i, w)]) :
    ∃ r, l.latest = some r ∧ (b.fenceToken < r.binding.fenceToken ∨ r.binding = b ∧
      ∃ o, (l.added.filter fun e ↦ e.1 = i) = [(i, o)] ∧ o ∈ w.observations) := by
  induction l with
  | nil => cases hown
  | cons e older ih =>
      obtain ⟨j, r'⟩ := e
      obtain ⟨⟨call, hc, hwrites⟩, hrest⟩ := h
      refine ⟨r', rfl, ?_⟩
      by_cases hj : j = i
      · subst hj
        obtain rfl : call = .appendObservation b kind payload :=
          Option.some.inj (hc.symm.trans hcall)
        rw [History.own, List.filter_cons_of_pos (by simp)] at hown
        obtain ⟨heq, hnone⟩ := List.cons.inj hown
        obtain rfl : r' = w := (Prod.mk.inj heq).2
        have hkept : ((History.added older).filter fun e ↦ e.1 = j) = [] := by
          refine List.filter_eq_nil_iff.mpr fun e he hej ↦ ?_
          obtain ⟨k, o⟩ := e
          obtain rfl : k = j := by simpa using hej
          obtain ⟨r₀, hr₀⟩ := History.Chained.exists_of_mem_added he
          exact List.filter_eq_nil_iff.mp hnone _ hr₀ (by simp)
        cases hlatest : History.latest older with
        | none => rw [hlatest] at hwrites; cases hwrites
        | some r₀ =>
            rw [hlatest] at hwrites
            cases hwrites with
            | observation _ _ nowEpoch _ normalized hnormal =>
                refine .inr ⟨rfl, ⟨r₀.observations.length + 1, kind, nowEpoch, normalized⟩, ?_, ?_⟩
                · have hlength : (History.added older).length = r₀.observations.length := by
                    rw [← hrest.added_latest hlatest, List.length_map]
                  have hadded : History.added
                      ((j, withObservation r₀ nowEpoch kind normalized) :: older) = _ :=
                    History.added_cons_same hlatest rfl
                  rw [hadded, List.filter_append, hkept, hlength]
                  simp [withObservation]
                · simp [withObservation]
      · have hown' : History.own older i = [(i, w)] := by
          simpa [History.own, hj] using hown
        obtain ⟨r₀, hr₀, hr⟩ := ih hrest hown'
        rw [hr₀] at hwrites
        have hprec := hwrites.precedes.1
        rcases hr with hlt | ⟨rfl, o, hfilter, ho⟩
        · exact .inl (hlt.trans_le hprec.fence)
        · rcases hprec.fence.eq_or_lt with heq | hlt
          · have hbinding := (hprec.observations heq).1
            refine .inr ⟨hbinding.symm, o, ?_, ho⟩
            rw [History.added_cons_same hr₀ hbinding, List.filter_append, hfilter]
            have hother : ((r'.observations.drop (History.added older).length).map (j, ·)).filter
                (fun e ↦ e.1 = i) = [] := by
              refine List.filter_eq_nil_iff.mpr fun e he ↦ ?_
              obtain ⟨o', -, rfl⟩ := List.mem_map.mp he
              simpa using hj
            rw [hother, List.append_nil]
          · exact .inl hlt

end Chain

end Rehearsal
