import Mathlib

/-!
# Queues that keep the order of groups

A queue hands out the messages of each group in their order and keeps a message until it is
removed. A consumer delivers the messages of its batch one after the other and may stop at any of
them. Messages may be delivered again, but never before those that came earlier in their group.
-/

namespace GroupedQueue

/-- Messages in the hands of a consumer. -/
structure Batch (M : Type) where
  done : List M
  todo : List M

structure State (C M : Type) where
  /-- Every message that was accepted, in their order. -/
  accepted : List M
  /-- Those that are left of them. -/
  queue : List M
  /-- Those that were given up. -/
  aside : List M
  /-- What each consumer took last. -/
  batch : C → Batch M
  /-- The deliveries in their order. -/
  delivered : List M

def start (C M : Type) : State C M := ⟨[], [], [], fun _ ↦ ⟨[], []⟩, []⟩

variable {C M G : Type} (group : M → G)

def ofGroup [DecidableEq G] (g : G) (messages : List M) : List M := messages.filter fun m ↦ group m = g

inductive Step [DecidableEq C] [DecidableEq M] [DecidableEq G] : State C M → State C M → Prop
  | accept (s : State C M) (m : M) (hnew : m ∉ s.accepted) :
      Step s { s with accepted := s.accepted ++ [m], queue := s.queue ++ [m] }
  /-- A consumer takes its next batch and leaves what is left of the one before. -/
  | receive (s : State C M) (c : C) (messages : List M)
      (horder : ∀ g, ofGroup group g messages <+: ofGroup group g s.queue) :
      Step s { s with batch := Function.update s.batch c ⟨[], messages⟩ }
  | deliver (s : State C M) (c : C) (done todo : List M) (m : M)
      (hbatch : s.batch c = ⟨done, m :: todo⟩) :
      Step s { s with
        batch := Function.update s.batch c ⟨done ++ [m], todo⟩
        delivered := s.delivered ++ [m] }
  /-- Only what its consumer delivered is removed. -/
  | remove (s : State C M) (c : C) (m : M) (hm : m ∈ (s.batch c).done) :
      Step s { s with queue := s.queue.erase m }
  | giveUp (s : State C M) (m : M) :
      Step s { s with queue := s.queue.erase m, aside := s.aside ++ [m] }

/-- One message was accepted before another of its group. -/
def Earlier (accepted : List M) (m' m : M) : Prop := [m', m].Sublist accepted ∧ group m' = group m

/-! ### Pairs in order -/

theorem pair_sublist_of_append {l : List M} {a b c : M} (h : [a, b].Sublist (l ++ [c]))
    (hne : b ≠ c) : [a, b].Sublist l := by
  obtain ⟨l₁, l₂, heq, hl₁, hl₂⟩ := List.sublist_append_iff.mp h
  rcases List.sublist_singleton.mp hl₂ with rfl | rfl
  · rw [heq, List.append_nil]
    exact hl₁
  · have hlast := congrArg List.getLast? heq
    rw [List.getLast?_append] at hlast
    exact absurd (Option.some.inj hlast) hne

theorem mem_of_pair_sublist {xs ys : List M} {a b : M} (hnodup : (xs ++ b :: ys).Nodup)
    (h : [a, b].Sublist (xs ++ b :: ys)) : a ∈ xs := by
  have hb : b ∉ ys := (List.nodup_cons.mp (List.nodup_append.mp hnodup).2.1).1
  obtain ⟨l₁, l₂, heq, hl₁, hl₂⟩ := List.sublist_append_iff.mp h
  cases l₁ with
  | nil =>
      rw [List.nil_append] at heq
      rw [← heq] at hl₂
      cases hl₂ with
      | cons _ hrest => exact absurd (hrest.subset (by simp)) hb
      | cons_cons _ hrest => exact absurd (hrest.subset List.mem_cons_self) hb
  | cons c l₁ =>
      obtain ⟨rfl, -⟩ := List.cons.inj heq
      exact hl₁.subset List.mem_cons_self

theorem filter_mem_of_sublist [DecidableEq M] {l l' : List M} (h : l.Sublist l') (hnodup : l'.Nodup) :
    l'.filter (· ∈ l) = l := by
  induction h with
  | slnil => rfl
  | cons a h ih =>
      obtain ⟨ha, hnodup⟩ := List.nodup_cons.mp hnodup
      rw [List.filter_cons_of_neg (by simpa using fun hmem ↦ ha (h.subset hmem)), ih hnodup]
  | @cons_cons l l' a h ih =>
      obtain ⟨ha, hnodup⟩ := List.nodup_cons.mp hnodup
      have hrest : l'.filter (· ∈ a :: l) = l'.filter (· ∈ l) := by
        refine List.filter_congr fun b hb ↦ ?_
        have hne : b ≠ a := fun heq ↦ ha (heq ▸ hb)
        simp [hne]
      rw [List.filter_cons_of_pos (by simp), hrest, ih hnodup]

/-- Messages that are left stand in the order in which they were accepted. -/
theorem pair_sublist_of_mem [DecidableEq M] {l l' : List M} (h : l.Sublist l') (hnodup : l'.Nodup)
    {a b : M} (ha : a ∈ l) (hb : b ∈ l) (hpair : [a, b].Sublist l') : [a, b].Sublist l := by
  have hfilter := hpair.filter (· ∈ l)
  rw [filter_mem_of_sublist h hnodup] at hfilter
  simpa [ha, hb] using hfilter

/-! ### What holds in every run -/

structure Invariant (s : State C M) : Prop where
  nodup : s.accepted.Nodup
  queue : s.queue.Sublist s.accepted
  kept : ∀ m ∈ s.accepted, m ∈ s.queue ∨ m ∈ s.delivered ∨ m ∈ s.aside
  known : ∀ c, ∀ m ∈ (s.batch c).todo, m ∈ s.accepted
  done : ∀ c, ∀ m ∈ (s.batch c).done, m ∈ s.delivered
  /-- What comes before a message of a batch is in the batch too, or was dealt with. -/
  todo : ∀ c before m after, (s.batch c).todo = before ++ m :: after →
    ∀ m', Earlier group s.accepted m' m → m' ∈ before ∨ m' ∈ s.delivered ∨ m' ∈ s.aside
  reported : ∀ m ∈ s.delivered, m ∈ s.accepted
  order : ∀ before m after, s.delivered = before ++ m :: after →
    ∀ m', Earlier group s.accepted m' m → m' ∈ before ∨ m' ∈ s.aside

variable {group}

theorem Earlier.of_append {accepted : List M} {m' m new : M}
    (h : Earlier group (accepted ++ [new]) m' m) (hne : m ≠ new) : Earlier group accepted m' m :=
  ⟨pair_sublist_of_append h.1 hne, h.2⟩

theorem forall_update [DecidableEq C] {P : Batch M → Prop} {batch : C → Batch M} {c : C}
    {b : Batch M} (hb : P b) (h : ∀ c', P (batch c')) (c' : C) :
    P (Function.update batch c b c') := by
  by_cases heq : c' = c
  · rw [heq, Function.update_self]
    exact hb
  · rw [Function.update_of_ne heq]
    exact h c'

namespace Invariant

variable {s : State C M}

theorem accept (h : Invariant group s) {m : M} (hnew : m ∉ s.accepted) :
    Invariant group { s with accepted := s.accepted ++ [m], queue := s.queue ++ [m] } where
  nodup := List.nodup_append.mpr ⟨h.nodup, List.nodup_singleton m, fun a ha b hb heq ↦
    hnew (List.mem_singleton.mp hb ▸ heq ▸ ha)⟩
  queue := h.queue.append (List.Sublist.refl [m])
  kept m' hm' := by
    rcases List.mem_append.mp hm' with hm' | hm'
    · exact (h.kept m' hm').imp_left (List.mem_append_left [m])
    · exact .inl (List.mem_append_right _ hm')
  known c m' hm' := List.mem_append_left _ (h.known c m' hm')
  done := h.done
  todo c before m' after heq m'' hearlier := by
    have hmem : m' ∈ s.accepted := h.known c m' (heq ▸ by simp)
    exact h.todo c before m' after heq m'' (hearlier.of_append fun heq ↦ hnew (heq ▸ hmem))
  reported m' hm' := List.mem_append_left _ (h.reported m' hm')
  order before m' after heq m'' hearlier := by
    have hmem : m' ∈ s.accepted := h.reported m' (heq ▸ by simp)
    exact h.order before m' after heq m'' (hearlier.of_append fun heq ↦ hnew (heq ▸ hmem))

theorem receive [DecidableEq C] [DecidableEq M] [DecidableEq G] (h : Invariant group s) (c : C)
    {messages : List M} (horder : ∀ g, ofGroup group g messages <+: ofGroup group g s.queue) :
    Invariant group { s with batch := Function.update s.batch c ⟨[], messages⟩ } := by
  have hqueue : ∀ m ∈ messages, m ∈ s.queue := by
    intro m hm
    have hgroup : m ∈ ofGroup group (group m) messages := List.mem_filter.mpr ⟨hm, by simp⟩
    exact (List.mem_filter.mp ((horder _).subset hgroup)).1
  refine ⟨h.nodup, h.queue, h.kept, ?_, ?_, ?_, h.reported, h.order⟩
  · exact forall_update (P := fun b ↦ ∀ m ∈ b.todo, m ∈ s.accepted)
      (fun m hm ↦ h.queue.subset (hqueue m hm)) h.known
  · exact forall_update (P := fun b ↦ ∀ m ∈ b.done, m ∈ s.delivered) (by simp) h.done
  · refine forall_update (P := fun b ↦ ∀ before m after, b.todo = before ++ m :: after →
      ∀ m', Earlier group s.accepted m' m → m' ∈ before ∨ m' ∈ s.delivered ∨ m' ∈ s.aside)
      (fun before m after heq m' hearlier ↦ ?_) h.todo
    obtain ⟨hpair, hgroup⟩ := hearlier
    dsimp only at heq
    rcases h.kept m' (hpair.subset List.mem_cons_self) with hm' | hm'
    · -- What is still queued comes before in the group, and so in the batch.
      have hm : m ∈ s.queue := hqueue m (heq ▸ by simp)
      have hsame := (pair_sublist_of_mem h.queue h.nodup hm' hm hpair).filter
        (fun m'' ↦ group m'' = group m)
      obtain ⟨rest, hrest⟩ := horder (group m)
      rw [heq] at hrest
      have hsplit : ofGroup group (group m) s.queue =
          ofGroup group (group m) before ++ m :: (ofGroup group (group m) after ++ rest) := by
        rw [← hrest]
        simp [ofGroup]
      have hnodup : (ofGroup group (group m) s.queue).Nodup :=
        (h.nodup.sublist h.queue).filter _
      have hfilter : [m', m].filter (fun m'' ↦ group m'' = group m) = [m', m] := by
        simp [hgroup]
      rw [hfilter] at hsame
      change [m', m].Sublist (ofGroup group (group m) s.queue) at hsame
      rw [hsplit] at hsame hnodup
      exact .inl (List.mem_filter.mp (mem_of_pair_sublist hnodup hsame)).1
    · exact .inr hm'

theorem deliver [DecidableEq C] (h : Invariant group s) {c : C} {done todo : List M} {m : M}
    (hbatch : s.batch c = ⟨done, m :: todo⟩) :
    Invariant group { s with
      batch := Function.update s.batch c ⟨done ++ [m], todo⟩
      delivered := s.delivered ++ [m] } := by
  have hknown := h.known c
  have hdone := h.done c
  have htodo := h.todo c
  rw [hbatch] at hknown hdone htodo
  have hgrown : ∀ m', m' ∈ s.delivered ∨ m' ∈ s.aside →
      m' ∈ s.delivered ++ [m] ∨ m' ∈ s.aside := fun m' ↦ Or.imp_left (List.mem_append_left [m])
  refine ⟨h.nodup, h.queue, fun m' hm' ↦ (h.kept m' hm').imp_right (hgrown m'), ?_, ?_, ?_, ?_, ?_⟩
  · exact forall_update (P := fun b ↦ ∀ m ∈ b.todo, m ∈ s.accepted)
      (fun m' hm' ↦ hknown m' (List.mem_cons_of_mem m hm')) h.known
  · refine forall_update (P := fun b ↦ ∀ m' ∈ b.done, m' ∈ s.delivered ++ [m]) ?_
      fun c m' hm' ↦ List.mem_append_left _ (h.done c m' hm')
    exact fun m' hm' ↦ (List.mem_append.mp hm').elim
      (fun hm' ↦ List.mem_append_left _ (hdone m' hm')) (List.mem_append_right _)
  · refine forall_update (P := fun b ↦ ∀ before m' after, b.todo = before ++ m' :: after →
      ∀ m'', Earlier group s.accepted m'' m' →
        m'' ∈ before ∨ m'' ∈ s.delivered ++ [m] ∨ m'' ∈ s.aside) ?_
      fun c before m' after heq m'' hearlier ↦
        (h.todo c before m' after heq m'' hearlier).imp_right (hgrown m'')
    intro before m' after heq m'' hearlier
    rcases htodo (m :: before) m' after (congrArg (m :: ·) heq) m'' hearlier with hmem | hdealt
    · rcases List.mem_cons.mp hmem with rfl | hmem
      · exact .inr (.inl (by simp))
      · exact .inl hmem
    · exact .inr (hgrown m'' hdealt)
  · intro m' hm'
    rcases List.mem_append.mp hm' with hm' | hm'
    · exact h.reported m' hm'
    · exact hknown m' (List.mem_singleton.mp hm' ▸ List.mem_cons_self)
  · intro before m' after heq m'' hearlier
    have hfirst : m' = m → m'' ∈ s.delivered ∨ m'' ∈ s.aside := by
      rintro rfl
      simpa using htodo [] m' todo rfl m'' hearlier
    rcases List.append_eq_append_iff.mp heq with ⟨l, rfl, hl⟩ | ⟨l, hl, hafter⟩
    · cases l with
      | nil =>
          obtain ⟨rfl, -⟩ := List.cons.inj hl
          rw [List.append_nil]
          exact hfirst rfl
      | cons d l => simp at hl
    · cases l with
      | nil =>
          rw [List.append_nil] at hl
          obtain ⟨rfl, -⟩ := List.cons.inj hafter
          exact hl ▸ hfirst rfl
      | cons d l =>
          obtain ⟨rfl, rfl⟩ := List.cons.inj hafter
          exact h.order before m' l hl m'' hearlier

theorem remove [DecidableEq M] (h : Invariant group s) {c : C} {m : M}
    (hm : m ∈ (s.batch c).done) : Invariant group { s with queue := s.queue.erase m } := by
  refine ⟨h.nodup, List.erase_sublist.trans h.queue, fun m' hm' ↦ ?_, h.known, h.done, h.todo,
    h.reported, h.order⟩
  by_cases heq : m' = m
  · exact .inr (.inl (heq ▸ h.done c m hm))
  · exact (h.kept m' hm').imp_left (List.mem_erase_of_ne heq).mpr

theorem giveUp [DecidableEq M] (h : Invariant group s) (m : M) :
    Invariant group { s with queue := s.queue.erase m, aside := s.aside ++ [m] } := by
  refine ⟨h.nodup, List.erase_sublist.trans h.queue, fun m' hm' ↦ ?_, h.known, h.done, ?_,
    h.reported, ?_⟩
  · by_cases heq : m' = m
    · exact .inr (.inr (by simp [heq]))
    · exact (h.kept m' hm').imp (List.mem_erase_of_ne heq).mpr
        (Or.imp_right (List.mem_append_left [m]))
  · intro c before m' after heq m'' hearlier
    exact (h.todo c before m' after heq m'' hearlier).imp_right
      (Or.imp_right (List.mem_append_left [m]))
  · intro before m' after heq m'' hearlier
    exact (h.order before m' after heq m'' hearlier).imp_right (List.mem_append_left [m])

theorem step [DecidableEq C] [DecidableEq M] [DecidableEq G] {s' : State C M}
    (h : Invariant group s) (hstep : Step group s s') : Invariant group s' := by
  cases hstep with
  | accept m hnew => exact h.accept hnew
  | receive c messages horder => exact h.receive c horder
  | deliver c done todo m hbatch => exact h.deliver hbatch
  | remove c m hm => exact h.remove hm
  | giveUp m => exact h.giveUp m

end Invariant

theorem invariant_start : Invariant group (start C M) := by
  constructor <;> simp [start]

end GroupedQueue
