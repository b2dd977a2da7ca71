import Mathlib

/-!
# Sliding windows over a chronological list

`within width t l` is the part of `l` in the half-open window of the given width
that ends at `t`.  If every event finds fewer than `n` events in the window that
ends with it, no window anywhere holds more than `n`.
-/

namespace TimeWindow

section Cutoff

variable {τ : Type} [LinearOrder τ] {l : List τ}

/-- The events later than `cutoff`. -/
def after (cutoff : τ) (l : List τ) : List τ := l.filter fun a ↦ decide (cutoff < a)

@[simp] theorem after_append (cutoff : τ) (l l' : List τ) :
    after cutoff (l ++ l') = after cutoff l ++ after cutoff l' := List.filter_append ..

theorem after_after {cutoff cutoff' : τ} (h : cutoff ≤ cutoff') (l : List τ) :
    after cutoff' (after cutoff l) = after cutoff' l := by
  unfold after
  rw [List.filter_filter]
  refine List.filter_congr fun a _ ↦ ?_
  by_cases ha : cutoff' < a
  · simp [ha, h.trans_lt ha]
  · simp [ha]

theorem mem_after {cutoff a : τ} : a ∈ after cutoff l ↔ a ∈ l ∧ cutoff < a := by
  simp [after]

/-- In order, the events up to `cutoff` come first. -/
theorem length_after_lt_iff (cutoff : τ) (hl : l.Pairwise (· ≤ ·)) {j : ℕ} (hj : j < l.length) :
    (after cutoff l).length < l.length - j ↔ l[j] ≤ cutoff := by
  induction l generalizing j with
  | nil => cases hj
  | cons a l ih =>
      rw [List.pairwise_cons] at hl
      rcases le_or_gt a cutoff with ha | ha
      · have hdrop : after cutoff (a :: l) = after cutoff l := by
          simp [after, ha.not_gt]
        rw [hdrop]
        cases j with
        | zero =>
            have hle : (after cutoff l).length ≤ l.length := List.length_filter_le _ _
            simp only [List.length_cons, List.getElem_cons_zero, ha, iff_true]
            omega
        | succ j =>
            have hj' : j < l.length := by simpa using hj
            rw [List.length_cons, Nat.add_sub_add_right, List.getElem_cons_succ]
            exact ih hl.2 hj'
      · have hall : after cutoff (a :: l) = a :: l := by
          apply List.filter_eq_self.mpr
          intro b hb
          rcases List.mem_cons.mp hb with rfl | hb
          · exact decide_eq_true ha
          · exact decide_eq_true (ha.trans_le (hl.1 b hb))
        have hlater : ¬ (a :: l)[j] ≤ cutoff := by
          rcases List.mem_cons.mp (List.getElem_mem hj) with heq | hmem
          · rw [heq]
            exact ha.not_ge
          · exact (ha.trans_le (hl.1 _ hmem)).not_ge
        rw [hall]
        simp only [hlater, iff_false]
        omega

/-- The event that has to be over for fewer than `n` to be left. -/
def blocker (n : ℕ) (l : List τ) : Option τ :=
  (l.mergeSort fun a b ↦ decide (a ≤ b))[l.length - n]?

theorem length_after_lt_iff_blocker {cutoff : τ} {n : ℕ} (hn : 0 < n) (hl : n ≤ l.length) :
    (after cutoff l).length < n ↔ ∀ a ∈ blocker n l, a ≤ cutoff := by
  have hperm : (l.mergeSort fun a b ↦ decide (a ≤ b)).Perm l := List.mergeSort_perm l _
  have hsorted : (l.mergeSort fun a b ↦ decide (a ≤ b)).Pairwise (· ≤ ·) := by
    have hpair : (l.mergeSort fun a b ↦ decide (a ≤ b)).Pairwise fun a b ↦ decide (a ≤ b) =
        true := List.pairwise_mergeSort
      (fun a b c hab hbc ↦ by simp only [decide_eq_true_eq] at *; exact hab.trans hbc)
      (fun a b ↦ by simpa using le_total a b) l
    exact hpair.imp fun hab ↦ by simpa using hab
  have hlength := hperm.length_eq
  have hj : l.length - n < (l.mergeSort fun a b ↦ decide (a ≤ b)).length := by omega
  have hiff := length_after_lt_iff cutoff hsorted hj
  have hcount : (after cutoff (l.mergeSort fun a b ↦ decide (a ≤ b))).length =
      (after cutoff l).length := (hperm.filter _).length_eq
  have hrest : (l.mergeSort fun a b ↦ decide (a ≤ b)).length - (l.length - n) = n := by omega
  rw [hcount, hrest] at hiff
  rw [hiff, blocker, List.getElem?_eq_getElem hj]
  simp

end Cutoff

variable {τ : Type} [AddCommGroup τ] [LinearOrder τ] {width t : τ} {n : ℕ} {l : List τ}

/-- The events in the window of the given width that ends at `t`. -/
def within (width t : τ) (l : List τ) : List τ :=
  l.filter fun a ↦ decide (t - width < a) && decide (a ≤ t)

/-- Up to the latest event a window is everything after its left end. -/
theorem within_eq_after (h : ∀ a ∈ l, a ≤ t) : within width t l = after (t - width) l := by
  refine List.filter_congr fun a ha ↦ ?_
  simp [h a ha]

/-- Each event of `l` has fewer than `n` earlier events in the window that ends
with it. -/
def Sparse (width : τ) (n : ℕ) (l : List τ) : Prop :=
  ∀ p a, p ++ [a] <+: l → (after (a - width) p).length < n

theorem Sparse.of_append_singleton {a : τ} (h : Sparse width n (l ++ [a])) :
    Sparse width n l ∧ (after (a - width) l).length < n :=
  ⟨fun p b hp ↦ h p b (hp.trans (List.prefix_append l [a])), h l a List.prefix_rfl⟩

theorem sparse_nil : Sparse width n ([] : List τ) := by
  intro p a h
  simp at h

theorem Sparse.append_singleton (h : Sparse width n l) {a : τ}
    (ha : (after (a - width) l).length < n) : Sparse width n (l ++ [a]) := by
  intro p b hp
  rcases List.prefix_concat_iff.mp hp with heq | hp
  · obtain ⟨rfl, hb⟩ := List.append_inj' heq rfl
    obtain rfl : b = a := by simpa using hb
    exact ha
  · exact h p b hp

/-- In a chronological list that is sparse, no window holds more than `n`. -/
theorem Sparse.length_within_le [IsOrderedAddMonoid τ] (h : Sparse width n l) (hsorted : l.Pairwise (· ≤ ·)) (t : τ) :
    (within width t l).length ≤ n := by
  induction l using List.reverseRecOn with
  | nil => simp [within]
  | append_singleton l a ih =>
      obtain ⟨hsparse, hlast⟩ := h.of_append_singleton
      rw [List.pairwise_append] at hsorted
      have hbefore : (within width t l).length ≤ n := ih hsparse hsorted.1
      have hsplit : within width t (l ++ [a]) = within width t l ++ within width t [a] :=
        List.filter_append ..
      by_cases ha : a ≤ t
      · -- the window ends at or after the last event, so its earlier events were seen by it
        have hsub : (within width t l).length ≤ (after (a - width) l).length := by
          refine (List.monotone_filter_right l fun b hb ↦ ?_).length_le
          rw [Bool.and_eq_true, decide_eq_true_eq] at hb
          have hleft : a - width ≤ t - width := sub_le_sub_right ha width
          exact decide_eq_true (hleft.trans_lt hb.1)
        have hone : (within width t [a]).length ≤ 1 := List.length_filter_le _ _
        rw [hsplit, List.length_append]
        omega
      · have hnone : within width t [a] = [] := by simp [within, ha]
        rw [hsplit, hnone, List.append_nil]
        exact hbefore

/-! ## Buckets that are pruned when they are looked at -/

section Buckets

variable {κ : Type} {bucket events : κ → List τ} {now : τ}

/-- From `now` on no window tells the buckets from the full lists of events. -/
def Tracks (width : τ) (bucket events : κ → List τ) (now : τ) : Prop :=
  ∀ k t, now ≤ t → after (t - width) (bucket k) = after (t - width) (events k)

theorem Tracks.mono (h : Tracks width bucket events now) {now' : τ} (hle : now ≤ now') :
    Tracks width bucket events now' :=
  fun k t ht ↦ h k t (hle.trans ht)

/-- Pruning a bucket at the left end of the window, and adding the same events
to it and to the full list. -/
theorem Tracks.update [DecidableEq κ] [IsOrderedAddMonoid τ] (h : Tracks width bucket events now) (k : κ)
    (new : List τ) :
    Tracks width (Function.update bucket k (after (now - width) (bucket k) ++ new))
      (Function.update events k (events k ++ new)) now := by
  intro k' t ht
  rcases eq_or_ne k' k with rfl | hne
  · rw [Function.update_self, Function.update_self, after_append, after_append,
      after_after (sub_le_sub_right ht width), h k' t ht]
  · rw [Function.update_of_ne hne, Function.update_of_ne hne, h k' t ht]

end Buckets

end TimeWindow
