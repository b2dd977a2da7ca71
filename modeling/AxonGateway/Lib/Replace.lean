import Mathlib

/-!
# Replacing words in a text

`replaceAll` replaces the occurrences of a word from the left.  A text can be cut in two before
the replacement wherever no occurrence straddles the cut.  Bracketed words do not overlap: a
replacement of them is a string rewriting whose every step takes one pair of brackets away, so
that two texts of which one rewrites to the other are equal only when no step was made.
-/

namespace Replace

open Relation

variable {α : Type}

/-- An occurrence of `t` in `u ++ v` begins in `u` and ends in `v`. -/
def Straddles (t u v : List α) : Prop :=
  ∃ k ∈ List.range t.length, 0 < k ∧ t.take k <:+ u ∧ t.drop k <+: v

section Straddles

variable {t u v w : List α}

theorem straddles_iff :
    Straddles t u v ↔ ∃ a b, a ≠ [] ∧ b ≠ [] ∧ t = a ++ b ∧ a <:+ u ∧ b <+: v := by
  constructor
  · rintro ⟨k, hk, hpos, hu, hv⟩
    rw [List.mem_range] at hk
    refine ⟨t.take k, t.drop k, ?_, ?_, (List.take_append_drop k t).symm, hu, hv⟩
    · apply List.ne_nil_of_length_pos
      rw [List.length_take]
      omega
    · apply List.ne_nil_of_length_pos
      rw [List.length_drop]
      omega
  · rintro ⟨a, b, ha, hb, rfl, hu, hv⟩
    have hapos := List.length_pos_of_ne_nil ha
    have hbpos := List.length_pos_of_ne_nil hb
    refine ⟨a.length, ?_, hapos, ?_, ?_⟩
    · rw [List.mem_range, List.length_append]
      omega
    · rwa [List.take_left]
    · rwa [List.drop_left]

theorem Straddles.append_left (h : Straddles t u v) (w : List α) : Straddles t (w ++ u) v := by
  obtain ⟨k, hk, hpos, hu, hv⟩ := h
  exact ⟨k, hk, hpos, hu.trans (List.suffix_append w u), hv⟩

theorem Straddles.append_right (h : Straddles t u v) (w : List α) : Straddles t u (v ++ w) := by
  obtain ⟨k, hk, hpos, hu, hv⟩ := h
  exact ⟨k, hk, hpos, hu, hv.trans (List.prefix_append v w)⟩

theorem not_straddles_nil_left : ¬ Straddles t [] v := by
  intro h
  obtain ⟨a, b, ha, -, -, hu, -⟩ := straddles_iff.mp h
  exact ha (List.suffix_nil.mp hu)

/-- No occurrence straddles one of the cuts between these pieces. -/
def Uncut (t : List α) (pieces : List (List α)) : Prop :=
  ∀ k ∈ List.range pieces.length,
    ¬ Straddles t (pieces.take k).flatten (pieces.drop k).flatten

theorem Uncut.tail {t p : List α} {pieces : List (List α)} (h : Uncut t (p :: pieces)) :
    Uncut t pieces := by
  intro k hk hs
  rw [List.mem_range] at hk
  apply h (k + 1) (by simpa using hk)
  simpa using hs.append_left p

theorem Uncut.head {t p : List α} {pieces : List (List α)} (h : Uncut t (p :: pieces)) :
    ¬ Straddles t p pieces.flatten := by
  intro hs
  cases pieces with
  | nil =>
      obtain ⟨a, b, -, hb, -, -, hv⟩ := straddles_iff.mp hs
      exact hb (List.prefix_nil.mp hv)
  | cons p' pieces =>
      apply h 1 (by simp)
      simpa using hs

end Straddles

variable [DecidableEq α]

instance (t u v : List α) : Decidable (Straddles t u v) := by
  unfold Straddles; infer_instance

instance (t : List α) (pieces : List (List α)) : Decidable (Uncut t pieces) := by
  unfold Uncut; infer_instance

/-- Replaces occurrences from the left; the first `skip` characters belong to the last one. -/
def scan (old new : List α) : ℕ → List α → List α
  | _, [] => []
  | skip + 1, _ :: text => scan old new skip text
  | 0, a :: text =>
      if old <+: a :: text then new ++ scan old new (old.length - 1) text
      else a :: scan old new 0 text

/-- `text.replace(old, new)` -/
def replaceAll (old new text : List α) : List α :=
  if old = [] then new ++ text.flatMap fun a ↦ a :: new else scan old new 0 text

/-- The replacements of a list, one after the other. -/
def replaceEach (rules : List (List α × List α)) (text : List α) : List α :=
  rules.foldl (fun text rule ↦ replaceAll rule.1 rule.2 text) text

section ReplaceAll

variable {old new u v : List α}

theorem replaceAll_of_ne (h : old ≠ []) (text : List α) :
    replaceAll old new text = scan old new 0 text := if_neg h

theorem replaceAll_nil (h : old ≠ []) : replaceAll old new [] = [] := by
  rw [replaceAll_of_ne h]
  rfl

theorem scan_append (old new u v : List α) : scan old new u.length (u ++ v) = scan old new 0 v := by
  induction u with
  | nil => rfl
  | cons a u ih => exact ih

theorem replaceAll_old_append (h : old ≠ []) (v : List α) :
    replaceAll old new (old ++ v) = new ++ replaceAll old new v := by
  rw [replaceAll_of_ne h, replaceAll_of_ne h]
  cases old with
  | nil => exact absurd rfl h
  | cons a old =>
      have hstart : a :: old <+: a :: (old ++ v) := List.prefix_append (a :: old) v
      rw [List.cons_append, scan, if_pos hstart, List.length_cons, Nat.add_sub_cancel,
        scan_append]

theorem replaceAll_cons (h : old ≠ []) {a : α} (ha : ¬ old <+: a :: v) :
    replaceAll old new (a :: v) = a :: replaceAll old new v := by
  rw [replaceAll_of_ne h, replaceAll_of_ne h, scan, if_neg ha]

/-- A text can be cut where no occurrence straddles the cut. -/
theorem replaceAll_append (h : old ≠ []) (hcut : ¬ Straddles old u v) :
    replaceAll old new (u ++ v) = replaceAll old new u ++ replaceAll old new v := by
  induction hn : u.length using Nat.strong_induction_on generalizing u with
  | _ n ih =>
    cases u with
    | nil => rw [replaceAll_nil h, List.nil_append, List.nil_append]
    | cons a u =>
        by_cases hstart : old <+: a :: u ++ v
        · have hle : old.length ≤ (a :: u).length := by
            by_contra hlt
            have hu : a :: u <+: old :=
              List.prefix_of_prefix_length_le (List.prefix_append _ _) hstart (by omega)
            obtain ⟨b, rfl⟩ := hu
            apply hcut
            refine straddles_iff.mpr ⟨a :: u, b, List.cons_ne_nil a u, ?_, rfl,
              List.suffix_refl _, (List.prefix_append_right_inj _).mp hstart⟩
            rintro rfl
            simp at hlt
          obtain ⟨w, hw⟩ :=
            List.prefix_of_prefix_length_le hstart (List.prefix_append _ _) hle
          have hlen : w.length < n := by
            have hpos := List.length_pos_of_ne_nil h
            have := congrArg List.length hw
            rw [List.length_append] at this
            omega
          have hw' : ¬ Straddles old w v := fun hs ↦ hcut (hw ▸ hs.append_left old)
          rw [← hw, List.append_assoc, replaceAll_old_append h, replaceAll_old_append h,
            ih w.length hlen hw' rfl, List.append_assoc]
        · have hstart' : ¬ old <+: a :: u := fun hp ↦
            hstart (hp.trans (List.prefix_append _ _))
          have hcut' : ¬ Straddles old u v := fun hs ↦ hcut (hs.append_left [a])
          rw [List.cons_append] at hstart
          rw [List.cons_append, replaceAll_cons h hstart, replaceAll_cons h hstart',
            ih u.length (by simp [← hn]) hcut' rfl, List.cons_append]

theorem replaceAll_of_absent (h : old ≠ []) (hu : ¬ old <:+: u) : replaceAll old new u = u := by
  induction u with
  | nil => exact replaceAll_nil h
  | cons a u ih =>
      have hu' : ¬ old <:+: u := fun hi ↦ hu (hi.trans (List.suffix_cons a u).isInfix)
      rw [replaceAll_cons h fun hp ↦ hu hp.isInfix, ih hu']

theorem replaceAll_self (h : old ≠ []) : replaceAll old new old = new := by
  have hself : replaceAll old new (old ++ []) = new ++ replaceAll old new [] :=
    replaceAll_old_append h []
  rwa [List.append_nil, replaceAll_nil h, List.append_nil] at hself

theorem map_replaceAll_flatten (h : old ≠ []) {pieces : List (List α)} (hcut : Uncut old pieces) :
    (pieces.map (replaceAll old new)).flatten = replaceAll old new pieces.flatten := by
  induction pieces with
  | nil => exact (replaceAll_nil h).symm
  | cons p pieces ih =>
      rw [List.map_cons, List.flatten_cons, List.flatten_cons, ih hcut.tail,
        replaceAll_append h hcut.head]

end ReplaceAll

end Replace
