import Mathlib

/-!
# Dictionaries

Association lists with distinct keys, without dependent values.
-/

/-- A dictionary from `K` to `V`. -/
abbrev Dict (K V : Type) := AList fun _ : K ↦ V

namespace Dict

variable {K V α β ε : Type} [DecidableEq K]

/-- Remove several keys. -/
def eraseAll (ks : List K) (d : Dict K V) : Dict K V := ks.foldl (fun d k ↦ d.erase k) d

theorem lookup_erase_eq (d : Dict K V) (k k' : K) :
    (d.erase k').lookup k = if k = k' then none else d.lookup k := by
  split_ifs with h
  · rw [h, AList.lookup_erase]
  · exact AList.lookup_erase_ne h

theorem lookup_insert_eq (d : Dict K V) (k k' : K) (v : V) :
    (d.insert k' v).lookup k = if k = k' then some v else d.lookup k := by
  split_ifs with h
  · rw [h, AList.lookup_insert]
  · exact AList.lookup_insert_ne h

theorem lookup_eraseAll (ks : List K) (d : Dict K V) (k : K) :
    (eraseAll ks d).lookup k = if k ∈ ks then none else d.lookup k := by
  induction ks generalizing d with
  | nil => simp [eraseAll]
  | cons k' ks ih =>
      have hfold : eraseAll (k' :: ks) d = eraseAll ks (d.erase k') := rfl
      rw [hfold, ih, lookup_erase_eq]
      by_cases hks : k ∈ ks <;> by_cases hk : k = k' <;> simp [hks, hk]

theorem mem_iff_lookup {d : Dict K V} {k : K} : k ∈ d ↔ ∃ v, d.lookup k = some v := by
  rw [← AList.lookup_isSome, Option.isSome_iff_exists]

theorem mem_entries_iff {d : Dict K V} {k : K} {v : V} :
    (⟨k, v⟩ : Sigma fun _ : K ↦ V) ∈ d.entries ↔ d.lookup k = some v :=
  (AList.mem_lookup_iff).symm

/-- The key occurs in one entry, which has the value that is looked up. -/
theorem countP_entries (d : Dict K V) (p : V → Bool) (k : K) :
    d.entries.countP (fun e ↦ p e.2 && decide (k = e.1)) =
      if (d.lookup k).any p then 1 else 0 := by
  have hkeys : d.keys.count k = d.entries.countP fun e ↦ e.1 == k := by
    rw [AList.keys, List.keys, List.count_eq_countP, List.countP_map]
    rfl
  have hle : d.entries.countP (fun e ↦ p e.2 && decide (k = e.1)) ≤ 1 := by
    refine le_trans ?_ (List.nodup_iff_count_le_one.mp d.keys_nodup k)
    rw [hkeys]
    refine List.countP_mono_left fun e _ h ↦ ?_
    simp only [Bool.and_eq_true, decide_eq_true_eq] at h
    simp [h.2]
  split_ifs with h
  · obtain ⟨v, hv, hp⟩ := (Option.any_eq_true p _).mp h
    have hpos : 0 < d.entries.countP (fun e ↦ p e.2 && decide (k = e.1)) := by
      rw [List.countP_pos_iff]
      exact ⟨⟨k, v⟩, mem_entries_iff.mpr hv, by simp [hp]⟩
    omega
  · rw [List.countP_eq_zero]
    rintro ⟨k', v⟩ hmem hcond
    simp only [Bool.and_eq_true, decide_eq_true_eq] at hcond
    obtain ⟨hp, rfl⟩ := hcond
    exact h (by rw [mem_entries_iff.mp hmem]; exact hp)

/-- Counting elements by their entry counts each of them once. -/
theorem sum_countP_entries (d : Dict K V) (key : β → K) (p : V → Bool) (ls : List β) :
    ((d.entries.filter fun e ↦ p e.2).map fun e ↦ ls.countP fun l ↦ decide (key l = e.1)).sum =
      ls.countP fun l ↦ (d.lookup (key l)).any p := by
  induction ls with
  | nil => simp
  | cons l ls ih =>
      have hone : ∀ es : List (Sigma fun _ : K ↦ V),
          (es.map fun e ↦ (l :: ls).countP fun l ↦ decide (key l = e.1)).sum =
            (es.map fun e ↦ ls.countP fun l ↦ decide (key l = e.1)).sum +
              es.countP fun e ↦ decide (key l = e.1) := by
        intro es
        induction es with
        | nil => rfl
        | cons e es ihes =>
            rw [List.map_cons, List.sum_cons, ihes, List.map_cons, List.sum_cons, List.countP_cons,
              List.countP_cons]
            omega
      have hentry : (d.entries.filter fun e ↦ p e.2).countP (fun e ↦ decide (key l = e.1)) =
          if (d.lookup (key l)).any p then 1 else 0 := by
        rw [← countP_entries d p (key l), List.countP_filter]
        exact List.countP_congr fun e _ ↦ by rw [Bool.and_comm]
      rw [hone, ih, hentry, List.countP_cons]

end Dict
