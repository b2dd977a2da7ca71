import AxonGateway.Adapters.Merging

/-!
# Calls with an index

A stream may tell a call in several deltas that name its index. Where the indices that are named
are places from the first on, the calls that are put together are a list.
-/

namespace Adapters

open PyValue Screening

/-! ### Entries under their places -/

section Places

variable {α : Type}

/-- Entries under their places. -/
def placed (entries : List α) : List (ℤ × α) := entries.zipIdx.map fun p ↦ ((p.2 : ℤ), p.1)

/-- An entry at a place, or behind the last one. -/
def put (entries : List α) (k : ℕ) (a : α) : List α := entries.take k ++ a :: entries.drop (k + 1)

@[simp] theorem placed_nil : placed ([] : List α) = [] := rfl

theorem placed_append_singleton (entries : List α) (a : α) :
    placed (entries ++ [a]) = placed entries ++ [((entries.length : ℤ), a)] := by
  simp [placed, List.zipIdx_append]

theorem lookup_placed (entries : List α) (k : ℕ) :
    (placed entries).lookup (k : ℤ) = entries[k]? := by
  induction entries using List.reverseRecOn with
  | nil => rfl
  | append_singleton entries a ih =>
      rw [placed_append_singleton, List.lookup_append, ih]
      rcases lt_trichotomy k entries.length with hlt | rfl | hgt
      · rw [List.getElem?_append_left hlt, List.getElem?_eq_getElem hlt]
        rfl
      · simp
      · have hne : ((k : ℤ) == (entries.length : ℤ)) = false :=
          beq_false_of_ne fun h ↦ hgt.ne' (Int.ofNat.inj h)
        rw [List.getElem?_eq_none (by omega), List.getElem?_eq_none (by simp; omega), List.lookup_cons,
          hne]
        rfl

/-- To set what stands at a place is to put it there. -/
theorem set_placed {entries : List α} {k : ℕ} (h : k ≤ entries.length) (a : α) :
    set (placed entries) (k : ℤ) a = placed (put entries k a) := by
  have hfrom : ∀ n, set ((entries.zipIdx n).map fun p ↦ ((p.2 : ℤ), p.1)) ((n + k : ℕ) : ℤ) a =
      ((put entries k a).zipIdx n).map fun p ↦ ((p.2 : ℤ), p.1) := by
    induction entries generalizing k with
    | nil =>
        intro n
        obtain rfl := Nat.le_zero.mp h
        rfl
    | cons first entries ih =>
        intro n
        cases k with
        | zero =>
            have hsame : ((n : ℤ) == ((n + 0 : ℕ) : ℤ)) = true := beq_iff_eq.mpr rfl
            rw [List.zipIdx_cons, List.map_cons, set_cons, if_pos hsame]
            rfl
        | succ k =>
            have hne : ¬((n : ℤ) == ((n + (k + 1) : ℕ) : ℤ)) = true := by
              rw [beq_iff_eq]
              omega
            have hplace : n + (k + 1) = n + 1 + k := by omega
            rw [List.zipIdx_cons, List.map_cons, set_cons, if_neg hne, hplace,
              ih (Nat.le_of_succ_le_succ h)]
            rfl
  have hzero := hfrom 0
  rwa [Nat.zero_add] at hzero

theorem sortedByKey_placed (entries : List α) : sortedByKey (placed entries) = placed entries := by
  apply List.Pairwise.insertionSort_eq
  rw [placed, List.pairwise_map]
  have hpositions : (entries.zipIdx.map Prod.snd).Pairwise (· < ·) := by
    rw [List.zipIdx_map_snd]
    exact List.pairwise_lt_range'
  exact (List.pairwise_map.mp hpositions).imp fun h ↦ Int.ofNat_le.mpr h.le

theorem map_placed {β : Type} (entries : List α) (f : α → β) :
    (placed entries).map (fun p ↦ f p.2) = entries.map f := by
  rw [placed, List.map_map]
  exact (List.map_map (f := Prod.fst) (g := f) (l := entries.zipIdx)).symm.trans
    (congrArg _ (List.zipIdx_map_fst 0 entries))

end Places

/-! ### Deltas of calls -/

section Deltas

variable {U : Unicode}

/-- A call after one more delta. -/
def addCallDelta (U : Unicode) (call : CallState) (rawCall : Fields) : CallState :=
  let call := { call with
    id := ((rawCall.lookup "id".toList).filter Value.truthy).getD call.id
    type := ((rawCall.lookup "type".toList).filter Value.truthy).getD call.type }
  match rawCall.lookup functionKey with
  | some (.obj function) => { call with
      name := call.name ++ truthyStr U function "name".toList
      arguments := call.arguments ++ truthyStr U function "arguments".toList }
  | _ => call

/-- A delta is merged with the call at its index, or begins a new one behind the last. -/
theorem mergeToolCallDelta_placed {calls : List CallState} {rawCall : Fields} {position k : ℕ}
    (hindex : indexOr rawCall position = k) (hk : k ≤ calls.length) :
    mergeToolCallDelta U (placed calls) rawCall position =
      placed (put calls k (addCallDelta U (calls[k]?.getD .new) rawCall)) := by
  rw [← set_placed hk, ← lookup_placed, ← hindex]
  rfl

theorem isDigit_of_mem {k : ℕ} {c : Char} (h : c ∈ (toString k).toList) : c.isDigit = true := by
  have hdigits : (toString k).toList = Nat.toDigits 10 k := Nat.toList_repr
  rw [hdigits] at h
  exact Nat.isDigit_of_mem_toDigits (by norm_num) (by norm_num) h

theorem toString_toList_ne_nil (k : ℕ) : (toString k).toList ≠ [] := by
  have hdigits : (toString k).toList = Nat.toDigits 10 k := Nat.toList_repr
  rw [hdigits]
  exact Nat.toDigits_ne_nil

theorem digitsValue_toString (k : ℕ) : digitsValue (toString k).toList = some k := by
  have hvalue : (toString k).toList.foldl (fun n c ↦ 10 * n + (c.toNat - 48)) 0 = k := by
    have hdigits : (toString k).toList = Nat.toDigits 10 k := Nat.toList_repr
    rw [hdigits]
    exact Nat.ofDigitChars_ten_toDigits
  have hall : (toString k).toList.all (fun c ↦ '0' ≤ c && c ≤ '9') = true := by
    refine List.all_eq_true.mpr fun c hc ↦ ?_
    have hdigit := isDigit_of_mem hc
    simpa [Char.isDigit, Char.le_def] using hdigit
  obtain ⟨c, cs, hcons⟩ := List.exists_cons_of_ne_nil (toString_toList_ne_nil k)
  rw [hcons] at hvalue hall ⊢
  unfold digitsValue
  dsimp only
  rw [if_pos hall, hvalue]

theorem indexOr_toString (k : ℕ) (rest : Fields) (position : ℕ) :
    indexOr ((indexKey, .number (toString k).toList) :: rest) position = k := by
  have hint : pyInt (.number (toString k).toList) = some (k : ℤ) := by
    obtain ⟨c, cs, hcons⟩ := List.exists_cons_of_ne_nil (toString_toList_ne_nil k)
    have hdigit : c.isDigit = true := isDigit_of_mem (hcons ▸ List.mem_cons_self)
    have hvalue := digitsValue_toString k
    rw [hcons] at hvalue ⊢
    unfold pyInt
    split
    · rename_i heq
      cases heq
    · rename_i text heq
      obtain ⟨rfl, -⟩ := List.cons_eq_cons.mp (Value.number.inj heq)
      exact absurd hdigit (by decide)
    · rename_i heq
      rw [← Value.number.inj heq, hvalue]
      rfl
    · rename_i hne
      exact absurd rfl (hne _)
  unfold indexOr
  rw [List.lookup_cons_self, Option.bind_some, hint]
  rfl

/-- Calls that are told one after the other from a place on. -/
def overlay (U : Unicode) (calls : List CallState) (k : ℕ) : List Fields → List CallState
  | [] => calls
  | rawCall :: rest =>
      overlay U (put calls k (addCallDelta U (calls[k]?.getD .new) rawCall)) (k + 1) rest

/-- A call that names its index. -/
def withIndex (rawCall : Fields × ℕ) : Value :=
  .obj ((indexKey, .number (toString rawCall.2).toList) :: rawCall.1)

theorem length_put {α : Type} {entries : List α} {k : ℕ} (h : k ≤ entries.length) (a : α) :
    (put entries k a).length = max entries.length (k + 1) := by
  simp only [put, List.length_append, List.length_take, List.length_cons, List.length_drop]
  omega

theorem foldl_mergeToolCallDelta_withIndex {calls : List CallState} {k : ℕ} (hk : k ≤ calls.length)
    (rawCalls : List Fields) (n : ℕ) :
    (((rawCalls.zipIdx k).map withIndex).zipIdx n).foldl (fun calls (raw, position) ↦ match raw with
      | .obj rawCall => mergeToolCallDelta U calls rawCall position
      | _ => calls) (placed calls) = placed (overlay U calls k rawCalls) := by
  induction rawCalls generalizing calls k n with
  | nil => rfl
  | cons rawCall rest ih =>
      have hindex : indexOr ((indexKey, .number (toString k).toList) :: rawCall) n = k :=
        indexOr_toString k rawCall n
      rw [List.zipIdx_cons, List.map_cons, List.zipIdx_cons, List.foldl_cons]
      dsimp only [withIndex]
      rw [mergeToolCallDelta_placed hindex hk]
      refine ih ?_ (n + 1)
      rw [length_put hk]
      exact le_max_right _ _

theorem length_overlay {calls : List CallState} {k : ℕ} (hk : k ≤ calls.length)
    (rawCalls : List Fields) :
    (overlay U calls k rawCalls).length = max calls.length (k + rawCalls.length) := by
  induction rawCalls generalizing calls k with
  | nil =>
      rw [overlay, List.length_nil]
      omega
  | cons rawCall rest ih =>
      have hput := length_put hk (addCallDelta U (calls[k]?.getD .new) rawCall)
      rw [overlay, ih (by omega), hput, List.length_cons]
      omega

/-- Calls that are told behind the last one are new. -/
theorem overlay_length (calls : List CallState) (rawCalls : List Fields) :
    overlay U calls calls.length rawCalls = calls ++ rawCalls.map (addCallDelta U .new) := by
  induction rawCalls generalizing calls with
  | nil => exact (List.append_nil calls).symm
  | cons rawCall rest ih =>
      have hput : put calls calls.length (addCallDelta U (calls[calls.length]?.getD .new) rawCall) =
          calls ++ [addCallDelta U .new rawCall] := by
        simp [put]
      have hlength : calls.length + 1 = (calls ++ [addCallDelta U .new rawCall]).length := by
        rw [List.length_append, List.length_singleton]
      rw [overlay, hput, hlength, ih, List.append_assoc]
      rfl

end Deltas

end Adapters
