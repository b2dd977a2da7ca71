import Mathlib

/-!
# Pieces between separators

A list is cut at every separator; after the last separator an empty rest is no piece. A reader
that gets the list in parts reads the pieces up to the first that is too long.
-/

namespace LineFraming

variable {α : Type} [DecidableEq α] {sep : α} {limit : ℕ}

/-- The pieces between separators. -/
def pieces (sep : α) (l : List α) : List (List α) :=
  if (l.splitOn sep).getLast? = some [] then (l.splitOn sep).dropLast else l.splitOn sep

theorem pieces_nil : pieces sep [] = [] := by
  have hparts : ([] : List α).splitOn sep = [[]] := List.splitOn_eq_singleton List.not_mem_nil
  unfold pieces
  rw [hparts]
  rfl

theorem pieces_of_notMem {l : List α} (h : sep ∉ l) (hne : l ≠ []) : pieces sep l = [l] := by
  unfold pieces
  rw [List.splitOn_eq_singleton h, if_neg]
  intro hlast
  exact hne (Option.some.inj hlast)

theorem pieces_append_cons {l : List α} (h : sep ∉ l) (rest : List α) :
    pieces sep (l ++ sep :: rest) = l :: pieces sep rest := by
  have hparts : (l ++ sep :: rest).splitOn sep = l :: rest.splitOn sep := by
    rw [List.splitOn_append_cons_self, List.splitOn_eq_singleton h, List.singleton_append]
  have hne : rest.splitOn sep ≠ [] := List.splitOn_ne_nil sep rest
  unfold pieces
  rw [hparts, List.getLast?_cons_of_ne_nil hne, List.dropLast_cons_of_ne_nil hne]
  split_ifs <;> rfl

/-- The pieces before the first that is too long, and whether there is such a piece. -/
def framed (sep : α) (limit : ℕ) (l : List α) : List (List α) × Bool :=
  ((pieces sep l).takeWhile fun piece ↦ piece.length ≤ limit,
    (pieces sep l).any fun piece ↦ limit < piece.length)

theorem framed_nil : framed sep limit [] = ([], false) := by
  rw [framed, pieces_nil]
  rfl

theorem framed_of_notMem {l : List α} (h : sep ∉ l) (hne : l ≠ []) (hfits : l.length ≤ limit) :
    framed sep limit l = ([l], false) := by
  rw [framed, pieces_of_notMem h hne]
  simp [hfits]

theorem framed_append_cons {l : List α} (h : sep ∉ l) (hfits : l.length ≤ limit) (rest : List α) :
    framed sep limit (l ++ sep :: rest) =
      (l :: (framed sep limit rest).1, (framed sep limit rest).2) := by
  rw [framed, pieces_append_cons h, List.takeWhile_cons_of_pos (by simpa using hfits),
    List.any_cons, decide_eq_false (not_lt.mpr hfits), Bool.false_or]
  rfl

/-- A piece that is too long already is too long, whatever comes after it. -/
theorem framed_append_of_lt {l : List α} (h : sep ∉ l) (hlong : limit < l.length)
    (rest : List α) : framed sep limit (l ++ rest) = ([], true) := by
  obtain ⟨first, later, hpieces, hfirst⟩ : ∃ first later,
      pieces sep (l ++ rest) = first :: later ∧ limit < first.length := by
    by_cases hsep : sep ∈ rest
    · obtain ⟨before, after, rfl, hbefore⟩ := List.eq_append_cons_of_mem hsep
      have hnot : sep ∉ l ++ before := by
        rw [List.mem_append]
        exact not_or.mpr ⟨h, hbefore⟩
      refine ⟨l ++ before, pieces sep after, ?_, ?_⟩
      · rw [← List.append_assoc, pieces_append_cons hnot]
      · rw [List.length_append]
        omega
    · have hnot : sep ∉ l ++ rest := by
        rw [List.mem_append]
        exact not_or.mpr ⟨h, hsep⟩
      have hlength : limit < (l ++ rest).length := by
        rw [List.length_append]
        omega
      exact ⟨l ++ rest, [], pieces_of_notMem hnot (List.ne_nil_of_length_pos (by omega)), hlength⟩
  rw [framed, hpieces, List.takeWhile_cons_of_neg (by simpa using hfirst), List.any_cons,
    decide_eq_true hfirst, Bool.true_or]

end LineFraming
