import Mathlib

/-!
# Texts behind their length

A text written behind its length and a colon can be told from whatever follows
it, so keys built from such pieces determine the pieces.
-/

namespace Netstring

/-- The number of characters of `s`, a colon, and `s`. -/
def frame (s : String) : String := toString s.length ++ ":" ++ s

theorem colon_notMem_toDigits (n : ℕ) : ':' ∉ Nat.toDigits 10 n := by
  intro h
  have hdigit : Char.isDigit ':' = true :=
    Nat.isDigit_of_mem_toDigits (by norm_num) (by norm_num) h
  exact absurd hdigit (by decide)

theorem toList_frame (s : String) :
    (frame s).toList = Nat.toDigits 10 s.length ++ ':' :: s.toList := by
  simp [frame, Nat.toString_eq_repr, Nat.toList_repr]

/-- What stands before the first separator is determined by the whole. -/
theorem append_cons_inj {α : Type} {l l' r r' : List α} {a : α} (hl : a ∉ l) (hl' : a ∉ l')
    (h : l ++ a :: r = l' ++ a :: r') : l = l' ∧ r = r' := by
  induction l generalizing l' with
  | nil =>
      cases l' with
      | nil => exact ⟨rfl, List.tail_eq_of_cons_eq h⟩
      | cons b l' =>
          obtain rfl : a = b := List.head_eq_of_cons_eq h
          exact absurd List.mem_cons_self hl'
  | cons b l ih =>
      cases l' with
      | nil =>
          obtain rfl : b = a := List.head_eq_of_cons_eq h
          exact absurd List.mem_cons_self hl
      | cons b' l' =>
          obtain rfl : b = b' := List.head_eq_of_cons_eq h
          rw [List.mem_cons, not_or] at hl hl'
          obtain ⟨rfl, hr⟩ := ih hl.2 hl'.2 (List.tail_eq_of_cons_eq h)
          exact ⟨rfl, hr⟩

/-- A framed text and what follows it are both determined. -/
theorem frame_append_inj {s s' t t' : String} (h : frame s ++ t = frame s' ++ t') :
    s = s' ∧ t = t' := by
  have hlist : Nat.toDigits 10 s.length ++ ':' :: (s.toList ++ t.toList) =
      Nat.toDigits 10 s'.length ++ ':' :: (s'.toList ++ t'.toList) := by
    have hchars := congrArg String.toList h
    simpa [toList_frame] using hchars
  obtain ⟨hdigits, hrest⟩ :=
    append_cons_inj (colon_notMem_toDigits _) (colon_notMem_toDigits _) hlist
  have hlength : s.length = s'.length := by
    have hvalue := congrArg (fun ds ↦ Nat.ofDigitChars 10 ds 0) hdigits
    simpa using hvalue
  have hchars : s.toList.length = s'.toList.length := by
    rw [String.length_toList, String.length_toList, hlength]
  obtain ⟨hs, ht⟩ := List.append_inj hrest hchars
  exact ⟨String.toList_inj.mp hs, String.toList_inj.mp ht⟩

theorem frame_injective : Function.Injective frame := by
  intro s s' h
  have hempty : frame s ++ "" = frame s' ++ "" := by rw [h]
  exact (frame_append_inj hempty).1

end Netstring
