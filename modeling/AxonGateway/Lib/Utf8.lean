import Mathlib

/-!
# Bytes as text

UTF-8 is decoded byte by byte. Where a sequence is broken off, the bytes of it that were read are
replaced by one character, and the byte that broke it off is read again.
-/

namespace Utf8

/-- A sequence of bytes that is not complete: how many bytes it needs, the bounds of the next one,
and the bits so far. -/
structure Partial where
  needed : ℕ
  low : ℕ
  high : ℕ
  bits : ℕ

def replacement : Char := Char.ofNat 0xFFFD

/-- What the first byte of a character begins. -/
inductive Begins where
  | complete (c : Char)
  | sequence (p : Partial)

def begins (byte : ℕ) : Begins :=
  if byte < 0x80 then .complete (Char.ofNat byte)
  else if 0xC2 ≤ byte ∧ byte ≤ 0xDF then .sequence ⟨1, 0x80, 0xBF, byte - 0xC0⟩
  else if 0xE0 ≤ byte ∧ byte ≤ 0xEF then
    .sequence ⟨2, if byte = 0xE0 then 0xA0 else 0x80, if byte = 0xED then 0x9F else 0xBF,
      byte - 0xE0⟩
  else if 0xF0 ≤ byte ∧ byte ≤ 0xF4 then
    .sequence ⟨3, if byte = 0xF0 then 0x90 else 0x80, if byte = 0xF4 then 0x8F else 0xBF,
      byte - 0xF0⟩
  else .complete replacement

/-- `bytes.decode("utf-8", errors="replace")` after a part of a sequence. -/
def decodeAfter (before : Option Partial) : List UInt8 → List Char
  | [] => if before.isSome then [replacement] else []
  | b :: rest =>
      let byte := b.toNat
      let anew := match begins byte with
        | .complete c => c :: decodeAfter none rest
        | .sequence p => decodeAfter (some p) rest
      match before with
      | none => anew
      | some p =>
          if p.low ≤ byte ∧ byte ≤ p.high then
            let bits := p.bits * 64 + (byte - 0x80)
            if p.needed = 1 then Char.ofNat bits :: decodeAfter none rest
            else decodeAfter (some ⟨p.needed - 1, 0x80, 0xBF, bits⟩) rest
          else replacement :: anew

/-- `bytes.decode("utf-8", errors="replace")` -/
def decodeReplace (bytes : List UInt8) : List Char := decodeAfter none bytes

/-- Plain ASCII is decoded byte by byte. -/
theorem decodeReplace_ascii {bytes : List UInt8} (h : ∀ b ∈ bytes, b.toNat < 0x80) :
    decodeReplace bytes = bytes.map fun b ↦ Char.ofNat b.toNat := by
  unfold decodeReplace
  induction bytes with
  | nil => rfl
  | cons b rest ih =>
      have hbyte : b.toNat < 0x80 := h b List.mem_cons_self
      have hrest := ih fun c hc ↦ h c (List.mem_cons_of_mem b hc)
      rw [decodeAfter, begins, if_pos hbyte, List.map_cons, ← hrest]

example : decodeReplace [0xE2, 0x82, 0x41] = [replacement, 'A'] := by decide

end Utf8
