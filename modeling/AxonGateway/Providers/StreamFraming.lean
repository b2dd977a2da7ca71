import AxonGateway.Lib.LineFraming

/-!
# Lines of a stream

The bytes of a provider's stream come in chunks of any size. Its lines are cut at line feeds, a
carriage return at their end is removed, and neither a line nor the stream may be too long.
-/

namespace Providers

open LineFraming

abbrev Bytes := List UInt8

def lineFeed : UInt8 := 10

def carriageReturn : UInt8 := 13

def maxProviderBodyBytes : ℕ := 10 * 1024 * 1024

def maxProviderStreamBytes : ℕ := 32 * 1024 * 1024

def maxProviderStreamLineBytes : ℕ := 1024 * 1024

/-- A `ProviderError` of the client. -/
structure ClientError where
  statusCode : ℕ
  provider : String
  message : String
  deriving DecidableEq

def tooLargeStream (provider : String) : ClientError :=
  ⟨502, provider, "Provider stream exceeded the maximum size"⟩

def tooLargeEvent (provider : String) : ClientError :=
  ⟨502, provider, "Provider stream event exceeded the maximum size"⟩

/-- `line.removesuffix(b"\r")` -/
def removeReturn (line : Bytes) : Bytes :=
  if line.getLast? = some carriageReturn then line.dropLast else line

/-- What a generator of lines yields, and the error that it ends with. -/
structure Lines where
  yielded : List Bytes
  error : Option ClientError
  deriving DecidableEq

/-- The lines that are complete, and what is left of the bytes. -/
def takeLines (provider : String) (pending : Bytes) : List Bytes × Except ClientError Bytes :=
  match h : pending.findIdx? (· == lineFeed) with
  | none =>
      if maxProviderStreamLineBytes < pending.length then ([], .error (tooLargeEvent provider))
      else ([], .ok pending)
  | some newline =>
      if maxProviderStreamLineBytes < newline then ([], .error (tooLargeEvent provider))
      else
        let later := takeLines provider (pending.drop (newline + 1))
        (removeReturn (pending.take newline) :: later.1, later.2)
termination_by pending.length
decreasing_by
  have hnewline := (List.findIdx?_eq_some_iff_getElem.mp h).1
  rw [List.length_drop]
  omega

/-- `_bounded_stream_lines` after `total` bytes, of which some are pending. -/
def boundedStreamLinesAfter (provider : String) (total : ℕ) (pending : Bytes) :
    List Bytes → Lines
  | [] =>
      if pending = [] then ⟨[], none⟩
      else if maxProviderStreamLineBytes < pending.length then ⟨[], some (tooLargeEvent provider)⟩
      else ⟨[removeReturn pending], none⟩
  | chunk :: chunks =>
      if maxProviderStreamBytes < total + chunk.length then ⟨[], some (tooLargeStream provider)⟩
      else
        let (lines, result) := takeLines provider (pending ++ chunk)
        match result with
        | .error e => ⟨lines, some e⟩
        | .ok rest =>
            let later := boundedStreamLinesAfter provider (total + chunk.length) rest chunks
            ⟨lines ++ later.yielded, later.error⟩

/-- `_bounded_stream_lines` -/
def boundedStreamLines (provider : String) (chunks : List Bytes) : Lines :=
  boundedStreamLinesAfter provider 0 [] chunks

/-- The lines of bytes: their pieces up to the first that is too long. -/
def linesOf (provider : String) (bytes : Bytes) : Lines :=
  let (pieces, tooLong) := framed lineFeed maxProviderStreamLineBytes bytes
  ⟨pieces.map removeReturn, if tooLong then some (tooLargeEvent provider) else none⟩

section

variable {provider : String}

theorem linesOf_append_cons {l : Bytes} (h : lineFeed ∉ l)
    (hfits : l.length ≤ maxProviderStreamLineBytes) (rest : Bytes) :
    linesOf provider (l ++ lineFeed :: rest) =
      ⟨removeReturn l :: (linesOf provider rest).yielded, (linesOf provider rest).error⟩ := by
  unfold linesOf
  rw [framed_append_cons h hfits]
  rfl

theorem linesOf_append_of_lt {l : Bytes} (h : lineFeed ∉ l)
    (hlong : maxProviderStreamLineBytes < l.length) (rest : Bytes) :
    linesOf provider (l ++ rest) = ⟨[], some (tooLargeEvent provider)⟩ := by
  unfold linesOf
  rw [framed_append_of_lt h hlong]
  rfl

theorem linesOf_of_notMem {l : Bytes} (h : lineFeed ∉ l)
    (hfits : l.length ≤ maxProviderStreamLineBytes) :
    linesOf provider l = if l = [] then ⟨[], none⟩ else ⟨[removeReturn l], none⟩ := by
  unfold linesOf
  split_ifs with hnil
  · rw [hnil, framed_nil]
    rfl
  · rw [framed_of_notMem h hnil hfits]
    rfl

theorem notMem_of_findIdx?_eq_none {l : Bytes} (h : l.findIdx? (· == lineFeed) = none) :
    lineFeed ∉ l := by
  intro hmem
  have hne := List.findIdx?_eq_none_iff.mp h lineFeed hmem
  exact absurd hne (by decide)

/-- The place of the first line feed. -/
theorem split_of_findIdx? {l : Bytes} {n : ℕ} (h : l.findIdx? (· == lineFeed) = some n) :
    l = l.take n ++ lineFeed :: l.drop (n + 1) ∧ lineFeed ∉ l.take n ∧ (l.take n).length = n := by
  obtain ⟨hn, hat, hbefore⟩ := List.findIdx?_eq_some_iff_getElem.mp h
  have hlength : (l.take n).length = n := List.length_take_of_le hn.le
  refine ⟨?_, fun hmem ↦ ?_, hlength⟩
  · have hget : l[n] = lineFeed := eq_of_beq hat
    rw [← hget, List.getElem_cons_drop, List.take_append_drop]
  · obtain ⟨i, hi, hget⟩ := List.mem_iff_getElem.mp hmem
    have hi' : i < n := hlength ▸ hi
    rw [List.getElem_take] at hget
    exact hbefore i hi' (beq_iff_eq.mpr hget)

/-- Reading lines off some bytes reads them off all that they begin: nothing is left that holds
a line feed or is too long. -/
theorem takeLines_spec (provider : String) (pending : Bytes) :
    (∃ lines rest, takeLines provider pending = (lines, .ok rest) ∧ lineFeed ∉ rest ∧
      rest.length ≤ maxProviderStreamLineBytes ∧ ∀ later, linesOf provider (pending ++ later) =
        ⟨lines ++ (linesOf provider (rest ++ later)).yielded,
          (linesOf provider (rest ++ later)).error⟩) ∨
    ∃ lines, takeLines provider pending = (lines, .error (tooLargeEvent provider)) ∧
      ∀ later, linesOf provider (pending ++ later) = ⟨lines, some (tooLargeEvent provider)⟩ := by
  fun_induction takeLines provider pending with
  | case1 pending h hlong =>
      exact .inr ⟨[], rfl, linesOf_append_of_lt (notMem_of_findIdx?_eq_none h) hlong⟩
  | case2 pending h hfits =>
      exact .inl ⟨[], pending, rfl, notMem_of_findIdx?_eq_none h, not_lt.mp hfits, fun _ ↦ rfl⟩
  | case3 pending newline h hlong =>
      obtain ⟨hsplit, hnot, hlength⟩ := split_of_findIdx? h
      refine .inr ⟨[], rfl, fun later ↦ ?_⟩
      rw [hsplit, List.append_assoc]
      exact linesOf_append_of_lt hnot (hlength.symm ▸ hlong) _
  | case4 pending newline h hfits later ih =>
      obtain ⟨hsplit, hnot, hlength⟩ := split_of_findIdx? h
      have hfirst : ∀ rest, linesOf provider (pending ++ rest) =
          ⟨removeReturn (pending.take newline) ::
              (linesOf provider (pending.drop (newline + 1) ++ rest)).yielded,
            (linesOf provider (pending.drop (newline + 1) ++ rest)).error⟩ := by
        intro rest
        conv_lhs => rw [hsplit, List.append_assoc, List.cons_append]
        exact linesOf_append_cons hnot (hlength.symm ▸ not_lt.mp hfits) _
      rcases ih with ⟨lines, rest, heq, hrest, hle, hlater⟩ | ⟨lines, heq, hlater⟩
      · refine .inl ⟨removeReturn (pending.take newline) :: lines, rest, ?_, hrest, hle, ?_⟩
        · rw [show later = _ from heq]
        · intro more
          rw [hfirst, hlater]
          rfl
      · refine .inr ⟨removeReturn (pending.take newline) :: lines, ?_, ?_⟩
        · rw [show later = _ from heq]
        · intro more
          rw [hfirst, hlater]

/-- The chunks that bytes come in do not matter. -/
theorem boundedStreamLinesAfter_eq (chunks : List Bytes) {total : ℕ} {pending : Bytes}
    (hpending : lineFeed ∉ pending) (hfits : pending.length ≤ maxProviderStreamLineBytes)
    (htotal : total + chunks.flatten.length ≤ maxProviderStreamBytes) :
    boundedStreamLinesAfter provider total pending chunks =
      linesOf provider (pending ++ chunks.flatten) := by
  induction chunks generalizing total pending with
  | nil =>
      rw [List.flatten_nil, List.append_nil, linesOf_of_notMem hpending hfits,
        boundedStreamLinesAfter, if_neg (not_lt.mpr hfits)]
  | cons chunk chunks ih =>
      rw [List.flatten_cons, List.length_append] at htotal
      rw [boundedStreamLinesAfter, if_neg (by omega), List.flatten_cons, ← List.append_assoc]
      rcases takeLines_spec provider (pending ++ chunk) with
        ⟨lines, rest, heq, hrest, hle, hlater⟩ | ⟨lines, heq, hlater⟩
      · rw [heq, hlater]
        dsimp only
        rw [ih hrest hle (by omega)]
      · rw [heq, hlater]

theorem boundedStreamLines_eq {chunks : List Bytes}
    (h : chunks.flatten.length ≤ maxProviderStreamBytes) :
    boundedStreamLines provider chunks = linesOf provider chunks.flatten :=
  boundedStreamLinesAfter_eq chunks List.not_mem_nil (Nat.zero_le _) (by rwa [Nat.zero_add])

end

end Providers
