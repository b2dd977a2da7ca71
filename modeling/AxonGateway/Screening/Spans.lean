import AxonGateway.Screening.Redactor

/-!
# What redaction leaves of a text

Overlapping spans are resolved before any replacement: in the order of their starts a span that
starts inside the last one kept is dropped as a whole.  A dropped span that ends later than the
one it overlaps leaves its tail in the text.  Each character of a text is followed through the
replacements by its position.
-/

namespace Screening

open PyValue

namespace Span

/-- The order in which overlaps are resolved: by start, the longest first. -/
def Precedes (s s' : Span) : Prop :=
  s.start < s'.start ∨ s.start = s'.start ∧ s'.stop - s'.start ≤ s.stop - s.start

/-- Spans that share no position. -/
def Apart (s s' : Span) : Prop := s.stop ≤ s'.start ∨ s'.stop ≤ s.start

theorem Precedes.start_le {s s' : Span} (h : s.Precedes s') : s.start ≤ s'.start :=
  h.elim le_of_lt fun h ↦ h.1.le

end Span

/-- Some span has the position in it. -/
def Covered (spans : List Span) (i : ℕ) : Prop := ∃ s ∈ spans, s.start ≤ i ∧ i < s.stop

instance (spans : List Span) (i : ℕ) : Decidable (Covered spans i) :=
  inferInstanceAs (Decidable (∃ s ∈ spans, s.start ≤ i ∧ i < s.stop))

/-- Spans of a text. -/
def InBounds (text : Text) (spans : List Span) : Prop :=
  ∀ s ∈ spans, s.start ≤ s.stop ∧ s.stop ≤ text.length

/-- The spans can be thinned to disjoint ones, each the longest at its start, without
uncovering a position. -/
def Thinnable (spans : List Span) : Prop :=
  ∃ chosen : List Span,
    (∀ s ∈ chosen, s ∈ spans ∧ ∀ s' ∈ spans, s'.start = s.start → s'.stop ≤ s.stop) ∧
      chosen.Pairwise Span.Apart ∧ ∀ i, Covered spans i → Covered chosen i

namespace PIIRedactor

variable (R : PIIRedactor)

/-- `_apply_spans` -/
def applySpans (text : Text) (spans : List Span) (m : RedactionMapping) :
    Text × RedactionMapping :=
  (dropOverlaps spans).foldl R.applySpan (text, m)

theorem redactStr_eq_applySpans (text : Text) (activeTypes : List Text) (m : RedactionMapping) :
    R.redactStr text activeTypes m = R.applySpans text (R.regexSpans text activeTypes) m := rfl

/-! ## The spans that are kept -/

section Keep

variable {lastEnd : ℤ} {spans : List Span} {s k k' : Span}

theorem keepFrom_sublist (lastEnd : ℤ) (spans : List Span) :
    (keepFrom lastEnd spans).Sublist spans := by
  induction spans generalizing lastEnd with
  | nil => exact List.Sublist.refl _
  | cons a spans ih =>
      rw [keepFrom]
      split_ifs with ha
      · exact (ih lastEnd).cons a
      · exact (ih a.stop).cons_cons a

theorem le_start_of_mem_keepFrom (h : ∀ s ∈ spans, s.start ≤ s.stop)
    (hk : k ∈ keepFrom lastEnd spans) : lastEnd ≤ k.start := by
  induction spans generalizing lastEnd with
  | nil => cases hk
  | cons a spans ih =>
      have hspans : ∀ s ∈ spans, s.start ≤ s.stop := fun s hs ↦ h s (List.mem_cons_of_mem _ hs)
      have ha := h a List.mem_cons_self
      rw [keepFrom] at hk
      split_ifs at hk with hlt
      · exact ih hspans hk
      · rcases List.mem_cons.mp hk with rfl | hk
        · omega
        · have hle := ih hspans hk
          omega

theorem keepFrom_pairwise (h : ∀ s ∈ spans, s.start ≤ s.stop) :
    (keepFrom lastEnd spans).Pairwise fun k k' ↦ k.stop ≤ k'.start := by
  induction spans generalizing lastEnd with
  | nil => exact List.Pairwise.nil
  | cons a spans ih =>
      have hspans : ∀ s ∈ spans, s.start ≤ s.stop := fun s hs ↦ h s (List.mem_cons_of_mem _ hs)
      rw [keepFrom]
      split_ifs with ha
      · exact ih hspans
      · refine List.pairwise_cons.mpr ⟨fun k hk ↦ ?_, ih hspans⟩
        have hle := le_start_of_mem_keepFrom hspans hk
        omega

/-- A span is kept or starts inside one that is. -/
theorem mem_keepFrom_or (hsorted : spans.Pairwise Span.Precedes) (hs : s ∈ spans) (lastEnd : ℤ) :
    s ∈ keepFrom lastEnd spans ∨ (s.start : ℤ) < lastEnd ∨
      ∃ k ∈ keepFrom lastEnd spans, k.Precedes s ∧ s.start < k.stop := by
  induction spans generalizing lastEnd with
  | nil => cases hs
  | cons a spans ih =>
      obtain ⟨hfirst, hrest⟩ := List.pairwise_cons.mp hsorted
      rw [keepFrom]
      split_ifs with ha
      · rcases List.mem_cons.mp hs with rfl | hs
        · exact .inr (.inl ha)
        · exact ih hrest hs _
      · rcases List.mem_cons.mp hs with rfl | hs
        · exact .inl List.mem_cons_self
        · rcases ih hrest hs _ with hkept | hlt | ⟨k, hk, hkept⟩
          · exact .inl (List.mem_cons_of_mem _ hkept)
          · exact .inr (.inr ⟨a, List.mem_cons_self, hfirst s hs, by omega⟩)
          · exact .inr (.inr ⟨k, List.mem_cons_of_mem _ hk, hkept⟩)

/-- Spans in the order of resolution. -/
def ordered (spans : List Span) : List Span :=
  spans.mergeSort fun s s' ↦
    s.start < s'.start || (s.start = s'.start && s'.stop - s'.start ≤ s.stop - s.start)

theorem ordered_pairwise (spans : List Span) : (ordered spans).Pairwise Span.Precedes := by
  have hsorted : (ordered spans).Pairwise fun s s' ↦ (s.start < s'.start ||
      (s.start = s'.start && s'.stop - s'.start ≤ s.stop - s.start) : Bool) = true :=
    List.pairwise_mergeSort (fun a b c hab hbc ↦ by
      simp only [Bool.or_eq_true, Bool.and_eq_true, decide_eq_true_eq] at *
      omega)
    (fun a b ↦ by
      simp only [Bool.or_eq_true, Bool.and_eq_true, decide_eq_true_eq]
      omega) spans
  refine hsorted.imp fun h ↦ ?_
  simpa [Span.Precedes] using h

theorem mem_dropOverlaps : k ∈ dropOverlaps spans ↔ k ∈ keepFrom (-1) (ordered spans) :=
  (List.mergeSort_perm _ _).mem_iff

theorem mem_of_mem_dropOverlaps (hk : k ∈ dropOverlaps spans) : k ∈ spans :=
  (List.mergeSort_perm _ _).mem_iff.mp
    ((keepFrom_sublist _ _).subset (mem_dropOverlaps.mp hk))

/-- Two of the kept spans, in the order of resolution. -/
def Settled (k k' : Span) : Prop := k.Precedes k' ∧ k.stop ≤ k'.start

theorem keepFrom_settled (h : ∀ s ∈ spans, s.start ≤ s.stop) :
    (keepFrom (-1) (ordered spans)).Pairwise Settled := by
  have hordered : ∀ s ∈ ordered spans, s.start ≤ s.stop :=
    fun s hs ↦ h s ((List.mergeSort_perm _ _).mem_iff.mp hs)
  have hprec := (ordered_pairwise spans).sublist (keepFrom_sublist (-1) _)
  exact hprec.and (keepFrom_pairwise hordered)

theorem settled_of_ne (h : ∀ s ∈ spans, s.start ≤ s.stop) (hk : k ∈ dropOverlaps spans)
    (hk' : k' ∈ dropOverlaps spans) (hne : k ≠ k') : Settled k k' ∨ Settled k' k := by
  have hpair : (keepFrom (-1) (ordered spans)).Pairwise
      fun k k' ↦ Settled k k' ∨ Settled k' k := (keepFrom_settled h).imp .inl
  have hsymm : Std.Symm fun k k' ↦ Settled k k' ∨ Settled k' k := ⟨fun _ _ ↦ Or.symm⟩
  exact hpair.forall (mem_dropOverlaps.mp hk) (mem_dropOverlaps.mp hk') hne

/-- The spans are replaced from the right. -/
theorem dropOverlaps_pairwise (h : ∀ s ∈ spans, s.start ≤ s.stop) :
    (dropOverlaps spans).Pairwise fun k k' ↦ k'.stop ≤ k.start := by
  have hperm : (dropOverlaps spans).Perm (keepFrom (-1) (ordered spans)) :=
    List.mergeSort_perm _ _
  have hsettled : (dropOverlaps spans).Pairwise fun k k' ↦ Settled k k' ∨ Settled k' k :=
    hperm.symm.pairwise ((keepFrom_settled h).imp .inl) Or.symm
  have hsorted : (dropOverlaps spans).Pairwise fun s s' ↦ decide (s'.start ≤ s.start) = true :=
    List.pairwise_mergeSort (fun a b c hab hbc ↦ by simp only [decide_eq_true_eq] at *; omega)
    (fun a b ↦ by simp only [Bool.or_eq_true, decide_eq_true_eq]; omega)
    (keepFrom (-1) (ordered spans))
  have hbounds : (dropOverlaps spans).Pairwise fun k k' ↦ k.start ≤ k.stop ∧ k'.start ≤ k'.stop :=
    List.pairwise_of_forall_mem_list fun k hk k' hk' ↦
      ⟨h k (mem_of_mem_dropOverlaps hk), h k' (mem_of_mem_dropOverlaps hk')⟩
  refine ((hsettled.and hsorted).and hbounds).imp ?_
  rintro k k' ⟨⟨hsettled | hsettled, hstart⟩, hk, hk'⟩
  · -- both are empty at one position
    obtain ⟨hprec, hle⟩ := hsettled
    have hback : k'.start ≤ k.start := by simpa using hstart
    rcases hprec with hlt | ⟨heq, hlength⟩ <;> omega
  · exact hsettled.2

/-- Whatever starts in the text is kept or starts inside a span that is. -/
theorem mem_dropOverlaps_or (hs : s ∈ spans) : s ∈ dropOverlaps spans ∨
    ∃ k ∈ dropOverlaps spans, k.Precedes s ∧ s.start < k.stop := by
  have hmem : s ∈ ordered spans := (List.mergeSort_perm _ _).mem_iff.mpr hs
  have hkeep := mem_keepFrom_or (ordered_pairwise spans) hmem (-1)
  rcases hkeep with hkept | hlt | ⟨k, hk, h⟩
  · exact .inl (mem_dropOverlaps.mpr hkept)
  · omega
  · exact .inr ⟨k, mem_dropOverlaps.mpr hk, h⟩

/-- A kept span is the longest at its start. -/
theorem stop_le_of_mem_dropOverlaps (h : ∀ s ∈ spans, s.start ≤ s.stop)
    (hk : k ∈ dropOverlaps spans) (hs : s ∈ spans) (hstart : s.start = k.start) :
    s.stop ≤ k.stop := by
  by_contra! hlonger
  have hkle := h k (mem_of_mem_dropOverlaps hk)
  have hsle := h s hs
  have hne : s ≠ k := by
    rintro rfl
    exact lt_irrefl _ hlonger
  rcases mem_dropOverlaps_or hs with hkept | ⟨j, hj, hprec, hinside⟩
  · rcases settled_of_ne h hkept hk hne with hsettled | hsettled
    · have := hsettled.2
      omega
    · rcases hsettled.1 with hlt | ⟨-, hlength⟩ <;> omega
  · rcases eq_or_ne j k with rfl | hjk
    · rcases hprec with hlt | ⟨-, hlength⟩ <;> omega
    · have hjs := hprec.start_le
      rcases settled_of_ne h hj hk hjk with hsettled | hsettled
      · have := hsettled.2
        omega
      · have hstop := hsettled.2
        rcases hsettled.1 with hlt | ⟨-, hlength⟩ <;> omega

theorem covered_of_covered_dropOverlaps {i : ℕ} (h : Covered (dropOverlaps spans) i) :
    Covered spans i := by
  obtain ⟨k, hk, hi⟩ := h
  exact ⟨k, mem_of_mem_dropOverlaps hk, hi⟩

/-- Disjoint spans that cover everything, each the longest at its start, start where the kept
ones do. -/
theorem exists_kept_of_thinned (h : ∀ s ∈ spans, s.start ≤ s.stop) {chosen : List Span}
    (hchosen : ∀ s ∈ chosen, s ∈ spans ∧ ∀ s' ∈ spans, s'.start = s.start → s'.stop ≤ s.stop)
    (hapart : chosen.Pairwise Span.Apart) (hcovers : ∀ i, Covered spans i → Covered chosen i)
    {f : Span} (hf : f ∈ chosen) (hlong : f.start < f.stop) :
    ∃ k ∈ dropOverlaps spans, k.start = f.start ∧ f.stop ≤ k.stop := by
  have hsymm : Std.Symm Span.Apart := ⟨fun _ _ ↦ Or.symm⟩
  induction hn : f.start using Nat.strong_induction_on generalizing f with
  | _ n ih =>
      subst hn
      rcases mem_dropOverlaps_or (hchosen f hf).1 with hkept | ⟨k, hk, hprec, hinside⟩
      · exact ⟨f, hkept, rfl, le_rfl⟩
      rcases hprec with hbefore | ⟨hstart, hlength⟩
      · -- the span in which the kept one starts ends before this one
        have hkspan : Covered spans k.start :=
          ⟨k, mem_of_mem_dropOverlaps hk, le_rfl, hbefore.trans hinside⟩
        obtain ⟨f', hf', hle, hlt⟩ := hcovers k.start hkspan
        have hne : f ≠ f' := by
          rintro rfl
          omega
        have hstop : f'.stop ≤ f.start := by
          rcases hapart.forall hf hf' hne with hfar | hfar <;> omega
        obtain ⟨k', hk', hstart', hstop'⟩ := ih f'.start (by omega) hf' (by omega) rfl
        have hsame : k'.stop ≤ f'.stop :=
          (hchosen f' hf').2 k' (mem_of_mem_dropOverlaps hk') hstart'
        have hkne : k ≠ k' := by
          rintro rfl
          omega
        rcases settled_of_ne h hk hk' hkne with hsettled | hsettled
        · have := hsettled.2
          omega
        · have := hsettled.2
          omega
      · have hkle := h k (mem_of_mem_dropOverlaps hk)
        exact ⟨k, hk, hstart, by omega⟩

/-- The kept spans cover everything exactly when some thinning does. -/
theorem dropOverlaps_covers_iff (h : ∀ s ∈ spans, s.start ≤ s.stop) :
    (∀ i, Covered spans i → Covered (dropOverlaps spans) i) ↔ Thinnable spans := by
  constructor
  · intro hcovers
    refine ⟨dropOverlaps spans, fun k hk ↦ ⟨mem_of_mem_dropOverlaps hk, fun s hs hstart ↦ ?_⟩,
      ?_, hcovers⟩
    · exact stop_le_of_mem_dropOverlaps h hk hs hstart
    · exact (dropOverlaps_pairwise h).imp .inr
  · rintro ⟨chosen, hchosen, hapart, hcovers⟩ i hi
    obtain ⟨f, hf, hle, hlt⟩ := hcovers i hi
    obtain ⟨k, hk, hstart, hstop⟩ :=
      exists_kept_of_thinned h hchosen hapart hcovers hf (hle.trans_lt hlt)
    exact ⟨k, hk, by omega, by omega⟩

end Keep

/-! ## Characters and their positions -/

/-- The characters of a text with their positions, and the characters of tokens with none. -/
abbrev Marked := List (Char × Option ℕ)

def marks (text : Text) : Marked := text.zipIdx.map fun p ↦ (p.1, some p.2)

/-- A token has no character of the text. -/
def unmarked (token : Text) : Marked := token.map fun c ↦ (c, none)

/-- The positions of a text that are still there. -/
def positions (l : Marked) : List ℕ := l.filterMap Prod.snd

/-- `applySpan`, with the positions of the characters that stay. -/
def markSpan (acc : Marked × RedactionMapping) (s : Span) : Marked × RedactionMapping :=
  let (token, m) := acc.2.add R.toUnicode s.piiType
    (((acc.1.drop s.start).take (s.stop - s.start)).map Prod.fst)
  (acc.1.take s.start ++ unmarked token ++ acc.1.drop s.stop, m)

/-- `applySpans`, with the positions of the characters that stay. -/
def markSpans (text : Text) (spans : List Span) (m : RedactionMapping) :
    Marked × RedactionMapping :=
  (dropOverlaps spans).foldl R.markSpan (marks text, m)

/-- Every covered character is replaced and every other one is kept, in order: each covered
position lies in a stretch for which a token of the mapping stands, between the positions
before it and those after it. -/
structure Replaces (text : Text) (spans : List Span) (m : RedactionMapping) : Prop where
  text_eq : (R.markSpans text spans m).1.map Prod.fst = (R.applySpans text spans m).1
  kept : positions (R.markSpans text spans m).1 =
    (List.range text.length).filter fun i ↦ ¬ Covered spans i
  replaced : ∀ i, Covered spans i → ∃ a b token before after, a ≤ i ∧ i < b ∧
    (R.applySpans text spans m).2.dedup.lookup ((text.drop a).take (b - a)) = some token ∧
    (R.markSpans text spans m).1 = before ++ unmarked token ++ after ∧
    (∀ j ∈ positions before, j < i) ∧ ∀ j ∈ positions after, i < j

variable {R}

@[simp] theorem map_fst_marks (text : Text) : (marks text).map Prod.fst = text := by
  simp [marks, Function.comp_def]

@[simp] theorem map_fst_unmarked (token : Text) : (unmarked token).map Prod.fst = token := by
  simp [unmarked, Function.comp_def]

@[simp] theorem positions_append (l l' : Marked) :
    positions (l ++ l') = positions l ++ positions l' := List.filterMap_append

@[simp] theorem positions_unmarked (token : Text) : positions (unmarked token) = [] := by
  simp [positions, unmarked]

/-- The positions of a stretch of a text. -/
theorem positions_slice (text : Text) (a c : ℕ) (hc : c ≤ text.length) :
    positions (((marks text).take c).drop a) = List.range' a (c - a) := by
  have hall : positions (((marks text).take c).drop a) =
      ((text.zipIdx.take c).drop a).map Prod.snd := by
    simp [positions, marks, ← List.map_take, ← List.map_drop, List.filterMap_map]
  rw [hall, List.map_drop, List.map_take, List.zipIdx_map_snd]
  apply List.ext_getElem
  · simp [hc]
  · intro i hi hi'
    simp

/-- A token stands for a text from when it is added. -/
theorem lookup_add_self (m : RedactionMapping) (piiType original : Text) :
    (m.add R.toUnicode piiType original).2.dedup.lookup original =
      some (m.add R.toUnicode piiType original).1 := by
  unfold RedactionMapping.add
  cases h : m.dedup.lookup original with
  | some token => exact h
  | none => exact lookup_set _ _ _

theorem lookup_add {m : RedactionMapping} {text token : Text} (h : m.dedup.lookup text = some token)
    (piiType original : Text) :
    (m.add R.toUnicode piiType original).2.dedup.lookup text = some token := by
  unfold RedactionMapping.add
  cases ho : m.dedup.lookup original with
  | some token' => exact h
  | none =>
      have hne : text ≠ original := by
        rintro rfl
        rw [h] at ho
        cases ho
      exact (lookup_set_of_ne hne _ _).trans h

theorem lookup_foldl_markSpan {ks : List Span} {acc : Marked × RedactionMapping} {text token : Text}
    (h : acc.2.dedup.lookup text = some token) :
    (ks.foldl R.markSpan acc).2.dedup.lookup text = some token := by
  induction ks generalizing acc with
  | nil => exact h
  | cons k ks ih => exact ih (lookup_add h _ _)

theorem foldl_markSpan_erase (ks : List Span) (acc : Marked × RedactionMapping) :
    ((ks.foldl R.markSpan acc).1.map Prod.fst, (ks.foldl R.markSpan acc).2) =
      ks.foldl R.applySpan (acc.1.map Prod.fst, acc.2) := by
  induction ks generalizing acc with
  | nil => rfl
  | cons k ks ih =>
      have hstep : ((R.markSpan acc k).1.map Prod.fst, (R.markSpan acc k).2) =
          R.applySpan (acc.1.map Prod.fst, acc.2) k := by
        simp [markSpan, applySpan, List.map_take, List.map_drop]
      rw [List.foldl_cons, List.foldl_cons, ih, hstep]

theorem markSpans_erase (text : Text) (spans : List Span) (m : RedactionMapping) :
    ((R.markSpans text spans m).1.map Prod.fst, (R.markSpans text spans m).2) =
      R.applySpans text spans m := by
  rw [markSpans, foldl_markSpan_erase, map_fst_marks, applySpans]

theorem filter_range_covered {k : Span} {ks : List Span} {c : ℕ} (hk : k.start ≤ k.stop)
    (hc : k.stop ≤ c) (hbefore : ∀ k' ∈ ks, k'.stop ≤ k.start) :
    (List.range c).filter (fun i ↦ ¬ Covered (k :: ks) i) =
      (List.range k.start).filter (fun i ↦ ¬ Covered ks i) ++ List.range' k.stop (c - k.stop) := by
  have hsplit : List.range c = List.range k.start ++
      (List.range' k.start (k.stop - k.start) ++ List.range' k.stop (c - k.stop)) := by
    rw [List.range_eq_range', List.range_eq_range']
    have hmid := List.range'_append_1 (s := k.start) (m := k.stop - k.start) (n := c - k.stop)
    have hall := List.range'_append_1 (s := 0) (m := k.start) (n := c - k.start)
    have h1 : k.start + (k.stop - k.start) = k.stop := by omega
    have h2 : k.stop - k.start + (c - k.stop) = c - k.start := by omega
    have h3 : k.start + (c - k.start) = c := by omega
    rw [h1, h2] at hmid
    rw [Nat.zero_add, h3] at hall
    rw [hmid, hall]
  have hfirst : (List.range k.start).filter (fun i ↦ ¬ Covered (k :: ks) i) =
      (List.range k.start).filter (fun i ↦ ¬ Covered ks i) := by
    refine List.filter_congr fun i hi ↦ decide_eq_decide.mpr (not_congr ?_)
    have hlt := List.mem_range.mp hi
    simp only [Covered, List.mem_cons, exists_eq_or_imp, or_iff_right_iff_imp]
    omega
  have hmiddle : (List.range' k.start (k.stop - k.start)).filter
      (fun i ↦ ¬ Covered (k :: ks) i) = [] := by
    refine List.filter_eq_nil_iff.mpr fun i hi ↦ ?_
    have hin := List.mem_range'_1.mp hi
    simp only [decide_eq_true_eq, not_not]
    exact ⟨k, List.mem_cons_self, hin.1, by omega⟩
  have hlast : (List.range' k.stop (c - k.stop)).filter (fun i ↦ ¬ Covered (k :: ks) i) =
      List.range' k.stop (c - k.stop) := by
    refine List.filter_eq_self.mpr fun i hi ↦ decide_eq_true ?_
    have hin := List.mem_range'_1.mp hi
    rintro ⟨k', hk', hle, hlt⟩
    rcases List.mem_cons.mp hk' with rfl | hk'
    · omega
    · have := hbefore k' hk'
      omega
  rw [hsplit, List.filter_append, List.filter_append, hfirst, hmiddle, hlast, List.nil_append]

/-- Disjoint spans replaced from the right in the part of a text before `c`. -/
theorem foldl_markSpan_spec (text : Text) {ks : List Span}
    (hks : ks.Pairwise fun k k' ↦ k'.stop ≤ k.start) {c : ℕ} (hc : c ≤ text.length)
    (hbounds : ∀ k ∈ ks, k.start ≤ k.stop ∧ k.stop ≤ c) (tail : Marked) (m : RedactionMapping) :
    ∃ front, (ks.foldl R.markSpan ((marks text).take c ++ tail, m)).1 = front ++ tail ∧
      positions front = (List.range c).filter (fun i ↦ ¬ Covered ks i) ∧
      ∀ i, Covered ks i → ∃ a b token before after, a ≤ i ∧ i < b ∧
        (ks.foldl R.markSpan ((marks text).take c ++ tail, m)).2.dedup.lookup
          ((text.drop a).take (b - a)) = some token ∧
        front = before ++ unmarked token ++ after ∧
        (∀ j ∈ positions before, j < i) ∧ ∀ j ∈ positions after, i < j := by
  induction ks generalizing c tail m with
  | nil =>
      refine ⟨(marks text).take c, rfl, ?_, ?_⟩
      · have hslice := positions_slice text 0 c hc
        rw [List.drop_zero] at hslice
        rw [hslice, Nat.sub_zero, ← List.range_eq_range']
        exact (List.filter_eq_self.mpr fun i _ ↦ by simp [Covered]).symm
      · rintro i ⟨k, hk, -⟩
        cases hk
  | cons k ks ih =>
      obtain ⟨hbefore, hks⟩ := List.pairwise_cons.mp hks
      obtain ⟨hk, hkc⟩ := hbounds k List.mem_cons_self
      have hlength : ((marks text).take c).length = c := by simp [marks, hc]
      have horiginal : (((((marks text).take c ++ tail).drop k.start).take
          (k.stop - k.start)).map Prod.fst) = (text.drop k.start).take (k.stop - k.start) := by
        rw [List.drop_append_of_le_length (by omega),
          List.take_append_of_le_length (by rw [List.length_drop, hlength]; omega), List.map_take,
          List.map_drop, List.map_take, map_fst_marks, List.drop_take, List.take_take,
          min_eq_left (by omega)]
      set token := (m.add R.toUnicode k.piiType ((text.drop k.start).take (k.stop - k.start))).1
        with htoken
      set m' := (m.add R.toUnicode k.piiType ((text.drop k.start).take (k.stop - k.start))).2
        with hm'
      have hstep : R.markSpan ((marks text).take c ++ tail, m) k =
          ((marks text).take k.start ++
            (unmarked token ++ (((marks text).take c).drop k.stop ++ tail)), m') := by
        simp only [markSpan, horiginal]
        rw [List.take_append_of_le_length (by omega), List.drop_append_of_le_length (by omega),
          List.take_take, min_eq_left (by omega), List.append_assoc]
      obtain ⟨front, hfront, hkept, hreplaced⟩ := ih hks (c := k.start) (by omega)
        (fun k' hk' ↦ ⟨(hbounds k' (List.mem_cons_of_mem _ hk')).1, hbefore k' hk'⟩)
        (unmarked token ++ (((marks text).take c).drop k.stop ++ tail)) m'
      have hafter : positions (((marks text).take c).drop k.stop) =
          List.range' k.stop (c - k.stop) := positions_slice text k.stop c hc
      rw [List.foldl_cons, hstep]
      refine ⟨front ++ unmarked token ++ ((marks text).take c).drop k.stop, ?_, ?_, ?_⟩
      · rw [hfront]
        simp only [List.append_assoc]
      · rw [positions_append, positions_append, positions_unmarked, hkept, hafter,
          filter_range_covered hk hkc hbefore, List.append_nil]
      · rintro i ⟨k', hk', hle, hlt⟩
        rcases List.mem_cons.mp hk' with rfl | hk'
        · refine ⟨k'.start, k'.stop, token, front, _, hle, hlt, ?_, rfl, ?_, ?_⟩
          · exact lookup_foldl_markSpan (lookup_add_self _ _ _)
          · intro j hj
            rw [hkept] at hj
            have := List.mem_range.mp (List.mem_of_mem_filter hj)
            omega
          · intro j hj
            rw [hafter] at hj
            have := List.mem_range'_1.mp hj
            omega
        · obtain ⟨a, b, t, before, after, ha, hb, hlookup, heq, hlo, hhi⟩ :=
            hreplaced i ⟨k', hk', hle, hlt⟩
          refine ⟨a, b, t, before, after ++ (unmarked token ++ ((marks text).take c).drop k.stop),
            ha, hb, hlookup, by rw [heq]; simp only [List.append_assoc], hlo, ?_⟩
          intro j hj
          rw [positions_append, positions_append, positions_unmarked, hafter] at hj
          rcases List.mem_append.mp hj with hj | hj
          · exact hhi j hj
          · have := List.mem_range'_1.mp hj
            have := hbefore k' hk'
            omega

/-- Redaction replaces what is covered and keeps the rest exactly when the spans can be thinned
to disjoint ones, each the longest at its start, without uncovering a position. -/
theorem replaces_iff (text : Text) (spans : List Span) (m : RedactionMapping)
    (h : InBounds text spans) : R.Replaces text spans m ↔ Thinnable spans := by
  have hle : ∀ s ∈ spans, s.start ≤ s.stop := fun s hs ↦ (h s hs).1
  have htake : (marks text).take text.length ++ [] = marks text := by simp [marks]
  obtain ⟨front, hfront, hkept, hreplaced⟩ := foldl_markSpan_spec (R := R) text
    (dropOverlaps_pairwise hle) le_rfl (fun k hk ↦ h k (mem_of_mem_dropOverlaps hk)) [] m
  rw [htake, List.append_nil] at hfront
  simp only [htake] at hreplaced
  have herase := markSpans_erase (R := R) text spans m
  have hmapping : (R.markSpans text spans m).2 = (R.applySpans text spans m).2 :=
    congrArg Prod.snd herase
  rw [← dropOverlaps_covers_iff hle]
  constructor
  · intro hr i hi
    have hlength : i < text.length := by
      obtain ⟨s, hs, -, hlt⟩ := hi
      exact hlt.trans_le (h s hs).2
    by_contra hnot
    have hmem : i ∈ positions (R.markSpans text spans m).1 := by
      rw [markSpans, hfront, hkept]
      exact List.mem_filter.mpr ⟨List.mem_range.mpr hlength, decide_eq_true hnot⟩
    rw [hr.kept] at hmem
    exact of_decide_eq_true (List.mem_filter.mp hmem).2 hi
  · intro hcovers
    have hsame : ∀ i, Covered (dropOverlaps spans) i ↔ Covered spans i :=
      fun i ↦ ⟨covered_of_covered_dropOverlaps, hcovers i⟩
    refine ⟨congrArg Prod.fst herase, ?_, fun i hi ↦ ?_⟩
    · rw [markSpans, hfront, hkept]
      exact List.filter_congr fun i _ ↦ decide_eq_decide.mpr (not_congr (hsame i))
    · obtain ⟨a, b, token, before, after, ha, hb, hlookup, heq, hlo, hhi⟩ :=
        hreplaced i ((hsame i).mpr hi)
      refine ⟨a, b, token, before, after, ha, hb, ?_, ?_, hlo, hhi⟩
      · rw [← hmapping]
        exact hlookup
      · rw [markSpans, hfront]
        exact heq

/-- A number inside an address. -/
theorem replaces_nested : blankRedactor.Replaces "at 12 Elm St".toList
    [⟨3, 5, "phone".toList⟩, ⟨3, 12, "address".toList⟩] (.empty true) := by
  refine (replaces_iff _ _ _ ?_).mpr ⟨[⟨3, 12, "address".toList⟩], ?_, ?_, ?_⟩
  · simp [InBounds]
  · simp
  · exact List.pairwise_singleton _ _
  · rintro i ⟨s, hs, hi⟩
    refine ⟨⟨3, 12, "address".toList⟩, List.mem_singleton_self _, ?_⟩
    rcases List.mem_pair.mp hs with rfl | rfl
    · dsimp only at hi ⊢
      omega
    · exact hi

/-- The tail of a span that starts inside a shorter one stays in the text. -/
theorem not_replaces_overlapping : ¬ blankRedactor.Replaces "call 5550100 Elm St 9".toList
    [⟨5, 12, "phone".toList⟩, ⟨10, 21, "address".toList⟩] (.empty true) := by
  intro h
  have hdrop : dropOverlaps [⟨5, 12, "phone".toList⟩, ⟨10, 21, "address".toList⟩] =
      [⟨5, 12, "phone".toList⟩] := by simp [dropOverlaps, keepFrom, List.mergeSort]
  have hkept := h.kept
  rw [markSpans, hdrop] at hkept
  revert hkept
  decide +kernel

end PIIRedactor

end Screening
