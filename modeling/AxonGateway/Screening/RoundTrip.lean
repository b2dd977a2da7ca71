import AxonGateway.Lib.Netstring
import AxonGateway.Screening.Reinject
import AxonGateway.Screening.Spans

/-!
# Redaction and back

The redacted text is a sequence of stretches of the original with tokens between them.  Putting
the originals back replaces a token wherever it stands, also where the text itself has the
characters of a token.  The round trip holds when no stretch has a token in it at the turn of
that token.
-/

namespace Screening

open PyValue Replace

/-! ## Texts with tokens -/

/-- A stretch of a text and the tokens behind it, each with the stretch that follows it. -/
structure Tokened where
  first : Text
  rest : List (Text × Text)

namespace Tokened

def flat (x : Tokened) : Text := x.first ++ x.rest.flatMap fun p ↦ p.1 ++ p.2

def stretches (x : Tokened) : List Text := x.first :: x.rest.map Prod.snd

/-- Every token gives way to what it stands for. -/
def original (value : Text → Text) (x : Tokened) : Text :=
  x.first ++ x.rest.flatMap fun p ↦ value p.1 ++ p.2

/-- One token gives way to what it stands for, which joins the stretches around it. -/
def restoreFrom (rule : Text × Text) : Text → List (Text × Text) → Tokened
  | first, [] => ⟨first, []⟩
  | first, (token, stretch) :: rest =>
      let after := restoreFrom rule stretch rest
      if token = rule.1 then ⟨first ++ rule.2 ++ after.first, after.rest⟩
      else ⟨first, (token, after.first) :: after.rest⟩

def restore (rule : Text × Text) (x : Tokened) : Tokened := restoreFrom rule x.first x.rest

/-- At the turn of each token no stretch has it in it. -/
def Unambiguous : List (Text × Text) → Tokened → Prop
  | [], _ => True
  | rule :: rules, x =>
      (∀ stretch ∈ x.stretches, ¬ rule.1 <:+: stretch) ∧ Unambiguous rules (x.restore rule)

instance decidableUnambiguous :
    (rules : List (Text × Text)) → (x : Tokened) → Decidable (Unambiguous rules x)
  | [], _ => .isTrue trivial
  | rule :: rules, x =>
      have := decidableUnambiguous rules (x.restore rule)
      inferInstanceAs (Decidable (_ ∧ _))

/-- Every token is a bracketed word. -/
def WellFormed (x : Tokened) : Prop := ∀ p ∈ x.rest, Bracketed '[' ']' p.1

variable {rule : Text × Text} {rules : List (Text × Text)} {x : Tokened}

theorem flat_restoreFrom (rule : Text × Text) (first : Text) (rest : List (Text × Text)) :
    (restoreFrom rule first rest).flat =
      first ++ rest.flatMap fun p ↦ (if p.1 = rule.1 then rule.2 else p.1) ++ p.2 := by
  induction rest generalizing first with
  | nil => rfl
  | cons p rest ih =>
      obtain ⟨token, stretch⟩ := p
      have hrest := ih stretch
      unfold flat at hrest ⊢
      unfold restoreFrom
      dsimp only
      split_ifs with h
      · simp [h, ← hrest]
      · simp [h, ← hrest]

theorem original_restoreFrom {value : Text → Text} (hvalue : value rule.1 = rule.2) (first : Text)
    (rest : List (Text × Text)) :
    (restoreFrom rule first rest).original value = original value ⟨first, rest⟩ := by
  induction rest generalizing first with
  | nil => rfl
  | cons p rest ih =>
      obtain ⟨token, stretch⟩ := p
      have hrest := ih stretch
      unfold original at hrest ⊢
      unfold restoreFrom
      dsimp only at hrest ⊢
      split_ifs with h
      · simp [h, hvalue, ← hrest]
      · simp [← hrest]

theorem mem_restoreFrom {first : Text} {rest : List (Text × Text)} {p : Text × Text}
    (hp : p ∈ (restoreFrom rule first rest).rest) : p.1 ≠ rule.1 ∧ p.1 ∈ rest.map Prod.fst := by
  induction rest generalizing first with
  | nil => cases hp
  | cons q rest ih =>
      obtain ⟨token, stretch⟩ := q
      unfold restoreFrom at hp
      dsimp only at hp
      split_ifs at hp with h
      · exact ⟨(ih hp).1, List.mem_cons_of_mem _ (ih hp).2⟩
      · rcases List.mem_cons.mp hp with rfl | hp
        · exact ⟨h, List.mem_cons_self⟩
        · exact ⟨(ih hp).1, List.mem_cons_of_mem _ (ih hp).2⟩

theorem WellFormed.restore (h : x.WellFormed) (rule : Text × Text) :
    (x.restore rule).WellFormed := by
  intro p hp
  obtain ⟨q, hq, heq⟩ := List.mem_map.mp (mem_restoreFrom hp).2
  exact heq ▸ h q hq

/-- A replacement goes on in every stretch. -/
theorem replaceAll_flat (ht : Bracketed '[' ']' rule.1) (first : Text)
    {rest : List (Text × Text)} (hrest : ∀ p ∈ rest, Bracketed '[' ']' p.1) :
    replaceAll rule.1 rule.2 (flat ⟨first, rest⟩) =
      replaceAll rule.1 rule.2 first ++ rest.flatMap fun p ↦
        (if p.1 = rule.1 then rule.2 else p.1) ++ replaceAll rule.1 rule.2 p.2 := by
  have hne : '[' ≠ ']' := by decide
  induction rest generalizing first with
  | nil => simp [flat]
  | cons p rest ih =>
      have hp := hrest p List.mem_cons_self
      have hafter := ih p.2 fun q hq ↦ hrest q (List.mem_cons_of_mem _ hq)
      have hflat : flat ⟨first, p :: rest⟩ = first ++ p.1 ++ flat ⟨p.2, rest⟩ := by simp [flat]
      have htoken : replaceAll rule.1 rule.2 p.1 = if p.1 = rule.1 then rule.2 else p.1 := by
        split_ifs with h
        · rw [h, replaceAll_self ht.ne_nil]
        · exact replaceAll_bracketed_of_ne hne ht hp h
      rw [hflat, replaceAll_around hne ht hp, hafter, htoken, List.flatMap_cons]
      simp

theorem reduces_flatMap (ht : rule.1 ≠ []) (g : Text → Text) (rest : List (Text × Text)) :
    Reduces [rule] (rest.flatMap fun p ↦ g p.1 ++ p.2)
      (rest.flatMap fun p ↦ g p.1 ++ replaceAll rule.1 rule.2 p.2) := by
  induction rest with
  | nil => exact .refl
  | cons p rest ih =>
      rw [List.flatMap_cons, List.flatMap_cons]
      exact (Reduces.append .refl (reduces_replaceAll ht p.2)).append ih

theorem flatMap_eq_iff (hrule : Proper '[' ']' rule) (g : Text → Text)
    (rest : List (Text × Text)) :
    (rest.flatMap fun p ↦ g p.1 ++ p.2) =
        (rest.flatMap fun p ↦ g p.1 ++ replaceAll rule.1 rule.2 p.2) ↔
      ∀ p ∈ rest, ¬ rule.1 <:+: p.2 := by
  have hne : '[' ≠ ']' := by decide
  have ht := hrule.1.ne_nil
  induction rest with
  | nil => simp
  | cons p rest ih =>
      have hproper : ∀ r ∈ [rule], Proper '[' ']' r := by simpa using hrule
      have hstretch : Reduces [rule] (g p.1 ++ p.2) (g p.1 ++ replaceAll rule.1 rule.2 p.2) :=
        Reduces.append .refl (reduces_replaceAll ht p.2)
      rw [List.flatMap_cons, List.flatMap_cons,
        hstretch.append_eq_iff hne hproper (reduces_flatMap ht g rest), List.forall_mem_cons]
      refine and_congr ?_ ih
      rw [List.append_cancel_left_eq, eq_comm, replaceAll_eq_self_iff hne hrule.1 hrule.2]

theorem reduces_restore (ht : Bracketed '[' ']' rule.1) (hx : x.WellFormed) :
    Reduces [rule] (x.restore rule).flat (replaceAll rule.1 rule.2 x.flat) := by
  have hflat := replaceAll_flat ht x.first hx
  unfold restore
  rw [flat_restoreFrom, hflat]
  exact (reduces_replaceAll ht.ne_nil x.first).append
    (reduces_flatMap ht.ne_nil (fun token ↦ if token = rule.1 then rule.2 else token) x.rest)

theorem flat_restore_iff (hrule : Proper '[' ']' rule) (hx : x.WellFormed) :
    (x.restore rule).flat = replaceAll rule.1 rule.2 x.flat ↔
      ∀ stretch ∈ x.stretches, ¬ rule.1 <:+: stretch := by
  have hne : '[' ≠ ']' := by decide
  have hproper : ∀ r ∈ [rule], Proper '[' ']' r := by simpa using hrule
  have hflat := replaceAll_flat hrule.1 x.first hx
  have hrest := flatMap_eq_iff hrule (fun token ↦ if token = rule.1 then rule.2 else token) x.rest
  have hreduces := reduces_flatMap hrule.1.ne_nil
    (fun token ↦ if token = rule.1 then rule.2 else token) x.rest
  have hparts :=
    (reduces_replaceAll (n := rule.2) hrule.1.ne_nil x.first).append_eq_iff hne hproper hreduces
  unfold restore stretches
  rw [flat_restoreFrom, hflat, hparts, hrest, eq_comm, replaceAll_eq_self_iff hne hrule.1 hrule.2,
    List.forall_mem_cons, List.forall_mem_map]

theorem flat_restore_of_absent (ht : Bracketed '[' ']' rule.1) (hx : x.WellFormed)
    (h : ∀ stretch ∈ x.stretches, ¬ rule.1 <:+: stretch) :
    (x.restore rule).flat = replaceAll rule.1 rule.2 x.flat := by
  have hflat := replaceAll_flat ht x.first hx
  have hfirst := h x.first List.mem_cons_self
  unfold restore
  rw [flat_restoreFrom, hflat, replaceAll_of_absent ht.ne_nil hfirst]
  congr 1
  refine List.flatMap_congr fun p hp ↦ ?_
  have hp' := h p.2 (List.mem_cons_of_mem _ (List.mem_map_of_mem hp))
  rw [replaceAll_of_absent ht.ne_nil hp']

/-! ### Stage by stage -/

theorem exact_of_unambiguous (ht : ∀ rule ∈ rules, Bracketed '[' ']' rule.1) (hx : x.WellFormed)
    (h : Unambiguous rules x) : Exact flat restore rules x := by
  induction rules generalizing x with
  | nil => trivial
  | cons rule rules ih =>
      obtain ⟨hstage, hrest⟩ := h
      exact ⟨flat_restore_of_absent (ht rule List.mem_cons_self) hx hstage,
        ih (fun r hr ↦ ht r (List.mem_cons_of_mem _ hr)) (hx.restore rule) hrest⟩

theorem exact_iff_unambiguous (hrules : ∀ rule ∈ rules, Proper '[' ']' rule)
    (hx : x.WellFormed) : Exact flat restore rules x ↔ Unambiguous rules x := by
  induction rules generalizing x with
  | nil => exact Iff.rfl
  | cons rule rules ih =>
      exact and_congr (flat_restore_iff (hrules rule List.mem_cons_self) hx)
        (ih (fun r hr ↦ hrules r (List.mem_cons_of_mem _ hr)) (hx.restore rule))

/-- After the turn of every token nothing but the original is left. -/
theorem flat_foldl_restore {value : Text → Text} (hvalue : ∀ rule ∈ rules, value rule.1 = rule.2)
    (hx : ∀ p ∈ x.rest, p.1 ∈ rules.map Prod.fst) :
    (rules.foldl (fun x rule ↦ x.restore rule) x).flat = x.original value := by
  induction rules generalizing x with
  | nil =>
      have hnil : x.rest = [] := List.eq_nil_iff_forall_not_mem.mpr fun p hp ↦ by simpa using hx p hp
      simp [flat, original, hnil]
  | cons rule rules ih =>
      have hrest : ∀ p ∈ (x.restore rule).rest, p.1 ∈ rules.map Prod.fst := by
        intro p hp
        obtain ⟨hne, hmem⟩ := mem_restoreFrom hp
        obtain ⟨q, hq, heq⟩ := List.mem_map.mp hmem
        have hq' := hx q hq
        rw [heq, List.map_cons] at hq'
        exact (List.mem_cons.mp hq').resolve_left hne
      rw [List.foldl_cons, ih (fun r hr ↦ hvalue r (List.mem_cons_of_mem _ hr)) hrest]
      exact original_restoreFrom (hvalue rule List.mem_cons_self) x.first x.rest

theorem replaceEach_flat_of_unambiguous {value : Text → Text}
    (ht : ∀ rule ∈ rules, Bracketed '[' ']' rule.1) (hvalue : ∀ rule ∈ rules, value rule.1 = rule.2)
    (hx : x.WellFormed) (hrest : ∀ p ∈ x.rest, p.1 ∈ rules.map Prod.fst)
    (h : Unambiguous rules x) : replaceEach rules x.flat = x.original value := by
  rw [← flat_foldl_restore hvalue hrest]
  exact (replaceEach_of_exact (exact_of_unambiguous ht hx h)).symm

theorem replaceEach_flat_iff {value : Text → Text} (hrules : ∀ rule ∈ rules, Proper '[' ']' rule)
    (hnodup : (rules.map Prod.fst).Nodup) (hvalue : ∀ rule ∈ rules, value rule.1 = rule.2)
    (hx : x.WellFormed) (hrest : ∀ p ∈ x.rest, p.1 ∈ rules.map Prod.fst) :
    replaceEach rules x.flat = x.original value ↔ Unambiguous rules x := by
  have hne : '[' ≠ ']' := by decide
  have hnext : ∀ rule ∈ rules, ∀ x : Tokened, x.WellFormed → (x.restore rule).WellFormed ∧
      Reduces [rule] (x.restore rule).flat (replaceAll rule.1 rule.2 x.flat) :=
    fun rule hrule x hx ↦ ⟨hx.restore rule, reduces_restore (hrules rule hrule).1 hx⟩
  obtain ⟨-, -, -, hiff⟩ :=
    replaceEach_iff_exact flat restore WellFormed hne hrules hnodup hnext hx
  rw [← flat_foldl_restore hvalue hrest, eq_comm, hiff, exact_iff_unambiguous hrules hx]

end Tokened

/-! ## What a mapping hands out -/

/-- A token of the redactor. -/
def tokenOf (U : Unicode) (piiType : Text) (count : ℕ) : Text :=
  '[' :: (U.upper piiType ++ '_' :: ((toString count).toList ++ [']']))

namespace RedactionMapping

/-- What stands for an original. -/
def tokenFor (m : RedactionMapping) (original : Text) : Text := (m.dedup.lookup original).getD []

/-- What a token stands for. -/
def valueOf (m : RedactionMapping) (token : Text) : Text := (m.forward.lookup token).getD []

/-- The tokens of one mapping are those of another one too. -/
def Extends (m' m : RedactionMapping) : Prop :=
  ∀ original token, m.dedup.lookup original = some token → m'.dedup.lookup original = some token

end RedactionMapping

namespace PIIRedactor

/-- What holds of the matches of the patterns, and of their names in upper case. -/
structure Sound (R : PIIRedactor) : Prop where
  bounds : ∀ {piiType find}, R.piiPatterns piiType = some find → ∀ text, ∀ p ∈ find text,
    p.1 ≤ p.2 ∧ p.2 ≤ text.length
  plain_upper : ∀ {piiType}, (R.piiPatterns piiType).isSome → Plain '[' ']' (R.upper piiType)
  upper_inj : ∀ {piiType piiType'}, (R.piiPatterns piiType).isSome →
    (R.piiPatterns piiType').isSome → R.upper piiType = R.upper piiType' → piiType = piiType'

/-- No match of a pattern has a square bracket in it. -/
def PlainMatches (R : PIIRedactor) : Prop :=
  ∀ piiType find, R.piiPatterns piiType = some find → ∀ text, ∀ p ∈ find text,
    Plain '[' ']' ((text.drop p.1).take (p.2 - p.1))

variable (R : PIIRedactor)

/-- What has been handed out: each token is that of a known type with a number that its counter
has reached, and stands for the original that it was made for. -/
structure Issued (P : Text → Prop) (m : RedactionMapping) : Prop where
  reversible : m.reversible = true
  inverse : ∀ {original token}, m.dedup.lookup original = some token →
    m.forward.lookup token = some original
  tokens : ∀ rule ∈ m.forward, ∃ piiType count, (R.piiPatterns piiType).isSome ∧
    count ≤ (m.counters.lookup piiType).getD 0 ∧ rule.1 = tokenOf R.toUnicode piiType count
  originals : ∀ rule ∈ m.forward, P rule.2

/-- `add`, for one original after the other. -/
def addAll (m : RedactionMapping) (found : List (Text × Text)) : RedactionMapping :=
  found.foldl (fun m f ↦ (m.add R.toUnicode f.1 f.2).2) m

variable {R}

theorem tokenOf_inj {U : Unicode} {piiType piiType' : Text} {count count' : ℕ}
    (h : tokenOf U piiType count = tokenOf U piiType' count') :
    U.upper piiType = U.upper piiType' ∧ count = count' := by
  have hdigits : ∀ n : ℕ, '_' ∉ (toString n).toList.reverse := by
    intro n hmem
    rw [List.mem_reverse, Nat.toString_eq_repr, Nat.toList_repr] at hmem
    have hdigit : Char.isDigit '_' = true :=
      Nat.isDigit_of_mem_toDigits (by norm_num) (by norm_num) hmem
    exact absurd hdigit (by decide)
  have hinner := (List.cons.inj h).2
  simp only [← List.append_assoc, ← List.cons_append] at hinner
  have hinner' := congrArg List.reverse (List.append_inj_left' hinner rfl)
  simp only [List.reverse_append, List.reverse_cons, List.append_assoc, List.singleton_append]
    at hinner'
  obtain ⟨hcount, hupper⟩ := Netstring.append_cons_inj (hdigits count) (hdigits count') hinner'
  refine ⟨List.reverse_injective hupper, ?_⟩
  have hcount' := String.toList_injective (List.reverse_injective hcount)
  simpa using hcount'

theorem bracketed_tokenOf (hR : R.Sound) {piiType : Text} (h : (R.piiPatterns piiType).isSome)
    (count : ℕ) : Bracketed '[' ']' (tokenOf R.toUnicode piiType count) := by
  have hdigits : ∀ c ∈ (toString count).toList, Char.isDigit c = true := by
    intro c hc
    rw [Nat.toString_eq_repr, Nat.toList_repr] at hc
    exact Nat.isDigit_of_mem_toDigits (by norm_num) (by norm_num) hc
  obtain ⟨hopening, hclosing⟩ := hR.plain_upper h
  refine ⟨R.upper piiType ++ '_' :: (toString count).toList, ⟨?_, ?_⟩, by simp [tokenOf]⟩
  · intro hmem
    rcases List.mem_append.mp hmem with hmem | hmem
    · exact hopening hmem
    · rcases List.mem_cons.mp hmem with hmem | hmem
      · exact absurd hmem (by decide)
      · exact absurd (hdigits _ hmem) (by decide)
  · intro hmem
    rcases List.mem_append.mp hmem with hmem | hmem
    · exact hclosing hmem
    · rcases List.mem_cons.mp hmem with hmem | hmem
      · exact absurd hmem (by decide)
      · exact absurd (hdigits _ hmem) (by decide)

theorem issued_empty (P : Text → Prop) : R.Issued P (RedactionMapping.empty true) where
  reversible := rfl
  inverse h := by simp [RedactionMapping.empty] at h
  tokens rule hrule := by simp [RedactionMapping.empty] at hrule
  originals rule hrule := by simp [RedactionMapping.empty] at hrule

theorem Issued.add {P : Text → Prop} {m : RedactionMapping} (hR : R.Sound) (hm : R.Issued P m)
    {piiType original : Text} (htype : (R.piiPatterns piiType).isSome) (horiginal : P original) :
    R.Issued P (m.add R.toUnicode piiType original).2 := by
  unfold RedactionMapping.add
  cases hlookup : m.dedup.lookup original with
  | some token => exact hm
  | none =>
      have hcounter : (PyValue.set m.counters piiType
          ((m.counters.lookup piiType).getD 0 + 1)).lookup piiType =
            some ((m.counters.lookup piiType).getD 0 + 1) := lookup_set _ _ _
      -- The token is new, since the counter of its type has not reached its number.
      have hfresh : ∀ rule ∈ m.forward,
          rule.1 ≠ tokenOf R.toUnicode piiType ((m.counters.lookup piiType).getD 0 + 1) := by
        intro rule hrule heq
        obtain ⟨piiType', count, htype', hle, hrule'⟩ := hm.tokens rule hrule
        obtain ⟨hupper, hcount⟩ := tokenOf_inj (hrule'.symm.trans heq)
        obtain rfl := hR.upper_inj htype' htype hupper
        omega
      refine ⟨hm.reversible, ?_, ?_, ?_⟩
      · intro original' token' h
        dsimp only at h ⊢
        rw [if_pos hm.reversible]
        by_cases heq : original' = original
        · subst heq
          rw [lookup_set, Option.some.injEq] at h
          rw [← h, lookup_set]
        · rw [lookup_set_of_ne heq] at h
          have hold := hm.inverse h
          rw [lookup_set_of_ne ?_, hold]
          exact hfresh (token', original') (mem_of_lookup hold)
      · intro rule hrule
        dsimp only at hrule ⊢
        rw [if_pos hm.reversible] at hrule
        rcases mem_set hrule with rfl | hrule
        · exact ⟨piiType, _, htype, by rw [hcounter]; rfl, rfl⟩
        · obtain ⟨piiType', count, htype', hle, hrule'⟩ := hm.tokens rule hrule
          refine ⟨piiType', count, htype', ?_, hrule'⟩
          by_cases heq : piiType' = piiType
          · subst heq
            rw [hcounter, Option.getD_some]
            omega
          · rwa [lookup_set_of_ne heq]
      · intro rule hrule
        dsimp only at hrule
        rw [if_pos hm.reversible] at hrule
        rcases mem_set hrule with rfl | hrule
        · exact horiginal
        · exact hm.originals rule hrule

theorem addAll_append (m : RedactionMapping) (found found' : List (Text × Text)) :
    R.addAll m (found ++ found') = R.addAll (R.addAll m found) found' := List.foldl_append

theorem Issued.addAll {P : Text → Prop} (hR : R.Sound) {found : List (Text × Text)}
    (hfound : ∀ f ∈ found, (R.piiPatterns f.1).isSome ∧ P f.2) {m : RedactionMapping}
    (hm : R.Issued P m) : R.Issued P (R.addAll m found) := by
  induction found generalizing m with
  | nil => exact hm
  | cons f found ih =>
      obtain ⟨htype, horiginal⟩ := hfound f List.mem_cons_self
      exact ih (fun g hg ↦ hfound g (List.mem_cons_of_mem _ hg)) (hm.add hR htype horiginal)

theorem built_addAll {m : RedactionMapping} (hm : m.Built R.toUnicode true)
    (found : List (Text × Text)) : (R.addAll m found).Built R.toUnicode true := by
  induction found generalizing m with
  | nil => exact hm
  | cons f found ih => exact ih (hm.add f.1 f.2)

theorem extends_addAll (m : RedactionMapping) (found : List (Text × Text)) :
    (R.addAll m found).Extends m := by
  induction found generalizing m with
  | nil => exact fun _ _ h ↦ h
  | cons f found ih => exact fun original token h ↦ ih _ original token (lookup_add h f.1 f.2)

theorem exists_token_addAll (m : RedactionMapping) {found : List (Text × Text)}
    {f : Text × Text} (hf : f ∈ found) :
    ∃ token, (R.addAll m found).dedup.lookup f.2 = some token := by
  obtain ⟨before, after, rfl⟩ := List.append_of_mem hf
  rw [addAll_append]
  exact ⟨_, extends_addAll _ after _ _ (lookup_add_self _ f.1 f.2)⟩

theorem Issued.proper {P : Text → Prop} {m : RedactionMapping} (hR : R.Sound)
    (hm : R.Issued P m) : ∀ rule ∈ m.forward, Bracketed '[' ']' rule.1 ∧ P rule.2 := by
  intro rule hrule
  obtain ⟨piiType, count, htype, -, heq⟩ := hm.tokens rule hrule
  exact ⟨heq ▸ bracketed_tokenOf hR htype count, hm.originals rule hrule⟩

/-! ## One text -/

/-- The stretch of a text that a span takes. -/
def slice (text : Text) (s : Span) : Text := (text.drop s.start).take (s.stop - s.start)

variable (R) in
/-- What the patterns find in a text, as it is replaced from the right. -/
def foundIn (activeTypes : List Text) (text : Text) : List (Text × Text) :=
  (dropOverlaps (R.regexSpans text activeTypes)).map fun s ↦ (s.piiType, slice text s)

/-- The token of a span is put in its place. -/
def putToken (m : RedactionMapping) (text : Text) (x : Tokened) (s : Span) : Tokened :=
  ⟨x.first.take s.start, (m.tokenFor (slice text s), x.first.drop s.stop) :: x.rest⟩

variable (R) in
/-- A text with the tokens that a mapping has for what is found in it. -/
def tokened (m : RedactionMapping) (activeTypes : List Text) (text : Text) : Tokened :=
  (dropOverlaps (R.regexSpans text activeTypes)).foldl (putToken m text) ⟨text, []⟩

section OneText

variable {m m' : RedactionMapping} {text : Text} {spans : List Span} {n : ℕ}

theorem applySpan_flat {x : Tokened} {s : Span} (hx : x.first = text.take n)
    (hs : s.start ≤ s.stop ∧ s.stop ≤ n) (hn : n ≤ text.length)
    (hm : m'.Extends (m.add R.toUnicode s.piiType (slice text s)).2) :
    R.applySpan (x.flat, m) s =
      ((putToken m' text x s).flat, (m.add R.toUnicode s.piiType (slice text s)).2) := by
  have hlen : x.first.length = n := by
    rw [hx, List.length_take]
    omega
  have hslice : (x.flat.drop s.start).take (s.stop - s.start) = slice text s := by
    unfold Tokened.flat slice
    rw [List.drop_append_of_le_length (by omega), List.take_append_of_le_length
      (by rw [List.length_drop]; omega), hx, List.drop_take, List.take_take,
      min_eq_left (by omega)]
  have htoken : m'.tokenFor (slice text s) = (m.add R.toUnicode s.piiType (slice text s)).1 := by
    unfold RedactionMapping.tokenFor
    rw [hm _ _ (lookup_add_self m s.piiType (slice text s))]
    rfl
  unfold applySpan
  dsimp only
  rw [hslice, putToken, htoken]
  unfold Tokened.flat
  rw [List.take_append_of_le_length (by omega), List.drop_append_of_le_length (by omega)]
  simp

theorem foldl_applySpan_flat {x : Tokened} (hx : x.first = text.take n) (hn : n ≤ text.length)
    (hsorted : spans.Pairwise fun s s' ↦ s'.stop ≤ s.start)
    (hspans : ∀ s ∈ spans, s.start ≤ s.stop ∧ s.stop ≤ n)
    (hm : m'.Extends (R.addAll m (spans.map fun s ↦ (s.piiType, slice text s)))) :
    spans.foldl R.applySpan (x.flat, m) =
      ((spans.foldl (putToken m' text) x).flat,
        R.addAll m (spans.map fun s ↦ (s.piiType, slice text s))) := by
  induction spans generalizing x m n with
  | nil => rfl
  | cons s spans ih =>
      obtain ⟨hfirst, hrest⟩ := List.pairwise_cons.mp hsorted
      have hs := hspans s List.mem_cons_self
      have hm' : m'.Extends (m.add R.toUnicode s.piiType (slice text s)).2 :=
        fun original token h ↦ hm original token (extends_addAll
          (m.add R.toUnicode s.piiType (slice text s)).2
          (spans.map fun s ↦ (s.piiType, slice text s)) original token h)
      have hx' : (putToken m' text x s).first = text.take s.start := by
        unfold putToken
        dsimp only
        rw [hx, List.take_take, min_eq_left (by omega)]
      have hbounds : ∀ s' ∈ spans, s'.start ≤ s'.stop ∧ s'.stop ≤ s.start := fun s' hs' ↦
        ⟨(hspans s' (List.mem_cons_of_mem _ hs')).1, hfirst s' hs'⟩
      rw [List.foldl_cons, applySpan_flat hx hs hn hm', List.foldl_cons,
        ih hx' (by omega) hrest hbounds hm]
      rfl

theorem foldl_putToken_original {x : Tokened} (hx : x.first = text.take n) (hn : n ≤ text.length)
    (hsorted : spans.Pairwise fun s s' ↦ s'.stop ≤ s.start)
    (hspans : ∀ s ∈ spans, s.start ≤ s.stop ∧ s.stop ≤ n)
    (hvalue : ∀ s ∈ spans, m.valueOf (m.tokenFor (slice text s)) = slice text s) :
    (spans.foldl (putToken m text) x).original m.valueOf = x.original m.valueOf := by
  induction spans generalizing x n with
  | nil => rfl
  | cons s spans ih =>
      obtain ⟨hfirst, hrest⟩ := List.pairwise_cons.mp hsorted
      have hs := hspans s List.mem_cons_self
      have hx' : (putToken m text x s).first = text.take s.start := by
        unfold putToken
        dsimp only
        rw [hx, List.take_take, min_eq_left (by omega)]
      have hbounds : ∀ s' ∈ spans, s'.start ≤ s'.stop ∧ s'.stop ≤ s.start := fun s' hs' ↦
        ⟨(hspans s' (List.mem_cons_of_mem _ hs')).1, hfirst s' hs'⟩
      have hslice : x.first.take s.start ++ slice text s ++ x.first.drop s.stop = x.first := by
        have hmiddle : slice text s = (x.first.drop s.start).take (s.stop - s.start) := by
          unfold slice
          rw [hx, List.drop_take, List.take_take, min_eq_left (by omega)]
        have hdrop : x.first.drop s.stop = (x.first.drop s.start).drop (s.stop - s.start) := by
          rw [List.drop_drop, Nat.add_sub_cancel' hs.1]
        rw [hmiddle, hdrop, List.append_assoc, List.take_append_drop, List.take_append_drop]
      rw [List.foldl_cons, ih hx' (by omega) hrest hbounds fun s' hs' ↦
        hvalue s' (List.mem_cons_of_mem _ hs')]
      unfold Tokened.original putToken
      dsimp only
      rw [List.flatMap_cons, hvalue s List.mem_cons_self]
      conv_rhs => rw [← hslice]
      simp

theorem mem_foldl_putToken {x : Tokened} {p : Text × Text}
    (hp : p ∈ (spans.foldl (putToken m text) x).rest) :
    p ∈ x.rest ∨ ∃ s ∈ spans, p.1 = m.tokenFor (slice text s) := by
  induction spans generalizing x with
  | nil => exact .inl hp
  | cons s spans ih =>
      rcases ih hp with hp | ⟨s', hs', heq⟩
      · rcases List.mem_cons.mp hp with rfl | hp
        · exact .inr ⟨s, List.mem_cons_self, rfl⟩
        · exact .inl hp
      · exact .inr ⟨s', List.mem_cons_of_mem _ hs', heq⟩

end OneText

variable {m m' : RedactionMapping} {activeTypes : List Text} {text : Text} {P : Text → Prop}

theorem mem_regexSpans {s : Span} (hs : s ∈ R.regexSpans text activeTypes) :
    ∃ find, R.piiPatterns s.piiType = some find ∧ (s.start, s.stop) ∈ find text := by
  obtain ⟨piiType, -, hs⟩ := List.mem_flatMap.mp hs
  cases hfind : R.piiPatterns piiType with
  | none => simp [hfind] at hs
  | some find =>
      rw [hfind] at hs
      obtain ⟨p, hp, rfl⟩ := List.mem_map.mp hs
      exact ⟨find, hfind, hp⟩

theorem Sound.span_bounds (hR : R.Sound) {s : Span} (hs : s ∈ R.regexSpans text activeTypes) :
    s.start ≤ s.stop ∧ s.stop ≤ text.length := by
  obtain ⟨find, hfind, hp⟩ := mem_regexSpans hs
  exact hR.bounds hfind text _ hp

theorem redactStr_eq (hR : R.Sound) (hm : m'.Extends (R.addAll m (R.foundIn activeTypes text))) :
    R.redactStr text activeTypes m =
      ((R.tokened m' activeTypes text).flat, R.addAll m (R.foundIn activeTypes text)) := by
  have hspans : ∀ s ∈ dropOverlaps (R.regexSpans text activeTypes),
      s.start ≤ s.stop ∧ s.stop ≤ text.length := fun s hs ↦
    hR.span_bounds (mem_of_mem_dropOverlaps hs)
  have hsorted : (dropOverlaps (R.regexSpans text activeTypes)).Pairwise
      fun s s' ↦ s'.stop ≤ s.start := dropOverlaps_pairwise fun s hs ↦ (hR.span_bounds hs).1
  have h := foldl_applySpan_flat (x := ⟨text, []⟩) List.take_length.symm le_rfl hsorted hspans hm
  have hflat : (⟨text, []⟩ : Tokened).flat = text := List.append_nil text
  rwa [hflat] at h

/-- The mapping has a token for what is found, and it stands for that. -/
theorem Issued.valueOf_tokenFor (hm : R.Issued P m) {original : Text}
    (h : ∃ token, m.dedup.lookup original = some token) :
    m.valueOf (m.tokenFor original) = original ∧
      m.tokenFor original ∈ m.forward.map Prod.fst := by
  obtain ⟨token, htoken⟩ := h
  have htokenFor : m.tokenFor original = token := by
    rw [RedactionMapping.tokenFor, htoken, Option.getD_some]
  have hvalue := hm.inverse htoken
  rw [htokenFor, RedactionMapping.valueOf, hvalue]
  exact ⟨rfl, List.mem_map.mpr ⟨(token, original), mem_of_lookup hvalue, rfl⟩⟩

theorem tokened_original (hR : R.Sound) (hm : R.Issued P m)
    (hfound : ∀ f ∈ R.foundIn activeTypes text, ∃ token, m.dedup.lookup f.2 = some token) :
    (R.tokened m activeTypes text).original m.valueOf = text := by
  have hspans : ∀ s ∈ dropOverlaps (R.regexSpans text activeTypes),
      s.start ≤ s.stop ∧ s.stop ≤ text.length := fun s hs ↦
    hR.span_bounds (mem_of_mem_dropOverlaps hs)
  have hsorted : (dropOverlaps (R.regexSpans text activeTypes)).Pairwise
      fun s s' ↦ s'.stop ≤ s.start := dropOverlaps_pairwise fun s hs ↦ (hR.span_bounds hs).1
  have hvalue : ∀ s ∈ dropOverlaps (R.regexSpans text activeTypes),
      m.valueOf (m.tokenFor (slice text s)) = slice text s := fun s hs ↦
    (hm.valueOf_tokenFor (hfound _ (List.mem_map_of_mem hs))).1
  have h := foldl_putToken_original (x := ⟨text, []⟩) List.take_length.symm le_rfl hsorted hspans
    hvalue
  have horiginal : (⟨text, []⟩ : Tokened).original m.valueOf = text := List.append_nil text
  rwa [horiginal] at h

theorem tokened_mem
    (hm : R.Issued P m)
    (hfound : ∀ f ∈ R.foundIn activeTypes text, ∃ token, m.dedup.lookup f.2 = some token) :
    ∀ p ∈ (R.tokened m activeTypes text).rest, p.1 ∈ m.forward.map Prod.fst := by
  intro p hp
  rcases mem_foldl_putToken hp with hp | ⟨s, hs, heq⟩
  · cases hp
  · rw [heq]
    exact (hm.valueOf_tokenFor (hfound _ (List.mem_map_of_mem hs))).2

theorem tokened_wellFormed (hR : R.Sound) (hm : R.Issued P m)
    (hfound : ∀ f ∈ R.foundIn activeTypes text, ∃ token, m.dedup.lookup f.2 = some token) :
    (R.tokened m activeTypes text).WellFormed := by
  intro p hp
  obtain ⟨rule, hrule, heq⟩ := List.mem_map.mp (tokened_mem hm hfound p hp)
  exact heq ▸ (hm.proper hR rule hrule).1

/-! ## All the texts of a request -/

/-- The texts of a part. -/
def partTexts : Value → List Text
  | .obj fields => ((textKey fields).map Prod.snd).toList
  | _ => []

def contentTexts : Value → List Text
  | .str text => [text]
  | .arr parts => parts.flatMap partTexts
  | _ => []

/-- The texts of a message that are redacted. -/
def messageTexts (msg : Message) : List Text := (msg.content.map contentTexts).getD []

section Threading

variable {α β : Type} {f : α → RedactionMapping → α × RedactionMapping}
  {g : β → RedactionMapping → β × RedactionMapping} {texts : α → List β}

theorem eachWith_append (g : β → RedactionMapping → β × RedactionMapping) (l l' : List β)
    (m : RedactionMapping) :
    eachWith g (l ++ l') m = ((eachWith g l m).1 ++ (eachWith g l' (eachWith g l m).2).1,
      (eachWith g l' (eachWith g l m).2).2) := by
  induction l generalizing m with
  | nil => rfl
  | cons x l ih => simp only [List.cons_append, eachWith, ih]

/-- A loop over what holds the texts is a loop over the texts. -/
theorem eachWith_flatMap
    (h : ∀ x m, (texts (f x m).1, (f x m).2) = eachWith g (texts x) m) (xs : List α)
    (m : RedactionMapping) :
    ((eachWith f xs m).1.flatMap texts, (eachWith f xs m).2) = eachWith g (xs.flatMap texts) m := by
  induction xs generalizing m with
  | nil => rfl
  | cons x xs ih =>
      have hx := h x m
      rw [List.flatMap_cons, eachWith_append, ← hx, ← ih]
      rfl

end Threading

theorem eachWith_singleton (g : Text → RedactionMapping → Text × RedactionMapping) (text : Text)
    (m : RedactionMapping) : eachWith g [text] m = ([(g text m).1], (g text m).2) := rfl

theorem textKey_set {fields : Fields} {key text : Text} (h : textKey fields = some (key, text))
    (redacted : Text) : textKey (set fields key (.str redacted)) = some (key, redacted) := by
  unfold textKey at h ⊢
  split at h
  · obtain ⟨rfl, rfl⟩ := Prod.mk.inj (Option.some.inj h)
    rw [lookup_set]
  · next hne =>
    split at h
    · obtain ⟨rfl, rfl⟩ := Prod.mk.inj (Option.some.inj h)
      rw [lookup_set_of_ne (by decide), lookup_set]
      split
      · next text' htext => exact absurd htext (hne text')
      · rfl
    · cases h

theorem redactPart_texts (activeTypes : List Text) (part : Value) (m : RedactionMapping) :
    (partTexts (R.redactPart activeTypes part m).1, (R.redactPart activeTypes part m).2) =
      eachWith (fun text m ↦ R.redactStr text activeTypes m) (partTexts part) m := by
  cases part with
  | obj fields =>
      unfold redactPart
      cases hkey : textKey fields with
      | none => simp [partTexts, hkey, eachWith]
      | some item =>
          obtain ⟨key, text⟩ := item
          simp [partTexts, hkey, eachWith, textKey_set hkey]
  | null | bool | number | nonFinite | str | arr => rfl

theorem redactContent_texts (activeTypes : List Text) (content : Value) (m : RedactionMapping) :
    (contentTexts (R.redactContent activeTypes content m).1,
        (R.redactContent activeTypes content m).2) =
      eachWith (fun text m ↦ R.redactStr text activeTypes m) (contentTexts content) m := by
  cases content with
  | str text => rfl
  | arr parts => exact eachWith_flatMap (redactPart_texts activeTypes) parts m
  | null | bool | number | nonFinite | obj => rfl

theorem redactMessage_texts (activeTypes : List Text) (msg : Message) (m : RedactionMapping) :
    (messageTexts (R.redactMessage activeTypes msg m).1, (R.redactMessage activeTypes msg m).2) =
      eachWith (fun text m ↦ R.redactStr text activeTypes m) (messageTexts msg) m := by
  unfold redactMessage messageTexts
  cases hcontent : msg.content with
  | none => simp [hcontent, eachWith]
  | some content =>
      have h := redactContent_texts (R := R) activeTypes content m
      simpa using h

/-- The texts are replaced one after the other, with the tokens of the final mapping. -/
theorem eachWith_redactStr (hR : R.Sound) (activeTypes : List Text) (texts : List Text)
    {m m' : RedactionMapping}
    (hm : m'.Extends (R.addAll m (texts.flatMap (R.foundIn activeTypes)))) :
    eachWith (fun text m ↦ R.redactStr text activeTypes m) texts m =
      (texts.map fun text ↦ (R.tokened m' activeTypes text).flat,
        R.addAll m (texts.flatMap (R.foundIn activeTypes))) := by
  induction texts generalizing m with
  | nil => rfl
  | cons text texts ih =>
      rw [List.flatMap_cons, addAll_append] at hm
      have hm' : m'.Extends (R.addAll m (R.foundIn activeTypes text)) := fun original token h ↦
        hm original token (extends_addAll _ _ original token h)
      unfold eachWith
      rw [redactStr_eq hR hm', List.flatMap_cons, addAll_append]
      dsimp only
      rw [ih hm]
      rfl

variable (R) in
/-- The types that are redacted under a policy. -/
def typesOf (policy : RedactionPolicy) : List Text :=
  if (R.effectivePolicy policy).piiRedactionEnabled then (R.effectivePolicy policy).piiRedactTypes
  else []

variable (R) in
/-- The tokens for what is found in these texts. -/
def mappingOf (activeTypes : List Text) (texts : List Text) : RedactionMapping :=
  R.addAll (RedactionMapping.empty true) (texts.flatMap (R.foundIn activeTypes))

theorem effectivePolicy_piiReinject (policy : RedactionPolicy) :
    (R.effectivePolicy policy).piiReinject = policy.piiReinject := by
  unfold effectivePolicy
  split_ifs <;> rfl

variable (R) in
/-- Each redacted text becomes the original one when the originals are put back. -/
def RoundTrips (policy : RedactionPolicy) (msgs : List Message) : Prop :=
  ((R.redactMessages msgs policy).1.flatMap messageTexts).map
    (R.redactMessages msgs policy).2.reinject = msgs.flatMap messageTexts

variable (R) in
/-- No text has a token, of those for what is found in all of them, outside its spans at the
turn of that token. -/
def NoLiteralToken (policy : RedactionPolicy) (texts : List Text) : Prop :=
  ∀ text ∈ texts, Tokened.Unambiguous (R.mappingOf (R.typesOf policy) texts).forward
    (R.tokened (R.mappingOf (R.typesOf policy) texts) (R.typesOf policy) text)

theorem redactMessages_texts (hR : R.Sound) {policy : RedactionPolicy}
    (hreinject : policy.piiReinject = true) (htypes : R.typesOf policy ≠ []) (msgs : List Message) :
    (R.redactMessages msgs policy).1.flatMap messageTexts =
        (msgs.flatMap messageTexts).map (fun text ↦
          (R.tokened (R.mappingOf (R.typesOf policy) (msgs.flatMap messageTexts))
            (R.typesOf policy) text).flat) ∧
      (R.redactMessages msgs policy).2 =
        R.mappingOf (R.typesOf policy) (msgs.flatMap messageTexts) := by
  have henabled : (R.effectivePolicy policy).piiRedactionEnabled = true := by
    by_contra h
    exact htypes (if_neg h)
  have htypesOf : (R.effectivePolicy policy).piiRedactTypes = R.typesOf policy :=
    (if_pos henabled).symm
  have hempty : (R.typesOf policy).isEmpty = false := by simpa using htypes
  have hloop := eachWith_flatMap (redactMessage_texts (R := R) (R.typesOf policy)) msgs
    (RedactionMapping.empty true)
  have hextends : (R.mappingOf (R.typesOf policy) (msgs.flatMap messageTexts)).Extends
      (R.addAll (RedactionMapping.empty true)
        ((msgs.flatMap messageTexts).flatMap (R.foundIn (R.typesOf policy)))) := fun _ _ h ↦ h
  rw [eachWith_redactStr hR (R.typesOf policy) _ hextends] at hloop
  obtain ⟨htexts, hmapping⟩ := Prod.mk.inj hloop
  have hsealed : (R.mappingOf (R.typesOf policy) (msgs.flatMap messageTexts)).seal =
      R.mappingOf (R.typesOf policy) (msgs.flatMap messageTexts) := by
    unfold RedactionMapping.seal
    exact if_pos (Built.reversible_eq (built_addAll .empty _))
  have hrun : R.redactMessages msgs policy =
      ((eachWith (R.redactMessage (R.typesOf policy)) msgs (RedactionMapping.empty true)).1,
        (eachWith (R.redactMessage (R.typesOf policy)) msgs
          (RedactionMapping.empty true)).2.seal) := by
    unfold redactMessages
    dsimp only
    rw [effectivePolicy_piiReinject, hreinject, henabled, htypesOf, hempty]
    rfl
  rw [hrun, hmapping]
  exact ⟨htexts, hsealed⟩

theorem redactMessages_of_types_eq_nil {policy : RedactionPolicy}
    (hreinject : policy.piiReinject = true) (htypes : R.typesOf policy = []) (msgs : List Message) :
    R.redactMessages msgs policy = (msgs, RedactionMapping.empty true) := by
  unfold redactMessages
  dsimp only
  rw [effectivePolicy_piiReinject, hreinject, if_pos]
  unfold typesOf at htypes
  split_ifs at htypes with henabled
  · simp [htypes]
  · simp [henabled]

theorem tokened_nil (m : RedactionMapping) (text : Text) :
    R.tokened m [] text = ⟨text, []⟩ ∧ R.foundIn [] text = [] := by
  have hspans : dropOverlaps (R.regexSpans text []) = [] := by
    simp [regexSpans, dropOverlaps, keepFrom]
  unfold tokened foundIn
  rw [hspans]
  exact ⟨rfl, rfl⟩

theorem foundIn_isSome {f : Text × Text} (hf : f ∈ R.foundIn activeTypes text) :
    (R.piiPatterns f.1).isSome := by
  obtain ⟨s, hs, rfl⟩ := List.mem_map.mp hf
  obtain ⟨find, hfind, -⟩ := mem_regexSpans (mem_of_mem_dropOverlaps hs)
  rw [hfind]
  rfl

theorem PlainMatches.foundIn (hplain : R.PlainMatches) {f : Text × Text}
    (hf : f ∈ R.foundIn activeTypes text) : Plain '[' ']' f.2 := by
  obtain ⟨s, hs, rfl⟩ := List.mem_map.mp hf
  obtain ⟨find, hfind, hp⟩ := mem_regexSpans (mem_of_mem_dropOverlaps hs)
  exact hplain s.piiType find hfind text _ hp

theorem issued_mappingOf (hR : R.Sound) {texts : List Text}
    (hP : ∀ text ∈ texts, ∀ f ∈ R.foundIn activeTypes text, P f.2) :
    R.Issued P (R.mappingOf activeTypes texts) := by
  refine Issued.addAll hR (fun f hf ↦ ?_) (issued_empty P)
  obtain ⟨text, htext, hf⟩ := List.mem_flatMap.mp hf
  exact ⟨foundIn_isSome hf, hP text htext f hf⟩

theorem exists_token_mappingOf {texts : List Text} (htext : text ∈ texts) {f : Text × Text}
    (hf : f ∈ R.foundIn activeTypes text) :
    ∃ token, (R.mappingOf activeTypes texts).dedup.lookup f.2 = some token :=
  exists_token_addAll _ (List.mem_flatMap.mpr ⟨text, htext, hf⟩)

theorem built_mappingOf (activeTypes : List Text) (texts : List Text) :
    (R.mappingOf activeTypes texts).Built R.toUnicode true := built_addAll .empty _

theorem valueOf_of_mem (hm : m.Built R.toUnicode true) :
    ∀ rule ∈ m.forward, m.valueOf rule.1 = rule.2 := fun rule hrule ↦ by
  rw [RedactionMapping.valueOf, lookup_of_mem hm.nodup hrule, Option.getD_some]

theorem reinject_tokened (hR : R.Sound) {texts : List Text} (htext : text ∈ texts)
    (h : Tokened.Unambiguous (R.mappingOf activeTypes texts).forward
      (R.tokened (R.mappingOf activeTypes texts) activeTypes text)) :
    (R.mappingOf activeTypes texts).reinject
      (R.tokened (R.mappingOf activeTypes texts) activeTypes text).flat = text := by
  have hbuilt := built_mappingOf (R := R) activeTypes texts
  have hissued : R.Issued (fun _ ↦ True) (R.mappingOf activeTypes texts) :=
    issued_mappingOf hR fun _ _ _ _ ↦ trivial
  have hfound : ∀ f ∈ R.foundIn activeTypes text, ∃ token,
      (R.mappingOf activeTypes texts).dedup.lookup f.2 = some token :=
    fun f hf ↦ exists_token_mappingOf htext hf
  rw [reinject_eq_replaceEach hbuilt, Tokened.replaceEach_flat_of_unambiguous
    (fun rule hrule ↦ (hissued.proper hR rule hrule).1) (valueOf_of_mem hbuilt)
    (tokened_wellFormed hR hissued hfound) (tokened_mem hissued hfound) h]
  exact tokened_original hR hissued hfound

theorem reinject_tokened_iff (hR : R.Sound) (hplain : R.PlainMatches) {texts : List Text}
    (htext : text ∈ texts) :
    (R.mappingOf activeTypes texts).reinject
        (R.tokened (R.mappingOf activeTypes texts) activeTypes text).flat = text ↔
      Tokened.Unambiguous (R.mappingOf activeTypes texts).forward
        (R.tokened (R.mappingOf activeTypes texts) activeTypes text) := by
  have hbuilt := built_mappingOf (R := R) activeTypes texts
  have hissued : R.Issued (Plain '[' ']') (R.mappingOf activeTypes texts) :=
    issued_mappingOf hR fun _ _ _ hf ↦ hplain.foundIn hf
  have hfound : ∀ f ∈ R.foundIn activeTypes text, ∃ token,
      (R.mappingOf activeTypes texts).dedup.lookup f.2 = some token :=
    fun f hf ↦ exists_token_mappingOf htext hf
  have hiff := Tokened.replaceEach_flat_iff (hissued.proper hR) hbuilt.nodup
    (valueOf_of_mem hbuilt) (tokened_wellFormed hR hissued hfound) (tokened_mem hissued hfound)
  rw [tokened_original hR hissued hfound] at hiff
  rw [reinject_eq_replaceEach hbuilt]
  exact hiff

/-- The texts come back one by one. -/
theorem roundTrips_iff_forall (hR : R.Sound) {policy : RedactionPolicy}
    (hreinject : policy.piiReinject = true) (htypes : R.typesOf policy ≠ []) (msgs : List Message) :
    R.RoundTrips policy msgs ↔ ∀ text ∈ msgs.flatMap messageTexts,
      (R.mappingOf (R.typesOf policy) (msgs.flatMap messageTexts)).reinject
        (R.tokened (R.mappingOf (R.typesOf policy) (msgs.flatMap messageTexts))
          (R.typesOf policy) text).flat = text := by
  obtain ⟨htexts, hmapping⟩ := redactMessages_texts hR hreinject htypes msgs
  unfold RoundTrips
  rw [htexts, hmapping, List.map_map]
  constructor
  · intro h text htext
    have hid : (msgs.flatMap messageTexts).map id = msgs.flatMap messageTexts := List.map_id _
    exact List.map_eq_map_iff.mp (h.trans hid.symm) text htext
  · intro h
    conv_rhs => rw [← List.map_id (msgs.flatMap messageTexts)]
    exact List.map_eq_map_iff.mpr h

theorem roundTrips_of_types_eq_nil {policy : RedactionPolicy} (hreinject : policy.piiReinject = true)
    (htypes : R.typesOf policy = []) (msgs : List Message) :
    R.RoundTrips policy msgs ∧ R.NoLiteralToken policy (msgs.flatMap messageTexts) := by
  constructor
  · unfold RoundTrips
    rw [redactMessages_of_types_eq_nil hreinject htypes]
    exact List.map_id _
  · intro text _
    have hfound : (msgs.flatMap messageTexts).flatMap (R.foundIn []) = [] := by
      rw [List.flatMap_eq_nil_iff]
      exact fun text _ ↦ (tokened_nil (RedactionMapping.empty true) text).2
    rw [htypes, mappingOf, hfound]
    trivial

end PIIRedactor

open PIIRedactor

/-- Redaction can be undone when no text has one of the tokens outside its spans at the turn of
that token.  Where the matches have no square brackets, as those of the patterns in use, it
cannot be undone otherwise. -/
theorem roundTrips_iff {R : PIIRedactor} (hR : R.Sound) {policy : RedactionPolicy}
    (hreinject : policy.piiReinject = true) (msgs : List Message) :
    (R.NoLiteralToken policy (msgs.flatMap messageTexts) → R.RoundTrips policy msgs) ∧
      (R.PlainMatches →
        (R.RoundTrips policy msgs ↔ R.NoLiteralToken policy (msgs.flatMap messageTexts))) := by
  by_cases htypes : R.typesOf policy = []
  · obtain ⟨hround, hliteral⟩ := roundTrips_of_types_eq_nil hreinject htypes msgs
    exact ⟨fun _ ↦ hround, fun _ ↦ iff_of_true hround hliteral⟩
  · rw [roundTrips_iff_forall hR hreinject htypes]
    refine ⟨fun h text htext ↦ reinject_tokened hR htext (h text htext), fun hplain ↦ ?_⟩
    exact forall₂_congr fun text htext ↦ reinject_tokened_iff hR hplain htext

theorem dropOverlaps_singleton (s : Span) : dropOverlaps [s] = [s] := by
  have hstart : ¬ (s.start : ℤ) < -1 := by omega
  simp [dropOverlaps, keepFrom, hstart]

/-- A redactor that knows the addresses of two texts. -/
def mailRedactor : PIIRedactor :=
  { asciiUnicode with
    piiPatterns := fun piiType ↦
      if piiType = "email".toList then some fun text ↦
        if text = "mail a@b.io now".toList then [(5, 11)]
        else if text = "[EMAIL_1] is a@b.io".toList then [(13, 19)] else []
      else none
    envDefaultEnabled := false
    envDefaultTypes := [] }

def mailPolicy : RedactionPolicy := ⟨true, true, ["email".toList]⟩

theorem mailRedactor_matches {piiType : Text} {find : Text → List (ℕ × ℕ)}
    (h : mailRedactor.piiPatterns piiType = some find) {text : Text} {p : ℕ × ℕ}
    (hp : p ∈ find text) :
    text = "mail a@b.io now".toList ∧ p = (5, 11) ∨
      text = "[EMAIL_1] is a@b.io".toList ∧ p = (13, 19) := by
  unfold mailRedactor at h
  dsimp only at h
  split_ifs at h
  obtain rfl := Option.some.inj h
  dsimp only at hp
  split_ifs at hp with hfirst hsecond
  · exact .inl ⟨hfirst, List.mem_singleton.mp hp⟩
  · exact .inr ⟨hsecond, List.mem_singleton.mp hp⟩
  · cases hp

theorem mailRedactor_type {piiType : Text} (h : (mailRedactor.piiPatterns piiType).isSome) :
    piiType = "email".toList := by
  unfold mailRedactor at h
  dsimp only at h
  split_ifs at h with heq
  · exact heq
  · cases h

theorem mailRedactor_sound : mailRedactor.Sound where
  bounds h text p hp := by
    rcases mailRedactor_matches h hp with ⟨rfl, rfl⟩ | ⟨rfl, rfl⟩ <;> decide
  plain_upper h := by
    rw [mailRedactor_type h]
    unfold Plain
    decide
  upper_inj h h' _ := by rw [mailRedactor_type h, mailRedactor_type h']

theorem mailRedactor_plainMatches : mailRedactor.PlainMatches := by
  intro piiType find h text p hp
  unfold Plain
  rcases mailRedactor_matches h hp with ⟨rfl, rfl⟩ | ⟨rfl, rfl⟩ <;> decide

/-- An address comes back. -/
theorem roundTrips_address :
    mailRedactor.RoundTrips mailPolicy [[(contentKey, .str "mail a@b.io now".toList)]] ∧
      mailRedactor.NoLiteralToken mailPolicy ["mail a@b.io now".toList] := by
  have h := roundTrips_iff mailRedactor_sound (rfl : mailPolicy.piiReinject = true)
    [[(contentKey, .str "mail a@b.io now".toList)]]
  have hspans : dropOverlaps (mailRedactor.regexSpans "mail a@b.io now".toList
      ["email".toList]) = [⟨5, 11, "email".toList⟩] := dropOverlaps_singleton _
  have hliteral : mailRedactor.NoLiteralToken mailPolicy ["mail a@b.io now".toList] := by
    intro text htext
    obtain rfl := List.mem_singleton.mp htext
    have htypes : mailRedactor.typesOf mailPolicy = ["email".toList] := rfl
    rw [htypes, mappingOf, tokened, List.flatMap_singleton, foundIn, hspans]
    decide +kernel
  have hround := h.1 hliteral
  exact ⟨hround, (h.2 mailRedactor_plainMatches).mp hround⟩

/-- A token that the text has itself comes back as the address. -/
theorem not_roundTrips_literal :
    mailRedactor.Sound ∧ mailPolicy.piiReinject = true ∧
      ¬ mailRedactor.RoundTrips mailPolicy
        [[(contentKey, .str "[EMAIL_1] is a@b.io".toList)]] := by
  refine ⟨mailRedactor_sound, rfl, fun hround ↦ ?_⟩
  rw [roundTrips_iff_forall mailRedactor_sound rfl (by decide)] at hround
  have hspans : dropOverlaps (mailRedactor.regexSpans "[EMAIL_1] is a@b.io".toList
      ["email".toList]) = [⟨13, 19, "email".toList⟩] := dropOverlaps_singleton _
  have htypes : mailRedactor.typesOf mailPolicy = ["email".toList] := rfl
  have h := hround "[EMAIL_1] is a@b.io".toList (by decide +kernel)
  have htexts : ([[(contentKey, .str "[EMAIL_1] is a@b.io".toList)]] : List Message).flatMap
      messageTexts = ["[EMAIL_1] is a@b.io".toList] := rfl
  rw [htypes, htexts, mappingOf, tokened, List.flatMap_singleton, foundIn, hspans] at h
  revert h
  decide +kernel

end Screening
