import Mathlib
import AxonGateway.Lib.PyText

/-!
# Scanning text from the left

A matcher looks at the front of a text and says what it found there; `search` tries it at
every position from the left, the way `re.search` does. `Clear m w r` says that no match
starts inside `w` when `r` follows it, so that a search goes on to `r`.
-/

namespace TextScan

open PyText

variable {α : Type*}

/-! ### Matching at the front -/

/-- Take `k` off the front. -/
def expect : List Char → List Char → Option (List Char)
  | [], cs => some cs
  | _ :: _, [] => none
  | k :: ks, c :: cs => if k = c then expect ks cs else none

theorem expect_eq_some {k cs r : List Char} : expect k cs = some r ↔ cs = k ++ r := by
  induction k generalizing cs with
  | nil => simp [expect, eq_comm]
  | cons x ks ih =>
      cases cs with
      | nil => simp [expect]
      | cons c cs =>
          by_cases hx : x = c
          · subst hx
            simp [expect, ih]
          · simp [expect, hx, Ne.symm hx]

@[simp] theorem expect_append (k r : List Char) : expect k (k ++ r) = some r :=
  expect_eq_some.mpr rfl

theorem expect_head_ne {k c : Char} (h : k ≠ c) (ks cs : List Char) :
    expect (k :: ks) (c :: cs) = none := by
  simp [expect, h]

/-- The text before the first `stop`, and the text after it. -/
def before (stop : Char) : List Char → Option (List Char × List Char)
  | [] => none
  | c :: cs => if c = stop then some ([], cs) else (before stop cs).map fun p ↦ (c :: p.1, p.2)

theorem before_append {stop : Char} {w : List Char} (h : stop ∉ w) (r : List Char) :
    before stop (w ++ stop :: r) = some (w, r) := by
  induction w with
  | nil => simp [before]
  | cons c w ih =>
      rw [List.mem_cons, not_or] at h
      simp [before, Ne.symm h.1, ih h.2]

/-- The parts of a text between the doubled characters, as `str.split` gives them. -/
def splitDouble (x : Char) : List Char → List (List Char)
  | [] => [[]]
  | [c] => [[c]]
  | c :: d :: cs =>
    if c = x ∧ d = x then [] :: splitDouble x cs
    else
      match splitDouble x (d :: cs) with
      | [] => [[c]]
      | p :: ps => (c :: p) :: ps

/-- The character does not stand twice in a row. -/
def NoDouble (x : Char) (w : List Char) : Prop := w.IsChain fun c d ↦ ¬(c = x ∧ d = x)

theorem noDouble_of_not_mem {x : Char} {w : List Char} (h : x ∉ w) : NoDouble x w := by
  induction w with
  | nil => exact List.isChain_nil
  | cons c w ih =>
      rw [List.mem_cons, not_or] at h
      cases w with
      | nil => exact List.isChain_singleton c
      | cons d w => exact List.isChain_cons_cons.mpr ⟨fun hcd ↦ h.1 hcd.1.symm, ih h.2⟩

/-- Text without the character can be put on either side. -/
theorem NoDouble.pad {x : Char} {v w w' : List Char} (hv : NoDouble x v) (hw : x ∉ w)
    (hw' : x ∉ w') : NoDouble x (w ++ v ++ w') := by
  refine List.isChain_append.mpr ⟨List.isChain_append.mpr ⟨noDouble_of_not_mem hw, hv, ?_⟩,
    noDouble_of_not_mem hw', ?_⟩
  · rintro c hc d - ⟨rfl, -⟩
    exact hw (List.mem_of_getLast? hc)
  · rintro c - d hd ⟨-, rfl⟩
    exact hw' (List.mem_of_head? hd)

theorem splitDouble_cons {x c d : Char} {cs p : List Char} {ps : List (List Char)}
    (h : ¬(c = x ∧ d = x)) (hs : splitDouble x (d :: cs) = p :: ps) :
    splitDouble x (c :: d :: cs) = (c :: p) :: ps := by
  rw [splitDouble, if_neg h, hs]

theorem splitDouble_noDouble {x : Char} {w : List Char} (h : NoDouble x w) :
    splitDouble x w = [w] := by
  induction w with
  | nil => rfl
  | cons c w ih =>
      cases w with
      | nil => rfl
      | cons d w =>
          obtain ⟨hcd, htail⟩ := List.isChain_cons_cons.mp h
          exact splitDouble_cons hcd (ih htail)

theorem splitDouble_append {x : Char} {w : List Char} (h : NoDouble x w)
    (hlast : w.getLast? ≠ some x) (r : List Char) :
    splitDouble x (w ++ x :: x :: r) = w :: splitDouble x r := by
  induction w with
  | nil => simp [splitDouble]
  | cons c w ih =>
      cases w with
      | nil =>
          have hc : c ≠ x := fun hc ↦ hlast (by simp [hc])
          apply splitDouble_cons (by simp [hc])
          simp [splitDouble]
      | cons d w =>
          obtain ⟨hcd, htail⟩ := List.isChain_cons_cons.mp h
          exact splitDouble_cons hcd (ih htail (by rwa [List.getLast?_cons_cons] at hlast))

/-! ### White space -/

/-- Only white space. -/
def Gap (w : List Char) : Prop := ∀ c ∈ w, isSpace c = true

theorem gap_nil : Gap [] := fun _ h ↦ absurd h (by simp)

theorem Gap.not_mem {w : List Char} (hw : Gap w) {c : Char} (hc : isSpace c = false) : c ∉ w :=
  fun h ↦ by simp [hw c h] at hc

def skip (cs : List Char) : List Char := cs.dropWhile isSpace

theorem skip_gap {w : List Char} (hw : Gap w) {c : Char} (hc : isSpace c = false)
    (r : List Char) : skip (w ++ c :: r) = c :: r := by
  rw [skip, List.dropWhile_append_of_pos hw, List.dropWhile_cons_of_neg (by simp [hc])]

@[simp] theorem skip_cons {c : Char} (hc : isSpace c = false) (r : List Char) :
    skip (c :: r) = c :: r := skip_gap gap_nil hc r

/-- A text splits into the white space `skip` drops and what it leaves. -/
theorem skip_split (cs : List Char) : ∃ w, Gap w ∧ cs = w ++ skip cs :=
  ⟨cs.takeWhile isSpace, fun _ h ↦ List.mem_takeWhile_imp h, by simp [skip]⟩

/-- `str.strip`. -/
def strip (cs : List Char) : List Char := (skip cs).rdropWhile isSpace

theorem rdropWhile_append_pos {p : Char → Bool} {w : List Char} (hw : ∀ c ∈ w, p c = true)
    (l : List Char) : (l ++ w).rdropWhile p = l.rdropWhile p := by
  induction w using List.reverseRecOn with
  | nil => simp
  | append_singleton w c ih =>
      rw [← List.append_assoc, List.rdropWhile_concat_pos _ _ _ (hw c (by simp))]
      exact ih fun d hd ↦ hw d (by simp [hd])

theorem rdropWhile_append_last {p : Char → Bool} {w : List Char} (hw : ∀ c ∈ w, p c = true)
    (l : List Char) {c : Char} (hc : p c = false) : (l ++ c :: w).rdropWhile p = l ++ [c] := by
  have hsplit : l ++ c :: w = (l ++ [c]) ++ w := by simp
  rw [hsplit, rdropWhile_append_pos hw, List.rdropWhile_concat_neg _ _ _ (by simp [hc])]

/-- A text that starts and ends in other characters comes out of its padding. -/
theorem strip_pad {w w' : List Char} (hw : Gap w) (hw' : Gap w') {c d : Char}
    (hc : isSpace c = false) (hd : isSpace d = false) {x l r : List Char}
    (hl : x = c :: r) (hr : x = l ++ [d]) : strip (w ++ x ++ w') = x := by
  have hskip : skip (w ++ x ++ w') = x ++ w' := by
    rw [hl, List.append_assoc, List.cons_append, skip_gap hw hc]
  rw [strip, hskip, rdropWhile_append_pos hw', hr, List.rdropWhile_concat_neg _ _ _ (by simp [hd])]

/-! ### Searching -/

/-- `re.search`: the match at the leftmost position where there is one. -/
def search (m : List Char → Option α) : List Char → Option α
  | [] => m []
  | c :: cs => (m (c :: cs)).or (search m cs)

theorem search_of_match {m : List Char → Option α} {cs : List Char} {a : α}
    (h : m cs = some a) : search m cs = some a := by
  cases cs with
  | nil => exact h
  | cons c cs => simp [search, h]

/-- No match starts inside `w` when `r` follows. -/
def Clear (m : List Char → Option α) : List Char → List Char → Prop
  | [], _ => True
  | c :: w, r => m (c :: (w ++ r)) = none ∧ Clear m w r

theorem search_clear {m : List Char → Option α} {w r : List Char} (h : Clear m w r) :
    search m (w ++ r) = search m r := by
  induction w with
  | nil => rfl
  | cons c w ih =>
      rw [List.cons_append, search, h.1, ih h.2]
      rfl

theorem clear_append {m : List Char → Option α} {w w' r : List Char} :
    Clear m (w ++ w') r ↔ Clear m w (w' ++ r) ∧ Clear m w' r := by
  induction w with
  | nil => simp [Clear]
  | cons c w ih =>
      simp only [List.cons_append, Clear, List.append_assoc, ih, and_assoc]

theorem clear_of_forall {m : List Char → Option α} {w r : List Char}
    (h : ∀ u c v, w = u ++ c :: v → m (c :: (v ++ r)) = none) : Clear m w r := by
  induction w with
  | nil => trivial
  | cons c w ih =>
      refine ⟨h [] c w rfl, ih fun u d v hw ↦ h (c :: u) d v ?_⟩
      rw [hw, List.cons_append]

/-- A matcher that needs a first character finds nothing where that character is absent. -/
theorem clear_of_head {m : List Char → Option α} {k : Char}
    (hm : ∀ c cs, c ≠ k → m (c :: cs) = none) {w : List Char} (hw : k ∉ w) (r : List Char) :
    Clear m w r :=
  clear_of_forall fun u c v h ↦ hm c _ fun hc ↦ hw (by rw [h, hc]; simp)

theorem search_eq_none {m : List Char → Option α} {w : List Char} (h : Clear m w [])
    (hnil : m [] = none) : search m w = none := by
  have := search_clear h
  rwa [List.append_nil, search, hnil] at this

/-! ### Keywords before an opening brace -/

/-- The keyword, white space and `{`, and the text after the brace. -/
def opens (key cs : List Char) : Option (List Char) :=
  (expect key cs).bind fun r ↦ expect ['{'] (skip r)

theorem opens_eq_some {key cs r : List Char} :
    opens key cs = some r ↔ ∃ w, Gap w ∧ cs = key ++ (w ++ '{' :: r) := by
  constructor
  · intro h
    obtain ⟨u, hu, hr⟩ := Option.bind_eq_some_iff.mp h
    obtain ⟨w, hw, hsplit⟩ := skip_split u
    refine ⟨w, hw, ?_⟩
    rw [expect_eq_some.mp hu, hsplit, expect_eq_some.mp hr]
    simp
  · rintro ⟨w, hw, rfl⟩
    simp [opens, skip_gap hw (c := '{') rfl, expect]

/-- The keyword never opens a block inside `w`. -/
def KeyFree (key w : List Char) : Prop := ∀ u v, w = u ++ v → opens key v = none

theorem keyFree_of_not_mem {key w : List Char} (h : '{' ∉ w) : KeyFree key w := by
  intro u v hw
  rw [Option.eq_none_iff_forall_ne_some]
  intro r hr
  obtain ⟨g, -, hv⟩ := opens_eq_some.mp hr
  apply h
  rw [hw, hv]
  simp

/-- A character that can stand neither in the keyword nor in the gap nor be the brace. -/
def Stop (key : List Char) (c : Char) : Prop := c ∉ key ∧ isSpace c = false ∧ c ≠ '{'

theorem opens_stop {key : List Char} {c : Char} (hc : Stop key c) {v r : List Char}
    (hv : opens key v = none) : opens key (v ++ c :: r) = none := by
  rw [Option.eq_none_iff_forall_ne_some]
  intro x hx
  obtain ⟨w, hw, hsplit⟩ := opens_eq_some.mp hx
  -- The stop character stands after the brace, so that the match lies in `v`.
  have hout : c ∉ key ++ w := by
    rw [List.mem_append, not_or]
    exact ⟨hc.1, hw.not_mem hc.2.1⟩
  rw [← List.append_assoc] at hsplit
  obtain ⟨a, ha, ha'⟩ | ⟨a, ha, ha'⟩ := List.append_eq_append_iff.mp hsplit
  · cases a with
    | nil => exact hc.2.2 (List.cons.inj ha').1
    | cons d a =>
        apply hout
        rw [ha, (List.cons.inj ha').1]
        simp
  · cases a with
    | nil => exact hc.2.2 (List.cons.inj ha').1.symm
    | cons d a =>
        have hsome : opens key v = some a := by
          rw [opens_eq_some]
          refine ⟨w, hw, ?_⟩
          rw [ha, (List.cons.inj ha').1, List.append_assoc]
        rw [hsome] at hv
        simp at hv

theorem clear_keyFree {key w : List Char} (hw : KeyFree key w) {c : Char} (hc : Stop key c)
    (r : List Char) : Clear (opens key) w (c :: r) :=
  clear_of_forall fun u d v h ↦ by
    rw [← List.cons_append]
    exact opens_stop hc (hw u (d :: v) h)

/-- A stop character cuts a text in two parts that are looked at apart. -/
theorem clear_cut {key w w' r : List Char} (hw : KeyFree key w) {c : Char} (hc : Stop key c)
    (h : Clear (opens key) w' r) : Clear (opens key) (w ++ c :: w') r := by
  have hnil : opens key [] = none := hw w [] (by simp)
  exact clear_append.mpr ⟨clear_keyFree hw hc _, opens_stop (v := []) hc hnil, h⟩

/-- Where a text is followed by a brace, only the keyword in front of it can match. -/
theorem clear_brace {key w : List Char} (hkey : '{' ∉ key) (hx : '{' ∉ w) {c d : Char}
    {k l g : List Char} (hk : key = k ++ [c]) (hc : isSpace c = false) (hw : w = l ++ d :: g)
    (hd : isSpace d = false) (hg : Gap g) (hcd : c ≠ d) (x : List Char) :
    Clear (opens key) w ('{' :: x) := by
  refine clear_of_forall fun u e v h ↦ ?_
  rw [Option.eq_none_iff_forall_ne_some]
  intro r hr
  obtain ⟨b, hb, hsplit⟩ := opens_eq_some.mp hr
  -- Both sides end at their first brace, so that the keyword ends the text.
  have hleft : '{' ∉ e :: v := fun hmem ↦ hx (h ▸ List.mem_append_right _ hmem)
  have hright : '{' ∉ key ++ b := by
    rw [List.mem_append, not_or]
    exact ⟨hkey, hb.not_mem rfl⟩
  have hfirst := before_append hleft x
  rw [List.cons_append, hsplit, ← List.append_assoc, before_append hright] at hfirst
  have hkv : key ++ b = e :: v := congrArg Prod.fst (Option.some.inj hfirst)
  have hlast : (w.rdropWhile isSpace).getLast? = some d := by
    rw [hw, rdropWhile_append_last hg _ hd]
    simp
  rw [h, ← hkv, ← List.append_assoc, rdropWhile_append_pos hb, hk, ← List.append_assoc,
    List.rdropWhile_concat_neg _ _ _ (by simp [hc]), List.getLast?_concat] at hlast
  exact hcd (Option.some.inj hlast)

end TextScan
