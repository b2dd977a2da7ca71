import AxonGateway.Lib.Replace

/-!
# Bracketed words

A bracketed word is an opening bracket, letters that are no brackets, and a closing bracket.  Two
occurrences of bracketed words in a text are the same or share nothing.  Where bracketed words are
replaced by texts without brackets, each replacement takes one pair of brackets away.
-/

namespace Replace

open Relation

variable {α : Type} {opening closing : α}

/-- A text without brackets. -/
def Plain (opening closing : α) (w : List α) : Prop := opening ∉ w ∧ closing ∉ w

def Bracketed (opening closing : α) (t : List α) : Prop :=
  ∃ w, Plain opening closing w ∧ t = opening :: (w ++ [closing])

/-- A bracketed word and a text without brackets that stands for it. -/
def Proper (opening closing : α) (rule : List α × List α) : Prop :=
  Bracketed opening closing rule.1 ∧ Plain opening closing rule.2

theorem Bracketed.ne_nil {t : List α} (h : Bracketed opening closing t) : t ≠ [] := by
  obtain ⟨w, -, rfl⟩ := h
  exact List.cons_ne_nil _ _

/-- What follows the first character has no opening bracket. -/
theorem Bracketed.opening_not_mem (hne : opening ≠ closing) {a b : List α}
    (h : Bracketed opening closing (a ++ b)) (ha : a ≠ []) : opening ∉ b := by
  obtain ⟨w, hw, heq⟩ := h
  cases a with
  | nil => exact absurd rfl ha
  | cons x a =>
      have htail : a ++ b = w ++ [closing] := (List.cons.inj heq).2
      intro hmem
      have hmem' : opening ∈ w ++ [closing] := htail ▸ List.mem_append_right a hmem
      rcases List.mem_append.mp hmem' with hmem' | hmem'
      · exact hw.1 hmem'
      · exact hne (List.mem_singleton.mp hmem')

/-- What precedes the last character has no closing bracket. -/
theorem Bracketed.closing_not_mem (hne : opening ≠ closing) {a b : List α}
    (h : Bracketed opening closing (a ++ b)) (hb : b ≠ []) : closing ∉ a := by
  obtain ⟨w, hw, heq⟩ := h
  obtain ⟨b, y, rfl⟩ := (List.eq_nil_or_concat' b).resolve_left hb
  have hinit : a ++ b = opening :: w := by
    rw [← List.cons_append, ← List.append_assoc] at heq
    exact List.append_inj_left' heq rfl
  intro hmem
  have hmem' : closing ∈ opening :: w := hinit ▸ List.mem_append_left b hmem
  rcases List.mem_cons.mp hmem' with hmem' | hmem'
  · exact hne hmem'.symm
  · exact hw.2 hmem'

theorem Bracketed.exists_cons {t : List α} (h : Bracketed opening closing t) :
    ∃ t', t = opening :: t' := by
  obtain ⟨w, -, rfl⟩ := h
  exact ⟨_, rfl⟩

theorem Bracketed.exists_append {t : List α} (h : Bracketed opening closing t) :
    ∃ t', t = t' ++ [closing] := by
  obtain ⟨w, -, rfl⟩ := h
  exact ⟨opening :: w, rfl⟩

/-- A bracketed word is not inside another one. -/
theorem Bracketed.eq_of_infix (hne : opening ≠ closing) {t s : List α}
    (ht : Bracketed opening closing t) (hs : Bracketed opening closing s) (h : t <:+: s) :
    t = s := by
  obtain ⟨a, b, rfl⟩ := h
  obtain ⟨t', ht'⟩ := ht.exists_cons
  obtain ⟨t'', ht''⟩ := ht.exists_append
  have ha : a = [] := by
    by_contra ha
    rw [List.append_assoc] at hs
    exact hs.opening_not_mem hne ha (by simp [ht'])
  have hb : b = [] := by
    by_contra hb
    exact hs.closing_not_mem hne hb (by simp [ht''])
  simp [ha, hb]

/-- No occurrence straddles the end of a bracketed word. -/
theorem not_straddles_closing (hne : opening ≠ closing) {t : List α}
    (ht : Bracketed opening closing t) (u v : List α) : ¬ Straddles t (u ++ [closing]) v := by
  intro h
  obtain ⟨a, b, ha, hb, rfl, hu, -⟩ := straddles_iff.mp h
  obtain ⟨a, y, rfl⟩ := (List.eq_nil_or_concat' a).resolve_left ha
  obtain ⟨z, hz⟩ := hu
  rw [← List.append_assoc] at hz
  have hy : [y] = [closing] := List.append_inj_right' hz rfl
  refine ht.closing_not_mem hne hb (List.mem_append_right a ?_)
  rw [hy]
  exact List.mem_singleton_self closing

/-- No occurrence straddles the start of a bracketed word. -/
theorem not_straddles_opening (hne : opening ≠ closing) {t : List α}
    (ht : Bracketed opening closing t) (u v : List α) : ¬ Straddles t u (opening :: v) := by
  intro h
  obtain ⟨a, b, ha, hb, rfl, -, hv⟩ := straddles_iff.mp h
  obtain ⟨y, b, rfl⟩ := List.exists_cons_of_ne_nil hb
  obtain ⟨z, hz⟩ := hv
  have hy : y = opening := (List.cons.inj hz).1
  refine ht.opening_not_mem hne ha ?_
  rw [hy]
  exact List.mem_cons_self

/-! ### Steps -/

/-- One occurrence of a word is replaced. -/
def Step (rules : List (List α × List α)) (x y : List α) : Prop :=
  ∃ rule ∈ rules, ∃ a b, x = a ++ rule.1 ++ b ∧ y = a ++ rule.2 ++ b

abbrev Reduces (rules : List (List α × List α)) : List α → List α → Prop :=
  ReflTransGen (Step rules)

section Steps

variable {rules rules' : List (List α × List α)} {x y z : List α}

theorem Step.mono (h : Step rules x y) (hsub : rules ⊆ rules') : Step rules' x y := by
  obtain ⟨rule, hrule, a, b, hx, hy⟩ := h
  exact ⟨rule, hsub hrule, a, b, hx, hy⟩

theorem Reduces.mono (h : Reduces rules x y) (hsub : rules ⊆ rules') : Reduces rules' x y :=
  ReflTransGen.mono (fun _ _ hs ↦ Step.mono hs hsub) _ _ h

theorem Step.around (h : Step rules x y) (u v : List α) :
    Step rules (u ++ x ++ v) (u ++ y ++ v) := by
  obtain ⟨rule, hrule, a, b, rfl, rfl⟩ := h
  exact ⟨rule, hrule, u ++ a, b ++ v, by simp, by simp⟩

theorem Reduces.around (h : Reduces rules x y) (u v : List α) :
    Reduces rules (u ++ x ++ v) (u ++ y ++ v) := by
  induction h with
  | refl => exact .refl
  | tail _ hs ih => exact ih.tail (hs.around u v)

theorem Reduces.append (h : Reduces rules x y) {x' y' : List α} (h' : Reduces rules x' y') :
    Reduces rules (x ++ x') (y ++ y') := by
  have hleft := h.around [] x'
  have hright := h'.around y []
  simp only [List.nil_append, List.append_nil] at hleft hright
  exact hleft.trans hright

end Steps

section Counting

variable [DecidableEq α] {rules : List (List α × List α)} {x y z : List α}

theorem Step.count (hne : opening ≠ closing) (hrules : ∀ rule ∈ rules, Proper opening closing rule)
    (h : Step rules x y) :
    x.count opening = y.count opening + 1 ∧ x.count closing = y.count closing + 1 := by
  obtain ⟨rule, hrule, a, b, rfl, rfl⟩ := h
  obtain ⟨⟨w, hw, ht⟩, hplain⟩ := hrules rule hrule
  simp [ht, List.count_append, List.count_eq_zero_of_not_mem hw.1,
    List.count_eq_zero_of_not_mem hw.2, List.count_eq_zero_of_not_mem hplain.1,
    List.count_eq_zero_of_not_mem hplain.2, hne, hne.symm]
  omega

theorem Reduces.count (hne : opening ≠ closing)
    (hrules : ∀ rule ∈ rules, Proper opening closing rule) (h : Reduces rules x y) :
    y.count opening ≤ x.count opening ∧
      x.count opening + y.count closing = y.count opening + x.count closing ∧
        (y.count opening = x.count opening → x = y) := by
  induction h with
  | refl => exact ⟨le_rfl, rfl, fun _ ↦ rfl⟩
  | tail _ hs ih =>
      obtain ⟨hle, hbal, -⟩ := ih
      obtain ⟨ho, hc⟩ := hs.count hne hrules
      refine ⟨by omega, by omega, fun h ↦ by omega⟩

/-- Of two reductions in a row none does anything when they lead back to the start. -/
theorem Reduces.eq_iff (hne : opening ≠ closing)
    (hrules : ∀ rule ∈ rules, Proper opening closing rule) (hxy : Reduces rules x y)
    (hyz : Reduces rules y z) : x = z ↔ x = y ∧ y = z := by
  obtain ⟨hle, -, heq⟩ := hxy.count hne hrules
  obtain ⟨hle', -, heq'⟩ := hyz.count hne hrules
  constructor
  · rintro rfl
    have hcount := le_antisymm hle hle'
    exact ⟨heq hcount, heq' hcount.symm⟩
  · rintro ⟨rfl, rfl⟩
    rfl

theorem Reduces.append_eq_iff (hne : opening ≠ closing)
    (hrules : ∀ rule ∈ rules, Proper opening closing rule) (h : Reduces rules x y)
    {x' y' : List α} (h' : Reduces rules x' y') : x ++ x' = y ++ y' ↔ x = y ∧ x' = y' := by
  have hfirst : Reduces rules (x ++ x') (y ++ x') := h.append .refl
  have hsecond : Reduces rules (y ++ x') (y ++ y') := Reduces.append .refl h'
  rw [hfirst.eq_iff hne hrules hsecond, List.append_cancel_right_eq, List.append_cancel_left_eq]

theorem Step.ne (hne : opening ≠ closing) (hrules : ∀ rule ∈ rules, Proper opening closing rule)
    (h : Step rules x y) (hyz : Reduces rules y z) : x ≠ z := by
  rintro rfl
  have hle := (hyz.count hne hrules).1
  have hlt := (h.count hne hrules).1
  omega

end Counting

/-! ### Replacing a bracketed word -/

section Bracketed

variable [DecidableEq α] {rules : List (List α × List α)} {t n s u v x y : List α}

theorem replaceAll_around (hne : opening ≠ closing) (ht : Bracketed opening closing t)
    (hs : Bracketed opening closing s) (u v : List α) :
    replaceAll t n (u ++ s ++ v) = replaceAll t n u ++ replaceAll t n s ++ replaceAll t n v := by
  have hbefore : ¬ Straddles t u s := by
    obtain ⟨s', rfl⟩ := hs.exists_cons
    exact not_straddles_opening hne ht u s'
  have hafter : ¬ Straddles t (u ++ s) v := by
    obtain ⟨s', rfl⟩ := hs.exists_append
    rw [← List.append_assoc]
    exact not_straddles_closing hne ht (u ++ s') v
  rw [replaceAll_append ht.ne_nil hafter, replaceAll_append ht.ne_nil hbefore]

theorem replaceAll_bracketed_of_ne (hne : opening ≠ closing) (ht : Bracketed opening closing t)
    (hs : Bracketed opening closing s) (h : s ≠ t) : replaceAll t n s = s :=
  replaceAll_of_absent ht.ne_nil fun hi ↦ h (ht.eq_of_infix hne hs hi).symm

theorem replaceAll_plain (ht : Bracketed opening closing t) {w : List α}
    (hw : opening ∉ w ∨ closing ∉ w) : replaceAll t n w = w := by
  apply replaceAll_of_absent ht.ne_nil
  intro hi
  obtain ⟨w', -, rfl⟩ := ht
  rcases hw with hw | hw
  · exact hw (hi.subset List.mem_cons_self)
  · exact hw (hi.subset (by simp))

theorem reduces_replaceAll (ht : t ≠ []) (x : List α) :
    Reduces [(t, n)] x (replaceAll t n x) := by
  induction hlen : x.length using Nat.strong_induction_on generalizing x with
  | _ k ih =>
    cases x with
    | nil => rw [replaceAll_nil ht]
    | cons a x =>
        by_cases hstart : t <+: a :: x
        · obtain ⟨w, hw⟩ := hstart
          have hlt : w.length < k := by
            have hpos := List.length_pos_of_ne_nil ht
            have := congrArg List.length hw
            rw [List.length_append] at this
            omega
          rw [← hw, replaceAll_old_append ht]
          have hstep : Step [(t, n)] (t ++ w) (n ++ w) :=
            ⟨(t, n), List.mem_singleton_self _, [], w, rfl, rfl⟩
          exact ReflTransGen.head hstep (Reduces.append .refl (ih w.length hlt w rfl))
        · rw [replaceAll_cons ht hstart]
          have hrest := ih x.length (by simp [← hlen]) x rfl
          have haround := hrest.around [a] []
          rwa [List.append_nil, List.append_nil] at haround

theorem replaceAll_eq_self_iff (hne : opening ≠ closing) (ht : Bracketed opening closing t)
    (hn : Plain opening closing n) : replaceAll t n x = x ↔ ¬ t <:+: x := by
  constructor
  · rintro h ⟨u, v, rfl⟩
    have hstep : Step [(t, n)] (u ++ t ++ v) (u ++ n ++ v) :=
      ⟨(t, n), List.mem_singleton_self _, u, v, rfl, rfl⟩
    have hrest : Reduces [(t, n)] (u ++ n ++ v) (replaceAll t n (u ++ t ++ v)) := by
      rw [replaceAll_around hne ht ht, replaceAll_self ht.ne_nil]
      exact ((reduces_replaceAll ht.ne_nil u).append .refl).append (reduces_replaceAll ht.ne_nil v)
    refine hstep.ne hne (fun rule hrule ↦ ?_) hrest h.symm
    rw [List.mem_singleton.mp hrule]
    exact ⟨ht, hn⟩
  · exact replaceAll_of_absent ht.ne_nil

/-- An occurrence that straddles a cut is missed by the replacements on both sides of it. -/
theorem step_of_straddles (hne : opening ≠ closing) (ht : Bracketed opening closing t)
    (h : Straddles t u v) :
    Step [(t, n)] (replaceAll t n u ++ replaceAll t n v) (replaceAll t n (u ++ v)) := by
  obtain ⟨a, b, ha, hb, rfl, ⟨u, rfl⟩, ⟨v, rfl⟩⟩ := straddles_iff.mp h
  have hleft : replaceAll (a ++ b) n (u ++ a) = replaceAll (a ++ b) n u ++ a := by
    obtain ⟨a', ha'⟩ : ∃ a', a = opening :: a' := by
      obtain ⟨t', ht'⟩ := ht.exists_cons
      cases a with
      | nil => exact absurd rfl ha
      | cons y a => exact ⟨a, by rw [(List.cons.inj ht').1]⟩
    have hcut : ¬ Straddles (a ++ b) u a := by
      rw [ha']
      exact not_straddles_opening hne (ha' ▸ ht) u a'
    rw [replaceAll_append ht.ne_nil hcut,
      replaceAll_plain ht (.inr (ht.closing_not_mem hne hb))]
  have hright : replaceAll (a ++ b) n (b ++ v) = b ++ replaceAll (a ++ b) n v := by
    obtain ⟨b', hb'⟩ : ∃ b', b = b' ++ [closing] := by
      obtain ⟨t', ht'⟩ := ht.exists_append
      obtain ⟨b', y, rfl⟩ := (List.eq_nil_or_concat' b).resolve_left hb
      rw [← List.append_assoc] at ht'
      exact ⟨b', by rw [List.append_inj_right' ht' rfl]⟩
    have hcut : ¬ Straddles (a ++ b) b v := by
      rw [hb']
      exact not_straddles_closing hne (hb' ▸ ht) b' v
    rw [replaceAll_append ht.ne_nil hcut,
      replaceAll_plain ht (.inl (ht.opening_not_mem hne ha))]
  have hwhole : u ++ a ++ (b ++ v) = u ++ (a ++ b) ++ v := by simp
  rw [hleft, hright, hwhole, replaceAll_around hne ht ht, replaceAll_self ht.ne_nil]
  exact ⟨(a ++ b, n), List.mem_singleton_self _, _, _, by simp, rfl⟩

theorem reduces_append (hne : opening ≠ closing) (ht : Bracketed opening closing t)
    (u v : List α) :
    Reduces [(t, n)] (replaceAll t n u ++ replaceAll t n v) (replaceAll t n (u ++ v)) := by
  by_cases h : Straddles t u v
  · exact .single (step_of_straddles hne ht h)
  · rw [replaceAll_append ht.ne_nil h]

theorem reduces_flatten (hne : opening ≠ closing) (ht : Bracketed opening closing t)
    (pieces : List (List α)) :
    Reduces [(t, n)] (pieces.map (replaceAll t n)).flatten (replaceAll t n pieces.flatten) := by
  induction pieces with
  | nil =>
      rw [List.map_nil, List.flatten_nil, replaceAll_nil ht.ne_nil]
  | cons p pieces ih =>
      rw [List.map_cons, List.flatten_cons, List.flatten_cons]
      exact (Reduces.append .refl ih).trans (reduces_append hne ht p pieces.flatten)

theorem map_replaceAll_flatten_iff (hne : opening ≠ closing) (ht : Bracketed opening closing t)
    (hn : Plain opening closing n) (pieces : List (List α)) :
    (pieces.map (replaceAll t n)).flatten = replaceAll t n pieces.flatten ↔ Uncut t pieces := by
  constructor
  · intro h k _ hs
    have hproper : ∀ rule ∈ [(t, n)], Proper opening closing rule := by
      simpa using ⟨ht, hn⟩
    have hsplit : (pieces.map (replaceAll t n)).flatten =
        ((pieces.take k).map (replaceAll t n)).flatten ++
          ((pieces.drop k).map (replaceAll t n)).flatten := by
      rw [← List.flatten_append, ← List.map_append, List.take_append_drop]
    have hflat : pieces.flatten = (pieces.take k).flatten ++ (pieces.drop k).flatten := by
      rw [← List.flatten_append, List.take_append_drop]
    have hparts := (reduces_flatten hne ht (n := n) (pieces.take k)).append
      (reduces_flatten hne ht (n := n) (pieces.drop k))
    have hstep := step_of_straddles (n := n) hne ht hs
    rw [← hsplit] at hparts
    rw [← hflat] at hstep
    have hparts' := ((hparts.eq_iff hne hproper (.single hstep)).mp h).2
    exact hstep.ne hne hproper .refl hparts'
  · exact map_replaceAll_flatten ht.ne_nil

/-- A replacement of one word leaves the steps with other words possible. -/
theorem Step.replaceAll (hne : opening ≠ closing)
    (hrules : ∀ rule ∈ rules, Proper opening closing rule) (ht : Bracketed opening closing t)
    (hnew : ∀ rule ∈ rules, rule.1 ≠ t) (h : Step rules x y) :
    ∃ z, Step rules (Replace.replaceAll t n x) z ∧
      Reduces [(t, n)] z (Replace.replaceAll t n y) := by
  obtain ⟨rule, hrule, u, v, rfl, rfl⟩ := h
  obtain ⟨hs, hplain⟩ := hrules rule hrule
  refine ⟨Replace.replaceAll t n u ++ rule.2 ++ Replace.replaceAll t n v,
    ⟨rule, hrule, Replace.replaceAll t n u, Replace.replaceAll t n v, ?_, rfl⟩, ?_⟩
  · rw [replaceAll_around hne ht hs, replaceAll_bracketed_of_ne hne ht hs (hnew rule hrule)]
  · have hmiddle : Replace.replaceAll t n rule.2 = rule.2 := replaceAll_plain ht (.inl hplain.1)
    have hleft := reduces_append hne ht (n := n) u rule.2
    rw [hmiddle] at hleft
    exact (hleft.append .refl).trans (reduces_append hne ht (u ++ rule.2) v)

theorem Reduces.replaceAll (hne : opening ≠ closing)
    (hrules : ∀ rule ∈ rules, Proper opening closing rule) (ht : Bracketed opening closing t)
    (hn : Plain opening closing n) (hnew : ∀ rule ∈ rules, rule.1 ≠ t) (h : Reduces rules x y) :
    Reduces ((t, n) :: rules) (Replace.replaceAll t n x) (Replace.replaceAll t n y) ∧
      (Replace.replaceAll t n x = Replace.replaceAll t n y → x = y) := by
  have hsub : [(t, n)] ⊆ (t, n) :: rules := by simp
  have hproper : ∀ rule ∈ (t, n) :: rules, Proper opening closing rule := by
    simpa using ⟨⟨ht, hn⟩, fun a b ↦ hrules (a, b)⟩
  induction h using ReflTransGen.head_induction_on with
  | refl => exact ⟨.refl, fun _ ↦ rfl⟩
  | head hs _ ih =>
      obtain ⟨z, hz, hrest⟩ := hs.replaceAll (n := n) hne hrules ht hnew
      have hz' := hz.mono (List.subset_cons_self (t, n) rules)
      have hrest' := (hrest.mono hsub).trans ih.1
      exact ⟨.head hz' hrest', fun heq ↦ absurd heq (hz'.ne hne hproper hrest')⟩

end Bracketed

/-! ### Replacing a list of words -/

section Stages

variable [DecidableEq α] {σ : Type} (flat : σ → List α) (next : List α × List α → σ → σ)

/-- At every stage the replacement in the parts of `s` is the one in the whole text. -/
def Exact : List (List α × List α) → σ → Prop
  | [], _ => True
  | rule :: rules, s =>
      flat (next rule s) = replaceAll rule.1 rule.2 (flat s) ∧ Exact rules (next rule s)

variable {flat next} {rules done : List (List α × List α)} {s : σ}

theorem replaceEach_of_exact (h : Exact flat next rules s) :
    flat (rules.foldl (fun s rule ↦ next rule s) s) = replaceEach rules (flat s) := by
  induction rules generalizing s with
  | nil => rfl
  | cons rule rules ih =>
      obtain ⟨hrule, hrest⟩ := h
      rw [List.foldl_cons, ih hrest, hrule]
      rfl

/-- A stage at which the parts fall behind the whole text is not made up for later. -/
theorem exact_of_reduces (flat : σ → List α) (next : List α × List α → σ → σ) (Inv : σ → Prop)
    (hne : opening ≠ closing)
    (hproper : ∀ rule ∈ done ++ rules, Proper opening closing rule)
    (hnodup : ((done ++ rules).map Prod.fst).Nodup)
    (hnext : ∀ rule ∈ rules, ∀ s, Inv s → Inv (next rule s) ∧
      Reduces [rule] (flat (next rule s)) (replaceAll rule.1 rule.2 (flat s)))
    (hs : Inv s) {y : List α} (h : Reduces done (flat s) y) :
    ∃ all, (∀ rule ∈ all, Proper opening closing rule) ∧
      Reduces all (flat (rules.foldl (fun s rule ↦ next rule s) s)) (replaceEach rules y) ∧
      (flat (rules.foldl (fun s rule ↦ next rule s) s) = replaceEach rules y ↔
        flat s = y ∧ Exact flat next rules s) := by
  induction rules generalizing s y done with
  | nil => exact ⟨done, by simpa using hproper, h, by simp [Exact, replaceEach]⟩
  | cons rule rules ih =>
      have hperm : (done ++ rule :: rules).Perm (rule :: done ++ rules) := List.perm_middle
      have hproper' : ∀ r ∈ rule :: done ++ rules, Proper opening closing r :=
        fun r hr ↦ hproper r (hperm.mem_iff.mpr hr)
      have hnodup' := (hperm.map Prod.fst).nodup_iff.mp hnodup
      obtain ⟨ht, hn⟩ := hproper' rule List.mem_cons_self
      have hdone : ∀ r ∈ done, Proper opening closing r := fun r hr ↦
        hproper r (List.mem_append_left _ hr)
      have hnew : ∀ r ∈ done, r.1 ≠ rule.1 := by
        intro r hr heq
        rw [List.cons_append, List.map_cons, List.nodup_cons] at hnodup'
        exact hnodup'.1 (List.mem_map.mpr ⟨r, List.mem_append_left _ hr, heq⟩)
      obtain ⟨hinv, hstage⟩ := hnext rule List.mem_cons_self s hs
      obtain ⟨hwhole, heq⟩ := h.replaceAll hne hdone ht hn hnew
      have hfirst : Reduces (rule :: done) (flat (next rule s)) (replaceAll rule.1 rule.2 (flat s)) :=
        hstage.mono (by simp)
      obtain ⟨all, hall, hreduces, hiff⟩ := ih hproper' hnodup'
        (fun r hr ↦ hnext r (List.mem_cons_of_mem _ hr)) hinv (hfirst.trans hwhole)
      have hall' : ∀ r ∈ rule :: done, Proper opening closing r := fun r hr ↦
        hproper' r (List.mem_append_left _ hr)
      refine ⟨all, hall, hreduces, hiff.trans ?_⟩
      rw [hfirst.eq_iff hne hall' hwhole]
      constructor
      · rintro ⟨⟨hexact, hy⟩, hrest⟩
        exact ⟨heq hy, hexact, hrest⟩
      · rintro ⟨rfl, hexact, hrest⟩
        exact ⟨⟨hexact, rfl⟩, hrest⟩

/-- The parts come out as the whole text exactly where they do so at every stage. -/
theorem replaceEach_iff_exact (flat : σ → List α) (next : List α × List α → σ → σ)
    (Inv : σ → Prop) (hne : opening ≠ closing)
    (hproper : ∀ rule ∈ rules, Proper opening closing rule) (hnodup : (rules.map Prod.fst).Nodup)
    (hnext : ∀ rule ∈ rules, ∀ s, Inv s → Inv (next rule s) ∧
      Reduces [rule] (flat (next rule s)) (replaceAll rule.1 rule.2 (flat s))) (hs : Inv s) :
    ∃ all, (∀ rule ∈ all, Proper opening closing rule) ∧
      Reduces all (flat (rules.foldl (fun s rule ↦ next rule s) s)) (replaceEach rules (flat s)) ∧
      (flat (rules.foldl (fun s rule ↦ next rule s) s) = replaceEach rules (flat s) ↔
        Exact flat next rules s) := by
  have hstart : Reduces [] (flat s) (flat s) := .refl
  have hproper' : ∀ rule ∈ [] ++ rules, Proper opening closing rule := hproper
  have hnodup' : (([] ++ rules).map Prod.fst).Nodup := hnodup
  have h := exact_of_reduces flat next Inv hne hproper' hnodup' hnext hs hstart
  rwa [eq_self, true_and] at h

end Stages

end Replace
