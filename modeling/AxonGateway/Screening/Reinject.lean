import AxonGateway.Lib.Bracketed
import AxonGateway.Screening.Chunks
import AxonGateway.Screening.Redactor

/-!
# Putting originals back

The tokens of a mapping are replaced one after the other in the whole text.  In a stream the text
after a bracket that is still open is held back, so that a token that is cut by a chunk boundary
is put together again.  What is held back when the stream ends is never emitted.
-/

namespace Screening

open PyValue Replace

namespace RedactionMapping

/-- `reinject` -/
def reinject (m : RedactionMapping) (text : Text) : Text :=
  if m.reversible then replaceEach m.forward text else text

/-- The mappings that `add` builds. -/
inductive Built (U : Unicode) (reversible : Bool) : RedactionMapping → Prop
  | empty : Built U reversible (RedactionMapping.empty reversible)
  | add {m : RedactionMapping} (h : Built U reversible m) (piiType original : Text) :
      Built U reversible (m.add U piiType original).2

/-- Neither the types nor the originals have square brackets. -/
def BracketFree (m : RedactionMapping) : Prop := ∀ rule ∈ m.forward, Proper '[' ']' rule

variable {U : Unicode} {reversible : Bool} {m : RedactionMapping}

theorem Built.closing_mem (h : Built U reversible m) : ∀ rule ∈ m.forward, ']' ∈ rule.1 := by
  induction h with
  | empty => simp [RedactionMapping.empty]
  | @add m _ piiType original ih =>
      unfold RedactionMapping.add
      cases m.dedup.lookup original with
      | some token => exact ih
      | none =>
          intro rule hrule
          dsimp only at hrule
          split_ifs at hrule
          · rcases mem_set hrule with rfl | hrule
            · simp
            · exact ih rule hrule
          · exact ih rule hrule

theorem Built.nodup (h : Built U reversible m) : (m.forward.map Prod.fst).Nodup := by
  induction h with
  | empty => simp [RedactionMapping.empty]
  | @add m _ piiType original ih =>
      unfold RedactionMapping.add
      cases m.dedup.lookup original with
      | some token => exact ih
      | none =>
          dsimp only
          split_ifs
          · exact nodup_set ih _ _
          · exact ih

end RedactionMapping

/-! ## The stream -/

/-- `str.rfind` of a character. -/
def rfind (c : Char) : Text → Option ℕ
  | [] => none
  | a :: text =>
      match rfind c text with
      | some i => some (i + 1)
      | none => if a = c then some 0 else none

/-- What is emitted of a text, and what is held back. -/
def splitPending (text : Text) : Text × Text :=
  match rfind '[' text with
  | some lastOpen =>
      if ']' ∈ text.drop lastOpen then (text, []) else (text.take lastOpen, text.drop lastOpen)
  | none => (text, [])

/-- One turn of the loop of `_reinject_chunk_pii`; nothing where it raises. -/
def reinjectChoice (m : RedactionMapping) (choice : Choice) (pending : Text) :
    Option (Choice × Text) :=
  match (choice.lookup deltaKey).getD (.obj []) with
  | .obj delta =>
      match (delta.lookup contentKey).getD (.str []) with
      | .str content =>
          if content.isEmpty then some (choice, pending)
          else
            let (text, pending) := splitPending (pending ++ content)
            some (set choice deltaKey (.obj (set delta contentKey (.str (m.reinject text)))),
              pending)
      | _ => some (choice, pending)
  | _ => none

def reinjectChoices (m : RedactionMapping) : List Choice → Text → Option (List Choice × Text)
  | [], pending => some ([], pending)
  | choice :: choices, pending =>
      (reinjectChoice m choice pending).bind fun (choice, pending) ↦
        (reinjectChoices m choices pending).map fun (choices, pending) ↦
          (choice :: choices, pending)

/-- `_reinject_chunk_pii` -/
def reinjectChunkPii (m : RedactionMapping) (chunk : StreamChunk) (pending : Text) :
    Option (StreamChunk × Text) :=
  if !m.reversible then some (chunk, pending)
  else
    (reinjectChoices m chunk.choices pending).map fun (choices, pending) ↦
      ({ chunk with choices := choices }, pending)

/-- The chunks of a stream, one after the other with one buffer. -/
def reinjectStream (m : RedactionMapping) :
    List StreamChunk → Text → Option (List StreamChunk × Text)
  | [], pending => some ([], pending)
  | chunk :: chunks, pending =>
      (reinjectChunkPii m chunk pending).bind fun (chunk, pending) ↦
        (reinjectStream m chunks pending).map fun (chunks, pending) ↦ (chunk :: chunks, pending)

/-- A chunk with one choice, whose delta has this content. -/
def ContentChunk (chunk : StreamChunk) (content : Text) : Prop :=
  ∃ choice delta, chunk.choices = [choice] ∧ choice.lookup deltaKey = some (.obj delta) ∧
    delta.lookup contentKey = some (.str content)

/-- The contents that the stream emits make up the whole text with the originals put back. -/
def StreamsWhole (m : RedactionMapping) (chunks : List StreamChunk) (contents : List Text) : Prop :=
  ∃ emitted texts pending, reinjectStream m chunks [] = some (emitted, pending) ∧
    List.Forall₂ ContentChunk emitted texts ∧ texts.flatten = m.reinject contents.flatten

/-- Every opening bracket is followed by a closing one. -/
def Closed (text : Text) : Prop := ∀ u v, text = u ++ '[' :: v → ']' ∈ v

/-- The stretches that a stream of these contents is cut into, and what it holds back. -/
def stretches (pending : Text) : List Text → List Text × Text
  | [] => ([], pending)
  | content :: contents =>
      let (text, pending) := if content.isEmpty then ([], pending)
        else splitPending (pending ++ content)
      let (texts, pending) := stretches pending contents
      (text :: texts, pending)

/-- At the turn of each token no occurrence of it straddles a cut. -/
def Undisturbed : List (Text × Text) → List Text → Prop
  | [], _ => True
  | (token, original) :: rules, pieces =>
      Uncut token pieces ∧ Undisturbed rules (pieces.map (replaceAll token original))

instance decidableUndisturbed :
    (rules : List (Text × Text)) → (pieces : List Text) → Decidable (Undisturbed rules pieces)
  | [], _ => .isTrue trivial
  | (token, original) :: rules, pieces =>
      have := decidableUndisturbed rules (pieces.map (replaceAll token original))
      inferInstanceAs (Decidable (_ ∧ _))

/-! ### What is held back -/

theorem rfind_eq_none {c : Char} {text : Text} (h : rfind c text = none) : c ∉ text := by
  induction text with
  | nil => simp
  | cons a text ih =>
      unfold rfind at h
      cases hrest : rfind c text with
      | some i => simp [hrest] at h
      | none =>
          rw [hrest] at h
          by_cases hac : a = c
          · simp [hac] at h
          · exact fun hmem ↦ (List.mem_cons.mp hmem).elim (fun heq ↦ hac heq.symm) (ih hrest)

theorem rfind_eq_some {c : Char} {text : Text} {i : ℕ} (h : rfind c text = some i) :
    ∃ u v, text = u ++ c :: v ∧ u.length = i ∧ c ∉ v := by
  induction text generalizing i with
  | nil => cases h
  | cons a text ih =>
      unfold rfind at h
      cases hrest : rfind c text with
      | some j =>
          rw [hrest] at h
          obtain rfl := Option.some.inj h
          obtain ⟨u, v, rfl, rfl, hv⟩ := ih hrest
          exact ⟨a :: u, v, rfl, rfl, hv⟩
      | none =>
          rw [hrest] at h
          by_cases hac : a = c
          · simp only [hac, if_true, Option.some.injEq] at h
            exact ⟨[], text, by rw [hac, List.nil_append], h, rfind_eq_none hrest⟩
          · simp [hac] at h

/-- A text is emitted as a whole, or up to the bracket that is still open. -/
theorem splitPending_cases (text : Text) :
    splitPending text = (text, []) ∧ Closed text ∨
      ∃ u w, text = u ++ '[' :: w ∧ Plain '[' ']' w ∧ splitPending text = (u, '[' :: w) := by
  unfold splitPending
  cases h : rfind '[' text with
  | none =>
      refine .inl ⟨rfl, fun u v heq ↦ absurd ?_ (rfind_eq_none h)⟩
      rw [heq]
      exact List.mem_append_right u List.mem_cons_self
  | some i =>
      obtain ⟨u, v, rfl, rfl, hv⟩ := rfind_eq_some h
      dsimp only
      rw [List.drop_left, List.take_left]
      split_ifs with hclosed
      · refine .inl ⟨rfl, fun u' v' heq ↦ ?_⟩
        rcases List.append_eq_append_iff.mp heq with ⟨a, rfl, ha⟩ | ⟨a, rfl, ha⟩
        · cases a with
          | nil =>
              obtain rfl := (List.cons.inj ha).2
              exact (List.mem_cons.mp hclosed).resolve_left (by decide)
          | cons x a =>
              obtain ⟨rfl, rfl⟩ := List.cons.inj ha
              exact absurd (List.mem_append_right a List.mem_cons_self) hv
        · cases a with
          | nil =>
              obtain rfl := (List.cons.inj ha).2
              exact (List.mem_cons.mp hclosed).resolve_left (by decide)
          | cons x a =>
              obtain ⟨rfl, rfl⟩ := List.cons.inj ha
              exact List.mem_append_right a hclosed
      · exact .inr ⟨u, v, rfl, ⟨hv, fun hmem ↦ hclosed (List.mem_cons_of_mem _ hmem)⟩, rfl⟩

/-- What a buffer may hold: nothing, or a bracket and what follows it up to the next one. -/
def Unclosed (pending : Text) : Prop := pending = [] ∨ ∃ w, Plain '[' ']' w ∧ pending = '[' :: w

theorem Unclosed.closing_not_mem {pending : Text} (h : Unclosed pending) : ']' ∉ pending := by
  rcases h with rfl | ⟨w, hw, rfl⟩
  · simp
  · exact fun hmem ↦ hw.2 ((List.mem_cons.mp hmem).resolve_left (by decide))

theorem splitPending_append (text : Text) :
    (splitPending text).1 ++ (splitPending text).2 = text := by
  rcases splitPending_cases text with ⟨h, -⟩ | ⟨u, w, rfl, -, h⟩
  · rw [h, List.append_nil]
  · rw [h]

theorem splitPending_held (text : Text) : Unclosed (splitPending text).2 := by
  rcases splitPending_cases text with ⟨h, -⟩ | ⟨u, w, -, hw, h⟩
  · exact .inl (by rw [h])
  · exact .inr ⟨w, hw, by rw [h]⟩

theorem stretches_flatten (contents : List Text) (pending : Text) :
    (stretches pending contents).1.flatten ++ (stretches pending contents).2 =
      pending ++ contents.flatten := by
  induction contents generalizing pending with
  | nil => simp [stretches]
  | cons content contents ih =>
      unfold stretches
      cases content with
      | nil => simpa using ih pending
      | cons a content =>
          have hsplit := splitPending_append (pending ++ a :: content)
          simp only [List.isEmpty_cons, Bool.false_eq_true, if_false, List.flatten_cons,
            List.append_assoc, ih]
          rw [← List.append_assoc, hsplit, List.append_assoc]

theorem stretches_held (contents : List Text) {pending : Text} (h : Unclosed pending) :
    Unclosed (stretches pending contents).2 := by
  induction contents generalizing pending with
  | nil => exact h
  | cons content contents ih =>
      unfold stretches
      cases content with
      | nil => exact ih h
      | cons a content => exact ih (splitPending_held (pending ++ a :: content))

/-- Nothing is held back after the texts in which every bracket is closed. -/
theorem splitPending_eq_nil_iff {before pending : Text} (hheld : Unclosed pending)
    (h : pending = [] ↔ Closed (before ++ pending)) (content : Text) :
    (splitPending (pending ++ content)).2 = [] ↔ Closed (before ++ (pending ++ content)) := by
  rcases splitPending_cases (pending ++ content) with ⟨hsplit, hclosed⟩ | ⟨u, w, htext, hw, hsplit⟩
  · rw [hsplit]
    refine ⟨fun _ u v heq ↦ ?_, fun _ ↦ rfl⟩
    rcases List.append_eq_append_iff.mp heq with ⟨a, rfl, ha⟩ | ⟨a, rfl, ha⟩
    · exact hclosed a v ha
    · cases a with
      | nil => exact hclosed [] v (by simpa using ha.symm)
      | cons x a =>
          obtain ⟨rfl, rfl⟩ := List.cons.inj ha
          rcases hheld with rfl | ⟨w, -, rfl⟩
          · have hmem := (h.mp rfl) u a (by simp)
            exact List.mem_append_left _ hmem
          · have hmem := hclosed [] (w ++ content) rfl
            exact List.mem_append_right a (List.mem_cons_of_mem _ hmem)
  · rw [hsplit, htext]
    refine iff_of_false (List.cons_ne_nil _ _) fun hclosed ↦ ?_
    exact hw.2 (hclosed (before ++ u) w (by simp))

theorem stretches_eq_nil_iff (contents : List Text) {before pending : Text}
    (hheld : Unclosed pending) (h : pending = [] ↔ Closed (before ++ pending)) :
    (stretches pending contents).2 = [] ↔ Closed (before ++ (pending ++ contents.flatten)) := by
  induction contents generalizing before pending with
  | nil => simpa [stretches] using h
  | cons content contents ih =>
      unfold stretches
      cases content with
      | nil => simpa using ih hheld h
      | cons a content =>
          have hsplit := splitPending_append (pending ++ a :: content)
          have hnext : (splitPending (pending ++ a :: content)).2 = [] ↔
              Closed (before ++ (splitPending (pending ++ a :: content)).1 ++
                (splitPending (pending ++ a :: content)).2) := by
            rw [List.append_assoc, hsplit]
            exact splitPending_eq_nil_iff hheld h (a :: content)
          have hrest := ih (splitPending_held (pending ++ a :: content)) hnext
          rw [List.append_assoc, ← List.append_assoc _ _ contents.flatten, hsplit,
            List.append_assoc] at hrest
          simpa using hrest

/-! ### What is emitted -/

section Emitted

variable {U : Unicode} {m : RedactionMapping}

theorem replaceEach_of_closing_not_mem {rules : List (Text × Text)}
    (h : ∀ rule ∈ rules, ']' ∈ rule.1) {text : Text} (htext : ']' ∉ text) :
    replaceEach rules text = text := by
  induction rules with
  | nil => rfl
  | cons rule rules ih =>
      have hrule := h rule List.mem_cons_self
      have hne : rule.1 ≠ [] := List.ne_nil_of_mem hrule
      have hself : replaceAll rule.1 rule.2 text = text :=
        replaceAll_of_absent hne fun hi ↦ htext (hi.subset hrule)
      unfold replaceEach
      rw [List.foldl_cons, hself]
      exact ih fun r hr ↦ h r (List.mem_cons_of_mem _ hr)

theorem Built.reinject_of_closing_not_mem {reversible : Bool} (hm : m.Built U reversible)
    {text : Text} (htext : ']' ∉ text) : m.reinject text = text := by
  unfold RedactionMapping.reinject
  split_ifs
  · exact replaceEach_of_closing_not_mem hm.closing_mem htext
  · rfl

theorem ContentChunk.unique {chunk : StreamChunk} {text text' : Text} (h : ContentChunk chunk text)
    (h' : ContentChunk chunk text') : text = text' := by
  obtain ⟨choice, delta, hchoices, hdelta, hcontent⟩ := h
  obtain ⟨choice', delta', hchoices', hdelta', hcontent'⟩ := h'
  obtain ⟨rfl, -⟩ := List.cons.inj (hchoices.symm.trans hchoices')
  obtain rfl := Value.obj.inj (Option.some.inj (hdelta.symm.trans hdelta'))
  exact Value.str.inj (Option.some.inj (hcontent.symm.trans hcontent'))

theorem reinjectChunkPii_content {chunk : StreamChunk} {content : Text}
    (hrev : m.reversible = true) (hnil : m.reinject [] = []) (h : ContentChunk chunk content)
    (pending : Text) :
    ∃ emitted, reinjectChunkPii m chunk pending =
        some (emitted, (stretches pending [content]).2) ∧
      ContentChunk emitted (m.reinject (stretches pending [content]).1.flatten) := by
  obtain ⟨choice, delta, hchoices, hdelta, hcontent⟩ := h
  unfold reinjectChunkPii reinjectChoices reinjectChoices reinjectChoice
  rw [hrev, hchoices]
  simp only [hdelta, hcontent, Option.getD_some, stretches]
  cases content with
  | nil =>
      refine ⟨chunk, ?_, choice, delta, hchoices, hdelta, ?_⟩
      · simp [← hchoices]
      · simpa [hnil] using hcontent
  | cons a content =>
      refine ⟨{ chunk with choices := [set choice deltaKey (.obj (set delta contentKey
        (.str (m.reinject (splitPending (pending ++ a :: content)).1))))] }, rfl, _, _, rfl,
        lookup_set choice deltaKey _, ?_⟩
      simp [lookup_set]

theorem stretches_cons (pending content : Text) (contents : List Text) :
    stretches pending (content :: contents) =
      ((stretches pending [content]).1 ++ (stretches (stretches pending [content]).2 contents).1,
        (stretches (stretches pending [content]).2 contents).2) := rfl

theorem reinjectStream_content {chunks : List StreamChunk} {contents : List Text}
    (hrev : m.reversible = true) (hnil : m.reinject [] = [])
    (h : List.Forall₂ ContentChunk chunks contents) (pending : Text) :
    ∃ emitted, reinjectStream m chunks pending = some (emitted, (stretches pending contents).2) ∧
      List.Forall₂ ContentChunk emitted ((stretches pending contents).1.map m.reinject) := by
  induction h generalizing pending with
  | nil => exact ⟨[], rfl, .nil⟩
  | @cons chunk content chunks contents hchunk _ ih =>
      obtain ⟨first, hfirst, hcontent⟩ := reinjectChunkPii_content hrev hnil hchunk pending
      obtain ⟨rest, hrest, hcontents⟩ := ih (stretches pending [content]).2
      refine ⟨first :: rest, ?_, ?_⟩
      · rw [stretches_cons]
        simp only [reinjectStream, hfirst, Option.bind_some, hrest, Option.map_some]
      · obtain ⟨text, htext⟩ : ∃ text, (stretches pending [content]).1 = [text] := ⟨_, rfl⟩
        rw [htext, List.flatten_singleton] at hcontent
        rw [stretches_cons, htext, List.singleton_append, List.map_cons]
        exact .cons hcontent hcontents

theorem streamsWhole_iff_flatten {chunks : List StreamChunk} {contents : List Text}
    (hrev : m.reversible = true) (hnil : m.reinject [] = [])
    (h : List.Forall₂ ContentChunk chunks contents) :
    StreamsWhole m chunks contents ↔
      ((stretches [] contents).1.map m.reinject).flatten = m.reinject contents.flatten := by
  obtain ⟨emitted, hstream, hcontents⟩ := reinjectStream_content hrev hnil h []
  constructor
  · rintro ⟨emitted', texts, pending, hstream', hcontents', heq⟩
    obtain ⟨rfl, -⟩ := Prod.mk.inj (Option.some.inj (hstream.symm.trans hstream'))
    have htexts : texts = (stretches [] contents).1.map m.reinject := by
      clear hstream hstream' heq
      generalize (stretches [] contents).1.map m.reinject = texts' at hcontents
      induction hcontents generalizing texts with
      | nil => cases hcontents'; rfl
      | cons hchunk _ ih =>
          cases hcontents' with
          | cons hchunk' hrest' => rw [hchunk'.unique hchunk, ih _ hrest']
    rwa [← htexts]
  · intro heq
    exact ⟨emitted, _, _, hstream, hcontents, heq⟩

end Emitted

/-! ### The whole text -/

section Whole

variable {U : Unicode} {m : RedactionMapping} {rules : List (Text × Text)}

theorem foldl_map_replaceAll (rules : List (Text × Text)) (pieces : List Text) :
    rules.foldl (fun pieces rule ↦ pieces.map (replaceAll rule.1 rule.2)) pieces =
      pieces.map (replaceEach rules) := by
  induction rules generalizing pieces with
  | nil => exact (List.map_id' pieces).symm
  | cons rule rules ih =>
      rw [List.foldl_cons, ih, List.map_map]
      rfl

theorem exact_of_undisturbed (hrules : ∀ rule ∈ rules, ']' ∈ rule.1) {pieces : List Text}
    (h : Undisturbed rules pieces) :
    Exact List.flatten (fun rule pieces ↦ pieces.map (replaceAll rule.1 rule.2)) rules pieces := by
  induction rules generalizing pieces with
  | nil => trivial
  | cons rule rules ih =>
      obtain ⟨huncut, hrest⟩ := h
      have hne : rule.1 ≠ [] := List.ne_nil_of_mem (hrules rule List.mem_cons_self)
      exact ⟨map_replaceAll_flatten hne huncut,
        ih (fun r hr ↦ hrules r (List.mem_cons_of_mem _ hr)) hrest⟩

theorem exact_iff_undisturbed (hrules : ∀ rule ∈ rules, Proper '[' ']' rule)
    (pieces : List Text) :
    Exact List.flatten (fun rule pieces ↦ pieces.map (replaceAll rule.1 rule.2)) rules pieces ↔
      Undisturbed rules pieces := by
  induction rules generalizing pieces with
  | nil => exact Iff.rfl
  | cons rule rules ih =>
      obtain ⟨ht, hn⟩ := hrules rule List.mem_cons_self
      exact and_congr (map_replaceAll_flatten_iff (by decide) ht hn pieces)
        (ih (fun r hr ↦ hrules r (List.mem_cons_of_mem _ hr)) _)

theorem stretches_nil_eq_nil_iff (contents : List Text) :
    (stretches [] contents).2 = [] ↔ Closed contents.flatten := by
  have hclosed : Closed [] := fun u v h ↦ by simp at h
  have hiff : (stretches [] contents).2 = [] ↔ Closed ([] ++ ([] ++ contents.flatten)) :=
    stretches_eq_nil_iff contents (.inl rfl) (by simpa using hclosed)
  simpa using hiff

/-- The pieces of a text as a stream cuts it, with what is held back at the end. -/
def piecesOf (contents : List Text) : List Text :=
  (stretches [] contents).1 ++ [(stretches [] contents).2]

theorem piecesOf_flatten (contents : List Text) : (piecesOf contents).flatten = contents.flatten := by
  have h := stretches_flatten contents []
  simpa [piecesOf] using h

theorem map_piecesOf_flatten (hm : m.Built U true) (contents : List Text) :
    ((piecesOf contents).map (replaceEach m.forward)).flatten =
      ((stretches [] contents).1.map (replaceEach m.forward)).flatten ++
        (stretches [] contents).2 := by
  have hheld := stretches_held contents (.inl rfl)
  have hself := replaceEach_of_closing_not_mem hm.closing_mem hheld.closing_not_mem
  simp [piecesOf, hself]

theorem Built.reversible_eq {reversible : Bool} (hm : m.Built U reversible) :
    m.reversible = reversible := by
  induction hm with
  | empty => rfl
  | @add m _ piiType original ih =>
      unfold RedactionMapping.add
      cases m.dedup.lookup original <;> exact ih

theorem reinject_eq_replaceEach (hm : m.Built U true) : m.reinject = replaceEach m.forward := by
  funext text
  exact if_pos (Built.reversible_eq hm)

theorem flatten_eq_iff_of_undisturbed (hm : m.Built U true) {contents : List Text}
    (h : Undisturbed m.forward (piecesOf contents)) :
    ((stretches [] contents).1.map (replaceEach m.forward)).flatten =
        replaceEach m.forward contents.flatten ↔ Closed contents.flatten := by
  have hexact := replaceEach_of_exact (exact_of_undisturbed hm.closing_mem h)
  rw [foldl_map_replaceAll, map_piecesOf_flatten hm, piecesOf_flatten] at hexact
  rw [← hexact, List.self_eq_append_right, stretches_nil_eq_nil_iff]

theorem flatten_eq_iff (hm : m.Built U true) (hfree : m.BracketFree) (contents : List Text) :
    ((stretches [] contents).1.map (replaceEach m.forward)).flatten =
        replaceEach m.forward contents.flatten ↔
      Closed contents.flatten ∧ Undisturbed m.forward (piecesOf contents) := by
  have hne : '[' ≠ ']' := by decide
  have hnext : ∀ rule ∈ m.forward, ∀ pieces : List Text, True → True ∧
      Reduces [rule] (pieces.map (replaceAll rule.1 rule.2)).flatten
        (replaceAll rule.1 rule.2 pieces.flatten) := fun rule hrule pieces _ ↦
    ⟨trivial, reduces_flatten hne (hfree rule hrule).1 pieces⟩
  obtain ⟨all, hall, hreduces, hiff⟩ := replaceEach_iff_exact List.flatten
    (fun rule pieces ↦ pieces.map (replaceAll rule.1 rule.2)) (fun _ ↦ True) hne hfree hm.nodup
    hnext (s := piecesOf contents) trivial
  rw [foldl_map_replaceAll, map_piecesOf_flatten hm, piecesOf_flatten] at hreduces hiff
  rw [exact_iff_undisturbed hfree] at hiff
  rw [← stretches_nil_eq_nil_iff]
  constructor
  · intro heq
    -- What is held back has an opening bracket and no closing one.
    have hpending : (stretches [] contents).2 = [] := by
      rcases stretches_held contents (.inl rfl) with hnil | ⟨w, hw, hw'⟩
      · exact hnil
      · obtain ⟨-, hbalance, -⟩ := hreduces.count hne hall
        rw [← heq, hw'] at hbalance
        simp [List.count_append, List.count_eq_zero_of_not_mem hw.1,
          List.count_eq_zero_of_not_mem hw.2] at hbalance
    refine ⟨hpending, hiff.mp ?_⟩
    rw [hpending, List.append_nil, heq]
  · rintro ⟨hpending, h⟩
    have heq := hiff.mpr h
    rwa [hpending, List.append_nil] at heq

end Whole

/-- When no token straddles a cut at its turn, a stream emits the whole text with the originals
put back exactly when every bracket in it is closed.  Where neither types nor originals have
brackets, as with the patterns of the redactor, there is no other way for the two to agree. -/
theorem streamsWhole_iff {U : Unicode} {m : RedactionMapping} (hm : m.Built U true)
    {chunks : List StreamChunk} {contents : List Text}
    (h : List.Forall₂ ContentChunk chunks contents) :
    (Undisturbed m.forward (piecesOf contents) →
        (StreamsWhole m chunks contents ↔ Closed contents.flatten)) ∧
      (m.BracketFree →
        (StreamsWhole m chunks contents ↔
          Closed contents.flatten ∧ Undisturbed m.forward (piecesOf contents))) := by
  have hnil : m.reinject [] = [] := Built.reinject_of_closing_not_mem hm (by simp)
  rw [streamsWhole_iff_flatten (Built.reversible_eq hm) hnil h, reinject_eq_replaceEach hm]
  exact ⟨flatten_eq_iff_of_undisturbed hm, fun hfree ↦ flatten_eq_iff hm hfree contents⟩

/-- The mapping of a request with one address. -/
def mailMapping : RedactionMapping :=
  ((RedactionMapping.empty true).add asciiUnicode "email".toList "a@b.io".toList).2

theorem mailMapping_built : mailMapping.Built asciiUnicode true := .add .empty _ _

def contentChunk (content : String) : StreamChunk :=
  ⟨[], [[(deltaKey, .obj [(contentKey, .str content.toList)])]], [], false⟩

theorem contentChunk_content (content : String) :
    ContentChunk (contentChunk content) content.toList :=
  ⟨[(deltaKey, .obj [(contentKey, .str content.toList)])], [(contentKey, .str content.toList)], rfl,
    rfl, rfl⟩

/-- A token in two chunks is put together. -/
theorem streamsWhole_cutToken :
    StreamsWhole mailMapping [contentChunk "to [EMA", contentChunk "IL_1]."]
        ["to [EMA".toList, "IL_1].".toList] ∧
      Undisturbed mailMapping.forward (piecesOf ["to [EMA".toList, "IL_1].".toList]) := by
  have hchunks := List.Forall₂.cons (contentChunk_content "to [EMA")
    (.cons (contentChunk_content "IL_1].") .nil)
  have hclosed := (stretches_nil_eq_nil_iff ["to [EMA".toList, "IL_1].".toList]).mp
    (by decide +kernel)
  have hfree : mailMapping.BracketFree := by
    intro rule hrule
    obtain rfl : rule = ("[EMAIL_1]".toList, "a@b.io".toList) := by
      have hforward : mailMapping.forward = [("[EMAIL_1]".toList, "a@b.io".toList)] := by
        decide +kernel
      rw [hforward] at hrule
      exact List.mem_singleton.mp hrule
    exact ⟨⟨"EMAIL_1".toList, by unfold Plain; decide, by decide⟩, by unfold Plain; decide⟩
  have h := streamsWhole_iff mailMapping_built hchunks
  have hwhole := (h.1 (by decide +kernel)).mpr hclosed
  exact ⟨hwhole, ((h.2 hfree).mp hwhole).2⟩

/-- A text that ends after a bracket loses its end. -/
theorem not_streamsWhole_open :
    mailMapping.Built asciiUnicode true ∧
      List.Forall₂ ContentChunk [contentChunk "see [1"] ["see [1".toList] ∧
      ¬ StreamsWhole mailMapping [contentChunk "see [1"] ["see [1".toList] := by
  have hchunks := List.Forall₂.cons (contentChunk_content "see [1") .nil
  refine ⟨mailMapping_built, hchunks, ?_⟩
  rw [streamsWhole_iff_flatten (by decide +kernel) (by decide +kernel) hchunks]
  decide +kernel

end Screening
