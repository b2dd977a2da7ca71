import AxonGateway.Lib.JsonEnds
import AxonGateway.Lib.JsonSorted

/-!
# Reading JSON with hooks

`json.loads` hands the members of a dictionary, the numbers and the named constants to hooks. What
was written is read back by every hook that keeps dictionaries with distinct keys.
-/

namespace JsonText

open PyValue

structure Hooks where
  /-- `object_pairs_hook`, with the members in the order of the text. -/
  object : Fields → Option Value
  /-- `parse_int` and `parse_float` -/
  number : Text → Value
  /-- `parse_constant` -/
  constant : Text → Option Value

variable (H : Hooks)

/-- What is read of a value that has no parts. -/
def Hooks.leaf : Value → Option Value
  | .number t => some (H.number t)
  | .nonFinite t => H.constant t
  | v => some v

mutual

def hookedValue : ℕ → List Char → Option (Value × List Char)
  | fuel + 1, c :: rest =>
      if c = quote then (readChars fuel rest).map fun (text, rest) ↦ (.str text, rest)
      else if c = '[' then
        if (skipBlanks rest).head? = some ']' then some (.arr [], (skipBlanks rest).tail)
        else (hookedItems fuel (skipBlanks rest)).map fun (items, rest) ↦ (.arr items, rest)
      else if c = openBrace then
        if (skipBlanks rest).head? = some closeBrace then
          (H.object []).map fun v ↦ (v, (skipBlanks rest).tail)
        else
          (hookedMembers fuel (skipBlanks rest)).bind fun (members, rest) ↦
            (H.object members).map fun v ↦ (v, rest)
      else
        ((readNamed (c :: rest)).or (readNumber (c :: rest))).bind fun (v, rest) ↦
          (H.leaf v).map fun v ↦ (v, rest)
  | _, _ => none

def hookedItems : ℕ → List Char → Option (List Value × List Char)
  | fuel + 1, l =>
      (hookedValue fuel l).bind fun (item, rest) ↦
        match skipBlanks rest with
        | c :: rest =>
            if c = ']' then some ([item], rest)
            else if c = ',' then
              (hookedItems fuel (skipBlanks rest)).map fun (items, rest) ↦ (item :: items, rest)
            else none
        | [] => none
  | 0, _ => none

def hookedMembers : ℕ → List Char → Option (List (Text × Value) × List Char)
  | fuel + 1, l =>
      if l.head? = some quote then
        (readChars fuel l.tail).bind fun (key, rest) ↦
          if (skipBlanks rest).head? = some ':' then
            (hookedValue fuel (skipBlanks (skipBlanks rest).tail)).bind fun (v, rest) ↦
              match skipBlanks rest with
              | c :: rest =>
                  if c = closeBrace then some ([(key, v)], rest)
                  else if c = ',' then
                    (hookedMembers fuel (skipBlanks rest)).map fun (members, rest) ↦
                      ((key, v) :: members, rest)
                  else none
              | [] => none
          else none
      else none
  | 0, _ => none

end

/-- `json.loads` with hooks; nothing where it or a hook raises. -/
def loadsHooked (l : List Char) : Option Value :=
  (hookedValue H (l.length + 1) (skipBlanks l)).bind fun (v, rest) ↦
    if (skipBlanks rest).isEmpty then some v else none

variable {H}

/-! ### What holds of all that is read -/

/-- What the hooks give for a leaf and for parts that have it, and what lists of such parts have,
holds of everything that is read. -/
theorem forall_hooked {P : Value → Prop} (hstr : ∀ t, P (.str t))
    (hleaf : ∀ {l v w rest}, (readNamed l).or (readNumber l) = some (v, rest) →
      H.leaf v = some w → P w)
    (harr : ∀ items, (∀ v ∈ items, P v) → P (.arr items))
    (hobj : ∀ members v, (∀ m ∈ members, P m.2) → H.object members = some v → P v) (fuel : ℕ) :
    (∀ l v rest, hookedValue H fuel l = some (v, rest) → P v) ∧
    (∀ l items rest, hookedItems H fuel l = some (items, rest) → ∀ v ∈ items, P v) ∧
    ∀ l members rest, hookedMembers H fuel l = some (members, rest) → ∀ m ∈ members, P m.2 := by
  induction fuel with
  | zero =>
      refine ⟨fun l v rest h ↦ ?_, fun l items rest h ↦ ?_, fun l members rest h ↦ ?_⟩
      · rw [hookedValue] at h
        · cases h
        · simp
      · cases h
      · cases h
  | succ fuel ih =>
      obtain ⟨ihvalue, ihitems, ihmembers⟩ := ih
      refine ⟨fun l v rest h ↦ ?_, fun l items rest h ↦ ?_, fun l members rest h ↦ ?_⟩
      · cases l with
        | nil => cases h
        | cons c l =>
            rw [hookedValue] at h
            split_ifs at h with hquote hbracket hclose hbrace hcloseBrace
            · obtain ⟨_, -, heq⟩ := Option.map_eq_some_iff.mp h
              obtain ⟨rfl, -⟩ := Prod.ext_iff.mp heq
              exact hstr _
            · obtain ⟨rfl, -⟩ := Prod.ext_iff.mp (Option.some.inj h)
              exact harr [] (by simp)
            · obtain ⟨_, hread, heq⟩ := Option.map_eq_some_iff.mp h
              obtain ⟨rfl, -⟩ := Prod.ext_iff.mp heq
              exact harr _ (ihitems _ _ _ hread)
            · obtain ⟨_, hread, heq⟩ := Option.map_eq_some_iff.mp h
              obtain ⟨rfl, -⟩ := Prod.ext_iff.mp heq
              exact hobj [] _ (by simp) hread
            · obtain ⟨_, hread, h⟩ := Option.bind_eq_some_iff.mp h
              obtain ⟨_, hhook, heq⟩ := Option.map_eq_some_iff.mp h
              obtain ⟨rfl, -⟩ := Prod.ext_iff.mp heq
              exact hobj _ _ (ihmembers _ _ _ hread) hhook
            · obtain ⟨_, hread, h⟩ := Option.bind_eq_some_iff.mp h
              obtain ⟨_, hhook, heq⟩ := Option.map_eq_some_iff.mp h
              obtain ⟨rfl, -⟩ := Prod.ext_iff.mp heq
              exact hleaf hread hhook
      · rw [hookedItems] at h
        obtain ⟨⟨item, after⟩, hitem, h⟩ := Option.bind_eq_some_iff.mp h
        have hitem := ihvalue _ _ _ hitem
        dsimp only at h
        cases hskip : skipBlanks after with
        | nil =>
            rw [hskip] at h
            cases h
        | cons c after =>
            rw [hskip] at h
            dsimp only at h
            split_ifs at h
            · obtain ⟨rfl, -⟩ := Prod.ext_iff.mp (Option.some.inj h)
              simpa using hitem
            · obtain ⟨_, hread, heq⟩ := Option.map_eq_some_iff.mp h
              obtain ⟨rfl, -⟩ := Prod.ext_iff.mp heq
              exact List.forall_mem_cons.mpr ⟨hitem, ihitems _ _ _ hread⟩
      · rw [hookedMembers] at h
        split_ifs at h
        obtain ⟨⟨key, after⟩, -, h⟩ := Option.bind_eq_some_iff.mp h
        dsimp only at h
        split_ifs at h
        obtain ⟨⟨v, after⟩, hv, h⟩ := Option.bind_eq_some_iff.mp h
        have hv := ihvalue _ _ _ hv
        dsimp only at h
        cases hskip : skipBlanks after with
        | nil =>
            rw [hskip] at h
            cases h
        | cons c after =>
            rw [hskip] at h
            dsimp only at h
            split_ifs at h
            · obtain ⟨rfl, -⟩ := Prod.ext_iff.mp (Option.some.inj h)
              simpa using hv
            · obtain ⟨_, hread, heq⟩ := Option.map_eq_some_iff.mp h
              obtain ⟨rfl, -⟩ := Prod.ext_iff.mp heq
              exact List.forall_mem_cons.mpr ⟨hv, ihmembers _ _ _ hread⟩

theorem isJson_of_hooked (hnumber : ∀ t, IsJson H.number (H.number t))
    (hconstant : ∀ t v, H.constant t = some v → IsJson H.number v)
    (hobject : ∀ members v, (∀ m ∈ members, IsJson H.number m.2) → H.object members = some v →
      IsJson H.number v) {l : Text} {v : Value} (h : loadsHooked H l = some v) :
    IsJson H.number v := by
  obtain ⟨⟨w, rest⟩, hread, h⟩ := Option.bind_eq_some_iff.mp h
  dsimp only at h
  split_ifs at h
  obtain rfl := Option.some.inj h
  refine (forall_hooked (isJson_str _) (fun {l v w rest} hread hleaf ↦ ?_)
    (fun items ↦ (isJson_arr_iff _ items).mpr) hobject _).1 _ _ _ hread
  cases v with
  | number t =>
      obtain rfl := Option.some.inj hleaf
      exact hnumber t
  | nonFinite t => exact hconstant t w hleaf
  | null => exact Option.some.inj hleaf ▸ trivial
  | bool b => exact Option.some.inj hleaf ▸ trivial
  | str t => exact Option.some.inj hleaf ▸ trivial
  | arr items =>
      rcases Option.or_eq_some_iff.mp hread with h | ⟨-, h⟩
      · exact absurd h (readNamed_ne (by simp) (by simp) (by simp))
      · obtain ⟨_, h⟩ := exists_of_readNumber h
        cases h
  | obj fields =>
      rcases Option.or_eq_some_iff.mp hread with h | ⟨-, h⟩
      · exact absurd h (readNamed_ne (by simp) (by simp) (by simp))
      · obtain ⟨_, h⟩ := exists_of_readNumber h
        cases h

/-! ### What was written is read -/

structure HookedReads (H : Hooks) (t : Text) (v : Value) : Prop where
  starts : ∃ c l, t = c :: l ∧ isBlank c = false ∧ c ≠ ']'
  reads : ∀ fuel rest, t.length < fuel → Ends rest → hookedValue H fuel (t ++ rest) = some (v, rest)

theorem HookedReads.skipBlanks_append {t : Text} {v : Value} (h : HookedReads H t v) (rest : Text) :
    skipBlanks (t ++ rest) = t ++ rest := by
  obtain ⟨c, l, rfl, hc, -⟩ := h.starts
  exact skipBlanks_cons hc _

/-- A value without parts is read as the hooks say. -/
theorem Reads.hooked {t : Text} {v w : Value} (h : Reads t v) (harr : ∀ items, v ≠ .arr items)
    (hobj : ∀ fields, v ≠ .obj fields) (hleaf : H.leaf v = some w) : HookedReads H t w where
  starts := h.head_ne
  reads fuel rest hfuel hends := by
    have hread := h.reads fuel rest hfuel hends
    obtain ⟨fuel, rfl⟩ := Nat.exists_eq_succ_of_ne_zero (Nat.ne_of_gt (Nat.zero_lt_of_lt hfuel))
    obtain ⟨c, l, rfl, -⟩ := h.starts
    rw [List.cons_append, readValue] at hread
    rw [List.cons_append, hookedValue]
    by_cases hquote : c = quote
    · rw [if_pos hquote] at hread ⊢
      obtain ⟨_, -, heq⟩ := Option.map_eq_some_iff.mp hread
      obtain ⟨rfl, -⟩ := Prod.ext_iff.mp heq
      obtain rfl := Option.some.inj hleaf
      exact hread
    rw [if_neg hquote] at hread ⊢
    by_cases hbracket : c = '['
    · rw [if_pos hbracket] at hread
      split_ifs at hread
      · exact absurd (Prod.ext_iff.mp (Option.some.inj hread)).1.symm (harr _)
      · obtain ⟨_, -, heq⟩ := Option.map_eq_some_iff.mp hread
        exact absurd (Prod.ext_iff.mp heq).1.symm (harr _)
    rw [if_neg hbracket] at hread ⊢
    by_cases hbrace : c = openBrace
    · rw [if_pos hbrace] at hread
      split_ifs at hread
      · exact absurd (Prod.ext_iff.mp (Option.some.inj hread)).1.symm (hobj _)
      · obtain ⟨_, -, heq⟩ := Option.map_eq_some_iff.mp hread
        exact absurd (Prod.ext_iff.mp heq).1.symm (hobj _)
    rw [if_neg hbrace] at hread ⊢
    rw [hread, Option.bind_some]
    dsimp only
    rw [hleaf]
    rfl

section Gap

variable {gap : Text} (hgap : ∀ c ∈ gap, isBlank c = true)

include hgap

theorem hookedMembers_member (k : Text) {t : Text} {v : Value} (ht : HookedReads H t v) {fuel : ℕ}
    (hk : k.length < fuel) (hfuel : t.length < fuel) (l : Text) {c : Char}
    (hc : c = ',' ∨ c = closeBrace) :
    hookedMembers H (fuel + 1) (text k ++ ':' :: (gap ++ (t ++ c :: l))) =
      if c = closeBrace then some ([(k, v)], l)
      else (hookedMembers H fuel (skipBlanks l)).map fun (members, rest) ↦
        ((k, v) :: members, rest) := by
  have hchars := readChars_escape k (':' :: (gap ++ (t ++ c :: l))) hk
  have hends : Ends (c :: l) := by
    intro d hd
    obtain rfl := Option.some.inj hd
    exact hc.imp_right .inr
  have hvalue := ht.reads fuel (c :: l) hfuel hends
  have hblank : isBlank c = false := by
    rcases hc with rfl | rfl <;> decide
  have hcolon : skipBlanks (':' :: (gap ++ (t ++ c :: l))) = ':' :: (gap ++ (t ++ c :: l)) :=
    skipBlanks_cons (by decide) _
  unfold text
  rw [List.cons_append, List.append_assoc, List.singleton_append, hookedMembers, List.head?_cons,
    if_pos rfl, List.tail_cons, hchars, Option.bind_some]
  dsimp only
  rw [hcolon, List.head?_cons, if_pos rfl, List.tail_cons, skipBlanks_append hgap,
    ht.skipBlanks_append, hvalue, Option.bind_some]
  dsimp only
  rw [skipBlanks_cons hblank]
  dsimp only
  rcases hc with rfl | rfl
  · have hne : ¬ ',' = closeBrace := by decide
    rw [if_neg hne, if_pos rfl, if_neg hne]
  · rw [if_pos rfl, if_pos rfl]

theorem hookedMembers_gapped {members : List (Text × Text × Value)} (hne : members ≠ [])
    (h : ∀ m ∈ members, HookedReads H m.2.1 m.2.2) {fuel : ℕ} (rest : Text)
    (hfuel : (gappedMembers gap (members.map fun m ↦ (m.1, m.2.1))).length < fuel) :
    hookedMembers H fuel
        (gappedMembers gap (members.map fun m ↦ (m.1, m.2.1)) ++ closeBrace :: rest) =
      some (members.map fun m ↦ (m.1, m.2.2), rest) := by
  induction members generalizing fuel with
  | nil => exact absurd rfl hne
  | cons m members ih =>
      obtain ⟨k, t, v⟩ := m
      obtain ⟨fuel, rfl⟩ := Nat.exists_eq_succ_of_ne_zero (Nat.ne_of_gt (Nat.zero_lt_of_lt hfuel))
      have ht : HookedReads H t v := h _ List.mem_cons_self
      have hkey := length_lt_text k
      cases members with
      | nil =>
          simp only [gappedMembers, joined, List.map_cons, List.map_nil, List.length_append,
            List.length_cons] at hfuel
          have hmember := hookedMembers_member hgap k ht (show k.length < fuel by omega)
            (show t.length < fuel by omega) rest
            (.inr rfl : closeBrace = ',' ∨ closeBrace = closeBrace)
          rw [if_pos rfl] at hmember
          simpa [gappedMembers, joined] using hmember
      | cons m members =>
          have hmembers : ∀ m' ∈ m :: members, HookedReads H m'.2.1 m'.2.2 :=
            fun m' hm' ↦ h m' (List.mem_cons_of_mem _ hm')
          rw [List.map_cons, List.map_cons, gappedMembers_cons_cons] at hfuel ⊢
          rw [← List.map_cons (f := fun m : Text × Text × Value ↦ (m.1, m.2.1))] at hfuel ⊢
          simp only [List.length_append, List.length_cons] at hfuel
          have hrest := ih (List.cons_ne_nil m members) hmembers (show _ < fuel by omega)
          have hmember := hookedMembers_member hgap k ht (show k.length < fuel by omega)
            (show t.length < fuel by omega)
            (gap ++ (gappedMembers gap ((m :: members).map fun m ↦ (m.1, m.2.1)) ++
              closeBrace :: rest))
            (.inl rfl : ',' = ',' ∨ ',' = closeBrace)
          rw [if_neg (by decide), skipBlanks_append hgap, skipBlanks_gappedMembers (by simp),
            hrest] at hmember
          simpa using hmember

/-- The members of a dictionary reach the hook as they were written. -/
theorem hookedReads_object {members : List (Text × Text × Value)} {v : Value}
    (h : ∀ m ∈ members, HookedReads H m.2.1 m.2.2)
    (hv : H.object (members.map fun m ↦ (m.1, m.2.2)) = some v) :
    HookedReads H (gappedObject gap (members.map fun m ↦ (m.1, m.2.1))) v where
  starts := ⟨openBrace, _, rfl, by decide, by decide⟩
  reads fuel rest hfuel _ := by
    obtain ⟨fuel, rfl⟩ := Nat.exists_eq_succ_of_ne_zero (Nat.ne_of_gt (Nat.zero_lt_of_lt hfuel))
    have hquote : openBrace ≠ quote := by decide
    have hbracket : openBrace ≠ '[' := by decide
    simp only [gappedObject, List.length_cons, List.length_append, List.length_nil] at hfuel
    rw [gappedObject, List.cons_append, List.append_assoc, List.singleton_append, hookedValue,
      if_neg hquote, if_neg hbracket, if_pos rfl]
    cases members with
    | nil =>
        have hskip : skipBlanks (closeBrace :: rest) = closeBrace :: rest :=
          skipBlanks_cons (by decide) _
        rw [List.map_nil] at hv
        rw [List.map_nil, gappedMembers, List.map_nil, joined, List.nil_append, hskip,
          List.head?_cons, if_pos rfl, hv]
        rfl
    | cons m members =>
        have hread := hookedMembers_gapped hgap (List.cons_ne_nil m members) h rest
          (show _ < fuel by omega)
        obtain ⟨l, hl⟩ := gappedMembers_cons gap (m.1, m.2.1)
          (members.map fun m ↦ (m.1, m.2.1))
        have hhead : (gappedMembers gap ((m :: members).map fun m ↦ (m.1, m.2.1)) ++
            closeBrace :: rest).head? ≠ some closeBrace := by
          rw [List.map_cons, hl, List.cons_append, List.head?_cons]
          decide
        rw [skipBlanks_gappedMembers (by simp), if_neg hhead, hread, Option.bind_some]
        dsimp only
        rw [hv]
        rfl

omit hgap in
theorem joined_starts_hooked (gap : Text) {items : List (Text × Value)} (hne : items ≠ [])
    (h : ∀ item ∈ items, HookedReads H item.1 item.2) :
    ∃ c l, joined (',' :: gap) (items.map Prod.fst) = c :: l ∧ isBlank c = false ∧ c ≠ ']' := by
  obtain ⟨item, items, rfl⟩ := List.exists_cons_of_ne_nil hne
  obtain ⟨c, l, hc, hblank, hbracket⟩ := (h item List.mem_cons_self).starts
  rw [List.map_cons, hc]
  cases items with
  | nil => exact ⟨c, l, rfl, hblank, hbracket⟩
  | cons item' items => exact ⟨c, _, rfl, hblank, hbracket⟩

theorem hookedItems_gapped {items : List (Text × Value)} (hne : items ≠ [])
    (h : ∀ item ∈ items, HookedReads H item.1 item.2) {fuel : ℕ} (rest : Text)
    (hfuel : (joined (',' :: gap) (items.map Prod.fst)).length + 1 < fuel) :
    hookedItems H fuel (joined (',' :: gap) (items.map Prod.fst) ++ ']' :: rest) =
      some (items.map Prod.snd, rest) := by
  induction items generalizing fuel with
  | nil => exact absurd rfl hne
  | cons item items ih =>
      obtain ⟨t, v⟩ := item
      obtain ⟨fuel, rfl⟩ := Nat.exists_eq_succ_of_ne_zero (Nat.ne_of_gt (Nat.zero_lt_of_lt hfuel))
      have ht : HookedReads H t v := h _ List.mem_cons_self
      cases items with
      | nil =>
          simp only [List.map_cons, List.map_nil, joined] at hfuel ⊢
          have hbracket : skipBlanks (']' :: rest) = ']' :: rest := skipBlanks_cons (by decide) _
          have hends : Ends (']' :: rest) := by
            intro c hc
            exact .inr (.inl (Option.some.inj hc).symm)
          rw [hookedItems, ht.reads fuel _ (by omega) hends, Option.bind_some]
          dsimp only
          rw [hbracket]
          rfl
      | cons item items =>
          have hitems : ∀ item' ∈ item :: items, HookedReads H item'.1 item'.2 :=
            fun item' h' ↦ h item' (List.mem_cons_of_mem _ h')
          obtain ⟨c, l, hl, hblank, -⟩ :=
            joined_starts_hooked gap (List.cons_ne_nil item items) hitems
          have hcomma : ∀ l, skipBlanks (',' :: l) = ',' :: l := skipBlanks_cons (by decide)
          have hends : ∀ l, Ends (',' :: l) := by
            intro l c hc
            exact .inl (Option.some.inj hc).symm
          have hjoined : joined (',' :: gap) (((t, v) :: item :: items).map Prod.fst) =
              t ++ ',' :: (gap ++ joined (',' :: gap) ((item :: items).map Prod.fst)) := by
            simp [joined]
          rw [hjoined] at hfuel ⊢
          simp only [List.length_append, List.length_cons] at hfuel
          have hrest := ih (List.cons_ne_nil item items) hitems (show _ + 1 < fuel by omega)
          have hskip : skipBlanks (gap ++ (joined (',' :: gap) ((item :: items).map Prod.fst) ++
              ']' :: rest)) = joined (',' :: gap) ((item :: items).map Prod.fst) ++ ']' :: rest := by
            rw [skipBlanks_append hgap, hl]
            exact skipBlanks_cons hblank _
          rw [List.append_assoc, List.cons_append, List.append_assoc, hookedItems,
            ht.reads fuel _ (by omega) (hends _), Option.bind_some]
          dsimp only
          rw [hcomma]
          dsimp only
          rw [if_neg (by decide), if_pos rfl, hskip, hrest]
          rfl

theorem hookedReads_array (items : List (Text × Value))
    (h : ∀ item ∈ items, HookedReads H item.1 item.2) :
    HookedReads H (gappedArray gap (items.map Prod.fst)) (.arr (items.map Prod.snd)) where
  starts := ⟨'[', _, rfl, by decide, by decide⟩
  reads fuel rest hfuel _ := by
    obtain ⟨fuel, rfl⟩ := Nat.exists_eq_succ_of_ne_zero (Nat.ne_of_gt (Nat.zero_lt_of_lt hfuel))
    have hquote : '[' ≠ quote := by decide
    simp only [gappedArray, List.length_cons, List.length_append, List.length_nil] at hfuel
    rw [gappedArray, List.cons_append, List.append_assoc, List.singleton_append, hookedValue,
      if_neg hquote, if_pos rfl]
    cases items with
    | nil => rfl
    | cons item items =>
        have hne := List.cons_ne_nil item items
        have hread := hookedItems_gapped hgap hne h rest (show _ + 1 < fuel by omega)
        obtain ⟨c, l, hl, hblank, hbracket⟩ := joined_starts_hooked gap hne h
        have hskip : skipBlanks (joined (',' :: gap) (((item :: items)).map Prod.fst) ++
            ']' :: rest) = c :: (l ++ ']' :: rest) := by
          rw [hl]
          exact skipBlanks_cons hblank _
        rw [hl, List.cons_append] at hread
        rw [hskip, List.head?_cons, if_neg (fun heq ↦ hbracket (Option.some.inj heq)), hread]
        rfl

/-- What is written is read back where no dictionary has a key twice. -/
theorem hookedReads_write (hobject : ∀ fields : Fields, (fields.map Prod.fst).Nodup →
      H.object fields = some (.obj fields)) {v : Value} (hv : IsJson H.number v)
    (hfinite : finite v = true) : HookedReads H (write gap v) v := by
  induction v using value_induction with
  | leaf v harr hobj =>
      have hreads : Reads (write gap v) v := reads_write hgap v (hv.written hfinite)
      refine hreads.hooked harr hobj ?_
      cases v with
      | number t => exact congrArg some hv.2
      | nonFinite t => cases hfinite
      | arr items => exact absurd rfl (harr items)
      | obj fields => exact absurd rfl (hobj fields)
      | _ => rfl
  | arr items ih =>
      rw [isJson_arr_iff] at hv
      rw [finite_arr_iff] at hfinite
      have hreads := hookedReads_array hgap (H := H) (items.map fun v ↦ (write gap v, v)) (by
        rw [List.forall_mem_map]
        exact fun v hmem ↦ ih v hmem (hv v hmem) (hfinite v hmem))
      simpa [write, writeItems_eq_map, Function.comp_def] using hreads
  | obj fields ih =>
      rw [isJson_obj_iff] at hv
      rw [finite_obj_iff] at hfinite
      have hmembers : ∀ m ∈ fields.map fun f ↦ (f.1, write gap f.2, f.2),
          HookedReads H m.2.1 m.2.2 := by
        rw [List.forall_mem_map]
        exact fun f hmem ↦ ih f hmem (hv.2 f hmem) (hfinite f hmem)
      have hreads := hookedReads_object hgap hmembers
        (show _ = some (.obj fields) by simpa [Function.comp_def] using hobject fields hv.1)
      simpa [write, writeFields_eq_map, Function.comp_def] using hreads

end Gap

/-- A canonical text is read as the value in order. -/
theorem IsJson.loadsHooked_canonical (hobject : ∀ fields : Fields, (fields.map Prod.fst).Nodup →
      H.object fields = some (.obj fields)) {v : Value} (hv : IsJson H.number v)
    (hfinite : finite v = true) : loadsHooked H (canonical v) = some (JsonText.sorted v) := by
  have hreads : HookedReads H (canonical v) (JsonText.sorted v) :=
    hookedReads_write (show ∀ c ∈ ([] : Text), isBlank c = true by simp) hobject hv.sorted
      ((finite_sorted v).trans hfinite)
  have hread := hreads.reads ((canonical v).length + 1) [] (Nat.lt_succ_self _) (by simp [Ends])
  have hskip := hreads.skipBlanks_append []
  rw [List.append_nil] at hread hskip
  rw [loadsHooked, hskip, hread]
  rfl

end JsonText
