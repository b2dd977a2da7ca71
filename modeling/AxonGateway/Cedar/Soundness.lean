import Mathlib
import AxonGateway.Cedar.Parser

/-!
# What the parser makes of a statement

On the text of a policy whose literals are plain, every search lands on the part it is
meant for, and the parsed statement matches where the policy applies. A text that is no
statement of the subset is either refused by a check or accepted with a meaning it does not
have.
-/

namespace Cedar

open PyText TextScan

variable {W : WordClass}

/-! ### The bodies -/

/-- The condition the parser makes of a clause. -/
def Clause.read (c : Clause) : Condition := ⟨c.attr, c.value, c.negated⟩

theorem not_mem_word {w : List Char} (hw : ∀ x ∈ w, W.isWord x = true) {c : Char}
    (hc : W.isWord c = false) : c ∉ w := fun h ↦ by simp [hw c h] at hc

theorem quoted_append {v : List Char} (hv : '"' ∉ v) (hne : v ≠ []) (r : List Char) :
    quoted ('"' :: (v ++ '"' :: r)) = some v := by
  simp [quoted, expect, before_append hv, hne]

theorem operatorAt_append (c : Clause) (r : List Char) :
    operatorAt (c.operator ++ r) = some (c.negated, r) := by
  cases hn : c.negated with
  | false => simp [operatorAt, Clause.operator, hn, expect]
  | true => simp [operatorAt, Clause.operator, hn, expect]

theorem operator_cons (c : Clause) :
    ∃ d r, c.operator = d :: r ∧ isSpace d = false ∧ W.isWord d = false := by
  cases hn : c.negated with
  | false => exact ⟨'=', ['='], by simp [Clause.operator, hn], rfl, W.not_delimiter _ (by simp)⟩
  | true => exact ⟨'!', ['='], by simp [Clause.operator, hn], rfl, W.not_delimiter _ (by simp)⟩

/-- The run of word characters ends where the gap before the operator begins. -/
theorem word_split {attr g r : List Char} {d : Char} (hattr : ∀ x ∈ attr, W.isWord x = true)
    (hg : Gap g) (hd : W.isWord d = false) :
    (attr ++ (g ++ d :: r)).takeWhile W.isWord = attr ∧
      (attr ++ (g ++ d :: r)).dropWhile W.isWord = g ++ d :: r := by
  have hstop : (g ++ d :: r).takeWhile W.isWord = [] ∧
      (g ++ d :: r).dropWhile W.isWord = g ++ d :: r := by
    cases g with
    | nil => simp [hd]
    | cons x g => simp [W.not_space x (hg x (by simp))]
  rw [List.takeWhile_append_of_pos hattr, List.dropWhile_append_of_pos hattr, hstop.1, hstop.2]
  simp

theorem condAt_clause {c : Clause} {t : List Char} (ht : ClauseText W c t)
    (hne : c.value ≠ []) : condAt W t = some c.read := by
  obtain ⟨hword, hnamed, hlit, hg, hg'⟩ := ht
  obtain ⟨d, r, hop, hspace, hd⟩ := operator_cons (W := W) c
  rename_i g g'
  have hskip : skip (g ++ (c.operator ++ (g' ++ '"' :: (c.value ++ ['"'])))) =
      c.operator ++ (g' ++ '"' :: (c.value ++ ['"'])) := by
    rw [hop, List.cons_append, skip_gap hg hspace]
  have hsplit := word_split (W := W) (r := r ++ (g' ++ '"' :: (c.value ++ ['"']))) hword hg hd
  rw [← List.cons_append, ← hop] at hsplit
  rw [condAt, expect_append]
  simp only [Option.bind_some, hsplit.1, hsplit.2, if_neg hnamed, hskip, operatorAt_append,
    skip_gap hg' (c := '"') rfl, quoted_append hlit.1 hne []]
  rfl

theorem clause_head {c : Clause} {t : List Char} (ht : ClauseText W c t) :
    ∃ r, t = 'p' :: r := by
  obtain ⟨⟩ := ht
  exact ⟨_, rfl⟩

theorem clause_last {c : Clause} {t : List Char} (ht : ClauseText W c t) :
    ∃ l, t = l ++ ['"'] := by
  obtain ⟨⟩ := ht
  rename_i g g' _ _ _ _ _
  exact ⟨"principal.".toList ++ (c.attr ++ (g ++ (c.operator ++ (g' ++ '"' :: c.value)))),
    by simp⟩

theorem strip_clause {c : Clause} {t g g' : List Char} (ht : ClauseText W c t) (hg : Gap g)
    (hg' : Gap g') : strip (g ++ t ++ g') = t := by
  obtain ⟨r, hr⟩ := clause_head ht
  obtain ⟨l, hl⟩ := clause_last ht
  exact strip_pad hg hg' (c := 'p') (d := '"') rfl rfl hr hl

/-- Outside its literal a clause has neither of these characters. -/
theorem clause_parts {c : Clause} {t : List Char} (ht : ClauseText W c t) :
    ∃ a, t = a ++ '"' :: (c.value ++ ['"']) ∧ ∀ x ∈ "\x7b\x7d&".toList, x ∉ a := by
  obtain ⟨hword, -, -, hg, hg'⟩ := ht
  rename_i g g'
  refine ⟨"principal.".toList ++ c.attr ++ g ++ c.operator ++ g', by simp, fun x hx ↦ ?_⟩
  have hxW : W.isWord x = false := W.not_delimiter x (by simp at hx ⊢; tauto)
  have hxs : isSpace x = false := by simp at hx; rcases hx with rfl | rfl | rfl <;> rfl
  have hop : x ∉ c.operator := by
    simp at hx
    cases hn : c.negated <;> rcases hx with rfl | rfl | rfl <;> simp [Clause.operator, hn]
  have hname : x ∉ "principal.".toList := by
    simp at hx
    rcases hx with rfl | rfl | rfl <;> simp
  simp only [List.mem_append, not_or]
  exact ⟨⟨⟨⟨hname, not_mem_word hword hxW⟩, hg.not_mem hxs⟩, hop⟩, hg'.not_mem hxs⟩

theorem noDouble_clause {c : Clause} {t g g' : List Char} (ht : ClauseText W c t)
    (hc : NoDouble '&' c.value) (hg : Gap g) (hg' : Gap g') : NoDouble '&' (g ++ t ++ g') := by
  obtain ⟨a, rfl, ha⟩ := clause_parts ht
  have hpad : NoDouble '&' (g ++ a ++ ['"'] ++ c.value ++ '"' :: g') := hc.pad
    (by simp [hg.not_mem (c := '&') rfl, ha '&' (by simp)])
    (by simp [hg'.not_mem (c := '&') rfl])
  simpa using hpad

theorem clause_getLast {c : Clause} {t g g' : List Char} (ht : ClauseText W c t) (hg' : Gap g') :
    (g ++ t ++ g').getLast? ≠ some '&' := by
  obtain ⟨l, rfl⟩ := clause_last ht
  intro h
  rw [List.getLast?_append] at h
  cases hg : g'.getLast? with
  | none => simp [hg] at h
  | some d =>
      rw [hg, Option.some_or, Option.some.injEq] at h
      exact hg'.not_mem (c := '&') rfl (h ▸ List.mem_of_getLast? hg)

theorem parseParts_clause {c : Clause} {t g g' : List Char} (ht : ClauseText W c t)
    (hc : c.value ≠ []) (hg : Gap g) (hg' : Gap g') (ps : List (List Char)) :
    parseParts W ((g ++ t ++ g') :: ps) = (parseParts W ps).map (c.read :: ·) := by
  have hne : t ≠ [] := by
    obtain ⟨r, rfl⟩ := clause_head ht
    simp
  rw [parseParts, strip_clause ht hg hg', if_neg hne, search_of_match (condAt_clause ht hc)]
  rfl

theorem parseConditions_body {cs : List Clause} {b : List Char} (hb : BodyText W cs b)
    (hcs : ∀ c ∈ cs, c.value ≠ [] ∧ NoDouble '&' c.value) :
    parseConditions W b = some (cs.map Clause.read) := by
  induction hb with
  | one clause gap gap' =>
      obtain ⟨hne, hdouble⟩ := hcs _ (List.mem_singleton_self _)
      rw [parseConditions, splitDouble_noDouble (noDouble_clause clause hdouble gap gap'),
        parseParts_clause clause hne gap gap']
      rfl
  | and clause gap gap' body ih =>
      obtain ⟨hne, hdouble⟩ := hcs _ List.mem_cons_self
      have htail := ih fun c hc ↦ hcs c (List.mem_cons_of_mem _ hc)
      rw [parseConditions] at htail
      rw [parseConditions, splitDouble_append (noDouble_clause clause hdouble gap gap')
        (clause_getLast clause gap'), parseParts_clause clause hne gap gap', htail]
      rfl

/-! ### Finding the blocks -/

/-- The first character of the keyword. -/
def Keyword.head : Keyword → Char
  | .whenKey => 'w'
  | .unlessKey => 'u'

@[simp] theorem Keyword.head_whenKey : Keyword.whenKey.head = 'w' := rfl

@[simp] theorem Keyword.head_unlessKey : Keyword.unlessKey.head = 'u' := rfl

theorem opens_head (k : Keyword) (c : Char) (cs : List Char) (hc : c ≠ k.head) :
    opens k.chars (c :: cs) = none := by
  cases k with
  | whenKey => simp [opens, expect, show 'w' ≠ c from Ne.symm hc]
  | unlessKey => simp [opens, expect, show 'u' ≠ c from Ne.symm hc]

theorem clear_head {k : Keyword} {w : List Char} (hw : k.head ∉ w) (r : List Char) :
    Clear (opens k.chars) w r := clear_of_head (opens_head k) hw r

theorem Keyword.head_not_space (k : Keyword) : isSpace k.head = false := by cases k <;> rfl

theorem clear_gap {k : Keyword} {g : List Char} (hg : Gap g) (r : List Char) :
    Clear (opens k.chars) g r := clear_head (hg.not_mem k.head_not_space) r

theorem stop_quote (k : Keyword) : Stop k.chars '"' := by
  cases k <;> simp [Stop, isSpace]

theorem stop_close (k : Keyword) : Stop k.chars ')' := by
  cases k <;> simp [Stop, isSpace]

theorem brace_not_mem (k : Keyword) : '{' ∉ k.chars := by
  cases k <;> simp

theorem clear_clause {k : Keyword} {c : Clause} {t g w r : List Char} (ht : ClauseText W c t)
    (hg : Gap g) (hc : KeyFree k.chars c.value) (hw : Clear (opens k.chars) w r) :
    Clear (opens k.chars) (g ++ t ++ w) r := by
  obtain ⟨a, rfl, ha⟩ := clause_parts ht
  have hfront : KeyFree k.chars (g ++ a) := by
    apply keyFree_of_not_mem
    rw [List.mem_append, not_or]
    exact ⟨hg.not_mem rfl, ha '{' (by simp)⟩
  have hcut := clear_cut hfront (stop_quote k) (clear_cut hc (stop_quote k) hw)
  simpa using hcut

/-- No other block starts inside a body. -/
theorem clear_body {k : Keyword} {cs : List Clause} {b : List Char} (hb : BodyText W cs b)
    (hcs : ∀ c ∈ cs, KeyFree k.chars c.value) (r : List Char) :
    Clear (opens k.chars) (b ++ ['}']) r := by
  have hclose : Clear (opens k.chars) ['}'] r := clear_head (by cases k <;> simp) r
  induction hb with
  | one clause gap gap' =>
      rw [List.append_assoc]
      exact clear_clause clause gap (hcs _ (List.mem_singleton_self _))
        (clear_append.mpr ⟨clear_gap gap' _, hclose⟩)
  | @and c cs t b g g' clause gap gap' body ih =>
      have htail := ih fun c hc ↦ hcs c (List.mem_cons_of_mem _ hc)
      have hand : Clear (opens k.chars) (g' ++ ['&', '&'] ++ (b ++ ['}'])) r := by
        refine clear_append.mpr ⟨clear_append.mpr ⟨clear_gap gap' _, ?_⟩, htail⟩
        exact clear_head (by cases k <;> simp) _
      have hall := clear_clause clause gap (hcs _ List.mem_cons_self) hand
      simpa using hall

theorem close_not_mem_body {cs : List Clause} {b : List Char} (hb : BodyText W cs b)
    (hcs : ∀ c ∈ cs, '}' ∉ c.value) : '}' ∉ b := by
  induction hb with
  | one clause gap gap' =>
      obtain ⟨a, rfl, ha⟩ := clause_parts clause
      simp [gap.not_mem (c := '}') rfl, gap'.not_mem (c := '}') rfl, ha '}' (by simp), hcs]
  | and clause gap gap' body ih =>
      obtain ⟨a, rfl, ha⟩ := clause_parts clause
      have hc := hcs _ List.mem_cons_self
      have htail := ih fun c hc ↦ hcs c (List.mem_cons_of_mem _ hc)
      simp [gap.not_mem (c := '}') rfl, gap'.not_mem (c := '}') rfl, ha '}' (by simp), hc, htail]

theorem clear_blockAt {k : Keyword} {w r : List Char} (h : Clear (opens k.chars) w r) :
    Clear (blockAt k) w r := by
  induction w with
  | nil => trivial
  | cons c w ih => exact ⟨by rw [blockAt, h.1]; rfl, ih h.2⟩

/-- The keywords end in different letters. -/
theorem keyword_last {k k' : Keyword} (hk : k ≠ k') :
    ∃ l l' c c', k.chars = l ++ [c] ∧ k'.chars = l' ++ [c'] ∧ isSpace c = false ∧
      isSpace c' = false ∧ c ≠ c' := by
  cases k <;> cases k'
  · exact absurd rfl hk
  · exact ⟨"whe".toList, "unles".toList, 'n', 's', by simp, by simp,
      rfl, rfl, by decide⟩
  · exact ⟨"unles".toList, "whe".toList, 's', 'n', by simp, by simp,
      rfl, rfl, by decide⟩
  · exact absurd rfl hk

/-- The search for one keyword passes over the block of the other. -/
theorem clear_block {k k' : Keyword} (hk : k ≠ k') {cs : List Clause} {t : List Char}
    (ht : BlockText W k' cs t) (hcs : ∀ c ∈ cs, KeyFree k.chars c.value) (r : List Char) :
    Clear (opens k.chars) t r := by
  cases ht with
  | absent => trivial
  | @body _ b g g' gap gap' body =>
      obtain ⟨l, l', c, c', hl, hl', hc, hc', hne⟩ := keyword_last hk
      have hfront : '{' ∉ g ++ k'.chars ++ g' := by
        simp [gap.not_mem (c := '{') rfl, gap'.not_mem (c := '{') rfl, brace_not_mem]
      refine clear_append.mpr ⟨?_, opens_head k _ _ (by cases k <;> simp),
        clear_body body hcs r⟩
      exact clear_brace (brace_not_mem k) hfront hl hc
        (show g ++ k'.chars ++ g' = (g ++ l') ++ c' :: g' by simp [hl']) hc' gap' hne _

theorem search_block {k : Keyword} {cs : List Clause} {b g g' : List Char} (gap : Gap g)
    (gap' : Gap g') (hb : BodyText W cs b) (hcs : ∀ c ∈ cs, '}' ∉ c.value) (r : List Char) :
    search (blockAt k) ((g ++ k.chars ++ g' ++ '{' :: (b ++ ['}'])) ++ r) = some b := by
  have hmatch : blockAt k (k.chars ++ (g' ++ '{' :: (b ++ '}' :: r))) = some b := by
    rw [blockAt, opens_eq_some.mpr ⟨g', gap', rfl⟩, Option.bind_some,
      before_append (close_not_mem_body hb hcs)]
    rfl
  have hclear : Clear (blockAt k) g (k.chars ++ (g' ++ '{' :: (b ++ '}' :: r))) :=
    clear_blockAt (clear_gap gap _)
  have hfound := (search_clear hclear).trans (search_of_match hmatch)
  simpa using hfound

/-! ### The scope -/

/-- Outside the action literal a scope has neither of these characters. -/
theorem scope_parts {a : Option (List Char)} {s : List Char} (hs : ScopeText a s) :
    (a = none ∧ ∀ x ∈ "\x7b)".toList, x ∉ s) ∨
      ∃ v l r, a = some v ∧ s = l ++ '"' :: (v ++ '"' :: r) ∧ ∀ x ∈ "\x7b)".toList, x ∉ l ∧ x ∉ r := by
  have hspace : ∀ x ∈ "\x7b)".toList, isSpace x = false := by
    intro x hx
    simp at hx
    rcases hx with rfl | rfl <;> rfl
  have hfixed : ∀ x ∈ "\x7b)".toList, x ∉ "principal".toList ∧ x ∉ "resource".toList ∧
      x ∉ "action".toList ∧ x ∉ "==".toList ∧ x ∉ "Action::".toList ∧ x ∉ [','] := by
    intro x hx
    simp at hx
    rcases hx with rfl | rfl <;> simp
  obtain ⟨haction, h₁, h₂, h₃, h₄, h₅, h₆⟩ := hs
  rename_i t g₁ g₂ g₃ g₄ g₅ g₆
  cases haction with
  | bare =>
      refine .inl ⟨rfl, fun x hx ↦ ?_⟩
      have hg := hspace x hx
      obtain ⟨hp, hr, ha, -, -, hcomma⟩ := hfixed x hx
      simp only [List.mem_append, not_or]
      exact ⟨⟨⟨⟨⟨⟨h₁.not_mem hg, hp⟩, h₂.not_mem hg⟩, hcomma⟩, h₃.not_mem hg⟩, ha⟩,
        ⟨⟨⟨h₄.not_mem hg, hcomma⟩, h₅.not_mem hg⟩, hr⟩, h₆.not_mem hg⟩
  | @equality v g g' literal gap gap' =>
      refine .inr ⟨v, g₁ ++ "principal".toList ++ g₂ ++ [','] ++ g₃ ++ "action".toList ++ g ++
        "==".toList ++ g' ++ "Action::".toList, g₄ ++ [','] ++ g₅ ++ "resource".toList ++ g₆, rfl,
        by simp, fun x hx ↦ ?_⟩
      have hg := hspace x hx
      obtain ⟨hp, hr, ha, heq, hact, hcomma⟩ := hfixed x hx
      simp only [List.mem_append, not_or]
      exact ⟨⟨⟨⟨⟨⟨⟨⟨⟨⟨h₁.not_mem hg, hp⟩, h₂.not_mem hg⟩, hcomma⟩, h₃.not_mem hg⟩, ha⟩,
        gap.not_mem hg⟩, heq⟩, gap'.not_mem hg⟩, hact⟩,
        ⟨⟨⟨h₄.not_mem hg, hcomma⟩, h₅.not_mem hg⟩, hr⟩, h₆.not_mem hg⟩

theorem close_not_mem_scope {a : Option (List Char)} {s : List Char} (hs : ScopeText a s)
    (ha : ∀ v, a = some v → ')' ∉ v) : ')' ∉ s := by
  obtain ⟨-, h⟩ | ⟨v, l, r, hv, rfl, h⟩ := scope_parts hs
  · exact h ')' (by simp)
  · obtain ⟨hl, hr⟩ := h ')' (by simp)
    simp [hl, hr, ha v hv]

theorem effect_chars (e : Effect) : '{' ∉ e.chars := by cases e <;> simp

/-- No block starts before the parenthesis that closes the scope. -/
theorem clear_scope {k : Keyword} {a : Option (List Char)} {s g : List Char} (e : Effect)
    (hg : Gap g) (hs : ScopeText a s) (ha : ∀ v, a = some v → KeyFree k.chars v)
    (r : List Char) : Clear (opens k.chars) (e.chars ++ g ++ '(' :: (s ++ [')'])) r := by
  have hlead : '{' ∉ e.chars ++ g ++ ['('] := by
    simp [effect_chars, hg.not_mem (c := '{') rfl]
  have hnil : Clear (opens k.chars) [] r := trivial
  obtain ⟨-, h⟩ | ⟨v, l, x, hv, rfl, h⟩ := scope_parts hs
  · have hfront : KeyFree k.chars (e.chars ++ g ++ ['('] ++ s) := by
      apply keyFree_of_not_mem
      rw [List.mem_append, not_or]
      exact ⟨hlead, h '{' (by simp)⟩
    simpa using clear_cut hfront (stop_close k) hnil
  · obtain ⟨hl, hx⟩ := h '{' (by simp)
    have hfront : KeyFree k.chars (e.chars ++ g ++ ['('] ++ l) := by
      apply keyFree_of_not_mem
      rw [List.mem_append, not_or]
      exact ⟨hlead, hl⟩
    have htail := clear_cut (keyFree_of_not_mem hx) (stop_close k) hnil
    have hall := clear_cut hfront (stop_quote k) (clear_cut (ha v hv) (stop_quote k) htail)
    simpa using hall

theorem action_chars : "action".toList = 'a' :: 'c' :: "tion".toList := by simp

theorem actionAt_head (c : Char) (cs : List Char) (hc : c ≠ 'a') : actionAt (c :: cs) = none := by
  rw [actionAt, action_chars, expect_head_ne (Ne.symm hc)]
  rfl

theorem clear_actionAt {w : List Char} (hw : 'a' ∉ w) (r : List Char) : Clear actionAt w r :=
  clear_of_head actionAt_head hw r

theorem clear_principal (r : List Char) : Clear actionAt "principal".toList r := by
  have hsplit : "principal".toList = "princip".toList ++ ['a', 'l'] := by simp
  have hal : actionAt ('a' :: 'l' :: r) = none := by
    rw [actionAt, action_chars, expect, if_pos rfl, expect_head_ne (by decide)]
    rfl
  rw [hsplit, clear_append]
  exact ⟨clear_actionAt (by simp) _, hal, actionAt_head _ _ (by decide), trivial⟩

/-- The action that the search finds is the one the scope names. -/
theorem search_actionAt {a : Option (List Char)} {s : List Char} (hs : ScopeText a s)
    (ha : a ≠ some []) : search actionAt s = a := by
  obtain ⟨haction, h₁, h₂, h₃, h₄, h₅, h₆⟩ := hs
  rename_i t g₁ g₂ g₃ g₄ g₅ g₆
  have hspace : isSpace 'a' = false := rfl
  have hfront (r : List Char) :
      Clear actionAt (g₁ ++ "principal".toList ++ g₂ ++ [','] ++ g₃) r := by
    simp only [clear_append]
    exact ⟨⟨⟨⟨clear_actionAt (h₁.not_mem hspace) _, clear_principal _⟩,
      clear_actionAt (h₂.not_mem hspace) _⟩, clear_actionAt (by simp) _⟩,
      clear_actionAt (h₃.not_mem hspace) _⟩
  rw [List.append_assoc, search_clear (hfront _)]
  cases haction with
  | bare =>
      have hname (r : List Char) : actionAt ("action".toList ++ (g₄ ++ ',' :: r)) = none := by
        have heq : "==".toList = ['=', '='] := by simp
        rw [actionAt, expect_append, Option.bind_some, skip_gap h₄ rfl, heq,
          expect_head_ne (by decide)]
        rfl
      have hrest : Clear actionAt (g₄ ++ [','] ++ g₅ ++ "resource".toList ++ g₆) [] := by
        simp only [clear_append]
        exact ⟨⟨⟨⟨clear_actionAt (h₄.not_mem hspace) _, clear_actionAt (by simp) _⟩,
          clear_actionAt (h₅.not_mem hspace) _⟩, clear_actionAt (by simp) _⟩,
          clear_actionAt (h₆.not_mem hspace) _⟩
      have hall : Clear actionAt ("action".toList ++
          (g₄ ++ [','] ++ g₅ ++ "resource".toList ++ g₆)) [] := by
        rw [clear_append]
        refine ⟨?_, hrest⟩
        rw [action_chars]
        refine ⟨?_, clear_actionAt (by simp) _⟩
        have := hname (g₅ ++ ("resource".toList ++ g₆))
        rw [action_chars] at this
        simpa only [List.append_assoc, List.cons_append, List.nil_append, List.append_nil] using this
      exact search_eq_none hall rfl
  | @equality v g g' literal gap gap' =>
      apply search_of_match
      have hne : v ≠ [] := fun h ↦ ha (by rw [h])
      rw [actionAt]
      simp only [List.append_assoc, List.cons_append, List.nil_append]
      rw [expect_append, Option.bind_some]
      have hskip := skip_gap gap (c := '=') rfl ('=' :: (g' ++ ("Action::".toList ++
        '"' :: (v ++ '"' :: (g₄ ++ ',' :: (g₅ ++ ("resource".toList ++ g₆)))))))
      have hskip' := skip_gap gap' (c := 'A') rfl ("ction::".toList ++
        '"' :: (v ++ '"' :: (g₄ ++ ',' :: (g₅ ++ ("resource".toList ++ g₆)))))
      have heq : "==".toList = ['=', '='] := by simp
      have hact : "Action::".toList = 'A' :: "ction::".toList := by simp
      rw [heq, List.cons_append, List.cons_append, List.nil_append, hskip]
      simp only [expect, if_true, Option.bind_some]
      rw [hact, List.cons_append, hskip', ← List.cons_append, expect_append, Option.bind_some,
        quoted_append literal.1 hne]

/-! ### The statement inside its padding -/

theorem block_last {k : Keyword} {cs : List Clause} {t : List Char} (ht : BlockText W k cs t) :
    t = [] ∨ ∃ l, t = l ++ ['}'] := by
  cases ht with
  | absent => exact .inl rfl
  | @body _ b g g' gap gap' body =>
      exact .inr ⟨g ++ k.chars ++ g' ++ '{' :: b, by simp⟩

theorem bodies_last {p : Policy} {t : List Char} (ht : BodiesText W p t) :
    t = [] ∨ ∃ l, t = l ++ ['}'] := by
  obtain ⟨t₁, t₂, rfl, h₁, h₂⟩ : ∃ t₁ t₂, t = t₁ ++ t₂ ∧ (t₁ = [] ∨ ∃ l, t₁ = l ++ ['}']) ∧
      (t₂ = [] ∨ ∃ l, t₂ = l ++ ['}']) := by
    cases ht with
    | whenFirst first second => exact ⟨_, _, rfl, block_last first, block_last second⟩
    | unlessFirst first second => exact ⟨_, _, rfl, block_last first, block_last second⟩
  obtain rfl | ⟨l, rfl⟩ := h₂
  · simpa using h₁
  · exact .inr ⟨t₁ ++ l, by simp⟩

theorem core_ends {p : Policy} {t : List Char} (ht : CoreText W p t) :
    (∃ c r, t = c :: r ∧ isSpace c = false) ∧
      ∃ l d, t = l ++ [d] ∧ isSpace d = false ∧ d ≠ ';' := by
  obtain ⟨hg, hs, hb⟩ := ht
  rename_i g scope bodies
  constructor
  · cases p.effect with
    | permit => exact ⟨'p', _, rfl, rfl⟩
    | forbid => exact ⟨'f', _, rfl, rfl⟩
  · obtain rfl | ⟨l, rfl⟩ := bodies_last hb
    · exact ⟨p.effect.chars ++ g ++ '(' :: scope, ')', by simp, rfl, by decide⟩
    · exact ⟨p.effect.chars ++ g ++ '(' :: (scope ++ ')' :: l), '}', by simp, rfl, by decide⟩

/-- `strip`, `rstrip` of semicolons and `strip` leave the statement itself. -/
theorem trim_statement {p : Policy} {t : List Char} (ht : StatementText W p t) :
    CoreText W p (trim t) := by
  cases ht with
  | @plain x g g' core gap gap' =>
      obtain ⟨⟨c, r, hc, hcs⟩, l, d, hd, hds, hsemi⟩ := core_ends core
      have hstrip : strip (g ++ x ++ g') = x := strip_pad gap gap' hcs hds hc hd
      have hdrop : x.rdropWhile (· == ';') = x := by
        rw [hd]
        exact List.rdropWhile_concat_neg _ _ _ (by simpa using hsemi)
      have hagain : strip x = x := by
        simpa using strip_pad gap_nil gap_nil hcs hds hc hd
      rwa [trim, hstrip, hdrop, hagain]
  | @semicolon x g g' g'' core gap gap' gap'' =>
      obtain ⟨⟨c, r, hc, hcs⟩, l, d, hd, hds, hsemi⟩ := core_ends core
      have hstrip : strip (g ++ (x ++ g' ++ [';']) ++ g'') = x ++ g' ++ [';'] :=
        strip_pad gap gap'' hcs (d := ';') rfl (by rw [hc]; rfl) rfl
      have hdrop : (x ++ g' ++ [';']).rdropWhile (· == ';') = x ++ g' := by
        rw [List.rdropWhile_concat_pos _ _ _ (by simp), List.rdropWhile_eq_self_iff]
        intro hne hlast
        have hmem : ';' ∈ (x ++ g').getLast? := by
          rw [List.getLast?_eq_some_getLast hne]
          simpa using hlast
        rw [List.getLast?_append] at hmem
        cases hg' : g'.getLast? with
        | none =>
            rw [hg', Option.none_or, hd, List.getLast?_concat] at hmem
            exact hsemi (Option.some.inj hmem)
        | some e =>
            rw [hg', Option.some_or] at hmem
            have he : e = ';' := Option.some.inj hmem
            exact gap'.not_mem (c := ';') rfl (he ▸ List.mem_of_getLast? hg')
      have hagain : strip (x ++ g') = x := by
        simpa using strip_pad gap_nil gap' hcs hds hc hd
      rwa [trim, hstrip, hdrop, hagain]

/-! ### The parsed statement -/

theorem conditionsOf_clear {k : Keyword} {w r : List Char} (h : Clear (opens k.chars) w r) :
    conditionsOf W k (w ++ r) = conditionsOf W k r := by
  rw [conditionsOf, search_clear (clear_blockAt h), conditionsOf]

theorem conditionsOf_block {k : Keyword} {cs : List Clause} {t r : List Char}
    (ht : BlockText W k cs t) (hcs : ∀ c ∈ cs, c.value ≠ [] ∧ '}' ∉ c.value ∧ NoDouble '&' c.value)
    (hr : Clear (opens k.chars) r []) : conditionsOf W k (t ++ r) = some (cs.map Clause.read) := by
  cases ht with
  | absent =>
      have hnone : search (blockAt k) r = none :=
        search_eq_none (clear_blockAt hr) (by cases k <;> rfl)
      rw [List.nil_append, conditionsOf, hnone]
      rfl
  | body gap gap' body =>
      rw [conditionsOf, search_block gap gap' body fun c hc ↦ (hcs c hc).2.1]
      exact parseConditions_body body fun c hc ↦ ⟨(hcs c hc).1, (hcs c hc).2.2⟩

theorem conditionsOf_bodies {p : Policy} {t : List Char} (ht : BodiesText W p t)
    (hp : p.Plain) :
    conditionsOf W .whenKey t = some (p.whenBody.map Clause.read) ∧
      conditionsOf W .unlessKey t = some (p.unlessBody.map Clause.read) := by
  have hw : ∀ c ∈ p.whenBody, c.value ≠ [] ∧ '}' ∉ c.value ∧ NoDouble '&' c.value ∧
    Quiet c.value := fun c hc ↦ hp.clause c (List.mem_append_left _ hc)
  have hu : ∀ c ∈ p.unlessBody, c.value ≠ [] ∧ '}' ∉ c.value ∧ NoDouble '&' c.value ∧
    Quiet c.value := fun c hc ↦ hp.clause c (List.mem_append_right _ hc)
  have hw' : ∀ c ∈ p.whenBody, c.value ≠ [] ∧ '}' ∉ c.value ∧ NoDouble '&' c.value :=
    fun c hc ↦ ⟨(hw c hc).1, (hw c hc).2.1, (hw c hc).2.2.1⟩
  have hu' : ∀ c ∈ p.unlessBody, c.value ≠ [] ∧ '}' ∉ c.value ∧ NoDouble '&' c.value :=
    fun c hc ↦ ⟨(hu c hc).1, (hu c hc).2.1, (hu c hc).2.2.1⟩
  cases ht with
  | @whenFirst t t' first second =>
      have hpass : Clear (opens Keyword.whenKey.chars) t' [] :=
        clear_block (by simp) second (fun c hc ↦ (hu c hc).2.2.2 _) _
      have hpass' : Clear (opens Keyword.unlessKey.chars) t t' :=
        clear_block (by simp) first (fun c hc ↦ (hw c hc).2.2.2 _) _
      refine ⟨conditionsOf_block first hw' hpass, ?_⟩
      rw [conditionsOf_clear hpass']
      simpa using conditionsOf_block (r := []) second hu' trivial
  | @unlessFirst t t' first second =>
      have hpass : Clear (opens Keyword.whenKey.chars) t t' :=
        clear_block (by simp) first (fun c hc ↦ (hu c hc).2.2.2 _) _
      have hpass' : Clear (opens Keyword.unlessKey.chars) t' [] :=
        clear_block (by simp) second (fun c hc ↦ (hw c hc).2.2.2 _) _
      refine ⟨?_, conditionsOf_block first hu' hpass'⟩
      rw [conditionsOf_clear hpass]
      simpa using conditionsOf_block (r := []) second hw' trivial

theorem effectOf_chars (e : Effect) (r : List Char) : effectOf (e.chars ++ r) = some e := by
  cases e with
  | permit =>
      rw [effectOf, show Effect.permit.chars = "permit".toList from rfl, expect_append]
      exact if_pos rfl
  | forbid =>
      have hp : expect "permit".toList ("forbid".toList ++ r) = none := by
        have hsplit : "permit".toList = 'p' :: "ermit".toList := by simp
        have hsplit' : "forbid".toList = 'f' :: "orbid".toList := by simp
        rw [hsplit, hsplit']
        exact expect_head_ne (by decide) _ _
      rw [effectOf, show Effect.forbid.chars = "forbid".toList from rfl, hp, expect_append,
        if_neg (by simp)]
      exact if_pos rfl

theorem scopeAt_core {e : Effect} {g scope : List Char} (hg : Gap g) (hs : ')' ∉ scope)
    (bodies : List Char) :
    scopeAt e (e.chars ++ g ++ '(' :: (scope ++ ')' :: bodies)) = some scope := by
  rw [scopeAt, List.append_assoc, expect_append, Option.bind_some, skip_gap hg rfl]
  simp [expect, before_append hs]

/-- The statement a policy is read as. -/
def Policy.read (p : Policy) : Statement :=
  ⟨p.effect, p.action, p.whenBody.map Clause.read, p.unlessBody.map Clause.read⟩

theorem core_reads {p : Policy} {t : List Char} (ht : CoreText W p t) (hp : p.Plain) :
    effectOf t = some p.effect ∧
      (∃ scope, scopeAt p.effect t = some scope ∧ search actionAt scope = p.action) ∧
      conditionsOf W .whenKey t = some (p.whenBody.map Clause.read) ∧
      conditionsOf W .unlessKey t = some (p.unlessBody.map Clause.read) := by
  obtain ⟨hg, hscope, hbodies⟩ := ht
  rename_i g scope bodies
  have hclose : ')' ∉ scope := close_not_mem_scope hscope fun v hv ↦ (hp.action v hv).2.1
  have haction : p.action ≠ some [] := fun h ↦ (hp.action [] h).1 rfl
  have hpass (k : Keyword) : conditionsOf W k (p.effect.chars ++ g ++ '(' :: (scope ++ ')' :: bodies)) =
      conditionsOf W k bodies := by
    have hclear := clear_scope (k := k) p.effect hg hscope
      (fun v hv ↦ (hp.action v hv).2.2 k) bodies
    simpa using conditionsOf_clear hclear
  refine ⟨?_, ⟨scope, scopeAt_core hg hclose bodies, search_actionAt hscope haction⟩, ?_, ?_⟩
  · rw [List.append_assoc, effectOf_chars]
  · rw [hpass, (conditionsOf_bodies hbodies hp).1]
  · rw [hpass, (conditionsOf_bodies hbodies hp).2]

theorem parsePolicy_plain {p : Policy} {t : List Char} {s : Statement}
    (ht : StatementText W p t) (hp : p.Plain) (hs : parsePolicy W t = some s) : s = p.read := by
  obtain ⟨heffect, ⟨scope, hscope, haction⟩, hwhen, hunless⟩ := core_reads (trim_statement ht) hp
  rw [parsePolicy] at hs
  simp only [heffect, hscope, hwhen, hunless, haction, Option.bind_some, Option.map_some] at hs
  split at hs
  · simp at hs
  · exact (Option.some.inj hs).symm

/-! ### What a statement matches -/

/-- The principal a request context shows. -/
def Context.principal (ctx : Context) : Principal where
  roles := ctx.roles
  scalar attr := ctx.getattr (attrAlias attr)

theorem equal_iff_has (ctx : Context) (attr value : List Char) :
    (if attr = "role".toList then decide (value ∈ ctx.roles)
      else decide (principalAttr ctx attr = some value)) = true ↔ ctx.principal.Has attr value := by
  by_cases hrole : attr = "role".toList
  · simp only [Principal.Has, Context.principal, if_pos hrole, decide_eq_true_iff]
  · simp only [Principal.Has, Context.principal, principalAttr, if_neg hrole, decide_eq_true_iff]

theorem holds_read (c : Clause) (ctx : Context) :
    c.read.holds ctx = true ↔ c.Holds ctx.principal := by
  obtain ⟨attr, negated, value⟩ := c
  cases negated with
  | false => exact equal_iff_has ctx attr value
  | true =>
      apply Iff.trans _ (not_congr (equal_iff_has ctx attr value))
      rw [Bool.not_eq_true, ← Bool.not_eq_true']
      rfl

theorem all_read (cs : List Clause) (ctx : Context) :
    (cs.map Clause.read).all (·.holds ctx) = true ↔ ∀ c ∈ cs, c.Holds ctx.principal := by
  simp [List.all_eq_true, holds_read]

theorem matches_read (p : Policy) (ctx : Context) (action : List Char) :
    p.read.matches ctx action = true ↔ p.Applies ctx.principal action := by
  have hscope : (p.action ≠ none ∧ p.action ≠ some action) ↔
      ¬ ∀ a, p.action = some a → a = action := by
    cases p.action <;> simp
  have hexcept : (p.unlessBody.map Clause.read ≠ [] ∧
      (p.unlessBody.map Clause.read).all (·.holds ctx) = true) ↔
      ¬ (p.unlessBody ≠ [] → ∃ c ∈ p.unlessBody, ¬ c.Holds ctx.principal) := by
    rw [all_read, Classical.not_imp]
    simp
  have hwhen := all_read p.whenBody ctx
  rw [Statement.matches, Policy.read]
  constructor
  · intro h
    split_ifs at h with h₁ h₂ h₃
    exact ⟨not_not.mp (h₁ ∘ hscope.mpr), hwhen.mp h₂,
      not_not.mp (h₃ ∘ hexcept.mpr)⟩
  · rintro ⟨h₁, h₂, h₃⟩
    rw [if_neg fun h ↦ hscope.mp h h₁, if_neg (not_not.mpr (hwhen.mpr h₂)),
      if_neg fun h ↦ hexcept.mp h h₃]

/-! ### Soundness -/

/-- The parser refuses the text, or the text is a statement of the subset and the parsed
statement has its effect and matches where it applies. -/
def Sound (W : WordClass) (t : List Char) : Prop :=
  ∀ s, parsePolicy W t = some s → ∃ p, StatementText W p t ∧ s.effect = p.effect ∧
    ∀ ctx action, s.matches ctx action = true ↔ p.Applies ctx.principal action

theorem sound_of_plain {t : List Char} {p : Policy} (ht : StatementText W p t) (hp : p.Plain) :
    Sound W t := by
  intro s hs
  obtain rfl := parsePolicy_plain ht hp hs
  exact ⟨p, ht, rfl, fun ctx action ↦ matches_read p ctx action⟩

theorem quote_mem_block {k : Keyword} {cs : List Clause} {t : List Char}
    (ht : BlockText W k cs t) : t = [] ∨ '"' ∈ t := by
  cases ht with
  | absent => exact .inl rfl
  | @body _ b g g' gap gap' body =>
      have hb : '"' ∈ b := by
        cases body with
        | one clause =>
            obtain ⟨a, rfl, -⟩ := clause_parts clause
            simp
        | and clause =>
            obtain ⟨a, rfl, -⟩ := clause_parts clause
            simp
      simp [hb]

theorem quote_mem_bodies {p : Policy} {t : List Char} (ht : BodiesText W p t) :
    t = [] ∨ '"' ∈ t := by
  cases ht with
  | whenFirst first second =>
      obtain rfl | h := quote_mem_block first
      · simpa using quote_mem_block second
      · exact .inr (List.mem_append_left _ h)
  | unlessFirst first second =>
      obtain rfl | h := quote_mem_block first
      · simpa using quote_mem_block second
      · exact .inr (List.mem_append_left _ h)

theorem scope_unquoted {a : Option (List Char)} {s : List Char} (hs : ScopeText a s)
    (hq : '"' ∉ s) {x : Char} (hx : isSpace x = false) (hp : x ∉ "principal".toList)
    (ha : x ∉ "action".toList) (hr : x ∉ "resource".toList) (hcomma : x ≠ ',') : x ∉ s := by
  have hcomma' : x ∉ [','] := by simpa using hcomma
  obtain ⟨haction, h₁, h₂, h₃, h₄, h₅, h₆⟩ := hs
  cases haction with
  | bare =>
      simp only [List.mem_append, not_or]
      exact ⟨⟨⟨⟨⟨⟨h₁.not_mem hx, hp⟩, h₂.not_mem hx⟩, hcomma'⟩, h₃.not_mem hx⟩, ha⟩,
        ⟨⟨⟨h₄.not_mem hx, hcomma'⟩, h₅.not_mem hx⟩, hr⟩, h₆.not_mem hx⟩
  | equality literal gap gap' => simp at hq

/-- Without a literal a capital letter has no place in a statement. -/
theorem core_unquoted {p : Policy} {t : List Char} (ht : CoreText W p t) (hq : '"' ∉ t) :
    'U' ∉ t := by
  obtain ⟨hg, hs, hb⟩ := ht
  simp only [List.mem_append, List.mem_cons, not_or] at hq
  obtain rfl | hmem := quote_mem_bodies hb
  · have hscope := scope_unquoted hs hq.2.2.1 (x := 'U') rfl (by simp) (by simp) (by simp)
      (by simp)
    have heffect : 'U' ∉ p.effect.chars := by cases p.effect <;> simp
    simp [heffect, hg.not_mem (c := 'U') rfl, hscope]
  · exact absurd hmem hq.2.2.2.2

/-- A negation in front of a clause is dropped as well, which inverts the condition. -/
example : parsePolicy asciiWord
      "forbid(principal, action, resource) when \x7b !(principal.role == \"senior\") \x7d;".toList =
    parsePolicy asciiWord
      "forbid(principal, action, resource) when \x7b principal.role == \"senior\" \x7d;".toList := by
  decide +kernel

end Cedar
