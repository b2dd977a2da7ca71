import Mathlib

/-!
# Values read from JSON

The values that `json.loads` returns, with the text that `str` gives for them and the text that
`json.dumps` gives.  A dictionary is a list of its items in the order of insertion.
-/

namespace PyValue

abbrev Text := List Char

/-- A value without surrogates in its texts.  A finite number is given by the text that Python
writes for it, an infinity or a NaN by the text of `repr`. -/
inductive Value where
  | null
  | bool (b : Bool)
  | number (text : Text)
  | nonFinite (text : Text)
  | str (text : Text)
  | arr (items : List Value)
  | obj (fields : List (Text × Value))

abbrev Fields := List (Text × Value)

section Dictionaries

variable {K V : Type} [BEq K]

/-- `d[k] = v`: the item stays where it is, a new one comes last. -/
def set (d : List (K × V)) (k : K) (v : V) : List (K × V) :=
  match d with
  | [] => [(k, v)]
  | (k', v') :: d => if k' == k then (k', v) :: d else (k', v') :: set d k v

@[simp] theorem set_nil (k : K) (v : V) : set [] k v = [(k, v)] := rfl

theorem set_cons (k' : K) (v' : V) (d : List (K × V)) (k : K) (v : V) :
    set ((k', v') :: d) k v = if k' == k then (k', v) :: d else (k', v') :: set d k v := rfl

variable [LawfulBEq K]

theorem lookup_set (d : List (K × V)) (k : K) (v : V) : (set d k v).lookup k = some v := by
  induction d with
  | nil => simp
  | cons item d ih =>
      obtain ⟨k', v'⟩ := item
      by_cases h : k' = k
      · simp [set_cons, h]
      · have h' : (k == k') = false := beq_false_of_ne (Ne.symm h)
        simp [set_cons, h, List.lookup_cons, h', ih]

theorem lookup_set_of_ne {k k' : K} (h : k' ≠ k) (d : List (K × V)) (v : V) :
    (set d k v).lookup k' = d.lookup k' := by
  have hk : (k' == k) = false := beq_false_of_ne h
  induction d with
  | nil => simp [List.lookup_cons, hk]
  | cons item d ih =>
      obtain ⟨k₁, v₁⟩ := item
      rw [set_cons]
      split_ifs with heq
      · obtain rfl := eq_of_beq heq
        simp [List.lookup_cons, hk]
      · rw [List.lookup_cons, List.lookup_cons, ih]

/-- A new item comes last. -/
theorem set_of_lookup_eq_none {d : List (K × V)} {k : K} (h : d.lookup k = none) (v : V) :
    set d k v = d ++ [(k, v)] := by
  induction d with
  | nil => rfl
  | cons item d ih =>
      obtain ⟨k', v'⟩ := item
      have hne : ¬ k' = k := by
        rintro rfl
        rw [List.lookup_cons_self] at h
        cases h
      rw [List.lookup_cons, beq_false_of_ne (Ne.symm hne)] at h
      simp [set_cons, hne, ih h]

theorem filter_set_ne (d : List (K × V)) (k : K) (v : V) :
    (set d k v).filter (fun item ↦ item.1 != k) = d.filter fun item ↦ item.1 != k := by
  induction d with
  | nil => simp
  | cons item d ih =>
      obtain ⟨k₁, v₁⟩ := item
      rw [set_cons]
      split_ifs with heq
      · obtain rfl := eq_of_beq heq
        simp
      · rw [List.filter_cons, List.filter_cons, ih]

theorem mem_set {d : List (K × V)} {k : K} {v : V} {item : K × V} (h : item ∈ set d k v) :
    item = (k, v) ∨ item ∈ d := by
  induction d with
  | nil => exact .inl (List.mem_singleton.mp h)
  | cons first d ih =>
      obtain ⟨k', v'⟩ := first
      rw [set_cons] at h
      split_ifs at h with hk
      · rcases List.mem_cons.mp h with rfl | h
        · exact .inl (by rw [eq_of_beq hk])
        · exact .inr (List.mem_cons_of_mem _ h)
      · rcases List.mem_cons.mp h with rfl | h
        · exact .inr List.mem_cons_self
        · exact (ih h).imp id (List.mem_cons_of_mem _)

theorem keys_set (d : List (K × V)) (k : K) (v : V) :
    (set d k v).map Prod.fst =
      if k ∈ d.map Prod.fst then d.map Prod.fst else d.map Prod.fst ++ [k] := by
  induction d with
  | nil => simp
  | cons item d ih =>
      obtain ⟨k', v'⟩ := item
      by_cases h : k' = k
      · simp [set_cons, h]
      · have hk : (k ∈ (k' :: d.map Prod.fst)) ↔ k ∈ d.map Prod.fst := by
          simp [Ne.symm h]
        simp only [set_cons, beq_iff_eq, h, if_false, List.map_cons, ih, hk]
        split_ifs <;> rfl

theorem nodup_set {d : List (K × V)} (h : (d.map Prod.fst).Nodup) (k : K) (v : V) :
    ((set d k v).map Prod.fst).Nodup := by
  rw [keys_set]
  split_ifs with hk
  · exact h
  · exact List.nodup_append.mpr ⟨h, List.nodup_singleton k, by
      rintro a ha b hb rfl
      exact hk (List.mem_singleton.mp hb ▸ ha)⟩

theorem lookup_of_mem {d : List (K × V)} (h : (d.map Prod.fst).Nodup) {item : K × V}
    (hitem : item ∈ d) : d.lookup item.1 = some item.2 := by
  induction d with
  | nil => cases hitem
  | cons first d ih =>
      obtain ⟨hfirst, hrest⟩ := List.nodup_cons.mp h
      rcases List.mem_cons.mp hitem with rfl | hitem
      · exact List.lookup_cons_self
      · have hne : item.1 ≠ first.1 := by
          intro heq
          exact hfirst (heq ▸ List.mem_map_of_mem hitem)
        rw [List.lookup_cons, beq_false_of_ne hne]
        exact ih hrest hitem

theorem mem_of_lookup {d : List (K × V)} {k : K} {v : V} (h : d.lookup k = some v) :
    (k, v) ∈ d := by
  obtain ⟨before, after, rfl, -⟩ := List.lookup_eq_some_iff.mp h
  exact List.mem_append_right before List.mem_cons_self

theorem set_set (d : List (K × V)) (k : K) (v w : V) : set (set d k v) k w = set d k w := by
  induction d with
  | nil => simp [set_cons]
  | cons item d ih =>
      obtain ⟨k', v'⟩ := item
      by_cases h : k' = k
      · simp [set_cons, h]
      · simp [set_cons, h, ih]

end Dictionaries

def apostrophe : Char := Char.ofNat 39

def quote : Char := Char.ofNat 34

def backslash : Char := Char.ofNat 92

/-- The last `width` hexadecimal digits of a code point. -/
def hexDigits (width n : ℕ) : Text :=
  (List.range width).reverse.map fun i ↦ Nat.digitChar (n / 16 ^ i % 16)

/-- The quote that `repr` puts around a text. -/
def reprQuote (text : Text) : Char :=
  if apostrophe ∈ text ∧ quote ∉ text then quote else apostrophe

/-- What `repr` writes for a character; `isPrintable` is `str.isprintable`. -/
def reprChar (isPrintable : Char → Bool) (q c : Char) : Text :=
  if c = q ∨ c = backslash then [backslash, c]
  else if c = '\t' then [backslash, 't']
  else if c = '\r' then [backslash, 'r']
  else if c = '\n' then [backslash, 'n']
  else if c.toNat < 0x20 ∨ c.toNat = 0x7f then backslash :: 'x' :: hexDigits 2 c.toNat
  else if c.toNat < 0x7f ∨ isPrintable c then [c]
  else if c.toNat ≤ 0xff then backslash :: 'x' :: hexDigits 2 c.toNat
  else if c.toNat ≤ 0xffff then backslash :: 'u' :: hexDigits 4 c.toNat
  else backslash :: 'U' :: hexDigits 8 c.toNat

def reprText (isPrintable : Char → Bool) (text : Text) : Text :=
  let q := reprQuote text
  q :: (text.flatMap (reprChar isPrintable q) ++ [q])

/-- What stands between two items. -/
def joined (sep : Text) : List Text → Text
  | [] => []
  | [x] => x
  | x :: y :: rest => x ++ sep ++ joined sep (y :: rest)

theorem joined_append (sep : Text) (l l' : List Text) :
    joined sep (l ++ l') =
      joined sep l ++ (if l = [] ∨ l' = [] then [] else sep) ++ joined sep l' := by
  induction l with
  | nil => simp [joined]
  | cons x l ih =>
      cases l with
      | nil => cases l' <;> simp [joined]
      | cons y l =>
          rw [List.cons_append] at ih
          simp only [List.cons_append, joined, ih]
          simp

namespace Value

section Repr

variable (isPrintable : Char → Bool)

mutual

def repr : Value → Text
  | null => "None".toList
  | bool true => "True".toList
  | bool false => "False".toList
  | number text => text
  | nonFinite text => text
  | str text => reprText isPrintable text
  | arr items => '[' :: (joined ", ".toList (reprItems items) ++ [']'])
  | obj fields => Char.ofNat 123 :: (joined ", ".toList (reprFields fields) ++ [Char.ofNat 125])

def reprItems : List Value → List Text
  | [] => []
  | v :: rest => repr v :: reprItems rest

def reprFields : List (Text × Value) → List Text
  | [] => []
  | field :: rest => reprField field :: reprFields rest

def reprField : Text × Value → Text
  | (k, v) => reprText isPrintable k ++ ": ".toList ++ repr v

end

/-- `str(value)` -/
def pyStr : Value → Text
  | str text => text
  | v => repr isPrintable v

end Repr

/-- `bool(value)`; a number is false when it is a zero. -/
def truthy : Value → Bool
  | null => false
  | bool b => b
  | number text => text.any fun c ↦ '1' ≤ c && c ≤ '9'
  | nonFinite _ => true
  | str text => !text.isEmpty
  | arr items => !items.isEmpty
  | obj fields => !fields.isEmpty

/-- What `json.dumps` writes for a character without `ensure_ascii`. -/
def dumpsChar (c : Char) : Text :=
  if c = quote ∨ c = backslash then [backslash, c]
  else if c = '\n' then [backslash, 'n']
  else if c = '\r' then [backslash, 'r']
  else if c = '\t' then [backslash, 't']
  else if c.toNat = 0x0c then [backslash, 'f']
  else if c.toNat = 0x08 then [backslash, 'b']
  else if c.toNat < 0x20 then backslash :: 'u' :: hexDigits 4 c.toNat
  else [c]

def dumpsText (text : Text) : Text := quote :: (text.flatMap dumpsChar ++ [quote])

mutual

/-- `json.dumps` with the separators `,` and `:`, without `ensure_ascii` and `allow_nan`. -/
def dumps : Value → Option Text
  | null => some "null".toList
  | bool true => some "true".toList
  | bool false => some "false".toList
  | number text => some text
  | nonFinite _ => none
  | str text => some (dumpsText text)
  | arr items => (dumpsItems items).map fun l ↦ '[' :: (joined [','] l ++ [']'])
  | obj fields => (dumpsFields fields).map fun l ↦
      Char.ofNat 123 :: (joined [','] l ++ [Char.ofNat 125])

def dumpsItems : List Value → Option (List Text)
  | [] => some []
  | v :: rest => (dumps v).bind fun t ↦ (dumpsItems rest).map (t :: ·)

def dumpsFields : List (Text × Value) → Option (List Text)
  | [] => some []
  | field :: rest => (dumpsField field).bind fun t ↦ (dumpsFields rest).map (t :: ·)

def dumpsField : Text × Value → Option Text
  | (k, v) => (dumps v).map fun t ↦ dumpsText k ++ [':'] ++ t

end

mutual

/-- `json.dumps` with the same separators, and with `allow_nan`. -/
def compact : Value → Text
  | null => "null".toList
  | bool true => "true".toList
  | bool false => "false".toList
  | number text => text
  | nonFinite text =>
      if text = "nan".toList then "NaN".toList
      else if text = "inf".toList then "Infinity".toList
      else "-Infinity".toList
  | str text => dumpsText text
  | arr items => '[' :: (joined [','] (compactItems items) ++ [']'])
  | obj fields => Char.ofNat 123 :: (joined [','] (compactFields fields) ++ [Char.ofNat 125])

def compactItems : List Value → List Text
  | [] => []
  | v :: rest => compact v :: compactItems rest

def compactFields : List (Text × Value) → List Text
  | [] => []
  | field :: rest => compactField field :: compactFields rest

def compactField : Text × Value → Text
  | (k, v) => dumpsText k ++ [':'] ++ compact v

end

mutual

/-- The strings in a value; a key is not one of them. -/
def texts : Value → List Text
  | str text => [text]
  | arr items => itemTexts items
  | obj fields => fieldTexts fields
  | _ => []

def itemTexts : List Value → List Text
  | [] => []
  | v :: rest => texts v ++ itemTexts rest

def fieldTexts : List (Text × Value) → List Text
  | [] => []
  | field :: rest => fieldText field ++ fieldTexts rest

def fieldText : Text × Value → List Text
  | (_, v) => texts v

end

end Value

/-- The length of a text in UTF-8. -/
def utf8Size (text : Text) : ℕ := (text.map Char.utf8Size).sum

end PyValue
