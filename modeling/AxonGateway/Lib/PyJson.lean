import AxonGateway.Lib.Binary64

/-!
# JSON with any text of Python

A text of Python is a list of code points and may hold lone surrogates, which no encoding writes.
`json.loads` makes such texts out of escapes, and `json.dumps` keeps them.
-/

namespace PyJson

open Binary64

abbrev CodePoint := Fin 0x110000

instance codePoints_ne_zero : NeZero 0x110000 := ⟨by decide⟩

abbrev Str := List CodePoint

def codePoint (c : Char) : CodePoint :=
  ⟨c.toNat, by
    rcases c.valid with h | ⟨-, h⟩
    · exact lt_trans h (by decide)
    · exact h⟩

/-- A literal of the program. -/
def lit (s : String) : Str := s.toList.map codePoint

def isSurrogate (c : CodePoint) : Bool := decide (0xD800 ≤ c.val ∧ c.val ≤ 0xDFFF)

/-- A text that UTF-8 can write. -/
def plain (s : Str) : Bool := s.all fun c ↦ !isSurrogate c

@[simp] theorem plain_nil : plain [] = true := rfl

@[simp] theorem plain_append (s t : Str) : plain (s ++ t) = (plain s && plain t) :=
  List.all_append

@[simp] theorem plain_cons (c : CodePoint) (s : Str) :
    plain (c :: s) = (!isSurrogate c && plain s) :=
  rfl

theorem isSurrogate_codePoint (c : Char) : isSurrogate (codePoint c) = false := by
  refine decide_eq_false fun ⟨hlow, hhigh⟩ ↦ ?_
  rcases c.valid with h | ⟨h, -⟩
  · exact absurd h (not_lt.mpr hlow)
  · exact absurd h (not_lt.mpr hhigh)

@[simp] theorem plain_lit (s : String) : plain (lit s) = true := by
  refine List.all_eq_true.mpr fun c hc ↦ ?_
  obtain ⟨d, -, rfl⟩ := List.mem_map.mp hc
  rw [isSurrogate_codePoint]
  rfl

/-- The bytes of a code point. -/
def utf8Width (c : CodePoint) : ℕ :=
  if c.val < 0x80 then 1 else if c.val < 0x800 then 2 else if c.val < 0x10000 then 3 else 4

def utf8Length (s : Str) : ℕ := (s.map utf8Width).sum

/-- The white space of `str.strip`. -/
def isSpace (c : CodePoint) : Bool :=
  let n := c.val
  (9 ≤ n && n ≤ 13) || (28 ≤ n && n ≤ 32) || n == 0x85 || n == 0xA0 || n == 0x1680 ||
    (0x2000 ≤ n && n ≤ 0x200A) || n == 0x2028 || n == 0x2029 || n == 0x202F || n == 0x205F ||
    n == 0x3000

/-- Something is left after `strip`. -/
def hasText (s : Str) : Bool := !s.all isSpace

/-! ## Values -/

inductive Json where
  | null
  | bool (b : Bool)
  | num (n : PyNum)
  | str (s : Str)
  | arr (items : List Json)
  | obj (fields : List (Str × Json))

abbrev Fields := List (Str × Json)

/-- `d.get(key)` -/
def get (d : Fields) (key : String) : Json := (d.lookup (lit key)).getD .null

namespace Json

def isNull : Json → Bool
  | null => true
  | _ => false

def isObject : Json → Bool
  | obj _ => true
  | _ => false

/-- `bool(value)` -/
def truthy : Json → Bool
  | null => false
  | bool b => b
  | num (.int n) => n != 0
  | num (.float (.finite _ m)) => m.val != 0
  | num (.float .nonFinite) => true
  | str s => !s.isEmpty
  | arr items => !items.isEmpty
  | obj fields => !fields.isEmpty

section All

variable (text : Str → Bool) (number : PyNum → Bool)

mutual

/-- Every text in a value, the keys among them, and every number. -/
def all : Json → Bool
  | null => true
  | bool _ => true
  | num n => number n
  | str s => text s
  | arr items => allItems items
  | obj fields => allFields fields

def allItems : List Json → Bool
  | [] => true
  | v :: rest => all v && allItems rest

def allFields : List (Str × Json) → Bool
  | [] => true
  | field :: rest => allField field && allFields rest

def allField : Str × Json → Bool
  | (k, v) => text k && all v

end

variable {text number}

theorem all_of_lookup {fields : Fields} {key : Str} {v : Json}
    (h : all text number (obj fields) = true) (hv : fields.lookup key = some v) :
    all text number v = true := by
  rw [all] at h
  induction fields with
  | nil => cases hv
  | cons field fields ih =>
      obtain ⟨k, w⟩ := field
      rw [allFields, allField, Bool.and_eq_true, Bool.and_eq_true] at h
      rw [List.lookup_cons] at hv
      split at hv
      · obtain rfl := Option.some.inj hv
        exact h.1.2
      · exact ih h.2 hv

end All

def isFinite : PyNum → Bool
  | .float .nonFinite => false
  | _ => true

/-- No NaN and no infinity is in the value. -/
def finite (v : Json) : Bool := v.all (fun _ ↦ true) isFinite

/-- No lone surrogate is in the value. -/
def encodable (v : Json) : Bool := v.all plain fun _ ↦ true

end Json

/-! ## Writing -/

/-- What `repr` writes for the decimal of a double. -/
def decimalText (d : Dec) : String :=
  let digits := toString d.coeff
  let point := (digits.length : ℤ) + d.exp
  let sign := if d.neg then "-" else ""
  if d.coeff ≠ 0 ∧ (point ≤ -4 ∨ 16 < point) then
    let exponent := toString (point - 1).natAbs
    let fraction := String.ofList (digits.toList.drop 1)
    sign ++ String.ofList (digits.toList.take 1) ++ (if fraction = "" then "" else "." ++ fraction) ++
      (if point ≤ 0 then "e-" else "e+") ++ (if exponent.length < 2 then "0" else "") ++ exponent
  else
    let places := (-d.exp).toNat
    let padded := List.replicate (places + 1 - digits.length) '0' ++ digits.toList
    sign ++ String.ofList (padded.take (padded.length - places)) ++ "." ++
      String.ofList (padded.drop (padded.length - places))

/-- The text that `json.dumps` writes for a number. -/
def numberText : PyNum → String
  | .int n => toString n
  | .float (.finite neg m) => decimalText (toDec neg m)
  | .float .nonFinite => "NaN"

def hexDigit (n : ℕ) : CodePoint := codePoint (Nat.digitChar n)

/-- What `json.dumps` writes for a code point without `ensure_ascii`. -/
def escape (c : CodePoint) : Str :=
  if c.val = 0x22 ∨ c.val = 0x5c then [0x5c, c]
  else if c.val = 0x0a then lit "\\n"
  else if c.val = 0x0d then lit "\\r"
  else if c.val = 0x09 then lit "\\t"
  else if c.val = 0x0c then lit "\\f"
  else if c.val = 0x08 then lit "\\b"
  else if c.val < 0x20 then lit "\\u00" ++ [hexDigit (c.val / 16), hexDigit (c.val % 16)]
  else [c]

def quoted (s : Str) : Str := 0x22 :: (s.flatMap escape ++ [0x22])

namespace Json

mutual

/-- The text of a value with the separators `,` and `:`, without `ensure_ascii`. -/
def write : Json → Str
  | null => lit "null"
  | bool true => lit "true"
  | bool false => lit "false"
  | num n => lit (numberText n)
  | str s => quoted s
  | arr items => 0x5b :: ([0x2c].intercalate (writeItems items) ++ [0x5d])
  | obj fields => 0x7b :: ([0x2c].intercalate (writeFields fields) ++ [0x7d])

def writeItems : List Json → List Str
  | [] => []
  | v :: rest => write v :: writeItems rest

def writeFields : List (Str × Json) → List Str
  | [] => []
  | field :: rest => writeField field :: writeFields rest

def writeField : Str × Json → Str
  | (k, v) => quoted k ++ [0x3a] ++ write v

end

end Json

theorem plain_escape (c : CodePoint) : plain (escape c) = !isSurrogate c := by
  have hlow : ∀ n : ℕ, n < 0xD800 → c.val = n → isSurrogate c = false :=
    fun n hn hc ↦ decide_eq_false fun h ↦ by omega
  unfold escape
  split_ifs with h1 h2 h3 h4 h5 h6 h7
  · rw [plain_cons, plain_cons, plain_nil, Bool.and_true]
    rfl
  · rw [plain_lit, hlow _ (by decide) h2]
    rfl
  · rw [plain_lit, hlow _ (by decide) h3]
    rfl
  · rw [plain_lit, hlow _ (by decide) h4]
    rfl
  · rw [plain_lit, hlow _ (by decide) h5]
    rfl
  · rw [plain_lit, hlow _ (by decide) h6]
    rfl
  · rw [hlow c.val (by omega) rfl, plain_append, plain_lit]
    simp [hexDigit, isSurrogate_codePoint]
  · rw [plain_cons, plain_nil, Bool.and_true]

@[simp] theorem plain_quoted (s : Str) : plain (quoted s) = plain s := by
  have hflat : plain (s.flatMap escape) = plain s := by
    induction s with
    | nil => rfl
    | cons c s ih => rw [List.flatMap_cons, plain_append, plain_escape, ih, plain_cons]
  rw [quoted, plain_cons, plain_append, hflat]
  exact Bool.and_true _

theorem plain_intercalate {sep : Str} (hsep : plain sep = true) (l : List Str) :
    plain (sep.intercalate l) = l.all plain := by
  induction l with
  | nil => rfl
  | cons s l ih =>
      cases l with
      | nil => simp [List.intercalate]
      | cons t l => 
          rw [List.intercalate_cons_cons, plain_append, plain_append, ih, hsep]
          simp

namespace Json

mutual

theorem plain_write : ∀ v : Json, plain v.write = v.encodable
  | null => plain_lit _
  | bool true => plain_lit _
  | bool false => plain_lit _
  | num _ => plain_lit _
  | str s => plain_quoted s
  | arr items => by
      rw [write, plain_cons, plain_append, plain_intercalate (by decide), all_writeItems, encodable, all]
      exact Bool.and_true _
  | obj fields => by
      rw [write, plain_cons, plain_append, plain_intercalate (by decide), all_writeFields, encodable, all]
      exact Bool.and_true _

theorem all_writeItems : ∀ items : List Json,
    (writeItems items).all plain = allItems plain (fun _ ↦ true) items
  | [] => rfl
  | v :: rest => by
      rw [writeItems, List.all_cons, plain_write v, all_writeItems rest, allItems, encodable]

theorem all_writeFields : ∀ fields : List (Str × Json),
    (writeFields fields).all plain = allFields plain (fun _ ↦ true) fields
  | [] => rfl
  | field :: rest => by
      rw [writeFields, List.all_cons, plain_writeField field, all_writeFields rest, allFields]

theorem plain_writeField : ∀ field : Str × Json,
    plain (writeField field) = allField plain (fun _ ↦ true) field
  | (k, v) => by
      rw [writeField, plain_append, plain_append, plain_quoted, plain_write v, allField, encodable]
      exact congrArg (· && _) (Bool.and_true _)

end

end Json

/-! ## Raising -/

inductive Raised where
  | unicodeEncodeError
  | valueError
  deriving DecidableEq

/-- `json.dumps(value, ensure_ascii=False, allow_nan=False, separators=(",", ":"))` -/
def dumps (value : Json) : Except Raised Str :=
  if value.finite then .ok value.write else .error .valueError

/-- `len(value.encode("utf-8"))` -/
def encodedLength (value : Str) : Except Raised ℕ :=
  if plain value then .ok (utf8Length value) else .error .unicodeEncodeError

end PyJson
