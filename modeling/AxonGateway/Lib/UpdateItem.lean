import Mathlib

/-!
# Conditional updates of items

An item maps attribute names to values.  An update request names the values it
works with by placeholders.  It takes effect as a whole if its condition holds
of the item, and not at all otherwise.  A strict service also refuses requests
with a value that none of their expressions uses.
-/

namespace UpdateItem

inductive Value where
  | str (s : String)
  | num (n : ℤ)
  deriving DecidableEq

/-- The attributes of an item; an item without any is absent. -/
abbrev Item := String → Option Value

abbrev Values := List (String × Value)

inductive Condition where
  | eq (path placeholder : String)
  | lt (path placeholder : String)
  | and (c d : Condition)
  | or (c d : Condition)

namespace Condition

def placeholders : Condition → List String
  | eq _ p => [p]
  | lt _ p => [p]
  | and c d => c.placeholders ++ d.placeholders
  | or c d => c.placeholders ++ d.placeholders

/-- A comparison with an attribute that is missing or of another type is false. -/
def Holds (values : Values) (item : Item) : Condition → Prop
  | eq a p => ∃ v, item a = some v ∧ values.lookup p = some v
  | lt a p => ∃ m n, item a = some (.num m) ∧ values.lookup p = some (.num n) ∧ m < n
  | and c d => c.Holds values item ∧ d.Holds values item
  | or c d => c.Holds values item ∨ d.Holds values item

def holds (values : Values) (item : Item) : Condition → Bool
  | eq a p => (item a).any fun v ↦ values.lookup p = some v
  | lt a p =>
      match item a, values.lookup p with
      | some (.num m), some (.num n) => m < n
      | _, _ => false
  | and c d => c.holds values item && d.holds values item
  | or c d => c.holds values item || d.holds values item

theorem holds_iff {values : Values} {item : Item} {c : Condition} :
    c.holds values item = true ↔ c.Holds values item := by
  induction c with
  | eq a p => cases h : item a <;> simp [holds, Holds, h]
  | lt a p =>
      unfold holds Holds
      constructor
      · intro h
        split at h
        next m n hm hn => exact ⟨m, n, hm, hn, of_decide_eq_true h⟩
        next => cases h
      · rintro ⟨m, n, hm, hn, hlt⟩
        simp only [hm, hn]
        exact decide_eq_true hlt
  | and c d hc hd => simp only [holds, Holds, Bool.and_eq_true, hc, hd]
  | or c d hc hd => simp only [holds, Holds, Bool.or_eq_true, hc, hd]

instance {values : Values} {item : Item} {c : Condition} : Decidable (c.Holds values item) :=
  decidable_of_iff _ holds_iff

end Condition

/-- `SET path = placeholder` and `ADD path placeholder`. -/
inductive Action where
  | set (path placeholder : String)
  | add (path placeholder : String)

namespace Action

def path : Action → String
  | set a _ => a
  | add a _ => a

def placeholder : Action → String
  | set _ p => p
  | add _ p => p

def number : Option Value → Option ℤ
  | none => some 0
  | some (.num n) => some n
  | some (.str _) => none

/-- Only numbers can be added, to a number or to nothing. -/
def applicable (values : Values) (item : Item) : Action → Bool
  | set _ _ => true
  | add a p => (number (item a)).isSome && (number (values.lookup p)).isSome

def apply (values : Values) (item : Item) : Action → Item
  | set a p => Function.update item a (values.lookup p)
  | add a p => Function.update item a (some (.num
      ((number (item a)).getD 0 + (number (values.lookup p)).getD 0)))

theorem apply_ne {values : Values} {item : Item} {action : Action} {a : String}
    (h : a ≠ action.path) : action.apply values item a = item a := by
  cases action <;> exact Function.update_of_ne h _ _

end Action

structure Request where
  actions : List Action
  condition : Condition
  values : Values

inductive Refusal where
  | validation
  | conditionalCheckFailed
  deriving DecidableEq

namespace Request

def placeholders (r : Request) : List String :=
  r.condition.placeholders ++ r.actions.map Action.placeholder

/-- Every placeholder has a value and, if that is checked, every value is used. -/
def wellFormed (strict : Bool) (r : Request) : Bool :=
  r.placeholders.all (fun p ↦ (r.values.lookup p).isSome) &&
    (!strict || r.values.all fun e ↦ e.1 ∈ r.placeholders)

def apply (r : Request) (item : Item) : Item :=
  r.actions.foldl (fun item action ↦ action.apply r.values item) item

def update (strict : Bool) (r : Request) (item : Item) : Except Refusal Item :=
  if r.wellFormed strict = false then .error .validation
  else if ¬ r.condition.Holds r.values item then .error .conditionalCheckFailed
  else if r.actions.all (Action.applicable r.values item) = false then .error .validation
  else .ok (r.apply item)

variable {strict : Bool} {r : Request} {item item' : Item}

theorem update_ok_iff : r.update strict item = .ok item' ↔
    r.wellFormed strict = true ∧ r.condition.Holds r.values item ∧
      r.actions.all (Action.applicable r.values item) = true ∧ r.apply item = item' := by
  unfold update
  split_ifs with hform hcond happ
  · simp [hform]
  · simp only [happ, Bool.false_eq_true, false_and, and_false]
  · rw [Bool.not_eq_false] at hform happ
    simp only [Except.ok.injEq, hform, hcond, happ, true_and]
  · simp [hcond]

/-- A value that nothing uses. -/
theorem update_of_unused {p : String} {v : Value} (hv : (p, v) ∈ r.values)
    (hp : p ∉ r.placeholders) : r.update true item = .error .validation := by
  have hform : r.wellFormed true = false := by
    rw [Bool.eq_false_iff]
    intro h
    have hused := (Bool.and_eq_true_iff.mp h).2
    simp only [Bool.not_true, Bool.false_or, List.all_eq_true, decide_eq_true_eq] at hused
    exact hp (hused _ hv)
  rw [update, if_pos hform]

/-- The frame rule. -/
theorem apply_of_notMem {a : String} (h : a ∉ r.actions.map Action.path) :
    r.apply item a = item a := by
  unfold apply
  generalize r.actions = actions at h
  induction actions generalizing item with
  | nil => rfl
  | cons action actions ih =>
      rw [List.map_cons, List.mem_cons, not_or] at h
      rw [List.foldl_cons, ih h.2, Action.apply_ne h.1]

end Request

end UpdateItem
