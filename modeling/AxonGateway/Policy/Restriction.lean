import AxonGateway.Policy.Model

/-!
# Resolution is a greatest lower bound

A policy is read as an element of a lattice: bounds, allowed sets and switches,
ordered by how much they restrict.  Merging is the meet of this lattice, so the
policy resolved for a walk is the greatest lower bound of the limits on it, in
whatever order and however often they occur.
-/

namespace AxonGateway.Policy

/-! ## Optional bounds -/

section Bound

variable {α L : Type} {m : α → L}

/-- An unset limit is the top element, a set one has its meaning `m`. -/
def bound (m : α → L) : Option α → WithTop L
  | none => ⊤
  | some x => (m x : WithTop L)

theorem bound_mergeWith [SemilatticeInf L] {combine : α → α → α}
    (hm : ∀ c x, m (combine c x) = m c ⊓ m x) (current node : Option α) :
    bound m (mergeWith combine current node) = bound m current ⊓ bound m node := by
  cases current <;> cases node <;> simp [mergeWith, bound, hm]

theorem bound_le_bound [Preorder L] {current node : Option α} :
    bound m current ≤ bound m node ↔ ∀ v, node = some v → ∃ u, current = some u ∧ m u ≤ m v := by
  cases current <;> cases node <;> simp [bound]

theorem le_foldl_iff [SemilatticeInf L] {β : Type} {update : α → β → α} {d : β → L}
    (hm : ∀ p n, m (update p n) = m p ⊓ d n) {a : L} {p : α} {l : List β} :
    a ≤ m (l.foldl update p) ↔ a ≤ m p ∧ ∀ n ∈ l, a ≤ d n := by
  induction l generalizing p with
  | nil => simp
  | cons n l ih => simp [ih, hm, and_assoc]

end Bound

/-! ## The lattice of restrictions -/

/-- The names that a list allows. -/
def allowed (l : List String) : Set String := {x | x ∈ l}

/-- The types that a list requires; more types restrict more. -/
def required (l : List String) : (Set String)ᵒᵈ := OrderDual.toDual {x | x ∈ l}

theorem allowed_intersection (c x : List String) :
    allowed (intersection c x) = allowed c ⊓ allowed x := by
  ext m
  simp [allowed, intersection]

theorem required_sortedUnion (c x : List String) :
    required (sortedUnion c x) = required c ⊓ required x := by
  have hmem : {t | t ∈ sortedUnion c x} = {t | t ∈ c} ∪ {t | t ∈ x} := by
    ext t
    simp [sortedUnion]
  exact congrArg OrderDual.toDual hmem

/-- Bounds on rate, budget and tokens; allowed models and providers; redaction
and entity detection (on restricts), re-injection (off restricts); required
types of redaction and of entity detection. -/
abbrev Restriction : Type :=
  (WithTop ℚ × WithTop ℚ × WithTop ℚ) × (WithTop (Set String) × WithTop (Set String)) ×
    (Boolᵒᵈ × Boolᵒᵈ × Bool) × (WithTop (Set String)ᵒᵈ × WithTop (Set String)ᵒᵈ)

def Limits.restriction (l : Limits) : Restriction :=
  ((bound id l.rateLimitRpm, bound id l.budgetLimit, bound id l.maxTokensPerRequest),
    (bound allowed l.allowedModels, bound allowed l.allowedProviders),
    (OrderDual.toDual l.piiRedactionEnabled, OrderDual.toDual l.piiNerEnabled,
      l.piiReinject != some false),
    (bound required l.piiRedactTypes, bound required l.piiNerTypes))

/-- The policy as limits that set everything it sets. -/
def ResolvedPolicy.limits (p : ResolvedPolicy) : Limits where
  rateLimitRpm := p.rateLimitRpm
  budgetLimit := p.budgetLimit
  maxTokensPerRequest := p.maxTokensPerRequest
  allowedModels := p.allowedModels
  allowedProviders := p.allowedProviders
  piiRedactionEnabled := p.piiRedactionEnabled
  piiRedactTypes := p.piiRedactTypes
  piiReinject := some p.piiReinject
  piiNerEnabled := p.piiNerEnabled
  piiNerTypes := p.piiNerTypes

def ResolvedPolicy.restriction (p : ResolvedPolicy) : Restriction := p.limits.restriction

theorem restriction_merge (p : ResolvedPolicy) (n : PolicyNode) :
    (merge p n).restriction = p.restriction ⊓ n.limits.restriction := by
  have hmin : ∀ c x : ℚ, id (min c x) = id c ⊓ id x := fun _ _ ↦ rfl
  have hreinject : ((some (p.piiReinject && n.limits.piiReinject != some false) : Option Bool)
      != some false) = (((some p.piiReinject : Option Bool) != some false) ⊓
        (n.limits.piiReinject != some false)) := by
    rcases p.piiReinject <;> rcases n.limits.piiReinject with _ | _ | _ <;> rfl
  simp only [ResolvedPolicy.restriction, ResolvedPolicy.limits, Limits.restriction, merge,
    bound_mergeWith hmin, bound_mergeWith allowed_intersection,
    bound_mergeWith required_sortedUnion, hreinject]
  rfl

theorem restriction_default : ({} : ResolvedPolicy).restriction = ⊤ := rfl

/-- Resolution yields the greatest lower bound of the limits on the walk. -/
theorem le_resolveAncestry_iff {a : Restriction} {l : List PolicyNode} :
    a ≤ (resolveAncestry l).restriction ↔ ∀ n ∈ l, a ≤ n.limits.restriction := by
  rw [resolveAncestry, le_foldl_iff (m := ResolvedPolicy.restriction) restriction_merge,
    restriction_default]
  simp

theorem restriction_withProjectRateLimit (p : ResolvedPolicy) (rate : Option ℚ) :
    (withProjectRateLimit p rate).restriction =
      p.restriction ⊓ ({ rateLimitRpm := rate } : Limits).restriction := by
  have hmin : ∀ c x : ℚ, id (min c x) = id c ⊓ id x := fun _ _ ↦ rfl
  simp only [ResolvedPolicy.restriction, ResolvedPolicy.limits, Limits.restriction,
    withProjectRateLimit, bound_mergeWith hmin]
  simp [bound]

/-- The policy is at least as restrictive as the limits, limit by limit. -/
structure ResolvedPolicy.AtLeastAsRestrictive (p : ResolvedPolicy) (l : Limits) : Prop where
  rateLimitRpm : ∀ v, l.rateLimitRpm = some v → ∃ u, p.rateLimitRpm = some u ∧ u ≤ v
  budgetLimit : ∀ v, l.budgetLimit = some v → ∃ u, p.budgetLimit = some u ∧ u ≤ v
  maxTokensPerRequest :
    ∀ v, l.maxTokensPerRequest = some v → ∃ u, p.maxTokensPerRequest = some u ∧ u ≤ v
  allowedModels : ∀ xs, l.allowedModels = some xs → ∃ ys, p.allowedModels = some ys ∧ ys ⊆ xs
  allowedProviders :
    ∀ xs, l.allowedProviders = some xs → ∃ ys, p.allowedProviders = some ys ∧ ys ⊆ xs
  piiRedactionEnabled : l.piiRedactionEnabled = true → p.piiRedactionEnabled = true
  piiNerEnabled : l.piiNerEnabled = true → p.piiNerEnabled = true
  piiReinject : l.piiReinject = some false → p.piiReinject = false
  piiRedactTypes : ∀ xs, l.piiRedactTypes = some xs → ∃ ys, p.piiRedactTypes = some ys ∧ xs ⊆ ys
  piiNerTypes : ∀ xs, l.piiNerTypes = some xs → ∃ ys, p.piiNerTypes = some ys ∧ xs ⊆ ys

theorem atLeastAsRestrictive_iff {p : ResolvedPolicy} {l : Limits} :
    p.AtLeastAsRestrictive l ↔ p.restriction ≤ l.restriction := by
  have hallowed : ∀ {xs ys : List String}, allowed ys ≤ allowed xs ↔ ys ⊆ xs := Iff.rfl
  have hrequired : ∀ {xs ys : List String}, required ys ≤ required xs ↔ xs ⊆ ys := Iff.rfl
  have hon : ∀ a b : Bool, OrderDual.toDual a ≤ OrderDual.toDual b ↔ (b = true → a = true) := by
    decide
  have hoff : ((some p.piiReinject : Option Bool) != some false) ≤ (l.piiReinject != some false) ↔
      (l.piiReinject = some false → p.piiReinject = false) := by
    rcases p.piiReinject <;> rcases l.piiReinject with _ | _ | _ <;> decide
  simp only [ResolvedPolicy.restriction, ResolvedPolicy.limits, Limits.restriction,
    Prod.mk_le_mk, bound_le_bound, id, hallowed, hrequired, hon, hoff]
  constructor
  · rintro ⟨h₁, h₂, h₃, h₄, h₅, h₆, h₇, h₈, h₉, h₁₀⟩
    exact ⟨⟨h₁, h₂, h₃⟩, ⟨h₄, h₅⟩, ⟨h₆, h₇, h₈⟩, ⟨h₉, h₁₀⟩⟩
  · rintro ⟨⟨h₁, h₂, h₃⟩, ⟨h₄, h₅⟩, ⟨h₆, h₇, h₈⟩, ⟨h₉, h₁₀⟩⟩
    exact ⟨h₁, h₂, h₃, h₄, h₅, h₆, h₇, h₈, h₉, h₁₀⟩

/-- A walk that visits more nodes resolves to a policy at least as restrictive. -/
theorem resolveAncestry_mono {l l' : List PolicyNode} (h : l ⊆ l') :
    (resolveAncestry l').restriction ≤ (resolveAncestry l).restriction :=
  le_resolveAncestry_iff.mpr fun n hn ↦ le_resolveAncestry_iff.mp le_rfl n (h hn)

end AxonGateway.Policy
