import AxonGateway.Budget.Scope
import AxonGateway.Lib.Schedule
import AxonGateway.Spend.Slot

/-!
# One instance over the shared spend counters

The quota enforcer keeps a slot for each project's quota counter, the cost
tracker one for each project and each user.  Their functions change shared
counters and deliver the results to the slots.  Between a change, the read that
reports it and its delivery anything else may happen.
-/

namespace AxonGateway.Spend.Instance

open Interleaving Budget

/-- A counter, and the slot that copies it, by scope and scope id. -/
abbrev Key := Scope × String

/-- A reservation on file, with the epochs its counters were in. -/
structure Marker where
  epochs : List (Key × ℕ)
  amount : ℚ
  finalized : Bool

/-- A shared total that changed a slot, with the epoch it was produced in and
the epoch of the slot it went into. -/
structure Adoption where
  key : Key
  state : SpendCounterState
  slotEpoch : ℕ

/-- The shared counters with all states they were in, the newest first, the
reservations, and the instance's slots.  `own` and `adoptions` are kept for the
record: the charges the instance added to a slot by itself in an epoch, and the
shared totals it took over. -/
structure World where
  log : Key → List SpendCounterState
  markers : String → Option Marker
  slots : Key → Slot
  own : Key → ℕ → ℚ
  adoptions : List Adoption

namespace World

/-- A counter without a row reads as zero in epoch zero. -/
def history (w : World) (k : Key) : List SpendCounterState := w.log k ++ [⟨0, 0⟩]

def current (w : World) (k : Key) : SpendCounterState := (w.log k).headD ⟨0, 0⟩

/-- Bring some shared counters into new states. -/
def transact (w : World) (f : Key → Option SpendCounterState) : World :=
  { w with log := fun k ↦ (f k).toList ++ w.log k }

/-- Add to a counter in its epoch. -/
def addSpend (w : World) (key : Key) (cost : ℚ) : World :=
  w.transact fun k ↦ if k = key then some ⟨(w.current k).total + cost, (w.current k).epoch⟩
    else none

/-- Add to the counters and put the reservation on file. -/
def reserve (w : World) (request : String) (counters : List (Key × ℚ)) (amount : ℚ) : World :=
  { w.transact fun k ↦ if k ∈ counters.map Prod.fst then
        some ⟨(w.current k).total + amount, (w.current k).epoch⟩ else none with
    markers := Function.update w.markers request
      (some ⟨counters.map fun c ↦ (c.1, (w.current c.1).epoch), amount, false⟩) }

/-- Correct the counters that are still in the epoch of the reservation. -/
def finalize (w : World) (request : String) (m : Marker) (actual : ℚ) : World :=
  { w.transact fun k ↦ if (k, (w.current k).epoch) ∈ m.epochs then
        some ⟨(w.current k).total + (actual - m.amount), (w.current k).epoch⟩ else none with
    markers := Function.update w.markers request (some { m with finalized := true }) }

/-- Zero the counters and advance their epochs. -/
def reset (w : World) (keys : List Key) : World :=
  w.transact fun k ↦ if k ∈ keys then some ⟨0, (w.current k).epoch + 1⟩ else none

def setSlot (w : World) (k : Key) (slot : Slot) : World :=
  { w with slots := Function.update w.slots k slot }

/-- Take over a shared total that was produced as part of `state`. -/
def takeOver (w : World) (k : Key) (state : SpendCounterState) (slot : Slot) : World :=
  if slot = w.slots k then w
  else { w.setSlot k slot with adoptions := ⟨k, state, slot.epoch⟩ :: w.adoptions }

/-- Add an own charge to a slot. -/
def addOwn (w : World) (k : Key) (cost : ℚ) : World :=
  { w.setSlot k ((w.slots k).add cost) with
    own := Function.update w.own k
      (Function.update (w.own k) (w.slots k).epoch (w.own k (w.slots k).epoch + max 0 cost)) }

end World

/-- What may happen to the shared counters. -/
inductive Changes (w : World) : World → Prop
  | addSpend (key : Key) (cost : ℚ) (hcost : 0 ≤ cost) : Changes w (w.addSpend key cost)
  | reserve (request : String) (counters : List (Key × ℚ)) (amount : ℚ) (hamount : 0 < amount)
      (hnew : w.markers request = none)
      (hroom : ∀ c ∈ counters, (w.current c.1).total ≤ c.2 - amount) :
      Changes w (w.reserve request counters amount)
  | finalize (request : String) (m : Marker) (actual : ℚ) (hmarker : w.markers request = some m)
      (hopen : m.finalized = false) (hactual : 0 ≤ actual)
      (hspent : ∀ k, (k, (w.current k).epoch) ∈ m.epochs → m.amount ≤ (w.current k).total) :
      Changes w (w.finalize request m actual)
  | reset (keys : List Key) : Changes w (w.reset keys)

/-- What a reservation answers. -/
inductive Reserved where
  | unavailable
  | denied
  | granted (epochs : List (Key × ℕ)) (finalized : Bool)

inductive Op where
  | getSpendState (k : Key)
  | addSpendState (k : Key) (cost : ℚ)
  | reserveBudget (request : String) (counters : List (Key × ℚ)) (amount : ℚ)
  | finalizeBudget (request : String) (actual : ℚ)
  | resetSpendCounters (keys : List Key)
  | readState (k : Key)
  /-- The total that is reported together with the reservation's epoch. -/
  | readReserved (k : Key) (epoch : ℕ)
  | adopt (k : Key) (state : SpendCounterState)
  /-- Only the total of `state` is handed over. -/
  | raise (k : Key) (state : SpendCounterState)
  | addOwn (k : Key) (cost : ℚ)
  | clearSpend (ident : String) (epoch : Option ℕ)
  | clearProjectSpend (ident : String)

abbrev Ret : Op → Type
  | .getSpendState _ => Option SpendCounterState
  | .addSpendState _ _ => Option SpendCounterState
  | .reserveBudget _ _ _ => Reserved
  | .finalizeBudget _ _ => Bool
  | .resetSpendCounters _ => Bool
  | .readState _ => Option SpendCounterState
  | .readReserved _ _ => Option ℚ
  | .adopt _ _ => Unit
  | .raise _ _ => Unit
  | .addOwn _ _ => Unit
  | .clearSpend _ _ => Unit
  | .clearProjectSpend _ => Unit

/-- A shared operation may fail, before or after it took effect, and then
answers as if it had not been carried out. -/
inductive Exec (w : World) : (o : Op) → Ret o → World → Prop
  | getSpendState (k : Key) (hrow : w.log k ≠ []) :
      Exec w (.getSpendState k) (some (w.current k)) w
  | getSpendState_none (k : Key) : Exec w (.getSpendState k) none w
  | addSpendState (k : Key) (cost : ℚ) (hcost : 0 ≤ cost) :
      Exec w (.addSpendState k cost) (some ((w.addSpend k cost).current k)) (w.addSpend k cost)
  | addSpendState_lost (k : Key) (cost : ℚ) (hcost : 0 ≤ cost) :
      Exec w (.addSpendState k cost) none (w.addSpend k cost)
  | addSpendState_failed (k : Key) (cost : ℚ) : Exec w (.addSpendState k cost) none w
  | reserveBudget (request : String) (counters : List (Key × ℚ)) (amount : ℚ)
      (hamount : 0 < amount) (hnew : w.markers request = none)
      (hroom : ∀ c ∈ counters, (w.current c.1).total ≤ c.2 - amount) :
      Exec w (.reserveBudget request counters amount)
        (.granted (counters.map fun c ↦ (c.1, (w.current c.1).epoch)) false)
        (w.reserve request counters amount)
  | reserveBudget_lost (request : String) (counters : List (Key × ℚ)) (amount : ℚ)
      (hamount : 0 < amount) (hnew : w.markers request = none)
      (hroom : ∀ c ∈ counters, (w.current c.1).total ≤ c.2 - amount) :
      Exec w (.reserveBudget request counters amount) .unavailable
        (w.reserve request counters amount)
  | reserveBudget_again (request : String) (counters : List (Key × ℚ)) (amount : ℚ) (m : Marker)
      (hmarker : w.markers request = some m) :
      Exec w (.reserveBudget request counters amount) (.granted m.epochs m.finalized) w
  | reserveBudget_denied (request : String) (counters : List (Key × ℚ)) (amount : ℚ) :
      Exec w (.reserveBudget request counters amount) .denied w
  | reserveBudget_failed (request : String) (counters : List (Key × ℚ)) (amount : ℚ) :
      Exec w (.reserveBudget request counters amount) .unavailable w
  | finalizeBudget (request : String) (m : Marker) (actual : ℚ) (answered : Bool)
      (hmarker : w.markers request = some m) (hopen : m.finalized = false) (hactual : 0 ≤ actual)
      (hspent : ∀ k, (k, (w.current k).epoch) ∈ m.epochs → m.amount ≤ (w.current k).total) :
      Exec w (.finalizeBudget request actual) answered (w.finalize request m actual)
  | finalizeBudget_again (request : String) (m : Marker) (actual : ℚ)
      (hmarker : w.markers request = some m) (hdone : m.finalized = true) :
      Exec w (.finalizeBudget request actual) true w
  | finalizeBudget_failed (request : String) (actual : ℚ) :
      Exec w (.finalizeBudget request actual) false w
  | resetSpendCounters (keys : List Key) (answered : Bool) :
      Exec w (.resetSpendCounters keys) answered (w.reset keys)
  | resetSpendCounters_failed (keys : List Key) : Exec w (.resetSpendCounters keys) false w
  | readState (k : Key) : Exec w (.readState k) (some (w.current k)) w
  | readState_failed (k : Key) : Exec w (.readState k) none w
  | readReserved (k : Key) (epoch : ℕ) :
      Exec w (.readReserved k epoch) (some (w.current k).total) w
  | readReserved_failed (k : Key) (epoch : ℕ) : Exec w (.readReserved k epoch) none w
  | adopt (k : Key) (state : SpendCounterState) :
      Exec w (.adopt k state) () (w.takeOver k state ((w.slots k).adopt state))
  | raise (k : Key) (state : SpendCounterState) :
      Exec w (.raise k state) () (w.takeOver k state ((w.slots k).raise state.total))
  | addOwn (k : Key) (cost : ℚ) : Exec w (.addOwn k cost) () (w.addOwn k cost)
  | clearSpend (ident : String) (epoch : Option ℕ) :
      Exec w (.clearSpend ident epoch) ()
        (w.setSlot (.quota, ident) ⟨0, epoch.getD (w.slots (.quota, ident)).epoch⟩)
  | clearProjectSpend (ident : String) :
      Exec w (.clearProjectSpend ident) ()
        (w.setSlot (.project, ident) (CostTracker.clearProjectSpend (w.slots (.project, ident))))

abbrev Program := Prog Op Ret

/-- The states of some counters, one read after the other. -/
def readStates : List Key → Program (Option (List (Key × SpendCounterState)))
  | [] => pure (some [])
  | k :: ks => do
      match ← Prog.op (Op.readState k) with
      | none => pure none
      | some state =>
          match ← readStates ks with
          | none => pure none
          | some states => pure (some ((k, state) :: states))

namespace QuotaEnforcer

def adoptSharedSpend (ident : String) (state : SpendCounterState) : Program Unit :=
  Prog.op (Op.adopt (.quota, ident) state)

def refreshSpend (ident : String) : Program Unit := do
  match ← Prog.op (Op.getSpendState (.quota, ident)) with
  | none => pure ()
  | some state => adoptSharedSpend ident state

/-- The answer, read off the slot, plays no further part. -/
def currentSpend (ident : String) : Program Unit := refreshSpend ident

def recordSpend (ident : String) (cost : ℚ) (share : Bool) : Program Unit := do
  let state ← if share then Prog.op (Op.addSpendState (.quota, ident) cost) else pure none
  match state with
  | some state => adoptSharedSpend ident state
  | none => Prog.op (Op.addOwn (.quota, ident) cost)

/-- The limits are those of the quota and the project counter, and of the user's. -/
def reserveBudget (request ident user : String) (amount : ℚ) (projectLimit userLimit : Option ℚ) :
    Program Unit := do
  let counters : List (Key × ℚ) :=
    (projectLimit.toList.flatMap fun limit ↦ [((.quota, ident), limit), ((.project, ident), limit)]) ++
      (userLimit.toList.map fun limit ↦ ((.user, user), limit))
  if counters.isEmpty then pure ()
  else
    match ← Prog.op (Op.reserveBudget request counters amount) with
    | .granted epochs finalized =>
        match epochs.lookup (.quota, ident) with
        | none => pure ()
        | some epoch =>
            match ← Prog.op (Op.readReserved (.quota, ident) epoch) with
            | none => pure ()
            | some total => if finalized then pure () else adoptSharedSpend ident ⟨total, epoch⟩
    | _ => pure ()

/-- The totals of the reserved counters after the finalization, with the epochs
they were read in. -/
def finalizeBudget (request ident : String) (keys : List Key) (actual : ℚ) :
    Program (Option (List (Key × SpendCounterState))) := do
  if ← Prog.op (Op.finalizeBudget request actual) then
    match ← readStates keys with
    | none => pure none
    | some totals =>
        match totals.lookup (.quota, ident) with
        | none => pure (some totals)
        | some state =>
            adoptSharedSpend ident state
            pure (some totals)
  else pure none

/-- The counters are zeroed and the new state of the quota counter is read. -/
def resetCounters (ident : String) : Program (Option SpendCounterState) := do
  if ← Prog.op (Op.resetSpendCounters [(.quota, ident), (.project, ident)]) then
    Prog.op (Op.readState (.quota, ident))
  else pure none

def resetSpend (ident : String) : Program Bool := do
  let state ← resetCounters ident
  Prog.op (Op.clearSpend ident (state.map SpendCounterState.epoch))
  pure state.isSome

end QuotaEnforcer

namespace CostTracker

/-- `scope` is the project scope or the user scope. -/
def refreshSpendState (scope : Scope) (ident : String) : Program Unit := do
  match ← Prog.op (Op.getSpendState (scope, ident)) with
  | none => pure ()
  | some state => Prog.op (Op.adopt (scope, ident) state)

def bumpSpend (ident user : String) (cost : ℚ) : Program Unit := do
  Prog.op (Op.addOwn (.project, ident) cost)
  Prog.op (Op.addOwn (.user, user) cost)

def shareSpend (skip : List Scope) (key : Key) (cost : ℚ) : Program Unit := do
  if key.1 ∈ skip then pure ()
  else
    match ← Prog.op (Op.addSpendState key cost) with
    | none => pure ()
    | some state => Prog.op (Op.adopt key state)

def bumpSpendFleetWide (ident user : String) (cost : ℚ) (skip : List Scope) : Program Unit := do
  shareSpend skip (.project, ident) cost
  shareSpend skip (.user, user) cost

def recordUsage (ident user : String) (cost : ℚ) (share : Bool) (skip : List Scope) :
    Program Unit := do
  bumpSpend ident user cost
  if share then bumpSpendFleetWide ident user cost skip else pure ()

def raiseSpend (totals : List (Key × SpendCounterState)) (key : Key) : Program Unit :=
  match totals.lookup key with
  | none => pure ()
  | some state => Prog.op (Op.raise key state)

def adoptReservedSpend (ident user : String) (totals : List (Key × SpendCounterState)) :
    Program Unit := do
  raiseSpend totals (.project, ident)
  raiseSpend totals (.user, user)

end CostTracker

/-- The calls on the two components: those of the request path, those of an
unbudgeted request, and the administrator's reset. -/
inductive Call where
  | refreshSpend (ident : String)
  | currentSpend (ident : String)
  | checkBudget (ident : String)
  | checkUserBudget (user : String)
  | reserveBudget (request ident user : String) (amount : ℚ) (projectLimit userLimit : Option ℚ)
  | releaseBudget (request ident : String) (keys : List Key)
  | trackCost (request ident user : String) (keys : List Key) (cost : ℚ)
  | recordUsage (ident user : String) (cost : ℚ) (share : Bool)
  | recordSpend (ident : String) (cost : ℚ) (share : Bool)
  | resetSpend (ident : String)

/-- The cost tracking step of a budgeted request. -/
def trackCost (request ident user : String) (keys : List Key) (cost : ℚ) : Program Unit := do
  let totals ← QuotaEnforcer.finalizeBudget request ident keys cost
  CostTracker.recordUsage ident user cost true
    ((keys.map Prod.fst).filter fun scope ↦ scope ∈ [Scope.project, Scope.user])
  CostTracker.adoptReservedSpend ident user (totals.getD [])
  if .quota ∈ keys.map Prod.fst then pure () else QuotaEnforcer.recordSpend ident cost true

/-- The reset route. -/
def resetProject (ident : String) : Program Unit := do
  QuotaEnforcer.currentSpend ident
  if ← QuotaEnforcer.resetSpend ident then Prog.op (Op.clearProjectSpend ident)

def run : Call → Program Unit
  | .refreshSpend ident => QuotaEnforcer.refreshSpend ident
  | .currentSpend ident => QuotaEnforcer.currentSpend ident
  | .checkBudget ident => CostTracker.refreshSpendState .project ident
  | .checkUserBudget user => CostTracker.refreshSpendState .user user
  | .reserveBudget request ident user amount projectLimit userLimit =>
      QuotaEnforcer.reserveBudget request ident user amount projectLimit userLimit
  | .releaseBudget request ident keys => do
      let _ ← QuotaEnforcer.finalizeBudget request ident keys 0
      pure ()
  | .trackCost request ident user keys cost => trackCost request ident user keys cost
  | .recordUsage ident user cost share => CostTracker.recordUsage ident user cost share []
  | .recordSpend ident cost share => QuotaEnforcer.recordSpend ident cost share
  | .resetSpend ident => resetProject ident

/-- One instance, on which calls may start at any time, while others change the
shared counters. -/
def instanceService : Service Op Ret World Call Unit where
  machine := { exec := fun _ o w r w' ↦ Exec w o r w', env := Changes }
  body := run
  admits _ _ := True

/-- An instance that has just started over new counters. -/
def start : World := ⟨fun _ ↦ [], fun _ ↦ none, fun _ ↦ {}, fun _ _ ↦ 0, []⟩

end AxonGateway.Spend.Instance
