import AxonGateway.Registry.Edits

/-!
# A fleet of instances

Any number of instances serve edits and poll the stored document, with their steps in any order. A
request is split where it waits: the store answers in one step, and the instance goes on in a later
one.
-/

namespace AxonGateway.Registry

open PyValue Screening Adapters JsonText Outcome

/-- A document that is to be published, with the edit that it comes from, the registry that the
instance had then, and the revision that is expected in the store. -/
structure Commit where
  edit : Edit
  held : ModelRegistry
  expected : ℤ
  snapshot : RoutingConfigSnapshot

/-- What a request of an instance waits for, or has waited for. -/
inductive Task where
  | saving (c : Commit)
  | saved (snapshot : RoutingConfigSnapshot)
  | conflicted
  | reloaded (row : Option RoutingConfigSnapshot)
  | refreshing (generation : ℕ) (afterRevision : ℤ)
  | refreshed (generation : ℕ) (afterRevision : ℤ) (row : Option RoutingConfigSnapshot)

structure Instance where
  registry : ModelRegistry
  generation : ℕ
  tasks : List Task

section Instances

variable (isPrintable : Char → Bool) (N : Numbers) (sha256 : Text → Text) (maxDocumentBytes : ℕ)

/-- The document of an edit, with the revision of the request or else of the registry. -/
def Instance.save (inst : Instance) (edit : Edit) (ifMatch : Option ℕ) : Option Commit :=
  match edit.candidate inst.registry.models with
  | none => none
  | some config =>
      let expected := (ifMatch.map Int.ofNat).getD inst.registry.revision
      match fromConfig isPrintable N sha256 config (expected + 1) with
      | .error _ => none
      | .ok snapshot =>
          if maxDocumentBytes < snapshot.document.length then none
          else some ⟨edit, inst.registry, expected, snapshot⟩

/-- `_deserialize_model_registry_item` -/
def deserialize (row : RoutingConfigSnapshot) : Except Raised RoutingConfigSnapshot :=
  if row.revision < 1 then .error .runtimeError
  else match fromDocument isPrintable N sha256 row.document row.revision row.sha256 with
    | .error _ => .error .runtimeError
    | .ok snapshot => .ok snapshot

/-- `_publish_model_registry` -/
def Instance.publish (inst : Instance) (snapshot : RoutingConfigSnapshot) : Instance :=
  match snapshot.apply isPrintable N inst.registry with
  | (.ok _, registry) => { inst with registry := registry, generation := inst.generation + 1 }
  | (.error _, registry) => { inst with registry := registry }

/-- `_reload_model_registry` -/
def Instance.reload (inst : Instance) : Option RoutingConfigSnapshot → Instance
  | none => inst
  | some row => match deserialize isPrintable N sha256 row with
    | .error _ => inst
    | .ok snapshot => inst.publish isPrintable N snapshot

/-- `_refresh_model_registry` -/
def Instance.refresh (inst : Instance) (generation : ℕ) (afterRevision : ℤ) :
    Option RoutingConfigSnapshot → Instance
  | none => inst
  | some row => match deserialize isPrintable N sha256 row with
    | .error _ => inst
    | .ok snapshot =>
        if snapshot.revision < afterRevision then inst
        else if generation ≠ inst.generation then inst
        else if snapshot.revision < 1 then inst
        else if snapshot.revision ≤ inst.registry.revision then inst
        else { inst with registry := (snapshot.apply isPrintable N inst.registry).2 }

/-- What an instance does with an answer. -/
def Instance.resume (inst : Instance) : Task → Instance
  | .saved snapshot => inst.publish isPrintable N snapshot
  | .reloaded row => inst.reload isPrintable N sha256 row
  | .refreshed generation afterRevision row =>
      inst.refresh isPrintable N sha256 generation afterRevision row
  | _ => inst

/-- `_load_runtime_model_registry`, from the registry of the file -/
def boot (registry : ModelRegistry) : Option RoutingConfigSnapshot → Instance
  | none => ⟨registry, 0, []⟩
  | some row => match deserialize isPrintable N sha256 row with
    | .error _ => ⟨registry, 0, []⟩
    | .ok snapshot => ⟨(snapshot.apply isPrintable N registry).2, 0, []⟩

end Instances

/-- The answer to a request that reads. -/
def Task.read (row : Option RoutingConfigSnapshot) : Task → Option Task
  | .conflicted => some (.reloaded row)
  | .refreshing generation afterRevision => some (.refreshed generation afterRevision row)
  | _ => none

/-- The condition of the write. -/
def accepts (row : Option RoutingConfigSnapshot) (expected : ℤ) : Prop :=
  match row with
  | none => expected = 0
  | some stored => expected ≠ 0 ∧ stored.revision = expected

/-- The stored document, all that was ever stored in its order, and the instances. -/
structure Fleet (ι : Type) where
  row : Option RoutingConfigSnapshot
  log : List Commit
  instances : ι → Instance

/-- A registry from a file. -/
structure Bootstrap (N : Numbers) where
  registry : ModelRegistry
  wellFormed : WellFormed N registry.models
  revision : registry.revision = 0

section Steps

variable {ι : Type} [DecidableEq ι] (isPrintable : Char → Bool) (N : Numbers) (sha256 : Text → Text)
  (maxDocumentBytes : ℕ) (base : ι → Bootstrap N)

def Fleet.set (F : Fleet ι) (i : ι) (inst : Instance) : Fleet ι :=
  { F with instances := Function.update F.instances i inst }

@[simp] theorem Fleet.instances_set_self (F : Fleet ι) (i : ι) (inst : Instance) :
    (F.set i inst).instances i = inst := by
  simp [Fleet.set]

theorem Fleet.instances_set_of_ne (F : Fleet ι) {i j : ι} (h : j ≠ i) (inst : Instance) :
    (F.set i inst).instances j = F.instances j := by
  simp [Fleet.set, h]

def Instance.withTasks (inst : Instance) (tasks : List Task) : Instance := { inst with tasks := tasks }

/-- One step of one instance, or of the store for it. -/
inductive Step : Fleet ι → Fleet ι → Prop
  | edit (F : Fleet ι) (i : ι) (edit : Edit) (hedit : edit.IsJson N) (ifMatch : Option ℕ) (c : Commit)
      (hsave : (F.instances i).save isPrintable N sha256 maxDocumentBytes edit ifMatch = some c) :
      Step F (F.set i ((F.instances i).withTasks (.saving c :: (F.instances i).tasks)))
  | poll (F : Fleet ι) (i : ι) :
      Step F (F.set i ((F.instances i).withTasks
        (.refreshing (F.instances i).generation (F.instances i).registry.revision ::
          (F.instances i).tasks)))
  /-- The write takes effect; its answer may be lost. -/
  | put (F : Fleet ι) (i : ι) (before after : List Task) (c : Commit)
      (htasks : (F.instances i).tasks = before ++ .saving c :: after)
      (haccepts : accepts F.row c.expected) (answer : Option Unit) :
      Step F ⟨some c.snapshot, F.log ++ [c], (F.set i ((F.instances i).withTasks
        (before ++ (answer.map fun _ ↦ Task.saved c.snapshot).toList ++ after))).instances⟩
  | refuse (F : Fleet ι) (i : ι) (before after : List Task) (c : Commit)
      (htasks : (F.instances i).tasks = before ++ .saving c :: after)
      (hrefuses : ¬ accepts F.row c.expected) :
      Step F (F.set i ((F.instances i).withTasks (before ++ .conflicted :: after)))
  | read (F : Fleet ι) (i : ι) (before after : List Task) (t t' : Task)
      (htasks : (F.instances i).tasks = before ++ t :: after) (hread : t.read F.row = some t') :
      Step F (F.set i ((F.instances i).withTasks (before ++ t' :: after)))
  | resume (F : Fleet ι) (i : ι) (before after : List Task) (t : Task)
      (htasks : (F.instances i).tasks = before ++ t :: after) :
      Step F (F.set i
        (((F.instances i).resume isPrintable N sha256 t).withTasks (before ++ after)))
  | restart (F : Fleet ι) (i : ι) :
      Step F (F.set i (boot isPrintable N sha256 (base i).registry F.row))

/-- The fleets that come of steps, from an empty store and the registries of the files. -/
def Reachable (F : Fleet ι) : Prop :=
  Relation.ReflTransGen (Step isPrintable N sha256 maxDocumentBytes base)
    ⟨none, [], fun i ↦ ⟨(base i).registry, 0, []⟩⟩ F

end Steps

end AxonGateway.Registry
