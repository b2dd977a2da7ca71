import AxonGateway.Lib.Dict
import AxonGateway.Lib.Schedule
import AxonGateway.Lib.TextScan
import AxonGateway.Semantic.Literals
import AxonGateway.Semantic.Similarity

/-!
# The semantic cache

A lookup takes hold of the bucket of its scope, waits for the embedding of its prompt, and
searches the bucket that it took hold of. Buckets are therefore kept apart from the
dictionary that names them. What happens between two awaits is one operation.
-/

namespace Semantic

open Interleaving

/-! ### Requests -/

inductive Part where
  | dict (kind : Option String) (text : List Char)
  | other

inductive Content where
  | text (t : List Char)
  | parts (ps : List Part)
  | other

structure Message where
  role : Option String
  content : Content

structure Request where
  messages : List Message
  model : String
  temperature : Option ℚ
  stream : Bool
  system : Option String
  tools : List String

def minPromptChars : ℕ := 16

/-- The texts of the parts, joined by blanks, unless a part is of another kind. -/
def partsText (ps : List Part) : Option (List Char) :=
  let texts := ps.filterMap fun
    | .dict (some "text") t => some t
    | _ => none
  let nonText := ps.any fun
    | .dict (some kind) _ => kind != "text"
    | _ => false
  let joined := [' '].intercalate (texts.filter (· ≠ []))
  if nonText || joined.isEmpty then none else some joined

def Content.prompt : Content → Option (List Char)
  | .text t => some t
  | .parts ps => partsText ps
  | .other => none

def lastUserText (request : Request) : Option (List Char) :=
  match request.messages.reverse.find? (·.role = some "user") with
  | none => none
  | some m => m.content.prompt

def conversationDepth (request : Request) : ℕ :=
  request.messages.countP (·.role = some "user")

def isCacheable (request : Request) : Bool :=
  if request.stream then false
  else if request.tools ≠ [] then false
  else if request.system.any (· ≠ "") then false
  else if request.temperature.any (0 < ·) then false
  else if request.messages.length ≠ 1 ∨ (request.messages.head?.bind Message.role) ≠ some "user" then
    false
  else (lastUserText request).any fun prompt ↦ minPromptChars ≤ (TextScan.strip prompt).length

/-! ### Entries -/

abbrev Response := String

abbrev EntryKey := String × List Char

abbrev BucketKey := Option String × String

structure Entry where
  prompt : List Char
  embedding : List ℚ
  response : Response
  expiresAt : ℚ
  requestModel : String
  literals : PromptLiterals

/-- An `OrderedDict`, as the list of its items. -/
abbrev Bucket := List (EntryKey × Entry)

namespace Bucket

/-- Assign to a key and move it to the end. -/
def assign (b : Bucket) (key : EntryKey) (e : Entry) : Bucket :=
  b.filter (·.1 ≠ key) ++ [(key, e)]

def moveToEnd (b : Bucket) (key : EntryKey) : Bucket :=
  b.filter (·.1 ≠ key) ++ b.filter (·.1 = key)

/-- Drop from the front until at most `n` items are left. -/
def trim (b : Bucket) (n : ℕ) : Bucket := b.drop (b.length - n)

end Bucket

/-- Which buckets an invalidation addresses. -/
structure Scope where
  projectId : Option String
  tenantId : Option String
  allTenants : Bool
  deriving DecidableEq

def Scope.Valid (s : Scope) : Prop :=
  ¬ (s.allTenants = true ∧ s.tenantId.isSome = true) ∧
    ¬ (s.tenantId.isSome = true ∧ s.projectId = none)

instance (s : Scope) : Decidable s.Valid := by
  unfold Scope.Valid
  infer_instance

def Scope.covers (s : Scope) (key : BucketKey) : Bool :=
  (s.allTenants || key.1 = s.tenantId) && (s.projectId = none || s.projectId = some key.2)

/-- What has happened, for the record. -/
inductive Event where
  | embedded (key : BucketKey) (text : List Char) (vector : List ℚ)
  | stored (key : BucketKey) (e : Entry)
  | invalidated (scope : Scope)

/-- A response that a lookup returned, with the time and what had happened by then. -/
structure Hit where
  response : Response
  returnedAt : ℚ
  history : List Event

structure Config where
  enabled : Bool
  threshold : ℚ
  maxEntries : ℕ

/-- The buckets, the names of those that are reachable, the memo of the last embedding, and a
record that no operation reads. -/
structure World where
  now : ℚ
  buckets : List Bucket
  entries : Dict BucketKey ℕ
  memo : Option (BucketKey × List Char × List ℚ)
  log : List Event

/-! ### Matching -/

section Matching

variable (U : Unicode)

/-- The score of an entry that may answer the prompt. -/
def Entry.candidate (e : Entry) (prompt : List Char) (embedding : List ℚ) (model : String)
    (threshold : ℚ) : Option Score :=
  if model ≠ "" ∧ e.requestModel ≠ "" ∧ e.requestModel ≠ model then none
  else if (cosineScore embedding e.embedding).lt (.ofRat threshold) then none
  else if (extractLiterals U prompt).conflictsWith e.literals then none
  else some (cosineScore embedding e.embedding)

/-- The first one with the highest score. -/
def better (best : Option (EntryKey × Entry × Score)) (key : EntryKey) (e : Entry) :
    Option Score → Option (EntryKey × Entry × Score)
  | none => best
  | some score =>
    if best.all fun b ↦ b.2.2.lt score then some (key, e, score) else best

def bestMatch (b : Bucket) (prompt : List Char) (embedding : List ℚ) (model : String)
    (threshold : ℚ) : Option (EntryKey × Entry × Score) :=
  b.foldl (fun best item ↦
    better best item.1 item.2 (item.2.candidate U prompt embedding model threshold)) none

end Matching

/-! ### Sections -/

/-- The start of a lookup: it is over, or it has to wait for an embedding. -/
inductive Begun where
  | done (hit : Option Hit)
  | embed (prompt : List Char) (id : ℕ)

namespace World

def bucket (w : World) (id : ℕ) : Bucket := w.buckets[id]?.getD []

def setBucket (w : World) (id : ℕ) (b : Bucket) : World :=
  { w with buckets := w.buckets.set id b }

def memoized (w : World) (key : BucketKey) (text : List Char) : Option (List ℚ) :=
  (w.memo.filter fun m ↦ m.1 = key ∧ m.2.1 = text).map (·.2.2)

def memoize (w : World) (key : BucketKey) (text : List Char) (vector : List ℚ) : World :=
  { w with
    memo := some (key, text, vector)
    log := w.log ++ [.embedded key text vector] }

def purgeExpired (w : World) (key : BucketKey) : World :=
  match w.entries.lookup key with
  | none => w
  | some id => w.setBucket id ((w.bucket id).filter fun item ↦ w.now < item.2.expiresAt)

/-- The names and the buckets with an empty bucket for the key, if it has none. -/
def setdefault (w : World) (key : BucketKey) : ℕ × World :=
  match w.entries.lookup key with
  | some id => (id, w)
  | none => (w.buckets.length, { w with
      buckets := w.buckets ++ [[]]
      entries := w.entries.insert key w.buckets.length })

section Config

variable (cfg : Config) (U : Unicode)

/-- The end of `get`, with the bucket that it took hold of. -/
def search (w : World) (request : Request) (key : BucketKey) (threshold : Option ℚ) (id : ℕ)
    (prompt : List Char) (embedding : List ℚ) : Option Hit × World :=
  let w := w.purgeExpired key
  match bestMatch U (w.bucket id) prompt embedding request.model (threshold.getD cfg.threshold) with
  | none => (none, w)
  | some (entryKey, e, _) =>
      (some ⟨e.response, w.now, w.log⟩, w.setBucket id ((w.bucket id).moveToEnd entryKey))

def beginGet (w : World) (request : Request) (projectId : String) (threshold : Option ℚ)
    (tenantId : Option String) : Begun × World :=
  let key := (tenantId, projectId)
  if ¬ cfg.enabled then (.done none, w)
  else if ¬ isCacheable request ∨ 1 < conversationDepth request then (.done none, w)
  else match w.entries.lookup key with
    | none => (.done none, w)
    | some id =>
      if (w.bucket id).isEmpty then (.done none, w)
      else match lastUserText request with
        | none => (.done none, w)
        | some prompt =>
          match w.memoized key prompt with
          | none => (.embed prompt id, w)
          | some vector =>
              let found := w.search cfg U request key threshold id prompt vector
              (.done found.1, found.2)

/-- What the embedder returned is kept unless it is empty. -/
def finishGet (w : World) (request : Request) (key : BucketKey) (threshold : Option ℚ) (id : ℕ)
    (prompt : List Char) : Option (List ℚ) → Option Hit × World
  | none | some [] => (none, w)
  | some (x :: xs) =>
      (w.memoize key prompt (x :: xs)).search cfg U request key threshold id prompt (x :: xs)

def newEntry (w : World) (request : Request) (prompt : List Char) (embedding : List ℚ)
    (response : Response) (ttlSeconds : ℤ) : Entry where
  prompt := prompt
  embedding := embedding
  response := response
  expiresAt := w.now + ttlSeconds
  requestModel := request.model
  literals := extractLiterals U prompt

def store (w : World) (key : BucketKey) (e : Entry) : World :=
  let named := w.setdefault key
  let b := (named.2.bucket named.1).assign (e.requestModel, e.prompt) e
  { named.2.setBucket named.1 (b.trim cfg.maxEntries) with log := w.log ++ [.stored key e] }

/-- The prompt that a put has to wait for, if it is not over. -/
def beginPut (w : World) (request : Request) (projectId : String) (response : Response)
    (ttlSeconds : ℤ) (tenantId : Option String) : Option (List Char) × World :=
  let key := (tenantId, projectId)
  if ¬ cfg.enabled then (none, w)
  else if ¬ isCacheable request ∨ 1 < conversationDepth request then (none, w)
  else match lastUserText request with
    | none => (none, w)
    | some prompt =>
      match w.memoized key prompt with
      | none => (some prompt, w)
      | some vector =>
          (none, w.store cfg key (w.newEntry U request prompt vector response ttlSeconds))

def finishPut (w : World) (request : Request) (key : BucketKey) (response : Response)
    (ttlSeconds : ℤ) (prompt : List Char) : Option (List ℚ) → World
  | none | some [] => w
  | some (x :: xs) =>
      (w.memoize key prompt (x :: xs)).store cfg key
        (w.newEntry U request prompt (x :: xs) response ttlSeconds)

end Config

/-- The number of entries that are dropped; an invalid scope raises. -/
def invalidate (w : World) (scope : Scope) : Option ℕ × World :=
  if scope.Valid then
    let matching := w.entries.entries.filter fun item ↦ scope.covers item.1
    (some ((matching.map fun item ↦ (w.bucket item.2).length).sum),
      { w with
        entries := Dict.eraseAll (matching.map Sigma.fst) w.entries
        log := w.log ++ [.invalidated scope] })
  else (none, w)

end World

/-! ### Programs -/

inductive Op where
  | beginGet (request : Request) (projectId : String) (threshold : Option ℚ)
      (tenantId : Option String)
  | embed (text : List Char)
  | finishGet (request : Request) (key : BucketKey) (threshold : Option ℚ) (id : ℕ)
      (prompt : List Char) (vector : Option (List ℚ))
  | beginPut (request : Request) (projectId : String) (response : Response) (ttlSeconds : ℤ)
      (tenantId : Option String)
  | finishPut (request : Request) (key : BucketKey) (response : Response) (ttlSeconds : ℤ)
      (prompt : List Char) (vector : Option (List ℚ))
  | invalidate (scope : Scope)
  | tick (t : ℚ)

abbrev Ret : Op → Type
  | .beginGet _ _ _ _ => Begun
  | .embed _ => Option (List ℚ)
  | .finishGet _ _ _ _ _ _ => Option Hit
  | .beginPut _ _ _ _ _ => Option (List Char)
  | .finishPut _ _ _ _ _ _ => Unit
  | .invalidate _ => Option ℕ
  | .tick _ => Unit

/-- What an operation answers and does; an embedder returns any vector, or fails. -/
inductive Exec (cfg : Config) (U : Unicode) (w : World) : (o : Op) → Ret o → World → Prop
  | beginGet (request : Request) (projectId : String) (threshold : Option ℚ)
      (tenantId : Option String) :
      Exec cfg U w (.beginGet request projectId threshold tenantId)
        (w.beginGet cfg U request projectId threshold tenantId).1
        (w.beginGet cfg U request projectId threshold tenantId).2
  | embed (text : List Char) (vector : Option (List ℚ)) : Exec cfg U w (.embed text) vector w
  | finishGet (request : Request) (key : BucketKey) (threshold : Option ℚ) (id : ℕ)
      (prompt : List Char) (vector : Option (List ℚ)) :
      Exec cfg U w (.finishGet request key threshold id prompt vector)
        (w.finishGet cfg U request key threshold id prompt vector).1
        (w.finishGet cfg U request key threshold id prompt vector).2
  | beginPut (request : Request) (projectId : String) (response : Response) (ttlSeconds : ℤ)
      (tenantId : Option String) :
      Exec cfg U w (.beginPut request projectId response ttlSeconds tenantId)
        (w.beginPut cfg U request projectId response ttlSeconds tenantId).1
        (w.beginPut cfg U request projectId response ttlSeconds tenantId).2
  | finishPut (request : Request) (key : BucketKey) (response : Response) (ttlSeconds : ℤ)
      (prompt : List Char) (vector : Option (List ℚ)) :
      Exec cfg U w (.finishPut request key response ttlSeconds prompt vector) ()
        (w.finishPut cfg U request key response ttlSeconds prompt vector)
  | invalidate (scope : Scope) :
      Exec cfg U w (.invalidate scope) (w.invalidate scope).1 (w.invalidate scope).2
  | tick (t : ℚ) (hlater : w.now ≤ t) : Exec cfg U w (.tick t) () { w with now := t }

abbrev Program := Prog Op Ret

def get (request : Request) (projectId : String) (threshold : Option ℚ)
    (tenantId : Option String) : Program (Option Hit) := do
  match ← Prog.op (Op.beginGet request projectId threshold tenantId) with
  | .done hit => pure hit
  | .embed prompt id =>
      let vector ← Prog.op (Op.embed prompt)
      Prog.op (Op.finishGet request (tenantId, projectId) threshold id prompt vector)

def put (request : Request) (projectId : String) (response : Response) (ttlSeconds : ℤ)
    (tenantId : Option String) : Program Unit := do
  match ← Prog.op (Op.beginPut request projectId response ttlSeconds tenantId) with
  | none => pure ()
  | some prompt =>
      let vector ← Prog.op (Op.embed prompt)
      Prog.op (Op.finishPut request (tenantId, projectId) response ttlSeconds prompt vector)

inductive Call where
  | get (request : Request) (projectId : String) (threshold : Option ℚ)
      (tenantId : Option String)
  | put (request : Request) (projectId : String) (response : Response) (ttlSeconds : ℤ)
      (tenantId : Option String)
  | invalidate (scope : Scope)
  | tick (t : ℚ)

inductive Answer where
  | found (hit : Option Hit)
  | stored
  | invalidated (removed : Option ℕ)
  | ticked

def body : Call → Program Answer
  | .get request projectId threshold tenantId => do
      let hit ← get request projectId threshold tenantId
      pure (.found hit)
  | .put request projectId response ttlSeconds tenantId => do
      put request projectId response ttlSeconds tenantId
      pure .stored
  | .invalidate scope => do
      let removed ← Prog.op (Op.invalidate scope)
      pure (.invalidated removed)
  | .tick t => do
      Prog.op (Op.tick t)
      pure .ticked

/-- Any calls on one cache. -/
def cacheService (cfg : Config) (U : Unicode) : Service Op Ret World Call Answer where
  machine := { exec := fun _ o w r w' ↦ Exec cfg U w o r w', env := Eq }
  body := body
  admits _ _ := True

def start (now : ℚ) : World where
  now := now
  buckets := []
  entries := ∅
  memo := none
  log := []

end Semantic
