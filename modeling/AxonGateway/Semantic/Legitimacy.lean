import AxonGateway.Semantic.Cache

/-!
# Hits are legitimate

Every entry of a bucket that a scope names was stored for the scope and has not been dropped
by an invalidation since. A lookup therefore returns such an entry, as long as the bucket that
it took hold of is still the one of its scope when the embedding arrives.
-/

namespace Semantic

open Interleaving

variable {cfg : Config} {U : Unicode} {w w' w₁ w₂ : World} {key key' : BucketKey} {e : Entry}
  {log : List Event} {id id' : ℕ} {b : Bucket}

/-! ### What was stored and not dropped -/

/-- The entry was stored for the key, and no invalidation has covered the key since. -/
def Stands (log : List Event) (key : BucketKey) (e : Entry) : Prop :=
  ∃ pre post, log = pre ++ .stored key e :: post ∧
    ∀ scope, .invalidated scope ∈ post → scope.covers key = false

theorem Stands.concat (h : Stands log key e) {event : Event}
    (hevent : ∀ scope, event = .invalidated scope → scope.covers key = false) :
    Stands (log ++ [event]) key e := by
  obtain ⟨pre, post, rfl, hpost⟩ := h
  refine ⟨pre, post ++ [event], by simp, fun scope hscope ↦ ?_⟩
  rcases List.mem_append.mp hscope with hmem | hmem
  · exact hpost scope hmem
  · exact hevent scope (List.mem_singleton.mp hmem).symm

theorem stands_concat_self (log : List Event) (key : BucketKey) (e : Entry) :
    Stands (log ++ [.stored key e]) key e :=
  ⟨log, [], rfl, fun scope h ↦ by cases h⟩

/-- What is known of an entry in the bucket of a key. -/
structure Kept (U : Unicode) (log : List Event) (key : BucketKey) (e : Entry) : Prop where
  stands : Stands log key e
  embedded : .embedded key e.prompt e.embedding ∈ log
  literals : e.literals = extractLiterals U e.prompt

theorem Kept.concat (h : Kept U log key e) {event : Event}
    (hevent : ∀ scope, event = .invalidated scope → scope.covers key = false) :
    Kept U (log ++ [event]) key e :=
  ⟨h.stands.concat hevent, List.mem_append_left _ h.embedded, h.literals⟩

/-! ### Buckets -/

namespace Bucket

theorem mem_assign {entryKey : EntryKey} {item : EntryKey × Entry}
    (h : item ∈ b.assign entryKey e) : item ∈ b ∨ item = (entryKey, e) := by
  rcases List.mem_append.mp h with hmem | hmem
  · exact .inl (List.mem_of_mem_filter hmem)
  · exact .inr (List.mem_singleton.mp hmem)

theorem mem_moveToEnd {entryKey : EntryKey} {item : EntryKey × Entry}
    (h : item ∈ b.moveToEnd entryKey) : item ∈ b := by
  rcases List.mem_append.mp h with hmem | hmem
  · exact List.mem_of_mem_filter hmem
  · exact List.mem_of_mem_filter hmem

theorem length_moveToEnd (b : Bucket) (entryKey : EntryKey) :
    (b.moveToEnd entryKey).length = b.length := by
  have h := List.length_eq_length_filter_add (l := b) fun item ↦ decide (item.1 = entryKey)
  rw [moveToEnd, List.length_append]
  simp only [ne_eq, decide_not]
  omega

theorem mem_trim {n : ℕ} {item : EntryKey × Entry} (h : item ∈ b.trim n) : item ∈ b :=
  List.mem_of_mem_drop h

theorem length_trim_le (b : Bucket) (n : ℕ) : (b.trim n).length ≤ n := by
  rw [trim, List.length_drop]
  omega

end Bucket

/-! ### The best match -/

theorem mem_of_foldl_better (score : EntryKey × Entry → Option Score)
    {best : Option (EntryKey × Entry × Score)} {r : EntryKey × Entry × Score}
    (h : b.foldl (fun best item ↦ better best item.1 item.2 (score item)) best = some r) :
    best = some r ∨ (r.1, r.2.1) ∈ b ∧ score (r.1, r.2.1) = some r.2.2 := by
  induction b generalizing best with
  | nil => exact .inl h
  | cons item b ih =>
      rcases ih h with hbest | ⟨hmem, hscore⟩
      · change better best item.1 item.2 (score item) = some r at hbest
        cases hitem : score item with
        | none =>
            rw [hitem] at hbest
            exact .inl hbest
        | some s =>
            rw [hitem, better] at hbest
            split_ifs at hbest with hlt
            · cases hbest
              exact .inr ⟨List.mem_cons_self, hitem⟩
            · exact .inl hbest
      · exact .inr ⟨List.mem_cons_of_mem _ hmem, hscore⟩

theorem candidate_spec {prompt : List Char} {embedding : List ℚ} {model : String} {threshold : ℚ}
    {s : Score} (h : e.candidate U prompt embedding model threshold = some s) :
    (model ≠ "" → e.requestModel ≠ "" → e.requestModel = model) ∧
      (threshold : ℝ) ≤ cosineSimilarity embedding e.embedding ∧
      (extractLiterals U prompt).conflictsWith e.literals = false := by
  rw [Entry.candidate] at h
  split_ifs at h with hmodel hlow hconflict
  refine ⟨fun hm he ↦ ?_, ?_, by simpa using hconflict⟩
  · by_contra hne
    exact hmodel ⟨hm, he, hne⟩
  · rw [Score.lt_iff, value_cosineScore, Score.value_ofRat, not_lt] at hlow
    exact hlow

theorem bestMatch_spec {prompt : List Char} {embedding : List ℚ} {model : String} {threshold : ℚ}
    {r : EntryKey × Entry × Score}
    (h : bestMatch U b prompt embedding model threshold = some r) :
    (r.1, r.2.1) ∈ b ∧ r.2.1.candidate U prompt embedding model threshold = some r.2.2 := by
  obtain hnone | hfound := mem_of_foldl_better (fun item ↦
    item.2.candidate U prompt embedding model threshold) h
  · cases hnone
  · exact hfound

/-! ### The invariant -/

structure Inv (cfg : Config) (U : Unicode) (w : World) : Prop where
  memo : ∀ key text v, w.memo = some (key, text, v) → .embedded key text v ∈ w.log
  named : ∀ key id, w.entries.lookup key = some id → id < w.buckets.length
  distinct : ∀ key key' id, w.entries.lookup key = some id → w.entries.lookup key' = some id →
    key = key'
  kept : ∀ key id, w.entries.lookup key = some id → ∀ item ∈ w.bucket id, Kept U w.log key item.2
  size : ∀ key id, w.entries.lookup key = some id → (w.bucket id).length ≤ cfg.maxEntries

namespace World

theorem bucket_setBucket_self (w : World) (h : id < w.buckets.length) (b : Bucket) :
    (w.setBucket id b).bucket id = b := by
  simp [bucket, setBucket, h]

theorem bucket_setBucket_ne (w : World) (h : id' ≠ id) (b : Bucket) :
    (w.setBucket id b).bucket id' = w.bucket id' := by
  simp [bucket, setBucket, h.symm]

theorem memoized_eq_some {text : List Char} {v : List ℚ} (h : w.memoized key text = some v) :
    w.memo = some (key, text, v) := by
  obtain ⟨⟨key', text', v'⟩, hm, rfl⟩ := Option.map_eq_some_iff.mp h
  obtain ⟨hmemo, hsame⟩ := Option.filter_eq_some_iff.mp hm
  obtain ⟨rfl, rfl⟩ : key' = key ∧ text' = text := by simpa using hsame
  exact hmemo

end World

/-- The bucket of a key is replaced by one with kept entries only. -/
theorem Inv.setBucket (hinv : Inv cfg U w) (hkey : w.entries.lookup key = some id)
    (hkept : ∀ item ∈ b, Kept U w.log key item.2) (hsize : b.length ≤ cfg.maxEntries) :
    Inv cfg U (w.setBucket id b) := by
  have hlt := hinv.named key id hkey
  refine ⟨hinv.memo, fun key' id' h ↦ ?_, hinv.distinct, fun key' id' h ↦ ?_, fun key' id' h ↦ ?_⟩
  · rw [World.setBucket, List.length_set]
    exact hinv.named key' id' h
  · rcases eq_or_ne id' id with rfl | hne
    · obtain rfl := hinv.distinct key' key id' h hkey
      rw [w.bucket_setBucket_self hlt]
      exact hkept
    · rw [w.bucket_setBucket_ne hne]
      exact hinv.kept key' id' h
  · rcases eq_or_ne id' id with rfl | hne
    · rw [w.bucket_setBucket_self hlt]
      exact hsize
    · rw [w.bucket_setBucket_ne hne]
      exact hinv.size key' id' h

theorem Inv.purgeExpired (hinv : Inv cfg U w) (key : BucketKey) :
    Inv cfg U (w.purgeExpired key) := by
  rw [World.purgeExpired]
  cases hkey : w.entries.lookup key with
  | none => exact hinv
  | some id =>
      refine hinv.setBucket hkey (fun item hitem ↦ ?_) ?_
      · exact hinv.kept key id hkey item (List.mem_of_mem_filter hitem)
      · exact (List.length_filter_le _ _).trans (hinv.size key id hkey)

theorem purgeExpired_frame (w : World) (key : BucketKey) :
    (w.purgeExpired key).now = w.now ∧ (w.purgeExpired key).log = w.log ∧
      (w.purgeExpired key).entries = w.entries := by
  rw [World.purgeExpired]
  split
  · exact ⟨rfl, rfl, rfl⟩
  · exact ⟨rfl, rfl, rfl⟩

theorem Inv.unexpired (hinv : Inv cfg U w) (hkey : w.entries.lookup key = some id)
    {item : EntryKey × Entry} (h : item ∈ (w.purgeExpired key).bucket id) :
    w.now < item.2.expiresAt := by
  rw [World.purgeExpired, hkey] at h
  dsimp only at h
  rw [w.bucket_setBucket_self (hinv.named key id hkey)] at h
  simpa using List.of_mem_filter h

/-- Anything but an invalidation is recorded. -/
theorem Inv.record (hinv : Inv cfg U w) (event : Event) (hevent : ∀ scope, event ≠ .invalidated scope) :
    Inv cfg U { w with log := w.log ++ [event] } := by
  refine ⟨fun key text v h ↦ List.mem_append_left _ (hinv.memo key text v h), hinv.named,
    hinv.distinct, fun key id h item hitem ↦ ?_, hinv.size⟩
  exact (hinv.kept key id h item hitem).concat fun scope hscope ↦ absurd hscope (hevent scope)

theorem Inv.memoize (hinv : Inv cfg U w) (key : BucketKey) (text : List Char) (v : List ℚ) :
    Inv cfg U (w.memoize key text v) := by
  have hrecord := hinv.record (.embedded key text v) (by simp)
  refine ⟨fun key' text' v' h ↦ ?_, hrecord.named, hrecord.distinct, hrecord.kept, hrecord.size⟩
  cases h
  exact List.mem_append_right _ List.mem_cons_self

theorem Inv.setdefault (hinv : Inv cfg U w) (key : BucketKey) :
    Inv cfg U (w.setdefault key).2 ∧
      (w.setdefault key).2.entries.lookup key = some (w.setdefault key).1 ∧
      (w.setdefault key).2.log = w.log := by
  rw [World.setdefault]
  cases hkey : w.entries.lookup key with
  | some id => exact ⟨hinv, hkey, rfl⟩
  | none =>
      dsimp only
      have hcases : ∀ key' id', (w.entries.insert key w.buckets.length).lookup key' = some id' →
          key' = key ∧ id' = w.buckets.length ∨ key' ≠ key ∧ w.entries.lookup key' = some id' := by
        intro key' id' h
        rw [Dict.lookup_insert_eq] at h
        split_ifs at h with heq
        · exact .inl ⟨heq, (Option.some.inj h).symm⟩
        · exact .inr ⟨heq, h⟩
      have hbucket : ∀ key' id', w.entries.lookup key' = some id' →
          ((w.buckets ++ [[]])[id']?.getD [] : Bucket) = w.bucket id' := by
        intro key' id' h
        rw [List.getElem?_append_left (hinv.named key' id' h)]
        rfl
      refine ⟨⟨hinv.memo, fun key' id' h ↦ ?_, fun key₁ key₂ id' h₁ h₂ ↦ ?_,
        fun key' id' h ↦ ?_, fun key' id' h ↦ ?_⟩, AList.lookup_insert _, rfl⟩
      · rw [List.length_append, List.length_singleton]
        rcases hcases key' id' h with ⟨-, rfl⟩ | ⟨-, h⟩
        · omega
        · have := hinv.named key' id' h
          omega
      · rcases hcases key₁ id' h₁ with ⟨rfl, rfl⟩ | ⟨-, h₁⟩
        · rcases hcases key₂ _ h₂ with ⟨rfl, -⟩ | ⟨-, h₂⟩
          · rfl
          · exact absurd (hinv.named key₂ _ h₂) (lt_irrefl _)
        · rcases hcases key₂ id' h₂ with ⟨-, rfl⟩ | ⟨-, h₂⟩
          · exact absurd (hinv.named key₁ _ h₁) (lt_irrefl _)
          · exact hinv.distinct key₁ key₂ id' h₁ h₂
      · rcases hcases key' id' h with ⟨rfl, rfl⟩ | ⟨-, h⟩
        · intro item hitem
          simp [World.bucket] at hitem
        · rw [World.bucket, hbucket key' id' h]
          exact hinv.kept key' id' h
      · rcases hcases key' id' h with ⟨rfl, rfl⟩ | ⟨-, h⟩
        · simp [World.bucket]
        · rw [World.bucket, hbucket key' id' h]
          exact hinv.size key' id' h

theorem Inv.store (hinv : Inv cfg U w) (hembedded : .embedded key e.prompt e.embedding ∈ w.log)
    (hliterals : e.literals = extractLiterals U e.prompt) : Inv cfg U (w.store cfg key e) := by
  obtain ⟨hset, hkey, hlog⟩ := hinv.setdefault key
  have hrecord := hset.record (.stored key e) (by simp)
  rw [hlog] at hrecord
  refine hrecord.setBucket hkey (fun item hitem ↦ ?_) (Bucket.length_trim_le _ _)
  rcases Bucket.mem_assign (Bucket.mem_trim hitem) with hold | rfl
  · exact hrecord.kept key _ hkey item hold
  · exact ⟨stands_concat_self _ _ _, List.mem_append_left _ hembedded, hliterals⟩

theorem Inv.invalidate (hinv : Inv cfg U w) (scope : Scope) :
    Inv cfg U (w.invalidate scope).2 := by
  rw [World.invalidate]
  split_ifs with hvalid
  · dsimp only
    have hold : ∀ key id, (Dict.eraseAll ((w.entries.entries.filter fun item ↦
        scope.covers item.1).map Sigma.fst) w.entries).lookup key = some id →
          w.entries.lookup key = some id ∧ scope.covers key = false := by
      intro key id h
      rw [Dict.lookup_eraseAll] at h
      split_ifs at h with hmem
      refine ⟨h, ?_⟩
      by_contra hcovers
      apply hmem
      have hentry := Dict.mem_entries_iff.mpr h
      exact List.mem_map.mpr ⟨_, List.mem_filter.mpr ⟨hentry, by simpa using hcovers⟩, rfl⟩
    refine ⟨fun key text v h ↦ List.mem_append_left _ (hinv.memo key text v h),
      fun key id h ↦ hinv.named key id (hold key id h).1,
      fun key key' id h h' ↦ hinv.distinct key key' id (hold key id h).1 (hold key' id h').1,
      fun key id h item hitem ↦ ?_, fun key id h ↦ hinv.size key id (hold key id h).1⟩
    refine (hinv.kept key id (hold key id h).1 item hitem).concat fun scope' hscope ↦ ?_
    cases hscope
    exact (hold key id h).2
  · exact hinv

/-! ### Lookups -/

/-- The entry answers the request with this prompt and embedding at the time of the hit. -/
structure Answers (cfg : Config) (U : Unicode) (request : Request) (key : BucketKey)
    (threshold : Option ℚ) (prompt : List Char) (embedding : List ℚ) (e : Entry) (hit : Hit) :
    Prop where
  response : e.response = hit.response
  asked : lastUserText request = some prompt
  embedded : .embedded key prompt embedding ∈ hit.history
  stored : Stands hit.history key e
  entryEmbedded : .embedded key e.prompt e.embedding ∈ hit.history
  model : request.model ≠ "" → e.requestModel ≠ "" → e.requestModel = request.model
  similar : (threshold.getD cfg.threshold : ℝ) ≤ cosineSimilarity embedding e.embedding
  literals : (extractLiterals U prompt).conflictsWith (extractLiterals U e.prompt) = false
  unexpired : hit.returnedAt < e.expiresAt

/-- The response was stored for the scope, and its entry answers the request. -/
def Legitimate (cfg : Config) (U : Unicode) (request : Request) (key : BucketKey)
    (threshold : Option ℚ) (hit : Hit) : Prop :=
  ∃ prompt embedding e, Answers cfg U request key threshold prompt embedding e hit

theorem search_spec (hinv : Inv cfg U w) (hkey : w.entries.lookup key = some id)
    {request : Request} (threshold : Option ℚ) {prompt : List Char} {embedding : List ℚ}
    (hprompt : lastUserText request = some prompt)
    (hembedded : .embedded key prompt embedding ∈ w.log) :
    Inv cfg U (w.search cfg U request key threshold id prompt embedding).2 ∧
      (w.search cfg U request key threshold id prompt embedding).2.log = w.log ∧
      ∀ hit, (w.search cfg U request key threshold id prompt embedding).1 = some hit →
        hit.history = w.log ∧ Legitimate cfg U request key threshold hit := by
  obtain ⟨hnow, hlog, hentries⟩ := purgeExpired_frame w key
  have hpurged := hinv.purgeExpired key
  have hkey' : (w.purgeExpired key).entries.lookup key = some id := by rw [hentries, hkey]
  rw [World.search]
  cases hbest : bestMatch U ((w.purgeExpired key).bucket id) prompt embedding request.model
      (threshold.getD cfg.threshold) with
  | none => exact ⟨hpurged, hlog, fun hit h ↦ by cases h⟩
  | some r =>
      obtain ⟨entryKey, e, score⟩ := r
      obtain ⟨hmem, hcandidate⟩ := bestMatch_spec hbest
      refine ⟨?_, hlog, fun hit h ↦ ?_⟩
      · refine hpurged.setBucket hkey' (fun item hitem ↦ ?_) ?_
        · exact hpurged.kept key id hkey' item (Bucket.mem_moveToEnd hitem)
        · rw [Bucket.length_moveToEnd]
          exact hpurged.size key id hkey'
      · cases h
        refine ⟨hlog, prompt, embedding, e, ?_⟩
        have hkept := hpurged.kept key id hkey' _ hmem
        obtain ⟨hmodel, hsimilar, hconflict⟩ := candidate_spec hcandidate
        refine ⟨rfl, hprompt, ?_, hkept.stands, hkept.embedded, hmodel, ?_, ?_, ?_⟩
        · rw [hlog]
          exact hembedded
        · exact hsimilar
        · rw [← hkept.literals]
          exact hconflict
        · rw [hnow]
          exact hinv.unexpired hkey hmem

theorem memoized_embedded (hinv : Inv cfg U w) {text : List Char} {v : List ℚ}
    (h : w.memoized key text = some v) : .embedded key text v ∈ w.log :=
  hinv.memo key text v (World.memoized_eq_some h)

/-- The start of a lookup keeps the invariant, and what it returns is legitimate. -/
theorem beginGet_spec (hinv : Inv cfg U w) (request : Request) (projectId : String)
    (threshold : Option ℚ) (tenantId : Option String) :
    Inv cfg U (w.beginGet cfg U request projectId threshold tenantId).2 ∧
      (w.beginGet cfg U request projectId threshold tenantId).2.log = w.log ∧
      ((∃ hit, (w.beginGet cfg U request projectId threshold tenantId).1 = .done hit ∧
        ∀ h, hit = some h → h.history = w.log ∧
          Legitimate cfg U request (tenantId, projectId) threshold h) ∨
      ∃ prompt id, (w.beginGet cfg U request projectId threshold tenantId).1 = .embed prompt id ∧
        lastUserText request = some prompt) := by
  have hnone : ∀ h : Hit, none = some h → h.history = w.log ∧
      Legitimate cfg U request (tenantId, projectId) threshold h := fun h heq ↦ by cases heq
  rw [World.beginGet]
  dsimp only
  split_ifs with henabled hskipped
  · exact ⟨hinv, rfl, .inl ⟨none, rfl, hnone⟩⟩
  · cases hkey : w.entries.lookup (tenantId, projectId) with
    | none => exact ⟨hinv, rfl, .inl ⟨none, rfl, hnone⟩⟩
    | some id =>
        dsimp only
        split_ifs with hempty
        · exact ⟨hinv, rfl, .inl ⟨none, rfl, hnone⟩⟩
        · cases hprompt : lastUserText request with
          | none => exact ⟨hinv, rfl, .inl ⟨none, rfl, hnone⟩⟩
          | some prompt =>
              dsimp only
              cases hmemo : w.memoized (tenantId, projectId) prompt with
              | none => exact ⟨hinv, rfl, .inr ⟨prompt, id, rfl, rfl⟩⟩
              | some v =>
                  obtain ⟨hsearch, hlog, hhit⟩ := search_spec hinv hkey threshold
                    hprompt (memoized_embedded hinv hmemo)
                  exact ⟨hsearch, hlog, .inl ⟨_, rfl, hhit⟩⟩
  · exact ⟨hinv, rfl, .inl ⟨none, rfl, hnone⟩⟩

theorem beginPut_spec (hinv : Inv cfg U w) (request : Request) (projectId : String)
    (response : Response) (ttlSeconds : ℤ) (tenantId : Option String) :
    Inv cfg U (w.beginPut cfg U request projectId response ttlSeconds tenantId).2 ∧
      w.log <+: (w.beginPut cfg U request projectId response ttlSeconds tenantId).2.log := by
  rw [World.beginPut]
  split_ifs with henabled hskipped
  · exact ⟨hinv, List.prefix_rfl⟩
  · cases hprompt : lastUserText request with
    | none => exact ⟨hinv, List.prefix_rfl⟩
    | some prompt =>
        dsimp only
        cases hmemo : w.memoized (tenantId, projectId) prompt with
        | none => exact ⟨hinv, List.prefix_rfl⟩
        | some v => exact ⟨hinv.store (memoized_embedded hinv hmemo) rfl, List.prefix_append _ _⟩
  · exact ⟨hinv, List.prefix_rfl⟩

theorem finishPut_spec (hinv : Inv cfg U w) (request : Request) (key : BucketKey)
    (response : Response) (ttlSeconds : ℤ) (prompt : List Char) (vector : Option (List ℚ)) :
    Inv cfg U (w.finishPut cfg U request key response ttlSeconds prompt vector) ∧
      w.log <+: (w.finishPut cfg U request key response ttlSeconds prompt vector).log := by
  rcases vector with _ | _ | ⟨x, xs⟩
  · exact ⟨hinv, List.prefix_rfl⟩
  · exact ⟨hinv, List.prefix_rfl⟩
  · have hmemo := hinv.memoize key prompt (x :: xs)
    refine ⟨hmemo.store (List.mem_append_right _ List.mem_cons_self) rfl, ?_⟩
    exact (List.prefix_append _ _).trans (List.prefix_append _ _)

/-! ### Programs -/

/-- The bucket that a lookup took hold of is the one of its scope when the embedding arrives. -/
def Registered (_ : ℕ) : Op → World → Prop
  | .finishGet _ key _ id _ (some (_ :: _)), w => w.entries.lookup key = some id
  | _, _ => True

theorem finishGet_spec (hinv : Inv cfg U w) {request : Request} {threshold : Option ℚ}
    {prompt : List Char} (hprompt : lastUserText request = some prompt) {vector : Option (List ℚ)}
    {i : ℕ} (hkey : Registered i (.finishGet request key threshold id prompt vector) w) :
    Inv cfg U (w.finishGet cfg U request key threshold id prompt vector).2 ∧
      w.log <+: (w.finishGet cfg U request key threshold id prompt vector).2.log ∧
      ∀ hit, (w.finishGet cfg U request key threshold id prompt vector).1 = some hit →
        hit.history <+: (w.finishGet cfg U request key threshold id prompt vector).2.log ∧
          Legitimate cfg U request key threshold hit := by
  rcases vector with _ | _ | ⟨x, xs⟩
  · exact ⟨hinv, List.prefix_rfl, fun hit h ↦ by cases h⟩
  · exact ⟨hinv, List.prefix_rfl, fun hit h ↦ by cases h⟩
  · obtain ⟨hsearch, hlog, hhit⟩ := search_spec (hinv.memoize key prompt (x :: xs))
      hkey threshold hprompt (List.mem_append_right _ List.mem_cons_self)
    refine ⟨hsearch, ?_, fun hit h ↦ ?_⟩
    · rw [World.finishGet, hlog]
      exact List.prefix_append _ _
    · obtain ⟨hhistory, hlegitimate⟩ := hhit hit h
      refine ⟨?_, hlegitimate⟩
      rw [World.finishGet, hlog, hhistory]

def protocol (cfg : Config) (U : Unicode) : Protocol World where
  inv := Inv cfg U
  rely _ w w' := w.log <+: w'.log
  refl _ _ := List.prefix_rfl
  trans _ _ _ _ h h' := h.trans h'

abbrev machine (cfg : Config) (U : Unicode) : Machine Op Ret World :=
  ((cacheService cfg U).restrict Registered).machine

/-- What a lookup asked for. -/
def Asked : Op → Prop
  | .finishGet request _ _ _ prompt _ => lastUserText request = some prompt
  | _ => True

/-- The step lemma. -/
theorem inv_exec (hinv : Inv cfg U w) {i : ℕ} {o : Op} {a : Ret o} (h : Exec cfg U w o a w')
    (hregistered : Registered i o w) (hasked : Asked o) : Inv cfg U w' ∧ w.log <+: w'.log := by
  cases h with
  | beginGet request projectId threshold tenantId =>
      obtain ⟨hinv', hlog, -⟩ := beginGet_spec hinv request projectId threshold tenantId
      exact ⟨hinv', by rw [hlog]⟩
  | embed text vector => exact ⟨hinv, List.prefix_rfl⟩
  | finishGet request key threshold id prompt vector =>
      obtain ⟨hinv', hlog, -⟩ := finishGet_spec hinv hasked hregistered
      exact ⟨hinv', hlog⟩
  | beginPut request projectId response ttlSeconds tenantId =>
      exact beginPut_spec hinv request projectId response ttlSeconds tenantId
  | finishPut request key response ttlSeconds prompt vector =>
      exact finishPut_spec hinv request key response ttlSeconds prompt vector
  | invalidate scope =>
      refine ⟨hinv.invalidate scope, ?_⟩
      rw [World.invalidate]
      split_ifs
      · exact List.prefix_append _ _
      · exact List.prefix_rfl
  | tick t hlater =>
      exact ⟨⟨hinv.memo, hinv.named, hinv.distinct, hinv.kept, hinv.size⟩, List.prefix_rfl⟩

section Programs

variable {α β : Type} {i : ℕ}

theorem op_safe {Q : α → World → Prop} {o : Op} {k : Ret o → Program α} (hasked : Asked o)
    (h : ∀ w₁, w.log <+: w₁.log → Inv cfg U w₁ → ∀ a w₂, Exec cfg U w₁ o a w₂ →
      Registered i o w₁ → Safe (machine cfg U) (protocol cfg U) i Q (k a) w₂) :
    Safe (machine cfg U) (protocol cfg U) i Q (.call o k) w := by
  refine Safe.call fun w₁ hw hinv a w₂ hexec ↦ ?_
  obtain ⟨hinv₂, hlog⟩ := inv_exec hinv hexec.1 hexec.2 hasked
  exact ⟨hinv₂, fun _ _ ↦ hlog, h w₁ hw hinv a w₂ hexec.1 hexec.2⟩

theorem keeps_done (a : α) :
    Safe (machine cfg U) (protocol cfg U) i (fun _ _ ↦ True) (.done a) w :=
  Safe.done fun _ _ _ ↦ trivial

/-- What a lookup returns is legitimate, and its history has happened. -/
def Returns (cfg : Config) (U : Unicode) (request : Request) (key : BucketKey)
    (threshold : Option ℚ) (hit : Option Hit) (w : World) : Prop :=
  ∀ h, hit = some h → h.history <+: w.log ∧ Legitimate cfg U request key threshold h

theorem get_safe (request : Request) (projectId : String) (threshold : Option ℚ)
    (tenantId : Option String) :
    Safe (machine cfg U) (protocol cfg U) i (Returns cfg U request (tenantId, projectId) threshold)
      (get request projectId threshold tenantId) w := by
  refine op_safe trivial fun w₁ _ hinv₁ begun w₂ hexec _ ↦ ?_
  cases hexec
  obtain ⟨-, hlog, hbegun⟩ := beginGet_spec hinv₁ request projectId threshold tenantId
  obtain ⟨hit, hdone, hhit⟩ | ⟨prompt, id, hembed, hprompt⟩ := hbegun
  · rw [hdone]
    refine Safe.done fun w₃ hw₃ _ h heq ↦ ?_
    obtain ⟨hhistory, hlegitimate⟩ := hhit h heq
    refine ⟨?_, hlegitimate⟩
    rw [hhistory, ← hlog]
    exact hw₃
  · rw [hembed]
    refine op_safe trivial fun w₃ _ _ vector w₄ hexec _ ↦ ?_
    refine op_safe hprompt fun w₅ _ hinv₅ hit w₆ hexec hregistered ↦ ?_
    cases hexec
    obtain ⟨-, -, hhit⟩ := finishGet_spec hinv₅ hprompt hregistered
    refine Safe.done fun w₇ hw₇ _ h heq ↦ ?_
    obtain ⟨hhistory, hlegitimate⟩ := hhit h heq
    exact ⟨hhistory.trans hw₇, hlegitimate⟩

theorem put_safe (request : Request) (projectId : String) (response : Response) (ttlSeconds : ℤ)
    (tenantId : Option String) :
    Safe (machine cfg U) (protocol cfg U) i (fun _ _ ↦ True)
      (put request projectId response ttlSeconds tenantId) w := by
  refine op_safe trivial fun w₁ _ _ waiting w₂ _ _ ↦ ?_
  cases waiting with
  | none => exact keeps_done _
  | some prompt =>
      refine op_safe trivial fun w₃ _ _ vector w₄ _ _ ↦ ?_
      exact op_safe trivial fun _ _ _ _ _ _ _ ↦ keeps_done _

/-- What a call has seen to when it returns. -/
def Fulfilled (cfg : Config) (U : Unicode) (c : Call) (a : Answer) (w : World) : Prop :=
  match c, a with
  | .get request projectId threshold tenantId, .found hit =>
      Returns cfg U request (tenantId, projectId) threshold hit w
  | _, _ => True

theorem body_safe (c : Call) :
    Safe (machine cfg U) (protocol cfg U) i (Fulfilled cfg U c) (body c) w := by
  cases c with
  | get request projectId threshold tenantId =>
      refine Safe.seq (get_safe request projectId threshold tenantId) fun hit w₁ _ hhit ↦ ?_
      refine Safe.done fun w₂ hw₂ _ h heq ↦ ?_
      obtain ⟨hhistory, hlegitimate⟩ := hhit h heq
      exact ⟨hhistory.trans hw₂, hlegitimate⟩
  | put request projectId response ttlSeconds tenantId =>
      exact Safe.seq (put_safe request projectId response ttlSeconds tenantId)
        fun _ _ _ _ ↦ Safe.done fun _ _ _ ↦ trivial
  | invalidate scope =>
      exact op_safe trivial fun _ _ _ _ _ _ _ ↦ Safe.done fun _ _ _ ↦ trivial
  | tick t => exact op_safe trivial fun _ _ _ _ _ _ _ ↦ Safe.done fun _ _ _ ↦ trivial

end Programs

/-! ### Runs -/

theorem obligations (cfg : Config) (U : Unicode) :
    Obligations ((cacheService cfg U).restrict Registered) (protocol cfg U) (fun _ _ ↦ True)
      (fun _ c _ a w ↦ Fulfilled cfg U c a w) where
  pre_rely _ _ _ _ _ := trivial
  env w w' hinv henv := by
    obtain rfl : w = w' := henv
    exact ⟨hinv, fun _ ↦ List.prefix_rfl⟩
  start _ c _ _ _ _ := body_safe c

theorem inv_start (cfg : Config) (U : Unicode) (now : ℚ) : Inv cfg U (start now) := by
  refine ⟨fun key text v h ↦ ?_, fun key id h ↦ ?_, fun key key' id h ↦ ?_, fun key id h ↦ ?_,
    fun key id h ↦ ?_⟩
  · cases h
  · simp [start] at h
  · simp [start] at h
  · simp [start] at h
  · simp [start] at h

abbrev CachePool := Pool Op Ret World Call Answer

/-- Any calls on one cache, in any order: as long as no lookup goes on with a bucket that has
been dropped, every hit is legitimate, and no bucket has more entries than it may. -/
theorem legitimate_of_registered {cfg : Config} {U : Unicode} {now : ℚ} {p : CachePool}
    (hp : Reachable ((cacheService cfg U).restrict Registered) (start now) p) :
    (∀ (i : ℕ) (w₀ : World) (request : Request) (projectId : String) (threshold : Option ℚ)
      (tenantId : Option String) (hit : Hit),
      p.threads[i]? = some ⟨.get request projectId threshold tenantId, w₀,
        .done (.found (some hit))⟩ →
          hit.history <+: p.state.log ∧
            Legitimate cfg U request (tenantId, projectId) threshold hit) ∧
      ∀ (key : BucketKey) (id : ℕ), p.state.entries.lookup key = some id →
        (p.state.bucket id).length ≤ cfg.maxEntries := by
  have hsafe := Reachable.poolSafe (obligations cfg U) (inv_start cfg U now) (fun _ ↦ trivial) hp
  exact ⟨fun i w₀ request projectId threshold tenantId hit hi ↦ hsafe.result hi hit rfl,
    hsafe.inv.size⟩

/-! ### An invalidation while a lookup waits -/

/-- How an operation turns out when no time passes and every prompt has the same embedding. -/
def act (cfg : Config) (U : Unicode) (_ : ℕ) : (o : Op) → World → Option (Ret o × World)
  | .beginGet request projectId threshold tenantId, w =>
      some (w.beginGet cfg U request projectId threshold tenantId)
  | .embed _, w => some (some [1], w)
  | .finishGet request key threshold id prompt vector, w =>
      some (w.finishGet cfg U request key threshold id prompt vector)
  | .beginPut request projectId response ttlSeconds tenantId, w =>
      some (w.beginPut cfg U request projectId response ttlSeconds tenantId)
  | .finishPut request key response ttlSeconds prompt vector, w =>
      some ((), w.finishPut cfg U request key response ttlSeconds prompt vector)
  | .invalidate scope, w => some (w.invalidate scope)
  | .tick _, _ => none

theorem exec_act {i : ℕ} {o : Op} {a : Ret o} (h : act cfg U i o w = some (a, w')) :
    Exec cfg U w o a w' := by
  have hpair : ∀ {o : Op} {result : Ret o × World}, Exec cfg U w o result.1 result.2 →
      ∀ {a : Ret o}, some result = some (a, w') → Exec cfg U w o a w' := by
    rintro o result hexec a heq
    cases heq
    exact hexec
  cases o with
  | beginGet request projectId threshold tenantId =>
      exact hpair (.beginGet request projectId threshold tenantId) h
  | embed text => exact hpair (.embed text _) h
  | finishGet request key threshold id prompt vector =>
      exact hpair (.finishGet request key threshold id prompt vector) h
  | beginPut request projectId response ttlSeconds tenantId =>
      exact hpair (.beginPut request projectId response ttlSeconds tenantId) h
  | finishPut request key response ttlSeconds prompt vector =>
      exact hpair (.finishPut request key response ttlSeconds prompt vector) h
  | invalidate scope => exact hpair (.invalidate scope) h
  | tick t => cases h

def registered : Op → World → Bool
  | .finishGet _ key _ id _ (some (_ :: _)), w => w.entries.lookup key = some id
  | _, _ => true

theorem registered_sound {i : ℕ} {o : Op} (h : registered o w = true) : Registered i o w := by
  cases o with
  | finishGet request key threshold id prompt vector =>
      rcases vector with _ | _ | ⟨x, xs⟩
      · trivial
      · trivial
      · have hkey : w.entries.lookup key = some id := of_decide_eq_true h
        exact hkey
  | _ => trivial

/-- Whether an entry stands that was stored for the key. -/
def standing (key : BucketKey) (log : List Event) : Bool :=
  log.foldl (fun stands event ↦ match event with
    | .embedded _ _ _ => stands
    | .stored key' _ => stands || decide (key' = key)
    | .invalidated scope => stands && !scope.covers key) false

theorem Stands.standing (h : Stands log key e) : standing key log = true := by
  obtain ⟨pre, post, rfl, hpost⟩ := h
  rw [Semantic.standing, List.foldl_append, List.foldl_cons]
  simp only [decide_true, Bool.or_true]
  clear pre
  induction post with
  | nil => rfl
  | cons event post ih =>
      have hrest := ih fun scope h ↦ hpost scope (List.mem_cons_of_mem _ h)
      rw [List.foldl_cons]
      cases event with
      | embedded key' text v => exact hrest
      | stored key' e' => exact hrest
      | invalidated scope =>
          have hcovers := hpost scope List.mem_cons_self
          change List.foldl _ (true && !scope.covers key) post = true
          rw [hcovers]
          exact hrest

def userRequest (prompt : String) : Request where
  messages := [⟨some "user", .text prompt.toList⟩]
  model := "gpt"
  temperature := none
  stream := false
  system := none
  tools := []

def defaults : Config := ⟨true, 9 / 10, 500⟩

def play (ok : Op → World → Bool) (turns : List (Turn Call)) : CachePool :=
  Pool.playTurns body (fun i o w ↦ if ok o w then act defaults ascii i o w else none) turns
    ⟨start 0, []⟩

def stored : List (Turn Call) :=
  [.start (.put (userRequest "what is our refund policy?") "p" "old" 300 none), .next 0, .next 0,
    .next 0, .start (.get (userRequest "which refund policy do we have?") "p" none none), .next 1]

/-- The project is invalidated while the lookup waits for its embedding. -/
def dropped : List (Turn Call) :=
  stored ++ [.start (.invalidate ⟨some "p", none, false⟩), .next 2, .next 1, .next 1]

/-- The lookup goes on before anything else happens. -/
def undisturbed : List (Turn Call) := stored ++ [.next 1, .next 1]

/-- The response that lookup 1 returned, and whether an entry of its scope stands by then. -/
def returned (p : CachePool) : Option (Response × Bool) :=
  match (p.threads[1]? : Option (Thread Op Ret World Call Answer)) with
  | some ⟨.get _ "p" none none, _, .done (.found (some hit))⟩ =>
      some (hit.response, standing (none, "p") hit.history)
  | _ => none

theorem returned_spec {p : CachePool} {response : Response} {stands : Bool}
    (h : returned p = some (response, stands)) : ∃ (request : Request) (w₀ : World) (hit : Hit),
      p.threads[1]? = some ⟨.get request "p" none none, w₀, .done (.found (some hit))⟩ ∧
        hit.response = response ∧ standing (none, "p") hit.history = stands := by
  unfold returned at h
  split at h
  next request w₀ hit hi =>
    cases h
    exact ⟨request, w₀, hit, hi, rfl, rfl⟩
  next => cases h

theorem legitimate_undisturbed : ∃ (request : Request) (w₀ : World) (hit : Hit),
    (play registered undisturbed).threads[1]? =
      some ⟨.get request "p" none none, w₀, .done (.found (some hit))⟩ ∧
        hit.response = "old" ∧ Legitimate defaults ascii request (none, "p") none hit := by
  have hplay : Steps ((cacheService defaults ascii).restrict Registered) ⟨start 0, []⟩
      (play registered undisturbed) := by
    refine Steps.playTurns (S := (cacheService defaults ascii).restrict Registered)
      (fun i o w a w' h ↦ ?_) _ (fun _ _ _ ↦ trivial) _
    split_ifs at h with hok
    exact ⟨exec_act h, registered_sound hok⟩
  obtain ⟨request, w₀, hit, hi, hresponse, -⟩ : ∃ (request : Request) (w₀ : World) (hit : Hit),
      (play registered undisturbed).threads[1]? =
        some ⟨.get request "p" none none, w₀, .done (.found (some hit))⟩ ∧
      hit.response = "old" ∧ standing (none, "p") hit.history = true :=
    returned_spec (by decide +kernel)
  obtain ⟨hhits, -⟩ := legitimate_of_registered hplay
  exact ⟨request, w₀, hit, hi, hresponse, (hhits 1 w₀ request "p" none none hit hi).2⟩

/-- The lookup returns what was dropped before it returned. -/
theorem dropped_not_legitimate : ∃ p : CachePool,
    Reachable (cacheService defaults ascii) (start 0) p ∧
    ∃ (request : Request) (w₀ : World) (hit : Hit),
      p.threads[1]? = some ⟨.get request "p" none none, w₀, .done (.found (some hit))⟩ ∧
        ¬ Legitimate defaults ascii request (none, "p") none hit := by
  refine ⟨play (fun _ _ ↦ true) dropped, ?_, ?_⟩
  · exact Steps.playTurns (S := cacheService defaults ascii)
      (fun i o w a w' h ↦ exec_act (by simpa using h)) _ (fun _ _ _ ↦ trivial) _
  · obtain ⟨request, w₀, hit, hi, -, hstands⟩ : ∃ (request : Request) (w₀ : World) (hit : Hit),
        (play (fun _ _ ↦ true) dropped).threads[1]? =
          some ⟨.get request "p" none none, w₀, .done (.found (some hit))⟩ ∧
        hit.response = "old" ∧ standing (none, "p") hit.history = false :=
      returned_spec (by decide +kernel)
    refine ⟨request, w₀, hit, hi, ?_⟩
    rintro ⟨prompt, embedding, e, hanswers⟩
    rw [hanswers.stored.standing] at hstands
    cases hstands

end Semantic
