import AxonGateway.Query.Paging

/-!
# Iterating the pages

What lies behind a cursor is as it was in the beginning, so the pages get over the table once.  They
claim all that is eligible exactly when the cursors at which they end come back.
-/

namespace AxonGateway.Query

open PyValue

section UpTo

variable {α : Type} (p : α → Bool)

/-- A list up to its `n`-th element with the property. -/
def upTo : ℕ → List α → List α
  | _, [] => []
  | 0, _ => []
  | n + 1, x :: l => x :: upTo (if p x then n else n + 1) l

variable {p}

theorem upTo_isPrefix (n : ℕ) (l : List α) : upTo p n l <+: l := by
  induction l generalizing n with
  | nil => exact List.prefix_rfl
  | cons x l ih =>
      cases n with
      | zero => exact List.nil_prefix
      | succ n => exact (List.prefix_cons_inj x).mpr (ih _)

theorem filter_upTo (n : ℕ) (l : List α) : (upTo p n l).filter p = (l.filter p).take n := by
  induction l generalizing n with
  | nil => simp [upTo]
  | cons x l ih =>
      cases n with
      | zero => simp [upTo]
      | succ n =>
          by_cases hx : p x = true
          · simp [upTo, hx, ih]
          · simp [upTo, hx, ih]

theorem getLast?_upTo {n : ℕ} {l : List α} (h : n + 1 ≤ (l.filter p).length) :
    (upTo p (n + 1) l).getLast? = ((l.filter p).take (n + 1)).getLast? := by
  induction l generalizing n with
  | nil => simp at h
  | cons x l ih =>
      by_cases hx : p x = true
      · rw [List.filter_cons_of_pos hx, List.length_cons] at h
        rw [List.filter_cons_of_pos hx, upTo, if_pos hx, List.take_succ_cons, List.getLast?_cons,
          List.getLast?_cons]
        cases n with
        | zero => cases l <;> simp [upTo]
        | succ n => rw [ih (by omega)]
      · rw [List.filter_cons_of_neg hx] at h ⊢
        have hne : (l.filter p).take (n + 1) ≠ [] := by
          rw [← List.length_pos_iff, List.length_take]
          omega
        rw [upTo, if_neg hx, List.getLast?_cons, ih h, List.getLast?_eq_some_getLast hne,
          Option.getD_some]

end UpTo

variable {sha256 : Text → Text} {wide : List ℕ → Option Text} {owner : Text}
  {now claimSeconds : ℤ} {limit : ℕ}

/-! ### One page -/

/-- The rows that a scan gets to. -/
def examined (limit : ℕ) (answer : ScanAnswer) (rows : List Row) : List Row :=
  rows.take (min answer.count (scanLimit limit))

/-- The rows that a page gets over: it stops at the last claim of its limit when more could follow. -/
def passed (now : ℤ) (limit : ℕ) (answer : ScanAnswer) (rows : List Row) : List Row :=
  if limit < ((examined limit answer rows).filter (Row.isEligible now)).length then
    upTo (Row.isEligible now) limit (examined limit answer rows)
  else examined limit answer rows

/-- The key at which a page ends before the table does. -/
def endsAt (now : ℤ) (limit : ℕ) (answer : ScanAnswer) (rows : List Row) : Option Key :=
  if limit < ((examined limit answer rows).filter (Row.isEligible now)).length ∨
      (examined limit answer rows).length < rows.length ∨ answer.reports then
    (passed now limit answer rows).getLast?.map Row.key
  else none

/-- The cursor behind the rows that are done. -/
inductive Behind : List Row → Option Text → Prop
  | start : Behind [] none
  | row (done : List Row) (row : Row) (hlegal : row.key.Legal)
      (hshort : (payload row.key).length ≤ 3072) :
      Behind (done ++ [row]) (some (cursorText row.key))

theorem rowsAfter_append {done rows : List Row} {row : Row}
    (h : ((done ++ [row] ++ rows).map Row.key).Nodup) :
    rowsAfter (some row.key) (done ++ [row] ++ rows) = rows := by
  have hne : ∀ r ∈ done, decide (r.key ≠ row.key) = true := by
    intro r hr
    rw [List.append_assoc, List.map_append, List.nodup_append] at h
    have hkeys := h.2.2 r.key (List.mem_map_of_mem hr) row.key (by simp)
    exact decide_eq_true hkeys
  simp only [rowsAfter]
  rw [List.append_assoc, List.dropWhile_append_of_pos hne, List.singleton_append,
    List.dropWhile_cons_of_neg (by simp), List.tail_cons]

variable (wide) in
theorem Behind.decode {done rows : List Row} {cursor : Option Text} (h : Behind done cursor)
    (hnodup : ((done ++ rows).map Row.key).Nodup) :
    ∃ startKey, decodeQueryReconciliationCursor wide cursor = .ok startKey ∧
      rowsAfter startKey (done ++ rows) = rows := by
  cases h with
  | start => exact ⟨none, rfl, rfl⟩
  | row done row hlegal hshort =>
      exact ⟨some row.key, decode_cursorText wide hlegal hshort, rowsAfter_append hnodup⟩

section Page

variable {answer : ScanAnswer} {rows : List Row}

theorem examined_isPrefix : examined limit answer rows <+: rows := List.take_prefix _ _

theorem passed_isPrefix : passed now limit answer rows <+: rows := by
  unfold passed
  split_ifs with hmany
  · exact (upTo_isPrefix _ _).trans examined_isPrefix
  · exact examined_isPrefix

theorem filter_passed (now : ℤ) (limit : ℕ) (answer : ScanAnswer) (rows : List Row) :
    (passed now limit answer rows).filter (Row.isEligible now) =
      ((examined limit answer rows).filter (Row.isEligible now)).take limit := by
  unfold passed
  split_ifs with hmany
  · exact filter_upTo _ _
  · rw [List.take_of_length_le (Nat.le_of_not_lt hmany)]

theorem getLast?_passed (hlimit : 1 ≤ limit)
    (hmany : limit < ((examined limit answer rows).filter (Row.isEligible now)).length) :
    (passed now limit answer rows).getLast? =
      (((examined limit answer rows).filter (Row.isEligible now)).take limit).getLast? := by
  obtain ⟨limit, rfl⟩ := Nat.exists_eq_add_of_le' hlimit
  rw [passed, if_pos hmany, getLast?_upTo hmany.le]

theorem endsAt_mem {key : Key} (h : endsAt now limit answer rows = some key) :
    ∃ row ∈ rows, row.key = key := by
  unfold endsAt at h
  split_ifs at h with hmore
  obtain ⟨row, hrow, rfl⟩ := Option.map_eq_some_iff.mp h
  exact ⟨row, passed_isPrefix.subset (List.mem_of_getLast? hrow), rfl⟩

variable (wide answer) in
/-- A page claims what is eligible among the rows it gets over, and leaves the others alone. -/
theorem page_spec {done : List Row} {cursor : Option Text}
    (hrequest : ValidRequest owner limit claimSeconds) (hcursor : Behind done cursor)
    (hnodup : ((done ++ rows).map Row.key).Nodup) (hgood : ∀ row ∈ rows, row.Good sha256 now) :
    ∃ (f : Row → Row) (claims : List QueryLifecycleClaim),
      claimQueryReconciliationPage sha256 owner now limit wide claimSeconds cursor answer
          (done ++ rows) =
        .ok ((done ++ rows).map f, ⟨claims, (endsAt now limit answer rows).map cursorText⟩) ∧
      (∀ row, (f row).key = row.key) ∧
      (∀ row, row.key ∉ (passed now limit answer rows).map Row.key → f row = row) ∧
      claims.map (claimKey sha256) =
        ((passed now limit answer rows).filter (Row.isEligible now)).map Row.key := by
  obtain ⟨startKey, hdecode, hrows⟩ := hcursor.decode wide hnodup
  have hscan : scan now limit startKey answer (done ++ rows) =
      ((examined limit answer rows).filter (Row.isEligible now),
        if (examined limit answer rows).length < rows.length ∨ answer.reports then
          (examined limit answer rows).getLast?.map Row.key else none) := by
    simp only [scan, hrows]
    rfl
  have hsublist : ((examined limit answer rows).filter (Row.isEligible now)).Sublist rows :=
    List.filter_sublist.trans examined_isPrefix.sublist
  have hlimit : 1 ≤ limit := hrequest.2.2.2.2.1
  have hk : limit - 1 + 1 = limit := Nat.sub_add_cancel hlimit
  obtain ⟨f, claims, q, hrun, htable, hf, hframe, hclaims, hnames, hstop, hlast⟩ :=
    claimItems_spec (k := limit - 1) (p := ⟨done ++ rows, [], none, false⟩) owner (now + claimSeconds)
      answer.token (fun row hrow ↦ hgood row (hsublist.subset hrow))
      (fun row hrow ↦ List.of_mem_filter hrow)
      (hnodup.sublist ((hsublist.trans (List.sublist_append_right _ _)).map _))
      (fun row hrow ↦ List.mem_append_right _ (hsublist.subset hrow)) hnodup
      (by rw [List.length_nil, Nat.zero_add, hk]) rfl
  rw [hk] at hframe hnames hstop hlast
  rw [List.nil_append] at hclaims
  have hcontinuation : (if q.stoppedBeforePageEnd = true then q.lastExaminedKey
      else if (examined limit answer rows).length < rows.length ∨ answer.reports then
        (examined limit answer rows).getLast?.map Row.key else none) =
        endsAt now limit answer rows := by
    by_cases hmany : limit < ((examined limit answer rows).filter (Row.isEligible now)).length
    · rw [hstop, if_pos (decide_eq_true hmany), hlast hmany, endsAt, if_pos (.inl hmany),
        getLast?_passed hlimit hmany]
    · have hnot : ¬ decide (limit < ((examined limit answer rows).filter
          (Row.isEligible now)).length) = true := by simpa using hmany
      rw [hstop, if_neg hnot, endsAt, passed, if_neg hmany]
      simp only [hmany, false_or]
  have hencode : encodeQueryReconciliationCursor (endsAt now limit answer rows) =
      .ok ((endsAt now limit answer rows).map cursorText) := by
    cases hend : endsAt now limit answer rows with
    | none => rfl
    | some key =>
        obtain ⟨row, hrow, rfl⟩ := endsAt_mem hend
        exact encode_of_legal (hgood row hrow).1
  refine ⟨f, claims, ?_, hf, ?_, ?_⟩
  · rw [claimQueryReconciliationPage, require_of hrequest, hdecode]
    simp only [bind, Except.bind, hscan, hrun, hcontinuation, hencode, htable, hclaims]
    rfl
  · intro row hrow
    refine hframe row fun hmem ↦ hrow ?_
    rw [← filter_passed] at hmem
    exact (List.filter_sublist.map _).subset hmem
  · rw [hnames, filter_passed]

theorem map_key_map {f : Row → Row} (hf : ∀ row, (f row).key = row.key) (table : List Row) :
    (table.map f).map Row.key = table.map Row.key := by
  rw [List.map_map]
  exact List.map_congr_left fun row _ ↦ hf row

/-- Behind the key of a cursor the table is as it was. -/
theorem next_page {done : List Row} {f : Row → Row} {key : Key} (hf : ∀ row, (f row).key = row.key)
    (hframe : ∀ row, row.key ∉ (passed now limit answer rows).map Row.key → f row = row)
    (hnodup : ((done ++ rows).map Row.key).Nodup) (hgood : ∀ row ∈ rows, row.Good sha256 now)
    (hend : endsAt now limit answer rows = some key) (hshort : (payload key).length ≤ 3072) :
    ∃ done', (done ++ rows).map f = done' ++ rows.drop (passed now limit answer rows).length ∧
      Behind done' (some (cursorText key)) ∧
      (rows.drop (passed now limit answer rows).length).length < rows.length := by
  have hlast : (passed now limit answer rows).getLast?.map Row.key = some key := by
    unfold endsAt at hend
    split_ifs at hend with hmore
    exact hend
  obtain ⟨row, hrow, rfl⟩ := Option.map_eq_some_iff.mp hlast
  have hmem := List.mem_of_getLast? hrow
  obtain ⟨front, hfront⟩ := List.getLast?_eq_some_iff.mp hrow
  have hsplit : rows = passed now limit answer rows ++
      rows.drop (passed now limit answer rows).length :=
    (List.prefix_iff_eq_append.mp passed_isPrefix).symm
  have hrest : (rows.drop (passed now limit answer rows).length).map f =
      rows.drop (passed now limit answer rows).length := by
    refine (List.map_congr_left fun r hr ↦ hframe r fun hkey ↦ ?_).trans (List.map_id _)
    rw [hsplit, List.map_append, List.map_append] at hnodup
    have hdisjoint := (List.nodup_append.mp hnodup).2.1
    exact (List.nodup_append.mp hdisjoint).2.2 _ hkey _ (List.mem_map_of_mem hr) rfl
  refine ⟨(done ++ front).map f ++ [f row], ?_, ?_, ?_⟩
  · conv_lhs => rw [hsplit]
    rw [List.map_append, List.map_append, hrest, ← List.append_assoc, hfront]
    simp
  · rw [← hf row]
    refine .row _ _ ?_ ?_
    · rw [hf]
      exact (hgood row (passed_isPrefix.subset hmem)).1
    · rwa [hf]
  · rw [List.length_drop]
    have hpos := List.length_pos_of_mem hmem
    have hle : (passed now limit answer rows).length ≤ rows.length := passed_isPrefix.length_le
    omega

end Page

/-! ### All pages -/

section Run

variable (sha256 wide owner now claimSeconds limit) (answers : ℕ → ScanAnswer)

/-- The cursors are fed back until there is none; nothing when the fuel runs out. -/
def drain : ℕ → ℕ → Option Text → List Row → Option (Except String (List QueryLifecycleClaim))
  | 0, _, _, _ => none
  | fuel + 1, n, cursor, table =>
      match claimQueryReconciliationPage sha256 owner now limit wide claimSeconds cursor (answers n)
          table with
      | .error message => some (.error message)
      | .ok (table, page) =>
          match page.nextCursor with
          | none => some (.ok page.claims)
          | some cursor =>
              (drain fuel (n + 1) (some cursor) table).map (Except.map (page.claims ++ ·))

/-- The iteration ends, and each eligible row has been claimed once. -/
def ClaimsAll (table : List Row) : Prop :=
  ∃ fuel claims,
    drain sha256 wide owner now claimSeconds limit answers fuel 0 none table = some (.ok claims) ∧
    claims.map (claimKey sha256) = (table.filter (Row.isEligible now)).map Row.key

/-- Some page from the `n`-th on ends at a key. -/
inductive StopsAt : ℕ → List Row → Key → Prop
  | here {n : ℕ} {rows : List Row} {key : Key} (h : endsAt now limit (answers n) rows = some key) :
      StopsAt n rows key
  | later {n : ℕ} {rows : List Row} {key key' : Key}
      (h : endsAt now limit (answers n) rows = some key)
      (hlater : StopsAt (n + 1) (rows.drop (passed now limit (answers n) rows).length) key') :
      StopsAt n rows key'

variable {sha256 wide owner now claimSeconds limit answers}

/-- A page without a cursor gets over all that is eligible. -/
theorem filter_passed_of_endsAt_eq_none {answer : ScanAnswer} {rows : List Row} (hlimit : 1 ≤ limit)
    (hcount : 1 ≤ answer.count) (h : endsAt now limit answer rows = none) :
    (passed now limit answer rows).filter (Row.isEligible now) =
      rows.filter (Row.isEligible now) := by
  by_cases hmany : limit < ((examined limit answer rows).filter (Row.isEligible now)).length
  · rw [endsAt, if_pos (.inl hmany), Option.map_eq_none_iff, List.getLast?_eq_none_iff] at h
    have hlength := congrArg List.length (filter_passed now limit answer rows)
    rw [h, List.filter_nil, List.length_nil, List.length_take] at hlength
    omega
  · have hpassed : passed now limit answer rows = examined limit answer rows := if_neg hmany
    by_cases hmore : (examined limit answer rows).length < rows.length ∨ answer.reports = true
    · rw [endsAt, if_pos (.inr hmore), hpassed, Option.map_eq_none_iff,
        List.getLast?_eq_none_iff] at h
      have hnil : rows = [] := by
        have hbound : 1 ≤ min answer.count (scanLimit limit) := by
          unfold scanLimit
          omega
        have hlength := congrArg List.length h
        rw [examined, List.length_take, List.length_nil] at hlength
        exact List.length_eq_zero_iff.mp (by omega)
      rw [hpassed, h, hnil]
    · have hle : rows.length ≤ (examined limit answer rows).length :=
        Nat.le_of_not_lt fun hlt ↦ hmore (.inl hlt)
      rw [hpassed, examined_isPrefix.eq_of_length_le hle]

theorem exists_drain {n : ℕ} {done rows : List Row} {cursor : Option Text}
    (hrequest : ValidRequest owner limit claimSeconds) (hcounts : ∀ n, 1 ≤ (answers n).count)
    (hcursor : Behind done cursor) (hnodup : ((done ++ rows).map Row.key).Nodup)
    (hgood : ∀ row ∈ rows, row.Good sha256 now)
    (hshort : ∀ key, StopsAt now limit answers n rows key → (payload key).length ≤ 3072) :
    ∃ fuel claims,
      drain sha256 wide owner now claimSeconds limit answers fuel n cursor (done ++ rows) =
        some (.ok claims) ∧
      claims.map (claimKey sha256) = (rows.filter (Row.isEligible now)).map Row.key := by
  induction hlen : rows.length using Nat.strong_induction_on generalizing n done rows cursor with
  | _ len ih =>
      obtain ⟨f, claims, hpage, hf, hframe, hclaims⟩ :=
        page_spec wide (answers n) hrequest hcursor hnodup hgood
      cases hend : endsAt now limit (answers n) rows with
      | none =>
          rw [hend, Option.map_none] at hpage
          refine ⟨1, claims, ?_, ?_⟩
          · simp only [drain, hpage]
          · rw [hclaims, filter_passed_of_endsAt_eq_none hrequest.2.2.2.2.1 (hcounts n) hend]
      | some key =>
          have hkey := hshort key (.here hend)
          obtain ⟨done', htable, hbehind, hlt⟩ :=
            next_page hf hframe hnodup hgood hend hkey
          have hnodup' : ((done' ++ rows.drop (passed now limit (answers n) rows).length).map
              Row.key).Nodup := by
            rwa [← htable, map_key_map hf]
          obtain ⟨fuel, later, hdrain, hlater⟩ := ih _ (hlen ▸ hlt) hbehind hnodup'
            (fun row hrow ↦ hgood row (List.mem_of_mem_drop hrow))
            (fun key' hstops ↦ hshort key' (.later hend hstops)) rfl
          refine ⟨fuel + 1, claims ++ later, ?_, ?_⟩
          · rw [hend, Option.map_some] at hpage
            simp only [drain, hpage, htable, hdrain]
            rfl
          · rw [List.map_append, hclaims, hlater, ← List.map_append, ← List.filter_append,
              List.prefix_iff_eq_append.mp passed_isPrefix]

theorem drain_of_long {key : Key} (hrequest : ValidRequest owner limit claimSeconds)
    (hlong : 3072 < (payload key).length) (fuel n : ℕ) (table : List Row)
    (claims : List QueryLifecycleClaim) :
    drain sha256 wide owner now claimSeconds limit answers fuel n (some (cursorText key)) table ≠
      some (.ok claims) := by
  cases fuel with
  | zero => exact nofun
  | succ fuel =>
      have hpage : claimQueryReconciliationPage sha256 owner now limit wide claimSeconds
          (some (cursorText key)) (answers n) table =
            .error "query reconciliation cursor is invalid" := by
        rw [claimQueryReconciliationPage, require_of hrequest,
          decode_cursorText_of_long wide hlong]
        rfl
      simp only [drain, hpage]
      exact nofun

/-- An iteration that ends has ended from the next page on too. -/
theorem exists_drain_next {fuel n : ℕ} {cursor : Option Text} {table table' : List Row}
    {page : QueryLifecyclePage} {next : Text} {claims : List QueryLifecycleClaim}
    (hpage : claimQueryReconciliationPage sha256 owner now limit wide claimSeconds cursor (answers n)
      table = .ok (table', page)) (hnext : page.nextCursor = some next)
    (h : drain sha256 wide owner now claimSeconds limit answers fuel n cursor table =
      some (.ok claims)) :
    ∃ fuel' later, drain sha256 wide owner now claimSeconds limit answers fuel' (n + 1) (some next)
      table' = some (.ok later) := by
  cases fuel with
  | zero => cases h
  | succ fuel =>
      simp only [drain, hpage, hnext] at h
      obtain ⟨result, hresult, hmap⟩ := Option.map_eq_some_iff.mp h
      cases result with
      | error message => cases hmap
      | ok later => exact ⟨fuel, later, hresult⟩

/-- Where a page ends at a key whose cursor is too long, the iteration fails. -/
theorem drain_ne_ok {n : ℕ} {rows : List Row} {key : Key}
    (hrequest : ValidRequest owner limit claimSeconds)
    (hstops : StopsAt now limit answers n rows key) (hlong : 3072 < (payload key).length)
    {done : List Row} {cursor : Option Text} (hcursor : Behind done cursor)
    (hnodup : ((done ++ rows).map Row.key).Nodup) (hgood : ∀ row ∈ rows, row.Good sha256 now)
    (fuel : ℕ) (claims : List QueryLifecycleClaim) :
    drain sha256 wide owner now claimSeconds limit answers fuel n cursor (done ++ rows) ≠
      some (.ok claims) := by
  induction hstops generalizing done cursor fuel claims with
  | @here n rows key hend =>
      intro hdrain
      obtain ⟨f, claims, hpage, -⟩ :=
        page_spec wide (answers n) hrequest hcursor hnodup hgood
      rw [hend] at hpage
      obtain ⟨fuel', later, hlater⟩ := exists_drain_next hpage rfl hdrain
      exact drain_of_long hrequest hlong _ _ _ _ hlater
  | @later n rows key key' hend hlater ih =>
      intro hdrain
      obtain ⟨f, claims, hpage, hf, hframe, -⟩ :=
        page_spec wide (answers n) hrequest hcursor hnodup hgood
      rw [hend] at hpage
      obtain ⟨fuel', later, hnext⟩ := exists_drain_next hpage rfl hdrain
      by_cases hshort : (payload key).length ≤ 3072
      · obtain ⟨done', htable, hbehind, -⟩ := next_page hf hframe hnodup hgood hend hshort
        have hnodup' : ((done' ++ rows.drop (passed now limit (answers n) rows).length).map
            Row.key).Nodup := by
          rwa [← htable, map_key_map hf]
        rw [htable] at hnext
        exact ih hlong hbehind hnodup' (fun row hrow ↦ hgood row (List.mem_of_mem_drop hrow)) _ _
          hnext
      · exact drain_of_long hrequest (Nat.lt_of_not_le hshort) _ _ _ _ hnext

variable (wide) in
/-- A cursor comes back exactly when its payload is short enough, and all that is eligible is
claimed exactly when the cursors of the pages come back. -/
theorem claimsAll_iff {table : List Row} (hrequest : ValidRequest owner limit claimSeconds)
    (hcounts : ∀ n, 1 ≤ (answers n).count) (hnodup : (table.map Row.key).Nodup)
    (hlegal : ∀ row ∈ table, row.key.Legal)
    (hwell : ∀ row ∈ table, ∀ l ∈ row.lifecycle, row.isEligible now = true →
      l.WellFormed sha256 row.key) :
    (ClaimsAll sha256 wide owner now claimSeconds limit answers table ↔
      ∀ key, StopsAt now limit answers 0 table key → (payload key).length ≤ 3072) ∧
    ∀ key : Key, key.Legal →
      ((∃ cursor, encodeQueryReconciliationCursor (some key) = .ok cursor ∧
        decodeQueryReconciliationCursor wide cursor = .ok (some key)) ↔
          (payload key).length ≤ 3072) := by
  have hgood : ∀ row ∈ table, row.Good sha256 now :=
    fun row hrow ↦ ⟨hlegal row hrow, hwell row hrow⟩
  refine ⟨⟨?_, ?_⟩, fun key hkey ↦ decode_encode_iff wide hkey⟩
  · rintro ⟨fuel, claims, hdrain, -⟩ key hstops
    by_contra hlong
    exact drain_ne_ok hrequest hstops (Nat.lt_of_not_le hlong) .start hnodup hgood fuel claims hdrain
  · intro hshort
    exact exists_drain hrequest hcounts .start hnodup hgood hshort

theorem StopsAt.mem {n : ℕ} {rows : List Row} {key : Key}
    (h : StopsAt now limit answers n rows key) : ∃ row ∈ rows, row.key = key := by
  induction h with
  | here hend => exact endsAt_mem hend
  | later _ _ ih =>
      obtain ⟨row, hrow, hkey⟩ := ih
      exact ⟨row, List.mem_of_mem_drop hrow, hkey⟩

end Run

/-- The digests of two request ids. -/
def digests (request : Text) : Text :=
  if request = "q1".toList then
    "c75de8c1b7c3ae5252091267a736a9bf57001d80e82668b3cb3cd09e2f6a43cb".toList
  else "bee98bf120e8906382754c6be52860ac5dbc65a1ca4dbee7576267d8fd3367e1".toList

/-- A query that was accepted for 60 seconds and then left behind. -/
def abandoned (tenant project request : Text) : Row where
  key := queryLifecycleKey digests tenant project request
  lifecycle := some
    { tenantId := tenant, projectId := project, principalId := "alice".toList, requestId := request,
      datasourceId := "sales".toList, querySha256 := "5f".toList, leaseToken := "t".toList,
      windowStart := 0, leaseExpiresAt := 60, projectSlot := 0, principalSlot := 0,
      reservedScanBytes := 1, status := .accepted, executionId := none, auditPending := false,
      terminalAudit := none, reconciliation := none }

theorem abandoned_wellFormed {tenant project request : Text} (htenant : tenant ≠ [] ∧ tenant.length ≤ 2048)
    (hproject : project ≠ [] ∧ project.length ≤ 2048)
    (hrequest : request ≠ [] ∧ request.length ≤ 2048) :
    ∀ l ∈ (abandoned tenant project request).lifecycle,
      l.WellFormed digests (abandoned tenant project request).key := by
  intro l hl
  obtain rfl := Option.some.inj hl
  refine ⟨rfl, ?_, by norm_num, by norm_num, le_rfl, le_rfl, le_rfl, nofun, fun _ ↦ rfl, nofun,
    nofun⟩
  simp [htenant, hproject, hrequest]

def everyRow : ℕ → ScanAnswer := fun _ ↦ ⟨2, false, 0⟩

theorem claimsAll_two :
    ClaimsAll digests (fun _ ↦ none) "worker".toList 100 60 1 everyRow
      [abandoned "acme".toList "p".toList "q1".toList,
        abandoned "acme".toList "p".toList "q2".toList] := by
  have hrows : ∀ row ∈ [abandoned "acme".toList "p".toList "q1".toList,
      abandoned "acme".toList "p".toList "q2".toList],
      row.key.Legal ∧ (payload row.key).length ≤ 3072 ∧
        ∀ l ∈ row.lifecycle, l.WellFormed digests row.key := by
    intro row hrow
    rcases List.mem_cons.mp hrow with rfl | hrow
    · exact ⟨⟨by decide, by decide +kernel, by decide, by decide +kernel⟩, by decide +kernel,
        abandoned_wellFormed (by decide) (by decide) (by decide)⟩
    · obtain rfl := List.mem_singleton.mp hrow
      exact ⟨⟨by decide, by decide +kernel, by decide, by decide +kernel⟩, by decide +kernel,
        abandoned_wellFormed (by decide) (by decide) (by decide)⟩
  refine (claimsAll_iff _ (by decide) (fun _ ↦ Nat.le_succ 1) (by decide)
    (fun row hrow ↦ (hrows row hrow).1) (fun row hrow l hl _ ↦ (hrows row hrow).2.2 l hl)).1.mpr ?_
  intro key hstops
  obtain ⟨row, hrow, rfl⟩ := hstops.mem
  exact (hrows row hrow).2.1

/-! A tenant and a project whose key has the size that DynamoDB allows. -/

def longTenant : Text := List.replicate 2041 't'

def longProject : Text := List.replicate 953 'p'

theorem utf8Size_append (s t : Text) : utf8Size (s ++ t) = utf8Size s + utf8Size t := by
  simp [utf8Size]

theorem utf8Size_replicate (n : ℕ) (c : Char) : utf8Size (List.replicate n c) = n * c.utf8Size := by
  simp [utf8Size]

theorem long_legal : (abandoned longTenant longProject "q1".toList).key.Legal where
  pk_ne := nofun
  pk_le := by
    change utf8Size ("TENANT#".toList ++ List.replicate 2041 't') ≤ 2048
    rw [utf8Size_append, utf8Size_replicate]
    decide
  sk_ne := nofun
  sk_le := by
    change utf8Size ("QUERY#".toList ++ List.replicate 953 'p' ++ '#' :: digests "q1".toList) ≤ 1024
    rw [utf8Size_append, utf8Size_append, utf8Size_replicate]
    decide +kernel

theorem long_payload : 3072 < (payload (abandoned longTenant longProject "q1".toList).key).length := by
  have hpk : (abandoned longTenant longProject "q1".toList).key.pk.length = 2048 := by
    change ("TENANT#".toList ++ List.replicate 2041 't').length = 2048
    rw [List.length_append, List.length_replicate]
    rfl
  have hsk : (abandoned longTenant longProject "q1".toList).key.sk.length = 1024 := by
    change ("QUERY#".toList ++ List.replicate 953 'p' ++ '#' :: digests "q1".toList).length = 1024
    rw [List.length_append, List.length_append, List.length_replicate]
    decide +kernel
  have hpk' := JsonText.length_le_flatMap_escape (abandoned longTenant longProject "q1".toList).key.pk
  have hsk' := JsonText.length_le_flatMap_escape (abandoned longTenant longProject "q1".toList).key.sk
  rw [length_payload]
  omega

/-- The rows are as they should be, but the first page ends at a key whose cursor is refused. -/
theorem not_claimsAll_long :
    (∀ row ∈ [abandoned longTenant longProject "q1".toList,
      abandoned "acme".toList "p".toList "q2".toList], row.key.Legal ∧
        ∀ l ∈ row.lifecycle, l.WellFormed digests row.key) ∧
    ¬ ClaimsAll digests (fun _ ↦ none) "worker".toList 100 60 1 everyRow
      [abandoned longTenant longProject "q1".toList,
        abandoned "acme".toList "p".toList "q2".toList] := by
  have hlong : longTenant ≠ [] ∧ longTenant.length ≤ 2048 :=
    ⟨nofun, by rw [longTenant, List.length_replicate]; norm_num⟩
  have hlong' : longProject ≠ [] ∧ longProject.length ≤ 2048 :=
    ⟨nofun, by rw [longProject, List.length_replicate]; norm_num⟩
  have hrows : ∀ row ∈ [abandoned longTenant longProject "q1".toList,
      abandoned "acme".toList "p".toList "q2".toList], row.key.Legal ∧
        ∀ l ∈ row.lifecycle, l.WellFormed digests row.key := by
    intro row hrow
    rcases List.mem_cons.mp hrow with rfl | hrow
    · exact ⟨long_legal, abandoned_wellFormed hlong hlong' (by decide)⟩
    · obtain rfl := List.mem_singleton.mp hrow
      exact ⟨⟨by decide, by decide +kernel, by decide, by decide +kernel⟩,
        abandoned_wellFormed (by decide) (by decide) (by decide)⟩
  have hstops : StopsAt 100 1 everyRow 0 [abandoned longTenant longProject "q1".toList,
      abandoned "acme".toList "p".toList "q2".toList]
      (abandoned longTenant longProject "q1".toList).key := .here rfl
  refine ⟨hrows, ?_⟩
  rintro ⟨fuel, claims, hdrain, -⟩
  exact drain_ne_ok (by decide) hstops long_payload (Behind.start : Behind [] none)
    (by decide +kernel) (fun row hrow ↦ ⟨(hrows row hrow).1, fun l hl _ ↦ (hrows row hrow).2 l hl⟩)
    fuel claims hdrain

end AxonGateway.Query
