import AxonGateway.Athena.Results
import AxonGateway.Lib.Outcome

/-!
# Exact paging

However the rows of a result are spread over pages, what is read is a beginning of its data rows
that fits the limits, with its exact size. Reading ends when the tokens do not repeat for ever.
-/

namespace Athena

open PyValue

variable {maxRows maxResultBytes : ℕ} {client : ResultClient} {executionId : Text}

/-! ### Sizes -/

theorem utf8Size_append (s t : Text) : utf8Size (s ++ t) = utf8Size s + utf8Size t := by
  simp [utf8Size]

theorem compactItems_append (l l' : List Value) :
    Value.compactItems (l ++ l') = Value.compactItems l ++ Value.compactItems l' := by
  induction l with
  | nil => rfl
  | cons v l ih => rw [List.cons_append, Value.compactItems, ih, Value.compactItems, List.cons_append]

theorem compactItems_eq_nil {l : List Value} : Value.compactItems l = [] ↔ l = [] := by
  cases l <;> simp [Value.compactItems]

/-- One more item, and a comma between it and those before. -/
theorem compactJsonBytes_concat (l : List Value) (v : Value) :
    compactJsonBytes (.arr (l ++ [v])) =
      compactJsonBytes (.arr l) + (compactJsonBytes v + if l = [] then 0 else 1) := by
  have hitems : Value.compactItems (l ++ [v]) = Value.compactItems l ++ [v.compact] :=
    compactItems_append l [v]
  unfold compactJsonBytes
  rw [Value.compact, Value.compact, hitems, joined_append]
  have hcomma : utf8Size (if Value.compactItems l = [] ∨ [v.compact] = [] then [] else [',']) =
      if l = [] then 0 else 1 := by
    by_cases hnil : l = []
    · rw [if_pos (.inl (compactItems_eq_nil.mpr hnil)), if_pos hnil]
      rfl
    · rw [if_neg (by simpa [compactItems_eq_nil] using hnil), if_neg hnil]
      rfl
  have hcons : ∀ (c : Char) (t : Text), utf8Size (c :: t) = utf8Size [c] + utf8Size t :=
    fun c t ↦ utf8Size_append [c] t
  rw [hcons, hcons '[' (joined [','] (Value.compactItems l) ++ [']'])]
  simp only [utf8Size_append]
  rw [hcomma, joined]
  omega

theorem compact_resultDocument (columns : List Column) : ∃ before after : Text,
    ∀ rows, (resultDocument columns rows).compact =
      before ++ (Value.arr (rows.map rowValue)).compact ++ after := by
  refine ⟨Char.ofNat 123 :: (Value.compactField ("columns".toList, .arr (columns.map Column.value)) ++
    ',' :: (Value.dumpsText "rows".toList ++ [':'])), [Char.ofNat 125], fun rows ↦ ?_⟩
  simp [resultDocument, Value.compact, Value.compactFields, Value.compactField, joined]

/-- One more row of a document. -/
theorem compactJsonBytes_resultDocument (columns : List Column) (rows : List Row) (row : Row) :
    compactJsonBytes (resultDocument columns (rows ++ [row])) =
      compactJsonBytes (resultDocument columns rows) +
        (compactJsonBytes (rowValue row) + if rows = [] then 0 else 1) := by
  obtain ⟨before, after, hcompact⟩ := compact_resultDocument columns
  have hsize : ∀ rows, compactJsonBytes (resultDocument columns rows) =
      utf8Size before + compactJsonBytes (.arr (rows.map rowValue)) + utf8Size after := by
    intro rows
    unfold compactJsonBytes
    rw [hcompact, utf8Size_append, utf8Size_append]
  rw [hsize, hsize, List.map_append, List.map_singleton, compactJsonBytes_concat]
  simp only [List.map_eq_nil_iff]
  omega

/-! ### Data rows -/

/-- The row of a raw row; nothing where it is invalid. -/
def rowOf (columns : List Column) (rawRow : Value) : Option Row :=
  match pageRow columns rawRow with
  | .ok row => some row
  | .error _ => none

/-- The rows of a whole result without the header row. -/
def dataRows (columns : List Column) (rawRows : List Value) : List (Option Row) :=
  let rows := rawRows.map (rowOf columns)
  if rows.head? = some (some (header columns)) then rows.tail else rows

theorem dataRows_append {columns : List Column} {rawRows : List Value} (hne : rawRows ≠ [])
    (later : List Value) :
    dataRows columns (rawRows ++ later) =
      dataRows columns rawRows ++ later.map (rowOf columns) := by
  cases rawRows with
  | nil => exact absurd rfl hne
  | cons rawRow rawRows =>
      unfold dataRows
      simp only [List.cons_append, List.map_cons, List.map_append, List.head?_cons, List.tail_cons]
      split_ifs <;> rfl

theorem dataRows_cons {columns : List Column} {rawRow : Value} {row : Row}
    (hrow : rowOf columns rawRow = some row) (later : List Value) :
    dataRows columns (rawRow :: later) =
      (if row = header columns then [] else [some row]) ++ later.map (rowOf columns) := by
  unfold dataRows
  simp only [List.map_cons, List.head?_cons, List.tail_cons, hrow, Option.some.injEq]
  split_ifs <;> rfl

/-- What the variables say about the rows that were read. -/
structure State.Holds (maxRows maxResultBytes : ℕ) (s : State) (rawRows : List Value) : Prop where
  named : s.columns ≠ []
  rows : dataRows s.columns rawRows = s.rows.map some
  firstRow : s.firstRow = true ↔ rawRows = []
  length : s.rows.length ≤ maxRows
  size : s.resultBytes = compactJsonBytes (resultDocument s.columns s.rows)
  fits : s.resultBytes ≤ maxResultBytes

/-- What results say where a row was left out. -/
structure Results.Stopped (maxRows maxResultBytes : ℕ) (results : Results) (columns : List Column)
    (rawRows : List Value) : Prop where
  named : results.columns = columns
  truncated : results.truncated = true
  length : results.rows.length ≤ maxRows
  size : results.resultBytes = compactJsonBytes (resultDocument columns results.rows)
  fits : results.resultBytes ≤ maxResultBytes
  left : ∃ row later, dataRows columns rawRows = results.rows.map some ++ some row :: later ∧
    (maxRows ≤ results.rows.length ∨
      maxResultBytes < compactJsonBytes (resultDocument columns (results.rows ++ [row])))

/-- A valid row adds itself to the data rows, unless it is the header. -/
theorem State.Holds.dataRows_concat {s : State} {rawRows : List Value} {rawRow : Value} {row : Row}
    (h : s.Holds maxRows maxResultBytes rawRows) (hrow : rowOf s.columns rawRow = some row)
    (later : List Value) :
    dataRows s.columns (rawRows ++ rawRow :: later) = s.rows.map some ++
      ((if s.firstRow = true ∧ row = header s.columns then [] else [some row]) ++
        later.map (rowOf s.columns)) := by
  by_cases hnil : rawRows = []
  · have hrows := h.rows
    rw [hnil] at hrows
    have hempty : s.rows.map some = [] := hrows.symm.trans (by simp [dataRows])
    have hfirst : s.firstRow = true := h.firstRow.mpr hnil
    rw [hnil, List.nil_append, dataRows_cons hrow, hempty, List.nil_append]
    simp only [hfirst, true_and]
  · have hfirst : ¬s.firstRow = true := fun hfirst ↦ hnil (h.firstRow.mp hfirst)
    rw [dataRows_append hnil, h.rows, List.map_cons, hrow, if_neg fun hboth ↦ hfirst hboth.1]
    rfl

theorem State.takeRow_spec {s : State} {rawRows : List Value} {rawRow : Value} {row : Row}
    (h : s.Holds maxRows maxResultBytes rawRows) (hrow : rowOf s.columns rawRow = some row) :
    (∃ s', s.takeRow maxRows maxResultBytes row = .inr s' ∧
      s'.Holds maxRows maxResultBytes (rawRows ++ [rawRow]) ∧ s'.columns = s.columns ∧
        s'.seenTokens = s.seenTokens) ∨
    ∃ results, s.takeRow maxRows maxResultBytes row = .inl results ∧ ∀ later,
      results.Stopped maxRows maxResultBytes s.columns (rawRows ++ rawRow :: later) := by
  have hconcat := h.dataRows_concat hrow
  have hsize := compactJsonBytes_resultDocument s.columns s.rows row
  rw [← h.size] at hsize
  unfold State.takeRow
  generalize (compactJsonBytes (rowValue row) + if s.rows = [] then 0 else 1) = rowBytes at hsize ⊢
  by_cases hheader : s.firstRow = true ∧ row = header s.columns
  · rw [if_pos hheader]
    refine .inl ⟨_, rfl, ⟨h.named, ?_, ?_, h.length, h.size, h.fits⟩, rfl, rfl⟩
    · have hrows := hconcat []
      rw [if_pos hheader] at hrows
      simpa using hrows
    · simp
  · rw [if_neg hheader]
    by_cases hfull : maxRows ≤ s.rows.length ∨ maxResultBytes < s.resultBytes + rowBytes
    · refine .inr ⟨_, if_pos hfull, fun later ↦ ⟨rfl, rfl, h.length, h.size, h.fits, row,
        later.map (rowOf s.columns), ?_, ?_⟩⟩
      · have hrows := hconcat later
        rw [if_neg hheader] at hrows
        exact hrows
      · rwa [hsize]
    · have hroom := not_or.mp hfull
      refine .inl ⟨_, if_neg hfull, ⟨h.named, ?_, ?_, ?_, ?_, not_lt.mp hroom.2⟩, rfl, rfl⟩
      · have hrows := hconcat []
        rw [if_neg hheader] at hrows
        simpa using hrows
      · simp
      · rw [List.length_append, List.length_singleton]
        exact not_le.mp hroom.1
      · exact hsize.symm

/-- The rows of a page. -/
theorem State.takeRows_spec {s : State} {rawRows more : List Value} {r : Results ⊕ State}
    (h : s.Holds maxRows maxResultBytes rawRows)
    (hr : s.takeRows maxRows maxResultBytes more = .ok r) :
    (∃ s', r = .inr s' ∧ s'.Holds maxRows maxResultBytes (rawRows ++ more) ∧
      s'.columns = s.columns ∧ s'.seenTokens = s.seenTokens) ∨
    ∃ results, r = .inl results ∧
      results.Stopped maxRows maxResultBytes s.columns (rawRows ++ more) := by
  induction more generalizing s rawRows with
  | nil =>
      refine .inl ⟨s, ?_, ?_, rfl, rfl⟩
      · exact (Except.ok.inj hr).symm
      · rwa [List.append_nil]
  | cons rawRow more ih =>
      rw [State.takeRows] at hr
      cases hpage : pageRow s.columns rawRow with
      | error e =>
          rw [hpage] at hr
          cases hr
      | ok row =>
          rw [hpage] at hr
          have hrow : rowOf s.columns rawRow = some row := by
            unfold rowOf
            rw [hpage]
          rcases State.takeRow_spec h hrow with
            ⟨s', hs', hholds, hcolumns, hseen⟩ | ⟨results, hresults, hstopped⟩
          · dsimp only at hr
            rw [hs'] at hr
            have hlist : rawRows ++ rawRow :: more = rawRows ++ [rawRow] ++ more := by simp
            rw [hlist, ← hcolumns, ← hseen]
            exact ih hholds hr
          · dsimp only at hr
            rw [hresults] at hr
            exact .inr ⟨results, (Except.ok.inj hr).symm, hstopped more⟩

/-! ### Pages -/

/-- The raw rows of an answer. -/
def rawRowsIn (answer : Option Value) : List Value :=
  match answer with
  | some (.obj response) =>
      match resultSetOf response >>= rawRowsOf with
      | .ok rawRows => rawRows
      | .error _ => []
  | _ => []

/-- The token of the next page in an answer. -/
def nextTokenIn (answer : Option Value) : Value :=
  match answer with
  | some (.obj response) => (response.lookup "NextToken".toList).getD .null
  | _ => .null

theorem normalizedColumns_ne_nil {rawColumns : Value} {columns : List Column}
    (h : normalizedColumns rawColumns = .ok columns) : columns ≠ [] := by
  cases rawColumns with
  | arr items =>
      rw [normalizedColumns] at h
      split_ifs at h with hinvalid
      cases hitems : items.mapM pageColumn with
      | none =>
          rw [hitems] at h
          cases h
      | some columns' =>
          rw [hitems] at h
          rw [← Except.ok.inj h]
          rintro rfl
          cases items with
          | nil => exact hinvalid (.inl rfl)
          | cons item items =>
              rw [List.mapM_cons] at hitems
              obtain ⟨_, _, hitems⟩ := Option.bind_eq_some_iff.mp hitems
              obtain ⟨_, _, hitems⟩ := Option.bind_eq_some_iff.mp hitems
              cases hitems
  | _ => cases h

/-- The variables before a page. -/
def State.Between (maxRows maxResultBytes : ℕ) (s : State) (rawRows : List Value) : Prop :=
  (s.columns = [] ∧ s.rows = [] ∧ s.firstRow = true ∧ rawRows = []) ∨
    s.Holds maxRows maxResultBytes rawRows

theorem State.takeColumns_spec {s s' : State} {columns : List Column} {rawRows : List Value}
    (h : s.Between maxRows maxResultBytes rawRows) (hne : columns ≠ [])
    (hs' : s.takeColumns maxResultBytes columns = .ok s') :
    s'.Holds maxRows maxResultBytes rawRows ∧ s'.seenTokens = s.seenTokens := by
  unfold State.takeColumns at hs'
  rcases h with ⟨hcolumns, hrows, hfirst, rfl⟩ | h
  · rw [if_pos hcolumns] at hs'
    dsimp only at hs'
    split_ifs at hs' with hlong
    rw [← Except.ok.inj hs']
    refine ⟨⟨hne, ?_, ?_, ?_, ?_, not_lt.mp hlong⟩, rfl⟩
    · rw [hrows]
      rfl
    · simp [hfirst]
    · simp [hrows]
    · rw [hrows]
  · rw [if_neg h.named] at hs'
    split_ifs at hs' with hchanged
    rw [← Except.ok.inj hs']
    exact ⟨h, rfl⟩

/-- What results say where every row was read. -/
structure Results.Complete (maxRows maxResultBytes : ℕ) (results : Results)
    (rawRows : List Value) : Prop where
  whole : results.truncated = false
  length : results.rows.length ≤ maxRows
  size : results.resultBytes = compactJsonBytes (resultDocument results.columns results.rows)
  fits : results.resultBytes ≤ maxResultBytes
  rows : dataRows results.columns rawRows = results.rows.map some

/-- One call: its rows are taken, and it ends with the results or names the next page. -/
theorem State.readPage_spec {s : State} {answer : Option Value} {r : Results ⊕ State}
    {rawRows : List Value} (h : s.Between maxRows maxResultBytes rawRows)
    (hr : s.readPage maxRows maxResultBytes answer = .ok r) :
    (∃ s' token, r = .inr s' ∧ s'.Holds maxRows maxResultBytes (rawRows ++ rawRowsIn answer) ∧
      nextTokenIn answer = .str token ∧ token ∉ s.seenTokens ∧
        s'.seenTokens = token :: s.seenTokens) ∨
    ∃ results, r = .inl results ∧
      (results.Stopped maxRows maxResultBytes results.columns (rawRows ++ rawRowsIn answer) ∨
        results.Complete maxRows maxResultBytes (rawRows ++ rawRowsIn answer) ∧
          nextTokenIn answer = .null) := by
  unfold State.readPage at hr
  cases answer with
  | none => cases hr
  | some v =>
      cases v with
      | obj response =>
          obtain ⟨resultSet, hresultSet, hr⟩ := Outcome.bind_ok_iff.mp hr
          obtain ⟨columns, hcolumns, hr⟩ := Outcome.bind_ok_iff.mp hr
          obtain ⟨s₁, hs₁, hr⟩ := Outcome.bind_ok_iff.mp hr
          obtain ⟨more, hmore, hr⟩ := Outcome.bind_ok_iff.mp hr
          obtain ⟨r', hr', hr⟩ := Outcome.bind_ok_iff.mp hr
          have hne : columns ≠ [] := by
            unfold pageColumns at hcolumns
            split at hcolumns
            · exact normalizedColumns_ne_nil hcolumns
            · cases hcolumns
          have hrawRows : rawRowsIn (some (.obj response)) = more := by
            have hbind : (resultSetOf response >>= rawRowsOf) = .ok more :=
              Outcome.bind_ok_iff.mpr ⟨resultSet, hresultSet, hmore⟩
            rw [rawRowsIn, hbind]
          rw [hrawRows]
          obtain ⟨hholds, hseen⟩ := State.takeColumns_spec h hne hs₁
          rcases State.takeRows_spec hholds hr' with
            ⟨s₂, rfl, hholds₂, -, hseen₂⟩ | ⟨results, rfl, hstopped⟩
          · dsimp only at hr
            unfold State.takeToken at hr
            split at hr
            · rename_i htoken
              refine .inr ⟨_, (Except.ok.inj hr).symm, .inr ⟨⟨rfl, hholds₂.length, hholds₂.size,
                hholds₂.fits, hholds₂.rows⟩, htoken⟩⟩
            · rename_i c token htoken
              split_ifs at hr with hrepeated
              refine .inl ⟨_, c :: token, (Except.ok.inj hr).symm, ⟨hholds₂.named, hholds₂.rows,
                hholds₂.firstRow, hholds₂.length, hholds₂.size, hholds₂.fits⟩, htoken, ?_, ?_⟩
              · rwa [hseen₂, hseen] at hrepeated
              · rw [hseen₂, hseen]
            · cases hr
          · refine .inr ⟨results, (Except.ok.inj hr).symm, .inl ?_⟩
            rwa [hstopped.named]
      | _ => cases hr

/-! ### Runs -/

section

variable (maxRows maxResultBytes client executionId)

/-- The answers that are read from the `n`-th call on, and how reading ends. -/
inductive Run : ℕ → State → List (Option Value) → Except Fault Results → Prop
  | failed {n : ℕ} {s : State} {answer : Option Value} {e : Fault}
      (hanswer : client n (s.request maxRows executionId) = answer)
      (h : s.readPage maxRows maxResultBytes answer = .error e) : Run n s [answer] (.error e)
  | ended {n : ℕ} {s : State} {answer : Option Value} {results : Results}
      (hanswer : client n (s.request maxRows executionId) = answer)
      (h : s.readPage maxRows maxResultBytes answer = .ok (.inl results)) :
      Run n s [answer] (.ok results)
  | next {n : ℕ} {s s' : State} {answer : Option Value} {answers : List (Option Value)}
      {outcome : Except Fault Results} (hanswer : client n (s.request maxRows executionId) = answer)
      (h : s.readPage maxRows maxResultBytes answer = .ok (.inr s'))
      (hrest : Run (n + 1) s' answers outcome) : Run n s (answer :: answers) outcome

end

/-- Reading with enough fuel is the run. -/
theorem Run.readFrom_eq {n : ℕ} {s : State} {answers : List (Option Value)}
    {outcome : Except Fault Results}
    (h : Run maxRows maxResultBytes client executionId n s answers outcome) {fuel : ℕ}
    (hfuel : answers.length ≤ fuel) :
    readFrom maxRows maxResultBytes client executionId fuel n s = some outcome := by
  induction h generalizing fuel with
  | failed hanswer h =>
      cases fuel with
      | zero => exact absurd hfuel (by simp)
      | succ fuel => rw [readFrom, hanswer, h]
  | ended hanswer h =>
      cases fuel with
      | zero => exact absurd hfuel (by simp)
      | succ fuel => rw [readFrom, hanswer, h]
  | next hanswer h _ ih =>
      cases fuel with
      | zero => exact absurd hfuel (by simp)
      | succ fuel =>
          rw [readFrom, hanswer, h]
          exact ih (Nat.le_of_succ_le_succ hfuel)

/-- The results are a beginning of the data rows, and they are whole unless one more row is too
much. -/
structure Exact (maxRows maxResultBytes : ℕ) (answers : List (Option Value))
    (results : Results) : Prop where
  length : results.rows.length ≤ maxRows
  size : results.resultBytes = compactJsonBytes (resultDocument results.columns results.rows)
  fits : results.resultBytes ≤ maxResultBytes
  rows : ∃ left, dataRows results.columns (answers.flatMap rawRowsIn) =
    results.rows.map some ++ left ∧ (results.truncated = true ↔ left ≠ []) ∧
    (left ≠ [] → ∃ row, left.head? = some (some row) ∧ (maxRows ≤ results.rows.length ∨
      maxResultBytes < compactJsonBytes (resultDocument results.columns (results.rows ++ [row]))))
  whole : results.truncated = false →
    ∃ last, answers.getLast? = some last ∧ nextTokenIn last = .null

theorem Run.exact {n : ℕ} {s : State} {answers : List (Option Value)} {results : Results}
    {rawRows : List Value}
    (h : Run maxRows maxResultBytes client executionId n s answers (.ok results))
    (hs : s.Between maxRows maxResultBytes rawRows) :
    results.Stopped maxRows maxResultBytes results.columns
        (rawRows ++ answers.flatMap rawRowsIn) ∨
      results.Complete maxRows maxResultBytes (rawRows ++ answers.flatMap rawRowsIn) ∧
        ∃ last, answers.getLast? = some last ∧ nextTokenIn last = .null := by
  generalize houtcome : (.ok results : Except Fault Results) = outcome at h
  induction h generalizing rawRows with
  | failed hanswer h => cases houtcome
  | @ended n s answer results' hanswer h =>
      obtain rfl := Except.ok.inj houtcome
      rw [List.flatMap_singleton]
      rcases State.readPage_spec hs h with ⟨_, _, hr, -⟩ | ⟨_, hr, hend⟩
      · cases hr
      · obtain rfl := Sum.inl.inj hr
        exact hend.imp_right fun hcomplete ↦ ⟨hcomplete.1, answer, rfl, hcomplete.2⟩
  | @next n s s' answer answers outcome hanswer h hrest ih =>
      rw [List.flatMap_cons, ← List.append_assoc]
      rcases State.readPage_spec hs h with ⟨_, _, hr, hholds, -⟩ | ⟨_, hr, -⟩
      · obtain rfl := Sum.inr.inj hr
        refine (ih (.inr hholds) houtcome).imp_right fun hcomplete ↦ ⟨hcomplete.1, ?_⟩
        obtain ⟨last, hlast, htoken⟩ := hcomplete.2
        have hne : answers ≠ [] := by
          rintro rfl
          cases hlast
        refine ⟨last, ?_, htoken⟩
        rw [List.getLast?_cons_of_ne_nil hne, hlast]
      · cases hr

/-- Tokens that do not repeat come to an end. -/
theorem exists_run (tokens : Finset Text)
    (htokens : ∀ n request token, nextTokenIn (client n request) = .str token → token ∈ tokens)
    (k n : ℕ) {s : State} {rawRows : List Value} (hs : s.Between maxRows maxResultBytes rawRows)
    (hnodup : s.seenTokens.Nodup) (hseen : ∀ t ∈ s.seenTokens, t ∈ tokens)
    (hk : s.seenTokens.length + k = tokens.card + 1) :
    ∃ answers outcome, Run maxRows maxResultBytes client executionId n s answers outcome ∧
      answers.length ≤ k := by
  induction k generalizing n s rawRows with
  | zero =>
      have hle : s.seenTokens.length ≤ tokens.card := by
        rw [← List.toFinset_card_of_nodup hnodup]
        exact Finset.card_le_card fun t ht ↦ hseen t (List.mem_toFinset.mp ht)
      omega
  | succ k ih =>
      obtain ⟨answer, hanswer⟩ : ∃ answer, client n (s.request maxRows executionId) = answer :=
        ⟨_, rfl⟩
      cases hpage : s.readPage maxRows maxResultBytes answer with
      | error e => exact ⟨_, _, .failed hanswer hpage, by simp⟩
      | ok r =>
          rcases State.readPage_spec hs hpage with
            ⟨s', token, rfl, hholds, htoken, hnew, hcons⟩ | ⟨results, rfl, -⟩
          · have hmem : token ∈ tokens := htokens n _ token (hanswer ▸ htoken)
            obtain ⟨answers, outcome, hrun, hlength⟩ := ih (n + 1) (s := s') (.inr hholds)
              (by rw [hcons]; exact List.nodup_cons.mpr ⟨hnew, hnodup⟩)
              (by rw [hcons]; exact List.forall_mem_cons.mpr ⟨hmem, hseen⟩)
              (by rw [hcons, List.length_cons]; omega)
            exact ⟨_, _, .next hanswer hpage hrun, Nat.succ_le_succ hlength⟩
          · exact ⟨_, _, .ended hanswer hpage, by simp⟩

/-- Reading ends, and what it returns is exact. -/
theorem readResults_exact (maxRows maxResultBytes : ℕ) (client : ResultClient) (executionId : Text)
    (tokens : Finset Text)
    (h : ∀ n request token, nextTokenIn (client n request) = .str token → token ∈ tokens) :
    ∃ answers outcome, Run maxRows maxResultBytes client executionId 0 initial answers outcome ∧
      (∀ fuel, tokens.card < fuel →
        readResults maxRows maxResultBytes client executionId fuel = some outcome) ∧
      ∀ results, outcome = .ok results → Exact maxRows maxResultBytes answers results := by
  have hinitial : initial.Between maxRows maxResultBytes [] := .inl ⟨rfl, rfl, rfl, rfl⟩
  obtain ⟨answers, outcome, hrun, hlength⟩ : ∃ answers outcome,
      Run maxRows maxResultBytes client executionId 0 initial answers outcome ∧
        answers.length ≤ tokens.card + 1 :=
    exists_run tokens h (tokens.card + 1) 0 hinitial List.nodup_nil nofun (Nat.zero_add _)
  refine ⟨answers, outcome, hrun, fun fuel hfuel ↦ hrun.readFrom_eq (by omega), ?_⟩
  rintro results rfl
  rcases hrun.exact hinitial with hstopped | ⟨hcomplete, hlast⟩
  · obtain ⟨row, later, hrows, hlimit⟩ := hstopped.left
    rw [List.nil_append] at hrows
    refine ⟨hstopped.length, hstopped.size, hstopped.fits, ⟨some row :: later, hrows, ?_, ?_⟩, ?_⟩
    · simp [hstopped.truncated]
    · exact fun _ ↦ ⟨row, rfl, hlimit⟩
    · intro hfalse
      rw [hstopped.truncated] at hfalse
      cases hfalse
  · have hrows := hcomplete.rows
    rw [List.nil_append] at hrows
    refine ⟨hcomplete.length, hcomplete.size, hcomplete.fits, ⟨[], ?_, ?_, ?_⟩, fun _ ↦ hlast⟩
    · rw [hrows, List.append_nil]
    · simp [hcomplete.whole]
    · exact fun hne ↦ absurd rfl hne

/-- A page with one column, the header and two rows, again and again. -/
def twoRows : ResultClient := fun _ _ ↦
  let row (text : String) : Value :=
    .obj [("Data".toList, .arr [.obj [("VarCharValue".toList, .str text.toList)]])]
  some (.obj [("ResultSet".toList, .obj [
    ("ResultSetMetadata".toList, .obj [("ColumnInfo".toList, .arr [.obj
      [("Name".toList, .str "n".toList), ("Type".toList, .str "varchar".toList)]])]),
    ("Rows".toList, .arr [row "n", row "a", row "b"])]), ("NextToken".toList, .str "t".toList)])

example : readResults 1 100 twoRows [] 1 =
    some (.ok ⟨[⟨"n".toList, "varchar".toList⟩], [[some "a".toList]], true, 58⟩) := by
  decide +kernel

theorem readResults_twoRows : ∃ answers outcome, Run 1 100 twoRows [] 0 initial answers outcome ∧
    (∀ fuel, 1 < fuel → readResults 1 100 twoRows [] fuel = some outcome) ∧
    ∀ results, outcome = .ok results → Exact 1 100 answers results := by
  refine readResults_exact 1 100 twoRows [] {"t".toList} fun _ _ token htoken ↦ ?_
  exact Finset.mem_singleton.mpr (Value.str.inj htoken).symm

end Athena
