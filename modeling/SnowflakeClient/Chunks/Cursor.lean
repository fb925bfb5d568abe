import SnowflakeClient.Chunks.Progress

/-!
# The result cursor

What the calls of `snowflake_fetch` return after one `snowflake_execute`. `CursorExact` is what a
caller relies on: the rows of the rowset and of the chunks, in order, each once, then the end of
the results, and every call returns. The cursor is driven by `chunk_rowcount` alone, so a chunk
without rows breaks it: the fetch that takes the chunk returns success with no row and leaves
`chunk_rowcount` at -1, from where it never gets to 0. `cursor_exact_iff`: this is the only way to
break it.
-/

namespace Snowflake

open CInt Conc

variable {N K : Nat} {Row : Type} {download : String → List Row}
  {c c' : Client N K Row} {d : ChunkDownloader Row} {e : Event N K Row}
  {outs o : List (Output N Row)} {rows : List Row} {urls : List String}

/-! ## What a caller sees -/

/-- What the fetches returned, in order. -/
def fetchResults (outs : List (Output N Row)) : List (Status × Option Row) :=
  outs.filterMap fun
    | .fetchReturns status row => some (status, row)
    | _ => none

/-- What the fetch number `i` should return. -/
def expectedResult (rows : List Row) (i : Nat) : Status × Option Row :=
  match rows[i]? with
  | some row => (.success, some row)
  | none => (.eof, none)

/-- What the first `n` fetches should return. -/
def expectedResults (rows : List Row) (n : Nat) : List (Status × Option Row) :=
  (List.range n).map (expectedResult rows)

@[simp] theorem fetchResults_append (outs o : List (Output N Row)) :
    fetchResults (outs ++ o) = fetchResults outs ++ fetchResults o := by
  simp [fetchResults]

theorem expectedResults_succ (rows : List Row) (n : Nat) :
    expectedResults rows (n + 1) = expectedResults rows n ++ [expectedResult rows n] := by
  simp [expectedResults, List.range_succ]

/-- The reply has the rowset `rows` and chunks at `urls`, and each `rowCount` is the number of
rows that the download of its URL gives. -/
structure Matches (download : String → List Row) (r : Reply Row) (rows : List Row)
    (urls : List String) : Prop where
  rowset : r.rowset = some rows
  chunks : (r.chunks = none ∧ urls = []) ∨ ∃ chunks, r.chunks = some (some chunks) ∧
    chunks.items = urls.map fun url => ⟨some url, some (download url).length⟩

/-- The cursor over `rows`, after the statement was executed with the reply `r`. -/
structure CursorExact (download : String → List Row) (N K : Nat) (r : Reply Row)
    (rows : List Row) : Prop where
  /-- The fetches return the rows in order and then the end. -/
  results : ∀ outs (c : Client N K Row),
    (client download false N K).Run Plain (Client.prepared.execute false r) outs c →
      fetchResults outs = expectedResults rows (fetchResults outs).length
  /-- Whenever no fetch waits, one can be called. -/
  callable : ∀ outs (c : Client N K Row),
    (client download false N K).Run Plain (Client.prepared.execute false r) outs c → Settled c →
      ∃ w c' o, (client download false N K).step c (.fetch (.ok w)) = some (c', o)
  /-- Every fetch returns, under every schedule. -/
  returns : ∀ outs (c : Client N K Row),
    (client download false N K).Run Plain (Client.prepared.execute false r) outs c →
      (client download false N K).Inevitable Work Settled c

/-! ## The statement after the execute -/

theorem fillQueue_matching (urls : List String) :
    fillQueue (urls.map fun url => ⟨some url, some ((download url).length : Int)⟩) =
      some (urls.map fun url => ⟨url, (download url).length, (none : Option (List Row))⟩) := by
  induction urls with
  | nil => rfl
  | cons url urls ih => simp [fillQueue, ih]

/-- The items of the queue: the URLs with their row counts. -/
def QueueMatches (download : String → List Row) (urls : List String) (s : Stmt Row) : Prop :=
  ∀ d, s.chunkDownloader = some d →
    d.queue.map (fun item => (item.url, item.rowCount)) =
      urls.map fun url => (url, ((download url).length : Int))

/-- What is left for the fetches: the rest of the current rows and the chunks not taken. -/
def Stmt.remaining (download : String → List Row) (urls : List String) (s : Stmt Row) :
    List Row :=
  s.rawResults.getD [] ++
    match s.chunkDownloader with
    | some d => (urls.drop d.consumerHead).flatMap download
    | none => []

theorem Stmt.remaining_some {s : Stmt Row} (h : s.chunkDownloader = some d) :
    s.remaining download urls =
      s.rawResults.getD [] ++ (urls.drop d.consumerHead).flatMap download := by
  simp [Stmt.remaining, h]

/-- The statement after the execute: all is left, and no thread is created. -/
theorem execute_matching (hN : 2 ≤ N) {r : Reply Row} (h : Matches download r rows urls) :
    let c : Client N K Row := Client.prepared.execute false r
    c.stmt.remaining download urls = rows ++ urls.flatMap download ∧
      c.stmt.rawResults = some rows ∧ c.stmt.chunkRowcount = rows.length ∧
      QueueMatches download urls c.stmt ∧ (urls ≠ [] → c.stmt.chunkDownloader ≠ none) ∧
      (c.init ≠ .done → ∃ d, c.stmt.chunkDownloader = some d) ∧ c.init ≠ .failed := by
  rcases h.chunks with ⟨hch, rfl⟩ | ⟨chunks, hch, hitems⟩
  · simp [Client.execute, executeEx, h.rowset, hch, Client.prepared, stmtReset, Stmt.remaining,
      QueueMatches]
  · have hN0 : N ≠ 0 := by omega
    simp [Client.execute, executeEx, h.rowset, hch, Client.prepared, stmtReset, Stmt.remaining,
      QueueMatches, chunkDownloaderInit, hN0, hitems, fillQueue_matching, Function.comp_def]

/-! ## Chunks with rows -/

/-- The fetches so far returned what they should, and what they still have to return is what is
left. -/
structure CursorInv (download : String → List Row) (rows : List Row) (urls : List String)
    (outs : List (Output N Row)) (c : Client N K Row) : Prop where
  results : fetchResults outs = expectedResults rows (fetchResults outs).length
  rest : rows.drop (fetchResults outs).length = c.stmt.remaining download urls
  count : c.stmt.chunkRowcount = (c.stmt.rawResults.getD []).length
  waiting : c.fetcher ≠ .idle → c.stmt.chunkRowcount = 0
  items : QueueMatches download urls c.stmt

theorem expectedResult_drop (rows : List Row) (n : Nat) :
    expectedResult rows n =
      match (rows.drop n).head? with
      | some row => (.success, some row)
      | none => (.eof, none) := by
  rw [List.head?_drop]
  rfl

theorem QueueMatches.item {s : Stmt Row} (h : QueueMatches download urls s)
    (hd : s.chunkDownloader = some d) {i : Nat} {item : QueueItem Row}
    (hq : d.queue[i]? = some item) :
    urls[i]? = some item.url ∧ item.rowCount = (download item.url).length := by
  have hi := congrArg (·[i]?) (h d hd)
  simp only [List.getElem?_map, hq, Option.map_some] at hi
  cases hu : urls[i]? with
  | none => rw [hu] at hi; cases hi
  | some url =>
    rw [hu] at hi
    simp only [Option.map_some, Option.some.injEq, Prod.mk.injEq] at hi
    obtain ⟨rfl, hcount⟩ := hi
    exact ⟨rfl, hcount⟩

/-- At the head of the queue: the chunk comes next. -/
theorem flatMap_drop {i : Nat} {url : String} (hu : urls[i]? = some url) :
    (urls.drop i).flatMap download = download url ++ (urls.drop (i + 1)).flatMap download := by
  rw [List.drop_eq_getElem?_toList_append, hu]
  simp

namespace CursorInv

/-- A step that returns nothing and takes nothing. -/
theorem keep (h : CursorInv download rows urls outs c)
    (hraw : c'.stmt.rawResults = c.stmt.rawResults)
    (hcount : c'.stmt.chunkRowcount = c.stmt.chunkRowcount)
    (hrem : c'.stmt.remaining download urls = c.stmt.remaining download urls)
    (hitems : QueueMatches download urls c'.stmt)
    (hf : c'.fetcher ≠ .idle → c.fetcher ≠ .idle ∨ c.stmt.chunkRowcount = 0)
    (ho : fetchResults o = []) : CursorInv download rows urls (outs ++ o) c' := by
  refine ⟨?_, ?_, ?_, fun hne => ?_, hitems⟩
  · simpa [ho] using h.results
  · rw [hrem]
    simpa [ho] using h.rest
  · rw [hcount, hraw]
    exact h.count
  · rw [hcount]
    exact (hf hne).elim h.waiting id

theorem keep_same (h : CursorInv download rows urls outs c) (hs : c'.stmt = c.stmt)
    (hf : c'.fetcher ≠ .idle → c.fetcher ≠ .idle) :
    CursorInv download rows urls (outs ++ []) c' :=
  h.keep (by rw [hs]) (by rw [hs]) (by rw [hs]) (by rw [hs]; exact h.items)
    (fun hne => .inl (hf hne)) rfl

/-- `keep` for a step that changes the downloader's other fields. -/
theorem keep_some (h : CursorInv download rows urls outs c) {d' : ChunkDownloader Row}
    (hd : c.stmt.chunkDownloader = some d) (hd' : c'.stmt.chunkDownloader = some d')
    (hraw : c'.stmt.rawResults = c.stmt.rawResults)
    (hcount : c'.stmt.chunkRowcount = c.stmt.chunkRowcount)
    (hk : d'.consumerHead = d.consumerHead)
    (hq : d'.queue.map (fun item => (item.url, item.rowCount)) =
      d.queue.map fun item => (item.url, item.rowCount))
    (hf : c'.fetcher ≠ .idle → c.fetcher ≠ .idle ∨ c.stmt.chunkRowcount = 0)
    (ho : fetchResults o = []) : CursorInv download rows urls (outs ++ o) c' := by
  refine h.keep hraw hcount ?_ ?_ hf ho
  · rw [Stmt.remaining_some hd', Stmt.remaining_some hd, hraw, hk]
  · intro d'' hd''
    rw [hd'] at hd''
    cases hd''
    rw [hq]
    exact h.items d hd

/-- A fetch returns the next expected result. -/
theorem push (h : CursorInv download rows urls outs c) {status : Status} {row : Option Row}
    (hx : expectedResult rows (fetchResults outs).length = (status, row))
    (hrem : c'.stmt.remaining download urls = (c.stmt.remaining download urls).tail)
    (hcount : c'.stmt.chunkRowcount = (c'.stmt.rawResults.getD []).length)
    (hitems : QueueMatches download urls c'.stmt) (hf : c'.fetcher = .idle)
    (ho : fetchResults o = [(status, row)]) : CursorInv download rows urls (outs ++ o) c' := by
  have hlen : (fetchResults (outs ++ o)).length = (fetchResults outs).length + 1 := by simp [ho]
  refine ⟨?_, ?_, hcount, fun hne => absurd hf hne, hitems⟩
  · rw [hlen, expectedResults_succ, ← h.results, hx]
    simp [ho]
  · rw [hlen, hrem, ← h.rest, List.tail_drop]

/-- The head of what is left is the next expected row. -/
theorem expected_some (h : CursorInv download rows urls outs c) {row : Row} {rest : List Row}
    (hrem : c.stmt.remaining download urls = row :: rest) :
    expectedResult rows (fetchResults outs).length = (.success, some row) := by
  rw [expectedResult_drop, h.rest, hrem]
  rfl

/-- If nothing is left, the end is expected. -/
theorem expected_none (h : CursorInv download rows urls outs c)
    (hrem : c.stmt.remaining download urls = []) :
    expectedResult rows (fetchResults outs).length = (.eof, none) := by
  rw [expectedResult_drop, h.rest, hrem]
  rfl

theorem raw_nil (h : CursorInv download rows urls outs c) (h0 : c.stmt.chunkRowcount = 0) :
    c.stmt.rawResults.getD [] = [] := by
  have hcount := h.count
  rw [h0] at hcount
  exact List.length_eq_zero_iff.mp (by omega)

/-- The fetch returns the next of the current rows. -/
theorem fetchRow (h : CursorInv download rows urls outs c) (h0 : c.stmt.chunkRowcount ≠ 0) :
    CursorInv download rows urls
      (outs ++ [Output.fetchReturns .success (Snowflake.fetchRow (fetchEnter c.stmt)).curRow])
      (c.fetchReturn (Snowflake.fetchRow (fetchEnter c.stmt)) .success).1 := by
  have hcount := h.count
  cases hraw : c.stmt.rawResults with
  | none => rw [hraw] at hcount; exact absurd hcount h0
  | some raw =>
    cases raw with
    | nil => rw [hraw] at hcount; exact absurd hcount h0
    | cons row rest =>
      rw [hraw] at hcount
      have hrem : c.stmt.remaining download urls = row :: (rest ++
          match c.stmt.chunkDownloader with
          | some d => (urls.drop d.consumerHead).flatMap download
          | none => []) := by
        simp [Stmt.remaining, hraw]
      refine h.push (h.expected_some hrem) ?_ ?_ h.items rfl ?_
      · rw [hrem]
        simp [Stmt.remaining, Client.fetchReturn, Snowflake.fetchRow, fetchEnter, hraw]
      · simp [Client.fetchReturn, Snowflake.fetchRow, fetchEnter, hraw, hcount]
      · simp [fetchResults, Snowflake.fetchRow, fetchEnter, hraw]

/-- The fetch takes a chunk that has rows, and returns the first. -/
theorem takeChunk (h : CursorInv download rows urls outs c) {s : Stmt Row} {item : QueueItem Row}
    {chunk : List Row} {p : Fin N → ProducerPc Row}
    (hd : c.stmt.chunkDownloader = some d) (hraw : c.stmt.rawResults.getD [] = [])
    (hq : d.queue[d.consumerHead]? = some item) (hc : item.chunk = some chunk)
    (hchunk : chunk = download item.url) (hne : download item.url ≠ [])
    (hinc : incU64 d.consumerHead = d.consumerHead + 1) :
    CursorInv download rows urls
      (outs ++ [Output.chunkTaken d.consumerHead (some chunk),
        .fetchReturns .success (Snowflake.fetchRow (takeChunk s d d.consumerHead item)).curRow])
      ({ c with producers := p }.fetchReturn
        (Snowflake.fetchRow (takeChunk s d d.consumerHead item)) .success).1 := by
  obtain ⟨hurl, hrow⟩ := h.items.item hd hq
  obtain ⟨row, rest, hcons⟩ := List.exists_cons_of_ne_nil hne
  rw [hcons] at hchunk
  have hrem : c.stmt.remaining download urls =
      row :: (rest ++ (urls.drop (d.consumerHead + 1)).flatMap download) := by
    rw [Stmt.remaining_some hd, hraw, flatMap_drop hurl, hcons]
    rfl
  refine h.push (h.expected_some hrem) ?_ ?_ ?_ rfl ?_
  · rw [hrem, Stmt.remaining_some rfl]
    simp [Client.fetchReturn, Snowflake.fetchRow, Snowflake.takeChunk, hc, hchunk, hinc]
  · simp [Client.fetchReturn, Snowflake.fetchRow, Snowflake.takeChunk, hc, hchunk, hrow, hcons]
  · intro d' hd'
    cases hd'
    rw [map_setChunk _ fun _ _ => rfl]
    exact h.items d hd
  · simp [fetchResults, Snowflake.fetchRow, Snowflake.takeChunk, hc, hchunk]

end CursorInv

/-- Every plain step keeps the cursor exact if all chunks have rows. -/
theorem Move.cursorInv (hm : Move download false c e c' o) (hc : Plain c e)
    (hp : PlainInv download c) (hne : ∀ url ∈ urls, download url ≠ [])
    (h : CursorInv download rows urls outs c) : CursorInv download rows urls (outs ++ o) c' := by
  cases hm with
  | execute | spawnFail | downloadFail | postFail | termAgain | term => cases hc
  | spawn | sleep | leave | downloadOk | postLate | wakeProducer | join => exact h.keep_same rfl id
  | countThread hd hi => exact h.keep_some hd rfl rfl rfl rfl rfl .inl rfl
  | take hd hl hp' hw hs => exact h.keep_some hd rfl rfl rfl rfl rfl .inl rfl
  | post hd hl hp' he =>
    refine h.keep_some hd rfl rfl rfl rfl (map_setChunk _ fun _ _ => rfl) (fun hne => .inl ?_) rfl
    intro hidle
    simp [hidle, FetcherPc.notify] at hne
  | wakeFetcher hd hf => exact h.keep_same rfl fun _ => by rw [hf]; rintro ⟨⟩
  | fetchError hf hi hd he =>
    have hrun := (hp.waking _ hd).running
    simp [ChunkDownloader.getShutdownOrError, he] at hrun
  | fetchEof hf hi hd h0 =>
    have hrem : c.stmt.remaining download urls = [] := by
      simp [Stmt.remaining, hd, h.raw_nil h0]
    refine h.push (h.expected_none hrem) ?_ h.count h.items rfl rfl
    rw [hrem]
    exact hrem
  | fetchEnd hf hi hd he hl h0 hq =>
    rename_i d rc
    have hlen : urls.length ≤ d.consumerHead := by
      have hsize := congrArg List.length (h.items d hd)
      simp only [List.length_map] at hsize
      rw [← hsize, ← (hp.inv d hd).queue.size]
      exact hq
    have hdrop : (urls.drop d.consumerHead).flatMap download = [] := by
      rw [List.drop_eq_nil_of_le hlen]
      rfl
    have hrem : c.stmt.remaining download urls = [] := by
      rw [Stmt.remaining_some hd, h.raw_nil h0, hdrop]
      rfl
    refine h.push (h.expected_none hrem) ?_ h0 h.items rfl rfl
    rw [hrem]
    simp [Client.fetchReturn, Stmt.remaining, hd, hdrop]
  | fetchRow hf hi hd h0 => exact h.fetchRow h0
  | fetchSleep hs hq hc' hn =>
    obtain ⟨hd, hd', -⟩ := hs.spec hp.inv
    cases hs with
    | fetch _ _ _ _ h0 => exact h.keep_some hd hd' rfl rfl rfl rfl (fun _ => .inr h0) rfl
    | resume hf =>
      exact h.keep_some hd hd' rfl rfl rfl rfl (fun _ => .inl (by rw [hf]; rintro ⟨⟩)) rfl
  | fetchFail hs hq hn =>
    obtain ⟨hd, -⟩ := hs.spec hp.inv
    rw [(hp.waking _ hd).running] at hn
    cases hn
  | fetchSignalFail hs => cases hs <;> cases hc
  | fetchTake hs hq hc' hn hw =>
    obtain ⟨hd, -, rfl, hlt, -, hi⟩ := hs.spec hp.inv
    obtain ⟨-, -, hchunk⟩ := hi.queue.slots _ _ _ hq hc'
    have h0 : c.stmt.chunkRowcount = 0 := by
      cases hs with
      | fetch _ _ _ _ h0 => exact h0
      | resume hf => exact h.waiting (by rw [hf]; rintro ⟨⟩)
    have hurl := (h.items.item hd hq).1
    exact h.takeChunk hd (h.raw_nil h0) hq hc' hchunk (hne _ (List.mem_of_getElem? hurl))
      (incU64_of_lt hlt hi.queue.size_lt)
  | free hd hk => rw [hp.quiet.terms] at hk; cases hk

/-! ## Every call returns -/

theorem plainInv_execute (hN2 : 2 ≤ N) (hN : N < 2 ^ 64) {r : Reply Row}
    (h : Matches download r rows urls) :
    PlainInv download (Client.prepared.execute false r : Client N K Row) := by
  obtain ⟨-, -, -, -, -, hcreating, hcreated⟩ := execute_matching (K := K) hN2 h
  have hm : Move download false (Client.prepared : Client N K Row) (.execute r)
      (Client.prepared.execute false r) [.executed r] := .execute rfl rfl fun _ => rfl
  exact ⟨hm.calmInv hN2 hN rfl .prepared, hcreating, hcreated⟩

theorem plainInv_of_run (hN2 : 2 ≤ N) (hN : N < 2 ^ 64) {c₀ : Client N K Row}
    (h₀ : PlainInv download c₀) (h : (client download false N K).Run Plain c₀ outs c) :
    PlainInv download c :=
  h.state_inv h₀ fun _ _ _ _ hi hc hs => (step_move hs).plainInv hN2 hN hc hi

/-- Between two fetches the next one can be called. -/
theorem PlainInv.step_fetch (h : PlainInv download c) (hs : Settled c) :
    ∃ w c' o, (client download false N K).step c (.fetch (.ok w)) = some (c', o) := by
  obtain ⟨hi, hf⟩ := hs
  obtain ⟨w, p, hw⟩ := producerCond.exists_signal c.producers
  suffices hfetch : ∃ r, c.fetch (.ok w) = some r by
    obtain ⟨⟨c', o⟩, hr⟩ := hfetch
    exact ⟨w, c', o, by simp [client, Client.step, hf, hi, hr]⟩
  unfold Client.fetch
  by_cases he : (fetchEnter c.stmt).chunkDownloader.any (·.hasError) = true
  · exact ⟨_, if_pos he⟩
  rw [if_neg he]
  by_cases h0 : (fetchEnter c.stmt).chunkRowcount = 0
  · rw [if_pos h0]
    cases hd : c.stmt.chunkDownloader with
    | none =>
      refine ⟨c.fetchReturn (fetchEnter c.stmt) .eof, ?_⟩
      simp only [fetchEnter_downloader, hd]
    | some d =>
      simp only [fetchEnter_downloader, hd, h.quiet.abandoned, Bool.false_eq_true, ↓reduceIte]
      split
      · exact ⟨_, rfl⟩
      · obtain ⟨item, hq⟩ := (h.inv d hd).queue.item (i := d.consumerHead) (by omega)
        exact exists_fetchChunk hq hw
  · exact ⟨_, if_neg h0⟩

/-- A fetch that waits leaves the call only with a result. -/
theorem Move.result_of_idle (hm : Move download false c e c' o) (hf : c.fetcher ≠ .idle)
    (hf' : c'.fetcher = .idle) : fetchResults o ≠ [] := by
  cases hm with
  | execute hi | fetchError hi | fetchEof hi | fetchEnd hi | fetchRow hi => exact absurd hi hf
  | fetchFail | fetchSignalFail | fetchTake => exact nofun
  | fetchSleep | wakeFetcher => cases hf'
  | post hd hl hp he =>
    have hidle : c.fetcher.notify = .idle := hf'
    cases hc : c.fetcher with
    | idle => exact absurd hc hf
    | _ => rw [hc] at hidle; cases hidle
  | term hd hl hk hi hs =>
    rename_i d k rc
    simp only [Client.term, hs, Bool.false_eq_true, ↓reduceIte] at hf'
    cases hc : c.fetcher with
    | idle => exact absurd hc hf
    | _ => cases rc <;> simp [FetcherPc.notify, hc] at hf'
  | termAgain hd hl hk hi hs =>
    simp only [Client.term, hs, ↓reduceIte] at hf'
    exact absurd hf' hf
  | downloadFail | postFail => exact absurd (by simpa using hf') hf
  | _ => exact absurd hf' hf

/-- Every plain run can be continued until one more fetch returned. -/
theorem PlainInv.exists_result (hN2 : 2 ≤ N) (hN : N < 2 ^ 64) (h : PlainInv download c) :
    ∃ o c', (client download false N K).Run Plain c o c' ∧ fetchResults o ≠ [] := by
  obtain ⟨o₁, c₁, hr₁, hset₁⟩ := (h.inevitable hN2 hN).reaches
  have hr₁ := hr₁.mono fun _ _ hw => hw.plain
  have h₁ := plainInv_of_run hN2 hN h hr₁
  obtain ⟨w, c₂, o₂, hs⟩ := h₁.step_fetch hset₁
  have hplain : Plain c₁ (.fetch (.ok w)) := rfl
  have hr₂ : (client download false N K).Run Plain c (o₁ ++ o₂) c₂ := .snoc hr₁ hplain hs
  by_cases hidle : c₂.fetcher = .idle
  · refine ⟨_, c₂, hr₂, ?_⟩
    have hres : fetchResults o₂ ≠ [] := by
      cases step_move hs with
      | fetchError | fetchEof | fetchEnd | fetchRow | fetchFail | fetchSignalFail | fetchTake =>
        exact nofun
      | fetchSleep => cases hidle
    simp [hres]
  · -- The fetch sleeps: it returns in the end.
    have h₂ := plainInv_of_run hN2 hN h hr₂
    obtain ⟨o₃, c₃, hr₃, hset₃⟩ := (h₂.inevitable hN2 hN).reaches
    refine ⟨_, c₃, hr₂.trans (hr₃.mono fun _ _ hw => hw.plain), ?_⟩
    have hres : c₃.fetcher ≠ .idle ∨ fetchResults o₃ ≠ [] := by
      refine hr₃.inv (I := fun o c => c.fetcher ≠ .idle ∨ fetchResults o ≠ []) (.inl hidle) ?_
      intro outs s e s' o hi _ hs
      by_cases hf' : s'.fetcher = .idle
      · right
        rcases hi with hf | hne
        · simp [(step_move hs).result_of_idle hf hf']
        · simp [hne]
      · exact .inl hf'
    simp [hres.resolve_left fun hne => hne hset₃.2]

theorem exists_results (hN2 : 2 ≤ N) (hN : N < 2 ^ 64) {c₀ : Client N K Row}
    (h : PlainInv download c₀) (n : Nat) :
    ∃ outs c, (client download false N K).Run Plain c₀ outs c ∧ n ≤ (fetchResults outs).length := by
  induction n with
  | zero => exact ⟨[], c₀, .nil, Nat.zero_le _⟩
  | succ n ih =>
    obtain ⟨outs, c, hr, hlen⟩ := ih
    obtain ⟨o, c', hr', hne⟩ := (plainInv_of_run hN2 hN h hr).exists_result hN2 hN
    refine ⟨outs ++ o, c', hr.trans hr', ?_⟩
    have hpos := List.length_pos_iff.mpr hne
    simp only [fetchResults_append, List.length_append]
    omega

/-! ## A chunk without rows -/

/-- What a run of fetches tells about the chunks: a chunk without rows gives a success without a
row, and the end is returned only after all chunks were taken. -/
structure TraceInv (outs : List (Output N Row)) (c : Client N K Row) : Prop where
  empty : ∀ i, (i, some []) ∈ chunksTaken outs → (.success, none) ∈ fetchResults outs
  ended : ∀ row d, (.eof, row) ∈ fetchResults outs → c.stmt.chunkDownloader = some d →
    d.queueSize ≤ d.consumerHead

/-- A step that takes no chunk and does not return the end. -/
theorem TraceInv.keep (h : TraceInv outs c) (hc : chunksTaken o = [])
    (hr : ∀ row, (.eof, row) ∉ fetchResults o)
    (hd : ∀ d', c'.stmt.chunkDownloader = some d' → ∃ d, c.stmt.chunkDownloader = some d ∧
      d'.queueSize = d.queueSize ∧ d'.consumerHead = d.consumerHead) : TraceInv (outs ++ o) c' := by
  refine ⟨fun i hi => ?_, fun row d' hrow hd' => ?_⟩
  · simp only [chunksTaken_append, hc, List.append_nil] at hi
    simp [h.empty i hi]
  · simp only [fetchResults_append, List.mem_append, hr row, or_false] at hrow
    obtain ⟨d, hd₀, hsize, hhead⟩ := hd d' hd'
    rw [hsize, hhead]
    exact h.ended row d hrow hd₀

theorem Move.traceInv (hm : Move download false c e c' o) (hc : Plain c e)
    (hp : PlainInv download c) (h : TraceInv outs c) : TraceInv (outs ++ o) c' := by
  cases hm with
  | execute | spawnFail | downloadFail | postFail | termAgain | term => cases hc
  | spawn | sleep | leave | downloadOk | postLate | wakeProducer | wakeFetcher | join =>
    exact h.keep rfl nofun fun d' hd' => ⟨d', hd', rfl, rfl⟩
  | countThread hd | take hd | post hd =>
    exact h.keep rfl nofun fun d' hd' => by cases hd'; exact ⟨_, hd, rfl, rfl⟩
  | fetchError hf hi hd he =>
    exact h.keep rfl (by simp [fetchResults]) fun d' hd' => ⟨d', hd', rfl, rfl⟩
  | fetchEof hf hi hd h0 =>
    refine ⟨fun i hi => ?_, fun row d' _ hd' => ?_⟩
    · simp [h.empty i (by simpa [chunksTaken] using hi)]
    · rw [show c.stmt.chunkDownloader = some d' from hd'] at hd
      cases hd
  | fetchEnd hf hi hd he hl h0 hq =>
    refine ⟨fun i hi => ?_, fun row d' _ hd' => ?_⟩
    · simp [h.empty i (by simpa [chunksTaken] using hi)]
    · rw [show c.stmt.chunkDownloader = some d' from hd'] at hd
      cases hd
      exact hq
  | fetchRow hf hi hd h0 =>
    exact h.keep rfl (by simp [fetchResults]) fun d' hd' => ⟨d', hd', rfl, rfl⟩
  | fetchSleep hs hq hc' hn =>
    obtain ⟨hd, hd', -⟩ := hs.spec hp.inv
    refine h.keep rfl nofun fun d'' hd'' => ⟨d'', ?_, rfl, rfl⟩
    rw [hd, ← hd']
    exact hd''
  | fetchFail hs hq hn =>
    obtain ⟨hd, -⟩ := hs.spec hp.inv
    rw [(hp.waking _ hd).running] at hn
    cases hn
  | fetchSignalFail hs => cases hs <;> cases hc
  | fetchTake hs hq hc' hn hw =>
    obtain ⟨hd, -, rfl, hlt, -, -⟩ := hs.spec hp.inv
    refine ⟨fun i hi => ?_, fun row d' hrow _ => ?_⟩
    · rw [chunksTaken_append, List.mem_append] at hi
      rcases hi with hi | hi
      · simp [h.empty i hi]
      · -- The chunk without rows is the one of this step.
        simp only [chunksTaken, List.filterMap_cons, List.filterMap_nil, List.mem_singleton,
          Prod.mk.injEq, Option.some.injEq] at hi
        simp [fetchResults, Snowflake.fetchRow, Snowflake.takeChunk, hc', ← hi.2]
    · simp only [fetchResults_append, List.mem_append] at hrow
      rcases hrow with hrow | hrow
      · exact absurd (h.ended row _ hrow hd) (by omega)
      · simp [fetchResults] at hrow
  | free hd hk => rw [hp.quiet.terms] at hk; cases hk

/-- A plain step does not take the downloader away. -/
theorem Move.downloader_some (hm : Move download false c e c' o) (hc : Plain c e)
    (hp : PlainInv download c) (h : c.stmt.chunkDownloader ≠ none) :
    c'.stmt.chunkDownloader ≠ none := by
  cases hm with
  | execute | spawnFail | downloadFail | postFail | termAgain | term => cases hc
  | countThread | take | post | fetchSignalFail | fetchTake => exact nofun
  | fetchSleep hs | fetchFail hs =>
    obtain ⟨-, hd', -⟩ := hs.spec hp.inv
    exact fun hn => by cases hd'.symm.trans hn
  | free hd hk => rw [hp.quiet.terms] at hk; cases hk
  | _ => exact h

theorem Matches.urls_eq {r : Reply Row} (h : Matches download r rows urls) : r.urls = urls := by
  rcases h.chunks with ⟨hch, rfl⟩ | ⟨chunks, hch, hitems⟩
  · simp [Reply.urls, hch]
  · simp [Reply.urls, hch, hitems, List.filterMap_map]

theorem Matches.chunked {r : Reply Row} (h : Matches download r rows urls) (hne : urls ≠ []) :
    r.Chunked := by
  rcases h.chunks with ⟨-, rfl⟩ | ⟨chunks, hch, -⟩
  · exact absurd rfl hne
  · simp [Reply.Chunked, h.rowset, hch]

/-- If the end was returned, each chunk was taken. -/
theorem mem_chunksTaken (hN2 : 2 ≤ N) (hN : N < 2 ^ 64) {r : Reply Row}
    (h : Matches download r rows urls) {row : Option Row}
    (hrun : (client download false N K).Run Plain (Client.prepared.execute false r) outs c)
    (hp : PlainInv download c) (ht : TraceInv outs c) (heof : (.eof, row) ∈ fetchResults outs)
    {url : String} (hurl : url ∈ urls) : ∃ i, (i, some (download url)) ∈ chunksTaken outs := by
  have hne : urls ≠ [] := List.ne_nil_of_mem hurl
  obtain ⟨-, -, -, -, hsome, -, -⟩ := execute_matching (K := K) hN2 h
  obtain ⟨-, htaken, hdown⟩ := hrun.inv
    (I := fun outs c => PlainInv download c ∧ TakenInv download r.urls outs c ∧
      c.stmt.chunkDownloader ≠ none)
    ⟨plainInv_execute hN2 hN h, takenInv_execute _ (h.chunked hne), hsome hne⟩
    fun outs s e s' o ⟨hi, ht, hd⟩ hc hs =>
      have hm := step_move hs
      ⟨hm.plainInv hN2 hN hc hi, hm.takenInv hc.noExecute hi.inv ht, hm.downloader_some hc hi hd⟩
  obtain ⟨d, hd⟩ := Option.ne_none_iff_exists'.mp hdown
  obtain ⟨p, k, htk, hheads⟩ := htaken
  obtain ⟨-, rfl, hurls⟩ := hheads d hd
  obtain ⟨i, hi⟩ := List.mem_iff_getElem?.mp hurl
  have hlt : i < d.consumerHead := by
    have hsize := ht.ended row d heof hd
    rw [(hp.inv d hd).queue.size, ← List.length_map (·.url), hurls, h.urls_eq] at hsize
    exact Nat.lt_of_lt_of_le (List.getElem?_eq_some_iff.mp hi).1 hsize
  refine ⟨i, ?_⟩
  rw [htk.chunks, List.mem_map]
  exact ⟨i, List.mem_range.mpr hlt, by rw [h.urls_eq, hi]; rfl⟩

/-- After a reply with matching row counts the cursor is exact if and only if every chunk has a
row. -/
theorem cursor_exact_iff (hN2 : 2 ≤ N) (hN : N < 2 ^ 64) {r : Reply Row}
    (h : Matches download r rows urls) :
    CursorExact download N K r (rows ++ urls.flatMap download) ↔
      ∀ url ∈ urls, download url ≠ [] := by
  have h₀ := plainInv_execute (K := K) hN2 hN h
  constructor
  · intro hexact url hurl hnil
    -- In a run in which the end was returned, the empty chunk was taken.
    obtain ⟨outs, c, hrun, hlen⟩ :=
      exists_results hN2 hN h₀ ((rows ++ urls.flatMap download).length + 1)
    have hresults := hexact.results outs c hrun
    have heof : (.eof, none) ∈ fetchResults outs := by
      rw [hresults, expectedResults, List.mem_map]
      exact ⟨_, List.mem_range.mpr hlen, by simp [expectedResult]⟩
    obtain ⟨hp, htrace⟩ :=
      hrun.inv (I := fun outs c => PlainInv download c ∧ TraceInv outs c)
        ⟨h₀, nofun, nofun⟩ fun outs s e s' o ⟨hi, ht⟩ hc hs =>
          ⟨(step_move hs).plainInv hN2 hN hc hi, (step_move hs).traceInv hc hi ht⟩
    obtain ⟨i, hi⟩ := mem_chunksTaken hN2 hN h hrun hp htrace heof hurl
    rw [hnil] at hi
    -- No expected result is a success without a row.
    have hbad := htrace.empty i hi
    rw [hresults, expectedResults, List.mem_map] at hbad
    obtain ⟨j, -, hj⟩ := hbad
    unfold expectedResult at hj
    split at hj <;> cases hj
  · intro hne
    obtain ⟨hrem, hraw, hcount, hitems, -, -, -⟩ := execute_matching (K := K) hN2 h
    have hcursor₀ : CursorInv download (rows ++ urls.flatMap download) urls
        ([] : List (Output N Row)) (Client.prepared.execute false r : Client N K Row) := by
      refine ⟨rfl, hrem.symm, by rw [hcount, hraw]; rfl, fun hf => ?_, hitems⟩
      exact absurd (execute_fetcher ..) hf
    refine ⟨fun outs c hrun => ?_, fun outs c hrun hset => ?_, fun outs c hrun => ?_⟩
    · obtain ⟨-, hcursor⟩ :=
        hrun.inv (I := fun outs c => PlainInv download c ∧
            CursorInv download (rows ++ urls.flatMap download) urls outs c)
          ⟨h₀, hcursor₀⟩ fun outs s e s' o ⟨hi, ht⟩ hc hs =>
            ⟨(step_move hs).plainInv hN2 hN hc hi, (step_move hs).cursorInv hc hi hne ht⟩
      exact hcursor.results
    · exact (plainInv_of_run hN2 hN h₀ hrun).step_fetch hset
    · exact (plainInv_of_run hN2 hN h₀ hrun).inevitable hN2 hN

/-- One chunk with one row. -/
theorem cursor_exact_iff_oneChunk :
    Matches (fun _ => [7]) oneChunk [] ["u"] ∧ CursorExact (fun _ => [7]) 2 0 oneChunk [7] := by
  have hm : Matches (fun _ => [7]) oneChunk [] ["u"] := ⟨rfl, .inr ⟨_, rfl, rfl⟩⟩
  exact ⟨hm, (cursor_exact_iff (by decide) (by decide) hm).mpr (by simp)⟩

/-- A reply with no row in the rowset and one chunk without rows. -/
def emptyChunk : Reply Nat where
  rowset := some []
  total := some 0
  chunks := some (some ⟨[⟨some "u", some 0⟩], by decide⟩)

/-- The first fetch over one empty chunk returns success without a row, not the end. -/
theorem cursor_not_exact_emptyChunk :
    Matches (fun _ => []) emptyChunk [] ["u"] ∧
      ¬ CursorExact (fun _ => []) 2 0 emptyChunk ([] ++ ["u"].flatMap fun _ => []) := by
  refine ⟨⟨rfl, .inr ⟨_, rfl, rfl⟩⟩, fun h => ?_⟩
  obtain ⟨outs, c, hrun, hres⟩ :=
    Machine.exec_exists (M := client (fun _ => []) false 2 0)
      (s := Client.prepared.execute false emptyChunk) (c := fun _ e => !e.disturbs)
      (p := fun r => decide (fetchResults r.2 = [(.success, none)]))
      [.spawn, .countThread, .spawn, .countThread, .check 0, .downloadOk 0, .post 0 true,
        .fetch (.ok none)]
      (by decide +kernel)
  have hrun' := hrun.mono (D := Plain) fun _ e he => by simpa [Plain] using he
  have hres : fetchResults outs = [(.success, none)] := by simpa using hres
  have hexact := h.results outs c hrun'
  rw [hres] at hexact
  simp [expectedResults, expectedResult] at hexact

end Snowflake
