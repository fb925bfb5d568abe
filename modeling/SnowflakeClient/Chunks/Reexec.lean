import SnowflakeClient.Chunks.Queue

/-!
# Executing a statement again

A prepared statement may be executed many times. `_snowflake_execute_ex` replaces the rowset each
time, but the chunk downloader only if the reply has a `chunks` member. So a reply without one
leaves the old downloader, and once the new rowset is used up `snowflake_fetch` goes on with the
old chunks (`rows_not_isolated`). `rows_isolated`: this is the only way in which a row of an
earlier reply is returned.
-/

namespace Snowflake

open CInt Conc

variable {N K : Nat} {Row : Type} {download : String → List Row} {pg : Bool}
  {c c' : Client N K Row} {d d' : ChunkDownloader Row} {e : Event N K Row}
  {outs o : List (Output N Row)} {r : Reply Row}

/-- The rows of a reply: the rowset, and what its chunks hold. -/
def Reply.rows (download : String → List Row) (r : Reply Row) : List Row :=
  r.rowset.getD [] ++ r.urls.flatMap download

def seeOutput (acc : Option (Reply Row) × List Row) :
    Output N Row → Option (Reply Row) × List Row
  | .executed r => (some r, [])
  | .fetchReturns _ (some row) => (acc.1, acc.2 ++ [row])
  | _ => acc

/-- The last reply, and the rows that the fetches after it returned. -/
def lastExecution (outs : List (Output N Row)) : Option (Reply Row) × List Row :=
  outs.foldl seeOutput (none, [])

/-- Every row that was returned after the last execute is one of its reply. -/
def Isolated (download : String → List Row) (outs : List (Output N Row)) : Prop :=
  ∀ row ∈ (lastExecution outs).2, ∃ r ∈ (lastExecution outs).1, row ∈ r.rows download

instance [DecidableEq Row] (outs : List (Output N Row)) : Decidable (Isolated download outs) :=
  inferInstanceAs (Decidable (∀ row ∈ _, ∃ r ∈ _, _))

/-- An execute is successful. -/
def succeeds (pg : Bool) (c : Client N K Row) : Event N K Row → Bool
  | .execute r => decide ((executeEx N pg r c.stmt).1 = .success)
  | .spawnFail => false
  | _ => true

/-- The downloader gives no more chunks: it failed or was shut down, or all its chunks were
taken. -/
def ChunkDownloader.spent (d : ChunkDownloader Row) : Bool :=
  d.getShutdownOrError || decide (d.queueSize ≤ d.consumerHead)

/-- An execute is successful, and if its reply has no `chunks`, no downloader has chunks left. -/
def isolates (pg : Bool) (c : Client N K Row) : Event N K Row → Bool
  | .execute r =>
    succeeds pg c (.execute r) && (r.chunks.isSome || c.stmt.chunkDownloader.all (·.spent))
  | e => succeeds pg c e

/-- The reply `r` is the last one. -/
def LastReply (outs : List (Output N Row)) (r : Reply Row) : Prop := (lastExecution outs).1 = some r

/-- What the next fetches return is of the last reply. -/
structure IsolationInv (download : String → List Row) (pg : Bool) (outs : List (Output N Row))
    (c : Client N K Row) : Prop where
  isolated : Isolated download outs
  raw : ∀ row ∈ c.stmt.rawResults.getD [], ∃ r, LastReply outs r ∧ row ∈ r.rows download
  source : ∀ d, c.stmt.chunkDownloader = some d → d.spent = true ∨
    ∃ r, LastReply outs r ∧ d.queue.map (·.url) = r.urls
  entered : c.fetcher ≠ .idle → c.stmt.curRow = none
  putGet : pg = true → c.stmt.rawResults = none ∧ c.stmt.chunkDownloader = none

theorem mem_rows_of_url {url : String} {row : Row} (hu : url ∈ r.urls)
    (hrow : row ∈ download url) : row ∈ r.rows download := by
  refine List.mem_append_right _ (List.mem_flatMap.mpr ⟨url, hu, hrow⟩)

/-- An output that is neither an execute nor a row. -/
def Output.silent : Output N Row → Bool
  | .executed _ | .fetchReturns _ (some _) => false
  | _ => true

theorem seeOutput_silent (acc : Option (Reply Row) × List Row) {x : Output N Row}
    (h : x.silent = true) : seeOutput acc x = acc := by
  cases x with
  | executed r => cases h
  | fetchReturns status row =>
    cases row with
    | none => rfl
    | some row => cases h
  | indexTaken t i => rfl
  | chunkTaken i chunk => rfl

theorem lastExecution_silent (h : ∀ x ∈ o, x.silent = true) :
    lastExecution (outs ++ o) = lastExecution outs := by
  unfold lastExecution
  rw [List.foldl_append]
  generalize List.foldl seeOutput _ outs = acc
  induction o with
  | nil => rfl
  | cons x o ih =>
    rw [List.foldl_cons, seeOutput_silent acc (h x (List.mem_cons_self ..))]
    exact ih fun y hy => h y (List.mem_cons_of_mem _ hy)

theorem lastExecution_row {status : Status} {row : Row} :
    lastExecution (outs ++ [Output.fetchReturns status (some row)]) =
      ((lastExecution outs).1, (lastExecution outs).2 ++ [row]) := by
  simp [lastExecution, List.foldl_append, seeOutput]

theorem lastExecution_executed : lastExecution (outs ++ [Output.executed r]) = (some r, []) := by
  simp [lastExecution, List.foldl_append, seeOutput]

namespace IsolationInv

/-- A step that shows no row and no execute. -/
theorem keep (h : IsolationInv download pg outs c) (ho : ∀ x ∈ o, x.silent = true)
    (hraw : c'.stmt.rawResults = c.stmt.rawResults ∨ c'.stmt.rawResults = none)
    (hd : ∀ d', c'.stmt.chunkDownloader = some d' → ∃ d, c.stmt.chunkDownloader = some d ∧
      (d.spent = true → d'.spent = true) ∧ d'.queue.map (·.url) = d.queue.map (·.url))
    (hf : c'.fetcher ≠ .idle → c'.stmt.curRow = none) :
    IsolationInv download pg (outs ++ o) c' := by
  have hlast : lastExecution (outs ++ o) = lastExecution outs := lastExecution_silent ho
  have hreply : ∀ r, LastReply (outs ++ o) r ↔ LastReply outs r := by
    intro r
    rw [LastReply, LastReply, hlast]
  refine ⟨?_, fun row hrow => ?_, fun d' hd' => ?_, hf, fun hpg => ?_⟩
  · unfold Isolated
    rw [hlast]
    exact h.isolated
  · rcases hraw with hraw | hraw
    · obtain ⟨r, hr, hmem⟩ := h.raw row (hraw ▸ hrow)
      exact ⟨r, (hreply r).mpr hr, hmem⟩
    · rw [hraw] at hrow
      cases hrow
  · obtain ⟨d, hd₀, hspent, hurls⟩ := hd d' hd'
    rcases h.source d hd₀ with hs | ⟨r, hr, hu⟩
    · exact .inl (hspent hs)
    · exact .inr ⟨r, (hreply r).mpr hr, by rw [hurls, hu]⟩
  · obtain ⟨h1, h2⟩ := h.putGet hpg
    refine ⟨hraw.elim (fun e => by rw [e, h1]) id, ?_⟩
    cases hd' : c'.stmt.chunkDownloader with
    | none => rfl
    | some d' =>
      obtain ⟨d, hd₀, -⟩ := hd d' hd'
      rw [h2] at hd₀
      cases hd₀

/-- A step of the producers or of `chunk_downloader_term`. -/
theorem keep_some (h : IsolationInv download pg outs c) (ho : ∀ x ∈ o, x.silent = true)
    (hd : c.stmt.chunkDownloader = some d) (hd' : c'.stmt.chunkDownloader = some d')
    (hraw : c'.stmt.rawResults = c.stmt.rawResults) (hcur : c'.stmt.curRow = c.stmt.curRow)
    (hspent : d.spent = true → d'.spent = true)
    (hu : d'.queue.map (·.url) = d.queue.map (·.url))
    (hf : c'.fetcher ≠ .idle → c.fetcher ≠ .idle) : IsolationInv download pg (outs ++ o) c' := by
  refine h.keep ho (.inl hraw) (fun d'' hd'' => ?_) fun hne => ?_
  · rw [hd'] at hd''
    cases hd''
    exact ⟨d, hd, hspent, hu⟩
  · rw [hcur]
    exact h.entered (hf hne)

theorem keep_same (h : IsolationInv download pg outs c) (hs : c'.stmt = c.stmt)
    (hf : c'.fetcher ≠ .idle → c.fetcher ≠ .idle) :
    IsolationInv download pg (outs ++ []) c' := by
  refine h.keep nofun (.inl (by rw [hs])) (fun d' hd' => ?_) fun hne => ?_
  · exact ⟨d', by rw [← hs]; exact hd', id, rfl⟩
  · rw [hs]
    exact h.entered (hf hne)

/-- A fetch returns with `row`. Its row and the rows that it leaves are of the last reply. -/
theorem push (h : IsolationInv download pg outs c) {rows : List Row} {status : Status}
    {row : Option Row} (hsilent : ∀ x ∈ o, x.silent = true)
    (hrows : ∀ x ∈ rows, ∃ r, LastReply outs r ∧ x ∈ r.rows download)
    (hrow : ∀ x ∈ row, x ∈ rows) (hraw : ∀ x ∈ c'.stmt.rawResults.getD [], x ∈ rows)
    (hd : ∀ d', c'.stmt.chunkDownloader = some d' → ∃ d, c.stmt.chunkDownloader = some d ∧
      (d.spent = true → d'.spent = true) ∧ d'.queue.map (·.url) = d.queue.map (·.url))
    (hf : c'.fetcher = .idle)
    (hpg : pg = true → c'.stmt.rawResults = none ∧ c'.stmt.chunkDownloader = none) :
    IsolationInv download pg (outs ++ (o ++ [Output.fetchReturns status row])) c' := by
  have hmid : lastExecution (outs ++ o) = lastExecution outs := lastExecution_silent hsilent
  have hlast : lastExecution (outs ++ (o ++ [Output.fetchReturns status row])) =
      ((lastExecution outs).1, (lastExecution outs).2 ++ row.toList) := by
    rw [← List.append_assoc]
    cases row with
    | none => rw [lastExecution_silent (by simp [Output.silent]), hmid]; simp
    | some row => rw [lastExecution_row, hmid]; rfl
  have hreply : ∀ r, LastReply outs r →
      LastReply (outs ++ (o ++ [Output.fetchReturns status row])) r := by
    intro r hr
    rw [LastReply, hlast]
    exact hr
  refine ⟨?_, fun x hx => ?_, fun d' hd' => ?_, fun hne => absurd hf hne, hpg⟩
  · unfold Isolated
    rw [hlast]
    intro x hx
    rcases List.mem_append.mp hx with hx | hx
    · exact h.isolated x hx
    · obtain ⟨r, hr, hmem⟩ := hrows x (hrow x (Option.mem_toList.mp hx))
      exact ⟨r, hr, hmem⟩
  · obtain ⟨r, hr, hmem⟩ := hrows x (hraw x hx)
    exact ⟨r, hreply r hr, hmem⟩
  · obtain ⟨d, hd₀, hspent, hurls⟩ := hd d' hd'
    rcases h.source d hd₀ with hs | ⟨r, hr, hu⟩
    · exact .inl (hspent hs)
    · exact .inr ⟨r, hreply r hr, by rw [hurls, hu]⟩

end IsolationInv

/-! ## Every run -/

/-- A successful execute brings the reply's rowset, and its downloader if it has one. -/
theorem executeEx_success {s : Stmt Row} (h : (executeEx N false r s).1 = .success) :
    (executeEx N false r s).2.rawResults = r.rowset ∧
      ((r.chunks = none ∧ (executeEx N false r s).2.chunkDownloader = s.chunkDownloader) ∨
        ∃ d, (executeEx N false r s).2.chunkDownloader = some d ∧ Fresh r N d) := by
  cases hrow : r.rowset with
  | none => simp [executeEx, hrow] at h
  | some rowset =>
    cases hch : r.chunks with
    | none => simp [executeEx, hrow, hch]
    | some chunks =>
      cases hd : (chunkDownloaderInit N 4 chunks : Option (ChunkDownloader Row)) with
      | none => simp [executeEx, hrow, hch, hd] at h
      | some d =>
        have hfresh := chunkDownloaderInit_fresh hch hd
        simp [executeEx, hrow, hch, hd, hfresh]

/-- A successful execute that finds no old chunks starts anew. -/
theorem IsolationInv.execute (h : IsolationInv download pg outs c)
    (hc : isolates pg c (.execute r) = true) (hf : c.fetcher = .idle) :
    IsolationInv download pg (outs ++ [Output.executed r]) (c.execute pg r) := by
  simp only [isolates, succeeds, Bool.and_eq_true, decide_eq_true_eq, Bool.or_eq_true] at hc
  obtain ⟨hsuccess, hold⟩ := hc
  have hlast : LastReply (outs ++ [Output.executed r]) r := by
    rw [LastReply, lastExecution_executed]
  have hiso : Isolated download (outs ++ [Output.executed r]) := by
    intro row hrow
    rw [lastExecution_executed] at hrow
    cases hrow
  have hidle : (c.execute pg r).fetcher ≠ .idle → (c.execute pg r).stmt.curRow = none := by
    rw [execute_fetcher]
    exact fun hne => absurd hf hne
  cases hpg : pg with
  | true =>
    obtain ⟨h1, h2⟩ := h.putGet hpg
    have hs : (c.execute true r).stmt = { c.stmt with errorCode := .success } := by
      rw [execute_stmt]
      rfl
    subst hpg
    refine ⟨hiso, ?_, ?_, hidle, fun _ => by rw [hs]; exact ⟨h1, h2⟩⟩
    · rw [hs, show Stmt.rawResults _ = none from h1]
      exact nofun
    · rw [hs, show Stmt.chunkDownloader _ = none from h2]
      exact nofun
  | false =>
    subst hpg
    obtain ⟨hraw, hdown⟩ := executeEx_success hsuccess
    refine ⟨hiso, fun row hrow => ⟨r, hlast, ?_⟩, fun d hd => ?_, hidle, nofun⟩
    · rw [execute_stmt, hraw] at hrow
      exact List.mem_append_left _ hrow
    · rw [execute_stmt] at hd
      rcases hdown with ⟨hch, hsame⟩ | ⟨d', hd', hfresh⟩
      · rw [hsame] at hd
        exact .inl (by simpa [hch, hd] using hold)
      · rw [hd'] at hd
        cases hd
        exact .inr ⟨r, hlast, hfresh.urls⟩

theorem not_spent (hlt : d.consumerHead < d.queueSize) (hn : d.getShutdownOrError = false) :
    ¬ d.spent = true := by
  simp only [ChunkDownloader.spent, hn, Bool.false_or, decide_eq_true_eq]
  omega

/-- The rows of a chunk that a fetch takes are of the last reply. -/
theorem IsolationInv.chunk_rows (h : IsolationInv download pg outs c)
    (hq : QueueInv download d c.producers) (hd : c.stmt.chunkDownloader = some d)
    (hlt : d.consumerHead < d.queueSize) (hn : d.getShutdownOrError = false)
    {item : QueueItem Row} {chunk : List Row} (hitem : d.queue[d.consumerHead]? = some item)
    (hc : item.chunk = some chunk) :
    ∀ row ∈ chunk, ∃ r, LastReply outs r ∧ row ∈ r.rows download := by
  intro row hrow
  obtain ⟨-, -, rfl⟩ := hq.slots _ _ _ hitem hc
  rcases h.source d hd with hs | ⟨r, hr, hu⟩
  · exact absurd hs (not_spent hlt hn)
  · refine ⟨r, hr, mem_rows_of_url ?_ hrow⟩
    rw [← hu]
    exact List.mem_map_of_mem (List.mem_of_getElem? hitem)

/-- At the wait loop the last row is gone. -/
theorem InSection.entered {rc : SignalRc N} {s : Stmt Row} {i : Nat} (hs : InSection c rc d e s i)
    (h : c.fetcher ≠ .idle → c.stmt.curRow = none) :
    s.curRow = none ∧ s.rawResults = c.stmt.rawResults := by
  cases hs with
  | fetch => exact ⟨rfl, rfl⟩
  | resume hf => exact ⟨h (by rw [hf]; exact nofun), rfl⟩

/-- With a downloader the statement is no PUT or GET command. -/
theorem IsolationInv.not_putGet (h : IsolationInv download pg outs c)
    (hd : c.stmt.chunkDownloader = some d) : pg ≠ true := by
  intro hpg
  rw [(h.putGet hpg).2] at hd
  cases hd

/-- Every step that meets the condition keeps the isolation. -/
theorem Move.isolationInv (hm : Move download pg c e c' o) (hc : isolates pg c e = true)
    (hinv : ClientInv download c) (h : IsolationInv download pg outs c) :
    IsolationInv download pg (outs ++ o) c' := by
  cases hm with
  | execute hf hi ht => exact h.execute hc hf
  | spawn | spawnFail | sleep | leave | downloadOk | postLate | wakeProducer | join =>
    exact h.keep_same rfl id
  | countThread hd hi => exact h.keep_some nofun hd rfl rfl rfl id rfl id
  | take hd hl hp hw hs =>
    exact h.keep_some (by simp [Output.silent]) hd rfl rfl rfl id rfl id
  | downloadFail hd hp =>
    refine h.keep_some nofun hd (recordError_downloader ..) ?_ ?_ ?_ rfl ?_
    · simp
    · simp
    · simp [ChunkDownloader.spent, ChunkDownloader.getShutdownOrError]
    · simp
  | post hd hl hp he =>
    refine h.keep_some nofun hd rfl rfl rfl id (map_setChunk _ fun _ _ => rfl) ?_
    simp
  | postFail hd hl hp he =>
    refine h.keep_some nofun hd (recordError_downloader ..) ?_ ?_ ?_
      (map_setChunk _ fun _ _ => rfl) ?_
    · simp
    · simp
    · simp [ChunkDownloader.spent, ChunkDownloader.getShutdownOrError]
    · simp
  | wakeFetcher hd hf => exact h.keep_same rfl fun _ => by rw [hf]; rintro ⟨⟩
  | fetchError hf hi hd he =>
    exact h.keep (by simp [Output.silent]) (.inl rfl) (fun d' hd' => ⟨d', hd', id, rfl⟩)
      fun hne => absurd rfl hne
  | fetchEof hf hi hd h0 =>
    exact h.keep (by simp [Output.silent]) (.inl rfl) (fun d' hd' => ⟨d', hd', id, rfl⟩)
      fun hne => absurd rfl hne
  | fetchEnd hf hi hd he hl h0 hq =>
    exact h.keep (by simp [Output.silent]) (.inr rfl) (fun d' hd' => ⟨d', hd', id, rfl⟩)
      fun hne => absurd rfl hne
  | fetchRow hf hi hd h0 =>
    refine h.push (o := []) nofun h.raw (fun x hx => List.mem_of_mem_head? hx) (fun x hx => ?_)
      (fun d' hd' => ⟨d', hd', id, rfl⟩) rfl fun hpg => ?_
    · cases hraw : c.stmt.rawResults with
      | none => simp [Client.fetchReturn, Snowflake.fetchRow, fetchEnter, hraw] at hx
      | some raw =>
        simp only [Client.fetchReturn, Snowflake.fetchRow, fetchEnter, hraw, Option.map_some,
          Option.getD_some] at hx
        exact List.mem_of_mem_tail hx
    · obtain ⟨h1, h2⟩ := h.putGet hpg
      simp [Client.fetchReturn, Snowflake.fetchRow, fetchEnter, h1, h2]
  | fetchSleep hs hq hc' hn =>
    obtain ⟨hd, hd', -⟩ := hs.spec hinv
    obtain ⟨hcur, hraw⟩ := hs.entered h.entered
    refine h.keep nofun (.inl hraw) (fun d'' hd'' => ⟨d'', ?_, id, rfl⟩) fun _ => hcur
    rw [hd, ← hd']
    exact hd''
  | fetchFail hs hq hn =>
    obtain ⟨hd, hd', -⟩ := hs.spec hinv
    obtain ⟨hcur, hraw⟩ := hs.entered h.entered
    rw [hcur]
    refine h.keep (by simp [Output.silent]) (.inl hraw) (fun d'' hd'' => ⟨d'', ?_, id, rfl⟩)
      fun hne => absurd rfl hne
    rw [hd, ← hd']
    exact hd''
  | fetchSignalFail hs hq hc' hn =>
    obtain ⟨hd, -, rfl, hlt, -, hi⟩ := hs.spec hinv
    obtain ⟨hcur, -⟩ := hs.entered h.entered
    rw [hcur]
    refine h.push (o := [.chunkTaken _ _]) (by simp [Output.silent])
      (h.chunk_rows hi.queue hd hlt hn hq hc') (by rintro _ ⟨⟩) (fun x hx => ?_)
      (fun d' hd' => ?_) rfl
      fun hpg => absurd hpg (h.not_putGet hd)
    · simpa [Client.fetchReturn, Snowflake.takeChunk, hc'] using hx
    · cases hd'
      exact ⟨_, hd, fun hs => absurd hs (not_spent hlt hn), map_setChunk _ fun _ _ => rfl⟩
  | fetchTake hs hq hc' hn hw =>
    obtain ⟨hd, -, rfl, hlt, -, hi⟩ := hs.spec hinv
    refine h.push (o := [.chunkTaken _ _]) (by simp [Output.silent])
      (h.chunk_rows hi.queue hd hlt hn hq hc') (fun x hx => ?_) (fun x hx => ?_)
      (fun d' hd' => ?_) rfl fun hpg => absurd hpg (h.not_putGet hd)
    · simp only [Snowflake.fetchRow, Snowflake.takeChunk, hc', Option.getD_some] at hx
      exact List.mem_of_mem_head? hx
    · simp only [Client.fetchReturn, Snowflake.fetchRow, Snowflake.takeChunk, hc',
        Option.map_some, Option.getD_some] at hx
      exact List.mem_of_mem_tail hx
    · cases hd'
      exact ⟨_, hd, fun hs => absurd hs (not_spent hlt hn), map_setChunk _ fun _ _ => rfl⟩
  | termAgain hd hl hk hi hs =>
    simp only [Client.term, hs, ↓reduceIte]
    exact h.keep_same rfl id
  | term hd hl hk hi hs =>
    rename_i d k rc
    obtain ⟨b, hd'⟩ := term_downloader c d k rc hs
    refine h.keep_some nofun hd hd' (term_rawResults ..) (term_curRow ..) (fun _ => rfl) rfl ?_
    rcases term_fetcher c d k rc with hf | hf <;> simp [hf]
  | free hd hk hcount =>
    exact h.keep nofun (.inl rfl) (fun d' hd' => by cases hd') h.entered

/-- In every run of successful executes from a prepared statement in which no execute without
`chunks` finds old chunks, every row returned after the last execute is one of its reply. -/
theorem rows_isolated (hN : N < 2 ^ 64)
    (h : (client download pg N K).Run (fun c e => isolates pg c e = true) .prepared outs c) :
    Isolated download outs := by
  obtain ⟨-, hiso⟩ := h.inv
    (I := fun outs c => ClientInv download c ∧ IsolationInv download pg outs c)
    ⟨.prepared, nofun, nofun, nofun, fun hne => absurd rfl hne, fun _ => ⟨rfl, rfl⟩⟩
    fun outs s e s' o ⟨hi, hiso⟩ hc hs =>
      ⟨(step_move hs).clientInv hN hi, (step_move hs).isolationInv hc hi hiso⟩
  exact hiso.isolated

/-- A reply with the row 1 and no `chunks`. -/
def oneRow : Reply Nat := { rowset := some [1], total := some 1, chunks := none }

/-- The statement is executed again after its only chunk was fetched. -/
theorem rows_isolated_oneRow :
    ∃ outs c, (client (fun _ => [7]) false 2 0).Run (fun c e => isolates false c e = true)
        .prepared outs c ∧
      (lastExecution outs).2 = [1] ∧ Isolated (fun _ => [7]) outs := by
  obtain ⟨outs, c, hrun, ho⟩ :=
    Machine.exec_exists (M := client (fun _ => [7]) false 2 0) (s := Client.prepared)
      (c := isolates false)
      (p := fun r => decide ((lastExecution r.2).2 = [1]))
      [.execute oneChunk, .spawn, .countThread, .spawn, .countThread, .check 0, .downloadOk 0,
        .post 0 true, .fetch (.ok none), .fetch (.ok none), .execute oneRow, .fetch (.ok none),
        .fetch (.ok none)]
      (by decide +kernel)
  exact ⟨outs, c, hrun, by simpa using ho, rows_isolated (by decide) hrun⟩

/-- The statement is executed again before its chunk was fetched, with a reply without `chunks`:
the second fetch returns the row of the old chunk. -/
theorem rows_not_isolated :
    ∃ outs c, (client (fun _ => [7]) false 2 0).Run (fun c e => succeeds false c e = true)
      .prepared outs c ∧ ¬ Isolated (fun _ => [7]) outs := by
  obtain ⟨outs, c, hrun, ho⟩ :=
    Machine.exec_exists (M := client (fun _ => [7]) false 2 0) (s := Client.prepared)
      (c := succeeds false) (p := fun r => decide (¬ Isolated (fun _ => [7]) r.2))
      [.execute oneChunk, .spawn, .countThread, .spawn, .countThread, .check 0, .downloadOk 0,
        .post 0 true, .execute oneRow, .fetch (.ok none), .fetch (.ok none)]
      (by decide +kernel)
  exact ⟨outs, c, hrun, by simpa using ho⟩

end Snowflake
