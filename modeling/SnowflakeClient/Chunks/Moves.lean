import SnowflakeClient.Chunks.Model

/-!
# The moves of the statement machine

`Move c e c' outs` lists what a step can do, one constructor for each way through the code, with
everything the code tested on that way. `step_move` is the only proof that unfolds the step
function; every invariant is a case analysis over `Move`.
-/

namespace Snowflake

open CInt Conc

variable {N K : Nat} {Row : Type}

/-- The index that a producer took and has not stored yet. -/
def ProducerPc.index? : ProducerPc Row → Option Nat
  | .downloading i | .downloaded i _ => some i
  | _ => none

/-- The producer is at its first section. -/
def ProducerPc.AtCheck (p : ProducerPc Row) : Prop := p = .ready ∨ p = .notified

/-- The chunk that the fetching thread waits for. -/
def FetcherPc.index? : FetcherPc → Option Nat
  | .idle => none
  | .asleep i | .notified i => some i

@[simp] theorem FetcherPc.index?_notify (f : FetcherPc) : f.notify.index? = f.index? := by
  cases f <;> rfl

theorem FetcherPc.notify_awake (f : FetcherPc) (i : Nat) : f.notify ≠ .asleep i := by
  cases f <;> exact nofun

@[simp] theorem FetcherPc.notify_eq_idle {f : FetcherPc} : f.notify = .idle ↔ f = .idle := by
  cases f <;> simp [FetcherPc.notify]

/-! ## Fields after an update -/

section Fields

variable (c : Client N K Row) (s : Stmt Row) (d : ChunkDownloader Row) (t : Fin N) (err : Status)

@[simp] theorem setProducer_stmt (p : ProducerPc Row) : (c.setProducer t p).stmt = c.stmt := rfl
@[simp] theorem setProducer_producers (p : ProducerPc Row) :
    (c.setProducer t p).producers = Function.update c.producers t p := rfl
@[simp] theorem setProducer_fetcher (p : ProducerPc Row) :
    (c.setProducer t p).fetcher = c.fetcher := rfl
@[simp] theorem setProducer_init (p : ProducerPc Row) : (c.setProducer t p).init = c.init := rfl

@[simp] theorem setDownloader_downloader :
    (c.setDownloader d).stmt.chunkDownloader = some d := rfl
@[simp] theorem setDownloader_producers : (c.setDownloader d).producers = c.producers := rfl
@[simp] theorem setDownloader_fetcher : (c.setDownloader d).fetcher = c.fetcher := rfl
@[simp] theorem setDownloader_init : (c.setDownloader d).init = c.init := rfl

@[simp] theorem recordError_downloader :
    (c.recordError d err).stmt.chunkDownloader = some { d with hasError := true } := by
  unfold Client.recordError
  split
  · rename_i h
    cases d
    simp_all
  · rfl

@[simp] theorem recordError_rawResults :
    (c.recordError d err).stmt.rawResults = c.stmt.rawResults := by
  unfold Client.recordError; split <;> rfl
@[simp] theorem recordError_curRow : (c.recordError d err).stmt.curRow = c.stmt.curRow := by
  unfold Client.recordError; split <;> rfl
@[simp] theorem recordError_producers : (c.recordError d err).producers = c.producers := by
  unfold Client.recordError; split <;> rfl
@[simp] theorem recordError_fetcher : (c.recordError d err).fetcher = c.fetcher := by
  unfold Client.recordError; split <;> rfl
@[simp] theorem recordError_init : (c.recordError d err).init = c.init := by
  unfold Client.recordError; split <;> rfl

/-- The downloader after the first `chunk_downloader_term`: an error is recorded if a broadcast
failed. -/
theorem term_downloader (k : Fin K) (rc : BroadcastRc) (hs : d.isShutdown = false) :
    ∃ b, (c.term d k rc).stmt.chunkDownloader =
      some { d with isShutdown := true, hasError := b } := by
  simp only [Client.term, hs, Bool.false_eq_true, ↓reduceIte]
  cases rc with
  | ok => exact ⟨d.hasError, rfl⟩
  | consumerFails => exact ⟨true, recordError_downloader ..⟩
  | producerFails => exact ⟨true, recordError_downloader ..⟩

@[simp] theorem term_rawResults (k : Fin K) (rc : BroadcastRc) :
    (c.term d k rc).stmt.rawResults = c.stmt.rawResults := by
  unfold Client.term
  split
  · rfl
  · cases rc <;> simp [Client.setDownloader]
@[simp] theorem term_curRow (k : Fin K) (rc : BroadcastRc) :
    (c.term d k rc).stmt.curRow = c.stmt.curRow := by
  unfold Client.term
  split
  · rfl
  · cases rc <;> simp [Client.setDownloader]
theorem term_fetcher (k : Fin K) (rc : BroadcastRc) :
    (c.term d k rc).fetcher = c.fetcher ∨ (c.term d k rc).fetcher = c.fetcher.notify := by
  unfold Client.term
  split
  · exact .inl rfl
  · cases rc with
    | ok => exact .inr rfl
    | consumerFails => exact .inl (by simp)
    | producerFails => exact .inr rfl

theorem execute_stmt {pg : Bool} (r : Reply Row) :
    (c.execute pg r).stmt = (executeEx N pg r c.stmt).2 := by
  unfold Client.execute; split <;> rfl
theorem execute_fetcher {pg : Bool} (r : Reply Row) : (c.execute pg r).fetcher = c.fetcher := by
  unfold Client.execute; split <;> rfl

@[simp] theorem fetchEnter_downloader : (fetchEnter s).chunkDownloader = s.chunkDownloader := rfl
@[simp] theorem fetchRow_downloader : (fetchRow s).chunkDownloader = s.chunkDownloader := rfl
@[simp] theorem takeChunk_downloader (i : Nat) (item : QueueItem Row) :
    (takeChunk s d i item).chunkDownloader =
      some ({ d with consumerHead := incU64 d.consumerHead }.setChunk i none) := rfl

end Fields

/-! ## The moves -/

/-- The fetching thread is at the wait loop of `snowflake_fetch`, for chunk `index`: it has just
got there (`fetch`), or it wakes up there (`resume`). `s` is the statement. -/
inductive InSection (c : Client N K Row) (rc : SignalRc N) (d : ChunkDownloader Row) :
    Event N K Row → Stmt Row → Nat → Prop
  | fetch : c.fetcher = .idle → c.init = .done → c.stmt.chunkDownloader = some d →
      c.abandoned = false → c.stmt.chunkRowcount = 0 → d.hasError = false →
      d.consumerHead < d.queueSize → InSection c rc d (.fetch rc) (fetchEnter c.stmt) d.consumerHead
  | resume {index : Nat} : c.fetcher = .notified index → c.stmt.chunkDownloader = some d →
      c.abandoned = false → InSection c rc d (.resume rc) c.stmt index

/-- What a step can do (module doc). -/
inductive Move (download : String → List Row) (pg : Bool) :
    Client N K Row → Event N K Row → Client N K Row → List (Output N Row) → Prop
  | execute {c : Client N K Row} {r : Reply Row} (hf : c.fetcher = .idle) (hi : c.init = .done)
      (ht : ∀ k, c.terms k = .idle) : Move download pg c (.execute r) (c.execute pg r) [.executed r]
  | spawn {c : Client N K Row} {d : ChunkDownloader Row} {i : Nat}
      (hd : c.stmt.chunkDownloader = some d) (hi : c.init = .create i) (h : i < N) :
      Move download pg c .spawn { c.setProducer ⟨i, h⟩ .ready with init := .count i } []
  | spawnFail {c : Client N K Row} {d : ChunkDownloader Row} {i : Nat}
      (hd : c.stmt.chunkDownloader = some d) (hi : c.init = .create i) :
      Move download pg c .spawnFail { c with init := .failed } []
  | countThread {c : Client N K Row} {d : ChunkDownloader Row} {i : Nat}
      (hd : c.stmt.chunkDownloader = some d) (hi : c.init = .count i) :
      Move download pg c .countThread
        { c.setDownloader { d with threadCount := incU64 d.threadCount } with
          init := if i + 1 < N then .create (i + 1) else .done } []
  | sleep {c : Client N K Row} {d : ChunkDownloader Row} {t : Fin N}
      (hd : c.stmt.chunkDownloader = some d) (hl : c.abandoned = false)
      (hp : (c.producers t).AtCheck) (hw : d.producerWaits = true) :
      Move download pg c (.check t) (c.setProducer t .asleep) []
  | leave {c : Client N K Row} {d : ChunkDownloader Row} {t : Fin N}
      (hd : c.stmt.chunkDownloader = some d) (hl : c.abandoned = false)
      (hp : (c.producers t).AtCheck) (hw : d.producerWaits = false) (hs : d.producerStops = true) :
      Move download pg c (.check t) (c.setProducer t .exited) []
  | take {c : Client N K Row} {d : ChunkDownloader Row} {t : Fin N}
      (hd : c.stmt.chunkDownloader = some d) (hl : c.abandoned = false)
      (hp : (c.producers t).AtCheck) (hw : d.producerWaits = false) (hs : d.producerStops = false) :
      Move download pg c (.check t)
        ((c.setDownloader { d with producerHead := incU64 d.producerHead }).setProducer t
          (.downloading d.producerHead)) [.indexTaken t d.producerHead]
  | downloadOk {c : Client N K Row} {d : ChunkDownloader Row} {t : Fin N} {i : Nat}
      {item : QueueItem Row} (hd : c.stmt.chunkDownloader = some d)
      (hp : c.producers t = .downloading i) (hq : d.queue[i]? = some item) :
      Move download pg c (.downloadOk t) (c.setProducer t (.downloaded i (download item.url))) []
  | downloadFail {c : Client N K Row} {d : ChunkDownloader Row} {t : Fin N} {i : Nat} {err : Status}
      (hd : c.stmt.chunkDownloader = some d) (hp : c.producers t = .downloading i) :
      Move download pg c (.downloadFail t err) ((c.recordError d err).setProducer t .exited) []
  | postLate {c : Client N K Row} {d : ChunkDownloader Row} {t : Fin N} {i : Nat} {chunk : List Row}
      {b : Bool} (hd : c.stmt.chunkDownloader = some d) (hl : c.abandoned = false)
      (hp : c.producers t = .downloaded i chunk) (he : d.hasError = true) :
      Move download pg c (.post t b) (c.setProducer t .exited) []
  | post {c : Client N K Row} {d : ChunkDownloader Row} {t : Fin N} {i : Nat} {chunk : List Row}
      (hd : c.stmt.chunkDownloader = some d) (hl : c.abandoned = false)
      (hp : c.producers t = .downloaded i chunk) (he : d.hasError = false) :
      Move download pg c (.post t true)
        ({ c.setDownloader (d.setChunk i (some chunk)) with
          fetcher := c.fetcher.notify }.setProducer t .ready) []
  | postFail {c : Client N K Row} {d : ChunkDownloader Row} {t : Fin N} {i : Nat} {chunk : List Row}
      (hd : c.stmt.chunkDownloader = some d) (hl : c.abandoned = false)
      (hp : c.producers t = .downloaded i chunk) (he : d.hasError = false) :
      Move download pg c (.post t false)
        ((c.recordError (d.setChunk i (some chunk)) .errorPthread).setProducer t .exited) []
  | wakeProducer {c : Client N K Row} {d : ChunkDownloader Row} {t : Fin N}
      (hd : c.stmt.chunkDownloader = some d) (hp : c.producers t = .asleep) :
      Move download pg c (.wakeProducer t) (c.setProducer t .notified) []
  | wakeFetcher {c : Client N K Row} {d : ChunkDownloader Row} {i : Nat}
      (hd : c.stmt.chunkDownloader = some d) (hf : c.fetcher = .asleep i) :
      Move download pg c .wakeFetcher { c with fetcher := .notified i } []
  | fetchError {c : Client N K Row} {d : ChunkDownloader Row} {rc : SignalRc N}
      (hf : c.fetcher = .idle) (hi : c.init = .done) (hd : c.stmt.chunkDownloader = some d)
      (he : d.hasError = true) :
      Move download pg c (.fetch rc) (c.fetchReturn (fetchEnter c.stmt) .errorGeneral).1
        [.fetchReturns .errorGeneral none]
  | fetchEof {c : Client N K Row} {rc : SignalRc N}
      (hf : c.fetcher = .idle) (hi : c.init = .done) (hd : c.stmt.chunkDownloader = none)
      (h0 : c.stmt.chunkRowcount = 0) :
      Move download pg c (.fetch rc) (c.fetchReturn (fetchEnter c.stmt) .eof).1
        [.fetchReturns .eof none]
  | fetchEnd {c : Client N K Row} {d : ChunkDownloader Row} {rc : SignalRc N}
      (hf : c.fetcher = .idle) (hi : c.init = .done) (hd : c.stmt.chunkDownloader = some d)
      (he : d.hasError = false) (hl : c.abandoned = false) (h0 : c.stmt.chunkRowcount = 0)
      (hq : d.queueSize ≤ d.consumerHead) :
      Move download pg c (.fetch rc)
        (c.fetchReturn { fetchEnter c.stmt with rawResults := none } .eof).1
        [.fetchReturns .eof none]
  | fetchRow {c : Client N K Row} {rc : SignalRc N}
      (hf : c.fetcher = .idle) (hi : c.init = .done)
      (hd : ∀ d, c.stmt.chunkDownloader = some d → d.hasError = false)
      (h0 : c.stmt.chunkRowcount ≠ 0) :
      Move download pg c (.fetch rc) (c.fetchReturn (fetchRow (fetchEnter c.stmt)) .success).1
        [.fetchReturns .success (fetchRow (fetchEnter c.stmt)).curRow]
  | fetchSleep {c : Client N K Row} {d : ChunkDownloader Row} {rc : SignalRc N} {e : Event N K Row}
      {s : Stmt Row} {i : Nat} {item : QueueItem Row} (hs : InSection c rc d e s i)
      (hq : d.queue[i]? = some item) (hc : item.chunk = none)
      (hn : d.getShutdownOrError = false) :
      Move download pg c e { c with stmt := s, fetcher := .asleep i } []
  | fetchFail {c : Client N K Row} {d : ChunkDownloader Row} {rc : SignalRc N} {e : Event N K Row}
      {s : Stmt Row} {i : Nat} {item : QueueItem Row} (hs : InSection c rc d e s i)
      (hq : d.queue[i]? = some item) (hn : d.getShutdownOrError = true) :
      Move download pg c e (c.fetchReturn s .errorGeneral).1 [.fetchReturns .errorGeneral s.curRow]
  | fetchSignalFail {c : Client N K Row} {d : ChunkDownloader Row} {e : Event N K Row}
      {s : Stmt Row} {i : Nat} {item : QueueItem Row} {chunk : List Row}
      (hs : InSection c .error d e s i) (hq : d.queue[i]? = some item)
      (hc : item.chunk = some chunk) (hn : d.getShutdownOrError = false) :
      Move download pg c e
        (c.fetchReturn { takeChunk s d i item with errorCode := .errorPthread } .errorGeneral).1
        [.chunkTaken i (some chunk), .fetchReturns .errorGeneral s.curRow]
  | fetchTake {c : Client N K Row} {d : ChunkDownloader Row} {w : Option (Fin N)}
      {e : Event N K Row} {s : Stmt Row} {i : Nat} {item : QueueItem Row} {chunk : List Row}
      {producers : Fin N → ProducerPc Row} (hs : InSection c (.ok w) d e s i)
      (hq : d.queue[i]? = some item) (hc : item.chunk = some chunk)
      (hn : d.getShutdownOrError = false)
      (hw : producerCond.signal c.producers w = some producers) :
      Move download pg c e
        ({ c with producers }.fetchReturn (fetchRow (takeChunk s d i item)) .success).1
        [.chunkTaken i (some chunk),
          .fetchReturns .success (fetchRow (takeChunk s d i item)).curRow]
  | termAgain {c : Client N K Row} {d : ChunkDownloader Row} {k : Fin K} {rc : BroadcastRc}
      (hd : c.stmt.chunkDownloader = some d) (hl : c.abandoned = false)
      (hk : c.terms k = .idle) (hi : c.init = .done ∨ c.init = .failed)
      (hs : d.isShutdown = true) : Move download pg c (.term k rc) (c.term d k rc) []
  | term {c : Client N K Row} {d : ChunkDownloader Row} {k : Fin K} {rc : BroadcastRc}
      (hd : c.stmt.chunkDownloader = some d) (hl : c.abandoned = false)
      (hk : c.terms k = .idle) (hi : c.init = .done ∨ c.init = .failed)
      (hs : d.isShutdown = false) : Move download pg c (.term k rc) (c.term d k rc) []
  | join {c : Client N K Row} {d : ChunkDownloader Row} {k : Fin K} {i : Nat}
      (hd : c.stmt.chunkDownloader = some d) (hk : c.terms k = .joining i) (h : i < N)
      (hx : c.producers ⟨i, h⟩ = .exited) (hc : i < d.threadCount) :
      Move download pg c (.join k)
        { c with terms := Function.update c.terms k (.joining (i + 1)) } []
  | free {c : Client N K Row} {d : ChunkDownloader Row} {k : Fin K} {i : Nat}
      (hd : c.stmt.chunkDownloader = some d) (hk : c.terms k = .joining i)
      (hc : d.threadCount ≤ i) :
      Move download pg c (.join k)
        { c with
          stmt := { c.stmt with chunkDownloader := none }
          terms := Function.update c.terms k .returned } []

variable {download : String → List Row} {pg : Bool} {c c' : Client N K Row}
  {e : Event N K Row} {outs : List (Output N Row)}

/-- The wait loop and what comes after it. -/
theorem fetchChunk_move {rc : SignalRc N} {d : ChunkDownloader Row} {s : Stmt Row} {i : Nat}
    (hs : InSection c rc d e s i) (h : c.fetchChunk s d i rc = some (c', outs)) :
    Move download pg c e c' outs := by
  unfold Client.fetchChunk at h
  split at h
  · cases h
  · rename_i item hq
    split at h
    · rename_i hw
      simp only [Bool.and_eq_true, Option.isNone_iff_eq_none, Bool.not_eq_true'] at hw
      cases h
      exact .fetchSleep hs hq hw.1 hw.2
    · rename_i hw
      split at h
      · rename_i he
        cases h
        exact .fetchFail hs hq (by simp [ChunkDownloader.getShutdownOrError, he])
      · rename_i he
        split at h
        · rename_i hsd
          cases h
          exact .fetchFail hs hq (by simp [ChunkDownloader.getShutdownOrError, hsd])
        · rename_i hsd
          have hn : d.getShutdownOrError = false := by
            simp [ChunkDownloader.getShutdownOrError, he, hsd]
          obtain ⟨chunk, hc⟩ : ∃ chunk, item.chunk = some chunk := by
            simp only [hn, Bool.not_false, Bool.and_true] at hw
            exact Option.ne_none_iff_exists'.mp (by simpa using hw)
          rw [hc] at h
          split at h
          · cases h
            exact .fetchSignalFail hs hq hc hn
          · simp only [Option.map_eq_some_iff] at h
            obtain ⟨producers, hsig, h⟩ := h
            cases h
            exact .fetchTake hs hq hc hn hsig

theorem fetch_move {rc : SignalRc N} (hf : c.fetcher = .idle) (hi : c.init = .done)
    (h : c.fetch rc = some (c', outs)) : Move download pg c (.fetch rc) c' outs := by
  unfold Client.fetch at h
  by_cases he : (fetchEnter c.stmt).chunkDownloader.any (·.hasError) = true
  · rw [if_pos he] at h
    cases h
    cases hd : c.stmt.chunkDownloader with
    | none => simp [hd] at he
    | some d => exact .fetchError hf hi hd (by simpa [hd] using he)
  have hne : ∀ d, c.stmt.chunkDownloader = some d → d.hasError = false := fun d hd => by
    simpa [hd] using he
  rw [if_neg he] at h
  by_cases h0 : (fetchEnter c.stmt).chunkRowcount = 0
  · rw [if_pos h0] at h
    split at h
    · rename_i hd
      cases h
      exact .fetchEof hf hi hd h0
    · rename_i d hd
      split at h
      · cases h
      · rename_i hl
        have hl : c.abandoned = false := by simpa using hl
        split at h
        · rename_i hq
          cases h
          exact .fetchEnd hf hi hd (hne d hd) hl h0 hq
        · rename_i hq
          exact fetchChunk_move (.fetch hf hi hd hl h0 (hne d hd) (by omega)) h
  · rw [if_neg h0] at h
    cases h
    exact .fetchRow hf hi hne h0

/-- Every step is a move. -/
theorem step_move (h : (client download pg N K).step c e = some (c', outs)) :
    Move download pg c e c' outs := by
  change c.step download pg e = some (c', outs) at h
  cases e with
  | execute r =>
    simp only [Client.step] at h
    split at h
    · split at h
      · cases h
        exact .execute ‹_› ‹_› ‹_›
      · cases h
    · cases h
  | fetch rc =>
    simp only [Client.step] at h
    split at h
    · exact fetch_move ‹_› ‹_› h
    · cases h
  | spawn =>
    obtain ⟨d, hd, h⟩ := Option.bind_eq_some_iff.mp h
    simp only [Client.stepWith] at h
    split at h
    · split at h
      · cases h
        exact .spawn hd ‹_› ‹_›
      · cases h
    · cases h
  | spawnFail =>
    obtain ⟨d, hd, h⟩ := Option.bind_eq_some_iff.mp h
    simp only [Client.stepWith] at h
    split at h
    · cases h
      exact .spawnFail hd ‹_›
    · cases h
  | countThread =>
    obtain ⟨d, hd, h⟩ := Option.bind_eq_some_iff.mp h
    simp only [Client.stepWith] at h
    split at h
    · cases h
      exact .countThread hd ‹_›
    · cases h
  | check t =>
    obtain ⟨d, hd, h⟩ := Option.bind_eq_some_iff.mp h
    simp only [Client.stepWith] at h
    split at h
    · cases h
    · rename_i hl
      have hl : c.abandoned = false := by simpa using hl
      have key : (c.producers t).AtCheck → some (c.check d t) = some (c', outs) →
          Move download pg c (.check t) c' outs := by
        intro hp h
        simp only [Client.check] at h
        split at h
        · cases h
          exact .sleep hd hl hp ‹_›
        · rename_i hw
          have hw : d.producerWaits = false := by simpa using hw
          split at h
          · cases h
            exact .leave hd hl hp hw ‹_›
          · rename_i hs
            cases h
            exact .take hd hl hp hw (by simpa using hs)
      split at h
      · exact key (.inl ‹_›) h
      · exact key (.inr ‹_›) h
      · cases h
  | downloadOk t =>
    obtain ⟨d, hd, h⟩ := Option.bind_eq_some_iff.mp h
    simp only [Client.stepWith] at h
    split at h
    · obtain ⟨item, hq, h⟩ := Option.map_eq_some_iff.mp h
      cases h
      exact .downloadOk hd ‹_› hq
    · cases h
  | downloadFail t err =>
    obtain ⟨d, hd, h⟩ := Option.bind_eq_some_iff.mp h
    simp only [Client.stepWith] at h
    split at h
    · cases h
      exact .downloadFail hd ‹_›
    · cases h
  | post t b =>
    obtain ⟨d, hd, h⟩ := Option.bind_eq_some_iff.mp h
    simp only [Client.stepWith] at h
    split at h
    · cases h
    · rename_i hl
      have hl : c.abandoned = false := by simpa using hl
      split at h
      · rename_i i chunk hp
        simp only [Client.post] at h
        split at h
        · cases h
          exact .postLate hd hl hp ‹_›
        · rename_i he
          have he : d.hasError = false := by simpa using he
          cases b with
          | true => cases h; exact .post hd hl hp he
          | false => cases h; exact .postFail hd hl hp he
      · cases h
  | wakeProducer t =>
    obtain ⟨d, hd, h⟩ := Option.bind_eq_some_iff.mp h
    obtain ⟨producers, hsig, h⟩ := Option.map_eq_some_iff.mp h
    cases h
    obtain ⟨u, hu, ha, rfl⟩ | ⟨hu, -⟩ := CondVar.signal_cases hsig
    · cases hu
      refine .wakeProducer hd ?_
      cases hp : c.producers t <;> simp_all [producerCond]
    · cases hu
  | wakeFetcher =>
    obtain ⟨d, hd, h⟩ := Option.bind_eq_some_iff.mp h
    simp only [Client.stepWith] at h
    split at h
    · cases h
      exact .wakeFetcher hd ‹_›
    · cases h
  | resume rc =>
    obtain ⟨d, hd, h⟩ := Option.bind_eq_some_iff.mp h
    simp only [Client.stepWith] at h
    split at h
    · rename_i hf
      split at h
      · cases h
      · rename_i hl
        exact fetchChunk_move (.resume hf hd (by simpa using hl)) h
    · cases h
  | term k rc =>
    obtain ⟨d, hd, h⟩ := Option.bind_eq_some_iff.mp h
    simp only [Client.stepWith] at h
    split at h
    · cases h
    · rename_i hl
      have hl : c.abandoned = false := by simpa using hl
      have key : c.terms k = .idle → c.init = .done ∨ c.init = .failed →
          Move download pg c (.term k rc) (c.term d k rc) [] := by
        intro hk hi
        cases hs : d.isShutdown with
        | true => exact .termAgain hd hl hk hi hs
        | false => exact .term hd hl hk hi hs
      split at h
      · cases h; exact key ‹_› (.inl ‹_›)
      · cases h; exact key ‹_› (.inr ‹_›)
      · cases h
  | join k =>
    obtain ⟨d, hd, h⟩ := Option.bind_eq_some_iff.mp h
    simp only [Client.stepWith] at h
    split at h
    · rename_i i hk
      obtain ⟨c₁, hj, h⟩ := Option.map_eq_some_iff.mp h
      cases h
      simp only [Client.join] at hj
      split at hj
      · split at hj
        · split at hj
          · cases hj
            exact .join hd hk ‹_› ‹_› ‹_›
          · cases hj
        · cases hj
      · cases hj
        exact .free hd hk (by omega)
    · cases h

/-- `snowflake_execute` runs only between fetches. -/
theorem step_execute {r : Reply Row}
    (h : (client download pg N K).step c (.execute r) = some (c', outs)) :
    c.fetcher = .idle ∧ c.init = .done ∧ c' = c.execute pg r ∧ outs = [.executed r] := by
  cases step_move h with
  | execute hf hi ht => exact ⟨hf, hi, rfl, rfl⟩
  | fetchSleep hs | fetchFail hs | fetchSignalFail hs | fetchTake hs => cases hs

end Snowflake
