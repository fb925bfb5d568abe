import SnowflakeClient.Chunks.Wakeup
import SnowflakeClient.Conc.Count

/-!
# A fetch returns

Without failures every call of `snowflake_fetch` returns, whatever the schedule: each step of the
threads, but for spurious wake-ups, makes `Client.work` smaller, and as long as a fetch waits some
thread can make a step (`PlainInv.inevitable`).
-/

namespace Snowflake

open CInt Conc

variable {N K : Nat} {Row : Type} {download : String → List Row} {pg : Bool}
  {c c' : Client N K Row} {d : ChunkDownloader Row} {e : Event N K Row}
  {outs : List (Output N Row)}

/-! ## Undisturbed runs -/

/-- A failure, a shutdown, or another `snowflake_execute`. -/
def Event.disturbs : Event N K Row → Bool
  | .execute _ | .spawnFail => true
  | e => e.fails

/-- The fetches and downloads of one result set, all of which go well. -/
def Plain (_ : Client N K Row) (e : Event N K Row) : Prop := e.disturbs = false

/-- A plain step that is not a spurious wake-up. -/
def Work (c : Client N K Row) : Event N K Row → Prop
  | .wakeProducer _ | .wakeFetcher => False
  | e => Plain c e

theorem Plain.calm (h : Plain c e) : Calm c e := by
  cases e <;> first | exact h | cases h

theorem Plain.noExecute (h : Plain c e) : NoExecute c e := by
  cases e <;> first | rfl | cases h

theorem Work.plain (h : Work c e) : Plain c e := by
  cases e <;> first | exact h | cases h

/-- The invariants of a plain run. -/
structure PlainInv (download : String → List Row) (c : Client N K Row) : Prop
    extends CalmInv download c where
  creating : c.init ≠ .done → ∃ d, c.stmt.chunkDownloader = some d
  created : c.init ≠ .failed

theorem Move.plainInv (hN2 : 2 ≤ N) (hN : N < 2 ^ 64) (hm : Move download pg c e c' outs)
    (hc : Plain c e) (h : PlainInv download c) : PlainInv download c' := by
  refine ⟨hm.calmInv hN2 hN hc.calm h.toCalmInv, ?_, ?_⟩
  · cases hm with
    | execute | spawnFail | downloadFail | postFail | termAgain | term => cases hc
    | spawn hd hi hlt => exact fun _ => ⟨_, hd⟩
    | countThread | take | post | fetchTake => exact fun _ => ⟨_, rfl⟩
    | fetchSleep hs' =>
      obtain ⟨-, hd', -⟩ := hs'.spec h.inv
      exact fun _ => ⟨_, hd'⟩
    | fetchFail hs' =>
      obtain ⟨-, hd', -⟩ := hs'.spec h.inv
      exact fun _ => ⟨_, hd'⟩
    | fetchSignalFail hs' => cases hs' <;> cases hc
    | free hd hk hcount => rw [h.quiet.terms] at hk; cases hk
    | _ => exact h.creating
  · cases hm with
    | execute | spawnFail | downloadFail | postFail | termAgain | term => cases hc
    | spawn => exact nofun
    | countThread =>
      show (if _ then _ else _) ≠ InitPc.failed
      split <;> exact nofun
    | _ => exact h.created

/-! ## The measure -/

def ProducerPc.work : ProducerPc Row → Nat
  | .downloading _ => 5
  | .downloaded _ _ => 4
  | .ready | .notified => 1
  | .absent | .asleep | .exited => 0

def FetcherPc.work : FetcherPc → Nat
  | .notified _ => 2
  | _ => 0

/-- With `N` threads to create. -/
def InitPc.work (N : Nat) : InitPc → Nat
  | .create i => 4 * (N - i)
  | .count i => 4 * (N - i) - 2
  | _ => 0

/-- The indices that nobody took. -/
def Stmt.work (s : Stmt Row) : Nat :=
  match s.chunkDownloader with
  | some d => 5 * (d.queueSize - d.producerHead)
  | none => 0

/-- What the threads still have to do until a fetch returns. -/
def Client.work (c : Client N K Row) : Nat :=
  c.stmt.work + total ProducerPc.work c.producers + c.fetcher.work + c.init.work N

theorem Stmt.work_some {s : Stmt Row} (h : s.chunkDownloader = some d) :
    s.work = 5 * (d.queueSize - d.producerHead) := by
  simp [Stmt.work, h]

theorem ProducerPc.AtCheck.work_eq {p : ProducerPc Row} (h : p.AtCheck) : p.work = 1 := by
  rcases h with rfl | rfl <;> rfl

theorem FetcherPc.work_notify (f : FetcherPc) : f.notify.work ≤ f.work + 2 := by
  cases f <;> simp [FetcherPc.notify, FetcherPc.work]

/-- A signal adds at most one awake producer. -/
theorem work_signal {p p' : Fin N → ProducerPc Row} {w : Option (Fin N)}
    (h : producerCond.signal p w = some p') :
    total ProducerPc.work p' ≤ total ProducerPc.work p + 1 := by
  obtain ⟨t, -, -, rfl⟩ | ⟨-, -, rfl⟩ := CondVar.signal_cases h
  · have htotal := total_update ProducerPc.work p t (producerCond.wake (p t))
    have hone : (producerCond.wake (p t)).work = 1 := rfl
    omega
  · omega

/-- The threads are created and no fetch waits. -/
def Settled (c : Client N K Row) : Prop := c.init = .done ∧ c.fetcher = .idle

theorem InSection.notified {rc : SignalRc N} {s : Stmt Row} {i : Nat}
    (h : InSection c rc d e s i) (hn : ¬ Settled c) :
    c.fetcher = .notified i ∧ s = c.stmt ∧ e = .resume rc := by
  cases h with
  | fetch hf hi => exact absurd ⟨hi, hf⟩ hn
  | resume hf => exact ⟨hf, rfl, rfl⟩

/-- Every step that is not a spurious wake-up brings the waiting fetch nearer to its return. -/
theorem Move.work_lt (hm : Move download false c e c' outs) (hc : Work c e)
    (h : PlainInv download c) (hn : ¬ Settled c) : c'.work < c.work := by
  cases hm with
  | execute | spawnFail | downloadFail | postFail | termAgain | term | wakeProducer
  | wakeFetcher => cases hc
  | spawn hd hi hlt =>
    rename_i d i
    have hinit := (h.inv d hd).init
    rw [hi] at hinit
    have habs := (hinit.2.2 ⟨i, hlt⟩).mpr (Nat.le_refl _)
    have htotal := total_update ProducerPc.work c.producers ⟨i, hlt⟩ .ready
    simp only [habs, ProducerPc.work] at htotal
    simp only [Client.work, setProducer_stmt, setProducer_producers, setProducer_fetcher, hi,
      InitPc.work]
    omega
  | countThread hd hi =>
    rename_i d i
    have hinit := (h.inv d hd).init
    rw [hi] at hinit
    have hlt : i < N := hinit.1
    have hnext : (if i + 1 < N then InitPc.create (i + 1) else .done).work N <
        (InitPc.count i).work N := by
      split
      · simp only [InitPc.work]; omega
      · simp only [InitPc.work]; omega
    simp only [Client.work, setDownloader_producers, setDownloader_fetcher, hi, Stmt.work_some hd,
      Stmt.work_some (setDownloader_downloader ..)]
    omega
  | sleep hd hl hp hw =>
    rename_i d t
    have htotal := total_update ProducerPc.work c.producers t .asleep
    rw [hp.work_eq] at htotal
    simp only [ProducerPc.work] at htotal
    simp only [Client.work, setProducer_stmt, setProducer_producers, setProducer_fetcher,
      setProducer_init]
    omega
  | leave hd hl hp hw hs =>
    rename_i d t
    have htotal := total_update ProducerPc.work c.producers t .exited
    rw [hp.work_eq] at htotal
    simp only [ProducerPc.work] at htotal
    simp only [Client.work, setProducer_stmt, setProducer_producers, setProducer_fetcher,
      setProducer_init]
    omega
  | take hd hl hp hw hs =>
    rename_i d t
    have htotal := total_update ProducerPc.work c.producers t (.downloading d.producerHead)
    rw [hp.work_eq] at htotal
    simp only [ProducerPc.work] at htotal
    simp only [ChunkDownloader.producerStops, Bool.or_eq_false_iff, decide_eq_false_iff_not,
      Nat.not_le] at hs
    have hinc := incU64_of_lt hs.2 (h.inv _ hd).queue.size_lt
    simp only [Client.work, setProducer_stmt, setProducer_producers, setProducer_fetcher,
      setProducer_init, setDownloader_producers, setDownloader_fetcher, setDownloader_init,
      Stmt.work_some hd, Stmt.work_some (setDownloader_downloader ..), hinc]
    omega
  | downloadOk hd hp hq =>
    rename_i d t i item
    have htotal := total_update ProducerPc.work c.producers t (.downloaded i (download item.url))
    simp only [hp, ProducerPc.work] at htotal
    simp only [Client.work, setProducer_stmt, setProducer_producers, setProducer_fetcher,
      setProducer_init]
    omega
  | postLate hd hl hp he =>
    rename_i d t i chunk b
    have htotal := total_update ProducerPc.work c.producers t .exited
    simp only [hp, ProducerPc.work] at htotal
    simp only [Client.work, setProducer_stmt, setProducer_producers, setProducer_fetcher,
      setProducer_init]
    omega
  | post hd hl hp he =>
    rename_i d t i chunk
    have htotal := total_update ProducerPc.work c.producers t .ready
    simp only [hp, ProducerPc.work] at htotal
    have hnotify := c.fetcher.work_notify
    simp only [Client.work, setProducer_stmt, setProducer_producers, setProducer_fetcher,
      setProducer_init, setDownloader_producers, setDownloader_init,
      Stmt.work_some hd, Stmt.work_some (setDownloader_downloader ..), setChunk_queueSize,
      setChunk_producerHead]
    omega
  | fetchError hf hi => exact absurd ⟨hi, hf⟩ hn
  | fetchEof hf hi => exact absurd ⟨hi, hf⟩ hn
  | fetchEnd hf hi => exact absurd ⟨hi, hf⟩ hn
  | fetchRow hf hi => exact absurd ⟨hi, hf⟩ hn
  | fetchSleep hs hq hc' hn' =>
    obtain ⟨hf, rfl, -⟩ := hs.notified hn
    simp only [Client.work, hf, FetcherPc.work]
    omega
  | fetchFail hs hq hn' =>
    obtain ⟨hf, rfl, -⟩ := hs.notified hn
    simp only [Client.work, Client.fetchReturn, hf, FetcherPc.work]
    omega
  | fetchSignalFail hs hq hc' hn' => cases hs <;> cases hc
  | fetchTake hs hq hc' hn' hw =>
    obtain ⟨hd, -⟩ := hs.spec h.inv
    obtain ⟨hf, rfl, -⟩ := hs.notified hn
    have hsignal := work_signal hw
    simp only [Client.work, Client.fetchReturn, hf, FetcherPc.work, Stmt.work_some hd,
      Stmt.work_some (fetchRow_downloader _ ▸ takeChunk_downloader ..), setChunk_queueSize,
      setChunk_producerHead]
    omega
  | join hd hk => rw [h.quiet.terms] at hk; cases hk
  | free hd hk => rw [h.quiet.terms] at hk; cases hk

/-! ## Some thread can go on -/

section Enabled

variable (download) {t : Fin N} {i : Nat} {chunk : List Row} {item : QueueItem Row}

theorem step_check (hd : c.stmt.chunkDownloader = some d) (hl : c.abandoned = false)
    (ht : (c.producers t).AtCheck) :
    ∃ c' outs, (client download false N K).step c (.check t) = some (c', outs) := by
  refine ⟨(c.check d t).1, (c.check d t).2, ?_⟩
  rcases ht with ht | ht <;> simp [client, Client.step, Client.stepWith, hd, hl, ht]

theorem step_downloadOk (hd : c.stmt.chunkDownloader = some d)
    (ht : c.producers t = .downloading i) (hq : d.queue[i]? = some item) :
    ∃ c' outs, (client download false N K).step c (.downloadOk t) = some (c', outs) := by
  refine ⟨c.setProducer t (.downloaded i (download item.url)), [], ?_⟩
  simp [client, Client.step, Client.stepWith, hd, ht, hq]

theorem step_post (hd : c.stmt.chunkDownloader = some d) (hl : c.abandoned = false)
    (ht : c.producers t = .downloaded i chunk) :
    ∃ c' outs, (client download false N K).step c (.post t true) = some (c', outs) := by
  refine ⟨c.post d t i chunk true, [], ?_⟩
  simp [client, Client.step, Client.stepWith, hd, hl, ht]

/-- The fetching thread gets through its wait loop, or to sleep. -/
theorem exists_fetchChunk {s : Stmt Row} (hq : d.queue[i]? = some item) {w : Option (Fin N)}
    {p : Fin N → ProducerPc Row} (hw : producerCond.signal c.producers w = some p) :
    ∃ r, c.fetchChunk s d i (.ok w) = some r := by
  unfold Client.fetchChunk
  simp only [hq, hw, Option.map_some]
  split
  · exact ⟨_, rfl⟩
  · split
    · exact ⟨_, rfl⟩
    · split <;> exact ⟨_, rfl⟩

theorem step_resume (hd : c.stmt.chunkDownloader = some d) (hl : c.abandoned = false)
    (hf : c.fetcher = .notified i) (hq : d.queue[i]? = some item) :
    ∃ w c' outs, (client download false N K).step c (.resume (.ok w)) = some (c', outs) := by
  obtain ⟨w, p, hw⟩ := producerCond.exists_signal c.producers
  obtain ⟨⟨c', outs⟩, hr⟩ := exists_fetchChunk (s := c.stmt) hq hw
  refine ⟨w, c', outs, ?_⟩
  simp [client, Client.step, Client.stepWith, hd, hl, hf, hr]

end Enabled

/-- As long as the threads are created, or a fetch waits, some thread can make a step that is not
a spurious wake-up. -/
theorem PlainInv.exists_work (h : PlainInv download c) (hn : ¬ Settled c) :
    ∃ e c' outs, Work c e ∧ (client download false N K).step c e = some (c', outs) := by
  by_cases hdone : c.init = .done
  · have hf : c.fetcher ≠ .idle := fun hf => hn ⟨hdone, hf⟩
    obtain ⟨d, hd⟩ := h.quiet.attached hf
    have hinv := h.inv d hd
    have hl := h.quiet.abandoned
    cases hfetch : c.fetcher with
    | idle => exact absurd hfetch hf
    | notified i =>
      obtain ⟨item, hq⟩ := hinv.queue.item (hinv.sleeper i (by rw [hfetch]; rfl)).2.1
      obtain ⟨w, c', outs, hs⟩ := step_resume download hd hl hfetch hq
      exact ⟨.resume (.ok w), c', outs, rfl, hs⟩
    | asleep i =>
      obtain ⟨t, ht | ⟨j, ht⟩⟩ := h.exists_active hfetch
      · obtain ⟨c', outs, hs⟩ := step_check download hd hl ht
        exact ⟨.check t, c', outs, rfl, hs⟩
      · have hlt := Nat.lt_of_lt_of_le (hinv.queue.held t j ht).2.1 hinv.queue.head_le
        obtain ⟨item, hq⟩ := hinv.queue.item hlt
        cases hp : c.producers t with
        | downloading j' =>
          rw [hp] at ht
          cases ht
          obtain ⟨c', outs, hs⟩ := step_downloadOk download hd hp hq
          exact ⟨.downloadOk t, c', outs, rfl, hs⟩
        | downloaded j' chunk =>
          obtain ⟨c', outs, hs⟩ := step_post download hd hl hp
          exact ⟨.post t true, c', outs, rfl, hs⟩
        | _ => rw [hp] at ht; cases ht
  · obtain ⟨d, hd⟩ := h.creating hdone
    have hinit := (h.inv d hd).init
    cases hi : c.init with
    | create i =>
      rw [hi] at hinit
      exact ⟨.spawn, _, [], rfl, by
        simp [client, Client.step, Client.stepWith, hd, hi, hinit.1]; rfl⟩
    | count i =>
      exact ⟨.countThread, _, [], rfl, by simp [client, Client.step, Client.stepWith, hd, hi]; rfl⟩
    | done => exact absurd hi hdone
    | failed => exact absurd hi h.created

/-- In a plain run the threads get created and every fetch returns, under every schedule. -/
theorem PlainInv.inevitable (hN2 : 2 ≤ N) (hN : N < 2 ^ 64) (h : PlainInv download c) :
    (client download false N K).Inevitable Work Settled c :=
  Machine.inevitable_of_measure (I := PlainInv download) Client.work
    (fun _ _ _ _ hi hn hc hs =>
      ⟨(step_move hs).plainInv hN2 hN hc.plain hi, (step_move hs).work_lt hc hi hn⟩)
    (fun _ hi hn => hi.exists_work hn) c h

end Snowflake
