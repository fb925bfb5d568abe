import SnowflakeClient.Chunks.Queue

/-!
# Wake-ups

Does the fetching thread sleep for ever in `snowflake_fetch`?

* `SupplyInv`: while no failure is recorded, every chunk between the heads is in its slot or with
  a producer, no producer left before the queue was empty, and the fetching thread sleeps only
  for an empty slot. It holds in every run (`Move.supplied`).
* A producer that fails records the error and leaves without a signal: a fetching thread that
  sleeps at that moment keeps sleeping (`fetcher_stranded`). A failure at any other moment does
  no harm (`not_stranded_of_awake`).
* `WakeInv`: without failures, and with two threads or more, a producer is awake whenever the
  queue has nothing for the fetching thread (`not_deadlocked`). With one thread this would fail:
  thread 0 may run before `thread_count` is 1, and then sleeps.
-/

namespace Snowflake

open CInt Conc

variable {N K : Nat} {Row : Type} {download : String → List Row} {pg : Bool}
  {c c' : Client N K Row} {d : ChunkDownloader Row} {e : Event N K Row}
  {outs : List (Output N Row)}

/-! ## No chunk is lost -/

/-- The queue, the producers and the fetching thread while no failure is recorded
(module doc). -/
structure SupplyInv (d : ChunkDownloader Row) (p : Fin N → ProducerPc Row) (f : FetcherPc) :
    Prop where
  exited : ∀ t, p t = .exited → d.queueSize ≤ d.producerHead
  pending : ∀ i, d.consumerHead ≤ i → i < d.producerHead →
    (∃ item chunk, d.queue[i]? = some item ∧ item.chunk = some chunk) ∨
      ∃ t, (p t).index? = some i
  slot : ∀ i item, f = .asleep i → d.queue[i]? = some item → item.chunk = none

namespace SupplyInv

variable {p p' : Fin N → ProducerPc Row} {f f' : FetcherPc} {t : Fin N} {i : Nat}
  {item : QueueItem Row} {chunk : List Row}

/-- Threads that keep their indices and do not leave. -/
theorem producers (h : SupplyInv d p f) (hi : ∀ t, (p' t).index? = (p t).index?)
    (hx : ∀ t, p' t = .exited → p t = .exited ∨ d.queueSize ≤ d.producerHead) :
    SupplyInv d p' f where
  exited t ht := (hx t ht).elim (h.exited t) id
  pending i h1 h2 := by
    refine (h.pending i h1 h2).imp_right ?_
    rintro ⟨t, ht⟩
    exact ⟨t, by rw [hi t, ht]⟩
  slot := h.slot

theorem setProducer (h : SupplyInv d p f) {pc : ProducerPc Row} (hi : pc.index? = (p t).index?)
    (hx : pc = .exited → d.queueSize ≤ d.producerHead) :
    SupplyInv d (Function.update p t pc) f := by
  refine h.producers (fun u => ?_) fun u hu => ?_
  · by_cases hut : u = t
    · subst hut; rw [Function.update_self, hi]
    · rw [Function.update_of_ne hut]
  · by_cases hut : u = t
    · subst hut; rw [Function.update_self] at hu; exact .inr (hx hu)
    · rw [Function.update_of_ne hut] at hu; exact .inl hu

theorem signal (h : SupplyInv d p f) {w : Option (Fin N)}
    (hs : producerCond.signal p w = some p') : SupplyInv d p' f := by
  refine h.producers (fun t => ?_) fun t ht => ?_ <;>
    rcases CondVar.signal_thread hs t with hst | ⟨ha, hst⟩
  · rw [hst]
  · rw [hst]
    cases hp : p t <;> simp [hp, producerCond] at ha
    rfl
  · exact .inl (hst ▸ ht)
  · rw [hst] at ht; cases ht

theorem fetcher (h : SupplyInv d p f) (hf : ∀ i, f' ≠ .asleep i) : SupplyInv d p f' :=
  ⟨h.exited, h.pending, fun i _ hi => absurd hi (hf i)⟩

/-- A producer takes the index at the producers' head. -/
theorem take (h : SupplyInv d p f) (hinc : incU64 d.producerHead = d.producerHead + 1)
    (ht : (p t).index? = none) :
    SupplyInv { d with producerHead := incU64 d.producerHead }
      (Function.update p t (.downloading d.producerHead)) f := by
  refine ⟨fun u hu => ?_, fun i h1 h2 => ?_, h.slot⟩
  · have hut : u ≠ t := by
      rintro rfl
      rw [Function.update_self] at hu
      cases hu
    rw [Function.update_of_ne hut] at hu
    have := h.exited u hu
    show d.queueSize ≤ incU64 d.producerHead
    omega
  · change i < incU64 d.producerHead at h2
    by_cases hi : i = d.producerHead
    · exact .inr ⟨t, by rw [Function.update_self, hi]; rfl⟩
    · refine (h.pending i h1 (by omega)).imp_right ?_
      rintro ⟨u, hu⟩
      have hut : u ≠ t := by
        rintro rfl
        rw [ht] at hu
        cases hu
      exact ⟨u, by rw [Function.update_of_ne hut, hu]⟩

/-- A producer stores its chunk and signals. -/
theorem post (h : SupplyInv d p f) (hp : p t = .downloaded i chunk)
    (hq : d.queue[i]? = some item) :
    SupplyInv (d.setChunk i (some chunk)) (Function.update p t .ready) f.notify := by
  refine ⟨fun u hu => ?_, fun j h1 h2 => ?_, fun j item' hj => ?_⟩
  · have hut : u ≠ t := by
      rintro rfl
      rw [Function.update_self] at hu
      cases hu
    rw [Function.update_of_ne hut] at hu
    exact h.exited u hu
  · by_cases hij : i = j
    · subst hij
      exact .inl ⟨_, chunk, setChunk_self hq, rfl⟩
    · rw [setChunk_of_ne hij]
      refine (h.pending j h1 h2).imp_right ?_
      rintro ⟨u, hu⟩
      have hut : u ≠ t := by
        rintro rfl
        rw [hp] at hu
        cases hu
        exact hij rfl
      exact ⟨u, by rw [Function.update_of_ne hut, hu]⟩
  · exact absurd hj (f.notify_awake j)

/-- The fetching thread takes the chunk at its head and returns. -/
theorem takeChunk (h : SupplyInv d p f) (hinc : incU64 d.consumerHead = d.consumerHead + 1) :
    SupplyInv ({ d with consumerHead := incU64 d.consumerHead }.setChunk d.consumerHead none) p
      .idle := by
  refine ⟨h.exited, fun j h1 h2 => ?_, nofun⟩
  change incU64 d.consumerHead ≤ j at h1
  rw [setChunk_of_ne (by omega)]
  exact h.pending j (by omega) h2

end SupplyInv

/-- `SupplyInv`, as long as no failure is recorded. -/
def Supplied (c : Client N K Row) : Prop :=
  ∀ d, c.stmt.chunkDownloader = some d → d.getShutdownOrError = false →
    SupplyInv d c.producers c.fetcher

theorem Supplied.of_some (hd : c.stmt.chunkDownloader = some d)
    (h : d.getShutdownOrError = false → SupplyInv d c.producers c.fetcher) : Supplied c := by
  intro d' hd'
  rw [hd] at hd'
  cases hd'
  exact h

theorem Supplied.of_none (hd : c.stmt.chunkDownloader = none) : Supplied c := by
  intro d hd'
  rw [hd] at hd'
  cases hd'

theorem Supplied.prepared : Supplied (Client.prepared : Client N K Row) := .of_none rfl

theorem QueueInv.item {p : Fin N → ProducerPc Row} (h : QueueInv download d p) {i : Nat}
    (hi : i < d.queueSize) : ∃ item, d.queue[i]? = some item :=
  have hlt : i < d.queue.length := h.size ▸ hi
  ⟨_, List.getElem?_eq_getElem hlt⟩

/-- Every move keeps `Supplied`: it needs no condition on the run. -/
theorem Move.supplied (hm : Move download pg c e c' outs) (hinv : ClientInv download c)
    (h : Supplied c) : Supplied c' := by
  cases hm with
  | execute hf hi ht =>
    rename_i r
    rcases execute_cases pg c r with ⟨-, -, hd | ⟨d, hd, hfr, -, hp⟩⟩ | ⟨-, hd, -, hp⟩
    · exact .of_none hd
    · refine .of_some hd fun _ => ⟨fun t ht => ?_, fun i _ h2 => ?_, fun i item hfi => ?_⟩
      · rw [hp t] at ht; cases ht
      · rw [hfr.producerHead] at h2; omega
      · rw [execute_fetcher, hf] at hfi; cases hfi
    · intro d hd' hn
      rw [hp, execute_fetcher]
      exact h d (hd ▸ hd') hn
  | spawn hd hi hlt =>
    rename_i d i
    have hinit := (hinv d hd).init
    rw [hi] at hinit
    have habs := (hinit.2.2 ⟨i, hlt⟩).mpr (Nat.le_refl _)
    exact .of_some hd fun hn => (h d hd hn).setProducer (by rw [habs]; rfl) (by rintro ⟨⟩)
  | spawnFail hd hi => exact .of_some hd (h _ hd)
  | countThread hd hi =>
    exact .of_some rfl fun hn => ⟨(h _ hd hn).exited, (h _ hd hn).pending, (h _ hd hn).slot⟩
  | sleep hd hl hp hw =>
    exact .of_some hd fun hn => (h _ hd hn).setProducer (by rw [hp.index?_eq]; rfl) (by rintro ⟨⟩)
  | leave hd hl hp hw hs =>
    refine .of_some hd fun hn => (h _ hd hn).setProducer (by rw [hp.index?_eq]; rfl) fun _ => ?_
    simpa [ChunkDownloader.producerStops, hn] using hs
  | take hd hl hp hw hs =>
    simp only [ChunkDownloader.producerStops, Bool.or_eq_false_iff, decide_eq_false_iff_not,
      Nat.not_le] at hs
    have hinc := incU64_of_lt hs.2 (hinv _ hd).queue.size_lt
    exact .of_some rfl fun hn => (h _ hd hn).take hinc hp.index?_eq
  | downloadOk hd hp hq =>
    exact .of_some hd fun hn => (h _ hd hn).setProducer (by rw [hp]; rfl) (by rintro ⟨⟩)
  | downloadFail hd hp =>
    refine .of_some (recordError_downloader ..) fun hn => ?_
    simp [ChunkDownloader.getShutdownOrError] at hn
  | postLate hd hl hp he =>
    refine .of_some hd fun hn => ?_
    simp [ChunkDownloader.getShutdownOrError, he] at hn
  | post hd hl hp he =>
    rename_i d t i chunk
    have hq := (hinv d hd).queue
    obtain ⟨item, hitem⟩ := hq.item
      (Nat.lt_of_lt_of_le (hq.held t i (by rw [hp]; rfl)).2.1 hq.head_le)
    exact .of_some rfl fun hn => (h d hd hn).post hp hitem
  | postFail hd hl hp he =>
    refine .of_some (recordError_downloader ..) fun hn => ?_
    simp [ChunkDownloader.getShutdownOrError] at hn
  | wakeProducer hd hp =>
    exact .of_some hd fun hn => (h _ hd hn).setProducer (by rw [hp]; rfl) (by rintro ⟨⟩)
  | wakeFetcher hd hf => exact .of_some hd fun hn => (h _ hd hn).fetcher (by rintro _ ⟨⟩)
  | fetchError hf hi hd he => exact .of_some hd fun hn => (h _ hd hn).fetcher (by rintro _ ⟨⟩)
  | fetchEof hf hi hd h0 => exact .of_none hd
  | fetchEnd hf hi hd he hl h0 hq =>
    exact .of_some hd fun hn => (h _ hd hn).fetcher (by rintro _ ⟨⟩)
  | fetchRow hf hi hd h0 => exact fun d hd' hn => (h d hd' hn).fetcher (by rintro _ ⟨⟩)
  | fetchSleep hs hq hc hn =>
    obtain ⟨hd, hd', -⟩ := hs.spec hinv
    refine .of_some hd' fun hn =>
      ⟨(h _ hd hn).exited, (h _ hd hn).pending, fun j item' hj hq' => ?_⟩
    cases hj
    rw [hq] at hq'
    cases hq'
    exact hc
  | fetchFail hs hq hn =>
    obtain ⟨hd, hd', -⟩ := hs.spec hinv
    exact .of_some hd' fun hn => (h _ hd hn).fetcher (by rintro _ ⟨⟩)
  | fetchSignalFail hs hq hc hn =>
    obtain ⟨hd, -, rfl, hlt, -, hi⟩ := hs.spec hinv
    exact .of_some rfl fun hn => (h _ hd hn).takeChunk (incU64_of_lt hlt hi.queue.size_lt)
  | fetchTake hs hq hc hn hw =>
    obtain ⟨hd, -, rfl, hlt, -, hi⟩ := hs.spec hinv
    exact .of_some rfl fun hn =>
      ((h _ hd hn).takeChunk (incU64_of_lt hlt hi.queue.size_lt)).signal hw
  | termAgain hd hl hk hi hs =>
    simp only [Client.term, hs, ↓reduceIte]
    exact .of_some hd (h _ hd)
  | term hd hl hk hi hs =>
    rename_i d k rc
    simp only [Client.term, hs, Bool.false_eq_true, ↓reduceIte]
    cases rc with
    | ok => exact .of_some rfl fun hn => by cases hn
    | consumerFails => exact .of_some (recordError_downloader ..) fun hn => by cases hn
    | producerFails => exact .of_some (recordError_downloader ..) fun hn => by cases hn
  | join hd hk hlt hx hc => exact .of_some hd (h _ hd)
  | free hd hk hc => exact .of_none rfl

/-- While no failure is recorded, a sleeping fetching thread has a producer to wait for. -/
theorem exists_unfinished (hinv : ClientInv download c) (h : Supplied c)
    (hd : c.stmt.chunkDownloader = some d) (hn : d.getShutdownOrError = false) {i : Nat}
    (hf : c.fetcher = .asleep i) : ∃ t, c.producers t ≠ .absent ∧ c.producers t ≠ .exited := by
  have hi := hinv d hd
  have hs := h d hd hn
  obtain ⟨rfl, hlt, hinit⟩ := hi.sleeper i (by rw [hf]; rfl)
  have hcount := hi.init
  rw [hinit] at hcount
  by_cases hhead : d.consumerHead < d.producerHead
  · -- The chunk is not in its slot, so a producer has it.
    rcases hs.pending _ (Nat.le_refl _) hhead with ⟨item, chunk, hq, hc⟩ | ⟨t, ht⟩
    · rw [hs.slot _ item hf hq] at hc
      cases hc
    · refine ⟨t, hcount.2.2 t, fun hx => ?_⟩
      rw [hx] at ht
      cases ht
  · -- Nobody took the chunk, so nobody left. There is a thread, as there is a downloader.
    exact ⟨⟨0, hcount.1⟩, hcount.2.2 _, fun hx => absurd (hs.exited _ hx) (by omega)⟩

/-! ## Failures -/

/-- The producer left its loop, or was never created. -/
def ProducerPc.hasLeft : ProducerPc Row → Bool
  | .absent | .exited => true
  | _ => false

def FetcherPc.isAsleep : FetcherPc → Bool
  | .asleep _ => true
  | _ => false

theorem FetcherPc.isAsleep_iff {f : FetcherPc} : f.isAsleep = true ↔ ∃ i, f = .asleep i := by
  cases f <;> simp [FetcherPc.isAsleep]

/-- A failure or a shutdown is recorded, every producer left its loop, and the fetching thread
sleeps un-notified. -/
def Stranded (c : Client N K Row) : Prop :=
  ∃ d ∈ c.stmt.chunkDownloader, (d.hasError = true ∨ d.isShutdown = true) ∧
    (∀ t, (c.producers t).hasLeft = true) ∧ c.fetcher.isAsleep = true

instance (c : Client N K Row) : Decidable (Stranded c) :=
  inferInstanceAs (Decidable (∃ d ∈ c.stmt.chunkDownloader, _ ∧ _ ∧ _))

/-- A producer's download or its signal fails. -/
def Event.producerFails : Event N K Row → Bool
  | .downloadFail _ _ | .post _ false => true
  | _ => false

/-- No producer fails while the fetching thread sleeps un-notified. -/
def FailsAwake (c : Client N K Row) (e : Event N K Row) : Prop :=
  e.producerFails = true → c.fetcher.isAsleep = false

instance (c : Client N K Row) (e : Event N K Row) : Decidable (FailsAwake c e) :=
  inferInstanceAs (Decidable (_ → _))

theorem FailsAwake.awake (h : FailsAwake c e) (he : e.producerFails = true) (i : Nat) :
    c.fetcher ≠ .asleep i := by
  intro hf
  have hawake := h he
  rw [hf] at hawake
  cases hawake

/-- If the fetching thread sleeps although a failure is recorded, then the lock is lost and some
producer cannot leave. -/
def StrandInv (c : Client N K Row) : Prop :=
  ∀ d i, c.stmt.chunkDownloader = some d → d.getShutdownOrError = true → c.fetcher = .asleep i →
    c.abandoned = true ∧ ∃ t, c.producers t ≠ .absent ∧ c.producers t ≠ .exited

theorem StrandInv.of_awake (hf : ∀ i, c.fetcher ≠ .asleep i) : StrandInv c :=
  fun _ i _ _ h => absurd h (hf i)

/-- Before a step in a critical section, a sleeping fetching thread means no failure. -/
theorem StrandInv.running (h : StrandInv c) (hd : c.stmt.chunkDownloader = some d)
    (hl : c.abandoned = false) {i : Nat} (hf : c.fetcher = .asleep i) :
    d.getShutdownOrError = false := by
  cases hn : d.getShutdownOrError with
  | false => rfl
  | true =>
    obtain ⟨ha, -⟩ := h d i hd hn hf
    rw [hl] at ha
    cases ha

/-- A step that keeps the downloader's flags, the lock and the fetching thread, and lets no
producer leave. -/
theorem StrandInv.keep (h : StrandInv c)
    (hd : ∀ d', c'.stmt.chunkDownloader = some d' → ∃ d, c.stmt.chunkDownloader = some d ∧
      d'.getShutdownOrError = d.getShutdownOrError)
    (hf : c'.fetcher = c.fetcher) (hl : c'.abandoned = c.abandoned)
    (hp : ∀ t, c.producers t ≠ .absent → c.producers t ≠ .exited →
      c'.producers t ≠ .absent ∧ c'.producers t ≠ .exited) : StrandInv c' := by
  intro d' i hd' hn hfi
  obtain ⟨d, hd₀, hflags⟩ := hd d' hd'
  obtain ⟨ha, t, h1, h2⟩ := h d i hd₀ (hflags ▸ hn) (hf ▸ hfi)
  exact ⟨hl ▸ ha, t, hp t h1 h2⟩

/-- A producer's step outside the lock does not make it leave. -/
theorem StrandInv.setProducer (h : StrandInv c) (t : Fin N) {pc : ProducerPc Row}
    (h1 : pc ≠ .absent) (h2 : pc ≠ .exited) : StrandInv (c.setProducer t pc) := by
  refine h.keep (fun d hd => ⟨d, hd, rfl⟩) rfl rfl fun u hu1 hu2 => ?_
  rw [setProducer_producers]
  by_cases hut : u = t
  · subst hut; rw [Function.update_self]; exact ⟨h1, h2⟩
  · rw [Function.update_of_ne hut]; exact ⟨hu1, hu2⟩

/-- In a critical section the fetching thread sleeps only if no failure is recorded: the section
keeps `StrandInv` if it records none. -/
theorem StrandInv.locked (h : StrandInv c) (hd : c.stmt.chunkDownloader = some d)
    (hl : c.abandoned = false) (hf : c'.fetcher = c.fetcher)
    (hd' : ∀ d', c'.stmt.chunkDownloader = some d' →
      d'.getShutdownOrError = d.getShutdownOrError) : StrandInv c' := by
  intro d' i hdd hn hfi
  rw [hd' d' hdd, h.running hd hl (hf ▸ hfi)] at hn
  cases hn

/-- Every step in which no producer fails while the fetching thread sleeps keeps `StrandInv`. -/
theorem Move.strandInv (hm : Move download pg c e c' outs) (hc : FailsAwake c e)
    (hinv : ClientInv download c) (hsup : Supplied c) (h : StrandInv c) : StrandInv c' := by
  have hcreating : c.init ≠ .done → ∀ d, c.stmt.chunkDownloader = some d →
      ∀ i, c.fetcher ≠ .asleep i := fun hi d hd i hf =>
    (hinv d hd).not_waiting hi i (by rw [hf]; rfl)
  cases hm with
  | execute hf hi ht => exact .of_awake fun i => by rw [execute_fetcher, hf]; exact nofun
  | spawn hd hi hlt => exact .of_awake (hcreating (by rw [hi]; exact nofun) _ hd)
  | spawnFail hd hi => exact .of_awake (hcreating (by rw [hi]; exact nofun) _ hd)
  | countThread hd hi => exact .of_awake (hcreating (by rw [hi]; exact nofun) _ hd)
  | sleep hd hl hp hw => exact h.setProducer _ nofun nofun
  | leave hd hl hp hw hs =>
    exact h.locked hd hl rfl fun d' hd' => by rw [setProducer_stmt, hd] at hd'; cases hd'; rfl
  | take hd hl hp hw hs => exact h.locked hd hl rfl fun d' hd' => by cases hd'; rfl
  | downloadOk hd hp hq => exact h.setProducer _ nofun nofun
  | downloadFail hd hp =>
    have hawake := hc.awake rfl
    exact .of_awake (by simpa using hawake)
  | postLate hd hl hp he =>
    exact h.locked hd hl rfl fun d' hd' => by rw [setProducer_stmt, hd] at hd'; cases hd'; rfl
  | post hd hl hp he => exact .of_awake c.fetcher.notify_awake
  | postFail hd hl hp he =>
    have hawake := hc.awake rfl
    exact .of_awake (by simpa using hawake)
  | wakeProducer hd hp => exact h.setProducer _ nofun nofun
  | wakeFetcher | fetchError | fetchEof | fetchEnd | fetchRow | fetchFail | fetchSignalFail
  | fetchTake => exact .of_awake nofun
  | fetchSleep hs hq hc hn =>
    obtain ⟨hd, hd', -⟩ := hs.spec hinv
    intro d'' i hdd hn'
    rw [hd'] at hdd
    cases hdd
    rw [hn] at hn'
    cases hn'
  | termAgain hd hl hk hi hs =>
    simp only [Client.term, hs, ↓reduceIte]
    intro d' i hd' hn hf
    rw [h.running hd' hl hf] at hn
    cases hn
  | term hd hl hk hi hs =>
    rename_i d k rc
    simp only [Client.term, hs, Bool.false_eq_true, ↓reduceIte]
    cases rc with
    | ok => exact .of_awake c.fetcher.notify_awake
    | consumerFails =>
      intro d' i _ _ hf
      simp only [recordError_fetcher, setDownloader_fetcher] at hf
      obtain ⟨t, ht⟩ := exists_unfinished hinv hsup hd (h.running hd hl hf) hf
      exact ⟨rfl, t, by simpa using ht⟩
    | producerFails => exact .of_awake c.fetcher.notify_awake
  | join hd hk hlt hx hc => exact h.keep (fun d hd => ⟨d, hd, rfl⟩) rfl rfl fun _ h1 h2 => ⟨h1, h2⟩
  | free hd hk hc => intro d' i hd'; cases hd'

/-- The fetching thread is not stranded in any run in which no producer fails while it sleeps. -/
theorem not_stranded_of_awake (hN : N < 2 ^ 64)
    (h : (client download pg N K).Run FailsAwake .prepared outs c) : ¬ Stranded c := by
  obtain ⟨hinv, hsup, hstr⟩ := h.state_inv
    (I := fun c => ClientInv download c ∧ Supplied c ∧ StrandInv c)
    ⟨.prepared, .prepared, .of_awake nofun⟩
    fun c e c' o ⟨hi, hs, ht⟩ hc hstep =>
      have hm := step_move hstep
      ⟨hm.clientInv hN hi, hm.supplied hi hs, hm.strandInv hc hi hs ht⟩
  rintro ⟨d, hd, hflags, hleft, hf⟩
  obtain ⟨i, hf⟩ := FetcherPc.isAsleep_iff.mp hf
  have hn : d.getShutdownOrError = true := by
    simpa [ChunkDownloader.getShutdownOrError, or_comm] using hflags
  obtain ⟨-, t, h1, h2⟩ := hstr d i hd hn hf
  have ht := hleft t
  cases hp : c.producers t <;> simp_all [ProducerPc.hasLeft]

/-- A download fails while the fetching thread waits for its chunk: the thread stays asleep. -/
theorem fetcher_stranded :
    ∃ outs c, (client (fun _ => [7]) false 2 0).Run Machine.Any .prepared outs c ∧ Stranded c := by
  obtain ⟨outs, c, hrun, hc⟩ :=
    Machine.exec_exists (M := client (fun _ => [7]) false 2 0) (s := Client.prepared)
      (c := fun _ _ => true) (p := fun r => decide (Stranded r.1))
      [.execute oneChunk, .spawn, .countThread, .spawn, .countThread, .fetch (.ok none), .check 0,
        .check 1, .downloadFail 0 .errorCurl]
      (by decide +kernel)
  exact ⟨outs, c, hrun.mono fun _ _ _ => trivial, by simpa using hc⟩

/-- A download fails while no fetch waits: the next fetch returns an error. -/
theorem not_stranded_of_awake_oneChunk :
    ∃ outs c, (client (fun _ => [7]) false 2 0).Run FailsAwake .prepared outs c ∧
      (∃ d ∈ c.stmt.chunkDownloader, d.hasError = true) ∧ ¬ Stranded c := by
  obtain ⟨outs, c, hrun, hc⟩ :=
    Machine.exec_exists (M := client (fun _ => [7]) false 2 0) (s := Client.prepared)
      (c := fun c e => decide (FailsAwake c e))
      (p := fun r => decide (∃ d ∈ r.1.stmt.chunkDownloader, d.hasError = true))
      [.execute oneChunk, .spawn, .countThread, .spawn, .countThread, .check 0, .check 1,
        .downloadFail 0 .errorCurl, .fetch (.ok none)]
      (by decide +kernel)
  have hrun' := hrun.mono (D := FailsAwake) fun _ _ he => by simpa using he
  exact ⟨outs, c, hrun', by simpa using hc, not_stranded_of_awake (by decide) hrun'⟩

/-! ## Runs without failures -/

/-- A failed download, a failed signal, or a call of `chunk_downloader_term`. -/
def Event.fails : Event N K Row → Bool
  | .downloadFail _ _ | .post _ false | .fetch .error | .resume .error | .term _ _ => true
  | _ => false

/-- The step is no failure, and no shutdown is requested. -/
def Calm (_ : Client N K Row) (e : Event N K Row) : Prop := e.fails = false

theorem ProducerPc.atCheck_of {pc : ProducerPc Row} (h1 : pc ≠ .absent) (h2 : pc ≠ .exited)
    (h3 : pc.index? = none) (h4 : producerCond.asleep pc = false) : pc.AtCheck := by
  cases pc <;> simp_all [ProducerPc.AtCheck, ProducerPc.index?, producerCond]

/-- Who is awake, in a run without failures (module doc). While the threads are created, nobody
took a chunk, and if nobody took an index either, all threads but thread 0 are awake. -/
structure WakeInv (d : ChunkDownloader Row) (p : Fin N → ProducerPc Row) (init : InitPc) :
    Prop where
  running : d.getShutdownOrError = false
  starting : init ≠ .done → init ≠ .failed → d.consumerHead = 0 ∧
    (d.producerHead = 0 → 0 < d.queueSize → ∀ t : Fin N, 0 < t.val → p t ≠ .absent →
      (p t).AtCheck)
  awake : init = .done → d.consumerHead = d.producerHead → d.producerHead < d.queueSize →
    ∃ t, (p t).AtCheck

namespace WakeInv

variable {p p' : Fin N → ProducerPc Row} {init : InitPc} {f : FetcherPc} {t : Fin N} {i : Nat}

/-- Threads that exist may wake up. -/
theorem producers (h : WakeInv d p init) (hp : ∀ t, (p t).AtCheck → (p' t).AtCheck)
    (ha : ∀ t, p' t ≠ .absent → (p' t).AtCheck ∨ p t ≠ .absent) : WakeInv d p' init where
  running := h.running
  starting hi hi' := by
    obtain ⟨h1, h2⟩ := h.starting hi hi'
    refine ⟨h1, fun h3 h4 t ht hpt => ?_⟩
    exact (ha t hpt).elim id fun hpt' => hp t (h2 h3 h4 t ht hpt')
  awake hi h1 h2 := by
    obtain ⟨t, ht⟩ := h.awake hi h1 h2
    exact ⟨t, hp t ht⟩

/-- As long as a producer has an index, the heads differ. -/
theorem of_held (h : WakeInv d p init) (hq : QueueInv download d p)
    (ht : (p t).index? = some i) : WakeInv d p' init := by
  obtain ⟨h1, h2, -⟩ := hq.held t i ht
  exact ⟨h.running, fun hi hi' => ⟨(h.starting hi hi').1, fun h0 => absurd h2 (by omega)⟩,
    fun _ he => absurd h2 (by omega)⟩

/-- The slots are not part of the invariant. -/
theorem setChunk (h : WakeInv d p init) (chunk : Option (List Row)) :
    WakeInv (d.setChunk i chunk) p init :=
  ⟨h.running, h.starting, h.awake⟩

/-- A thread goes to sleep: it is thread 0, before `thread_count` is 1, or the heads differ. -/
theorem sleep (h : WakeInv d p init) (hq : QueueInv download d p)
    (hi : InitInv init d.threadCount p) (hp : (p t).AtCheck) (hw : d.producerWaits = true) :
    WakeInv d (Function.update p t .asleep) init := by
  obtain ⟨hcount, -⟩ := hq.producerWaits_iff.mp hw
  refine ⟨h.running, fun hne hne' => ⟨(h.starting hne hne').1, fun h0 h1 u hu hpu => ?_⟩,
    fun hdone heq hlt => ?_⟩
  · by_cases hut : u = t
    · -- A thread after the first runs with `thread_count` at least 1.
      subst hut
      have habs := hp.ne_absent
      cases init with
      | create i => exact absurd ((hi.2.2 u).mpr (by have := hi.2.1; omega)) habs
      | count i => exact absurd ((hi.2.2 u).mpr (by have := hi.2.1; omega)) habs
      | done => exact absurd rfl hne
      | failed => exact absurd rfl hne'
    · rw [Function.update_of_ne hut] at hpu ⊢
      exact (h.starting hne hne').2 h0 h1 u hu hpu
  · subst hdone
    obtain ⟨hN, hall, -⟩ := hi
    omega

/-- A thread leaves: the queue is empty. -/
theorem leave (h : WakeInv d p init) (hs : d.producerStops = true) : WakeInv d p' init := by
  have hsize : d.queueSize ≤ d.producerHead := by
    simpa [ChunkDownloader.producerStops, h.running] using hs
  exact ⟨h.running, fun hi hi' => ⟨(h.starting hi hi').1, fun h0 h1 => absurd hsize (by omega)⟩,
    fun _ _ hlt => absurd hsize (by omega)⟩

theorem take (h : WakeInv d p init) (hq : QueueInv download d p)
    (hinc : incU64 d.producerHead = d.producerHead + 1) :
    WakeInv { d with producerHead := incU64 d.producerHead } p' init := by
  have hheads := hq.heads
  refine ⟨h.running, fun hi hi' => ⟨(h.starting hi hi').1, fun h0 => ?_⟩, fun _ he => ?_⟩
  · exact absurd (show incU64 d.producerHead = 0 from h0) (by omega)
  · exact absurd (show d.consumerHead = incU64 d.producerHead from he) (by omega)

/-- The thread creation loop counts a thread. After the last one, thread 1 is awake, or an index
is taken. -/
theorem countThread (hN : 2 ≤ N) (h : WakeInv d p (.count i))
    (hi : InitInv (.count i) d.threadCount p) (n : Nat) :
    WakeInv { d with threadCount := n } p (if i + 1 < N then .create (i + 1) else .done) := by
  obtain ⟨h1, h2⟩ := h.starting nofun nofun
  refine ⟨h.running, fun _ _ => ⟨h1, h2⟩, fun hdone heq hlt => ?_⟩
  have hlast : ¬ i + 1 < N := by
    intro hlt
    rw [if_pos hlt] at hdone
    cases hdone
  change d.consumerHead = d.producerHead at heq
  change d.producerHead < d.queueSize at hlt
  refine ⟨⟨1, hN⟩, h2 (by omega) (by omega) _ Nat.one_pos fun habs => ?_⟩
  have hlt1 : i < 1 := (hi.2.2 ⟨1, hN⟩).mp habs
  omega

/-- The fetching thread takes the last chunk between the heads and signals: a producer is awake. -/
theorem takeChunk (h : WakeInv d p .done) (hi : InitInv .done d.threadCount p)
    (hs : SupplyInv d p f) {item : QueueItem Row} {chunk : List Row}
    (hqi : d.queue[d.consumerHead]? = some item) (hc : item.chunk = some chunk)
    (hq : QueueInv download d p) {w : Option (Fin N)}
    (hw : producerCond.signal p w = some p') :
    WakeInv ({ d with consumerHead := incU64 d.consumerHead }.setChunk d.consumerHead none) p'
      .done := by
  refine ⟨h.running, fun hne => absurd rfl hne, fun _ heq hlt => ?_⟩
  have hq' := (hq.takeChunk hqi hc).signal hw
  obtain ⟨hpos, -, hall⟩ := hi.signal hw
  obtain ⟨u, hu⟩ := CondVar.signal_exists_awake hw ⟨0, hpos⟩
  refine ⟨u, ProducerPc.atCheck_of (hall u) (fun hx => ?_) ?_ hu⟩
  · have hsize := (hs.signal hw).exited u hx
    exact absurd hlt (Nat.not_lt.mpr hsize)
  · cases hidx : (p' u).index? with
    | none => rfl
    | some i =>
      obtain ⟨h1, h2, -⟩ := hq'.held u i hidx
      omega

end WakeInv

/-- `WakeInv` of the statement's downloader. -/
def Waking (c : Client N K Row) : Prop :=
  ∀ d, c.stmt.chunkDownloader = some d → WakeInv d c.producers c.init

theorem Waking.of_some (hd : c.stmt.chunkDownloader = some d)
    (h : WakeInv d c.producers c.init) : Waking c := by
  intro d' hd'
  rw [hd] at hd'
  cases hd'
  exact h

theorem Waking.of_none (hd : c.stmt.chunkDownloader = none) : Waking c := by
  intro d hd'
  rw [hd] at hd'
  cases hd'

theorem Waking.prepared : Waking (Client.prepared : Client N K Row) := .of_none rfl

/-- Every step without a failure keeps `Waking`. -/
theorem Move.waking (hN : 2 ≤ N) (hm : Move download pg c e c' outs) (hc : Calm c e)
    (hinv : ClientInv download c) (hsup : Supplied c) (h : Waking c) : Waking c' := by
  cases hm with
  | execute hf hi ht =>
    rename_i r
    rcases execute_cases pg c r with ⟨-, -, hd | ⟨d, hd, hfr, hi', hp⟩⟩ | ⟨-, hd, hi', hp⟩
    · exact .of_none hd
    · refine .of_some hd ⟨hfr.running, fun _ _ => ⟨hfr.consumerHead, fun _ _ t _ ht => ?_⟩,
        fun hdone => ?_⟩
      · exact absurd (hp t) ht
      · rw [hi'] at hdone; cases hdone
    · intro d hd'
      rw [hp, hi']
      exact h d (hd ▸ hd')
  | spawn hd hi hlt =>
    rename_i d i
    have hw := h d hd
    rw [hi] at hw
    refine .of_some hd ⟨hw.running, fun _ _ => ?_, nofun⟩
    obtain ⟨h1, h2⟩ := hw.starting nofun nofun
    refine ⟨h1, fun h3 h4 t ht hpt => ?_⟩
    rw [setProducer_producers] at hpt ⊢
    by_cases hti : t = ⟨i, hlt⟩
    · subst hti; rw [Function.update_self]; exact .inl rfl
    · rw [Function.update_of_ne hti] at hpt ⊢
      exact h2 h3 h4 t ht hpt
  | spawnFail hd hi => exact .of_some hd ⟨(h _ hd).running, fun _ hne => absurd rfl hne, nofun⟩
  | countThread hd hi =>
    rename_i d i
    have hw := h d hd
    have hinit := (hinv d hd).init
    rw [hi] at hw hinit
    exact .of_some rfl (hw.countThread hN hinit _)
  | sleep hd hl hp hw =>
    exact .of_some hd ((h _ hd).sleep (hinv _ hd).queue (hinv _ hd).init hp hw)
  | leave hd hl hp hw hs => exact .of_some hd ((h _ hd).leave hs)
  | take hd hl hp hw hs =>
    simp only [ChunkDownloader.producerStops, Bool.or_eq_false_iff, decide_eq_false_iff_not,
      Nat.not_le] at hs
    have hinc := incU64_of_lt hs.2 (hinv _ hd).queue.size_lt
    exact .of_some rfl ((h _ hd).take (hinv _ hd).queue hinc)
  | downloadOk hd hp hq =>
    exact .of_some hd ((h _ hd).of_held (hinv _ hd).queue (by rw [hp]; rfl))
  | downloadFail | postFail => cases hc
  | postLate hd hl hp he =>
    exact .of_some hd ((h _ hd).of_held (hinv _ hd).queue (by rw [hp]; rfl))
  | post hd hl hp he =>
    exact .of_some rfl (((h _ hd).of_held (hinv _ hd).queue (by rw [hp]; rfl)).setChunk _)
  | wakeProducer hd hp =>
    rename_i d t
    refine .of_some hd ((h d hd).producers (fun u hu => ?_) fun u hu => ?_)
    · rw [setProducer_producers]
      by_cases hut : u = t
      · subst hut; rw [Function.update_self]; exact .inr rfl
      · rwa [Function.update_of_ne hut]
    · rw [setProducer_producers] at hu ⊢
      by_cases hut : u = t
      · subst hut; exact .inr (by rw [hp]; rintro ⟨⟩)
      · rw [Function.update_of_ne hut] at hu; exact .inr hu
  | wakeFetcher hd hf => exact .of_some hd (h _ hd)
  | fetchError hf hi hd he => exact .of_some hd (h _ hd)
  | fetchEof hf hi hd h0 => exact h
  | fetchEnd hf hi hd he hl h0 hq => exact .of_some hd (h _ hd)
  | fetchRow hf hi hd h0 => exact h
  | fetchSleep hs hq hc hn =>
    obtain ⟨hd, hd', -⟩ := hs.spec hinv
    exact .of_some hd' (h _ hd)
  | fetchFail hs hq hn =>
    obtain ⟨hd, hd', -⟩ := hs.spec hinv
    exact .of_some hd' (h _ hd)
  | fetchSignalFail hs hq hc' hn => cases hs <;> cases hc
  | fetchTake hs hq hc hn hw =>
    obtain ⟨hd, -, rfl, -, hdone, hi⟩ := hs.spec hinv
    have hwake := h _ hd
    have hinit := hi.init
    refine .of_some rfl ?_
    show WakeInv _ _ c.init
    rw [hdone] at hwake hinit ⊢
    exact hwake.takeChunk hinit (hsup _ hd hn) hq hc hi.queue hw
  | termAgain | term => cases hc
  | join hd hk hlt hx hc => exact .of_some hd (h _ hd)
  | free hd hk hc => exact .of_none rfl

/-- Nobody calls `chunk_downloader_term`, and a fetch that waits has its downloader. -/
structure Quiet (c : Client N K Row) : Prop where
  terms : ∀ k, c.terms k = .idle
  abandoned : c.abandoned = false
  attached : c.fetcher ≠ .idle → ∃ d, c.stmt.chunkDownloader = some d

theorem execute_terms (c : Client N K Row) (r : Reply Row) :
    (c.execute pg r).terms = c.terms := by
  unfold Client.execute; split <;> rfl

theorem execute_abandoned (c : Client N K Row) (r : Reply Row) (h : c.abandoned = false) :
    (c.execute pg r).abandoned = false := by
  unfold Client.execute
  split
  · rfl
  · exact h

theorem Move.quiet (hm : Move download pg c e c' outs) (hc : Calm c e)
    (hinv : ClientInv download c) (h : Quiet c) : Quiet c' := by
  cases hm with
  | execute hf hi ht =>
    refine ⟨by rw [execute_terms]; exact h.terms, execute_abandoned _ _ h.abandoned, ?_⟩
    rw [execute_fetcher, hf]
    exact fun hne => absurd rfl hne
  | spawn | spawnFail | sleep | leave | downloadOk | postLate | wakeProducer =>
    exact ⟨h.terms, h.abandoned, h.attached⟩
  | countThread | take | post => exact ⟨h.terms, h.abandoned, fun _ => ⟨_, rfl⟩⟩
  | downloadFail | postFail | termAgain | term => cases hc
  | wakeFetcher hd hf => exact ⟨h.terms, h.abandoned, fun _ => ⟨_, hd⟩⟩
  | fetchError | fetchEof | fetchEnd | fetchRow | fetchFail | fetchTake =>
    exact ⟨h.terms, h.abandoned, fun hne => absurd rfl hne⟩
  | fetchSleep hs hq hc hn =>
    obtain ⟨-, hd', -⟩ := hs.spec hinv
    exact ⟨h.terms, h.abandoned, fun _ => ⟨_, hd'⟩⟩
  | fetchSignalFail hs hq hc' hn => cases hs <;> cases hc
  | join hd hk hlt hx hc' => rw [h.terms] at hk; cases hk
  | free hd hk hc' => rw [h.terms] at hk; cases hk

/-- The invariants of a run without failures. -/
structure CalmInv (download : String → List Row) (c : Client N K Row) : Prop where
  inv : ClientInv download c
  supplied : Supplied c
  waking : Waking c
  quiet : Quiet c

theorem CalmInv.prepared : CalmInv download (Client.prepared : Client N K Row) :=
  ⟨.prepared, .prepared, .prepared, ⟨fun _ => rfl, rfl, fun hne => absurd rfl hne⟩⟩

theorem Move.calmInv (hN2 : 2 ≤ N) (hN : N < 2 ^ 64) (hm : Move download pg c e c' outs)
    (hc : Calm c e) (h : CalmInv download c) : CalmInv download c' :=
  ⟨hm.clientInv hN h.inv, hm.supplied h.inv h.supplied,
    hm.waking hN2 hc h.inv h.supplied h.waking, hm.quiet hc h.inv h.quiet⟩

theorem calmInv_of_run (hN2 : 2 ≤ N) (hN : N < 2 ^ 64)
    (h : (client download pg N K).Run Calm .prepared outs c) : CalmInv download c :=
  h.state_inv .prepared fun _ _ _ _ hi hc hs => (step_move hs).calmInv hN2 hN hc hi

/-- The fetching thread sleeps un-notified on `consumer_cond`, and every producer sleeps
un-notified on `producer_cond`, has left, or was never created. -/
def Deadlocked (c : Client N K Row) : Prop :=
  c.fetcher.isAsleep = true ∧
    ∀ t, producerCond.asleep (c.producers t) = true ∨ (c.producers t).hasLeft = true

/-- While the fetching thread sleeps, some producer can go on. -/
theorem CalmInv.exists_active (h : CalmInv download c) {i : Nat} (hf : c.fetcher = .asleep i) :
    ∃ t, (c.producers t).AtCheck ∨ ∃ j, (c.producers t).index? = some j := by
  obtain ⟨d, hd⟩ := h.quiet.attached (by rw [hf]; exact nofun)
  have hinv := h.inv d hd
  have hw := h.waking d hd
  have hs := h.supplied d hd hw.running
  obtain ⟨rfl, hlt, hdone⟩ := hinv.sleeper i (by rw [hf]; rfl)
  by_cases hhead : d.consumerHead < d.producerHead
  · rcases hs.pending _ (Nat.le_refl _) hhead with ⟨item, chunk, hq, hc⟩ | ⟨t, ht⟩
    · rw [hs.slot _ item hf hq] at hc
      cases hc
    · exact ⟨t, .inr ⟨_, ht⟩⟩
  · have hheads := hinv.queue.heads
    obtain ⟨t, ht⟩ := hw.awake hdone (by omega) (by omega)
    exact ⟨t, .inl ht⟩

/-- Without failures no run ends in a deadlock, in whatever order the threads start. -/
theorem not_deadlocked (hN2 : 2 ≤ N) (hN : N < 2 ^ 64)
    (h : (client download pg N K).Run Calm .prepared outs c) : ¬ Deadlocked c := by
  rintro ⟨hf, hall⟩
  obtain ⟨i, hf⟩ := FetcherPc.isAsleep_iff.mp hf
  obtain ⟨t, ht⟩ := (calmInv_of_run hN2 hN h).exists_active hf
  have hat := hall t
  rcases ht with (ht | ht) | ⟨j, ht⟩
  · simp [ht, producerCond, ProducerPc.hasLeft] at hat
  · simp [ht, producerCond, ProducerPc.hasLeft] at hat
  · cases hp : c.producers t <;> simp_all [ProducerPc.index?, producerCond, ProducerPc.hasLeft]

/-- Thread 0 starts before it is counted and sleeps, and so does the fetching thread; thread 1 is
awake. -/
theorem not_deadlocked_early_start :
    ∃ outs c, (client (fun _ => [7]) false 2 0).Run Calm .prepared outs c ∧
      (c.fetcher.isAsleep = true ∧ producerCond.asleep (c.producers 0) = true) ∧
      ¬ Deadlocked c := by
  obtain ⟨outs, c, hrun, hc⟩ :=
    Machine.exec_exists (M := client (fun _ => [7]) false 2 0) (s := Client.prepared)
      (c := fun _ e => !e.fails)
      (p := fun r => r.1.fetcher.isAsleep && producerCond.asleep (r.1.producers 0))
      [.execute oneChunk, .spawn, .check 0, .countThread, .spawn, .countThread, .fetch (.ok none)]
      (by decide +kernel)
  have hrun' := hrun.mono (D := Calm) fun _ _ he => by simpa [Calm] using he
  exact ⟨outs, c, hrun', by simpa using hc, not_deadlocked (by decide) (by decide) hrun'⟩

end Snowflake
