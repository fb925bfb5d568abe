import SnowflakeClient.Chunks.Moves

/-!
# The chunk queue

* `QueueInv`: the invariant of the queue and of the producers' private indices. The heads are in
  order and at most `thread_count` apart; a taken index is between the heads, belongs to one
  producer, and its slot is empty; a full slot is between the heads and holds what its URL gives.
* `ClientInv`: `QueueInv` with the places of the fetching thread, kept by every move
  (`Move.clientInv`).
* `queue_in_order`: over every run, each index is taken once, in order, and the fetching thread
  gets the chunks in order, each once, and leaves each in the statement (`Received`).
-/

namespace Snowflake

open CInt Conc

variable {N K : Nat} {Row : Type} {download : String → List Row} {pg : Bool}

/-! ## Slots -/

section Slots

variable {d : ChunkDownloader Row} {i j : Nat} {chunk : Option (List Row)}
  {item item' : QueueItem Row}

theorem queue_setChunk : (d.setChunk i chunk).queue[j]? =
    if i = j then d.queue[j]?.map fun item => { item with chunk } else d.queue[j]? := by
  simp only [ChunkDownloader.setChunk, List.getElem?_modify]
  split
  · rfl
  · cases d.queue[j]? <;> rfl

/-- An item after `setChunk`: only the slot `i` changed. -/
theorem item_of_setChunk (h : (d.setChunk i chunk).queue[j]? = some item') :
    ∃ item, d.queue[j]? = some item ∧ item'.url = item.url ∧ item'.rowCount = item.rowCount ∧
      item'.chunk = if i = j then chunk else item.chunk := by
  rw [queue_setChunk] at h
  by_cases hij : i = j
  · rw [if_pos hij] at h
    obtain ⟨item, hq, rfl⟩ := Option.map_eq_some_iff.mp h
    exact ⟨item, hq, rfl, rfl, by rw [if_pos hij]⟩
  · rw [if_neg hij] at h
    exact ⟨item', h, rfl, rfl, by rw [if_neg hij]⟩

theorem setChunk_self (h : d.queue[i]? = some item) :
    (d.setChunk i chunk).queue[i]? = some { item with chunk } := by
  simp [queue_setChunk, h]

theorem setChunk_of_ne (h : i ≠ j) : (d.setChunk i chunk).queue[j]? = d.queue[j]? := by
  simp [queue_setChunk, h]

@[simp] theorem setChunk_consumerHead : (d.setChunk i chunk).consumerHead = d.consumerHead := rfl
@[simp] theorem setChunk_producerHead : (d.setChunk i chunk).producerHead = d.producerHead := rfl
@[simp] theorem setChunk_queueSize : (d.setChunk i chunk).queueSize = d.queueSize := rfl

@[simp] theorem length_setChunk : (d.setChunk i chunk).queue.length = d.queue.length := by
  simp [ChunkDownloader.setChunk]

/-- `setChunk` keeps everything about the items but the chunk. -/
theorem map_setChunk {α : Type} (f : QueueItem Row → α)
    (hf : ∀ item chunk, f { item with chunk } = f item) :
    (d.setChunk i chunk).queue.map f = d.queue.map f := by
  apply List.ext_getElem?
  intro j
  simp only [List.getElem?_map, queue_setChunk]
  split
  · cases d.queue[j]? <;> simp [hf]
  · rfl

end Slots

/-! ## The queue's invariant -/

/-- The queue and the producers (module doc). -/
structure QueueInv (download : String → List Row) (d : ChunkDownloader Row)
    (p : Fin N → ProducerPc Row) : Prop where
  size : d.queueSize = d.queue.length
  size_lt : d.queueSize < 2 ^ 64
  heads : d.consumerHead ≤ d.producerHead
  head_le : d.producerHead ≤ d.queueSize
  window : d.producerHead ≤ d.consumerHead + d.threadCount
  slots : ∀ i item chunk, d.queue[i]? = some item → item.chunk = some chunk →
    d.consumerHead ≤ i ∧ i < d.producerHead ∧ chunk = download item.url
  held : ∀ t i, (p t).index? = some i → d.consumerHead ≤ i ∧ i < d.producerHead ∧
    ∀ item, d.queue[i]? = some item → item.chunk = none
  distinct : ∀ t u i, (p t).index? = some i → (p u).index? = some i → t = u
  got : ∀ t i chunk item, p t = .downloaded i chunk → d.queue[i]? = some item →
    chunk = download item.url

namespace QueueInv

variable {d : ChunkDownloader Row} {p p' : Fin N → ProducerPc Row} {t : Fin N} {i : Nat}
  {item : QueueItem Row} {chunk : List Row}

theorem sub_heads (h : QueueInv download d p) :
    subU64 d.producerHead d.consumerHead = d.producerHead - d.consumerHead :=
  subU64_of_le h.heads (Nat.lt_of_le_of_lt h.head_le h.size_lt)

/-- The producers' wait condition, without the wrap-around. -/
theorem producerWaits_iff (h : QueueInv download d p) : d.producerWaits = true ↔
    d.threadCount ≤ d.producerHead - d.consumerHead ∧ d.producerHead < d.queueSize ∧
      d.getShutdownOrError = false := by
  simp [ChunkDownloader.producerWaits, h.sub_heads, and_assoc]

/-- Threads may move to places without an index. -/
theorem producers (h : QueueInv download d p)
    (hp : ∀ t, p' t = p t ∨ (p' t).index? = none) : QueueInv download d p' where
  size := h.size
  size_lt := h.size_lt
  heads := h.heads
  head_le := h.head_le
  window := h.window
  slots := h.slots
  held t i hi := by
    rcases hp t with ht | ht
    · exact h.held t i (ht ▸ hi)
    · rw [ht] at hi; cases hi
  distinct t u i hi hu := by
    rcases hp t with ht | ht
    · rcases hp u with hu' | hu'
      · exact h.distinct t u i (ht ▸ hi) (hu' ▸ hu)
      · rw [hu'] at hu; cases hu
    · rw [ht] at hi; cases hi
  got t i chunk item hi hq := by
    rcases hp t with ht | ht
    · exact h.got t i chunk item (ht ▸ hi) hq
    · rw [hi] at ht; cases ht

theorem setProducer (h : QueueInv download d p) {pc : ProducerPc Row} (hpc : pc.index? = none) :
    QueueInv download d (Function.update p t pc) :=
  h.producers fun u => by
    by_cases hu : u = t
    · subst hu; exact .inr (by rw [Function.update_self]; exact hpc)
    · exact .inl (Function.update_of_ne hu ..)

theorem signal (h : QueueInv download d p) {w : Option (Fin N)}
    (hs : producerCond.signal p w = some p') : QueueInv download d p' :=
  h.producers fun t => (CondVar.signal_thread hs t).imp_right fun ⟨_, e⟩ => by rw [e]; rfl

theorem broadcast (h : QueueInv download d p) :
    QueueInv download d (producerCond.broadcast p) :=
  h.producers fun t => by
    unfold CondVar.broadcast CondVar.notify
    split
    · exact .inr rfl
    · exact .inl rfl

/-- The flags are not part of the invariant. -/
theorem flags (h : QueueInv download d p) (b b' : Bool) :
    QueueInv download { d with isShutdown := b, hasError := b' } p :=
  ⟨h.size, h.size_lt, h.heads, h.head_le, h.window, h.slots, h.held, h.distinct, h.got⟩

theorem countThread (h : QueueInv download d p) (hlt : d.threadCount + 1 < 2 ^ 64) :
    QueueInv download { d with threadCount := incU64 d.threadCount } p where
  size := h.size
  size_lt := h.size_lt
  heads := h.heads
  head_le := h.head_le
  window := by
    have hw := h.window
    show d.producerHead ≤ d.consumerHead + incU64 d.threadCount
    rw [incU64_of_lt (Nat.lt_succ_self _) hlt]
    omega
  slots := h.slots
  held := h.held
  distinct := h.distinct
  got := h.got

/-- A producer takes the index at the producers' head. -/
theorem take (h : QueueInv download d p) (hw : d.producerWaits = false)
    (hs : d.producerStops = false) :
    QueueInv download { d with producerHead := incU64 d.producerHead }
      (Function.update p t (.downloading d.producerHead)) := by
  simp only [ChunkDownloader.producerStops, Bool.or_eq_false_iff, decide_eq_false_iff_not,
    Nat.not_le] at hs
  obtain ⟨hn, hlt⟩ := hs
  have hwin : d.producerHead - d.consumerHead < d.threadCount := by
    by_contra hc
    rw [(h.producerWaits_iff).mpr ⟨by omega, hlt, hn⟩] at hw
    cases hw
  have hinc : incU64 d.producerHead = d.producerHead + 1 := incU64_of_lt hlt h.size_lt
  have hheads := h.heads
  have hwindow := h.window
  -- No other producer has the index: the others' indices are below the head.
  have hfresh : ∀ u, (p u).index? ≠ some d.producerHead := fun u hu =>
    absurd (h.held u _ hu).2.1 (Nat.lt_irrefl _)
  have hself : (.downloading d.producerHead : ProducerPc Row).index? =
      some d.producerHead := rfl
  refine ⟨h.size, h.size_lt, ?_, ?_, ?_, ?_, ?_, ?_, ?_⟩
  · show d.consumerHead ≤ incU64 d.producerHead
    omega
  · show incU64 d.producerHead ≤ d.queueSize
    omega
  · show incU64 d.producerHead ≤ d.consumerHead + d.threadCount
    omega
  · intro i item chunk hq hc
    obtain ⟨h1, h2, h3⟩ := h.slots i item chunk hq hc
    exact ⟨h1, by show i < incU64 d.producerHead; omega, h3⟩
  · intro u i hi
    show d.consumerHead ≤ i ∧ i < incU64 d.producerHead ∧ _
    by_cases hu : u = t
    · subst hu
      rw [Function.update_self, hself] at hi
      cases hi
      refine ⟨hheads, by omega, fun item hq => ?_⟩
      cases hc : item.chunk with
      | none => rfl
      | some chunk => exact absurd (h.slots _ item chunk hq hc).2.1 (Nat.lt_irrefl _)
    · rw [Function.update_of_ne hu] at hi
      obtain ⟨h1, h2, h3⟩ := h.held u i hi
      exact ⟨h1, by omega, h3⟩
  · intro u v i hi hv
    by_cases hu : u = t
    · subst hu
      rw [Function.update_self, hself] at hi
      cases hi
      by_contra hne
      rw [Function.update_of_ne (Ne.symm hne)] at hv
      exact hfresh v hv
    · rw [Function.update_of_ne hu] at hi
      by_cases hvt : v = t
      · subst hvt
        rw [Function.update_self, hself] at hv
        cases hv
        exact absurd hi (hfresh u)
      · rw [Function.update_of_ne hvt] at hv
        exact h.distinct u v i hi hv
  · intro u i chunk item hi hq
    by_cases hu : u = t
    · subst hu; rw [Function.update_self] at hi; cases hi
    · rw [Function.update_of_ne hu] at hi
      exact h.got u i chunk item hi hq

/-- A producer's download succeeds. -/
theorem downloadOk (h : QueueInv download d p) (hp : p t = .downloading i)
    (hq : d.queue[i]? = some item) :
    QueueInv download d (Function.update p t (.downloaded i (download item.url))) := by
  have hidx : ∀ u, (Function.update p t (.downloaded i (download item.url)) u).index? =
      (p u).index? := by
    intro u
    by_cases hu : u = t
    · subst hu; rw [Function.update_self, hp]; rfl
    · rw [Function.update_of_ne hu]
  refine ⟨h.size, h.size_lt, h.heads, h.head_le, h.window, h.slots, ?_, ?_, ?_⟩
  · intro u j hj
    exact h.held u j (hidx u ▸ hj)
  · intro u v j hu hv
    exact h.distinct u v j (hidx u ▸ hu) (hidx v ▸ hv)
  · intro u j chunk item' hj hq'
    by_cases hu : u = t
    · subst hu
      rw [Function.update_self] at hj
      cases hj
      rw [hq] at hq'
      cases hq'
      rfl
    · rw [Function.update_of_ne hu] at hj
      exact h.got u j chunk item' hj hq'

/-- A producer stores its chunk and moves to a place without an index. -/
theorem post (h : QueueInv download d p) (hp : p t = .downloaded i chunk)
    {pc : ProducerPc Row} (hpc : pc.index? = none) :
    QueueInv download (d.setChunk i (some chunk)) (Function.update p t pc) := by
  obtain ⟨h1, h2, -⟩ := h.held t i (by rw [hp]; rfl)
  refine ⟨by rw [length_setChunk]; exact h.size, h.size_lt, h.heads, h.head_le, h.window, ?_, ?_,
    (h.setProducer hpc).distinct, ?_⟩
  · intro j item' chunk' hq hc
    obtain ⟨item, hq₀, hurl, -, hch⟩ := item_of_setChunk hq
    by_cases hij : i = j
    · subst hij
      rw [if_pos rfl, hc] at hch
      cases hch
      exact ⟨h1, h2, by rw [hurl]; exact h.got t i chunk item hp hq₀⟩
    · rw [if_neg hij, hc] at hch
      rw [hurl]
      exact h.slots j item chunk' hq₀ hch.symm
  · intro u j hj
    by_cases hu : u = t
    · subst hu; rw [Function.update_self, hpc] at hj; cases hj
    · rw [Function.update_of_ne hu] at hj
      obtain ⟨h3, h4, h5⟩ := h.held u j hj
      refine ⟨h3, h4, fun item' hq => ?_⟩
      obtain ⟨item, hq₀, -, -, hch⟩ := item_of_setChunk hq
      have hij : i ≠ j := fun hij => hu (h.distinct u t j hj (by rw [hp, hij]; rfl))
      rw [hch, if_neg hij]
      exact h5 item hq₀
  · intro u j chunk' item' hj hq
    obtain ⟨item, hq₀, hurl, -, -⟩ := item_of_setChunk hq
    rw [hurl]
    exact (h.setProducer hpc).got u j chunk' item hj hq₀

/-- The fetching thread takes the chunk at its head. -/
theorem takeChunk (h : QueueInv download d p) (hq : d.queue[d.consumerHead]? = some item)
    (hc : item.chunk = some chunk) :
    QueueInv download
      ({ d with consumerHead := incU64 d.consumerHead }.setChunk d.consumerHead none) p := by
  obtain ⟨-, hlt, -⟩ := h.slots _ item chunk hq hc
  have hinc : incU64 d.consumerHead = d.consumerHead + 1 :=
    incU64_of_lt (Nat.lt_of_lt_of_le hlt h.head_le) h.size_lt
  have hwindow := h.window
  refine ⟨by rw [length_setChunk]; exact h.size, h.size_lt, ?_, h.head_le, ?_, ?_, ?_,
    h.distinct, ?_⟩
  · show incU64 d.consumerHead ≤ d.producerHead
    omega
  · show d.producerHead ≤ incU64 d.consumerHead + d.threadCount
    omega
  · intro j item' chunk' hq' hc'
    obtain ⟨item₀, hq₀, hurl, -, hch⟩ := item_of_setChunk hq'
    by_cases hj : d.consumerHead = j
    · rw [if_pos hj, hc'] at hch; cases hch
    · rw [if_neg hj, hc'] at hch
      obtain ⟨h1, h2, h3⟩ := h.slots j item₀ chunk' hq₀ hch.symm
      exact ⟨by show incU64 d.consumerHead ≤ j; omega, h2, by rw [hurl]; exact h3⟩
  · intro u j hj
    obtain ⟨h1, h2, h3⟩ := h.held u j hj
    have hne : d.consumerHead ≠ j := by
      rintro rfl
      rw [h3 item hq] at hc
      cases hc
    refine ⟨by show incU64 d.consumerHead ≤ j; omega, h2, fun item' hq' => ?_⟩
    obtain ⟨item₀, hq₀, -, -, hch⟩ := item_of_setChunk hq'
    rw [hch, if_neg hne]
    exact h3 item₀ hq₀
  · intro u j chunk' item' hj hq'
    obtain ⟨item₀, hq₀, hurl, -, -⟩ := item_of_setChunk hq'
    rw [hurl]
    exact h.got u j chunk' item₀ hj hq₀

end QueueInv

/-! ## A fresh queue -/

/-- The URLs of a reply's chunks. -/
def Reply.urls (r : Reply Row) : List String :=
  match r.chunks with
  | some (some chunks) => chunks.items.filterMap (·.url)
  | _ => []

theorem fillQueue_urls {chunks : List ChunkJson} {queue : List (QueueItem Row)}
    (h : fillQueue chunks = some queue) :
    queue.map (·.url) = chunks.filterMap (·.url) ∧ queue.length = chunks.length ∧
      ∀ item ∈ queue, item.chunk = none := by
  induction chunks generalizing queue with
  | nil => cases h; simp
  | cons c chunks ih =>
    simp only [fillQueue] at h
    split at h
    · rename_i url _ hu _
      obtain ⟨queue', hq, rfl⟩ := Option.map_eq_some_iff.mp h
      obtain ⟨h1, h2, h3⟩ := ih hq
      refine ⟨by simp [hu, h1], by simp [h2], ?_⟩
      rintro item (_ | ⟨_, hm⟩)
      · rfl
      · exact h3 item hm
    · cases h

/-- The downloader that a reply gives, and how the code gets it. -/
structure Fresh (r : Reply Row) (N : Nat) (d : ChunkDownloader Row) : Prop where
  threads : 0 < N
  threadCount : d.threadCount = 0
  producerHead : d.producerHead = 0
  consumerHead : d.consumerHead = 0
  size : d.queueSize = d.queue.length
  size_lt : d.queue.length < 2 ^ 31
  running : d.getShutdownOrError = false
  urls : d.queue.map (·.url) = r.urls
  empty : ∀ item ∈ d.queue, item.chunk = none

theorem chunkDownloaderInit_fresh {r : Reply Row} {slots : Nat} {chunks : Option ChunkArray}
    {d : ChunkDownloader Row} (hr : r.chunks = some chunks)
    (h : chunkDownloaderInit N slots chunks = some d) : Fresh r N d := by
  unfold chunkDownloaderInit at h
  split at h
  · cases h
  · rename_i hn
    split at h
    · cases h
    · rename_i chunks
      split at h
      · cases h
      · rename_i queue hq
        obtain ⟨h1, h2, h3⟩ := fillQueue_urls hq
        cases h
        exact ⟨by omega, rfl, rfl, rfl, rfl, h2 ▸ chunks.length_lt, rfl,
          by rw [h1]; simp [Reply.urls, hr], h3⟩

/-- The reply has a result set and a `chunks` member: it replaces the downloader. -/
def Reply.Chunked (r : Reply Row) : Prop := r.rowset.isSome = true ∧ r.chunks.isSome = true

/-- What `snowflake_execute` does to the downloader: a fresh one, with no thread created, none,
or the old one with its threads. -/
theorem execute_cases (pg : Bool) (c : Client N K Row) (r : Reply Row) :
    (pg = false ∧ r.Chunked ∧ ((c.execute pg r).stmt.chunkDownloader = none ∨
      ∃ d, (c.execute pg r).stmt.chunkDownloader = some d ∧ Fresh r N d ∧
        (c.execute pg r).init = .create 0 ∧ ∀ t, (c.execute pg r).producers t = .absent)) ∨
    (¬ (pg = false ∧ r.Chunked) ∧
      (c.execute pg r).stmt.chunkDownloader = c.stmt.chunkDownloader ∧
      (c.execute pg r).init = c.init ∧ (c.execute pg r).producers = c.producers) := by
  unfold Client.execute
  by_cases hr : (!pg && r.rowset.isSome && r.chunks.isSome) = true
  · left
    simp only [Bool.and_eq_true, Bool.not_eq_true'] at hr
    obtain ⟨⟨rfl, hrow⟩, hch⟩ := hr
    obtain ⟨rowset, hrow'⟩ := Option.isSome_iff_exists.mp hrow
    obtain ⟨chunks, hch'⟩ := Option.isSome_iff_exists.mp hch
    refine ⟨rfl, ⟨hrow, hch⟩, ?_⟩
    simp only [executeEx, hrow', hch', Option.isSome_some, Bool.not_false, Bool.and_self,
      ↓reduceIte, Bool.false_eq_true]
    cases hd : (chunkDownloaderInit N 4 chunks : Option (ChunkDownloader Row)) with
    | none => exact .inl rfl
    | some d => exact .inr ⟨d, rfl, chunkDownloaderInit_fresh hch' hd, rfl, fun _ => trivial⟩
  · right
    refine ⟨fun ⟨hp, h1, h2⟩ => hr (by simp [hp, h1, h2]), ?_⟩
    rw [if_neg hr]
    refine ⟨?_, rfl, rfl⟩
    simp only [executeEx]
    cases pg with
    | true => rfl
    | false =>
      cases hrow : r.rowset with
      | none => rfl
      | some rowset =>
        cases hch : r.chunks with
        | none => rfl
        | some chunks => simp [hrow, hch] at hr

theorem Fresh.queueInv {r : Reply Row} {d : ChunkDownloader Row} (h : Fresh r N d)
    {p : Fin N → ProducerPc Row} (hp : ∀ t, p t = .absent) : QueueInv download d p where
  size := h.size
  size_lt := by have := h.size_lt; rw [h.size]; omega
  heads := by rw [h.consumerHead]; omega
  head_le := by rw [h.producerHead]; omega
  window := by rw [h.producerHead]; omega
  slots i item chunk hq hc := by
    rw [h.empty item (List.mem_of_getElem? hq)] at hc
    cases hc
  held t i hi := by rw [hp t] at hi; cases hi
  distinct t u i hi := by rw [hp t] at hi; cases hi
  got t i chunk item hi := by rw [hp t] at hi; cases hi

/-! ## The invariant of the statement -/

/-- The thread creation loop of `chunk_downloader_init`: which threads exist, and how many of
them are counted. -/
def InitInv (init : InitPc) (threadCount : Nat) (p : Fin N → ProducerPc Row) : Prop :=
  match init with
  | .create i => i < N ∧ threadCount = i ∧ ∀ t : Fin N, p t = .absent ↔ i ≤ t
  | .count i => i < N ∧ threadCount = i ∧ ∀ t : Fin N, p t = .absent ↔ i < t
  | .done => 0 < N ∧ threadCount = N ∧ ∀ t, p t ≠ .absent
  | .failed => threadCount < N

namespace InitInv

variable {init : InitPc} {n : Nat} {p p' : Fin N → ProducerPc Row} {t : Fin N}

/-- Threads that exist may move. -/
theorem producers (h : InitInv init n p) (hp : ∀ t, p' t = .absent ↔ p t = .absent) :
    InitInv init n p' := by
  cases init with
  | create i => exact ⟨h.1, h.2.1, fun t => (hp t).trans (h.2.2 t)⟩
  | count i => exact ⟨h.1, h.2.1, fun t => (hp t).trans (h.2.2 t)⟩
  | done => exact ⟨h.1, h.2.1, fun t ht => h.2.2 t ((hp t).mp ht)⟩
  | failed => exact h

theorem setProducer (h : InitInv init n p) (ht : p t ≠ .absent) {pc : ProducerPc Row}
    (hpc : pc ≠ .absent) : InitInv init n (Function.update p t pc) :=
  h.producers fun u => by
    by_cases hu : u = t
    · subst hu; simp [ht, hpc]
    · rw [Function.update_of_ne hu]

theorem signal (h : InitInv init n p) {w : Option (Fin N)}
    (hs : producerCond.signal p w = some p') : InitInv init n p' :=
  h.producers fun t => by
    rcases CondVar.signal_thread hs t with e | ⟨ha, e⟩
    · rw [e]
    · rw [e]
      refine ⟨nofun, fun ht => ?_⟩
      rw [ht] at ha
      cases ha

theorem broadcast (h : InitInv init n p) : InitInv init n (producerCond.broadcast p) :=
  h.producers fun t => by
    show producerCond.notify (p t) = .absent ↔ p t = .absent
    cases p t <;> simp [CondVar.notify, producerCond]

end InitInv

theorem ProducerPc.AtCheck.ne_absent {pc : ProducerPc Row} (h : pc.AtCheck) : pc ≠ .absent := by
  rcases h with rfl | rfl <;> exact nofun

theorem ProducerPc.AtCheck.index?_eq {pc : ProducerPc Row} (h : pc.AtCheck) :
    pc.index? = none := by
  rcases h with rfl | rfl <;> rfl

/-- The invariant of a statement with the downloader `d`. -/
structure DownloaderInv (download : String → List Row) (d : ChunkDownloader Row)
    (c : Client N K Row) : Prop where
  queue : QueueInv download d c.producers
  init : InitInv c.init d.threadCount c.producers
  sleeper : ∀ i, c.fetcher.index? = some i →
    i = d.consumerHead ∧ i < d.queueSize ∧ c.init = .done

/-- The invariant of the statement. -/
def ClientInv (download : String → List Row) (c : Client N K Row) : Prop :=
  ∀ d, c.stmt.chunkDownloader = some d → DownloaderInv download d c

variable {c c' : Client N K Row} {d d' : ChunkDownloader Row} {e : Event N K Row}
  {outs : List (Output N Row)}

theorem ClientInv.of_some (hd : c.stmt.chunkDownloader = some d)
    (h : DownloaderInv download d c) : ClientInv download c := by
  intro d' hd'
  rw [hd] at hd'
  cases hd'
  exact h

theorem ClientInv.of_none (hd : c.stmt.chunkDownloader = none) : ClientInv download c := by
  intro d hd'
  rw [hd] at hd'
  cases hd'

theorem ClientInv.prepared : ClientInv download (Client.prepared : Client N K Row) := .of_none rfl

/-- During thread creation the fetching thread is not in a fetch. -/
theorem DownloaderInv.not_waiting (h : DownloaderInv download d c) (hi : c.init ≠ .done) (i : Nat) :
    c.fetcher.index? ≠ some i :=
  fun hfi => hi (h.sleeper i hfi).2.2

/-- At the wait loop of `snowflake_fetch` the thread looks at the chunk at its head. -/
theorem InSection.spec {rc : SignalRc N} {s : Stmt Row} {i : Nat} (hs : InSection c rc d e s i)
    (h : ClientInv download c) :
    c.stmt.chunkDownloader = some d ∧ s.chunkDownloader = some d ∧ i = d.consumerHead ∧
      i < d.queueSize ∧ c.init = .done ∧ DownloaderInv download d c := by
  cases hs with
  | fetch hf hi hd hl h0 he hlt => exact ⟨hd, hd, rfl, hlt, hi, h d hd⟩
  | resume hf hd hl =>
    obtain ⟨h1, h2, h3⟩ := (h d hd).sleeper i (by rw [hf]; rfl)
    exact ⟨hd, hd, h1, h2, h3, h d hd⟩

namespace DownloaderInv

/-- A producer that exists moves to a place without an index. -/
theorem setProducer (h : DownloaderInv download d c) {t : Fin N} (ht : c.producers t ≠ .absent)
    {pc : ProducerPc Row} (hpc : pc.index? = none) (hpc' : pc ≠ .absent) :
    DownloaderInv download d (c.setProducer t pc) :=
  ⟨h.queue.setProducer hpc, h.init.setProducer ht hpc', h.sleeper⟩

/-- The flags and the fetching thread's notification are not part of the invariant. -/
theorem flags (h : DownloaderInv download d c) (b b' : Bool) (hp : c'.producers = c.producers)
    (hi : c'.init = c.init) (hf : c'.fetcher.index? = c.fetcher.index?) :
    DownloaderInv download { d with isShutdown := b, hasError := b' } c' := by
  refine ⟨?_, ?_, ?_⟩
  · rw [hp]; exact h.queue.flags b b'
  · rw [hp, hi]; exact h.init
  · rw [hf, hi]; exact h.sleeper

theorem recordError (h : DownloaderInv download d c) (err : Status) :
    DownloaderInv download { d with hasError := true } (c.recordError d err) :=
  h.flags d.isShutdown true (recordError_producers ..) (recordError_init ..)
    (by rw [recordError_fetcher])

/-- The fetching thread took the chunk at its head and returned. -/
theorem takeChunk (h : DownloaderInv download d c) {item : QueueItem Row} {chunk : List Row}
    (hq : d.queue[d.consumerHead]? = some item) (hc : item.chunk = some chunk)
    {p : Fin N → ProducerPc Row} {w : Option (Fin N)}
    (hp : p = c.producers ∨ producerCond.signal c.producers w = some p)
    (hp' : c'.producers = p) (hi : c'.init = c.init) (hf : c'.fetcher = .idle) :
    DownloaderInv download
      ({ d with consumerHead := incU64 d.consumerHead }.setChunk d.consumerHead none) c' := by
  refine ⟨?_, ?_, fun i hfi => by rw [hf] at hfi; cases hfi⟩
  · rw [hp']
    rcases hp with rfl | hs
    · exact h.queue.takeChunk hq hc
    · exact (h.queue.takeChunk hq hc).signal hs
  · rw [hp', hi]
    rcases hp with rfl | hs
    · exact h.init
    · exact h.init.signal hs

/-- A new downloader, with no thread created. -/
theorem fresh {r : Reply Row} (hd : Fresh r N d) (hi : c.init = .create 0)
    (hp : ∀ t, c.producers t = .absent) (hf : c.fetcher = .idle) :
    DownloaderInv download d c where
  queue := hd.queueInv hp
  init := by rw [hi]; exact ⟨hd.threads, hd.threadCount, fun t => by simp [hp t]⟩
  sleeper i hfi := by rw [hf] at hfi; cases hfi

end DownloaderInv

/-- Every move keeps the invariant. -/
theorem Move.clientInv (hN : N < 2 ^ 64) (hm : Move download pg c e c' outs)
    (h : ClientInv download c) : ClientInv download c' := by
  cases hm with
  | execute hf hi ht =>
    rename_i r
    rcases execute_cases pg c r with ⟨-, -, hd | ⟨d, hd, hfr, hi', hp⟩⟩ | ⟨-, hd, hi', hp⟩
    · exact .of_none hd
    · exact .of_some hd (.fresh hfr hi' hp (by rw [execute_fetcher, hf]))
    · intro d hd'
      have hinv := h d (hd ▸ hd')
      exact ⟨by rw [hp]; exact hinv.queue, by rw [hi', hp]; exact hinv.init,
        by rw [hi', execute_fetcher]; exact hinv.sleeper⟩
  | spawn hd hi hlt =>
    rename_i d i
    have hinv := h d hd
    have hinit := hinv.init
    rw [hi] at hinit
    obtain ⟨h1, h2, h3⟩ := hinit
    refine .of_some hd ⟨hinv.queue.setProducer rfl, ⟨h1, h2, fun t => ?_⟩, fun j hj => ?_⟩
    · show Function.update c.producers _ _ t = _ ↔ _
      by_cases ht : t = ⟨i, hlt⟩
      · subst ht; simp
      · have hne : (t : Nat) ≠ i := fun e => ht (Fin.ext e)
        rw [Function.update_of_ne ht, h3 t]
        omega
    · exact absurd hj (hinv.not_waiting (by rw [hi]; exact nofun) j)
  | spawnFail hd hi =>
    rename_i d i
    have hinv := h d hd
    have hinit := hinv.init
    rw [hi] at hinit
    obtain ⟨h1, h2, -⟩ := hinit
    refine .of_some hd ⟨hinv.queue, by show d.threadCount < N; omega, fun j hj => ?_⟩
    exact absurd hj (hinv.not_waiting (by rw [hi]; exact nofun) j)
  | countThread hd hi =>
    rename_i d i
    have hinv := h d hd
    have hinit := hinv.init
    rw [hi] at hinit
    obtain ⟨h1, h2, h3⟩ := hinit
    have hinc : incU64 d.threadCount = i + 1 := by
      rw [incU64_of_lt (b := N) (by omega) hN, h2]
    refine .of_some rfl ⟨hinv.queue.countThread (by omega), ?_, fun j hj => ?_⟩
    · show InitInv (if i + 1 < N then .create (i + 1) else .done) (incU64 d.threadCount) _
      rw [hinc]
      split
      · exact ⟨by assumption, rfl, h3⟩
      · refine ⟨by omega, by omega, fun t ht => ?_⟩
        have hlt := (h3 t).mp ht
        omega
    · exact absurd hj (hinv.not_waiting (by rw [hi]; exact nofun) j)
  | sleep hd hl hp hw => exact .of_some hd ((h _ hd).setProducer hp.ne_absent rfl nofun)
  | leave hd hl hp hw hs => exact .of_some hd ((h _ hd).setProducer hp.ne_absent rfl nofun)
  | take hd hl hp hw hs =>
    have hinv := h _ hd
    exact .of_some rfl
      ⟨hinv.queue.take hw hs, hinv.init.setProducer hp.ne_absent nofun, hinv.sleeper⟩
  | downloadOk hd hp hq =>
    have hinv := h _ hd
    exact .of_some hd ⟨hinv.queue.downloadOk hp hq,
      hinv.init.setProducer (by rw [hp]; exact nofun) nofun, hinv.sleeper⟩
  | downloadFail hd hp =>
    refine .of_some (recordError_downloader ..) (((h _ hd).recordError _).setProducer ?_ rfl nofun)
    rw [recordError_producers, hp]
    exact nofun
  | postLate hd hl hp he =>
    exact .of_some hd ((h _ hd).setProducer (by rw [hp]; exact nofun) rfl nofun)
  | post hd hl hp he =>
    have hinv := h _ hd
    exact .of_some rfl ⟨hinv.queue.post hp rfl,
      hinv.init.setProducer (by rw [hp]; exact nofun) nofun, by simpa using hinv.sleeper⟩
  | postFail hd hl hp he =>
    rename_i d t i chunk
    have hinv := h _ hd
    refine .of_some (recordError_downloader ..)
      ⟨?_, ?_, by simpa using hinv.sleeper⟩
    · rw [setProducer_producers, recordError_producers]
      exact (hinv.queue.post hp rfl).flags d.isShutdown true
    · rw [setProducer_producers, recordError_producers, setProducer_init, recordError_init]
      exact hinv.init.setProducer (by rw [hp]; exact nofun) nofun
  | wakeProducer hd hp =>
    exact .of_some hd ((h _ hd).setProducer (by rw [hp]; exact nofun) rfl nofun)
  | wakeFetcher hd hf =>
    have hinv := h _ hd
    exact .of_some hd ⟨hinv.queue, hinv.init, fun i hi => hinv.sleeper i (by rw [hf]; exact hi)⟩
  | fetchError hf hi hd he => exact .of_some hd ⟨(h _ hd).queue, (h _ hd).init, nofun⟩
  | fetchEof hf hi hd h0 => exact .of_none hd
  | fetchEnd hf hi hd he hl h0 hq => exact .of_some hd ⟨(h _ hd).queue, (h _ hd).init, nofun⟩
  | fetchRow hf hi hd h0 => exact fun d hd' => ⟨(h d hd').queue, (h d hd').init, nofun⟩
  | fetchSleep hs hq hc hn =>
    obtain ⟨hd, hd', rfl, hlt, hi, hinv⟩ := hs.spec h
    refine .of_some hd' ⟨hinv.queue, hinv.init, fun j hj => ?_⟩
    cases hj
    exact ⟨rfl, hlt, hi⟩
  | fetchFail hs hq hn =>
    obtain ⟨hd, hd', -, -, -, hinv⟩ := hs.spec h
    exact .of_some hd' ⟨hinv.queue, hinv.init, nofun⟩
  | fetchSignalFail hs hq hc hn =>
    obtain ⟨hd, hd', rfl, -, -, hinv⟩ := hs.spec h
    exact .of_some rfl (hinv.takeChunk (w := none) hq hc (.inl rfl) rfl rfl rfl)
  | fetchTake hs hq hc hn hw =>
    obtain ⟨hd, hd', rfl, -, -, hinv⟩ := hs.spec h
    exact .of_some rfl (hinv.takeChunk hq hc (.inr hw) rfl rfl rfl)
  | termAgain hd hl hk hi hs =>
    simp only [Client.term, hs, ↓reduceIte]
    exact .of_some hd ⟨(h _ hd).queue, (h _ hd).init, (h _ hd).sleeper⟩
  | term hd hl hk hi hs =>
    rename_i d k rc
    have hinv := h _ hd
    simp only [Client.term, hs, Bool.false_eq_true, ↓reduceIte]
    cases rc with
    | ok =>
      refine .of_some rfl ⟨(hinv.queue.flags true d.hasError).broadcast, hinv.init.broadcast, ?_⟩
      simpa using hinv.sleeper
    | consumerFails =>
      refine .of_some (recordError_downloader ..) (hinv.flags true true ?_ ?_ ?_) <;> simp
    | producerFails =>
      refine .of_some (recordError_downloader ..) (hinv.flags true true ?_ ?_ ?_) <;> simp
  | join hd hk hlt hx hc => exact .of_some hd ⟨(h _ hd).queue, (h _ hd).init, (h _ hd).sleeper⟩
  | free hd hk hc => exact .of_none rfl

/-! ## What the producers and the fetching thread take -/

/-- The indices that the producers took, each with its producer, in order. -/
def indicesTaken (outs : List (Output N Row)) : List (Fin N × Nat) :=
  outs.filterMap fun
    | .indexTaken t i => some (t, i)
    | _ => none

/-- The chunks that the fetching thread took, each with its index, in order. -/
def chunksTaken (outs : List (Output N Row)) : List (Nat × Option (List Row)) :=
  outs.filterMap fun
    | .chunkTaken i chunk => some (i, chunk)
    | _ => none

@[simp] theorem indicesTaken_append (outs o : List (Output N Row)) :
    indicesTaken (outs ++ o) = indicesTaken outs ++ indicesTaken o :=
  List.filterMap_append

@[simp] theorem chunksTaken_append (outs o : List (Output N Row)) :
    chunksTaken (outs ++ o) = chunksTaken outs ++ chunksTaken o :=
  List.filterMap_append

def Event.isExecute : Event N K Row → Bool
  | .execute _ => true
  | _ => false

/-- The step is not a `snowflake_execute`. -/
def NoExecute (_ : Client N K Row) (e : Event N K Row) : Prop := e.isExecute = false

theorem InSection.noExecute {rc : SignalRc N} {d : ChunkDownloader Row} {s : Stmt Row} {i : Nat}
    (hs : InSection c rc d e s i) : NoExecute c e := by
  cases hs <;> rfl

/-- The outputs of a downloader with the heads `p` and `k`: the producers took `0 .. p - 1`, and
the fetching thread took the chunks `0 .. k - 1`, each with the contents of its URL. -/
structure Taken (download : String → List Row) (urls : List String) (outs : List (Output N Row))
    (p k : Nat) : Prop where
  heads : k ≤ p
  head_le : p ≤ urls.length
  indices : (indicesTaken outs).map Prod.snd = List.range p
  chunks : chunksTaken outs = (List.range k).map fun i => (i, urls[i]?.map download)

/-- `Taken` for the statement's downloader, or for the one that `chunk_downloader_term` freed. -/
def TakenInv (download : String → List Row) (urls : List String) (outs : List (Output N Row))
    (c : Client N K Row) : Prop :=
  ∃ p k, Taken download urls outs p k ∧ ∀ d, c.stmt.chunkDownloader = some d →
    d.producerHead = p ∧ d.consumerHead = k ∧ d.queue.map (·.url) = urls

namespace TakenInv

variable {urls : List String} {o : List (Output N Row)}

/-- A step that moves no head. -/
theorem keep (h : TakenInv download urls outs c)
    (hd : ∀ d', c'.stmt.chunkDownloader = some d' → ∃ d, c.stmt.chunkDownloader = some d ∧
      d'.producerHead = d.producerHead ∧ d'.consumerHead = d.consumerHead ∧
      d'.queue.map (·.url) = d.queue.map (·.url))
    (hi : indicesTaken o = []) (hc : chunksTaken o = []) :
    TakenInv download urls (outs ++ o) c' := by
  obtain ⟨p, k, ht, hheads⟩ := h
  refine ⟨p, k, ⟨ht.heads, ht.head_le, ?_, ?_⟩, fun d' hd' => ?_⟩
  · rw [indicesTaken_append, hi, List.append_nil]
    exact ht.indices
  · rw [chunksTaken_append, hc, List.append_nil]
    exact ht.chunks
  · obtain ⟨d, hd₀, h1, h2, h3⟩ := hd d' hd'
    rw [h1, h2, h3]
    exact hheads d hd₀

/-- `keep` for a step that keeps the downloader. -/
theorem keep_same (h : TakenInv download urls outs c)
    (hd : c'.stmt.chunkDownloader = c.stmt.chunkDownloader)
    (hi : indicesTaken o = []) (hc : chunksTaken o = []) :
    TakenInv download urls (outs ++ o) c' :=
  h.keep (fun d' hd' => ⟨d', hd ▸ hd', rfl, rfl, rfl⟩) hi hc

/-- `keep` for a step that changes flags, counters or slots. -/
theorem keep_some (h : TakenInv download urls outs c) (hd : c.stmt.chunkDownloader = some d)
    (hd' : c'.stmt.chunkDownloader = some d') (hp : d'.producerHead = d.producerHead)
    (hk : d'.consumerHead = d.consumerHead) (hu : d'.queue.map (·.url) = d.queue.map (·.url))
    (hi : indicesTaken o = []) (hc : chunksTaken o = []) :
    TakenInv download urls (outs ++ o) c' := by
  refine h.keep (fun d'' hd'' => ⟨d, hd, ?_⟩) hi hc
  rw [hd'] at hd''
  cases hd''
  exact ⟨hp, hk, hu⟩

/-- A producer takes an index. -/
theorem take (h : TakenInv download urls outs c) (hinv : DownloaderInv download d c)
    (hd : c.stmt.chunkDownloader = some d) (hs : d.producerStops = false)
    (hd' : c'.stmt.chunkDownloader = some { d with producerHead := incU64 d.producerHead })
    (t : Fin N) : TakenInv download urls (outs ++ [Output.indexTaken t d.producerHead]) c' := by
  obtain ⟨p, k, ht, hheads⟩ := h
  obtain ⟨rfl, rfl, rfl⟩ := hheads d hd
  simp only [ChunkDownloader.producerStops, Bool.or_eq_false_iff, decide_eq_false_iff_not,
    Nat.not_le] at hs
  have hinc : incU64 d.producerHead = d.producerHead + 1 :=
    incU64_of_lt hs.2 hinv.queue.size_lt
  refine ⟨d.producerHead + 1, d.consumerHead, ⟨Nat.le_succ_of_le ht.heads, ?_, ?_, ?_⟩, ?_⟩
  · rw [List.length_map, ← hinv.queue.size]
    exact hs.2
  · rw [indicesTaken_append, List.map_append, ht.indices, List.range_succ]
    rfl
  · rw [chunksTaken_append, ht.chunks]
    exact List.append_nil _
  · intro d'' hd''
    rw [hd'] at hd''
    cases hd''
    exact ⟨hinc, rfl, rfl⟩

/-- The fetching thread takes the chunk at its head. -/
theorem takeChunk (h : TakenInv download urls outs c) (hinv : DownloaderInv download d c)
    (hd : c.stmt.chunkDownloader = some d) {item : QueueItem Row} {chunk : List Row}
    (hq : d.queue[d.consumerHead]? = some item) (hc : item.chunk = some chunk)
    (hd' : c'.stmt.chunkDownloader =
      some ({ d with consumerHead := incU64 d.consumerHead }.setChunk d.consumerHead none))
    (status : Status) (row : Option Row) :
    TakenInv download urls
      (outs ++ [Output.chunkTaken d.consumerHead (some chunk), .fetchReturns status row]) c' := by
  obtain ⟨p, k, ht, hheads⟩ := h
  obtain ⟨rfl, rfl, rfl⟩ := hheads d hd
  obtain ⟨-, hlt, hchunk⟩ := hinv.queue.slots _ item chunk hq hc
  have hinc : incU64 d.consumerHead = d.consumerHead + 1 :=
    incU64_of_lt (Nat.lt_of_lt_of_le hlt hinv.queue.head_le) hinv.queue.size_lt
  refine ⟨d.producerHead, d.consumerHead + 1, ⟨hlt, ht.head_le, ?_, ?_⟩, ?_⟩
  · rw [indicesTaken_append, List.map_append, ht.indices]
    exact List.append_nil _
  · rw [chunksTaken_append, ht.chunks, List.range_succ, List.map_append]
    simp [chunksTaken, hq, hchunk]
  · intro d'' hd''
    rw [hd'] at hd''
    cases hd''
    exact ⟨rfl, hinc, map_setChunk _ fun _ _ => rfl⟩

/-- A chunk that was taken is the contents of its URL. -/
theorem url_of_mem (h : TakenInv download urls outs c) {i : Nat} {chunk : List Row}
    (hmem : .chunkTaken i (some chunk) ∈ outs) :
    ∃ url, urls[i]? = some url ∧ chunk = download url := by
  obtain ⟨p, k, ht, -⟩ := h
  have htaken : (i, some chunk) ∈ chunksTaken outs := List.mem_filterMap.mpr ⟨_, hmem, rfl⟩
  rw [ht.chunks, List.mem_map] at htaken
  obtain ⟨j, -, heq⟩ := htaken
  obtain ⟨rfl, hchunk⟩ := Prod.mk.inj heq
  obtain ⟨url, hurl, rfl⟩ := Option.map_eq_some_iff.mp hchunk
  exact ⟨url, hurl, rfl⟩

end TakenInv

/-- A move that is not a `snowflake_execute` keeps `TakenInv`. -/
theorem Move.takenInv {urls : List String} {o : List (Output N Row)}
    (hm : Move download pg c e c' o) (hx : NoExecute c e) (hinv : ClientInv download c)
    (h : TakenInv download urls outs c) : TakenInv download urls (outs ++ o) c' := by
  cases hm with
  | execute => cases hx
  | spawn | spawnFail | sleep | leave | downloadOk | postLate | wakeProducer | wakeFetcher
  | fetchError | fetchEof | fetchEnd | fetchRow | join => exact h.keep_same rfl rfl rfl
  | countThread hd hi => exact h.keep_some hd rfl rfl rfl rfl rfl rfl
  | take hd hl hp hw hs => exact h.take (hinv _ hd) hd hs rfl _
  | downloadFail hd hp => exact h.keep_some hd (recordError_downloader ..) rfl rfl rfl rfl rfl
  | post hd hl hp he =>
    exact h.keep_some hd rfl rfl rfl (map_setChunk _ fun _ _ => rfl) rfl rfl
  | postFail hd hl hp he =>
    exact h.keep_some hd (recordError_downloader ..) rfl rfl (map_setChunk _ fun _ _ => rfl)
      rfl rfl
  | fetchSleep hs hq hc hn =>
    obtain ⟨hd, hd', -⟩ := hs.spec hinv
    exact h.keep_some hd hd' rfl rfl rfl rfl rfl
  | fetchFail hs hq hn =>
    obtain ⟨hd, hd', -⟩ := hs.spec hinv
    exact h.keep_some hd hd' rfl rfl rfl rfl rfl
  | fetchSignalFail hs hq hc hn =>
    obtain ⟨hd, -, rfl, -, -, hi⟩ := hs.spec hinv
    exact h.takeChunk hi hd hq hc rfl _ _
  | fetchTake hs hq hc hn hw =>
    obtain ⟨hd, -, rfl, -, -, hi⟩ := hs.spec hinv
    exact h.takeChunk hi hd hq hc rfl _ _
  | termAgain hd hl hk hi hs =>
    refine h.keep_same ?_ rfl rfl
    simp only [Client.term, hs, ↓reduceIte]
  | term hd hl hk hi hs =>
    rename_i d k rc
    obtain ⟨b, hd'⟩ := term_downloader c d k rc hs
    exact h.keep_some hd hd' rfl rfl rfl rfl rfl
  | free hd hk hc => exact h.keep (fun d' hd' => by cases hd') rfl rfl

/-! ## What the statement gets -/

/-- What a fetch that takes chunk `i` outputs and leaves in the statement: the first row of the
chunk and the rest of it, or all of it if the signal to the producers fails. -/
inductive Received (i : Nat) (chunk : List Row) (s : Stmt Row) : List (Output N Row) → Prop
  | row : s.curRow = chunk.head? → s.rawResults = some chunk.tail →
      Received i chunk s [.chunkTaken i (some chunk), .fetchReturns .success chunk.head?]
  | signalFails {row : Option Row} : s.rawResults = some chunk →
      Received i chunk s [.chunkTaken i (some chunk), .fetchReturns .errorGeneral row]

theorem fetchRow_takeChunk (s : Stmt Row) (d : ChunkDownloader Row) (i : Nat)
    {item : QueueItem Row} {chunk : List Row} (hc : item.chunk = some chunk) :
    (fetchRow (takeChunk s d i item)).curRow = chunk.head? ∧
      (fetchRow (takeChunk s d i item)).rawResults = some chunk.tail := by
  simp [fetchRow, takeChunk, hc]

/-- A move that takes a chunk is a fetch. -/
theorem Move.received {o : List (Output N Row)} {i : Nat} {chunk : Option (List Row)}
    (hm : Move download pg c e c' o) (ho : .chunkTaken i chunk ∈ o) :
    NoExecute c e ∧ ∃ rows, chunk = some rows ∧ Received i rows c'.stmt o := by
  cases hm with
  | fetchSignalFail hs hq hc hn =>
    obtain ⟨rfl, rfl⟩ : i = _ ∧ chunk = _ := by simpa using ho
    exact ⟨hs.noExecute, _, rfl, .signalFails hc⟩
  | fetchTake hs hq hc hn hw =>
    obtain ⟨rfl, rfl⟩ : i = _ ∧ chunk = _ := by simpa using ho
    obtain ⟨hrow, hrest⟩ := fetchRow_takeChunk _ _ i hc
    rw [hrow]
    exact ⟨hs.noExecute, _, rfl, .row hrow hrest⟩
  | _ => simp at ho

/-! ## Every run -/

/-- The invariant holds in every state that a run from a prepared statement reaches. -/
theorem clientInv_of_run (hN : N < 2 ^ 64) {C : Client N K Row → Event N K Row → Prop}
    (h : (client download pg N K).Run C .prepared outs c) : ClientInv download c :=
  h.state_inv .prepared fun _ _ _ _ hi _ hs => (step_move hs).clientInv hN hi

/-- After an execute that brings a downloader, nothing is taken. -/
theorem takenInv_execute (c : Client N K Row) {r : Reply Row} (hr : r.Chunked) :
    TakenInv download r.urls ([] : List (Output N Row)) (c.execute false r) := by
  refine ⟨0, 0, ⟨Nat.le_refl _, Nat.zero_le _, rfl, rfl⟩, fun d hd => ?_⟩
  rcases execute_cases false c r with ⟨-, -, hn | ⟨d', hd', hfr, -⟩⟩ | ⟨hn, -⟩
  · rw [hn] at hd; cases hd
  · rw [hd'] at hd
    cases hd
    exact ⟨hfr.producerHead, hfr.consumerHead, hfr.urls⟩
  · exact absurd ⟨rfl, hr⟩ hn

/-- The queue in every run. The statement is executed in any reachable state `c₀`, with a reply
that brings a downloader. Then, as long as that downloader lives, its heads are in order and at
most `thread_count` apart, so their `uint64` difference does not wrap; a slot is full only between
the heads, and holds the download of its URL; the producers take the indices `0, 1, ..`, each
once; and the fetching thread gets the chunks `0, 1, ..`, each once: the step that takes chunk `i`
leaves the contents of the URL at `i` in the statement. -/
theorem queue_in_order (hN : N < 2 ^ 64) {r : Reply Row} {c₀ c₁ : Client N K Row}
    {outs₀ o : List (Output N Row)}
    (h₀ : (client download false N K).Run Machine.Any .prepared outs₀ c₀)
    (hx : (client download false N K).step c₀ (.execute r) = some (c₁, o)) (hr : r.Chunked)
    (h : (client download false N K).Run NoExecute c₁ outs c) :
    ∃ p k, Taken download r.urls outs p k ∧
      (∀ e c' o' i chunk, (client download false N K).step c e = some (c', o') →
        .chunkTaken i chunk ∈ o' → ∃ url, r.urls[i]? = some url ∧ chunk = some (download url) ∧
          Received i (download url) c'.stmt o') ∧
      ∀ d, c.stmt.chunkDownloader = some d →
        d.producerHead = p ∧ d.consumerHead = k ∧ d.queue.map (·.url) = r.urls ∧
        d.consumerHead ≤ d.producerHead ∧ d.producerHead ≤ d.queueSize ∧
        d.producerHead - d.consumerHead ≤ d.threadCount ∧
        subU64 d.producerHead d.consumerHead = d.producerHead - d.consumerHead ∧
        ∀ i item chunk, d.queue[i]? = some item → item.chunk = some chunk →
          d.consumerHead ≤ i ∧ i < d.producerHead ∧ chunk = download item.url := by
  have hinv₁ : ClientInv download c₁ := (step_move hx).clientInv hN (clientInv_of_run hN h₀)
  have htaken₁ : TakenInv download r.urls ([] : List (Output N Row)) c₁ := by
    obtain ⟨-, -, rfl, -⟩ := step_execute hx
    exact takenInv_execute c₀ hr
  obtain ⟨hinv, p, k, ht, hheads⟩ :=
    h.inv (I := fun outs c => ClientInv download c ∧ TakenInv download r.urls outs c)
      ⟨hinv₁, htaken₁⟩ fun outs c e c' o ⟨hi, ht⟩ hc hs =>
        ⟨(step_move hs).clientInv hN hi, (step_move hs).takenInv hc hi ht⟩
  refine ⟨p, k, ht, fun e c' o' i chunk hs ho => ?_, fun d hd => ?_⟩
  · obtain ⟨hno, rows, rfl, hreceived⟩ := (step_move hs).received ho
    have hnext := (step_move hs).takenInv hno hinv ⟨p, k, ht, hheads⟩
    obtain ⟨url, hurl, rfl⟩ := hnext.url_of_mem (List.mem_append_right _ ho)
    exact ⟨url, hurl, rfl, hreceived⟩
  · obtain ⟨h1, h2, h3⟩ := hheads d hd
    have hq := (hinv d hd).queue
    have hw := hq.window
    exact ⟨h1, h2, h3, hq.heads, hq.head_le, by omega, hq.sub_heads, hq.slots⟩

/-- A reply with no row in the rowset and one chunk. -/
def oneChunk : Reply Nat where
  rowset := some []
  total := some 1
  chunks := some (some ⟨[⟨some "u", some 1⟩], by decide⟩)

/-- One producer and one chunk: the fetching thread gets it. -/
theorem queue_in_order_oneChunk :
    ∃ outs c, (client (fun _ => [7]) false 1 0).Run NoExecute
        (Client.prepared.execute false oneChunk) outs c ∧
      chunksTaken outs = [(0, some [7])] ∧
      ∃ p k, Taken (fun _ => [7]) oneChunk.urls outs p k := by
  obtain ⟨outs, c, hrun, hout⟩ :=
    Machine.exec_exists (M := client (fun _ => [7]) false 1 0)
      (s := Client.prepared.execute false oneChunk)
      (c := fun _ e => !e.isExecute)
      (p := fun r => decide (chunksTaken r.2 = [(0, some [7])]))
      [.spawn, .countThread, .check 0, .downloadOk 0, .post 0 true, .fetch (.ok none)]
      (by decide +kernel)
  have hrun' := hrun.mono (D := NoExecute) fun _ e he => by simpa [NoExecute] using he
  obtain ⟨p, k, ht, -, -⟩ := queue_in_order (by decide) (.nil) (r := oneChunk) rfl ⟨rfl, rfl⟩ hrun'
  exact ⟨outs, c, hrun', by simpa using hout, p, k, ht⟩

end Snowflake
