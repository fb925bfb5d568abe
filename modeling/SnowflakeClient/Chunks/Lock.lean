import SnowflakeClient.Chunks.Wakeup
import SnowflakeClient.Conc.Mutex

/-!
# `queue_lock`, instruction by instruction

The machine of `SnowflakeClient/Chunks/Model.lean` runs a critical section in one step. Here the
lock, the body of the section and the unlock are steps of their own, and any thread may move
between them. A thread locks and unlocks where the code does:

* `chunk_downloader_thread` has one unlock after its loop that all its `break`s share. Three of
  them hold the lock. The one after a failed download does not.
* `chunk_downloader_term` returns inside its locked region if the downloader is already shutting
  down, and skips the unlock if a broadcast fails.
* `snowflake_fetch` locks and unlocks once.

An observer sees each unlock and each return of one of the three functions, with the truth of
"this thread holds `queue_lock`" at that moment. `lock_discipline` says when all of it is right,
`lock_undisciplined` shows the two ways it goes wrong.
-/

namespace Snowflake

open CInt Conc

/-- The threads that use `queue_lock`. -/
inductive Tid (N K : Nat) where
  | producer (t : Fin N)
  | fetcher
  | term (k : Fin K)
  deriving DecidableEq

/-- The statement machine with its lock. -/
structure Locked (N K : Nat) (Row : Type) where
  core : Client N K Row
  lock : Mutex (Tid N K)

inductive LockEvent (N K : Nat) (Row : Type) where
  /-- A step outside the lock. -/
  | outside (e : Event N K Row)
  /-- `snowflake_fetch` up to its lock, or to its return without one. -/
  | fetchStart
  | lock (u : Tid N K)
  /-- The body of a critical section. -/
  | body (e : Event N K Row)
  | unlock (u : Tid N K)

inductive LockOutput (N K : Nat) where
  /-- `u` executed `_critical_section_unlock`. -/
  | unlocked (u : Tid N K) (holds : Bool)
  /-- `u`'s function returned. -/
  | returned (u : Tid N K) (holds : Bool)
  deriving DecidableEq

variable {N K : Nat} {Row : Type}

/-- The thread of a step. -/
def Event.thread : Event N K Row → Tid N K
  | .check t | .downloadOk t | .downloadFail t _ | .post t _ | .wakeProducer t => .producer t
  | .term k _ | .join k => .term k
  | _ => .fetcher

def Event.isOutside : Event N K Row → Bool
  | .spawn | .spawnFail | .countThread | .downloadOk _ | .downloadFail _ _ | .wakeProducer _
  | .wakeFetcher | .join _ => true
  | _ => false

namespace Client

/-- The body of a critical section. -/
def body (c : Client N K Row) (d : ChunkDownloader Row) : Event N K Row → Option (Client N K Row)
  | .check t =>
    match c.producers t with
    | .ready | .notified => some (c.check d t).1
    | _ => none
  | .post t signalled =>
    match c.producers t with
    | .downloaded index chunk => some (c.post d t index chunk signalled)
    | _ => none
  | .fetch rc =>
    match c.fetcher with
    | .idle =>
      if d.queueSize ≤ d.consumerHead then
        some (c.fetchReturn { c.stmt with rawResults := none } .eof).1
      else (c.fetchChunk c.stmt d d.consumerHead rc).map Prod.fst
    | _ => none
  | .resume rc =>
    match c.fetcher with
    | .notified index => (c.fetchChunk c.stmt d index rc).map Prod.fst
    | _ => none
  | .term k rc => some (c.term d k rc)
  | _ => none

/-- The thread is in `_cond_wait`. -/
def sleeps (c : Client N K Row) : Tid N K → Bool
  | .producer t => producerCond.asleep (c.producers t)
  | .fetcher => c.fetcher.isAsleep
  | .term _ => false

/-- The thread's next instruction, with no lock in its way so far, is a lock. -/
def atLock (c : Client N K Row) (place : LockPlace) : Tid N K → Bool
  | .producer t =>
    match c.producers t with
    | .ready | .notified | .downloaded _ _ => place == .out
    | _ => false
  | .fetcher =>
    match c.fetcher with
    | .idle => place == .wants
    | .notified _ => place == .out
    | .asleep _ => false
  | .term k =>
    place == .out && c.terms k == .idle && (c.init == .done || c.init == .failed)

/-- The thread's function returns after its unlock. -/
def returnsAfterUnlock (c : Client N K Row) : Tid N K → Bool
  | .producer t => (c.producers t).hasLeft
  | .fetcher => true
  | .term _ => false

end Client

namespace Locked

def start (c : Client N K Row) : Locked N K Row := ⟨c, .free⟩

/-- `snowflake_fetch` up to its lock, or to its return. -/
def fetchStart (s : Locked N K Row) : Locked N K Row × List (LockOutput N K) :=
  let stmt := fetchEnter s.core.stmt
  let done := [.returned .fetcher (s.lock.holds .fetcher)]
  if stmt.chunkDownloader.any (·.hasError) then
    ({ s with core := (s.core.fetchReturn stmt .errorGeneral).1 }, done)
  else if stmt.chunkRowcount = 0 then
    match stmt.chunkDownloader with
    | none => ({ s with core := (s.core.fetchReturn stmt .eof).1 }, done)
    | some _ => ({ core := { s.core with stmt }, lock := s.lock.goto .fetcher .wants }, [])
  else ({ s with core := (s.core.fetchReturn (fetchRow stmt) .success).1 }, done)

/-- Where a thread is after the body of its section: in `_cond_wait`, which drops the lock; at its
unlock; or, in `chunk_downloader_term`, past the unlock that it skipped. -/
def afterBody (d : ChunkDownloader Row) (c : Client N K Row) (m : Mutex (Tid N K)) :
    Event N K Row → Locked N K Row × List (LockOutput N K)
  | .term k rc =>
    if d.isShutdown then (⟨c, m.goto (.term k) .out⟩, [.returned (.term k) (m.holds (.term k))])
    else
      match rc with
      | .ok => (⟨c, m.goto (.term k) .leaving⟩, [])
      | _ => (⟨c, m.goto (.term k) .out⟩, [])
  | e =>
    if c.sleeps e.thread then (⟨c, m.drop e.thread⟩, [])
    else (⟨c, m.goto e.thread .leaving⟩, [])

/-- A step outside the lock. After a failed download the thread goes to the unlock. -/
def afterOutside (c : Client N K Row) (m : Mutex (Tid N K)) :
    Event N K Row → Locked N K Row × List (LockOutput N K)
  | .downloadFail t _ => (⟨c, m.goto (.producer t) .leaving⟩, [])
  | .join k =>
    (⟨c, m⟩, if c.terms k = .returned then [.returned (.term k) (m.holds (.term k))] else [])
  | _ => (⟨c, m⟩, [])

/-- `_thread_join` returns only after the thread's last unlock. -/
def canJoin (s : Locked N K Row) : Event N K Row → Bool
  | .join k =>
    match s.core.terms k with
    | .joining i => if h : i < N then s.lock.place (.producer ⟨i, h⟩) == .out else true
    | _ => true
  | _ => true

def step (download : String → List Row) (s : Locked N K Row) :
    LockEvent N K Row → Option (Locked N K Row × List (LockOutput N K))
  | .outside e =>
    if e.isOutside && s.lock.place e.thread == .out && s.canJoin e then
      (s.core.step download false e).map fun r => afterOutside r.1 s.lock e
    else none
  | .fetchStart =>
    if s.lock.place .fetcher = .out ∧ s.core.fetcher = .idle ∧ s.core.init = .done then
      some s.fetchStart
    else none
  | .lock u =>
    if s.core.stmt.chunkDownloader.isSome && s.core.atLock (s.lock.place u) u then
      (s.lock.lock u).map fun m => ({ s with lock := m }, [])
    else none
  | .body e =>
    if s.lock.place e.thread = .inside then
      s.core.stmt.chunkDownloader.bind fun d =>
        (s.core.body d e).map fun c => afterBody d c s.lock e
    else none
  | .unlock u =>
    if s.lock.place u = .leaving then
      some ({ s with lock := s.lock.drop u },
        .unlocked u (s.lock.holds u) ::
          if s.core.returnsAfterUnlock u then [.returned u ((s.lock.drop u).holds u)] else [])
    else none

end Locked

def lockedClient (download : String → List Row) (N K : Nat) :
    Machine (Locked N K Row) (LockEvent N K Row) (LockOutput N K) where
  step := Locked.step download

/-- An unlock by the owner, a return of a thread that is not the owner. -/
def LockOutput.Ok : LockOutput N K → Prop
  | .unlocked _ holds => holds = true
  | .returned _ holds => holds = false

/-! ## When the discipline holds -/

/-- No download fails, no caller of `chunk_downloader_term` finds the downloader shutting down,
and no broadcast fails. -/
def lockSafe (s : Locked N K Row) : LockEvent N K Row → Bool
  | .outside (.downloadFail _ _) => false
  | .body (.term _ .ok) => s.core.stmt.chunkDownloader.all fun d => !d.isShutdown
  | .body (.term _ _) => false
  | _ => true

/-- The lock is exact, and all that an observer saw was right. -/
structure Disciplined (m : Mutex (Tid N K)) (outs : List (LockOutput N K)) : Prop where
  held : m.Exact
  ok : ∀ o ∈ outs, o.Ok

section Steps

variable {download : String → List Row} {s s' : Locked N K Row} {outs : List (LockOutput N K)}

theorem ok_returned {m : Mutex (Tid N K)} {u : Tid N K} (h : m.Exact) (hu : m.place u = .out) :
    (LockOutput.returned u (m.holds u)).Ok := by
  show m.holds u = false
  rw [h.holds_eq, hu]
  rfl

theorem outside_disciplined {e : Event N K Row} (h : s.lock.Exact)
    (hsafe : lockSafe s (.outside e) = true)
    (hs : s.step download (.outside e) = some (s', outs)) : Disciplined s'.lock outs := by
  simp only [Locked.step] at hs
  split at hs
  · rename_i hg
    simp only [Bool.and_eq_true, beq_iff_eq] at hg
    obtain ⟨⟨-, hout⟩, -⟩ := hg
    obtain ⟨r, -, hs⟩ := Option.map_eq_some_iff.mp hs
    cases e with
    | downloadFail t err => cases hsafe
    | join k =>
      cases hs
      refine ⟨h, fun o ho => ?_⟩
      split at ho
      · obtain rfl := List.mem_singleton.mp ho
        exact ok_returned h hout
      · cases ho
    | _ => cases hs; exact ⟨h, nofun⟩
  · cases hs

theorem fetchStart_disciplined (h : s.lock.Exact)
    (hs : s.step download .fetchStart = some (s', outs)) : Disciplined s'.lock outs := by
  simp only [Locked.step] at hs
  split at hs
  · rename_i hg
    have hret : ∀ o ∈ [LockOutput.returned (.fetcher : Tid N K) (s.lock.holds .fetcher)], o.Ok := by
      intro o ho
      obtain rfl := List.mem_singleton.mp ho
      exact ok_returned h hg.1
    have hs := Option.some.inj hs
    simp only [Locked.fetchStart] at hs
    split at hs
    · cases hs; exact ⟨h, hret⟩
    · split at hs
      · split at hs
        · cases hs; exact ⟨h, hret⟩
        · cases hs; exact ⟨h.goto (by rw [hg.1]; rfl), nofun⟩
      · cases hs; exact ⟨h, hret⟩
  · cases hs

theorem body_disciplined {e : Event N K Row} (h : s.lock.Exact)
    (hsafe : lockSafe s (.body e) = true)
    (hs : s.step download (.body e) = some (s', outs)) : Disciplined s'.lock outs := by
  simp only [Locked.step] at hs
  split at hs
  · rename_i hin
    obtain ⟨d, hd, hs⟩ := Option.bind_eq_some_iff.mp hs
    obtain ⟨c, -, hs⟩ := Option.map_eq_some_iff.mp hs
    -- The thread keeps the lock, up to its unlock, or drops it in `_cond_wait`.
    have hbody : (if c.sleeps e.thread then (⟨c, s.lock.drop e.thread⟩, [])
        else (⟨c, s.lock.goto e.thread .leaving⟩, [])) = (s', outs) →
        Disciplined s'.lock outs := by
      intro hs
      split at hs
      · cases hs; exact ⟨h.drop (by rw [hin]; rfl), nofun⟩
      · cases hs; exact ⟨h.goto (by rw [hin]; rfl), nofun⟩
    cases e with
    | term k rc =>
      simp only [Locked.afterBody] at hs
      cases rc with
      | ok =>
        have hrun : d.isShutdown = false := by simpa [lockSafe, hd] using hsafe
        have hterm : s.lock.place (.term k) = .inside := hin
        rw [hrun] at hs
        cases hs
        exact ⟨h.goto (by rw [hterm]; rfl), nofun⟩
      | consumerFails => cases hsafe
      | producerFails => cases hsafe
    | _ => exact hbody hs
  · cases hs

theorem unlock_disciplined {u : Tid N K} (h : s.lock.Exact)
    (hs : s.step download (.unlock u) = some (s', outs)) : Disciplined s'.lock outs := by
  simp only [Locked.step] at hs
  split at hs
  · rename_i hleave
    cases hs
    have hdrop : (s.lock.drop u).Exact := h.drop (by rw [hleave]; rfl)
    refine ⟨hdrop, fun o ho => ?_⟩
    rcases List.mem_cons.mp ho with rfl | ho
    · show s.lock.holds u = true
      rw [h.holds_eq, hleave]
      rfl
    · split at ho
      · obtain rfl := List.mem_singleton.mp ho
        exact ok_returned hdrop (Function.update_self ..)
      · cases ho
  · cases hs

/-- A safe step keeps the discipline. -/
theorem step_disciplined {e : LockEvent N K Row} (h : s.lock.Exact) (hsafe : lockSafe s e = true)
    (hs : (lockedClient download N K).step s e = some (s', outs)) : Disciplined s'.lock outs := by
  change s.step download e = some (s', outs) at hs
  cases e with
  | outside e => exact outside_disciplined h hsafe hs
  | fetchStart => exact fetchStart_disciplined h hs
  | lock u =>
    simp only [Locked.step] at hs
    split at hs
    · obtain ⟨m, hm, hs⟩ := Option.map_eq_some_iff.mp hs
      cases hs
      exact ⟨h.lock hm, nofun⟩
    · cases hs
  | body e => exact body_disciplined h hsafe hs
  | unlock u => exact unlock_disciplined h hs

end Steps

/-- In every run of safe steps, from any state of the statement, each unlock is by the thread that
holds `queue_lock`, and no function returns while its thread holds it. -/
theorem lock_discipline {download : String → List Row} {c : Client N K Row} {s : Locked N K Row}
    {outs : List (LockOutput N K)}
    (h : (lockedClient download N K).Run (fun s e => lockSafe s e = true) (.start c) outs s) :
    ∀ o ∈ outs, o.Ok := by
  refine (h.inv (I := fun outs s => Disciplined s.lock outs) ⟨.free, nofun⟩ ?_).ok
  intro outs s e s' o hi hsafe hs
  obtain ⟨hexact, hok⟩ := step_disciplined hi.held hsafe hs
  refine ⟨hexact, fun x hx => ?_⟩
  exact (List.mem_append.mp hx).elim (hi.ok x) (hok x)

/-- A producer that fetched one chunk and left, and two fetches: all is right. -/
theorem lock_discipline_oneChunk :
    ∃ outs s, (lockedClient (fun _ => [7]) 1 0).Run (fun s e => lockSafe s e = true)
        (.start (Client.prepared.execute false oneChunk)) outs s ∧
      LockOutput.returned (.producer 0) false ∈ outs ∧ ∀ o ∈ outs, o.Ok := by
  obtain ⟨outs, s, hrun, ho⟩ :=
    Machine.exec_exists (M := lockedClient (fun _ => [7]) 1 0)
      (s := .start (Client.prepared.execute false oneChunk)) (c := lockSafe)
      (p := fun r => decide (LockOutput.returned (.producer 0) false ∈ r.2))
      [.outside .spawn, .outside .countThread, .fetchStart, .lock .fetcher,
        .body (.fetch (.ok none)), .lock (.producer 0), .body (.check 0), .unlock (.producer 0),
        .outside (.downloadOk 0),
        .lock (.producer 0), .body (.post 0 true), .unlock (.producer 0), .lock .fetcher,
        .body (.resume (.ok none)), .unlock .fetcher, .lock (.producer 0), .body (.check 0),
        .unlock (.producer 0)]
      (by decide +kernel)
  exact ⟨outs, s, hrun, by simpa using ho, lock_discipline hrun⟩

/-- After a failed download a producer unlocks without the lock; a second call of
`chunk_downloader_term` returns with it. -/
theorem lock_undisciplined :
    (∃ outs s, (lockedClient (fun _ => [7]) 2 2).Run Machine.Any
        (.start (Client.prepared.execute false oneChunk)) outs s ∧
      LockOutput.unlocked (.producer 0) false ∈ outs) ∧
    ∃ outs s, (lockedClient (fun _ => [7]) 2 2).Run Machine.Any
        (.start (Client.prepared.execute false oneChunk)) outs s ∧
      LockOutput.returned (.term 1) true ∈ outs := by
  constructor
  · obtain ⟨outs, s, hrun, ho⟩ :=
      Machine.exec_exists (M := lockedClient (fun _ => [7]) 2 2)
        (s := .start (Client.prepared.execute false oneChunk)) (c := fun _ _ => true)
        (p := fun r => decide (LockOutput.unlocked (.producer 0) false ∈ r.2))
        [.outside .spawn, .outside .countThread, .lock (.producer 0), .body (.check 0),
          .unlock (.producer 0), .outside (.downloadFail 0 .errorCurl), .unlock (.producer 0)]
        (by decide +kernel)
    exact ⟨outs, s, hrun.mono fun _ _ _ => trivial, by simpa using ho⟩
  · obtain ⟨outs, s, hrun, ho⟩ :=
      Machine.exec_exists (M := lockedClient (fun _ => [7]) 2 2)
        (s := .start (Client.prepared.execute false oneChunk)) (c := fun _ _ => true)
        (p := fun r => decide (LockOutput.returned (.term 1) true ∈ r.2))
        [.outside .spawn, .outside .countThread, .outside .spawn, .outside .countThread,
          .lock (.term 0), .body (.term 0 .ok), .unlock (.term 0), .lock (.term 1),
          .body (.term 1 .ok)]
        (by decide +kernel)
    exact ⟨outs, s, hrun.mono fun _ _ _ => trivial, by simpa using ho⟩

end Snowflake
