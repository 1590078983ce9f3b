import Mathlib

/-!
# The worker threads of a server

A queue of jobs with worker threads that are started when they are needed: a
job that arrives while all threads are taken gets a thread of its own, up to a
limit. The streams of a server hold a thread for as long as they are open, so
a job must not wait behind one while another thread could be started.

The critical sections of the callers and of the threads are events, and a list
of events is any interleaving of them; a thread that wakes up without a reason
waits again. `ElasticTaskQueue.starts_every_job` says that accepted jobs start
in their order and once, that a job waits only for a thread that is free or for
the limit, and that the last thread leaves no job behind.
-/

namespace NeoGraph.Server

open List

variable {J : Type}

/-- The queue, with what its threads are at. -/
structure ElasticTaskQueue (J : Type) where
  max : ℕ
  maxQueued : ℕ
  jobs : List J := []
  /-- The threads that the queue has started and not given up. -/
  threads : ℕ := 0
  busy : ℕ := 0
  stopping : Bool := false
  /-- The threads that wait for a job. -/
  idle : ℕ := 0
  /-- All jobs that were accepted, and all that were started, in this order. -/
  accepted : List J := []
  started : List J := []

namespace ElasticTaskQueue

/-- A thread is started. -/
def spawnLocked (q : ElasticTaskQueue J) : ElasticTaskQueue J :=
  { q with threads := q.threads + 1, idle := q.idle + 1 }

/-- A queue with its first threads. -/
def create (base max maxQueued : ℕ) : ElasticTaskQueue J :=
  { max := Max.max base max, maxQueued := maxQueued, threads := base, idle := base }

/-- A job is accepted or refused. -/
def enqueue (q : ElasticTaskQueue J) (job : J) : ElasticTaskQueue J × Bool :=
  if q.stopping then (q, false)
  else if q.maxQueued ≠ 0 ∧ q.maxQueued ≤ q.jobs.length then (q, false)
  else
    let q := { q with jobs := q.jobs ++ [job], accepted := q.accepted ++ [job] }
    (if q.threads < q.jobs.length + q.busy ∧ q.threads < q.max then q.spawnLocked else q, true)

/-- A thread that waits looks at the queue: it takes the first job, ends when the
queue is stopped and empty, or waits again. -/
def wake (q : ElasticTaskQueue J) : ElasticTaskQueue J :=
  match q.idle, q.jobs with
  | 0, _ => q
  | idle + 1, [] => if q.stopping then { q with idle := idle } else q
  | idle + 1, job :: jobs =>
    { q with jobs := jobs, busy := q.busy + 1, idle := idle, started := q.started ++ [job] }

/-- A job ends, and its thread waits for the next. -/
def finish (q : ElasticTaskQueue J) : ElasticTaskQueue J :=
  match q.busy with
  | 0 => q
  | busy + 1 => { q with busy := busy, idle := q.idle + 1 }

/-- The queue is stopped, and its threads are joined. -/
def shutdown (q : ElasticTaskQueue J) : ElasticTaskQueue J :=
  { q with stopping := true, threads := 0 }

/-- A step of a caller or of a thread of the queue. -/
inductive Event (J : Type) where
  | enqueue (job : J)
  | wake
  | finish
  | shutdown

def perform (q : ElasticTaskQueue J) : Event J → ElasticTaskQueue J
  | .enqueue job => (q.enqueue job).1
  | .wake => q.wake
  | .finish => q.finish
  | .shutdown => q.shutdown

/-- What holds at every moment. -/
structure Inv (m : ℕ) (q : ElasticTaskQueue J) : Prop where
  max : q.max = m
  order : q.accepted = q.started ++ q.jobs
  /-- Until the queue is stopped it knows its threads. -/
  threads : q.stopping = false → q.threads = q.idle + q.busy
  limit : q.idle + q.busy ≤ m
  /-- A thread is free for every job, or all threads there may be are started. -/
  enough : q.stopping = false → q.jobs.length ≤ q.idle ∨ q.idle + q.busy = m
  /-- Jobs wait only while there is a thread. -/
  served : 0 < m → q.jobs = [] ∨ 0 < q.idle + q.busy

variable {q : ElasticTaskQueue J} {m : ℕ}

/-- A job that is queued has a thread that will take it. -/
theorem Inv.enqueue (h : q.Inv m) (job : J) : (q.enqueue job).1.Inv m := by
  unfold ElasticTaskQueue.enqueue
  split_ifs with hstp hf
  · exact h
  · exact h
  obtain ⟨hmax, ho, ht, hl, he, hserved⟩ := h
  have hkn := ht (eq_false_of_ne_true hstp)
  have hfr := he (eq_false_of_ne_true hstp)
  have ho' : q.accepted ++ [job] = q.started ++ (q.jobs ++ [job]) := by
    rw [ho, append_assoc]
  have hj : (q.jobs ++ [job]).length = q.jobs.length + 1 := length_append
  dsimp only
  split_ifs with hspawn
  · refine ⟨hmax, ho', fun _ => ?_, ?_, fun _ => ?_, fun _ => .inr ?_⟩
    all_goals simp only [spawnLocked]
    all_goals omega
  · refine ⟨hmax, ho', fun _ => hkn, hl, fun _ => ?_, fun hm => .inr ?_⟩
    all_goals dsimp only
    all_goals omega

theorem Inv.wake (h : q.Inv m) : q.wake.Inv m := by
  unfold ElasticTaskQueue.wake
  split
  next => exact h
  next idle hid hj =>
    split_ifs with hstp
    · refine ⟨h.max, h.order, fun hg => ?_, ?_, fun hg => ?_, fun _ => .inl hj⟩
      · exact absurd hg (by simp [hstp])
      · have := h.limit
        show idle + q.busy ≤ m
        omega
      · exact absurd hg (by simp [hstp])
    · exact h
  next idle job jobs hid hj =>
    obtain ⟨hm, ho, ht, hl, he, -⟩ := h
    rw [hid, hj, length_cons] at he
    refine ⟨hm, ?_, fun hg => ?_, ?_, fun hg => ?_, fun _ => .inr ?_⟩
    · rw [ho, hj]
      exact append_cons _ _ _
    all_goals dsimp only
    · have := ht hg
      omega
    · omega
    · have := he hg
      omega
    · omega

theorem Inv.finish (h : q.Inv m) : q.finish.Inv m := by
  unfold ElasticTaskQueue.finish
  split
  next => exact h
  next busy hb =>
    obtain ⟨hmax, ho, ht, hl, he, hserved⟩ := h
    refine ⟨hmax, ho, fun hg => ?_, ?_, fun hg => ?_, fun hm => .inr ?_⟩
    all_goals dsimp only
    · have := ht hg
      omega
    · omega
    · have := he hg
      omega
    · omega

/-- Every step keeps the invariant. -/
theorem Inv.perform (h : q.Inv m) (event : Event J) : (q.perform event).Inv m := by
  cases event with
  | enqueue job => exact h.enqueue job
  | wake => exact h.wake
  | finish => exact h.finish
  | shutdown => exact ⟨h.max, h.order, nofun, h.limit, nofun, h.served⟩

/-- **Every accepted job starts.** At every moment of every interleaving the jobs
that were started are the first ones that were accepted, and a job waits only
while a thread is free for it or all threads that there may be are started; when
no thread is left, no job waits. -/
theorem starts_every_job (base max maxQueued : ℕ) (events : List (Event J)) :
    let q := events.foldl perform (create base max maxQueued)
    q.accepted = q.started ++ q.jobs ∧ q.idle + q.busy ≤ Max.max base max
      ∧ (q.stopping = true ∨ q.jobs.length ≤ q.idle ∨ q.idle + q.busy = Max.max base max)
      ∧ (Max.max base max = 0 ∨ q.jobs = [] ∨ 0 < q.idle + q.busy) := by
  have hs : (create base max maxQueued : ElasticTaskQueue J).Inv (Max.max base max) :=
    ⟨rfl, rfl, fun _ => rfl, Nat.le_max_left _ _, fun _ => .inl (Nat.zero_le _), fun _ => .inl rfl⟩
  have h := foldlRecOn events perform hs fun q hq event _ => hq.perform event
  refine ⟨h.order, h.limit, ?_, (Nat.eq_zero_or_pos _).imp_right h.served⟩
  cases hstp : (events.foldl perform (create base max maxQueued)).stopping with
  | false => exact .inr (h.enough hstp)
  | true => exact .inl rfl

end ElasticTaskQueue

end NeoGraph.Server
