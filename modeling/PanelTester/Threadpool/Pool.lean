import PanelTester.Library.LinkedList
import Mathlib.Logic.Relation

/-!
The thread pool of `threadpool.c`. What a thread does from locking the mutex to unlocking it,
or to waiting at a condition, is one step; a thread that waits may wake up at any time, and
then locks the mutex again. A condition counts how often it was signalled, and a thread that
waits remembers the count, so that a wake-up without a signal is known as such. Any number
of threads add jobs, each one call after the other; one thread destroys the pool. A step
that locks a mutex that was destroyed, or uses a pool or a job that was freed, is a fault.
The history is not read by any step.
-/

namespace PanelTester.Threadpool

open Library

/-- What a `struct job` is about; the node is a cell of the heap. -/
structure Job where
  callbackFunction : ℕ
  arg : ℕ
  deriving DecidableEq

/-- `struct threadpool`; `destroyed` says that the mutex and the conditions are. -/
structure Pool where
  threadNum : ℕ
  queueMaxNum : ℕ
  head : Option ℕ
  tail : Option ℕ
  destroyed : Bool
  queueEmpty : ℕ
  queueNotEmpty : ℕ
  queueNotFull : ℕ
  queueCurNum : ℤ
  queueClose : Bool
  poolClose : Bool

/-- Where a worker is in `threadpool_function`. -/
inductive Worker
  | lock
  | wait (seen : ℕ)
  | run (pjob : Option ℕ)
  | exited

/-- Where a thread is in `threadpool_add_job`. -/
inductive Adder
  | out
  | lock (job : Job)
  | wait (job : Job) (seen : ℕ)

/-- Where the thread that destroys the pool is in `threadpool_destroy`. -/
inductive Destroyer
  | out
  | lock
  | wait (seen : ℕ)
  | notEmpty
  | notFull
  | join (i : ℕ)
  | mutex
  | free
  | returned

/-- What calls of `threadpool_add_job` returned, the jobs that workers took from the list and
those they ran, and how many jobs were accepted when `queue_close` was set. -/
structure History where
  returned : List (Job × ℤ)
  taken : List (ℕ × Job)
  ran : List (ℕ × Job)
  closedAt : Option ℕ

/-- The jobs that were accepted, in the order of their calls' sections. -/
def History.accepted (h : History) : List Job := (h.returned.filter (·.2 = 0)).map Prod.fst

/-- The pool (`none` once freed), the memory of its jobs, and the threads. -/
structure System where
  pool : Option Pool
  jobs : Heap Job
  workers : ℕ → Worker
  adders : ℕ → Adder
  destroyer : Destroyer
  fault : Bool
  history : History

namespace System

/-! ### `threadpool_add_job` -/

/-- A call returns. -/
def addReturn (s : System) (k : ℕ) (job : Job) (result : ℤ) : System :=
  { s with
    adders := Function.update s.adders k .out
    history := { s.history with returned := s.history.returned ++ [(job, result)] } }

/-- The new job becomes the last of the list. -/
def link (s : System) (p : Pool) (job : Job) : System :=
  let pjob := s.jobs.size
  let jobs := s.jobs.alloc ⟨job, none⟩
  match p.head, p.tail with
  | none, _ =>
      { s with
        jobs := jobs
        pool := some { p with
          head := some pjob
          tail := some pjob
          queueNotEmpty := p.queueNotEmpty + 1
          queueCurNum := p.queueCurNum + 1 } }
  | some _, none => { s with jobs := jobs, fault := true }
  | some _, some tail =>
      match jobs.read tail with
      | none => { s with jobs := jobs, fault := true }
      | some c =>
          { s with
            jobs := jobs.write tail { c with next := some pjob }
            pool := some { p with tail := some pjob, queueCurNum := p.queueCurNum + 1 } }

/-- The section of a call, at first and after a wait; `memory` says whether `malloc` succeeds. -/
def add (s : System) (p : Pool) (k : ℕ) (job : Job) (memory : Bool) : System :=
  if p.queueCurNum = p.queueMaxNum ∧ ¬ (p.queueClose || p.poolClose) then
    { s with adders := Function.update s.adders k (.wait job p.queueNotFull) }
  else if p.queueClose || p.poolClose then s.addReturn k job (-1)
  else if memory then (s.link p job).addReturn k job 0
  else s.addReturn k job (-1)

/-! ### `threadpool_function` -/

/-- The first job is taken from the list. -/
def take (s : System) (p : Pool) (i : ℕ) : System :=
  let cur := p.queueCurNum - 1
  match p.head.bind s.jobs.read with
  | none => { s with fault := true }
  | some c =>
      { s with
        pool := some { p with
          head := if cur = 0 then none else c.next
          tail := if cur = 0 then none else p.tail
          queueCurNum := cur
          queueEmpty := if cur = 0 then p.queueEmpty + 1 else p.queueEmpty
          queueNotFull := if cur = p.queueMaxNum - 1 then p.queueNotFull + 1 else p.queueNotFull }
        workers := Function.update s.workers i (.run p.head)
        history := { s.history with taken := s.history.taken ++ [(i, c.val)] } }

/-- The section of a worker, at first and after a wait. -/
def work (s : System) (p : Pool) (i : ℕ) : System :=
  if p.queueCurNum = 0 ∧ ¬ p.poolClose then
    { s with workers := Function.update s.workers i (.wait p.queueNotEmpty) }
  else if p.poolClose then { s with workers := Function.update s.workers i .exited }
  else s.take p i

/-- The job is run, and its memory freed. -/
def runJob (s : System) (i : ℕ) (pjob : Option ℕ) : System :=
  match pjob with
  | none => { s with fault := true }
  | some a =>
      match s.jobs.read a with
      | none => { s with fault := true }
      | some c =>
          { s with
            jobs := s.jobs.free a
            workers := Function.update s.workers i .lock
            history := { s.history with ran := s.history.ran ++ [(i, c.val)] } }

/-! ### `threadpool_destroy` -/

/-- The test of the loop that waits for an empty list. -/
def close (s : System) (p : Pool) : System :=
  if p.queueCurNum ≠ 0 then { s with pool := some p, destroyer := .wait p.queueEmpty }
  else { s with pool := some { p with poolClose := true }, destroyer := .notEmpty }

/-- The section of the call, up to the loop. -/
def destroyLock (s : System) (p : Pool) : System :=
  if p.queueClose || p.poolClose then { s with destroyer := .returned }
  else close
    { s with history := { s.history with closedAt := some s.history.accepted.length } }
    { p with queueClose := true }

/-- There is no mutex that could be locked. -/
def Gone (s : System) : Prop := ∀ p, s.pool = some p → p.destroyed = true

end System

/-- The job of a call in progress. -/
def Adder.job : Adder → Option Job
  | .out => none
  | .lock job | .wait job _ => some job

/-- A worker that is going to lock the mutex. -/
def Worker.locks : Worker → Bool
  | .lock | .wait _ => true
  | _ => false

/-- The same of the thread that destroys. -/
def Destroyer.locks : Destroyer → Bool
  | .lock | .wait _ => true
  | _ => false

/-- It is going to use the pool otherwise. -/
def Destroyer.uses : Destroyer → Bool
  | .notEmpty | .notFull | .join _ | .mutex | .free => true
  | _ => false

/-- A step of a call that adds a job. -/
inductive AddMove (k : ℕ) : System → System → Prop
  | add {s p job memory} (hp : s.pool = some p) (hm : p.destroyed = false)
      (hk : (s.adders k).job = some job) : AddMove k s (s.add p k job memory)
  | fault {s job} (hk : (s.adders k).job = some job) (h : s.Gone) :
      AddMove k s { s with fault := true, adders := Function.update s.adders k .out }

/-- A step of a worker. -/
inductive WorkMove (i : ℕ) : System → System → Prop
  | work {s p} (hp : s.pool = some p) (hm : p.destroyed = false) (hi : (s.workers i).locks = true) :
      WorkMove i s (s.work p i)
  | run {s pjob} (hi : s.workers i = .run pjob) : WorkMove i s (s.runJob i pjob)
  | fault {s} (hi : (s.workers i).locks = true) (h : s.Gone) : WorkMove i s { s with fault := true }

/-- A step of the thread that destroys the pool. -/
inductive DestroyMove : System → System → Prop
  | lock {s p} (hp : s.pool = some p) (hm : p.destroyed = false) (hd : s.destroyer = .lock) :
      DestroyMove s (s.destroyLock p)
  | wake {s p seen} (hp : s.pool = some p) (hm : p.destroyed = false)
      (hd : s.destroyer = .wait seen) : DestroyMove s (s.close p)
  | notEmpty {s p} (hp : s.pool = some p) (hd : s.destroyer = .notEmpty) :
      DestroyMove s
        { s with
          pool := some { p with queueNotEmpty := p.queueNotEmpty + 1 }
          destroyer := .notFull }
  | notFull {s p} (hp : s.pool = some p) (hd : s.destroyer = .notFull) :
      DestroyMove s
        { s with pool := some { p with queueNotFull := p.queueNotFull + 1 }, destroyer := .join 0 }
  | join {s p i} (hp : s.pool = some p) (hd : s.destroyer = .join i) (hi : i < p.threadNum)
      (hexited : s.workers i = .exited) : DestroyMove s { s with destroyer := .join (i + 1) }
  | joined {s p i} (hp : s.pool = some p) (hd : s.destroyer = .join i) (hi : p.threadNum ≤ i) :
      DestroyMove s { s with destroyer := .mutex }
  | mutex {s p} (hp : s.pool = some p) (hd : s.destroyer = .mutex) :
      DestroyMove s { s with pool := some { p with destroyed := true }, destroyer := .free }
  /-- The jobs that are left are freed, -/
  | freeJob {s p a c} (hp : s.pool = some p) (hd : s.destroyer = .free) (ha : p.head = some a)
      (hc : s.jobs.read a = some c) :
      DestroyMove s { s with pool := some { p with head := c.next }, jobs := s.jobs.free a }
  | freeFault {s p a} (hp : s.pool = some p) (hd : s.destroyer = .free) (ha : p.head = some a)
      (hc : s.jobs.read a = none) : DestroyMove s { s with fault := true }
  /-- and the pool. -/
  | free {s p} (hp : s.pool = some p) (hd : s.destroyer = .free) (ha : p.head = none) :
      DestroyMove s { s with pool := none, destroyer := .returned }
  | lockFault {s} (hd : s.destroyer.locks = true) (h : s.Gone) :
      DestroyMove s { s with fault := true }
  | fault {s} (hd : s.destroyer.uses = true) (h : s.pool = none) :
      DestroyMove s { s with fault := true }

/-- A step of a call in progress, or of a worker. -/
inductive Move : System → System → Prop
  | add {k s s'} (h : AddMove k s s') : Move s s'
  | work {i s s'} (h : WorkMove i s s') : Move s s'
  | destroy {s s'} (h : DestroyMove s s') : Move s s'

/-- The steps of the whole: calls begin, too. -/
inductive Step : System → System → Prop
  | move {s s'} (h : Move s s') : Step s s'
  | callAdd {s k} (job : Job) (hk : s.adders k = .out) :
      Step s { s with adders := Function.update s.adders k (.lock job) }
  | callDestroy {s} (hd : s.destroyer = .out) : Step s { s with destroyer := .lock }

/-- `threadpool_init`, with all its threads. -/
def threadpoolInit (threadNum queueMaxNum : ℕ) : System where
  pool := some
    { threadNum := threadNum
      queueMaxNum := queueMaxNum
      head := none
      tail := none
      destroyed := false
      queueEmpty := 0
      queueNotEmpty := 0
      queueNotFull := 0
      queueCurNum := 0
      queueClose := false
      poolClose := false }
  jobs := Heap.empty
  workers i := if i < threadNum then .lock else .exited
  adders _ := .out
  destroyer := .out
  fault := false
  history := ⟨[], [], [], none⟩

/-- What some order of steps leads to. -/
def Reachable (threadNum queueMaxNum : ℕ) : System → Prop :=
  Relation.ReflTransGen Step (threadpoolInit threadNum queueMaxNum)

end PanelTester.Threadpool
