import PanelTester.Threadpool.Pool

/-!
What the counter, the list and the closing flags of the pool say about each other, under
every order of the steps of its threads. `Inv` names the jobs on the list; what it says of
one part of the system is a structure of its own, over that part, so that a step only has to
answer for what it changes.
-/

namespace PanelTester.Threadpool

open Library

/-! ### The invariant -/

namespace Destroyer

/-- Which flags the thread that destroys the pool has set, at each place. -/
def queueClose : Destroyer → Bool
  | .out | .lock => false
  | _ => true

def poolClose : Destroyer → Bool
  | .out | .lock | .wait _ => false
  | _ => true

/-- It is past the broadcast to the workers. -/
def woken : Destroyer → Bool
  | .out | .lock | .wait _ | .notEmpty => false
  | _ => true

def destroyed : Destroyer → Bool
  | .free | .returned => true
  | _ => false

/-- How many workers it has joined. -/
def joined (n : ℕ) : Destroyer → ℕ
  | .join i => i
  | .mutex | .free | .returned => n
  | _ => 0

end Destroyer

/-- The entries of one worker. -/
def ofWorker (i : ℕ) (l : List (ℕ × Job)) : List (ℕ × Job) := l.filter (·.1 == i)

/-- The pool and the list that hangs on it. -/
structure PoolOk (n max : ℕ) (jobs : Heap Job) (d : Destroyer) (l : List (ℕ × Job)) (p : Pool) :
    Prop where
  path : jobs.Path p.head l none
  tail : ∀ c ∈ l.getLast?, p.tail = some c.1
  count : p.queueCurNum = l.length
  bound : l.length ≤ p.queueMaxNum
  threadNum : p.threadNum = n
  queueMaxNum : p.queueMaxNum = max
  queueClose : p.queueClose = d.queueClose
  poolClose : p.poolClose = d.poolClose
  destroyed : p.destroyed = d.destroyed

/-- The jobs with workers: each has its own, which is not on the list any more. -/
structure Running (jobs : Heap Job) (workers : ℕ → Worker) (taken ran l : List (ℕ × Job)) :
    Prop where
  cell : ∀ i pjob, workers i = .run pjob → ∃ a v next, pjob = some a ∧
    jobs.read a = some ⟨v, next⟩ ∧ a ∉ l.map Prod.fst ∧
      ofWorker i taken = ofWorker i ran ++ [(i, v)]
  rest : ∀ i, (∀ pjob, workers i ≠ .run pjob) → ofWorker i taken = ofWorker i ran
  distinct : ∀ i j a, workers i = .run (some a) → workers j = .run (some a) → i = j

/-- The end of the pool. -/
structure Closing (n : ℕ) (workers : ℕ → Worker) (d : Destroyer) (l : List (ℕ × Job)) : Prop where
  empty : d.poolClose = true → l = []
  outside : ∀ i, n ≤ i → workers i = .exited
  exited : ∀ i < n, workers i = .exited → d.poolClose = true
  joined : ∀ i < d.joined n, workers i = .exited

/-- No wake-up is lost: a thread that waits was signalled, or has a reason to wait. -/
structure Waits (max : ℕ) (p : Pool) (workers : ℕ → Worker) (adders : ℕ → Adder) (d : Destroyer)
    (l : List (ℕ × Job)) : Prop where
  worker : ∀ i seen, workers i = .wait seen →
    seen < p.queueNotEmpty ∨ seen = p.queueNotEmpty ∧ l = [] ∧ d.woken = false
  adder : ∀ k job seen, adders k = .wait job seen →
    seen < p.queueNotFull ∨ seen = p.queueNotFull ∧ l.length = max
  destroyer : ∀ seen, d = .wait seen → seen < p.queueEmpty ∨ seen = p.queueEmpty ∧ l ≠ []

/-- The jobs on the list are `l`. -/
structure Inv (n max : ℕ) (s : System) (l : List (ℕ × Job)) : Prop where
  pool : ∀ p, s.pool = some p → PoolOk n max s.jobs s.destroyer l p
  waits : ∀ p, s.pool = some p → Waits max p s.workers s.adders s.destroyer l
  noPool : s.pool = none ↔ s.destroyer = .returned
  running : Running s.jobs s.workers s.history.taken s.history.ran l
  closing : Closing n s.workers s.destroyer l
  accepted : s.history.accepted = s.history.taken.map Prod.snd ++ l.map Prod.snd
  closedAt : s.history.closedAt =
    if s.destroyer.queueClose then some s.history.accepted.length else none
  fault : s.fault = true → s.destroyer.destroyed = true

/-! ### The list -/

section

variable {n max : ℕ} {s : System} {d : Destroyer} {p : Pool} {l : List (ℕ × Job)} {job : Job}

theorem PoolOk.head_eq_none (h : PoolOk n max s.jobs d l p) : p.head = none ↔ l = [] := by
  have hpath := h.path
  cases l with
  | nil => exact ⟨fun _ => rfl, fun _ => hpath⟩
  | cons c l =>
      obtain ⟨hhead, -⟩ := hpath
      rw [hhead]
      exact ⟨nofun, nofun⟩

theorem link_of_nil (hhead : p.head = none) :
    s.link p job = { s with
      jobs := s.jobs.alloc ⟨job, none⟩
      pool := some { p with
        head := some s.jobs.size
        tail := some s.jobs.size
        queueNotEmpty := p.queueNotEmpty + 1
        queueCurNum := p.queueCurNum + 1 } } := by
  rw [System.link, hhead]

theorem link_of_tail {a tail : ℕ} {c : Cell Job} (hhead : p.head = some a)
    (htail : p.tail = some tail)
    (hread : (s.jobs.alloc ⟨job, none⟩).read tail = some c) :
    s.link p job = { s with
      jobs := (s.jobs.alloc ⟨job, none⟩).write tail { c with next := some s.jobs.size }
      pool := some { p with tail := some s.jobs.size, queueCurNum := p.queueCurNum + 1 } } := by
  rw [System.link, hhead, htail]
  simp only [hread]

theorem take_of_read {a i : ℕ} {c : Cell Job} (hhead : p.head = some a)
    (hread : s.jobs.read a = some c) :
    s.take p i = { s with
      pool := some { p with
        head := if p.queueCurNum - 1 = 0 then none else c.next
        tail := if p.queueCurNum - 1 = 0 then none else p.tail
        queueCurNum := p.queueCurNum - 1
        queueEmpty := if p.queueCurNum - 1 = 0 then p.queueEmpty + 1 else p.queueEmpty
        queueNotFull :=
          if p.queueCurNum - 1 = p.queueMaxNum - 1 then p.queueNotFull + 1 else p.queueNotFull }
      workers := Function.update s.workers i (.run (some a))
      history := { s.history with taken := s.history.taken ++ [(i, c.val)] } } := by
  rw [System.take, hhead, Option.bind_some, hread]

/-- A job is linked behind the list; other cells are not touched. -/
theorem PoolOk.link (h : PoolOk n max s.jobs d l p) (hroom : l.length < max) :
    ∃ jobs p', s.link p job = { s with jobs := jobs, pool := some p' } ∧
      PoolOk n max jobs d (l ++ [(s.jobs.size, job)]) p' ∧
      (∀ a c, a ∉ l.map Prod.fst → s.jobs.read a = some c → jobs.read a = some c) ∧
      p'.queueEmpty = p.queueEmpty ∧ p'.queueNotFull = p.queueNotFull ∧
      p.queueNotEmpty ≤ p'.queueNotEmpty ∧ (l = [] → p.queueNotEmpty < p'.queueNotEmpty) := by
  have hcount : p.queueCurNum + 1 = ((l ++ [(s.jobs.size, job)]).length : ℤ) := by
    rw [h.count, List.length_append]
    rfl
  have hbound : (l ++ [(s.jobs.size, job)]).length ≤ p.queueMaxNum := by
    rw [h.queueMaxNum, List.length_append]
    exact hroom
  have htail : ∀ c ∈ (l ++ [(s.jobs.size, job)]).getLast?, some s.jobs.size = some c.1 := by
    intro c hc
    rw [List.getLast?_append, List.getLast?_singleton] at hc
    obtain rfl := Option.some.inj hc
    rfl
  have hold : ∀ a c, s.jobs.read a = some c → (s.jobs.alloc ⟨job, none⟩).read a = some c :=
    fun a c hc => (Heap.read_alloc_of_lt _ (Heap.lt_size_of_read hc)).trans hc
  rcases List.eq_nil_or_concat' l with rfl | ⟨front, ⟨tail, last⟩, rfl⟩
  · have hhead : p.head = none := h.head_eq_none.mpr rfl
    refine ⟨_, _, link_of_nil hhead, ⟨?_, htail, hcount, hbound, h.threadNum,
      h.queueMaxNum, h.queueClose, h.poolClose, h.destroyed⟩, fun a c _ => hold a c, rfl, rfl,
      Nat.le_succ _, fun _ => Nat.lt_succ_self _⟩
    exact ⟨rfl, none, Heap.read_alloc_self _ _, rfl⟩
  · have hp : p.tail = some tail := h.tail (tail, last) (by simp)
    obtain ⟨hfront, hlast⟩ := Heap.path_concat.mp h.path
    obtain ⟨a, ha⟩ : ∃ a, p.head = some a := Option.ne_none_iff_exists'.mp fun hnone => by
      have := h.head_eq_none.mp hnone
      simp at this
    have hread : (s.jobs.alloc ⟨job, none⟩).read tail = some ⟨last, none⟩ := hold _ _ hlast
    refine ⟨_, _, link_of_tail ha hp hread, ⟨?_, htail, hcount, hbound,
      h.threadNum, h.queueMaxNum, h.queueClose, h.poolClose, h.destroyed⟩, fun a c hmem hc => ?_,
      rfl, rfl, le_rfl, by simp⟩
    · have hmem : tail ∉ front.map Prod.fst := h.path.not_mem_front
      have hpath : (s.jobs.alloc ⟨job, none⟩).Path p.head (front ++ [(tail, last)]) none :=
        h.path.congr fun b hb => Heap.read_alloc_of_lt _ (h.path.lt_size hb)
      refine Heap.path_concat.mpr ⟨hpath.relink hmem _, ?_⟩
      rw [Heap.read_write_of_ne _ (Nat.ne_of_gt (Heap.lt_size_of_read hlast)), Heap.read_alloc_self]
    · rw [Heap.read_write_of_ne _ fun heq : a = tail => hmem (by rw [heq]; simp)]
      exact hold a c hc

/-- The first job is taken from the list. -/
theorem PoolOk.take {a : ℕ} {v : Job} {i : ℕ} (h : PoolOk n max s.jobs d ((a, v) :: l) p) :
    ∃ p', s.take p i = { s with
        pool := some p'
        workers := Function.update s.workers i (.run (some a))
        history := { s.history with taken := s.history.taken ++ [(i, v)] } } ∧
      PoolOk n max s.jobs d l p' ∧ (∃ next, s.jobs.read a = some ⟨v, next⟩) ∧
      a ∉ l.map Prod.fst ∧ p'.queueNotEmpty = p.queueNotEmpty ∧
      p.queueNotFull ≤ p'.queueNotFull ∧ (l.length + 1 = max → p.queueNotFull < p'.queueNotFull) ∧
      p.queueEmpty ≤ p'.queueEmpty ∧ (l = [] → p.queueEmpty < p'.queueEmpty) := by
  obtain ⟨hhead, next, hread, hrest⟩ := h.path
  have hcount : p.queueCurNum - 1 = l.length := by
    rw [h.count, List.length_cons]
    omega
  have hzero : p.queueCurNum - 1 = 0 ↔ l = [] := by
    rw [hcount, Int.natCast_eq_zero, List.length_eq_zero_iff]
  have hbound : l.length ≤ p.queueMaxNum := (Nat.le_succ _).trans h.bound
  have hmem : a ∉ l.map Prod.fst := (List.nodup_cons.mp h.path.nodup).1
  refine ⟨_, take_of_read hhead hread, ⟨?_, ?_, hcount,
    hbound, h.threadNum, h.queueMaxNum, h.queueClose, h.poolClose, h.destroyed⟩,
      ⟨next, hread⟩, hmem,
    rfl, ?_, fun hfull => ?_, ?_, fun hnil => ?_⟩
  · by_cases hl : l = []
    · subst hl
      exact if_pos (hzero.mpr rfl)
    · show s.jobs.Path (if p.queueCurNum - 1 = 0 then none else next) l none
      rw [if_neg (mt hzero.mp hl)]
      exact hrest
  · intro c hc
    have hl : l ≠ [] := by
      rintro rfl
      exact nomatch hc
    show (if p.queueCurNum - 1 = 0 then none else p.tail) = _
    rw [if_neg (mt hzero.mp hl)]
    exact h.tail c (by rw [List.getLast?_cons_of_ne_nil hl]; exact hc)
  · show _ ≤ if _ then _ else _
    split
    · exact Nat.le_succ _
    · exact le_rfl
  · have hmax := h.queueMaxNum
    show _ < if _ then _ else _
    rw [if_pos (by omega)]
    exact Nat.lt_succ_self _
  · show _ ≤ if _ then _ else _
    split
    · exact Nat.le_succ _
    · exact le_rfl
  · show _ < if _ then _ else _
    rw [if_pos (hzero.mpr hnil)]
    exact Nat.lt_succ_self _

end

/-! ### The jobs of workers -/

section

variable {jobs jobs' : Heap Job} {workers : ℕ → Worker} {taken ran l : List (ℕ × Job)} {i j : ℕ}
  {w : Worker} {v : Job}

theorem ofWorker_concat (c : ℕ × Job) :
    ofWorker j (l ++ [c]) = ofWorker j l ++ if c.1 = j then [c] else [] := by
  rw [ofWorker, List.filter_append]
  by_cases hc : c.1 = j
  · simp [ofWorker, hc]
  · simp [ofWorker, hc]

/-- A job is linked. -/
theorem Running.link (h : Running jobs workers taken ran l)
    (hread : ∀ a c, a ∉ l.map Prod.fst → jobs.read a = some c → jobs'.read a = some c) :
    Running jobs' workers taken ran (l ++ [(jobs.size, v)]) where
  cell i pjob hi := by
    obtain ⟨a, v', next, hp, ha, hmem, hof⟩ := h.cell i pjob hi
    refine ⟨a, v', next, hp, hread a _ hmem ha, fun hmem' => ?_, hof⟩
    rw [List.map_append, List.mem_append] at hmem'
    have hsize := Heap.lt_size_of_read ha
    rcases hmem' with hmem' | hmem'
    · exact hmem hmem'
    · have : a = jobs.size := List.mem_singleton.mp hmem'
      omega
  rest := h.rest
  distinct := h.distinct

/-- A worker without a job goes on without one. -/
theorem Running.idle (h : Running jobs workers taken ran l) (hi : (workers i).locks = true)
    (hw : ∀ pjob, w ≠ .run pjob) : Running jobs (Function.update workers i w) taken ran l := by
  have hne : ∀ j pjob, Function.update workers i w j = .run pjob → workers j = .run pjob := by
    intro j pjob hj
    rw [Function.update_apply] at hj
    split at hj
    · exact absurd hj (hw pjob)
    · exact hj
  refine ⟨fun j pjob hj => h.cell j pjob (hne j pjob hj), fun j hj => h.rest j fun pjob hrun => ?_,
    fun j k a hj hk => h.distinct j k a (hne j _ hj) (hne k _ hk)⟩
  by_cases hji : j = i
  · subst hji
    rw [hrun] at hi
    exact Bool.false_ne_true hi
  · exact hj pjob (by rw [Function.update_of_ne hji, hrun])

/-- A worker takes the first job of the list. -/
theorem Running.take {a : ℕ} (h : Running jobs workers taken ran ((a, v) :: l))
    (hi : (workers i).locks = true) (hread : ∃ next, jobs.read a = some ⟨v, next⟩)
    (hmem : a ∉ l.map Prod.fst) :
    Running jobs (Function.update workers i (.run (some a))) (taken ++ [(i, v)]) ran l := by
  have hidle : ofWorker i taken = ofWorker i ran := h.rest i fun pjob hrun => by
    rw [hrun] at hi
    exact Bool.false_ne_true hi
  have hother : ∀ j, j ≠ i → ofWorker j (taken ++ [(i, v)]) = ofWorker j taken := by
    intro j hj
    rw [ofWorker_concat, if_neg (Ne.symm hj), List.append_nil]
  have hdiff : ∀ j b, j ≠ i → workers j = .run (some b) → b ≠ a := by
    intro j b _ hrun hba
    obtain ⟨b', -, -, hb, -, hnot, -⟩ := h.cell j (some b) hrun
    obtain rfl := Option.some.inj hb
    exact hnot (by rw [hba]; exact List.mem_cons_self)
  refine ⟨fun j pjob hj => ?_, fun j hj => ?_, fun j k b hj hk => ?_⟩
  · by_cases hji : j = i
    · subst hji
      rw [Function.update_self] at hj
      injection hj with hj
      obtain ⟨next, hread⟩ := hread
      refine ⟨a, v, next, hj.symm, hread, hmem, ?_⟩
      rw [ofWorker_concat, if_pos rfl, hidle]
    · rw [Function.update_of_ne hji] at hj
      obtain ⟨b, v', next, hp, hb, hnot, hof⟩ := h.cell j pjob hj
      refine ⟨b, v', next, hp, hb, fun hb' => hnot (List.mem_cons_of_mem _ hb'), ?_⟩
      rw [hother j hji, hof]
  · by_cases hji : j = i
    · subst hji
      exact absurd (Function.update_self ..) (hj (some a))
    · rw [hother j hji]
      exact h.rest j fun pjob hrun => hj pjob (by rw [Function.update_of_ne hji, hrun])
  · by_cases hji : j = i <;> by_cases hki : k = i
    · rw [hji, hki]
    · subst hji
      rw [Function.update_self] at hj
      rw [Function.update_of_ne hki] at hk
      injection hj with hj
      exact absurd (Option.some.inj hj).symm (hdiff k b hki hk)
    · subst hki
      rw [Function.update_self] at hk
      rw [Function.update_of_ne hji] at hj
      injection hk with hk
      exact absurd (Option.some.inj hk).symm (hdiff j b hji hj)
    · rw [Function.update_of_ne hji] at hj
      rw [Function.update_of_ne hki] at hk
      exact h.distinct j k b hj hk

/-- A worker is done with its job. -/
theorem Running.finish {a : ℕ} {next : Option ℕ} (h : Running jobs workers taken ran l)
    (hi : workers i = .run (some a)) (hread : jobs.read a = some ⟨v, next⟩) :
    Running (jobs.free a) (Function.update workers i .lock) taken (ran ++ [(i, v)]) l := by
  have hother : ∀ j, j ≠ i → ofWorker j (ran ++ [(i, v)]) = ofWorker j ran := by
    intro j hj
    rw [ofWorker_concat, if_neg (Ne.symm hj), List.append_nil]
  refine ⟨fun j pjob hj => ?_, fun j hj => ?_, fun j k b hj hk => ?_⟩
  · have hji : j ≠ i := by
      rintro rfl
      rw [Function.update_self] at hj
      exact nomatch hj
    rw [Function.update_of_ne hji] at hj
    obtain ⟨b, v', next', hp, hb, hnot, hof⟩ := h.cell j pjob hj
    refine ⟨b, v', next', hp, ?_, hnot, ?_⟩
    · rw [Heap.read_free_of_ne, hb]
      rintro rfl
      exact hji (h.distinct j i b (by rw [hj, hp]) hi)
    · rw [hother j hji, hof]
  · by_cases hji : j = i
    · subst hji
      obtain ⟨b, v', next', hp, hb, -, hof⟩ := h.cell j _ hi
      obtain rfl := Option.some.inj hp
      obtain rfl : v = v' := by
        injection Option.some.inj (hread.symm.trans hb)
      rw [ofWorker_concat, if_pos rfl, hof]
    · rw [hother j hji]
      exact h.rest j fun pjob hrun => hj pjob (by rw [Function.update_of_ne hji, hrun])
  · have hne : ∀ m, Function.update workers i .lock m = .run (some b) →
      workers m = .run (some b) := by
      intro m hm
      rw [Function.update_apply] at hm
      split at hm
      · exact nomatch hm
      · exact hm
    exact h.distinct j k b (hne j hj) (hne k hk)

end

/-! ### The steps of calls that add jobs -/

section

variable {n max : ℕ} {s : System} {p : Pool} {l : List (ℕ × Job)} {job : Job} {k i : ℕ}

/-- A call begins, waits or returns without the job. -/
theorem Inv.setAdders {adders : ℕ → Adder} {returned : List (Job × ℤ)} (h : Inv n max s l)
    (hreturned : (returned.filter (·.2 = 0)).map Prod.fst = s.history.accepted)
    (hwait : ∀ p, s.pool = some p → ∀ k job seen, adders k = .wait job seen →
      seen < p.queueNotFull ∨ seen = p.queueNotFull ∧ l.length = max) :
    Inv n max { s with
      adders := adders
      history := { s.history with returned := returned } } l where
  pool := h.pool
  waits p hp := ⟨(h.waits p hp).worker, hwait p hp, (h.waits p hp).destroyer⟩
  noPool := h.noPool
  running := h.running
  closing := h.closing
  accepted := hreturned.trans h.accepted
  closedAt := by
    rw [show History.accepted { s.history with returned := returned } = _ from hreturned]
    exact h.closedAt
  fault := h.fault

/-- A call that is not waiting after a step. -/
theorem wait_of_update {adders : ℕ → Adder} {a : Adder} (ha : ∀ job seen, a ≠ .wait job seen)
    {j seen : ℕ} (h : Function.update adders k a j = .wait job seen) :
    adders j = .wait job seen := by
  rw [Function.update_apply] at h
  split at h
  · exact absurd h (ha job seen)
  · exact h

theorem accepted_return (h : History) (result : ℤ) :
    History.accepted { h with returned := h.returned ++ [(job, result)] } =
      h.accepted ++ if result = 0 then [job] else [] := by
  rw [History.accepted, History.accepted, List.filter_append, List.map_append]
  by_cases hr : result = 0
  · simp [hr]
  · simp [hr]

theorem Inv.reject (h : Inv n max s l) : Inv n max (s.addReturn k job (-1)) l := by
  refine h.setAdders ?_ fun p hp j job' seen hj => ?_
  · exact (accepted_return s.history (-1)).trans (List.append_nil _)
  · exact (h.waits p hp).adder j job' seen (wait_of_update (by simp) hj)

theorem Inv.wait (h : Inv n max s l) (hp : s.pool = some p)
    (hfull : p.queueCurNum = p.queueMaxNum) :
    Inv n max { s with adders := Function.update s.adders k (.wait job p.queueNotFull) } l := by
  apply h.setAdders rfl
  intro q hq j job' seen hj
  obtain rfl := Option.some.inj (hp.symm.trans hq)
  by_cases hjk : j = k
  · subst hjk
    rw [Function.update_self] at hj
    injection hj with _ hseen
    have hpool := h.pool p hp
    have hcount := hpool.count
    have hmax := hpool.queueMaxNum
    exact .inr ⟨hseen.symm, by omega⟩
  · rw [Function.update_of_ne hjk] at hj
    exact (h.waits p hp).adder j job' seen hj

theorem Inv.accept (h : Inv n max s l) (hp : s.pool = some p)
    (hroom : p.queueCurNum ≠ p.queueMaxNum) (hopen : p.queueClose = false) :
    Inv n max ((s.link p job).addReturn k job 0) (l ++ [(s.jobs.size, job)]) := by
  have hpool := h.pool p hp
  have hwaits := h.waits p hp
  have hlength : l.length < max := by
    have := hpool.count
    have := hpool.bound
    have := hpool.queueMaxNum
    omega
  have hclose : s.destroyer.queueClose = false := hpool.queueClose ▸ hopen
  obtain ⟨jobs, p', heq, hpool', hread, hempty, hfull, hnotEmpty, hfirst⟩ := hpool.link hlength
  have haccepted : History.accepted { s.history with
      returned := s.history.returned ++ [(job, 0)] } =
      s.history.accepted ++ [job] := accepted_return s.history 0
  rw [heq]
  refine ⟨?_, ?_, ?_, ?_, ?_, ?_, ?_, h.fault⟩
  · rintro q ⟨⟩
    exact hpool'
  · rintro q ⟨⟩
    refine ⟨fun i seen hi => ?_, fun j job' seen hj => ?_, fun seen hd => ?_⟩
    · rcases hwaits.worker i seen hi with hlt | ⟨hseen, hnil, -⟩
      · exact .inl (hlt.trans_le hnotEmpty)
      · exact .inl (hseen ▸ hfirst hnil)
    · rcases hwaits.adder j job' seen (wait_of_update (by simp) hj) with hlt | ⟨-, hmax⟩
      · exact .inl (hfull ▸ hlt)
      · omega
    · have hd : s.destroyer = .wait seen := hd
      rw [hd] at hclose
      exact nomatch hclose
  · refine ⟨nofun, fun hd => ?_⟩
    exact nomatch hp.symm.trans (h.noPool.mpr hd)
  · exact h.running.link hread
  · refine ⟨fun hd => ?_, h.closing.outside, h.closing.exited, h.closing.joined⟩
    have hd : s.destroyer.poolClose = true := hd
    generalize s.destroyer = d at hclose hd
    cases d <;> simp [Destroyer.queueClose, Destroyer.poolClose] at hclose hd
  · apply haccepted.trans
    rw [h.accepted, List.map_append, List.append_assoc]
    rfl
  · have hclosed := h.closedAt
    rw [hclose] at hclosed
    show s.history.closedAt = if s.destroyer.queueClose then _ else none
    rw [hclose]
    exact hclosed

/-- The section of a call. -/
theorem Inv.add {memory : Bool} (h : Inv n max s l) (hp : s.pool = some p) :
    ∃ l', l <+: l' ∧ Inv n max (s.add p k job memory) l' := by
  rw [System.add]
  split
  case isTrue hfull => exact ⟨l, List.prefix_rfl, h.wait hp hfull.1⟩
  case isFalse hfull =>
    split
    case isTrue => exact ⟨l, List.prefix_rfl, h.reject⟩
    case isFalse hopen =>
      have hclose := (Bool.or_eq_false_iff.mp (Bool.not_eq_true _ ▸ hopen)).1
      split
      · exact ⟨_, List.prefix_append _ _, h.accept hp (fun heq => hfull ⟨heq, hopen⟩) hclose⟩
      · exact ⟨l, List.prefix_rfl, h.reject⟩

/-- A mutex that is gone was destroyed. -/
theorem Inv.destroyed (h : Inv n max s l) (hgone : s.Gone) : s.destroyer.destroyed = true := by
  cases hp : s.pool with
  | none =>
      rw [h.noPool.mp hp]
      rfl
  | some p => exact (h.pool p hp).destroyed ▸ hgone p hp

theorem Inv.addFault (h : Inv n max s l) (hgone : s.Gone) :
    Inv n max { s with fault := true, adders := Function.update s.adders k .out } l := by
  have hset : Inv n max { s with adders := Function.update s.adders k .out } l :=
    h.setAdders rfl fun p hp j job' seen hj =>
      (h.waits p hp).adder j job' seen (wait_of_update (by simp) hj)
  obtain ⟨hpool, hwaits, hnoPool, hrunning, hclosing, haccepted, hclosedAt, -⟩ := hset
  exact ⟨hpool, hwaits, hnoPool, hrunning, hclosing, haccepted, hclosedAt,
    fun _ => h.destroyed hgone⟩

end

/-! ### The steps of workers -/

section

variable {n max : ℕ} {s : System} {p : Pool} {l : List (ℕ × Job)} {i : ℕ}

/-- A worker that locks or runs is one of those that were created, and the pool has a mutex. -/
theorem Closing.not_destroyed {workers : ℕ → Worker} {d : Destroyer} (h : Closing n workers d l)
    (hi : workers i ≠ .exited) : i < n ∧ d.destroyed = false := by
  have hlt : i < n := by
    by_contra hge
    exact hi (h.outside i (Nat.not_lt.mp hge))
  refine ⟨hlt, ?_⟩
  have hjoined := h.joined i
  cases d with
  | free | returned => exact absurd (hjoined hlt) hi
  | out | lock | wait | notEmpty | notFull | join | mutex => rfl

/-- A worker goes on. -/
theorem Closing.update {workers : ℕ → Worker} {d : Destroyer} {w : Worker}
    (h : Closing n workers d l) (hi : workers i ≠ .exited) (hw : w = .exited → d.poolClose = true) :
    Closing n (Function.update workers i w) d l := by
  have hne : ∀ j, workers j = .exited → j ≠ i := by
    rintro j hj rfl
    exact hi hj
  refine ⟨h.empty, fun j hj => ?_, fun j hlt hj => ?_, fun j hj => ?_⟩
  · rw [Function.update_of_ne (hne j (h.outside j hj))]
    exact h.outside j hj
  · rw [Function.update_apply] at hj
    split at hj
    · exact hw hj
    · exact h.exited j hlt hj
  · rw [Function.update_of_ne (hne j (h.joined j hj))]
    exact h.joined j hj

/-- What waits says of a worker that does not. -/
theorem wait_of_update_worker {workers : ℕ → Worker} {w : Worker} (hw : ∀ seen, w ≠ .wait seen)
    {j seen : ℕ} (h : Function.update workers i w j = .wait seen) : workers j = .wait seen := by
  rw [Function.update_apply] at h
  split at h
  · exact absurd h (hw seen)
  · exact h

theorem ne_exited_of_locks {w : Worker} (h : w.locks = true) : w ≠ .exited := by
  rintro rfl
  exact nomatch h

theorem Inv.workWait (h : Inv n max s l) (hp : s.pool = some p) (hi : (s.workers i).locks = true)
    (hempty : p.queueCurNum = 0) (hopen : p.poolClose = false) :
    Inv n max { s with workers := Function.update s.workers i (.wait p.queueNotEmpty) } l := by
  have hpool := h.pool p hp
  have hnil : l = [] := by
    have := hpool.count
    exact List.length_eq_zero_iff.mp (by omega)
  have hwoken : s.destroyer.woken = false := by
    have hd : s.destroyer.poolClose = false := hpool.poolClose ▸ hopen
    generalize s.destroyer = d at hd
    cases d <;> first | rfl | exact nomatch hd
  refine ⟨h.pool, fun q hq => ?_, h.noPool, h.running.idle hi (by simp),
    h.closing.update (ne_exited_of_locks hi) nofun, h.accepted, h.closedAt, h.fault⟩
  obtain rfl := Option.some.inj (hp.symm.trans hq)
  refine ⟨fun j seen hj => ?_, (h.waits p hp).adder, (h.waits p hp).destroyer⟩
  have hj : Function.update s.workers i (.wait p.queueNotEmpty) j = .wait seen := hj
  rw [Function.update_apply] at hj
  split at hj
  · injection hj with hseen
    exact .inr ⟨hseen.symm, hnil, hwoken⟩
  · exact (h.waits p hp).worker j seen hj

theorem Inv.workExit (h : Inv n max s l) (hp : s.pool = some p) (hi : (s.workers i).locks = true)
    (hclose : p.poolClose = true) :
    Inv n max { s with workers := Function.update s.workers i .exited } l := by
  have hd : s.destroyer.poolClose = true := (h.pool p hp).poolClose ▸ hclose
  refine ⟨h.pool, fun q hq => ?_, h.noPool, h.running.idle hi (by simp),
    h.closing.update (ne_exited_of_locks hi) fun _ => hd, h.accepted, h.closedAt, h.fault⟩
  have hwaits := h.waits q hq
  exact ⟨fun j seen hj => hwaits.worker j seen (wait_of_update_worker (by simp) hj), hwaits.adder,
    hwaits.destroyer⟩

theorem Inv.take {c : ℕ × Job} (h : Inv n max s (c :: l)) (hp : s.pool = some p)
    (hi : (s.workers i).locks = true) : Inv n max (s.take p i) l := by
  have hwaits := h.waits p hp
  have hpool := h.pool p hp
  obtain ⟨p', heq, hpool', hread, hmem, hnotEmpty, hnotFull, hfirst, hle, hlast⟩ :=
    hpool.take (a := c.1) (v := c.2) (i := i)
  rw [heq]
  refine ⟨?_, ?_, ?_, h.running.take hi hread hmem, ?_, ?_, h.closedAt, h.fault⟩
  · rintro q ⟨⟩
    exact hpool'
  · rintro q ⟨⟩
    refine ⟨fun j seen hj => ?_, fun k job seen hk => ?_, fun seen hd => ?_⟩
    · rcases hwaits.worker j seen (wait_of_update_worker (by simp) hj) with hlt | ⟨-, hnil, -⟩
      · exact .inl (hnotEmpty ▸ hlt)
      · exact nomatch hnil
    · rcases hwaits.adder k job seen hk with hlt | ⟨hseen, hfull⟩
      · exact .inl (hlt.trans_le hnotFull)
      · exact .inl (hseen ▸ hfirst hfull)
    · rcases hwaits.destroyer seen hd with hlt | ⟨hseen, -⟩
      · exact .inl (hlt.trans_le hle)
      · by_cases hnil : l = []
        · exact .inl (hseen ▸ hlast hnil)
        · rcases hle.lt_or_eq with hlt | heq
          · exact .inl (hseen ▸ hlt)
          · exact .inr ⟨hseen.trans heq, hnil⟩
  · refine ⟨nofun, fun hd => ?_⟩
    exact nomatch hp.symm.trans (h.noPool.mpr hd)
  · have hclosing := h.closing.update (w := .run (some c.1)) (ne_exited_of_locks hi) nofun
    exact ⟨fun hd => absurd (h.closing.empty hd) (List.cons_ne_nil _ _), hclosing.outside,
      hclosing.exited, hclosing.joined⟩
  · show s.history.accepted = (s.history.taken ++ [(i, c.2)]).map Prod.snd ++ l.map Prod.snd
    rw [h.accepted, List.map_append, List.append_assoc]
    rfl

/-- The section of a worker. -/
theorem Inv.work (h : Inv n max s l) (hp : s.pool = some p) (hi : (s.workers i).locks = true) :
    ∃ l', Inv n max (s.work p i) l' := by
  rw [System.work]
  split
  case isTrue hwait => exact ⟨l, h.workWait hp hi hwait.1 (Bool.not_eq_true _ ▸ hwait.2)⟩
  case isFalse hwait =>
    split
    case isTrue hclose => exact ⟨l, h.workExit hp hi hclose⟩
    case isFalse hclose =>
      have hcount := (h.pool p hp).count
      cases l with
      | nil => exact absurd ⟨hcount, hclose⟩ hwait
      | cons c l => exact ⟨l, h.take hp hi⟩

theorem Inv.runJob {pjob : Option ℕ} (h : Inv n max s l) (hi : s.workers i = .run pjob) :
    ∃ a c, pjob = some a ∧ s.jobs.read a = some c ∧ Inv n max (s.runJob i pjob) l := by
  obtain ⟨a, v, next, rfl, hread, hmem, -⟩ := h.running.cell i pjob hi
  refine ⟨a, _, rfl, hread, ?_⟩
  rw [show s.runJob i (some a) = { s with
    jobs := s.jobs.free a
    workers := Function.update s.workers i .lock
    history := { s.history with ran := s.history.ran ++ [(i, v)] } } by
      simp only [System.runJob, hread]]
  have hne : s.workers i ≠ .exited := by rw [hi]; exact nofun
  refine ⟨fun p hp => ?_, fun p hp => ?_, h.noPool, h.running.finish hi hread,
    h.closing.update hne nofun, h.accepted, h.closedAt, h.fault⟩
  · have hpool := h.pool p hp
    have hpath : (s.jobs.free a).Path p.head l none := hpool.path.congr fun b hb =>
      Heap.read_free_of_ne fun heq : b = a => hmem (heq ▸ hb)
    exact { hpool with path := hpath }
  · have hwaits := h.waits p hp
    exact ⟨fun j seen hj => hwaits.worker j seen (wait_of_update_worker (by simp) hj), hwaits.adder,
      hwaits.destroyer⟩

end

/-! ### The steps of the thread that destroys the pool -/

section

variable {n max : ℕ} {s : System} {p p' : Pool} {l : List (ℕ × Job)} {d : Destroyer} {i : ℕ}

/-- It goes on, and the pool is still there. -/
theorem Inv.setDestroyer {pool : Option Pool} {closedAt : Option ℕ} (h : Inv n max s l)
    (hp' : pool = some p') (hpool : PoolOk n max s.jobs d l p')
    (hwaits : Waits max p' s.workers s.adders d l) (hclosing : Closing n s.workers d l)
    (hclosedAt : closedAt = if d.queueClose then some s.history.accepted.length else none)
    (hd : d ≠ .returned) (hdestroyed : s.destroyer.destroyed = true → d.destroyed = true) :
    Inv n max
      { s with pool := pool, destroyer := d, history := { s.history with closedAt := closedAt } }
      l where
  pool q hq := by
    obtain rfl := Option.some.inj (hp'.symm.trans hq)
    exact hpool
  waits q hq := by
    obtain rfl := Option.some.inj (hp'.symm.trans hq)
    exact hwaits
  noPool := ⟨fun hnone => (nomatch hp'.symm.trans hnone), fun hret => absurd hret hd⟩
  running := h.running
  closing := hclosing
  accepted := h.accepted
  closedAt := hclosedAt
  fault hfault := hdestroyed (h.fault hfault)

/-- The test of the loop, with the flag set. -/
theorem Inv.close {closedAt : Option ℕ} (h : Inv n max s l) (hp : s.pool = some p)
    (hlocks : s.destroyer.locks = true)
    (hclosedAt : closedAt = some s.history.accepted.length) :
    Inv n max (System.close { s with history := { s.history with closedAt := closedAt } }
      { p with queueClose := true }) l := by
  have hpool := h.pool p hp
  have hwaits := h.waits p hp
  have hnot : s.destroyer.poolClose = false ∧ s.destroyer.destroyed = false ∧
      s.destroyer.joined n = 0 := by
    generalize s.destroyer = d at hlocks
    cases d <;> first | exact ⟨rfl, rfl, rfl⟩ | exact nomatch hlocks
  obtain ⟨hpoolClose, hdestroyed, -⟩ := hnot
  have hworker : ∀ i seen, s.workers i = .wait seen →
      seen < p.queueNotEmpty ∨ seen = p.queueNotEmpty ∧ l = [] := fun i seen hi =>
    (hwaits.worker i seen hi).imp_right fun hreason => ⟨hreason.1, hreason.2.1⟩
  have hexited : ∀ i < n, s.workers i ≠ .exited := fun i hlt hi => by
    rw [h.closing.exited i hlt hi] at hpoolClose
    exact nomatch hpoolClose
  rw [System.close]
  split
  case isTrue hne =>
    have hnil : l ≠ [] := by
      rintro rfl
      exact hne hpool.count
    refine h.setDestroyer rfl
      { hpool with
        queueClose := rfl
        poolClose := hpool.poolClose.trans hpoolClose
        destroyed := hpool.destroyed.trans hdestroyed }
      ⟨fun i seen hi => (hworker i seen hi).imp_right fun hreason => ⟨hreason.1, hreason.2, rfl⟩,
        hwaits.adder, ?_⟩
      ⟨nofun, h.closing.outside, fun i hlt hi => absurd hi (hexited i hlt), nofun⟩
      hclosedAt nofun fun hd => nomatch hdestroyed.symm.trans hd
    intro seen hseen
    injection hseen with hseen
    exact .inr ⟨hseen.symm, hnil⟩
  case isFalse hzero =>
    have hnil : l = [] := by
      have hcount : p.queueCurNum = l.length := hpool.count
      have hzero : p.queueCurNum = 0 := not_not.mp hzero
      exact List.length_eq_zero_iff.mp (by omega)
    exact h.setDestroyer rfl
      { hpool with
        queueClose := rfl
        poolClose := rfl
        destroyed := hpool.destroyed.trans hdestroyed }
      ⟨fun i seen hi => (hworker i seen hi).imp_right fun hreason => ⟨hreason.1, hreason.2, rfl⟩,
        hwaits.adder, nofun⟩
      ⟨fun _ => hnil, h.closing.outside, fun _ _ _ => rfl, nofun⟩
      hclosedAt nofun fun hd => nomatch hdestroyed.symm.trans hd

theorem Inv.destroyLock (h : Inv n max s l) (hp : s.pool = some p) (hd : s.destroyer = .lock) :
    Inv n max (s.destroyLock p) l := by
  have hpool := h.pool p hp
  have hopen : (p.queueClose || p.poolClose) = false := by
    rw [hpool.queueClose, hpool.poolClose, hd]
    rfl
  rw [System.destroyLock, hopen, if_neg Bool.false_ne_true]
  exact h.close hp (by rw [hd]; rfl) rfl

theorem Inv.wake {seen : ℕ} (h : Inv n max s l) (hp : s.pool = some p)
    (hd : s.destroyer = .wait seen) : Inv n max (s.close p) l := by
  have hclosedAt := h.closedAt
  rw [hd] at hclosedAt
  have hclose : p.queueClose = true := by
    rw [(h.pool p hp).queueClose, hd]
    rfl
  have heq : ({ p with queueClose := true } : Pool) = p := by
    rw [← hclose]
  have hafter := h.close hp (by rw [hd]; rfl) hclosedAt
  rw [heq] at hafter
  exact hafter

theorem Inv.notEmpty (h : Inv n max s l) (hp : s.pool = some p) (hd : s.destroyer = .notEmpty) :
    Inv n max
      { s with pool := some { p with queueNotEmpty := p.queueNotEmpty + 1 }, destroyer := .notFull }
      l := by
  obtain ⟨hpath, htail, hcount, hbound, hthread, hmax, hqclose, hpclose, hdestroyed⟩ := h.pool p hp
  have hwaits := h.waits p hp
  have hclosing := h.closing
  have hclosedAt := h.closedAt
  rw [hd] at hqclose hpclose hdestroyed hclosing hclosedAt
  refine h.setDestroyer (d := .notFull) rfl
    ⟨hpath, htail, hcount, hbound, hthread, hmax, hqclose, hpclose, hdestroyed⟩
    ⟨fun i seen hi => .inl ?_, hwaits.adder, nofun⟩
    ⟨hclosing.empty, hclosing.outside, hclosing.exited, nofun⟩
    hclosedAt nofun (by rw [hd]; exact id)
  have hle := hwaits.worker i seen hi
  show seen < p.queueNotEmpty + 1
  omega

theorem Inv.notFull (h : Inv n max s l) (hp : s.pool = some p) (hd : s.destroyer = .notFull) :
    Inv n max
      { s with pool := some { p with queueNotFull := p.queueNotFull + 1 }, destroyer := .join 0 }
      l := by
  obtain ⟨hpath, htail, hcount, hbound, hthread, hmax, hqclose, hpclose, hdestroyed⟩ := h.pool p hp
  have hwaits := h.waits p hp
  have hclosing := h.closing
  have hclosedAt := h.closedAt
  rw [hd] at hqclose hpclose hdestroyed hclosing hclosedAt hwaits
  refine h.setDestroyer (d := .join 0) rfl
    ⟨hpath, htail, hcount, hbound, hthread, hmax, hqclose, hpclose, hdestroyed⟩
    ⟨hwaits.worker, fun k job seen hk => .inl ?_, nofun⟩
    ⟨hclosing.empty, hclosing.outside, hclosing.exited, nofun⟩
    hclosedAt nofun (by rw [hd]; exact id)
  have hle := hwaits.adder k job seen hk
  show seen < p.queueNotFull + 1
  omega

/-- One more worker is joined, or the last one was. -/
theorem Inv.join (h : Inv n max s l) (hp : s.pool = some p) (hd : s.destroyer = .join i)
    (hexited : i < n → s.workers i = .exited) :
    Inv n max { s with destroyer := if i < n then .join (i + 1) else .mutex } l := by
  obtain ⟨hpath, htail, hcount, hbound, hthread, hmax, hqclose, hpclose, hdestroyed⟩ := h.pool p hp
  have hwaits := h.waits p hp
  have hclosing := h.closing
  have hclosedAt := h.closedAt
  rw [hd] at hqclose hpclose hdestroyed hclosing hclosedAt hwaits
  split
  case isTrue hlt =>
    refine h.setDestroyer (d := .join (i + 1)) hp
      ⟨hpath, htail, hcount, hbound, hthread, hmax, hqclose, hpclose, hdestroyed⟩
      ⟨hwaits.worker, hwaits.adder, nofun⟩
      ⟨hclosing.empty, hclosing.outside, hclosing.exited, fun j hj => ?_⟩ hclosedAt nofun
      (by rw [hd]; exact id)
    rcases Nat.lt_succ_iff_lt_or_eq.mp hj with hj | rfl
    · exact hclosing.joined j hj
    · exact hexited hlt
  case isFalse hge =>
    exact h.setDestroyer (d := .mutex) hp
      ⟨hpath, htail, hcount, hbound, hthread, hmax, hqclose, hpclose, hdestroyed⟩
      ⟨hwaits.worker, hwaits.adder, nofun⟩
      ⟨hclosing.empty, hclosing.outside, hclosing.exited,
        fun j hj => hclosing.joined j (hj.trans_le (Nat.not_lt.mp hge))⟩
      hclosedAt nofun (by rw [hd]; exact id)

theorem Inv.mutex (h : Inv n max s l) (hp : s.pool = some p) (hd : s.destroyer = .mutex) :
    Inv n max { s with pool := some { p with destroyed := true }, destroyer := .free } l := by
  obtain ⟨hpath, htail, hcount, hbound, hthread, hmax, hqclose, hpclose, -⟩ := h.pool p hp
  have hwaits := h.waits p hp
  have hclosing := h.closing
  have hclosedAt := h.closedAt
  rw [hd] at hqclose hpclose hclosing hclosedAt hwaits
  exact h.setDestroyer (d := .free) rfl
    ⟨hpath, htail, hcount, hbound, hthread, hmax, hqclose, hpclose, rfl⟩
    ⟨hwaits.worker, hwaits.adder, nofun⟩
    ⟨hclosing.empty, hclosing.outside, hclosing.exited, hclosing.joined⟩ hclosedAt nofun
    fun _ => rfl

theorem Inv.free (h : Inv n max s l) (hd : s.destroyer = .free) :
    Inv n max { s with pool := none, destroyer := .returned } l := by
  have hclosing := h.closing
  have hclosedAt := h.closedAt
  rw [hd] at hclosing hclosedAt
  exact ⟨nofun, nofun, ⟨fun _ => rfl, fun _ => rfl⟩, h.running,
    ⟨hclosing.empty, hclosing.outside, hclosing.exited, hclosing.joined⟩, h.accepted, hclosedAt,
    fun _ => rfl⟩

/-- When the pool is freed, its list is empty. -/
theorem Inv.head_of_free (h : Inv n max s l) (hp : s.pool = some p) (hd : s.destroyer = .free) :
    p.head = none := by
  refine (h.pool p hp).head_eq_none.mpr (h.closing.empty ?_)
  rw [hd]
  rfl

end

/-! ### Every order of steps -/

section

variable {n max : ℕ} {s s' : System} {l : List (ℕ × Job)} {i k : ℕ}

theorem Inv.addMove (h : Inv n max s l) (hmove : AddMove k s s') :
    ∃ l', l <+: l' ∧ Inv n max s' l' := by
  cases hmove with
  | add hp hm hk => exact h.add hp
  | fault hk hgone => exact ⟨l, List.prefix_rfl, h.addFault hgone⟩

theorem Inv.workMove (h : Inv n max s l) (hmove : WorkMove i s s') : ∃ l', Inv n max s' l' := by
  cases hmove with
  | work hp hm hi => exact h.work hp hi
  | run hi =>
      obtain ⟨_, _, _, _, hrun⟩ := h.runJob hi
      exact ⟨l, hrun⟩
  | fault hi hgone =>
      have hlive := (h.closing.not_destroyed (ne_exited_of_locks hi)).2
      exact nomatch hlive.symm.trans (h.destroyed hgone)

theorem Inv.destroyMove (h : Inv n max s l) (hmove : DestroyMove s s') : Inv n max s' l := by
  cases hmove with
  | lock hp hm hd => exact h.destroyLock hp hd
  | wake hp hm hd => exact h.wake hp hd
  | notEmpty hp hd => exact h.notEmpty hp hd
  | notFull hp hd => exact h.notFull hp hd
  | join hp hd hi hexited =>
      have hjoin := h.join hp hd fun _ => hexited
      rw [if_pos ((h.pool _ hp).threadNum ▸ hi)] at hjoin
      exact hjoin
  | joined hp hd hi =>
      have hge := Nat.not_lt.mpr ((h.pool _ hp).threadNum ▸ hi)
      have hjoin := h.join hp hd fun hlt => absurd hlt hge
      rw [if_neg hge] at hjoin
      exact hjoin
  | mutex hp hd => exact h.mutex hp hd
  | freeJob hp hd ha hc => exact nomatch (h.head_of_free hp hd).symm.trans ha
  | freeFault hp hd ha hc => exact nomatch (h.head_of_free hp hd).symm.trans ha
  | free hp hd ha => exact h.free hd
  | lockFault hd hgone =>
      have hdestroyed := h.destroyed hgone
      generalize s.destroyer = d at hd hdestroyed
      cases d <;> simp [Destroyer.locks, Destroyer.destroyed] at hd hdestroyed
  | fault hd hp =>
      rw [h.noPool.mp hp] at hd
      exact nomatch hd

theorem Inv.move (h : Inv n max s l) (hmove : Move s s') : ∃ l', Inv n max s' l' := by
  cases hmove with
  | add hmove =>
      obtain ⟨l', -, hadd⟩ := h.addMove hmove
      exact ⟨l', hadd⟩
  | work hmove => exact h.workMove hmove
  | destroy hmove => exact ⟨l, h.destroyMove hmove⟩

theorem Inv.callAdd (h : Inv n max s l) (job : Job) :
    Inv n max { s with adders := Function.update s.adders k (.lock job) } l :=
  h.setAdders rfl fun p hp j job' seen hj =>
    (h.waits p hp).adder j job' seen (wait_of_update (by simp) hj)

theorem Inv.callDestroy (h : Inv n max s l) (hd : s.destroyer = .out) :
    Inv n max { s with destroyer := .lock } l := by
  obtain ⟨p, hp⟩ : ∃ p, s.pool = some p := Option.ne_none_iff_exists'.mp fun hnone =>
    nomatch hd.symm.trans (h.noPool.mp hnone)
  obtain ⟨hpath, htail, hcount, hbound, hthread, hmax, hqclose, hpclose, hdestroyed⟩ := h.pool p hp
  have hwaits := h.waits p hp
  have hclosing := h.closing
  have hclosedAt := h.closedAt
  rw [hd] at hqclose hpclose hdestroyed hwaits hclosing hclosedAt
  exact h.setDestroyer (d := .lock) hp
    ⟨hpath, htail, hcount, hbound, hthread, hmax, hqclose, hpclose, hdestroyed⟩
    ⟨hwaits.worker, hwaits.adder, nofun⟩
    ⟨nofun, hclosing.outside, hclosing.exited, nofun⟩ hclosedAt nofun (by rw [hd]; exact id)

theorem inv_threadpoolInit (n max : ℕ) : Inv n max (threadpoolInit n max) [] where
  pool p hp := by
    obtain rfl := Option.some.inj hp
    exact ⟨rfl, nofun, rfl, Nat.zero_le _, rfl, rfl, rfl, rfl, rfl⟩
  waits p hp := by
    obtain rfl := Option.some.inj hp
    refine ⟨fun i seen hi => ?_, fun k job seen hk => ?_, fun seen hd => ?_⟩
    · have hi : (if i < n then Worker.lock else .exited) = .wait seen := hi
      split at hi <;> exact nomatch hi
    · exact nomatch (show Adder.out = .wait job seen from hk)
    · exact nomatch (show Destroyer.out = .wait seen from hd)
  noPool := ⟨fun hnone => (Option.some_ne_none _ hnone).elim,
    fun hd => nomatch (show Destroyer.out = .returned from hd)⟩
  running := by
    have hidle : ∀ i pjob, (threadpoolInit n max).workers i ≠ .run pjob := fun i pjob hi => by
      have hi : (if i < n then Worker.lock else .exited) = .run pjob := hi
      split at hi <;> exact nomatch hi
    exact ⟨fun i pjob hi => absurd hi (hidle i pjob), fun _ _ => rfl,
      fun i j a hi => absurd hi (hidle i _)⟩
  closing := by
    refine ⟨nofun, fun i hi => if_neg (Nat.not_lt.mpr hi), fun i hlt hi => ?_, nofun⟩
    have hi : (if i < n then Worker.lock else .exited) = .exited := hi
    rw [if_pos hlt] at hi
    exact nomatch hi
  accepted := rfl
  closedAt := rfl
  fault := nofun

theorem exists_inv (h : Reachable n max s) : ∃ l, Inv n max s l := by
  induction h with
  | refl => exact ⟨[], inv_threadpoolInit n max⟩
  | tail _ hstep ih =>
      obtain ⟨l, h⟩ := ih
      cases hstep with
      | move hmove => exact h.move hmove
      | callAdd job hk => exact ⟨l, h.callAdd job⟩
      | callDestroy hd => exact ⟨l, h.callDestroy hd⟩

/-! ### Progress -/

/-- A step of a worker that does not wait, or was signalled. -/
def Signalled (i : ℕ) (s s' : System) : Prop :=
  WorkMove i s s' ∧ ∀ p seen, s.pool = some p → s.workers i = .wait seen → seen < p.queueNotEmpty

/-- The first worker takes the next job, without a spurious wake-up. -/
theorem Inv.exists_take {c : ℕ × Job} (h : Inv n max s (c :: l)) (hn : 0 < n) :
    ∃ s', Relation.ReflTransGen (Signalled 0) s s' ∧ Inv n max s' l ∧ s'.adders = s.adders ∧
      s'.destroyer = s.destroyer ∧ s'.history.returned = s.history.returned := by
  have hopen : s.destroyer.poolClose = false := by
    by_contra hclose
    exact nomatch h.closing.empty (Bool.not_eq_false _ ▸ hclose)
  have hlocked : ∀ s : System, Inv n max s (c :: l) → s.destroyer.poolClose = false →
      (s.workers 0).locks = true → ∃ s', Signalled 0 s s' ∧ Inv n max s' l ∧ s'.adders = s.adders ∧
        s'.destroyer = s.destroyer ∧ s'.history.returned = s.history.returned := by
    intro s h hopen hi
    obtain ⟨p, hp⟩ : ∃ p, s.pool = some p := Option.ne_none_iff_exists'.mp fun hnone => by
      rw [h.noPool.mp hnone] at hopen
      exact nomatch hopen
    have hpool := h.pool p hp
    have hm : p.destroyed = false := by
      rw [hpool.destroyed]
      exact (h.closing.not_destroyed (ne_exited_of_locks hi)).2
    have hcount : p.queueCurNum ≠ 0 := by
      rw [hpool.count, List.length_cons]
      omega
    have hclose : p.poolClose = false := hpool.poolClose.trans hopen
    have hwork : s.work p 0 = s.take p 0 := by
      rw [System.work, if_neg fun hwait => hcount hwait.1, hclose, if_neg Bool.false_ne_true]
    obtain ⟨p', heq, -⟩ := hpool.take (a := c.1) (v := c.2) (i := 0)
    refine ⟨s.take p 0, ⟨hwork ▸ .work hp hm hi, fun q seen hq hwait => ?_⟩,
      h.take hp hi, ?_, ?_, ?_⟩
    · rcases (h.waits q hq).worker 0 seen hwait with hlt | ⟨-, hnil, -⟩
      · exact hlt
      · exact nomatch hnil
    · rw [heq]
    · rw [heq]
    · rw [heq]
  cases hi : s.workers 0 with
  | lock | wait =>
      obtain ⟨s', hmove, hinv, hrest⟩ := hlocked s h hopen (by rw [hi]; rfl)
      exact ⟨s', .single hmove, hinv, hrest⟩
  | exited => exact nomatch hopen.symm.trans (h.closing.exited 0 hn hi)
  | run pjob =>
      obtain ⟨a, c', rfl, hread, hinv⟩ := h.runJob hi
      have hmove : Signalled 0 s (s.runJob 0 (some a)) :=
        ⟨.run hi, fun _ _ _ hwait => nomatch hi.symm.trans hwait⟩
      have heq : s.runJob 0 (some a) = { s with
          jobs := s.jobs.free a
          workers := Function.update s.workers 0 .lock
          history := { s.history with ran := s.history.ran ++ [(0, c'.val)] } } := by
        simp only [System.runJob, hread]
      rw [heq] at hmove hinv
      obtain ⟨s', hmove', hinv', hrest⟩ := hlocked _ hinv hopen (by simp [Worker.locks])
      exact ⟨s', .head hmove (.single hmove'), hinv', hrest⟩

/-- All jobs of the list are taken. -/
theorem Inv.exists_drained (h : Inv n max s l) (hn : 0 < n ∨ l = []) :
    ∃ s', Relation.ReflTransGen (Signalled 0) s s' ∧ Inv n max s' [] ∧ s'.adders = s.adders ∧
      s'.destroyer = s.destroyer ∧ s'.history.returned = s.history.returned := by
  induction l generalizing s with
  | nil => exact ⟨s, .refl, h, rfl, rfl, rfl⟩
  | cons c l ih =>
      obtain ⟨s₁, hmoves₁, h₁, ha₁, hd₁, hr₁⟩ :=
        h.exists_take (hn.resolve_right (List.cons_ne_nil _ _))
      obtain ⟨s₂, hmoves₂, h₂, ha₂, hd₂, hr₂⟩ :=
        ih h₁ (.inl (hn.resolve_right (List.cons_ne_nil _ _)))
      exact ⟨s₂, hmoves₁.trans hmoves₂, h₂, ha₂.trans ha₁, hd₂.trans hd₁, hr₂.trans hr₁⟩

end

/-! ### The result -/

/-- How the jobs of a pool are accounted for, at any moment. -/
structure Accounts (n : ℕ) (s : System) : Prop where
  /-- The counter is the length of the list from `head`, which ends at `tail`; behind the jobs
  that were taken, the list is what was accepted, in order. -/
  list : ∀ p, s.pool = some p → ∃ l, s.jobs.Path p.head l none ∧ p.queueCurNum = l.length ∧
    p.queueCurNum ≤ p.queueMaxNum ∧ (∀ c ∈ l.getLast?, p.tail = some c.1) ∧
    s.history.accepted = s.history.taken.map Prod.snd ++ l.map Prod.snd
  /-- A worker has run the jobs that it took, but for one that it has with it. -/
  workers : ∀ i, ofWorker i s.history.taken = ofWorker i s.history.ran ∨
    ∃ a v next, s.workers i = .run (some a) ∧ s.jobs.read a = some ⟨v, next⟩ ∧
      ofWorker i s.history.taken = ofWorker i s.history.ran ++ [(i, v)]
  /-- As long as there is a thread, no job is left on the list for ever, and no wake-up that was
  not signalled is needed for that. -/
  drains : 0 < n → ∃ s', Relation.ReflTransGen (Signalled 0) s s' ∧
    s'.history.accepted = s.history.accepted ∧
    s'.history.taken.map Prod.snd = s.history.accepted
  /-- No job was accepted since `queue_close` was set. -/
  closed : ∀ m, s.history.closedAt = some m → s.history.accepted.length = m
  closedAt : ∀ p, s.pool = some p → p.queueClose = true → s.history.closedAt ≠ none
  /-- When a worker has left, or the pool is freed, no job is left. -/
  exited : ∀ i < n, s.workers i = .exited → s.history.accepted = s.history.taken.map Prod.snd
  freed : s.pool = none → s.history.accepted = s.history.taken.map Prod.snd
  /-- Nothing is used wrongly before the mutex is destroyed. -/
  fault : s.fault = true → s.Gone

/-- Under every order of the steps of workers, of calls that add jobs and of the call that
destroys the pool, every job is accounted for. -/
theorem job_accounting {n max : ℕ} {s : System} (h : Reachable n max s) : Accounts n s := by
  obtain ⟨l, h⟩ := exists_inv h
  have hdone : s.destroyer.poolClose = true →
    s.history.accepted = s.history.taken.map Prod.snd := by
    intro hd
    rw [h.accepted, h.closing.empty hd]
    exact List.append_nil _
  have hreturned : s.pool = none → s.destroyer.poolClose = true := fun hp => by
    rw [h.noPool.mp hp]
    rfl
  refine ⟨fun p hp => ?_, fun i => ?_, fun hn => ?_, fun m hm => ?_, fun p hp hclose => ?_,
    fun i hlt hi => hdone (h.closing.exited i hlt hi), fun hp => hdone (hreturned hp),
    fun hfault p hp => ?_⟩
  · have hpool := h.pool p hp
    refine ⟨l, hpool.path, hpool.count, ?_, hpool.tail, h.accepted⟩
    rw [hpool.count]
    exact_mod_cast hpool.bound
  · by_cases hrun : ∃ pjob, s.workers i = .run pjob
    · obtain ⟨pjob, hrun⟩ := hrun
      obtain ⟨a, v, next, rfl, hread, -, hof⟩ := h.running.cell i pjob hrun
      exact .inr ⟨a, v, next, hrun, hread, hof⟩
    · exact .inl (h.running.rest i fun pjob hi => hrun ⟨pjob, hi⟩)
  · obtain ⟨s', hmoves, h', -, -, hr⟩ := h.exists_drained (.inl hn)
    have haccepted : s'.history.accepted = s.history.accepted := by
      rw [History.accepted, hr]
      rfl
    refine ⟨s', hmoves, haccepted, ?_⟩
    have hall := h'.accepted
    rw [List.map_nil, List.append_nil] at hall
    rw [← hall, haccepted]
  · have hclosedAt := h.closedAt
    rw [hm] at hclosedAt
    split at hclosedAt
    · exact (Option.some.inj hclosedAt).symm
    · exact nomatch hclosedAt
  · rw [h.closedAt, ← (h.pool p hp).queueClose, hclose, if_pos rfl]
    exact Option.some_ne_none _
  · rw [(h.pool p hp).destroyed]
    exact h.fault hfault

/-- One thread: a job is added, taken and run, and another one is left on the list. -/
theorem job_accounting_two : ∃ s, s.history.accepted = [⟨7, 8⟩, ⟨9, 10⟩] ∧
    s.history.ran = [(0, ⟨7, 8⟩)] ∧ Accounts 1 s := by
  have h₁ : Reachable 1 2 _ := .single (@Step.callAdd _ 0 ⟨7, 8⟩ rfl)
  have h₂ : Reachable 1 2 _ := h₁.tail (.move (.add (@AddMove.add 0 _ _ _ true rfl rfl rfl)))
  have h₃ : Reachable 1 2 _ := h₂.tail (.move (.work (@WorkMove.work 0 _ _ rfl rfl rfl)))
  have h₄ : Reachable 1 2 _ := h₃.tail (@Step.callAdd _ 0 ⟨9, 10⟩ rfl)
  have h₅ : Reachable 1 2 _ := h₄.tail (.move (.add (@AddMove.add 0 _ _ _ true rfl rfl rfl)))
  have h₆ : Reachable 1 2 _ := h₅.tail (.move (.work (@WorkMove.run 0 _ _ rfl)))
  exact ⟨_, rfl, rfl, job_accounting h₆⟩

end PanelTester.Threadpool
