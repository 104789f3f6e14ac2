import PanelTester.Library.Calls

/-!
Messages to an apartment: `MsOS_SendMessage` and `MsOS_PostMessage` of `MsOS_queue.c`, and
`ApartmentThread` of `MsOS_control.c`. An operation on the queue, a run of the handler and
an operation on a semaphore are one step each. A message carries pointers into the frame of
its sender; a use of memory that is not there any more is a fault. Memory is given out at
any address that is not in use, so that addresses come again. The history is not read by
any step.
-/

namespace PanelTester.MsOS.Apartment

open Library CallSystem

/-- `MSOS_MESSAGE` -/
structure Message where
  messageID : UInt32
  parameter1 : UInt32
  parameter2 : UInt32
  blocking : Bool
  pResult : Option ℕ
  returnSemaphore : ℕ
  deriving DecidableEq

/-- Where `ApartmentThread` is in its loop. -/
inductive Thread
  | receive
  | handle (message : Message)
  | store (message : Message) (result : UInt32)
  | release (message : Message)

/-- What a blocking call returned; `seq` is the place of its message among those queued. -/
structure Return where
  message : Message
  seq : ℕ
  result : UInt32

/-- The messages in the order they were queued, the runs of the handler, how many rounds the
thread has completed, for which messages it stored a result and released a semaphore, and
what blocking calls returned. -/
structure History where
  queued : List Message
  handled : List (Message × UInt32)
  finished : ℕ
  stored : List ℕ
  released : List ℕ
  returned : List Return

/-- The queue, the memory that pointers point to (`none` where there is nothing), the thread,
and whether memory was used that is not there. -/
structure Shared where
  queue : List Message
  results : ℕ → Option UInt32
  semaphores : ℕ → Option ℕ
  thread : Thread
  fault : Bool
  history : History

/-- The size of the queue that `MsOS_CreateApartment` creates. -/
def queueSize : ℕ := 100

namespace Shared

/-- `MsOS_SendToQueue`, when there is room. -/
def sendToQueue (s : Shared) (m : Message) : Shared :=
  { s with
    queue := s.queue ++ [m]
    history := { s.history with queued := s.history.queued ++ [m] } }

/-- `MsOS_DeleteSemaphore` -/
def deleteSemaphore (s : Shared) (sem : ℕ) : Shared :=
  match s.semaphores sem with
  | none => { s with fault := true }
  | some _ => { s with semaphores := Function.update s.semaphores sem none }

/-- `MsOS_ReleaseSemaphore` -/
def releaseSemaphore (s : Shared) (sem : ℕ) : Shared :=
  match s.semaphores sem with
  | none => { s with fault := true }
  | some n => { s with semaphores := Function.update s.semaphores sem (some (n + 1)) }

/-- A result is stored through a pointer. -/
def storeResult (s : Shared) (p : ℕ) (result : UInt32) : Shared :=
  match s.results p with
  | none => { s with fault := true }
  | some _ => { s with results := Function.update s.results p (some result) }

/-- The thread behind its handler: a result is stored for a blocking message with a pointer. -/
def answer (s : Shared) (m : Message) (result : UInt32) : Shared :=
  match m.blocking, m.pResult with
  | true, some p =>
      { s.storeResult p result with
        thread := .release m
        history := { s.history with stored := s.history.stored ++ [s.history.finished] } }
  | _, _ => { s with thread := .release m }

/-- The end of a round of the thread. -/
def finish (s : Shared) (m : Message) : Shared :=
  if m.blocking then
    { s.releaseSemaphore m.returnSemaphore with
      thread := .receive
      history := { s.history with
        finished := s.history.finished + 1
        released := s.history.released ++ [s.history.finished] } }
  else { s with
    thread := .receive
    history := { s.history with finished := s.history.finished + 1 } }

end Shared

/-- A call in progress, with its message and its place among those queued; `turn` is a step
of the thread. -/
inductive Call
  | send (messageID parameter1 parameter2 : UInt32)
  | sendQueue (message : Message)
  | sendWait (message : Message) (seq : ℕ)
  | sendDelete (message : Message) (seq : ℕ)
  | sendReturn (message : Message) (seq : ℕ)
  | post (messageID parameter1 parameter2 : UInt32)
  | postQueue (message : Message)
  | turn

/-- The steps of the calls and of the thread. -/
inductive Move : Shared → Call → Shared → Option Call → Prop
  /-- `MsOS_SendMessage`: the result is -1 at first, the semaphore is created with 0. -/
  | sendCreate {s id p₁ p₂ p sem} (hp : s.results p = none) (hsem : s.semaphores sem = none) :
      Move s (.send id p₁ p₂)
        { s with
          results := Function.update s.results p (some 0xffffffff)
          semaphores := Function.update s.semaphores sem (some 0) }
        (some (.sendQueue ⟨id, p₁, p₂, true, some p, sem⟩))
  | sendQueue {s m} (h : s.queue.length < queueSize) :
      Move s (.sendQueue m) (s.sendToQueue m) (some (.sendWait m s.history.queued.length))
  | sendObtain {s m seq n} (h : s.semaphores m.returnSemaphore = some (n + 1)) :
      Move s (.sendWait m seq)
        { s with semaphores := Function.update s.semaphores m.returnSemaphore (some n) }
        (some (.sendDelete m seq))
  | sendObtainFault {s m seq} (h : s.semaphores m.returnSemaphore = none) :
      Move s (.sendWait m seq) { s with fault := true } (some (.sendDelete m seq))
  | sendDelete {s m seq} :
      Move s (.sendDelete m seq) (s.deleteSemaphore m.returnSemaphore) (some (.sendReturn m seq))
  /-- The result is read, and the frame is left. -/
  | sendReturn {s m seq p result} (hp : m.pResult = some p) (h : s.results p = some result) :
      Move s (.sendReturn m seq)
        { s with
          results := Function.update s.results p none
          history := { s.history with returned := s.history.returned ++ [⟨m, seq, result⟩] } }
        none
  /-- `MsOS_PostMessage`: the semaphore of the message is not set. -/
  | postCreate {s id p₁ p₂ junk} :
      Move s (.post id p₁ p₂) s (some (.postQueue ⟨id, p₁, p₂, false, none, junk⟩))
  | postQueue {s m} (h : s.queue.length < queueSize) :
      Move s (.postQueue m) (s.sendToQueue m) none
  /-- `ApartmentThread`: a message is received, -/
  | receive {s m queue} (ht : s.thread = .receive) (h : s.queue = m :: queue) :
      Move s .turn { s with queue := queue, thread := .handle m } none
  /-- the handler returns something, -/
  | handle {s m result} (ht : s.thread = .handle m) :
      Move s .turn
        { s with
          thread := .store m result
          history := { s.history with handled := s.history.handled ++ [(m, result)] } }
        none
  /-- which is stored, -/
  | store {s m result} (ht : s.thread = .store m result) : Move s .turn (s.answer m result) none
  /-- and the semaphore of the message is released. -/
  | release {s m} (ht : s.thread = .release m) : Move s .turn (s.finish m) none

/-- The calls on an apartment. -/
def apartmentCalls : CallSystem Shared Call where
  start c := (∃ id p₁ p₂, c = .send id p₁ p₂) ∨ (∃ id p₁ p₂, c = .post id p₁ p₂) ∨ c = .turn
  move := Move

/-- A new apartment, in a memory where nothing is in use yet. -/
def newApartment : Shared where
  queue := []
  results := fun _ => none
  semaphores := fun _ => none
  thread := .receive
  fault := false
  history := ⟨[], [], 0, [], [], []⟩

/-! ### The invariant -/

/-- The message in the thread. -/
def Thread.message : Thread → Option Message
  | .receive => none
  | .handle m | .store m _ | .release m => some m

/-- How many messages were taken, how many handled and how many answered, beyond those of
completed rounds. -/
def Thread.taken : Thread → ℕ
  | .receive => 0
  | .handle _ | .store _ _ | .release _ => 1

def Thread.handled : Thread → ℕ
  | .receive | .handle _ => 0
  | .store _ _ | .release _ => 1

def Thread.stored : Thread → ℕ
  | .receive | .handle _ | .store _ _ => 0
  | .release _ => 1

/-- What the handler returned for one of the first `n` messages, -1 for another. -/
def answerOf (handled : List (Message × UInt32)) (n seq : ℕ) : UInt32 :=
  if seq < n then (handled[seq]?.map Prod.snd).getD 0xffffffff else 0xffffffff

/-- What the frame of the sender of a message holds: -1 until the result is stored. -/
def Shared.resultOf (s : Shared) (seq : ℕ) : UInt32 :=
  answerOf s.history.handled (s.history.finished + s.thread.stored) seq

/-- A message at some place is blocking. -/
def History.blockingAt (h : History) (seq : ℕ) : Bool := h.queued[seq]?.any (·.blocking)

namespace Call

/-- The message of a blocking call that has its frame set up. -/
def message : Call → Option Message
  | .sendQueue m | .sendWait m _ | .sendDelete m _ | .sendReturn m _ => some m
  | _ => none

def seq : Call → Option ℕ
  | .sendWait _ seq | .sendDelete _ seq | .sendReturn _ seq => some seq
  | _ => none

/-- The place of the result in the frame of a call. -/
def frame (c : Call) : Multiset ℕ := (c.message.bind Message.pResult).elim 0 fun p => {p}

/-- The semaphore of a call. -/
def semaphore : Call → Multiset ℕ
  | .sendQueue m | .sendWait m _ | .sendDelete m _ => {m.returnSemaphore}
  | _ => 0

/-- The frame of the sender of a message is there, with a result in it. -/
def Framed (s : Shared) (m : Message) (result : UInt32) : Prop :=
  m.blocking = true ∧ ∃ p, m.pResult = some p ∧ s.results p = some result

/-- What is known of the memory of a call. -/
def Ok (s : Shared) : Call → Prop
  | .sendQueue m => Framed s m 0xffffffff ∧ s.semaphores m.returnSemaphore = some 0
  | .sendWait m seq => s.history.queued[seq]? = some m ∧ Framed s m (s.resultOf seq) ∧
      s.semaphores m.returnSemaphore = some (if seq < s.history.finished then 1 else 0)
  | .sendDelete m seq => s.history.queued[seq]? = some m ∧ seq < s.history.finished ∧
      Framed s m (s.resultOf seq) ∧ s.semaphores m.returnSemaphore = some 0
  | .sendReturn m seq => s.history.queued[seq]? = some m ∧ seq < s.history.finished ∧
      Framed s m (s.resultOf seq)
  | .postQueue m => m.blocking = false
  | _ => True

end Call

/-- What holds of queue, thread and history, whatever the calls are. -/
structure Core (s : Shared) : Prop where
  noFault : s.fault = false
  thread : ∀ m, s.thread.message = some m → s.history.queued[s.history.finished]? = some m
  queue : s.queue = s.history.queued.drop (s.history.finished + s.thread.taken)
  finished : s.history.finished + s.thread.taken ≤ s.history.queued.length
  handled : s.history.handled.length = s.history.finished + s.thread.handled
  inOrder : s.history.handled.map Prod.fst = s.history.queued.take s.history.handled.length
  result : ∀ m r, s.thread = .store m r → s.history.handled[s.history.finished]? = some (m, r)
  stored : s.history.stored =
    (List.range (s.history.finished + s.thread.stored)).filter s.history.blockingAt
  released : s.history.released = (List.range s.history.finished).filter s.history.blockingAt
  returned : ∀ r ∈ s.history.returned, r.seq < s.history.finished ∧ r.message.blocking = true ∧
    s.history.handled[r.seq]? = some (r.message, r.result)

/-- What holds of the calls: no memory is shared, and a blocking message that is not answered
yet has its sender waiting. -/
structure Waiting (s : Shared) (calls : Multiset Call) : Prop where
  frames : (calls.bind Call.frame).Nodup
  semaphores : (calls.bind Call.semaphore).Nodup
  ok : ∀ c ∈ calls, c.Ok s
  waits : ∀ seq m, s.history.finished ≤ seq → s.history.queued[seq]? = some m → m.blocking = true →
    Call.sendWait m seq ∈ calls

/-- No more messages are handled than were taken. -/
theorem Core.handled_le {s : Shared} (h : Core s) :
    s.history.handled.length ≤ s.history.queued.length := by
  have hle : s.thread.handled ≤ s.thread.taken := by
    cases s.thread <;> simp [Thread.handled, Thread.taken]
  have := h.handled
  have := h.finished
  omega

/-- The memory of calls is not looked at. -/
theorem Core.memory {s : Shared} (h : Core s) (results : ℕ → Option UInt32)
    (semaphores : ℕ → Option ℕ) : Core { s with results := results, semaphores := semaphores } :=
  ⟨h.noFault, h.thread, h.queue, h.finished, h.handled, h.inOrder, h.result, h.stored, h.released,
    h.returned⟩

theorem Core.return {s : Shared} (h : Core s) {r : Return}
    (hr : r.seq < s.history.finished ∧ r.message.blocking = true ∧
      s.history.handled[r.seq]? = some (r.message, r.result)) :
    Core { s with history := { s.history with returned := s.history.returned ++ [r] } } := by
  refine ⟨h.noFault, h.thread, h.queue, h.finished, h.handled, h.inOrder, h.result, h.stored,
    h.released, fun r' hr' => ?_⟩
  rcases List.mem_append.mp hr' with hr' | hr'
  · exact h.returned r' hr'
  · obtain rfl := List.mem_singleton.mp hr'
    exact hr

/-! ### Memory of calls -/

/-- Two calls with a piece of memory in common are the same. -/
theorem eq_of_common {f : Call → Multiset ℕ} {calls : Multiset Call} (h : (calls.bind f).Nodup)
    {c d : Call} (hc : c ∈ calls) (hd : d ∈ calls) {x : ℕ} (hcx : x ∈ f c) (hdx : x ∈ f d) :
    c = d := by
  obtain ⟨rest, rfl⟩ := Multiset.exists_cons_of_mem hc
  rw [Multiset.cons_bind, Multiset.nodup_add] at h
  rcases Multiset.mem_cons.mp hd with rfl | hd
  · rfl
  · exact absurd (Multiset.mem_bind.mpr ⟨d, hd, hdx⟩) (Multiset.disjoint_left.mp h.2.2 hcx)

/-- A call whose own memory is not touched. -/
theorem Call.Ok.congr {s s' : Shared} {c : Call} (h : c.Ok s)
    (hqueued : ∀ (seq : ℕ) (m : Message), s.history.queued[seq]? = some m →
      s'.history.queued[seq]? = some m)
    (hresults : ∀ p ∈ c.frame, s'.results p = s.results p)
    (hsemaphores : ∀ sem ∈ c.semaphore, s'.semaphores sem = s.semaphores sem)
    (hresultOf : ∀ seq ∈ c.seq, s'.resultOf seq = s.resultOf seq)
    (hfinished : ∀ seq ∈ c.seq, seq < s'.history.finished ↔ seq < s.history.finished) :
    c.Ok s' := by
  have hframed : ∀ m r, c.message = some m → Framed s m r → Framed s' m r := by
    rintro m r hm ⟨hblocking, p, hp, hr⟩
    refine ⟨hblocking, p, hp, ?_⟩
    rw [hresults p (by simp [Call.frame, hm, hp]), hr]
  cases c with
  | sendQueue m =>
      obtain ⟨hframe, hsem⟩ := h
      exact ⟨hframed m _ rfl hframe, (hsemaphores _ (Multiset.mem_singleton_self _)).trans hsem⟩
  | sendWait m seq =>
      obtain ⟨hm, hframe, hsem⟩ := h
      refine ⟨hqueued seq m hm, ?_, ?_⟩
      · rw [hresultOf seq rfl]
        exact hframed m _ rfl hframe
      · rw [hsemaphores _ (Multiset.mem_singleton_self _), hsem]
        simp only [hfinished seq rfl]
  | sendDelete m seq =>
      obtain ⟨hm, hlt, hframe, hsem⟩ := h
      refine ⟨hqueued seq m hm, (hfinished seq rfl).mpr hlt, ?_,
        (hsemaphores _ (Multiset.mem_singleton_self _)).trans hsem⟩
      rw [hresultOf seq rfl]
      exact hframed m _ rfl hframe
  | sendReturn m seq =>
      obtain ⟨hm, hlt, hframe⟩ := h
      refine ⟨hqueued seq m hm, (hfinished seq rfl).mpr hlt, ?_⟩
      rw [hresultOf seq rfl]
      exact hframed m _ rfl hframe
  | postQueue m => exact h
  | send | post | turn => trivial

/-- The memory of a call is there. -/
theorem Call.Ok.live {s : Shared} {c : Call} (h : c.Ok s) :
    (∀ p ∈ c.frame, s.results p ≠ none) ∧ ∀ sem ∈ c.semaphore, s.semaphores sem ≠ none := by
  have hframed : ∀ m r, c.message = some m → Framed s m r → ∀ p ∈ c.frame, s.results p ≠ none := by
    rintro m r hm ⟨-, q, hq, hr⟩ p hp
    simp only [Call.frame, hm, Option.bind_some, hq, Option.elim_some, Multiset.mem_singleton] at hp
    rw [hp, hr]
    exact Option.some_ne_none r
  cases c with
  | sendQueue m =>
      obtain ⟨hframe, hsem⟩ := h
      refine ⟨hframed m _ rfl hframe, ?_⟩
      intro sem hmem
      rw [Multiset.mem_singleton.mp hmem, hsem]
      exact Option.some_ne_none _
  | sendWait m seq =>
      obtain ⟨-, hframe, hsem⟩ := h
      refine ⟨hframed m _ rfl hframe, ?_⟩
      intro sem hmem
      rw [Multiset.mem_singleton.mp hmem, hsem]
      exact Option.some_ne_none _
  | sendDelete m seq =>
      obtain ⟨-, -, hframe, hsem⟩ := h
      refine ⟨hframed m _ rfl hframe, ?_⟩
      intro sem hmem
      rw [Multiset.mem_singleton.mp hmem, hsem]
      exact Option.some_ne_none _
  | sendReturn m seq =>
      exact ⟨hframed m _ rfl h.2.2, fun _ hmem => absurd hmem (Multiset.notMem_zero _)⟩
  | send | post | turn | postQueue =>
      exact ⟨fun _ hmem => absurd hmem (Multiset.notMem_zero _),
        fun _ hmem => absurd hmem (Multiset.notMem_zero _)⟩

namespace Waiting

variable {s s' : Shared} {c : Call} {calls : Multiset Call}

/-- The other calls use other memory. -/
theorem disjoint (h : Waiting s (c ::ₘ calls)) {d : Call} (hd : d ∈ calls) :
    (∀ p ∈ c.frame, p ∉ d.frame) ∧ ∀ sem ∈ c.semaphore, sem ∉ d.semaphore := by
  obtain ⟨hframes, hsems, -, -⟩ := h
  rw [Multiset.cons_bind, Multiset.nodup_add] at hframes hsems
  exact ⟨fun p hp hpd => Multiset.disjoint_left.mp hframes.2.2 hp
    (Multiset.mem_bind.mpr ⟨d, hd, hpd⟩),
    fun p hp hpd => Multiset.disjoint_left.mp hsems.2.2 hp (Multiset.mem_bind.mpr ⟨d, hd, hpd⟩)⟩

/-- A call that begins. -/
theorem start (h : Waiting s calls) (hc : c.Ok s) (hframe : c.frame = 0) (hsem : c.semaphore = 0) :
    Waiting s (c ::ₘ calls) where
  frames := by
    rw [Multiset.cons_bind, hframe, zero_add]
    exact h.frames
  semaphores := by
    rw [Multiset.cons_bind, hsem, zero_add]
    exact h.semaphores
  ok := Multiset.forall_mem_cons.mpr ⟨hc, h.ok⟩
  waits seq m hseq hm hblocking := Multiset.mem_cons_of_mem (h.waits seq m hseq hm hblocking)

/-- A call that moves within its own memory, and only touches that. -/
theorem resume (h : Waiting s (c ::ₘ calls)) {r : Option Call}
    (hframe : ∀ d ∈ r, d.frame ≤ c.frame) (hsem : ∀ d ∈ r, d.semaphore ≤ c.semaphore)
    (hok : ∀ d ∈ r, d.Ok s') (hcalls : ∀ d ∈ calls, d.Ok s')
    (hwaits : ∀ (seq : ℕ) (m : Message), s'.history.finished ≤ seq →
      s'.history.queued[seq]? = some m →
      m.blocking = true → Call.sendWait m seq ∈ CallSystem.resume r calls) :
    Waiting s' (CallSystem.resume r calls) := by
  have hframes := h.frames
  have hsems := h.semaphores
  rw [Multiset.cons_bind] at hframes hsems
  cases r with
  | none =>
      exact ⟨(Multiset.nodup_add.mp hframes).2.1, (Multiset.nodup_add.mp hsems).2.1, hcalls, hwaits⟩
  | some d =>
      refine ⟨?_, ?_, Multiset.forall_mem_cons.mpr ⟨hok d rfl, hcalls⟩, hwaits⟩
      · rw [resume_some, Multiset.cons_bind]
        exact Multiset.nodup_of_le (Multiset.add_le_add_right (hframe d rfl)) hframes
      · rw [resume_some, Multiset.cons_bind]
        exact Multiset.nodup_of_le (Multiset.add_le_add_right (hsem d rfl)) hsems

/-- The other calls, when only memory of this one is touched. -/
theorem others (h : Waiting s (c ::ₘ calls)) (hqueued : s'.history.queued = s.history.queued)
    (hfinished : s'.history.finished = s.history.finished)
    (hresultOf : ∀ seq, s'.resultOf seq = s.resultOf seq)
    (hresults : ∀ p ∉ c.frame, s'.results p = s.results p)
    (hsemaphores : ∀ sem ∉ c.semaphore, s'.semaphores sem = s.semaphores sem) :
    ∀ d ∈ calls, d.Ok s' := by
  intro d hd
  obtain ⟨hframe, hsem⟩ := h.disjoint hd
  refine (h.ok d (Multiset.mem_cons_of_mem hd)).congr (fun seq m hm => ?_)
    (fun p hp => hresults p fun hpc => hframe p hpc hp)
    (fun sem hmem => hsemaphores sem fun hc => hsem sem hc hmem) (fun seq _ => hresultOf seq)
    (fun seq _ => ?_)
  · rw [hqueued]
    exact hm
  · rw [hfinished]

/-- The senders that wait are the same ones if the call that moves is none of them. -/
theorem waits_of_ne (h : Waiting s (c ::ₘ calls)) {r : Option Call} {seq : ℕ} {m : Message}
    (hne : Call.sendWait m seq ≠ c) (hseq : s.history.finished ≤ seq)
    (hm : s.history.queued[seq]? = some m) (hblocking : m.blocking = true) :
    Call.sendWait m seq ∈ CallSystem.resume r calls := by
  have hmem := (Multiset.mem_cons.mp (h.waits seq m hseq hm hblocking)).resolve_left hne
  cases r with
  | none => exact hmem
  | some d => exact Multiset.mem_cons_of_mem hmem

end Waiting

/-! ### The steps of the calls -/

section

variable {s : Shared} {calls : Multiset Call} {m : Message} {seq : ℕ}

theorem waiting_sendCreate {id p₁ p₂ : UInt32} {p sem : ℕ} (hp : s.results p = none)
    (hsem : s.semaphores sem = none) (h : Waiting s (.send id p₁ p₂ ::ₘ calls)) :
    Waiting
      { s with
        results := Function.update s.results p (some 0xffffffff)
        semaphores := Function.update s.semaphores sem (some 0) }
      (.sendQueue ⟨id, p₁, p₂, true, some p, sem⟩ ::ₘ calls) := by
  have hfree : ∀ d ∈ calls, p ∉ d.frame ∧ sem ∉ d.semaphore := fun d hd =>
    ⟨fun hmem => (h.ok d (Multiset.mem_cons_of_mem hd)).live.1 p hmem hp,
      fun hmem => (h.ok d (Multiset.mem_cons_of_mem hd)).live.2 sem hmem hsem⟩
  refine ⟨?_, ?_, Multiset.forall_mem_cons.mpr ⟨⟨⟨rfl, p, rfl, ?_⟩, ?_⟩, fun d hd => ?_⟩, ?_⟩
  · have hframes := h.frames
    rw [Multiset.cons_bind, show Call.frame (.send id p₁ p₂) = 0 from rfl, zero_add] at hframes
    rw [Multiset.cons_bind]
    refine Multiset.nodup_cons.mpr ⟨fun hmem => ?_, hframes⟩
    obtain ⟨d, hd, hpd⟩ := Multiset.mem_bind.mp hmem
    exact (hfree d hd).1 hpd
  · have hsems := h.semaphores
    rw [Multiset.cons_bind, show Call.semaphore (.send id p₁ p₂) = 0 from rfl, zero_add] at hsems
    rw [Multiset.cons_bind]
    refine Multiset.nodup_cons.mpr ⟨fun hmem => ?_, hsems⟩
    obtain ⟨d, hd, hpd⟩ := Multiset.mem_bind.mp hmem
    exact (hfree d hd).2 hpd
  · exact Function.update_self ..
  · exact Function.update_self ..
  · refine (h.ok d (Multiset.mem_cons_of_mem hd)).congr (fun _ _ h => h) (fun q hq => ?_)
      (fun q hq => ?_) (fun _ _ => rfl) (fun _ _ => Iff.rfl)
    · exact Function.update_of_ne (fun heq : q = p => (hfree d hd).1 (heq ▸ hq)) ..
    · exact Function.update_of_ne (fun heq : q = sem => (hfree d hd).2 (heq ▸ hq)) ..
  · intro seq m hseq hm hblocking
    exact h.waits_of_ne (r := some _) (by simp) hseq hm hblocking

/-- A message is queued: nothing changes for the calls that wait already. -/
theorem Call.Ok.sendToQueue {c : Call} (h : c.Ok s) : c.Ok (s.sendToQueue m) :=
  h.congr (fun seq m' hm => by
      obtain ⟨hlt, -⟩ := List.getElem?_eq_some_iff.mp hm
      exact (List.getElem?_append_left hlt).trans hm)
    (fun _ _ => rfl) (fun _ _ => rfl) (fun _ _ => rfl) (fun _ _ => Iff.rfl)

theorem Thread.stored_le (t : Thread) : t.stored ≤ t.handled := by
  cases t <;> simp [Thread.stored, Thread.handled]

/-- Which of the messages queued already are blocking is not changed. -/
theorem filter_blockingAt_append {h h' : History} (hqueued : h'.queued = h.queued ++ [m]) {k : ℕ}
    (hk : k ≤ h.queued.length) :
    (List.range k).filter h'.blockingAt = (List.range k).filter h.blockingAt := by
  apply List.filter_congr
  intro i hi
  have hlt := List.mem_range.mp hi
  rw [History.blockingAt, History.blockingAt, hqueued, List.getElem?_append_left (by omega)]

theorem core_sendToQueue (h : Core s) : Core (s.sendToQueue m) := by
  have hle := h.finished
  have hhandled := h.handled_le
  have hstored := Thread.stored_le s.thread
  refine ⟨h.noFault, fun m' hm' => ?_, ?_, ?_, h.handled, ?_, h.result, ?_, ?_, h.returned⟩
  · have hm' := h.thread m' hm'
    obtain ⟨hlt, -⟩ := List.getElem?_eq_some_iff.mp hm'
    exact (List.getElem?_append_left hlt).trans hm'
  · show s.queue ++ [m] = (s.history.queued ++ [m]).drop (s.history.finished + s.thread.taken)
    rw [List.drop_append_of_le_length hle, h.queue]
  · show _ ≤ (s.history.queued ++ [m]).length
    rw [List.length_append]
    exact hle.trans (Nat.le_add_right _ _)
  · show _ = (s.history.queued ++ [m]).take s.history.handled.length
    rw [List.take_append_of_le_length hhandled]
    exact h.inOrder
  · refine h.stored.trans (filter_blockingAt_append rfl ?_).symm
    show s.history.finished + s.thread.stored ≤ s.history.queued.length
    have := h.handled
    omega
  · refine h.released.trans (filter_blockingAt_append rfl ?_).symm
    show s.history.finished ≤ s.history.queued.length
    omega

theorem waiting_sendQueue (hcore : Core s) (h : Waiting s (.sendQueue m ::ₘ calls)) :
    Waiting (s.sendToQueue m) (.sendWait m s.history.queued.length ::ₘ calls) := by
  obtain ⟨hframe, hsem⟩ := h.ok _ (Multiset.mem_cons_self _ _)
  have hle := hcore.finished
  have hhandled := hcore.handled_le
  have hstored := Thread.stored_le s.thread
  have hlength := hcore.handled
  refine h.resume (r := some _) ?_ ?_ ?_
    (fun d hd => (h.ok d (Multiset.mem_cons_of_mem hd)).sendToQueue) ?_
  · rintro _ ⟨⟩
    exact le_rfl
  · rintro _ ⟨⟩
    exact le_rfl
  · rintro _ ⟨⟩
    have hnew : (s.sendToQueue m).resultOf s.history.queued.length = 0xffffffff := by
      apply if_neg
      show ¬ s.history.queued.length < s.history.finished + s.thread.stored
      omega
    have hwaits : ¬ s.history.queued.length < s.history.finished := by omega
    refine ⟨List.getElem?_concat_length, ?_, ?_⟩
    · rw [hnew]
      exact hframe
    · exact hsem.trans (congrArg some (if_neg hwaits).symm)
  · intro seq m' hseq hm' hblocking
    rcases Nat.lt_trichotomy seq s.history.queued.length with hlt | rfl | hgt
    · exact h.waits_of_ne (r := some _) nofun hseq ((List.getElem?_append_left hlt).symm.trans hm')
        hblocking
    · obtain rfl := Option.some.inj (List.getElem?_concat_length.symm.trans hm')
      exact Multiset.mem_cons_self _ _
    · obtain ⟨hlt, -⟩ := List.getElem?_eq_some_iff.mp hm'
      have hlt : seq < (s.history.queued ++ [m]).length := hlt
      rw [List.length_append, List.length_singleton] at hlt
      omega

/-- A semaphore is obtained only after the round of its message. -/
theorem waiting_sendObtain {n : ℕ} (hn : s.semaphores m.returnSemaphore = some (n + 1))
    (h : Waiting s (.sendWait m seq ::ₘ calls)) :
    Waiting { s with semaphores := Function.update s.semaphores m.returnSemaphore (some n) }
      (.sendDelete m seq ::ₘ calls) := by
  obtain ⟨hm, hframe, hsem⟩ := h.ok _ (Multiset.mem_cons_self _ _)
  have hcount : n + 1 = if seq < s.history.finished then 1 else 0 :=
    Option.some.inj (hn.symm.trans hsem)
  have hlt : seq < s.history.finished := by
    by_contra hnot
    rw [if_neg hnot] at hcount
    omega
  have hzero : n = 0 := by
    rw [if_pos hlt] at hcount
    omega
  refine h.resume (r := some _) ?_ ?_ ?_ ?_ ?_
  · rintro _ ⟨⟩
    exact le_rfl
  · rintro _ ⟨⟩
    exact le_rfl
  · rintro _ ⟨⟩
    refine ⟨hm, hlt, hframe, ?_⟩
    rw [hzero]
    exact Function.update_self ..
  · refine h.others rfl rfl (fun _ => rfl) (fun _ _ => rfl) fun sem hmem => ?_
    exact Function.update_of_ne (fun heq => hmem (Multiset.mem_singleton.mpr heq)) ..
  · intro seq' m' hseq' hm' hblocking
    refine h.waits_of_ne (r := some _) ?_ hseq' hm' hblocking
    rintro ⟨⟩
    exact absurd hlt (Nat.not_lt.mpr hseq')

theorem deleteSemaphore_some {sem n : ℕ} (h : s.semaphores sem = some n) :
    s.deleteSemaphore sem = { s with semaphores := Function.update s.semaphores sem none } := by
  rw [Shared.deleteSemaphore, h]

theorem waiting_sendDelete (h : Waiting s (.sendDelete m seq ::ₘ calls)) :
    Waiting { s with semaphores := Function.update s.semaphores m.returnSemaphore none }
      (.sendReturn m seq ::ₘ calls) := by
  obtain ⟨hm, hlt, hframe, hsem⟩ := h.ok _ (Multiset.mem_cons_self _ _)
  refine h.resume (r := some _) ?_ ?_ ?_ ?_ ?_
  · rintro _ ⟨⟩
    exact le_rfl
  · rintro _ ⟨⟩
    exact Multiset.zero_le _
  · rintro _ ⟨⟩
    exact ⟨hm, hlt, hframe⟩
  · refine h.others rfl rfl (fun _ => rfl) (fun _ _ => rfl) fun sem hmem => ?_
    exact Function.update_of_ne (fun heq => hmem (Multiset.mem_singleton.mpr heq)) ..
  · intro seq' m' hseq' hm' hblocking
    exact h.waits_of_ne (r := some _) nofun hseq' hm' hblocking

theorem waiting_sendReturn {p : ℕ} {returned : List Return} (hp : m.pResult = some p)
    (h : Waiting s (.sendReturn m seq ::ₘ calls)) :
    Waiting
      { s with
        results := Function.update s.results p none
        history := { s.history with returned := returned } }
      calls := by
  refine h.resume (r := none) nofun nofun nofun ?_ fun seq' m' hseq' hm' hblocking => ?_
  · refine h.others rfl rfl (fun _ => rfl) (fun q hq => ?_) (fun _ _ => rfl)
    refine Function.update_of_ne (fun heq => hq ?_) ..
    simp [Call.frame, Call.message, hp, heq]
  · exact h.waits_of_ne (r := none) nofun hseq' hm' hblocking

/-- What a call reads from its frame is what the handler returned for its message. -/
theorem handled_of_ok {result : UInt32} {p : ℕ} (hcore : Core s) (h : (Call.sendReturn m seq).Ok s)
    (hp : m.pResult = some p) (hresult : s.results p = some result) :
    seq < s.history.finished ∧ m.blocking = true ∧
      s.history.handled[seq]? = some (m, result) := by
  obtain ⟨hm, hlt, hblocking, q, hq, hr⟩ := h
  refine ⟨hlt, hblocking, ?_⟩
  obtain rfl := Option.some.inj (hp.symm.trans hq)
  have hlen : seq < s.history.handled.length := by
    have := hcore.handled
    omega
  obtain ⟨⟨m', result'⟩, hentry⟩ := Option.isSome_iff_exists.mp (by simpa using hlen :
    s.history.handled[seq]?.isSome = true)
  have hfst : m' = m := by
    have hmap := congrArg (·[seq]?) hcore.inOrder
    simp only [List.getElem?_map, hentry, List.getElem?_take, if_pos hlen, hm] at hmap
    exact Option.some.inj hmap
  have hsnd : result' = result := by
    have hof : s.resultOf seq = result' := by
      rw [Shared.resultOf, answerOf, if_pos (Nat.lt_add_right _ hlt), hentry]
      rfl
    rw [← hof]
    exact Option.some.inj (hr.symm.trans hresult)
  rw [hentry, hfst, hsnd]

end

/-! ### The steps of the thread -/

section

variable {s : Shared} {calls : Multiset Call} {m : Message} {seq : ℕ} {result : UInt32}

/-- The filter of the blocking messages when one more round is counted. -/
theorem filter_blockingAt_succ {h : History} (hm : h.queued[seq]? = some m) :
    (List.range (seq + 1)).filter h.blockingAt =
      (List.range seq).filter h.blockingAt ++ if m.blocking then [seq] else [] := by
  have hat : h.blockingAt seq = m.blocking := by
    rw [History.blockingAt, hm]
    rfl
  rw [List.range_succ, List.filter_append]
  cases hb : m.blocking <;> simp [hat, hb]

theorem core_receive {queue : List Message} (ht : s.thread = .receive)
    (hqueue : s.queue = m :: queue)
    (h : Core s) : Core { s with queue := queue, thread := .handle m } := by
  have htaken : s.thread.taken = 0 := by rw [ht]; rfl
  have hdrop : s.history.queued.drop s.history.finished = m :: queue := by
    rw [← hqueue, h.queue, htaken, Nat.add_zero]
  have hm : s.history.queued[s.history.finished]? = some m := by
    rw [← List.head?_drop, hdrop]
    rfl
  obtain ⟨hlt, -⟩ := List.getElem?_eq_some_iff.mp hm
  refine ⟨h.noFault, ?_, ?_, hlt, ?_, h.inOrder, nofun, ?_, h.released, h.returned⟩
  · rintro m' ⟨⟩
    exact hm
  · show queue = s.history.queued.drop (s.history.finished + 1)
    rw [← List.drop_drop, hdrop]
    rfl
  · have := h.handled
    rw [ht] at this
    exact this
  · have := h.stored
    rw [ht] at this
    exact this

theorem core_handle (ht : s.thread = .handle m) (h : Core s) :
    Core { s with
      thread := .store m result
      history := { s.history with handled := s.history.handled ++ [(m, result)] } } := by
  have hm := h.thread m (by rw [ht]; rfl)
  obtain ⟨hlt, -⟩ := List.getElem?_eq_some_iff.mp hm
  have hlen : s.history.handled.length = s.history.finished := by
    rw [h.handled, ht]
    rfl
  refine ⟨h.noFault, ?_, ?_, hlt, ?_, ?_, ?_, ?_, h.released, fun r hr => ?_⟩
  · rintro m' ⟨⟩
    exact hm
  · rw [h.queue, ht]
    rfl
  · simp [hlen, Thread.handled]
  · simp only [List.map_append, List.length_append, List.map_cons, List.map_nil,
      List.length_singleton, h.inOrder, hlen]
    rw [List.take_add_one, hm]
    rfl
  · rintro m' r ⟨⟩
    show (s.history.handled ++ [(m, result)])[s.history.finished]? = _
    rw [← hlen]
    exact List.getElem?_concat_length
  · have := h.stored
    rw [ht] at this
    exact this
  · obtain ⟨hlt', hblocking, hentry⟩ := h.returned r hr
    exact ⟨hlt', hblocking, (List.getElem?_append_left (by omega)).trans hentry⟩

theorem waiting_turn {s' : Shared} (h : Waiting s (.turn ::ₘ calls))
    (hqueued : s'.history.queued = s.history.queued)
    (hfinished : s.history.finished ≤ s'.history.finished) (hok : ∀ d ∈ calls, d.Ok s') :
    Waiting s' calls := by
  refine h.resume (r := none) nofun nofun nofun hok fun seq m hseq hm hblocking => ?_
  rw [hqueued] at hm
  exact h.waits_of_ne (r := none) nofun (hfinished.trans hseq) hm hblocking

theorem resultOf_handle (hcore : Core s) (ht : s.thread = .handle m) (seq : ℕ) :
    Shared.resultOf { s with
      thread := .store m result
      history := { s.history with handled := s.history.handled ++ [(m, result)] } } seq =
      s.resultOf seq := by
  have hlen : s.history.handled.length = s.history.finished := by
    rw [hcore.handled, ht]
    rfl
  have hstored : s.thread.stored = 0 := by rw [ht]; rfl
  show answerOf (s.history.handled ++ [(m, result)]) s.history.finished seq = _
  rw [Shared.resultOf, hstored, Nat.add_zero, answerOf, answerOf]
  by_cases hlt : seq < s.history.finished
  · rw [if_pos hlt, if_pos hlt, List.getElem?_append_left (by omega)]
  · rw [if_neg hlt, if_neg hlt]

/-- The sender of the message in the thread, when it is blocking. -/
theorem sender (hcore : Core s) (h : Waiting s calls) (hm : s.thread.message = some m)
    (hblocking : m.blocking = true) : Call.sendWait m s.history.finished ∈ calls :=
  h.waits _ m le_rfl (hcore.thread m hm) hblocking

/-- A call whose message is in the thread is that sender. -/
theorem eq_sender (hcore : Core s) (h : Waiting s calls) (hm : s.thread.message = some m) {d : Call}
    (hd : d ∈ calls) (hseq : s.history.finished ∈ d.seq) :
    m.blocking = true ∧ d = .sendWait m s.history.finished := by
  have hat := hcore.thread m hm
  have hok := h.ok d hd
  cases d with
  | sendWait m' seq' =>
      obtain rfl := Option.some.inj hseq
      obtain ⟨hm', ⟨hblocking, -⟩, -⟩ := hok
      obtain rfl := Option.some.inj (hat.symm.trans hm')
      exact ⟨hblocking, rfl⟩
  | sendDelete m' seq' =>
      obtain rfl := Option.some.inj hseq
      exact absurd hok.2.1 (lt_irrefl _)
  | sendReturn m' seq' =>
      obtain rfl := Option.some.inj hseq
      exact absurd hok.2.1 (lt_irrefl _)
  | send | sendQueue | post | postQueue | turn => exact nomatch hseq

theorem answer_posted (hblocking : m.blocking = false) :
    s.answer m result = { s with thread := .release m } := by
  rw [Shared.answer, hblocking]

theorem answer_blocking {p : ℕ} {r : UInt32} (hblocking : m.blocking = true)
    (hp : m.pResult = some p)
    (hr : s.results p = some r) :
    s.answer m result = { s with
      results := Function.update s.results p (some result)
      thread := .release m
      history := { s.history with stored := s.history.stored ++ [s.history.finished] } } := by
  rw [Shared.answer, hblocking, hp]
  simp only [Shared.storeResult, hr]

theorem core_store {results : ℕ → Option UInt32} {stored : List ℕ} (ht : s.thread = .store m result)
    (hstored : stored = s.history.stored ++ if m.blocking then [s.history.finished] else [])
    (h : Core s) :
    Core { s with
      results := results
      thread := .release m
      history := { s.history with stored := stored } } := by
  have hm := h.thread m (by rw [ht]; rfl)
  obtain ⟨hlt, -⟩ := List.getElem?_eq_some_iff.mp hm
  refine ⟨h.noFault, ?_, ?_, hlt, ?_, h.inOrder, nofun, ?_, h.released, h.returned⟩
  · rintro m' ⟨⟩
    exact hm
  · rw [h.queue, ht]
    rfl
  · rw [h.handled, ht]
    rfl
  · rw [hstored, h.stored, ht]
    exact (filter_blockingAt_succ hm).symm

/-- A result is stored: only for the sender it changes what is known. -/
theorem resultOf_store {results : ℕ → Option UInt32} {stored : List ℕ} (hcore : Core s)
    (ht : s.thread = .store m result) (seq : ℕ) :
    Shared.resultOf { s with
      results := results
      thread := .release m
      history := { s.history with stored := stored } } seq =
      if seq = s.history.finished then result else s.resultOf seq := by
  have hentry := hcore.result m result ht
  have hzero : s.thread.stored = 0 := by rw [ht]; rfl
  show answerOf s.history.handled (s.history.finished + 1) seq = _
  rw [Shared.resultOf, hzero, Nat.add_zero s.history.finished, answerOf, answerOf]
  rcases Nat.lt_trichotomy seq s.history.finished with hlt | rfl | hgt
  · rw [if_pos (by omega), if_neg (by omega), if_pos hlt]
  · rw [if_pos (by omega), if_pos rfl, hentry]
    rfl
  · rw [if_neg (by omega), if_neg (by omega), if_neg (by omega)]

theorem waiting_store_posted (hcore : Core s) (ht : s.thread = .store m result)
    (hblocking : m.blocking = false) (h : Waiting s (.turn ::ₘ calls)) :
    Waiting { s with thread := .release m } calls := by
  refine waiting_turn h rfl le_rfl ?_
  intro d hd
  have hd := Multiset.mem_cons_of_mem (b := Call.turn) hd
  refine (h.ok d hd).congr (fun _ _ hm => hm) (fun _ _ => rfl) (fun _ _ => rfl)
    (fun seq hseq => ?_) (fun _ _ => Iff.rfl)
  refine (resultOf_store hcore ht seq).trans (if_neg ?_)
  rintro rfl
  have hsender := eq_sender hcore h (by rw [ht]; rfl) hd hseq
  exact absurd hsender.1 (by rw [hblocking]; exact Bool.false_ne_true)

theorem waiting_store_blocking {p : ℕ} (hcore : Core s) (ht : s.thread = .store m result)
    (hblocking : m.blocking = true) (hp : m.pResult = some p) (h : Waiting s (.turn ::ₘ calls)) :
    Waiting
      { s with
        results := Function.update s.results p (some result)
        thread := .release m
        history := { s.history with stored := s.history.stored ++ [s.history.finished] } }
      calls := by
  have hm : s.thread.message = some m := by rw [ht]; rfl
  have hsender := sender hcore h hm hblocking
  refine waiting_turn h rfl le_rfl ?_
  intro d hd
  have hd := Multiset.mem_cons_of_mem (b := Call.turn) hd
  by_cases hds : d = .sendWait m s.history.finished
  · obtain ⟨hat, -, hsem⟩ := h.ok _ hsender
    subst hds
    refine ⟨hat, ⟨hblocking, p, hp, ?_⟩, hsem⟩
    rw [resultOf_store hcore ht, if_pos rfl]
    exact Function.update_self ..
  · refine (h.ok d hd).congr (fun _ _ hm => hm) (fun q hq => ?_) (fun _ _ => rfl)
      (fun seq hseq => ?_) (fun _ _ => Iff.rfl)
    · refine Function.update_of_ne (fun heq : q = p => hds ?_) ..
      refine eq_of_common h.frames hd hsender hq ?_
      simp [Call.frame, Call.message, hp, heq]
    · refine (resultOf_store hcore ht seq).trans (if_neg ?_)
      rintro rfl
      exact hds (eq_sender hcore h hm hd hseq).2

theorem finish_posted (hblocking : m.blocking = false) :
    s.finish m = { s with
      thread := .receive
      history := { s.history with finished := s.history.finished + 1 } } := by
  rw [Shared.finish, hblocking, if_neg Bool.false_ne_true]

theorem finish_blocking {n : ℕ} (hblocking : m.blocking = true)
    (hn : s.semaphores m.returnSemaphore = some n) :
    s.finish m = { s with
      semaphores := Function.update s.semaphores m.returnSemaphore (some (n + 1))
      thread := .receive
      history := { s.history with
        finished := s.history.finished + 1
        released := s.history.released ++ [s.history.finished] } } := by
  rw [Shared.finish, if_pos hblocking]
  simp only [Shared.releaseSemaphore, hn]

theorem core_release {semaphores : ℕ → Option ℕ} {released : List ℕ} (ht : s.thread = .release m)
    (hreleased : released = s.history.released ++ if m.blocking then [s.history.finished] else [])
    (h : Core s) :
    Core { s with
      semaphores := semaphores
      thread := .receive
      history := { s.history with finished := s.history.finished + 1, released := released } } := by
  have hm := h.thread m (by rw [ht]; rfl)
  obtain ⟨hlt, -⟩ := List.getElem?_eq_some_iff.mp hm
  refine ⟨h.noFault, nofun, ?_, hlt, ?_, h.inOrder, nofun, ?_, ?_, fun r hr => ?_⟩
  · rw [h.queue, ht]
    rfl
  · rw [h.handled, ht]
    rfl
  · have := h.stored
    rw [ht] at this
    exact this
  · rw [hreleased, h.released]
    exact (filter_blockingAt_succ hm).symm
  · obtain ⟨hlt', hrest⟩ := h.returned r hr
    exact ⟨Nat.lt_succ_of_lt hlt', hrest⟩

theorem resultOf_release {semaphores : ℕ → Option ℕ} {released : List ℕ}
    (ht : s.thread = .release m)
    (seq : ℕ) :
    Shared.resultOf { s with
      semaphores := semaphores
      thread := .receive
      history := { s.history with finished := s.history.finished + 1, released := released } } seq =
      s.resultOf seq := by
  rw [Shared.resultOf, Shared.resultOf, ht]
  rfl

theorem lt_succ_iff_of_ne {a n : ℕ} (h : a ≠ n) : a < n + 1 ↔ a < n := by omega

theorem waiting_release_posted (hcore : Core s) (ht : s.thread = .release m)
    (hblocking : m.blocking = false) (h : Waiting s (.turn ::ₘ calls)) :
    Waiting
      { s with
        thread := .receive
        history := { s.history with finished := s.history.finished + 1 } }
      calls := by
  refine waiting_turn h rfl (Nat.le_succ _) ?_
  intro d hd
  have hd := Multiset.mem_cons_of_mem (b := Call.turn) hd
  refine (h.ok d hd).congr (fun _ _ hm => hm) (fun _ _ => rfl) (fun _ _ => rfl)
    (fun seq _ => resultOf_release ht seq) (fun seq hseq => lt_succ_iff_of_ne ?_)
  rintro rfl
  have hsender := eq_sender hcore h (by rw [ht]; rfl) hd hseq
  exact absurd hsender.1 (by rw [hblocking]; exact Bool.false_ne_true)

theorem waiting_release_blocking {n : ℕ} (hcore : Core s) (ht : s.thread = .release m)
    (hblocking : m.blocking = true) (hn : s.semaphores m.returnSemaphore = some n)
    (h : Waiting s (.turn ::ₘ calls)) :
    Waiting
      { s with
        semaphores := Function.update s.semaphores m.returnSemaphore (some (n + 1))
        thread := .receive
        history := { s.history with
          finished := s.history.finished + 1
          released := s.history.released ++ [s.history.finished] } }
      calls := by
  have hm : s.thread.message = some m := by rw [ht]; rfl
  have hsender := sender hcore h hm hblocking
  obtain ⟨hat, hframe, hsem⟩ := h.ok _ hsender
  have hzero : n = 0 := by
    rw [if_neg (lt_irrefl _), hn] at hsem
    exact Option.some.inj hsem
  refine waiting_turn h rfl (Nat.le_succ _) ?_
  intro d hd
  have hd := Multiset.mem_cons_of_mem (b := Call.turn) hd
  by_cases hds : d = .sendWait m s.history.finished
  · subst hds
    refine ⟨hat, ?_, ?_⟩
    · rw [resultOf_release ht]
      exact hframe
    · rw [if_pos (Nat.lt_succ_self _), hzero]
      exact Function.update_self ..
  · refine (h.ok d hd).congr (fun _ _ hm => hm) (fun _ _ => rfl) (fun sem hmem => ?_)
      (fun seq _ => resultOf_release ht seq) (fun seq hseq => lt_succ_iff_of_ne ?_)
    · refine Function.update_of_ne (fun heq : sem = m.returnSemaphore => hds ?_) ..
      exact eq_of_common h.semaphores hd hsender hmem (Multiset.mem_singleton.mpr heq)
    · rintro rfl
      exact hds (eq_sender hcore h hm hd hseq).2

end

/-! ### Every interleaving -/

/-- One step, of any call or of the thread. -/
theorem core_waiting_move {s s' : Shared} {calls : Multiset Call} {c : Call} {r : Option Call}
    (hmove : Move s c s' r) (h : Core s ∧ Waiting s (c ::ₘ calls)) :
    Core s' ∧ Waiting s' (CallSystem.resume r calls) := by
  obtain ⟨hcore, h⟩ := h
  have hok := h.ok c (Multiset.mem_cons_self _ _)
  cases hmove with
  | sendCreate hp hsem => exact ⟨hcore.memory _ _, waiting_sendCreate hp hsem h⟩
  | sendQueue hroom => exact ⟨core_sendToQueue hcore, waiting_sendQueue hcore h⟩
  | sendObtain hn => exact ⟨hcore.memory _ _, waiting_sendObtain hn h⟩
  | sendObtainFault hnone =>
      obtain ⟨-, -, hsem⟩ := hok
      exact nomatch hnone.symm.trans hsem
  | sendDelete =>
      obtain ⟨-, -, -, hsem⟩ := hok
      rw [deleteSemaphore_some hsem]
      exact ⟨hcore.memory _ _, waiting_sendDelete h⟩
  | sendReturn hp hresult =>
      have hhandled := handled_of_ok hcore hok hp hresult
      exact ⟨(hcore.memory (Function.update s.results _ none) _).return hhandled,
        waiting_sendReturn hp h⟩
  | postCreate =>
      refine ⟨hcore, h.resume (r := some _) ?_ ?_ ?_ ?_ ?_⟩
      · rintro _ ⟨⟩
        exact le_rfl
      · rintro _ ⟨⟩
        exact le_rfl
      · rintro _ ⟨⟩
        rfl
      · exact fun d hd => h.ok d (Multiset.mem_cons_of_mem hd)
      · exact fun seq m hseq hm hblocking => h.waits_of_ne (r := some _) nofun hseq hm hblocking
  | @postQueue m hroom =>
      refine ⟨core_sendToQueue hcore, h.resume (r := none) nofun nofun nofun
        (fun d hd => (h.ok d (Multiset.mem_cons_of_mem hd)).sendToQueue) ?_⟩
      intro seq m' hseq hm' hblocking
      obtain ⟨hlt, -⟩ := List.getElem?_eq_some_iff.mp hm'
      have hlt : seq < (s.history.queued ++ [m]).length := hlt
      rw [List.length_append, List.length_singleton] at hlt
      rcases Nat.lt_succ_iff_lt_or_eq.mp hlt with hlt | rfl
      · exact h.waits_of_ne (r := none) nofun hseq ((List.getElem?_append_left hlt).symm.trans hm')
          hblocking
      · obtain rfl := Option.some.inj (List.getElem?_concat_length.symm.trans hm')
        exact absurd hblocking (by rw [show m.blocking = false from hok]; exact Bool.false_ne_true)
  | receive ht hqueue =>
      refine ⟨core_receive ht hqueue hcore, waiting_turn h rfl le_rfl fun d hd => ?_⟩
      refine (h.ok d (Multiset.mem_cons_of_mem hd)).congr (fun _ _ hm => hm) (fun _ _ => rfl)
        (fun _ _ => rfl) (fun seq _ => ?_) (fun _ _ => Iff.rfl)
      rw [Shared.resultOf, Shared.resultOf, ht]
      rfl
  | handle ht =>
      refine ⟨core_handle ht hcore, waiting_turn h rfl le_rfl fun d hd => ?_⟩
      exact (h.ok d (Multiset.mem_cons_of_mem hd)).congr (fun _ _ hm => hm) (fun _ _ => rfl)
        (fun _ _ => rfl) (fun seq _ => resultOf_handle hcore ht seq) (fun _ _ => Iff.rfl)
  | @store m result ht =>
      cases hblocking : m.blocking with
      | false =>
          rw [answer_posted hblocking]
          exact ⟨core_store ht (by rw [hblocking]; exact (List.append_nil _).symm) hcore,
            waiting_store_posted hcore ht hblocking h⟩
      | true =>
          -- the sender is waiting, so its result is still allocated
          have hsender := sender hcore h (by rw [ht]; rfl) hblocking
          obtain ⟨-, ⟨-, p, hp, hr⟩, -⟩ := h.ok _ hsender
          rw [answer_blocking hblocking hp hr]
          exact ⟨core_store ht (by rw [hblocking]; rfl) hcore,
            waiting_store_blocking hcore ht hblocking hp h⟩
  | @release m ht =>
      cases hblocking : m.blocking with
      | false =>
          rw [finish_posted hblocking]
          exact ⟨core_release ht (by rw [hblocking]; exact (List.append_nil _).symm) hcore,
            waiting_release_posted hcore ht hblocking h⟩
      | true =>
          -- and so is its semaphore
          have hsender := sender hcore h (by rw [ht]; rfl) hblocking
          obtain ⟨-, -, hsem⟩ := h.ok _ hsender
          rw [finish_blocking hblocking hsem]
          exact ⟨core_release ht (by rw [hblocking]; rfl) hcore,
            waiting_release_blocking hcore ht hblocking hsem h⟩

theorem core_waiting {s : Shared} {calls : Multiset Call}
    (h : apartmentCalls.Reachable newApartment (s, calls)) : Core s ∧ Waiting s calls := by
  refine h.invariant (I := fun s calls => Core s ∧ Waiting s calls) ?_ ?_ core_waiting_move
  · refine ⟨⟨rfl, nofun, rfl, le_rfl, rfl, rfl, nofun, rfl, rfl, nofun⟩, ?_⟩
    exact ⟨Multiset.nodup_zero, Multiset.nodup_zero, nofun, nofun⟩
  · rintro s calls c (⟨id, p₁, p₂, rfl⟩ | ⟨id, p₁, p₂, rfl⟩ | rfl) ⟨hcore, hwaiting⟩
    all_goals exact ⟨hcore, hwaiting.start trivial rfl rfl⟩

/-- A step of the thread. -/
def Turn (s s' : Shared) : Prop := Move s .turn s' none

/-- A step of the thread can be taken whatever calls are in progress. -/
theorem reachable_turns {s s' : Shared} {calls : Multiset Call}
    (h : apartmentCalls.Reachable newApartment (s, calls))
    (hturns : Relation.ReflTransGen Turn s s') :
    apartmentCalls.Reachable newApartment (s', calls) := by
  induction hturns with
  | refl => exact h
  | tail _ hturn ih => exact (ih.step (.start (.inr (.inr rfl)))).step (.move (r := none) hturn)

/-- A message that was taken is done with, whatever the handler is. -/
theorem turns_receive (s : Shared) : ∃ s', Relation.ReflTransGen Turn s s' ∧ s'.thread = .receive ∧
    s'.queue = s.queue ∧ s'.history.queued = s.history.queued := by
  have hrelease : ∀ (s : Shared) (m : Message), s.thread = .release m →
      ∃ s', Turn s s' ∧ s'.thread = .receive ∧ s'.queue = s.queue ∧
        s'.history.queued = s.history.queued := by
    intro s m ht
    refine ⟨_, .release ht, ?_⟩
    rw [Shared.finish, Shared.releaseSemaphore]
    split
    · split <;> exact ⟨rfl, rfl, rfl⟩
    · exact ⟨rfl, rfl, rfl⟩
  have hstore : ∀ (s : Shared) (m : Message) (r : UInt32), s.thread = .store m r →
      ∃ s', Turn s s' ∧ s'.thread = .release m ∧ s'.queue = s.queue ∧
        s'.history.queued = s.history.queued := by
    intro s m r ht
    refine ⟨_, .store ht, ?_⟩
    rw [Shared.answer]
    split
    · rw [Shared.storeResult]
      split <;> exact ⟨rfl, rfl, rfl⟩
    · exact ⟨rfl, rfl, rfl⟩
  have hround : ∀ (s : Shared) (m : Message) (r : UInt32), s.thread = .store m r →
      ∃ s', Relation.ReflTransGen Turn s s' ∧ s'.thread = .receive ∧ s'.queue = s.queue ∧
        s'.history.queued = s.history.queued := by
    intro s m r ht
    obtain ⟨s₁, hturn₁, ht₁, hq₁, hh₁⟩ := hstore s m r ht
    obtain ⟨s₂, hturn₂, ht₂, hq₂, hh₂⟩ := hrelease s₁ m ht₁
    exact ⟨s₂, .tail (.single hturn₁) hturn₂, ht₂, hq₂.trans hq₁, hh₂.trans hh₁⟩
  cases ht : s.thread with
  | receive => exact ⟨s, .refl, ht, rfl, rfl⟩
  | handle m =>
      obtain ⟨s', hturns, hrest⟩ := hround { s with
        thread := .store m 0
        history := { s.history with handled := s.history.handled ++ [(m, 0)] } } m 0 rfl
      exact ⟨s', .head (.handle ht) hturns, hrest⟩
  | store m r => exact hround s m r ht
  | release m =>
      obtain ⟨s', hturn, hrest⟩ := hrelease s m ht
      exact ⟨s', .single hturn, hrest⟩

/-- The thread gets to the end of the queue. -/
theorem turns_drain (s : Shared) : ∃ s', Relation.ReflTransGen Turn s s' ∧ s'.thread = .receive ∧
    s'.queue = [] ∧ s'.history.queued = s.history.queued := by
  generalize hqueue : s.queue = queue
  induction queue generalizing s with
  | nil =>
      obtain ⟨s', hturns, ht, hq, hh⟩ := turns_receive s
      exact ⟨s', hturns, ht, hq.trans hqueue, hh⟩
  | cons m queue ih =>
      obtain ⟨s₁, hturns₁, ht₁, hq₁, hh₁⟩ := turns_receive s
      obtain ⟨s₂, hturns₂, ht₂, hq₂, hh₂⟩ := ih { s₁ with queue := queue, thread := .handle m } rfl
      exact ⟨s₂, hturns₁.trans (.head (.receive ht₁ (hq₁.trans hqueue)) hturns₂), ht₂, hq₂,
        hh₂.trans hh₁⟩

/-- A message the handler of which has not returned yet. -/
def Thread.unhandled : Thread → Option Message
  | .handle m => some m
  | _ => none

/-- What callers can rely on, at any moment. -/
structure Rpc (s : Shared) (calls : Multiset Call) : Prop where
  /-- No memory is used before it is there or after it was given back. -/
  noFault : s.fault = false
  /-- A message is handled, is with the handler or is in the queue, in order. -/
  handled : s.history.queued = s.history.handled.map Prod.fst ++
    s.thread.unhandled.toList ++ s.queue
  /-- The thread gets to all of them. -/
  drains : ∃ s', Relation.ReflTransGen Turn s s' ∧ s'.history.queued = s.history.queued ∧
    s'.history.handled.map Prod.fst = s.history.queued
  /-- A call returned what the handler returned for its message. -/
  returned : ∀ r ∈ s.history.returned, s.history.queued[r.seq]? = some r.message ∧
    r.message.blocking = true ∧ s.history.handled[r.seq]? = some (r.message, r.result) ∧
    r.seq ∈ s.history.stored ∧ r.seq ∈ s.history.released
  /-- A call that is about to return will, too. -/
  returns : ∀ m seq, Call.sendReturn m seq ∈ calls → ∃ p result, m.pResult = some p ∧
    s.results p = some result ∧ s.history.handled[seq]? = some (m, result)
  /-- The sender of a message in the thread is there, and waits for it. -/
  sender : ∀ m, s.thread.message = some m → m.blocking = true →
    Call.sendWait m s.history.finished ∈ calls ∧ s.semaphores m.returnSemaphore = some 0
  /-- A result was stored once for each blocking message so far, and for no other, -/
  stored : s.history.stored =
    (List.range (s.history.finished + s.thread.stored)).filter s.history.blockingAt
  /-- and a semaphore released. -/
  released : s.history.released = (List.range s.history.finished).filter s.history.blockingAt

theorem Core.queued_eq {s : Shared} (h : Core s) :
    s.history.queued = s.history.handled.map Prod.fst ++ s.thread.unhandled.toList ++ s.queue := by
  have hsplit := List.take_append_drop s.history.handled.length s.history.queued
  rw [← h.inOrder] at hsplit
  have hlength := h.handled
  have hqueue := h.queue
  cases ht : s.thread with
  | receive =>
      rw [ht] at hlength hqueue
      rw [show Thread.unhandled .receive = none from rfl, Option.toList_none,
        List.append_nil, hqueue]
      exact (hlength ▸ hsplit).symm
  | handle m =>
      rw [ht] at hlength hqueue
      have hm := h.thread m (by rw [ht]; rfl)
      obtain ⟨hlt, hget⟩ := List.getElem?_eq_some_iff.mp hm
      have hlength : s.history.handled.length = s.history.finished := hlength
      have hqueue : s.queue = s.history.queued.drop (s.history.finished + 1) := hqueue
      rw [hlength, List.drop_eq_getElem_cons hlt, hget, ← hqueue] at hsplit
      rw [← hsplit, List.append_assoc]
      rfl
  | store m r =>
      rw [ht] at hlength hqueue
      rw [show Thread.unhandled (.store m r) = none from rfl, Option.toList_none, List.append_nil,
        hqueue]
      exact (hlength ▸ hsplit).symm
  | release m =>
      rw [ht] at hlength hqueue
      rw [show Thread.unhandled (.release m) = none from rfl, Option.toList_none, List.append_nil,
        hqueue]
      exact (hlength ▸ hsplit).symm

theorem Core.drains {s : Shared} (h : Core s) (ht : s.thread = .receive) (hq : s.queue = []) :
    s.history.handled.map Prod.fst = s.history.queued := by
  have hall := h.queued_eq
  rw [hq, ht, List.append_nil] at hall
  exact (hall.trans (List.append_nil _)).symm

/-- Under every interleaving of any number of calls, messages are handled once and in order,
and a blocking call returns what the handler returned for its own message. -/
theorem message_rpc {s : Shared} {calls : Multiset Call}
    (h : apartmentCalls.Reachable newApartment (s, calls)) : Rpc s calls := by
  obtain ⟨hcore, hwaiting⟩ := core_waiting h
  refine ⟨hcore.noFault, hcore.queued_eq, ?_, fun r hr => ?_, fun m seq hmem => ?_,
    fun m hm hblocking => ?_, hcore.stored, hcore.released⟩
  · obtain ⟨s', hturns, ht, hq, hqueued⟩ := turns_drain s
    obtain ⟨hcore', -⟩ := core_waiting (reachable_turns h hturns)
    exact ⟨s', hturns, hqueued, (hcore'.drains ht hq).trans hqueued⟩
  · obtain ⟨hlt, hblocking, hentry⟩ := hcore.returned r hr
    have hqueued : s.history.queued[r.seq]? = some r.message := by
      obtain ⟨hlen, -⟩ := List.getElem?_eq_some_iff.mp hentry
      have hmap := congrArg (·[r.seq]?) hcore.inOrder
      simp only [List.getElem?_map, hentry, List.getElem?_take, if_pos hlen] at hmap
      exact hmap.symm
    have hat : s.history.blockingAt r.seq = true := by
      rw [History.blockingAt, hqueued]
      exact hblocking
    refine ⟨hqueued, hblocking, hentry, ?_, ?_⟩
    · rw [hcore.stored]
      exact List.mem_filter.mpr ⟨List.mem_range.mpr (Nat.lt_add_right _ hlt), hat⟩
    · rw [hcore.released]
      exact List.mem_filter.mpr ⟨List.mem_range.mpr hlt, hat⟩
  · obtain ⟨-, -, -, p, hp, hresult⟩ := hwaiting.ok _ hmem
    exact ⟨p, _, hp, hresult, (handled_of_ok hcore (hwaiting.ok _ hmem) hp hresult).2.2⟩
  · have hsender := sender hcore hwaiting hm hblocking
    obtain ⟨-, -, hsem⟩ := hwaiting.ok _ hsender
    rw [if_neg (lt_irrefl _)] at hsem
    exact ⟨hsender, hsem⟩

theorem reachable_move {s s' : Shared} {calls : Multiset Call} {c : Call} {r : Option Call}
    (h : apartmentCalls.Reachable newApartment (s, CallSystem.resume (some c) calls))
    (hmove : Move s c s' r) :
    apartmentCalls.Reachable newApartment (s', CallSystem.resume r calls) :=
  h.step (.move hmove)

theorem reachable_send {s : Shared} {calls : Multiset Call}
    (h : apartmentCalls.Reachable newApartment (s, calls)) (id p₁ p₂ : UInt32) :
    apartmentCalls.Reachable newApartment (s, CallSystem.resume (some (.send id p₁ p₂)) calls) :=
  h.step (.start (.inl ⟨id, p₁, p₂, rfl⟩))

/-- Two calls overlap: the second message is queued before the first is received, and the second
call returns first. -/
theorem reachable_overlapping : ∃ s, apartmentCalls.Reachable newApartment (s, 0) ∧
    s.history.returned =
      [⟨⟨6, 3, 4, true, some 1, 1⟩, 1, 9⟩, ⟨⟨5, 1, 2, true, some 0, 0⟩, 0, 7⟩] := by
  have h₀ := reachable_send .init 5 1 2
  have h₁ := reachable_move h₀ (@Move.sendCreate _ 5 1 2 0 0 rfl rfl)
  have h₂ := reachable_move h₁ (.sendQueue (by decide : 0 < queueSize))
  have h₃ := reachable_send h₂ 6 3 4
  have h₄ := reachable_move h₃ (@Move.sendCreate _ 6 3 4 1 1 rfl rfl)
  have h₅ := reachable_move h₄ (.sendQueue (by decide : 1 < queueSize))
  -- the thread handles both messages
  have h₆ := reachable_turns h₅ (.single (.receive rfl rfl))
  have h₇ := reachable_turns h₆ (.single (@Move.handle _ _ 7 rfl))
  have h₈ := reachable_turns h₇ (.single (.store rfl))
  have h₉ := reachable_turns h₈ (.single (.release rfl))
  have h₁₀ := reachable_turns h₉ (.single (.receive rfl rfl))
  have h₁₁ := reachable_turns h₁₀ (.single (@Move.handle _ _ 9 rfl))
  have h₁₂ := reachable_turns h₁₁ (.single (.store rfl))
  have h₁₃ := reachable_turns h₁₂ (.single (.release rfl))
  -- the second call comes to its end, and then the first
  have h₁₄ := reachable_move h₁₃ (@Move.sendObtain _ _ _ 0 rfl)
  have h₁₅ := reachable_move h₁₄ .sendDelete
  have h₁₆ : apartmentCalls.Reachable newApartment
      (_, resume (some (.sendWait ⟨5, 1, 2, true, some 0, 0⟩ 0)) 0) :=
    reachable_move (r := none) h₁₅ (.sendReturn rfl rfl)
  have h₁₇ := reachable_move h₁₆ (@Move.sendObtain _ _ _ 0 rfl)
  have h₁₈ := reachable_move h₁₇ .sendDelete
  exact ⟨_, reachable_move h₁₈ (.sendReturn rfl rfl), rfl⟩

theorem message_rpc_overlapping : ∃ s : Shared,
    s.history.returned.map (fun r => (r.seq, r.result)) = [(1, 9), (0, 7)] ∧ Rpc s 0 := by
  obtain ⟨s, h, hreturned⟩ := reachable_overlapping
  exact ⟨s, by rw [hreturned]; rfl, message_rpc h⟩

end PanelTester.MsOS.Apartment
