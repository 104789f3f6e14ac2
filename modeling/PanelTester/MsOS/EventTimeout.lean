import PanelTester.MsOS.EventTask
import PanelTester.MsOS.EventWait

/-!
Who owns the cell and the semaphore of a call. Each request is at one stage on the side of the
task, from the queue to its slot and out of it again (`Stage`); what the queue still holds of a
call follows from its stage and from where the call is. A call that is granted its wait and runs
out of time all the same is at a stage of its own (`lost`): its release request finds no slot.
-/

namespace PanelTester.MsOS

open Library EventState

/-- Where the request of a call is. -/
inductive Stage
  | unsent
  | queued
  | slot (k : ℕ)
  | writing (k : ℕ)
  | posted
  | lost
  | removed
  deriving DecidableEq

/-- The slot that a request takes. -/
def Stage.at? : Stage → Option ℕ
  | slot k | writing k => some k
  | _ => none

/-- The call that a message is from. -/
def EventMessage.call? : EventMessage → Option ℕ
  | clearEvent _ | setEvent _ => none
  | waitEvent _ _ _ _ call | releaseEvent _ call => some call

namespace WaitCall

/-- The call is over without its flags, or will be. -/
def TimedOut (c : WaitCall) : Prop := c.place = .release ∨ c.place = .returned none

/-- The release request, once it is sent. -/
def late (c : WaitCall) (i : ℕ) : List EventMessage :=
  if c.place = .returned none then [c.releaseMessage i] else []

/-- What the queue and the hands of the task hold of a call. -/
def mail (c : WaitCall) (i : ℕ) : Stage → List EventMessage
  | .queued => c.waitMessage i :: c.late i
  | .slot _ | .writing _ | .posted => c.late i
  | .unsent | .lost | .removed => []

/-- Nothing was freed of a call. -/
def Kept (c : WaitCall) : Prop := c.resultFreed = 0 ∧ c.semaphoreFreed = 0

end WaitCall

namespace EventState

/-- The messages that are not served yet. -/
def stream (s : EventState) : List EventMessage :=
  match s.task with
  | .serve m => m :: s.queue
  | _ => s.queue

/-- The memory of a call that waits. -/
def Memory (s : EventState) (i : ℕ) (c : WaitCall) (n : ℕ) : Prop :=
  (∃ x, s.cells c.result = some (i, x)) ∧ s.semaphores c.returnSemaphore = some (i, n)

/-- What is known of a call behind its grant. -/
def PostedOk (s : EventState) (i : ℕ) (c : WaitCall) (flags : UInt32) : WaitPlace → Prop
  | .obtain | .release | .returned none =>
      c.Kept ∧ s.cells c.result = some (i, flags) ∧ s.semaphores c.returnSemaphore = some (i, 1)
  | .read => c.Kept ∧ s.cells c.result = some (i, flags) ∧
    s.semaphores c.returnSemaphore = some (i, 0)
  | .free f =>
      f = flags ∧ c.Kept ∧ s.cells c.result = some (i, flags) ∧
        s.semaphores c.returnSemaphore = some (i, 0)
  | .delete f =>
      f = flags ∧ c.resultFreed = 1 ∧ c.semaphoreFreed = 0 ∧
        s.semaphores c.returnSemaphore = some (i, 0)
  | .returned (some f) => f = flags ∧ c.resultFreed = 1 ∧ c.semaphoreFreed = 1
  | .start | .send => False

/-- What is known of a call at a stage. -/
def CallOk (s : EventState) (i : ℕ) (c : WaitCall) : Stage → Prop
  | .unsent =>
      c.granted = none ∧ c.cleared = 0 ∧ c.Kept ∧
        (c.place = .start ∨ c.place = .send ∧ s.Memory i c 0)
  | .queued | .slot _ =>
      c.granted = none ∧ c.cleared = 0 ∧ c.Kept ∧ s.Memory i c 0 ∧ (c.place = .obtain ∨ c.TimedOut)
  | .writing _ =>
      c.Kept ∧ (c.place = .obtain ∨ c.TimedOut) ∧
        ∃ flags, c.granted = some flags ∧ s.cells c.result = some (i, flags) ∧
          s.semaphores c.returnSemaphore = some (i, 0)
  | .posted => ∃ flags, c.granted = some flags ∧ s.PostedOk i c flags c.place
  | .lost =>
      c.place = .returned none ∧ c.Kept ∧
        ∃ flags, c.granted = some flags ∧ s.cells c.result = some (i, flags) ∧
          s.semaphores c.returnSemaphore = some (i, 1)
  | .removed =>
      c.granted = none ∧ c.cleared = 0 ∧ c.place = .returned none ∧ c.resultFreed = 1 ∧
        c.semaphoreFreed = 1

/-- Every request is at its stage. -/
structure Placed (s : EventState) (stage : ℕ → Stage) : Prop where
  call : ∀ i, s.CallOk i (s.calls i) (stage i)
  mail : ∀ i, s.stream.filter (fun m => m.call? = some i) = (s.calls i).mail i (stage i)
  slot : ∀ (k : ℕ) (node : EventNode), s.event.pEventContainer[k]? = some node → node.Waits →
    node = (s.calls node.call).node node.call ∧ (stage node.call).at? = some k
  held : ∀ i k, (stage i).at? = some k →
    s.event.pEventContainer[k]? = some ((s.calls i).node i)
  writing : ∀ i k, stage i = .writing k → ∃ f, s.task = .grant f k
  grant : ∀ f k, s.task = .grant f k → ∃ i, stage i = .writing k ∧
    ∃ flags, (((s.calls i).node i).dispatch f s.event.eventFlag).2.2 = some flags

/-! ### The question -/

/-- What the calls are promised. A call that returns 1 has freed its memory; for one that returns
0, this is done when its release request is served. -/
structure Good (s : EventState) : Prop where
  noFault : s.fault = false
  refused : ∀ i, (s.calls i).place = .returned none → (s.calls i).cleared = 0
  polled : ∀ poll ∈ s.polls, poll.1 = none → poll.2.2 = poll.2.1
  result : ∀ i flags, (s.calls i).place = .returned (some flags) → (s.calls i).granted = some flags
  freed : ∀ i, (s.calls i).resultFreed ≤ 1 ∧ (s.calls i).semaphoreFreed ≤ 1
  freedReturned : ∀ i flags, (s.calls i).place = .returned (some flags) →
    (s.calls i).resultFreed = 1 ∧ (s.calls i).semaphoreFreed = 1
  freedReleased : ∀ i, (s.calls i).place = .returned none →
    (s.calls i).releaseMessage i ∉ s.stream →
    (s.calls i).resultFreed = 1 ∧ (s.calls i).semaphoreFreed = 1

/-- A call does not run out of time once the dispatcher grants it its wait, nor is it granted its
wait once it ran out of time; and a wait request finds a slot. -/
def Timely (s : EventState) : EventAct → Prop
  | .timeout i => (s.calls i).granted = none
  | .dispatch => ∀ f k node, s.task = .dispatch f k → s.event.pEventContainer[k]? = some node →
      (node.dispatch f s.event.eventFlag).2.2 ≠ none → ¬ (s.calls node.call).TimedOut
  | .serve => ∀ f mode p sem call, s.task = .serve (.waitEvent f mode p sem call) →
      ∃ node ∈ s.event.pEventContainer, ¬ node.Waits
  | _ => True

/-! ### The invariant -/

/-- A wait request finds a slot. -/
def Slotted (s : EventState) (a : EventAct) : Prop :=
  a = .serve → ∀ f mode p sem call, s.task = .serve (.waitEvent f mode p sem call) →
    ∃ node ∈ s.event.pEventContainer, ¬ node.Waits

section

variable {s s' : EventState} {stage : ℕ → Stage} {i j k : ℕ} {c : WaitCall}

/-! ### Memory -/

/-- The memory of a call is still there. -/
structure Keeps (s s' : EventState) (i : ℕ) : Prop where
  cells : ∀ p x, s.cells p = some (i, x) → s'.cells p = some (i, x)
  semaphores : ∀ p n, s.semaphores p = some (i, n) → s'.semaphores p = some (i, n)

theorem Keeps.of_eq (hcells : s'.cells = s.cells) (hsemaphores : s'.semaphores = s.semaphores) :
    Keeps s s' i :=
  ⟨fun _ _ h => hcells ▸ h, fun _ _ h => hsemaphores ▸ h⟩

/-- A place that is not the call's is overwritten. -/
theorem update_of_owner {α : Type*} {mem : ℕ → Option (ℕ × α)} {p : ℕ} {v : Option (ℕ × α)}
    (hp : ∀ o x, mem p = some (o, x) → o ≠ i) {q : ℕ} {x : α} (h : mem q = some (i, x)) :
    Function.update mem p v q = some (i, x) := by
  by_cases hq : q = p
  · subst hq
    exact absurd rfl (hp _ _ h)
  · rw [Function.update_of_ne hq, h]

theorem Keeps.postedOk (h : Keeps s s' i) {flags : UInt32} {place : WaitPlace}
    (hok : s.PostedOk i c flags place) : s'.PostedOk i c flags place := by
  cases place with
  | start => exact hok
  | send => exact hok
  | «obtain» => exact ⟨hok.1, h.cells _ _ hok.2.1, h.semaphores _ _ hok.2.2⟩
  | release => exact ⟨hok.1, h.cells _ _ hok.2.1, h.semaphores _ _ hok.2.2⟩
  | read => exact ⟨hok.1, h.cells _ _ hok.2.1, h.semaphores _ _ hok.2.2⟩
  | free f => exact ⟨hok.1, hok.2.1, h.cells _ _ hok.2.2.1, h.semaphores _ _ hok.2.2.2⟩
  | delete f => exact ⟨hok.1, hok.2.1, hok.2.2.1, h.semaphores _ _ hok.2.2.2⟩
  | returned f =>
      cases f with
      | none => exact ⟨hok.1, h.cells _ _ hok.2.1, h.semaphores _ _ hok.2.2⟩
      | some f => exact hok

theorem Keeps.memory (h : Keeps s s' i) {n : ℕ} (hm : s.Memory i c n) : s'.Memory i c n := by
  obtain ⟨⟨x, hx⟩, hn⟩ := hm
  exact ⟨⟨x, h.cells _ _ hx⟩, h.semaphores _ _ hn⟩

/-- What is known of a call stays known where its memory stays. -/
theorem Keeps.callOk (h : Keeps s s' i) {σ : Stage} (hok : s.CallOk i c σ) : s'.CallOk i c σ := by
  cases σ with
  | unsent =>
      obtain ⟨hg, hc, hk, hplace⟩ := hok
      exact ⟨hg, hc, hk, hplace.imp_right fun hsend => ⟨hsend.1, h.memory hsend.2⟩⟩
  | queued =>
      obtain ⟨hg, hc, hk, hm, hplace⟩ := hok
      exact ⟨hg, hc, hk, h.memory hm, hplace⟩
  | slot k =>
      obtain ⟨hg, hc, hk, hm, hplace⟩ := hok
      exact ⟨hg, hc, hk, h.memory hm, hplace⟩
  | writing k =>
      obtain ⟨hk, hplace, flags, hg, hcell, hsem⟩ := hok
      exact ⟨hk, hplace, flags, hg, h.cells _ _ hcell, h.semaphores _ _ hsem⟩
  | posted =>
      obtain ⟨flags, hg, hposted⟩ := hok
      exact ⟨flags, hg, h.postedOk hposted⟩
  | lost =>
      obtain ⟨hplace, hk, flags, hg, hcell, hsem⟩ := hok
      exact ⟨hplace, hk, flags, hg, h.cells _ _ hcell, h.semaphores _ _ hsem⟩
  | removed => exact hok

theorem permits_eq {p n : ℕ} (h : s.semaphores p = some (i, n)) : s.permits i p = some n := by
  rw [permits, h]
  exact if_pos rfl

theorem content_eq {p : ℕ} {x : UInt32} (h : s.cells p = some (i, x)) : s.content i p = some x := by
  rw [content, h]
  exact if_pos rfl

/-- The memory of the others when a call uses its own. -/
theorem Keeps.of_owner {cells : ℕ → Option (ℕ × UInt32)}
    {semaphores : ℕ → Option (ℕ × ℕ)} (hij : i ≠ j)
    (hcells : cells = s.cells ∨ ∃ p v, cells = Function.update s.cells p v ∧
      ∀ o x, s.cells p = some (o, x) → o = i)
    (hsemaphores : semaphores = s.semaphores ∨
      ∃ p v, semaphores = Function.update s.semaphores p v ∧
      ∀ o n, s.semaphores p = some (o, n) → o = i)
    (hs'cells : s'.cells = cells) (hs'semaphores : s'.semaphores = semaphores) : Keeps s s' j := by
  subst hs'cells hs'semaphores
  constructor
  · intro q x hx
    rcases hcells with heq | ⟨p, v, heq, howner⟩
    · rw [heq, hx]
    · rw [heq]
      exact update_of_owner (fun o y hy => (howner o y hy).trans_ne hij) hx
  · intro q n hn
    rcases hsemaphores with heq | ⟨p, v, heq, howner⟩
    · rw [heq, hn]
    · rw [heq]
      exact update_of_owner (fun o y hy => (howner o y hy).trans_ne hij) hn

/-! ### Steps of a call -/

theorem stream_append {m : EventMessage} (htask : s'.task = s.task)
    (hqueue : s'.queue = s.queue ++ [m]) :
    s'.stream = s.stream ++ [m] := by
  rw [stream, stream, htask, hqueue]
  cases s.task <;> rfl

theorem stream_eq (htask : s'.task = s.task) (hqueue : s'.queue = s.queue) :
    s'.stream = s.stream := by
  rw [stream, stream, htask, hqueue]

/-- A step of call `i` leaves the task and the other calls alone. -/
theorem Placed.caller {σ : Stage} (h : Placed s stage) (hevent : s'.event = s.event)
    (htask : s'.task = s.task) (hcalls : s'.calls = Function.update s.calls i c)
    (hnode : (stage i).at? ≠ none → c.node i = (s.calls i).node i) (hat : σ.at? = (stage i).at?)
    (hwriting : ∀ k, σ = .writing k ↔ stage i = .writing k) (hkeeps : ∀ j, i ≠ j → Keeps s s' j)
    (hok : s'.CallOk i c σ)
    (hothers : ∀ j, i ≠ j → s'.stream.filter (fun m => m.call? = some j) =
      s.stream.filter fun m => m.call? = some j)
    (hmail : s'.stream.filter (fun m => m.call? = some i) = c.mail i σ) :
    Placed s' (Function.update stage i σ) := by
  have hother : ∀ j, i ≠ j → s'.calls j = s.calls j ∧ Function.update stage i σ j = stage j :=
    fun j hij => ⟨by rw [hcalls, Function.update_of_ne hij.symm], Function.update_of_ne hij.symm ..⟩
  have hself : s'.calls i = c ∧ Function.update stage i σ i = σ :=
    ⟨by rw [hcalls, Function.update_self], Function.update_self ..⟩
  have hnodes : ∀ j, (stage j).at? ≠ none → (s'.calls j).node j = (s.calls j).node j := by
    intro j hj
    by_cases hij : i = j
    · subst hij
      rw [hself.1, hnode hj]
    · rw [(hother j hij).1]
  have hats : ∀ j, (Function.update stage i σ j).at? = (stage j).at? := by
    intro j
    by_cases hij : i = j
    · subst hij
      rw [hself.2, hat]
    · rw [(hother j hij).2]
  have hwritings : ∀ j k, Function.update stage i σ j = .writing k ↔ stage j = .writing k := by
    intro j k
    by_cases hij : i = j
    · subst hij
      rw [hself.2, hwriting]
    · rw [(hother j hij).2]
  constructor
  case call =>
    intro j
    by_cases hij : i = j
    · subst hij
      rw [hself.1, hself.2]
      exact hok
    · rw [(hother j hij).1, (hother j hij).2]
      exact (hkeeps j hij).callOk (h.call j)
  case mail =>
    intro j
    by_cases hij : i = j
    · subst hij
      rw [hself.1, hself.2, hmail]
    · rw [(hother j hij).1, (hother j hij).2, hothers j hij, h.mail j]
  case slot =>
    -- the table of the task is the old one, and no request changes its slot
    intro k node hget hwaits
    rw [hevent] at hget
    obtain ⟨heq, hk⟩ := h.slot k node hget hwaits
    rw [hats, hnodes _ (by rw [hk]; exact Option.some_ne_none k)]
    exact ⟨heq, hk⟩
  case held =>
    intro j k hk
    rw [hats] at hk
    rw [hevent, hnodes j (by rw [hk]; exact Option.some_ne_none k)]
    exact h.held j k hk
  case writing =>
    intro j k hk
    rw [htask]
    exact h.writing j k ((hwritings j k).mp hk)
  case grant =>
    intro f k hgrant
    rw [htask] at hgrant
    obtain ⟨j, hj, hflags⟩ := h.grant f k hgrant
    refine ⟨j, (hwritings j k).mpr hj, ?_⟩
    rw [hevent, hnodes j (by rw [hj]; exact Option.some_ne_none k)]
    exact hflags

/-- A step of call `i` that sends nothing, with its request at the stage where it is. -/
theorem Placed.caller_silent (h : Placed s stage) (hevent : s'.event = s.event)
    (htask : s'.task = s.task) (hqueue : s'.queue = s.queue)
    (hcalls : s'.calls = Function.update s.calls i c)
    (hnode : (stage i).at? ≠ none → c.node i = (s.calls i).node i)
    (hkeeps : ∀ j, i ≠ j → Keeps s s' j) (hok : s'.CallOk i c (stage i))
    (hmail : c.mail i (stage i) = (s.calls i).mail i (stage i)) : Placed s' stage := by
  have hstream := stream_eq htask hqueue
  have hplaced := h.caller (σ := stage i) hevent htask hcalls hnode rfl
    (fun _ => Iff.rfl) hkeeps hok
    (fun j _ => by rw [hstream]) (by rw [hstream, h.mail i, hmail])
  rwa [Function.update_eq_self] at hplaced

/-- A step of call `i` that sends a message of its own. -/
theorem Placed.caller_sends {σ : Stage} {m : EventMessage} (h : Placed s stage)
    (hevent : s'.event = s.event) (htask : s'.task = s.task) (hqueue : s'.queue = s.queue ++ [m])
    (hm : m.call? = some i) (hcalls : s'.calls = Function.update s.calls i c)
    (hnode : c.node i = (s.calls i).node i) (hat : σ.at? = (stage i).at?)
    (hwriting : ∀ k, σ = .writing k ↔ stage i = .writing k) (hcells : s'.cells = s.cells)
    (hsemaphores : s'.semaphores = s.semaphores) (hok : s'.CallOk i c σ)
    (hmail : c.mail i σ = (s.calls i).mail i (stage i) ++ [m]) :
    Placed s' (Function.update stage i σ) := by
  have hstream := stream_append htask hqueue
  refine h.caller hevent htask hcalls (fun _ => hnode) hat hwriting
    (fun j _ => Keeps.of_eq hcells hsemaphores) hok (fun j hij => ?_) ?_
  · rw [hstream, List.filter_append, List.filter_singleton, hm,
      decide_eq_false (by simpa using hij), cond_false, List.append_nil]
  · rw [hstream, List.filter_append, List.filter_singleton, hm, decide_eq_true rfl, cond_true,
      h.mail i, hmail]

theorem Placed.perform_call {flag : UInt32} {mode : EventWaitMode} {p sem : ℕ} {x : UInt32}
    (h : Placed s stage) (hen : s.Enabled (.call i flag mode p sem x)) :
    ∃ s', s.perform (.call i flag mode p sem x) = some s' ∧ Placed s' stage := by
  obtain ⟨hplace, hp, hsem⟩ := hen
  have hok := h.call i
  have hmail := h.mail i
  -- before it is made, nothing is known of a call
  have hunsent : stage i = .unsent := by
    cases hσ : stage i <;> rw [hσ] at hok
    case queued => exact absurd hok.2.2.2.2 (by simp [WaitCall.TimedOut, hplace])
    case slot => exact absurd hok.2.2.2.2 (by simp [WaitCall.TimedOut, hplace])
    case writing => exact absurd hok.2.1 (by simp [WaitCall.TimedOut, hplace])
    case posted =>
      obtain ⟨flags, -, hposted⟩ := hok
      rw [hplace] at hposted
      exact hposted.elim
    case lost => exact absurd hok.1 (by simp [hplace])
    case removed => exact absurd hok.2.2.1 (by simp [hplace])
  refine ⟨_, rfl, ?_⟩
  refine h.caller_silent rfl rfl rfl rfl (fun hat => absurd (by rw [hunsent]; rfl) hat)
    (fun j hij => Keeps.of_owner hij (.inr ⟨p, _, rfl, ?_⟩) (.inr ⟨sem, _, rfl, ?_⟩) rfl rfl) ?_ ?_
  · intro o y hy
    exact nomatch hp.symm.trans hy
  · intro o n hn
    exact nomatch hsem.symm.trans hn
  · rw [hunsent]
    exact ⟨rfl, rfl, ⟨rfl, rfl⟩, .inr ⟨rfl, ⟨x, Function.update_self ..⟩, Function.update_self ..⟩⟩
  · rw [hunsent]
    rfl

theorem Placed.perform_send (h : Placed s stage) (hen : s.Enabled (.send i)) :
    ∃ s' stage', s.perform (.send i) = some s' ∧ Placed s' stage' := by
  obtain ⟨hplace, -⟩ := hen
  have hok := h.call i
  cases hσ : stage i <;> rw [hσ] at hok
  case queued => exact absurd hok.2.2.2.2 (by simp [WaitCall.TimedOut, hplace])
  case slot => exact absurd hok.2.2.2.2 (by simp [WaitCall.TimedOut, hplace])
  case writing => exact absurd hok.2.1 (by simp [WaitCall.TimedOut, hplace])
  case posted =>
    obtain ⟨flags, -, hposted⟩ := hok
    rw [hplace] at hposted
    exact hposted.elim
  case lost => exact absurd hok.1 (by simp [hplace])
  case removed => exact absurd hok.2.2.1 (by simp [hplace])
  case unsent =>
    obtain ⟨hg, hc, hk, hmem⟩ := hok
    rcases hmem with hstart | ⟨-, hmem⟩
    · exact nomatch hplace.symm.trans hstart
    · refine ⟨_, Function.update stage i .queued, rfl, ?_⟩
      refine h.caller_sends rfl rfl rfl rfl rfl rfl ?_ ?_ rfl rfl ?_ ?_
      · rw [hσ]; rfl
      · rw [hσ]; simp
      · exact ⟨hg, hc, hk, hmem, .inl rfl⟩
      · rw [hσ]; rfl

theorem Placed.perform_obtain (h : Placed s stage) (hen : s.Enabled (.obtain i)) :
    ∃ s', s.perform (.obtain i) = some s' ∧ Placed s' stage := by
  obtain ⟨hplace, hcount⟩ := hen
  have hok := h.call i
  cases hσ : stage i <;> rw [hσ] at hok
  case unsent => exact absurd hok.2.2.2 (by simp [hplace])
  case queued => exact absurd rfl (hcount _ hok.2.2.2.1.2)
  case slot => exact absurd rfl (hcount _ hok.2.2.2.1.2)
  case writing =>
    obtain ⟨-, -, flags, -, -, hsem⟩ := hok
    exact absurd rfl (hcount _ hsem)
  case lost => exact absurd hok.1 (by simp [hplace])
  case removed => exact absurd hok.2.2.1 (by simp [hplace])
  case posted =>
    obtain ⟨flags, hg, hposted⟩ := hok
    rw [hplace] at hposted
    obtain ⟨hk, hcell, hsem⟩ := hposted
    refine ⟨_, by rw [perform, permits_eq hsem]; rfl, ?_⟩
    refine h.caller_silent rfl rfl rfl rfl (fun _ => rfl)
      (fun j hij => Keeps.of_owner hij (.inl rfl) (.inr ⟨_, _, rfl, ?_⟩) rfl rfl) ?_ ?_
    · intro o n hn
      exact (Prod.mk.inj (Option.some.inj (hsem.symm.trans hn))).1.symm
    · rw [hσ]
      exact ⟨flags, hg, hk, hcell, Function.update_self ..⟩
    · rw [hσ]
      simp [WaitCall.mail, WaitCall.late, hplace]

theorem Placed.perform_timeout (h : Placed s stage) (hen : s.Enabled (.timeout i)) :
    ∃ s', s.perform (.timeout i) = some s' ∧ Placed s' stage := by
  have hplace : (s.calls i).place = .obtain := hen
  have hok := h.call i
  have hstep : ∀ n, s.semaphores (s.calls i).returnSemaphore = some (i, n) →
      s.CallOk i { s.calls i with place := .release } (stage i) →
      ∃ s', s.perform (.timeout i) = some s' ∧ Placed s' stage := by
    intro n hsem hok'
    refine ⟨_, by rw [perform, permits_eq hsem]; rfl, ?_⟩
    refine h.caller_silent rfl rfl rfl rfl (fun _ => rfl) (fun j _ => Keeps.of_eq rfl rfl)
      (Keeps.callOk (Keeps.of_eq rfl rfl) hok') ?_
    cases stage i <;> simp [WaitCall.mail, WaitCall.late, WaitCall.waitMessage, hplace]
  cases hσ : stage i <;> rw [hσ] at hok hstep
  case unsent => exact absurd hok.2.2.2 (by simp [hplace])
  case queued =>
    obtain ⟨hg, hc, hk, hmem, -⟩ := hok
    exact hstep 0 hmem.2 ⟨hg, hc, hk, hmem, .inr (.inl rfl)⟩
  case slot =>
    obtain ⟨hg, hc, hk, hmem, -⟩ := hok
    exact hstep 0 hmem.2 ⟨hg, hc, hk, hmem, .inr (.inl rfl)⟩
  case writing =>
    obtain ⟨hk, -, flags, hg, hcell, hsem⟩ := hok
    exact hstep 0 hsem ⟨hk, .inr (.inl rfl), flags, hg, hcell, hsem⟩
  case posted =>
    obtain ⟨flags, hg, hposted⟩ := hok
    rw [hplace] at hposted
    exact hstep 1 hposted.2.2 ⟨flags, hg, hposted⟩
  case lost => exact absurd hok.1 (by simp [hplace])
  case removed => exact absurd hok.2.2.1 (by simp [hplace])

theorem Placed.perform_release (h : Placed s stage) (hen : s.Enabled (.release i)) :
    ∃ s', s.perform (.release i) = some s' ∧ Placed s' stage := by
  obtain ⟨hplace, -⟩ := hen
  have hok := h.call i
  have hstep : (s.CallOk i { s.calls i with place := .returned none } (stage i)) →
      WaitCall.mail { s.calls i with place := .returned none } i (stage i) =
        (s.calls i).mail i (stage i) ++ [(s.calls i).releaseMessage i] →
      ∃ s', s.perform (.release i) = some s' ∧ Placed s' stage := by
    intro hok' hmail
    refine ⟨_, rfl, ?_⟩
    rw [← Function.update_eq_self i stage]
    exact h.caller_sends rfl rfl rfl rfl rfl rfl rfl (fun _ => Iff.rfl) rfl rfl
      (Keeps.callOk (Keeps.of_eq rfl rfl) hok') hmail
  cases hσ : stage i <;> rw [hσ] at hok hstep
  case unsent => exact absurd hok.2.2.2 (by simp [hplace])
  case queued =>
    obtain ⟨hg, hc, hk, hmem, -⟩ := hok
    exact hstep ⟨hg, hc, hk, hmem, .inr (.inr rfl)⟩
      (by simp [WaitCall.mail, WaitCall.late, WaitCall.waitMessage,
        WaitCall.releaseMessage, hplace])
  case slot =>
    obtain ⟨hg, hc, hk, hmem, -⟩ := hok
    exact hstep ⟨hg, hc, hk, hmem, .inr (.inr rfl)⟩
      (by simp [WaitCall.mail, WaitCall.late, WaitCall.releaseMessage, hplace])
  case writing =>
    obtain ⟨hk, -, hmem⟩ := hok
    exact hstep ⟨hk, .inr (.inr rfl), hmem⟩
      (by simp [WaitCall.mail, WaitCall.late, WaitCall.releaseMessage, hplace])
  case posted =>
    obtain ⟨flags, hg, hposted⟩ := hok
    rw [hplace] at hposted
    exact hstep ⟨flags, hg, hposted⟩
      (by simp [WaitCall.mail, WaitCall.late, WaitCall.releaseMessage, hplace])
  case lost => exact absurd hok.1 (by simp [hplace])
  case removed => exact absurd hok.2.2.1 (by simp [hplace])

/-- Behind its grant and before it is released, a call has its request served. -/
theorem CallOk.posted_of_place {σ : Stage} (hok : s.CallOk i c σ)
    (hplace : c.place = .read ∨ (∃ f, c.place = .free f) ∨ ∃ f, c.place = .delete f) :
    σ = .posted ∧ ∃ flags, c.granted = some flags ∧ s.PostedOk i c flags c.place := by
  cases σ
  case unsent =>
    obtain ⟨-, -, -, hstart⟩ := hok
    rcases hstart with hstart | ⟨hstart, -⟩ <;> simp [hstart] at hplace
  case queued =>
    obtain ⟨-, -, -, -, hwaits⟩ := hok
    rcases hwaits with hwaits | hwaits | hwaits <;> simp [hwaits] at hplace
  case slot =>
    obtain ⟨-, -, -, -, hwaits⟩ := hok
    rcases hwaits with hwaits | hwaits | hwaits <;> simp [hwaits] at hplace
  case writing =>
    obtain ⟨-, hwaits, -⟩ := hok
    rcases hwaits with hwaits | hwaits | hwaits <;> simp [hwaits] at hplace
  case posted => exact ⟨rfl, hok⟩
  case lost => simp [hok.1] at hplace
  case removed => simp [hok.2.2.1] at hplace

theorem Placed.perform_read (h : Placed s stage) (hen : s.Enabled (.read i)) :
    ∃ s', s.perform (.read i) = some s' ∧ Placed s' stage := by
  have hplace : (s.calls i).place = .read := hen
  obtain ⟨hσ, flags, hg, hposted⟩ := (h.call i).posted_of_place (.inl hplace)
  rw [hplace] at hposted
  obtain ⟨hk, hcell, hsem⟩ := hposted
  refine ⟨_, by rw [perform, content_eq hcell]; rfl, ?_⟩
  refine h.caller_silent rfl rfl rfl rfl (fun _ => rfl) (fun j _ => Keeps.of_eq rfl rfl) ?_ ?_
  · rw [hσ]
    exact ⟨flags, hg, rfl, hk, hcell, hsem⟩
  · rw [hσ]
    simp [WaitCall.mail, WaitCall.late, hplace]

theorem Placed.perform_free (h : Placed s stage) (hen : s.Enabled (.free i)) :
    ∃ s', s.perform (.free i) = some s' ∧ Placed s' stage := by
  obtain ⟨f, hplace⟩ := hen
  obtain ⟨hσ, flags, hg, hposted⟩ := (h.call i).posted_of_place (.inr (.inl ⟨f, hplace⟩))
  rw [hplace] at hposted
  obtain ⟨rfl, hk, hcell, hsem⟩ := hposted
  refine ⟨_, by rw [perform, content_eq hcell, hplace]; rfl, ?_⟩
  refine h.caller_silent rfl rfl rfl rfl (fun _ => rfl)
    (fun j hij => Keeps.of_owner hij (.inr ⟨_, _, rfl, ?_⟩) (.inl rfl) rfl rfl) ?_ ?_
  · intro o x hx
    exact (Prod.mk.inj (Option.some.inj (hcell.symm.trans hx))).1.symm
  · rw [hσ]
    exact ⟨f, hg, rfl, congrArg (· + 1) hk.1, hk.2, hsem⟩
  · rw [hσ]
    simp [WaitCall.mail, WaitCall.late, hplace]

theorem Placed.perform_delete (h : Placed s stage) (hen : s.Enabled (.delete i)) :
    ∃ s', s.perform (.delete i) = some s' ∧ Placed s' stage := by
  obtain ⟨f, hplace⟩ := hen
  obtain ⟨hσ, flags, hg, hposted⟩ := (h.call i).posted_of_place (.inr (.inr ⟨f, hplace⟩))
  rw [hplace] at hposted
  obtain ⟨rfl, hfreed, hkept, hsem⟩ := hposted
  refine ⟨_, by rw [perform, permits_eq hsem, hplace]; rfl, ?_⟩
  refine h.caller_silent rfl rfl rfl rfl (fun _ => rfl)
    (fun j hij => Keeps.of_owner hij (.inl rfl) (.inr ⟨_, _, rfl, ?_⟩) rfl rfl) ?_ ?_
  · intro o n hn
    exact (Prod.mk.inj (Option.some.inj (hsem.symm.trans hn))).1.symm
  · rw [hσ]
    exact ⟨f, hg, rfl, hfreed, congrArg (· + 1) hkept⟩
  · rw [hσ]
    simp [WaitCall.mail, WaitCall.late, hplace]

/-! ### Steps of others -/

/-- A step that leaves all calls and slots where they are. -/
theorem Placed.keep (h : Placed s stage)
    (hslots : s'.event.pEventContainer = s.event.pEventContainer)
    (hcalls : s'.calls = s.calls) (hcells : s'.cells = s.cells)
    (hsemaphores : s'.semaphores = s.semaphores)
    (hstream : ∀ i, s'.stream.filter (fun m => m.call? = some i) =
      s.stream.filter fun m => m.call? = some i)
    (hgrant : ∀ f k, s'.task = .grant f k ↔ s.task = .grant f k)
    (hflag : ∀ f k, s'.task = .grant f k → s'.event.eventFlag = s.event.eventFlag) :
    Placed s' stage where
  call i := by
    rw [hcalls]
    exact (Keeps.of_eq hcells hsemaphores).callOk (h.call i)
  mail i := by rw [hstream, hcalls, h.mail]
  slot k node hget hwaits := by
    rw [hcalls]
    exact h.slot k node (hslots ▸ hget) hwaits
  held i k hk := by
    rw [hslots, hcalls]
    exact h.held i k hk
  writing i k hk := by
    obtain ⟨f, hf⟩ := h.writing i k hk
    exact ⟨f, (hgrant f k).mpr hf⟩
  grant f k hf := by
    rw [hcalls, hflag f k hf]
    exact h.grant f k ((hgrant f k).mp hf)

theorem Placed.perform_signal {m : EventMessage} {a : EventAct} (h : Placed s stage)
    (hm : m.call? = none) (ha : s.perform a = some { s with queue := s.queue ++ [m] }) :
    ∃ s', s.perform a = some s' ∧ Placed s' stage := by
  refine ⟨_, ha, ?_⟩
  refine h.keep rfl rfl rfl rfl (fun i => ?_) (fun _ _ => Iff.rfl) fun _ _ _ => rfl
  have hstream : EventState.stream { s with queue := s.queue ++ [m] } = s.stream ++ [m] :=
    stream_append rfl rfl
  rw [hstream, List.filter_append, List.filter_singleton, hm, decide_eq_false (by simp), cond_false,
    List.append_nil]

theorem Placed.perform_poll {flag : UInt32} {mode : EventWaitMode} (h : Placed s stage)
    (hen : s.Enabled (.poll flag mode)) :
    ∃ s', s.perform (.poll flag mode) = some s' ∧ Placed s' stage := by
  have hgrant : ∀ f k, s.task ≠ .grant f k := by
    rcases hen with htask | ⟨m, htask⟩ <;> simp [htask]
  exact ⟨_, rfl, h.keep rfl rfl rfl rfl (fun _ => rfl) (fun _ _ => Iff.rfl)
    fun f k hf => absurd hf (hgrant f k)⟩

theorem Placed.perform_receive (h : Placed s stage) (hen : s.Enabled .receive) :
    ∃ s', s.perform .receive = some s' ∧ Placed s' stage := by
  obtain ⟨htask, hqueue⟩ := hen
  obtain ⟨m, queue, hq⟩ := List.exists_cons_of_ne_nil hqueue
  refine ⟨_, by rw [perform, received, hq], ?_⟩
  refine h.keep rfl rfl rfl rfl (fun i => ?_) (fun f k => ?_) (fun f k hf => nomatch hf)
  · simp [stream, htask, hq]
  · simp [htask]

/-! ### Steps of the task -/

/-- A step of the task for the request of call `i`. -/
theorem Placed.turn {σ : Stage} (h : Placed s stage)
    (hcalls : s'.calls = Function.update s.calls i c)
    (hkeeps : ∀ j, i ≠ j → Keeps s s' j) (hok : s'.CallOk i c σ)
    (hothers : ∀ j, i ≠ j → s'.stream.filter (fun m => m.call? = some j) =
      s.stream.filter fun m => m.call? = some j)
    (hmail : s'.stream.filter (fun m => m.call? = some i) = c.mail i σ)
    (hslot : ∀ (k : ℕ) (node : EventNode), s'.event.pEventContainer[k]? = some node → node.Waits →
      s.event.pEventContainer[k]? = some node ∧ node.call ≠ i ∨ node = c.node i ∧ σ.at? = some k)
    (hheld : ∀ j k, i ≠ j → (stage j).at? = some k →
      s'.event.pEventContainer[k]? = s.event.pEventContainer[k]?)
    (hheldi : ∀ k, σ.at? = some k → s'.event.pEventContainer[k]? = some (c.node i))
    (hwriting : ∀ k, σ = .writing k → ∃ f, s'.task = .grant f k)
    (hnone : ∀ j k, i ≠ j → stage j ≠ .writing k)
    (hgrant : ∀ f k, s'.task = .grant f k → σ = .writing k ∧
      ∃ flags, ((c.node i).dispatch f s'.event.eventFlag).2.2 = some flags) :
    Placed s' (Function.update stage i σ) := by
  have hother : ∀ j, i ≠ j → s'.calls j = s.calls j ∧ Function.update stage i σ j = stage j :=
    fun j hij => ⟨by rw [hcalls, Function.update_of_ne hij.symm], Function.update_of_ne hij.symm ..⟩
  have hself : s'.calls i = c ∧ Function.update stage i σ i = σ :=
    ⟨by rw [hcalls, Function.update_self], Function.update_self ..⟩
  constructor
  case call =>
    intro j
    by_cases hij : i = j
    · subst hij
      rw [hself.1, hself.2]
      exact hok
    · rw [(hother j hij).1, (hother j hij).2]
      exact (hkeeps j hij).callOk (h.call j)
  case mail =>
    intro j
    by_cases hij : i = j
    · subst hij
      rw [hself.1, hself.2, hmail]
    · rw [(hother j hij).1, (hother j hij).2, hothers j hij, h.mail j]
  case slot =>
    -- a waiting slot is an old one of another call, or the one of the request
    intro k node hget hwaits
    rcases hslot k node hget hwaits with ⟨hget, hne⟩ | ⟨heq, hat⟩
    · rw [(hother _ hne.symm).1, (hother _ hne.symm).2]
      exact h.slot k node hget hwaits
    · have hcall : node.call = i := by rw [heq]; rfl
      rw [hcall, hself.1, hself.2]
      exact ⟨heq, hat⟩
  case held =>
    intro j k hk
    by_cases hij : i = j
    · subst hij
      rw [hself.2] at hk
      rw [hself.1, hheldi k hk]
    · rw [(hother j hij).2] at hk
      rw [(hother j hij).1, hheld j k hij hk, h.held j k hk]
  case writing =>
    intro j k hk
    by_cases hij : i = j
    · subst hij
      exact hwriting k (hself.2.symm.trans hk)
    · exact absurd ((hother j hij).2.symm.trans hk) (hnone j k hij)
  case grant =>
    intro f k hf
    obtain ⟨hσ, hflags⟩ := hgrant f k hf
    refine ⟨i, hself.2.trans hσ, ?_⟩
    rw [hself.1]
    exact hflags

theorem stream_serve {m : EventMessage} (htask : s.task = .serve m) : s.stream = m :: s.queue := by
  rw [stream, htask]

/-- No slot is being written to. -/
theorem Placed.not_writing (h : Placed s stage) (htask : ∀ f k, s.task ≠ .grant f k) (j k : ℕ) :
    stage j ≠ .writing k := by
  intro hj
  obtain ⟨f, hf⟩ := h.writing j k hj
  exact htask f k hf

theorem Placed.served_signal {m : EventMessage} {event : MSOSEvent} (h : Placed s stage)
    (htask : s.task = .serve m) (hm : m.call? = none)
    (hslots : event.pEventContainer = s.event.pEventContainer) :
    Placed { s with event := event, task := .dispatch event.eventFlag 0 } stage := by
  refine h.keep hslots rfl rfl rfl (fun i => ?_) (fun f k => ?_) fun f k hf => nomatch hf
  · rw [stream_serve htask, List.filter_cons, if_neg (by simp [hm])]
    rfl
  · simp [htask]

/-- A wait request that is served is queued before. -/
theorem Placed.queued_of_serve {f : UInt32} {mode : EventWaitMode} {p sem : ℕ} (h : Placed s stage)
    (htask : s.task = .serve (.waitEvent f mode p sem i)) :
    stage i = .queued ∧ .waitEvent f mode p sem i = (s.calls i).waitMessage i ∧
      s.queue.filter (fun m => m.call? = some i) = (s.calls i).late i := by
  have hmail := h.mail i
  have hlate : ∀ rest, EventMessage.waitEvent f mode p sem i :: rest ≠ (s.calls i).late i := by
    intro rest
    rw [WaitCall.late]
    split <;> simp [WaitCall.releaseMessage]
  rw [stream_serve htask, List.filter_cons, if_pos (by simp [EventMessage.call?])] at hmail
  cases hσ : stage i <;> rw [hσ] at hmail
  case queued => exact ⟨rfl, (List.cons.inj hmail).1, (List.cons.inj hmail).2⟩
  case slot => exact absurd hmail (hlate _)
  case writing => exact absurd hmail (hlate _)
  case posted => exact absurd hmail (hlate _)
  all_goals exact nomatch hmail

theorem Placed.served_wait {f : UInt32} {mode : EventWaitMode} {p sem : ℕ} (h : Placed s stage)
    (htask : s.task = .serve (.waitEvent f mode p sem i))
    (hslot : ∃ node ∈ s.event.pEventContainer, ¬ node.Waits) :
    ∃ s' stage', s.served (.waitEvent f mode p sem i) = some s' ∧ Placed s' stage' := by
  obtain ⟨hσ, hm, hqueue⟩ := h.queued_of_serve htask
  have hnode : (⟨some sem, f, mode, p, i⟩ : EventNode) = (s.calls i).node i := by
    rw [WaitCall.waitMessage, EventMessage.waitEvent.injEq] at hm
    obtain ⟨rfl, rfl, rfl, rfl, -⟩ := hm
    rfl
  obtain ⟨k, hk⟩ : ∃ k, s.event.pEventContainer.findIdx? (·.eventSemaphore = none) = some k := by
    rw [← Option.isSome_iff_exists, List.findIdx?_isSome, List.any_eq_true]
    simpa [EventNode.Waits] using hslot
  obtain ⟨hlt, hfree, -⟩ := List.findIdx?_eq_some_iff_getElem.mp hk
  have hfree : s.event.pEventContainer[k].eventSemaphore = none := of_decide_eq_true hfree
  have hprocess : s.event.processMessage (.waitEvent f mode p sem i) =
      some { s.event with
        pEventContainer := s.event.pEventContainer.set k ((s.calls i).node i) } := by
    rw [MSOSEvent.processMessage, MSOSEvent.addEventList, hk, hnode]
    rfl
  have hgrant : ∀ g k, s.task ≠ .grant g k := by simp [htask]
  refine ⟨_, Function.update stage i (.slot k), by rw [served, hprocess]; rfl, ?_⟩
  have hok := h.call i
  rw [hσ] at hok
  refine h.turn (Function.update_eq_self ..).symm (fun j _ => Keeps.of_eq rfl rfl) ?_
    (fun j hij => ?_)
    ?_ (fun k' node hget hwaits => ?_) (fun j k' hij hk' => ?_) (fun k' hk' => ?_)
    (fun k' hk' => Stage.noConfusion hk') (fun j k' _ => h.not_writing hgrant j k')
    (fun g k' hg => EventTask.noConfusion hg)
  · exact Keeps.callOk (Keeps.of_eq rfl rfl) hok
  · rw [stream_serve htask, List.filter_cons, if_neg (by simpa [EventMessage.call?] using hij)]
    rfl
  · exact hqueue
  · rw [List.getElem?_set] at hget
    split at hget
    case isTrue hkk =>
      subst hkk
      exact .inr ⟨(Option.some.inj hget).symm, rfl⟩
    case isFalse hkk =>
      refine .inl ⟨hget, ?_⟩
      intro hcall
      obtain ⟨-, hat⟩ := h.slot k' node hget hwaits
      rw [hcall, hσ] at hat
      exact absurd hat.symm (Option.some_ne_none _)
  · show (s.event.pEventContainer.set k _)[k']? = _
    apply List.getElem?_set_ne
    rintro rfl
    have hget := h.held j k hk'
    rw [List.getElem?_eq_getElem hlt, Option.some.injEq] at hget
    rw [hget] at hfree
    exact absurd hfree (Option.some_ne_none _)
  · obtain rfl := Option.some.inj hk'
    exact List.getElem?_set_self hlt

/-- The owner of the semaphore of a call in a slot. -/
theorem Placed.owner_of_at (h : Placed s stage) (hat : (stage j).at? = some k) :
    s.semaphores (s.calls j).returnSemaphore = some (j, 0) := by
  have hok := h.call j
  cases hσ : stage j <;> rw [hσ] at hok hat
  case slot => exact hok.2.2.2.1.2
  case writing =>
    obtain ⟨-, -, flags, -, -, hsem⟩ := hok
    exact hsem
  all_goals exact absurd hat.symm (Option.some_ne_none _)

/-- The slot that a release request finds is the one of its own call. -/
theorem Placed.find_iff (h : Placed s stage) {n : ℕ}
    (hsem : s.semaphores (s.calls i).returnSemaphore = some (i, n)) :
    s.event.findEventList (s.calls i).returnSemaphore = some k ↔ (stage i).at? = some k := by
  have hfound : ∀ k, s.event.findEventList (s.calls i).returnSemaphore = some k →
      (stage i).at? = some k := by
    intro k hk
    obtain ⟨hlt, hsemk, -⟩ := List.findIdx?_eq_some_iff_getElem.mp hk
    have hsemk : s.event.pEventContainer[k].eventSemaphore = some (s.calls i).returnSemaphore :=
      of_decide_eq_true hsemk
    obtain ⟨heq, hat⟩ := h.slot k _ (List.getElem?_eq_getElem hlt)
      (by rw [EventNode.Waits, hsemk]; exact Option.some_ne_none _)
    have howner := h.owner_of_at hat
    rw [heq] at hsemk
    rw [Option.some.inj hsemk, hsem] at howner
    rw [← (Prod.mk.inj (Option.some.inj howner)).1] at hat
    exact hat
  constructor
  · exact hfound k
  · intro hat
    have hget := h.held i k hat
    cases hfind : s.event.findEventList (s.calls i).returnSemaphore with
    | some k' => exact (hfound k' hfind).symm.trans hat
    | none =>
        have hnone := List.findIdx?_eq_none_iff.mp hfind _ (List.mem_of_getElem? hget)
        exact absurd (decide_eq_true rfl) (Bool.eq_false_iff.mp hnone)

theorem Placed.served_release {sem : ℕ} (h : Placed s stage)
    (htask : s.task = .serve (.releaseEvent sem i)) :
    ∃ s' stage', s.served (.releaseEvent sem i) = some s' ∧ Placed s' stage' := by
  have hgrant : ∀ g k, s.task ≠ .grant g k := by simp [htask]
  have hok := h.call i
  have hmail := h.mail i
  have hothers : ∀ j, i ≠ j → s.queue.filter (fun m => m.call? = some j) =
      s.stream.filter fun m => m.call? = some j := by
    intro j hij
    rw [stream_serve htask, List.filter_cons, if_neg (by simpa [EventMessage.call?] using hij)]
  rw [stream_serve htask, List.filter_cons, if_pos (by simp [EventMessage.call?])] at hmail
  -- the release request of a call comes behind its wait request
  have hlate : (EventMessage.releaseEvent sem i :: s.queue.filter fun m => m.call? = some i) =
      (s.calls i).late i → (s.calls i).place = .returned none ∧ sem = (s.calls i).returnSemaphore ∧
        s.queue.filter (fun m => m.call? = some i) = [] := by
    intro heq
    rw [WaitCall.late] at heq
    split at heq
    case isTrue hplace =>
      obtain ⟨hm, hrest⟩ := List.cons.inj heq
      rw [WaitCall.releaseMessage, EventMessage.releaseEvent.injEq] at hm
      exact ⟨hplace, hm.1, hrest⟩
    case isFalse => exact absurd heq (List.cons_ne_nil _ _)
  cases hσ : stage i <;> rw [hσ] at hok hmail
  case queued => exact absurd (List.cons.inj hmail).1 (by simp [WaitCall.waitMessage])
  case unsent => exact absurd hmail (List.cons_ne_nil _ _)
  case lost => exact absurd hmail (List.cons_ne_nil _ _)
  case removed => exact absurd hmail (List.cons_ne_nil _ _)
  case writing k => exact absurd hσ (h.not_writing hgrant i k)
  case slot k =>
    obtain ⟨hplace, rfl, hqueue⟩ := hlate hmail
    obtain ⟨hg, hc, ⟨hkept₁, hkept₂⟩, ⟨⟨x, hcell⟩, hsem⟩, -⟩ := hok
    have hat : (stage i).at? = some k := by rw [hσ]; rfl
    have hfind := (h.find_iff hsem).mpr hat
    have hget := h.held i k hat
    have hremove : s.event.removeEventList (s.calls i).returnSemaphore =
        { s.event with pEventContainer := s.event.pEventContainer.modify k EventNode.free } := by
      rw [MSOSEvent.removeEventList, hfind]
    have hcall : ((s.calls i).node i).call = i := rfl
    have haddr : ((s.calls i).node i).returnEventAddr = (s.calls i).result := rfl
    refine ⟨_, Function.update stage i .removed, by
      simp only [served, MSOSEvent.processMessage, hremove, hfind, hget, hcall, haddr,
        content_eq hcell, permits_eq hsem, Option.bind_eq_bind, Option.bind_some]
      rfl, ?_⟩
    refine h.turn rfl (fun j hij => Keeps.of_owner hij (.inr ⟨_, _, rfl, ?_⟩) (.inr ⟨_, _, rfl, ?_⟩)
      rfl rfl) ?_ hothers hqueue (fun k' node hget' hwaits => ?_) (fun j k' hij hk' => ?_)
      (fun k' hk' => absurd hk'.symm (Option.some_ne_none k'))
      (fun k' hk' => Stage.noConfusion hk') (fun j k' _ => h.not_writing hgrant j k')
      (fun g k' hg => EventTask.noConfusion hg)
    · intro o y hy
      exact (Prod.mk.inj (Option.some.inj (hcell.symm.trans hy))).1.symm
    · intro o n hn
      exact (Prod.mk.inj (Option.some.inj (hsem.symm.trans hn))).1.symm
    · exact ⟨hg, hc, hplace, congrArg (· + 1) hkept₁, congrArg (· + 1) hkept₂⟩
    · change (s.event.pEventContainer.modify k EventNode.free)[k']? = some node at hget'
      rw [List.getElem?_modify] at hget'
      obtain ⟨old, hold, rfl⟩ := Option.map_eq_some_iff.mp hget'
      by_cases hkk : k = k'
      · rw [if_pos hkk] at hwaits
        exact absurd rfl hwaits
      · rw [if_neg hkk] at hwaits ⊢
        refine .inl ⟨hold, ?_⟩
        intro hcall
        have hat' := (h.slot k' old hold hwaits).2
        rw [hcall, hat] at hat'
        exact hkk (Option.some.inj hat')
    · show (s.event.pEventContainer.modify k EventNode.free)[k']? = _
      apply List.getElem?_modify_ne _ _
      rintro rfl
      have hnode := Option.some.inj ((h.held j k hk').symm.trans hget)
      exact hij (congrArg EventNode.call hnode).symm
  case posted =>
    obtain ⟨hplace, rfl, hqueue⟩ := hlate hmail
    obtain ⟨flags, hg, hposted⟩ := hok
    rw [hplace] at hposted
    obtain ⟨hk, hcell, hsem⟩ := hposted
    have hfind : s.event.findEventList (s.calls i).returnSemaphore = none := by
      cases hfind : s.event.findEventList (s.calls i).returnSemaphore with
      | none => rfl
      | some k =>
          have hat := (h.find_iff hsem).mp hfind
          rw [hσ] at hat
          exact absurd hat.symm (Option.some_ne_none _)
    have hremove : s.event.removeEventList (s.calls i).returnSemaphore = s.event := by
      rw [MSOSEvent.removeEventList, hfind]
    refine ⟨_, Function.update stage i .lost, by
      simp only [served, MSOSEvent.processMessage, hremove, hfind, Option.bind_eq_bind,
        Option.bind_some]
      rfl, ?_⟩
    refine h.turn (Function.update_eq_self ..).symm (fun j _ => Keeps.of_eq rfl rfl)
      ⟨hplace, hk, flags, hg, hcell, hsem⟩ hothers hqueue
      (fun k' node hget hwaits => .inl ⟨hget, ?_⟩)
      (fun _ _ _ _ => rfl) (fun k' hk' => absurd hk'.symm (Option.some_ne_none k'))
      (fun k' hk' => Stage.noConfusion hk')
      (fun j k' _ => h.not_writing hgrant j k') (fun g k' hg => EventTask.noConfusion hg)
    intro hcall
    have hat := (h.slot k' node hget hwaits).2
    rw [hcall, hσ] at hat
    exact absurd hat.symm (Option.some_ne_none _)

/-- A slot whose wait is granted is taken, and freed. -/
theorem dispatch_granted {node : EventNode} {f g flags : UInt32}
    (h : (node.dispatch f g).2.2 = some flags) :
    node.Waits ∧ (node.dispatch f g).2.1 = node.free := by
  rw [EventNode.dispatch_eq] at h ⊢
  split at h
  case isTrue hpasses =>
    rw [if_pos hpasses]
    exact ⟨hpasses.1, rfl⟩
  case isFalse => exact nomatch h

theorem Placed.perform_dispatch (h : Placed s stage) (hen : s.Enabled .dispatch) :
    ∃ s' stage', s.perform .dispatch = some s' ∧ Placed s' stage' := by
  obtain ⟨f, k, htask⟩ := hen
  have hgrant : ∀ g k, s.task ≠ .grant g k := by simp [htask]
  have hstream : s.stream = s.queue := by rw [stream, htask]
  have hperform : s.perform .dispatch = s.dispatched f k := by rw [perform, htask]
  rw [hperform, dispatched]
  cases hget : s.event.pEventContainer[k]? with
  | none =>
      refine ⟨_, stage, rfl, h.keep rfl rfl rfl rfl (fun i => ?_) (fun g k' => ?_)
        fun g k' hg => nomatch hg⟩
      · rw [hstream]
        rfl
      · simp [htask]
  | some node =>
      cases hflags : (node.dispatch f s.event.eventFlag).2.2 with
      | none =>
          simp only [hflags]
          refine ⟨_, stage, rfl,
            h.keep rfl rfl rfl rfl (fun i => ?_) (fun g k' => ?_) fun g k' hg => nomatch hg⟩
          · rw [hstream]
            rfl
          · simp [htask]
      | some flags =>
          obtain ⟨hwaits, -⟩ := dispatch_granted hflags
          obtain ⟨heq, hat⟩ := h.slot k node hget hwaits
          obtain ⟨i, hi⟩ : ∃ i, node.call = i := ⟨_, rfl⟩
          rw [hi] at heq hat
          subst heq
          have hok := h.call i
          have hmail := h.mail i
          have hσ : stage i = .slot k := by
            cases hσ : stage i <;> rw [hσ] at hat
            case slot k' => rw [Option.some.inj hat]
            case writing k' => exact absurd hσ (h.not_writing hgrant i k')
            all_goals exact nomatch hat
          rw [hσ] at hok hmail
          obtain ⟨hg, hc, hk, ⟨⟨x, hcell⟩, hsem⟩, hplace⟩ := hok
          have haddr : ((s.calls i).node i).returnEventAddr = (s.calls i).result := rfl
          refine ⟨_, Function.update stage i (.writing k), by
            simp only [hflags, hi, haddr, content_eq hcell, Option.bind_eq_bind, Option.bind_some]
            rfl, ?_⟩
          refine h.turn rfl (fun j hij =>
            Keeps.of_owner hij (.inr ⟨_, _, rfl, ?_⟩) (.inl rfl) rfl rfl)
            ⟨hk, hplace, flags, rfl, Function.update_self .., hsem⟩ (fun j _ => ?_) ?_
            (fun k' node hget' hwaits' => ?_) (fun _ _ _ _ => rfl) (fun k' hk' => ?_)
            (fun k' hk' => ⟨f, ?_⟩) (fun j k' _ => h.not_writing hgrant j k') (fun g k' hg => ?_)
          · intro o y hy
            exact (Prod.mk.inj (Option.some.inj (hcell.symm.trans hy))).1.symm
          · rw [hstream]
            rfl
          · rw [hstream] at hmail
            exact hmail
          · by_cases hcall : node.call = i
            · obtain ⟨heq, hat'⟩ := h.slot k' node hget' hwaits'
              rw [hcall] at heq hat'
              exact .inr ⟨heq, hat.symm.trans hat' ▸ rfl⟩
            · exact .inl ⟨hget', hcall⟩
          · rw [← Option.some.inj hk']
            exact hget
          · rw [Stage.writing.inj hk']
          · obtain ⟨rfl, rfl⟩ := EventTask.grant.inj hg
            exact ⟨rfl, flags, hflags⟩

theorem Placed.perform_grant (h : Placed s stage) (hen : s.Enabled .grant) :
    ∃ s' stage', s.perform .grant = some s' ∧ Placed s' stage' := by
  obtain ⟨f, k, htask⟩ := hen
  obtain ⟨i, hσ, flags, hflags⟩ := h.grant f k htask
  have hat : (stage i).at? = some k := by rw [hσ]; rfl
  have hget := h.held i k hat
  have hlt : k < s.event.pEventContainer.length := (List.getElem?_eq_some_iff.mp hget).1
  have hstream : s.stream = s.queue := by rw [stream, htask]
  obtain ⟨-, hfree⟩ := dispatch_granted hflags
  have hok := h.call i
  have hmail := h.mail i
  rw [hσ] at hok hmail
  obtain ⟨hk, hplace, flags', hg, hcell, hsem⟩ := hok
  have hcall : ((s.calls i).node i).call = i := rfl
  have haddr : ((s.calls i).node i).eventSemaphore = some (s.calls i).returnSemaphore := rfl
  refine ⟨_, Function.update stage i .posted, by
    simp only [perform, htask, granted, hget, haddr, hcall, permits_eq hsem, hfree,
      Option.bind_eq_bind, Option.bind_some]
    rfl, ?_⟩
  refine h.turn rfl (fun j hij => Keeps.of_owner hij (.inl rfl) (.inr ⟨_, _, rfl, ?_⟩) rfl rfl)
    ⟨flags', hg, ?_⟩ (fun j _ => ?_) ?_ (fun k' node hget' hwaits => ?_) (fun j k' hij hk' => ?_)
    (fun k' hk' => nomatch hk') (fun k' hk' => nomatch hk') (fun j k' hij hj => ?_)
    (fun g k' hg => nomatch hg)
  · intro o n hn
    exact (Prod.mk.inj (Option.some.inj (hsem.symm.trans hn))).1.symm
  · have hposted := (⟨hk, hcell, Function.update_self ..⟩ : (s.calls i).Kept ∧
      s.cells (s.calls i).result = some (i, flags') ∧
      Function.update s.semaphores (s.calls i).returnSemaphore (some (i, 0 + 1))
        (s.calls i).returnSemaphore = some (i, 1))
    rcases hplace with hplace | hplace | hplace
    all_goals
      show PostedOk _ _ _ _ (s.calls i).place
      rw [hplace]
      exact hposted
  · rw [hstream]
    rfl
  · rw [hstream] at hmail
    exact hmail
  · change (s.event.pEventContainer.set k _)[k']? = some node at hget'
    by_cases hkk : k = k'
    · subst hkk
      rw [List.getElem?_set_self hlt] at hget'
      rw [← Option.some.inj hget'] at hwaits
      exact absurd rfl hwaits
    · rw [List.getElem?_set_ne hkk] at hget'
      refine .inl ⟨hget', ?_⟩
      intro hcall
      have hat' := (h.slot k' node hget' hwaits).2
      rw [hcall, hat] at hat'
      exact hkk (Option.some.inj hat')
  · show (s.event.pEventContainer.set k _)[k']? = _
    apply List.getElem?_set_ne
    rintro rfl
    have hnode := Option.some.inj ((h.held j k hk').symm.trans hget)
    exact hij (congrArg EventNode.call hnode).symm
  · obtain ⟨g, hg'⟩ := h.writing j k' hj
    obtain ⟨-, rfl⟩ := EventTask.grant.inj (htask.symm.trans hg')
    have hnode := Option.some.inj ((h.held j k (by rw [hj]; rfl)).symm.trans hget)
    exact hij (congrArg EventNode.call hnode).symm

/-! ### All steps -/

theorem Placed.perform_serve (h : Placed s stage) (hen : s.Enabled .serve)
    (hslot : s.Slotted .serve) :
    ∃ s' stage', s.perform .serve = some s' ∧ Placed s' stage' := by
  obtain ⟨m, htask⟩ := hen
  have hperform : s.perform .serve = s.served m := by rw [perform, htask]
  rw [hperform]
  cases m with
  | clearEvent f => exact ⟨_, stage, rfl, h.served_signal htask rfl rfl⟩
  | setEvent f => exact ⟨_, stage, rfl, h.served_signal htask rfl rfl⟩
  | waitEvent f mode p sem i => exact h.served_wait htask (hslot rfl f mode p sem i htask)
  | releaseEvent sem i => exact h.served_release htask

theorem Placed.perform_step {a : EventAct} (h : Placed s stage) (hen : s.Enabled a)
    (hslot : s.Slotted a) : ∃ s' stage', s.perform a = some s' ∧ Placed s' stage' := by
  have hsame : (∃ s', s.perform a = some s' ∧ Placed s' stage) →
      ∃ s' stage', s.perform a = some s' ∧ Placed s' stage' :=
    fun ⟨s', hs', hplaced⟩ => ⟨s', stage, hs', hplaced⟩
  cases a with
  | call i f mode p sem x => exact hsame (h.perform_call hen)
  | send i => exact h.perform_send hen
  | «obtain» i => exact hsame (h.perform_obtain hen)
  | timeout i => exact hsame (h.perform_timeout hen)
  | release i => exact hsame (h.perform_release hen)
  | read i => exact hsame (h.perform_read hen)
  | free i => exact hsame (h.perform_free hen)
  | delete i => exact hsame (h.perform_delete hen)
  | setEvent f => exact hsame (h.perform_signal rfl rfl)
  | clearEvent f => exact hsame (h.perform_signal rfl rfl)
  | poll f mode => exact hsame (h.perform_poll hen)
  | receive => exact hsame (h.perform_receive hen)
  | serve => exact h.perform_serve hen hslot
  | dispatch => exact h.perform_dispatch hen
  | grant => exact h.perform_grant hen

/-- A step is no fault, and only a call that does not wait is recorded as one. -/
theorem perform_rest {a : EventAct} (h : s.perform a = some s') :
    s'.fault = s.fault ∧ (s'.polls = s.polls ∨ ∃ f mode, s'.polls = s.polls ++
      [((s.event.waitEventPoll f mode).1, s.event.eventFlag,
        (s.event.waitEventPoll f mode).2)]) := by
  cases a
  case poll f mode =>
    obtain rfl := Option.some.inj h
    exact ⟨rfl, .inr ⟨f, mode, rfl⟩⟩
  case serve =>
    simp only [perform, served] at h
    split at h
    case h_2 => exact nomatch h
    case h_1 m _ =>
      obtain ⟨event, -, h⟩ := Option.bind_eq_some_iff.mp h
      cases m <;> grind [Option.bind_eq_some_iff]
  case dispatch =>
    simp only [perform, dispatched] at h
    grind [Option.bind_eq_some_iff]
  case grant =>
    simp only [perform, granted] at h
    grind [Option.bind_eq_some_iff]
  case receive =>
    simp only [perform, received] at h
    grind
  all_goals
    simp only [perform, setCall] at h
    grind [Option.bind_eq_some_iff]

theorem waitEventPoll_none {e : MSOSEvent} {f : UInt32} {mode : EventWaitMode}
    (h : (e.waitEventPoll f mode).1 = none) : (e.waitEventPoll f mode).2 = e.eventFlag := by
  unfold MSOSEvent.waitEventPoll at h ⊢
  grind

/-- No memory was misused, no call that does not wait lost flags for nothing, and every request
is at its stage. -/
def Sound (s : EventState) : Prop :=
  s.fault = false ∧ (∀ poll ∈ s.polls, poll.1 = none → poll.2.2 = poll.2.1) ∧
    ∃ stage, Placed s stage

/-- In every run in which wait requests find slots. -/
theorem sound (h : eventGroup.Reachable Slotted s) : s.Sound := by
  refine h.invariant (I := Sound) ⟨rfl, List.forall_mem_nil _, fun _ => .unsent, ?_⟩ ?_
  · constructor
    case call => exact fun i => ⟨rfl, rfl, ⟨rfl, rfl⟩, .inl rfl⟩
    case mail => exact fun i => rfl
    case slot =>
      intro k node hget hwaits
      obtain ⟨-, rfl⟩ := List.mem_replicate.mp (List.mem_of_getElem? hget)
      exact absurd rfl hwaits
    case held => exact fun i k hk => nomatch hk
    case writing => exact fun i k hk => nomatch hk
    case grant => exact fun f k hf => nomatch hf
  · rintro s a hen hslot ⟨hfault, hpolls, stage, hplaced⟩
    obtain ⟨s', stage', hs', hplaced'⟩ := hplaced.perform_step hen hslot
    obtain ⟨hfault', hpolls'⟩ := perform_rest hs'
    have hnext : eventGroup.next s a = s' := by
      show s.next a = s'
      rw [next, hs']
      rfl
    rw [hnext]
    refine ⟨hfault'.trans hfault, fun poll hpoll hnone => ?_, stage', hplaced'⟩
    rcases hpolls' with heq | ⟨f, mode, heq⟩
    · exact hpolls poll (heq ▸ hpoll) hnone
    · rw [heq, List.mem_append, List.mem_singleton] at hpoll
      rcases hpoll with hpoll | rfl
      · exact hpolls poll hpoll hnone
      · exact waitEventPoll_none hnone

theorem Timely.slotted {a : EventAct} (h : s.Timely a) : s.Slotted a := by
  rintro rfl
  exact h

theorem reachable_slotted (h : eventGroup.Reachable Timely s) : eventGroup.Reachable Slotted s :=
  h.mono fun _ _ => Timely.slotted

/-- No call that is granted its wait runs out of time. -/
def NotCrossed (c : WaitCall) : Prop := c.granted ≠ none → ¬ c.TimedOut

theorem notCrossed_update {calls : ℕ → WaitCall} (h : ∀ j, NotCrossed (calls j)) (hc : NotCrossed c)
    (j : ℕ) : NotCrossed (Function.update calls i c j) := by
  by_cases hij : j = i
  · rw [hij, Function.update_self]
    exact hc
  · rw [Function.update_of_ne hij]
    exact h j

theorem notCrossed_step {a : EventAct} (h : ∀ j, NotCrossed (s.calls j)) (hen : s.Enabled a)
    (htimely : s.Timely a) (hs' : s.perform a = some s') (j : ℕ) : NotCrossed (s'.calls j) := by
  cases a with
  | call i f mode p sem x =>
      obtain rfl := Option.some.inj hs'
      exact notCrossed_update h (fun hg => absurd rfl hg) j
  | send i =>
      obtain rfl := Option.some.inj hs'
      exact notCrossed_update h (fun _ => by simp [WaitCall.TimedOut]) j
  | «obtain» i =>
      obtain ⟨n, -, hs'⟩ := Option.bind_eq_some_iff.mp hs'
      obtain rfl := Option.some.inj hs'
      exact notCrossed_update h (fun _ => by simp [WaitCall.TimedOut]) j
  | timeout i =>
      obtain ⟨n, -, hs'⟩ := Option.bind_eq_some_iff.mp hs'
      obtain rfl := Option.some.inj hs'
      refine notCrossed_update h ?_ j
      -- a timely call runs out of time only before it is granted anything
      exact fun hg => absurd htimely hg
  | release i =>
      obtain rfl := Option.some.inj hs'
      refine notCrossed_update h ?_ j
      -- it had run out of time already
      exact fun hg _ => h i hg (.inl hen.1)
  | read i =>
      obtain ⟨flags, -, hs'⟩ := Option.bind_eq_some_iff.mp hs'
      obtain rfl := Option.some.inj hs'
      exact notCrossed_update h (fun _ => by simp [WaitCall.TimedOut]) j
  | free i =>
      obtain ⟨f, hplace⟩ := hen
      obtain ⟨flags, -, hs'⟩ := Option.bind_eq_some_iff.mp hs'
      rw [hplace] at hs'
      obtain rfl := Option.some.inj hs'
      exact notCrossed_update h (fun _ => by simp [WaitCall.TimedOut]) j
  | delete i =>
      obtain ⟨f, hplace⟩ := hen
      obtain ⟨n, -, hs'⟩ := Option.bind_eq_some_iff.mp hs'
      rw [hplace] at hs'
      obtain rfl := Option.some.inj hs'
      exact notCrossed_update h (fun _ => by simp [WaitCall.TimedOut]) j
  | setEvent f =>
      obtain rfl := Option.some.inj hs'
      exact h j
  | clearEvent f =>
      obtain rfl := Option.some.inj hs'
      exact h j
  | poll f mode =>
      obtain rfl := Option.some.inj hs'
      exact h j
  | receive =>
      obtain ⟨-, hqueue⟩ := hen
      obtain ⟨m, queue, hq⟩ := List.exists_cons_of_ne_nil hqueue
      rw [perform, received, hq] at hs'
      obtain rfl := Option.some.inj hs'
      exact h j
  | serve =>
      obtain ⟨m, htask⟩ := hen
      rw [perform, htask] at hs'
      obtain ⟨event, -, hs'⟩ := Option.bind_eq_some_iff.mp hs'
      cases m with
      | releaseEvent sem i =>
          dsimp only at hs'
          split at hs'
          · obtain rfl := Option.some.inj hs'
            exact h j
          · obtain ⟨node, -, hs'⟩ := Option.bind_eq_some_iff.mp hs'
            obtain ⟨x, -, hs'⟩ := Option.bind_eq_some_iff.mp hs'
            obtain ⟨n, -, hs'⟩ := Option.bind_eq_some_iff.mp hs'
            obtain rfl := Option.some.inj hs'
            refine notCrossed_update h ?_ j
            exact fun hg => h node.call hg
      | clearEvent f =>
          obtain rfl := Option.some.inj hs'
          exact h j
      | setEvent f =>
          obtain rfl := Option.some.inj hs'
          exact h j
      | waitEvent f mode p sem i =>
          obtain rfl := Option.some.inj hs'
          exact h j
  | dispatch =>
      obtain ⟨f, k, htask⟩ := hen
      rw [perform, htask] at hs'
      dsimp only [dispatched] at hs'
      split at hs'
      · obtain rfl := Option.some.inj hs'
        exact h j
      · next node hget =>
        split at hs'
        · obtain rfl := Option.some.inj hs'
          exact h j
        · next flags hflags =>
          obtain ⟨x, -, hs'⟩ := Option.bind_eq_some_iff.mp hs'
          obtain rfl := Option.some.inj hs'
          -- here the wait is granted, to a call that is still in it
          have hwaits := htimely f k node htask hget
            (by rw [hflags]; exact Option.some_ne_none flags)
          refine notCrossed_update h ?_ j
          exact fun _ => hwaits
  | grant =>
      obtain ⟨f, k, htask⟩ := hen
      rw [perform, htask] at hs'
      obtain ⟨node, -, hs'⟩ := Option.bind_eq_some_iff.mp hs'
      obtain ⟨p, -, hs'⟩ := Option.bind_eq_some_iff.mp hs'
      obtain ⟨n, -, hs'⟩ := Option.bind_eq_some_iff.mp hs'
      obtain rfl := Option.some.inj hs'
      refine notCrossed_update h ?_ j
      exact fun hg => h node.call hg

theorem notCrossed (h : eventGroup.Reachable Timely s) : ∀ i, NotCrossed (s.calls i) := by
  induction h with
  | start => exact fun i hg => absurd rfl hg
  | @step s a h hen htimely ih =>
      obtain ⟨-, -, stage, hplaced⟩ := sound (reachable_slotted h)
      obtain ⟨s', -, hs', -⟩ := hplaced.perform_step hen htimely.slotted
      have hnext : eventGroup.next s a = s' := by
        show s.next a = s'
        rw [next, hs']
        rfl
      rw [hnext]
      exact notCrossed_step ih hen htimely hs'

/-! ### Results -/

/-- A call that returned has its request where it was served, or thrown away, or on its way. -/
theorem CallOk.of_returned {σ : Stage} {flags : Option UInt32} (hok : s.CallOk i c σ)
    (hplace : c.place = .returned flags) : σ ≠ .unsent ∧ (flags ≠ none → σ = .posted) := by
  cases σ
  case unsent =>
    obtain ⟨-, -, -, hstart⟩ := hok
    rcases hstart with hstart | ⟨hstart, -⟩ <;> simp [hstart] at hplace
  case queued =>
    obtain ⟨-, -, -, -, hwaits⟩ := hok
    rcases hwaits with hwaits | hwaits | hwaits <;> simp_all
  case slot =>
    obtain ⟨-, -, -, -, hwaits⟩ := hok
    rcases hwaits with hwaits | hwaits | hwaits <;> simp_all
  case writing =>
    obtain ⟨-, hwaits, -⟩ := hok
    rcases hwaits with hwaits | hwaits | hwaits <;> simp_all
  case posted => exact ⟨Stage.noConfusion, fun _ => rfl⟩
  case lost =>
    have hlost := hok.1
    simp_all
  case removed =>
    have hremoved := hok.2.2.1
    simp_all

theorem Placed.good (h : Placed s stage) (hfault : s.fault = false)
    (hpolls : ∀ poll ∈ s.polls, poll.1 = none → poll.2.2 = poll.2.1)
    (hcrossed : ∀ i, NotCrossed (s.calls i)) : s.Good := by
  have hreturned : ∀ i flags, (s.calls i).place = .returned (some flags) →
      (s.calls i).granted = some flags ∧ (s.calls i).resultFreed = 1 ∧
        (s.calls i).semaphoreFreed = 1 := by
    intro i flags hplace
    have hok := h.call i
    rw [(hok.of_returned hplace).2 (Option.some_ne_none flags)] at hok
    obtain ⟨flags', hg, hposted⟩ := hok
    rw [hplace] at hposted
    obtain ⟨rfl, hfreed⟩ := hposted
    exact ⟨hg, hfreed⟩
  have hrefused : ∀ i, (s.calls i).place = .returned none → (s.calls i).cleared = 0 ∧
      ((s.calls i).releaseMessage i ∉ s.stream →
        (s.calls i).resultFreed = 1 ∧ (s.calls i).semaphoreFreed = 1) := by
    intro i hplace
    have hok := h.call i
    have hnone : (s.calls i).granted = none := by
      by_contra hg
      exact hcrossed i hg (.inr hplace)
    -- until it is handled, the `releaseEvent` is part of the mail of the call
    have hlate : (s.calls i).releaseMessage i ∉ s.stream →
        (s.calls i).releaseMessage i ∉ (s.calls i).mail i (stage i) := by
      intro hnot hmem
      rw [← h.mail i] at hmem
      exact hnot (List.mem_of_mem_filter hmem)
    have hmem : (s.calls i).releaseMessage i ∈ (s.calls i).late i := by
      rw [WaitCall.late, if_pos hplace]
      exact List.mem_singleton_self _
    cases hσ : stage i <;> rw [hσ] at hok hlate
    case unsent => exact absurd rfl (hok.of_returned hplace).1
    case queued => exact ⟨hok.2.1, fun hnot => absurd (List.mem_cons_of_mem _ hmem) (hlate hnot)⟩
    case slot => exact ⟨hok.2.1, fun hnot => absurd hmem (hlate hnot)⟩
    case writing =>
      obtain ⟨-, -, flags, hg, -⟩ := hok
      exact nomatch hg.symm.trans hnone
    case posted =>
      obtain ⟨flags, hg, -⟩ := hok
      exact nomatch hg.symm.trans hnone
    case lost =>
      obtain ⟨-, -, flags, hg, -⟩ := hok
      exact nomatch hg.symm.trans hnone
    case removed => exact ⟨hok.2.1, fun _ => hok.2.2.2⟩
  refine ⟨hfault, fun i hplace => (hrefused i hplace).1, hpolls, fun i flags hplace =>
    (hreturned i flags hplace).1, fun i => ?_, fun i flags hplace => (hreturned i flags hplace).2,
    fun i hplace => (hrefused i hplace).2⟩
  have hok := h.call i
  have hkept : (s.calls i).Kept →
      (s.calls i).resultFreed ≤ 1 ∧ (s.calls i).semaphoreFreed ≤ 1 :=
    fun hk => ⟨hk.1.le.trans zero_le_one, hk.2.le.trans zero_le_one⟩
  cases hσ : stage i <;> rw [hσ] at hok
  case unsent => exact hkept hok.2.2.1
  case queued => exact hkept hok.2.2.1
  case slot => exact hkept hok.2.2.1
  case writing => exact hkept hok.1
  case lost => exact hkept hok.2.1
  case removed => exact ⟨hok.2.2.2.1.le, hok.2.2.2.2.le⟩
  case posted =>
    obtain ⟨flags, -, hposted⟩ := hok
    cases hplace : (s.calls i).place <;> rw [hplace] at hposted
    case start => exact hposted.elim
    case send => exact hposted.elim
    case «obtain» => exact hkept hposted.1
    case release => exact hkept hposted.1
    case read => exact hkept hposted.1
    case free f => exact hkept hposted.2.1
    case delete f => exact ⟨hposted.2.1.le, hposted.2.2.1.le.trans zero_le_one⟩
    case returned f =>
      cases f with
      | none => exact hkept hposted.1
      | some f => exact ⟨hposted.2.1.le, hposted.2.2.le⟩

/-- Nothing frees the memory of a call that ran out of time although it was granted its wait. -/
theorem Placed.leaks (h : Placed s stage) (htimed : (s.calls i).TimedOut)
    (hg : (s.calls i).granted ≠ none) : (s.calls i).Kept := by
  have hok := h.call i
  cases hσ : stage i <;> rw [hσ] at hok
  case unsent => exact absurd hok.1 hg
  case queued => exact absurd hok.1 hg
  case slot => exact absurd hok.1 hg
  case removed => exact absurd hok.1 hg
  case writing => exact hok.1
  case lost => exact hok.2.1
  case posted =>
    obtain ⟨flags, -, hposted⟩ := hok
    rcases htimed with hplace | hplace <;> rw [hplace] at hposted <;> exact hposted.1

/-- While no call that is granted its wait runs out of time, and wait requests find slots, every
call gets what it is promised. The memory of a call for which both happen is never freed. -/
theorem waitEvent_timeout (s : EventState) :
    (eventGroup.Reachable Timely s → s.Good) ∧
      (eventGroup.Reachable Slotted s →
        ∀ i, (s.calls i).TimedOut → (s.calls i).granted ≠ none → (s.calls i).Kept) := by
  constructor
  · intro h
    obtain ⟨hfault, hpolls, stage, hplaced⟩ := sound (reachable_slotted h)
    exact hplaced.good hfault hpolls (notCrossed h)
  · intro h i htimed hg
    obtain ⟨-, -, stage, hplaced⟩ := sound h
    exact hplaced.leaks htimed hg

/-! ### Runs -/

/-- A pass in which nobody waits. -/
theorem reachable_pass {f : UInt32} (hnobody : ∀ node ∈ s.event.pEventContainer, ¬ node.Waits)
    (k : ℕ) (h : eventGroup.Reachable (fun _ _ => True) { s with task := .dispatch f k }) :
    eventGroup.Reachable (fun _ _ => True) { s with task := .receive } := by
  obtain ⟨n, hn⟩ : ∃ n, s.event.pEventContainer.length - k = n := ⟨_, rfl⟩
  induction n generalizing k with
  | zero =>
      have hget : s.event.pEventContainer[k]? = none := List.getElem?_eq_none (by omega)
      have hnext : eventGroup.next { s with task := .dispatch f k } .dispatch =
          { s with task := .receive } := by
        simp [eventGroup, next, perform, dispatched, hget]
      rw [← hnext]
      exact .step h ⟨f, k, rfl⟩ trivial
  | succ n ih =>
      obtain ⟨node, hget⟩ : ∃ node, s.event.pEventContainer[k]? = some node :=
        ⟨_, List.getElem?_eq_getElem (by omega)⟩
      have hfree := hnobody node (List.mem_of_getElem? hget)
      have hnext : eventGroup.next { s with task := .dispatch f k } .dispatch =
          { s with task := .dispatch f (k + 1) } := by
        simp [eventGroup, next, perform, dispatched, hget, EventNode.dispatch, hfree]
      refine ih (k + 1) ?_ (by omega)
      rw [← hnext]
      exact .step h ⟨f, k, rfl⟩ trivial

/-- The request of a call is served, its slot is looked at without its flag, and the call runs
out of time. -/
theorem waitEvent_timeout_served :
    ([.call 0 1 .orClear 100 200 0, .send 0, .receive, .serve, .dispatch, .timeout 0,
      .release 0].foldl next new).Good := by
  have hslot : Timely ([.call 0 1 .orClear 100 200 0, .send 0, .receive].foldl next new) .serve :=
    fun _ _ _ _ _ _ => ⟨_, List.mem_of_getElem? (i := 0) rfl, by decide⟩
  have hpass : Timely
      ([.call 0 1 .orClear 100 200 0, .send 0, .receive, .serve].foldl next new) .dispatch := by
    intro f k node htask hget hgranted
    cases htask
    cases hget
    exact absurd rfl hgranted
  exact (waitEvent_timeout _).1 (StepSystem.Reachable.start.run
    ⟨⟨rfl, rfl, rfl⟩, trivial, ⟨rfl, by decide⟩, trivial, ⟨rfl, by decide⟩, trivial, ⟨_, rfl⟩,
      hslot, ⟨_, _, rfl⟩, hpass, rfl, rfl, ⟨rfl, by decide⟩, trivial, trivial⟩)

/-- A flag is cleared for a call that returns 0: it runs out of time while its request is
queued behind the one that sets the flag. -/
theorem not_good_crossed : ¬ ∀ s, eventGroup.Reachable (fun _ _ => True) s → s.Good := by
  intro h
  have hset : eventGroup.Reachable (fun _ _ => True)
      ([.setEvent 1, .receive, .serve].foldl next new) :=
    StepSystem.Reachable.start.run ⟨show new.Room by decide, trivial, ⟨rfl, by decide⟩, trivial,
      ⟨_, rfl⟩, trivial, trivial⟩
  have hpass : eventGroup.Reachable (fun _ _ => True)
      { [.setEvent 1, .receive, .serve].foldl next new with task := .receive } :=
    reachable_pass (s := [.setEvent 1, .receive, .serve].foldl next new) (by decide) 0 hset
  have hrun : eventGroup.RunOk (fun _ _ => True)
      { [.setEvent 1, .receive, .serve].foldl next new with task := .receive }
      [.call 0 1 .orClear 100 200 0, .send 0, .timeout 0, .receive, .serve, .dispatch, .grant,
        .release 0] :=
    ⟨⟨rfl, rfl, rfl⟩, trivial, ⟨rfl, by decide⟩, trivial, rfl, trivial, ⟨rfl, by decide⟩, trivial,
      ⟨_, rfl⟩, trivial, ⟨_, _, rfl⟩, trivial, ⟨_, _, rfl⟩, trivial, ⟨rfl, by decide⟩, trivial,
      trivial⟩
  have hcrossed := h _ (hpass.run hrun)
  exact absurd (hcrossed.refused 0 rfl) (by decide)

end

end EventState

end PanelTester.MsOS
