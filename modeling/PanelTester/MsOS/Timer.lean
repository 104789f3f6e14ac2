import Mathlib.Tactic

/-!
The timers of `MsOS_timer.c`. `TimerProcess` goes through the list of timers again and again, and
compares the clock with the time at which the next call of each is due, both in 32 bits. Beside
each timer stands what a caller knows of it: when it was started in true time, and how often its
callback was called since. A call comes too early when its due time has passed `2^32` and the
clock has not; `Inv.fits_of_noWrap` says when no call does.
-/

namespace PanelTester.MsOS

/-- `MSOS_timer`; of the callback it matters whether there is one. -/
structure MSOSTimer where
  bStartTimer : Bool
  firstTimeMs : UInt32
  periodTimeMs : UInt32
  pTimerCb : Bool
  initTimeMs : UInt32
  times : UInt32
  deriving DecidableEq

/-- `MsOS_GetSystemTime` at a true time in ms. -/
def getSystemTime (time : ℕ) : UInt32 := UInt32.ofNat time

namespace MSOSTimer

/-- A new timer of `MsOS_CreateTimer`; `stale` is what its memory held before. -/
def create (pTimerCb : Bool) (u32FirstTimeMs u32PeriodTimeMs : UInt32) (bStartTimer : Bool)
    (stale timeNow : UInt32) : MSOSTimer where
  bStartTimer
  firstTimeMs := u32FirstTimeMs
  periodTimeMs := u32PeriodTimeMs
  pTimerCb
  initTimeMs := if bStartTimer then timeNow else stale
  times := 0

/-- What `MsOS_StartTimer` does to the timer it finds. -/
def start (timeNow : UInt32) (t : MSOSTimer) : MSOSTimer :=
  { t with bStartTimer := true, initTimeMs := timeNow, times := 0 }

/-- What `MsOS_StopTimer` does to the timer it finds. -/
def stop (timeNow : UInt32) (t : MSOSTimer) : MSOSTimer :=
  { t with bStartTimer := false, initTimeMs := timeNow, times := 0 }

/-- What `MsOS_ResetTimer` does to the timer it finds. -/
def reset (u32FirstTimeMs u32PeriodTimeMs : UInt32) (bStartTimer : Bool) (timeNow : UInt32)
    (t : MSOSTimer) : MSOSTimer :=
  { t with
    bStartTimer
    firstTimeMs := u32FirstTimeMs
    periodTimeMs := u32PeriodTimeMs
    initTimeMs := timeNow
    times := 0 }

/-- The body of the inner loop of `TimerProcess`: whether the callback is called, and the timer
behind it. -/
def process (t : MSOSTimer) (timeNow : UInt32) : Bool × MSOSTimer :=
  if t.bStartTimer then
    if t.times = 0 then
      if t.initTimeMs + t.firstTimeMs ≤ timeNow then (t.pTimerCb, { t with times := 1 })
      else (false, t)
    else if t.periodTimeMs ≠ 0 then
      if t.initTimeMs + t.firstTimeMs + t.periodTimeMs * t.times ≤ timeNow then
        (t.pTimerCb, { t with times := t.times + 1 })
      else (false, t)
    else (false, t)
  else (false, t)

end MSOSTimer

/-- A timer in the list, with its address. It was started or reset last at the true time `since`,
if it was, and its callback was called `calls` times behind that. -/
structure Tracked where
  pTimer : ℕ
  timer : MSOSTimer
  since : Option ℕ
  calls : ℕ

/-- A call of a callback, with the timer as it was before. -/
structure TimerCall where
  tracked : Tracked
  time : ℕ

namespace Tracked

def create (pTimer : ℕ) (pTimerCb : Bool) (u32FirstTimeMs u32PeriodTimeMs : UInt32)
    (bStartTimer : Bool) (stale : UInt32) (time : ℕ) : Tracked where
  pTimer
  timer := .create pTimerCb u32FirstTimeMs u32PeriodTimeMs bStartTimer stale (getSystemTime time)
  since := if bStartTimer then some time else none
  calls := 0

def start (time : ℕ) (t : Tracked) : Tracked :=
  { t with timer := t.timer.start (getSystemTime time), since := some time, calls := 0 }

def stop (time : ℕ) (t : Tracked) : Tracked :=
  { t with timer := t.timer.stop (getSystemTime time), since := none, calls := 0 }

def reset (u32FirstTimeMs u32PeriodTimeMs : UInt32) (bStartTimer : Bool) (time : ℕ)
    (t : Tracked) : Tracked :=
  { t with
    timer := t.timer.reset u32FirstTimeMs u32PeriodTimeMs bStartTimer (getSystemTime time)
    since := if bStartTimer then some time else none
    calls := 0 }

def process (t : Tracked) (time : ℕ) : Tracked × List TimerCall :=
  match t.timer.process (getSystemTime time) with
  | (true, timer) => ({ t with timer, calls := t.calls + 1 }, [⟨t, time⟩])
  | (false, timer) => ({ t with timer }, [])

end Tracked

/-- The list of timers, and the true time when the clock was read last. -/
structure TimerTask where
  timers : List Tracked
  now : ℕ

/-- What happens to the timers, each at a true time; a scan reads the clock for each timer. -/
inductive TimerAct
  | createTimer (pTimer : Option ℕ) (pTimerCb : Bool) (u32FirstTimeMs u32PeriodTimeMs : UInt32)
      (bStartTimer : Bool) (stale : UInt32) (time : ℕ)
  | deleteTimer (u32TimerId : ℕ)
  | startTimer (u32TimerId time : ℕ)
  | stopTimer (u32TimerId time : ℕ)
  | resetTimer (u32TimerId : ℕ) (u32FirstTimeMs u32PeriodTimeMs : UInt32) (bStartTimer : Bool)
      (time : ℕ)
  | timerProcess (clock : ℕ → ℕ)

/-- The walk of `MsOS_StartTimer`, `MsOS_StopTimer` and `MsOS_ResetTimer`, which ends at the timer
with the id. -/
def modifyTimer (u32TimerId : ℕ) (f : Tracked → Tracked) : List Tracked → List Tracked
  | [] => []
  | pCur :: rest =>
      if pCur.pTimer = u32TimerId then f pCur :: rest else pCur :: modifyTimer u32TimerId f rest

/-- A turn of the outer loop of `TimerProcess`. -/
def scan (clock : ℕ → ℕ) : ℕ → List Tracked → List Tracked × List TimerCall
  | _, [] => ([], [])
  | i, pTimer :: rest =>
      let r := pTimer.process (clock i)
      let rs := scan clock (i + 1) rest
      (r.1 :: rs.1, r.2 ++ rs.2)

namespace TimerTask

/-- `MsOS_TimerInit` -/
def start : TimerTask := ⟨[], 0⟩

/-- The calls of callbacks. -/
def calls (s : TimerTask) : TimerAct → List TimerCall
  | .timerProcess clock => (scan clock 0 s.timers).2
  | _ => []

def next (s : TimerTask) : TimerAct → TimerTask
  | .createTimer pTimer pTimerCb first period bStartTimer stale time =>
      match pTimer with
      | none => { s with now := time }
      | some p =>
          ⟨s.timers ++ [.create p pTimerCb first period bStartTimer stale time], time⟩
  | .deleteTimer u32TimerId => { s with timers := s.timers.eraseP (·.pTimer = u32TimerId) }
  | .startTimer u32TimerId time => ⟨modifyTimer u32TimerId (.start time) s.timers, time⟩
  | .stopTimer u32TimerId time => ⟨modifyTimer u32TimerId (.stop time) s.timers, time⟩
  | .resetTimer u32TimerId first period bStartTimer time =>
      ⟨modifyTimer u32TimerId (.reset first period bStartTimer time) s.timers, time⟩
  | .timerProcess clock => ⟨(scan clock 0 s.timers).1, clock s.timers.length⟩

/-- Time does not go back, and a new timer has an address of its own. -/
def Enabled (s : TimerTask) : TimerAct → Prop
  | .createTimer pTimer _ _ _ _ _ time =>
      s.now ≤ time ∧ ∀ p, pTimer = some p → p ∉ s.timers.map Tracked.pTimer
  | .deleteTimer _ => True
  | .startTimer _ time => s.now ≤ time
  | .stopTimer _ time => s.now ≤ time
  | .resetTimer _ _ _ _ time => s.now ≤ time
  | .timerProcess clock => s.now ≤ clock 0 ∧ Monotone clock

/-! ### The question -/

end TimerTask

namespace Tracked

/-- The timer has a callback that is to be called again, not before `due`. -/
structure Awaits (t : Tracked) (due : ℕ) : Prop where
  callback : t.timer.pTimerCb = true
  again : t.calls = 0 ∨ t.timer.periodTimeMs ≠ 0
  due : ∃ since, t.since = some since ∧
    due = since + t.timer.firstTimeMs.toNat + t.calls * t.timer.periodTimeMs.toNat

end Tracked

/-- A call that a caller may expect: the timer was started, and this call is due. -/
structure TimerCall.Timely (c : TimerCall) : Prop where
  due : ∃ since, c.tracked.since = some since ∧
    since + c.tracked.timer.firstTimeMs.toNat +
      c.tracked.calls * c.tracked.timer.periodTimeMs.toNat ≤ c.time
  once : c.tracked.timer.periodTimeMs = 0 → c.tracked.calls = 0

namespace TimerTask

/-- What is promised: calls are timely, and there is one for each timer at most. -/
def Kept (s : TimerTask) (a : TimerAct) : Prop :=
  ((s.calls a).map (·.tracked.pTimer)).Nodup ∧ ∀ c ∈ s.calls a, c.Timely

/-- A scan meets no timer whose due time is ahead of the clock, but not in 32 bits. -/
def Fits (s : TimerTask) : TimerAct → Prop
  | .timerProcess clock => ∀ i t, s.timers[i]? = some t → ∀ due, t.Awaits due →
      due % 2 ^ 32 ≤ clock i % 2 ^ 32 → due ≤ clock i
  | _ => True

def KeptRun : TimerTask → List TimerAct → Prop
  | _, [] => True
  | s, a :: as => s.Enabled a → s.Kept a ∧ (s.next a).KeptRun as

def FitsRun : TimerTask → List TimerAct → Prop
  | _, [] => True
  | s, a :: as => s.Enabled a → s.Fits a ∧ (s.next a).FitsRun as

end TimerTask

/-! ### One timer -/

/-- The first call and the others are due by the same sum. -/
theorem MSOSTimer.process_eq (t : MSOSTimer) (timeNow : UInt32) :
    t.process timeNow =
      if t.bStartTimer = true ∧ (t.times = 0 ∨ t.periodTimeMs ≠ 0) ∧
          t.initTimeMs + t.firstTimeMs + t.periodTimeMs * t.times ≤ timeNow then
        (t.pTimerCb, { t with times := t.times + 1 })
      else (false, t) := by
  rw [process]
  cases t.bStartTimer with
  | false => rfl
  | true =>
      rcases eq_or_ne t.times 0 with hzero | hnonzero
      · simp only [hzero, UInt32.mul_zero, UInt32.add_zero, UInt32.zero_add, if_true, true_and,
          true_or]
      · simp only [hnonzero, if_true, if_false, true_and, false_or]
        rcases eq_or_ne t.periodTimeMs 0 with hperiod | hperiod
        · simp only [hperiod, ne_eq, not_true, if_false, false_and]
        · simp only [hperiod, ne_eq, not_false_eq_true, if_true, true_and]

namespace Tracked

/-- What a timer and what is known of it have in common. -/
structure Inv (t : Tracked) (now : ℕ) : Prop where
  started : t.timer.bStartTimer = t.since.isSome
  init : ∀ since, t.since = some since →
    t.timer.initTimeMs = getSystemTime since ∧ since ≤ now
  times : t.timer.pTimerCb = true → t.timer.times = UInt32.ofNat t.calls
  once : t.timer.periodTimeMs = 0 → t.calls ≤ 1

namespace Inv

variable {t : Tracked} {now : ℕ}

theorem mono {later : ℕ} (h : t.Inv now) (hle : now ≤ later) : t.Inv later where
  started := h.started
  init since hsince := ⟨(h.init since hsince).1, (h.init since hsince).2.trans hle⟩
  times := h.times
  once := h.once

/-- A timer that is not repeated counts its one call. -/
theorem again_iff (h : t.Inv now) (hcb : t.timer.pTimerCb = true) :
    t.timer.times = 0 ∨ t.timer.periodTimeMs ≠ 0 ↔ t.calls = 0 ∨ t.timer.periodTimeMs ≠ 0 := by
  rcases eq_or_ne t.timer.periodTimeMs 0 with hperiod | hperiod
  · rw [h.times hcb]
    rcases Nat.le_one_iff_eq_zero_or_eq_one.mp (h.once hperiod) with hcalls | hcalls
    · rw [hcalls]
      exact iff_of_true (.inl rfl) (.inl rfl)
    · rw [hcalls, hperiod]
      exact iff_of_false (by decide) (by decide)
  · exact iff_of_true (.inr hperiod) (.inr hperiod)

/-- The callback is called when the next call is due in 32 bits. -/
theorem called_iff (h : t.Inv now) (time : ℕ) :
    (t.timer.process (getSystemTime time)).1 = true ↔
      ∃ due, t.Awaits due ∧ due % 2 ^ 32 ≤ time % 2 ^ 32 := by
  have hsum : ∀ since, t.since = some since → t.timer.pTimerCb = true →
      (t.timer.initTimeMs + t.timer.firstTimeMs + t.timer.periodTimeMs * t.timer.times ≤
          getSystemTime time ↔
        (since + t.timer.firstTimeMs.toNat + t.calls * t.timer.periodTimeMs.toNat) % 2 ^ 32 ≤
          time % 2 ^ 32) := by
    intro since hsince hcb
    have hwords : t.timer.initTimeMs + t.timer.firstTimeMs +
        t.timer.periodTimeMs * t.timer.times = UInt32.ofNat
          (since + t.timer.firstTimeMs.toNat + t.calls * t.timer.periodTimeMs.toNat) := by
      rw [(h.init since hsince).1, h.times hcb, getSystemTime, UInt32.ofNat_add, UInt32.ofNat_add,
        UInt32.ofNat_mul, UInt32.ofNat_toNat, UInt32.ofNat_toNat, UInt32.mul_comm]
    rw [hwords, getSystemTime, UInt32.le_iff_toNat_le, UInt32.toNat_ofNat', UInt32.toNat_ofNat']
  rw [MSOSTimer.process_eq]
  constructor
  · intro hcalled
    split at hcalled
    · rename_i hdue
      obtain ⟨hstart, hagain, hle⟩ := hdue
      rw [h.started, Option.isSome_iff_exists] at hstart
      obtain ⟨since, hsince⟩ := hstart
      exact ⟨_, ⟨hcalled, (h.again_iff hcalled).mp hagain, since, hsince, rfl⟩,
        (hsum since hsince hcalled).mp hle⟩
    · exact absurd hcalled Bool.false_ne_true
  · rintro ⟨due, ⟨hcb, hagain, since, hsince, rfl⟩, hle⟩
    have hstart : t.timer.bStartTimer = true := by rw [h.started, hsince, Option.isSome_some]
    rw [if_pos ⟨hstart, (h.again_iff hcb).mpr hagain, (hsum since hsince hcb).mpr hle⟩]
    exact hcb

theorem process (h : t.Inv now) (time : ℕ) : (t.process time).1.Inv now := by
  have hcalled := h.called_iff time
  rw [Tracked.process]
  rw [MSOSTimer.process_eq] at hcalled ⊢
  split
  · rename_i timer hrun
    obtain ⟨due, ⟨hcb, hagain, -⟩, -⟩ := hcalled.mp (congrArg Prod.fst hrun)
    split at hrun
    · obtain rfl := (Prod.mk.inj hrun).2
      refine ⟨h.started, h.init, ?_, ?_⟩
      · intro hcb
        show t.timer.times + 1 = UInt32.ofNat (t.calls + 1)
        rw [h.times hcb, UInt32.ofNat_add]
        rfl
      · intro hperiod
        have hzero : t.calls = 0 := hagain.resolve_right fun hne => hne hperiod
        show t.calls + 1 ≤ 1
        rw [hzero]
    · exact absurd (Prod.mk.inj hrun).1 Bool.noConfusion
  · rename_i timer hrun
    split at hrun
    · obtain ⟨hcb, rfl⟩ := Prod.mk.inj hrun
      refine ⟨h.started, h.init, ?_, h.once⟩
      exact fun htrue => absurd (htrue.symm.trans hcb) Bool.noConfusion
    · obtain rfl := (Prod.mk.inj hrun).2
      exact ⟨h.started, h.init, h.times, h.once⟩

/-- A call is timely when the due time that was met in 32 bits was met. -/
theorem timely_iff (h : t.Inv now) (time : ℕ) :
    (∀ c ∈ (t.process time).2, c.Timely) ↔
      ∀ due, t.Awaits due → due % 2 ^ 32 ≤ time % 2 ^ 32 → due ≤ time := by
  have hcalled := h.called_iff time
  have hcalls : (t.process time).2 =
      if (t.timer.process (getSystemTime time)).1 = true then [⟨t, time⟩] else [] := by
    rw [Tracked.process]
    rcases t.timer.process (getSystemTime time) with ⟨_ | _, timer⟩ <;> rfl
  rw [hcalls]
  constructor
  · intro htimely due hawaits hle
    rw [if_pos (hcalled.mpr ⟨due, hawaits, hle⟩), List.forall_mem_singleton] at htimely
    obtain ⟨since, hsince, hdue⟩ := htimely.due
    obtain ⟨since', hsince', rfl⟩ := hawaits.due
    obtain rfl := Option.some.inj (hsince.symm.trans hsince')
    exact hdue
  · intro hfits c hc
    split at hc
    · rename_i hyes
      obtain ⟨due, hawaits, hle⟩ := hcalled.mp hyes
      obtain rfl := List.mem_singleton.mp hc
      obtain ⟨since, hsince, hdue⟩ := hawaits.due
      refine ⟨⟨since, hsince, ?_⟩, ?_⟩
      · rw [← hdue]
        exact hfits due hawaits hle
      · intro hperiod
        exact hawaits.again.resolve_right fun hne => hne hperiod
    · exact absurd hc List.not_mem_nil

/-- As long as the due time stays below `2^32` from where the clock began to count, no call is
early. -/
theorem le_of_noWrap (h : t.Inv now) {time due : ℕ} (hnow : now ≤ time) (hawaits : t.Awaits due)
    (hsmall : ∀ since, t.since = some since → due < since - since % 2 ^ 32 + 2 ^ 32)
    (hle : due % 2 ^ 32 ≤ time % 2 ^ 32) : due ≤ time := by
  obtain ⟨since, hsince, hdue⟩ := hawaits.due
  have hlt := hsmall since hsince
  have hbefore := (h.init since hsince).2
  omega

/-- A timer that was started just now or is stopped. -/
theorem fresh {time : ℕ} (hstarted : t.timer.bStartTimer = t.since.isSome)
    (hinit : ∀ since, t.since = some since →
      since = time ∧ t.timer.initTimeMs = getSystemTime time)
    (htimes : t.timer.times = 0) (hcalls : t.calls = 0) : t.Inv time where
  started := hstarted
  init since hsince := by
    obtain ⟨rfl, hclock⟩ := hinit since hsince
    exact ⟨hclock, le_rfl⟩
  times _ := by rw [htimes, hcalls]; rfl
  once _ := by rw [hcalls]; exact Nat.zero_le 1

theorem create (pTimer : ℕ) (pTimerCb : Bool) (first period : UInt32) (bStartTimer : Bool)
    (stale : UInt32) (time : ℕ) :
    (Tracked.create pTimer pTimerCb first period bStartTimer stale time).Inv time := by
  apply fresh _ _ rfl rfl
  · cases bStartTimer <;> rfl
  · intro since hsince
    obtain ⟨rfl, hsince⟩ := Option.ite_none_right_eq_some.mp hsince
    exact ⟨(Option.some.inj hsince).symm, rfl⟩

theorem start (t : Tracked) (time : ℕ) : (t.start time).Inv time := by
  apply fresh rfl _ rfl rfl
  intro since hsince
  exact ⟨(Option.some.inj hsince).symm, rfl⟩

theorem stop (t : Tracked) (time : ℕ) : (t.stop time).Inv time := by
  apply fresh rfl _ rfl rfl
  intro since hsince
  exact absurd hsince.symm (Option.some_ne_none since)

theorem reset (t : Tracked) (first period : UInt32) (bStartTimer : Bool) (time : ℕ) :
    (t.reset first period bStartTimer time).Inv time := by
  apply fresh _ _ rfl rfl
  · cases bStartTimer <;> rfl
  · intro since hsince
    obtain ⟨-, hsince⟩ := Option.ite_none_right_eq_some.mp hsince
    exact ⟨(Option.some.inj hsince).symm, rfl⟩

end Inv

end Tracked

/-! ### The list -/

section

variable {u32TimerId : ℕ} {f : Tracked → Tracked} {clock : ℕ → ℕ}

theorem map_pTimer_modifyTimer (hf : ∀ t, (f t).pTimer = t.pTimer) (l : List Tracked) :
    (modifyTimer u32TimerId f l).map Tracked.pTimer = l.map Tracked.pTimer := by
  induction l with
  | nil => rfl
  | cons t l ih =>
      rw [modifyTimer]
      split_ifs
      · rw [List.map_cons, hf, List.map_cons]
      · rw [List.map_cons, ih, List.map_cons]

theorem mem_modifyTimer {l : List Tracked} {t : Tracked} (h : t ∈ modifyTimer u32TimerId f l) :
    t ∈ l ∨ ∃ u ∈ l, t = f u := by
  induction l with
  | nil => exact .inl h
  | cons u l ih =>
      rw [modifyTimer] at h
      split_ifs at h
      · rcases List.mem_cons.mp h with rfl | h
        · exact .inr ⟨u, List.mem_cons_self, rfl⟩
        · exact .inl (List.mem_cons_of_mem u h)
      · rcases List.mem_cons.mp h with rfl | h
        · exact .inl List.mem_cons_self
        · rcases ih h with h | ⟨v, hv, rfl⟩
          · exact .inl (List.mem_cons_of_mem u h)
          · exact .inr ⟨v, List.mem_cons_of_mem u hv, rfl⟩

theorem pTimer_process (t : Tracked) (time : ℕ) : (t.process time).1.pTimer = t.pTimer := by
  rw [Tracked.process]
  split <;> rfl

theorem map_pTimer_scan (i : ℕ) (l : List Tracked) :
    (scan clock i l).1.map Tracked.pTimer = l.map Tracked.pTimer := by
  induction l generalizing i with
  | nil => rfl
  | cons t l ih => rw [scan, List.map_cons, pTimer_process, ih, List.map_cons]

theorem mem_scan {i : ℕ} {l : List Tracked} {t : Tracked} (h : t ∈ (scan clock i l).1) :
    ∃ u ∈ l, ∃ time, t = (u.process time).1 := by
  induction l generalizing i with
  | nil => exact absurd h List.not_mem_nil
  | cons u l ih =>
      rcases List.mem_cons.mp h with rfl | h
      · exact ⟨u, List.mem_cons_self, clock i, rfl⟩
      · obtain ⟨v, hv, time, rfl⟩ := ih h
        exact ⟨v, List.mem_cons_of_mem u hv, time, rfl⟩

/-- The calls are those of the timers, each at its own reading of the clock. -/
theorem forall_calls_iff {P : TimerCall → Prop} (i : ℕ) (l : List Tracked) :
    (∀ c ∈ (scan clock i l).2, P c) ↔
      ∀ (j : ℕ) (t : Tracked), l[j]? = some t →
        ∀ c ∈ (t.process (clock (i + j))).2, P c := by
  induction l generalizing i with
  | nil => simp [scan]
  | cons u l ih =>
      rw [scan, List.forall_mem_append, ih]
      constructor
      · rintro ⟨hfirst, hrest⟩ j t hj
        cases j with
        | zero =>
            obtain rfl := Option.some.inj hj
            exact hfirst
        | succ j =>
            rw [← Nat.add_assoc, Nat.add_right_comm]
            exact hrest j t hj
      · intro h
        refine ⟨h 0 u rfl, ?_⟩
        intro j t hj
        rw [Nat.add_right_comm, Nat.add_assoc]
        exact h (j + 1) t hj

/-- A timer is called once at most. -/
theorem calls_sublist (i : ℕ) (l : List Tracked) :
    ((scan clock i l).2.map (·.tracked.pTimer)).Sublist (l.map Tracked.pTimer) := by
  induction l generalizing i with
  | nil => exact List.Sublist.refl _
  | cons t l ih =>
      rw [scan, List.map_append, List.map_cons, ← List.singleton_append]
      apply List.Sublist.append _ (ih (i + 1))
      rw [Tracked.process]
      split
      · exact List.Sublist.refl _
      · exact List.nil_sublist _

end

/-! ### The runs -/

namespace TimerTask

structure Inv (s : TimerTask) : Prop where
  timers : ∀ t ∈ s.timers, t.Inv s.now
  nodup : (s.timers.map Tracked.pTimer).Nodup

namespace Inv

variable {s : TimerTask}

theorem modifyTimer (h : s.Inv) {time : ℕ} (hle : s.now ≤ time) (u32TimerId : ℕ)
    {f : Tracked → Tracked} (hf : ∀ t, (f t).pTimer = t.pTimer) (hinv : ∀ t, (f t).Inv time) :
    Inv ⟨modifyTimer u32TimerId f s.timers, time⟩ := by
  refine ⟨?_, ?_⟩
  · intro t ht
    rcases mem_modifyTimer ht with ht | ⟨u, -, rfl⟩
    · exact (h.timers t ht).mono hle
    · exact hinv u
  · rw [map_pTimer_modifyTimer hf]
    exact h.nodup

theorem next (h : s.Inv) {a : TimerAct} (henabled : s.Enabled a) : (s.next a).Inv := by
  cases a with
  | createTimer pTimer pTimerCb first period bStartTimer stale time =>
      obtain ⟨hle, hfresh⟩ := henabled
      cases pTimer with
      | none => exact ⟨fun t ht => (h.timers t ht).mono hle, h.nodup⟩
      | some p =>
          refine ⟨?_, ?_⟩
          · intro t ht
            rcases List.mem_append.mp ht with ht | ht
            · exact (h.timers t ht).mono hle
            · obtain rfl := List.mem_singleton.mp ht
              exact .create p pTimerCb first period bStartTimer stale time
          · show ((s.timers ++ [_]).map Tracked.pTimer).Nodup
            rw [List.map_append, List.map_singleton]
            apply List.nodup_append.mpr
            refine ⟨h.nodup, List.nodup_singleton _, ?_⟩
            rintro q hq p' hp' rfl
            obtain rfl := List.mem_singleton.mp hp'
            exact hfresh _ rfl hq
  | deleteTimer u32TimerId =>
      refine ⟨?_, ?_⟩
      · intro t ht
        exact h.timers t (List.mem_of_mem_eraseP ht)
      · exact h.nodup.sublist (List.eraseP_sublist.map Tracked.pTimer)
  | startTimer u32TimerId time => exact h.modifyTimer henabled _ (fun _ => rfl) fun t => .start t _
  | stopTimer u32TimerId time => exact h.modifyTimer henabled _ (fun _ => rfl) fun t => .stop t _
  | resetTimer u32TimerId first period bStartTimer time =>
      exact h.modifyTimer henabled _ (fun _ => rfl) fun t => .reset t _ _ _ _
  | timerProcess clock =>
      obtain ⟨hle, hmono⟩ := henabled
      refine ⟨?_, ?_⟩
      · intro t ht
        obtain ⟨u, hu, time, rfl⟩ := mem_scan ht
        exact ((h.timers u hu).process time).mono (hle.trans (hmono (Nat.zero_le _)))
      · show ((scan clock 0 s.timers).1.map Tracked.pTimer).Nodup
        rw [map_pTimer_scan]
        exact h.nodup

/-- A scan is in order as long as no due time passes a multiple of `2^32`, counted from the start
of its timer. -/
theorem fits_of_noWrap (h : s.Inv) {clock : ℕ → ℕ} (henabled : s.Enabled (.timerProcess clock))
    (hsmall : ∀ t ∈ s.timers, ∀ due since, t.Awaits due → t.since = some since →
      due < since - since % 2 ^ 32 + 2 ^ 32) :
    s.Fits (.timerProcess clock) := by
  intro i t ht due hawaits hle
  have hmem := List.mem_of_getElem? ht
  have hnow : s.now ≤ clock i := henabled.1.trans (henabled.2 (Nat.zero_le i))
  exact (h.timers t hmem).le_of_noWrap hnow hawaits (fun since => hsmall t hmem due since hawaits)
    hle

theorem kept_iff (h : s.Inv) (a : TimerAct) : s.Kept a ↔ s.Fits a := by
  cases a with
  | timerProcess clock =>
      rw [Kept, calls, forall_calls_iff, Fits]
      rw [and_iff_right (h.nodup.sublist (calls_sublist 0 s.timers))]
      apply forall_congr'
      intro i
      apply forall_congr'
      intro t
      apply imp_congr_right
      intro ht
      rw [Nat.zero_add]
      exact (h.timers t (List.mem_of_getElem? ht)).timely_iff (clock i)
  | _ => exact iff_of_true ⟨List.nodup_nil, fun c hc => absurd hc List.not_mem_nil⟩ trivial

end Inv

theorem keptRun_iff_of_inv {s : TimerTask} (h : s.Inv) (acts : List TimerAct) :
    s.KeptRun acts ↔ s.FitsRun acts := by
  induction acts generalizing s with
  | nil => exact Iff.rfl
  | cons a as ih =>
      rw [KeptRun, FitsRun]
      apply imp_congr_right
      intro henabled
      rw [h.kept_iff, ih (h.next henabled)]

theorem start_inv : start.Inv := ⟨fun _ ht => absurd ht List.not_mem_nil, List.nodup_nil⟩

theorem timers_keptRun_iff (acts : List TimerAct) : start.KeptRun acts ↔ start.FitsRun acts :=
  keptRun_iff_of_inv start_inv acts

/-- A timer of ten milliseconds that is started six milliseconds before the clock wraps. -/
theorem not_keptRun_wrap :
    ¬ start.KeptRun [.createTimer (some 1) true 10 0 true 0 4294967290,
      .timerProcess fun _ => 4294967291] := by
  intro h
  have hfits := (keptRun_iff_of_inv start_inv _).mp h
  have hfresh : ∀ p, some 1 = some p → p ∉ start.timers.map Tracked.pTimer :=
    fun p _ => List.not_mem_nil
  obtain ⟨-, hfits⟩ := hfits ⟨Nat.zero_le _, hfresh⟩
  obtain ⟨hfits, -⟩ := hfits ⟨Nat.le_succ _, monotone_const⟩
  have hle := hfits 0 _ rfl 4294967300 ⟨rfl, .inl rfl, _, rfl, rfl⟩ (by decide)
  exact absurd hle (by decide)

end TimerTask

end PanelTester.MsOS
