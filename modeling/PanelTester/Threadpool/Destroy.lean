import PanelTester.Threadpool.Accounting

/-!
The pool after `threadpool_destroy`. Workers are joined before the mutex is destroyed; calls
of `threadpool_add_job` are woken up, and nothing waits for them. `destroy_safe_iff` says for
which states at the call of `threadpool_destroy` every order of the steps to come is safe.
-/

namespace PanelTester.Threadpool

open Library Relation

section

variable {n max : ℕ} {s s' : System} {p : Pool} {l : List (ℕ × Job)} {i k : ℕ}

/-! ### Steps of workers and of the thread that destroys the pool -/

/-- What a step does not touch. -/
structure Own (s s' : System) : Prop where
  adders : s'.adders = s.adders
  fault : s'.fault = s.fault

theorem Own.trans {s'' : System} (h : Own s s') (h' : Own s' s'') : Own s s'' :=
  ⟨h'.adders.trans h.adders, h'.fault.trans h.fault⟩

theorem Inv.runJob_eq {pjob : Option ℕ} (h : Inv n max s l) (hi : s.workers i = .run pjob) :
    ∃ a v, s.runJob i pjob = { s with
      jobs := s.jobs.free a
      workers := Function.update s.workers i .lock
      history := { s.history with ran := s.history.ran ++ [(i, v)] } } := by
  obtain ⟨a, c, rfl, hread, -⟩ := h.runJob hi
  exact ⟨a, c.val, by simp only [System.runJob, hread]⟩

theorem Inv.own_workMove (h : Inv n max s l) (hmove : WorkMove i s s') :
    Own s s' ∧ s'.destroyer = s.destroyer := by
  cases hmove with
  | @work p hp hm hi =>
      rw [System.work]
      split
      case isTrue => exact ⟨⟨rfl, rfl⟩, rfl⟩
      case isFalse hwait =>
        split
        case isTrue => exact ⟨⟨rfl, rfl⟩, rfl⟩
        case isFalse hclose =>
          have hcount := (h.pool p hp).count
          cases l with
          | nil => exact absurd ⟨hcount, hclose⟩ hwait
          | cons c l =>
              obtain ⟨p', heq, -⟩ := (h.pool p hp).take (a := c.1) (v := c.2) (i := i)
              rw [heq]
              exact ⟨⟨rfl, rfl⟩, rfl⟩
  | run hi =>
      obtain ⟨a, v, heq⟩ := h.runJob_eq hi
      rw [heq]
      exact ⟨⟨rfl, rfl⟩, rfl⟩
  | fault hi hgone =>
      have hlive := (h.closing.not_destroyed (ne_exited_of_locks hi)).2
      rw [h.destroyed hgone] at hlive
      exact absurd hlive.symm Bool.false_ne_true

theorem own_close (s : System) (p : Pool) (closedAt : Option ℕ) :
    Own s (System.close { s with history := { s.history with closedAt := closedAt } } p) := by
  rw [System.close]
  split <;> exact ⟨rfl, rfl⟩

theorem Inv.own_destroyMove (h : Inv n max s l) (hmove : DestroyMove s s') : Own s s' := by
  cases hmove with
  | lock hp hm hd =>
      rw [System.destroyLock]
      split
      · exact ⟨rfl, rfl⟩
      · exact own_close s _ _
  | wake hp hm hd => exact own_close s _ s.history.closedAt
  | notEmpty | notFull | join | joined | mutex | free => exact ⟨rfl, rfl⟩
  | freeJob hp hd ha hc =>
    exact absurd ((h.head_of_free hp hd).symm.trans ha).symm (Option.some_ne_none _)
  | freeFault hp hd ha hc =>
      exact absurd ((h.head_of_free hp hd).symm.trans ha).symm (Option.some_ne_none _)
  | lockFault hd hgone =>
      have hdestroyed := h.destroyed hgone
      generalize s.destroyer = d at hd hdestroyed
      cases d <;> simp [Destroyer.locks, Destroyer.destroyed] at hd hdestroyed
  | fault hd hp =>
      rw [h.noPool.mp hp] at hd
      exact absurd hd Bool.false_ne_true

/-! ### Safe orders -/

/-- With no call inside, nothing is used after the end. -/
theorem Inv.safe_of_out (h : Inv n max s l) (hfault : s.fault = false)
    (hout : ∀ k, s.adders k = .out) (hmoves : ReflTransGen Move s s') : s'.fault = false := by
  have hrun : (∃ l, Inv n max s' l) ∧ s'.adders = s.adders ∧ s'.fault = false := by
    induction hmoves with
    | refl => exact ⟨⟨l, h⟩, rfl, hfault⟩
    | tail _ hmove ih =>
        obtain ⟨⟨l', h'⟩, hadders, hfault'⟩ := ih
        refine ⟨h'.move hmove, ?_⟩
        cases hmove with
        | @add k _ _ hmove =>
            have hnone : (s.adders k).job = none := by rw [hout k]; rfl
            rw [← hadders] at hnone
            cases hmove with
            | add hp hm hk => exact nomatch hnone.symm.trans hk
            | fault hk hgone => exact nomatch hnone.symm.trans hk
        | work hmove =>
            have hown := (h'.own_workMove hmove).1
            exact ⟨hown.adders.trans hadders, hown.fault.trans hfault'⟩
        | destroy hmove =>
            have hown := h'.own_destroyMove hmove
            exact ⟨hown.adders.trans hadders, hown.fault.trans hfault'⟩
  exact hrun.2.2

/-- The thread that destroys the pool waits for jobs that are left. -/
theorem Inv.destroyMove_left (h : Inv n max s l) (hl : l ≠ []) (hd : s.destroyer.locks = true)
    (hmove : DestroyMove s s') : s'.destroyer.locks = true := by
  have hcount : ∀ p, s.pool = some p → p.queueCurNum ≠ 0 := fun p hp => by
    have := List.length_pos_iff.mpr hl
    rw [(h.pool p hp).count]
    omega
  have hnot : ∀ d, s.destroyer = d → d.locks = true := fun d heq => heq ▸ hd
  cases hmove with
  | lock hp hm hlock =>
      have hpool := h.pool _ hp
      rw [System.destroyLock, hpool.queueClose, hpool.poolClose, hlock,
        if_neg (by exact Bool.false_ne_true), System.close, if_pos (hcount _ hp)]
      rfl
  | wake hp hm hwait =>
      rw [System.close, if_pos (hcount _ hp)]
      rfl
  | lockFault => exact hd
  | notEmpty hp h' => exact absurd (hnot _ h') Bool.false_ne_true
  | notFull hp h' => exact absurd (hnot _ h') Bool.false_ne_true
  | join hp h' => exact absurd (hnot _ h') Bool.false_ne_true
  | joined hp h' => exact absurd (hnot _ h') Bool.false_ne_true
  | mutex hp h' => exact absurd (hnot _ h') Bool.false_ne_true
  | freeJob hp h' => exact absurd (hnot _ h') Bool.false_ne_true
  | freeFault hp h' => exact absurd (hnot _ h') Bool.false_ne_true
  | free hp h' => exact absurd (hnot _ h') Bool.false_ne_true
  | fault h' =>
      generalize s.destroyer = d at hd h'
      cases d <;> simp [Destroyer.locks, Destroyer.uses] at hd h'

/-- The section of a call, on a pool that is there. -/
theorem Inv.add_eq {memory : Bool} {job : Job} (h : Inv n max s l) (hp : s.pool = some p) :
    (s.add p k job memory).fault = s.fault ∧ (s.add p k job memory).destroyer = s.destroyer := by
  rw [System.add]
  split
  case isTrue => exact ⟨rfl, rfl⟩
  case isFalse hfull =>
    split
    case isTrue => exact ⟨rfl, rfl⟩
    case isFalse hopen =>
      split
      · have hlength : l.length < max := by
          have hpool := h.pool p hp
          have := hpool.count
          have := hpool.bound
          have := hpool.queueMaxNum
          have : p.queueCurNum ≠ p.queueMaxNum := fun heq => hfull ⟨heq, hopen⟩
          omega
        obtain ⟨jobs, p', heq, -⟩ : ∃ jobs p', s.link p job =
            { s with jobs := jobs, pool := some p' } ∧ _ := (h.pool p hp).link hlength
        rw [heq]
        exact ⟨rfl, rfl⟩
      · exact ⟨rfl, rfl⟩

/-- Without a worker, a job that is on the list stays there, and the pool too. -/
theorem Inv.safe_of_left (h : Inv 0 max s l) (hfault : s.fault = false)
    (hd : s.destroyer.locks = true) (hl : l ≠ []) (hmoves : ReflTransGen Move s s') :
    s'.fault = false := by
  have hrun : (∃ l, l ≠ [] ∧ Inv 0 max s' l) ∧ s'.destroyer.locks = true ∧ s'.fault = false := by
    induction hmoves with
    | refl => exact ⟨⟨l, hl, h⟩, hd, hfault⟩
    | @tail s₁ _ _ hmove ih =>
        obtain ⟨⟨l', hl', h'⟩, hd', hfault'⟩ := ih
        have hlive : s₁.destroyer.destroyed = false := by
          generalize s₁.destroyer = d at hd'
          cases d <;> first | rfl | exact nomatch hd'
        cases hmove with
        | add hmove =>
            obtain ⟨l'', hprefix, h''⟩ := h'.addMove hmove
            refine ⟨⟨l'', fun hnil => hl' (List.prefix_nil.mp (hnil ▸ hprefix)), h''⟩, ?_⟩
            cases hmove with
            | add hp hm hk =>
                obtain ⟨hsame, hdestroyer⟩ := h'.add_eq hp
                exact ⟨hdestroyer ▸ hd', hsame.trans hfault'⟩
            | fault hk hgone => exact nomatch hlive.symm.trans (h'.destroyed hgone)
        | @work i _ _ hmove =>
            have hexited := h'.closing.outside i (Nat.zero_le i)
            cases hmove with
            | work hp hm hi => exact nomatch (hexited ▸ hi)
            | run hi => exact nomatch hexited.symm.trans hi
            | fault hi hgone => exact nomatch (hexited ▸ hi)
        | destroy hmove =>
            exact ⟨⟨l', hl', h'.destroyMove hmove⟩, h'.destroyMove_left hl' hd' hmove,
              (h'.own_destroyMove hmove).fault.trans hfault'⟩
  exact hrun.2.2

end

/-! ### An order that is not safe -/

section

variable {n max : ℕ} {s : System} {p : Pool} {l : List (ℕ × Job)} {i k : ℕ}

/-- Steps to a state with an empty list, the calls that add jobs staying where they are. -/
def Leads (n max : ℕ) (s : System) (d : Destroyer) (workers : (ℕ → Worker) → Prop) : Prop :=
  ∃ s', ReflTransGen Move s s' ∧ Inv n max s' [] ∧ s'.adders = s.adders ∧ s'.destroyer = d ∧
    workers s'.workers

theorem Leads.trans {d d' : Destroyer} {P Q : (ℕ → Worker) → Prop} (h : Leads n max s d P)
    (h' : ∀ s, Inv n max s [] → s.destroyer = d → P s.workers → Leads n max s d' Q) :
    Leads n max s d' Q := by
  obtain ⟨s₁, hmoves₁, h₁, ha₁, hd₁, hw₁⟩ := h
  obtain ⟨s₂, hmoves₂, h₂, ha₂, hd₂, hw₂⟩ := h' s₁ h₁ hd₁ hw₁
  exact ⟨s₂, hmoves₁.trans hmoves₂, h₂, ha₂.trans ha₁, hd₂, hw₂⟩

theorem Inv.exists_pool (h : Inv n max s l) (hd : s.destroyer ≠ .returned) :
    ∃ p, s.pool = some p :=
  Option.ne_none_iff_exists'.mp fun hnone => hd (h.noPool.mp hnone)

/-- One step of the thread that destroys the pool. -/
theorem Inv.leads_destroyMove {s' : System} {d : Destroyer} (h : Inv n max s [])
    (hmove : DestroyMove s s') (hd : s'.destroyer = d) (hworkers : s'.workers = s.workers) :
    Leads n max s d (· = s.workers) :=
  ⟨s', .single (.destroy hmove), h.destroyMove hmove,
    (h.own_destroyMove hmove).adders, hd, hworkers⟩

theorem signalled_moves {s' : System} (h : ReflTransGen (Signalled i) s s') :
    ReflTransGen Move s s' :=
  ReflTransGen.mono (fun _ _ hstep => .work hstep.1) _ _ h

/-- The workers that there are take what is left, and the pool is closed. -/
theorem Inv.leads_notEmpty (h : Inv n max s l) (hd : s.destroyer = .lock) (hn : 0 < n ∨ l = []) :
    Leads n max s .notEmpty fun _ => True := by
  obtain ⟨p, hp⟩ := h.exists_pool (by simp [hd])
  have hpool := h.pool p hp
  have hopen : ¬ ((p.queueClose || p.poolClose) = true) := by
    rw [hpool.queueClose, hpool.poolClose, hd]
    exact Bool.false_ne_true
  have hm : p.destroyed = false := by
    rw [hpool.destroyed, hd]
    rfl
  have hlock := h.destroyLock hp hd
  have hmove : Move s (s.destroyLock p) := .destroy (.lock hp hm hd)
  have hadders := (h.own_destroyMove (.lock hp hm hd)).adders
  rw [System.destroyLock, if_neg hopen, System.close] at hlock hmove hadders
  split at hlock
  case isFalse hzero =>
    have hnil : l = [] := by
      have hcount : p.queueCurNum = l.length := hpool.count
      have hzero : p.queueCurNum = 0 := not_not.mp hzero
      exact List.length_eq_zero_iff.mp (by omega)
    subst hnil
    rw [if_neg hzero] at hmove
    exact ⟨_, .single hmove, hlock, rfl, rfl, trivial⟩
  case isTrue hne =>
    rw [if_pos hne] at hmove
    -- the thread waits until the workers have taken all jobs
    obtain ⟨s', hmoves, h', ha, hd', -⟩ := hlock.exists_drained hn
    obtain ⟨q, hq⟩ := h'.exists_pool (by simp [hd'])
    have hwait : s'.destroyer = .wait p.queueEmpty := hd'
    have hzero : ¬ q.queueCurNum ≠ 0 := not_not.mpr (h'.pool q hq).count
    have hmq : q.destroyed = false := by
      rw [(h'.pool q hq).destroyed, hwait]
      rfl
    have hwake := h'.wake hq hwait
    have hmove' : Move s' (s'.close q) := .destroy (.wake hq hmq hwait)
    rw [System.close, if_neg hzero] at hwake hmove'
    exact ⟨_, .trans (.head hmove (signalled_moves hmoves)) (.single hmove'), hwake,
      ha, rfl, trivial⟩

/-- A worker leaves. -/
theorem Inv.leads_exited (h : Inv n max s []) (hd : s.destroyer = .join 0) (i : ℕ) :
    Leads n max s (.join 0) fun workers => workers i = .exited ∧
      ∀ j, s.workers j = .exited → workers j = .exited := by
  have hlocked : ∀ s : System, Inv n max s [] → s.destroyer = .join 0 →
      (s.workers i).locks = true → Leads n max s (.join 0) fun workers => workers i = .exited ∧
        ∀ j, s.workers j = .exited → workers j = .exited := by
    intro s h hd hi
    obtain ⟨p, hp⟩ := h.exists_pool (by simp [hd])
    have hpool := h.pool p hp
    have hm : p.destroyed = false := by rw [hpool.destroyed, hd]; rfl
    have hclose : p.poolClose = true := by rw [hpool.poolClose, hd]; rfl
    have hwork : s.work p i = { s with workers := Function.update s.workers i .exited } := by
      rw [System.work, if_neg fun hwait => hwait.2 hclose, if_pos hclose]
    refine ⟨_, .single (.work (.work hp hm hi)), ?_⟩
    rw [hwork]
    refine ⟨h.workExit hp hi hclose, rfl, hd, Function.update_self .., ?_⟩
    intro j hj
    show Function.update s.workers i .exited j = _
    rw [Function.update_apply]
    split
    · rfl
    · exact hj
  cases hi : s.workers i with
  | exited => exact ⟨s, .refl, h, rfl, hd, hi, fun _ hj => hj⟩
  | lock | wait => exact hlocked s h hd (by rw [hi]; rfl)
  | run pjob =>
      obtain ⟨_, _, _, _, hinv⟩ := h.runJob hi
      obtain ⟨a, v, heq⟩ := h.runJob_eq hi
      have hmove : Move s (s.runJob i pjob) := .work (.run hi)
      rw [heq] at hinv hmove
      obtain ⟨s', hmoves, h', ha, hd', hexited, hothers⟩ :=
        hlocked _ hinv hd (by simp [Worker.locks])
      refine ⟨s', .head hmove hmoves, h', ha, hd', hexited, fun j hj => hothers j ?_⟩
      have hji : j ≠ i := by
        rintro rfl
        rw [hi] at hj
        cases hj
      exact (Function.update_of_ne hji ..).trans hj

/-- All workers leave. -/
theorem Inv.leads_all_exited (h : Inv n max s []) (hd : s.destroyer = .join 0) (m : ℕ) :
    Leads n max s (.join 0) fun workers => ∀ i < m, workers i = .exited := by
  induction m with
  | zero => exact ⟨s, .refl, h, rfl, hd, nofun⟩
  | succ m ih =>
      apply ih.trans
      intro s₁ h₁ hd₁ hw₁
      obtain ⟨s', hmoves, h', ha, hd', hexited, hothers⟩ := h₁.leads_exited hd₁ m
      refine ⟨s', hmoves, h', ha, hd', ?_⟩
      intro i hi
      rcases Nat.lt_succ_iff_lt_or_eq.mp hi with hi | rfl
      · exact hothers i (hw₁ i hi)
      · exact hexited

/-- They are joined. -/
theorem Inv.leads_joined (h : Inv n max s []) (hd : s.destroyer = .join 0)
    (hw : ∀ i < n, s.workers i = .exited) {i : ℕ} (hi : i ≤ n) :
    Leads n max s (.join i) (· = s.workers) := by
  induction i with
  | zero => exact ⟨s, .refl, h, rfl, hd, rfl⟩
  | succ i ih =>
      apply (ih (Nat.le_of_succ_le hi)).trans
      intro s₁ h₁ hd₁ hw₁
      obtain ⟨p, hp⟩ := h₁.exists_pool (by simp [hd₁])
      have hexited : s₁.workers i = .exited := by
        rw [hw₁]
        exact hw i hi
      have hlt : i < p.threadNum := (h₁.pool p hp).threadNum ▸ hi
      obtain ⟨s₂, hmoves, h₂, ha, hd₂, hw₂⟩ :=
        h₁.leads_destroyMove (.join hp hd₁ hlt hexited) rfl rfl
      exact ⟨s₂, hmoves, h₂, ha, hd₂, hw₂.trans hw₁⟩

/-- The mutex is destroyed, wherever the calls that add jobs are. -/
theorem Inv.leads_free (h : Inv n max s l) (hd : s.destroyer = .lock) (hn : 0 < n ∨ l = []) :
    Leads n max s .free fun _ => True := by
  apply (h.leads_notEmpty hd hn).trans
  intro s₁ h₁ hd₁ _
  obtain ⟨p₁, hp₁⟩ := h₁.exists_pool (by simp [hd₁])
  apply (h₁.leads_destroyMove (.notEmpty hp₁ hd₁) rfl rfl).trans
  intro s₂ h₂ hd₂ _
  obtain ⟨p₂, hp₂⟩ := h₂.exists_pool (by simp [hd₂])
  apply (h₂.leads_destroyMove (.notFull hp₂ hd₂) rfl rfl).trans
  intro s₃ h₃ hd₃ _
  apply (h₃.leads_all_exited hd₃ n).trans
  intro s₄ h₄ hd₄ hw₄
  apply (h₄.leads_joined hd₄ hw₄ le_rfl).trans
  intro s₅ h₅ hd₅ _
  obtain ⟨p₅, hp₅⟩ := h₅.exists_pool (by simp [hd₅])
  have hge : p₅.threadNum ≤ n := (h₅.pool p₅ hp₅).threadNum.le
  apply (h₅.leads_destroyMove (.joined hp₅ hd₅ hge) rfl rfl).trans
  intro s₆ h₆ hd₆ _
  obtain ⟨p₆, hp₆⟩ := h₆.exists_pool (by simp [hd₆])
  obtain ⟨s₇, hmoves, h₇, ha, hd₇, -⟩ := h₆.leads_destroyMove (.mutex hp₆ hd₆) rfl rfl
  exact ⟨s₇, hmoves, h₇, ha, hd₇, trivial⟩

/-- And then such a call goes on. -/
theorem Inv.exists_fault (h : Inv n max s l) (hd : s.destroyer = .lock) (hn : 0 < n ∨ l = [])
    {job : Job} (hk : (s.adders k).job = some job) :
    ∃ s', ReflTransGen Move s s' ∧ s'.fault = true := by
  obtain ⟨s₁, hmoves, h₁, ha, hd₁, -⟩ := h.leads_free hd hn
  have hgone : s₁.Gone := fun p hp => by
    rw [(h₁.pool p hp).destroyed, hd₁]
    rfl
  exact ⟨_, .tail hmoves (.add (.fault (ha ▸ hk) hgone)), rfl⟩

end

/-! ### The result -/

/-- Seen from the call of `threadpool_destroy`, every order of the steps of the calls in
progress is safe if and only if no thread is inside `threadpool_add_job`, or the call never
comes to its end because there are jobs and no workers. -/
theorem destroy_safe_iff {n max : ℕ} {s : System} (h : Reachable n max s)
    (hd : s.destroyer = .lock) :
    (∀ s', ReflTransGen Move s s' → s'.fault = false) ↔
      (∀ k, s.adders k = .out) ∨ n = 0 ∧ ∃ p, s.pool = some p ∧ p.head ≠ none := by
  obtain ⟨l, h⟩ := exists_inv h
  obtain ⟨p, hp⟩ := h.exists_pool (by simp [hd])
  have hhead := (h.pool p hp).head_eq_none
  have hfault : s.fault = false := by
    by_contra hfault
    have hdestroyed := h.fault (Bool.not_eq_false _ ▸ hfault)
    rw [hd] at hdestroyed
    exact nomatch hdestroyed
  constructor
  · intro hsafe
    by_contra hnot
    obtain ⟨hinside, hleft⟩ := not_or.mp hnot
    obtain ⟨k, hk⟩ := not_forall.mp hinside
    have hn : 0 < n ∨ l = [] := by
      by_cases hnil : l = []
      · exact .inr hnil
      · exact .inl (Nat.pos_of_ne_zero fun hzero => hleft ⟨hzero, p, hp, mt hhead.mp hnil⟩)
    obtain ⟨job, hjob⟩ : ∃ job, (s.adders k).job = some job := by
      cases hadder : s.adders k with
      | out => exact absurd hadder hk
      | lock job | wait job => exact ⟨job, rfl⟩
    obtain ⟨s', hmoves, hs'⟩ := h.exists_fault hd hn hjob
    rw [hsafe s' hmoves] at hs'
    exact nomatch hs'
  · rintro (hout | ⟨rfl, q, hq, hleft⟩) s' hmoves
    · exact h.safe_of_out hfault hout hmoves
    · obtain rfl := Option.some.inj (hp.symm.trans hq)
      exact h.safe_of_left hfault (by rw [hd]; rfl) (mt hhead.mpr hleft) hmoves

/-- A pool that took two jobs, one of which is still in the list, is destroyed when nobody is
inside. -/
theorem destroy_safe_jobs : ∃ s : System, s.destroyer = .lock ∧
    s.history.accepted = [⟨7, 8⟩, ⟨9, 10⟩] ∧ s.history.ran = [(0, ⟨7, 8⟩)] ∧
    ∀ s', ReflTransGen Move s s' → s'.fault = false := by
  have h₁ : Reachable 1 1 _ := .single (@Step.callAdd _ 0 ⟨7, 8⟩ rfl)
  have h₂ : Reachable 1 1 _ := h₁.tail (.move (.add (@AddMove.add 0 _ _ _ true rfl rfl rfl)))
  have h₃ : Reachable 1 1 _ := h₂.tail (.move (.work (@WorkMove.work 0 _ _ rfl rfl rfl)))
  have h₄ : Reachable 1 1 _ := h₃.tail (.move (.work (@WorkMove.run 0 _ _ rfl)))
  have h₅ : Reachable 1 1 _ := h₄.tail (@Step.callAdd _ 1 ⟨9, 10⟩ rfl)
  have h₆ : Reachable 1 1 _ := h₅.tail (.move (.add (@AddMove.add 1 _ _ _ true rfl rfl rfl)))
  have h₇ : Reachable 1 1 _ := h₆.tail (.callDestroy rfl)
  refine ⟨_, rfl, rfl, rfl, (destroy_safe_iff h₇ rfl).mpr (.inl ?_)⟩
  rintro (_ | _ | k) <;> rfl

theorem moves_refl {n max : ℕ} {s : System} (_ : Reachable n max s) : ReflTransGen Move s s := .refl

/-- One worker and room for one job: while a call waits for room, the pool is destroyed, and
then the call wakes up. -/
theorem not_destroy_safe_full : ∃ s s', Reachable 1 1 s ∧ s.destroyer = .lock ∧
    s.adders 1 = .wait ⟨9, 10⟩ 0 ∧ ReflTransGen Move s s' ∧ s'.pool = none ∧ s'.fault = true := by
  have h₁ : Reachable 1 1 _ := .single (@Step.callAdd _ 0 ⟨7, 8⟩ rfl)
  have h₂ : Reachable 1 1 _ := h₁.tail (.move (.add (@AddMove.add 0 _ _ _ true rfl rfl rfl)))
  have h₃ : Reachable 1 1 _ := h₂.tail (@Step.callAdd _ 1 ⟨9, 10⟩ rfl)
  have h₄ : Reachable 1 1 _ := h₃.tail (.move (.add (@AddMove.add 1 _ _ _ true rfl rfl rfl)))
  have h₅ : Reachable 1 1 _ := h₄.tail (.callDestroy rfl)
  have m₁ := (moves_refl h₅).tail (.destroy (.lock rfl rfl rfl))
  have m₂ := m₁.tail (.work (@WorkMove.work 0 _ _ rfl rfl rfl))
  have m₃ := m₂.tail (.destroy (.wake rfl rfl rfl))
  have m₄ := m₃.tail (.work (@WorkMove.run 0 _ _ rfl))
  have m₅ := m₄.tail (.work (@WorkMove.work 0 _ _ rfl rfl rfl))
  have m₆ := m₅.tail (.destroy (.notEmpty rfl rfl))
  have m₇ := m₆.tail (.destroy (.notFull rfl rfl))
  have m₈ := m₇.tail (.destroy (.join rfl rfl Nat.zero_lt_one rfl))
  have m₉ := m₈.tail (.destroy (.joined rfl rfl le_rfl))
  have m₁₀ := m₉.tail (.destroy (.mutex rfl rfl))
  have m₁₁ := m₁₀.tail (.destroy (.free rfl rfl rfl))
  have m₁₂ := m₁₁.tail (.add (@AddMove.fault 1 _ _ rfl nofun))
  exact ⟨_, _, h₅, rfl, rfl, m₁₂, rfl, rfl⟩

end PanelTester.Threadpool
