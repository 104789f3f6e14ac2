import Mathlib.Tactic

/-!
The search for the VCOM with the least flicker, `z_auto_flick_2` of `mipiflick.c`. A call moves
the VCOM by a step that the last flicker value selects, towards the limit it is heading for,
measures there, and calls itself with the new pair. It turns round at the limits and where the
flicker grows; both are counted, and the count bounds the search.
-/

namespace PanelTester.Mipi

/-- `(int)INVALID_FLICK_VALUE`, which is also what is stored for a failed measurement. -/
def invalidFlickValue : ℤ := 99999

/-- `s_max_error_cnt` -/
def sMaxErrorCnt : ℤ := 10

/-- `s_max_change_direct_cnt` -/
def sMaxChangeDirectCnt : ℤ := 5

/-- What `ca210_capture_flick_data` returns, with `f_flick * 100` as an `int`. -/
inductive CaptureFlick
  | ok (flick : ℤ)
  | outRange
  | otherError
  deriving DecidableEq

/-- The value that `z_flick_test` stores, after it has written the VCOM. -/
def zFlickTest : CaptureFlick → ℤ
  | .ok flick => flick
  | .outRange => invalidFlickValue
  | .otherError => invalidFlickValue

/-- The parameters that the calls pass on. -/
structure FlickConfig where
  minVcom : ℤ
  maxVcom : ℤ
  minOkFlick : ℤ
  maxOkFlick : ℤ
  deriving DecidableEq

/-- The parameters that a call changes for the next one. -/
structure FindState where
  lastVcom : ℤ
  lastFlick : ℤ
  /-- −1 is left, 1 is right, and 0 is none. -/
  findDirection : ℤ
  flickErrorCnt : ℤ
  changeDirectionCnt : ℤ
  deriving DecidableEq

def changeDirect (direction : ℤ) : ℤ := if direction = -1 then 1 else -1

/-- Where a call goes, and the parameters it has changed up to there. -/
structure Move where
  step : ℤ
  vcom : ℤ
  findDirection : ℤ
  flickErrorCnt : ℤ
  changeDirectionCnt : ℤ
  deriving DecidableEq

/-- The test of `last_vcom` against the limit that it moves away from: the branches with
step 10 let the limit itself pass. -/
def inside (atLimit : Bool) (x y : ℤ) : Prop := if atLimit then x ≤ y else x < y

instance (atLimit : Bool) (x y : ℤ) : Decidable (inside atLimit x y) :=
  match atLimit with
  | true => inferInstanceAs (Decidable (x ≤ y))
  | false => inferInstanceAs (Decidable (x < y))

/-- The branch of one step size. -/
def findStep (cfg : FlickConfig) (s : FindState) (step : ℤ) (atLimit : Bool)
    (flickErrorCnt : ℤ) : Move :=
  if s.findDirection = -1 then
    if cfg.minVcom + step < s.lastVcom ∧ inside atLimit s.lastVcom cfg.maxVcom then
      ⟨step, s.lastVcom - step, s.findDirection, flickErrorCnt, s.changeDirectionCnt⟩
    else
      ⟨step, cfg.minVcom + step, changeDirect s.findDirection, flickErrorCnt,
        s.changeDirectionCnt + 1⟩
  else
    if inside atLimit cfg.minVcom s.lastVcom ∧ s.lastVcom < cfg.maxVcom - step then
      ⟨step, s.lastVcom + step, s.findDirection, flickErrorCnt, s.changeDirectionCnt⟩
    else
      ⟨step, cfg.maxVcom - step, changeDirect s.findDirection, flickErrorCnt,
        s.changeDirectionCnt + 1⟩

/-- A call up to the measurement. -/
def findMove (cfg : FlickConfig) (s : FindState) : Move :=
  if s.lastFlick < 0 then findStep cfg s 10 true (s.flickErrorCnt + 1)
  else if s.lastFlick ≥ invalidFlickValue then findStep cfg s 10 true (s.flickErrorCnt + 1)
  else if s.lastFlick > 50 * 100 then findStep cfg s 5 false s.flickErrorCnt
  else if s.lastFlick > 20 * 100 then findStep cfg s 3 false s.flickErrorCnt
  else findStep cfg s 1 false s.flickErrorCnt

/-- The flicker has grown since the last call. -/
def grown (s : FindState) (flick : ℤ) : Prop := flick > 0 ∧ s.lastFlick > 0 ∧ s.lastFlick < flick

instance (s : FindState) (flick : ℤ) : Decidable (grown s flick) :=
  inferInstanceAs (Decidable (_ ∧ _))

/-- The minimum has been passed with the smallest step. -/
def passedMin (s : FindState) (m : Move) (flick : ℤ) : Prop :=
  grown s flick ∧ m.step = 1 ∧ m.changeDirectionCnt ≥ 1

instance (s : FindState) (m : Move) (flick : ℤ) : Decidable (passedMin s m flick) :=
  inferInstanceAs (Decidable (_ ∧ _))

/-- The turn of a call that finds the flicker grown. -/
def turnBack (s : FindState) (m : Move) (flick : ℤ) : Move :=
  if grown s flick then
    { m with
      findDirection := if m.findDirection = 0 then -1 else -m.findDirection
      changeDirectionCnt := m.changeDirectionCnt + 1 }
  else m

/-- How a call goes on: it returns, with what it has stored in `*p_find_vcom` and
`*p_find_flick`, or calls itself. -/
inductive Verdict
  | ret (code : ℤ) (stored : Option (ℤ × ℤ))
  | again (s : FindState)
  deriving DecidableEq

/-- A call from the second test of the flicker on. -/
def judge (cfg : FlickConfig) (s : FindState) (m : Move) (flick : ℤ) : Verdict :=
  if flick > 0 ∧ flick < cfg.minOkFlick then .ret 0 (some (m.vcom, flick))
  else if flick > 0 ∧ flick < cfg.maxOkFlick ∧ m.changeDirectionCnt ≥ sMaxChangeDirectCnt then
    .ret 0 (some (if s.lastFlick < flick then (s.lastVcom, s.lastFlick) else (m.vcom, flick)))
  else if m.flickErrorCnt ≥ sMaxErrorCnt ∧ flick ≥ invalidFlickValue then
    -- the return of a search without a valid value, which stores nothing
    .ret 0 none
  else if m.changeDirectionCnt ≥ sMaxChangeDirectCnt then .ret (-1) none
  else .again ⟨m.vcom, flick, m.findDirection, m.flickErrorCnt, m.changeDirectionCnt⟩

/-- A call from the measurement on. -/
def afterTest (cfg : FlickConfig) (s : FindState) (flick : ℤ) : Verdict :=
  if passedMin s (findMove cfg s) flick then .ret 0 (some (s.lastVcom, s.lastFlick))
  else judge cfg s (turnBack s (findMove cfg s) flick) flick

/-- A call of a search: its parameters, the VCOM it writes and the value it reads back. -/
structure FlickCall where
  state : FindState
  vcom : ℤ
  flick : ℤ
  deriving DecidableEq

/-- What a search does: its calls, and what it returns and has stored, if it is finished. -/
structure FlickRun where
  calls : List FlickCall
  result : Option (ℤ × Option (ℤ × ℤ))
  deriving DecidableEq

/-- `z_auto_flick_2`, at most `n` calls of it. -/
def zAutoFlick2 (cfg : FlickConfig) : ℕ → FindState → (ℕ → CaptureFlick) → FlickRun
  | 0, _, _ => ⟨[], none⟩
  | n + 1, s, captures =>
    let vcom := (findMove cfg s).vcom
    let flick := zFlickTest (captures 0)
    match afterTest cfg s flick with
    | .ret code stored => ⟨[⟨s, vcom, flick⟩], some (code, stored)⟩
    | .again s' =>
      let rest := zAutoFlick2 cfg n s' fun k => captures (k + 1)
      ⟨⟨s, vcom, flick⟩ :: rest.calls, rest.result⟩

/-- The parameters of the first call, after `box_channelFlickTask` has measured the flicker. -/
def FindState.init (initVcom flick : ℤ) : FindState := ⟨initVcom, flick, 0, 0, 0⟩

/-- The step that a flicker value selects. -/
def flickStep (lastFlick : ℤ) : ℤ :=
  if lastFlick < 0 ∨ lastFlick ≥ invalidFlickValue then 10
  else if lastFlick > 50 * 100 then 5
  else if lastFlick > 20 * 100 then 3
  else 1

theorem flickStep_pos (lastFlick : ℤ) : 0 < flickStep lastFlick := by
  rw [flickStep]
  split_ifs <;> decide

variable {cfg : FlickConfig} {s : FindState} {flick : ℤ}

theorem inside_le {atLimit : Bool} {x y : ℤ} (h : inside atLimit x y) : x ≤ y := by
  rw [inside] at h
  split_ifs at h
  · exact h
  · exact h.le

/-- A call goes one step on, inside of the limits, or turns round one step from a limit. -/
theorem findStep_cases (cfg : FlickConfig) (s : FindState) (step : ℤ) (atLimit : Bool) (err : ℤ) :
    (s.findDirection = -1 ∧ cfg.minVcom + step < s.lastVcom ∧ s.lastVcom ≤ cfg.maxVcom ∧
      findStep cfg s step atLimit err =
        ⟨step, s.lastVcom - step, s.findDirection, err, s.changeDirectionCnt⟩) ∨
    (s.findDirection ≠ -1 ∧ cfg.minVcom ≤ s.lastVcom ∧ s.lastVcom < cfg.maxVcom - step ∧
      findStep cfg s step atLimit err =
        ⟨step, s.lastVcom + step, s.findDirection, err, s.changeDirectionCnt⟩) ∨
    ∃ vcom, (vcom = cfg.minVcom + step ∨ vcom = cfg.maxVcom - step) ∧
      findStep cfg s step atLimit err =
        ⟨step, vcom, changeDirect s.findDirection, err, s.changeDirectionCnt + 1⟩ := by
  rw [findStep]
  split_ifs with hleft hfree hfree
  · exact .inl ⟨hleft, hfree.1, inside_le hfree.2, rfl⟩
  · exact .inr (.inr ⟨_, .inl rfl, rfl⟩)
  · exact .inr (.inl ⟨hleft, inside_le hfree.1, hfree.2, rfl⟩)
  · exact .inr (.inr ⟨_, .inr rfl, rfl⟩)

/-- A value with which a call counts an error. -/
def Failed (lastFlick : ℤ) : Prop := lastFlick < 0 ∨ lastFlick ≥ invalidFlickValue

instance (lastFlick : ℤ) : Decidable (Failed lastFlick) := inferInstanceAs (Decidable (_ ∨ _))

/-- All the branches are `findStep`, with the step of the last flicker value. -/
theorem findMove_eq (cfg : FlickConfig) (s : FindState) : findMove cfg s =
    findStep cfg s (flickStep s.lastFlick) (decide (Failed s.lastFlick))
      (s.flickErrorCnt + if Failed s.lastFlick then 1 else 0) := by
  rw [findMove, flickStep]
  by_cases hfailed : Failed s.lastFlick
  · rw [if_pos hfailed, decide_eq_true hfailed]
    have hstep : s.lastFlick < 0 ∨ s.lastFlick ≥ invalidFlickValue := hfailed
    rw [if_pos hstep]
    split_ifs with hneg hbig <;> first | rfl | exact absurd hfailed (by simp [Failed, *])
  · have hstep : ¬ (s.lastFlick < 0 ∨ s.lastFlick ≥ invalidFlickValue) := hfailed
    rw [if_neg hfailed, decide_eq_false hfailed, if_neg hstep, add_zero,
      if_neg (not_or.mp hstep).1, if_neg (not_or.mp hstep).2]
    split_ifs <;> rfl

theorem findMove_cases (cfg : FlickConfig) (s : FindState) : ∃ err,
    (s.findDirection = -1 ∧ cfg.minVcom + flickStep s.lastFlick < s.lastVcom ∧
      s.lastVcom ≤ cfg.maxVcom ∧ findMove cfg s =
        ⟨flickStep s.lastFlick, s.lastVcom - flickStep s.lastFlick, s.findDirection, err,
          s.changeDirectionCnt⟩) ∨
    (s.findDirection ≠ -1 ∧ cfg.minVcom ≤ s.lastVcom ∧
      s.lastVcom < cfg.maxVcom - flickStep s.lastFlick ∧ findMove cfg s =
        ⟨flickStep s.lastFlick, s.lastVcom + flickStep s.lastFlick, s.findDirection, err,
          s.changeDirectionCnt⟩) ∨
    ∃ vcom, (vcom = cfg.minVcom + flickStep s.lastFlick ∨
        vcom = cfg.maxVcom - flickStep s.lastFlick) ∧ findMove cfg s =
        ⟨flickStep s.lastFlick, vcom, changeDirect s.findDirection, err,
          s.changeDirectionCnt + 1⟩ := by
  rw [findMove_eq]
  exact ⟨_, findStep_cases cfg s _ _ _⟩

/-- A call writes a VCOM between the limits exactly when its step fits between them. -/
theorem findMove_vcom_iff (cfg : FlickConfig) (s : FindState) :
    (cfg.minVcom ≤ (findMove cfg s).vcom ∧ (findMove cfg s).vcom ≤ cfg.maxVcom) ↔
      flickStep s.lastFlick ≤ cfg.maxVcom - cfg.minVcom := by
  have hpos := flickStep_pos s.lastFlick
  obtain ⟨err, ⟨-, hlo, hhi, heq⟩ | ⟨-, hlo, hhi, heq⟩ | ⟨vcom, hvcom, heq⟩⟩ := findMove_cases cfg s
  · rw [heq]
    dsimp only
    omega
  · rw [heq]
    dsimp only
    omega
  · rw [heq]
    dsimp only
    omega

/-- The steps of a search: what holds of all its calls. -/
theorem zAutoFlick2_calls {P : FlickCall → Prop}
    (hcall : ∀ s flick, P ⟨s, (findMove cfg s).vcom, flick⟩) (n : ℕ) (s : FindState)
    (captures : ℕ → CaptureFlick) : ∀ c ∈ (zAutoFlick2 cfg n s captures).calls, P c := by
  induction n generalizing s captures with
  | zero => exact fun c hc => absurd hc List.not_mem_nil
  | succ n ih =>
    intro c hc
    rw [zAutoFlick2] at hc
    dsimp only at hc
    cases hafter : afterTest cfg s (zFlickTest (captures 0)) with
    | ret code stored =>
      rw [hafter] at hc
      obtain rfl := List.mem_singleton.1 hc
      exact hcall s _
    | again s' =>
      rw [hafter] at hc
      rcases List.mem_cons.1 hc with rfl | hrest
      · exact hcall s _
      · exact ih s' _ c hrest

/-- Every VCOM that a search writes is between the limits. -/
def KeepsRange (cfg : FlickConfig) (s : FindState) (captures : ℕ → CaptureFlick) : Prop :=
  ∀ n, ∀ c ∈ (zAutoFlick2 cfg n s captures).calls, cfg.minVcom ≤ c.vcom ∧ c.vcom ≤ cfg.maxVcom

/-- The flicker values that the calls start from select steps that fit between the limits. -/
def StepsFit (cfg : FlickConfig) (s : FindState) (captures : ℕ → CaptureFlick) : Prop :=
  ∀ n, ∀ c ∈ (zAutoFlick2 cfg n s captures).calls,
    flickStep c.state.lastFlick ≤ cfg.maxVcom - cfg.minVcom

theorem zAutoFlick2_keepsRange_iff (cfg : FlickConfig) (s : FindState)
    (captures : ℕ → CaptureFlick) : KeepsRange cfg s captures ↔ StepsFit cfg s captures := by
  have hcall : ∀ n, ∀ c ∈ (zAutoFlick2 cfg n s captures).calls,
      (cfg.minVcom ≤ c.vcom ∧ c.vcom ≤ cfg.maxVcom ↔
        flickStep c.state.lastFlick ≤ cfg.maxVcom - cfg.minVcom) := fun n =>
    zAutoFlick2_calls (fun s' _ => findMove_vcom_iff cfg s') n s captures
  constructor
  · intro hrange n c hc
    exact (hcall n c hc).1 (hrange n c hc)
  · intro hfit n c hc
    exact (hcall n c hc).2 (hfit n c hc)

/-- Without a valid value the first call of a search from 0 to 5 writes −5. -/
theorem not_keepsRange_narrow :
    ¬ ∀ (cfg : FlickConfig) (initVcom flick : ℤ) (captures : ℕ → CaptureFlick),
      cfg.minVcom < cfg.maxVcom → cfg.minVcom ≤ initVcom → initVcom ≤ cfg.maxVcom →
        KeepsRange cfg (.init initVcom flick) captures := by
  intro h
  have hrange := h ⟨0, 5, 200, 1300⟩ 3 invalidFlickValue (fun _ => .ok 100) (by decide) (by decide)
    (by decide) 1 ⟨.init 3 invalidFlickValue, -5, 100⟩ (by decide)
  exact absurd hrange.1 (by decide)

/-- How often a search can still turn round. -/
def turnsLeft (s : FindState) : ℕ := (sMaxChangeDirectCnt - s.changeDirectionCnt).toNat

/-- How far the limit is that a search is heading for. -/
def toLimit (cfg : FlickConfig) (s : FindState) : ℕ :=
  if s.findDirection = -1 then (s.lastVcom - cfg.minVcom).toNat
  else (cfg.maxVcom - s.lastVcom).toNat

theorem judge_again {m : Move} {s' : FindState} (h : judge cfg s m flick = .again s') :
    m.changeDirectionCnt < sMaxChangeDirectCnt ∧
      s' = ⟨m.vcom, flick, m.findDirection, m.flickErrorCnt, m.changeDirectionCnt⟩ := by
  rw [judge] at h
  split_ifs at h with hmin hmax herr hcnt
  · exact ⟨by omega, (Verdict.again.inj h).symm⟩

theorem afterTest_again {s' : FindState} (h : afterTest cfg s flick = .again s') :
    judge cfg s (turnBack s (findMove cfg s) flick) flick = .again s' := by
  rw [afterTest] at h
  split_ifs at h with hpassed
  · exact h

theorem turnBack_cases (s : FindState) (m : Move) (flick : ℤ) :
    turnBack s m flick = m ∨ ∃ direction, turnBack s m flick =
      { m with findDirection := direction, changeDirectionCnt := m.changeDirectionCnt + 1 } := by
  by_cases hgrown : grown s flick
  · exact .inr ⟨_, if_pos hgrown⟩
  · exact .inl (if_neg hgrown)

theorem findMove_changeDirectionCnt (cfg : FlickConfig) (s : FindState) :
    s.changeDirectionCnt ≤ (findMove cfg s).changeDirectionCnt := by
  obtain ⟨err, ⟨-, -, -, heq⟩ | ⟨-, -, -, heq⟩ | ⟨vcom, -, heq⟩⟩ := findMove_cases cfg s
  · exact (congrArg Move.changeDirectionCnt heq).ge
  · exact (congrArg Move.changeDirectionCnt heq).ge
  · have hcnt := congrArg Move.changeDirectionCnt heq
    dsimp only at hcnt
    omega

/-- A call that does not turn round comes closer to the limit. -/
theorem afterTest_again_lt {s' : FindState} (h : afterTest cfg s flick = .again s') :
    turnsLeft s' < turnsLeft s ∨
      turnsLeft s' = turnsLeft s ∧ toLimit cfg s' < toLimit cfg s := by
  obtain ⟨hcnt, rfl⟩ := judge_again (afterTest_again h)
  have hpos := flickStep_pos s.lastFlick
  obtain hturn | ⟨direction, hturn⟩ := turnBack_cases s (findMove cfg s) flick
  · rw [hturn] at hcnt ⊢
    obtain ⟨err, ⟨hdir, hlo, hhi, heq⟩ | ⟨hdir, hlo, hhi, heq⟩ | ⟨vcom, -, heq⟩⟩ :=
      findMove_cases cfg s
    · -- a step to the left: the lower limit is nearer by the step
      right
      rw [heq]
      refine ⟨rfl, ?_⟩
      simp only [toLimit, if_pos hdir]
      omega
    · -- a step to the right
      right
      rw [heq]
      refine ⟨rfl, ?_⟩
      simp only [toLimit, if_neg hdir]
      omega
    · -- it turns round at a limit
      left
      rw [heq] at hcnt ⊢
      unfold turnsLeft
      dsimp only at hcnt ⊢
      omega
  · -- it turns round where the flicker has grown
    left
    have hmove := findMove_changeDirectionCnt cfg s
    rw [hturn] at hcnt ⊢
    unfold turnsLeft
    dsimp only at hcnt ⊢
    omega

theorem judge_code {m : Move} {code : ℤ} {stored : Option (ℤ × ℤ)}
    (h : judge cfg s m flick = .ret code stored) : code = 0 ∨ code = -1 := by
  rw [judge] at h
  split_ifs at h <;> obtain ⟨rfl, -⟩ := Verdict.ret.inj h <;> simp

theorem afterTest_code {code : ℤ} {stored : Option (ℤ × ℤ)}
    (h : afterTest cfg s flick = .ret code stored) : code = 0 ∨ code = -1 := by
  rw [afterTest] at h
  split_ifs at h with hpassed
  · exact .inl (Verdict.ret.inj h).1.symm
  · exact judge_code h

theorem zAutoFlick2_ret {captures : ℕ → CaptureFlick} {code : ℤ} {stored : Option (ℤ × ℤ)}
    (h : afterTest cfg s (zFlickTest (captures 0)) = .ret code stored) (n : ℕ) :
    zAutoFlick2 cfg (n + 1) s captures =
      ⟨[⟨s, (findMove cfg s).vcom, zFlickTest (captures 0)⟩], some (code, stored)⟩ := by
  rw [zAutoFlick2]
  dsimp only
  rw [h]

theorem zAutoFlick2_again {captures : ℕ → CaptureFlick} {s' : FindState}
    (h : afterTest cfg s (zFlickTest (captures 0)) = .again s') (n : ℕ) :
    zAutoFlick2 cfg (n + 1) s captures =
      ⟨⟨s, (findMove cfg s).vcom, zFlickTest (captures 0)⟩ ::
          (zAutoFlick2 cfg n s' fun k => captures (k + 1)).calls,
        (zAutoFlick2 cfg n s' fun k => captures (k + 1)).result⟩ := by
  rw [zAutoFlick2]
  dsimp only
  rw [h]

/-- Every search ends, with success or an error code: by the turns that are left, and between two
turns by the way to the limit. -/
theorem zAutoFlick2_ends (cfg : FlickConfig) (s : FindState) (captures : ℕ → CaptureFlick) :
    ∃ N code stored, (code = 0 ∨ code = -1) ∧
      ∀ n, N ≤ n → (zAutoFlick2 cfg n s captures).result = some (code, stored) := by
  cases hafter : afterTest cfg s (zFlickTest (captures 0)) with
  | ret code stored =>
    -- any fuel but none is enough
    refine ⟨1, code, stored, afterTest_code hafter, ?_⟩
    intro n hn
    obtain ⟨k, rfl⟩ := Nat.exists_eq_add_of_le' hn
    rw [zAutoFlick2_ret hafter]
  | again s' =>
    have hlt := afterTest_again_lt hafter
    obtain ⟨N, code, stored, hcode, hresult⟩ :=
      zAutoFlick2_ends cfg s' fun k => captures (k + 1)
    refine ⟨N + 1, code, stored, hcode, ?_⟩
    intro n hn
    obtain ⟨k, rfl⟩ := Nat.exists_eq_add_of_le' (Nat.le_of_add_left_le hn)
    rw [zAutoFlick2_again hafter]
    exact hresult k (by omega)
termination_by (turnsLeft s, toLimit cfg s)
decreasing_by
  rcases hlt with hlt | ⟨heq, hlt⟩
  · exact Prod.Lex.left _ _ hlt
  · rw [heq]
    exact Prod.Lex.right _ hlt

end PanelTester.Mipi
