import PanelTester.Mipi.AutoFlick

/-!
What a search for the VCOM stores. The values that are measured send the search to and fro between
the limits, whatever becomes of it (`FlickInput.zigzag`). It ends with the first value that one of
its tests stops at (`Ends`), and stores what it should, unless that value is of one of the kinds
that the tests let pass (`Stray`).
-/

namespace PanelTester.Mipi

variable {cfg : FlickConfig} {s : FindState} {flick : ℤ}

/-! ### The question -/

/-- A value of a measurement that has not failed, and that is not zero. -/
def ValidFlick (flick : ℤ) : Prop := 0 < flick ∧ flick < invalidFlickValue

instance (flick : ℤ) : Decidable (ValidFlick flick) := inferInstanceAs (Decidable (_ ∧ _))

/-- A search that returns 0 has stored a valid pair, which it was called with or has measured. -/
def ResultMeasured (s : FindState) (r : FlickRun) : Prop :=
  ∀ stored, r.result = some (0, stored) → ∃ p, stored = some p ∧
    (p = (s.lastVcom, s.lastFlick) ∨ ∃ c ∈ r.calls, p = (c.vcom, c.flick)) ∧ ValidFlick p.2

/-- What a search depends on: its parameters, the VCOM and the value that the caller has measured,
and the measurements. -/
structure FlickInput where
  cfg : FlickConfig
  initVcom : ℤ
  flick : ℤ
  captures : ℕ → CaptureFlick

/-- Where a search is, which way it is heading, and how often it has turned. -/
structure Zigzag where
  vcom : ℤ
  left : Bool
  turns : ℕ
  deriving DecidableEq

/-- A step by the last value stays off the limits. -/
def Zigzag.Free (cfg : FlickConfig) (z : Zigzag) (last : ℤ) : Prop :=
  if z.left then
    cfg.minVcom + flickStep last < z.vcom ∧ inside (decide (Failed last)) z.vcom cfg.maxVcom
  else inside (decide (Failed last)) cfg.minVcom z.vcom ∧ z.vcom < cfg.maxVcom - flickStep last

instance (cfg : FlickConfig) (z : Zigzag) (last : ℤ) : Decidable (z.Free cfg last) :=
  inferInstanceAs (Decidable (if z.left then
      cfg.minVcom + flickStep last < z.vcom ∧ inside (decide (Failed last)) z.vcom cfg.maxVcom
    else inside (decide (Failed last)) cfg.minVcom z.vcom ∧ z.vcom < cfg.maxVcom - flickStep last))

/-- The value has grown. -/
def Grown (last flick : ℤ) : Prop := 0 < last ∧ last < flick

instance (last flick : ℤ) : Decidable (Grown last flick) := inferInstanceAs (Decidable (_ ∧ _))

/-- A step by the last value, and the value that is measured behind it: a limit and a value that has
grown turn the search round. -/
def Zigzag.next (cfg : FlickConfig) (z : Zigzag) (last flick : ℤ) : Zigzag where
  vcom :=
    if z.Free cfg last then
      if z.left then z.vcom - flickStep last else z.vcom + flickStep last
    else
      if z.left then cfg.minVcom + flickStep last else cfg.maxVcom - flickStep last
  left := (z.left ^^ !decide (z.Free cfg last)) ^^ decide (Grown last flick)
  turns := z.turns + (if z.Free cfg last then 0 else 1) + (if Grown last flick then 1 else 0)

namespace FlickInput

variable (x : FlickInput)

/-- The caller's value, and those that are measured. -/
def flicks : ℕ → ℤ
  | 0 => x.flick
  | k + 1 => zFlickTest (x.captures k)

/-- The way of the search. -/
def zigzag : ℕ → Zigzag
  | 0 => ⟨x.initVcom, false, 0⟩
  | k + 1 => (zigzag k).next x.cfg (x.flicks k) (x.flicks (k + 1))

/-- How many of the first values count as errors. -/
def failures (k : ℕ) : ℕ := Nat.count (fun j => Failed (x.flicks j)) k

/-- The value with this number has grown from at most 2000, and not only has the search not turned
for the first time. -/
def Passed (k : ℕ) : Prop :=
  Grown (x.flicks k) (x.flicks (k + 1)) ∧ x.flicks k ≤ 20 * 100 ∧ 2 ≤ (x.zigzag (k + 1)).turns

/-- The search ends with this measurement, unless it has ended before. -/
def Ends (k : ℕ) : Prop :=
  x.Passed k ∨ (0 < x.flicks (k + 1) ∧ x.flicks (k + 1) < x.cfg.minOkFlick) ∨
    5 ≤ (x.zigzag (k + 1)).turns ∨
    (10 ≤ x.failures (k + 1) ∧ invalidFlickValue ≤ x.flicks (k + 1))

/-- A value that is let pass. It is at least that of a failed measurement, and below `min_ok_flick`;
or it is below `max_ok_flick` at the fifth turn, and the last one is zero or less, or no smaller
than that of a failed measurement, as it is itself; or it is such a value behind ten failures. -/
def Stray (k : ℕ) : Prop :=
  ¬ x.Passed k ∧ 0 < x.flicks (k + 1) ∧
    ((x.flicks (k + 1) < x.cfg.minOkFlick ∧ invalidFlickValue ≤ x.flicks (k + 1)) ∨
      (x.cfg.minOkFlick ≤ x.flicks (k + 1) ∧ x.flicks (k + 1) < x.cfg.maxOkFlick ∧
        5 ≤ (x.zigzag (k + 1)).turns ∧
        (x.flicks k ≤ 0 ∨
          invalidFlickValue ≤ x.flicks k ∧ invalidFlickValue ≤ x.flicks (k + 1))) ∨
      (x.cfg.minOkFlick ≤ x.flicks (k + 1) ∧
        ¬ (x.flicks (k + 1) < x.cfg.maxOkFlick ∧ 5 ≤ (x.zigzag (k + 1)).turns) ∧
        10 ≤ x.failures (k + 1) ∧ invalidFlickValue ≤ x.flicks (k + 1)))

end FlickInput

/-! ### A call -/

/-- The second test of the flicker lets a value pass that is not valid: it takes the value of a
failed measurement as small enough, or keeps a pair that is not valid at the fifth turn, or
returns 0 after ten errors. -/
def judgesWrong (cfg : FlickConfig) (s : FindState) (m : Move) (flick : ℤ) : Prop :=
  if flick > 0 ∧ flick < cfg.minOkFlick then ¬ ValidFlick flick
  else if flick > 0 ∧ flick < cfg.maxOkFlick ∧ m.changeDirectionCnt ≥ sMaxChangeDirectCnt then
    ¬ ValidFlick (if s.lastFlick < flick then s.lastFlick else flick)
  else m.flickErrorCnt ≥ sMaxErrorCnt ∧ flick ≥ invalidFlickValue

/-- A call returns 0 without a valid value. -/
def GoesWrong (cfg : FlickConfig) (c : FlickCall) : Prop :=
  ¬ passedMin c.state (findMove cfg c.state) c.flick ∧
    judgesWrong cfg c.state (turnBack c.state (findMove cfg c.state) c.flick) c.flick

theorem findMove_step (cfg : FlickConfig) (s : FindState) :
    (findMove cfg s).step = flickStep s.lastFlick := by
  obtain ⟨err, ⟨-, -, -, heq⟩ | ⟨-, -, -, heq⟩ | ⟨vcom, -, heq⟩⟩ := findMove_cases cfg s
  all_goals rw [heq]

theorem passedMin_valid (h : passedMin s (findMove cfg s) flick) : ValidFlick s.lastFlick := by
  obtain ⟨⟨-, hlast, -⟩, hstep, -⟩ := h
  refine ⟨hlast, ?_⟩
  have hone : flickStep s.lastFlick = 1 := by rwa [findMove_step] at hstep
  -- a value that is not valid would have selected step 10
  by_contra hbig
  rw [flickStep, if_pos (.inr (not_lt.1 hbig))] at hone
  exact absurd hone (by decide)

theorem turnBack_vcom (s : FindState) (m : Move) (flick : ℤ) :
    (turnBack s m flick).vcom = m.vcom := by
  rw [turnBack]
  split_ifs <;> rfl

theorem judge_stored {m : Move} {code : ℤ} {p : ℤ × ℤ}
    (h : judge cfg s m flick = .ret code (some p)) :
    p = (s.lastVcom, s.lastFlick) ∨ p = (m.vcom, flick) := by
  rw [judge] at h
  split_ifs at h with hmin hmax hless herr hcnt
  · exact .inr (Option.some.inj (Verdict.ret.inj h).2).symm
  · exact .inl (Option.some.inj (Verdict.ret.inj h).2).symm
  · exact .inr (Option.some.inj (Verdict.ret.inj h).2).symm
  · cases h
  · cases h

/-- A call stores its own pair or the last one. -/
theorem afterTest_stored {code : ℤ} {p : ℤ × ℤ}
    (h : afterTest cfg s flick = .ret code (some p)) :
    p = (s.lastVcom, s.lastFlick) ∨ p = ((findMove cfg s).vcom, flick) := by
  rw [afterTest] at h
  split_ifs at h with hpassed
  · exact .inl (Option.some.inj (Verdict.ret.inj h).2).symm
  · have hstored := judge_stored h
    rwa [turnBack_vcom] at hstored

theorem judge_valid_iff {m : Move} {code : ℤ} {stored : Option (ℤ × ℤ)}
    (h : judge cfg s m flick = .ret code stored) :
    (code = 0 → ∃ p, stored = some p ∧ ValidFlick p.2) ↔ ¬ judgesWrong cfg s m flick := by
  rw [judge] at h
  rw [judgesWrong]
  split_ifs at h ⊢ with hmin hmax hless herr hcnt
  all_goals obtain ⟨rfl, rfl⟩ := Verdict.ret.inj h
  · simp
  · simp
  · simp
  · simp [herr]
  · simpa using herr

/-- What a call stores when it returns 0 is valid exactly when the call does not go wrong. -/
theorem afterTest_valid_iff {code : ℤ} {stored : Option (ℤ × ℤ)} (vcom : ℤ)
    (h : afterTest cfg s flick = .ret code stored) :
    (code = 0 → ∃ p, stored = some p ∧ ValidFlick p.2) ↔ ¬ GoesWrong cfg ⟨s, vcom, flick⟩ := by
  rw [afterTest] at h
  split_ifs at h with hpassed
  · obtain ⟨rfl, rfl⟩ := Verdict.ret.inj h
    exact iff_of_true (fun _ => ⟨_, rfl, passedMin_valid hpassed⟩) fun hwrong => hwrong.1 hpassed
  · rw [judge_valid_iff h, GoesWrong, and_iff_right hpassed]

theorem afterTest_again_not_goesWrong {s' : FindState} (vcom : ℤ)
    (h : afterTest cfg s flick = .again s') : ¬ GoesWrong cfg ⟨s, vcom, flick⟩ := by
  have hjudge := afterTest_again h
  rintro ⟨-, hwrong⟩
  rw [judge] at hjudge
  rw [judgesWrong] at hwrong
  split_ifs at hjudge with hmin hmax herr hcnt
  · rw [if_neg hmin, if_neg hmax] at hwrong
    exact herr hwrong

theorem afterTest_again_last {s' : FindState} (h : afterTest cfg s flick = .again s') :
    (s'.lastVcom, s'.lastFlick) = ((findMove cfg s).vcom, flick) := by
  obtain ⟨-, rfl⟩ := judge_again (afterTest_again h)
  rw [turnBack_vcom]

/-- What a search stores it was called with or has measured. -/
theorem zAutoFlick2_stored (cfg : FlickConfig) (n : ℕ) (s : FindState)
    (captures : ℕ → CaptureFlick) {code : ℤ} {p : ℤ × ℤ}
    (h : (zAutoFlick2 cfg n s captures).result = some (code, some p)) :
    p = (s.lastVcom, s.lastFlick) ∨
      ∃ c ∈ (zAutoFlick2 cfg n s captures).calls, p = (c.vcom, c.flick) := by
  induction n generalizing s captures with
  | zero => cases h
  | succ n ih =>
    cases hafter : afterTest cfg s (zFlickTest (captures 0)) with
    | ret code' stored =>
      rw [zAutoFlick2_ret hafter] at h ⊢
      obtain ⟨rfl, rfl⟩ := Prod.mk.inj (Option.some.inj h)
      obtain hlast | hnow := afterTest_stored hafter
      · exact .inl hlast
      · exact .inr ⟨_, List.mem_singleton_self _, hnow⟩
    | again s' =>
      rw [zAutoFlick2_again hafter] at h ⊢
      obtain hlast | ⟨c, hc, hp⟩ := ih s' _ h
      · -- the next call was called with the pair that this one has measured
        exact .inr ⟨_, List.mem_cons_self, hlast.trans (afterTest_again_last hafter)⟩
      · exact .inr ⟨c, List.mem_cons_of_mem _ hc, hp⟩

/-- The result of a search is valid exactly when no call of it goes wrong. -/
theorem zAutoFlick2_valid_iff (cfg : FlickConfig) (n : ℕ) (s : FindState)
    (captures : ℕ → CaptureFlick) :
    (∀ stored, (zAutoFlick2 cfg n s captures).result = some (0, stored) →
        ∃ p, stored = some p ∧ ValidFlick p.2) ↔
      ∀ c ∈ (zAutoFlick2 cfg n s captures).calls, ¬ GoesWrong cfg c := by
  induction n generalizing s captures with
  | zero =>
    exact iff_of_true (fun _ h => by cases h) fun c hc => absurd hc List.not_mem_nil
  | succ n ih =>
    cases hafter : afterTest cfg s (zFlickTest (captures 0)) with
    | ret code stored =>
      rw [zAutoFlick2_ret hafter]
      simp only [List.forall_mem_singleton, ← afterTest_valid_iff _ hafter, Option.some.injEq,
        Prod.mk.injEq]
      constructor
      · intro hvalid hcode
        exact hvalid stored ⟨hcode, rfl⟩
      · rintro hvalid _ ⟨hcode, rfl⟩
        exact hvalid hcode
    | again s' =>
      rw [zAutoFlick2_again hafter]
      simp only [List.forall_mem_cons]
      rw [ih, and_iff_right (afterTest_again_not_goesWrong _ hafter)]

/-! ### The way of a search -/

namespace FlickInput

variable {x : FlickInput} {k : ℕ}

/-- The parameters of a call, with the values before it and the way up to it. -/
structure Follows (x : FlickInput) (s : FindState) (k : ℕ) : Prop where
  vcom : s.lastVcom = (x.zigzag k).vcom
  flick : s.lastFlick = x.flicks k
  left : s.findDirection = -1 ↔ (x.zigzag k).left = true
  direction : s.findDirection = -1 ∨ s.findDirection = 0 ∨ s.findDirection = 1
  errors : s.flickErrorCnt = x.failures k
  turns : s.changeDirectionCnt = (x.zigzag k).turns

theorem follows_init (x : FlickInput) : x.Follows (.init x.initVcom x.flick) 0 where
  vcom := rfl
  flick := rfl
  left := by simp [FindState.init, zigzag]
  direction := .inr (.inl rfl)
  errors := rfl
  turns := rfl

namespace Follows

theorem errors_succ (h : x.Follows s k) :
    s.flickErrorCnt + (if Failed s.lastFlick then 1 else 0) = x.failures (k + 1) := by
  rw [failures, Nat.count_succ, h.errors, h.flick, failures]
  split_ifs <;> simp

/-- A call up to the measurement. -/
theorem findMove (h : x.Follows s k) : findMove x.cfg s =
    if (x.zigzag k).Free x.cfg (x.flicks k) then
      ⟨flickStep (x.flicks k),
        if (x.zigzag k).left then (x.zigzag k).vcom - flickStep (x.flicks k)
        else (x.zigzag k).vcom + flickStep (x.flicks k),
        s.findDirection, x.failures (k + 1), (x.zigzag k).turns⟩
    else
      ⟨flickStep (x.flicks k),
        if (x.zigzag k).left then x.cfg.minVcom + flickStep (x.flicks k)
        else x.cfg.maxVcom - flickStep (x.flicks k),
        changeDirect s.findDirection, x.failures (k + 1), (x.zigzag k).turns + 1⟩ := by
  rw [findMove_eq, h.errors_succ, findStep, h.flick, h.vcom, h.turns]
  simp only [Zigzag.Free]
  by_cases hleft : s.findDirection = -1
  · simp only [if_pos hleft, h.left.mp hleft, if_true]
  · have hright : (x.zigzag k).left = false := by
      rw [Bool.eq_false_iff]
      exact mt h.left.mpr hleft
    simp only [if_neg hleft, hright, Bool.false_eq_true, if_false]

theorem grown_iff (h : x.Follows s k) (flick : ℤ) : grown s flick ↔ Grown (x.flicks k) flick := by
  rw [grown, Grown, h.flick]
  omega

/-- A call once it has turned where the value has grown. -/
theorem turnBack (h : x.Follows s k) : ∃ direction,
    (direction = -1 ↔ (x.zigzag (k + 1)).left = true) ∧
      (direction = -1 ∨ direction = 0 ∨ direction = 1) ∧
      turnBack s (Mipi.findMove x.cfg s) (x.flicks (k + 1)) =
        ⟨flickStep (x.flicks k), (x.zigzag (k + 1)).vcom, direction, x.failures (k + 1),
          (x.zigzag (k + 1)).turns⟩ := by
  have hdirection := h.direction
  have hleft := h.left
  rw [Mipi.turnBack, h.findMove, zigzag, Zigzag.next]
  by_cases hfree : (x.zigzag k).Free x.cfg (x.flicks k)
  · by_cases hgrown : grown s (x.flicks (k + 1))
    · have hgrown' := (h.grown_iff _).mp hgrown
      refine ⟨if s.findDirection = 0 then -1 else -s.findDirection, ?_, ?_, ?_⟩
      · cases hz : (x.zigzag k).left
        · rw [hz] at hleft
          simp only [Bool.false_eq_true, iff_false] at hleft
          simp [hfree, hgrown']
          omega
        · rw [hz] at hleft
          simp [hfree, hgrown', hleft.mpr rfl]
      · split_ifs <;> omega
      · simp [hfree, hgrown, hgrown']
    · have hgrown' := mt (h.grown_iff _).mpr hgrown
      refine ⟨s.findDirection, ?_, hdirection, ?_⟩
      · simp [hleft, hfree, hgrown']
      · simp [hfree, hgrown, hgrown']
  · by_cases hgrown : grown s (x.flicks (k + 1))
    · have hgrown' := (h.grown_iff _).mp hgrown
      refine ⟨-changeDirect s.findDirection, ?_, ?_, ?_⟩
      · rw [changeDirect]
        cases hz : (x.zigzag k).left <;> simp_all
      · rw [changeDirect]
        split_ifs <;> omega
      · have hne : changeDirect s.findDirection ≠ 0 := by
          rw [changeDirect]
          split_ifs <;> decide
        simp [hfree, hgrown, hgrown', hne]
    · have hgrown' := mt (h.grown_iff _).mpr hgrown
      refine ⟨changeDirect s.findDirection, ?_, ?_, ?_⟩
      · rw [changeDirect]
        cases hz : (x.zigzag k).left <;> simp_all
      · rw [changeDirect]
        split_ifs <;> omega
      · simp [hfree, hgrown, hgrown']

theorem passed_iff (h : x.Follows s k) :
    passedMin s (Mipi.findMove x.cfg s) (x.flicks (k + 1)) ↔ x.Passed k := by
  rw [passedMin, Passed, h.grown_iff]
  refine and_congr_right fun hgrown => and_congr ?_ ?_
  · rw [findMove_step, h.flick, flickStep]
    have hpos := hgrown.1
    simp only [invalidFlickValue]
    split_ifs <;> omega
  · -- the growth is one turn more
    have hturns : (x.zigzag (k + 1)).turns = (x.zigzag k).turns +
        (if (x.zigzag k).Free x.cfg (x.flicks k) then 0 else 1) + 1 := by
      rw [zigzag, Zigzag.next, if_pos hgrown]
    rw [hturns, h.findMove]
    split_ifs <;> simp only <;> omega

/-- A call ends the search, or makes the next one. -/
theorem afterTest (h : x.Follows s k) :
    (x.Ends k → ∃ code stored, Mipi.afterTest x.cfg s (x.flicks (k + 1)) = .ret code stored) ∧
      (¬ x.Ends k → ∃ s', Mipi.afterTest x.cfg s (x.flicks (k + 1)) = .again s' ∧
        x.Follows s' (k + 1)) := by
  rw [Mipi.afterTest, Ends, ← h.passed_iff]
  by_cases hpassed : passedMin s (Mipi.findMove x.cfg s) (x.flicks (k + 1))
  · rw [if_pos hpassed]
    exact ⟨fun _ => ⟨_, _, rfl⟩, fun hends => absurd (.inl hpassed) hends⟩
  rw [if_neg hpassed, or_iff_right hpassed]
  obtain ⟨direction, hleft, hdirection, hturn⟩ := h.turnBack
  rw [hturn, judge]
  have hturns : ((x.zigzag (k + 1)).turns : ℤ) ≥ sMaxChangeDirectCnt ↔
      5 ≤ (x.zigzag (k + 1)).turns := by
    rw [sMaxChangeDirectCnt]
    omega
  have herrors : (x.failures (k + 1) : ℤ) ≥ sMaxErrorCnt ↔ 10 ≤ x.failures (k + 1) := by
    rw [sMaxErrorCnt]
    omega
  simp only [hturns, herrors]
  constructor
  · intro hends
    split_ifs with hmin hmax hless herr hcnt
    · exact ⟨_, _, rfl⟩
    · exact ⟨_, _, rfl⟩
    · exact ⟨_, _, rfl⟩
    · exact ⟨_, _, rfl⟩
    · exact ⟨_, _, rfl⟩
    · exact absurd hends (not_or.mpr ⟨hmin, not_or.mpr ⟨hcnt, herr⟩⟩)
  · intro hends
    obtain ⟨hmin, hends⟩ := not_or.mp hends
    obtain ⟨hcnt, herr⟩ := not_or.mp hends
    rw [if_neg hmin, if_neg fun hmax => hcnt hmax.2.2, if_neg herr, if_neg hcnt]
    exact ⟨_, rfl, rfl, rfl, hleft, hdirection, rfl, rfl⟩

theorem goesWrong_iff (h : x.Follows s k) (vcom : ℤ) :
    GoesWrong x.cfg ⟨s, vcom, x.flicks (k + 1)⟩ ↔ x.Stray k := by
  obtain ⟨direction, -, -, hturn⟩ := h.turnBack
  rw [GoesWrong, Stray, h.passed_iff, hturn, judgesWrong, h.flick]
  refine and_congr_right fun _ => ?_
  simp only [ValidFlick, invalidFlickValue, sMaxChangeDirectCnt, sMaxErrorCnt]
  split_ifs with hmin hmax hless <;> omega

/-- The calls from one on, and the values from there on. -/
theorem calls_iff {captures : ℕ → CaptureFlick} (n : ℕ) (h : x.Follows s k)
    (hcaptures : ∀ i, captures i = x.captures (k + i)) :
    (∀ c ∈ (zAutoFlick2 x.cfg n s captures).calls, ¬ GoesWrong x.cfg c) ↔
      ∀ i < n, (∀ j < i, ¬ x.Ends (k + j)) → ¬ x.Stray (k + i) := by
  induction n generalizing s k captures with
  | zero => simp [zAutoFlick2]
  | succ n ih =>
    have hflick : zFlickTest (captures 0) = x.flicks (k + 1) := congrArg zFlickTest (hcaptures 0)
    obtain ⟨hret, hagain⟩ := h.afterTest
    by_cases hends : x.Ends k
    · obtain ⟨code, stored, hafter⟩ := hret hends
      rw [← hflick] at hafter
      rw [zAutoFlick2_ret hafter]
      simp only [List.forall_mem_singleton, hflick]
      rw [h.goesWrong_iff]
      constructor
      · intro hstray i _ hno
        cases i with
        | zero => exact hstray
        | succ i => exact absurd hends (hno 0 (Nat.succ_pos i))
      · exact fun hall => hall 0 (Nat.succ_pos n) fun j hj => absurd hj (Nat.not_lt_zero j)
    · obtain ⟨s', hafter, hfollows⟩ := hagain hends
      rw [← hflick] at hafter
      rw [zAutoFlick2_again hafter]
      have hnext : ∀ i, captures (i + 1) = x.captures (k + 1 + i) := fun i => by
        rw [hcaptures, Nat.add_assoc, Nat.add_comm 1 i]
      simp only [List.forall_mem_cons, hflick]
      rw [ih hfollows hnext, h.goesWrong_iff]
      constructor
      · rintro ⟨hstray, hrest⟩ i hi hno
        cases i with
        | zero => exact hstray
        | succ i =>
          have hrest := hrest i (Nat.lt_of_succ_lt_succ hi) fun j hj => by
            rw [Nat.add_assoc, Nat.add_comm 1 j]
            exact hno (j + 1) (Nat.succ_lt_succ hj)
          rwa [Nat.add_assoc, Nat.add_comm 1 i] at hrest
      · intro hall
        refine ⟨hall 0 (Nat.succ_pos n) fun j hj => absurd hj (Nat.not_lt_zero j), ?_⟩
        intro i hi hno
        rw [Nat.add_assoc, Nat.add_comm 1 i]
        refine hall (i + 1) (Nat.succ_lt_succ hi) fun j hj => ?_
        cases j with
        | zero => exact hends
        | succ j =>
          have hj := hno j (Nat.lt_of_succ_lt_succ hj)
          rwa [Nat.add_assoc, Nat.add_comm 1 j] at hj

end Follows

/-- Whatever a search returns 0 with is a measurement that it or its caller has made, exactly when
the first value that ends it is not let pass. -/
theorem resultMeasured_iff (x : FlickInput) :
    (∀ n, ResultMeasured (.init x.initVcom x.flick)
        (zAutoFlick2 x.cfg n (.init x.initVcom x.flick) x.captures)) ↔
      ∀ k, (∀ j < k, ¬ x.Ends j) → ¬ x.Stray k := by
  have hcalls := fun n => x.follows_init.calls_iff n fun i => by rw [Nat.zero_add]
  simp only [Nat.zero_add] at hcalls
  constructor
  · intro hmeasured k
    have hvalid := (zAutoFlick2_valid_iff x.cfg (k + 1) _ x.captures).mp fun stored hstored => by
      obtain ⟨p, hp, -, hvalid⟩ := hmeasured (k + 1) stored hstored
      exact ⟨p, hp, hvalid⟩
    exact (hcalls (k + 1)).mp hvalid k (Nat.lt_succ_self k)
  · intro hstray n stored hstored
    have hgood := (hcalls n).mpr fun i _ => hstray i
    obtain ⟨p, rfl, hp⟩ := (zAutoFlick2_valid_iff x.cfg n _ x.captures).mpr hgood stored hstored
    exact ⟨p, rfl, zAutoFlick2_stored x.cfg n _ x.captures hstored, hp⟩

/-- A search whose measurements all fail returns 0, and has stored nothing. -/
theorem not_resultMeasured_failing :
    ¬ ∀ (x : FlickInput) (n : ℕ), ResultMeasured (.init x.initVcom x.flick)
      (zAutoFlick2 x.cfg n (.init x.initVcom x.flick) x.captures) := by
  intro h
  obtain ⟨p, hp, -⟩ := h ⟨⟨0, 255, 200, 1300⟩, 128, invalidFlickValue, fun _ => .outRange⟩ 10 none
    (by decide)
  cases hp

end FlickInput

end PanelTester.Mipi
