import Mathlib.Tactic
import Mathlib.Data.List.GetD

/-!
The registers of the bridge, `GetConfigPara` of `mipi2828.c`. Its ten loops look for the least
delay that is longer than a bound, in cycles of the byte clock or of the clock of the low power
mode, which is what the divider in `reg_bb` leaves. There is no result when a division is by
zero, or when a loop ends without a delay. `wellDefined_iff`: from 80 MHz on everything is as
it should be; below it the divider wraps around and the low power clock is zero.
-/

namespace PanelTester.Mipi

/-! ### The registers -/

/-- The variables that `mipi_timing_setting` sets. -/
structure MipiTiming where
  vsCount : ℕ
  vbpCount : ℕ
  vfpCount : ℕ
  vdpCount : ℕ
  hsCount : ℕ
  hbpCount : ℕ
  hfpCount : ℕ
  hdpCount : ℕ
  laneNum : ℕ
  bitNum : ℕ
  syncMode : ℕ
  dsifre : ℕ

/-- The fields of `CONFIG2828_STRUCT` that are written here. -/
structure Config2828 where
  regB1 : ℕ
  regB2 : ℕ
  regB3 : ℕ
  regB4 : ℕ
  regB5 : ℕ
  regB6 : ℕ
  regBa : ℕ
  regBb : ℕ
  regC9 : ℕ
  regCa : ℕ
  regCb : ℕ
  regCc : ℕ
  regCd : ℕ
  regCe : ℕ
  regD6 : ℕ
  regDe : ℕ

def uint8 (n : ℕ) : ℕ := n % 256

def uint16 (n : ℕ) : ℕ := n % 65536

/-- `(high << 8) + low`, stored in a register. -/
def pack (high low : ℕ) : ℕ := uint16 (high * 256 + low)

/-- The range of the PLL, in the high byte of `reg_ba`. -/
def pllRange (dsifre : ℕ) : ℕ :=
  if 62500000 ≤ dsifre ∧ dsifre < 125000000 then 0x0400
  else if 125000000 ≤ dsifre ∧ dsifre < 250000000 then 0x4400
  else if 250000000 ≤ dsifre ∧ dsifre < 500000000 then 0x8400
  else if 500000000 ≤ dsifre ∧ dsifre ≤ 1000000000 then 0xc400
  else 0

/-- `reg_ba` -/
def pllConfig (dsifre : ℕ) : ℕ := uint16 (pllRange dsifre + uint8 (dsifre / 6250000))

/-- `(dsifre/80000000) - 1`, in 32 bits and then in `reg_bb`. -/
def lpDivider (dsifre : ℕ) : ℕ := uint16 ((dsifre / 80000000 + (2 ^ 32 - 1)) % 2 ^ 32)

/-- `ByteClkMhz` -/
def byteClkMhz (dsifre : ℕ) : ℕ := dsifre / 8 / 1000000

/-- `LPClkKHz` -/
def lpClkKHz (dsifre : ℕ) : ℕ := dsifre / 8 / (lpDivider dsifre + 1) / 1000

/-! ### The delays -/

/-- The loops, each with the delay that it looks for. -/
inductive Delay
  | hsPrepare
  | hsZero
  | clkPrepare
  | clkZero
  | clkPost
  | clkPre
  | hsTrail
  | wakeUp
  | taGet
  | taGo

/-- What the loops differ in: `i*scale/clk > base + units/clk` for `i < limit`. -/
structure Search where
  limit : ℕ
  scale : ℕ
  base : ℕ
  units : ℕ

/-- The condition that ends a loop. -/
def Search.Holds (s : Search) (clk i : ℕ) : Prop := s.base + s.units / clk < i * s.scale / clk

instance (s : Search) (clk i : ℕ) : Decidable (s.Holds clk i) :=
  inferInstanceAs (Decidable (_ < _))

/-- A loop; none if it divides by zero, or ends with the variable not set. -/
def Search.run (s : Search) (clk : ℕ) : Option ℕ :=
  if clk = 0 then none else (List.range s.limit).find? fun i => s.Holds clk i

/-- The loops in cycles of the byte clock without `units` do not divide for them. -/
def Delay.search : Delay → Search
  | hsPrepare => ⟨256, 500, 48, 600⟩
  | hsZero => ⟨256, 500, 150, 1500⟩
  | clkPrepare => ⟨256, 500, 44, 0⟩
  | clkZero => ⟨256, 500, 280, 0⟩
  | clkPost => ⟨256, 500, 65, 7000⟩
  | clkPre => ⟨256, 500, 69, 650⟩
  | hsTrail => ⟨256, 500, 100, 1250⟩
  | wakeUp => ⟨65536, 1000, 1050, 0⟩
  | taGet => ⟨16, 500000, 275, 0⟩
  | taGo => ⟨16, 500000, 220, 0⟩

/-- The clock that a loop divides by. -/
def Delay.clock (dsifre : ℕ) : Delay → ℕ
  | wakeUp => lpClkKHz dsifre
  | taGet => lpClkKHz dsifre
  | taGo => lpClkKHz dsifre
  | _ => byteClkMhz dsifre

/-- What is kept of the index that a loop found. -/
def Delay.kept : Delay → ℕ → ℕ
  | hsPrepare, i => if 4 ≤ i then i - 4 else 0
  | clkPrepare, i => if 3 ≤ i then i - 3 else 0
  | _, i => i

/-- The variable that a loop sets, before it is cut to its type. -/
def Delay.find (dsifre : ℕ) (d : Delay) : Option ℕ :=
  (d.search.run (d.clock dsifre)).map d.kept

/-- `GetConfigPara`; `old` is what the registers hold before. -/
def getConfigPara (t : MipiTiming) (old : Config2828) : Option Config2828 := do
  let hsPrepare ← Delay.hsPrepare.find t.dsifre
  let hsZero ← Delay.hsZero.find t.dsifre
  let clkPrepare ← Delay.clkPrepare.find t.dsifre
  let clkZero ← Delay.clkZero.find t.dsifre
  let clkPost ← Delay.clkPost.find t.dsifre
  let clkPre ← Delay.clkPre.find t.dsifre
  let hsTrail ← Delay.hsTrail.find t.dsifre
  let wakeUp ← Delay.wakeUp.find t.dsifre
  let taGet ← Delay.taGet.find t.dsifre
  let taGo ← Delay.taGo.find t.dsifre
  let clkTrail := uint8 hsTrail
  some {
    regB1 := pack (uint8 t.vsCount) (uint8 t.hsCount)
    regB2 :=
      if t.syncMode = 0 then pack (uint16 t.vbpCount) (uint8 t.hbpCount)
      else if t.syncMode = 1 ∨ t.syncMode = 2 then
        pack (uint16 (t.vbpCount + t.vsCount)) (uint8 (t.hbpCount + t.hsCount))
      else old.regB2
    regB3 := pack (uint8 t.vfpCount) (uint8 t.hfpCount)
    regB4 := uint16 t.hdpCount
    regB5 := uint16 t.vdpCount
    regB6 :=
      -- pulse, event and burst mode
      if t.syncMode = 0 then
        if t.bitNum = 6 then 0x0002 else if t.bitNum = 8 then 0x0003 else old.regB6
      else if t.syncMode = 1 then
        if t.bitNum = 6 then 0x0006 else if t.bitNum = 8 then 0x0007 else old.regB6
      else if t.syncMode = 2 then
        if t.bitNum = 6 then 0x000a else if t.bitNum = 8 then 0x000b else old.regB6
      else old.regB6
    regBa := pllConfig t.dsifre
    regBb := lpDivider t.dsifre
    regC9 := pack (uint8 hsZero) (uint8 hsPrepare)
    regCa := pack (uint8 clkZero) (uint8 clkPrepare)
    regCb := pack (uint8 clkPre) (uint8 clkPost)
    regCc := pack clkTrail (uint8 hsTrail)
    regCd := uint16 wakeUp
    regCe := pack (uint8 taGo) (uint8 taGet)
    regD6 := 4
    regDe := uint16 (t.laneNum + (2 ^ 32 - 1)) }

/-- The part of a register that holds a delay. -/
def Delay.field (c : Config2828) : Delay → ℕ
  | hsPrepare => c.regC9 % 256
  | hsZero => c.regC9 / 256
  | clkPrepare => c.regCa % 256
  | clkZero => c.regCa / 256
  | clkPost => c.regCb % 256
  | clkPre => c.regCb / 256
  | hsTrail => c.regCc % 256
  | wakeUp => c.regCd
  | taGet => c.regCe % 256
  | taGo => c.regCe / 256

/-- Nothing is divided by zero, every loop finds the least index of those that meet its
condition, and the registers hold the whole of what was derived. -/
def WellDefined (t : MipiTiming) (old : Config2828) : Prop :=
  ∃ c, getConfigPara t old = some c ∧
    (∀ d : Delay, ∃ i < d.search.limit,
      IsLeast {i | d.search.Holds (d.clock t.dsifre) i} i ∧ d.field c = d.kept i) ∧
    c.regCc / 256 = c.regCc % 256 ∧
    c.regBb + 1 = t.dsifre / 80000000 ∧
    c.regBa / 256 * 256 = pllRange t.dsifre ∧ c.regBa % 256 = t.dsifre / 6250000

/-! ### The searches -/

/-- A loop that finds something finds the least. -/
theorem Search.run_eq_some_iff {s : Search} {clk i : ℕ} :
    s.run clk = some i ↔ clk ≠ 0 ∧ i < s.limit ∧ IsLeast {i | s.Holds clk i} i := by
  rw [Search.run, Option.ite_none_left_eq_some, List.find?_range_eq_some, List.mem_range]
  apply and_congr_right
  intro _
  constructor
  · rintro ⟨hi, hlt, hleast⟩
    refine ⟨hlt, of_decide_eq_true hi, ?_⟩
    intro j hj
    by_contra hji
    have hfirst := hleast j (not_le.mp hji)
    simp only [Bool.not_eq_true', decide_eq_false_iff_not] at hfirst
    exact hfirst hj
  · rintro ⟨hlt, hi, hleast⟩
    refine ⟨decide_eq_true hi, hlt, ?_⟩
    intro j hj
    simp only [Bool.not_eq_true', decide_eq_false_iff_not]
    exact fun hholds => absurd (hleast hholds) (not_le.mpr hj)

/-- A loop finds something if its last index is far enough. -/
theorem Search.exists_run {s : Search} {clk : ℕ} (hclk : 0 < clk) (hlimit : 0 < s.limit)
    (hfar : (s.base + 1) * clk + s.units ≤ (s.limit - 1) * s.scale) : ∃ i, s.run clk = some i := by
  have hlast : s.Holds clk (s.limit - 1) := by
    have hdiv : ((s.base + 1) * clk + s.units) / clk = s.base + 1 + s.units / clk := by
      rw [Nat.add_comm, Nat.add_mul_div_right _ _ hclk, Nat.add_comm]
    have hle := Nat.div_le_div_right (c := clk) hfar
    rw [hdiv] at hle
    rw [Search.Holds]
    omega
  rw [Search.run, if_neg hclk.ne', ← Option.isSome_iff_exists, List.find?_isSome]
  exact ⟨s.limit - 1, List.mem_range.mpr (by omega), decide_eq_true hlast⟩

/-! ### The clocks -/

section

variable {dsifre : ℕ}

theorem lpDivider_add_one (hlow : 80000000 ≤ dsifre) (hhigh : dsifre ≤ 1000000000) :
    lpDivider dsifre + 1 = dsifre / 80000000 := by
  simp only [lpDivider, uint16]
  omega

theorem byteClkMhz_bounds (hlow : 80000000 ≤ dsifre) (hhigh : dsifre ≤ 1000000000) :
    10 ≤ byteClkMhz dsifre ∧ byteClkMhz dsifre ≤ 125 := by
  rw [byteClkMhz]
  omega

theorem lpClkKHz_bounds (hlow : 80000000 ≤ dsifre) (hhigh : dsifre ≤ 1000000000) :
    10000 ≤ lpClkKHz dsifre ∧ lpClkKHz dsifre < 20000 := by
  have hpos : 0 < dsifre / 80000000 := by omega
  rw [lpClkKHz, lpDivider_add_one hlow hhigh]
  have hge : 10000000 ≤ dsifre / 8 / (dsifre / 80000000) := by
    rw [Nat.le_div_iff_mul_le hpos]
    omega
  have hlt : dsifre / 8 / (dsifre / 80000000) < 20000000 := by
    rw [Nat.div_lt_iff_lt_mul hpos]
    omega
  omega

/-- The divider wraps around. -/
theorem lpClkKHz_eq_zero (hhigh : dsifre < 80000000) : lpClkKHz dsifre = 0 := by
  have hdiv : dsifre / 80000000 = 0 := by omega
  have hwrap : lpDivider dsifre + 1 = 65536 := by rw [lpDivider, hdiv]; rfl
  rw [lpClkKHz, hwrap]
  omega

theorem Delay.exists_run (hlow : 80000000 ≤ dsifre) (hhigh : dsifre ≤ 1000000000) (d : Delay) :
    ∃ i, d.search.run (d.clock dsifre) = some i := by
  have hbyte := byteClkMhz_bounds hlow hhigh
  have hlp := lpClkKHz_bounds hlow hhigh
  apply Search.exists_run
  · cases d <;> simp only [clock] <;> omega
  · cases d <;> simp only [search] <;> omega
  · cases d <;> simp only [clock, search] <;> omega

end

/-! ### The derivation -/

theorem Delay.kept_le (d : Delay) (i : ℕ) : d.kept i ≤ i := by
  cases d with
  | hsPrepare =>
      rw [kept]
      split
      · exact Nat.sub_le i 4
      · exact Nat.zero_le i
  | clkPrepare =>
      rw [kept]
      split
      · exact Nat.sub_le i 3
      · exact Nat.zero_le i
  | _ => exact le_rfl

/-- Two bytes of a register, read back. -/
theorem pack_bytes {high low : ℕ} (hhigh : high < 256) (hlow : low < 256) :
    pack (uint8 high) (uint8 low) / 256 = high ∧ pack (uint8 high) (uint8 low) % 256 = low := by
  simp only [pack, uint8, uint16]
  omega

theorem pllConfig_bytes {dsifre : ℕ} (hhigh : dsifre ≤ 1000000000) :
    pllConfig dsifre / 256 * 256 = pllRange dsifre ∧
      pllConfig dsifre % 256 = dsifre / 6250000 := by
  have hrange : pllRange dsifre < 65536 ∧ pllRange dsifre % 256 = 0 := by
    rw [pllRange]
    split_ifs <;> decide
  simp only [pllConfig, uint8, uint16]
  omega

/-- From 80 MHz on everything is as it should be. -/
theorem wellDefined_of_le {t : MipiTiming} {old : Config2828} (hlow : 80000000 ≤ t.dsifre)
    (hhigh : t.dsifre ≤ 1000000000) : WellDefined t old := by
  choose index hrun using Delay.exists_run hlow hhigh
  have hleast : ∀ d : Delay, index d < d.search.limit ∧
      IsLeast {i | d.search.Holds (d.clock t.dsifre) i} (index d) :=
    fun d => (Search.run_eq_some_iff.mp (hrun d)).2
  have hfind : ∀ d : Delay, d.find t.dsifre = some (d.kept (index d)) := fun d => by
    rw [Delay.find, hrun d]
    rfl
  have hkept : ∀ d : Delay, d.kept (index d) < d.search.limit := fun d =>
    (d.kept_le (index d)).trans_lt (hleast d).1
  refine ⟨_, by simp only [getConfigPara, hfind, Option.bind_eq_bind, Option.bind_some]; rfl,
    fun d => ⟨index d, (hleast d).1, (hleast d).2, ?_⟩, ?_, ?_, ?_⟩
  · cases d with
    | hsPrepare => exact (pack_bytes (hkept .hsZero) (hkept .hsPrepare)).2
    | hsZero => exact (pack_bytes (hkept .hsZero) (hkept .hsPrepare)).1
    | clkPrepare => exact (pack_bytes (hkept .clkZero) (hkept .clkPrepare)).2
    | clkZero => exact (pack_bytes (hkept .clkZero) (hkept .clkPrepare)).1
    | clkPost => exact (pack_bytes (hkept .clkPre) (hkept .clkPost)).2
    | clkPre => exact (pack_bytes (hkept .clkPre) (hkept .clkPost)).1
    | hsTrail => exact (pack_bytes (hkept .hsTrail) (hkept .hsTrail)).2
    | wakeUp => exact Nat.mod_eq_of_lt (hkept .wakeUp)
    | taGet =>
        exact (pack_bytes ((hkept .taGo).trans (by decide)) ((hkept .taGet).trans (by decide))).2
    | taGo =>
        exact (pack_bytes ((hkept .taGo).trans (by decide)) ((hkept .taGet).trans (by decide))).1
  · have hboth := pack_bytes (hkept .hsTrail) (hkept .hsTrail)
    exact hboth.1.trans hboth.2.symm
  · exact lpDivider_add_one hlow hhigh
  · exact pllConfig_bytes hhigh

/-- Below 80 MHz the loops in cycles of the low power clock divide by zero. -/
theorem getConfigPara_eq_none {t : MipiTiming} (hhigh : t.dsifre < 80000000) (old : Config2828) :
    getConfigPara t old = none := by
  have hzero : Delay.wakeUp.clock t.dsifre = 0 := lpClkKHz_eq_zero hhigh
  have hwakeUp : Delay.wakeUp.find t.dsifre = none := by
    rw [Delay.find, hzero]
    rfl
  simp only [getConfigPara, hwakeUp, Option.bind_eq_bind, Option.bind_none, Option.bind_fun_none]

/-- Up to the highest frequency of the PLL, the derivation is well defined exactly from 80 MHz
on. -/
theorem wellDefined_iff (t : MipiTiming) (old : Config2828)
    (hhigh : t.dsifre ≤ 1000000000) : WellDefined t old ↔ 80000000 ≤ t.dsifre := by
  constructor
  · rintro ⟨c, hrun, -⟩
    by_contra hlt
    rw [getConfigPara_eq_none (not_le.mp hlt)] at hrun
    exact absurd hrun (by simp)
  · exact fun h => wellDefined_of_le h hhigh

/-- The frequency that the program starts with. -/
theorem wellDefined_default :
    WellDefined ⟨4, 4, 4, 800, 20, 15, 200, 1280, 4, 8, 1, 725000000⟩
        ⟨0, 0, 0, 0, 0, 0, 0, 0, 0, 0, 0, 0, 0, 0, 0, 0⟩ ↔
      80000000 ≤ 725000000 :=
  wellDefined_iff _ _ (by decide)

/-- The lowest frequency of the PLL. -/
theorem not_wellDefined_lowest :
    62500000 ≤ (⟨4, 4, 4, 800, 20, 15, 200, 1280, 4, 8, 1, 62500000⟩ : MipiTiming).dsifre ∧
      ¬ WellDefined ⟨4, 4, 4, 800, 20, 15, 200, 1280, 4, 8, 1, 62500000⟩
        ⟨0, 0, 0, 0, 0, 0, 0, 0, 0, 0, 0, 0, 0, 0, 0, 0⟩ := by
  refine ⟨le_rfl, ?_⟩
  rintro ⟨c, hrun, -⟩
  rw [getConfigPara_eq_none (by decide)] at hrun
  exact absurd hrun (by simp)

end PanelTester.Mipi
