import PanelTester.Library.CString
import PanelTester.Library.Steps

/-!
The probes that are plugged in and out, `MSG_LCD_CMD_TTYUSB_ADD` and `MSG_LCD_CMD_TTYUSB_REMOVE`
of `pubLcdTask.c`, with the table of `ca310.c`. The task gives the channels 1 to 4 to its four
entries, and the table has the entries 0 and 1, though its functions let channel 2 pass. So the
channels are kept apart, and the table is left with the second probe.
-/

namespace PanelTester.Lcd

open Library

/-- `MAX_LCD_DEVICE_NUMBER` -/
def maxLcdDeviceNumber : ℕ := 4

/-- `MAX_LCD_PROBE_NUMS` -/
def maxLcdProbeNums : ℕ := 2

/-- `MAX_CA210_DEV_NAME_LEN` -/
def maxCa210DevNameLen : ℕ := 32

inductive WorkMode
  | idle
  | xylv
  | flick
  deriving DecidableEq

/-- `ca210_probe_info_t` -/
structure ProbeInfo where
  lcdChannel : ℕ
  uartFd : ℤ
  devName : Str
  workMode : WorkMode
  deriving DecidableEq

/-- An entry of zeros. -/
def ProbeInfo.zero : ProbeInfo := ⟨0, 0, [], .idle⟩

/-- An access to `s_ca210_probe[lcd_channel]`, which has no result outside of the table. -/
def access (probes : List ProbeInfo) (lcdChannel : ℕ) (f : ProbeInfo → ProbeInfo) :
    Option (List ProbeInfo) :=
  if lcdChannel < probes.length then some (probes.modify lcdChannel f) else none

/-- The test of the channel at the start of the functions of `ca310.c`. -/
def invalidChannel (lcdChannel : ℕ) : Prop := lcdChannel > maxLcdProbeNums

instance (lcdChannel : ℕ) : Decidable (invalidChannel lcdChannel) :=
  inferInstanceAs (Decidable (_ > _))

def ca210Reset (probes : List ProbeInfo) (lcdChannel : ℕ) : Option (ℤ × List ProbeInfo) :=
  if invalidChannel lcdChannel then some (-1, probes)
  else (access probes lcdChannel fun _ => { ProbeInfo.zero with uartFd := -1 }).map fun p => (0, p)

/-- `ca210_open`, where `uart_open` returns `fd`. -/
def ca210Open (probes : List ProbeInfo) (lcdChannel : ℕ) (pDevName : Str) (fd : ℤ) :
    Option (ℤ × List ProbeInfo) :=
  if invalidChannel lcdChannel then some (-1, probes)
  else
    (strcpy maxCa210DevNameLen pDevName).bind fun devName =>
      (access probes lcdChannel fun _ => ⟨lcdChannel, fd, devName, .idle⟩).map fun p => (0, p)

def ca210Close (probes : List ProbeInfo) (lcdChannel : ℕ) : Option (ℤ × List ProbeInfo) :=
  if invalidChannel lcdChannel then some (-1, probes)
  else
    (access probes lcdChannel fun p =>
      if p.uartFd > 0 then { p with uartFd := -1, workMode := .idle } else p).map fun p => (0, p)

/-- `ca210_stop_flick_mode`, where the probe answers that it did or not. -/
def ca210StopFlickMode (probes : List ProbeInfo) (lcdChannel : ℕ) (answered : Bool) :
    Option (ℤ × List ProbeInfo) :=
  if invalidChannel lcdChannel then some (-1, probes)
  else
    (access probes lcdChannel fun p =>
      if answered then { p with workMode := .idle } else p).map fun p =>
        (if answered then 0 else -1, p)

/-- `lcd_device_t`; the channel of a free entry is 0. -/
structure LcdDevice where
  name : Str
  channel : ℕ
  deriving DecidableEq

def LcdDevice.zero : LcdDevice := ⟨[], 0⟩

/-- What the task keeps: `m_lcd_list`, `m_lcd_list_version` and `s_ca210_probe`. -/
structure LcdTask where
  list : List LcdDevice
  version : UInt32
  probes : List ProbeInfo
  deriving DecidableEq

/-- `initLcd` -/
def initLcd : LcdTask where
  list := List.replicate maxLcdDeviceNumber .zero
  version := 0
  probes := List.replicate maxLcdProbeNums .zero

/-- The first channel that no entry has, or 0. -/
def newChannel (list : List LcdDevice) : ℕ :=
  ([1, 2, 3, 4].find? fun tmp => !list.any fun lcd => lcd.channel > 0 && lcd.channel = tmp).getD 0

def nextVersion (ver : UInt32) : UInt32 := if ver = 0xffffffff then 1 else ver + 1

/-- The messages, with what the port and the probe do to an open. -/
inductive Message
  | ttyusbAdd (devname : Str) (fd : ℤ) (answered : Bool)
  | ttyusbRemove (devname : Str)

/-- `MSG_LCD_CMD_TTYUSB_ADD` -/
def LcdTask.ttyusbAdd (s : LcdTask) (devname : Str) (fd : ℤ) (answered : Bool) : Option LcdTask :=
  match s.list.findIdx? fun lcd => lcd.channel = 0 with
  | none => some s
  | some i =>
      let channel := newChannel s.list
      if channel > 0 then
        (ca210Reset s.probes channel).bind fun (_, probes) =>
          (strcpy 128 ("/dev/".toList ++ devname)).bind fun devPathName =>
            (ca210Open probes channel devPathName fd).bind fun (ret, probes) =>
              if ret = 0 then
                (ca210StopFlickMode probes channel answered).bind fun (_, probes) =>
                  (strcpy 64 devname).map fun name =>
                    { list := s.list.set i ⟨name, channel⟩
                      version := nextVersion s.version
                      probes }
              else some { s with probes }
      else some s

/-- `MSG_LCD_CMD_TTYUSB_REMOVE` -/
def LcdTask.ttyusbRemove (s : LcdTask) (devname : Str) : Option LcdTask :=
  match s.list.findIdx? fun lcd => lcd.channel > 0 && devname = lcd.name with
  | none => some s
  | some i =>
      (ca210Close s.probes (s.list.getD i .zero).channel).map fun (_, probes) =>
        { list := s.list.set i .zero, version := nextVersion s.version, probes }

def LcdTask.perform (s : LcdTask) : Message → Option LcdTask
  | .ttyusbAdd devname fd answered => s.ttyusbAdd devname fd answered
  | .ttyusbRemove devname => s.ttyusbRemove devname

/-! ### The channels -/

theorem nextVersion_ne (ver : UInt32) : nextVersion ver ≠ ver := by
  rw [nextVersion]
  split_ifs with h
  · rw [h]
    decide
  · intro heq
    have hzero : (1 : UInt32) = 0 := by
      calc (1 : UInt32) = ver + 1 - ver := by rw [UInt32.add_comm, UInt32.add_sub_cancel]
        _ = 0 := by rw [heq, UInt32.sub_self]
    exact absurd hzero (by decide)

/-- No two entries have the same channel. -/
def Distinct (list : List LcdDevice) : Prop :=
  list.Pairwise fun a b => a.channel ≠ 0 → a.channel ≠ b.channel

/-- An entry gets a channel that no other has. -/
theorem Distinct.set {list : List LcdDevice} (h : Distinct list) (i : ℕ) {lcd : LcdDevice}
    (hfresh : lcd.channel ≠ 0 → ∀ other ∈ list, other.channel ≠ lcd.channel) :
    Distinct (list.set i lcd) := by
  rw [Distinct] at h ⊢
  rw [List.pairwise_iff_getElem] at h ⊢
  intro j k hj hk hjk
  rw [List.length_set] at hj hk
  rw [List.getElem_set, List.getElem_set]
  split_ifs with hij hik hik
  · omega
  · exact fun hne => (hfresh hne _ (List.getElem_mem hk)).symm
  · intro hne heq
    exact hfresh (heq ▸ hne) _ (List.getElem_mem hj) heq
  · exact h j k hj hk hjk

theorem newChannel_one {list : List LcdDevice} (h : ∀ lcd ∈ list, lcd.channel ≠ 1) :
    newChannel list = 1 := by
  have hfree : (list.any fun lcd => lcd.channel > 0 && lcd.channel = 1) = false := by
    rw [List.any_eq_false]
    intro lcd hlcd
    simp [h lcd hlcd]
  simp [newChannel, hfree]

theorem newChannel_two {list : List LcdDevice} (hused : ∃ lcd ∈ list, lcd.channel = 1)
    (h : ∀ lcd ∈ list, lcd.channel ≠ 2) : newChannel list = 2 := by
  have hone : (list.any fun lcd => lcd.channel > 0 && lcd.channel = 1) = true := by
    obtain ⟨lcd, hlcd, heq⟩ := hused
    rw [List.any_eq_true]
    exact ⟨lcd, hlcd, by simp [heq]⟩
  have htwo : (list.any fun lcd => lcd.channel > 0 && lcd.channel = 2) = false := by
    rw [List.any_eq_false]
    intro lcd hlcd
    simp [h lcd hlcd]
  simp [newChannel, hone, htwo]

/-! ### The table -/

theorem access_eq {probes : List ProbeInfo} {lcdChannel : ℕ} (h : lcdChannel < probes.length)
    (f : ProbeInfo → ProbeInfo) : access probes lcdChannel f = some (probes.modify lcdChannel f) :=
  if_pos h

section

variable {probes : List ProbeInfo} {lcdChannel : ℕ}

theorem not_invalidChannel (h : lcdChannel < maxLcdProbeNums) : ¬invalidChannel lcdChannel :=
  Nat.not_lt.mpr h.le

theorem ca210Reset_eq (hprobes : probes.length = maxLcdProbeNums)
    (h : lcdChannel < maxLcdProbeNums) :
    ∃ probes', ca210Reset probes lcdChannel = some (0, probes') ∧
      probes'.length = maxLcdProbeNums := by
  have hperform : ca210Reset probes lcdChannel =
      some (0, probes.modify lcdChannel fun _ => { ProbeInfo.zero with uartFd := -1 }) := by
    rw [ca210Reset, if_neg (not_invalidChannel h), access_eq (hprobes.symm ▸ h)]
    rfl
  exact ⟨_, hperform, (List.length_modify ..).trans hprobes⟩

theorem ca210Open_eq (hprobes : probes.length = maxLcdProbeNums) (h : lcdChannel < maxLcdProbeNums)
    {pDevName : Str} (hname : pDevName.length < maxCa210DevNameLen) (fd : ℤ) :
    ∃ probes', ca210Open probes lcdChannel pDevName fd = some (0, probes') ∧
      probes'.length = maxLcdProbeNums := by
  have hperform : ca210Open probes lcdChannel pDevName fd =
      some (0, probes.modify lcdChannel fun _ => ⟨lcdChannel, fd, pDevName, .idle⟩) := by
    rw [ca210Open, if_neg (not_invalidChannel h), strcpy_eq hname, Option.bind_some,
      access_eq (hprobes.symm ▸ h)]
    rfl
  exact ⟨_, hperform, (List.length_modify ..).trans hprobes⟩

theorem ca210StopFlickMode_eq (hprobes : probes.length = maxLcdProbeNums)
    (h : lcdChannel < maxLcdProbeNums) (answered : Bool) :
    ∃ ret probes', ca210StopFlickMode probes lcdChannel answered = some (ret, probes') ∧
      probes'.length = maxLcdProbeNums := by
  have hperform : ca210StopFlickMode probes lcdChannel answered = some (if answered then 0 else -1,
      probes.modify lcdChannel fun p => if answered then { p with workMode := .idle } else p) := by
    rw [ca210StopFlickMode, if_neg (not_invalidChannel h), access_eq (hprobes.symm ▸ h)]
    rfl
  exact ⟨_, _, hperform, (List.length_modify ..).trans hprobes⟩

theorem ca210Close_eq (hprobes : probes.length = maxLcdProbeNums)
    (h : lcdChannel < maxLcdProbeNums) :
    ∃ ret probes', ca210Close probes lcdChannel = some (ret, probes') ∧
      probes'.length = maxLcdProbeNums := by
  have hperform : ca210Close probes lcdChannel = some (0, probes.modify lcdChannel fun p =>
      if p.uartFd > 0 then { p with uartFd := -1, workMode := .idle } else p) := by
    rw [ca210Close, if_neg (not_invalidChannel h), access_eq (hprobes.symm ▸ h)]
    rfl
  exact ⟨_, _, hperform, (List.length_modify ..).trans hprobes⟩

end

/-! ### A run -/

/-- What is promised of a message: the channels are kept apart, a probe that is removed frees
its own entry, a list that changes has a new version, and the channels are in the table. -/
structure LcdTask.Safe (s : LcdTask) (m : Message) (s' : LcdTask) : Prop where
  channels : ∀ lcd ∈ s'.list, lcd.channel ≠ 0 → 1 ≤ lcd.channel ∧ lcd.channel ≤ 4
  distinct : Distinct s'.list
  removed : ∀ devname, m = .ttyusbRemove devname →
    (∃ i lcd, s.list[i]? = some lcd ∧ lcd.channel ≠ 0 ∧ lcd.name = devname ∧
      s'.list = s.list.set i .zero) ∨
    ((∀ lcd ∈ s.list, lcd.channel ≠ 0 → lcd.name ≠ devname) ∧ s'.list = s.list)
  version : s'.list ≠ s.list → s'.version ≠ s.version
  inside : ∀ lcd ∈ s'.list, lcd.channel < maxLcdProbeNums

/-- No message of a run leaves the table, and each does what is promised. -/
def LcdTask.SafeRun (s : LcdTask) : List Message → Prop
  | [] => True
  | m :: ms => ∃ s', s.perform m = some s' ∧ s.Safe m s' ∧ s'.SafeRun ms

/-- A probe is added when there is none, and its name fits `dev_name`. -/
def LcdTask.Fits (s : LcdTask) : Message → Prop
  | .ttyusbAdd devname _ _ => (∀ lcd ∈ s.list, lcd.channel = 0) ∧
      ("/dev/".toList ++ devname).length < maxCa210DevNameLen
  | .ttyusbRemove _ => True

def LcdTask.AllFit (s : LcdTask) : List Message → Prop
  | [] => True
  | m :: ms => s.Fits m ∧ ∀ s', s.perform m = some s' → s'.AllFit ms

/-- What holds in the runs that do not leave the table: only channel 1 is in use. -/
structure LcdTask.Inv (s : LcdTask) : Prop where
  list : s.list.length = maxLcdDeviceNumber
  probes : s.probes.length = maxLcdProbeNums
  channel : ∀ lcd ∈ s.list, lcd.channel ≤ 1
  distinct : Distinct s.list

theorem initLcd_inv : initLcd.Inv where
  list := List.length_replicate
  probes := List.length_replicate
  channel := by
    intro lcd hlcd
    rw [List.eq_of_mem_replicate hlcd]
    exact Nat.zero_le 1
  distinct := by
    apply List.pairwise_iff_getElem.mpr
    intro i j hi hj _ hne
    rw [List.eq_of_mem_replicate (List.getElem_mem hi)] at hne
    exact absurd rfl hne

variable {s : LcdTask}

/-- The list with another entry. -/
theorem LcdTask.Inv.set (h : s.Inv) (i : ℕ) (lcd : LcdDevice) (version : UInt32)
    {probes : List ProbeInfo} (hprobes : probes.length = maxLcdProbeNums) (hle : lcd.channel ≤ 1)
    (hfresh : lcd.channel ≠ 0 → ∀ other ∈ s.list, other.channel ≠ lcd.channel) :
    LcdTask.Inv { list := s.list.set i lcd, version, probes } := by
  refine ⟨(List.length_set ..).trans h.list, hprobes, fun other hother => ?_,
    h.distinct.set i hfresh⟩
  rcases List.mem_or_eq_of_mem_set hother with hmem | rfl
  · exact h.channel other hmem
  · exact hle

/-- The promises that follow from the invariant. -/
theorem LcdTask.Inv.safe (h : s.Inv) {m : Message} {s₀ : LcdTask}
    (hremoved : ∀ devname, m = .ttyusbRemove devname →
      (∃ i lcd, s₀.list[i]? = some lcd ∧ lcd.channel ≠ 0 ∧ lcd.name = devname ∧
        s.list = s₀.list.set i .zero) ∨
      ((∀ lcd ∈ s₀.list, lcd.channel ≠ 0 → lcd.name ≠ devname) ∧ s.list = s₀.list))
    (hversion : s.list ≠ s₀.list → s.version ≠ s₀.version) : s₀.Safe m s where
  channels := by
    intro lcd hlcd hne
    have hle := h.channel lcd hlcd
    omega
  distinct := h.distinct
  removed := hremoved
  version := hversion
  inside := by
    intro lcd hlcd
    exact Nat.lt_succ_of_le (h.channel lcd hlcd)

/-- One row is free at least, since only one can be in use. -/
theorem LcdTask.Inv.exists_free (h : s.Inv) :
    ∃ i, (s.list.findIdx? fun lcd => lcd.channel = 0) = some i := by
  by_contra hno
  have hnone : (s.list.findIdx? fun lcd => lcd.channel = 0) = none :=
    Option.eq_none_iff_forall_ne_some.mpr fun i hi => hno ⟨i, hi⟩
  rw [List.findIdx?_eq_none_iff] at hnone
  have hused : ∀ lcd ∈ s.list, lcd.channel = 1 := by
    intro lcd hlcd
    have hne := hnone lcd hlcd
    rw [decide_eq_false_iff_not] at hne
    have hle := h.channel lcd hlcd
    omega
  have hlength : 1 < s.list.length := by
    rw [h.list]
    decide
  have hpair := List.pairwise_iff_getElem.mp h.distinct 0 1 (by omega) hlength Nat.zero_lt_one
  rw [hused _ (List.getElem_mem _), hused _ (List.getElem_mem _)] at hpair
  exact hpair Nat.one_ne_zero rfl

theorem newChannel_free {list : List LcdDevice} (hfree : ∀ lcd ∈ list, lcd.channel = 0) :
    newChannel list = 1 :=
  newChannel_one fun lcd hlcd => by
    rw [hfree lcd hlcd]
    exact Nat.zero_ne_one

theorem LcdTask.Inv.newChannel_used (h : s.Inv) (hused : ¬ ∀ lcd ∈ s.list, lcd.channel = 0) :
    newChannel s.list = 2 := by
  rw [not_forall] at hused
  obtain ⟨lcd, hused⟩ := hused
  obtain ⟨hlcd, hne⟩ := Classical.not_imp.mp hused
  have hle := h.channel lcd hlcd
  refine newChannel_two ⟨lcd, hlcd, by omega⟩ fun other hother => ?_
  have hle' := h.channel other hother
  omega

/-- The only probe is plugged in. -/
theorem LcdTask.Inv.ttyusbAdd (h : s.Inv) {devname : Str} (fd : ℤ) (answered : Bool)
    (hfree : ∀ lcd ∈ s.list, lcd.channel = 0)
    (hname : ("/dev/".toList ++ devname).length < maxCa210DevNameLen) :
    ∃ s', s.perform (.ttyusbAdd devname fd answered) = some s' ∧
      s.Safe (.ttyusbAdd devname fd answered) s' ∧ s'.Inv := by
  have hlist := h.list
  have hprobes := h.probes
  have hfirst : (s.list.findIdx? fun lcd => lcd.channel = 0) = some 0 := by
    cases hs : s.list with
    | nil => simp [hs, maxLcdDeviceNumber] at hlist
    | cons lcd list =>
        rw [hs] at hfree
        simp [List.findIdx?_cons, hfree lcd List.mem_cons_self]
  have hchannel : newChannel s.list = 1 := newChannel_free hfree
  have hmax : maxCa210DevNameLen = 32 := rfl
  have hshort : devname.length < 64 := by
    rw [List.length_append] at hname
    omega
  have hone : 1 < maxLcdProbeNums := by decide
  obtain ⟨probes₀, hreset, hprobes₀⟩ := ca210Reset_eq hprobes hone
  obtain ⟨probes₁, hopen, hprobes₁⟩ := ca210Open_eq hprobes₀ hone hname fd
  obtain ⟨ret, probes₂, hstop, hprobes₂⟩ := ca210StopFlickMode_eq hprobes₁ hone answered
  have hperform : s.perform (.ttyusbAdd devname fd answered) = some
      { list := s.list.set 0 ⟨devname, 1⟩
        version := nextVersion s.version
        probes := probes₂ } := by
    rw [LcdTask.perform, LcdTask.ttyusbAdd, hfirst]
    simp only [hchannel]
    rw [if_pos Nat.zero_lt_one, hreset, Option.bind_some, strcpy_eq (by omega), Option.bind_some,
      hopen, Option.bind_some, if_pos rfl, hstop, Option.bind_some, strcpy_eq hshort]
    rfl
  have hinv := h.set 0 ⟨devname, 1⟩ (nextVersion s.version) hprobes₂ le_rfl
    fun _ lcd hlcd heq => by
      rw [hfree lcd hlcd] at heq
      exact absurd heq Nat.zero_ne_one
  exact ⟨_, hperform, hinv.safe (fun _ hm => by simp at hm) fun _ => nextVersion_ne _, hinv⟩

/-- A probe is plugged out. -/
theorem LcdTask.Inv.ttyusbRemove (h : s.Inv) (devname : Str) :
    ∃ s', s.perform (.ttyusbRemove devname) = some s' ∧ s.Safe (.ttyusbRemove devname) s' ∧
      s'.Inv := by
  cases hfind : s.list.findIdx? fun lcd => lcd.channel > 0 && devname = lcd.name with
  | none =>
      have hperform : s.perform (.ttyusbRemove devname) = some s := by
        rw [LcdTask.perform, LcdTask.ttyusbRemove, hfind]
      rw [List.findIdx?_eq_none_iff] at hfind
      refine ⟨s, hperform, h.safe (fun name hm => .inr ⟨fun lcd hlcd hne heq => ?_, rfl⟩)
        fun hne => absurd rfl hne, h⟩
      obtain rfl : devname = name := by simpa using hm
      have hno := hfind lcd hlcd
      rw [Bool.and_eq_false_iff, decide_eq_false_iff_not, decide_eq_false_iff_not] at hno
      rcases hno with hno | hno
      · omega
      · exact hno heq.symm
  | some i =>
      obtain ⟨hi, hat, -⟩ := List.findIdx?_eq_some_iff_getElem.mp hfind
      rw [Bool.and_eq_true, decide_eq_true_iff, decide_eq_true_iff] at hat
      have hget : s.list.getD i .zero = s.list[i] := (List.getElem_eq_getD _).symm
      have hle := h.channel _ (List.getElem_mem hi)
      obtain ⟨ret, probes, hclose, hprobes⟩ := ca210Close_eq h.probes
        (show (s.list[i]).channel < maxLcdProbeNums from Nat.lt_succ_of_le hle)
      have hperform : s.perform (.ttyusbRemove devname) = some
          { list := s.list.set i .zero, version := nextVersion s.version, probes } := by
        rw [LcdTask.perform, LcdTask.ttyusbRemove, hfind]
        simp only [hget]
        rw [hclose]
        rfl
      have hinv := h.set i .zero (nextVersion s.version) hprobes (Nat.zero_le 1)
        fun hne => absurd rfl hne
      refine ⟨_, hperform, hinv.safe (fun name hm => .inl ⟨i, s.list[i], ?_, ?_, ?_, rfl⟩)
        fun _ => nextVersion_ne _, hinv⟩
      · exact List.getElem?_eq_getElem hi
      · omega
      · obtain rfl : devname = name := by simpa using hm
        exact hat.2.symm

/-- A probe that is added beside another gets channel 2, which is not in the table, and a name too
long is not in `dev_name`. -/
theorem LcdTask.Inv.fits (h : s.Inv) {m : Message} {s' : LcdTask}
    (hperform : s.perform m = some s') :
    s.Fits m := by
  cases m with
  | ttyusbRemove devname => trivial
  | ttyusbAdd devname fd answered =>
      by_contra hunfit
      have hprobes := h.probes
      obtain ⟨i, hi⟩ := h.exists_free
      rw [LcdTask.perform, LcdTask.ttyusbAdd, hi] at hperform
      simp only at hperform
      by_cases hfree : ∀ lcd ∈ s.list, lcd.channel = 0
      · -- the probe is the only one, and its name runs over `dev_name`
        have hlong : ¬("/dev/".toList ++ devname).length < maxCa210DevNameLen :=
          fun hname => hunfit ⟨hfree, hname⟩
        have hchannel : newChannel s.list = 1 := newChannel_free hfree
        have hopen : ∀ probes, ca210Open probes 1 ("/dev/".toList ++ devname) fd = none := by
          intro probes
          rw [ca210Open, if_neg (by decide), strcpy, if_neg hlong]
          rfl
        rw [hchannel, if_pos Nat.zero_lt_one] at hperform
        obtain ⟨r, -, hperform⟩ := Option.bind_eq_some_iff.mp hperform
        obtain ⟨path, hpath, hperform⟩ := Option.bind_eq_some_iff.mp hperform
        obtain rfl : "/dev/".toList ++ devname = path := by
          rw [strcpy] at hpath
          split_ifs at hpath
          exact Option.some.inj hpath
        rw [hopen] at hperform
        exact absurd hperform (by simp)
      · -- the channel beside it is not in the table of the probes
        have hchannel := h.newChannel_used hfree
        have hreset : ca210Reset s.probes 2 = none := by
          rw [ca210Reset, if_neg (by decide), access, if_neg (by rw [hprobes]; decide)]
          rfl
        rw [hchannel, if_pos Nat.zero_lt_two, hreset, Option.bind_none] at hperform
        cases hperform

theorem LcdTask.Inv.step (h : s.Inv) {m : Message} (hfits : s.Fits m) :
    ∃ s', s.perform m = some s' ∧ s.Safe m s' ∧ s'.Inv := by
  cases m with
  | ttyusbAdd devname fd answered => exact h.ttyusbAdd fd answered hfits.1 hfits.2
  | ttyusbRemove devname => exact h.ttyusbRemove devname

theorem LcdTask.Inv.safeRun_iff (h : s.Inv) (ms : List Message) : s.SafeRun ms ↔ s.AllFit ms := by
  induction ms generalizing s with
  | nil => exact Iff.rfl
  | cons m ms ih =>
      refine run_step_iff (fun hfits => ?_) fun s' hperform _ => h.fits hperform
      obtain ⟨s', hperform, hsafe, hinv⟩ := h.step hfits
      exact ⟨s', hperform, hsafe, ih hinv⟩

/-- Plugging in and out is safe exactly in the runs in which a probe is only plugged in while there
is no other, with a name that fits. -/
theorem probes_safeRun_iff (ms : List Message) : initLcd.SafeRun ms ↔ initLcd.AllFit ms :=
  initLcd_inv.safeRun_iff ms

/-- Two probes. -/
theorem not_safeRun_two :
    ¬initLcd.SafeRun [.ttyusbAdd "ttyUSB0".toList 3 true, .ttyusbAdd "ttyUSB1".toList 4 true] := by
  rintro ⟨s, hfirst, -, s', hsecond, -⟩
  have hfirst' : initLcd.perform (.ttyusbAdd "ttyUSB0".toList 3 true) = some
      { list := [⟨"ttyUSB0".toList, 1⟩, .zero, .zero, .zero], version := 1,
        probes := [.zero, ⟨1, 3, "/dev/ttyUSB0".toList, .idle⟩] } := by decide
  obtain rfl := Option.some.inj (hfirst'.symm.trans hfirst)
  have hsecond' : LcdTask.perform
      { list := [⟨"ttyUSB0".toList, 1⟩, .zero, .zero, .zero], version := 1,
        probes := [.zero, ⟨1, 3, "/dev/ttyUSB0".toList, .idle⟩] }
      (.ttyusbAdd "ttyUSB1".toList 4 true) = none := by decide
  exact absurd (hsecond'.symm.trans hsecond) (by simp)

end PanelTester.Lcd
