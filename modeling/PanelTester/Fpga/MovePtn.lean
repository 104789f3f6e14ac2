import PanelTester.Library.CString
import PanelTester.Library.Steps

/-!
The pictures in the memory of the FPGA, `pubmoveptn.c`. A task loads the pictures of a module
into the slots that are free, and a request to show a picture that is not there yet loads it into
the next slot in turn. When the task is ended for another module the table is cleared. A transfer
is one step, since a semaphore protects it; so is each look at the table, each update, and the
clearing. What was last transferred to a slot is kept beside the table, where no step reads it.
-/

namespace PanelTester.Fpga

open Library

/-- `MAX_DOWNLOAD_NUM` -/
def maxDownloadNum : ℕ := 20

/-- The size of `bmpName`. -/
def bmpNameLen : ℕ := 128

/-- `NOT_DOWNLOAD`, `DOWNLOAD_OK` -/
inductive DownloadStatus
  | notDownload
  | downloadOk
  deriving DecidableEq

/-- `move_ptn_info_t` -/
structure MovePtnInfo where
  bmpName : Str
  downLoadStatus : DownloadStatus
  postion : ℤ
  deriving DecidableEq

/-- How `move_ptn_downloading` ends: with -1, or with 0, whether all of the picture was written or
not. -/
inductive Transfer
  | refused
  | torn
  | done
  deriving DecidableEq

/-- Where the task is in `move_ptn_download`, with `bAuto` 1. -/
inductive AutoPlace
  | idle
  | scan (bmpName : Str) (i : ℕ)
  | transfer (bmpName : Str) (i : ℕ)
  | update (bmpName : Str) (i : ℕ)
  deriving DecidableEq

/-- Where the handler of `FPGA_CMD_SET_PHOTO` is: in `move_ptn_getPostionByName`, in
`move_ptn_download` with `bAuto` 0, or before it shows a position. -/
inductive PhotoPlace
  | idle
  | search (ptnImageName : Str) (i : ℕ)
  | transfer (ptnImageName : Str)
  | update (ptnImageName : Str)
  | show (ptnImageName : Str) (ucPosition : ℤ)
  deriving DecidableEq

/-- What was shown: the picture that was requested, the position that the FPGA got, and what it
held. -/
structure Shown where
  ptnImageName : Str
  position : ℕ
  picture : Option Str
  deriving DecidableEq

/-- The table and the memory of the FPGA, with both threads. -/
structure PtnState where
  movePtnInfo : ℕ → MovePtnInfo
  forcePostion : ℕ
  pictures : ℕ → Option Str
  auto : AutoPlace
  photo : PhotoPlace
  shown : List Shown
  fault : Bool

/-- A step of the task, or of the handler, or the end of the task, which is waited for. -/
inductive PtnAct
  | destoryTask
  | autoStart (bmpName : Str)
  | autoScan
  | autoTransfer (t : Transfer)
  | autoUpdate
  | photoStart (ptnImageName : Str)
  | photoSearch
  | photoTransfer (t : Transfer)
  | photoUpdate
  | photoShow
  deriving DecidableEq

namespace PtnState

/-- A slot is marked with a picture. -/
def Marked (s : PtnState) (i : ℕ) (name : Str) : Prop :=
  (s.movePtnInfo i).downLoadStatus = .downloadOk ∧ (s.movePtnInfo i).bmpName = name

instance (s : PtnState) (i : ℕ) (name : Str) : Decidable (s.Marked i name) :=
  inferInstanceAs (Decidable (_ ∧ _))

/-- A picture is transferred to a slot. -/
def transferred (s : PtnState) (i : ℕ) (name : Str) : Transfer → PtnState
  | .refused => s
  | .torn => { s with pictures := Function.update s.pictures i none }
  | .done => { s with pictures := Function.update s.pictures i (some name) }

/-- The update of the table; there is no result for a name that does not fit. -/
def updated (s : PtnState) (i : ℕ) (name : Str) : Option PtnState :=
  if name.length < bmpNameLen then
    some
      { s with
        movePtnInfo := Function.update s.movePtnInfo i
          { bmpName := name, downLoadStatus := .downloadOk, postion := i } }
  else none

/-- The table that is cleared. -/
def cleared : ℕ → MovePtnInfo := fun _ => ⟨[], .notDownload, 0⟩

/-- The position as the FPGA gets it, an `unsigned char`. -/
def ucharPosition (ucPosition : ℤ) : ℕ := (ucPosition % 256).toNat

/-- A step; there is no result where memory is overwritten. -/
def perform (s : PtnState) : PtnAct → Option PtnState
  | .destoryTask => some { s with movePtnInfo := cleared }
  | .autoStart bmpName => some { s with auto := .scan bmpName 0 }
  | .autoScan =>
      match s.auto with
      | .scan bmpName i =>
          if i < maxDownloadNum then
            if (s.movePtnInfo i).downLoadStatus = .notDownload then
              some { s with auto := .transfer bmpName i }
            else some { s with auto := .scan bmpName (i + 1) }
          else some { s with auto := .idle }
      | _ => none
  | .autoTransfer t =>
      match s.auto with
      | .transfer bmpName i =>
          some
            { s.transferred i bmpName t with
              auto := if t = .refused then .idle else .update bmpName i }
      | _ => none
  | .autoUpdate =>
      match s.auto with
      | .update bmpName i => (s.updated i bmpName).map fun s => { s with auto := .idle }
      | _ => none
  | .photoStart ptnImageName => some { s with photo := .search ptnImageName 0 }
  | .photoSearch =>
      match s.photo with
      | .search ptnImageName i =>
          if i < maxDownloadNum then
            if s.Marked i ptnImageName then
              some { s with photo := .show ptnImageName (s.movePtnInfo i).postion }
            else some { s with photo := .search ptnImageName (i + 1) }
          else some { s with photo := .transfer ptnImageName }
      | _ => none
  | .photoTransfer t =>
      match s.photo with
      | .transfer ptnImageName =>
          some
            { s.transferred s.forcePostion ptnImageName t with
              photo := if t = .refused then .show ptnImageName (-1) else .update ptnImageName }
      | _ => none
  | .photoUpdate =>
      match s.photo with
      | .update ptnImageName =>
          (s.updated s.forcePostion ptnImageName).map fun s' =>
            { s' with
              forcePostion := (s.forcePostion + 1) % maxDownloadNum
              photo := .show ptnImageName s.forcePostion }
      | _ => none
  | .photoShow =>
      match s.photo with
      | .show ptnImageName ucPosition =>
          let position := ucharPosition ucPosition
          some
            { s with
              photo := .idle
              shown := s.shown ++ [⟨ptnImageName, position, s.pictures position⟩] }
      | _ => none

/-- A step can be made. -/
def Enabled (s : PtnState) : PtnAct → Prop
  | .destoryTask => s.auto = .idle
  | .autoStart _ => s.auto = .idle
  | .autoScan => ∃ name i, s.auto = .scan name i
  | .autoTransfer _ => ∃ name i, s.auto = .transfer name i
  | .autoUpdate => ∃ name i, s.auto = .update name i
  | .photoStart _ => s.photo = .idle
  | .photoSearch => ∃ name i, s.photo = .search name i
  | .photoTransfer _ => ∃ name, s.photo = .transfer name
  | .photoUpdate => ∃ name, s.photo = .update name
  | .photoShow => ∃ name position, s.photo = .show name position

def next (s : PtnState) (a : PtnAct) : PtnState := (s.perform a).getD { s with fault := true }

/-- `move_ptn_init` -/
def init : PtnState where
  movePtnInfo := cleared
  forcePostion := 0
  pictures := fun _ => none
  auto := .idle
  photo := .idle
  shown := []
  fault := false

end PtnState

/-- The task and the handler. -/
def movePtn : StepSystem PtnState PtnAct where
  start := PtnState.init
  enabled := PtnState.Enabled
  next := PtnState.next

namespace PtnState

/-! ### The question -/

/-- A slot that is marked with a picture holds it, and what was shown was there. -/
structure Good (s : PtnState) : Prop where
  noFault : s.fault = false
  marked : ∀ i name, s.Marked i name → s.pictures i = some name
  shown : ∀ x ∈ s.shown, x.position < maxDownloadNum ∧ x.picture = some x.ptnImageName

/-- The handler is between the transfer of a picture to a slot, or its look at the slot, and the
show of the picture. -/
inductive PhotoOn (s : PtnState) (i : ℕ) (name : Str) : Prop
  | update (place : s.photo = .update name) (slot : s.forcePostion = i)
  | show (place : s.photo = .show name i)

/-- A transfer is not torn, and a requested one is not refused; the names fit the table. The task
transfers no picture to a slot while the handler is on it with another one. The handler transfers
none to a slot that is marked with another one, or that the task is about to mark with another one,
and marks no slot that the task has found free for another one. -/
def Fits (s : PtnState) : PtnAct → Prop
  | .autoTransfer t =>
      t = .refused ∨ t = .done ∧ ∀ name i, s.auto = .transfer name i → ∀ n, s.PhotoOn i n → n = name
  | .photoTransfer t => t = .done ∧ ∀ name, s.photo = .transfer name →
      (∀ n, s.Marked s.forcePostion n → n = name) ∧
        ∀ n, s.auto = .update n s.forcePostion → n = name
  | .autoUpdate => ∀ name i, s.auto = .update name i → name.length < bmpNameLen
  | .photoUpdate => ∀ name, s.photo = .update name → name.length < bmpNameLen ∧
      ∀ n, s.auto = .transfer n s.forcePostion → n = name
  | _ => True

/-! ### The invariant -/

/-- The slots that the threads are about to use. -/
structure Inv (s : PtnState) : Prop where
  good : s.Good
  postion : ∀ i name, s.Marked i name → i < maxDownloadNum ∧ (s.movePtnInfo i).postion = i
  force : s.forcePostion < maxDownloadNum
  autoTransfer : ∀ name i, s.auto = .transfer name i →
    i < maxDownloadNum ∧ ∀ n, s.Marked i n → n = name
  autoUpdate : ∀ name i, s.auto = .update name i → i < maxDownloadNum ∧ s.pictures i = some name
  photoUpdate : ∀ name, s.photo = .update name → s.pictures s.forcePostion = some name
  photoShow : ∀ name position, s.photo = .show name position →
    ∃ i : ℕ, position = i ∧ i < maxDownloadNum ∧ s.pictures i = some name

variable {s s' : PtnState} {i j : ℕ} {name n : Str}

theorem updated_eq (h : name.length < bmpNameLen) :
    s.updated i name = some { s with
      movePtnInfo := Function.update s.movePtnInfo i ⟨name, .downloadOk, i⟩ } :=
  if_pos h

/-- The marks behind an update. -/
theorem marked_update (hinfo : s'.movePtnInfo =
    Function.update s.movePtnInfo i ⟨name, .downloadOk, i⟩) :
    s'.Marked j n ↔ if j = i then n = name else s.Marked j n := by
  rw [Marked, hinfo]
  by_cases hj : j = i
  · rw [if_pos hj, hj, Function.update_self]
    exact ⟨fun h => h.2.symm, fun h => ⟨rfl, h.symm⟩⟩
  · rw [if_neg hj, Function.update_of_ne hj]
    exact Iff.rfl

theorem Good.of_eq (h : s.Good) (hfault : s'.fault = s.fault)
    (hinfo : s'.movePtnInfo = s.movePtnInfo)
    (hpictures : s'.pictures = s.pictures) (hshown : s'.shown = s.shown) : s'.Good where
  noFault := hfault.trans h.noFault
  marked i name hm := by
    rw [hpictures]
    exact h.marked i name (by rwa [Marked, hinfo] at hm)
  shown x hx := h.shown x (hshown ▸ hx)

/-- A transfer keeps the marks good. -/
theorem Good.transfer (h : s.Good) (halone : ∀ n, s.Marked i n → n = name)
    (hfault : s'.fault = s.fault) (hinfo : s'.movePtnInfo = s.movePtnInfo)
    (hpictures : s'.pictures = Function.update s.pictures i (some name))
    (hshown : s'.shown = s.shown) : s'.Good where
  noFault := hfault.trans h.noFault
  marked j n hm := by
    have hm : s.Marked j n := by rwa [Marked, hinfo] at hm
    rw [hpictures]
    by_cases hj : j = i
    · subst hj
      rw [Function.update_self, halone n hm]
    · rw [Function.update_of_ne hj, h.marked j n hm]
  shown x hx := h.shown x (hshown ▸ hx)

/-- So does an update for what was transferred. -/
theorem Good.update (h : s.Good) (hpicture : s.pictures i = some name) (hfault : s'.fault = s.fault)
    (hinfo : s'.movePtnInfo = Function.update s.movePtnInfo i ⟨name, .downloadOk, i⟩)
    (hpictures : s'.pictures = s.pictures) (hshown : s'.shown = s.shown) : s'.Good where
  noFault := hfault.trans h.noFault
  marked j n hm := by
    rw [marked_update hinfo] at hm
    rw [hpictures]
    split at hm
    case isTrue hj => rw [hj, hm, hpicture]
    case isFalse => exact h.marked j n hm
  shown x hx := h.shown x (hshown ▸ hx)

/-! ### Steps of the task -/

/-- A step of the task that leaves the table and the memory alone. -/
theorem Inv.auto (h : s.Inv) {place : AutoPlace}
    (htransfer : ∀ name i, place = .transfer name i →
      i < maxDownloadNum ∧ ∀ n, s.Marked i n → n = name)
    (hupdate : ∀ name i, place ≠ .update name i) : Inv { s with auto := place } where
  good := h.good.of_eq rfl rfl rfl rfl
  postion := h.postion
  force := h.force
  autoTransfer := htransfer
  autoUpdate name i hplace := absurd hplace (hupdate name i)
  photoUpdate := h.photoUpdate
  photoShow := h.photoShow

theorem Inv.autoScan (h : s.Inv) (hen : s.Enabled .autoScan) :
    ∃ s', s.perform .autoScan = some s' ∧ s'.Inv := by
  obtain ⟨name, i, hplace⟩ := hen
  have hperform : s.perform .autoScan =
      if i < maxDownloadNum then
        if (s.movePtnInfo i).downLoadStatus = .notDownload then
          some { s with auto := .transfer name i }
        else some { s with auto := .scan name (i + 1) }
      else some { s with auto := .idle } := by
    rw [perform, hplace]
  rw [hperform]
  by_cases hi : i < maxDownloadNum
  · rw [if_pos hi]
    by_cases hfree : (s.movePtnInfo i).downLoadStatus = .notDownload
    · rw [if_pos hfree]
      refine ⟨_, rfl, h.auto (fun name' i' heq => ?_) (by simp)⟩
      -- a slot that is free is not marked
      obtain ⟨-, rfl⟩ := AutoPlace.transfer.inj heq
      refine ⟨hi, fun n hm => ?_⟩
      exact absurd (hfree.symm.trans hm.1) (by decide)
    · rw [if_neg hfree]
      exact ⟨_, rfl, h.auto (by simp) (by simp)⟩
  · rw [if_neg hi]
    exact ⟨_, rfl, h.auto (by simp) (by simp)⟩

theorem Inv.perform_autoTransfer {t : Transfer} (h : s.Inv) (hen : s.Enabled (.autoTransfer t))
    (hfits : s.Fits (.autoTransfer t)) : ∃ s', s.perform (.autoTransfer t) = some s' ∧ s'.Inv := by
  obtain ⟨name, i, hplace⟩ := hen
  obtain ⟨hi, hmarked⟩ := h.autoTransfer name i hplace
  rcases hfits with rfl | ⟨rfl, hphoto⟩
  · exact ⟨_, by rw [perform, hplace]; rfl, h.auto (by simp) (by simp)⟩
  · have hphoto := hphoto name i hplace
    refine ⟨_, by rw [perform, hplace], ?_⟩
    constructor
    case good => exact h.good.transfer hmarked rfl rfl rfl rfl
    case postion => exact h.postion
    case force => exact h.force
    case autoTransfer => exact fun name' i' heq => AutoPlace.noConfusion heq
    case autoUpdate =>
      intro name' i' heq
      obtain ⟨rfl, rfl⟩ := AutoPlace.update.inj heq
      exact ⟨hi, Function.update_self ..⟩
    case photoUpdate =>
      intro n hn
      show Function.update s.pictures i (some name) s.forcePostion = some n
      by_cases hforce : s.forcePostion = i
      · rw [hforce, Function.update_self, hphoto n (.update hn hforce)]
      · rw [Function.update_of_ne hforce]
        exact h.photoUpdate n hn
    case photoShow =>
      intro n position hn
      obtain ⟨j, rfl, hj, hpicture⟩ := h.photoShow n position hn
      refine ⟨j, rfl, hj, ?_⟩
      show Function.update s.pictures i (some name) j = some n
      by_cases hji : j = i
      · subst hji
        rw [Function.update_self, hphoto n (.show hn)]
      · rw [Function.update_of_ne hji, hpicture]

theorem Inv.perform_autoUpdate (h : s.Inv) (hen : s.Enabled .autoUpdate)
    (hfits : s.Fits .autoUpdate) :
    ∃ s', s.perform .autoUpdate = some s' ∧ s'.Inv := by
  obtain ⟨name, i, hplace⟩ := hen
  obtain ⟨hi, hpicture⟩ := h.autoUpdate name i hplace
  have hperform : s.perform .autoUpdate = (s.updated i name).map fun s =>
    { s with auto := .idle } := by
    rw [perform, hplace]
  rw [hperform, updated_eq (hfits name i hplace)]
  refine ⟨_, rfl, ?_⟩
  constructor
  case good => exact h.good.update hpicture rfl rfl rfl rfl
  case postion =>
    intro j n hm
    rw [marked_update rfl] at hm
    show j < _ ∧ (Function.update s.movePtnInfo i _ j).postion = j
    split at hm
    case isTrue hj =>
      subst hj
      rw [Function.update_self]
      exact ⟨hi, rfl⟩
    case isFalse hj =>
      rw [Function.update_of_ne hj]
      exact h.postion j n hm
  case force => exact h.force
  case autoTransfer => exact fun name' i' heq => AutoPlace.noConfusion heq
  case autoUpdate => exact fun name' i' heq => AutoPlace.noConfusion heq
  case photoUpdate => exact h.photoUpdate
  case photoShow => exact h.photoShow

/-- The table is cleared while the task is not there. -/
theorem Inv.destoryTask (h : s.Inv) (hen : s.Enabled .destoryTask) :
    Inv { s with movePtnInfo := cleared } := by
  have hidle : s.auto = .idle := hen
  have hmarked : ∀ i name, ¬ Marked { s with movePtnInfo := cleared } i name :=
    fun i name hm => absurd hm.1 (by simp [cleared])
  constructor
  case good => exact ⟨h.good.noFault, fun i n hm => absurd hm (hmarked i n), h.good.shown⟩
  case postion => exact fun i n hm => absurd hm (hmarked i n)
  case force => exact h.force
  case autoTransfer => exact fun name i heq => AutoPlace.noConfusion (hidle.symm.trans heq)
  case autoUpdate => exact fun name i heq => AutoPlace.noConfusion (hidle.symm.trans heq)
  case photoUpdate => exact h.photoUpdate
  case photoShow => exact h.photoShow

/-! ### Steps of the handler -/

/-- A step of the handler that leaves the table and the memory alone. -/
theorem Inv.photo (h : s.Inv) {place : PhotoPlace} (hupdate : ∀ name, place ≠ .update name)
    (hshow : ∀ name position, place = .show name position →
      ∃ i : ℕ, position = i ∧ i < maxDownloadNum ∧ s.pictures i = some name) :
    Inv { s with photo := place } where
  good := h.good.of_eq rfl rfl rfl rfl
  postion := h.postion
  force := h.force
  autoTransfer := h.autoTransfer
  autoUpdate := h.autoUpdate
  photoUpdate name hplace := absurd hplace (hupdate name)
  photoShow := hshow

theorem Inv.photoSearch (h : s.Inv) (hen : s.Enabled .photoSearch) :
    ∃ s', s.perform .photoSearch = some s' ∧ s'.Inv := by
  obtain ⟨name, i, hplace⟩ := hen
  have hperform : s.perform .photoSearch =
      if i < maxDownloadNum then
        if s.Marked i name then some { s with photo := .show name (s.movePtnInfo i).postion }
        else some { s with photo := .search name (i + 1) }
      else some { s with photo := .transfer name } := by
    rw [perform, hplace]
  rw [hperform]
  by_cases hi : i < maxDownloadNum
  · rw [if_pos hi]
    by_cases hm : s.Marked i name
    · rw [if_pos hm]
      refine ⟨_, rfl, h.photo (by simp) fun name' position heq => ?_⟩
      obtain ⟨rfl, rfl⟩ := PhotoPlace.show.inj heq
      exact ⟨i, (h.postion i name hm).2, hi, h.good.marked i name hm⟩
    · rw [if_neg hm]
      exact ⟨_, rfl, h.photo (by simp) (by simp)⟩
  · rw [if_neg hi]
    exact ⟨_, rfl, h.photo (by simp) (by simp)⟩

theorem Inv.perform_photoTransfer {t : Transfer} (h : s.Inv) (hen : s.Enabled (.photoTransfer t))
    (hfits : s.Fits (.photoTransfer t)) :
    ∃ s', s.perform (.photoTransfer t) = some s' ∧ s'.Inv := by
  obtain ⟨name, hplace⟩ := hen
  obtain ⟨rfl, hfits⟩ := hfits
  obtain ⟨hmarked, hauto⟩ := hfits name hplace
  refine ⟨_, by rw [perform, hplace], ?_⟩
  constructor
  case good => exact h.good.transfer hmarked rfl rfl rfl rfl
  case postion => exact h.postion
  case force => exact h.force
  case autoTransfer => exact h.autoTransfer
  case autoUpdate =>
    intro n i hn
    obtain ⟨hi, hpicture⟩ := h.autoUpdate n i hn
    refine ⟨hi, ?_⟩
    show Function.update s.pictures s.forcePostion (some name) i = some n
    by_cases hforce : i = s.forcePostion
    · subst hforce
      rw [Function.update_self, hauto n hn]
    · rw [Function.update_of_ne hforce, hpicture]
  case photoUpdate =>
    intro n hn
    obtain rfl := PhotoPlace.update.inj hn
    exact Function.update_self ..
  case photoShow => exact fun n position hn => PhotoPlace.noConfusion hn

theorem Inv.perform_photoUpdate (h : s.Inv) (hen : s.Enabled .photoUpdate)
    (hfits : s.Fits .photoUpdate) : ∃ s', s.perform .photoUpdate = some s' ∧ s'.Inv := by
  obtain ⟨name, hplace⟩ := hen
  obtain ⟨hname, hauto⟩ := hfits name hplace
  have hpicture := h.photoUpdate name hplace
  have hperform : s.perform .photoUpdate = (s.updated s.forcePostion name).map fun s' =>
      { s' with
        forcePostion := (s.forcePostion + 1) % maxDownloadNum
        photo := .show name s.forcePostion } := by
    rw [perform, hplace]
  rw [hperform, updated_eq hname]
  refine ⟨_, rfl, ?_⟩
  constructor
  case good => exact h.good.update hpicture rfl rfl rfl rfl
  case postion =>
    intro j n hm
    rw [marked_update rfl] at hm
    show j < _ ∧ (Function.update s.movePtnInfo s.forcePostion _ j).postion = j
    split at hm
    case isTrue hj =>
      subst hj
      rw [Function.update_self]
      exact ⟨h.force, rfl⟩
    case isFalse hj =>
      rw [Function.update_of_ne hj]
      exact h.postion j n hm
  case force => exact Nat.mod_lt _ (by decide)
  case autoTransfer =>
    intro m i hm
    refine ⟨(h.autoTransfer m i hm).1, fun n hn => ?_⟩
    rw [marked_update rfl] at hn
    split at hn
    case isTrue hi =>
      -- the task has found the slot free for the same picture
      subst hi
      exact hn.trans (hauto m hm).symm
    case isFalse => exact (h.autoTransfer m i hm).2 n hn
  case autoUpdate => exact h.autoUpdate
  case photoUpdate => exact fun n hn => PhotoPlace.noConfusion hn
  case photoShow =>
    intro n position hn
    obtain ⟨rfl, rfl⟩ := PhotoPlace.show.inj hn
    exact ⟨s.forcePostion, rfl, h.force, hpicture⟩

theorem ucharPosition_of_lt (h : i < maxDownloadNum) : ucharPosition i = i := by
  have h : i < 20 := h
  rw [ucharPosition]
  omega

theorem Inv.perform_photoShow (h : s.Inv) (hen : s.Enabled .photoShow) :
    ∃ s', s.perform .photoShow = some s' ∧ s'.Inv := by
  obtain ⟨name, position, hplace⟩ := hen
  obtain ⟨i, rfl, hi, hpicture⟩ := h.photoShow name position hplace
  have hinv : Inv { s with photo := .idle } := h.photo (by simp) (by simp)
  refine ⟨_, by rw [perform, hplace], ?_⟩
  refine ⟨⟨h.good.noFault, h.good.marked, ?_⟩, hinv.postion, hinv.force, hinv.autoTransfer,
    hinv.autoUpdate, hinv.photoUpdate, hinv.photoShow⟩
  intro x hx
  rcases List.mem_append.mp hx with hx | hx
  · exact h.good.shown x hx
  · obtain rfl := List.mem_singleton.mp hx
    simp only [ucharPosition_of_lt hi]
    exact ⟨hi, hpicture⟩

/-! ### Runs -/

theorem Inv.perform_step {a : PtnAct} (h : s.Inv) (hen : s.Enabled a) (hfits : s.Fits a) :
    ∃ s', s.perform a = some s' ∧ s'.Inv := by
  cases a with
  | destoryTask => exact ⟨_, rfl, h.destoryTask hen⟩
  | autoStart name => exact ⟨_, rfl, h.auto (by simp) (by simp)⟩
  | autoScan => exact h.autoScan hen
  | autoTransfer t => exact h.perform_autoTransfer hen hfits
  | autoUpdate => exact h.perform_autoUpdate hen hfits
  | photoStart name => exact ⟨_, rfl, h.photo (by simp) (by simp)⟩
  | photoSearch => exact h.photoSearch hen
  | photoTransfer t => exact h.perform_photoTransfer hen hfits
  | photoUpdate => exact h.perform_photoUpdate hen hfits
  | photoShow => exact h.perform_photoShow hen

theorem inv (h : movePtn.Reachable Fits s) : s.Inv := by
  refine h.invariant (I := Inv) ?_ fun s a hen hfits hinv => ?_
  · have hmarked : ∀ i name, ¬ init.Marked i name := fun i name hm => by cases hm.1
    refine ⟨⟨rfl, fun i name hm => absurd hm (hmarked i name), List.forall_mem_nil _⟩,
      fun i name hm => absurd hm (hmarked i name), by decide, ?_, ?_, ?_, ?_⟩
    · exact fun name i hplace => AutoPlace.noConfusion hplace
    · exact fun name i hplace => AutoPlace.noConfusion hplace
    · exact fun name hplace => PhotoPlace.noConfusion hplace
    · exact fun name position hplace => PhotoPlace.noConfusion hplace
  · obtain ⟨s', hs', hinv'⟩ := hinv.perform_step hen hfits
    have hnext : movePtn.next s a = s' := by
      show s.next a = s'
      rw [next, hs']
      rfl
    rw [hnext]
    exact hinv'

end PtnState

end PanelTester.Fpga
