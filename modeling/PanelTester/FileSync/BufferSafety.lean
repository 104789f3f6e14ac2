import PanelTester.FileSync.Coherence
import PanelTester.FileSync.Receive

/-!
The memory of the files that are received. A message is handled as it should be exactly when it
names a set that is still in the list and, depending on its type, finds the buffer it needs; a file
is handed on with as many bytes as were announced as long as none was left out behind the last
`BINFILE_BEGIN`.
-/

namespace PanelTester.FileSync

open Library

/-! ### The question -/

/-- An announcement, with the address of its set, or a message about a file. -/
inductive RecvEvent
  | syncFile (infoSet : UInt32) (filesArray : List FileItem)
  | sendFile (ipnum : UInt32) (m : SendFile)

/-- A file with as many bytes behind its last `BINFILE_BEGIN` as were announced. -/
def RecvFileInfo.Whole (f : RecvFileInfo) : Prop :=
  ∃ bytes, f.received = some bytes ∧ (bytes.length : ℤ) = f.rfiSize.toInt

/-- A buffer has the size of its file, which holds what was received, and what is handed on is
whole. -/
structure RecvState.Good (s : RecvState) : Prop where
  within : ∀ infoSet set, s.sets infoSet = some set → ∀ f ∈ set.pRecvFileInfo,
    ∀ cells, f.pFileData = some cells →
      (cells.length : ℤ) = f.rfiSize.toInt ∧ f.actRecvSize.toInt ≤ f.rfiSize.toInt
  whole : ∀ f, .writeFile f ∈ s.effects → f.Whole

/-- The database can take a file: the texts fit that are needed, and a name that is inserted has
room in its record. -/
def Storable (sqlite : Sqlite) (db : LocalDB) (f : RecvFileInfo) : Prop :=
  if localDBGetRec db f.rfiName ≠ none then (Sql.update f.rfiName f.rfiTime f.rfiSize).Short
  else
    (Sql.select f.rfiName).Short ∧
      ∀ table rows, sqlite db.table (.select f.rfiName) = (table, some rows) →
        if rows ≠ [] then (Sql.update f.rfiName f.rfiTime f.rfiSize).Short
        else
          (Sql.insert f.rfiName f.rfiTime f.rfiSize 0).Short ∧
            ((sqlite table (.insert f.rfiName f.rfiTime f.rfiSize 0)).2 ≠ none →
              f.rfiName.length < localFileNameLen)

/-- A path with the directory of the pictures in it has a '/' behind it, and what stands between
fits an array; for a bitmap, so do the name and the path of what is made of it. -/
def PtnFits (pBmpFullName : Str) (parsed : Option ℤ) : Prop :=
  contains "imageOrigin" pBmpFullName = true →
    ptnStart pBmpFullName ≤ lastSlash pBmpFullName ∧
      lastSlash pBmpFullName - ptnStart pBmpFullName < 64 ∧ parsed ≠ none ∧
        (parsed = some 0 → (bmpBaseName pBmpFullName).length < 64 ∧
          lastSlash pBmpFullName - ptnStart pBmpFullName +
            (bmpBaseName pBmpFullName).length < 119)

instance (pBmpFullName : Str) (parsed : Option ℤ) : Decidable (PtnFits pBmpFullName parsed) :=
  inferInstanceAs (Decidable (_ → _))

/-- Bytes find a buffer, and are not sent for an empty file; the end of a file comes behind a
`BINFILE_BEGIN` with nothing left out. -/
def SendFile.Fits (sqlite : Sqlite) (db : LocalDB) (f : RecvFileInfo) : SendFile → Prop
  | .binfileBegin _ => True
  | .binfileBody pcmd =>
      pcmd.val = [] ∨ f.rfiSize ≠ 0 ∧ (f.pFileData = none → f.takes pcmd.val.length = false)
  | .binfileOver parsed =>
      f.complete = true →
        (f.rfiSize = 0 → f.received ≠ none) ∧ f.refused = false ∧ PtnFits (dstFile f) parsed ∧
          Storable sqlite db f

namespace RecvEvent

def handle (sqlite : Sqlite) (s : RecvState) : RecvEvent → Option RecvState
  | syncFile infoSet filesArray => s.syncFile infoSet filesArray
  | sendFile ipnum m => s.sendFile sqlite ipnum m

/-- A set gets memory that is free. -/
def Allocated (s : RecvState) : RecvEvent → Prop
  | syncFile infoSet _ => infoSet ≠ 0 ∧ s.sets infoSet = none
  | sendFile _ _ => True

/-- The names of an announcement fit, and a message names a set of the list and fits its file. -/
def Fits (sqlite : Sqlite) (s : RecvState) : RecvEvent → Prop
  | syncFile _ filesArray => ∀ item ∈ filesArray, item.fileName.length < rfiNameLen
  | sendFile ipnum m => ipnum ∈ s.recvFileList.contents ∧
      ∃ set f, s.sets ipnum = some set ∧ set.getCurFileInfo = some f ∧ m.Fits sqlite s.localDB f

variable (sqlite : Sqlite)

def AllocatedRun : RecvState → List RecvEvent → Prop
  | _, [] => True
  | s, e :: es => e.Allocated s ∧ ∀ s', e.handle sqlite s = some s' → AllocatedRun s' es

/-- Every message is handled without a fault, and the state is good behind it. -/
def SafeRun : RecvState → List RecvEvent → Prop
  | _, [] => True
  | s, e :: es => ∃ s', e.handle sqlite s = some s' ∧ s'.Good ∧ SafeRun s' es

def FitsRun : RecvState → List RecvEvent → Prop
  | _, [] => True
  | s, e :: es => e.Fits sqlite s ∧ ∀ s', e.handle sqlite s = some s' → FitsRun s' es

end RecvEvent

/-! ### The invariant -/

/-- What a file looks like while it is received. -/
structure RecvFileInfo.Inv (f : RecvFileInfo) : Prop where
  data : ∀ cells, f.pFileData = some cells → cells.length = sizeT f.rfiSize ∧
    sizeT f.rfiSize < 2 ^ 31 ∧ sizeT f.actRecvSize ≤ cells.length ∧ f.received ≠ none
  empty : f.rfiSize = 0 → f.refused = false
  received : ∀ bytes, f.received = some bytes →
    (f.refused = false → bytes.length = sizeT f.actRecvSize) ∧
      (f.refused = true → sizeT f.actRecvSize < bytes.length)

/-- The files of a set; those that were not handed on yet have their bytes in a buffer. -/
structure RecvFileInfoSet.Inv (set : RecvFileInfoSet) : Prop where
  files : ∀ f ∈ set.pRecvFileInfo, f.Inv
  rest : ∀ i f, set.curNo ≤ i → set.pRecvFileInfo[i]? = some f → f.pFileData = none →
    f.actRecvSize = 0

/-- The sets of the list are in memory, with a file that is asked for; all but one, while it is
worked on. -/
structure RecvState.Inv (s : RecvState) (busy : Option UInt32) : Prop where
  list : s.recvFileList.Valid
  size : s.recvFileList.size = 10
  nodup : s.recvFileList.contents.Nodup
  zero : 0 ∉ s.recvFileList.contents
  present : ∀ infoSet ∈ s.recvFileList.contents, busy ≠ some infoSet →
    ∃ set, s.sets infoSet = some set ∧ set.curNo < set.pRecvFileInfo.length
  sets : ∀ infoSet set, s.sets infoSet = some set → set.Inv
  whole : ∀ f, .writeFile f ∈ s.effects → f.Whole

theorem RecvState.Inv.good {s : RecvState} {busy : Option UInt32} (h : s.Inv busy) : s.Good where
  within infoSet set hset f hf cells hcells := by
    obtain ⟨hlength, hsmall, hact, -⟩ := ((h.sets infoSet set hset).files f hf).data cells hcells
    rw [toInt_eq_sizeT, toInt_eq_sizeT, if_pos hsmall, if_pos (by omega)]
    omega
  whole := h.whole

/-! ### A file -/

namespace RecvFileInfo.Inv

variable {f : RecvFileInfo}

/-- No more is received than was announced. -/
theorem act_le (h : f.Inv) (hrest : f.pFileData = none → f.actRecvSize = 0) :
    sizeT f.actRecvSize ≤ sizeT f.rfiSize ∧ sizeT f.actRecvSize < 2 ^ 31 := by
  cases hdata : f.pFileData with
  | none =>
      rw [hrest hdata]
      exact ⟨Nat.zero_le _, by decide⟩
  | some cells =>
      obtain ⟨hlength, hsmall, hact, -⟩ := h.data cells hdata
      omega

theorem begin (room : Bool) : (f.begin room).Inv ∧
    ((f.begin room).pFileData = none → (f.begin room).actRecvSize = 0) := by
  refine ⟨⟨fun cells hcells => ?_, fun _ => rfl, fun bytes hbytes => ?_⟩, fun _ => rfl⟩
  · obtain ⟨⟨-, hsmall⟩, heq⟩ := Option.ite_none_right_eq_some.mp hcells
    obtain rfl := Option.some.inj heq
    exact ⟨List.length_replicate, hsmall, Nat.zero_le _, by simp [RecvFileInfo.begin]⟩
  · obtain rfl := Option.some.inj hbytes
    exact ⟨fun _ => rfl, fun hrefused => Bool.noConfusion hrefused⟩

/-- Bytes that fit are written, or left out. -/
theorem body {pcmd : List UInt8} (h : f.Inv) (hrest : f.pFileData = none → f.actRecvSize = 0)
    (hlen : pcmd.length < 2 ^ 31) (hfits : pcmd = [] ∨ f.rfiSize ≠ 0 ∧
      (f.pFileData = none → f.takes pcmd.length = false)) :
    ∃ f', f.body pcmd = some f' ∧ f'.Inv ∧ (f'.pFileData = none → f'.actRecvSize = 0) := by
  obtain ⟨hact, hactSmall⟩ := h.act_le hrest
  have hsum : sizeT f.actRecvSize + pcmd.length < 2 ^ 32 := by omega
  have htakes := f.takes_iff hsum
  have hmap : f.received.map (· ++ pcmd) = none → f.received = none := Option.map_eq_none_iff.mp
  have hmore : ∀ bytes, f.received.map (· ++ pcmd) = some bytes →
      ∃ before, f.received = some before ∧ bytes = before ++ pcmd := fun bytes hbytes => by
    obtain ⟨before, hbefore, rfl⟩ := Option.map_eq_some_iff.mp hbytes
    exact ⟨before, hbefore, rfl⟩
  by_cases htake : f.takes pcmd.length = true
  · -- the bytes are copied, into memory that holds them or, being none, into no memory
    have hcopy : ∃ data, memcpy f.pFileData f.actRecvSize.toInt pcmd = some data ∧
        (∀ cells, data = some cells → ∃ before, f.pFileData = some before ∧
          cells.length = before.length ∧ sizeT f.actRecvSize + pcmd.length ≤ before.length) ∧
        (data = none → f.pFileData = none ∧ pcmd = []) := by
      cases hdata : f.pFileData with
      | none =>
          have hnil : pcmd = [] := by
            refine hfits.resolve_right fun ⟨_, hno⟩ => ?_
            exact absurd htake (by rw [hno hdata]; exact Bool.false_ne_true)
          rw [hnil]
          exact ⟨none, rfl, by simp, fun _ => ⟨rfl, rfl⟩⟩
      | some cells =>
          obtain ⟨hlength, hsmall, hin, -⟩ := h.data cells hdata
          have hroom : sizeT f.actRecvSize + pcmd.length ≤ cells.length := by
            rcases hfits with rfl | ⟨hne, -⟩
            · exact hin
            · rcases htakes.mp htake with hle | hzero
              · omega
              · exact absurd hzero hne
          obtain ⟨cells', hcells', hsame⟩ := memcpy_some hroom
          rw [toInt_eq_sizeT, if_pos hactSmall, hcells']
          refine ⟨_, rfl, fun c hc => ?_, by simp⟩
          obtain rfl := Option.some.inj hc
          exact ⟨cells, rfl, hsame, hroom⟩
    obtain ⟨data, hdata, hsome, hnone⟩ := hcopy
    refine ⟨_, by rw [RecvFileInfo.body, if_pos htake, hdata]; rfl, ?_⟩
    have hadd := sizeT_add hsum
    refine ⟨⟨fun cells hcells => ?_, h.empty, fun bytes hbytes => ?_⟩, fun hcells => ?_⟩
    · obtain ⟨before, hbefore, hlength, hroom⟩ := hsome cells hcells
      obtain ⟨hsize, hsmall, -, hreceived⟩ := h.data before hbefore
      exact ⟨hlength.trans hsize, hsmall, (hadd.trans_le hroom).trans hlength.ge, mt hmap hreceived⟩
    · obtain ⟨before, hbefore, rfl⟩ := hmore bytes hbytes
      obtain ⟨heq, hlt⟩ := h.received before hbefore
      rw [List.length_append]
      refine ⟨fun hrefused => ?_, fun hrefused => ?_⟩
      · rw [heq hrefused]
        exact hadd.symm
      · exact hadd.trans_lt (Nat.add_lt_add_right (hlt hrefused) _)
    · obtain ⟨hbefore, hnil⟩ := hnone hcells
      have hzero : sizeT f.actRecvSize + pcmd.length = 0 := by
        rw [hrest hbefore, hnil]
        rfl
      exact sizeT_eq_zero.mp (hadd.trans hzero)
  · -- the bytes are left out
    refine ⟨_, by rw [RecvFileInfo.body, if_neg htake], ?_⟩
    refine ⟨⟨fun cells hcells => ?_, fun hzero => ?_, fun bytes hbytes => ?_⟩, hrest⟩
    · obtain ⟨hlength, hsmall, hin, hreceived⟩ := h.data cells hcells
      exact ⟨hlength, hsmall, hin, mt hmap hreceived⟩
    · exact absurd (htakes.mpr (.inr hzero)) htake
    · obtain ⟨before, hbefore, rfl⟩ := hmore bytes hbytes
      obtain ⟨heq, hlt⟩ := h.received before hbefore
      have hlong : ¬ sizeT f.actRecvSize + pcmd.length ≤ sizeT f.rfiSize := fun hle =>
        htake (htakes.mpr (.inl hle))
      rw [List.length_append]
      refine ⟨fun hrefused => Bool.noConfusion hrefused, fun _ => ?_⟩
      show sizeT f.actRecvSize < before.length + pcmd.length
      cases hrefused : f.refused with
      | false =>
          have := heq hrefused
          omega
      | true =>
          have := hlt hrefused
          omega

/-- Other bytes have no place. -/
theorem body_eq_none {pcmd : List UInt8} (h : f.Inv) (hlen : pcmd.length < 2 ^ 31)
    (hrest : f.pFileData = none → f.actRecvSize = 0) (hfits : ¬ (pcmd = [] ∨ f.rfiSize ≠ 0 ∧
      (f.pFileData = none → f.takes pcmd.length = false))) : f.body pcmd = none := by
  obtain ⟨hne, hfits⟩ := not_or.mp hfits
  obtain ⟨hact, hactSmall⟩ := h.act_le hrest
  have hsum : sizeT f.actRecvSize + pcmd.length < 2 ^ 32 := by omega
  have hpos := List.length_pos_iff.mpr hne
  have htake : f.takes pcmd.length = true := by
    by_contra hno
    refine hfits ⟨fun hzero => hno ((f.takes_iff hsum).mpr (.inr hzero)), fun _ => ?_⟩
    exact Bool.eq_false_iff.mpr hno
  have hcopy : memcpy f.pFileData f.actRecvSize.toInt pcmd = none := by
    cases hdata : f.pFileData with
    | none => rw [memcpy_none, if_neg hne]
    | some cells =>
        have hzero : f.rfiSize = 0 := by
          by_contra hsize
          exact hfits ⟨hsize, fun hnone => by simp [hdata] at hnone⟩
        obtain ⟨hlength, -, -, -⟩ := h.data cells hdata
        rw [hzero] at hlength
        have hlength : cells.length = 0 := hlength
        rw [toInt_eq_sizeT, if_pos hactSmall]
        exact memcpy_outside (by omega)
  rw [RecvFileInfo.body, if_pos htake, hcopy]
  rfl

/-- A file that is complete is whole exactly when nothing was left out behind a `BINFILE_BEGIN`. -/
theorem whole_iff (h : f.Inv) (hrest : f.pFileData = none → f.actRecvSize = 0)
    (hcomplete : f.complete = true) :
    f.Whole ↔ (f.rfiSize = 0 → f.received ≠ none) ∧ f.refused = false := by
  obtain ⟨hact, hactSmall⟩ := h.act_le hrest
  have hsame : sizeT f.actRecvSize = sizeT f.rfiSize := by
    rcases RecvFileInfo.complete_iff.mp hcomplete with heq | hzero
    · rw [heq]
    · rw [hzero] at hact ⊢
      exact Nat.le_antisymm hact (Nat.zero_le _)
  have hsize : f.rfiSize.toInt = sizeT f.actRecvSize := by
    rw [toInt_eq_sizeT, ← hsame, if_pos hactSmall]
  constructor
  · rintro ⟨bytes, hbytes, hlength⟩
    refine ⟨fun _ hnone => by simp [hbytes] at hnone, ?_⟩
    rw [Bool.eq_false_iff]
    intro hrefused
    have := (h.received bytes hbytes).2 hrefused
    omega
  · rintro ⟨hbegun, hrefused⟩
    have hbegun : f.received ≠ none := by
      by_cases hzero : f.rfiSize = 0
      · exact hbegun hzero
      · cases hdata : f.pFileData with
        | none =>
            rw [hrest hdata] at hsame
            exact absurd (sizeT_eq_zero.mp hsame.symm) hzero
        | some cells => exact (h.data cells hdata).2.2.2
    obtain ⟨bytes, hbytes⟩ := Option.ne_none_iff_exists'.mp hbegun
    refine ⟨bytes, hbytes, ?_⟩
    rw [hsize, (h.received bytes hbytes).1 hrefused]

end RecvFileInfo.Inv

theorem FileItem.info_inv (item : FileItem) : item.info.Inv where
  data _ hcells := by cases hcells
  empty _ := rfl
  received _ hbytes := by cases hbytes

/-! ### A set -/

namespace RecvFileInfoSet.Inv

variable {set : RecvFileInfoSet}

theorem later (h : set.Inv) {n : ℕ} (hn : set.curNo ≤ n) : Inv { set with curNo := n } where
  files := h.files
  rest i f hi := h.rest i f (hn.trans hi)

theorem setFile (h : set.Inv) {i : ℕ} {g : RecvFileInfo → RecvFileInfo}
    (hg : ∀ f, set.pRecvFileInfo[i]? = some f →
      (g f).Inv ∧ (set.curNo ≤ i → (g f).pFileData = none → (g f).actRecvSize = 0)) :
    (set.setFile i g).Inv := by
  have hfile : ∀ j f, (set.pRecvFileInfo.modify i g)[j]? = some f →
      (j = i ∧ ∃ f', set.pRecvFileInfo[i]? = some f' ∧ f = g f') ∨
        set.pRecvFileInfo[j]? = some f := by
    intro j f hf
    rw [List.getElem?_modify] at hf
    by_cases hj : i = j
    · subst hj
      simp only [if_true] at hf
      obtain ⟨f', hf', rfl⟩ := Option.map_eq_some_iff.mp hf
      exact .inl ⟨rfl, f', hf', rfl⟩
    · simp only [if_neg hj] at hf
      exact .inr (by simpa using hf)
  refine ⟨fun f hf => ?_, fun j f hj hf => ?_⟩
  · obtain ⟨j, hj⟩ := List.mem_iff_getElem?.mp hf
    rcases hfile j f hj with ⟨-, f', hf', rfl⟩ | hold
    · exact (hg f' hf').1
    · exact h.files f (List.mem_of_getElem? hold)
  · rcases hfile j f hf with ⟨rfl, f', hf', rfl⟩ | hold
    · exact (hg f' hf').2 hj
    · exact h.rest j f hj hold

end RecvFileInfoSet.Inv

theorem RecvState.curNo_skipped (s : RecvState) (set : RecvFileInfoSet) :
    ∃ n, set.curNo ≤ n ∧ s.skipped set = { set with curNo := n } :=
  ⟨_, Nat.le_add_right _ _, skipLoop_eq (Nat.le_add_left _ _)⟩

/-! ### The next file -/

namespace RecvState

variable {sqlite : Sqlite} {s s' : RecvState} {infoSet : UInt32} {set : RecvFileInfoSet}

theorem Inv.putSet {busy : Option UInt32} (h : s.Inv busy) (hset : set.Inv)
    (hcur : busy ≠ some infoSet → infoSet ∈ s.recvFileList.contents →
      set.curNo < set.pRecvFileInfo.length) :
    (s.putSet infoSet set).Inv busy where
  list := h.list
  size := h.size
  nodup := h.nodup
  zero := h.zero
  present p hp hbusy := by
    by_cases heq : p = infoSet
    · subst heq
      exact ⟨set, sets_putSet, hcur hbusy hp⟩
    · obtain ⟨set', hset', hlt⟩ := h.present p hp hbusy
      exact ⟨set', (sets_putSet_of_ne heq).trans hset', hlt⟩
  sets p set' hset' := by
    by_cases heq : p = infoSet
    · subst heq
      obtain rfl := Option.some.inj (sets_putSet.symm.trans hset')
      exact hset
    · exact h.sets p set' ((sets_putSet_of_ne heq).symm.trans hset')
  whole := h.whole

/-- A step that adds no file to what was handed on. -/
theorem Inv.effect {busy : Option UInt32} (h : s.Inv busy) {e : Effect}
    (he : ∀ f, e ≠ .writeFile f) :
    Inv { s with effects := s.effects ++ [e] } busy where
  list := h.list
  size := h.size
  nodup := h.nodup
  zero := h.zero
  present := h.present
  sets := h.sets
  whole f hf := by
    rcases List.mem_append.mp hf with hf | hf
    · exact h.whole f hf
    · exact absurd (List.mem_singleton.mp hf).symm (he f)

/-- The set that was worked on has a file that is asked for. -/
theorem Inv.done (h : s.Inv (some infoSet)) (hset : s.sets infoSet = some set)
    (hlt : set.curNo < set.pRecvFileInfo.length) : s.Inv none where
  list := h.list
  size := h.size
  nodup := h.nodup
  zero := h.zero
  present p hp _ := by
    by_cases heq : p = infoSet
    · subst heq
      exact ⟨set, hset, hlt⟩
    · exact h.present p hp fun hbusy => heq (Option.some.inj hbusy).symm
  sets := h.sets
  whole := h.whole

/-- Or it has none, and is deleted. -/
theorem Inv.finish (h : s.Inv (some infoSet)) : (s.finish infoSet).Inv none := by
  obtain ⟨hvalid, hcontents⟩ : (recvFileListDel s.recvFileList infoSet).Valid ∧ _ :=
    recvFileListDel_eq h.list h.zero
  constructor
  case list => exact hvalid
  case size => exact size_recvFileListDel.trans h.size
  case nodup =>
    show (recvFileListDel s.recvFileList infoSet).contents.Nodup
    rw [hcontents]
    exact h.nodup.erase _
  case zero =>
    show 0 ∉ (recvFileListDel s.recvFileList infoSet).contents
    rw [hcontents]
    exact fun hmem => h.zero (List.mem_of_mem_erase hmem)
  case present =>
    intro p hp _
    have hp : p ∈ s.recvFileList.contents.erase infoSet := hcontents ▸ hp
    obtain ⟨hne, hmem⟩ := h.nodup.mem_erase_iff.mp hp
    obtain ⟨set, hset, hlt⟩ := h.present p hmem fun hbusy => hne (Option.some.inj hbusy).symm
    exact ⟨set, (sets_finish_of_ne hne).trans hset, hlt⟩
  case sets =>
    intro p set hset
    by_cases heq : p = infoSet
    · subst heq
      rw [sets_finish] at hset
      cases hset
    · exact h.sets p set ((sets_finish_of_ne heq).symm.trans hset)
  case whole =>
    intro f hf
    rcases List.mem_append.mp hf with hf | hf
    · exact h.whole f hf
    · cases List.mem_singleton.mp hf

/-- What the next file adds to the effects. -/
theorem effects_advance (hset : s.sets infoSet = some set) :
    ∃ s', s.advance infoSet = some s' ∧ s.effects <+: s'.effects := by
  cases hf : (s.skipped set).getCurFileInfo with
  | some f => exact ⟨_, advance_some hset hf, List.prefix_append _ _⟩
  | none => exact ⟨_, advance_none hset hf, List.prefix_append _ _⟩

/-- The next file is asked for, or the set is done with. -/
theorem Inv.advance (h : s.Inv (some infoSet)) (hset : s.sets infoSet = some set) :
    ∃ s', s.advance infoSet = some s' ∧ s'.Inv none ∧
      ∀ set', s'.sets infoSet = some set' → set.curNo ≤ set'.curNo := by
  obtain ⟨n, hn, hskipped⟩ := s.curNo_skipped set
  have hput : (s.putSet infoSet (s.skipped set)).Inv (some infoSet) :=
    h.putSet (hskipped ▸ (h.sets infoSet set hset).later hn) fun hbusy => absurd rfl hbusy
  have hself : (s.putSet infoSet (s.skipped set)).sets infoSet = some (s.skipped set) := sets_putSet
  cases hf : (s.skipped set).getCurFileInfo with
  | some f =>
      have hlt := (List.getElem?_eq_some_iff.mp hf).1
      refine ⟨_, advance_some hset hf, (hput.done hself hlt).effect (by simp), ?_⟩
      intro set' hset'
      obtain rfl := Option.some.inj (hself.symm.trans hset')
      rw [hskipped]
      exact hn
  | none =>
      refine ⟨_, advance_none hset hf, hput.finish, ?_⟩
      intro set' hset'
      rw [sets_finish] at hset'
      cases hset'

/-! ### An announcement -/

/-- A set that is announced, before its first file is asked for. -/
def announced (s : RecvState) (infoSet : UInt32) (items : List FileItem) : RecvState :=
  RecvState.putSet { s with recvFileList := s.recvFileList.pushToTail infoSet } infoSet
    { curNo := 0, pRecvFileInfo := items.map FileItem.info }

theorem syncFile_eq {items : List FileItem}
    (hshort : ∀ item ∈ items, item.fileName.length < rfiNameLen) :
    s.syncFile infoSet items = (s.announced infoSet items).advance infoSet := by
  rw [RecvState.syncFile, mapM_recvFileInfo hshort]
  rfl

theorem Inv.mem_announced (h : s.Inv none) (items : List FileItem) :
    infoSet ∈ (s.announced infoSet items).recvFileList.contents := by
  show infoSet ∈ (s.recvFileList.pushToTail infoSet).contents
  have hlength := h.list.length_contents
  rw [h.list.contents_pushToTail, h.size]
  split
  case isTrue hfull =>
    cases hcontents : s.recvFileList.contents with
    | nil =>
        rw [hcontents] at hlength
        rw [← hlength] at hfull
        exact absurd hfull (by decide)
    | cons first rest => exact List.mem_append_right _ List.mem_cons_self
  case isFalse => exact List.mem_append_right _ List.mem_cons_self

theorem Inv.announced (h : s.Inv none) {items : List FileItem} (hp : infoSet ≠ 0)
    (hfree : s.sets infoSet = none) : (s.announced infoSet items).Inv (some infoSet) := by
  have hnew : infoSet ∉ s.recvFileList.contents := fun hmem => by
    obtain ⟨set, hset, -⟩ := h.present infoSet hmem (by simp)
    rw [hfree] at hset
    cases hset
  have hpushed := h.list.contents_pushToTail infoSet
  have hsub : (s.recvFileList.pushToTail infoSet).contents.Sublist
      (s.recvFileList.contents ++ [infoSet]) := by
    rw [hpushed]
    split
    · exact List.tail_sublist _
    · exact List.Sublist.refl _
  have hnodup : (s.recvFileList.contents ++ [infoSet]).Nodup :=
    List.nodup_append'.mpr ⟨h.nodup, List.nodup_singleton _, by simpa using hnew⟩
  have hset : RecvFileInfoSet.Inv { curNo := 0, pRecvFileInfo := items.map FileItem.info } := by
    refine ⟨fun f hf => ?_, fun i f _ hf _ => ?_⟩
    · obtain ⟨item, -, rfl⟩ := List.mem_map.mp hf
      exact item.info_inv
    · obtain ⟨item, -, rfl⟩ := List.mem_map.mp (List.mem_of_getElem? hf)
      rfl
  have hstart : RecvState.Inv { s with recvFileList := s.recvFileList.pushToTail infoSet }
      (some infoSet) := by
    constructor
    case list => exact h.list.pushToTail infoSet
    case size => exact h.size
    case nodup => exact hnodup.sublist hsub
    case zero =>
      intro hmem
      rcases List.mem_append.mp (hsub.subset hmem) with hmem | hmem
      · exact h.zero hmem
      · exact hp (List.mem_singleton.mp hmem).symm
    case present =>
      intro p hmem hbusy
      rcases List.mem_append.mp (hsub.subset hmem) with hmem | hmem
      · exact h.present p hmem (by simp)
      · exact absurd (congrArg some (List.mem_singleton.mp hmem).symm) hbusy
    case sets => exact h.sets
    case whole => exact h.whole
  exact hstart.putSet hset fun hbusy => absurd rfl hbusy

theorem Inv.syncFile (h : s.Inv none) {items : List FileItem} (hp : infoSet ≠ 0)
    (hfree : s.sets infoSet = none)
    (hshort : ∀ item ∈ items, item.fileName.length < rfiNameLen) :
    ∃ s', s.syncFile infoSet items = some s' ∧ s'.Inv none := by
  obtain ⟨s', hs', hinv, -⟩ := (h.announced hp hfree).advance sets_putSet
  exact ⟨s', (syncFile_eq hshort).trans hs', hinv⟩

/-! ### A message about a file -/

/-- A message for no set. -/
theorem Inv.sendFile_eq_none (h : s.Inv none) {ipnum : UInt32} (m : SendFile)
    (hmem : ipnum ∉ s.recvFileList.contents) : s.sendFile sqlite ipnum m = none := by
  rw [RecvState.sendFile, recvFileListGet_eq h.list h.zero, if_neg hmem]
  rfl

theorem Inv.current (h : s.Inv none) {ipnum : UInt32} (hmem : ipnum ∈ s.recvFileList.contents) :
    ∃ set f, s.sets ipnum = some set ∧ set.getCurFileInfo = some f ∧ f.Inv ∧
      (f.pFileData = none → f.actRecvSize = 0) := by
  obtain ⟨set, hset, hlt⟩ := h.present ipnum hmem (by simp)
  have hf : set.getCurFileInfo = some set.pRecvFileInfo[set.curNo] := List.getElem?_eq_getElem hlt
  have hinv := h.sets ipnum set hset
  exact ⟨set, _, hset, hf, hinv.files _ (List.getElem_mem hlt), hinv.rest _ _ le_rfl hf⟩

/-- The file that a message is for is changed. -/
theorem Inv.putFile (h : s.Inv none) (hset : s.sets infoSet = some set)
    {g : RecvFileInfo → RecvFileInfo} {f : RecvFileInfo} (hf : set.getCurFileInfo = some f)
    (hg : (g f).Inv ∧ ((g f).pFileData = none → (g f).actRecvSize = 0)) :
    (s.putSet infoSet (set.setFile set.curNo g)).Inv none := by
  refine h.putSet ((h.sets infoSet set hset).setFile fun f' hf' => ?_) fun _ _ => ?_
  · obtain rfl := Option.some.inj (hf.symm.trans hf')
    exact ⟨hg.1, fun _ => hg.2⟩
  · show set.curNo < (set.pRecvFileInfo.modify set.curNo g).length
    rw [List.length_modify]
    exact (List.getElem?_eq_some_iff.mp hf).1

theorem storeFile_iff {db : LocalDB} {f : RecvFileInfo} :
    (∃ db', storeFile sqlite db f = some db') ↔ Storable sqlite db f := by
  rw [storeFile, Storable]
  cases hrec : localDBGetRec db f.rfiName with
  | some record =>
      by_cases hupdate : (Sql.update f.rfiName f.rfiTime f.rfiSize).Short
      · simp [localDBUpdate, Sql.exec, hupdate]
      · simp [localDBUpdate, Sql.exec, hupdate]
  | none =>
      have hrec : ¬ (none : Option LocalFileInfo) ≠ none := fun hne => hne rfl
      rw [if_neg hrec]
      by_cases hselect : (Sql.select f.rfiName).Short
      case neg => simp [localDBAdd, Sql.exec, hselect]
      rw [and_iff_right hselect]
      simp only [localDBAdd, Sql.exec, if_pos hselect, Option.bind_eq_bind, Option.bind_some]
      obtain ⟨table, rows⟩ := sqlite db.table (.select f.rfiName)
      cases rows with
      | none => simp
      | some rows =>
          have hiff : (∀ t r, (table, some rows) = (t, some r) →
              if r ≠ [] then (Sql.update f.rfiName f.rfiTime f.rfiSize).Short
              else (Sql.insert f.rfiName f.rfiTime f.rfiSize 0).Short ∧
                ((sqlite t (.insert f.rfiName f.rfiTime f.rfiSize 0)).2 ≠ none →
                  f.rfiName.length < localFileNameLen)) ↔
              if rows ≠ [] then (Sql.update f.rfiName f.rfiTime f.rfiSize).Short
              else (Sql.insert f.rfiName f.rfiTime f.rfiSize 0).Short ∧
                ((sqlite table (.insert f.rfiName f.rfiTime f.rfiSize 0)).2 ≠ none →
                  f.rfiName.length < localFileNameLen) := by
            refine ⟨fun h => h table rows rfl, fun h t r heq => ?_⟩
            obtain ⟨rfl, hrows⟩ := Prod.mk.inj heq
            obtain rfl := Option.some.inj hrows
            exact h
          rw [hiff]
          by_cases hrows : rows ≠ []
          · simp only [if_pos hrows]
            by_cases hupdate : (Sql.update f.rfiName f.rfiTime f.rfiSize).Short
            · simp [hupdate]
            · simp [hupdate]
          · simp only [if_neg hrows]
            by_cases hinsert : (Sql.insert f.rfiName f.rfiTime f.rfiSize 0).Short
            case neg => simp [hinsert]
            cases hdone : (sqlite table (.insert f.rfiName f.rfiTime f.rfiSize 0)).2 with
            | none => simp [hinsert, hdone]
            | some inserted =>
                by_cases hshort : f.rfiName.length < localFileNameLen
                · simp [hinsert, hdone, copyName, hshort]
                · simp [hinsert, hdone, copyName, hshort]

/-- The texts that the database needs fit only when the path does. -/
theorem Storable.path {db : LocalDB} {f : RecvFileInfo} (h : Storable sqlite db f) :
    strcpy 256 (dstFile f) = some (dstFile f) := by
  have hselect := length_select f.rfiName
  have hupdate := length_update f.rfiName f.rfiTime f.rfiSize
  have hpath : (dstFile f).length = 2 + f.rfiName.length := List.length_append
  refine if_pos ?_
  rw [Storable] at h
  split at h
  · have hshort : (Sql.update f.rfiName f.rfiTime f.rfiSize).text.length < 256 := h
    omega
  · have hshort : (Sql.select f.rfiName).text.length < 256 := h.1
    omega

theorem length_tmpDir (path : Str) (h : ptnStart path ≤ lastSlash path) :
    ((path.drop (ptnStart path)).take (lastSlash path - ptnStart path)).length =
      lastSlash path - ptnStart path := by
  have hle : lastSlash path ≤ path.length := by
    rw [lastSlash]
    omega
  rw [List.length_take, List.length_drop]
  omega

theorem saveBmpToPtn_iff {path : Str} {parsed : Option ℤ} :
    saveBmpToPtn path parsed = some () ↔ PtnFits path parsed := by
  rw [saveBmpToPtn, PtnFits]
  by_cases hptn : contains "imageOrigin" path = true
  case neg => simp [hptn]
  rw [if_pos hptn, forall_prop_of_true hptn]
  by_cases hslash : ptnStart path ≤ lastSlash path
  case neg =>
    rw [if_neg hslash]
    exact ⟨fun heq => (nomatch heq), fun h => absurd h.1 hslash⟩
  rw [if_pos hslash, and_iff_right hslash]
  have hlength := length_tmpDir path hslash
  have hcfg : "cfg/ptn/".toList.length = 8 := rfl
  generalize (path.drop (ptnStart path)).take (lastSlash path - ptnStart path) = tmpDir at hlength
  rw [← hlength]
  by_cases hdir : tmpDir.length < 64
  case neg =>
    rw [strcpy_eq_none hdir]
    exact ⟨fun heq => (nomatch heq), fun h => absurd h.1 hdir⟩
  have hptnDir : ("cfg/ptn/".toList ++ tmpDir).length < 128 := by
    rw [List.length_append, hcfg]
    omega
  rw [strcpy_eq hdir, and_iff_right hdir, Option.bind_eq_bind, Option.bind_some,
    strcpy_eq hptnDir]
  cases parsed with
  | none => exact ⟨fun heq => (nomatch heq), fun h => absurd rfl h.1⟩
  | some ret =>
      rw [and_iff_right (Option.some_ne_none ret), Option.some_inj]
      show (if ret = 0 then _ else some ()) = some () ↔ _
      by_cases hret : ret = 0
      case neg =>
        rw [if_neg hret]
        exact ⟨fun _ h => absurd h hret, fun _ => rfl⟩
      have hfull : ("cfg/ptn/".toList ++ tmpDir ++ '/' :: bmpBaseName path).length < 128 ↔
          tmpDir.length + (bmpBaseName path).length < 119 := by
        rw [List.length_append, List.length_append, hcfg, List.length_cons]
        omega
      rw [if_pos hret, forall_prop_of_true hret, ← hfull]
      by_cases hbase : (bmpBaseName path).length < 64
      case neg =>
        rw [strcpy_eq_none hbase]
        exact ⟨fun heq => (nomatch heq), fun h => absurd h.1 hbase⟩
      rw [strcpy_eq hbase, and_iff_right hbase, Option.bind_some]
      by_cases hpath : ("cfg/ptn/".toList ++ tmpDir ++ '/' :: bmpBaseName path).length < 128
      · rw [strcpy_eq hpath]
        exact ⟨fun _ => hpath, fun _ => rfl⟩
      · rw [strcpy_eq_none hpath]
        exact ⟨fun heq => (nomatch heq), fun h => absurd h hpath⟩

/-- A file finds its place exactly when its picture does, and its row. -/
theorem placeFile_iff {db : LocalDB} {f : RecvFileInfo} {parsed : Option ℤ} :
    (∃ db', placeFile sqlite db f parsed = some db') ↔
      PtnFits (dstFile f) parsed ∧ Storable sqlite db f := by
  constructor
  · rintro ⟨db', heq⟩
    obtain ⟨path, hpath, heq⟩ := Option.bind_eq_some_iff.mp heq
    obtain ⟨-, hpath⟩ := Option.ite_none_right_eq_some.mp hpath
    obtain rfl := Option.some.inj hpath
    obtain ⟨u, hsave, heq⟩ := Option.bind_eq_some_iff.mp heq
    exact ⟨saveBmpToPtn_iff.mp hsave, storeFile_iff.mp ⟨db', heq⟩⟩
  · rintro ⟨hptn, hstorable⟩
    obtain ⟨db', heq⟩ := storeFile_iff.mpr hstorable
    refine ⟨db', ?_⟩
    rw [placeFile, Storable.path hstorable]
    simp only [Option.bind_eq_bind, Option.bind_some, saveBmpToPtn_iff.mpr hptn, heq]

/-- What is handed on is stored, and the next file is asked for. -/
theorem pgSyncFile_eq {f : RecvFileInfo} {db' : LocalDB} {parsed : Option ℤ}
    (hset : s.sets infoSet = some set)
    (hf : set.getCurFileInfo = some f) (hstore : placeFile sqlite s.localDB f parsed = some db') :
    s.pgSyncFile sqlite infoSet parsed =
      (RecvState.putSet { s with
        localDB := db', effects := s.effects ++ [.writeFile f, .syncStatu] }
          infoSet set.addFileIndex).advance infoSet := by
  simp only [RecvState.pgSyncFile, hset, hf, hstore, Option.bind_eq_bind, Option.bind_some]

/-- The state that is left behind the storing. -/
theorem Inv.handOn (h : s.Inv none) {f : RecvFileInfo} {db' : LocalDB}
    (hset : s.sets infoSet = some set) (hwhole : f.Whole) :
    (RecvState.putSet { s with localDB := db', effects := s.effects ++ [.writeFile f, .syncStatu] }
      infoSet set.addFileIndex).Inv (some infoSet) := by
  have hstored : RecvState.Inv { s with
      localDB := db', effects := s.effects ++ [.writeFile f, .syncStatu] } (some infoSet) := by
    refine ⟨h.list, h.size, h.nodup, h.zero, fun p hp _ => h.present p hp (by simp), h.sets, ?_⟩
    intro f' hf'
    rcases List.mem_append.mp hf' with hf' | hf'
    · exact h.whole f' hf'
    · obtain rfl : f' = f := by simpa using hf'
      exact hwhole
  exact hstored.putSet ((h.sets infoSet set hset).later (Nat.le_succ _)) fun hbusy =>
    absurd rfl hbusy

theorem Inv.pgSyncFile (h : s.Inv none) {f : RecvFileInfo} {db' : LocalDB} {parsed : Option ℤ}
    (hset : s.sets infoSet = some set) (hf : set.getCurFileInfo = some f)
    (hstore : placeFile sqlite s.localDB f parsed = some db') (hwhole : f.Whole) :
    ∃ s', s.pgSyncFile sqlite infoSet parsed = some s' ∧ s'.Inv none ∧
      ∀ set', s'.sets infoSet = some set' → set.curNo < set'.curNo := by
  obtain ⟨s', hs', hinv, hlater⟩ := (h.handOn hset hwhole).advance sets_putSet
  exact ⟨s', (pgSyncFile_eq hset hf hstore).trans hs', hinv, hlater⟩

section

variable {ipnum : UInt32} {f : RecvFileInfo}

theorem Inv.sendFile_eq (h : s.Inv none) (hmem : ipnum ∈ s.recvFileList.contents)
    (hset : s.sets ipnum = some set) (hf : set.getCurFileInfo = some f) (m : SendFile) :
    s.sendFile sqlite ipnum m =
      match m with
      | .binfileBegin room => some (s.putSet ipnum (set.setFile set.curNo (.begin room)))
      | .binfileBody pcmd =>
          (f.body pcmd.val).bind fun f => some (s.putSet ipnum (set.setFile set.curNo fun _ => f))
      | .binfileOver parsed =>
          if f.complete then
            (s.pgSyncFile sqlite ipnum parsed).bind fun s =>
              match s.sets ipnum with
              | some set' =>
                  some (s.putSet ipnum (set'.setFile set.curNo fun f =>
                    { f with pFileData := none }))
              | none => some s
          else some s := by
  rw [RecvState.sendFile, recvFileListGet_eq h.list h.zero, if_pos hmem]
  show (s.sets ipnum).bind _ = _
  rw [hset]
  show set.getCurFileInfo.bind _ = _
  rw [hf]
  cases m <;> rfl

/-- A message that fits is handled. -/
theorem Inv.sendFile (h : s.Inv none) (hmem : ipnum ∈ s.recvFileList.contents)
    (hset : s.sets ipnum = some set) (hf : set.getCurFileInfo = some f) (hinv : f.Inv)
    (hrest : f.pFileData = none → f.actRecvSize = 0) {m : SendFile}
    (hfits : m.Fits sqlite s.localDB f) :
    ∃ s', s.sendFile sqlite ipnum m = some s' ∧ s'.Inv none := by
  rw [h.sendFile_eq hmem hset hf]
  cases m with
  | binfileBegin room => exact ⟨_, rfl, h.putFile hset hf (RecvFileInfo.Inv.begin room)⟩
  | binfileBody pcmd =>
      obtain ⟨f', hf', hinv'⟩ := hinv.body hrest pcmd.property hfits
      refine ⟨_, by simp only [hf', Option.bind_some]; rfl, ?_⟩
      exact h.putFile hset hf (g := fun _ => f') hinv'
  | binfileOver parsed =>
      by_cases hcomplete : f.complete = true
      case neg => exact ⟨s, if_neg hcomplete, h⟩
      obtain ⟨hbegun, hrefused, hstorable⟩ := hfits hcomplete
      have hwhole := (hinv.whole_iff hrest hcomplete).mpr ⟨hbegun, hrefused⟩
      obtain ⟨db', hstore⟩ := placeFile_iff.mpr hstorable
      obtain ⟨s', hs', hinv', hlater⟩ := h.pgSyncFile hset hf hstore hwhole
      simp only [hcomplete, if_true, hs', Option.bind_some]
      cases hset' : s'.sets ipnum with
      | none => exact ⟨s', rfl, hinv'⟩
      | some set' =>
          have hlt := hlater set' hset'
          refine ⟨_, rfl, hinv'.putSet ((hinv'.sets ipnum set' hset').setFile ?_) fun _ hp => ?_⟩
          · intro f' hf'
            have hold := (hinv'.sets ipnum set' hset').files f' (List.mem_of_getElem? hf')
            -- the cursor is past the file
            exact ⟨⟨by simp, hold.empty, hold.received⟩, fun hle => absurd hle (by omega)⟩
          · obtain ⟨set'', hset'', hroom⟩ := hinv'.present ipnum hp (by simp)
            obtain rfl := Option.some.inj (hset'.symm.trans hset'')
            show set'.curNo < (set'.pRecvFileInfo.modify ..).length
            rw [List.length_modify]
            exact hroom

/-- A message that is handled, and good behind it, fits. -/
theorem Inv.fits_of_sendFile (h : s.Inv none) (hmem : ipnum ∈ s.recvFileList.contents)
    (hset : s.sets ipnum = some set) (hf : set.getCurFileInfo = some f) (hinv : f.Inv)
    (hrest : f.pFileData = none → f.actRecvSize = 0) {m : SendFile}
    (heq : s.sendFile sqlite ipnum m = some s') (hgood : s'.Good) : m.Fits sqlite s.localDB f := by
  rw [h.sendFile_eq hmem hset hf] at heq
  cases m with
  | binfileBegin room => trivial
  | binfileBody pcmd =>
      by_contra hfits
      simp only [hinv.body_eq_none pcmd.property hrest hfits, Option.bind_none] at heq
      cases heq
  | binfileOver parsed =>
      intro hcomplete
      simp only [hcomplete, if_true] at heq
      obtain ⟨s₁, hs₁, hfree⟩ := Option.bind_eq_some_iff.mp heq
      cases hstore : placeFile sqlite s.localDB f parsed with
      | none =>
          simp [RecvState.pgSyncFile, hset, hf, hstore] at hs₁
      | some db' =>
          rw [pgSyncFile_eq hset hf hstore] at hs₁
          obtain ⟨s₂, hs₂, hextends⟩ := effects_advance (s := RecvState.putSet { s with
            localDB := db', effects := s.effects ++ [.writeFile f, .syncStatu] }
              ipnum set.addFileIndex) sets_putSet
          obtain rfl := Option.some.inj (hs₁.symm.trans hs₂)
          have heffects : s'.effects = s₁.effects := by
            cases hset₁ : s₁.sets ipnum with
            | none =>
                simp only [hset₁] at hfree
                rw [← Option.some.inj hfree]
            | some set' =>
                simp only [hset₁] at hfree
                rw [← Option.some.inj hfree]
                rfl
          have hwritten : .writeFile f ∈ s'.effects := by
            rw [heffects]
            exact hextends.subset (List.mem_append_right _ List.mem_cons_self)
          have hwhole := (hinv.whole_iff hrest hcomplete).mp (hgood.whole f hwritten)
          exact ⟨hwhole.1, hwhole.2, placeFile_iff.mp ⟨db', hstore⟩⟩

end

/-! ### Runs -/

/-- An event is handled, and good behind it, exactly when it fits. -/
theorem Inv.handle_iff (h : s.Inv none) {e : RecvEvent} (halloc : e.Allocated s) :
    (∃ s', e.handle sqlite s = some s' ∧ s'.Good) ↔ e.Fits sqlite s := by
  cases e with
  | syncFile infoSet items =>
      constructor
      · rintro ⟨s', heq, -⟩ item hitem
        by_contra hlong
        rw [RecvEvent.handle, RecvState.syncFile, mapM_recvFileInfo_none hitem hlong] at heq
        cases heq
      · intro hshort
        obtain ⟨s', heq, hinv⟩ := h.syncFile halloc.1 halloc.2 hshort
        exact ⟨s', heq, hinv.good⟩
  | sendFile ipnum m =>
      constructor
      · rintro ⟨s', heq, hgood⟩
        have hmem : ipnum ∈ s.recvFileList.contents := by
          by_contra hmem
          rw [RecvEvent.handle, h.sendFile_eq_none m hmem] at heq
          cases heq
        obtain ⟨set, f, hset, hf, hinv, hrest⟩ := h.current hmem
        exact ⟨hmem, set, f, hset, hf, h.fits_of_sendFile hmem hset hf hinv hrest heq hgood⟩
      · rintro ⟨hmem, set, f, hset, hf, hfits⟩
        obtain ⟨set', f', hset', hf', hinv, hrest⟩ := h.current hmem
        obtain rfl := Option.some.inj (hset.symm.trans hset')
        obtain rfl := Option.some.inj (hf.symm.trans hf')
        obtain ⟨s', heq, hinv'⟩ := h.sendFile hmem hset hf hinv hrest hfits
        exact ⟨s', heq, hinv'.good⟩

/-- An event that fits keeps the invariant. -/
theorem Inv.handle (h : s.Inv none) {e : RecvEvent} (halloc : e.Allocated s)
    (hfits : e.Fits sqlite s) (heq : e.handle sqlite s = some s') : s'.Inv none := by
  have hsome : ∃ s', e.handle sqlite s = some s' ∧ s'.Inv none := by
    cases e with
    | syncFile infoSet items => exact h.syncFile halloc.1 halloc.2 hfits
    | sendFile ipnum m =>
        obtain ⟨hmem, set, f, hset, hf, hfits⟩ := hfits
        obtain ⟨set', f', hset', hf', hinv, hrest⟩ := h.current hmem
        obtain rfl := Option.some.inj (hset.symm.trans hset')
        obtain rfl := Option.some.inj (hf.symm.trans hf')
        exact h.sendFile hmem hset hf hinv hrest hfits
  obtain ⟨s'', heq', hinv⟩ := hsome
  obtain rfl := Option.some.inj (heq.symm.trans heq')
  exact hinv

theorem Inv.safeRun_iff {es : List RecvEvent} {s : RecvState} (h : s.Inv none)
    (halloc : RecvEvent.AllocatedRun sqlite s es) :
    RecvEvent.SafeRun sqlite s es ↔ RecvEvent.FitsRun sqlite s es := by
  induction es generalizing s with
  | nil => exact Iff.rfl
  | cons e es ih =>
      obtain ⟨halloc, hallocs⟩ := halloc
      refine Library.run_step_iff (fun hfits => ?_) fun s' heq hgood =>
        (h.handle_iff halloc).mp ⟨s', heq, hgood⟩
      obtain ⟨s', heq, hgood⟩ := (h.handle_iff halloc).mpr hfits
      exact ⟨s', heq, hgood, ih (h.handle halloc hfits heq) (hallocs s' heq)⟩

/-- The client before anything is announced. -/
def start (db : LocalDB) : RecvState where
  recvFileList := recvFileListInit
  sets := fun _ => none
  localDB := db
  effects := []

theorem start_inv (db : LocalDB) : (start db).Inv none := by
  have hcontents : (start db).recvFileList.contents = [] := LoopList.contents_create (by decide)
  constructor
  case list => exact LoopList.create_valid (by decide)
  case size => rfl
  case nodup => exact hcontents ▸ List.nodup_nil
  case zero => exact hcontents ▸ List.not_mem_nil
  case present =>
    intro p hp
    rw [hcontents] at hp
    cases hp
  case sets =>
    intro p set hset
    cases hset
  case whole => exact fun f hf => absurd hf List.not_mem_nil

end RecvState

end PanelTester.FileSync
