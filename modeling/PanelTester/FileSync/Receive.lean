import PanelTester.FileSync.LocalDB

/-!
The files that the server sends, `clirecvcmd5srv.c`, `client.c` and `clipg.c`. The server announces
a set of files; the client asks for the first one that its database does not have as announced, is
sent it in pieces, stores it, and asks for the next one. A message names the set by its address.
Kept beside the fields of a file is what was sent for it since the last `BINFILE_BEGIN`, which no
step reads.
-/

namespace PanelTester.FileSync

open Library

/-- The size of `rfiName`. -/
def rfiNameLen : ℕ := 256

/-- A C integer where a size is expected. -/
def sizeT (i : Int32) : ℕ := i.toUInt32.toNat

/-- A block of memory; the cells that were not written have no value. -/
abbrev Block := List (Option UInt8)

/-- `malloc`, which has no blocks of 2^31 bytes. -/
def malloc (room : Bool) (size : ℕ) : Option Block :=
  if room ∧ size < 2 ^ 31 then some (List.replicate size none) else none

/-- `memcpy` to `&block[i]`. -/
def memcpy (block : Option Block) (i : ℤ) (bytes : List UInt8) : Option (Option Block) :=
  match block with
  | none => if bytes = [] then some none else none
  | some cells =>
      if 0 ≤ i ∧ i + bytes.length ≤ cells.length then
        some (some (cells.take i.toNat ++ bytes.map some ++ cells.drop (i.toNat + bytes.length)))
      else none

/-- `recv_file_info_t`, with what came for it, and whether something of that was left out. -/
structure RecvFileInfo where
  rfiName : Str
  rfiSize : Int32
  rfiTime : Int32
  pFileData : Option Block
  actRecvSize : Int32
  received : Option (List UInt8)
  refused : Bool
  deriving DecidableEq

/-- `recv_file_info_set_t`; there are as many files as the array has, and the functions are those
of a synchronisation. -/
structure RecvFileInfoSet where
  curNo : ℕ
  pRecvFileInfo : List RecvFileInfo
  deriving DecidableEq

/-- What is announced of a file. -/
structure FileItem where
  fileName : Str
  fileSize : Int32
  fileTime : Int32
  deriving DecidableEq

/-- The message types of `SERVER2CLI_MSG_SENDFILE`; whether there is memory is decided elsewhere,
and so is what `parseBmp` returns for the file, without a value where it leaves its arrays. The
length of a message is an `int` in `_addcmd`. -/
inductive SendFile
  | binfileBegin (room : Bool)
  | binfileBody (pcmd : { bytes : List UInt8 // bytes.length < 2 ^ 31 })
  | binfileOver (parsed : Option ℤ)

/-- What the client does that others see. -/
inductive Effect
  | getFile (fileName : Str) (infoSet : UInt32)
  | writeFile (file : RecvFileInfo)
  | syncStatu
  | syncFinish
  deriving DecidableEq

/-- `s_recv_file_list`, the sets in memory, and the database. -/
structure RecvState where
  recvFileList : LoopList UInt32
  sets : UInt32 → Option RecvFileInfoSet
  localDB : LocalDB
  effects : List Effect

/-! ### The list of sets -/

/-- `recv_file_list_init` -/
def recvFileListInit : LoopList UInt32 := LoopList.create 10

/-- `searchRecvConn` -/
def searchRecvConn (pData : UInt32) (item : UInt32) : Bool :=
  if item = 0 ∨ pData = 0 then false else item = pData

/-- `recv_file_list_get` -/
def recvFileListGet (l : LoopList UInt32) (pData : UInt32) : Option UInt32 :=
  l.search (searchRecvConn pData)

/-- `recv_file_list_del` -/
def recvFileListDel (l : LoopList UInt32) (pData : UInt32) : LoopList UInt32 :=
  l.remove ((recvFileListGet l pData).getD 0)

/-! ### The files of a set -/

namespace RecvFileInfoSet

/-- `get_cur_file_info` -/
def getCurFileInfo (set : RecvFileInfoSet) : Option RecvFileInfo := set.pRecvFileInfo[set.curNo]?

/-- `add_file_index` -/
def addFileIndex (set : RecvFileInfoSet) : RecvFileInfoSet := { set with curNo := set.curNo + 1 }

/-- A file of the set is changed. -/
def setFile (set : RecvFileInfoSet) (i : ℕ) (f : RecvFileInfo → RecvFileInfo) : RecvFileInfoSet :=
  { set with pRecvFileInfo := set.pRecvFileInfo.modify i f }

end RecvFileInfoSet

/-- A file before anything came for it. -/
def FileItem.info (item : FileItem) : RecvFileInfo where
  rfiName := item.fileName
  rfiSize := item.fileSize
  rfiTime := item.fileTime
  pFileData := none
  actRecvSize := 0
  received := none
  refused := false

/-- A file as `SERVER2CLI_MSG_SYNCFILE` puts it in the set. -/
def recvFileInfo (item : FileItem) : Option RecvFileInfo :=
  if item.fileName.length < rfiNameLen then some item.info else none

/-- `find_file_from_local_db` -/
def findFileFromLocalDB (db : LocalDB) (pFileName : Str) (u32FileSize u32FileTime : Int32) : Bool :=
  (localDBGetRec db pFileName).any fun record =>
    record.fileTime = u32FileTime && record.fileSize = u32FileSize

/-- The loop of `client_getFileFromSet`. -/
def skipLoop (db : LocalDB) : ℕ → RecvFileInfoSet → RecvFileInfoSet
  | 0, set => set
  | n + 1, set =>
      match set.getCurFileInfo with
      | none => set
      | some f =>
          if findFileFromLocalDB db f.rfiName f.rfiSize f.rfiTime then
            skipLoop db n set.addFileIndex
          else set

/-- Where `saveBmpToPtn` has `pStr`, counted from the start of the path. -/
def ptnStart (pBmpFullName : Str) : ℕ :=
  (before "imageOrigin" pBmpFullName).length + "imageOrigin".length

/-- What stands behind the last '/', where `pStr2` is. -/
def bmpBaseName (pBmpFullName : Str) : Str := pBmpFullName.rtakeWhile (· ≠ '/')

/-- `strrchr` of '/', in a path that has one. -/
def lastSlash (pBmpFullName : Str) : ℕ :=
  pBmpFullName.length - (bmpBaseName pBmpFullName).length - 1

/-- `saveBmpToPtn`, which has no result where `memcpy` gets a negative size or a path does not fit
its array. -/
def saveBmpToPtn (pBmpFullName : Str) (parsed : Option ℤ) : Option Unit :=
  if contains "imageOrigin" pBmpFullName then
    let pStr := ptnStart pBmpFullName
    let pStr2 := lastSlash pBmpFullName
    if pStr ≤ pStr2 then do
      let tmpDir ← strcpy 64 ((pBmpFullName.drop pStr).take (pStr2 - pStr))
      let ptnDir ← strcpy 128 ("cfg/ptn/".toList ++ tmpDir)
      let ret ← parsed
      if ret = 0 then do
        let bmpBaseName ← strcpy 64 (bmpBaseName pBmpFullName)
        let _ptnFullName ← strcpy 128 (ptnDir ++ '/' :: bmpBaseName)
        some ()
      else some ()
    else none
  else some ()

/-- What `client_pg_syncFile` does to the database. -/
def storeFile (sqlite : Sqlite) (db : LocalDB) (f : RecvFileInfo) : Option LocalDB :=
  match localDBGetRec db f.rfiName with
  | some _ =>
      localDBUpdate sqlite (setRec db f.rfiName f.rfiTime f.rfiSize) f.rfiName f.rfiTime f.rfiSize
  | none => localDBAdd sqlite db f.rfiName f.rfiTime f.rfiSize

/-- `dst_file` -/
def dstFile (f : RecvFileInfo) : Str := "./".toList ++ f.rfiName

/-- What `client_pg_syncFile` does with a file, before the next one is asked for. -/
def placeFile (sqlite : Sqlite) (db : LocalDB) (f : RecvFileInfo) (parsed : Option ℤ) :
    Option LocalDB := do
  let dst_file ← strcpy 256 (dstFile f)
  saveBmpToPtn dst_file parsed
  storeFile sqlite db f

namespace RecvState

/-- A set is put where it is in memory. -/
def putSet (s : RecvState) (infoSet : UInt32) (set : RecvFileInfoSet) : RecvState :=
  { s with sets := Function.update s.sets infoSet (some set) }

/-- `client_getFileFromSet`, and whether a file is asked for. -/
def getFileFromSet (s : RecvState) (infoSet : UInt32) : Option (RecvState × Bool) := do
  let set ← s.sets infoSet
  let set := skipLoop s.localDB set.pRecvFileInfo.length set
  let s := s.putSet infoSet set
  match set.getCurFileInfo with
  | some f => some ({ s with effects := s.effects ++ [.getFile f.rfiName infoSet] }, true)
  | none => some (s, false)

/-- The end of a synchronisation: the set is deleted, and `client_syncFinish`. -/
def finish (s : RecvState) (infoSet : UInt32) : RecvState :=
  { s with
    recvFileList := recvFileListDel s.recvFileList infoSet
    sets := Function.update s.sets infoSet none
    effects := s.effects ++ [.syncFinish] }

/-- The next file of a set is asked for, if there is one. -/
def advance (s : RecvState) (infoSet : UInt32) : Option RecvState := do
  let (s, found) ← s.getFileFromSet infoSet
  if found then some s else some (s.finish infoSet)

/-- `client_pg_syncFile` -/
def pgSyncFile (sqlite : Sqlite) (s : RecvState) (infoSet : UInt32) (parsed : Option ℤ) :
    Option RecvState := do
  let set ← s.sets infoSet
  let f ← set.getCurFileInfo
  let localDB ← placeFile sqlite s.localDB f parsed
  let s : RecvState :=
    { s with localDB := localDB, effects := s.effects ++ [.writeFile f, .syncStatu] }
  (s.putSet infoSet set.addFileIndex).advance infoSet

/-- `SERVER2CLI_MSG_SYNCFILE`, with the memory that the set gets. -/
def syncFile (s : RecvState) (infoSet : UInt32) (filesArray : List FileItem) :
    Option RecvState := do
  let files ← filesArray.mapM recvFileInfo
  let s := { s with recvFileList := s.recvFileList.pushToTail infoSet }
  (s.putSet infoSet { curNo := 0, pRecvFileInfo := files }).advance infoSet

end RecvState

namespace RecvFileInfo

/-- The test of a `BINFILE_BODY`, in `unsigned int`. -/
def takes (f : RecvFileInfo) (len : ℕ) : Bool :=
  f.actRecvSize.toUInt32 + UInt32.ofNat len ≤ f.rfiSize.toUInt32 || f.rfiSize = 0

/-- The test at the end of a file. -/
def complete (f : RecvFileInfo) : Bool := f.rfiSize = f.actRecvSize || f.rfiSize = 0

/-- `BINFILE_BEGIN` -/
def begin (room : Bool) (f : RecvFileInfo) : RecvFileInfo :=
  { f with
    pFileData := malloc room (sizeT f.rfiSize)
    actRecvSize := 0
    received := some []
    refused := false }

/-- `BINFILE_BODY` -/
def body (pcmd : List UInt8) (f : RecvFileInfo) : Option RecvFileInfo :=
  let received := f.received.map (· ++ pcmd)
  if f.takes pcmd.length then do
    let pFileData ← memcpy f.pFileData f.actRecvSize.toInt pcmd
    some
      { f with
        pFileData := pFileData
        actRecvSize := (f.actRecvSize.toUInt32 + UInt32.ofNat pcmd.length).toInt32
        received := received }
  else some { f with received := received, refused := true }

end RecvFileInfo

namespace RecvState

/-- `SERVER2CLI_MSG_SENDFILE` -/
def sendFile (sqlite : Sqlite) (s : RecvState) (ipnum : UInt32) (m : SendFile) :
    Option RecvState := do
  let infoSet ← recvFileListGet s.recvFileList ipnum
  let set ← s.sets infoSet
  let f ← set.getCurFileInfo
  match m with
  | .binfileBegin room => some (s.putSet infoSet (set.setFile set.curNo (.begin room)))
  | .binfileBody pcmd => do
      let f ← f.body pcmd.val
      some (s.putSet infoSet (set.setFile set.curNo fun _ => f))
  | .binfileOver parsed =>
      if f.complete then do
        let s ← s.pgSyncFile sqlite infoSet parsed
        -- the array outlives the set
        match s.sets infoSet with
        | some set' =>
            some (s.putSet infoSet (set'.setFile set.curNo fun f => { f with pFileData := none }))
        | none => some s
      else some s

end RecvState

/-! ### Sizes -/

theorem toInt_eq_sizeT (i : Int32) :
    i.toInt = if sizeT i < 2 ^ 31 then (sizeT i : ℤ) else sizeT i - 2 ^ 32 := by
  show i.toBitVec.toInt =
    if i.toBitVec.toNat < 2 ^ 31 then (i.toBitVec.toNat : ℤ) else i.toBitVec.toNat - 2 ^ 32
  rw [BitVec.toInt_eq_toNat_cond]
  show (if 2 * i.toBitVec.toNat < 2 ^ 32 then (i.toBitVec.toNat : ℤ) else _) = _
  split_ifs <;> omega

theorem sizeT_inj {i j : Int32} : sizeT i = sizeT j ↔ i = j := by
  refine ⟨fun h => ?_, fun h => h ▸ rfl⟩
  have hwords : i.toUInt32 = j.toUInt32 := UInt32.toNat_inj.mp h
  exact congrArg UInt32.toInt32 hwords

theorem sizeT_eq_zero {i : Int32} : sizeT i = 0 ↔ i = 0 := sizeT_inj (j := 0)

/-- What is received is added up. -/
theorem sizeT_add {i : Int32} {n : ℕ} (h : sizeT i + n < 2 ^ 32) :
    sizeT (i.toUInt32 + UInt32.ofNat n).toInt32 = sizeT i + n := by
  show (i.toUInt32 + UInt32.ofNat n).toNat = i.toUInt32.toNat + n
  have h : i.toUInt32.toNat + n < 2 ^ 32 := h
  rw [UInt32.toNat_add, UInt32.toNat_ofNat', Nat.mod_eq_of_lt (a := n) (by omega),
    Nat.mod_eq_of_lt h]

/-- The test of a `BINFILE_BODY` without the words. -/
theorem RecvFileInfo.takes_iff {f : RecvFileInfo} {n : ℕ} (h : sizeT f.actRecvSize + n < 2 ^ 32) :
    f.takes n = true ↔ sizeT f.actRecvSize + n ≤ sizeT f.rfiSize ∨ f.rfiSize = 0 := by
  rw [takes, Bool.or_eq_true, decide_eq_true_eq, decide_eq_true_eq, UInt32.le_iff_toNat_le,
    ← sizeT_add h]
  rfl

theorem RecvFileInfo.complete_iff {f : RecvFileInfo} :
    f.complete = true ↔ f.rfiSize = f.actRecvSize ∨ f.rfiSize = 0 := by
  rw [complete, Bool.or_eq_true, decide_eq_true_eq, decide_eq_true_eq]

/-! ### Memory -/

theorem memcpy_none (i : ℤ) (bytes : List UInt8) :
    memcpy none i bytes = if bytes = [] then some none else none := rfl

theorem memcpy_some {cells : Block} {i : ℕ} {bytes : List UInt8}
    (h : i + bytes.length ≤ cells.length) :
    ∃ cells', memcpy (some cells) i bytes = some (some cells') ∧ cells'.length = cells.length := by
  refine ⟨_, if_pos ⟨by omega, by omega⟩, ?_⟩
  simp only [List.length_append, List.length_take, List.length_map, List.length_drop]
  omega

theorem memcpy_outside {cells : Block} {i : ℕ} {bytes : List UInt8}
    (h : cells.length < i + bytes.length) : memcpy (some cells) i bytes = none :=
  if_neg fun ⟨_, hin⟩ => by omega

/-! ### The sets -/

section

variable {l : LoopList UInt32} {infoSet : UInt32}

/-- A set is found by its address. -/
theorem recvFileListGet_eq (h : l.Valid) (hzero : 0 ∉ l.contents) :
    recvFileListGet l infoSet = if infoSet ∈ l.contents then some infoSet else none := by
  rw [recvFileListGet, h.search_eq]
  split
  case isTrue hmem =>
    have hfound : (l.contents.find? (searchRecvConn infoSet)).isSome := by
      refine List.find?_isSome.mpr ⟨infoSet, hmem, ?_⟩
      have hne : infoSet ≠ 0 := fun heq => hzero (heq ▸ hmem)
      simp [searchRecvConn, hne]
    obtain ⟨item, hitem⟩ := Option.isSome_iff_exists.mp hfound
    have heq := List.find?_some hitem
    rw [hitem]
    congr 1
    rw [searchRecvConn] at heq
    split at heq
    · exact Bool.noConfusion heq
    · exact of_decide_eq_true heq
  case isFalse hmem =>
    apply List.find?_eq_none.mpr
    intro item hitem heq
    apply hmem
    rw [searchRecvConn] at heq
    split at heq
    · exact Bool.noConfusion heq
    · exact of_decide_eq_true heq ▸ hitem

/-- A set is taken out of the list. -/
theorem recvFileListDel_eq (h : l.Valid) (hzero : 0 ∉ l.contents) :
    (recvFileListDel l infoSet).Valid ∧
      (recvFileListDel l infoSet).contents = l.contents.erase infoSet := by
  rw [recvFileListDel, recvFileListGet_eq h hzero]
  split
  case isTrue => exact h.remove infoSet
  case isFalse hmem =>
    rw [List.erase_of_not_mem hmem, ← List.erase_of_not_mem hzero]
    exact h.remove 0

theorem size_recvFileListDel : (recvFileListDel l infoSet).size = l.size := by
  rw [recvFileListDel, LoopList.remove]
  split <;> rfl

end

/-- The array of an announcement. -/
theorem mapM_recvFileInfo {items : List FileItem}
    (h : ∀ item ∈ items, item.fileName.length < rfiNameLen) :
    items.mapM recvFileInfo = some (items.map FileItem.info) := by
  induction items with
  | nil => rfl
  | cons item items ih =>
      rw [List.mapM_cons, recvFileInfo, if_pos (h item List.mem_cons_self),
        ih fun i hi => h i (List.mem_cons_of_mem _ hi)]
      rfl

theorem mapM_recvFileInfo_none {items : List FileItem} {item : FileItem} (hmem : item ∈ items)
    (hlong : ¬ item.fileName.length < rfiNameLen) : items.mapM recvFileInfo = none := by
  induction items with
  | nil => cases hmem
  | cons first items ih =>
      rw [List.mapM_cons]
      rcases List.mem_cons.mp hmem with rfl | hmem
      · rw [recvFileInfo, if_neg hlong]
        rfl
      · rw [ih hmem]
        cases recvFileInfo first <;> rfl

/-- A file that the database has as it was announced. -/
def RecvFileInfo.upToDate (db : LocalDB) (f : RecvFileInfo) : Bool :=
  findFileFromLocalDB db f.rfiName f.rfiSize f.rfiTime

/-- The loop goes past the files that are up to date. -/
theorem skipLoop_eq {db : LocalDB} {n : ℕ} {set : RecvFileInfoSet}
    (h : set.pRecvFileInfo.length ≤ set.curNo + n) :
    skipLoop db n set = { set with
      curNo := set.curNo +
        ((set.pRecvFileInfo.drop set.curNo).takeWhile (RecvFileInfo.upToDate db)).length } := by
  induction n generalizing set with
  | zero =>
      rw [List.drop_eq_nil_of_le (i := set.curNo) h]
      rfl
  | succ n ih =>
      rw [skipLoop, RecvFileInfoSet.getCurFileInfo]
      cases hf : set.pRecvFileInfo[set.curNo]? with
      | none =>
          rw [List.drop_eq_nil_of_le (List.getElem?_eq_none_iff.mp hf)]
          rfl
      | some f =>
          obtain ⟨hlt, hget⟩ := List.getElem?_eq_some_iff.mp hf
          rw [List.drop_eq_getElem_cons hlt, hget, List.takeWhile_cons, RecvFileInfo.upToDate]
          by_cases hfound : findFileFromLocalDB db f.rfiName f.rfiSize f.rfiTime = true
          · have hrest : set.addFileIndex.pRecvFileInfo.length ≤ set.addFileIndex.curNo + n := by
              show set.pRecvFileInfo.length ≤ set.curNo + 1 + n
              omega
            simp only [hfound, if_true]
            rw [ih hrest, List.length_cons, Nat.add_comm _ 1, ← Nat.add_assoc]
            rfl
          · simp only [hfound, Bool.false_eq_true, if_false]
            rfl

namespace RecvState

variable {s : RecvState} {infoSet : UInt32} {set : RecvFileInfoSet}

@[simp] theorem sets_putSet : (s.putSet infoSet set).sets infoSet = some set :=
    Function.update_self ..

theorem sets_putSet_of_ne {p : UInt32} (h : p ≠ infoSet) :
    (s.putSet infoSet set).sets p = s.sets p :=
  Function.update_of_ne h ..

@[simp] theorem sets_finish : (s.finish infoSet).sets infoSet = none := Function.update_self ..

theorem sets_finish_of_ne {p : UInt32} (h : p ≠ infoSet) : (s.finish infoSet).sets p = s.sets p :=
  Function.update_of_ne h ..

/-- The set behind the loop. -/
def skipped (s : RecvState) (set : RecvFileInfoSet) : RecvFileInfoSet :=
  skipLoop s.localDB set.pRecvFileInfo.length set

theorem advance_some (h : s.sets infoSet = some set) {f : RecvFileInfo}
    (hf : (s.skipped set).getCurFileInfo = some f) :
    s.advance infoSet = some { s.putSet infoSet (s.skipped set) with
      effects := s.effects ++ [.getFile f.rfiName infoSet] } := by
  have hget : s.getFileFromSet infoSet = some ({ s.putSet infoSet (s.skipped set) with
      effects := s.effects ++ [.getFile f.rfiName infoSet] }, true) := by
    rw [skipped] at hf ⊢
    rw [getFileFromSet, h]
    simp only [Option.bind_eq_bind, Option.bind_some, hf]
    rfl
  rw [advance, hget]
  rfl

theorem advance_none (h : s.sets infoSet = some set) (hf : (s.skipped set).getCurFileInfo = none) :
    s.advance infoSet = some ((s.putSet infoSet (s.skipped set)).finish infoSet) := by
  have hget : s.getFileFromSet infoSet = some (s.putSet infoSet (s.skipped set), false) := by
    rw [skipped] at hf ⊢
    rw [getFileFromSet, h]
    simp only [Option.bind_eq_bind, Option.bind_some, hf]
  rw [advance, hget]
  rfl

end RecvState

end PanelTester.FileSync
