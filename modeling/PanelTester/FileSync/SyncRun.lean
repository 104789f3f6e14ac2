import PanelTester.FileSync.LastRows

/-!
A synchronisation from the announcement to its end. The server answers a request with one transfer
of the file; what the client asks for, stores and sends is then known. It asks for a file that it
has only when new files have pushed the record of that file out before its turn (`SyncFits`). A
statement with a quote in its name may be an error, and then the file is not in the table behind
the run: what one run does to such names is said for an SQLite that refuses them (`Onward`).
-/

namespace PanelTester.FileSync

open Library

/-! ### The question -/

/-- The bytes of one `BINFILE_BODY`. -/
abbrev Piece := { bytes : List UInt8 // bytes.length < 2 ^ 31 }

/-- The bytes of a transfer. -/
def content (pieces : List Piece) : List UInt8 := pieces.flatMap Subtype.val

namespace RecvState

variable (sqlite : Sqlite)

/-- A file is sent. -/
def transfer (s : RecvState) (infoSet : UInt32) (pieces : List Piece) (parsed : Option ℤ) :
    Option RecvState := do
  let s ← s.sendFile sqlite infoSet (.binfileBegin true)
  let s ← pieces.foldlM (fun s piece => s.sendFile sqlite infoSet (.binfileBody piece)) s
  s.sendFile sqlite infoSet (.binfileOver parsed)

/-- The server answers requests, as long as there are any, `n` at most. -/
def serve (server : Str → List Piece) (parsed : Str → Option ℤ) :
    ℕ → RecvState → Option RecvState
  | 0, s => some s
  | n + 1, s =>
      match s.effects.getLast? with
      | some (.getFile fileName infoSet) => do
          let s ← s.transfer sqlite infoSet (server fileName) (parsed fileName)
          serve server parsed n s
      | _ => some s

/-- A set is announced, and its files are sent as they are asked for. -/
def syncRun (s : RecvState) (server : Str → List Piece) (parsed : Str → Option ℤ)
    (infoSet : UInt32) (filesArray : List FileItem) : Option RecvState := do
  let s ← s.syncFile infoSet filesArray
  serve sqlite server parsed filesArray.length s

end RecvState

namespace FileItem

/-- The table has a file as it was announced. -/
def UpToDate (table : List Row) (item : FileItem) : Prop :=
  tableEntry table item.fileName = some (item.fileTime, item.fileSize)

instance (table : List Row) (item : FileItem) : Decidable (item.UpToDate table) :=
  inferInstanceAs (Decidable (_ = _))

/-- A file of which some bytes came. -/
def soFar (item : FileItem) (bytes : List UInt8) : RecvFileInfo :=
  { item.info with
    pFileData := some (bytes.map some ++ List.replicate (sizeT item.fileSize - bytes.length) none)
    actRecvSize := (UInt32.ofNat bytes.length).toInt32
    received := some bytes }

/-- What is done for a file that is needed: it is asked for, and stored as it was sent. -/
def syncEffects (server : Str → List Piece) (infoSet : UInt32) (item : FileItem) : List Effect :=
  [.getFile item.fileName infoSet,
    .writeFile (item.soFar (content (server item.fileName))), .syncStatu]

/-- The announced size is the one that is sent. -/
def Correct (server : Str → List Piece) (item : FileItem) : Prop :=
  ((content (server item.fileName)).length : ℤ) = item.fileSize.toInt

end FileItem

/-- The files that the table does not have as they were announced. -/
def needed (table : List Row) (items : List FileItem) : List FileItem :=
  items.filter fun item => ¬ item.UpToDate table

/-- The needed files, and no others, are asked for and stored, one after the other; then the end is
sent, once; and the table has every file. -/
structure Synced (s : RecvState) (server : Str → List Piece) (infoSet : UInt32)
    (items : List FileItem) (s' : RecvState) : Prop where
  effects : s'.effects = s.effects ++
    (needed s.localDB.table items).flatMap (FileItem.syncEffects server infoSet) ++ [.syncFinish]
  stored : ∀ item ∈ items, item.UpToDate s'.localDB.table

/-- Behind `k` new files: the record of a file that is up to date is still there when its turn
comes, and the name of another one fits, as does the picture that is made of it. -/
def SyncFits (parsed : Str → Option ℤ) (table : List Row) : ℕ → List FileItem → Prop
  | _, [] => True
  | k, item :: items =>
      if item.UpToDate table then
        (∀ i, (table.map Row.name)[i]? = some item.fileName → table.length + k < maxFilesNum + i) ∧
          SyncFits parsed table k items
      else
        (NameFits item.fileName ∧ PtnFits (dstFile item.info) (parsed item.fileName)) ∧
          SyncFits parsed table (if tableEntry table item.fileName = none then k + 1 else k) items

/-! ### The next file -/

namespace RecvState

/-- A set of the list has these files left. -/
structure Holds (s : RecvState) (infoSet : UInt32) (files : List RecvFileInfo) : Prop where
  inv : s.Inv none
  mem : infoSet ∈ s.recvFileList.contents
  files : ∃ set, s.sets infoSet = some set ∧ set.pRecvFileInfo.drop set.curNo = files

/-- The files that are left once those that are up to date are skipped. -/
def left (db : LocalDB) (items : List FileItem) : List FileItem :=
  items.dropWhile fun item => item.info.upToDate db

/-- What is sent when these files are left. -/
def request (infoSet : UInt32) : List FileItem → Effect
  | [] => .syncFinish
  | item :: _ => .getFile item.fileName infoSet

/-- A set that waits for the first of these files, or is done with. -/
structure Awaits (s : RecvState) (infoSet : UInt32) (items : List FileItem) : Prop where
  inv : s.Inv none
  holds : items ≠ [] → s.Holds infoSet (items.map FileItem.info)

variable {s s' : RecvState} {infoSet : UInt32} {set : RecvFileInfoSet} {items : List FileItem}

theorem drop_takeWhile {α : Type*} (p : α → Bool) (l : List α) :
    l.drop (l.takeWhile p).length = l.dropWhile p :=
  calc l.drop (l.takeWhile p).length
      = (l.takeWhile p ++ l.dropWhile p).drop (l.takeWhile p).length := by
        rw [List.takeWhile_append_dropWhile]
    _ = l.dropWhile p := List.drop_left

theorem drop_skipped (h : set.pRecvFileInfo.drop set.curNo = items.map FileItem.info) :
    (s.skipped set).pRecvFileInfo.drop (s.skipped set).curNo =
      (left s.localDB items).map FileItem.info := by
  have hskip : s.skipped set = _ := skipLoop_eq (Nat.le_add_left _ _)
  rw [hskip, ← List.drop_drop, drop_takeWhile, h, List.dropWhile_map]
  rfl

theorem getCurFileInfo_eq (set : RecvFileInfoSet) :
    set.getCurFileInfo = (set.pRecvFileInfo.drop set.curNo).head? := List.head?_drop.symm

/-- The files that are up to date are skipped, and the next one is asked for. -/
theorem Inv.advance_left (h : s.Inv (some infoSet)) (hmem : infoSet ∈ s.recvFileList.contents)
    (hset : s.sets infoSet = some set)
    (hleft : set.pRecvFileInfo.drop set.curNo = items.map FileItem.info) :
    ∃ s', s.advance infoSet = some s' ∧ s'.localDB = s.localDB ∧
      s'.effects = s.effects ++ [request infoSet (left s.localDB items)] ∧
      s'.Awaits infoSet (left s.localDB items) ∧
      ∀ set', s'.sets infoSet = some set' → set.curNo ≤ set'.curNo := by
  obtain ⟨s', hs', hinv, hlater⟩ := h.advance hset
  have hdrop := drop_skipped (s := s) hleft
  have hcur := getCurFileInfo_eq (s.skipped set)
  rw [hdrop] at hcur
  refine ⟨s', hs', ?_⟩
  cases hrest : left s.localDB items with
  | nil =>
      rw [hrest] at hcur
      obtain rfl := Option.some.inj ((advance_none hset hcur).symm.trans hs')
      exact ⟨rfl, rfl, ⟨hinv, fun hne => absurd rfl hne⟩, hlater⟩
  | cons item rest =>
      rw [hrest] at hcur
      obtain rfl := Option.some.inj ((advance_some hset hcur).symm.trans hs')
      refine ⟨rfl, rfl, ⟨hinv, fun _ => ⟨hinv, hmem, s.skipped set, sets_putSet, ?_⟩⟩, hlater⟩
      rw [hdrop, hrest]

end RecvState

/-! ### A transfer -/

theorem FileItem.Correct.size {server : Str → List Piece} {item : FileItem}
    (h : item.Correct server) :
    sizeT item.fileSize = (content (server item.fileName)).length ∧
      sizeT item.fileSize < 2 ^ 31 := by
  have hsize := toInt_eq_sizeT item.fileSize
  have hlt := item.fileSize.toUInt32.toNat_lt
  have hlt : sizeT item.fileSize < 2 ^ 32 := hlt
  rw [Correct] at h
  split_ifs at hsize <;> omega

namespace FileItem

variable {item : FileItem} {bytes : List UInt8} {piece : Piece}

theorem sizeT_soFar (h : bytes.length < 2 ^ 31) :
    sizeT (item.soFar bytes).actRecvSize = bytes.length := by
  show (UInt32.ofNat bytes.length).toNat = bytes.length
  rw [UInt32.toNat_ofNat', Nat.mod_eq_of_lt (by omega)]

/-- The start of a transfer. -/
theorem begin_info (h : sizeT item.fileSize < 2 ^ 31) : item.info.begin true = item.soFar [] := by
  have hmalloc : malloc true (sizeT item.fileSize) =
    some (List.replicate (sizeT item.fileSize) none) :=
    if_pos ⟨rfl, h⟩
  rw [RecvFileInfo.begin, show item.info.rfiSize = item.fileSize from rfl, hmalloc]
  rfl

/-- The next bytes that came. -/
theorem body_soFar (h : sizeT item.fileSize < 2 ^ 31)
    (hroom : bytes.length + piece.val.length ≤ sizeT item.fileSize) :
    (item.soFar bytes).body piece.val = some (item.soFar (bytes ++ piece.val)) := by
  have hact : sizeT (item.soFar bytes).actRecvSize = bytes.length := sizeT_soFar (by omega)
  have hsum : sizeT (item.soFar bytes).actRecvSize + piece.val.length < 2 ^ 32 := by omega
  have htake : (item.soFar bytes).takes piece.val.length = true :=
    (RecvFileInfo.takes_iff hsum).mpr (.inl (by rw [hact]; exact hroom))
  have hindex : (item.soFar bytes).actRecvSize.toInt = bytes.length := by
    rw [toInt_eq_sizeT, hact, if_pos (by omega)]
  have hnext : ((item.soFar bytes).actRecvSize.toUInt32 + UInt32.ofNat piece.val.length).toInt32 =
      (item.soFar (bytes ++ piece.val)).actRecvSize := by
    refine sizeT_inj.mp ((sizeT_add hsum).trans ?_)
    rw [hact, sizeT_soFar (by rw [List.length_append]; omega), List.length_append]
  have hcopy : memcpy (item.soFar bytes).pFileData bytes.length piece.val =
      some (item.soFar (bytes ++ piece.val)).pFileData := by
    have hlength : (bytes.map some).length = bytes.length := List.length_map _
    have hcells : (bytes.map some ++
        List.replicate (sizeT item.fileSize - bytes.length) (none : Option UInt8)).length =
          sizeT item.fileSize := by
      rw [List.length_append, hlength, List.length_replicate]
      omega
    refine (if_pos ⟨by omega, by rw [hcells]; omega⟩).trans ?_
    rw [Int.toNat_natCast, List.take_left' hlength, List.drop_append, hlength,
      List.drop_eq_nil_of_le (by rw [hlength]; omega), List.nil_append, List.drop_replicate]
    show _ = some (some ((bytes ++ piece.val).map some ++ List.replicate
      (sizeT item.fileSize - (bytes ++ piece.val).length) none))
    rw [List.map_append, List.length_append, Nat.add_sub_cancel_left, Nat.sub_sub]
  rw [RecvFileInfo.body, if_pos htake, hindex, hcopy, hnext]
  rfl

/-- All bytes came. -/
theorem complete_soFar (hsmall : sizeT item.fileSize < 2 ^ 31)
    (h : sizeT item.fileSize = bytes.length) :
    (item.soFar bytes).complete = true := by
  refine RecvFileInfo.complete_iff.mpr (.inl (sizeT_inj.mp ?_))
  rw [sizeT_soFar (by omega)]
  exact h

end FileItem

namespace RecvState

section

variable {sqlite : Sqlite} {s s' : RecvState} {infoSet : UInt32} {f : RecvFileInfo}
  {files : List RecvFileInfo}

theorem Holds.current (h : s.Holds infoSet (f :: files)) :
    ∃ set, s.sets infoSet = some set ∧ set.pRecvFileInfo.drop set.curNo = f :: files ∧
      set.getCurFileInfo = some f ∧ f.Inv ∧ (f.pFileData = none → f.actRecvSize = 0) := by
  obtain ⟨set, hset, hdrop⟩ := h.files
  obtain ⟨set', f', hset', hf', hinv, hrest⟩ := h.inv.current h.mem
  obtain rfl := Option.some.inj (hset.symm.trans hset')
  have hcur : set.getCurFileInfo = some f := by rw [getCurFileInfo_eq, hdrop]; rfl
  obtain rfl := Option.some.inj (hcur.symm.trans hf')
  exact ⟨set, hset, hdrop, hcur, hinv, hrest⟩

/-- A message that changes the file only. -/
theorem Holds.put {set : RecvFileInfoSet} {g : RecvFileInfo → RecvFileInfo} {m : SendFile}
    (h : s.Holds infoSet (f :: files)) (hset : s.sets infoSet = some set)
    (hdrop : set.pRecvFileInfo.drop set.curNo = f :: files)
    (heq : s.sendFile sqlite infoSet m = some (s.putSet infoSet (set.setFile set.curNo g)))
    (hfits : m.Fits sqlite s.localDB f) :
    (s.putSet infoSet (set.setFile set.curNo g)).Holds infoSet (g f :: files) := by
  obtain ⟨set', hset', -, hf, hfile, hrest⟩ := h.current
  obtain rfl := Option.some.inj (hset.symm.trans hset')
  obtain ⟨s', hs', hinv⟩ := h.inv.sendFile h.mem hset hf hfile hrest hfits
  obtain rfl := Option.some.inj (heq.symm.trans hs')
  refine ⟨hinv, h.mem, _, sets_putSet, ?_⟩
  show (set.pRecvFileInfo.modify set.curNo g).drop set.curNo = g f :: files
  rw [List.drop_modify_of_ge _ _ _ _ le_rfl, hdrop, Nat.sub_self]
  rfl

theorem Holds.begin {item : FileItem} (h : s.Holds infoSet (item.info :: files))
    (hsmall : sizeT item.fileSize < 2 ^ 31) :
    ∃ s', s.sendFile sqlite infoSet (.binfileBegin true) = some s' ∧
      s'.Holds infoSet (item.soFar [] :: files) ∧ s'.localDB = s.localDB ∧
        s'.effects = s.effects := by
  obtain ⟨set, hset, hdrop, hf, hinv, hrest⟩ := h.current
  have heq : s.sendFile sqlite infoSet (.binfileBegin true) = _ :=
    h.inv.sendFile_eq h.mem hset hf _
  refine ⟨_, heq, ?_, rfl, rfl⟩
  rw [← FileItem.begin_info hsmall]
  exact h.put hset hdrop heq trivial

theorem Holds.body {item : FileItem} {bytes : List UInt8} (piece : Piece)
    (h : s.Holds infoSet (item.soFar bytes :: files)) (hsmall : sizeT item.fileSize < 2 ^ 31)
    (hroom : bytes.length + piece.val.length ≤ sizeT item.fileSize) :
    ∃ s', s.sendFile sqlite infoSet (.binfileBody piece) = some s' ∧
      s'.Holds infoSet (item.soFar (bytes ++ piece.val) :: files) ∧ s'.localDB = s.localDB ∧
      s'.effects = s.effects := by
  obtain ⟨set, hset, hdrop, hf, hinv, hrest⟩ := h.current
  have heq : s.sendFile sqlite infoSet (.binfileBody piece) = _ :=
    h.inv.sendFile_eq h.mem hset hf _
  simp only [FileItem.body_soFar hsmall hroom, Option.bind_some] at heq
  have hfits : SendFile.Fits sqlite s.localDB (item.soFar bytes) (.binfileBody piece) := by
    by_cases hnil : piece.val = []
    · exact .inl hnil
    · refine .inr ⟨fun hzero => hnil ?_, fun hnone => by simp [FileItem.soFar] at hnone⟩
      have hzero : item.fileSize = 0 := hzero
      rw [hzero] at hroom
      have hroom : bytes.length + piece.val.length ≤ 0 := hroom
      exact List.length_eq_zero_iff.mp (by omega)
  exact ⟨_, heq, h.put hset hdrop heq hfits, rfl, rfl⟩

variable (sqlite) in
theorem Holds.bodies {item : FileItem} (hsmall : sizeT item.fileSize < 2 ^ 31) (pieces : List Piece)
    {s : RecvState} {bytes : List UInt8} (h : s.Holds infoSet (item.soFar bytes :: files))
    (hroom : bytes.length + (content pieces).length ≤ sizeT item.fileSize) :
    ∃ s', pieces.foldlM (fun s piece => s.sendFile sqlite infoSet (.binfileBody piece)) s =
        some s' ∧
      s'.Holds infoSet (item.soFar (bytes ++ content pieces) :: files) ∧ s'.localDB = s.localDB ∧
      s'.effects = s.effects := by
  induction pieces generalizing s bytes with
  | nil =>
      refine ⟨s, rfl, ?_, rfl, rfl⟩
      rwa [content, List.flatMap_nil, List.append_nil]
  | cons piece pieces ih =>
      rw [content, List.flatMap_cons, List.length_append] at hroom
      have hrest : (content pieces).length = (pieces.flatMap Subtype.val).length := rfl
      obtain ⟨s₁, hs₁, hholds, hdb, heffects⟩ := Holds.body piece h hsmall (by omega)
      obtain ⟨s₂, hs₂, hholds₂, hdb₂, heffects₂⟩ := ih hholds (by rw [List.length_append]; omega)
      refine ⟨s₂, ?_, ?_, hdb₂.trans hdb, heffects₂.trans heffects⟩
      · rw [List.foldlM_cons, hs₁]
        exact hs₂
      · rwa [content, List.flatMap_cons, ← List.append_assoc]

/-- The end of a file: it is stored, and the next one is asked for. -/
theorem Holds.over {items : List FileItem} {db' : LocalDB} {parsed : Option ℤ}
    (h : s.Holds infoSet (f :: items.map FileItem.info)) (hcomplete : f.complete = true)
    (hwhole : f.Whole) (hstore : placeFile sqlite s.localDB f parsed = some db') :
    ∃ s', s.sendFile sqlite infoSet (.binfileOver parsed) = some s' ∧ s'.localDB = db' ∧
      s'.effects = s.effects ++ [.writeFile f, .syncStatu] ++ [request infoSet (left db' items)] ∧
      s'.Awaits infoSet (left db' items) := by
  obtain ⟨set, hset, hdrop, hf, hinv, hrest⟩ := h.current
  have hfits : SendFile.Fits sqlite s.localDB f (.binfileOver parsed) := fun _ => by
    obtain ⟨hbegun, hrefused⟩ := (hinv.whole_iff hrest hcomplete).mp hwhole
    exact ⟨hbegun, hrefused, placeFile_iff.mp ⟨db', hstore⟩⟩
  obtain ⟨s', hs', hinv'⟩ := h.inv.sendFile h.mem hset hf hinv hrest hfits
  refine ⟨s', hs', ?_⟩
  have hnext : set.addFileIndex.pRecvFileInfo.drop set.addFileIndex.curNo =
      items.map FileItem.info := by
    show set.pRecvFileInfo.drop (set.curNo + 1) = _
    rw [← List.drop_drop, hdrop]
    rfl
  obtain ⟨s₁, hs₁, hdb, heffects, hawaits, hlater⟩ :=
    (h.inv.handOn hset hwhole).advance_left h.mem sets_putSet hnext
  rw [h.inv.sendFile_eq h.mem hset hf] at hs'
  simp only [hcomplete, if_true, (pgSyncFile_eq hset hf hstore).trans hs₁, Option.bind_some] at hs'
  cases hset₁ : s₁.sets infoSet with
  | none =>
      simp only [hset₁] at hs'
      obtain rfl := Option.some.inj hs'
      exact ⟨hdb, heffects, hawaits⟩
  | some set₁ =>
      simp only [hset₁] at hs'
      obtain rfl := Option.some.inj hs'
      refine ⟨hdb, heffects, hinv', ?_⟩
      intro hne
      obtain ⟨-, hmem, set₂, hset₂, hdrop₂⟩ := hawaits.holds hne
      obtain rfl := Option.some.inj (hset₁.symm.trans hset₂)
      refine ⟨hinv', hmem, _, sets_putSet, ?_⟩
      -- the buffer that is freed belongs to a file before the cursor
      show (set₁.pRecvFileInfo.modify set.curNo _).drop set₁.curNo = _
      rw [List.drop_modify_of_lt _ _ _ _ (hlater set₁ hset₁)]
      exact hdrop₂

/-- Without its place in the database the file is handed on for nothing. -/
theorem Holds.over_eq_none {parsed : Option ℤ} (h : s.Holds infoSet (f :: files))
    (hcomplete : f.complete = true) (hstore : placeFile sqlite s.localDB f parsed = none) :
    s.sendFile sqlite infoSet (.binfileOver parsed) = none := by
  obtain ⟨set, hset, hdrop, hf, hinv, hrest⟩ := h.current
  rw [h.inv.sendFile_eq h.mem hset hf]
  simp [hcomplete, RecvState.pgSyncFile, hset, hf, hstore]

variable (sqlite) in
/-- All of a file is sent, and the end is still to come. -/
theorem Awaits.sent {server : Str → List Piece} {item : FileItem} {items : List FileItem}
    (parsed : Option ℤ) (h : s.Awaits infoSet (item :: items)) (hcorrect : item.Correct server) :
    ∃ s' : RecvState, s.transfer sqlite infoSet (server item.fileName) parsed =
        s'.sendFile sqlite infoSet (.binfileOver parsed) ∧
      s'.Holds infoSet
        (item.soFar (content (server item.fileName)) :: items.map FileItem.info) ∧
      s'.localDB = s.localDB ∧ s'.effects = s.effects := by
  obtain ⟨hsize, hsmall⟩ := hcorrect.size
  have hholds : s.Holds infoSet (item.info :: items.map FileItem.info) := h.holds (by simp)
  obtain ⟨s₁, hs₁, hholds₁, hdb₁, heffects₁⟩ := hholds.begin hsmall
  obtain ⟨s₂, hs₂, hholds₂, hdb₂, heffects₂⟩ := Holds.bodies sqlite hsmall
    (server item.fileName) hholds₁ (by rw [List.length_nil, Nat.zero_add, hsize])
  refine ⟨s₂, ?_, hholds₂, hdb₂.trans hdb₁, heffects₂.trans heffects₁⟩
  rw [RecvState.transfer, hs₁]
  simp only [Option.bind_eq_bind, Option.bind_some, hs₂]

/-- A file that is asked for is sent and stored. -/
theorem Awaits.transfer {server : Str → List Piece} {item : FileItem} {items : List FileItem}
    {parsed : Option ℤ} {db' : LocalDB} (h : s.Awaits infoSet (item :: items))
    (hcorrect : item.Correct server)
    (hstore : placeFile sqlite s.localDB item.info parsed = some db') :
    ∃ s', s.transfer sqlite infoSet (server item.fileName) parsed = some s' ∧ s'.localDB = db' ∧
      s'.effects = s.effects ++
        [.writeFile (item.soFar (content (server item.fileName))), .syncStatu] ++
          [request infoSet (left db' items)] ∧
      s'.Awaits infoSet (left db' items) := by
  obtain ⟨hsize, hsmall⟩ := hcorrect.size
  obtain ⟨s₂, hs₂, hholds, hdb, heffects⟩ := h.sent sqlite parsed hcorrect
  have hstore₂ : placeFile sqlite s₂.localDB (item.soFar (content (server item.fileName))) parsed =
      some db' := by
    rw [hdb]
    exact hstore
  obtain ⟨s₃, hs₃, hdb₃, heffects₃, hawaits⟩ :=
    hholds.over (FileItem.complete_soFar hsmall hsize) ⟨_, rfl, hcorrect⟩ hstore₂
  exact ⟨s₃, hs₂.trans hs₃, hdb₃, by rw [heffects₃, heffects], hawaits⟩

theorem Awaits.transfer_eq_none {server : Str → List Piece} {item : FileItem}
    {items : List FileItem} {parsed : Option ℤ}
    (h : s.Awaits infoSet (item :: items)) (hcorrect : item.Correct server)
    (hstore : placeFile sqlite s.localDB item.info parsed = none) :
    s.transfer sqlite infoSet (server item.fileName) parsed = none := by
  obtain ⟨hsize, hsmall⟩ := hcorrect.size
  obtain ⟨s₂, hs₂, hholds, hdb, -⟩ := h.sent sqlite parsed hcorrect
  refine hs₂.trans (hholds.over_eq_none (FileItem.complete_soFar hsmall hsize) ?_)
  rw [hdb]
  exact hstore

end

/-! ### What a run keeps -/

/-- Effects are added, and the entries of names with a quote are the same. -/
structure Onward (s s' : RecvState) : Prop where
  effects : s.effects <+: s'.effects
  quoted : ∀ name, '\'' ∈ name → tableEntry s'.localDB.table name = tableEntry s.localDB.table name

section

variable {s s' s'' : RecvState} {infoSet : UInt32}

theorem Onward.refl (s : RecvState) : Onward s s := ⟨List.prefix_refl _, fun _ _ => rfl⟩

theorem Onward.trans (h : Onward s s') (h' : Onward s' s'') : Onward s s'' where
  effects := h.effects.trans h'.effects
  quoted name hname := (h'.quoted name hname).trans (h.quoted name hname)

theorem advance_onward (heq : s.advance infoSet = some s') : Onward s s' := by
  cases hset : s.sets infoSet with
  | none => simp [advance, getFileFromSet, hset] at heq
  | some set =>
      cases hf : (s.skipped set).getCurFileInfo with
      | some f =>
          obtain rfl := Option.some.inj ((advance_some hset hf).symm.trans heq)
          exact ⟨List.prefix_append _ _, fun _ _ => rfl⟩
      | none =>
          obtain rfl := Option.some.inj ((advance_none hset hf).symm.trans heq)
          exact ⟨List.prefix_append _ _, fun _ _ => rfl⟩

theorem pgSyncFile_onward {parsed : Option ℤ}
    (heq : s.pgSyncFile .refusing infoSet parsed = some s') : Onward s s' := by
  rw [pgSyncFile] at heq
  obtain ⟨set, hset, heq⟩ := Option.bind_eq_some_iff.mp heq
  obtain ⟨f, hf, heq⟩ := Option.bind_eq_some_iff.mp heq
  obtain ⟨db', hplace, heq⟩ := Option.bind_eq_some_iff.mp heq
  refine Onward.trans ⟨?_, fun name hname => tableEntry_placeFile hname hplace⟩
    (advance_onward heq)
  exact List.prefix_append _ _

theorem sendFile_onward {m : SendFile} (heq : s.sendFile .refusing infoSet m = some s') :
    Onward s s' := by
  rw [sendFile] at heq
  obtain ⟨p, hp, heq⟩ := Option.bind_eq_some_iff.mp heq
  obtain ⟨set, hset, heq⟩ := Option.bind_eq_some_iff.mp heq
  obtain ⟨f, hf, heq⟩ := Option.bind_eq_some_iff.mp heq
  cases m with
  | binfileBegin room =>
      obtain rfl := Option.some.inj heq
      exact ⟨List.prefix_refl _, fun _ _ => rfl⟩
  | binfileBody pcmd =>
      obtain ⟨f', hf', heq⟩ := Option.bind_eq_some_iff.mp heq
      obtain rfl := Option.some.inj heq
      exact ⟨List.prefix_refl _, fun _ _ => rfl⟩
  | binfileOver parsed =>
      simp only at heq
      split at heq
      case isFalse =>
        obtain rfl := Option.some.inj heq
        exact .refl s
      case isTrue =>
        obtain ⟨s₁, hs₁, heq⟩ := Option.bind_eq_some_iff.mp heq
        have honward := pgSyncFile_onward hs₁
        cases hset₁ : s₁.sets p with
        | none =>
            simp only [hset₁] at heq
            obtain rfl := Option.some.inj heq
            exact honward
        | some set₁ =>
            simp only [hset₁] at heq
            obtain rfl := Option.some.inj heq
            exact ⟨honward.effects, honward.quoted⟩

theorem foldlM_onward {pieces : List Piece} {s s' : RecvState}
    (heq : pieces.foldlM (fun s piece => s.sendFile .refusing infoSet (.binfileBody piece)) s =
      some s') : Onward s s' := by
  induction pieces generalizing s with
  | nil =>
      obtain rfl := Option.some.inj heq
      exact .refl s
  | cons piece pieces ih =>
      rw [List.foldlM_cons] at heq
      obtain ⟨s₁, hs₁, heq⟩ := Option.bind_eq_some_iff.mp heq
      exact (sendFile_onward hs₁).trans (ih heq)

theorem transfer_onward {pieces : List Piece} {parsed : Option ℤ}
    (heq : s.transfer .refusing infoSet pieces parsed = some s') : Onward s s' := by
  rw [transfer] at heq
  obtain ⟨s₁, hs₁, heq⟩ := Option.bind_eq_some_iff.mp heq
  obtain ⟨s₂, hs₂, heq⟩ := Option.bind_eq_some_iff.mp heq
  exact (sendFile_onward hs₁).trans ((foldlM_onward hs₂).trans (sendFile_onward heq))

variable {sqlite : Sqlite} {server : Str → List Piece} {parsed : Str → Option ℤ} {n : ℕ}

/-- A request is answered. -/
theorem serve_request {name : Str} {effects : List Effect}
    (h : s.effects = effects ++ [.getFile name infoSet]) :
    serve sqlite server parsed (n + 1) s =
      (s.transfer sqlite infoSet (server name) (parsed name)).bind
        (serve sqlite server parsed n) := by
  rw [serve, h, List.getLast?_concat]
  rfl

theorem serve_finish {effects : List Effect} (h : s.effects = effects ++ [.syncFinish]) :
    serve sqlite server parsed n s = some s := by
  cases n with
  | zero => rfl
  | succ n => rw [serve, h, List.getLast?_concat]

theorem serve_onward {s : RecvState} (heq : serve .refusing server parsed n s = some s') :
    Onward s s' := by
  induction n generalizing s with
  | zero =>
      obtain rfl := Option.some.inj heq
      exact .refl s
  | succ n ih =>
      rw [serve] at heq
      split at heq
      case h_1 name p hlast =>
        obtain ⟨s₁, hs₁, heq⟩ := Option.bind_eq_some_iff.mp heq
        exact (transfer_onward hs₁).trans (ih heq)
      case h_2 =>
        obtain rfl := Option.some.inj heq
        exact .refl s

end

end RecvState

/-! ### The condition -/

section

variable {db : LocalDB} {table : List Row} {items : List FileItem} {item other : FileItem} {k : ℕ}
  {parsed : Str → Option ℤ}

theorem FileItem.upToDate_stored (h : other.fileName ≠ item.fileName) :
    other.UpToDate (stored table item.fileName item.fileTime item.fileSize) ↔
      other.UpToDate table := by
  rw [FileItem.UpToDate, tableEntry_stored_of_ne h]
  exact Iff.rfl

theorem needed_cons_upToDate (h : item.UpToDate table) :
    needed table (item :: items) = needed table items :=
  List.filter_cons_of_neg (by simpa using h)

theorem needed_cons (h : ¬ item.UpToDate table) :
    needed table (item :: items) = item :: needed table items :=
  List.filter_cons_of_pos (by simpa using h)

/-- Storing a file changes nothing for the others. -/
theorem needed_stored (h : ∀ other ∈ items, other.fileName ≠ item.fileName) :
    needed (stored table item.fileName item.fileTime item.fileSize) items = needed table items := by
  apply List.filter_congr
  intro other hother
  simp only [FileItem.upToDate_stored (h other hother)]

/-- The condition behind a file that is stored. -/
theorem syncFits_stored (h : ∀ other ∈ items, other.fileName ≠ item.fileName) :
    SyncFits parsed (stored table item.fileName item.fileTime item.fileSize) k items ↔
      SyncFits parsed table (if tableEntry table item.fileName = none then k + 1 else k) items := by
  induction items generalizing k with
  | nil => exact Iff.rfl
  | cons other items ih =>
      have hother := h other List.mem_cons_self
      have hitems := fun o ho => h o (List.mem_cons_of_mem _ ho)
      rw [SyncFits, SyncFits]
      by_cases hdate : other.UpToDate table
      · rw [if_pos hdate, if_pos ((FileItem.upToDate_stored hother).mpr hdate), ih hitems]
        apply and_congr_left
        intro _
        apply forall_congr'
        intro i
        have hname : ((stored table item.fileName item.fileTime item.fileSize).map Row.name)[i]? =
            some other.fileName ↔ (table.map Row.name)[i]? = some other.fileName := by
          rw [names_stored]
          split
          case isTrue =>
            rw [List.getElem?_append]
            split
            case isTrue => exact Iff.rfl
            case isFalse hi =>
              rw [List.getElem?_eq_none (not_lt.mp hi)]
              refine ⟨fun hsome => absurd ?_ hother, fun hnone => by cases hnone⟩
              exact (List.mem_singleton.mp (List.mem_of_getElem? hsome))
          case isFalse => exact Iff.rfl
        rw [hname, length_stored]
        apply imp_congr_right
        intro _
        split <;> omega
      · rw [if_neg hdate, if_neg (mt (FileItem.upToDate_stored hother).mp hdate), ih hitems,
          tableEntry_stored_of_ne hother]
        have hcount : (if tableEntry table item.fileName = none then
              (if tableEntry table other.fileName = none then k + 1 else k) + 1
            else if tableEntry table other.fileName = none then k + 1 else k) =
            if tableEntry table other.fileName = none then
              (if tableEntry table item.fileName = none then k + 1 else k) + 1
            else if tableEntry table item.fileName = none then k + 1 else k := by
          split_ifs <;> rfl
        rw [hcount]

theorem FileItem.cached_iff (h : Follows db) : item.info.upToDate db = true ↔
    item.UpToDate db.table ∧
      ∀ i, (db.table.map Row.name)[i]? = some item.fileName →
        db.table.length + 0 < maxFilesNum + i :=
  h.findFile_iff.trans h.mem_lastRows_iff

end

/-! ### The run -/

namespace RecvState

variable {sqlite : Sqlite} {server : Str → List Piece} {parsed : Str → Option ℤ} {infoSet : UInt32}
  {s s' : RecvState} {items : List FileItem}

/-- A synchronisation in which these files are left, with what was done before. -/
structure Underway (s : RecvState) (server : Str → List Piece) (infoSet : UInt32)
    (items : List FileItem) (before : List Effect) : Prop where
  awaits : s.Awaits infoSet (left s.localDB items)
  effects : s.effects = before ++ [request infoSet (left s.localDB items)]
  follows : Follows s.localDB
  names : (items.map FileItem.fileName).Nodup
  correct : ∀ item ∈ needed s.localDB.table items, item.Correct server

variable {item : FileItem} {before : List Effect}

theorem Underway.others (h : s.Underway server infoSet (item :: items) before) :
    ∀ other ∈ items, other.fileName ≠ item.fileName := by
  have hnames := h.names
  rw [List.map_cons, List.nodup_cons] at hnames
  exact fun other hother heq => hnames.1 (heq ▸ List.mem_map_of_mem hother)

/-- A file that is up to date is skipped. -/
theorem Underway.skip (h : s.Underway server infoSet (item :: items) before)
    (hcached : item.info.upToDate s.localDB = true) (hdate : item.UpToDate s.localDB.table) :
    s.Underway server infoSet items before := by
  have hleft : left s.localDB (item :: items) = left s.localDB items :=
    List.dropWhile_cons_of_pos hcached
  refine ⟨hleft ▸ h.awaits, hleft ▸ h.effects, h.follows, (List.nodup_cons.mp h.names).2, ?_⟩
  have hneeded : needed s.localDB.table (item :: items) = needed s.localDB.table items :=
    needed_cons_upToDate hdate
  exact hneeded ▸ h.correct

theorem Underway.asked (h : s.Underway server infoSet (item :: items) before)
    (hcached : item.info.upToDate s.localDB ≠ true) :
    s.Awaits infoSet (item :: items) ∧ s.effects = before ++ [.getFile item.fileName infoSet] := by
  have hleft : left s.localDB (item :: items) = item :: items := List.dropWhile_cons_of_neg hcached
  have hawaits := h.awaits
  have heffects := h.effects
  rw [hleft] at hawaits heffects
  exact ⟨hawaits, heffects⟩

/-- A file that is needed is sent and stored. -/
theorem Underway.sync (h : s.Underway server infoSet (item :: items) before)
    (hsqlite : Faithful sqlite) (hcached : item.info.upToDate s.localDB ≠ true)
    (hdate : ¬ item.UpToDate s.localDB.table)
    (hname : NameFits item.fileName ∧ PtnFits (dstFile item.info) (parsed item.fileName)) :
    ∃ s', s.transfer sqlite infoSet (server item.fileName) (parsed item.fileName) = some s' ∧
      s'.localDB.table = stored s.localDB.table item.fileName item.fileTime item.fileSize ∧
      s'.Underway server infoSet items (before ++ item.syncEffects server infoSet) := by
  obtain ⟨hawaits, heffects⟩ := h.asked hcached
  have hcorrect : item.Correct server :=
    h.correct item (by rw [needed_cons hdate]; exact List.mem_cons_self)
  obtain ⟨db', hstore, hfollows, htable⟩ :
      ∃ db', placeFile sqlite s.localDB item.info (parsed item.fileName) = some db' ∧ Follows db' ∧
        db'.table = stored s.localDB.table item.fileName item.fileTime item.fileSize :=
    h.follows.place hsqlite hname.1 hname.2
  obtain ⟨s', hs', rfl, heffects', hawaits'⟩ := hawaits.transfer hcorrect hstore
  refine ⟨s', hs', htable, hawaits', ?_, hfollows, (List.nodup_cons.mp h.names).2, ?_⟩
  · rw [heffects', heffects]
    simp [FileItem.syncEffects]
  · intro other hother
    rw [htable, needed_stored h.others] at hother
    apply h.correct other
    rw [needed_cons hdate]
    exact List.mem_cons_of_mem _ hother

/-- With the condition, every file is brought up to date, and nothing else changes. -/
theorem Underway.synced {n : ℕ} (hn : items.length ≤ n) (h : s.Underway server infoSet items before)
    (hsqlite : Faithful sqlite) (hfits : SyncFits parsed s.localDB.table 0 items) :
    ∃ s', serve sqlite server parsed n s = some s' ∧
      s'.effects = before ++ (needed s.localDB.table items).flatMap
        (FileItem.syncEffects server infoSet) ++ [.syncFinish] ∧
      (∀ item ∈ items, item.UpToDate s'.localDB.table) ∧
      ∀ name, name ∉ items.map FileItem.fileName →
        tableEntry s'.localDB.table name = tableEntry s.localDB.table name := by
  induction items generalizing s n before with
  | nil =>
      refine ⟨s, serve_finish h.effects, ?_,
        fun _ hmem => absurd hmem List.not_mem_nil, fun _ _ => rfl⟩
      rw [h.effects, needed, List.filter_nil, List.flatMap_nil, List.append_nil]
      rfl
  | cons item items ih =>
      have hnew := (List.nodup_cons.mp h.names).1
      by_cases hcached : item.info.upToDate s.localDB = true
      · have hdate := ((FileItem.cached_iff h.follows).mp hcached).1
        rw [SyncFits, if_pos hdate] at hfits
        obtain ⟨s', hs', heffects, hitems, hframe⟩ :=
          ih (Nat.le_of_succ_le hn) (h.skip hcached hdate) hfits.2
        refine ⟨s', hs', ?_, fun other hother => ?_, fun name hname => ?_⟩
        · rw [heffects, needed_cons_upToDate hdate]
        · rcases List.mem_cons.mp hother with rfl | hother
          · exact (hframe other.fileName hnew).trans hdate
          · exact hitems other hother
        · exact hframe name fun hmem => hname (List.mem_cons_of_mem _ hmem)
      · have hdate : ¬ item.UpToDate s.localDB.table := fun hdate => by
          rw [SyncFits, if_pos hdate] at hfits
          exact hcached ((FileItem.cached_iff h.follows).mpr ⟨hdate, hfits.1⟩)
        rw [SyncFits, if_neg hdate] at hfits
        obtain ⟨n, rfl⟩ : ∃ m, n = m + 1 := ⟨n - 1, by rw [List.length_cons] at hn; omega⟩
        obtain ⟨s₁, hs₁, htable, hunderway⟩ := h.sync hsqlite hcached hdate hfits.1
        have hrest : SyncFits parsed s₁.localDB.table 0 items := by
          rw [htable, syncFits_stored h.others]
          exact hfits.2
        obtain ⟨s', hs', heffects, hitems, hframe⟩ := ih (Nat.le_of_succ_le_succ hn) hunderway hrest
        refine ⟨s', ?_, ?_, fun other hother => ?_, fun name hname => ?_⟩
        · rw [serve_request (h.asked hcached).2, hs₁]
          exact hs'
        · rw [heffects, htable, needed_stored h.others, needed_cons hdate, List.flatMap_cons]
          simp only [List.append_assoc]
        · rcases List.mem_cons.mp hother with rfl | hother
          · rw [FileItem.UpToDate, hframe other.fileName hnew, htable]
            exact tableEntry_stored
          · exact hitems other hother
        · rw [hframe name fun hmem => hname (List.mem_cons_of_mem _ hmem), htable]
          exact tableEntry_stored_of_ne fun heq => hname (heq ▸ List.mem_cons_self)

/-- What is sent behind a request names no other file. -/
theorem getFile_not_extended {rest : List FileItem}
    (h : ∀ other ∈ rest, other.fileName ≠ item.fileName)
    (effects : List Effect) : ¬ effects ++ [.getFile item.fileName infoSet] <+:
      effects ++ rest.flatMap (FileItem.syncEffects server infoSet) ++ [.syncFinish] := by
  intro hextends
  rw [List.append_assoc, List.prefix_append_right_inj] at hextends
  cases rest with
  | nil => simp at hextends
  | cons other rest =>
      rw [List.flatMap_cons, FileItem.syncEffects, List.append_assoc, List.cons_append,
        List.cons_prefix_cons] at hextends
      exact h other List.mem_cons_self (Effect.getFile.inj hextends.1).1.symm

/-- A file that is asked for fits when the run goes on, and the file is in the table behind it. -/
theorem Underway.fits_asked {n : ℕ} (h : s.Underway server infoSet (item :: items) before)
    (hcached : item.info.upToDate s.localDB ≠ true) (hdate : ¬ item.UpToDate s.localDB.table)
    (hrun : serve .refusing server parsed (n + 1) s = some s')
    (hstored : item.UpToDate s'.localDB.table) :
    NameFits item.fileName ∧ PtnFits (dstFile item.info) (parsed item.fileName) := by
  obtain ⟨hawaits, hasked⟩ := h.asked hcached
  have hcorrect : item.Correct server :=
    h.correct item (by rw [needed_cons hdate]; exact List.mem_cons_self)
  -- a name with a quote keeps the entry that it had
  have hquote : '\'' ∉ item.fileName := fun hquote => hdate (by
    rw [FileItem.UpToDate, ← (serve_onward hrun).quoted _ hquote]
    exact hstored)
  rw [serve_request hasked] at hrun
  cases hplace : placeFile .refusing s.localDB item.info (parsed item.fileName) with
  | none =>
      rw [hawaits.transfer_eq_none hcorrect hplace] at hrun
      cases hrun
  | some db' =>
      obtain ⟨hptn, hstorable⟩ := placeFile_iff.mp ⟨db', hplace⟩
      exact ⟨⟨hquote, h.follows.short_of_storable faithful_refusing hquote hstorable⟩, hptn⟩

/-- A run that does no more and no less meets the condition. -/
theorem Underway.fits {n : ℕ} (hn : items.length ≤ n) (h : s.Underway server infoSet items before)
    (hrun : serve .refusing server parsed n s = some s')
    (heffects : s'.effects = before ++ (needed s.localDB.table items).flatMap
      (FileItem.syncEffects server infoSet) ++ [.syncFinish])
    (hstored : ∀ item ∈ items, item.UpToDate s'.localDB.table) :
    SyncFits parsed s.localDB.table 0 items := by
  induction items generalizing s n before with
  | nil => trivial
  | cons item items ih =>
      have hitems := fun o ho => hstored o (List.mem_cons_of_mem _ ho)
      rw [SyncFits]
      by_cases hcached : item.info.upToDate s.localDB = true
      · obtain ⟨hdate, hlast⟩ := (FileItem.cached_iff h.follows).mp hcached
        rw [needed_cons_upToDate hdate] at heffects
        rw [if_pos hdate]
        exact ⟨hlast, ih (Nat.le_of_succ_le hn) (h.skip hcached hdate) hrun heffects hitems⟩
      have hasked := (h.asked hcached).2
      have hdate : ¬ item.UpToDate s.localDB.table := fun hdate => by
        have hextends := (serve_onward hrun).effects
        rw [hasked, heffects, needed_cons_upToDate hdate] at hextends
        exact getFile_not_extended (fun other hother =>
          h.others other (List.mem_of_mem_filter hother)) _
          hextends
      rw [if_neg hdate]
      obtain ⟨n, rfl⟩ : ∃ m, n = m + 1 := ⟨n - 1, by rw [List.length_cons] at hn; omega⟩
      have hname := h.fits_asked hcached hdate hrun (hstored item List.mem_cons_self)
      obtain ⟨s₁, hs₁, htable, hunderway⟩ := h.sync faithful_refusing hcached hdate hname
      rw [serve_request hasked, hs₁] at hrun
      have hrest := ih (Nat.le_of_succ_le_succ hn) hunderway hrun (by
        rw [heffects, htable, needed_stored h.others, needed_cons hdate, List.flatMap_cons]
        simp only [List.append_assoc]) hitems
      rw [htable, syncFits_stored h.others] at hrest
      exact ⟨hname, hrest⟩

/-- The announcement asks for the first file. -/
theorem Inv.underway (h : s.Inv none) (hp : infoSet ≠ 0) (hfree : s.sets infoSet = none)
    (hfollows : Follows s.localDB) (hnames : (items.map FileItem.fileName).Nodup)
    (hcorrect : ∀ item ∈ needed s.localDB.table items, item.Correct server)
    (hshort : ∀ item ∈ items, item.fileName.length < rfiNameLen) :
    ∃ s', s.syncFile infoSet items = some s' ∧ s'.localDB = s.localDB ∧
      s'.Underway server infoSet items s.effects := by
  obtain ⟨s', hs', hdb, heffects, hawaits, -⟩ :=
    (h.announced hp hfree).advance_left (h.mem_announced items) sets_putSet
      (show (items.map FileItem.info).drop 0 = _ from rfl)
  have hdb : s'.localDB = s.localDB := hdb
  refine ⟨s', (syncFile_eq hshort).trans hs', hdb, ?_⟩
  exact ⟨hdb ▸ hawaits, hdb ▸ heffects, hdb ▸ hfollows, hnames, hdb ▸ hcorrect⟩

/-- A name too long for the set ends the run. -/
theorem short_of_syncRun (h : s.syncRun sqlite server parsed infoSet items = some s') :
    ∀ item ∈ items, item.fileName.length < rfiNameLen := by
  intro item hitem
  by_contra hlong
  rw [syncRun, syncFile, mapM_recvFileInfo_none hitem hlong] at h
  cases h

theorem short_of_syncFits {table : List Row} {k : ℕ}
    (hshort : ∀ row ∈ table, row.name.length < localFileNameLen)
    (h : SyncFits parsed table k items) :
    ∀ item ∈ items, item.fileName.length < rfiNameLen := by
  induction items generalizing k with
  | nil => exact fun item hitem => absurd hitem List.not_mem_nil
  | cons first items ih =>
      have hle : localFileNameLen ≤ rfiNameLen := by decide
      intro item hitem
      rw [SyncFits] at h
      split at h
      case isTrue hdate =>
        rcases List.mem_cons.mp hitem with rfl | hitem
        · have hne : tableEntry table item.fileName ≠ none := fun hnone => by
            rw [FileItem.UpToDate, hnone] at hdate
            cases hdate
          obtain ⟨row, hrow, hname⟩ : ∃ row ∈ table, row.name = item.fileName := by
            by_contra hno
            exact hne (tableEntry_eq_none.mpr fun row hrow hname => hno ⟨row, hrow, hname⟩)
          exact (hname ▸ hshort row hrow).trans_le hle
        · exact ih h.2 item hitem
      case isFalse =>
        rcases List.mem_cons.mp hitem with rfl | hitem
        · exact h.1.1.2.trans_le hle
        · exact ih h.2 item hitem

/-- A synchronisation from a database that fits the records asks for the needed files and no
others, and leaves every file up to date, whatever SQLite makes of names with a quote, exactly when
the condition holds. -/
theorem syncRun_iff (s : RecvState) (server : Str → List Piece) (parsed : Str → Option ℤ)
    (infoSet : UInt32) (items : List FileItem) (hinv : s.Inv none) (hdb : Mirrors s.localDB)
    (hshort : ∀ row ∈ s.localDB.table, row.name.length < localFileNameLen)
    (hfree : infoSet ≠ 0 ∧ s.sets infoSet = none) (hnames : (items.map FileItem.fileName).Nodup)
    (hcorrect : ∀ item ∈ needed s.localDB.table items, item.Correct server) :
    (∀ sqlite, Faithful sqlite → ∃ s', s.syncRun sqlite server parsed infoSet items = some s' ∧
      Synced s server infoSet items s') ↔ SyncFits parsed s.localDB.table 0 items := by
  have hfollows := hdb.follows hshort
  constructor
  · intro h
    obtain ⟨s', hrun, hsynced⟩ := h .refusing faithful_refusing
    obtain ⟨s₁, hs₁, hdb₁, hunderway⟩ :=
      hinv.underway hfree.1 hfree.2 hfollows hnames hcorrect (short_of_syncRun hrun)
    rw [syncRun, hs₁] at hrun
    rw [← hdb₁]
    exact hunderway.fits le_rfl hrun (hdb₁ ▸ hsynced.effects) hsynced.stored
  · intro hfits sqlite hsqlite
    obtain ⟨s₁, hs₁, hdb₁, hunderway⟩ :=
      hinv.underway hfree.1 hfree.2 hfollows hnames hcorrect (short_of_syncFits hshort hfits)
    obtain ⟨s', hs', heffects, hstored, -⟩ := hunderway.synced le_rfl hsqlite (hdb₁ ▸ hfits)
    refine ⟨s', ?_, hdb₁ ▸ heffects, hstored⟩
    rw [syncRun, hs₁]
    exact hs'

theorem emptyDB_mirrors : Mirrors emptyDB where
  valid := LoopList.create_valid (by decide)
  size := rfl
  names := List.nodup_nil
  rows := by
    show (LoopList.create maxFilesNum : LoopList LocalFileInfo).contents.map _ = _
    rw [LoopList.contents_create (by decide)]
    rfl

/-- Two files for an empty database, one of them a picture. -/
theorem syncRun_two :
    ∃ s', (start emptyDB).syncRun .refusing (fun _ => [⟨[7], by decide⟩]) (fun _ => some (-1)) 1
      [⟨['a'], 1, 1⟩, ⟨"imageOrigin/b".toList, 1, 2⟩] = some s' ∧
    Synced (start emptyDB) (fun _ => [⟨[7], by decide⟩]) 1
      [⟨['a'], 1, 1⟩, ⟨"imageOrigin/b".toList, 1, 2⟩] s' := by
  refine (syncRun_iff _ _ _ _ _ (start_inv emptyDB) emptyDB_mirrors (List.forall_mem_nil _)
    ⟨by decide, rfl⟩ (by decide) ?_).mpr ?_ .refusing faithful_refusing
  · intro item hitem
    rcases List.mem_cons.mp (List.mem_of_mem_filter hitem) with rfl | hitem
    · rfl
    · obtain rfl := List.mem_singleton.mp hitem
      rfl
  · exact ⟨by decide, by decide, trivial⟩

/-- A name of 128 bytes does not fit its record. -/
theorem not_synced_long : ¬ ∀ (s : RecvState) (server : Str → List Piece)
    (parsed : Str → Option ℤ) (infoSet : UInt32) (items : List FileItem), s.Inv none →
    Mirrors s.localDB → (∀ row ∈ s.localDB.table, row.name.length < localFileNameLen) →
    (infoSet ≠ 0 ∧ s.sets infoSet = none) → (items.map FileItem.fileName).Nodup →
    (∀ item ∈ needed s.localDB.table items, item.Correct server) → ∀ sqlite, Faithful sqlite →
    ∃ s', s.syncRun sqlite server parsed infoSet items = some s' ∧
      Synced s server infoSet items s' := by
  intro h
  have hinv := start_inv emptyDB
  have hnames : ([⟨List.replicate 128 'a', 1, 1⟩] : List FileItem).map FileItem.fileName |>.Nodup :=
    List.nodup_singleton _
  have hcorrect : ∀ item ∈ needed (start emptyDB).localDB.table [⟨List.replicate 128 'a', 1, 1⟩],
      item.Correct fun _ => [⟨[7], by decide⟩] := by
    intro item hitem
    obtain rfl := List.mem_singleton.mp (List.mem_of_mem_filter hitem)
    rfl
  obtain ⟨s', hrun, hsynced⟩ := h (start emptyDB) (fun _ => [⟨[7], by decide⟩]) (fun _ => none) 1
    [⟨List.replicate 128 'a', 1, 1⟩] hinv emptyDB_mirrors (List.forall_mem_nil _) ⟨by decide, rfl⟩
    hnames hcorrect .refusing faithful_refusing
  obtain ⟨s₁, hs₁, hdb₁, hunderway⟩ := hinv.underway (show (1 : UInt32) ≠ 0 by decide) rfl
    (emptyDB_mirrors.follows (List.forall_mem_nil _)) hnames hcorrect (short_of_syncRun hrun)
  rw [syncRun, hs₁] at hrun
  have hfits := hunderway.fits le_rfl hrun (hdb₁ ▸ hsynced.effects) hsynced.stored
  rw [hdb₁, SyncFits, if_neg (by decide)] at hfits
  have hlong : (List.replicate 128 'a').length < localFileNameLen := hfits.1.1.2
  rw [List.length_replicate] at hlong
  exact absurd hlong (by decide)

end RecvState

end PanelTester.FileSync
