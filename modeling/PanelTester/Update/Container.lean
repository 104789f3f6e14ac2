import PanelTester.Update.Assembly
import PanelTester.Library.Words

/-!
The walk along the files of a firmware image, at the end of `SERVER2CLI_MSG_FIRMWAREUPDATA` of
`clirecvcmd5srv.c`. An entry `SUpdataFileList` is followed by the bytes of its file and, if it says
so, by another entry. Nothing is compared with the end of the image, so that the walk stays inside
exactly of the images that begin with a whole chain of entries. There is memory for what it copies,
and the files can be opened.
-/

namespace PanelTester.Update

open Library FileSync

/-- `sizeof(SUpdataFileList)` -/
def updataFileListLen : ℕ := 264

/-- A file that is saved, by the name behind `/home/updata/`. -/
structure UpdataFile where
  rfiName : List UInt8
  pFileData : List UInt8
  deriving DecidableEq

/-- What the walk takes from an entry. -/
structure UpdataEntry where
  file : UpdataFile
  filesize : UInt32
  hasnext : UInt32
  deriving DecidableEq

/-- `strlen`, which has no result when it leaves the memory. -/
def strlen (s : List UInt8) : Option ℕ :=
  if 0 ∈ s then some (s.takeWhile (· ≠ 0)).length else none

/-- `memcpy` of a name and its end to `rfiName`. -/
def copyName (name : List UInt8) (n : ℕ) : Option (List UInt8) :=
  if n + 1 ≤ rfiNameLen then some (name.take n) else none

/-- `malloc` for a file, and `memcpy` of its bytes. -/
def copyData (pdata : List UInt8) (filesize : UInt32) : Option (List UInt8) :=
  if filesize.toNat < 2 ^ 31 ∧ filesize.toNat ≤ pdata.length then
    some (pdata.take filesize.toNat)
  else none

/-- `client_pg_firmware`, with its `dst_file` of 256 characters. -/
def clientPgFirmware (file : UpdataFile) : Option UpdataFile :=
  if "/home/updata/".toList.length + file.rfiName.length < 256 then some file else none

/-- The body of the walk, with what is left of the image from `pufl` on. -/
def readEntry (pufl : List UInt8) : Option UpdataEntry :=
  (strlen pufl).bind fun n =>
    (copyName pufl n).bind fun rfiName =>
      (readWord pufl 256).bind fun filesize =>
        (copyData (pufl.drop updataFileListLen) filesize).bind fun pFileData =>
          (clientPgFirmware ⟨rfiName, pFileData⟩).bind fun file =>
            (readWord pufl 260).map fun hasnext => ⟨file, filesize, hasnext⟩

theorem ne_nil_of_readEntry {pufl : List UInt8} {e : UpdataEntry} (h : readEntry pufl = some e) :
    pufl ≠ [] := by
  rintro rfl
  exact Option.some_ne_none e h.symm

/-- Behind an entry less is left of the image. -/
theorem length_drop_entry {pufl : List UInt8} {e : UpdataEntry} (h : readEntry pufl = some e) :
    (pufl.drop (e.filesize.toNat + updataFileListLen)).length < pufl.length := by
  have hpos := List.length_pos_iff.mpr (ne_nil_of_readEntry h)
  rw [List.length_drop, updataFileListLen]
  omega

/-- The walk, with the files that are saved. -/
def containerWalk (pufl : List UInt8) : Option (List UpdataFile) :=
  match _h : readEntry pufl with
  | none => none
  | some e =>
      if e.hasnext = 1 then
        (containerWalk (pufl.drop (e.filesize.toNat + updataFileListLen))).map fun files =>
          e.file :: files
      else some [e.file]
termination_by pufl.length
decreasing_by exact length_drop_entry _h

/-! ### The question -/

/-- An entry with the bytes of its file; `pad` is behind the end of the name. -/
def entryBytes (file : UpdataFile) (pad : List UInt8) (hasnext : UInt32) : List UInt8 :=
  file.rfiName ++ 0 :: pad ++ (bytesLE32 (UInt32.ofNat file.pFileData.length) ++
    (bytesLE32 hasnext ++ file.pFileData))

/-- A name that ends in its field, and a size that is an `int`. -/
structure UpdataFile.Sized (file : UpdataFile) (pad : List UInt8) : Prop where
  name : 0 ∉ file.rfiName
  field : (file.rfiName ++ 0 :: pad).length = 256
  size : file.pFileData.length < 2 ^ 31

/-- An image that begins with a whole chain of entries. -/
inductive Container : List UInt8 → List UpdataFile → Prop
  | last {file : UpdataFile} {pad : List UInt8} {hasnext : UInt32} (rest : List UInt8)
      (sized : file.Sized pad) (last : hasnext ≠ 1) :
      Container (entryBytes file pad hasnext ++ rest) [file]
  | next {file : UpdataFile} {pad rest : List UInt8} {files : List UpdataFile}
      (sized : file.Sized pad) (chain : Container rest files) :
      Container (entryBytes file pad 1 ++ rest) (file :: files)

/-- The names that `dst_file` has room for. -/
def UpdataFile.Short (file : UpdataFile) : Prop := file.rfiName.length ≤ 242

instance (file : UpdataFile) : Decidable file.Short := inferInstanceAs (Decidable (_ ≤ _))

/-- What is promised of an image: the walk stays inside of it and of what it copies to, and saves
the files of a container. -/
def WalksInside (image : List UInt8) : Prop :=
  ∃ saved, containerWalk image = some saved ∧ ∀ files, Container image files → saved = files

/-! ### One entry -/

section

variable {file : UpdataFile} {pad rest pufl : List UInt8} {hasnext : UInt32} {e : UpdataEntry}

theorem takeWhile_name {name : List UInt8} (hname : 0 ∉ name) (s : List UInt8) :
    (name ++ 0 :: s).takeWhile (· ≠ 0) = name := by
  rw [List.takeWhile_append_of_pos, List.takeWhile_cons_of_neg (by simp), List.append_nil]
  intro c hc
  exact decide_eq_true fun h => hname (h ▸ hc)

/-- Where the fields of an entry stand. -/
theorem entryBytes_append (h : file.Sized pad) (hasnext : UInt32) (rest : List UInt8) :
    readWord (entryBytes file pad hasnext ++ rest) 256 =
        some (UInt32.ofNat file.pFileData.length) ∧
      readWord (entryBytes file pad hasnext ++ rest) 260 = some hasnext ∧
      (entryBytes file pad hasnext ++ rest).drop updataFileListLen = file.pFileData ++ rest := by
  have hname := h.field
  have hsize : (file.rfiName ++ 0 :: pad ++
      bytesLE32 (UInt32.ofNat file.pFileData.length)).length = 260 := by
    rw [List.length_append, hname, length_bytesLE32]
  have hheader : (file.rfiName ++ 0 :: pad ++ bytesLE32 (UInt32.ofNat file.pFileData.length) ++
      bytesLE32 hasnext).length = updataFileListLen := by
    rw [List.length_append, hsize, length_bytesLE32, updataFileListLen]
  have hbytes : entryBytes file pad hasnext ++ rest = file.rfiName ++ 0 :: pad ++
      (bytesLE32 (UInt32.ofNat file.pFileData.length) ++
        (bytesLE32 hasnext ++ (file.pFileData ++ rest))) := by
    simp only [entryBytes, List.append_assoc]
  refine ⟨?_, ?_, ?_⟩
  · rw [hbytes, ← hname]
    exact readWord_append _ _ _
  · rw [hbytes, ← hsize, ← List.append_assoc]
    exact readWord_append _ _ _
  · rw [hbytes, ← List.append_assoc, ← List.append_assoc]
    exact List.drop_left' hheader

/-- An entry is read as it was written, if its name is short. -/
theorem readEntry_entryBytes (h : file.Sized pad) (hasnext : UInt32) (rest : List UInt8) :
    readEntry (entryBytes file pad hasnext ++ rest) =
      if file.Short then some ⟨file, UInt32.ofNat file.pFileData.length, hasnext⟩ else none := by
  obtain ⟨hfilesize, hhasnext, hdata⟩ := entryBytes_append h hasnext rest
  have hbytes : ∃ tail, entryBytes file pad hasnext ++ rest = file.rfiName ++ 0 :: tail := by
    refine ⟨pad ++ (bytesLE32 (UInt32.ofNat file.pFileData.length) ++
      (bytesLE32 hasnext ++ file.pFileData)) ++ rest, ?_⟩
    simp only [entryBytes, List.append_assoc, List.cons_append]
  obtain ⟨tail, hbytes⟩ := hbytes
  have hsize := h.size
  have htoNat : (UInt32.ofNat file.pFileData.length).toNat = file.pFileData.length := by
    rw [UInt32.toNat_ofNat', Nat.mod_eq_of_lt (by omega)]
  have hstrlen : strlen (entryBytes file pad hasnext ++ rest) = some file.rfiName.length := by
    rw [hbytes, strlen, if_pos (List.mem_append_right _ List.mem_cons_self),
      takeWhile_name h.name]
  have hname : copyName (entryBytes file pad hasnext ++ rest) file.rfiName.length =
      some file.rfiName := by
    have hfield := h.field
    rw [List.length_append, List.length_cons] at hfield
    have hfit : file.rfiName.length + 1 ≤ rfiNameLen := by
      rw [rfiNameLen]
      omega
    rw [hbytes, copyName, if_pos hfit, List.take_left]
  have hcopy : copyData ((entryBytes file pad hasnext ++ rest).drop updataFileListLen)
      (UInt32.ofNat file.pFileData.length) = some file.pFileData := by
    rw [hdata, copyData, htoNat, if_pos, List.take_left]
    refine ⟨hsize, ?_⟩
    rw [List.length_append]
    exact Nat.le_add_right _ _
  have hpath : "/home/updata/".toList.length + file.rfiName.length < 256 ↔ file.Short := by
    rw [UpdataFile.Short, show "/home/updata/".toList.length = 13 from rfl]
    omega
  rw [readEntry, hstrlen, Option.bind_some, hname, Option.bind_some, hfilesize, Option.bind_some,
    hcopy, Option.bind_some, clientPgFirmware, hhasnext]
  simp only [hpath]
  split_ifs <;> rfl

/-- The field of a name that is read. -/
theorem take_of_strlen {s : List UInt8} {n : ℕ} (h : strlen s = some n) (hn : n < 256)
    (hs : 256 ≤ s.length) :
    0 ∉ s.take n ∧ ∃ pad, s.take 256 = s.take n ++ 0 :: pad := by
  obtain ⟨hmem, hlen⟩ := Option.ite_none_right_eq_some.mp h
  obtain ⟨front, tail, rfl, hfront⟩ := List.eq_append_cons_of_mem hmem
  rw [takeWhile_name hfront] at hlen
  obtain rfl := Option.some.inj hlen
  rw [List.take_left]
  refine ⟨hfront, tail.take (255 - front.length), ?_⟩
  rw [List.take_append, List.take_of_length_le hn.le,
    show 256 - front.length = (255 - front.length) + 1 by omega, List.take_succ_cons]

/-- An entry that is read stands there. -/
theorem eq_entryBytes_of_readEntry (h : readEntry pufl = some e) :
    ∃ pad rest, pufl = entryBytes e.file pad e.hasnext ++ rest ∧ e.file.Sized pad ∧
      e.file.Short ∧ pufl.drop (e.filesize.toNat + updataFileListLen) = rest := by
  rw [readEntry] at h
  obtain ⟨n, hstrlen, h⟩ := Option.bind_eq_some_iff.mp h
  obtain ⟨name, hname, h⟩ := Option.bind_eq_some_iff.mp h
  obtain ⟨filesize, hfilesize, h⟩ := Option.bind_eq_some_iff.mp h
  obtain ⟨data, hdata, h⟩ := Option.bind_eq_some_iff.mp h
  obtain ⟨file, hfile, h⟩ := Option.bind_eq_some_iff.mp h
  obtain ⟨hasnext, hhasnext, rfl⟩ := Option.map_eq_some_iff.mp h
  replace hfilesize := drop_of_readWord hfilesize
  replace hhasnext := drop_of_readWord hhasnext
  obtain ⟨hfit, hname⟩ := Option.ite_none_right_eq_some.mp hname
  obtain rfl := Option.some.inj hname
  obtain ⟨⟨hsmall, hinside⟩, hdata⟩ := Option.ite_none_right_eq_some.mp hdata
  obtain ⟨hshort, hfile⟩ := Option.ite_none_right_eq_some.mp hfile
  obtain rfl := Option.some.inj hfile
  have hlength : 256 ≤ pufl.length := by
    have hdrop := congrArg List.length hfilesize
    rw [List.length_drop, List.length_append, length_bytesLE32] at hdrop
    omega
  obtain ⟨hnul, pad, hpad⟩ := take_of_strlen hstrlen hfit hlength
  have hlen : data.length = filesize.toNat := by
    rw [← Option.some.inj hdata, List.length_take_of_le hinside]
  refine ⟨pad, (pufl.drop updataFileListLen).drop filesize.toNat, ?_, ⟨hnul, ?_, ?_⟩, ?_, ?_⟩
  · have hword : UInt32.ofNat data.length = filesize := by rw [hlen, UInt32.ofNat_toNat]
    calc pufl = pufl.take 256 ++ pufl.drop 256 := (List.take_append_drop 256 pufl).symm
      _ = pufl.take n ++ 0 :: pad ++ (bytesLE32 filesize ++ (bytesLE32 hasnext ++
            (data ++ (pufl.drop updataFileListLen).drop filesize.toNat))) := by
          rw [hpad, hfilesize, hhasnext, ← Option.some.inj hdata, List.take_append_drop]
          rfl
      _ = _ := by simp only [entryBytes, hword, List.append_assoc]
  · rw [← hpad, List.length_take_of_le hlength]
  · rw [hlen]
    exact hsmall
  · have hpath : 13 + (pufl.take n).length < 256 := hshort
    have hle : (pufl.take n).length ≤ 242 := by omega
    exact hle
  · rw [Nat.add_comm, List.drop_drop]

/-! ### The chain -/

theorem containerWalk_of_some (h : readEntry pufl = some e) :
    containerWalk pufl =
      if e.hasnext = 1 then
        (containerWalk (pufl.drop (e.filesize.toNat + updataFileListLen))).map fun files =>
          e.file :: files
      else some [e.file] := by
  rw [containerWalk]
  split
  · rename_i hnone
    exact absurd (h.symm.trans hnone) (Option.some_ne_none e)
  · rename_i e' he'
    obtain rfl := Option.some.inj (h.symm.trans he')
    rfl

theorem containerWalk_of_none (h : readEntry pufl = none) : containerWalk pufl = none := by
  rw [containerWalk]
  split
  · rfl
  · rename_i e' he'
    exact absurd (h.symm.trans he').symm (Option.some_ne_none e')

end

/-- The walk along a container saves its files, as long as their names are short. -/
theorem containerWalk_of_container {image : List UInt8} {files : List UpdataFile}
    (h : Container image files) :
    containerWalk image = if ∀ file ∈ files, file.Short then some files else none := by
  induction h with
  | @last file pad hasnext rest sized last =>
      have hentry := readEntry_entryBytes sized hasnext rest
      simp only [List.forall_mem_singleton]
      split_ifs at hentry ⊢ with hshort
      · rw [containerWalk_of_some hentry, if_neg last]
      · rw [containerWalk_of_none hentry]
  | @next file pad rest files sized chain ih =>
      have hentry := readEntry_entryBytes sized 1 rest
      simp only [List.forall_mem_cons]
      by_cases hshort : file.Short
      · have hdrop : (entryBytes file pad 1 ++ rest).drop
            ((UInt32.ofNat file.pFileData.length).toNat + updataFileListLen) = rest := by
          have hsize := sized.size
          rw [Nat.add_comm, ← List.drop_drop, (entryBytes_append sized 1 rest).2.2,
            UInt32.toNat_ofNat', Nat.mod_eq_of_lt (by omega), List.drop_left]
        rw [if_pos hshort] at hentry
        rw [containerWalk_of_some hentry, if_pos rfl, hdrop, ih]
        simp only [hshort, true_and]
        split_ifs <;> rfl
      · rw [if_neg hshort] at hentry
        rw [containerWalk_of_none hentry, if_neg fun h => hshort h.1]

/-- An image that the walk stays inside of begins with a container of the files it saves. -/
theorem container_of_containerWalk {image : List UInt8} {files : List UpdataFile}
    (h : containerWalk image = some files) :
    Container image files ∧ ∀ file ∈ files, file.Short := by
  induction hn : image.length using Nat.strong_induction_on generalizing image files with
  | _ n ih =>
      cases hentry : readEntry image with
      | none => exact absurd (h.symm.trans (containerWalk_of_none hentry)) (Option.some_ne_none _)
      | some e =>
          rw [containerWalk_of_some hentry] at h
          obtain ⟨pad, rest, himage, hsized, hshort, hrest⟩ := eq_entryBytes_of_readEntry hentry
          split_ifs at h with hnext
          · obtain ⟨files, hwalk, rfl⟩ := Option.map_eq_some_iff.mp h
            obtain ⟨hchain, hall⟩ := ih _ (hn ▸ length_drop_entry hentry) hwalk rfl
            rw [hrest] at hchain
            rw [himage, hnext]
            exact ⟨.next hsized hchain, List.forall_mem_cons.mpr ⟨hshort, hall⟩⟩
          · obtain rfl := Option.some.inj h
            rw [himage]
            exact ⟨.last rest hsized hnext, List.forall_mem_singleton.mpr hshort⟩

theorem walksInside_iff (image : List UInt8) :
    WalksInside image ↔ ∃ files, Container image files ∧ ∀ file ∈ files, file.Short := by
  constructor
  · rintro ⟨saved, hwalk, -⟩
    exact ⟨saved, container_of_containerWalk hwalk⟩
  · rintro ⟨files, hcontainer, hshort⟩
    have hwalk := containerWalk_of_container hcontainer
    rw [if_pos hshort] at hwalk
    refine ⟨files, hwalk, ?_⟩
    intro files' hcontainer'
    have hwalk' := containerWalk_of_container hcontainer'
    rw [hwalk] at hwalk'
    exact Option.some.inj (Option.ite_none_right_eq_some.mp hwalk'.symm).2.symm

/-- An image of one byte: the size of the file is read behind it. -/
theorem not_walksInside_byte : ¬ WalksInside [0] := by
  rintro ⟨saved, hwalk, -⟩
  have hnone : containerWalk [0] = none := containerWalk_of_none rfl
  exact absurd (hwalk.symm.trans hnone) (Option.some_ne_none saved)

end PanelTester.Update
