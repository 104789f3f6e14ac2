import PanelTester.FileSync.Receive
import PanelTester.Library.Steps

/-!
The images that `SERVER2CLI_MSG_FIRMWAREUPDATA` and `SERVER2CLI_MSG_POWERUPDATA` of
`clirecvcmd5srv.c` put together. `BINFILE_BEGIN` allocates as many bytes as are announced; a body is
written behind the last one, without a look at the end of the buffer, and the end of the transfer
hands the buffer on without a look at what was written. Beside the pointers stands what was
announced and sent since the last `BINFILE_BEGIN`, which no step reads.
-/

namespace PanelTester.Update

open Library FileSync

/-- The buffer of a transfer, and how far its writer pointer is behind the start of it. -/
structure Transfer where
  buf : Option Block
  wpt : Option ℕ
  fileSize : Int32
  received : List UInt8

/-- The statics of both messages. -/
structure UpdateState where
  tmpFirmware : Transfer
  tmpPowerUpdate : Transfer
  tmpPowerUpdateSize : UInt32

/-- The types of a message; whether there is memory is decided elsewhere. -/
inductive BinFile
  | binfileBegin (fileSize : Int32) (room : Bool)
  | binfileBody (pcmd : List UInt8)
  | binfileOver

inductive UpdateMessage
  | firmwareUpdata (m : BinFile)
  | powerUpdata (m : BinFile)

/-- What is done with an image: the walk along the files in it, or `PWR_CMD_UPGRADE`. -/
inductive HandedOn
  | containerWalk (image : Block)
  | pwrCmdUpgrade (image : Block) (size : UInt32)

namespace Transfer

/-- Before the first message. -/
def closed : Transfer := ⟨none, none, 0, []⟩

def begin (fileSize : Int32) (room : Bool) : Transfer where
  buf := malloc room (sizeT fileSize)
  wpt := (malloc room (sizeT fileSize)).map fun _ => 0
  fileSize
  received := []

def body (t : Transfer) (pcmd : List UInt8) : Option Transfer :=
  match t.wpt with
  | none => some { t with received := t.received ++ pcmd }
  | some wpt =>
      (memcpy t.buf wpt pcmd).map fun buf =>
        { t with buf, wpt := some (wpt + pcmd.length), received := t.received ++ pcmd }

/-- The buffer is given back. -/
def free (t : Transfer) : Transfer := { t with buf := none, wpt := none }

end Transfer

namespace UpdateState

def start : UpdateState := ⟨.closed, .closed, 0⟩

/-- `SERVER2CLI_MSG_FIRMWAREUPDATA` -/
def firmwareUpdata (s : UpdateState) : BinFile → Option (Option HandedOn × UpdateState)
  | .binfileBegin fileSize room => some (none, { s with tmpFirmware := .begin fileSize room })
  | .binfileBody pcmd =>
      (s.tmpFirmware.body pcmd).map fun t => (none, { s with tmpFirmware := t })
  | .binfileOver =>
      match s.tmpFirmware.buf with
      | none => some (none, s)
      | some image =>
          some (some (.containerWalk image), { s with tmpFirmware := s.tmpFirmware.free })

/-- `SERVER2CLI_MSG_POWERUPDATA` -/
def powerUpdata (s : UpdateState) : BinFile → Option (Option HandedOn × UpdateState)
  | .binfileBegin fileSize room =>
      some (none, { s with
        tmpPowerUpdate := .begin fileSize room
        tmpPowerUpdateSize := fileSize.toUInt32 })
  | .binfileBody pcmd =>
      (s.tmpPowerUpdate.body pcmd).map fun t => (none, { s with tmpPowerUpdate := t })
  | .binfileOver =>
      match s.tmpPowerUpdate.buf with
      | none => some (none, s)
      | some image =>
          some (some (.pwrCmdUpgrade image s.tmpPowerUpdateSize), { s with
            tmpPowerUpdate := s.tmpPowerUpdate.free
            tmpPowerUpdateSize := 0 })

def handle (s : UpdateState) : UpdateMessage → Option (Option HandedOn × UpdateState)
  | .firmwareUpdata m => s.firmwareUpdata m
  | .powerUpdata m => s.powerUpdata m

end UpdateState

/-! ### The question -/

/-- An image is what was sent since the last `BINFILE_BEGIN`, and that is as much as was
announced. -/
def Transfer.Whole (t : Transfer) (image : Block) : Prop :=
  image = t.received.map some ∧ (t.received.length : ℤ) = t.fileSize.toInt

/-- The bytes of a body have room behind the others, and the transfer ends with the last one. -/
def Transfer.Fits (t : Transfer) (m : BinFile) : Prop :=
  t.buf ≠ none →
    match m with
    | .binfileBegin _ _ => True
    | .binfileBody pcmd => (t.received.length + pcmd.length : ℤ) ≤ t.fileSize.toInt
    | .binfileOver => (t.received.length : ℤ) = t.fileSize.toInt

namespace UpdateState

/-- What is promised of a message: an image that is handed on is whole, and has the size that the
power module is told. -/
def Kept (s : UpdateState) (r : Option HandedOn × UpdateState) : Prop :=
  (∀ image, r.1 = some (.containerWalk image) → s.tmpFirmware.Whole image) ∧
    ∀ image size, r.1 = some (.pwrCmdUpgrade image size) →
      s.tmpPowerUpdate.Whole image ∧ image.length = size.toNat

def Fits (s : UpdateState) : UpdateMessage → Prop
  | .firmwareUpdata m => s.tmpFirmware.Fits m
  | .powerUpdata m => s.tmpPowerUpdate.Fits m

/-- Every message is handled inside of the buffers, and keeps what is promised. -/
def KeptRun : UpdateState → List UpdateMessage → Prop
  | _, [] => True
  | s, m :: ms => ∃ r, s.handle m = some r ∧ s.Kept r ∧ r.2.KeptRun ms

def FitsRun : UpdateState → List UpdateMessage → Prop
  | _, [] => True
  | s, m :: ms => s.Fits m ∧ ∀ r, s.handle m = some r → r.2.FitsRun ms

end UpdateState

/-! ### A transfer -/

namespace Transfer

/-- What the buffer holds in front of the writer pointer is what was sent. -/
structure Inv (t : Transfer) : Prop where
  closed : t.buf = none → t.wpt = none
  size : ∀ block, t.buf = some block → (block.length : ℤ) = t.fileSize.toInt
  wpt : t.buf ≠ none → t.wpt = some t.received.length
  written : ∀ block, t.buf = some block →
    t.received.length ≤ block.length ∧ block.take t.received.length = t.received.map some

variable {t : Transfer}

theorem closed_inv : closed.Inv :=
  ⟨fun _ => rfl, fun _ h => absurd h.symm (Option.some_ne_none _), fun h => absurd rfl h,
    fun _ h => absurd h.symm (Option.some_ne_none _)⟩

theorem begin_inv (fileSize : Int32) (room : Bool) : (begin fileSize room).Inv := by
  cases hmalloc : malloc room (sizeT fileSize) with
  | none =>
      have heq : begin fileSize room = ⟨none, none, fileSize, []⟩ := by
        rw [begin, hmalloc]
        rfl
      rw [heq]
      exact ⟨fun _ => rfl, fun _ h => absurd h.symm (Option.some_ne_none _),
        fun h => absurd rfl h, fun _ h => absurd h.symm (Option.some_ne_none _)⟩
  | some block =>
      have heq : begin fileSize room = ⟨some block, some 0, fileSize, []⟩ := by
        rw [begin, hmalloc]
        rfl
      rw [malloc, Option.ite_none_right_eq_some] at hmalloc
      obtain ⟨⟨-, hsmall⟩, hblock⟩ := hmalloc
      have hlen : (block.length : ℤ) = fileSize.toInt := by
        rw [← Option.some.inj hblock, List.length_replicate, toInt_eq_sizeT, if_pos hsmall]
      rw [heq]
      refine ⟨fun h => absurd h (Option.some_ne_none block), ?_, fun _ => rfl, ?_⟩
      · intro block' hblock'
        obtain rfl := Option.some.inj hblock'
        exact hlen
      · intro block' _
        exact ⟨Nat.zero_le _, List.take_zero⟩

theorem Inv.free (_ : t.Inv) : t.free.Inv :=
  ⟨fun _ => rfl, fun _ h => absurd h.symm (Option.some_ne_none _), fun h => absurd rfl h,
    fun _ h => absurd h.symm (Option.some_ne_none _)⟩

/-- A body that comes without a buffer is left out. -/
theorem body_of_closed (hwpt : t.wpt = none) (pcmd : List UInt8) :
    t.body pcmd = some { t with received := t.received ++ pcmd } := by
  rw [body, hwpt]

/-- A body is written where the last one ended. -/
theorem Inv.body_eq (h : t.Inv) {block : Block} (hblock : t.buf = some block)
    (pcmd : List UInt8) :
    t.body pcmd =
      if t.received.length + pcmd.length ≤ block.length then
        some
          { t with
            buf := some (block.take t.received.length ++ pcmd.map some ++
              block.drop (t.received.length + pcmd.length))
            wpt := some (t.received.length + pcmd.length)
            received := t.received ++ pcmd }
      else none := by
  have hopen : t.buf ≠ none := fun hnone => Option.some_ne_none _ (hblock.symm.trans hnone)
  have hroom : (0 : ℤ) ≤ (t.received.length : ℤ) ∧
      (t.received.length : ℤ) + pcmd.length ≤ block.length ↔
        t.received.length + pcmd.length ≤ block.length := by omega
  rw [body, h.wpt hopen, hblock]
  simp only [memcpy, hroom, Int.toNat_natCast]
  split_ifs <;> rfl

/-- A body that fits is written behind the others. -/
theorem Inv.body_of_fits (h : t.Inv) {pcmd : List UInt8} (hfits : t.Fits (.binfileBody pcmd)) :
    ∃ t', t.body pcmd = some t' ∧ t'.Inv ∧ (t'.buf = none ↔ t.buf = none) ∧
      t'.fileSize = t.fileSize := by
  cases hbuf : t.buf with
  | none =>
      refine ⟨_, body_of_closed (h.closed hbuf) pcmd, ⟨?_, ?_, ?_, ?_⟩, ?_, rfl⟩
      · exact h.closed
      · exact h.size
      · exact fun hopen => absurd hbuf hopen
      · exact fun block hblock => absurd (hbuf.symm.trans hblock).symm (Option.some_ne_none _)
      · exact iff_of_true hbuf rfl
  | some block =>
      have hopen : t.buf ≠ none := fun hnone => Option.some_ne_none _ (hbuf.symm.trans hnone)
      have hsize := h.size block hbuf
      have hroom : (t.received.length + pcmd.length : ℤ) ≤ t.fileSize.toInt := hfits hopen
      have hfit : t.received.length + pcmd.length ≤ block.length := by omega
      obtain ⟨-, htake⟩ := h.written block hbuf
      have hfront : (block.take t.received.length).length = t.received.length :=
        List.length_take_of_le (by omega)
      have hbytes : (block.take t.received.length ++ pcmd.map some).length =
          t.received.length + pcmd.length := by
        rw [List.length_append, hfront, List.length_map]
      rw [h.body_eq hbuf, if_pos hfit]
      refine ⟨_, rfl, ⟨?_, ?_, ?_, ?_⟩, ?_, rfl⟩
      · exact fun hnone => absurd hnone (Option.some_ne_none _)
      · intro block' hblock'
        obtain rfl := Option.some.inj hblock'
        rw [← hsize, List.length_append, hbytes, List.length_drop]
        omega
      · intro _
        rw [List.length_append]
      · intro block' hblock'
        obtain rfl := Option.some.inj hblock'
        have hlen : (t.received ++ pcmd).length =
            (block.take t.received.length ++ pcmd.map some).length := by
          rw [hbytes, List.length_append]
        refine ⟨?_, ?_⟩
        · rw [List.length_append, List.length_append, hbytes]
          exact Nat.le_add_right _ _
        · rw [hlen, List.take_left, htake, List.map_append]
      · exact iff_of_false (Option.some_ne_none _) (Option.some_ne_none _)

/-- A body that is handled fits. -/
theorem Inv.fits_of_body (h : t.Inv) {pcmd : List UInt8} {t' : Transfer}
    (hbody : t.body pcmd = some t') : t.Fits (.binfileBody pcmd) := by
  intro hopen
  obtain ⟨block, hblock⟩ := Option.ne_none_iff_exists'.mp hopen
  have hsize := h.size block hblock
  rw [h.body_eq hblock, Option.ite_none_right_eq_some] at hbody
  obtain ⟨hroom, -⟩ := hbody
  show (t.received.length + pcmd.length : ℤ) ≤ t.fileSize.toInt
  omega

/-- The image at the end of a transfer is whole when it is as long as was announced. -/
theorem Inv.whole_iff (h : t.Inv) {image : Block} (himage : t.buf = some image) :
    t.Whole image ↔ t.Fits .binfileOver := by
  have hopen : t.buf ≠ none := fun hnone => Option.some_ne_none _ (himage.symm.trans hnone)
  constructor
  · rintro ⟨-, hlen⟩ _
    exact hlen
  · intro hfits
    have hlen : (t.received.length : ℤ) = t.fileSize.toInt := hfits hopen
    obtain ⟨-, htake⟩ := h.written image himage
    have hsize := h.size image himage
    rw [List.take_of_length_le (by omega)] at htake
    exact ⟨htake, hlen⟩

end Transfer

/-! ### The runs -/

namespace UpdateState

/-- Both transfers are in order, and the power module is told the size that was announced. -/
structure Inv (s : UpdateState) : Prop where
  firmware : s.tmpFirmware.Inv
  power : s.tmpPowerUpdate.Inv
  size : s.tmpPowerUpdate.buf ≠ none → s.tmpPowerUpdateSize = s.tmpPowerUpdate.fileSize.toUInt32

/-- Where nothing is handed on nothing is promised. -/
theorem kept_none (s s' : UpdateState) : s.Kept (none, s') :=
  ⟨fun _ h => absurd h.symm (Option.some_ne_none _),
    fun _ _ h => absurd h.symm (Option.some_ne_none _)⟩

namespace Inv

variable {s : UpdateState}

/-- A buffer has as many bytes as the power module is told. -/
theorem length_image (h : s.Inv) {image : Block} (himage : s.tmpPowerUpdate.buf = some image) :
    image.length = s.tmpPowerUpdateSize.toNat := by
  have hopen : s.tmpPowerUpdate.buf ≠ none :=
    fun hnone => Option.some_ne_none _ (himage.symm.trans hnone)
  have hsize := h.power.size image himage
  have hlt := s.tmpPowerUpdate.fileSize.toUInt32.toNat_lt
  rw [toInt_eq_sizeT, sizeT] at hsize
  rw [h.size hopen]
  split_ifs at hsize
  · exact Int.ofNat_inj.mp hsize
  · omega

theorem firmwareUpdata (h : s.Inv) {m : BinFile} (hfits : s.tmpFirmware.Fits m) :
    ∃ r, s.firmwareUpdata m = some r ∧ s.Kept r ∧ r.2.Inv := by
  cases m with
  | binfileBegin fileSize room =>
      exact ⟨_, rfl, s.kept_none _, ⟨Transfer.begin_inv fileSize room, h.power, h.size⟩⟩
  | binfileBody pcmd =>
      obtain ⟨t', hbody, hinv, -, -⟩ := h.firmware.body_of_fits hfits
      rw [UpdateState.firmwareUpdata, hbody]
      exact ⟨_, rfl, s.kept_none _, ⟨hinv, h.power, h.size⟩⟩
  | binfileOver =>
      rw [UpdateState.firmwareUpdata]
      cases hbuf : s.tmpFirmware.buf with
      | none => exact ⟨_, rfl, s.kept_none _, h⟩
      | some image =>
          refine ⟨_, rfl, ⟨?_, ?_⟩, ⟨h.firmware.free, h.power, h.size⟩⟩
          · intro image' himage'
            obtain rfl := HandedOn.containerWalk.inj (Option.some.inj himage')
            exact (h.firmware.whole_iff hbuf).mpr hfits
          · exact fun _ _ h => HandedOn.noConfusion (Option.some.inj h)

theorem powerUpdata (h : s.Inv) {m : BinFile} (hfits : s.tmpPowerUpdate.Fits m) :
    ∃ r, s.powerUpdata m = some r ∧ s.Kept r ∧ r.2.Inv := by
  cases m with
  | binfileBegin fileSize room =>
      exact ⟨_, rfl, s.kept_none _, ⟨h.firmware, Transfer.begin_inv fileSize room, fun _ => rfl⟩⟩
  | binfileBody pcmd =>
      obtain ⟨t', hbody, hinv, hbuf, hsize⟩ := h.power.body_of_fits hfits
      rw [UpdateState.powerUpdata, hbody]
      refine ⟨_, rfl, s.kept_none _, ⟨h.firmware, hinv, ?_⟩⟩
      intro hopen
      show s.tmpPowerUpdateSize = t'.fileSize.toUInt32
      rw [hsize]
      exact h.size fun hnone => hopen (hbuf.mpr hnone)
  | binfileOver =>
      rw [UpdateState.powerUpdata]
      cases hbuf : s.tmpPowerUpdate.buf with
      | none => exact ⟨_, rfl, s.kept_none _, h⟩
      | some image =>
          refine ⟨_, rfl, ⟨?_, ?_⟩, ⟨h.firmware, h.power.free, fun hopen => absurd rfl hopen⟩⟩
          · exact fun _ h => HandedOn.noConfusion (Option.some.inj h)
          · intro image' size himage'
            obtain ⟨rfl, rfl⟩ := HandedOn.pwrCmdUpgrade.inj (Option.some.inj himage')
            exact ⟨(h.power.whole_iff hbuf).mpr hfits, h.length_image hbuf⟩

/-- A message that keeps what is promised fits. -/
theorem fits_of_kept (h : s.Inv) {m : UpdateMessage} {r : Option HandedOn × UpdateState}
    (hrun : s.handle m = some r) (hkept : s.Kept r) : s.Fits m := by
  obtain ⟨hfirmware, hpower⟩ := hkept
  cases m with
  | firmwareUpdata m =>
      cases m with
      | binfileBegin fileSize room => exact fun _ => trivial
      | binfileBody pcmd =>
          obtain ⟨t', hbody, -⟩ := Option.map_eq_some_iff.mp hrun
          exact h.firmware.fits_of_body hbody
      | binfileOver =>
          intro hopen
          obtain ⟨image, himage⟩ := Option.ne_none_iff_exists'.mp hopen
          rw [UpdateState.handle, UpdateState.firmwareUpdata, himage] at hrun
          obtain rfl := Option.some.inj hrun
          exact (h.firmware.whole_iff himage).mp (hfirmware image rfl) hopen
  | powerUpdata m =>
      cases m with
      | binfileBegin fileSize room => exact fun _ => trivial
      | binfileBody pcmd =>
          obtain ⟨t', hbody, -⟩ := Option.map_eq_some_iff.mp hrun
          exact h.power.fits_of_body hbody
      | binfileOver =>
          intro hopen
          obtain ⟨image, himage⟩ := Option.ne_none_iff_exists'.mp hopen
          rw [UpdateState.handle, UpdateState.powerUpdata, himage] at hrun
          obtain rfl := Option.some.inj hrun
          exact (h.power.whole_iff himage).mp (hpower image _ rfl).1 hopen

end Inv

theorem keptRun_iff_of_inv {s : UpdateState} (h : s.Inv) (ms : List UpdateMessage) :
    s.KeptRun ms ↔ s.FitsRun ms := by
  induction ms generalizing s with
  | nil => exact Iff.rfl
  | cons m ms ih =>
      rw [KeptRun, FitsRun]
      apply run_step_iff
      · intro hfits
        obtain ⟨r, hrun, hkept, hinv⟩ : ∃ r, s.handle m = some r ∧ s.Kept r ∧ r.2.Inv := by
          cases m with
          | firmwareUpdata m => exact h.firmwareUpdata hfits
          | powerUpdata m => exact h.powerUpdata hfits
        exact ⟨r, hrun, hkept, ih hinv⟩
      · intro r hrun hkept
        exact h.fits_of_kept hrun hkept

theorem start_inv : start.Inv :=
  ⟨Transfer.closed_inv, Transfer.closed_inv, fun hopen => absurd rfl hopen⟩

theorem update_keptRun_iff (ms : List UpdateMessage) : start.KeptRun ms ↔ start.FitsRun ms :=
  keptRun_iff_of_inv start_inv ms

/-- One byte is announced, and two are sent. -/
theorem not_keptRun_long :
    ¬ start.KeptRun [.firmwareUpdata (.binfileBegin 1 true),
      .firmwareUpdata (.binfileBody [1, 2])] := by
  intro h
  have hfits := (keptRun_iff_of_inv start_inv _).mp h
  obtain ⟨-, hfits⟩ := hfits
  obtain ⟨hfits, -⟩ := hfits _ rfl
  have hroom := hfits (Option.some_ne_none _)
  exact absurd hroom (by decide)

end UpdateState

end PanelTester.Update
