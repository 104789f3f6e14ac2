import PanelTester.Library.Fragments
import PanelTester.PackSocket.Delivery

/-!
The replies that `client.c` sends in fragments. `client_rebackMipiCode` counts its fragments by a
division and cuts them by what remains; the fragments are those of `Library.fragments`, so they
are a `Message`, and the receiver hands it on as one.
-/

namespace PanelTester.PackSocket

open Library

/-- `PACKAGE_MAX_LEN` -/
def packageMaxLen : ℕ := 1600

/-- `CLIENT_MSG_REBACK` -/
def clientMsgReback : UInt16 := 0x2020

/-- `REBACK_MIPI_CODE` -/
def rebackMipiCode : UInt16 := 2

/-- What a call of `sendSocketCmd` is given besides the descriptor, the command and `ipnum`. -/
structure Packet where
  curNo : UInt16
  lastNo : UInt16
  pData : List UInt8
  deriving DecidableEq, Repr

/-- The loop of `client_rebackMipiCode` for the next `n` values of `i`. -/
def rebackLoop (pMipiCode : List UInt8) (packetLen lastNo : ℕ) : ℕ → ℕ → ℕ → List Packet
  | 0, _, _ => []
  | n + 1, i, remainDataLen =>
      let sendLen := if remainDataLen ≥ packetLen then packetLen else remainDataLen
      { curNo := UInt16.ofNat i
        lastNo := UInt16.ofNat lastNo
        pData := (pMipiCode.drop (i * packetLen)).take sendLen } ::
      rebackLoop pMipiCode packetLen lastNo n (i + 1) (remainDataLen - sendLen)

/-- `client_rebackMipiCode`: its calls of `sendSocketCmd`, in order. -/
def clientRebackMipiCode (pMipiCode : List UInt8) : List Packet :=
  let len := pMipiCode.length
  if len > 0 then
    let lastNo := len / packageMaxLen
    rebackLoop pMipiCode packageMaxLen lastNo (lastNo + 1) 0 len
  else []

/-- The bytes of these calls on the line. -/
def rebackBytes (sendFd : ℕ) (packets : List Packet) : List UInt8 :=
  packets.flatMap fun p =>
    sendSocketCmd sendFd (packTypeCmd rebackMipiCode clientMsgReback) 0 p.curNo p.lastNo p.pData

/-- The fragments of a byte string: they are numbered from zero, all say how many there are, none
is longer than a packet, and behind each other they are the byte string; when it is a number of
whole packets, the last one is empty. -/
structure Fragmented (packets : List Packet) (data : List UInt8) : Prop where
  count : packets.length = data.length / packageMaxLen + 1
  curNo : ∀ i, (h : i < packets.length) → (packets.get ⟨i, h⟩).curNo.toNat = i
  lastNo : ∀ p ∈ packets, p.lastNo.toNat = data.length / packageMaxLen
  short : ∀ p ∈ packets, p.pData.length ≤ packageMaxLen
  whole : packets.flatMap Packet.pData = data
  last : packageMaxLen ∣ data.length → packets.getLast?.map Packet.pData = some []

/-- The packet of the fragment with the number `i`. -/
def packet (data : List UInt8) (i : ℕ) : Packet where
  curNo := UInt16.ofNat i
  lastNo := UInt16.ofNat (data.length / packageMaxLen)
  pData := fragment packageMaxLen data i

variable {data : List UInt8}

theorem packageMaxLen_pos : 0 < packageMaxLen := by decide

/-- What remains is what is behind the fragments that are sent. -/
theorem rebackLoop_eq (data : List UInt8) (n i : ℕ) :
    rebackLoop data packageMaxLen (data.length / packageMaxLen) n i
        (data.length - i * packageMaxLen) = (List.range' i n).map (packet data) := by
  induction n generalizing i with
  | zero => rfl
  | succ n ih =>
    have hsent : (data.drop (i * packageMaxLen)).take
        (if data.length - i * packageMaxLen ≥ packageMaxLen then packageMaxLen
          else data.length - i * packageMaxLen) = fragment packageMaxLen data i := by
      split_ifs with hwhole
      · rfl
      · -- the rest is shorter than a packet
        rw [fragment, List.take_of_length_le (by rw [List.length_drop]),
          List.take_of_length_le (by rw [List.length_drop]; omega)]
    have hremain : data.length - i * packageMaxLen -
        (if data.length - i * packageMaxLen ≥ packageMaxLen then packageMaxLen
          else data.length - i * packageMaxLen) = data.length - (i + 1) * packageMaxLen := by
      rw [Nat.succ_mul]
      split_ifs
      · omega
      · omega
    rw [rebackLoop, List.range'_succ, List.map_cons, hsent, hremain, ih]
    rfl

theorem clientRebackMipiCode_eq (hdata : 0 < data.length) :
    clientRebackMipiCode data =
      (List.range (data.length / packageMaxLen + 1)).map (packet data) := by
  have hloop := rebackLoop_eq data (data.length / packageMaxLen + 1) 0
  rw [Nat.zero_mul, Nat.sub_zero] at hloop
  rw [clientRebackMipiCode, if_pos hdata, hloop, List.range_eq_range']

theorem clientRebackMipiCode_fragmented (hdata : 0 < data.length)
    (hcount : data.length / packageMaxLen + 1 ≤ 65536) :
    Fragmented (clientRebackMipiCode data) data := by
  rw [clientRebackMipiCode_eq hdata]
  constructor
  · simp
  · intro i hi
    rw [List.length_map, List.length_range] at hi
    simp [packet]
    omega
  · intro p hp
    obtain ⟨i, -, rfl⟩ := List.mem_map.1 hp
    exact UInt16.toNat_ofNat_of_lt' hcount
  · intro p hp
    obtain ⟨i, -, rfl⟩ := List.mem_map.1 hp
    exact length_fragment_le _ _ _
  · rw [List.flatMap_map]
    exact (List.flatMap_def ..).trans (flatten_fragments packageMaxLen_pos data)
  · intro hdvd
    rw [List.range_succ, List.map_append, List.map_singleton, List.getLast?_concat, Option.map_some]
    exact congrArg some (fragment_last_eq_nil hdvd)

/-- A fragment goes into a frame that fits a chunk. -/
theorem frame_fits_chunk {f : List UInt8} (hf : f ∈ fragments packageMaxLen data) :
    headLen + f.length + 4 ≤ recvMaxLen := by
  have hshort := length_le_of_mem_fragments hf
  simp only [packageMaxLen, headLen, recvMaxLen, fifoMaxLen] at hshort ⊢
  omega

/-- The message that the fragments of a reply make up. -/
def rebackMessage (data : List UInt8) (hcount : data.length / packageMaxLen + 1 ≤ 65536) :
    Message where
  cmd := clientMsgReback
  type := rebackMipiCode
  ipnum := 0
  fragments := fragments packageMaxLen data
  nonempty := fragments_ne_nil _ _
  count_le := (length_fragments _ _).trans_le hcount
  fits _ hf := (frame_fits_chunk hf).trans (show recvMaxLen ≤ fifoMaxLen by decide)

variable {hcount : data.length / packageMaxLen + 1 ≤ 65536}

theorem rebackMessage_fitsChunk : (rebackMessage data hcount).FitsChunk :=
  fun _ hf => frame_fits_chunk hf

theorem rebackMessage_delivered : (rebackMessage data hcount).delivered =
    ⟨clientMsgReback, rebackMipiCode, 0, data.length, data⟩ := by
  have hpayload : (rebackMessage data hcount).payload = data :=
    flatten_fragments packageMaxLen_pos data
  rw [Message.delivered, hpayload]
  rfl

/-- The bytes of the calls are those of the message. -/
theorem rebackBytes_eq (hdata : 0 < data.length) (sendFd : ℕ) :
    rebackBytes sendFd (clientRebackMipiCode data) = (rebackMessage data hcount).sent sendFd := by
  have hzip : (fragments packageMaxLen data).zipIdx =
      (List.range (data.length / packageMaxLen + 1)).map fun i =>
        (fragment packageMaxLen data i, i) := by
    apply List.ext_getElem
    · simp
    · intro i _ _
      simp [fragments]
  have hlast : (rebackMessage data hcount).lastNo =
      UInt16.ofNat (data.length / packageMaxLen) := by
    rw [Message.lastNo]
    simp [rebackMessage]
  rw [rebackBytes, clientRebackMipiCode_eq hdata, Message.sent, hlast]
  simp only [rebackMessage, hzip, List.flatMap_map, packet]

/-- A reply that needs no more fragments than can be counted is sent as its fragments, and handed
on by the receiver as one command with exactly its bytes, for every way `recv` cuts the stream. -/
theorem clientRebackMipiCode_spec (pMipiCode : List UInt8) (hdata : 0 < pMipiCode.length)
    (hcount : pMipiCode.length / packageMaxLen + 1 ≤ 65536) :
    Fragmented (clientRebackMipiCode pMipiCode) pMipiCode ∧
      ∀ (mem : Vector UInt8 fifoMaxLen) (sendFd : ℕ) (args : List (List UInt8)),
        args.flatten = rebackBytes sendFd (clientRebackMipiCode pMipiCode) →
        (∀ arg ∈ args, 1 ≤ arg.length ∧ arg.length ≤ recvMaxLen) →
        ∃ s css, serverRecv (initSocketCmdClass mem) args = some (s, css) ∧
          css.flatten = [⟨clientMsgReback, rebackMipiCode, 0, pMipiCode.length, pMipiCode⟩] := by
  refine ⟨clientRebackMipiCode_fragmented hdata hcount, ?_⟩
  intro mem sendFd args hstream hargs
  have hbytes : rebackBytes sendFd (clientRebackMipiCode pMipiCode) =
      (rebackMessage pMipiCode hcount).sent sendFd := rebackBytes_eq hdata sendFd
  rw [hbytes] at hstream
  obtain ⟨s, css, hrun, hout, -⟩ := serverRecv_messages mem sendFd [rebackMessage pMipiCode hcount]
    (by simpa using rebackMessage_fitsChunk) args (by simpa using hstream) hargs
  refine ⟨s, css, hrun, ?_⟩
  rw [hout, List.map_singleton, rebackMessage_delivered]

/-- A reply of two whole packets is sent in three fragments. -/
theorem clientRebackMipiCode_spec_whole :
    Fragmented (clientRebackMipiCode (List.replicate 3200 1)) (List.replicate 3200 1) := by
  have hlen : (List.replicate 3200 (1 : UInt8)).length = 3200 := List.length_replicate
  exact (clientRebackMipiCode_spec (List.replicate 3200 1) (by rw [hlen]; decide)
    (by rw [hlen]; decide)).1

end PanelTester.PackSocket
