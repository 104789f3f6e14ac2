import PanelTester.Uart.Stream

/-!
What a read costs while a frame is waiting. The bytes kept of an earlier read are
overwritten, and the first new byte is dropped, or the frame itself. Every frame a
receiver completes takes two pairs of flags from the stream, one behind its length field
and one at its end; `UartBuf.worth` counts the pairs that it has taken or that are still
to come, and no step adds to it. A stream of frames has exactly two pairs for each frame,
and of a frame that lost its first byte the first pair is no use, so that a disturbed run
returns too few payloads.
-/

namespace PanelTester.Uart

open Library UartBuf

/-- The pairs of flags a receiver holds or can still take, with the bytes `s` to come. A
pair opens the data of a frame only behind four bytes. -/
def UartBuf.worth (p : UartBuf) (s : List UInt8) : ℕ :=
  if p.uartdo then 2 + flagPairs 0x7e false (s.drop 4)
  else
    match p.uartstate with
    | .idle => flagPairs 0x7e false (s.drop 4)
    | .recvBegin => flagPairs 0x7e false (s.drop 3)
    | .recvLength => flagPairs 0x7e false (s.drop (2 - p.uartbytecnt))
    | .recvHead => flagPairs 0x7e (decide (p.uartbytecnt = 1)) s
    | .recvData => 1 + flagPairs 0x7e false s
    | .recvEnd => 1 + flagPairs 0x7e true s
    | .recvBusy => flagPairs 0x7e false s

variable {p q : UartBuf} {b : UInt8} {s : List UInt8}

theorem worth_congr (hdo : q.uartdo = p.uartdo) (hstate : q.uartstate = p.uartstate)
    (hcnt : q.uartbytecnt = p.uartbytecnt) (s : List UInt8) : q.worth s = p.worth s := by
  rw [worth, worth, hdo, hstate, hcnt]

theorem worth_of_done (hdo : p.uartdo = true) (s : List UInt8) :
    p.worth s = 2 + flagPairs 0x7e false (s.drop 4) := by
  rw [worth, hdo, if_pos rfl]

theorem worth_of_idle (hdo : p.uartdo = false) (hstate : p.uartstate = .idle) (s : List UInt8) :
    p.worth s = flagPairs 0x7e false (s.drop 4) := by
  rw [worth, hdo, hstate]
  rfl

/-- Nothing is worth less than a new start. -/
theorem worth_ge (p : UartBuf) (s : List UInt8) :
    flagPairs 0x7e false (s.drop 4) ≤ p.worth s := by
  have hdrop : ∀ h n, n ≤ 4 → flagPairs 0x7e false (s.drop 4) ≤ flagPairs 0x7e h (s.drop n) :=
    fun h n hn => flagPairs_drop_le _ h hn s
  rw [worth]
  split
  · omega
  · split
    · exact le_rfl
    · exact hdrop false 3 (by omega)
    · exact hdrop false _ (by omega)
    · exact hdrop _ 0 (by omega)
    · exact (hdrop false 0 (by omega)).trans (by simp)
    · exact (hdrop true 0 (by omega)).trans (by simp)
    · exact hdrop false 0 (by omega)

theorem worth_overflow (p : UartBuf) (s : List UInt8) : p.overflow.worth s ≤ p.worth s :=
  (worth_of_idle (p := p.overflow) rfl rfl s).trans_le (worth_ge p s)

theorem worth_reset (p : UartBuf) (s : List UInt8) :
    p.reset.worth s = flagPairs 0x7e false (s.drop 4) :=
  worth_of_idle rfl rfl s

theorem worth_recvIdle (hstate : q.uartstate = .idle) :
    (recvIdle b q).worth s ≤ q.worth (b :: s) := by
  have hdrop := flagPairs_drop_le (0x7e : UInt8) false (show 3 ≤ 4 by omega) s
  cases hdo : q.uartdo with
  | true =>
      rw [worth_of_done hdo, worth_of_done (by unfold recvIdle; split <;> exact hdo)]
      exact Nat.add_le_add_left hdrop 2
  | false =>
      rw [worth_of_idle hdo hstate]
      rw [recvIdle]
      split
      · simp [worth, hdo]
      · rw [worth_of_idle (p := q.clear) hdo hstate]
        exact hdrop

theorem worth_reject : (reject b q).worth s ≤ q.worth (b :: s) := by
  rw [reject]
  apply (worth_recvIdle (by rfl)).trans
  cases hdo : q.uartdo with
  | true => rw [worth_of_done (by exact hdo), worth_of_done hdo]
  | false =>
      rw [worth_of_idle (by exact hdo) (by rfl)]
      exact worth_ge q (b :: s)

@[simp] theorem recvIdle_uartdo : (recvIdle b q).uartdo = q.uartdo := by
  rw [recvIdle]
  split <;> rfl

@[simp] theorem reject_uartdo : (reject b q).uartdo = q.uartdo := recvIdle_uartdo

theorem recvCase_uartdo (hdo : q.uartdo = true) : (recvCase b q).uartdo = true := by
  rw [recvCase]
  split
  · simpa using hdo
  · split <;> simpa using hdo
  · split <;> exact hdo
  · split
    · split <;> exact hdo
    · simpa using hdo
  · split <;> exact hdo
  · split
    · rfl
    · simpa using hdo
  · exact hdo

/-- The switch adds nothing. -/
theorem worth_recvCase : (recvCase b q).worth s ≤ q.worth (b :: s) := by
  have htail : ∀ h, flagPairs (0x7e : UInt8) false s ≤ flagPairs 0x7e h (b :: s) :=
    fun h => flagPairs_tail_le _ h b s
  cases hdo : q.uartdo with
  | true =>
      rw [worth_of_done (recvCase_uartdo hdo), worth_of_done hdo]
      exact Nat.add_le_add_left (flagPairs_drop_le _ false (show 3 ≤ 4 by omega) s) 2
  | false =>
      rw [recvCase]
      split <;> rename_i hstate
      · exact worth_recvIdle hstate
      · split
        · simp [worth, hdo, hstate]
        · exact worth_reject
      · split <;> rename_i hcnt
        · simp [worth, hdo, hstate, show q.uartbytecnt = 1 by omega]
        · rcases Nat.eq_zero_or_pos q.uartbytecnt with hzero | hpos
          · simp [worth, hdo, hstate, hzero]
          · simpa [worth, hdo, hstate, show 2 - q.uartbytecnt = 0 by omega,
              show 2 - (q.uartbytecnt + 1) = 0 by omega] using htail false
      · split
        · subst b
          split <;> rename_i hcnt
          · have hmono := flagPairs_mono (0x7e : UInt8) true s
            simp [worth, hdo, hstate, show q.uartbytecnt = 1 by omega]
            omega
          · simpa [worth, hdo, hstate, show q.uartbytecnt ≠ 1 by omega] using
              (flagPairs_mono (0x7e : UInt8) _ s).2
        · exact worth_reject
      · split
        · subst b
          simp [worth, hdo, hstate]
        · simpa [worth, hdo, hstate] using htail false
      · split
        · subst b
          have hdrop := flagPairs_drop_le (0x7e : UInt8) true (show 0 ≤ 4 by omega) s
          simp [worth, hdo, hstate] at hdrop ⊢
          omega
        · exact worth_reject
      · simpa [worth, hdo, hstate] using htail false

/-- One byte of the loop adds nothing. -/
theorem worth_recvByte : (p.recvByte b).worth s ≤ p.worth (b :: s) := by
  rw [UartBuf.recvByte]
  split
  · calc (recvCase b (p.overflow.store b)).worth s
        ≤ (p.overflow.store b).worth (b :: s) := worth_recvCase
      _ = p.overflow.worth (b :: s) := worth_congr rfl rfl rfl _
      _ ≤ p.worth (b :: s) := worth_overflow p _
  · calc (recvCase b (p.store b)).worth s ≤ (p.store b).worth (b :: s) := worth_recvCase
      _ = p.worth (b :: s) := worth_congr rfl rfl rfl _

/-- The loop adds nothing, and keeps bytes only when a frame is whole. -/
theorem worth_uartRevDataProcess (buf : List UInt8) : ∀ p : UartBuf,
    (uartRevDataProcess buf p).worth ((uartRevDataProcess buf p).left ++ s) ≤
      p.worth (buf ++ s) ∧
    ((uartRevDataProcess buf p).left = [] ∨ (uartRevDataProcess buf p).uartdo = true) := by
  induction buf with
  | nil => exact fun p => ⟨(worth_congr rfl rfl rfl s).le, .inl List.take_zero⟩
  | cons b buf ih =>
      intro p
      have hbyte : (p.recvByte b).worth (buf ++ s) ≤ p.worth (b :: buf ++ s) := worth_recvByte
      have hlen : ({ p.recvByte b with uartleftdatalen := buf.length } : UartBuf).worth (buf ++ s) =
          (p.recvByte b).worth (buf ++ s) := worth_congr rfl rfl rfl _
      rw [uartRevDataProcess]
      split
      · rename_i hdo
        refine ⟨?_, .inr hdo⟩
        simp only [UartBuf.left, List.take_left]
        exact (worth_congr rfl rfl rfl _).trans_le hbyte
      · obtain ⟨hle, hleft⟩ := ih { p.recvByte b with uartleftdatalen := buf.length }
        exact ⟨(hle.trans_eq hlen).trans hbyte, hleft⟩

/-- Taking up what was kept adds nothing. -/
theorem worth_takeUp (p : UartBuf) (s : List UInt8) :
    (takeUp p).worth ((takeUp p).left ++ s) ≤ p.worth (p.left ++ s) ∧
      ((takeUp p).left = [] ∨ (takeUp p).uartdo = true) := by
  rw [takeUp]
  split
  · exact worth_uartRevDataProcess p.left p
  · refine ⟨le_rfl, .inl ?_⟩
    rw [UartBuf.left, show p.uartleftdatalen = 0 by omega, List.take_zero]

/-- Nor does a read, which loses what is kept. -/
theorem worth_takeIn (recv : Option (List UInt8)) (hleft : q.left = [] ∨ q.uartdo = true) :
    (takeIn recv q).worth ((takeIn recv q).left ++ s) ≤ q.worth (q.left ++ recv.getD [] ++ s) := by
  cases recv with
  | none => simp [takeIn]
  | some buf =>
      apply (worth_uartRevDataProcess buf q).1.trans
      rw [Option.getD_some]
      rcases hleft with hnil | hdo
      · rw [hnil, List.nil_append]
      · rw [worth_of_done hdo, worth_of_done hdo]
        have hdrop : (buf ++ s).drop 4 = (q.left ++ buf ++ s).drop (q.left.length + 4) := by
          rw [List.append_assoc, List.drop_length_add_append]
        rw [hdrop]
        exact Nat.add_le_add_left (flagPairs_drop_le _ false (by omega) _) 2

/-- A payload that is returned costs two pairs. -/
theorem worth_deliver {ret : ℤ} {out : List UInt8} {p' : UartBuf}
    (h : deliver q = some (ret, out, p')) :
    p'.worth (p'.left ++ s) + (if ret > 0 then 2 else 0) ≤ q.worth (q.left ++ s) := by
  rw [deliver] at h
  split at h
  · rename_i hdo
    obtain ⟨⟨ret', out'⟩, -, hsome⟩ := Option.bind_eq_some_iff.mp h
    obtain ⟨rfl, rfl, rfl⟩ : ret' = ret ∧ out' = out ∧ q.reset = p' := by simpa using hsome
    have hleft : q.reset.left = q.left := rfl
    rw [worth_of_done hdo, worth_reset, hleft]
    split <;> omega
  · obtain ⟨rfl, -, rfl⟩ : -1 = ret ∧ [] = out ∧ q = p' := by simpa using h
    simp

/-- A call adds nothing. -/
theorem worth_uartReadData {recv : Option (List UInt8)} {ret : ℤ} {out : List UInt8} {p' : UartBuf}
    (h : uartReadData recv p = some (ret, out, p')) :
    p'.worth (p'.left ++ s) + (if ret > 0 then 2 else 0) ≤
      p.worth (p.left ++ recv.getD [] ++ s) := by
  obtain ⟨htake, hleft⟩ := worth_takeUp p (recv.getD [] ++ s)
  rw [← List.append_assoc, ← List.append_assoc] at htake
  exact (worth_deliver h).trans ((worth_takeIn recv hleft).trans htake)

/-- The payloads of a run cost two pairs each. -/
theorem worth_readAll (calls : List (Option (List UInt8))) :
    ∀ {p p' : UartBuf} {outs : List (List UInt8)}, readAll p calls = some (outs, p') →
      2 * outs.length ≤ p.worth (p.left ++ bytesOf calls) := by
  induction calls with
  | nil =>
      intro p p' outs h
      obtain ⟨rfl, rfl⟩ : [] = outs ∧ p = p' := by simpa [readAll] using h
      simp
  | cons recv calls ih =>
      intro p p' outs h
      rw [readAll] at h
      obtain ⟨⟨ret, out, p₁⟩, hread, h⟩ := Option.bind_eq_some_iff.mp h
      obtain ⟨⟨outs₁, p₂⟩, hrest, h⟩ := Option.bind_eq_some_iff.mp h
      obtain ⟨rfl, rfl⟩ : (if ret > 0 then out.take ret.toNat :: outs₁ else outs₁) = outs ∧
          p₂ = p' := by simpa using h
      have hworth := worth_uartReadData (s := bytesOf calls) hread
      have hmore := ih hrest
      rw [bytesOf_cons, ← List.append_assoc]
      split at hworth
      · rename_i hret
        rw [if_pos hret, List.length_cons]
        omega
      · rename_i hret
        rw [if_neg hret]
        omega

/-! ### Disturbed runs -/

variable {ps : List (List UInt8)} {a x r buf : List UInt8} {calls : List (Option (List UInt8))}

/-- A stream of frames has two pairs for each frame. -/
theorem flagPairs_frames (hps : ∀ x ∈ ps, Sendable x) (h : Bool) :
    flagPairs 0x7e h (ps.flatMap datapack) = 2 * ps.length := by
  induction ps generalizing h with
  | nil => simp
  | cons x ps ih =>
      obtain ⟨hx, hps⟩ := List.forall_mem_cons.mp hps
      rw [List.flatMap_cons, flagPairs_datapack hx.2, ih hps, List.length_cons]
      omega

/-- A stream of frames that lost bytes at its front, the first one included. -/
theorem flagPairs_lost (hps : ∀ x ∈ ps, Sendable x)
    (hstream : r ++ b :: s = ps.flatMap datapack) :
    flagPairs 0x7e false (s.drop 4) + 1 ≤ 2 * ps.length := by
  cases ps with
  | nil => simp at hstream
  | cons x ps =>
      rw [List.flatMap_cons] at hstream
      have hdrop : s.drop 4 = (datapack x ++ ps.flatMap datapack).drop (r.length + 5) := by
        rw [← hstream, List.drop_length_add_append, List.drop_succ_cons]
      have hle := flagPairs_drop_le (0x7e : UInt8) false
        (show 5 ≤ r.length + 5 by omega) (datapack x ++ ps.flatMap datapack)
      rw [flagPairs_drop_datapack, flagPairs_frames fun y hy => hps y (List.mem_cons_of_mem x hy)]
        at hle
      rw [hdrop, List.length_cons]
      omega

/-- What a read leaves while a frame is waiting. -/
theorem worth_disturbed (hq : Holds (datapack x) (datapack x).length q)
    (hps : ∀ y ∈ ps, Sendable y)
    (hstream : r ++ b :: (buf ++ s) = ps.flatMap datapack) :
    (uartRevDataProcess (b :: buf) q).worth ((uartRevDataProcess (b :: buf) q).left ++ s) ≤
      2 * ps.length + 1 := by
  by_cases hfull : q.uartrecvcnt ≥ uartBufSize
  · -- the frame fills the buffer and is given up
    have hempty : ¬ q.overflow.uartrecvcnt ≥ uartBufSize :=
      Nat.not_le_of_lt (show 0 < uartBufSize by decide)
    have hbyte : q.recvByte b = q.overflow.recvByte b := by
      rw [UartBuf.recvByte, if_pos hfull, UartBuf.recvByte, if_neg hempty]
    have hprocess : uartRevDataProcess (b :: buf) q = uartRevDataProcess (b :: buf) q.overflow := by
      rw [uartRevDataProcess, uartRevDataProcess, hbyte]
    have hpairs := flagPairs_drop_le (0x7e : UInt8) false
      (show 0 ≤ r.length + 4 by omega) (r ++ b :: (buf ++ s))
    rw [List.drop_length_add_append, List.drop_zero, hstream, flagPairs_frames hps] at hpairs
    rw [hprocess]
    calc _ ≤ q.overflow.worth (b :: buf ++ s) := (worth_uartRevDataProcess (b :: buf) _).1
      _ = flagPairs 0x7e false ((b :: (buf ++ s)).drop 4) := worth_of_idle rfl rfl _
      _ ≤ 2 * ps.length + 1 := by omega
  · -- the first byte is dropped
    have hdo : q.uartdo = true := hq.uartdo.trans (decide_eq_true rfl)
    have hbyte : (q.recvByte b).uartdo = true := by
      rw [UartBuf.recvByte, if_neg hfull]
      exact recvCase_uartdo hdo
    have hlost := flagPairs_lost hps hstream
    rw [uartRevDataProcess]
    simp only [hbyte, if_true, UartBuf.left, List.take_left]
    rw [worth_of_done rfl]
    omega

/-- A run whose first call is disturbed returns too few payloads. -/
theorem Waits.readAll_lost {p' : UartBuf} {outs : List (List UInt8)}
    (h : Waits (x :: ps) (datapack x ++ r) p) (hx : Sendable x) (hps : ∀ y ∈ ps, Sendable y)
    (hstream : r ++ b :: (buf ++ bytesOf calls) = ps.flatMap datapack)
    (hread : readAll p (some (b :: buf) :: calls) = some (outs, p')) :
    outs.length < (x :: ps).length := by
  obtain ⟨hholds, -, -⟩ := h.takeUp_whole hx.2
  rw [readAll] at hread
  obtain ⟨⟨ret, out, p₁⟩, hcall, hread⟩ := Option.bind_eq_some_iff.mp hread
  obtain ⟨⟨outs₁, p₂⟩, hrest, hread⟩ := Option.bind_eq_some_iff.mp hread
  obtain ⟨rfl, rfl⟩ : (if ret > 0 then out.take ret.toNat :: outs₁ else outs₁) = outs ∧
      p₂ = p' := by simpa using hread
  have hworth := (worth_deliver (s := bytesOf calls) hcall).trans
    (worth_disturbed hholds hps hstream)
  have hmore := worth_readAll calls hrest
  rw [List.length_cons]
  split at hworth
  · rename_i hret
    rw [if_pos hret, List.length_cons]
    omega
  · rename_i hret
    rw [if_neg hret]
    omega

theorem undisturbed_nil (calls : List (Option (List UInt8))) :
    ∀ n, Undisturbed [] n calls := by
  induction calls with
  | nil => exact fun _ => trivial
  | cons recv calls ih => exact fun n => ih _

/-- A run that is disturbed somewhere returns too few payloads. -/
theorem Waits.readAll_disturbed {k : ℕ} (calls : List (Option (List UInt8))) :
    ∀ {ps : List (List UInt8)} {a : List UInt8} {p p' : UartBuf} {outs : List (List UInt8)},
      (∀ x ∈ ps, Sendable x) → Waits ps a p → a ++ bytesOf calls = ps.flatMap datapack →
      ¬ Undisturbed ps a.length calls → (∀ buf, some buf ∈ calls → buf ≠ []) →
      readAll p (calls ++ List.replicate k none) = some (outs, p') → outs.length < ps.length := by
  induction calls with
  | nil => exact fun _ _ _ hdist => absurd trivial hdist
  | cons recv calls ih =>
      intro ps a p p' outs hps h hstream hdist hcalls hread
      have hcalls' : ∀ buf, some buf ∈ calls → buf ≠ [] :=
        fun buf hbuf => hcalls buf (List.mem_cons_of_mem _ hbuf)
      cases ps with
      | nil => exact absurd (undisturbed_nil _ _) hdist
      | cons x ps =>
          obtain ⟨hx, hps'⟩ := List.forall_mem_cons.mp hps
          rw [bytesOf_cons, ← List.append_assoc, List.flatMap_cons] at hstream
          rw [List.cons_append] at hread
          by_cases hrecv : recv ≠ none → a.length < (datapack x).length
          · rw [Undisturbed, ← List.length_append] at hdist
            rcases h.call hx ⟨bytesOf calls, hstream⟩ hrecv with
              ⟨p₁, -, hlen, hcall, hwaits⟩ | ⟨rest, p₁, hwhole, hcall, hwaits⟩
            · rw [if_neg (by omega)] at hdist
              rw [readAll_cons_silent hcall] at hread
              exact ih hps hwaits (by rw [hstream, List.flatMap_cons])
                (fun hund => hdist ⟨hrecv, hund⟩) hcalls' hread
            · rw [hwhole] at hstream hdist
              rw [if_pos (by simp), List.length_append, Nat.add_sub_cancel_left] at hdist
              rw [List.append_assoc] at hstream
              rw [readAll_cons_payload hx.1 hcall] at hread
              obtain ⟨⟨outs₁, p₂⟩, hrest, hsome⟩ := Option.map_eq_some_iff.mp hread
              obtain ⟨rfl, rfl⟩ := Prod.mk.inj hsome
              have hless := ih hps' hwaits (List.append_cancel_left hstream)
                (fun hund => hdist ⟨hrecv, hund⟩) hcalls' hrest
              simpa using hless
          · obtain ⟨hsome, hle⟩ := Classical.not_imp.mp hrecv
            obtain ⟨buf, rfl⟩ := Option.ne_none_iff_exists'.mp hsome
            obtain ⟨b, buf, rfl⟩ :=
              List.exists_cons_of_ne_nil (hcalls buf List.mem_cons_self)
            obtain ⟨r, rfl⟩ : datapack x <+: a :=
              List.prefix_of_prefix_length_le (List.prefix_append _ _)
                ⟨_, by rw [← List.append_assoc]; exact hstream⟩ (Nat.le_of_not_lt hle)
            rw [Option.getD_some, List.append_assoc, List.append_assoc] at hstream
            refine h.readAll_lost hx hps' ?_ hread
            have hnone : bytesOf (calls ++ List.replicate k none) = bytesOf calls := by
              simp [bytesOf]
            rw [hnone]
            exact List.append_cancel_left hstream

/-- The frames of a list of payloads, read in any way, are all returned if and only if no
call reads while a whole frame is waiting. -/
theorem delivers_iff_undisturbed (ps : List (List UInt8)) (calls : List (Option (List UInt8)))
    (hps : ∀ x ∈ ps, Sendable x)
    (hcalls : ∀ buf, some buf ∈ calls → 1 ≤ buf.length ∧ buf.length ≤ maxBuffSize)
    (hstream : bytesOf calls = ps.flatMap datapack) :
    Delivers ps calls ↔ Undisturbed ps 0 calls := by
  have hcalls' : ∀ buf, some buf ∈ calls → buf ≠ [] :=
    fun buf hbuf => List.length_pos_iff.mp (hcalls buf hbuf).1
  constructor
  · rintro ⟨p, hread⟩
    by_contra hdist
    have hless := (waits_uartInitInfo ps).readAll_disturbed calls hps hstream hdist hcalls' hread
    exact absurd hless (lt_irrefl _)
  · intro hund
    exact (waits_uartInitInfo ps).readAll_undisturbed calls hps hstream hund hcalls' le_rfl

/-- Two frames in one read, and nothing read until both were returned. -/
theorem delivers_two_frames :
    Delivers [[1], [2]] [some (datapack [1] ++ datapack [2])] ↔
      Undisturbed [[1], [2]] 0 [some (datapack [1] ++ datapack [2])] :=
  delivers_iff_undisturbed _ _
    (by unfold Sendable; decide +kernel)
    (by
      intro buf hbuf
      obtain rfl := Option.some.inj (List.mem_singleton.mp hbuf)
      decide +kernel)
    (by decide +kernel)

/-- The second read comes while the second frame waits: its first byte is dropped, and the
third payload is never returned. -/
theorem not_delivers_third_frame :
    ¬ ∀ (ps : List (List UInt8)) (calls : List (Option (List UInt8))), (∀ x ∈ ps, Sendable x) →
      (∀ buf, some buf ∈ calls → 1 ≤ buf.length ∧ buf.length ≤ maxBuffSize) →
      bytesOf calls = ps.flatMap datapack → Delivers ps calls := by
  intro h
  obtain ⟨p, hread⟩ := h [[1], [2], [3]]
    [some (datapack [1] ++ datapack [2]), some (datapack [3])]
    (by unfold Sendable; decide +kernel)
    (by
      intro buf hbuf
      rcases List.mem_cons.mp hbuf with hbuf | hbuf
      · obtain rfl := Option.some.inj hbuf
        decide +kernel
      · obtain rfl := Option.some.inj (List.mem_singleton.mp hbuf)
        decide +kernel)
    (by decide +kernel)
  have hrun : ((readAll uartInitInfo
      ([some (datapack [1] ++ datapack [2]), some (datapack [3])] ++
        List.replicate 3 none)).map Prod.fst) = some [[1], [2]] := by
    decide +kernel
  have hthree := congrArg (Option.map Prod.fst) hread
  rw [show ([[1], [2], [3]] : List (List UInt8)).length = 3 from rfl, hrun] at hthree
  simp at hthree

end PanelTester.Uart
