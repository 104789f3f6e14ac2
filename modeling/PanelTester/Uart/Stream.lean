import PanelTester.Uart.Receiver

/-!
Repeated calls of `uartReadData` on a stream of frames. Each call finds what earlier
reads brought, and may read more. `Undisturbed` says of the frames and the reads that no
call reads while a whole frame is still waiting; `readAll_undisturbed` that every payload
is then returned, once and in order.
-/

namespace PanelTester.Uart

open Library UartBuf

/-- The payloads that a sequence of calls returns; a call that returns no positive number
returns none. -/
def readAll : UartBuf → List (Option (List UInt8)) → Option (List (List UInt8) × UartBuf)
  | p, [] => some ([], p)
  | p, recv :: calls => do
      let (ret, out, p) ← uartReadData recv p
      let (outs, p) ← readAll p calls
      some (if ret > 0 then out.take ret.toNat :: outs else outs, p)

/-- What the calls read. -/
def bytesOf (calls : List (Option (List UInt8))) : List UInt8 :=
  calls.flatMap fun recv => recv.getD []

/-- Every payload is returned once and in order, if calls that read nothing follow. -/
def Delivers (ps : List (List UInt8)) (calls : List (Option (List UInt8))) : Prop :=
  ∃ p, readAll uartInitInfo (calls ++ List.replicate ps.length none) = some (ps, p)

/-- No call reads while a whole frame is waiting, where `n` bytes that came before the
calls belong to the frames of `ps`. -/
def Undisturbed : List (List UInt8) → ℕ → List (Option (List UInt8)) → Prop
  | _, _, [] => True
  | [], n, recv :: calls => Undisturbed [] (n + (recv.getD []).length) calls
  | x :: ps, n, recv :: calls =>
      (recv ≠ none → n < (datapack x).length) ∧
        if (datapack x).length ≤ n + (recv.getD []).length then
          Undisturbed ps (n + (recv.getD []).length - (datapack x).length) calls
        else Undisturbed (x :: ps) (n + (recv.getD []).length) calls

/-- A payload whose frame fits `uartcatch`. -/
def Sendable (x : List UInt8) : Prop := x ≠ [] ∧ (datapack x).length ≤ uartBufSize

variable {ps : List (List UInt8)} {a x : List UInt8} {p : UartBuf} {recv : Option (List UInt8)}
  {calls : List (Option (List UInt8))}

theorem readAll_cons_silent {p' : UartBuf} (h : uartReadData recv p = some (-1, [], p')) :
    readAll p (recv :: calls) = readAll p' calls := by
  rw [readAll, h]
  cases hrest : readAll p' calls with
  | none => simp [hrest]
  | some r => simp [hrest]

theorem readAll_cons_payload {p' : UartBuf} (hx : x ≠ [])
    (h : uartReadData recv p = some ((x.length : ℤ), x ++ bytesLE32 (fcs x), p')) :
    readAll p (recv :: calls) = (readAll p' calls).map fun r => (x :: r.1, r.2) := by
  rw [readAll, h]
  cases hrest : readAll p' calls with
  | none => simp [hrest]
  | some r => simp [hrest, hx]

/-- What the next call does when no frame is disturbed by it: it leaves part of the next
frame waiting, or returns its payload. -/
theorem Waits.call (h : Waits (x :: ps) a p) (hx : Sendable x)
    (hstream : a ++ recv.getD [] <+: datapack x ++ ps.flatMap datapack)
    (hrecv : recv ≠ none → a.length < (datapack x).length) :
    (∃ p', a ++ recv.getD [] <+: datapack x ∧
      (a ++ recv.getD []).length < (datapack x).length ∧
      uartReadData recv p = some (-1, [], p') ∧ Waits (x :: ps) (a ++ recv.getD []) p') ∨
    ∃ rest p', a ++ recv.getD [] = datapack x ++ rest ∧
      uartReadData recv p = some ((x.length : ℤ), x ++ bytesLE32 (fcs x), p') ∧
      Waits ps rest p' := by
  by_cases hlen : (a ++ recv.getD []).length < (datapack x).length
  · have hpart : a ++ recv.getD [] <+: datapack x :=
      List.prefix_of_prefix_length_le hstream (List.prefix_append _ _) hlen.le
    obtain ⟨p', hread, hwaits⟩ := h.read_part hx.2 hpart hlen
    exact .inl ⟨p', hpart, hlen, hread, hwaits⟩
  · obtain ⟨rest, hrest⟩ := List.prefix_of_prefix_length_le (List.prefix_append _ _) hstream
      (Nat.le_of_not_lt hlen)
    obtain ⟨p', hread, hwaits⟩ := h.read_whole hx.2 hrest.symm hrecv
    exact .inr ⟨rest, p', hrest.symm, hread, hwaits⟩

/-- Calls that read nothing return the payloads of all frames that are waiting. -/
theorem Waits.readAll_none (hps : ∀ x ∈ ps, Sendable x) :
    ∀ {p : UartBuf}, Waits ps (ps.flatMap datapack) p → ∀ {k : ℕ}, ps.length ≤ k →
      ∃ p', readAll p (List.replicate k none) = some (ps, p') := by
  induction ps with
  | nil =>
      intro p h k _
      induction k with
      | zero => exact ⟨p, rfl⟩
      | succ k ih =>
          rw [List.replicate_succ, readAll_cons_silent h.read_nothing]
          exact ih (Nat.zero_le k)
  | cons x ps ih =>
      intro p h k hk
      obtain ⟨hx, hps⟩ := List.forall_mem_cons.mp hps
      obtain ⟨k, rfl⟩ := Nat.exists_eq_add_of_le' (Nat.one_le_of_lt hk)
      have hstream : (x :: ps).flatMap datapack ++ (none : Option (List UInt8)).getD [] =
          datapack x ++ ps.flatMap datapack := by
        simp
      obtain ⟨p', hread, hwaits⟩ := h.read_whole hx.2 hstream (by simp)
      obtain ⟨q, hrest⟩ := ih hps hwaits (k := k) (by rw [List.length_cons] at hk; omega)
      rw [List.replicate_succ, readAll_cons_payload hx.1 hread, hrest]
      exact ⟨q, rfl⟩

/-- What the next call leaves of the stream. -/
theorem bytesOf_cons (recv : Option (List UInt8)) (calls : List (Option (List UInt8))) :
    bytesOf (recv :: calls) = recv.getD [] ++ bytesOf calls := List.flatMap_cons

/-- Undisturbed calls return every payload. -/
theorem Waits.readAll_undisturbed {k : ℕ} (calls : List (Option (List UInt8))) :
    ∀ {ps : List (List UInt8)} {a : List UInt8} {p : UartBuf}, (∀ x ∈ ps, Sendable x) →
      Waits ps a p → a ++ bytesOf calls = ps.flatMap datapack → Undisturbed ps a.length calls →
      (∀ buf, some buf ∈ calls → buf ≠ []) → ps.length ≤ k →
      ∃ p', readAll p (calls ++ List.replicate k none) = some (ps, p') := by
  induction calls with
  | nil =>
      intro ps a p hps h hstream _ _ hk
      rw [bytesOf, List.flatMap_nil, List.append_nil] at hstream
      subst hstream
      exact h.readAll_none hps hk
  | cons recv calls ih =>
      intro ps a p hps h hstream hund hcalls hk
      have hcalls' : ∀ buf, some buf ∈ calls → buf ≠ [] :=
        fun buf hbuf => hcalls buf (List.mem_cons_of_mem _ hbuf)
      rw [bytesOf_cons, ← List.append_assoc] at hstream
      cases ps with
      | nil =>
          -- nothing is left to read
          have hnil := List.append_eq_nil_iff.mp hstream
          obtain ⟨rfl, hrecv⟩ := List.append_eq_nil_iff.mp hnil.1
          obtain rfl : recv = none := by
            cases recv with
            | none => rfl
            | some buf => exact absurd hrecv (hcalls buf List.mem_cons_self)
          rw [List.cons_append, readAll_cons_silent h.read_nothing]
          exact ih hps h (by simpa using hnil.2) hund hcalls' hk
      | cons x ps =>
          obtain ⟨hx, hps'⟩ := List.forall_mem_cons.mp hps
          obtain ⟨hrecv, hrest⟩ := hund
          rw [List.flatMap_cons] at hstream
          rw [← List.length_append] at hrest
          rcases h.call hx ⟨bytesOf calls, hstream⟩ hrecv with
            ⟨p', -, hlen, hread, hwaits⟩ | ⟨rest, p', hwhole, hread, hwaits⟩
          · rw [if_neg (by omega)] at hrest
            rw [List.cons_append, readAll_cons_silent hread]
            exact ih hps hwaits (by rw [hstream, List.flatMap_cons]) hrest hcalls' hk
          · rw [hwhole] at hstream hrest
            rw [if_pos (by simp), List.length_append, Nat.add_sub_cancel_left] at hrest
            rw [List.append_assoc] at hstream
            obtain ⟨q, hmore⟩ := ih hps' hwaits (List.append_cancel_left hstream) hrest hcalls'
              (by rw [List.length_cons] at hk; omega)
            rw [List.cons_append, readAll_cons_payload hx.1 hread, hmore]
            exact ⟨q, rfl⟩

theorem waits_uartInitInfo (ps : List (List UInt8)) : Waits ps [] uartInitInfo :=
  .kept fresh_uartInitInfo rfl List.take_zero

end PanelTester.Uart
