import PanelTester.Mipi.Record
import Mathlib.Data.List.GetD

/-!
What the compiler makes of lines. `compileKind_spec` compares what one line is compiled to
with what it stands for by its own tokens: a complete record with that meaning, if all its
numbers fit their fields and it takes no mark that an earlier line left; nothing; or, where the
line is to be rejected, some bytes all the same. Over a list of lines, `codeByte` then moves at
least as far as the records that the lines stand for are long, and further if a line was to be
rejected (`compileAll_size`); if none was, the bytes are the records, one after the other
(`compileAll_records`).
-/

namespace PanelTester.Mipi

open Library

/-! ### What a compiled line stands for -/

theorem byte_toNat (z : ℤ) : ((byte z).toNat : ℤ) = z % 256 := by
  rw [byte, UInt8.ofInt, UInt8.toNat_ofNat']
  omega

theorem byte_natCast (n : ℕ) : byte n = UInt8.ofNat n := by
  apply UInt8.toNat_inj.mp
  rw [byte, UInt8.ofInt, UInt8.toNat_ofNat', UInt8.toNat_ofNat']
  omega

/-- A byte holds exactly the numbers that fit. -/
theorem byteOperand_byte_iff (z : ℤ) :
    byteOperand (byte z).toNat = byteOperand z ↔ (byteOperand z).Fits := by
  rw [byteOperand, byteOperand, Operand.mk.injEq, byte_toNat, Operand.Fits]
  simp only [true_and]
  omega

/-- So do two bytes. -/
theorem wordOperand_iff (z : ℤ) :
    (⟨2, (byte z).toNat + (byte (z >>> (8 : ℕ))).toNat * 256⟩ : Operand) = ⟨2, z⟩ ↔
      (⟨2, z⟩ : Operand).Fits := by
  rw [Operand.mk.injEq, byte_toNat, byte_toNat, Operand.Fits, Int.shiftRight_eq_div_pow]
  simp only [true_and]
  omega

theorem map_byteOperand_iff (l : List ℤ) :
    (l.map fun z => byteOperand (byte z).toNat) = l.map byteOperand ↔
      ∀ o ∈ l.map byteOperand, o.Fits := by
  induction l with
  | nil => simp
  | cons z l ih =>
      rw [List.map_cons, List.map_cons, List.cons.injEq, byteOperand_byte_iff, ih,
        List.forall_mem_cons]

/-- A record compiled from a line that stands for `m`, and takes all of it from its own tokens
where `own` holds. -/
structure Record.CompiledFrom (r : Record) (m : Meaning) (own : Prop) : Prop where
  complete : r.Complete
  count : r.params.length = m.count
  meaning : r.meaning = m ↔ m.Fits ∧ own

/-- What the compiler makes of a line that is to stand for `o`. -/
def Compiled (out : List UInt8 × ℕ) (own : Prop) : Option (Option Meaning) → Prop
  | none => 0 < out.2
  | some none => out = ([], 0)
  | some (some m) => ∃ r : Record, out = (r.encode, r.encode.length) ∧ r.CompiledFrom m own

/-- A line whose mark is its own: only a `dcsread` line without one takes what an earlier line
left behind its tokens. -/
def OwnMark (kind : LineKind) (third : Str) (args : List Str) : Prop :=
  match kind, args with
  | .dcsread, [_, len] => byte (strtol len 16) = 0 ∨ answerMark third = none
  | _, _ => True

instance (kind : LineKind) (third : Str) (args : List Str) : Decidable (OwnMark kind third args) :=
  match kind, args with
  | .dcsread, [_, _] => inferInstanceAs (Decidable (_ ∨ _))
  | .dcsread, [] | .dcsread, [_] | .dcsread, _ :: _ :: _ :: _ => isTrue trivial
  | .channel, _ | .chiptype, _ | .read2828, _ | .write2828, _ | .vcomIli9881, _
  | .otpIli9881, _ | .otpCheck, _ | .hs, _ | .mtp, _ | .reset, _ | .rgb, _ | .delay, _
  | .genread, _ | .direct _, _ | .r, _ => isTrue trivial

/-- The entries of `dst` that the tokens of the line fill, from some position on. -/
theorem map_range_entry {α : Type} (f : Str → α) (front ps d : List Str) :
    ((List.range ps.length).map fun i => f (entry (front ++ (ps ++ d)) (i + front.length))) =
      ps.map f := by
  apply List.ext_getElem (by simp)
  intro i hi hi'
  rw [List.length_map] at hi'
  simp only [List.getElem_map, List.getElem_range, entry]
  rw [List.getD_append_right _ _ _ _ (by omega), Nat.add_sub_cancel,
    List.getD_append _ _ _ _ hi', List.getD_eq_getElem _ _ hi']

theorem meaning_ext {op : UInt8} {reg reg' : ℤ} {n : ℕ} {os os' : List Operand} :
    (⟨op, reg, n, os⟩ : Meaning) = ⟨op, reg', n, os'⟩ ↔
      byteOperand reg = byteOperand reg' ∧ os = os' := by
  simp [byteOperand]

/-- The records whose register is not a number of the line. -/
theorem compiled_control (reg : UInt8) (params : List UInt8) {os : List Operand}
    (hfits : params.length ≤ 250) (hneeded : neededParams 0x00 reg ≤ params.length)
    (hos : (⟨0x00, reg, params, hfits⟩ : Record).operands = os ↔ ∀ o ∈ os, o.Fits) :
    Compiled (0x00 :: reg :: UInt8.ofNat params.length :: params, params.length + 3) True
      (some (some ⟨0x00, reg.toNat, params.length, os⟩)) := by
  refine ⟨⟨0x00, reg, params, hfits⟩, rfl, ⟨hneeded, by simp, by simp⟩, rfl, ?_⟩
  have hreg : (⟨1, (reg.toNat : ℤ)⟩ : Operand).Fits := by
    have hlt := reg.toNat_lt
    simp only [Operand.Fits]
    omega
  rw [Record.meaning, meaning_ext, Meaning.Fits, hos, and_true]
  exact ⟨fun h => ⟨hreg, h.2⟩, fun h => ⟨rfl, h.2⟩⟩

/-- The records of writes. -/
theorem compiled_write (op : UInt8) (reg : ℤ) (os : List ℤ) (hlen : os.length < 250)
    (hop : op = 0x05 ∨ op = 0x29 ∨ op = 0x39 ∨ op = 0x15 ∨ op = 0x23)
    (hneeded : op = 0x15 ∨ op = 0x23 → os ≠ []) :
    Compiled (op :: byte reg :: UInt8.ofNat os.length :: os.map byte, os.length + 3) True
      (some (some ⟨op, reg, os.length, os.map byteOperand⟩)) := by
  have hfits : (os.map byte).length ≤ 250 := by rw [List.length_map]; exact hlen.le
  have hop0 : op ≠ 0x00 ∧ op ≠ 0x06 ∧ op ≠ 0x14 := by
    rcases hop with rfl | rfl | rfl | rfl | rfl <;> decide
  refine ⟨⟨op, byte reg, os.map byte, hfits⟩, ?_, ⟨?_, ?_, ?_⟩, List.length_map _, ?_⟩
  · simp [Record.encode]
  · rcases hop with rfl | rfl | rfl | rfl | rfl <;> simp [neededParams]
    · exact List.length_pos_iff.mpr (hneeded (by simp))
    · exact List.length_pos_iff.mpr (hneeded (by simp))
  · simp [hop0]
  · simpa using fun _ => hlen
  · have hoperands : (⟨op, byte reg, os.map byte, hfits⟩ : Record).operands =
        os.map fun z => byteOperand (byte z).toNat := by
      simp [Record.operands, hop0, Function.comp_def]
    rw [Record.meaning, hoperands, List.length_map, meaning_ext, byteOperand_byte_iff,
      map_byteOperand_iff, and_true]
    rfl

theorem length_answerBytes (mark : Option UInt8) (n : ℕ) : (answerBytes mark n).length = n := by
  cases n <;> simp [answerBytes]

/-- The records of reads, with the operands behind the number of bytes. -/
theorem compiled_read {op : UInt8} {reg len : ℤ} {mark : Option UInt8} {os : List Operand}
    {own : Prop} (hop : op = 0x06 ∨ op = 0x14) (hlen : (byte len).toNat ≤ 249)
    (hfit : ∀ o ∈ os, o.Fits)
    (hos : ((answerBytes mark (byte len).toNat).take (if op = 0x06 then 1 else 0)).map
      (fun b => byteOperand b.toNat) = os ↔ own) :
    Compiled ([op, byte reg, 1 + byte len, byte len] ++ answerBytes mark (byte len).toNat,
        4 + (byte len).toNat) own
      (some (some ⟨op, reg, (byte len).toNat + 1, byteOperand len :: os⟩)) := by
  have hfits : (byte len :: answerBytes mark (byte len).toNat).length ≤ 250 := by
    rw [List.length_cons, length_answerBytes]
    omega
  have hone : 1 + byte len = UInt8.ofNat ((byte len).toNat + 1) := by
    rw [Nat.add_comm, UInt8.ofNat_add, UInt8.ofNat_toNat]
    rfl
  refine ⟨⟨op, byte reg, byte len :: answerBytes mark (byte len).toNat, hfits⟩, ?_,
    ⟨?_, ?_, ?_⟩, ?_, ?_⟩
  · simp only [Record.encode, List.length_cons, length_answerBytes, hone, List.cons_append,
      List.nil_append, Prod.mk.injEq, true_and]
    omega
  · rcases hop with rfl | rfl <;> simp [neededParams]
  · intro _
    simp [length_answerBytes]
  · rcases hop with rfl | rfl <;> simp
  · simp [length_answerBytes]
  · have hoperands : (⟨op, byte reg, byte len :: answerBytes mark (byte len).toNat, hfits⟩ :
        Record).operands = byteOperand (byte len).toNat ::
          ((answerBytes mark (byte len).toNat).take (if op = 0x06 then 1 else 0)).map
            fun b => byteOperand b.toNat := by
      rcases hop with rfl | rfl <;> simp [Record.operands]
    rw [Record.meaning, hoperands, List.length_cons, length_answerBytes, meaning_ext,
      byteOperand_byte_iff, List.cons.injEq, byteOperand_byte_iff, hos, Meaning.Fits,
      List.forall_mem_cons, and_iff_left hfit, ← and_assoc]
    rfl

/-- A read whose answer has no room in a record is to be rejected. -/
theorem compiled_readMeaning {op : UInt8} {reg len : Str} {mark : Option UInt8}
    {os : List Operand} {own : Prop} (hop : op = 0x06 ∨ op = 0x14) (hfit : ∀ o ∈ os, o.Fits)
    (hos : ((answerBytes mark (byte (strtol len 16)).toNat).take (if op = 0x06 then 1 else 0)).map
      (fun b => byteOperand b.toNat) = os ↔ own) :
    Compiled ([op, byte (strtol reg 16), 1 + byte (strtol len 16), byte (strtol len 16)] ++
        answerBytes mark (byte (strtol len 16)).toNat, 4 + (byte (strtol len 16)).toNat) own
      (readMeaning op reg len os) := by
  rw [readMeaning]
  split
  · next hlen => exact compiled_read hop hlen hfit hos
  · exact Nat.lt_add_right _ (Nat.succ_pos 3)

/-- The mark that is compiled is the line's own when both tokens have the same. -/
theorem markOperand_iff (len mark mark' : Str) :
    ((answerBytes (answerMark mark') (byte (strtol len 16)).toNat).take 1).map
        (fun b => byteOperand b.toNat) = markOperand len mark ↔
      byte (strtol len 16) = 0 ∨ (answerMark mark').getD 0 = (answerMark mark).getD 0 := by
  rw [markOperand]
  split_ifs with hzero
  · rw [hzero]
    exact iff_of_true rfl (.inl rfl)
  · obtain ⟨n, hn⟩ := Nat.exists_eq_succ_of_ne_zero
      (fun h => hzero (UInt8.toNat_inj.mp h) : (byte (strtol len 16)).toNat ≠ 0)
    rw [hn, answerBytes, List.take_succ_cons, List.take_zero, List.map_singleton, List.cons.injEq,
      and_iff_left rfl, or_iff_right hzero, byteOperand, byteOperand, Operand.mk.injEq,
      and_iff_right rfl, Nat.cast_inj, UInt8.toNat_inj]

theorem fits_markOperand (len mark : Str) : ∀ o ∈ markOperand len mark, o.Fits := by
  intro o ho
  rw [markOperand] at ho
  split_ifs at ho
  · exact absurd ho List.not_mem_nil
  · obtain rfl := List.mem_singleton.mp ho
    have hlt := ((answerMark mark).getD 0).toNat_lt
    simp only [byteOperand, Operand.Fits]
    omega

/-- No mark is the byte of none. -/
theorem answerMark_getD_eq_zero {s : Str} : (answerMark s).getD 0 = 0 ↔ answerMark s = none := by
  rw [answerMark]
  split_ifs
  · decide
  · decide
  · exact iff_of_true rfl rfl

theorem ite_eq_direct {c : Prop} [Decidable c] {k k' : LineKind} {op : UInt8}
    (h : (if c then k else k') = .direct op) : k = .direct op ∨ k' = .direct op := by
  split at h
  · exact .inl h
  · exact .inr h

/-- The comparisons with two digits. -/
theorem lineKind_direct {first : Str} {op : UInt8} (h : lineKind first = .direct op) :
    op = 0x05 ∨ op = 0x29 ∨ op = 0x39 ∨ op = 0x15 ∨ op = 0x23 := by
  rw [lineKind] at h
  iterate 14
    replace h := (ite_eq_direct h).resolve_left (by simp only [reduceCtorEq, not_false_eq_true])
  rcases ite_eq_direct h with h | h
  · exact .inl (LineKind.direct.inj h).symm
  rcases ite_eq_direct h with h | h
  · exact .inr (.inl (LineKind.direct.inj h).symm)
  rcases ite_eq_direct h with h | h
  · exact .inr (.inr (.inl (LineKind.direct.inj h).symm))
  rcases ite_eq_direct h with h | h
  · exact .inr (.inr (.inr (.inl (LineKind.direct.inj h).symm)))
  rcases ite_eq_direct h with h | h
  · exact .inr (.inr (.inr (.inr (LineKind.direct.inj h).symm)))
  · exact absurd h (by simp only [reduceCtorEq, not_false_eq_true])

/-- A record without parameters. -/
theorem compiled_bare {reg : UInt8} (hneeded : neededParams 0x00 reg = 0)
    (hops : (⟨0x00, reg, [], by simp⟩ : Record).operands = []) :
    Compiled ([0x00, reg, 0], 3) True (some (some ⟨0x00, reg.toNat, 0, []⟩)) :=
  compiled_control reg [] (by simp) (by simp [hneeded]) (by simp [hops])

/-- The lines of `hs` and `mtp`. -/
theorem compiled_switch {word : String} {on off : UInt8} {first : Str} {args d : List Str}
    (hon : Compiled ([0x00, on, 0], 3) True (some (some ⟨0x00, on.toNat, 0, []⟩)))
    (hoff : Compiled ([0x00, off, 0], 3) True (some (some ⟨0x00, off.toNat, 0, []⟩))) :
    Compiled
      (if args.length + 1 = 3 ∧ startsWith word (entry (first :: (args ++ d)) 1) then
        if startsWith "on" (entry (first :: (args ++ d)) 2) then ([0x00, on, 0], 3)
        else if startsWith "off" (entry (first :: (args ++ d)) 2) then ([0x00, off, 0], 3)
        else ([], 0)
      else ([], 0)) True
      (some (switchMeaning word on off args)) := by
  match args with
  | [] => simp [switchMeaning, Compiled]
  | [a] => simp [switchMeaning, Compiled]
  | a :: b :: c :: args => simp [switchMeaning, Compiled]
  | [a, b] =>
      have hentries : entry (first :: ([a, b] ++ d)) 1 = a ∧ entry (first :: ([a, b] ++ d)) 2 = b :=
        ⟨rfl, rfl⟩
      rw [hentries.1, hentries.2, switchMeaning]
      by_cases hword : startsWith word a
      · rw [if_pos ⟨rfl, hword⟩, if_pos hword]
        split
        · exact hon
        · split
          · exact hoff
          · exact rfl
      · rw [if_neg fun h => hword h.2, if_neg hword]
        exact rfl

/-- The lines that begin with an opcode: the parameters are the tokens behind the register. -/
theorem compiled_direct {op : UInt8} (hop : op = 0x05 ∨ op = 0x29 ∨ op = 0x39 ∨ op = 0x15 ∨
      op = 0x23) (first : Str) {args : List Str} (d : List Str) (hlen : args.length < 250) :
    Compiled (compileKind (.direct op) (first :: (args ++ d)) (args.length + 1)) True
      (kindMeaning (.direct op) first args) := by
  cases args with
  | nil => exact Nat.succ_pos 1
  | cons reg ps =>
      have hparams := map_range_entry (fun t => byte (strtol t 16)) [first, reg] ps d
      have hcount : ((reg :: ps).length + 1 : ℕ) - (2 : ℤ) = (ps.length : ℕ) := by
        rw [List.length_cons]
        omega
      show Compiled (op :: byte (strtol reg 16) :: byte (((reg :: ps).length + 1 : ℕ) - 2) ::
        (List.range ps.length).map (fun i => byte (strtol
          (entry ([first, reg] ++ (ps ++ d)) (i + [first, reg].length)) 16)),
        3 + ps.length) True (if (op = 0x15 ∨ op = 0x23) ∧ ps = [] then none else _)
      rw [hparams, hcount, byte_natCast, Nat.add_comm]
      split
      · exact Nat.lt_add_left _ (Nat.succ_pos 2)
      · rename_i hneeded
        have hwrite := compiled_write op (strtol reg 16) (ps.map fun t => strtol t 16)
          (by rw [List.length_map]; rw [List.length_cons] at hlen; omega) hop
          (fun h hnil => hneeded ⟨h, List.map_eq_nil_iff.mp hnil⟩)
        simpa only [List.map_map, List.length_map, Function.comp_def] using hwrite

/-- The lines that begin with `r`: the register is in the first token, behind its letter. -/
theorem compiled_register (first : Str) {args : List Str} (d : List Str)
    (hlen : args.length < 250) :
    Compiled (compileKind .r (first :: (args ++ d)) (args.length + 1)) True
      (kindMeaning .r first args) := by
  have hparams := map_range_entry (fun t => byte (strtol t 16)) [first] args d
  have hcount : (args.length + 1 : ℕ) - (1 : ℤ) = (args.length : ℕ) := by omega
  show Compiled ((if args.length + 1 = 1 then 0x05 else 0x39) :: byte (strtol first.tail 16) ::
    byte ((args.length + 1 : ℕ) - 1) ::
    (List.range args.length).map (fun i => byte (strtol
      (entry ([first] ++ (args ++ d)) (i + [first].length)) 16)),
    3 + args.length) True (some (some ⟨if args = [] then 0x05 else 0x39, _, _, _⟩))
  rw [hparams, hcount, byte_natCast, Nat.add_comm 3]
  cases args with
  | nil => exact compiled_write 0x05 (strtol first.tail 16) [] (by simp) (by simp) (by simp)
  | cons p ps =>
      have hwrite := compiled_write 0x39 (strtol first.tail 16)
        ((p :: ps).map fun t => strtol t 16) (by rwa [List.length_map]) (by simp) (by simp)
      rw [if_neg (by simp), if_neg (List.cons_ne_nil p ps)]
      simpa only [List.map_map, List.length_map, Function.comp_def] using hwrite

/-- What a line is compiled to, against what it stands for by its own tokens. -/
theorem compileKind_spec {kind : LineKind} (first : Str) {args : List Str} (d : List Str)
    {third : Str} (hthird : args.length = 2 → entry d 0 = third) (hlen : args.length < 250)
    (hdirect : ∀ op, kind = .direct op → op = 0x05 ∨ op = 0x29 ∨ op = 0x39 ∨
      op = 0x15 ∨ op = 0x23) :
    Compiled (compileKind kind (first :: (args ++ d)) (args.length + 1)) (OwnMark kind third args)
      (kindMeaning kind first args) := by
  cases kind with
  | channel =>
      cases args with
      | nil => exact Nat.succ_pos 3
      | cons a args =>
          exact compiled_control 0xFE [byte (strtol a 0)] (by simp) (by simp [neededParams])
            (by simpa [Record.operands] using map_byteOperand_iff [strtol a 0])
  | chiptype => exact rfl
  | read2828 =>
      cases args with
      | nil => exact Nat.succ_pos 5
      | cons a args =>
          exact compiled_control 0xFD [byte (strtol a 16), 0, 0] (by simp) (by simp [neededParams])
            (by simpa [Record.operands] using map_byteOperand_iff [strtol a 16])
  | write2828 =>
      match args with
      | [] => exact Nat.succ_pos 5
      | [_] => exact Nat.succ_pos 5
      | a :: b :: args =>
          refine compiled_control 0xFC [byte (strtol a 16), byte (strtol b 16 >>> (8 : ℕ)),
            byte (strtol b 16)] (by simp) (by simp [neededParams]) ?_
          have hword := wordOperand_iff (strtol b 16)
          simp [Record.operands, byteOperand_byte_iff, ← hword, add_comm]
  | vcomIli9881 => exact compiled_bare rfl rfl
  | otpIli9881 => exact compiled_bare rfl rfl
  | otpCheck => exact compiled_bare rfl rfl
  | hs => exact compiled_switch (compiled_bare rfl rfl) (compiled_bare rfl rfl)
  | mtp => exact compiled_switch (compiled_bare rfl rfl) (compiled_bare rfl rfl)
  | reset => exact compiled_bare rfl rfl
  | rgb =>
      match args with
      | [] => exact Nat.succ_pos 5
      | [_] => exact Nat.succ_pos 5
      | [_, _] => exact Nat.succ_pos 5
      | r :: g :: b :: args =>
          exact compiled_control 0xF6 [byte (strtol r 10), byte (strtol g 10), byte (strtol b 10)]
            (by simp) (by simp [neededParams])
            (by simpa [Record.operands] using
              map_byteOperand_iff [strtol r 10, strtol g 10, strtol b 10])
  | delay =>
      cases args with
      | nil => exact Nat.succ_pos 4
      | cons a args =>
          exact compiled_control 0x00 [byte (strtol a 0), byte (strtol a 0 >>> (8 : ℕ))] (by simp)
            (by simp [neededParams])
            (by simpa [Record.operands] using wordOperand_iff (strtol a 0))
  | dcsread =>
      match args with
      | [] => exact Nat.lt_add_right _ (Nat.succ_pos 3)
      | [_] => exact Nat.lt_add_right _ (Nat.succ_pos 3)
      | [reg, len] =>
          -- what an earlier line left is taken for the mark
          refine compiled_readMeaning (.inl rfl) (fits_markOperand len _)
            ((markOperand_iff len [] (entry d 0)).trans ?_)
          rw [hthird rfl]
          exact or_congr_right answerMark_getD_eq_zero
      | reg :: len :: mark :: args =>
          exact compiled_readMeaning (.inl rfl) (fits_markOperand len mark)
            ((markOperand_iff len mark mark).trans (iff_of_true (.inr rfl) trivial))
  | genread =>
      match args with
      | [] => exact Nat.lt_add_right _ (Nat.succ_pos 3)
      | [_] => exact Nat.lt_add_right _ (Nat.succ_pos 3)
      | reg :: len :: args =>
          exact compiled_readMeaning (.inr rfl) (fun o ho => absurd ho List.not_mem_nil)
            (iff_of_true rfl trivial)
  | direct op => exact compiled_direct (hdirect op rfl) first d hlen
  | r => exact compiled_register first d hlen

/-! ### Lines without a token -/

/-- The kinds that compile a line without a token to nothing. -/
def Silent (kind : LineKind) : Prop := kind = .chiptype ∨ kind = .hs ∨ kind = .mtp

instance (kind : LineKind) : Decidable (Silent kind) := inferInstanceAs (Decidable (_ ∨ _ ∨ _))

/-- A line without a token is compiled by what earlier lines left. -/
theorem compileKind_zero (kind : LineKind) (dst : List Str) :
    if Silent kind then compileKind kind dst 0 = ([], 0) else 0 < (compileKind kind dst 0).2 := by
  cases kind with
  | dcsread => exact Nat.lt_add_right _ (Nat.succ_pos 3)
  | genread => exact Nat.lt_add_right _ (Nat.succ_pos 3)
  | chiptype => exact rfl
  | hs => exact rfl
  | mtp => exact rfl
  | _ => exact Nat.succ_pos _

theorem silent_ite {c : Prop} [Decidable c] {k k' : LineKind}
    (h : Silent (if c then k else k')) : c ∧ Silent k ∨ Silent k' := by
  split at h
  · exact .inl ⟨‹c›, h⟩
  · exact .inr h

/-- No string that begins with an `R` is of a silent kind. -/
theorem not_silent_R (s : Str) : ¬ Silent (lineKind ('R' :: s)) := by
  have hne : ∀ lit : String, lit.toList.head? ≠ some 'R' → lit.toList ≠ [] →
      ¬ startsWith lit ('R' :: s) := by
    intro lit hhead hnil
    obtain ⟨c, t, hlit⟩ := List.exists_cons_of_ne_nil hnil
    rw [hlit] at hhead
    simpa [startsWith, hlit, List.isPrefixOf] using fun hc => absurd (congrArg some hc) hhead
  intro h
  rw [lineKind] at h
  replace h := (silent_ite h).resolve_left fun h => absurd h.2 (by decide)
  replace h := (silent_ite h).resolve_left fun h => absurd h.1 (hne _ (by decide) (by decide))
  iterate 5 replace h := (silent_ite h).resolve_left fun h => absurd h.2 (by decide)
  iterate 2
    replace h := (silent_ite h).resolve_left fun h => absurd h.1 (hne _ (by decide) (by decide))
  iterate 10 replace h := (silent_ite h).resolve_left fun h => absurd h.2 (by decide)
  exact absurd h (by decide)

/-- What a line stands for, when `first` is what earlier lines left as the first entry: a line
without a token stands for no record, and is to be rejected where the code makes one of it. -/
def tokenMeaning (first : Str) : List Str → Option (Option Meaning)
  | [] => if Silent (lineKind first) then some none else none
  | tokens => lineMeaning tokens

/-- The tokens of a line have its own mark, when `third` is what earlier lines left as the fourth
entry. -/
def OwnTokens (third : Str) : List Str → Prop
  | [] => True
  | first :: args => OwnMark (lineKind first) third args

instance (third : Str) : ∀ tokens : List Str, Decidable (OwnTokens third tokens)
  | [] => isTrue trivial
  | first :: args => inferInstanceAs (Decidable (OwnMark (lineKind first) third args))

/-- The numbers of a line fit their fields, its mark is its own, and it is not to be rejected. -/
def Sound (first third : Str) (tokens : List Str) : Prop :=
  match tokenMeaning first tokens with
  | none => False
  | some none => True
  | some (some m) => m.Fits ∧ OwnTokens third tokens

instance (first third : Str) (tokens : List Str) : Decidable (Sound first third tokens) :=
  match h : tokenMeaning first tokens with
  | none => isFalse (by simp [Sound, h])
  | some none => isTrue (by simp [Sound, h])
  | some (some m) => decidable_of_iff (m.Fits ∧ OwnTokens third tokens) (by simp [Sound, h])

theorem join_tokenMeaning (first : Str) (tokens : List Str) :
    (tokenMeaning first tokens).join = (lineMeaning tokens).join := by
  cases tokens with
  | nil =>
      rw [tokenMeaning]
      split <;> rfl
  | cons t ts => rfl

/-- What tokens are compiled to, once they are stored. -/
theorem compileLine_spec {tokens : List Str} (dst : List Str) (hlen : tokens.length ≤ 250) :
    Compiled (compileLine (tokens ++ dst.drop tokens.length) tokens.length)
      (OwnTokens (entry dst 3) tokens) (tokenMeaning (entry dst 0) tokens) := by
  cases tokens with
  | nil =>
      have hzero := compileKind_zero (lineKind (entry dst 0)) dst
      rw [tokenMeaning]
      show Compiled (compileKind (lineKind (entry dst 0)) dst 0) _ _
      split at hzero
      · rw [if_pos ‹_›]
        exact hzero
      · rw [if_neg ‹_›]
        exact hzero
  | cons first args =>
      refine compileKind_spec first (dst.drop (args.length + 1)) ?_
        (by rw [List.length_cons] at hlen; omega) fun op hop => lineKind_direct hop
      intro htwo
      rw [htwo, entry, entry, List.getD_eq_getElem?_getD, List.getElem?_drop,
        List.getD_eq_getElem?_getD]

/-- The first entry is left as silent as the first token, or as it was, if there is none. -/
theorem silent_assignFirst (tokens dst : List Str) :
    Silent (lineKind (entry (assignFirst (tokens ++ dst.drop tokens.length)) 0)) ↔
      Silent (lineKind (tokens.headD (entry dst 0))) := by
  have hassign : ∀ d : List Str,
      Silent (lineKind (entry (assignFirst d) 0)) ↔ Silent (lineKind (entry d 0)) := by
    intro d
    rw [assignFirst]
    split
    · rename_i hr
      rw [hr]
      refine iff_of_false ?_ (by decide)
      cases d with
      | nil => decide
      | cons first d => exact not_silent_R _
    · exact Iff.rfl
  rw [hassign]
  cases tokens with
  | nil => exact Iff.rfl
  | cons first args => exact Iff.rfl

/-- What a line leaves as the fourth entry. -/
theorem entry_assignFirst (tokens dst : List Str) :
    entry (assignFirst (tokens ++ dst.drop tokens.length)) 3 = tokens.getD 3 (entry dst 3) := by
  have hassign : ∀ d : List Str, entry (assignFirst d) 3 = entry d 3 := by
    intro d
    rw [assignFirst]
    split
    · show (d.set 0 _).getD 3 [] = d.getD 3 []
      rw [List.getD_eq_getElem?_getD, List.getElem?_set_ne (by decide),
        List.getD_eq_getElem?_getD]
    · rfl
  rw [hassign, entry, entry]
  rcases lt_or_ge 3 tokens.length with hlong | hshort
  · rw [List.getD_append _ _ _ _ hlong, List.getD_eq_getElem _ _ hlong,
      List.getD_eq_getElem _ _ hlong]
  · rw [List.getD_append_right _ _ _ _ hshort, List.getD_eq_default _ _ hshort,
      List.getD_eq_getElem?_getD, List.getElem?_drop, Nat.add_sub_cancel' hshort,
      List.getD_eq_getElem?_getD]

theorem tokenMeaning_congr {first first' : Str}
    (h : Silent (lineKind first) ↔ Silent (lineKind first')) (tokens : List Str) :
    tokenMeaning first tokens = tokenMeaning first' tokens := by
  cases tokens with
  | nil =>
      rw [tokenMeaning, tokenMeaning]
      exact if_congr h rfl rfl
  | cons t ts => rfl

/-! ### Lists of lines -/

/-- The lines are compiled one after the other. -/
def compileAll (lines : List (List Str)) (c : Compiler) : Option Compiler :=
  lines.foldlM (fun c tokens => compileTokens tokens c) c

/-- The tokens of the lines that are compiled. -/
def sourceTokens (vcomInfo : Option VcomInfo) : Filters → List Str → List (List Str)
  | _, [] => []
  | f, line :: lines =>
      let scan := scanLine vcomInfo f line
      match scan.2 with
      | none => sourceTokens vcomInfo scan.1 lines
      | some str => split str :: sourceTokens vcomInfo scan.1 lines

theorem stripLine_isPrefix (buf : Str) : stripLine buf <+: buf :=
  (List.rdropWhile_prefix _ _).trans
    ((before_isPrefix _ _).trans ((before_isPrefix _ _).trans (before_isPrefix _ _)))

/-- What is left of a line is the front of it. -/
theorem scanLine_isPrefix {vcomInfo : Option VcomInfo} {f : Filters} {line str : Str}
    (h : (scanLine vcomInfo f line).2 = some str) : str <+: untilNul line := by
  simp only [scanLine, apply_ite Prod.snd, Option.ite_none_left_eq_some] at h
  obtain ⟨-, -, -, -, -, -, hstr⟩ := h
  rw [← Option.some.inj hstr]
  exact stripLine_isPrefix _

/-- The lines that are compiled. -/
theorem exists_line_of_mem_sourceTokens {vcomInfo : Option VcomInfo} {f : Filters}
    {lines : List Str} {tokens : List Str} (h : tokens ∈ sourceTokens vcomInfo f lines) :
    ∃ line ∈ lines, ∃ str, str <+: untilNul line ∧ tokens = split str := by
  induction lines generalizing f with
  | nil => exact absurd h List.not_mem_nil
  | cons line lines ih =>
      rw [sourceTokens] at h
      split at h
      · obtain ⟨line', hmem, hline'⟩ := ih h
        exact ⟨line', List.mem_cons_of_mem line hmem, hline'⟩
      · rename_i str hstr
        rcases List.mem_cons.mp h with rfl | h
        · exact ⟨line, List.mem_cons_self, str, scanLine_isPrefix hstr, rfl⟩
        · obtain ⟨line', hmem, hline'⟩ := ih h
          exact ⟨line', List.mem_cons_of_mem line hmem, hline'⟩

/-- A line has at most one token for each character, and one more. -/
theorem length_split_le (str : Str) : (split str).length ≤ str.length + 1 :=
  (List.length_filter_le _ _).trans (length_strtok_le ' ' str)

/-- The records that the lines stand for. -/
def meanings (lines : List (List Str)) : List Meaning :=
  lines.filterMap fun tokens => (lineMeaning tokens).join

/-- The bytes of the records that the lines stand for. -/
def compiledSize (lines : List (List Str)) : ℕ := ((meanings lines).map (·.count + 3)).sum

/-- No line is to be rejected. -/
def AllRegular : Str → List (List Str) → Prop
  | _, [] => True
  | first, tokens :: lines =>
      tokenMeaning first tokens ≠ none ∧ AllRegular (tokens.headD first) lines

/-- `Sound` for all lines; `first` and `third` are two of the entries of `dst` at the start. -/
def AllSound : Str → Str → List (List Str) → Prop
  | _, _, [] => True
  | first, third, tokens :: lines =>
      Sound first third tokens ∧ AllSound (tokens.headD first) (tokens.getD 3 third) lines

instance decidableAllSound : ∀ (first third : Str) (lines : List (List Str)),
    Decidable (AllSound first third lines)
  | _, _, [] => isTrue trivial
  | first, third, tokens :: lines =>
      @instDecidableAnd _ _ _ (decidableAllSound (tokens.headD first) (tokens.getD 3 third) lines)

theorem allRegular_of_allSound {lines : List (List Str)} :
    ∀ {first third : Str}, AllSound first third lines → AllRegular first lines := by
  induction lines with
  | nil => exact fun _ => trivial
  | cons tokens lines ih =>
      rintro first third ⟨hsound, hlines⟩
      refine ⟨fun hnone => ?_, ih hlines⟩
      rw [Sound, hnone] at hsound
      exact hsound

theorem compileTokens_filters (tokens : List Str) (c : Compiler) (f : Filters) :
    compileTokens tokens { c with filters := f } =
      (compileTokens tokens c).map fun c => { c with filters := f } := by
  simp only [compileTokens, Option.bind_eq_bind]
  cases storeTokens tokens c.dst with
  | none => rfl
  | some dst =>
      simp only [Option.bind_some]
      cases put c.code c.codeByte (compileLine dst tokens.length).1 with
      | none => rfl
      | some code => rfl

/-- Scanning the lines and compiling what is left. -/
theorem foldlM_parseLine (vcomInfo : Option VcomInfo) (lines : List Str) (f : Filters)
    (c : Compiler) :
    (lines.foldlM (parseLine vcomInfo) { c with filters := f }).map
        (fun c => (c.code, c.codeByte)) =
      (compileAll (sourceTokens vcomInfo f lines) c).map fun c => (c.code, c.codeByte) := by
  induction lines generalizing f c with
  | nil => rfl
  | cons line lines ih =>
      rw [List.foldlM_cons, parseLine, sourceTokens]
      dsimp only
      cases hscan : (scanLine vcomInfo f line).2 with
      | none =>
          simp only [Option.bind_eq_bind, Option.bind_some]
          exact ih _ c
      | some str =>
          dsimp only
          rw [compileTokens_filters (split str) c, compileAll, List.foldlM_cons]
          cases compileTokens (split str) c with
          | none => rfl
          | some c => exact ih _ c

/-- The compiler, in terms of the lines that are compiled. -/
theorem mipiParseInitCode_eq (vcomInfo : Option VcomInfo) (dst : List Str) (file : Str)
    (code : List UInt8) :
    mipiParseInitCode vcomInfo dst file code =
      (compileAll (sourceTokens vcomInfo noFilters (readLines 200 file))
        ⟨code, 0, dst, noFilters⟩).map fun c => (c.code, c.codeByte) := by
  rw [← foldlM_parseLine, mipiParseInitCode]
  cases (readLines 200 file).foldlM (parseLine vcomInfo) ⟨code, 0, dst, noFilters⟩ with
  | none => rfl
  | some c => rfl

/-! ### How far the compiler gets -/

theorem length_put {code code' bytes : List UInt8} {i : ℕ} (h : put code i bytes = some code') :
    code'.length = code.length ∧ i + bytes.length ≤ code.length := by
  rw [put] at h
  split at h
  · obtain rfl := Option.some.inj h
    simp
    omega
  · exact absurd h (by simp)

/-- One line, compiled. -/
theorem compileTokens_eq_some {tokens : List Str} {c c' : Compiler}
    (h : compileTokens tokens c = some c') :
    c'.codeByte = c.codeByte + (compileLine (tokens ++ c.dst.drop tokens.length) tokens.length).2 ∧
      c'.code.length = c.code.length ∧
      c'.dst = assignFirst (tokens ++ c.dst.drop tokens.length) := by
  obtain ⟨dst, hdst, h⟩ := Option.bind_eq_some_iff.mp h
  obtain ⟨code, hput, h⟩ := Option.bind_eq_some_iff.mp h
  obtain rfl := Option.some.inj h
  have hstored : dst = tokens ++ c.dst.drop tokens.length := by
    rw [storeTokens] at hdst
    split at hdst
    · exact (Option.some.inj hdst).symm
    · exact absurd hdst (by simp)
  subst hstored
  exact ⟨rfl, (length_put hput).1, rfl⟩

/-- The bytes of the record that a line stands for. -/
def lineSize (tokens : List Str) : ℕ := (lineMeaning tokens).join.elim 0 (·.count + 3)

theorem meanings_cons (tokens : List Str) (lines : List (List Str)) :
    meanings (tokens :: lines) = (lineMeaning tokens).join.toList ++ meanings lines := by
  rw [meanings, List.filterMap_cons, ← meanings]
  cases (lineMeaning tokens).join <;> rfl

theorem compiledSize_cons (tokens : List Str) (lines : List (List Str)) :
    compiledSize (tokens :: lines) = lineSize tokens + compiledSize lines := by
  rw [compiledSize, meanings_cons, lineSize]
  cases (lineMeaning tokens).join with
  | none => exact (Nat.zero_add _).symm
  | some m => rfl

/-- A line moves `codeByte` behind the record it stands for, or further if it is to be
rejected. -/
theorem Compiled.size {out : List UInt8 × ℕ} {own : Prop} {first : Str} {tokens : List Str}
    (h : Compiled out own (tokenMeaning first tokens)) :
    lineSize tokens ≤ out.2 ∧ (tokenMeaning first tokens = none → lineSize tokens < out.2) := by
  rw [lineSize, ← join_tokenMeaning first tokens]
  match hm : tokenMeaning first tokens with
  | none =>
      rw [hm] at h
      exact ⟨Nat.zero_le _, fun _ => h⟩
  | some none =>
      rw [hm] at h
      exact ⟨Nat.zero_le _, fun h => absurd h (by simp)⟩
  | some (some m) =>
      rw [hm] at h
      obtain ⟨r, rfl, hr⟩ := h
      refine ⟨?_, fun h => absurd h (by simp)⟩
      simp [hr.count]

theorem compileAll_cons (tokens : List Str) (lines : List (List Str)) (c : Compiler) :
    compileAll (tokens :: lines) c = (compileTokens tokens c).bind (compileAll lines) := rfl

/-- `codeByte` moves behind the records that the lines stand for, or further if one of them is
to be rejected. -/
theorem compileAll_size {lines : List (List Str)} (hlen : ∀ tokens ∈ lines, tokens.length ≤ 250) :
    ∀ {first : Str} {c c' : Compiler}, compileAll lines c = some c' →
      (Silent (lineKind (entry c.dst 0)) ↔ Silent (lineKind first)) →
      c'.code.length = c.code.length ∧ c.codeByte + compiledSize lines ≤ c'.codeByte ∧
        (¬ AllRegular first lines → c.codeByte + compiledSize lines < c'.codeByte) := by
  induction lines with
  | nil =>
      intro first c c' h _
      obtain rfl := Option.some.inj h
      exact ⟨rfl, le_rfl, fun h => absurd trivial h⟩
  | cons tokens lines ih =>
      intro first c c' h hfirst
      obtain ⟨htokens, hlines⟩ := List.forall_mem_cons.mp hlen
      rw [compileAll_cons] at h
      obtain ⟨c₁, hline, h⟩ := Option.bind_eq_some_iff.mp h
      obtain ⟨hbyte, hcode, hdst⟩ := compileTokens_eq_some hline
      have hspec := compileLine_spec c.dst htokens
      rw [tokenMeaning_congr hfirst] at hspec
      obtain ⟨hle, hlt⟩ := hspec.size
      have hnext : Silent (lineKind (entry c₁.dst 0)) ↔ Silent (lineKind (tokens.headD first)) := by
        rw [hdst, silent_assignFirst]
        cases tokens with
        | nil => exact hfirst
        | cons t ts => exact Iff.rfl
      obtain ⟨hcode', hle', hlt'⟩ := ih hlines h hnext
      refine ⟨hcode'.trans hcode, ?_, fun hreg => ?_⟩
      · rw [compiledSize_cons]
        omega
      · rw [compiledSize_cons]
        rcases not_and_or.mp hreg with hnone | hrest
        · have hstrict := hlt (not_not.mp hnone)
          omega
        · have hstrict := hlt' hrest
          omega

/-! ### The records of a text -/

/-- Records compiled from lines that stand for `ms`, and have exactly these meanings where the
lines are sound. -/
structure CompiledTo (rs : List Record) (ms : List Meaning) (sound : Prop) : Prop where
  complete : ∀ r ∈ rs, r.Complete
  counts : rs.map (·.params.length) = ms.map (·.count)
  meaning : rs.map Record.meaning = ms ↔ sound

theorem CompiledTo.nil : CompiledTo [] [] True :=
  ⟨fun _ hr => absurd hr List.not_mem_nil, rfl, iff_of_true rfl trivial⟩

theorem CompiledTo.append {rs rs' : List Record} {ms ms' : List Meaning} {sound sound' : Prop}
    (h : CompiledTo rs ms sound) (h' : CompiledTo rs' ms' sound') :
    CompiledTo (rs ++ rs') (ms ++ ms') (sound ∧ sound') where
  complete r hr := (List.mem_append.mp hr).elim (h.complete r) (h'.complete r)
  counts := by rw [List.map_append, h.counts, h'.counts, List.map_append]
  meaning := by
    have hlen : (rs.map Record.meaning).length = ms.length := by
      have hcounts := congrArg List.length h.counts
      rwa [List.length_map, List.length_map, ← List.length_map Record.meaning] at hcounts
    rw [← h.meaning, ← h'.meaning, List.map_append]
    exact ⟨fun heq => List.append_inj heq hlen, fun heq => heq.1 ▸ heq.2 ▸ rfl⟩

theorem CompiledTo.length {rs : List Record} {ms : List Meaning} {sound : Prop}
    (h : CompiledTo rs ms sound) :
    (rs.flatMap Record.encode).length = (ms.map (·.count + 3)).sum := by
  have hrecords : (rs.flatMap Record.encode).length =
      ((rs.map (·.params.length)).map (· + 3)).sum := by
    rw [List.length_flatMap, List.map_map]
    rfl
  rw [hrecords, h.counts, List.map_map]
  rfl

/-- Tokens that `split` can store. -/
structure Storable (tokens : List Str) : Prop where
  count : tokens.length ≤ 250
  short : tokens.all (·.length < 16)

theorem put_append (front bytes rest : List UInt8) (h : bytes.length ≤ rest.length) :
    put (front ++ rest) front.length bytes = some (front ++ bytes ++ rest.drop bytes.length) := by
  rw [put, if_pos (by simpa), List.take_left, List.drop_length_add_append]

/-- A line that stands for a record is compiled to it, one that stands for none to nothing. -/
theorem compileTokens_regular {tokens : List Str} {first : Str} {c : Compiler}
    {front rest : List UInt8} (htokens : Storable tokens)
    (hregular : tokenMeaning first tokens ≠ none)
    (hfirst : Silent (lineKind (entry c.dst 0)) ↔ Silent (lineKind first))
    (hcode : c.code = front ++ rest) (hbyte : c.codeByte = front.length)
    (hfit : lineSize tokens ≤ rest.length) :
    ∃ rs : List Record,
      CompiledTo rs (lineMeaning tokens).join.toList (Sound first (entry c.dst 3) tokens) ∧
      compileTokens tokens c = some { c with
        code := front ++ rs.flatMap Record.encode ++ rest.drop (lineSize tokens)
        codeByte := (front ++ rs.flatMap Record.encode).length
        dst := assignFirst (tokens ++ c.dst.drop tokens.length) } := by
  have hspec := compileLine_spec c.dst htokens.count
  rw [tokenMeaning_congr hfirst] at hspec
  have hstore : storeTokens tokens c.dst = some (tokens ++ c.dst.drop tokens.length) :=
    if_pos ⟨htokens.count.trans (by decide), htokens.short⟩
  have hjoin := join_tokenMeaning first tokens
  rw [lineSize] at hfit ⊢
  rw [Sound]
  match hm : tokenMeaning first tokens with
  | none => exact absurd hm hregular
  | some none =>
      rw [hm] at hspec hjoin
      have hout : compileLine (tokens ++ c.dst.drop tokens.length) tokens.length = ([], 0) := hspec
      have hput := put_append front [] rest (Nat.zero_le _)
      refine ⟨[], by rw [← hjoin]; exact .nil, ?_⟩
      rw [← hjoin]
      simp only [compileTokens, hstore, Option.bind_eq_bind, Option.bind_some, hout, hcode, hbyte,
        hput]
      simp
  | some (some m) =>
      rw [hm] at hspec hjoin
      obtain ⟨r, hout, hr⟩ := hspec
      rw [← hjoin] at hfit ⊢
      have hsize : m.count + 3 = r.encode.length := by rw [Record.length_encode, hr.count]
      have hput := put_append front r.encode rest (hsize ▸ hfit)
      have hone : CompiledTo [r] [m] (m.Fits ∧ OwnTokens (entry c.dst 3) tokens) :=
        ⟨List.forall_mem_singleton.mpr hr.complete, congrArg ([·]) hr.count,
          by rw [List.map_singleton, List.cons.injEq, and_iff_left rfl, hr.meaning]⟩
      refine ⟨[r], hone, ?_⟩
      simp only [compileTokens, hstore, Option.bind_eq_bind, Option.bind_some, hout, hcode, hbyte,
        hput]
      simp [hsize]

/-- Lines none of which is to be rejected are compiled to the records that they stand for. -/
theorem compileAll_records {lines : List (List Str)} (hlines : ∀ tokens ∈ lines, Storable tokens) :
    ∀ {first : Str} {c : Compiler} {front rest : List UInt8}, AllRegular first lines →
      (Silent (lineKind (entry c.dst 0)) ↔ Silent (lineKind first)) →
      c.code = front ++ rest → c.codeByte = front.length → compiledSize lines ≤ rest.length →
      ∃ rs : List Record,
        CompiledTo rs (meanings lines) (AllSound first (entry c.dst 3) lines) ∧
        (compileAll lines c).map (fun c => (c.code, c.codeByte)) = some
          (front ++ rs.flatMap Record.encode ++ rest.drop (compiledSize lines),
            front.length + compiledSize lines) := by
  induction lines with
  | nil =>
      intro first c front rest _ _ hcode hbyte _
      refine ⟨[], .nil, ?_⟩
      simp [compileAll, compiledSize, meanings, hcode, hbyte]
  | cons tokens lines ih =>
      intro first c front rest hregular hfirst hcode hbyte hfit
      obtain ⟨htokens, hlines⟩ := List.forall_mem_cons.mp hlines
      obtain ⟨hline, hregular⟩ := hregular
      rw [compiledSize_cons] at hfit ⊢
      obtain ⟨rs₁, hrs₁, hcompile⟩ := compileTokens_regular htokens hline hfirst hcode hbyte
        (by omega)
      have hnext : Silent (lineKind (entry (assignFirst (tokens ++ c.dst.drop tokens.length)) 0)) ↔
          Silent (lineKind (tokens.headD first)) := by
        rw [silent_assignFirst]
        cases tokens with
        | nil => exact hfirst
        | cons t ts => exact Iff.rfl
      obtain ⟨rs₂, hrs₂, hrun⟩ := ih hlines (c := { c with
        code := front ++ rs₁.flatMap Record.encode ++ rest.drop (lineSize tokens)
        codeByte := (front ++ rs₁.flatMap Record.encode).length
        dst := assignFirst (tokens ++ c.dst.drop tokens.length) })
        hregular hnext rfl rfl (by rw [List.length_drop]; omega)
      have hsize : (rs₁.flatMap Record.encode).length = lineSize tokens := by
        rw [hrs₁.length, lineSize]
        cases (lineMeaning tokens).join <;> simp
      refine ⟨rs₁ ++ rs₂, ?_, ?_⟩
      · rw [entry_assignFirst] at hrs₂
        rw [meanings_cons]
        exact hrs₁.append hrs₂
      · rw [compileAll_cons, hcompile, Option.bind_some, hrun]
        simp only [List.flatMap_append, List.length_append, hsize, List.drop_drop,
          List.append_assoc, Nat.add_assoc]

end PanelTester.Mipi
