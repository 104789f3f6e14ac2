import PanelTester.Gamma.RegText
import PanelTester.Library.Steps
import PanelTester.Library.Strstr
import PanelTester.Mipi.Callers

/-!
The handler of `REALTIME_CONTROL` in `clirecvcmd5srv.c`, and `ReadModReg` of `mipi2828.c`. The data
string is a sequence of groups in braces. The fields of a group are looked for from its first brace
to the end of the whole string, so that one that a group does not have is taken from a later group;
and the loops over a field look for a semicolon, and not for the brace or the end of the string.
-/

namespace PanelTester.Realtime

open Library Mipi

/-- `sizeof(txt)` -/
def txtLen : ℕ := 20

/-- `sizeof(cmd)` -/
def cmdLen : ℕ := 256

/-- `sizeof(data)` -/
def dataLen : ℕ := 256

/-! ### The fields of a group -/

/-- `w`, `cmd` and `para` -/
structure Fields where
  w : Int32
  cmd : List UInt8
  para : Int32
  deriving DecidableEq

/-- The loop that fills `txt`, with `n` turns left: what is copied, and whether a zero is behind it.
There is no result when it reads behind the terminating zero. -/
def txtLoop : ℕ → Str → Option (Str × Bool)
  | 0, _ => some ([], false)
  | n + 1, [] => if n = 0 then some ([], true) else none -- the zero is no semicolon
  | n + 1, c :: p =>
      if c = ';' then some ([], true) else (txtLoop n p).map fun (txt, ended) => (c :: txt, ended)

/-- `atoi` of `txt`, which has no result when it reads behind the array. -/
def atoiTxt : Str × Bool → Option Int32
  | (txt, ended) => if ended = false ∧ atoiReadsAll txt = true then none else some (atoi txt)

/-- A number from the text behind its key. -/
def numberAt (default : Int32) (p : Str) : Option Int32 :=
  if p.head? = some ';' then some default else (txtLoop txtLen p).bind atoiTxt

/-- The loop over the bytes of `cmd`, behind those that are stored. There is no result when it
leaves the array, or reads behind the terminating zero. -/
def cmdLoop (cmd : List UInt8) : Str → Option (List UInt8)
  | [] => some cmd
  | c :: p =>
      if cmd.length < cmdLen then
        match p with
        | d :: e :: p =>
            if e = ';' then some (cmd ++ [Gamma.scanByte [c, d]])
            else cmdLoop (cmd ++ [Gamma.scanByte [c, d]]) p
        | _ => none
      else none

/-- The bytes of `cmd` from the text behind its key. -/
def cmdAt (p : Str) : Option (List UInt8) := if p.head? = some ';' then some [] else cmdLoop [] p

/-- A field from the text behind its key, or its default when the key is not found. -/
def fieldOf {α : Type} (key : String) (default : α) (at_ : Str → Option α) (pStart : Str) :
    Option α :=
  match behind key.toList pStart with
  | none => some default
  | some p => at_ p

/-- The fields of the group that begins at `pStart`. -/
def readFields (pStart : Str) : Option Fields := do
  let w ← fieldOf "w=" (-1) (numberAt (-1)) pStart
  let cmd ← fieldOf "cmd=" [] cmdAt pStart
  let para ← fieldOf "para=" 0 (numberAt 0) pStart
  return ⟨w, cmd, para⟩

/-! ### The operation of a group -/

inductive Operation
  | readModReg (regAddr : UInt8) (len : UInt8)
  | sendCode (code : List UInt8)
  | usleep (usec : ℕ)
  | nothing
  deriving DecidableEq

/-- `ReadModReg` to `data + offset`, which has no result when it stores outside of the array. -/
def readToData (answer : Option (ℕ → UInt8)) (len : UInt8) (offset : Int32) (data : List UInt8) :
    Option (List UInt8) :=
  if len = 0 then some data
  else if offset < 0 then if answer.isNone then some data else none
  else readModReg answer len offset.toInt.toNat data

/-- `len` and `data` in the handler, and the groups that are behind it, with their operations. -/
structure Handler where
  len : Int32
  data : List UInt8
  performed : List (Fields × Operation)

namespace Handler

/-- Nothing is said of what is in `data` at first. -/
def start (data : Fin dataLen → UInt8) : Handler := ⟨0, List.ofFn data, []⟩

/-- What follows from the fields of a group; the panel answers to one read after the other. -/
def execute (panel : ℕ → Option (ℕ → UInt8)) (r : Handler) (f : Fields) : Option Handler :=
  if f.w = 0 then
    match f.cmd with
    | [] => some { r with performed := r.performed ++ [(f, .nothing)] }
    | reg :: _ =>
        let len := UInt8.ofInt f.para.toInt
        (readToData (panel r.performed.length) len r.len r.data).map fun data =>
          ⟨r.len + f.para, data, r.performed ++ [(f, .readModReg reg len)]⟩
  else if f.w = 1 then
    match f.cmd with
    | [] => some { r with performed := r.performed ++ [(f, .nothing)] }
    | reg :: rest =>
        (realtimeArray reg rest).map fun code =>
          { r with performed := r.performed ++ [(f, .sendCode code)] }
  else if f.w = 2 ∧ 0 < f.para then
    some { r with performed := r.performed ++ [(f, .usleep (1000 * min f.para.toInt.toNat 10000))] }
  else some { r with performed := r.performed ++ [(f, .nothing)] }

/-- A turn of the handler, over the group that begins at `pStart`. -/
def turn (panel : ℕ → Option (ℕ → UInt8)) (r : Handler) (pStart : Str) : Option Handler :=
  (readFields pStart).bind fun f => r.execute panel f

end Handler

/-! ### Groups -/

/-- The next group: its text, and what follows it. -/
def nextGroup (s : Str) : Option (Str × Str) :=
  match s.dropWhile (· ≠ '{') with
  | [] => none
  | _ :: t =>
      match t.dropWhile (· ≠ '}') with
      | [] => none
      | _ :: rest => some (t.takeWhile (· ≠ '}'), rest)

/-- How the handler comes to a group. -/
theorem nextGroup_eq_some {s g rest : Str} (h : nextGroup s = some (g, rest)) :
    '}' ∉ g ∧ strstr ['{'] s = some ('{' :: g ++ '}' :: rest) ∧
      strstr ['}'] ('{' :: g ++ '}' :: rest) = some ('}' :: rest) := by
  rw [nextGroup] at h
  split at h
  · exact absurd h.symm (Option.some_ne_none _)
  · next x t hdrop =>
      obtain ⟨rfl, hmem⟩ := dropWhile_ne_cons hdrop
      split at h
      · exact absurd h.symm (Option.some_ne_none _)
      · next y rest' hend =>
          obtain ⟨rfl, -⟩ := dropWhile_ne_cons hend
          obtain ⟨rfl, rfl⟩ := Prod.mk.inj (Option.some.inj h)
          have ht : t = t.takeWhile (· ≠ '}') ++ '}' :: rest' := by
            rw [← hend, List.takeWhile_append_dropWhile]
          refine ⟨not_mem_takeWhile_ne _ _, ?_, ?_⟩
          · rw [strstr_singleton, if_pos hmem, hdrop, List.cons_append, ← ht]
          · have hbrace : '}' ∈ '{' :: t := by
              rw [ht]
              simp
            rw [List.cons_append, ← ht, strstr_singleton, if_pos hbrace,
              List.dropWhile_cons_of_pos (by decide), hend]

theorem nextGroup_eq_none {s : Str} (h : nextGroup s = none) :
    strstr ['{'] s = none ∨ ∃ p, strstr ['{'] s = some p ∧ strstr ['}'] p = none := by
  rw [nextGroup] at h
  rw [strstr_singleton]
  split at h
  · next hdrop => exact .inl (if_neg (not_mem_of_dropWhile_nil hdrop))
  · next x t hdrop =>
      obtain ⟨rfl, hmem⟩ := dropWhile_ne_cons hdrop
      split at h
      · next hend =>
          refine .inr ⟨_, if_pos hmem, ?_⟩
          have hno : '}' ∉ '{' :: t :=
            List.not_mem_cons_of_ne_of_not_mem (by decide) (not_mem_of_dropWhile_nil hend)
          rw [hdrop, strstr_singleton, if_neg hno]
      · exact absurd h (Option.some_ne_none _)

theorem length_lt_of_strstr {ptr pStart pEnd : Str} (hstart : strstr ['{'] ptr = some pStart)
    (hend : strstr ['}'] pStart = some pEnd) : (pEnd.drop 1).length < ptr.length := by
  have hpos : 1 ≤ pEnd.length := (strstr_isPrefix hend).length_le
  have hle := (strstr_isSuffix hend).length_le.trans (strstr_isSuffix hstart).length_le
  rw [List.length_drop]
  omega

theorem length_lt_of_nextGroup {s g rest : Str} (h : nextGroup s = some (g, rest)) :
    rest.length < s.length := by
  obtain ⟨-, hstart, hend⟩ := nextGroup_eq_some h
  exact length_lt_of_strstr hstart hend

/-- The loop of the handler. -/
def Handler.handle (panel : ℕ → Option (ℕ → UInt8)) (r : Handler) (ptr : Str) :
    Option Handler :=
  match _hstart : strstr ['{'] ptr with
  | none => some r
  | some pStart =>
      match _hend : strstr ['}'] pStart with
      | none => some r
      | some pEnd => (r.turn panel pStart).bind fun r => r.handle panel (pEnd.drop 1)
termination_by ptr.length
decreasing_by exact length_lt_of_strstr _hstart _hend

/-- The groups of a string, each with what follows it. -/
def groups (s : Str) : List (Str × Str) :=
  match _h : nextGroup s with
  | none => []
  | some (g, rest) => (g, rest) :: groups rest
termination_by s.length
decreasing_by exact length_lt_of_nextGroup _h

theorem groups_of_none {s : Str} (h : nextGroup s = none) : groups s = [] := by
  rw [groups]
  split
  · rfl
  · next g rest h' => exact absurd (h'.symm.trans h) (Option.some_ne_none _)

theorem groups_of_some {s g rest : Str} (h : nextGroup s = some (g, rest)) :
    groups s = (g, rest) :: groups rest := by
  rw [groups]
  split
  · next h' => exact absurd (h.symm.trans h') (Option.some_ne_none _)
  · next g' rest' h' =>
      obtain ⟨rfl, rfl⟩ := Prod.mk.inj (Option.some.inj (h.symm.trans h'))
      rfl

/-! ### The question -/

/-- The number of a field, from the text behind its key in the group. -/
def ownNumber (default : Int32) (t : Str) : Int32 :=
  if t.head? = some ';' then default else atoi (t.takeWhile (· ≠ ';'))

/-- Three characters for a byte. -/
def strides : Str → List UInt8
  | [] => []
  | [c] => [Gamma.scanByte [c]]
  | [c, d] => [Gamma.scanByte [c, d]]
  | c :: d :: _ :: s => Gamma.scanByte [c, d] :: strides s

/-- The fields of a group, from its own text. -/
def ownFields (g : Str) : Fields where
  w := (behind "w=".toList g).elim (-1) (ownNumber (-1))
  cmd := (behind "cmd=".toList g).elim [] fun t => strides (t.takeWhile (· ≠ ';'))
  para := (behind "para=".toList g).elim 0 (ownNumber 0)

/-- The operation that the fields of a group ask for: a read of as many bytes as the low byte of
`para` says, a write of the bytes of `cmd`, or a delay of `para` milliseconds, ten seconds at
most. -/
def Fields.operation (f : Fields) : Operation :=
  if f.w = 2 ∧ 0 < f.para then .usleep (1000 * min f.para.toInt.toNat 10000)
  else
    match f.cmd with
    | [] => .nothing
    | reg :: rest =>
        if f.w = 0 then .readModReg reg (UInt8.ofInt f.para.toInt)
        else if f.w = 1 then
          .sendCode (0x39 :: reg :: UInt8.ofNat rest.length :: rest ++
            List.replicate (realtimeCodeLen - 3 - rest.length) 0xff)
        else .nothing

/-- `len` behind a group. -/
def nextLen (len : Int32) (f : Fields) : Int32 :=
  if f.w = 0 ∧ f.cmd ≠ [] then len + f.para else len

/-- The bytes that a read finds are in their place behind those of the reads before. -/
def Operation.dataBehind (answer : Option (ℕ → UInt8)) (offset : ℕ) (data : List UInt8) :
    Operation → List UInt8
  | .readModReg _ len =>
      answer.elim data fun byte => data.take offset ++ (List.range len.toNat).map byte ++
        data.drop (offset + len.toNat)
  | _ => data

/-- What is to be done for the fields of a group. -/
def Handler.perform (panel : ℕ → Option (ℕ → UInt8)) (r : Handler) (f : Fields) : Handler where
  len := nextLen r.len f
  data := f.operation.dataBehind (panel r.performed.length) r.len.toInt.toNat r.data
  performed := r.performed ++ [(f, f.operation)]

/-- The operations of the groups are carried out, one for each group in its order, with the group's
own fields. No array is left, and nothing is read behind the terminating zero. -/
def RealtimeKept (panel : ℕ → Option (ℕ → UInt8)) (data : Fin dataLen → UInt8) (s : Str) : Prop :=
  (Handler.start data).handle panel s =
    some (((groups s).map fun group => ownFields group.1).foldl (Handler.perform panel)
      (Handler.start data))

/-- The loop over a number comes to a semicolon within 20 characters, or the string ends with the
nineteenth of them, or the number itself ends within the 20. -/
def TxtFits (p : Str) : Prop :=
  ';' ∈ p.take txtLen ∨ p.length + 1 = txtLen ∨
    txtLen ≤ p.length ∧ atoiReadsAll (p.take txtLen) = false

/-- A number that is read from `p`. -/
def numberOf (default : Int32) (p : Str) : Int32 :=
  if p.head? = some ';' then default else atoi ((p.take txtLen).takeWhile (· ≠ ';'))

/-- A number comes to its end; one that the group does not have is not in what follows either, or
is its default there. -/
def NumberFits (key : String) (default : Int32) (g rest : Str) : Prop :=
  match behind key.toList g with
  | some t => TxtFits (t ++ '}' :: rest)
  | none => ∀ p, behind key.toList rest = some p → TxtFits p ∧ numberOf default p = default

/-- There are at most 256 bytes, and a semicolon or the end of the string is at the end of the
stride of the last one. A `cmd` that the group does not have is not in what follows either, or is
empty there. -/
def CmdFits (g rest : Str) : Prop :=
  match behind "cmd=".toList g with
  | some t =>
      let p := t ++ '}' :: rest
      let n := ((t.takeWhile (· ≠ ';')).length + 2) / 3
      t.head? = some ';' ∨ 0 < n ∧ n ≤ cmdLen ∧ (p[3 * n - 1]? = some ';' ∨ p.length = 3 * n)
  | none => ∀ p, behind "cmd=".toList rest = some p → p = [] ∨ p.head? = some ';'

/-- A read stores inside of `data`, and a write has room for its bytes. -/
def OperationFits (len : Int32) (f : Fields) : Prop :=
  (f.w = 0 → f.cmd ≠ [] → UInt8.ofInt f.para.toInt = 0 ∨
    0 ≤ len.toInt ∧ len.toInt + (UInt8.ofInt f.para.toInt).toNat ≤ dataLen) ∧
  (f.w = 1 → f.cmd.length + 2 ≤ realtimeCodeLen)

/-- What a string is to be like, from `len` on. -/
def GroupsFit : Int32 → List (Str × Str) → Prop
  | _, [] => True
  | len, (g, rest) :: gs =>
      NumberFits "w=" (-1) g rest ∧ CmdFits g rest ∧ NumberFits "para=" 0 g rest ∧
        OperationFits len (ownFields g) ∧ GroupsFit (nextLen len (ownFields g)) gs

/-! ### Numbers -/

/-- What the loop over a number copies, from a text that has a semicolon or an end for it. -/
theorem txtLoop_eq (n : ℕ) (p : Str) :
    txtLoop n p =
      if ';' ∈ p.take n ∨ p.length + 1 = n then some ((p.take n).takeWhile (· ≠ ';'), true)
      else if n ≤ p.length then some ((p.take n).takeWhile (· ≠ ';'), false)
      else none := by
  induction n generalizing p with
  | zero => simp [txtLoop]
  | succ n ih =>
      cases p with
      | nil =>
          rw [txtLoop]
          rcases Nat.eq_zero_or_pos n with rfl | hpos
          · simp
          · rw [if_neg hpos.ne', if_neg, if_neg]
            · simp
            · simp
              omega
      | cons c p =>
          rw [txtLoop, ih, List.take_succ_cons, List.length_cons]
          rcases eq_or_ne c ';' with rfl | hne
          · simp
          · simp only [List.mem_cons, hne.symm, hne, if_false, false_or, Nat.add_right_cancel_iff,
              Nat.add_le_add_iff_right, List.takeWhile_cons, ne_eq, not_false_eq_true, decide_true,
              if_true]
            split_ifs <;> rfl

/-- A number that is read. -/
theorem numberAt_eq_some_iff {default n : Int32} {p : Str} :
    numberAt default p = some n ↔ TxtFits p ∧ numberOf default p = n := by
  rw [numberAt, numberOf, TxtFits, txtLoop_eq]
  split_ifs with hhead hend hroom
  · have hmem : ';' ∈ p.take txtLen := by
      cases p with
      | nil => exact absurd hhead.symm (Option.some_ne_none _)
      | cons c p =>
          obtain rfl := Option.some.inj hhead
          exact List.mem_cons_self
    rw [and_iff_right (.inl hmem)]
    exact Option.some_inj
  · rw [and_iff_right (or_assoc.mp (.inl hend)), Option.bind_some, atoiTxt,
      if_neg fun h => absurd h.1 (by decide)]
    exact Option.some_inj
  · obtain ⟨hmem, hlen⟩ := not_or.mp hend
    rw [takeWhile_ne_of_not_mem hmem, Option.bind_some, atoiTxt]
    simp only [hmem, hlen, hroom, false_or, true_and]
    cases atoiReadsAll (p.take txtLen) with
    | false => simp
    | true => simp
  · apply iff_of_false (Option.some_ne_none n).symm
    rintro ⟨hmem | hlen | ⟨hle, -⟩, -⟩
    · exact hend (.inl hmem)
    · exact hend (.inr hlen)
    · exact hroom hle

/-- A brace, like a semicolon, is no part of a number. -/
theorem strtol_append_separator {x : Char} (hx : x = ';' ∨ x = '}') (s rest : Str) (base : ℕ) :
    strtol (s ++ x :: rest) base = strtol s base := by
  obtain ⟨hspace, hdigit, hsign, hmark⟩ : isSpace x = false ∧ digitValue x = none ∧
      ¬ (x = '-' ∨ x = '+') ∧ ¬ (x = 'x' ∨ x = 'X') := by
    rcases hx with rfl | rfl
    · decide
    · decide
  exact strtol_append_stop hspace hdigit hsign hmark s rest base

/-- What is read of a number of the group is its own. -/
theorem numberOf_own {default : Int32} {t rest : Str} (hfits : TxtFits (t ++ '}' :: rest)) :
    numberOf default (t ++ '}' :: rest) = ownNumber default t := by
  have hhead : (t ++ '}' :: rest).head? = some ';' ↔ t.head? = some ';' := by
    cases t with
    | nil => simp
    | cons c t => rfl
  rw [numberOf, ownNumber]
  simp only [hhead]
  split_ifs with hsemi
  · rfl
  · rcases le_or_gt txtLen t.length with hlong | hshort
    · -- the twenty characters are the group's own
      rw [List.take_append_of_le_length hlong]
      have hsplit := List.take_append_drop txtLen t
      by_cases hmem : ';' ∈ t.take txtLen
      · rw [← takeWhile_ne_append_of_mem hmem (t.drop txtLen), hsplit]
      · have hstops : atoiReadsAll (t.take txtLen) = false := by
          rw [TxtFits, List.take_append_of_le_length hlong] at hfits
          rcases hfits with hfits | hfits | ⟨-, hfits⟩
          · exact absurd hfits hmem
          · rw [List.length_append, List.length_cons] at hfits
            omega
          · exact hfits
        have hall : ∀ c ∈ t.take txtLen, (decide (c ≠ ';')) = true :=
          fun c hc => decide_eq_true fun heq => hmem (heq ▸ hc)
        rw [takeWhile_ne_of_not_mem hmem,
          ← atoi_append hstops ((t.drop txtLen).takeWhile (· ≠ ';')),
          ← List.takeWhile_append_of_pos hall, hsplit]
    · -- the brace comes first, and stops the number
      rw [List.take_append, List.take_of_length_le hshort.le,
        show txtLen - t.length = (txtLen - t.length - 1) + 1 by omega, List.take_succ_cons]
      by_cases hmem : ';' ∈ t
      · rw [takeWhile_ne_append_of_mem hmem]
      · have hall : ∀ c ∈ t, (decide (c ≠ ';')) = true :=
          fun c hc => decide_eq_true fun heq => hmem (heq ▸ hc)
        rw [List.takeWhile_append_of_pos hall, List.takeWhile_cons_of_pos (by decide), atoi, atoi,
          strtol_append_separator (.inr rfl), takeWhile_ne_of_not_mem hmem]

/-! ### Bytes -/

/-- A stride of three characters. -/
theorem cmdLoop_three (cmd : List UInt8) (c d e : Char) (p : Str) :
    cmdLoop cmd (c :: d :: e :: p) =
      if cmd.length < cmdLen then
        if e = ';' then some (cmd ++ [Gamma.scanByte [c, d]])
        else cmdLoop (cmd ++ [Gamma.scanByte [c, d]]) p
      else none := by
  rw [cmdLoop]

/-- Where the string ends within a stride, what is behind its end is read. -/
theorem cmdLoop_short (cmd : List UInt8) {p : Str} (hne : p ≠ []) (hshort : p.length < 3) :
    cmdLoop cmd p = none := by
  match p, hne, hshort with
  | [c], _, _ => exact ite_self none
  | [c, d], _, _ => exact ite_self none
  | _ :: _ :: _ :: _, _, hshort => exact absurd hshort (by simp)

/-- The bytes are stored behind those that are there, at least one when there is a character. -/
theorem cmdLoop_eq_some {cmd cmd' : List UInt8} {p : Str} (h : cmdLoop cmd p = some cmd') :
    ∃ bytes, cmd' = cmd ++ bytes ∧ (p ≠ [] → bytes ≠ []) := by
  match p with
  | [] =>
      obtain rfl := Option.some.inj h
      exact ⟨[], (List.append_nil cmd).symm, fun hne => absurd rfl hne⟩
  | [c] => exact absurd (h.symm.trans (cmdLoop_short cmd (by simp) (by simp))) (by simp)
  | [c, d] => exact absurd (h.symm.trans (cmdLoop_short cmd (by simp) (by simp))) (by simp)
  | c :: d :: e :: p =>
      rw [cmdLoop_three] at h
      split_ifs at h with hroom hsemi
      · exact ⟨_, (Option.some.inj h).symm, fun _ => List.cons_ne_nil _ _⟩
      · obtain ⟨bytes, rfl, -⟩ := cmdLoop_eq_some h
        exact ⟨_ :: bytes, List.append_assoc _ _ _, fun _ => List.cons_ne_nil _ _⟩

theorem cmdLoop_self_iff {cmd : List UInt8} {p : Str} : cmdLoop cmd p = some cmd ↔ p = [] := by
  constructor
  · intro h
    obtain ⟨bytes, hbytes, hne⟩ := cmdLoop_eq_some h
    by_contra hp
    exact hne hp (List.self_eq_append_right.mp hbytes)
  · rintro rfl
    rfl

/-- A separator behind one character is no part of its byte. -/
theorem scanByte_separator {x : Char} (hx : x = ';' ∨ x = '}') (c : Char) :
    Gamma.scanByte [c, x] = Gamma.scanByte [c] :=
  congrArg UInt8.ofInt (strtol_append_separator hx [c] [] 16)

/-- A stride is the last one when it ends with a semicolon, or with the string. -/
theorem cmdLoop_last_iff {cmd : List UInt8} {c d e : Char} {p : Str} :
    cmdLoop cmd (c :: d :: e :: p) = some (cmd ++ [Gamma.scanByte [c, d]]) ↔
      cmd.length + 1 ≤ cmdLen ∧ (e = ';' ∨ p = []) := by
  rw [cmdLoop_three]
  split_ifs with hroom hsemi
  · exact iff_of_true rfl ⟨hroom, .inl hsemi⟩
  · rw [cmdLoop_self_iff]
    exact ⟨fun hp => ⟨hroom, .inr hp⟩, fun h => h.2.resolve_left hsemi⟩
  · exact iff_of_false id fun h => hroom h.1

/-- The bytes of a value, with the separator behind it, are exactly its own when the stride of the
last one ends with a semicolon, or with the string. -/
theorem cmdLoop_iff {own : Str} (hsemi : ';' ∉ own) (hne : own ≠ []) {x : Char}
    (hx : x = ';' ∨ x = '}') (rest : Str) (cmd : List UInt8) :
    cmdLoop cmd (own ++ x :: rest) = some (cmd ++ strides own) ↔
      cmd.length + (own.length + 2) / 3 ≤ cmdLen ∧
        ((own ++ x :: rest)[3 * ((own.length + 2) / 3) - 1]? = some ';' ∨
          (own ++ x :: rest).length = 3 * ((own.length + 2) / 3)) := by
  match own with
  | [] => exact absurd rfl hne
  | [c] =>
      rw [show ([c].length + 2) / 3 = 1 by simp, show strides [c] = [Gamma.scanByte [c]] by rfl,
        List.singleton_append]
      cases rest with
      | nil =>
          rw [cmdLoop_short cmd (List.cons_ne_nil _ _) (by simp)]
          exact iff_of_false (Option.some_ne_none _).symm (by simp)
      | cons e p =>
          rw [← scanByte_separator hx c, cmdLoop_last_iff]
          simp
  | [c, d] =>
      rw [show ([c, d].length + 2) / 3 = 1 by simp,
        show strides [c, d] = [Gamma.scanByte [c, d]] by rfl, List.cons_append,
        List.singleton_append, cmdLoop_last_iff]
      simp
  | [c, d, e] =>
      have he : e ≠ ';' := fun heq => hsemi (by simp [heq])
      rw [show ([c, d, e].length + 2) / 3 = 1 by simp,
        show strides [c, d, e] = [Gamma.scanByte [c, d]] by rfl, List.cons_append, List.cons_append,
        List.singleton_append, cmdLoop_last_iff]
      simp [he]
  | c :: d :: e :: f :: own =>
      have he : e ≠ ';' := fun heq => hsemi (by simp [heq])
      have hrest : ';' ∉ f :: own := fun h =>
        hsemi (List.mem_cons_of_mem _ (List.mem_cons_of_mem _ (List.mem_cons_of_mem _ h)))
      obtain ⟨k, hk, hk'⟩ : ∃ k, ((f :: own).length + 2) / 3 = k + 1 ∧
          ((c :: d :: e :: f :: own).length + 2) / 3 = k + 2 := by
        refine ⟨own.length / 3, ?_, ?_⟩
        · simp only [List.length_cons]
          omega
        · simp only [List.length_cons]
          omega
      have ih := cmdLoop_iff hrest (List.cons_ne_nil f own) hx rest (cmd ++ [Gamma.scanByte [c, d]])
      have hlen : (cmd ++ [Gamma.scanByte [c, d]]).length = cmd.length + 1 := by simp
      rw [hk, hlen, List.append_assoc] at ih
      rw [hk']
      rw [show strides (c :: d :: e :: f :: own) = [Gamma.scanByte [c, d]] ++ strides (f :: own) by
          rfl, List.cons_append, List.cons_append, List.cons_append, cmdLoop_three, if_neg he]
      split_ifs with hroom
      · rw [ih, show 3 * (k + 2) - 1 = 3 * (k + 1) - 1 + 1 + 1 + 1 by omega,
          List.getElem?_cons_succ, List.getElem?_cons_succ, List.getElem?_cons_succ,
          List.length_cons, List.length_cons, List.length_cons,
          show cmd.length + 1 + (k + 1) = cmd.length + (k + 2) by omega]
        apply and_congr_right
        intro
        apply or_congr_right
        omega
      · exact iff_of_false id fun h => hroom (by omega)

/-- What is behind the value of a field, inside of the group or behind it. -/
theorem exists_separator (t rest : Str) : ∃ x rest', (x = ';' ∨ x = '}') ∧
    t ++ '}' :: rest = t.takeWhile (· ≠ ';') ++ x :: rest' := by
  have hsplit : t.takeWhile (· ≠ ';') ++ t.dropWhile (· ≠ ';') = t :=
    List.takeWhile_append_dropWhile
  cases hdrop : t.dropWhile (· ≠ ';') with
  | nil =>
      rw [hdrop, List.append_nil] at hsplit
      exact ⟨'}', rest, .inr rfl, by rw [hsplit]⟩
  | cons x u =>
      obtain ⟨rfl, -⟩ := dropWhile_ne_cons hdrop
      refine ⟨';', u ++ '}' :: rest, .inl rfl, ?_⟩
      rw [hdrop] at hsplit
      rw [← List.cons_append, ← List.append_assoc, hsplit]

/-- The bytes that are read of the group's `cmd` are its own exactly when they end where it does. -/
theorem cmdAt_own_iff {t rest own : Str} (hown : t.takeWhile (· ≠ ';') = own) :
    cmdAt (t ++ '}' :: rest) = some (strides own) ↔
      t.head? = some ';' ∨ 0 < (own.length + 2) / 3 ∧ (own.length + 2) / 3 ≤ cmdLen ∧
        ((t ++ '}' :: rest)[3 * ((own.length + 2) / 3) - 1]? = some ';' ∨
          (t ++ '}' :: rest).length = 3 * ((own.length + 2) / 3)) := by
  rw [cmdAt]
  cases t with
  | nil =>
      obtain rfl : [] = own := hown
      rw [List.nil_append, if_neg (by simp)]
      refine iff_of_false ?_ (by simp)
      intro h
      exact List.cons_ne_nil _ _ (cmdLoop_self_iff.mp h)
  | cons c t =>
      rcases eq_or_ne c ';' with rfl | hne
      · obtain rfl : [] = own := hown
        exact iff_of_true rfl (.inl rfl)
      · have hhead : ¬ some c = some ';' := fun h => hne (Option.some.inj h)
        have hnonempty : own ≠ [] := by
          rw [← hown]
          simp [hne]
        have hsemi : ';' ∉ own := hown ▸ not_mem_takeWhile_ne ';' (c :: t)
        obtain ⟨x, rest', hx, hsplit⟩ := exists_separator (c :: t) rest
        have hpos : 0 < (own.length + 2) / 3 := by
          have hlen := List.length_pos_iff.mpr hnonempty
          omega
        have hloop := cmdLoop_iff hsemi hnonempty hx rest' []
        rw [List.nil_append, List.length_nil, Nat.zero_add] at hloop
        have hfirst : ¬ (c :: t ++ '}' :: rest).head? = some ';' := hhead
        rw [if_neg hfirst, hsplit, hown, List.head?_cons, or_iff_right hhead, and_iff_right hpos,
          ← hloop]

/-! ### A group -/

section

variable {g rest : Str}

/-- Where a field is looked for. -/
theorem fieldOf_group {α : Type} {key : String} (hopen : '{' ∉ key.toList)
    (hclose : '}' ∉ key.toList) (hkey : key.toList ≠ []) (default : α) (at_ : Str → Option α) :
    fieldOf key default at_ ('{' :: g ++ '}' :: rest) =
      match behind key.toList g with
      | some t => at_ (t ++ '}' :: rest)
      | none => (behind key.toList rest).elim (some default) at_ := by
  have hskip : behind key.toList ('{' :: g ++ '}' :: rest) =
      behind key.toList (g ++ '}' :: rest) := by
    have hfront := @behind_append key.toList [] '{' hopen hkey (g ++ '}' :: rest)
    have hnil : behind key.toList [] = none := by
      rw [behind, strstr, if_neg hkey]
      rfl
    rw [hnil] at hfront
    exact hfront
  rw [fieldOf, hskip, behind_append hclose hkey]
  cases behind key.toList g with
  | some t => rfl
  | none =>
      cases behind key.toList rest with
      | none => rfl
      | some p => rfl

theorem numberField_iff {key : String} (hopen : '{' ∉ key.toList) (hclose : '}' ∉ key.toList)
    (hkey : key.toList ≠ []) (default : Int32) :
    fieldOf key default (numberAt default) ('{' :: g ++ '}' :: rest) =
        some ((behind key.toList g).elim default (ownNumber default)) ↔
      NumberFits key default g rest := by
  rw [fieldOf_group hopen hclose hkey, NumberFits]
  cases behind key.toList g with
  | some t =>
      show numberAt default (t ++ '}' :: rest) = some (ownNumber default t) ↔
        TxtFits (t ++ '}' :: rest)
      rw [numberAt_eq_some_iff]
      exact ⟨fun h => h.1, fun h => ⟨h, numberOf_own h⟩⟩
  | none =>
      cases behind key.toList rest with
      | none => exact iff_of_true rfl fun p hp => absurd hp.symm (Option.some_ne_none p)
      | some p =>
          show numberAt default p = some default ↔ _
          rw [numberAt_eq_some_iff]
          constructor
          · rintro h p' hp'
            obtain rfl := Option.some.inj hp'
            exact h
          · exact fun h => h p rfl

theorem cmdField_iff : fieldOf "cmd=" [] cmdAt ('{' :: g ++ '}' :: rest) =
    some ((behind "cmd=".toList g).elim [] fun t => strides (t.takeWhile (· ≠ ';'))) ↔
      CmdFits g rest := by
  rw [fieldOf_group (by decide) (by decide) (by decide), CmdFits]
  cases behind "cmd=".toList g with
  | some t => exact cmdAt_own_iff rfl
  | none =>
      cases behind "cmd=".toList rest with
      | none => exact iff_of_true rfl fun p hp => absurd hp.symm (Option.some_ne_none p)
      | some p =>
          have hempty : cmdAt p = some [] ↔ p = [] ∨ p.head? = some ';' := by
            rw [cmdAt]
            split_ifs with hsemi
            · exact iff_of_true rfl (.inr hsemi)
            · rw [cmdLoop_self_iff, or_iff_left hsemi]
          show cmdAt p = some [] ↔ _
          rw [hempty]
          constructor
          · rintro h p' hp'
            obtain rfl := Option.some.inj hp'
            exact h
          · exact fun h => h p rfl

/-- The fields of a group are its own exactly when each of them is. -/
theorem readFields_iff : readFields ('{' :: g ++ '}' :: rest) = some (ownFields g) ↔
    NumberFits "w=" (-1) g rest ∧ CmdFits g rest ∧ NumberFits "para=" 0 g rest := by
  rw [← numberField_iff (by decide) (by decide) (by decide), ← cmdField_iff,
    ← numberField_iff (by decide) (by decide) (by decide), readFields, ownFields]
  constructor
  · intro h
    obtain ⟨w, hw, h⟩ := Option.bind_eq_some_iff.mp h
    obtain ⟨cmd, hcmd, h⟩ := Option.bind_eq_some_iff.mp h
    obtain ⟨para, hpara, h⟩ := Option.bind_eq_some_iff.mp h
    obtain ⟨rfl, rfl, rfl⟩ := Fields.mk.inj (Option.some.inj h)
    exact ⟨hw, hcmd, hpara⟩
  · rintro ⟨hw, hcmd, hpara⟩
    rw [hw, hcmd, hpara]
    rfl

end

/-! ### Operations -/

namespace Handler

variable {panel : ℕ → Option (ℕ → UInt8)} {r r' : Handler} {f : Fields}

/-- A read of some bytes stores inside of the array exactly when the panel is not ready, or there
is room for them. -/
theorem readToData_isSome_iff {answer : Option (ℕ → UInt8)} {len : UInt8} {offset : Int32}
    {data : List UInt8} (hdata : data.length = dataLen) :
    (∃ data', readToData answer len offset data = some data') ↔
      answer = none ∨ len = 0 ∨ 0 ≤ offset.toInt ∧ offset.toInt + len.toNat ≤ dataLen := by
  have hneg : offset < 0 ↔ offset.toInt < 0 := Int32.lt_iff_toInt_lt
  rw [readToData]
  cases answer with
  | none =>
      refine iff_of_true ⟨data, ?_⟩ (.inl rfl)
      split_ifs with hzero hlt hnone
      · rfl
      · rfl
      · exact absurd rfl hnone
      · rfl
  | some f =>
      have hsome : ¬ (some f).isNone = true := Bool.false_ne_true
      have hne : some f ≠ none := Option.some_ne_none f
      rw [or_iff_right hne, if_neg hsome]
      split_ifs with hzero hlt
      · exact iff_of_true ⟨data, rfl⟩ (.inl hzero)
      · have hlt' := hneg.mp hlt
        refine iff_of_false ?_ ?_
        · rintro ⟨_, h⟩
          exact h
        · rintro (h | ⟨h, -⟩)
          · exact hzero h
          · omega
      · have hle : 0 ≤ offset.toInt := not_lt.mp fun h => hlt (hneg.mpr h)
        rw [or_iff_right hzero, and_iff_right hle, readModReg, writeCode, List.length_map,
          List.length_range, hdata]
        split_ifs with hroom
        · exact iff_of_true ⟨_, rfl⟩ (by omega)
        · refine iff_of_false ?_ (by omega)
          rintro ⟨_, h⟩
          exact h

theorem length_readToData {answer : Option (ℕ → UInt8)} {len : UInt8} {offset : Int32}
    {data data' : List UInt8} (h : readToData answer len offset data = some data') :
    data'.length = data.length := by
  rw [readToData] at h
  split_ifs at h
  · rw [Option.some.inj h]
  · rw [Option.some.inj h]
  · exact length_readModReg h

/-- A read that stays inside of the array leaves what it found in its place. -/
theorem readToData_eq {answer : Option (ℕ → UInt8)} {reg len : UInt8} {offset : Int32}
    {data data' : List UInt8} (h : readToData answer len offset data = some data') :
    data' = (Operation.readModReg reg len).dataBehind answer offset.toInt.toNat data := by
  rw [readToData] at h
  rw [Operation.dataBehind]
  cases answer with
  | none =>
      split_ifs at h
      · exact (Option.some.inj h).symm
      · exact (Option.some.inj h).symm
      · exact (Option.some.inj h).symm
  | some byte =>
      rw [Option.elim_some]
      split_ifs at h with hzero hneg hnone
      · obtain rfl := Option.some.inj h
        rw [hzero]
        simp
      · exact absurd hnone Bool.false_ne_true
      · rw [readModReg, writeCode] at h
        split_ifs at h
        rw [← Option.some.inj h, List.length_map, List.length_range]

/-- The length byte and the filling of the array of a write. -/
theorem realtimeArray_eq {reg : UInt8} {rest code : List UInt8}
    (h : realtimeArray reg rest = some code) :
    code = 0x39 :: reg :: UInt8.ofNat rest.length :: rest ++
      List.replicate (realtimeCodeLen - 3 - rest.length) 0xff := by
  rw [realtimeArray] at h
  split_ifs at h
  rw [← Option.some.inj h, Nat.add_sub_cancel, Nat.add_comm, Nat.sub_add_eq]

/-- An operation that goes through is the one that the fields ask for. -/
theorem execute_eq (h : r.execute panel f = some r') :
    r' = r.perform panel f ∧ r'.data.length = r.data.length := by
  rw [execute] at h
  rw [perform, nextLen, Fields.operation]
  split_ifs at h with hread hwrite hdelay
  · have hno : ¬ (f.w = 2 ∧ 0 < f.para) := fun hw => absurd (hread.symm.trans hw.1) (by decide)
    rw [if_neg hno]
    cases hcmd : f.cmd with
    | nil =>
        rw [hcmd] at h
        obtain rfl := Option.some.inj h
        rw [if_neg fun hne => hne.2 rfl]
        exact ⟨rfl, rfl⟩
    | cons reg rest =>
        rw [hcmd] at h
        obtain ⟨data, hdata, rfl⟩ := Option.map_eq_some_iff.mp h
        refine ⟨?_, length_readToData hdata⟩
        simp only [if_pos hread, if_pos (And.intro hread (List.cons_ne_nil reg rest))]
        rw [← readToData_eq hdata]
  · have hno : ¬ (f.w = 2 ∧ 0 < f.para) := fun hw => absurd (hwrite.symm.trans hw.1) (by decide)
    rw [if_neg hno, if_neg fun hne => hread hne.1]
    cases hcmd : f.cmd with
    | nil =>
        rw [hcmd] at h
        obtain rfl := Option.some.inj h
        exact ⟨rfl, rfl⟩
    | cons reg rest =>
        rw [hcmd] at h
        obtain ⟨code, hcode, rfl⟩ := Option.map_eq_some_iff.mp h
        refine ⟨?_, rfl⟩
        rw [realtimeArray_eq hcode]
        simp only [if_neg hread, if_pos hwrite]
        rfl
  · obtain rfl := Option.some.inj h
    rw [if_pos hdelay, if_neg fun hne => hread hne.1]
    exact ⟨rfl, rfl⟩
  · obtain rfl := Option.some.inj h
    rw [if_neg hdelay, if_neg fun hne => hread hne.1]
    cases f.cmd with
    | nil => exact ⟨rfl, rfl⟩
    | cons reg rest =>
        refine ⟨?_, rfl⟩
        simp only [if_neg hread, if_neg hwrite]
        rfl

theorem realtimeArray_isSome_iff {reg : UInt8} {data : List UInt8} :
    (∃ code, realtimeArray reg data = some code) ↔ data.length + 3 ≤ realtimeCodeLen := by
  rw [realtimeArray]
  split_ifs with hroom
  · exact iff_of_true ⟨_, rfl⟩ hroom
  · refine iff_of_false ?_ hroom
    rintro ⟨_, h⟩
    exact h

/-- An operation goes through exactly when it fits, or the panel is not ready for its read. -/
theorem execute_isSome_iff (hdata : r.data.length = dataLen) :
    (∃ r', r.execute panel f = some r') ↔
      (f.w = 0 → f.cmd ≠ [] → panel r.performed.length = none ∨ UInt8.ofInt f.para.toInt = 0 ∨
        0 ≤ r.len.toInt ∧ r.len.toInt + (UInt8.ofInt f.para.toInt).toNat ≤ dataLen) ∧
      (f.w = 1 → f.cmd.length + 2 ≤ realtimeCodeLen) := by
  rw [execute]
  rcases eq_or_ne f.w 0 with hread | hread
  · have hno : ¬ f.w = 1 := by
      rw [hread]
      decide
    rw [if_pos hread, and_iff_left fun h => absurd h hno, forall_prop_of_true hread]
    cases hcmd : f.cmd with
    | nil => exact iff_of_true ⟨_, rfl⟩ fun hne => absurd rfl hne
    | cons reg rest =>
        rw [forall_prop_of_true (List.cons_ne_nil reg rest), ← readToData_isSome_iff hdata]
        exact exists_map_eq_some_iff
  · rw [if_neg hread, and_iff_right fun h => absurd h hread]
    rcases eq_or_ne f.w 1 with hwrite | hwrite
    · rw [if_pos hwrite, forall_prop_of_true hwrite]
      cases hcmd : f.cmd with
      | nil => exact iff_of_true ⟨_, rfl⟩ (by decide)
      | cons reg rest =>
          rw [List.length_cons, Nat.add_assoc, ← realtimeArray_isSome_iff]
          exact exists_map_eq_some_iff
    · rw [if_neg hwrite]
      refine iff_of_true ?_ fun h => absurd h hwrite
      split_ifs
      · exact ⟨_, rfl⟩
      · exact ⟨_, rfl⟩

/-! ### Runs -/

/-- A turn over a group. -/
def groupTurn (panel : ℕ → Option (ℕ → UInt8)) (r : Handler) (group : Str × Str) :
    Option Handler :=
  r.turn panel ('{' :: group.1 ++ '}' :: group.2)

theorem handle_of_none {s : Str} (h : nextGroup s = none) (r : Handler) :
    r.handle panel s = some r := by
  rw [handle]
  split
  · rfl
  · next pStart hstart =>
      split
      · rfl
      · next pEnd hend =>
          rcases nextGroup_eq_none h with hnone | ⟨p, hp, hnone⟩
          · exact absurd (hnone.symm.trans hstart).symm (Option.some_ne_none pStart)
          · obtain rfl := Option.some.inj (hp.symm.trans hstart)
            exact absurd (hnone.symm.trans hend).symm (Option.some_ne_none pEnd)

theorem handle_of_some {s g rest : Str} (h : nextGroup s = some (g, rest)) (r : Handler) :
    r.handle panel s = (groupTurn panel r (g, rest)).bind fun r => r.handle panel rest := by
  obtain ⟨-, hstart, hend⟩ := nextGroup_eq_some h
  rw [handle]
  split
  · next hnone => exact absurd (hstart.symm.trans hnone) (Option.some_ne_none _)
  · next pStart hstart' =>
      obtain rfl := Option.some.inj (hstart.symm.trans hstart')
      split
      · next hnone => exact absurd (hend.symm.trans hnone) (Option.some_ne_none _)
      · next pEnd hend' =>
          obtain rfl := Option.some.inj (hend.symm.trans hend')
          rfl

/-- The handler goes from one group to the next. -/
theorem handle_eq (r : Handler) (ptr : Str) :
    r.handle panel ptr = (groups ptr).foldlM (groupTurn panel) r := by
  induction ptr using groups.induct generalizing r with
  | case1 s h =>
      rw [handle_of_none h, groups_of_none h]
      rfl
  | case2 s g rest h ih =>
      rw [handle_of_some h, groups_of_some h, List.foldlM_cons]
      simp only [ih]
      rfl

/-- What was performed stays at the front. -/
theorem performed_of_run {gs : List (Str × Str)} (h : gs.foldlM (groupTurn panel) r = some r') :
    r.performed.map Prod.fst <+: r'.performed.map Prod.fst := by
  induction gs generalizing r with
  | nil =>
      obtain rfl := Option.some.inj h
      exact List.prefix_rfl
  | cons group gs ih =>
      rw [List.foldlM_cons] at h
      obtain ⟨r₁, hturn, h⟩ := Option.bind_eq_some_iff.mp h
      obtain ⟨f, -, hexecute⟩ := Option.bind_eq_some_iff.mp hturn
      obtain ⟨rfl, -⟩ := execute_eq hexecute
      have hprefix := ih h
      rw [perform, List.map_append] at hprefix
      exact (List.prefix_append _ _).trans hprefix

theorem performed_foldl (fs : List Fields) (r : Handler) :
    (fs.foldl (perform panel) r).performed.map Prod.fst = r.performed.map Prod.fst ++ fs := by
  induction fs generalizing r with
  | nil => exact (List.append_nil _).symm
  | cons f fs ih =>
      rw [List.foldl_cons, ih, perform, List.map_append, List.append_assoc]
      rfl

/-- A run over groups that fit carries out their own operations. -/
theorem run_of_fits {gs : List (Str × Str)} (hdata : r.data.length = dataLen)
    (hfits : GroupsFit r.len gs) :
    gs.foldlM (groupTurn panel) r =
      some ((gs.map fun group => ownFields group.1).foldl (perform panel) r) := by
  induction gs generalizing r with
  | nil => rfl
  | cons group gs ih =>
      obtain ⟨g, rest⟩ := group
      obtain ⟨hw, hcmd, hpara, hoperation, hrest⟩ := hfits
      obtain ⟨r₁, hexecute⟩ := (execute_isSome_iff hdata).mpr
        ⟨fun h h' => .inr (hoperation.1 h h'), hoperation.2⟩
      have hturn : groupTurn panel r (g, rest) = some r₁ := by
        rw [groupTurn, turn, readFields_iff.mpr ⟨hw, hcmd, hpara⟩]
        exact hexecute
      obtain ⟨rfl, hdata₁⟩ := execute_eq hexecute
      rw [List.foldlM_cons, hturn]
      exact ih (hdata₁.trans hdata) hrest

/-- With a panel that answers, a run with the groups' own fields is over groups that fit. -/
theorem fits_of_run {gs : List (Str × Str)} (hpanel : ∀ n, panel n ≠ none)
    (hdata : r.data.length = dataLen) (hrun : gs.foldlM (groupTurn panel) r = some r')
    (hmap : r'.performed.map Prod.fst =
      r.performed.map Prod.fst ++ gs.map fun group => ownFields group.1) : GroupsFit r.len gs := by
  induction gs generalizing r with
  | nil => trivial
  | cons group gs ih =>
      obtain ⟨g, rest⟩ := group
      rw [List.foldlM_cons] at hrun
      obtain ⟨r₁, hturn, hrun⟩ := Option.bind_eq_some_iff.mp hrun
      obtain ⟨f, hfields, hexecute⟩ := Option.bind_eq_some_iff.mp hturn
      obtain ⟨hr₁, hdata₁⟩ := execute_eq hexecute
      have hperformed : r₁.performed.map Prod.fst = r.performed.map Prod.fst ++ [f] := by
        rw [hr₁]
        exact List.map_append
      have hprefix := performed_of_run hrun
      rw [hmap, hperformed, List.map_cons] at hprefix
      obtain rfl : f = ownFields g := by
        have hone := (List.prefix_append_right_inj _).mp hprefix
        exact (List.cons_prefix_cons.mp hone).1
      obtain ⟨hw, hcmd, hpara⟩ := readFields_iff.mp hfields
      obtain ⟨hread, hwrite⟩ := (execute_isSome_iff hdata).mp ⟨r₁, hexecute⟩
      refine ⟨hw, hcmd, hpara, ⟨?_, hwrite⟩, ?_⟩
      · exact fun h h' => (hread h h').resolve_left (hpanel _)
      · have hlen : r₁.len = nextLen r.len (ownFields g) := congrArg Handler.len hr₁
        rw [← hlen]
        apply ih (hdata₁.trans hdata) hrun
        rw [hmap, hperformed, List.map_cons, List.append_assoc, List.singleton_append]

end Handler

theorem length_start (data : Fin dataLen → UInt8) :
    (Handler.start data).data.length = dataLen := by
  rw [Handler.start, List.length_ofFn]

/-- A panel that answers to every read shows whether the groups fit. -/
theorem groupsFit_of_realtimeKept {s : Str} (h : ∀ panel data, RealtimeKept panel data s) :
    GroupsFit 0 (groups s) := by
  let panel : ℕ → Option (ℕ → UInt8) := fun _ => some fun _ => 0
  let data : Fin dataLen → UInt8 := fun _ => 0
  have hpanel : ∀ n, panel n ≠ none := fun _ => Option.some_ne_none _
  have hrun := h panel data
  rw [RealtimeKept, Handler.handle_eq] at hrun
  exact Handler.fits_of_run hpanel (length_start data) hrun (Handler.performed_foldl _ _)

/-- The strings whose operations are carried out as they should be, whatever the panel answers, are
those whose groups fit. -/
theorem realtimeKept_iff (s : Str) :
    (∀ panel data, RealtimeKept panel data s) ↔ GroupsFit 0 (groups s) := by
  constructor
  · exact groupsFit_of_realtimeKept
  · intro hfits panel data
    rw [RealtimeKept, Handler.handle_eq]
    exact Handler.run_of_fits (length_start data) hfits

/-- The first group has no `para`, and takes that of the second. -/
theorem not_realtimeKept_para : ¬ ∀ panel data,
    RealtimeKept panel data "\x7bw=2;cmd=;\x7d\x7bw=2;cmd=;para=7;\x7d".toList := by
  intro h
  have hgroup : nextGroup "\x7bw=2;cmd=;\x7d\x7bw=2;cmd=;para=7;\x7d".toList =
      some ("w=2;cmd=;".toList, "\x7bw=2;cmd=;para=7;\x7d".toList) := by
    decide
  have hfits := groupsFit_of_realtimeKept h
  rw [groups_of_some hgroup] at hfits
  obtain ⟨-, -, hpara, -⟩ := hfits
  have hread := hpara "7;\x7d".toList rfl
  exact absurd hread.2 (by decide)

end PanelTester.Realtime
