import PanelTester.Library.CString

/-!
The text that gamma registers travel in: `client_end_read_gamma` of `client.c` prints three
characters for a byte, and `parse_gamma_reg_data` of `clirecvcmd5srv.c` takes three at a time.
It looks for the end of the string only at every third character, and never for the end of the
buffer.
-/

namespace PanelTester.Gamma

open Library

/-- What `sprintf` prints for a byte. -/
def printByte (b : UInt8) : Str := printHex upperDigits b ++ [';']

/-- The loop of `client_end_read_gamma` that fills `str_data`. -/
def clientEndReadGamma (data : List UInt8) : Option Str :=
  data.foldlM (fun strData b => strcat 1000 strData (printByte b)) []

/-- What `sscanf` with `%02X` finds in at most two characters, or the 0 that was there. -/
def scanByte (cc : Str) : UInt8 := UInt8.ofInt (strtol cc 16)

/-- `p_gamma_reg_data_buf[len] = val`, which has no result when it leaves the buffer. -/
def store (buf : List UInt8) (len : ℕ) (val : UInt8) : Option (List UInt8) :=
  if len < buf.length then some (buf.set len val) else none

/-- The loop of `parse_gamma_reg_data`; `ptr` stands in front of what is left of the string. -/
def parseLoop (buf : List UInt8) (len : ℕ) : Str → Option (ℕ × List UInt8)
  | [] => some (len, buf)
  | c :: ptr =>
      (store buf len (scanByte (c :: ptr.take 1))).bind fun buf =>
        match ptr with
        | _ :: _ :: ptr => parseLoop buf (len + 1) ptr
        | _ => none -- the next `ptr[0]` is behind the terminating zero

/-- `parse_gamma_reg_data`, with a buffer of `gamma_reg_data_buf_len` bytes. -/
def parseGammaRegData (orgData : Option Str) (buf : List UInt8) : Option (ℕ × List UInt8) :=
  match orgData with
  | none => some (0, buf)
  | some ptr => parseLoop buf 0 ptr

/-! ### What is printed -/

/-- As long as it fits the text is that of the bytes one after the other. -/
theorem foldlM_strcat_eq_some {data : List UInt8} {strData text : Str}
    (h : data.foldlM (fun strData b => strcat 1000 strData (printByte b)) strData = some text) :
    text = strData ++ data.flatMap printByte := by
  induction data generalizing strData with
  | nil =>
      obtain rfl := Option.some.inj h
      rw [List.flatMap_nil, List.append_nil]
  | cons b data ih =>
      rw [List.foldlM_cons] at h
      obtain ⟨longer, hlonger, h⟩ := Option.bind_eq_some_iff.mp h
      rw [strcat, Option.ite_none_right_eq_some] at hlonger
      obtain ⟨-, hlonger⟩ := hlonger
      obtain rfl := Option.some.inj hlonger
      rw [ih h, List.flatMap_cons, List.append_assoc]

theorem clientEndReadGamma_eq_some {data : List UInt8} {text : Str}
    (h : clientEndReadGamma data = some text) : text = data.flatMap printByte :=
  foldlM_strcat_eq_some h

/-- A printed byte is read back. -/
theorem scanByte_printHex (b : UInt8) : scanByte (printHex upperDigits b) = b := by
  have hlt := b.toNat_lt
  have hmod : ((b.toNat : ℤ) % 2 ^ 8).toNat = b.toNat := by omega
  rw [scanByte, strtol_printHex isDigits_upper, UInt8.ofInt, hmod, UInt8.ofNat_toNat]

/-! ### Reading the text -/

/-- A turn of the loop over three characters. -/
theorem parseLoop_three (buf : List UInt8) (len : ℕ) (c d e : Char) (ptr : Str) :
    parseLoop buf len (c :: d :: e :: ptr) =
      (store buf len (scanByte [c, d])).bind fun buf => parseLoop buf (len + 1) ptr := rfl

/-- A turn of the loop over the last one or two characters. -/
theorem parseLoop_short (buf : List UInt8) (len : ℕ) {ptr : Str} (hne : ptr ≠ [])
    (hshort : ptr.length < 3) : parseLoop buf len ptr = none := by
  match ptr, hne, hshort with
  | [c], _, _ => exact Option.bind_eq_none_iff.mpr fun _ _ => rfl
  | [c, d], _, _ => exact Option.bind_eq_none_iff.mpr fun _ _ => rfl
  | _ :: _ :: _ :: _, _, hshort => exact absurd hshort (by simp)

/-- The bytes that are written, one for three characters, and the rest of the buffer. -/
def triples : Str → List UInt8
  | c :: d :: _ :: ptr => scanByte [c, d] :: triples ptr
  | _ => []

theorem triples_flatMap_printByte (data : List UInt8) :
    triples (data.flatMap printByte) = data := by
  induction data with
  | nil => rfl
  | cons b data ih =>
      have hfirst : triples ((b :: data).flatMap printByte) =
          scanByte (printHex upperDigits b) :: triples (data.flatMap printByte) := rfl
      rw [hfirst, scanByte_printHex, ih]

theorem length_triples (ptr : Str) : (triples ptr).length = ptr.length / 3 := by
  induction ptr using triples.induct with
  | case1 c d e ptr ih =>
      rw [triples, List.length_cons, ih]
      simp only [List.length_cons]
      omega
  | case2 ptr hshort =>
      have hlt : ptr.length < 3 := by
        match ptr, hshort with
        | [], _ => exact Nat.zero_lt_succ 2
        | [_], _ => exact Nat.succ_lt_succ (Nat.zero_lt_succ 1)
        | [_, _], _ => exact Nat.lt_succ_self 2
        | c :: d :: e :: ptr, hshort => exact absurd rfl (hshort c d e ptr)
      rw [Nat.div_eq_of_lt hlt, triples]
      · rfl
      · exact hshort

/-- The loop takes three characters a time to the end of the string, and a byte of the buffer
each time. -/
theorem parseLoop_iff (ptr : Str) (done buf : List UInt8) :
    (∃ r, parseLoop (done ++ buf) done.length ptr = some r) ↔
      ptr.length % 3 = 0 ∧ ptr.length / 3 ≤ buf.length := by
  induction ptr using triples.induct generalizing done buf with
  | case1 c d e ptr ih =>
      rw [parseLoop_three, store]
      simp only [List.length_append, List.length_cons]
      cases buf with
      | nil =>
          rw [if_neg (by simp), Option.bind_none, List.length_nil]
          apply iff_of_false (by simp)
          omega
      | cons b buf =>
          rw [if_pos (by simp), Option.bind_some, List.set_append_right _ _ le_rfl, Nat.sub_self,
            List.set_cons_zero, List.append_cons]
          have hlen : done.length + 1 = (done ++ [scanByte [c, d]]).length := by simp
          rw [hlen, ih, List.length_cons]
          omega
  | case2 ptr hshort =>
      rcases eq_or_ne ptr [] with rfl | hne
      · exact iff_of_true ⟨_, rfl⟩ ⟨rfl, Nat.zero_le _⟩
      · have hpos : ptr.length ≠ 0 := fun h => hne (List.eq_nil_of_length_eq_zero h)
        have hzero := length_triples ptr
        rw [triples] at hzero
        · rw [List.length_nil] at hzero
          rw [parseLoop_short _ _ hne (by omega)]
          apply iff_of_false (by simp)
          omega
        · exact hshort

/-- What the loop leaves in the buffer. -/
theorem parseLoop_eq_some {ptr : Str} {done buf : List UInt8} {r : ℕ × List UInt8}
    (h : parseLoop (done ++ buf) done.length ptr = some r) :
    r = (done.length + ptr.length / 3,
      done ++ triples ptr ++ buf.drop (ptr.length / 3)) := by
  induction ptr using triples.induct generalizing done buf with
  | case1 c d e ptr ih =>
      rw [parseLoop_three, store] at h
      cases buf with
      | nil => simp at h
      | cons b buf =>
          rw [if_pos (by simp), Option.bind_some, List.set_append_right _ _ le_rfl, Nat.sub_self,
            List.set_cons_zero, List.append_cons] at h
          have hlen : done.length + 1 = (done ++ [scanByte [c, d]]).length := by simp
          have hthird : (c :: d :: e :: ptr).length / 3 = ptr.length / 3 + 1 := by
            simp only [List.length_cons]
            omega
          rw [hlen] at h
          rw [ih h, hthird, ← hlen, triples, List.drop_succ_cons]
          simp only [List.append_assoc, List.cons_append, List.nil_append, Prod.mk.injEq, and_true]
          omega
  | case2 ptr hshort =>
      rcases eq_or_ne ptr [] with rfl | hne
      · obtain rfl := Option.some.inj h
        simp [triples]
      · obtain ⟨hmod, -⟩ := (parseLoop_iff ptr done buf).mp ⟨_, h⟩
        have hzero := length_triples ptr
        rw [triples] at hzero
        · rw [List.length_nil] at hzero
          exact absurd (List.eq_nil_of_length_eq_zero (by omega)) hne
        · exact hshort

/-! ### Which texts are read -/

/-- What is promised of a string and the buffer that it is read into: no more is written than
the buffer holds, nothing is read behind the end of the string, and the bytes that a printed
text came from are there again, with their number. -/
def ReadsText (orgData : Option Str) (buf : List UInt8) : Prop :=
  ∃ len buf', parseGammaRegData orgData buf = some (len, buf') ∧ len ≤ buf.length ∧
    buf'.length = buf.length ∧ buf'.drop len = buf.drop len ∧
      ∀ data text, clientEndReadGamma data = some text → orgData = some text →
        len = data.length ∧ buf'.take len = data

theorem readsText_iff (orgData : Option Str) (buf : List UInt8) :
    ReadsText orgData buf ↔
      ∀ str, orgData = some str → str.length % 3 = 0 ∧ str.length / 3 ≤ buf.length := by
  cases orgData with
  | none =>
      refine iff_of_true ⟨0, buf, rfl, Nat.zero_le _, rfl, rfl, ?_⟩ ?_
      · intro data text _ htext
        exact absurd htext.symm (Option.some_ne_none text)
      · intro str hstr
        exact absurd hstr.symm (Option.some_ne_none str)
  | some text =>
      have hiff := parseLoop_iff text [] buf
      constructor
      · rintro ⟨len, buf', hrun, -⟩ str hstr
        obtain rfl := Option.some.inj hstr
        exact hiff.mp ⟨_, hrun⟩
      · intro h
        obtain ⟨hmod, hfit⟩ := h text rfl
        obtain ⟨r, hr⟩ := hiff.mpr ⟨hmod, hfit⟩
        have hresult := parseLoop_eq_some hr
        rw [List.length_nil, Nat.zero_add, List.nil_append] at hresult
        have htriples := length_triples text
        refine ⟨text.length / 3, triples text ++ buf.drop (text.length / 3), ?_, hfit, ?_, ?_, ?_⟩
        · rw [← hresult]
          exact hr
        · rw [List.length_append, List.length_drop, htriples]
          omega
        · rw [← htriples, List.drop_left]
        · intro data printed hdata hprinted
          have hbytes : triples text = data := by
            rw [Option.some.inj hprinted, clientEndReadGamma_eq_some hdata,
              triples_flatMap_printByte]
          rw [← htriples, hbytes]
          exact ⟨rfl, List.take_left⟩

/-- A string of one character: the loop goes on two characters behind its end. -/
theorem not_readsText_digit : ¬ ReadsText (some "0".toList) (List.replicate 255 0) := by
  rintro ⟨len, buf', hrun, -⟩
  have hnone : parseGammaRegData (some "0".toList) (List.replicate 255 0) = none :=
    parseLoop_short _ 0 (List.cons_ne_nil _ _) (Nat.succ_lt_succ (Nat.zero_lt_succ 1))
  exact Option.some_ne_none _ (hrun.symm.trans hnone)

example : parseGammaRegData (some "0A;ff;".toList) [1, 2, 3] = some (2, [10, 255, 3]) := by
  decide

end PanelTester.Gamma
