import PanelTester.Common.RingBuf
import PanelTester.Library.Tokens

/-!
The receive task of the serial scanner. What is read from the port goes through a ring buffer,
and the parser copies up to 128 bytes of it to look for the `@` behind a barcode. The barcodes
are the tokens of the stream however it is cut into reads, as long as none is empty, none has
128 bytes, and no read takes the whole buffer of 1500 bytes; each of the three runs the task
out of its memory.
-/

namespace PanelTester.Serial

open Library Common

/-- `RING_BUF_SIZE` -/
def ringBufSize : ℕ := 512 * 1024

/-- `TEMP_SIZE` -/
def tempSize : ℕ := 1500

/-- The size of `temp` in `parseSerialData`. -/
def parseSize : ℕ := 128

/-- The character `@` -/
def keyword : UInt8 := 0x40

/-- `serialDev_t`, as far as received data go: the buffer, and the data of the nodes. -/
structure SerialDev where
  pRcvBuf : RingBuf
  pListM : List (List UInt8)
  deriving DecidableEq

/-- `strstr` for a string of one character: where it is before the next NUL. There is no result
when `temp` ends first. -/
def strstr (c : UInt8) : List UInt8 → Option (Option ℕ)
  | [] => none
  | b :: temp =>
      if b = c then some (some 0)
      else if b = 0 then some none
      else (strstr c temp).map fun pEnd => pEnd.map (· + 1)

/-- `nodeMMalloc`: an empty node with room for `len` bytes, or `NULL`. -/
def nodeMMalloc (len : ℕ) : Option (List UInt8) :=
  if len = 0 then none else some (List.replicate len 0)

/-- The loop of `parseSerialData`. There is no result when it leaves `temp` or goes through
`NULL`. -/
def parseLoop : ℕ → SerialDev → Option SerialDev
  | 0, _ => none
  | n + 1, pM =>
      let available := ringBufAvailableBytesForRead pM.pRcvBuf
      let availableBytes := if available > parseSize then parseSize else available
      (ringBufClone pM.pRcvBuf availableBytes).bind fun (_, bytes) =>
        let temp := bytes ++ List.replicate (parseSize - bytes.length) 0
        (strstr keyword temp).bind fun pEnd =>
          match pEnd with
          | none => some pM
          | some dataAreaLen =>
              let needBytes := dataAreaLen + 1
              if available < needBytes then some pM
              else
                (nodeMMalloc dataAreaLen).bind fun pDataAreaM =>
                  (ringBufRead pM.pRcvBuf needBytes).bind fun (_, bytes, pRcvBuf) =>
                    let temp := blit temp 0 bytes
                    parseLoop n
                      { pRcvBuf
                        pListM := pM.pListM ++ [blit pDataAreaM 0 (temp.take dataAreaLen)] }

/-- `parseSerialData`. A pass of the loop that goes on takes a byte out of the buffer. -/
def parseSerialData (pM : SerialDev) : Option SerialDev :=
  parseLoop (ringBufAvailableBytesForRead pM.pRcvBuf + 1) pM

/-- What `select` in `rcvTask` comes back for. -/
inductive Wakeup
  | timeout
  | bytes (temp : List UInt8)

/-- The loop of `rcvTask`, up to an error of the port. There is no result when it leaves
`temp`. -/
def rcvTask : SerialDev → List Wakeup → Option SerialDev
  | pM, [] => some pM
  | pM, .timeout :: wakeups => rcvTask { pM with pRcvBuf := ringBufClear pM.pRcvBuf } wakeups
  | pM, .bytes temp :: wakeups =>
      if temp.length = 0 then some pM
      else if temp.length < tempSize then
        if ringBufAvailableBytesForWrite pM.pRcvBuf < temp.length then rcvTask pM wakeups
        else
          (ringBufWrite pM.pRcvBuf temp).bind fun (_, pRcvBuf) =>
            (parseSerialData { pM with pRcvBuf }).bind fun pM => rcvTask pM wakeups
      else none

/-- The device that `serialDevMalloc` makes. -/
def serialDevMalloc : Option SerialDev :=
  (ringBufInit ringBufSize).map fun pRcvBuf => { pRcvBuf, pListM := [] }

/-! ### The search -/

theorem strstr_found {t : List UInt8} (ht : keyword ∉ t) (hnul : 0 ∉ t) (more : List UInt8) :
    strstr keyword (t ++ keyword :: more) = some (some t.length) := by
  induction t with
  | nil => exact if_pos rfl
  | cons b t ih =>
      rw [List.cons_append, strstr, if_neg (List.ne_of_not_mem_cons ht).symm,
        if_neg (List.ne_of_not_mem_cons hnul).symm,
        ih (List.not_mem_of_not_mem_cons ht) (List.not_mem_of_not_mem_cons hnul)]
      rfl

theorem strstr_nul {t : List UInt8} (ht : keyword ∉ t) (hnul : 0 ∉ t) (more : List UInt8) :
    strstr keyword (t ++ 0 :: more) = some none := by
  induction t with
  | nil => exact (if_neg (by decide)).trans (if_pos rfl)
  | cons b t ih =>
      rw [List.cons_append, strstr, if_neg (List.ne_of_not_mem_cons ht).symm,
        if_neg (List.ne_of_not_mem_cons hnul).symm,
        ih (List.not_mem_of_not_mem_cons ht) (List.not_mem_of_not_mem_cons hnul)]
      rfl

theorem strstr_outside {t : List UInt8} (ht : keyword ∉ t) (hnul : 0 ∉ t) :
    strstr keyword t = none := by
  induction t with
  | nil => rfl
  | cons b t ih =>
      rw [strstr, if_neg (List.ne_of_not_mem_cons ht).symm,
        if_neg (List.ne_of_not_mem_cons hnul).symm,
        ih (List.not_mem_of_not_mem_cons ht) (List.not_mem_of_not_mem_cons hnul)]
      rfl

/-! ### The parser -/

/-- The barcodes of a text have one byte or more, and fewer than 128; so has what is behind
them. -/
structure Fits (s : List UInt8) : Prop where
  ne_nil : ∀ t ∈ tokens keyword s, t ≠ []
  short : ∀ t ∈ tokens keyword s, t.length < parseSize
  rest : (rest keyword s).length < parseSize

theorem fits_cons_iff {t : List UInt8} (ht : keyword ∉ t) (s : List UInt8) :
    Fits (t ++ keyword :: s) ↔ t ≠ [] ∧ t.length < parseSize ∧ Fits s := by
  constructor
  · intro h
    have hne := h.ne_nil
    have hshort := h.short
    have hrest := h.rest
    rw [tokens_cons ht] at hne hshort
    rw [rest_cons ht] at hrest
    exact ⟨hne t List.mem_cons_self, hshort t List.mem_cons_self,
      fun u hu => hne u (List.mem_cons_of_mem t hu),
      fun u hu => hshort u (List.mem_cons_of_mem t hu),
      hrest⟩
  · rintro ⟨hne, hshort, hfits⟩
    refine ⟨?_, ?_, (rest_cons ht s).symm ▸ hfits.rest⟩
    · rw [tokens_cons ht]
      exact List.forall_mem_cons.mpr ⟨hne, hfits.ne_nil⟩
    · rw [tokens_cons ht]
      exact List.forall_mem_cons.mpr ⟨hshort, hfits.short⟩

theorem fits_of_notMem {t : List UInt8} (ht : keyword ∉ t) : Fits t ↔ t.length < parseSize := by
  have htokens := tokens_of_notMem ht
  have hrest := rest_of_notMem ht
  constructor
  · intro h
    exact hrest ▸ h.rest
  · intro h
    exact ⟨by simp [htokens], by simp [htokens], hrest.symm ▸ h⟩

/-- A text that is cut off is fit when the whole is. -/
theorem Fits.of_append {s m : List UInt8} (h : Fits (s ++ m)) : Fits s := by
  induction s using tokens_induction keyword with
  | stop t ht =>
      rw [fits_of_notMem ht]
      by_cases hm : keyword ∈ m
      · obtain ⟨u, m, rfl, hu⟩ := List.eq_append_cons_of_mem hm
        rw [← List.append_assoc, fits_cons_iff (by simp [ht, hu])] at h
        have hlength := h.2.1
        rw [List.length_append] at hlength
        omega
      · rw [fits_of_notMem (by simp [ht, hm]), List.length_append] at h
        omega
  | step t s ht ih =>
      rw [List.append_assoc, List.cons_append, fits_cons_iff ht] at h
      exact (fits_cons_iff ht s).mpr ⟨h.1, h.2.1, ih h.2.2⟩

/-- A text that follows another is fit exactly when it is behind the rest of the other. -/
theorem fits_append_iff {s : List UInt8} (h : Fits s) (m : List UInt8) :
    Fits (s ++ m) ↔ Fits (rest keyword s ++ m) := by
  induction s using tokens_induction keyword with
  | stop t ht => rw [rest_of_notMem ht]
  | step t s ht ih =>
      obtain ⟨hne, hshort, hfits⟩ := (fits_cons_iff ht s).mp h
      rw [List.append_assoc, List.cons_append, fits_cons_iff ht, rest_cons ht, ih hfits]
      exact ⟨fun h => h.2.2, fun h => ⟨hne, hshort, h⟩⟩

/-- The buffer of the device holds a text. -/
structure SerialDev.Holds (pM : SerialDev) (q : List UInt8) : Prop where
  valid : pM.pRcvBuf.Valid
  len : pM.pRcvBuf.len = ringBufSize
  contents : pM.pRcvBuf.contents = q

variable {pM : SerialDev} {q t s : List UInt8}

theorem SerialDev.Holds.available (h : pM.Holds q) :
    ringBufAvailableBytesForRead pM.pRcvBuf = q.length := by
  rw [← length_contents h.valid, h.contents]

theorem SerialDev.Holds.sum_lt (h : pM.Holds q) {n : ℕ} (hn : n ≤ q.length) :
    pM.pRcvBuf.read + n < 2 ^ 32 := by
  have hread := h.valid.read
  have hlt := availableForRead_lt h.valid
  have havailable := h.available
  have hlen : pM.pRcvBuf.len = 512 * 1024 := h.len
  omega

/-- What is copied to `temp`: the first 128 bytes, with a NUL behind them if they are fewer. -/
theorem SerialDev.Holds.clone (h : pM.Holds q) :
    ringBufClone pM.pRcvBuf (if q.length > parseSize then parseSize else q.length) =
      some (if q.length > parseSize then parseSize else q.length, q.take parseSize) := by
  have hle : (if q.length > parseSize then parseSize else q.length) ≤ q.length := by
    split_ifs <;> omega
  rw [ringBufClone_contents h.valid (h.available.symm ▸ hle) (h.sum_lt hle), h.contents]
  split_ifs with hlong
  · rfl
  · rw [List.take_of_length_le (le_refl q.length), List.take_of_length_le (Nat.not_lt.mp hlong)]

/-- The search of a text in the buffer. -/
theorem SerialDev.Holds.parseLoop (h : pM.Holds q) (n : ℕ) :
    Serial.parseLoop (n + 1) pM =
      (strstr keyword
          (q.take parseSize ++ List.replicate (parseSize - (q.take parseSize).length) 0)).bind
        fun pEnd => match pEnd with
          | none => some pM
          | some dataAreaLen =>
              if q.length < dataAreaLen + 1 then some pM
              else
                (nodeMMalloc dataAreaLen).bind fun pDataAreaM =>
                  (ringBufRead pM.pRcvBuf (dataAreaLen + 1)).bind fun (_, bytes, pRcvBuf) =>
                    Serial.parseLoop n
                      { pRcvBuf
                        pListM := pM.pListM ++ [blit pDataAreaM 0 ((blit (q.take parseSize ++
                          List.replicate (parseSize - (q.take parseSize).length) 0) 0 bytes).take
                          dataAreaLen)] } := by
  rw [Serial.parseLoop]
  simp only [h.available]
  rw [h.clone]
  rfl

/-- No `@` is in the buffer: the parser waits for it, or it looks for it behind `temp`. -/
theorem SerialDev.Holds.parseLoop_stop (h : pM.Holds t) (ht : keyword ∉ t) (hnul : 0 ∉ t) (n : ℕ) :
    Serial.parseLoop (n + 1) pM = if t.length < parseSize then some pM else none := by
  have hsub : ∀ c, c ∉ t → c ∉ t.take parseSize := fun c hc hmem => hc (List.mem_of_mem_take hmem)
  rw [h.parseLoop]
  split_ifs with hshort
  · have htemp : t.take parseSize = t := List.take_of_length_le hshort.le
    have hpad : List.replicate (parseSize - t.length) (0 : UInt8) =
        0 :: List.replicate (parseSize - t.length - 1) 0 := by
      rw [← List.replicate_succ]
      congr 1
      omega
    rw [htemp, hpad, strstr_nul ht hnul]
    rfl
  · have hpad : parseSize - (t.take parseSize).length = 0 := by
      rw [List.length_take]
      omega
    rw [hpad, List.replicate_zero, List.append_nil, strstr_outside (hsub _ ht) (hsub _ hnul)]
    rfl

theorem blit_all {dst src : List UInt8} (h : dst.length = src.length) : blit dst 0 src = src := by
  rw [blit, List.take_zero, List.nil_append, Nat.zero_add, List.drop_of_length_le h.le,
    List.append_nil]

/-- A barcode is in front of the buffer: it is delivered, if it is neither empty nor too long. -/
theorem SerialDev.Holds.parseLoop_token (h : pM.Holds (t ++ keyword :: s)) (ht : keyword ∉ t)
    (hnul : 0 ∉ t) (hne : t ≠ []) (hshort : t.length < parseSize) :
    ∃ pRcvBuf, (∀ n, Serial.parseLoop (n + 1) pM =
        Serial.parseLoop n { pRcvBuf, pListM := pM.pListM ++ [t] }) ∧
      SerialDev.Holds { pRcvBuf, pListM := pM.pListM ++ [t] } s := by
  have hlength : (t ++ keyword :: s).length = t.length + 1 + s.length := by
    rw [List.length_append, List.length_cons]
    omega
  have hready : t.length + 1 ≤ ringBufAvailableBytesForRead pM.pRcvBuf := by
    rw [h.available]
    omega
  obtain ⟨pRcvBuf, hread, hvalid, hlen, hcontents⟩ :=
    ringBufRead_contents h.valid hready (h.sum_lt (by omega))
  have htaken : (t ++ keyword :: s).take (t.length + 1) = t ++ [keyword] := by
    rw [List.take_append, List.take_of_length_le (by omega),
      show t.length + 1 - t.length = 1 by omega]
    rfl
  have hdropped : (t ++ keyword :: s).drop (t.length + 1) = s := by
    rw [List.drop_append, List.drop_of_length_le (by omega),
      show t.length + 1 - t.length = 1 by omega]
    rfl
  rw [h.contents] at hread hcontents
  refine ⟨pRcvBuf, fun n => ?_, hvalid, hlen.trans h.len, hcontents.trans hdropped⟩
  have htemp : (t ++ keyword :: s).take parseSize =
      t ++ keyword :: s.take (parseSize - t.length - 1) := by
    rw [List.take_append, List.take_of_length_le hshort.le,
      show parseSize - t.length = parseSize - t.length - 1 + 1 by omega, List.take_succ_cons]
    rfl
  have hnode : nodeMMalloc t.length = some (List.replicate t.length 0) :=
    if_neg fun hzero => hne (List.length_eq_zero_iff.mp hzero)
  rw [h.parseLoop, htemp, List.append_assoc, List.cons_append, strstr_found ht hnul]
  simp only [Option.bind_some]
  rw [if_neg (by omega), hnode, Option.bind_some, hread, Option.bind_some, htaken]
  have hcopied : blit (List.replicate t.length 0) 0
      ((blit (t ++ keyword :: (s.take (parseSize - t.length - 1) ++
        List.replicate
          (parseSize - (t ++ keyword :: s.take (parseSize - t.length - 1)).length) 0)) 0
        (t ++ [keyword])).take t.length) = t := by
    have hfront : ∀ more : List UInt8, (blit more 0 (t ++ [keyword])).take t.length = t := by
      intro more
      rw [blit, List.take_zero, List.nil_append, List.append_assoc, List.take_left]
    rw [hfront, blit_all (by rw [List.length_replicate])]
  rw [hcopied]

/-- An empty barcode has no node; the `@` behind a barcode too long is not in `temp`. -/
theorem SerialDev.Holds.parseLoop_unfit (h : pM.Holds (t ++ keyword :: s)) (ht : keyword ∉ t)
    (hnul : 0 ∉ t) (hunfit : t = [] ∨ parseSize ≤ t.length) (n : ℕ) :
    Serial.parseLoop (n + 1) pM = none := by
  rw [h.parseLoop]
  rcases hunfit with rfl | hlong
  · have htemp : (([] : List UInt8) ++ keyword :: s).take parseSize =
        [] ++ keyword :: s.take (parseSize - 1) := rfl
    rw [htemp, List.append_assoc, List.cons_append, strstr_found ht hnul]
    rfl
  · have htemp : (t ++ keyword :: s).take parseSize = t.take parseSize := by
      rw [List.take_append, Nat.sub_eq_zero_of_le hlong, List.take_zero, List.append_nil]
    have hpad : parseSize - (t.take parseSize).length = 0 := by
      rw [List.length_take]
      omega
    have hsub : ∀ c, c ∉ t → c ∉ t.take parseSize :=
      fun c hc hmem => hc (List.mem_of_mem_take hmem)
    rw [htemp, hpad, List.replicate_zero, List.append_nil,
      strstr_outside (hsub _ ht) (hsub _ hnul)]
    rfl

/-- The parser delivers the barcodes of a text that is fit. -/
theorem SerialDev.Holds.parse_fits {n : ℕ} (h : pM.Holds q) (hnul : 0 ∉ q) (hn : q.length < n)
    (hfits : Fits q) :
    ∃ pM', Serial.parseLoop n pM = some pM' ∧ pM'.Holds (rest keyword q) ∧
      pM'.pListM = pM.pListM ++ tokens keyword q := by
  induction q using tokens_induction keyword generalizing n pM with
  | stop t ht =>
      obtain ⟨n, rfl⟩ : ∃ m, n = m + 1 := ⟨n - 1, by omega⟩
      rw [h.parseLoop_stop ht hnul, if_pos ((fits_of_notMem ht).mp hfits)]
      exact ⟨pM, rfl, (rest_of_notMem ht).symm ▸ h, by rw [tokens_of_notMem ht, List.append_nil]⟩
  | step t s ht ih =>
      obtain ⟨hne, hshort, hfits⟩ := (fits_cons_iff ht s).mp hfits
      obtain ⟨n, rfl⟩ : ∃ m, n = m + 1 := ⟨n - 1, by omega⟩
      rw [List.mem_append, List.mem_cons, not_or, not_or] at hnul
      rw [List.length_append, List.length_cons] at hn
      obtain ⟨pRcvBuf, hloop, hholds⟩ := h.parseLoop_token ht hnul.1 hne hshort
      obtain ⟨pM', hrest, hholds', hlist⟩ := ih hholds hnul.2.2 (n := n) (by omega) hfits
      refine ⟨pM', (hloop n).trans hrest, (rest_cons ht s).symm ▸ hholds', ?_⟩
      rw [hlist, tokens_cons ht, List.append_assoc, List.singleton_append]

/-- The parser runs out of its memory on a text that is not. -/
theorem SerialDev.Holds.parse_unfit {n : ℕ} (h : pM.Holds q) (hnul : 0 ∉ q) (hfits : ¬Fits q) :
    Serial.parseLoop n pM = none := by
  induction q using tokens_induction keyword generalizing n pM with
  | stop t ht =>
      cases n with
      | zero => rfl
      | succ n =>
          rw [h.parseLoop_stop ht hnul, if_neg fun hlt => hfits ((fits_of_notMem ht).mpr hlt)]
  | step t s ht ih =>
      cases n with
      | zero => rfl
      | succ n =>
          rw [List.mem_append, List.mem_cons, not_or, not_or] at hnul
          by_cases htoken : t ≠ [] ∧ t.length < parseSize
          · obtain ⟨pRcvBuf, hloop, hholds⟩ := h.parseLoop_token ht hnul.1 htoken.1 htoken.2
            refine (hloop n).trans (ih hholds hnul.2.2 fun hs => hfits ?_)
            exact (fits_cons_iff ht s).mpr ⟨htoken.1, htoken.2, hs⟩
          · refine h.parseLoop_unfit ht hnul.1 ?_ n
            by_contra hno
            rw [not_or] at hno
            exact htoken ⟨hno.1, Nat.not_le.mp hno.2⟩

/-! ### The receive task -/

/-- The barcodes of a stream, in order. -/
def barcodes (stream : List UInt8) : List (List UInt8) :=
  (tokens keyword stream).filter fun t => t ≠ []

/-- One read: it does not fill the buffer of the task, and the parser takes what it brings. -/
theorem SerialDev.Holds.read {prev c : List UInt8} (h : pM.Holds (rest keyword prev))
    (wakeups : List Wakeup) (hprev : Fits prev) (hnul : 0 ∉ rest keyword prev)
    (hc : c ≠ []) (hnul' : 0 ∉ c) (hsize : c.length ≠ tempSize) (hle : c.length ≤ tempSize)
    (hfits : Fits (prev ++ c)) :
    ∃ pM', rcvTask pM (.bytes c :: wakeups) = rcvTask pM' wakeups ∧
      pM'.Holds (rest keyword (prev ++ c)) ∧
      pM.pListM ++ tokens keyword (rest keyword prev ++ c) = pM'.pListM := by
  have hrest := hprev.rest
  have havailable := h.available
  have hadd := available_add h.valid
  have hwrite := h.valid.write
  have hlen : pM.pRcvBuf.len = 512 * 1024 := h.len
  have htemp : tempSize = 1500 := rfl
  have hparse : parseSize = 128 := rfl
  obtain ⟨pRcvBuf, hwritten, hvalid, hlen', hcontents⟩ :=
    ringBufWrite_contents h.valid c (by omega) (by omega)
  have hholds : SerialDev.Holds { pM with pRcvBuf } (rest keyword prev ++ c) :=
    ⟨hvalid, hlen'.trans h.len, by rw [hcontents, h.contents]⟩
  have hfits' := (fits_append_iff hprev c).mp hfits
  obtain ⟨pM', hparsed, hholds', hlist⟩ :=
    hholds.parse_fits (n := (rest keyword prev ++ c).length + 1)
    (by simp [hnul, hnul']) (Nat.lt_succ_self _) hfits'
  refine ⟨pM', ?_, rest_append prev c ▸ hholds', hlist.symm⟩
  rw [rcvTask, if_neg (by rwa [List.length_eq_zero_iff]), if_pos (by omega), if_neg (by omega),
    hwritten]
  show (Serial.parseLoop (ringBufAvailableBytesForRead pRcvBuf + 1) { pM with pRcvBuf }).bind _ = _
  rw [hholds.available, hparsed]
  rfl

/-- One read that is not so: the task leaves its memory. -/
theorem SerialDev.Holds.read_unfit {prev c : List UInt8} (h : pM.Holds (rest keyword prev))
    (wakeups : List Wakeup) (hprev : Fits prev) (hnul : 0 ∉ rest keyword prev)
    (hc : c ≠ []) (hnul' : 0 ∉ c) (hle : c.length ≤ tempSize)
    (hunfit : c.length = tempSize ∨ ¬Fits (prev ++ c)) :
    rcvTask pM (.bytes c :: wakeups) = none := by
  have hrest := hprev.rest
  have havailable := h.available
  have hadd := available_add h.valid
  have hwrite := h.valid.write
  have hlen : pM.pRcvBuf.len = 512 * 1024 := h.len
  have htemp : tempSize = 1500 := rfl
  have hparse : parseSize = 128 := rfl
  rw [rcvTask, if_neg (by rwa [List.length_eq_zero_iff])]
  by_cases hfull : c.length = tempSize
  · rw [if_neg (by omega)]
  · have hfits := hunfit.resolve_left hfull
    obtain ⟨pRcvBuf, hwritten, hvalid, hlen', hcontents⟩ :=
      ringBufWrite_contents h.valid c (by omega) (by omega)
    have hholds : SerialDev.Holds { pM with pRcvBuf } (rest keyword prev ++ c) :=
      ⟨hvalid, hlen'.trans h.len, by rw [hcontents, h.contents]⟩
    have hparsed : parseSerialData { pM with pRcvBuf } = none :=
      hholds.parse_unfit (by simp [hnul, hnul']) (mt (fits_append_iff hprev c).mpr hfits)
    rw [if_pos (by omega), if_neg (by omega), hwritten]
    show (parseSerialData { pM with pRcvBuf }).bind _ = none
    rw [hparsed]
    rfl

/-- The task behind the text `prev`: it goes through the reads that follow when none fills its
buffer and the whole text is fit, and has delivered the tokens of the text then. -/
theorem SerialDev.Holds.rcvTask {prev : List UInt8} {chunks : List (List UInt8)}
    (h : pM.Holds (rest keyword prev)) (hlist : pM.pListM = tokens keyword prev)
    (hprev : Fits prev) (hnul : 0 ∉ rest keyword prev)
    (hchunks : ∀ c ∈ chunks, c ≠ [] ∧ c.length ≤ tempSize ∧ 0 ∉ c) :
    ((∀ c ∈ chunks, c.length ≠ tempSize) ∧ Fits (prev ++ chunks.flatten) →
      ∃ pM', Serial.rcvTask pM (chunks.map .bytes) = some pM' ∧
        pM'.pListM = tokens keyword (prev ++ chunks.flatten)) ∧
    (¬((∀ c ∈ chunks, c.length ≠ tempSize) ∧ Fits (prev ++ chunks.flatten)) →
      Serial.rcvTask pM (chunks.map .bytes) = none) := by
  induction chunks generalizing prev pM with
  | nil =>
      rw [List.flatten_nil, List.append_nil]
      exact ⟨fun _ => ⟨pM, rfl, hlist⟩,
        fun hno => absurd ⟨fun c hc => absurd hc List.not_mem_nil, hprev⟩ hno⟩
  | cons c chunks ih =>
      obtain ⟨hc, hle, hnul'⟩ := hchunks c List.mem_cons_self
      rw [List.map_cons, List.flatten_cons, ← List.append_assoc, List.forall_mem_cons]
      by_cases hread : c.length ≠ tempSize ∧ Fits (prev ++ c)
      · obtain ⟨pM', hperform, hholds, hdelivered⟩ :=
          h.read (chunks.map .bytes) hprev hnul hc hnul' hread.1 hle hread.2
        rw [hlist, ← tokens_append] at hdelivered
        have hnul₁ : 0 ∉ rest keyword (prev ++ c) := by
          rw [rest_append]
          exact fun hmem => absurd (rest_subset _ hmem) (by simp [hnul, hnul'])
        have hmore := ih hholds hdelivered.symm hread.2 hnul₁
          fun c' hc' => hchunks c' (List.mem_cons_of_mem c hc')
        rw [hperform]
        exact ⟨fun ⟨⟨_, hfull⟩, hfits⟩ => hmore.1 ⟨hfull, hfits⟩,
          fun hno => hmore.2 fun ⟨hfull, hfits⟩ => hno ⟨⟨hread.1, hfull⟩, hfits⟩⟩
      · have hunfit : c.length = tempSize ∨ ¬Fits (prev ++ c) := by
          by_contra hno
          rw [not_or, not_not] at hno
          exact hread hno
        refine ⟨?_, fun _ => h.read_unfit _ hprev hnul hc hnul' hle hunfit⟩
        rintro ⟨⟨hsize, -⟩, hfits⟩
        exact absurd ⟨hsize, hfits.of_append⟩ hread

theorem serialDevMalloc_holds : ∃ pM, serialDevMalloc = some pM ∧ pM.Holds [] ∧ pM.pListM = [] := by
  obtain ⟨b, hinit, hvalid, hlen, hcontents⟩ :=
    ringBufInit_valid (show 2 < ringBufSize by unfold ringBufSize; omega)
  refine ⟨{ pRcvBuf := b, pListM := [] }, ?_, ⟨hvalid, hlen, hcontents⟩, rfl⟩
  rw [serialDevMalloc, hinit]
  rfl

/-- The barcodes that are delivered are those of the stream exactly when no read fills the buffer
of the task, no barcode is empty, and none, nor what is behind the last, has 128 bytes. -/
theorem scanner_delivers_iff {chunks : List (List UInt8)}
    (hchunks : ∀ c ∈ chunks, c ≠ [] ∧ c.length ≤ tempSize ∧ 0 ∉ c) :
    (∃ pM pM', serialDevMalloc = some pM ∧ rcvTask pM (chunks.map .bytes) = some pM' ∧
      pM'.pListM = barcodes chunks.flatten) ↔
      (∀ c ∈ chunks, c.length ≠ tempSize) ∧
      (∀ t ∈ tokens keyword chunks.flatten, t ≠ [] ∧ t.length < parseSize) ∧
      (rest keyword chunks.flatten).length < parseSize := by
  obtain ⟨pM, hmalloc, hholds, hlist⟩ := serialDevMalloc_holds
  have hnil : keyword ∉ ([] : List UInt8) := List.not_mem_nil
  have hrest := rest_of_notMem hnil
  have hrun := SerialDev.Holds.rcvTask (show pM.Holds (rest keyword []) from hrest.symm ▸ hholds)
    (hlist.trans (tokens_of_notMem hnil).symm) ((fits_of_notMem hnil).mpr (by decide))
    (hrest.symm ▸ List.not_mem_nil) hchunks
  rw [List.nil_append] at hrun
  have hbarcodes : Fits chunks.flatten →
      barcodes chunks.flatten = tokens keyword chunks.flatten := by
    intro hfits
    exact List.filter_eq_self.mpr fun t ht => decide_eq_true (hfits.ne_nil t ht)
  constructor
  · rintro ⟨pM₁, pM', hmalloc₁, hperform, hdelivered⟩
    obtain rfl := Option.some.inj (hmalloc.symm.trans hmalloc₁)
    by_contra hunfit
    have hnone := hrun.2 fun ⟨hfull, hfits⟩ =>
      hunfit ⟨hfull, fun t ht => ⟨hfits.ne_nil t ht, hfits.short t ht⟩, hfits.rest⟩
    exact absurd (hnone.symm.trans hperform) (by simp)
  · rintro ⟨hfull, htokens, hshort⟩
    have hfits : Fits chunks.flatten :=
      ⟨fun t ht => (htokens t ht).1, fun t ht => (htokens t ht).2, hshort⟩
    obtain ⟨pM', hperform, hdelivered⟩ := hrun.1 ⟨hfull, hfits⟩
    exact ⟨pM, pM', hmalloc, hperform, hdelivered.trans (hbarcodes hfits).symm⟩

theorem scanner_delivers_two :
    (∃ pM pM', serialDevMalloc = some pM ∧
      rcvTask pM ([[0x31, 0x40, 0x32], [0x33, 0x40]].map .bytes) = some pM' ∧
      pM'.pListM = barcodes [[0x31, 0x40, 0x32], [0x33, 0x40]].flatten) ↔
      (∀ c ∈ ([[0x31, 0x40, 0x32], [0x33, 0x40]] : List (List UInt8)), c.length ≠ tempSize) ∧
      (∀ t ∈ tokens keyword [[0x31, 0x40, 0x32], [0x33, 0x40]].flatten,
        t ≠ [] ∧ t.length < parseSize) ∧
      (rest keyword [[0x31, 0x40, 0x32], [0x33, 0x40]].flatten).length < parseSize :=
  scanner_delivers_iff (by decide)

/-- An `@` alone: there is no node for the empty barcode, and the task goes through `NULL`. -/
theorem not_scanner_delivers_empty :
    ¬∃ pM pM', serialDevMalloc = some pM ∧ rcvTask pM ([[0x40]].map .bytes) = some pM' ∧
      pM'.pListM = barcodes [[0x40]].flatten := by
  rintro ⟨pM, pM', hmalloc, hperform, -⟩
  obtain ⟨pM₁, hmalloc₁, hholds, -⟩ := serialDevMalloc_holds
  obtain rfl := Option.some.inj (hmalloc₁.symm.trans hmalloc)
  have hnil : keyword ∉ ([] : List UInt8) := List.not_mem_nil
  have hrest := rest_of_notMem hnil
  have hunfit : ¬Fits ([] ++ [0x40]) := fun hfits =>
    hfits.ne_nil [] (tokens_cons (t := []) hnil [] ▸ List.mem_cons_self) rfl
  have hnone := (hrest.symm ▸ hholds : pM₁.Holds (rest keyword [])).read_unfit []
    ((fits_of_notMem hnil).mpr (by decide)) (hrest.symm ▸ List.not_mem_nil) (c := [0x40])
    (by decide) (by decide) (by decide) (.inr hunfit)
  exact absurd (hnone.symm.trans hperform) (by simp)

end PanelTester.Serial
