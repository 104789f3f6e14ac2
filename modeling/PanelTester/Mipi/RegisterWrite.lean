import PanelTester.Mipi.Alignment

/-!
The two ways of sending a register write, `mipi_send_code` and `mipi_send_code2` of
`mipi2828.c`. The first builds the record itself, the second prints a line of text for the
compiler. `sameWrite_iff`: they make the same calls as long as the text fits one read of a
line.
-/

namespace PanelTester.Mipi

open Library

/-- `MAX_SEND_CODE_LEN` -/
def maxSendCodeLen : ℕ := 1024

/-- The array that `mipi_send_code` builds; none if the data do not fit. -/
def sendCodeArray (reg : UInt8) (regData : List UInt8) : Option (List UInt8) :=
  if regData.length + 3 ≤ maxSendCodeLen then
    some (0x39 :: reg :: UInt8.ofNat regData.length :: regData ++
      List.replicate (maxSendCodeLen - (regData.length + 3)) 0xff)
  else none

/-- `mipi_send_code` -/
def mipiSendCode (answers : ℕ → Answer) (mipiData : List UInt8) (curflick curpolar reg : UInt8)
    (regData : List UInt8) : Option (List (ℕ × List Action) × Sender) := do
  let mipiCode ← sendCodeArray reg regData
  sendCode answers mipiData curflick curpolar mipiCode

/-- The size of `str_mipi_code` and of `temp_mipi_code`. -/
def tempCodeLen : ℕ := 1024 * 4

/-- The text that `mipi_send_code2` prints. -/
def registerText (reg : UInt8) (regData : List UInt8) : Str :=
  'R' :: printHex lowerDigits reg ++ regData.flatMap fun b => ' ' :: printHex upperDigits b

/-- `mipi_send_code2` without its switches of the mode before and behind. `dst` is what the
array of the compiler holds at the start; the text has to fit `str_mipi_code`. -/
def mipiSendCode2 (dst : List Str) (answers : ℕ → Answer) (mipiData : List UInt8)
    (curflick curpolar reg : UInt8) (regData : List UInt8) :
    Option (List (ℕ × List Action) × Sender) :=
  if (registerText reg regData).length < tempCodeLen then do
    let (tempMipiCode, _) ← mipiParseInitCode none dst (registerText reg regData)
      (List.replicate tempCodeLen 0xff)
    sendCode answers mipiData curflick curpolar tempMipiCode
  else none

/-- The calls of a walk, in their order. -/
def calls (walk : Option (List (ℕ × List Action) × Sender)) : Option (List Action) :=
  walk.map fun w => w.1.flatMap Prod.snd

/-! ### The text -/

/-- The characters of the text. -/
theorem mem_registerText {reg : UInt8} {regData : List UInt8} {c : Char}
    (hc : c ∈ registerText reg regData) : c = 'R' ∨ c = ' ' ∨ c ∈ hexChars := by
  rw [registerText] at hc
  rcases List.mem_append.mp hc with hc | hc
  · rcases List.mem_cons.mp hc with rfl | hc
    · exact .inl rfl
    · exact .inr (.inr (mem_printHex isDigits_lower hc))
  · obtain ⟨b, -, hc⟩ := List.mem_flatMap.mp hc
    rcases List.mem_cons.mp hc with rfl | hc
    · exact .inr (.inl rfl)
    · exact .inr (.inr (mem_printHex isDigits_upper hc))

theorem length_registerText (reg : UInt8) (regData : List UInt8) :
    (registerText reg regData).length = 3 * regData.length + 3 := by
  have hdata : (regData.flatMap fun b => ' ' :: printHex upperDigits b).length =
      3 * regData.length := by
    induction regData with
    | nil => rfl
    | cons b bs ih =>
        rw [List.flatMap_cons, List.length_append, ih, List.length_cons]
        simp only [printHex, List.length_cons, List.length_nil]
        omega
  rw [registerText, List.length_append, hdata]
  simp only [printHex, List.length_cons, List.length_nil]
  omega

theorem registerText_append (reg : UInt8) (front back : List UInt8) :
    registerText reg (front ++ back) =
      registerText reg front ++ back.flatMap fun b => ' ' :: printHex upperDigits b := by
  rw [registerText, registerText, List.flatMap_append, List.append_assoc]

/-- The tokens of the text. -/
theorem split_registerText (reg : UInt8) (regData : List UInt8) :
    split (registerText reg regData) =
      ('R' :: printHex lowerDigits reg) :: regData.map (printHex upperDigits) := by
  have hhex : ' ' ∉ hexChars := by decide
  have htokens : ∀ (t : Str) (bs : List UInt8), ' ' ∉ t → t ≠ [] →
      strtok ' ' (t ++ bs.flatMap fun b => ' ' :: printHex upperDigits b) =
        t :: bs.map (printHex upperDigits) := by
    intro t bs ht hne
    induction bs generalizing t with
    | nil =>
        rw [List.flatMap_nil, List.append_nil]
        exact strtok_single ' ' ht hne
    | cons b bs ih =>
        rw [List.flatMap_cons, List.cons_append, strtok_append ' ' ht hne,
          ih _ (fun h => hhex (mem_printHex isDigits_upper h)) (List.cons_ne_nil _ _)]
        rfl
  have hfirst : ' ' ∉ 'R' :: printHex lowerDigits reg := by
    intro h
    rcases List.mem_cons.mp h with h | h
    · exact absurd h (by decide)
    · exact hhex (mem_printHex isDigits_lower h)
  rw [split, registerText, htokens _ _ hfirst (List.cons_ne_nil _ _), List.filter_eq_self]
  have hline : ∀ c ∈ 'R' :: hexChars, (some c != some '\r' && some c != some '\n') = true :=
    List.all_eq_true.mp (by decide)
  intro t ht
  rcases List.mem_cons.mp ht with rfl | ht
  · rfl
  · obtain ⟨b, -, rfl⟩ := List.mem_map.mp ht
    exact hline _ (List.mem_cons_of_mem _ (mem_printHex isDigits_upper List.mem_cons_self))

theorem exists_registerText_concat (reg : UInt8) (regData : List UInt8) :
    ∃ text d, registerText reg regData = text ++ [d] ∧ d ∈ hexChars := by
  rcases List.eq_nil_or_concat regData with rfl | ⟨bs, b, rfl⟩
  · exact ⟨['R', lowerDigits.getD (reg.toNat / 16) '0'], _, rfl,
      mem_printHex isDigits_lower (List.mem_cons_of_mem _ List.mem_cons_self)⟩
  · refine ⟨registerText reg bs ++ [' ', upperDigits.getD (b.toNat / 16) '0'], _, ?_,
      mem_printHex isDigits_upper (b := b) (List.mem_cons_of_mem _ List.mem_cons_self)⟩
    rw [List.concat_eq_append, registerText_append]
    simp [printHex]

/-- The text is compiled as it is; so it is with a blank behind it. -/
theorem scanLine_registerText (reg : UInt8) (regData : List UInt8) {blank : Str}
    (hblank : blank = [] ∨ blank = [' ']) :
    scanLine none noFilters (registerText reg regData ++ blank) =
      (noFilters, some (registerText reg regData)) := by
  have hchars : ∀ c ∈ registerText reg regData ++ blank, c = 'R' ∨ c = ' ' ∨ c ∈ hexChars := by
    intro c hc
    rcases List.mem_append.mp hc with hc | hc
    · exact mem_registerText hc
    · rcases hblank with rfl | rfl
      · exact absurd hc List.not_mem_nil
      · exact .inr (.inl (List.mem_singleton.mp hc))
  have hplain : ∀ c : Char, c ∉ 'R' :: ' ' :: hexChars → c ∉ registerText reg regData ++ blank := by
    intro c hc hmem
    rcases hchars c hmem with rfl | rfl | hmem
    · exact hc (by simp)
    · exact hc (by simp)
    · exact hc (by simp [hmem])
  have huntil : untilNul (registerText reg regData ++ blank) =
    registerText reg regData ++ blank := by
    rw [untilNul, List.takeWhile_eq_self_iff]
    intro c hc
    simpa using fun h : c = Char.ofNat 0 => hplain (Char.ofNat 0) (by decide) (h ▸ hc)
  have hstrip : stripLine (registerText reg regData ++ blank) = registerText reg regData := by
    obtain ⟨text, d, htext, hd⟩ := exists_registerText_concat reg regData
    have hlast : ∀ c ∈ hexChars, ¬ (c = ' ' || c = '\r' || c = '\n') :=
      List.all_iff_forall_prop.mp (by decide)
    have hdrop : (text ++ [d]).rdropWhile (fun c => c = ' ' || c = '\r' || c = '\n') =
      text ++ [d] :=
      List.rdropWhile_concat_neg _ _ _ (hlast d hd)
    rw [stripLine, before_eq_self (c := ';') (by decide) (hplain _ (by decide)),
      before_eq_self (c := '/') (by decide) (hplain _ (by decide)),
      before_eq_self (c := '#') (by decide) (hplain _ (by decide)), htext]
    rcases hblank with rfl | rfl
    · rw [List.append_nil, hdrop]
    · rw [List.rdropWhile_concat_pos _ _ _ (by decide), hdrop]
  have hhead : (registerText reg regData ++ blank).head? = some 'R' := rfl
  have hsecond : (registerText reg regData ++ blank)[1]? ≠ some '/' := fun h =>
    hplain '/' (by decide) (List.mem_of_getElem? h)
  have hne : registerText reg regData ≠ [] := List.cons_ne_nil _ _
  rw [scanLine]
  simp only [huntil, hstrip, hhead, hsecond, hne, noFilters]
  simp

/-- The comparisons end at the `R`. -/
theorem lineKind_register (reg : UInt8) : lineKind ('R' :: printHex lowerDigits reg) = .r := by
  have hG : ∀ c ∈ hexChars, ¬ 'G' = c := List.all_iff_forall_prop.mp (by decide)
  have hdigit := hG _ (mem_printHex isDigits_lower (b := reg) List.mem_cons_self)
  rw [List.getD_eq_getElem?_getD] at hdigit
  simp [lineKind, startsWith, equals, printHex, List.isPrefixOf, hdigit]

/-- What the line stands for. -/
def registerMeaning (reg : UInt8) (regData : List UInt8) : Meaning :=
  ⟨0x39, reg.toNat, regData.length, regData.map fun b => byteOperand b.toNat⟩

theorem lineMeaning_registerText (reg : UInt8) {regData : List UInt8} (hdata : regData ≠ []) :
    lineMeaning (split (registerText reg regData)) = some (some (registerMeaning reg regData)) := by
  have hmap : ∀ bs : List UInt8,
      ((bs.map (printHex upperDigits)).map fun t => byteOperand (strtol t 16)) =
        bs.map fun b => byteOperand b.toNat := by
    intro bs
    rw [List.map_map]
    exact List.map_congr_left fun b _ => congrArg byteOperand (strtol_printHex isDigits_upper b)
  rw [split_registerText, lineMeaning, lineKind_register, kindMeaning, hmap, List.length_map,
    List.tail_cons, strtol_printHex isDigits_lower, if_neg (by simpa using hdata), registerMeaning]

theorem fits_byteOperand (b : UInt8) : (byteOperand b.toNat).Fits := by
  have hlt := b.toNat_lt
  simp only [byteOperand, Operand.Fits]
  omega

/-- The record of a register write. -/
def registerRecord (reg : UInt8) (regData : List UInt8) (h : regData.length ≤ 250) : Record :=
  ⟨0x39, reg, regData, h⟩

theorem fits_registerMeaning (reg : UInt8) (regData : List UInt8) :
    (registerMeaning reg regData).Fits := by
  refine ⟨fits_byteOperand reg, ?_⟩
  intro o ho
  obtain ⟨b, -, rfl⟩ := List.mem_map.mp ho
  exact fits_byteOperand b

/-- The record that means a register write. -/
theorem of_meaning_eq_registerMeaning {r : Record} {reg : UInt8} {regData : List UInt8}
    (h : r.meaning = registerMeaning reg regData) :
    r.opcode = 0x39 ∧ r.register = reg ∧ r.params = regData := by
  rw [Record.meaning, registerMeaning, Meaning.mk.injEq] at h
  obtain ⟨hop, hreg, -, hoperands⟩ := h
  refine ⟨hop, UInt8.toNat_inj.mp (by exact_mod_cast hreg), ?_⟩
  rw [Record.operands, hop] at hoperands
  simp only [show ¬(0x39 : UInt8) = 0x06 by decide, show ¬(0x39 : UInt8) = 0x14 by decide,
    show ¬(0x39 : UInt8) = 0x00 by decide, false_and, if_false] at hoperands
  refine List.map_injective_iff.mpr (fun b b' hb => ?_) hoperands
  rw [byteOperand, byteOperand, Operand.mk.injEq] at hb
  exact UInt8.toNat_inj.mp (by exact_mod_cast hb.2)

/-! ### The compiled line -/

theorem put_take {code code' bytes : List UInt8} {i j : ℕ} (h : put code i bytes = some code')
    (hj : j ≤ i) : code'.take j = code.take j := by
  obtain ⟨-, hfit⟩ := length_put h
  rw [put, if_pos hfit] at h
  rw [← Option.some.inj h, List.append_assoc, List.take_append_of_le_length (by simp; omega),
    List.take_take, min_eq_left hj]

/-- Later lines leave the records in front of them as they are. -/
theorem compileAll_take {lines : List (List Str)} :
    ∀ {c c' : Compiler} {j : ℕ}, compileAll lines c = some c' → j ≤ c.codeByte →
      c'.code.length = c.code.length ∧ c'.code.take j = c.code.take j := by
  induction lines with
  | nil =>
      intro c c' j h _
      rw [← Option.some.inj h]
      exact ⟨rfl, rfl⟩
  | cons tokens lines ih =>
      intro c c' j h hj
      rw [compileAll_cons] at h
      obtain ⟨c₁, hline, h⟩ := Option.bind_eq_some_iff.mp h
      obtain ⟨hbyte, hlength, -⟩ := compileTokens_eq_some hline
      obtain ⟨hlength', htake⟩ := ih h (j := j) (by omega)
      refine ⟨hlength'.trans hlength, ?_⟩
      rw [htake]
      obtain ⟨dst, -, hline⟩ := Option.bind_eq_some_iff.mp hline
      obtain ⟨code, hput, hline⟩ := Option.bind_eq_some_iff.mp hline
      rw [← Option.some.inj hline]
      exact put_take hput hj

section

variable {reg : UInt8} {regData : List UInt8}

/-- The line is compiled to the record. -/
theorem compileTokens_registerText (dst : List Str) (hpos : regData ≠ [])
    (hlen : regData.length ≤ 249) :
    ∃ c, compileTokens (split (registerText reg regData))
        ⟨List.replicate tempCodeLen 0xff, 0, dst, noFilters⟩ = some c ∧
      c.code = (registerRecord reg regData (by omega)).encode ++
        List.replicate (tempCodeLen - (regData.length + 3)) 0xff ∧
      c.codeByte = regData.length + 3 := by
  have hmeaning := lineMeaning_registerText reg hpos
  have hstorable : Storable (split (registerText reg regData)) := by
    rw [split_registerText]
    refine ⟨?_, by simp [printHex]⟩
    rw [List.length_cons, List.length_map]
    omega
  have htokens : ∀ first, tokenMeaning first (split (registerText reg regData)) =
      some (some (registerMeaning reg regData)) := by
    intro first
    rw [split_registerText] at hmeaning ⊢
    exact hmeaning
  have hsize : lineSize (split (registerText reg regData)) = regData.length + 3 := by
    rw [lineSize, hmeaning]
    rfl
  have hregular : tokenMeaning (entry dst 0) (split (registerText reg regData)) ≠ none := by
    rw [htokens]
    exact Option.some_ne_none _
  have hstart : List.replicate tempCodeLen 0xff =
    [] ++ List.replicate tempCodeLen (0xff : UInt8) := rfl
  obtain ⟨rs, hrs, hcompile⟩ := compileTokens_regular
    (c := ⟨List.replicate tempCodeLen 0xff, 0, dst, noFilters⟩) hstorable hregular Iff.rfl hstart
    rfl (by rw [hsize, List.length_replicate, tempCodeLen]; omega)
  rw [hmeaning] at hrs
  have hsound : Sound (entry dst 0) (entry dst 3) (split (registerText reg regData)) := by
    rw [Sound, htokens, split_registerText, OwnTokens, lineKind_register]
    exact ⟨fits_registerMeaning reg regData, trivial⟩
  obtain ⟨r, rfl, hr⟩ := List.map_eq_singleton_iff.mp (hrs.meaning.mpr hsound)
  obtain ⟨hop, hreg, hparams⟩ := of_meaning_eq_registerMeaning hr
  have hencode : r.encode = (registerRecord reg regData (by omega)).encode := by
    rw [Record.encode, hop, hreg, hparams]
    rfl
  refine ⟨_, hcompile, ?_, ?_⟩
  · rw [List.flatMap_singleton, hencode, hsize, List.drop_replicate, List.nil_append]
  · rw [List.flatMap_singleton, List.nil_append, Record.length_encode, hparams]

theorem newline_not_mem_registerText : '\n' ∉ registerText reg regData := by
  intro h
  rcases mem_registerText h with h | h | h
  · exact absurd h (by decide)
  · exact absurd h (by decide)
  · exact absurd h (by decide)

/-- The first read of a line, up to the end of the buffer. -/
theorem mipiParseInitCode_firstLine {file blank : Str} (dst : List Str)
    (hblank : blank = [] ∨ blank = [' '])
    (hline : takeLine 199 file = (registerText reg regData ++ blank, file.drop 199))
    (hpos : regData ≠ []) (hlen : regData.length ≤ 249) :
    ∃ c : Compiler,
      mipiParseInitCode none dst file (List.replicate tempCodeLen 0xff) =
        (compileAll (sourceTokens none noFilters (readLines 200 (file.drop 199))) c).map
          (fun c => (c.code, c.codeByte)) ∧
      c.code = (registerRecord reg regData (by omega)).encode ++
        List.replicate (tempCodeLen - (regData.length + 3)) 0xff ∧
      c.codeByte = regData.length + 3 := by
  obtain ⟨c, hcompile, hcode, hbyte⟩ := compileTokens_registerText dst hpos hlen
  have hne : file ≠ [] := by
    rintro rfl
    have hnil := congrArg Prod.fst hline
    exact absurd hnil.symm (List.cons_ne_nil _ _)
  refine ⟨c, ?_, hcode, hbyte⟩
  rw [mipiParseInitCode_eq, readLines_of_ne_nil (by decide) hne, hline, sourceTokens,
    scanLine_registerText reg regData hblank]
  dsimp only
  rw [compileAll_cons, hcompile, Option.bind_some]

/-- A text that fits one read. -/
theorem mipiParseInitCode_short (dst : List Str) (hpos : regData ≠ [])
    (hlen : regData.length ≤ 65) :
    mipiParseInitCode none dst (registerText reg regData) (List.replicate tempCodeLen 0xff) = some
      ((registerRecord reg regData (by omega)).encode ++
        List.replicate (tempCodeLen - (regData.length + 3)) 0xff, regData.length + 3) := by
  have hfit : (registerText reg regData).length ≤ 199 := by rw [length_registerText]; omega
  have hline : takeLine 199 (registerText reg regData) =
      (registerText reg regData ++ [], (registerText reg regData).drop 199) := by
    rw [takeLine_of_not_mem newline_not_mem_registerText, List.take_of_length_le hfit,
      List.append_nil]
  obtain ⟨c, hrun, hcode, hbyte⟩ := mipiParseInitCode_firstLine dst (.inl rfl) hline hpos (by omega)
  rw [hrun, List.drop_eq_nil_of_le hfit, readLines_nil, ← hcode, ← hbyte]
  rfl

/-- A text that does not: the first record has 65 of the bytes. -/
theorem mipiParseInitCode_long {dst : List Str} {code : List UInt8} {size : ℕ}
    (hlen : 66 ≤ regData.length)
    (h : mipiParseInitCode none dst (registerText reg regData) (List.replicate tempCodeLen 0xff) =
      some (code, size)) :
    ∃ rest, rest ≠ [] ∧ code = (registerRecord reg (regData.take 65) (by simp)).encode ++ rest := by
  have hfront : (regData.take 65).length = 65 := by simp; omega
  have hline : takeLine 199 (registerText reg regData) =
      (registerText reg (regData.take 65) ++ [' '], (registerText reg regData).drop 199) := by
    rw [takeLine_of_not_mem newline_not_mem_registerText]
    obtain ⟨b, back, hback⟩ := List.exists_cons_of_ne_nil
      (show regData.drop 65 ≠ [] by simp; omega)
    conv_lhs => arg 1; rw [← List.take_append_drop 65 regData, hback, registerText_append]
    have htext : (registerText reg (regData.take 65)).length = 198 := by
      rw [length_registerText, hfront]
    rw [List.take_append, htext, List.take_of_length_le (by omega)]
    rfl
  obtain ⟨c, hrun, hcode, hbyte⟩ := mipiParseInitCode_firstLine dst (.inr rfl) hline
    (List.ne_nil_of_length_pos (by omega)) (by omega)
  obtain ⟨c', hall, hc'⟩ := Option.map_eq_some_iff.mp (hrun.symm.trans h)
  obtain ⟨rfl, rfl⟩ := Prod.mk.inj hc'
  obtain ⟨hlength, htake⟩ := compileAll_take hall hbyte.ge
  have hencode : (regData.take 65).length + 3 =
      (registerRecord reg (regData.take 65) (by simp)).encode.length := rfl
  have hsize : c'.code.length = tempCodeLen := by
    rw [hlength, hcode, List.length_append, ← hencode, List.length_replicate, tempCodeLen]
    omega
  rw [hcode, hencode, List.take_left] at htake
  refine ⟨c'.code.drop 68, ?_, ?_⟩
  · rw [ne_eq, List.drop_eq_nil_iff, hsize]
    decide
  · conv_lhs => rw [← List.take_append_drop 68 c'.code]
    rw [← htake, ← hencode, hfront]

end

/-! ### The two ways -/

/-- The long write that a register write is to make. -/
def registerWrite (reg : UInt8) (regData : List UInt8) : Action :=
  .dcsLongWriteWithPara reg regData (regData.length + 1)

theorem complete_registerRecord {reg : UInt8} {regData : List UInt8} (hlen : regData.length ≤ 249) :
    (registerRecord reg regData (by omega)).Complete :=
  ⟨Nat.zero_le _, fun h => absurd h (by decide : ¬((0x39 : UInt8) = 0x06 ∨ (0x39 : UInt8) = 0x14)),
    fun _ => Nat.lt_succ_of_le hlen⟩

/-- An array that holds the record and the filling. -/
theorem calls_registerRecord {reg : UInt8} {regData mipiData : List UInt8} {cap : ℕ}
    (answers : ℕ → Answer) (curflick curpolar : UInt8) (hdata : mipiData.length = 250)
    (hlen : regData.length ≤ 249) (hcap : cap ≤ maxMipiCodeLen) (hfit : regData.length + 6 ≤ cap) :
    calls (sendCode answers mipiData curflick curpolar
        ((registerRecord reg regData (by omega)).encode ++
          List.replicate (cap - (regData.length + 3)) 0xff)) =
            some [registerWrite reg regData] := by
  have hcomplete : ∀ r ∈ [registerRecord reg regData (by omega)], r.Complete :=
    List.forall_mem_singleton.mpr (complete_registerRecord hlen)
  obtain ⟨s, hsend, -⟩ := sendCode_records hcomplete hcap
    (by rw [List.flatMap_singleton, Record.length_encode]; exact hfit) answers
      curflick curpolar hdata
  rw [List.flatMap_singleton] at hsend
  have hsize : (registerRecord reg regData (by omega)).encode.length = regData.length + 3 := rfl
  rw [← hsize, hsend]
  rfl

theorem calls_mipiSendCode {reg : UInt8} {regData mipiData : List UInt8} (answers : ℕ → Answer)
    (curflick curpolar : UInt8) (hdata : mipiData.length = 250) (hlen : regData.length ≤ 249) :
    calls (mipiSendCode answers mipiData curflick curpolar reg regData) =
      some [registerWrite reg regData] := by
  have hmax : maxSendCodeLen = 1024 := rfl
  rw [mipiSendCode, sendCodeArray, if_pos (by omega)]
  exact calls_registerRecord answers curflick curpolar hdata hlen (by decide) (by omega)

theorem calls_mipiSendCode2_short {reg : UInt8} {regData mipiData : List UInt8} (dst : List Str)
    (answers : ℕ → Answer) (curflick curpolar : UInt8) (hdata : mipiData.length = 250)
    (hpos : 1 ≤ regData.length) (hlen : regData.length ≤ 65) :
    calls (mipiSendCode2 dst answers mipiData curflick curpolar reg regData) =
      some [registerWrite reg regData] := by
  have htemp : tempCodeLen = 4096 := rfl
  rw [mipiSendCode2, if_pos (by rw [length_registerText]; omega),
    mipiParseInitCode_short dst (List.ne_nil_of_length_pos hpos) hlen]
  exact calls_registerRecord answers curflick curpolar hdata (by omega) (by decide) (by omega)

/-- The first call of a longer text is a write of 65 bytes. -/
theorem calls_mipiSendCode2_long {reg : UInt8} {regData mipiData : List UInt8} (dst : List Str)
    (answers : ℕ → Answer) (curflick curpolar : UInt8) (hdata : mipiData.length = 250)
    (hlen : 66 ≤ regData.length) :
    calls (mipiSendCode2 dst answers mipiData curflick curpolar reg regData) ≠
      some [registerWrite reg regData] := by
  intro h
  rw [mipiSendCode2] at h
  split at h
  · obtain ⟨⟨vs, s⟩, hrun, hcalls⟩ := Option.map_eq_some_iff.mp h
    obtain ⟨⟨code, size⟩, hparse, hsend⟩ := Option.bind_eq_some_iff.mp hrun
    obtain ⟨rest, hrest, rfl⟩ := mipiParseInitCode_long hlen hparse
    have hfront : (regData.take 65).length = 65 := by simp; omega
    have hcomplete : (registerRecord reg (regData.take 65) (by omega)).Complete :=
      complete_registerRecord (by omega)
    obtain ⟨own, s₁, -, hstep, -⟩ := sendStep_record [] (answers 8191) curflick curpolar
      hcomplete hrest hdata
      (by rw [Record.length_encode]; show 0 + ((regData.take 65).length + 3) < _; omega)
    obtain ⟨o, hstep', hloop⟩ := Option.bind_eq_some_iff.mp hsend
    obtain rfl := Option.some.inj (hstep.symm.trans hstep')
    obtain ⟨⟨vs', s'⟩, -, hloop⟩ := Option.bind_eq_some_iff.mp hloop
    obtain ⟨rfl, -⟩ := Prod.mk.inj (Option.some.inj hloop)
    have hfirst : registerWrite reg (regData.take 65) = registerWrite reg regData :=
      (List.cons.inj hcalls).1
    rw [registerWrite, registerWrite, Action.dcsLongWriteWithPara.injEq] at hfirst
    omega
  · exact absurd h (by simp [calls])

/-- The two ways of sending a register write make both exactly the one long write, if and only
if there are at most 65 bytes of data: then the text fits one read of the compiler. -/
theorem sameWrite_iff (dst : List Str) (answers : ℕ → Answer) (mipiData : List UInt8)
    (curflick curpolar reg : UInt8) (regData : List UInt8) (hdata : mipiData.length = 250)
    (hpos : 1 ≤ regData.length) (hlen : regData.length ≤ 249) :
    (calls (mipiSendCode answers mipiData curflick curpolar reg regData) =
          some [registerWrite reg regData] ∧
        calls (mipiSendCode2 dst answers mipiData curflick curpolar reg regData) =
          some [registerWrite reg regData]) ↔
      regData.length ≤ 65 := by
  constructor
  · rintro ⟨-, h⟩
    by_contra hlong
    exact calls_mipiSendCode2_long dst answers curflick curpolar hdata (by omega) h
  · exact fun hshort => ⟨calls_mipiSendCode answers curflick curpolar hdata hlen,
      calls_mipiSendCode2_short dst answers curflick curpolar hdata hpos hshort⟩

theorem sameWrite_two_bytes :
    calls (mipiSendCode (fun _ => ⟨0, none⟩) (List.replicate 250 0) 0 0 0x35 [1, 2]) =
        some [registerWrite 0x35 [1, 2]] ∧
      calls (mipiSendCode2 (List.replicate 256 []) (fun _ => ⟨0, none⟩) (List.replicate 250 0) 0 0
        0x35 [1, 2]) = some [registerWrite 0x35 [1, 2]] :=
  (sameWrite_iff (List.replicate 256 []) (fun _ => ⟨0, none⟩) (List.replicate 250 0) 0 0 0x35 [1, 2]
    List.length_replicate (by decide) (by decide)).mpr (by decide)

/-- The text of 66 bytes is read in two pieces. -/
theorem not_sameWrite_66 :
    ¬ (calls (mipiSendCode (fun _ => ⟨0, none⟩) (List.replicate 250 0) 0 0 0x35
          (List.replicate 66 0)) = some [registerWrite 0x35 (List.replicate 66 0)] ∧
        calls (mipiSendCode2 (List.replicate 256 []) (fun _ => ⟨0, none⟩) (List.replicate 250 0) 0 0
          0x35 (List.replicate 66 0)) = some [registerWrite 0x35 (List.replicate 66 0)]) := by
  intro h
  exact calls_mipiSendCode2_long (List.replicate 256 []) (fun _ => ⟨0, none⟩) 0 0
    List.length_replicate List.length_replicate.ge h.2

end PanelTester.Mipi
