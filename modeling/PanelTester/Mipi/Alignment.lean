import PanelTester.Mipi.Compile
import PanelTester.Mipi.Walk

/-!
Compiled texts and the walk of `SendCode` over them. `aligned_iff` says for which texts the
two fit together: no line may lack a token, every number has to fit the field that it is stored
in, and a read without a mark may not find that of an earlier line.
-/

namespace PanelTester.Mipi

open Library

/-- The text is compiled to one record for each line that stands for one, in their order, with
the filling behind them; and `SendCode` visits exactly these records, whatever the panel
answers, and stops behind them. -/
def Aligned (vcomInfo : Option VcomInfo) (dst : List Str) (file : Str) (cap : ℕ) : Prop :=
  ∃ code size, mipiParseInitCode vcomInfo dst file (List.replicate cap 0xff) = some (code, size) ∧
    ∃ rs : List Record, code = rs.flatMap Record.encode ++ List.replicate (cap - size) 0xff ∧
      size = (rs.flatMap Record.encode).length ∧
      rs.map Record.meaning = meanings (sourceTokens vcomInfo noFilters (textLines file)) ∧
      ∀ (answers : ℕ → Answer) (mipiData : List UInt8) (curflick curpolar : UInt8),
        mipiData.length = 250 → ∃ s,
          sendCode answers mipiData curflick curpolar code = some (visits 0 rs, s) ∧
            s.codePoint = size

/-- The tokens of lines that fit the buffer. -/
theorem length_sourceTokens {vcomInfo : Option VcomInfo} {lines : List Str}
    (hlines : ∀ line ∈ lines, line.length ≤ 199) {f : Filters} :
    ∀ tokens ∈ sourceTokens vcomInfo f lines, tokens.length ≤ 250 := by
  intro tokens htokens
  obtain ⟨line, hmem, str, hstr, rfl⟩ := exists_line_of_mem_sourceTokens htokens
  have hline := hlines line hmem
  have hlen := length_split_le str
  have hle := hstr.length_le.trans (List.takeWhile_prefix _).length_le
  omega

section

variable {vcomInfo : Option VcomInfo} {dst : List Str} {file : Str} {cap : ℕ}

/-- The compiler over the lines of the text. -/
theorem mipiParseInitCode_textLines (hlines : ∀ line ∈ textLines file, line.length ≤ 199) :
    mipiParseInitCode vcomInfo dst file (List.replicate cap 0xff) =
      (compileAll (sourceTokens vcomInfo noFilters (textLines file))
        ⟨List.replicate cap 0xff, 0, dst, noFilters⟩).map fun c => (c.code, c.codeByte) := by
  rw [mipiParseInitCode_eq, readLines_eq_textLines (by decide) hlines]

/-- A text none of whose lines is to be rejected. -/
theorem mipiParseInitCode_records (hlines : ∀ line ∈ textLines file, line.length ≤ 199)
    (hstorable : ∀ tokens ∈ sourceTokens vcomInfo noFilters (textLines file), Storable tokens)
    (hregular : AllRegular (entry dst 0) (sourceTokens vcomInfo noFilters (textLines file)))
    (hfit : compiledSize (sourceTokens vcomInfo noFilters (textLines file)) ≤ cap) :
    ∃ rs : List Record,
      CompiledTo rs (meanings (sourceTokens vcomInfo noFilters (textLines file)))
        (AllSound (entry dst 0) (entry dst 3)
          (sourceTokens vcomInfo noFilters (textLines file))) ∧
      mipiParseInitCode vcomInfo dst file (List.replicate cap 0xff) = some
        (rs.flatMap Record.encode ++ List.replicate
          (cap - compiledSize (sourceTokens vcomInfo noFilters (textLines file))) 0xff,
          compiledSize (sourceTokens vcomInfo noFilters (textLines file))) := by
  have hstart : List.replicate cap 0xff = [] ++ List.replicate cap (0xff : UInt8) := rfl
  obtain ⟨rs, hrs, hrun⟩ := compileAll_records hstorable
    (c := ⟨List.replicate cap 0xff, 0, dst, noFilters⟩) hregular Iff.rfl hstart rfl
    (by rwa [List.length_replicate])
  rw [List.drop_replicate, List.nil_append, List.length_nil, Nat.zero_add] at hrun
  exact ⟨rs, hrs, (mipiParseInitCode_textLines hlines).trans hrun⟩

/-- `SendCode` over records with three bytes of filling. -/
theorem sendCode_records {rs : List Record} (hrs : ∀ r ∈ rs, r.Complete)
    (hcap : cap ≤ maxMipiCodeLen)
    (hfit : (rs.flatMap Record.encode).length + 3 ≤ cap) (answers : ℕ → Answer)
    {mipiData : List UInt8} (curflick curpolar : UInt8) (hdata : mipiData.length = 250) :
    ∃ s, sendCode answers mipiData curflick curpolar (rs.flatMap Record.encode ++
        List.replicate (cap - (rs.flatMap Record.encode).length) 0xff) = some (visits 0 rs, s) ∧
      s.codePoint = (rs.flatMap Record.encode).length := by
  have hmax : maxMipiCodeLen = 8192 := rfl
  have hrounds := Record.length_le_length_flatMap_encode rs
  have hterm : (List.replicate (cap - (rs.flatMap Record.encode).length) (0xff : UInt8))[2]? =
      some 0xff := by
    rw [List.getElem?_replicate, if_pos (by omega)]
  obtain ⟨s, hloop, hs⟩ := sendLoop_records answers (by decide) rs hterm hrs maxMipiCodeLen []
    mipiData curflick curpolar (by omega) hdata (by rw [List.length_nil]; omega)
  rw [List.length_nil, Nat.zero_add] at hs
  exact ⟨s, hloop, hs⟩

/-- The records of an aligned text are those its lines are compiled to, and three bytes of the
filling are left. -/
theorem Aligned.sound (h : Aligned vcomInfo dst file cap) (hcap : cap ≤ maxMipiCodeLen)
    (hlines : ∀ line ∈ textLines file, line.length ≤ 199)
    (hstorable : ∀ tokens ∈ sourceTokens vcomInfo noFilters (textLines file), Storable tokens) :
    AllSound (entry dst 0) (entry dst 3) (sourceTokens vcomInfo noFilters (textLines file)) ∧
      compiledSize (sourceTokens vcomInfo noFilters (textLines file)) + 3 ≤ cap := by
  obtain ⟨code, size, hrun, rs, hcode, hsize, hmeaning, hsend⟩ := h
  have htotal : (rs.flatMap Record.encode).length =
      compiledSize (sourceTokens vcomInfo noFilters (textLines file)) := by
    rw [compiledSize, ← hmeaning, List.length_flatMap, List.map_map]
    rfl
  -- a line to be rejected would make the code longer than the records
  obtain ⟨c, hcompile, hc⟩ := Option.map_eq_some_iff.mp
    ((mipiParseInitCode_textLines hlines).symm.trans hrun)
  obtain ⟨rfl, rfl⟩ := Prod.mk.inj hc
  obtain ⟨hlength, -, hlt⟩ := compileAll_size (fun tokens ht => (hstorable tokens ht).count)
    hcompile (Iff.rfl (a := Silent _))
  rw [List.length_replicate] at hlength
  have hregular : AllRegular (entry dst 0) (sourceTokens vcomInfo noFilters (textLines file)) := by
    by_contra hreg
    have hmore := hlt hreg
    omega
  have hfit : compiledSize (sourceTokens vcomInfo noFilters (textLines file)) ≤ cap := by
    rw [hcode, List.length_append, List.length_replicate] at hlength
    omega
  -- the bytes of records say which records they are
  obtain ⟨rs', hrs', hrun'⟩ := mipiParseInitCode_records hlines hstorable hregular hfit
  obtain ⟨hcode', -⟩ := Prod.mk.inj (Option.some.inj (hrun.symm.trans hrun'))
  rw [hcode] at hcode'
  obtain rfl := Record.flatMap_encode_inj (List.append_inj hcode'
    (by rw [hrs'.length, htotal, compiledSize])).1
  refine ⟨hrs'.meaning.mp hmeaning, ?_⟩
  -- the last round of the walk reads a length byte
  obtain ⟨s, hloop, hs⟩ := hsend (fun _ => ⟨0, none⟩) (List.replicate 250 0) 0 0
    List.length_replicate
  have hmax : maxMipiCodeLen = 8192 := rfl
  have hrounds := Record.length_le_length_flatMap_encode rs
  have hend := sendLoop_end _ _ hloop (by rw [length_visits]; omega)
  rw [hlength, hs] at hend
  omega

/-- For lines that fit the buffer and tokens that fit `dst`, in a buffer that `SendCode` can
walk over: compiler and interpreter fit together exactly if every line is sound and three
bytes of the filling are left, of which the interpreter reads the last. -/
theorem aligned_iff (hcap : cap ≤ maxMipiCodeLen)
    (hlines : ∀ line ∈ textLines file, line.length ≤ 199)
    (htokens : ∀ tokens ∈ sourceTokens vcomInfo noFilters (textLines file),
      ∀ t ∈ tokens, t.length < 16) :
    Aligned vcomInfo dst file cap ↔
      AllSound (entry dst 0) (entry dst 3) (sourceTokens vcomInfo noFilters (textLines file)) ∧
        compiledSize (sourceTokens vcomInfo noFilters (textLines file)) + 3 ≤ cap := by
  have hstorable : ∀ tokens ∈ sourceTokens vcomInfo noFilters (textLines file), Storable tokens :=
    fun tokens h => ⟨length_sourceTokens hlines tokens h, by simpa using htokens tokens h⟩
  constructor
  · exact fun h => h.sound hcap hlines hstorable
  · rintro ⟨hsound, hfit⟩
    have hregular := allRegular_of_allSound hsound
    obtain ⟨rs, hrs, hrun⟩ := mipiParseInitCode_records hlines hstorable hregular
      ((Nat.le_add_right _ 3).trans hfit)
    have hsize : compiledSize (sourceTokens vcomInfo noFilters (textLines file)) =
        (rs.flatMap Record.encode).length := hrs.length.symm
    refine ⟨_, _, hrun, rs, rfl, hsize, hrs.meaning.mpr hsound, ?_⟩
    intro answers mipiData curflick curpolar hdata
    rw [hsize] at hfit ⊢
    exact sendCode_records hrs.complete hcap hfit answers curflick curpolar hdata

theorem aligned_text : Aligned none (List.replicate 256 [])
    ("15 11 22\nR35 01 02 // gate\ndelay 300\n\n".toList ++
      "dcsread 0A 02 curflick\n39 B0 1 2\ndcsread 0B 1\n".toList) 64 :=
  (aligned_iff (by decide) (by decide) (by decide)).mpr (by decide)

/-- A line `05` without a register shifts everything behind it. -/
theorem not_aligned_missing_register :
    (∀ line ∈ textLines "05\n29 11 22\n".toList, line.length ≤ 199) ∧
      (∀ tokens ∈ sourceTokens none noFilters (textLines "05\n29 11 22\n".toList),
        ∀ t ∈ tokens, t.length < 16) ∧
      (mipiParseInitCode none (List.replicate 256 []) "05\n29 11 22\n".toList
        (List.replicate 64 0xff)).any (·.2 = 6) ∧
      ¬ Aligned none (List.replicate 256 []) "05\n29 11 22\n".toList 64 := by
  have hstorable : ∀ tokens ∈ sourceTokens none noFilters (textLines "05\n29 11 22\n".toList),
      Storable tokens := by
    intro tokens htokens
    exact ⟨length_sourceTokens (by decide) tokens htokens, by revert tokens; decide⟩
  refine ⟨by decide, by decide, by decide, ?_⟩
  intro h
  exact absurd (h.sound (by decide) (by decide) hstorable).1 (by decide)

end

end PanelTester.Mipi
