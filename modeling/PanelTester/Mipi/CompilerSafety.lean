import PanelTester.Library.StringArray
import PanelTester.Mipi.Compile

/-!
The accesses of `mipi_parse_init_code`. Here `dst` is the one block of characters that it is
in the source, with tokens that run on from entry to entry, and there is no result either when
a line reads an entry behind those of its own tokens. `compilesInside_iff` says for which files
there is one: every line has the tokens that its kind reads, what the lines are compiled to
fits the buffer of the caller, and, if each token is to keep to its entry, no token is longer
than 15 characters. The line buffer never overflows, and neither does the array as a whole.
What is compiled so is what the compiler over an array of strings gives
(`mipiParseInitCode_of_inside`).
-/

namespace PanelTester.Mipi

open Library

/-! ### The compiler with its accesses -/

/-- The characters of `dst`, in 256 entries of 16. -/
structure TokenArray where
  chars : Str
  size : chars.length = 256 * 16

/-- The entries of `dst` as strings. -/
def entries (dst : Str) : List Str := (List.range 256).map (stringAt 16 dst)

/-- The entries behind the first that the lines of `hs` and `mtp` read. -/
def switchReads (word : String) (dst : List Str) (count : ℕ) : List ℕ :=
  if count = 3 then if startsWith word (entry dst 1) then [1, 2] else [1] else []

/-- The entries behind the first that a line of each kind reads. -/
def kindReads (kind : LineKind) (dst : List Str) (count : ℕ) : List ℕ :=
  match kind with
  | .channel => [1]
  | .chiptype => []
  | .read2828 => [1]
  | .write2828 => [1, 2]
  | .vcomIli9881 => []
  | .otpIli9881 => []
  | .otpCheck => []
  | .hs => switchReads "mode" dst count
  | .mtp => switchReads "power" dst count
  | .reset => []
  | .rgb => [1, 2, 3]
  | .delay => [1]
  | .dcsread => if 0 < (byte (number dst 2 16)).toNat then [1, 2, 3] else [1, 2]
  | .genread => [1, 2]
  | .direct _ => 1 :: (List.range (count - 2)).map (· + 2)
  | .r => (List.range (count - 1)).map (· + 1)

/-- The entries that a line reads. -/
def lineReads (dst : List Str) (count : ℕ) : List ℕ :=
  0 :: kindReads (lineKind (entry dst 0)) dst count

/-- The variables of `mipi_parse_init_code`, with the array as it is. -/
structure Memory where
  code : List UInt8
  codeByte : ℕ
  dst : Str

/-- A line is split and compiled; none if something is written outside, or an entry is read
that holds no token of the line. -/
def compileInto (room : Room) (m : Memory) (tokens : List Str) : Option Memory := do
  let dst ← copyStrings 16 room 0 tokens m.dst
  if ∀ i ∈ lineReads (entries dst) tokens.length, i < tokens.length then
    let out := compileLine (entries dst) tokens.length
    let code ← put m.code m.codeByte out.1
    some ⟨code, m.codeByte + out.2,
      if lineKind (entry (entries dst) 0) = .r then dst.set 0 'R' else dst⟩
  else none

/-- The lines are compiled one after the other. -/
def compileAllInto (room : Room) (lines : List (List Str)) (m : Memory) : Option Memory :=
  lines.foldlM (compileInto room) m

/-- `mipi_parse_init_code` keeps to the buffer of a line, to `dst`, to the buffer of the caller
and to the tokens of each line. -/
def CompilesInside (room : Room) (vcomInfo : Option VcomInfo) (dst : TokenArray) (file : Str)
    (code : List UInt8) : Prop :=
  (∀ line ∈ readLines 200 file, line.length < 200) ∧
    ∃ m, compileAllInto room (sourceTokens vcomInfo noFilters (readLines 200 file))
      ⟨code, 0, dst.chars⟩ = some m

/-! ### What a line needs -/

/-- How many tokens a line of each kind needs. -/
def kindNeeds (kind : LineKind) (dst : List Str) : ℕ :=
  match kind with
  | .channel => 2
  | .read2828 => 2
  | .write2828 => 3
  | .rgb => 4
  | .delay => 2
  | .dcsread => if 0 < (byte (number dst 2 16)).toNat then 4 else 3
  | .genread => 3
  | .direct _ => 2
  | _ => 1

/-- How many bytes the lines of `hs` and `mtp` are compiled to. -/
def switchSize (word : String) (dst : List Str) (count : ℕ) : ℕ :=
  if count = 3 ∧ startsWith word (entry dst 1) then
    if startsWith "on" (entry dst 2) ∨ startsWith "off" (entry dst 2) then 3 else 0
  else 0

/-- How many bytes a line of each kind is compiled to. -/
def kindSize (kind : LineKind) (dst : List Str) (count : ℕ) : ℕ :=
  match kind with
  | .channel => 4
  | .chiptype => 0
  | .read2828 => 6
  | .write2828 => 6
  | .hs => switchSize "mode" dst count
  | .mtp => switchSize "power" dst count
  | .rgb => 6
  | .delay => 5
  | .dcsread => 4 + (byte (number dst 2 16)).toNat
  | .genread => 4 + (byte (number dst 2 16)).toNat
  | .direct _ => count + 1
  | .r => count + 2
  | _ => 3

/-- The tokens that a line needs, by what stands in its entries. -/
def neededTokens (tokens : List Str) : ℕ :=
  kindNeeds (lineKind (entry (runOn 16 tokens) 0)) (runOn 16 tokens)

/-- The bytes that a line is compiled to. -/
def codeSize (tokens : List Str) : ℕ :=
  kindSize (lineKind (entry (runOn 16 tokens) 0)) (runOn 16 tokens) tokens.length

theorem switchReads_lt {word : String} {dst : List Str} {count : ℕ} :
    ∀ i ∈ switchReads word dst count, i < count := by
  rw [switchReads]
  split
  · rename_i hcount
    subst hcount
    split <;> simp
  · simp

/-- A line reads its own tokens only if it has as many as it needs. -/
theorem kindReads_iff (kind : LineKind) (dst : List Str) (count : ℕ) :
    (∀ i ∈ 0 :: kindReads kind dst count, i < count) ↔ kindNeeds kind dst ≤ count := by
  -- the parameters of a write are read as far as the tokens go
  have hparams : ∀ n : ℕ, (∀ i ∈ (List.range (count - n)).map (· + n), i < count) := by
    intro n i hi
    obtain ⟨j, hj, rfl⟩ := List.mem_map.mp hi
    have hlt := List.mem_range.mp hj
    omega
  rw [List.forall_mem_cons]
  cases kind with
  | hs => exact ⟨fun h => h.1, fun h => ⟨h, switchReads_lt⟩⟩
  | mtp => exact ⟨fun h => h.1, fun h => ⟨h, switchReads_lt⟩⟩
  | dcsread =>
      rw [kindReads, kindNeeds]
      split <;> simp <;> omega
  | direct op =>
      rw [kindReads, kindNeeds, List.forall_mem_cons]
      exact ⟨fun h => h.2.1, fun h => ⟨Nat.zero_lt_of_lt h, h, hparams 2⟩⟩
  | r => exact ⟨fun h => h.1, fun h => ⟨h, hparams 1⟩⟩
  | _ =>
      simp [kindReads, kindNeeds]
      try omega

/-- With the tokens that it needs, a line writes as many bytes as it moves `codeByte`. -/
theorem length_compileKind {kind : LineKind} {dst : List Str} {count : ℕ}
    (h : kindNeeds kind dst ≤ count) :
    (compileKind kind dst count).1.length = kindSize kind dst count ∧
      (compileKind kind dst count).2 = kindSize kind dst count := by
  have hread : ∀ (front : List UInt8) mark n, (front ++ answerBytes mark n).length =
      front.length + n := by
    intro front mark n
    cases n <;> simp [answerBytes]
  cases kind with
  | hs =>
      have hsize : kindSize .hs dst count = switchSize "mode" dst count := rfl
      rw [hsize, switchSize]
      simp only [compileKind]
      split_ifs <;> simp_all
  | mtp =>
      have hsize : kindSize .mtp dst count = switchSize "power" dst count := rfl
      rw [hsize, switchSize]
      simp only [compileKind]
      split_ifs <;> simp_all
  | dcsread => exact ⟨hread _ _ _, rfl⟩
  | genread => exact ⟨hread _ _ _, rfl⟩
  | direct op =>
      rw [kindNeeds] at h
      have hsize : kindSize (.direct op) dst count = count + 1 := rfl
      rw [hsize]
      simp only [compileKind, List.length_append, List.length_map, List.length_range,
        List.length_cons, List.length_nil]
      omega
  | r =>
      simp only [kindNeeds] at h
      have hsize : kindSize .r dst count = count + 2 := rfl
      rw [hsize]
      simp only [compileKind, List.length_append, List.length_map, List.length_range,
        List.length_cons, List.length_nil]
      omega
  | _ => exact ⟨rfl, rfl⟩

theorem switch_congr {word : String} {dst dst' : List Str} {count : ℕ}
    (h : ∀ i ∈ switchReads word dst count, entry dst i = entry dst' i) {α : Type}
    (f : Str → α) (none : α) :
    switchReads word dst' count = switchReads word dst count ∧
      (if count = 3 ∧ startsWith word (entry dst' 1) then f (entry dst' 2) else none) =
        if count = 3 ∧ startsWith word (entry dst 1) then f (entry dst 2) else none := by
  rw [switchReads] at h ⊢
  rw [switchReads]
  by_cases hcount : count = 3
  · rw [if_pos hcount] at h ⊢
    have hword : entry dst 1 = entry dst' 1 := h 1 (by split <;> simp)
    rw [← hword]
    refine ⟨by rw [if_pos hcount], ?_⟩
    by_cases hstart : startsWith word (entry dst 1)
    · rw [if_pos hstart] at h
      rw [h 2 (by simp)]
    · simp [hstart]
  · simp [hcount]

/-- What a line is compiled to is decided by the entries that it reads. -/
theorem compileKind_congr {kind : LineKind} {dst dst' : List Str} {count : ℕ}
    (h : ∀ i ∈ 0 :: kindReads kind dst count, entry dst i = entry dst' i) :
    kindReads kind dst' count = kindReads kind dst count ∧
      compileKind kind dst' count = compileKind kind dst count := by
  obtain ⟨hfirst, hrest⟩ := List.forall_mem_cons.mp h
  have hparams : ∀ n : ℕ,
      (∀ i ∈ (List.range (count - n)).map (· + n), entry dst i = entry dst' i) →
      ((List.range (count - n)).map fun i => byte (number dst' (i + n) 16)) =
        (List.range (count - n)).map fun i => byte (number dst (i + n) 16) := by
    intro n hn
    apply List.map_congr_left
    intro i hi
    rw [number, number, hn (i + n) (List.mem_map_of_mem hi)]
  cases kind with
  | hs =>
      exact switch_congr hrest (fun s => if startsWith "on" s then ([0x00, 0xFB, 0], 3)
        else if startsWith "off" s then ([0x00, 0xFA, 0], 3) else ([], 0)) ([], 0)
  | mtp =>
      exact switch_congr hrest (fun s => if startsWith "on" s then ([0x00, 0xF9, 0], 3)
        else if startsWith "off" s then ([0x00, 0xF8, 0], 3) else ([], 0)) ([], 0)
  | dcsread =>
      rw [kindReads] at hrest
      have hreg : number dst' 1 16 = number dst 1 16 := by
        rw [number, number, hrest 1 (by split <;> simp)]
      have hlen : number dst' 2 16 = number dst 2 16 := by
        rw [number, number, hrest 2 (by split <;> simp)]
      -- the mark is read only if there is room for it
      have hmark : answerBytes (answerMark (entry dst' 3)) (byte (number dst 2 16)).toNat =
          answerBytes (answerMark (entry dst 3)) (byte (number dst 2 16)).toNat := by
        rcases Nat.eq_zero_or_pos (byte (number dst 2 16)).toNat with hzero | hpos
        · rw [hzero]
          rfl
        · rw [if_pos hpos] at hrest
          rw [hrest 3 (by simp)]
      simp only [kindReads, compileKind, hreg, hlen, hmark, and_self]
  | direct op =>
      rw [kindReads, List.forall_mem_cons] at hrest
      have hreg : number dst' 1 16 = number dst 1 16 := by rw [number, number, hrest.1]
      simp only [kindReads, compileKind, hparams 2 hrest.2, hreg, true_and]
  | r =>
      simp only [kindReads, compileKind, hparams 1 hrest, hfirst, true_and]
  | _ => simp_all [kindReads, compileKind, number]

theorem compileLine_congr {dst dst' : List Str} {count : ℕ}
    (h : ∀ i ∈ lineReads dst count, entry dst i = entry dst' i) :
    lineReads dst' count = lineReads dst count ∧
      compileLine dst' count = compileLine dst count := by
  have hfirst : entry dst 0 = entry dst' 0 := h 0 List.mem_cons_self
  obtain ⟨hreads, hcode⟩ := compileKind_congr h
  rw [lineReads, lineReads, compileLine, compileLine, ← hfirst]
  exact ⟨congrArg _ hreads, hcode⟩

/-! ### One line -/

/-- What `split` gives for a line that fits the buffer. -/
structure FromBuffer (tokens : List Str) : Prop where
  count : tokens.length ≤ 200
  len : ∀ t ∈ tokens, t.length < 200
  noNul : ∀ t ∈ tokens, nul ∉ t

theorem entry_entries {dst : Str} {i : ℕ} (hi : i < 256) :
    entry (entries dst) i = stringAt 16 dst i := by
  rw [entry, entries, List.getD_eq_getElem _ _ (by simpa using hi)]
  simp

/-- The entries of the tokens are what a line is compiled by, if it reads no others. -/
theorem compileLine_entries {room : Room} {tokens : List Str} {mem dst : Str}
    (htokens : FromBuffer tokens) (hcopy : copyStrings 16 room 0 tokens mem = some dst) :
    ((∀ i ∈ lineReads (entries dst) tokens.length, i < tokens.length) ↔
        neededTokens tokens ≤ tokens.length) ∧
      (neededTokens tokens ≤ tokens.length → compileLine (entries dst) tokens.length =
        compileLine (runOn 16 tokens) tokens.length) := by
  have hentry : ∀ i < tokens.length, entry (entries dst) i = entry (runOn 16 tokens) i := by
    intro i hi
    have hat := stringAt_copyStrings htokens.noNul hcopy i hi
    have hcount := htokens.count
    rw [entry_entries (by omega), entry, ← hat, Nat.zero_add]
  have hneeds : (∀ i ∈ lineReads (runOn 16 tokens) tokens.length, i < tokens.length) ↔
      neededTokens tokens ≤ tokens.length := kindReads_iff _ _ _
  rw [← hneeds]
  refine ⟨⟨fun h => ?_, fun h => ?_⟩, fun h => ?_⟩
  · rwa [(compileLine_congr fun i hi => hentry i (h i hi)).1]
  · rwa [(compileLine_congr fun i hi => (hentry i (h i hi)).symm).1]
  · exact (compileLine_congr fun i hi => (hentry i (h i hi)).symm).2

/-- A line that is compiled inside. -/
theorem compileInto_eq_some {room : Room} {m m' : Memory} {tokens : List Str}
    (htokens : FromBuffer tokens) (h : compileInto room m tokens = some m') :
    neededTokens tokens ≤ tokens.length ∧
      put m.code m.codeByte (compileLine (runOn 16 tokens) tokens.length).1 = some m'.code ∧
      m'.codeByte = m.codeByte + codeSize tokens ∧ m'.dst.length = m.dst.length := by
  obtain ⟨dst, hcopy, h⟩ := Option.bind_eq_some_iff.mp h
  obtain ⟨hneeds, hline⟩ := compileLine_entries htokens hcopy
  split at h
  · rename_i hreads
    have hneeded := hneeds.mp hreads
    rw [hline hneeded] at h
    obtain ⟨code, hput, h⟩ := Option.bind_eq_some_iff.mp h
    obtain rfl := Option.some.inj h
    have hlength := (copyStrings_eq_some hcopy).1
    refine ⟨hneeded, hput, congrArg _ (length_compileKind hneeded).2, ?_⟩
    show (if _ then _ else _ : Str).length = _
    split
    · rwa [List.length_set]
    · exact hlength
  · exact absurd h (by simp)

/-- When a line is compiled inside. -/
theorem exists_compileInto_iff {room : Room} {m : Memory} {tokens : List Str}
    (htokens : FromBuffer tokens) (hdst : m.dst.length = 256 * 16) :
    (∃ m', compileInto room m tokens = some m') ↔
      (room = .entry → ∀ t ∈ tokens, t.length < 16) ∧ neededTokens tokens ≤ tokens.length ∧
        m.codeByte + codeSize tokens ≤ m.code.length := by
  have hroom : (∃ dst, copyStrings 16 room 0 tokens m.dst = some dst) ↔
      (room = .entry → ∀ t ∈ tokens, t.length < 16) := by
    apply exists_copyStrings_iff (by decide)
    intro t ht
    have hcount := htokens.count
    have hlen := htokens.len t ht
    omega
  have hput : ∀ bytes : List UInt8, (∃ code, put m.code m.codeByte bytes = some code) ↔
      m.codeByte + bytes.length ≤ m.code.length := by
    intro bytes
    rw [put]
    split
    · exact iff_of_true ⟨_, rfl⟩ ‹_›
    · exact iff_of_false (by simp) ‹_›
  constructor
  · rintro ⟨m', h⟩
    obtain ⟨hneeded, hcode, -, -⟩ := compileInto_eq_some htokens h
    obtain ⟨dst, hcopy, -⟩ := Option.bind_eq_some_iff.mp h
    refine ⟨hroom.mp ⟨dst, hcopy⟩, hneeded, ?_⟩
    rw [codeSize, ← (length_compileKind hneeded).1]
    exact (hput _).mp ⟨_, hcode⟩
  · rintro ⟨hshort, hneeded, hfit⟩
    obtain ⟨dst, hcopy⟩ := hroom.mpr hshort
    obtain ⟨hneeds, hline⟩ := compileLine_entries htokens hcopy
    rw [codeSize, ← (length_compileKind hneeded).1] at hfit
    obtain ⟨code, hcode⟩ := (hput _).mpr hfit
    rw [compileInto, hcopy, Option.bind_eq_bind, Option.bind_some, if_pos (hneeds.mpr hneeded),
      hline hneeded]
    exact ⟨_, Option.bind_eq_some_iff.mpr ⟨code, hcode, rfl⟩⟩

/-! ### All lines -/

/-- The lines that are compiled come from the buffer. -/
theorem fromBuffer_of_mem {vcomInfo : Option VcomInfo} {f : Filters} {lines : List Str}
    (hlines : ∀ line ∈ lines, line.length < 200) {tokens : List Str}
    (h : tokens ∈ sourceTokens vcomInfo f lines) : FromBuffer tokens := by
  obtain ⟨line, hmem, str, hstr, rfl⟩ := exists_line_of_mem_sourceTokens h
  have hlen : str.length < 200 :=
    (hstr.length_le.trans (List.takeWhile_prefix _).length_le).trans_lt (hlines line hmem)
  have hsub : ∀ t ∈ split str, t.Sublist str := fun t ht =>
    sublist_of_mem_strtok (List.mem_of_mem_filter ht)
  refine ⟨(length_split_le str).trans hlen, ?_, ?_⟩
  · exact fun t ht => (hsub t ht).length_le.trans_lt hlen
  · exact fun t ht hnul => nul_not_mem_untilNul line (hstr.subset ((hsub t ht).subset hnul))

theorem length_of_mem_readLines {file line : Str} (h : line ∈ readLines 200 file) :
    line.length < 200 := by
  rw [readLines] at h
  generalize file.length = n at h
  induction n generalizing file with
  | zero => exact absurd h List.not_mem_nil
  | succ n ih =>
      rw [readLinesLoop, fgets] at h
      split at h
      · exact absurd h List.not_mem_nil
      · rename_i first rest hfgets
        obtain ⟨-, hfirst⟩ := Option.ite_none_left_eq_some.mp hfgets
        have hlen := length_takeLine_le (200 - 1) file
        rw [Option.some.inj hfirst] at hlen
        rcases List.mem_cons.mp h with rfl | h
        · exact Nat.lt_succ_of_le hlen
        · exact ih h

theorem compileAllInto_cons (room : Room) (tokens : List Str) (lines : List (List Str))
    (m : Memory) : compileAllInto room (tokens :: lines) m =
      (compileInto room m tokens).bind (compileAllInto room lines) := rfl

/-- When all lines are compiled inside. -/
theorem exists_compileAllInto_iff {room : Room} {lines : List (List Str)}
    (hlines : ∀ tokens ∈ lines, FromBuffer tokens) {m : Memory} (hdst : m.dst.length = 256 * 16)
    (hbyte : m.codeByte ≤ m.code.length) :
    (∃ m', compileAllInto room lines m = some m') ↔
      (room = .entry → ∀ tokens ∈ lines, ∀ t ∈ tokens, t.length < 16) ∧
        (∀ tokens ∈ lines, neededTokens tokens ≤ tokens.length) ∧
          m.codeByte + (lines.map codeSize).sum ≤ m.code.length := by
  induction lines generalizing m with
  | nil => exact iff_of_true ⟨m, rfl⟩ ⟨by simp, by simp, by simpa⟩
  | cons tokens lines ih =>
      obtain ⟨htokens, hlines⟩ := List.forall_mem_cons.mp hlines
      have hrest : ∀ {m₁}, compileInto room m tokens = some m₁ →
          ((∃ m', compileAllInto room lines m₁ = some m') ↔
            (room = .entry → ∀ tokens ∈ lines, ∀ t ∈ tokens, t.length < 16) ∧
              (∀ tokens ∈ lines, neededTokens tokens ≤ tokens.length) ∧
                m.codeByte + codeSize tokens + (lines.map codeSize).sum ≤ m.code.length) := by
        intro m₁ hline
        obtain ⟨-, hput, hbyte₁, hdst₁⟩ := compileInto_eq_some htokens hline
        obtain ⟨-, -, hfit⟩ := (exists_compileInto_iff htokens hdst).mp ⟨m₁, hline⟩
        have hcode₁ := (length_put hput).1
        rw [ih hlines (hdst₁.trans hdst) (by omega), hbyte₁, hcode₁]
      simp only [compileAllInto_cons, Option.bind_eq_some_iff, List.forall_mem_cons, List.map_cons,
        List.sum_cons, forall_and, ← Nat.add_assoc]
      constructor
      · rintro ⟨m', m₁, hline, hm'⟩
        obtain ⟨hshort, hneeded, -⟩ := (exists_compileInto_iff htokens hdst).mp ⟨m₁, hline⟩
        obtain ⟨hshorts, hneededs, hfit⟩ := (hrest hline).mp ⟨m', hm'⟩
        exact ⟨⟨hshort, hshorts⟩, ⟨hneeded, hneededs⟩, hfit⟩
      · rintro ⟨⟨hshort, hshorts⟩, ⟨hneeded, hneededs⟩, hfit⟩
        obtain ⟨m₁, hline⟩ := (exists_compileInto_iff htokens hdst).mpr
          ⟨hshort, hneeded, by omega⟩
        obtain ⟨m', hm'⟩ := (hrest hline).mpr ⟨hshorts, hneededs, hfit⟩
        exact ⟨m', m₁, hline, hm'⟩

/-- A line that is compiled inside, each token in its entry, is compiled as by
`mipi_parse_init_code` with an array of strings. -/
theorem compileTokens_of_compileInto {m m' : Memory} {c : Compiler} {tokens : List Str}
    (htokens : FromBuffer tokens) (hdst : m.dst.length = 256 * 16)
    (h : compileInto .entry m tokens = some m') (hcode : c.code = m.code)
    (hbyte : c.codeByte = m.codeByte) :
    ∃ c', compileTokens tokens c = some c' ∧ c'.code = m'.code ∧ c'.codeByte = m'.codeByte := by
  obtain ⟨hneeded, hput, hbyte', -⟩ := compileInto_eq_some htokens h
  obtain ⟨hshort, -, -⟩ := (exists_compileInto_iff htokens hdst).mp ⟨m', h⟩
  replace hshort := hshort rfl
  have hsize := (length_compileKind hneeded).2
  rw [runOn_of_short hshort] at hput
  rw [neededTokens, runOn_of_short hshort] at hneeded
  have hstore : storeTokens tokens c.dst = some (tokens ++ c.dst.drop tokens.length) :=
    if_pos ⟨htokens.count.trans (by decide), by simpa using hshort⟩
  -- the entries that the line reads are those of its tokens
  have hreads := (kindReads_iff _ tokens tokens.length).mpr hneeded
  have hline : compileLine (tokens ++ c.dst.drop tokens.length) tokens.length =
      compileLine tokens tokens.length := by
    refine (compileLine_congr fun i hi => ?_).2
    rw [entry, entry, List.getD_append _ _ _ _ (hreads i hi)]
  rw [compileTokens, hstore]
  simp only [Option.bind_eq_bind, Option.bind_some, hline, hcode, hbyte, hput]
  refine ⟨_, rfl, rfl, ?_⟩
  rw [hbyte', codeSize, ← hsize, runOn_of_short hshort]
  rfl

/-- What is compiled inside, each token in its entry, is what `mipi_parse_init_code` compiles
with an array of strings, whatever that one holds at the start. -/
theorem mipiParseInitCode_of_inside {vcomInfo : Option VcomInfo} {dst : TokenArray} {file : Str}
    {code : List UInt8} {m : Memory}
    (h : compileAllInto .entry (sourceTokens vcomInfo noFilters (readLines 200 file))
      ⟨code, 0, dst.chars⟩ = some m) (strings : List Str) :
    mipiParseInitCode vcomInfo strings file code = some (m.code, m.codeByte) := by
  have hrun : ∀ (lines : List (List Str)) (m₀ : Memory) (c : Compiler),
      (∀ tokens ∈ lines, FromBuffer tokens) → m₀.dst.length = 256 * 16 →
      compileAllInto .entry lines m₀ = some m → c.code = m₀.code → c.codeByte = m₀.codeByte →
      (compileAll lines c).map (fun c => (c.code, c.codeByte)) = some (m.code, m.codeByte) := by
    intro lines
    induction lines with
    | nil =>
        intro m₀ c _ _ h hcode hbyte
        obtain rfl := Option.some.inj h
        exact congrArg some (Prod.ext hcode hbyte)
    | cons tokens lines ih =>
        intro m₀ c hlines hdst h hcode hbyte
        obtain ⟨htokens, hlines⟩ := List.forall_mem_cons.mp hlines
        obtain ⟨m₁, hline, h⟩ := Option.bind_eq_some_iff.mp h
        obtain ⟨c₁, hcompile, hcode₁, hbyte₁⟩ :=
          compileTokens_of_compileInto htokens hdst hline hcode hbyte
        obtain ⟨-, -, -, hdst₁⟩ := compileInto_eq_some htokens hline
        rw [compileAll_cons, hcompile]
        exact ih m₁ c₁ hlines (hdst₁.trans hdst) h hcode₁ hbyte₁
  rw [mipiParseInitCode_eq]
  exact hrun _ _ _ (fun tokens htokens =>
    fromBuffer_of_mem (fun line => length_of_mem_readLines) htokens) dst.size h rfl rfl

/-- For which files the compiler keeps to its buffers and to the tokens of each line. `room`
says whether the copy of a token may run on behind its entry. -/
theorem compilesInside_iff (room : Room) (vcomInfo : Option VcomInfo) (dst : TokenArray)
    (file : Str) (code : List UInt8) :
    CompilesInside room vcomInfo dst file code ↔
      (room = .entry → ∀ tokens ∈ sourceTokens vcomInfo noFilters (readLines 200 file),
        ∀ t ∈ tokens, t.length < 16) ∧
      (∀ tokens ∈ sourceTokens vcomInfo noFilters (readLines 200 file),
        neededTokens tokens ≤ tokens.length) ∧
      ((sourceTokens vcomInfo noFilters (readLines 200 file)).map codeSize).sum ≤
        code.length := by
  have hlines : ∀ line ∈ readLines 200 file, line.length < 200 := fun _ => length_of_mem_readLines
  rw [CompilesInside, exists_compileAllInto_iff (fun _ => fromBuffer_of_mem hlines) dst.size
    (Nat.zero_le _), Nat.zero_add]
  exact and_iff_right hlines

/-- A line `delay` without a number is compiled from what an earlier line left, or nobody. -/
theorem not_compilesInside_delay :
    ¬ ∃ room : Room, CompilesInside room none
      ⟨List.replicate (256 * 16) nul, List.length_replicate⟩ "delay\n".toList
      (List.replicate 8192 0xff) := by
  rintro ⟨room, -, m, h⟩
  have htokens : sourceTokens none noFilters (readLines 200 "delay\n".toList) =
      [["delay".toList]] := by decide
  rw [htokens] at h
  have hfrom : FromBuffer ["delay".toList] := ⟨by simp, by simp, by decide⟩
  rw [compileAllInto_cons] at h
  obtain ⟨m₁, hline, -⟩ := Option.bind_eq_some_iff.mp h
  have hneeded : neededTokens ["delay".toList] ≤ 1 := (compileInto_eq_some hfrom hline).1
  exact absurd hneeded (by decide)

end PanelTester.Mipi
