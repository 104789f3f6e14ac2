import PanelTester.Ini.RoundTrip
import PanelTester.Library.Decimal

/-!
The file that keeps how far the files were synchronised. `write_sync_config` writes two numbers to
it, into the dictionary that is loaded from it or, where none is, as a new file; `read_sync_config`
reads them. In whatever state the file was found, after any number of writes the last numbers are
read (`readSyncConfig_writes`), as long as a file that can be loaded has the section.
-/

namespace PanelTester.Ini

open Library

/-- `sync_info_t` -/
structure SyncInfo where
  syncProcess : Int32
  timeStamp : Int32
  deriving DecidableEq, Repr

/-- `read_sync_config`; no result where an array is left or a null pointer is read. -/
def readSyncConfig (front : Option Char) (file : Option Str) : Option SyncInfo :=
  (iniparserLoad front file).bind fun ini =>
    match ini with
    | none => some ⟨0, 0⟩
    | some ini =>
        (iniparserGetint ini "sync:syncprocess".toList 0).bind fun syncProcess =>
          (iniparserGetint ini "sync:timestamp".toList 0).map fun timeStamp =>
            ⟨Int32.ofInt syncProcess, Int32.ofInt timeStamp⟩

/-- What `write_sync_config` puts into a new file. -/
def newSyncFile (info : SyncInfo) : Str :=
  "[sync]\n".toList ++
    ("syncprocess=".toList ++ (printDecimal info.syncProcess.toInt ++
      ('\n' :: ("timestamp=".toList ++ (printDecimal info.timeStamp.toInt ++ ['\n'])))))

/-- `write_sync_config`: what the file holds behind it. -/
def writeSyncConfig (front : Option Char) (file : Option Str) (info : SyncInfo) : Option Str :=
  (iniparserLoad front file).bind fun ini =>
    match ini with
    | some ini =>
        (iniparserSet ini "sync:syncprocess".toList
            (some (printDecimal info.syncProcess.toInt))).bind fun r =>
          (iniparserSet r.2 "sync:timestamp".toList
              (some (printDecimal info.timeStamp.toInt))).bind fun r =>
            (iniparserDumpIni r.2).bind Dump.contents
    | none => some (newSyncFile info)

/-! ### The names and the numbers -/

def syncName : Str := "sync".toList

theorem sectionName_sync : SectionName syncName where
  ne_nil := by simp [syncName]
  trimmed := ⟨by simp [syncName, isSpace], by simp [syncName, isSpace]⟩
  lower := rfl
  plain := by simp [syncName, nul]

theorem keyName_syncprocess : KeyName "syncprocess".toList where
  ne_nil := by simp
  trimmed := ⟨by simp [isSpace], by simp [isSpace]⟩
  lower := rfl
  plain := by simp [nul]
  head := by simp

theorem keyName_timestamp : KeyName "timestamp".toList where
  ne_nil := by simp
  trimmed := ⟨by simp [isSpace], by simp [isSpace]⟩
  lower := rfl
  plain := by simp [nul]
  head := by simp

theorem mem_printDecimal {i : ℤ} {c : Char} (hc : c ∈ printDecimal i) :
    isDigitChar c ∨ c = '-' := by
  rw [printDecimal_eq] at hc
  rcases List.mem_append.mp hc with hc | hc
  · split_ifs at hc
    · exact .inr (by simpa using hc)
    · exact absurd hc List.not_mem_nil
  · exact .inl (allDigits_printDecimal _ c hc)

theorem plainValue_printDecimal (i : ℤ) : PlainValue (printDecimal i) := by
  have hne : ∀ c ∈ printDecimal i, ∀ d ∈ [' ', '\t', '\n', Char.ofNat 11, Char.ofNat 12, '\r', ';',
      '#', nul, '"', '\'', '\\'], c ≠ d := by
    rintro c hc d hd rfl
    rcases mem_printDecimal hc with hdigit | rfl
    · have hall : [' ', '\t', '\n', Char.ofNat 11, Char.ofNat 12, '\r', ';', '#', nul, '"', '\'',
        '\\'].all (fun d => !isDigitChar d) := rfl
      simpa [hdigit] using List.all_eq_true.mp hall c hd
    · simp [nul] at hd
  have hspace : ∀ c ∈ printDecimal i, isSpace c = false := by
    intro c hc
    simp [isSpace, hne c hc]
  refine ⟨⟨?_, ?_⟩, ?_, ?_, ?_⟩
  · exact fun c hc => hspace c (List.mem_of_mem_head? hc)
  · exact fun c hc => hspace c (List.mem_of_mem_getLast? hc)
  · intro c hc
    simp [hne c hc]
  · intro c hc
    simp [hne c (List.mem_of_mem_head? hc)]
  · intro c hc
    simp [hne c (List.mem_of_mem_getLast? hc)]

/-- The entries of the section with a key of at most thirty characters and a number. -/
theorem entry_sync {key : Str} (hkey : KeyName key) (hlen : key.length ≤ 30) (i : Int32) :
    Entry syncName key (printDecimal i.toInt) where
  key_name := hkey
  value := plainValue_printDecimal _
  line := by
    have hval := length_printDecimal_int32 i
    rw [max_eq_left hlen, asciiLineSz]
    omega
  tmp := by
    show 4 + 1 + _ ≤ _
    rw [asciiLineSz]
    omega

theorem colon_not_mem_sync : ':' ∉ syncName := by simp [syncName]

/-! ### What is written -/

def processKey : Str := syncName ++ ':' :: "syncprocess".toList

def timestampKey : Str := syncName ++ ':' :: "timestamp".toList

/-- The entries with the two numbers. -/
def Entries.written (m : Entries) (info : SyncInfo) : Entries :=
  m.setAll [(processKey, some (printDecimal info.syncProcess.toInt)),
    (timestampKey, some (printDecimal info.timeStamp.toInt))]

theorem written_eq (m : Entries) (info : SyncInfo) :
    m.written info = Function.update
      (Function.update m processKey (some (some (printDecimal info.syncProcess.toInt))))
      timestampKey (some (some (printDecimal info.timeStamp.toInt))) := rfl

theorem written_of_ne (m : Entries) (info : SyncInfo) {k : Str} (hprocess : k ≠ processKey)
    (htimestamp : k ≠ timestampKey) : m.written info k = m k := by
  rw [written_eq, Function.update_of_ne htimestamp, Function.update_of_ne hprocess]

theorem ne_processKey {s : Str} (hs : ':' ∉ s) : s ≠ processKey := by
  rintro rfl
  exact hs (by simp [processKey])

theorem ne_timestampKey {s : Str} (hs : ':' ∉ s) : s ≠ timestampKey := by
  rintro rfl
  exact hs (by simp [timestampKey])

theorem written_section (m : Entries) (info : SyncInfo) {s : Str} (hs : ':' ∉ s) :
    m.written info s = m s :=
  written_of_ne m info (ne_processKey hs) (ne_timestampKey hs)

theorem dumpable_written {m : Entries} (h : Dumpable m) (info : SyncInfo) :
    Dumpable (m.written info) := by
  have hprocess := h.set_entry colon_not_mem_sync
    (entry_sync keyName_syncprocess (by decide) info.syncProcess)
  exact hprocess.set_entry colon_not_mem_sync
    (entry_sync keyName_timestamp (by decide) info.timeStamp)

/-- What is found behind a write, when `m` were the entries before. -/
structure Written (m : Entries) (info : SyncInfo) (m' : Entries) : Prop where
  dumpable : Dumpable m'
  section_mem : m' syncName ≠ none
  process : m' processKey = some (some (printDecimal info.syncProcess.toInt))
  timestamp : m' timestampKey = some (some (printDecimal info.timeStamp.toInt))
  others : ∀ k, k ≠ processKey → k ≠ timestampKey → m' k = m.dumped k

theorem colon_not_mem_sectionOf (k : Str) : ':' ∉ sectionOf k := by
  intro hmem
  have hne := List.mem_takeWhile_imp hmem
  simp at hne

/-- A write into the entries that are loaded. -/
theorem written_dumped {m : Entries} (h : Dumpable m) (hsec : m syncName ≠ none)
    (info : SyncInfo) : Written m info (m.written info).dumped where
  dumpable := by
    refine ⟨?_, ?_⟩
    · intro s v hs hv
      rw [Entries.dumped_section _ hs] at hv
      exact (dumpable_written h info).sections s v hs hv
    · intro s key v hs hne hv
      rw [Entries.dumped_section _ hs] at hne
      rw [Entries.dumped_entry _ hs hne] at hv
      exact (dumpable_written h info).entries s key v hs hne hv
  section_mem := by
    rwa [Entries.dumped_section _ colon_not_mem_sync, written_section m info colon_not_mem_sync]
  process := by
    have hne : m.written info syncName ≠ none := by
      rwa [written_section m info colon_not_mem_sync]
    have hkeys : processKey ≠ timestampKey := by simp [processKey, timestampKey]
    rw [processKey, Entries.dumped_entry _ colon_not_mem_sync hne, ← processKey, written_eq,
      Function.update_of_ne hkeys, Function.update_self]
  timestamp := by
    have hne : m.written info syncName ≠ none := by
      rwa [written_section m info colon_not_mem_sync]
    rw [timestampKey, Entries.dumped_entry _ colon_not_mem_sync hne, ← timestampKey, written_eq,
      Function.update_self]
  others k hprocess htimestamp := by
    rw [Entries.dumped, Entries.dumped, written_section m info (colon_not_mem_sectionOf k),
      written_of_ne m info hprocess htimestamp]

/-- The next write finds what the one before left. -/
theorem Written.next {m m' m'' : Entries} {info info' : SyncInfo} (h : Written m info m')
    (h' : Written m' info' m'') : Written m info' m'' where
  dumpable := h'.dumpable
  section_mem := h'.section_mem
  process := h'.process
  timestamp := h'.timestamp
  others k hprocess htimestamp := by
    have hsec : m' (sectionOf k) = m (sectionOf k) := by
      have hcolon := colon_not_mem_sectionOf k
      rw [h.others _ (ne_processKey hcolon) (ne_timestampKey hcolon),
        Entries.dumped_section m hcolon]
    rw [h'.others k hprocess htimestamp, Entries.dumped, hsec, h.others k hprocess htimestamp,
      Entries.dumped]
    split_ifs <;> rfl

/-! ### Writes and reads -/

/-- The entries of a file that has the section and nothing else. -/
def sectionOnly : Entries := Function.update (fun _ => none) syncName (some none)

theorem dumpable_sectionOnly : Dumpable sectionOnly :=
  dumpable_empty.add_section sectionName_sync (by decide) fun _ => rfl

/-- A new file is loaded with the section and the two numbers. -/
theorem holds_newSyncFile (front : Option Char) (info : SyncInfo) :
    Holds front (newSyncFile info) (sectionOnly.written info) := by
  have hfile : newSyncFile info = newFile syncName
      [("syncprocess".toList, printDecimal info.syncProcess.toInt),
        ("timestamp".toList, printDecimal info.timeStamp.toInt)] := by
    rw [newFile, List.map_cons, List.map_cons, List.map_nil, fileOf_cons, fileOf_cons, fileOf_cons,
      memberLine, memberLine, List.append_assoc, List.append_assoc, List.append_assoc,
      List.append_assoc]
    rfl
  have hkeys : processKey ≠ timestampKey := by simp [processKey, timestampKey]
  rw [hfile]
  have hfew : 2 < 2 ^ 28 := by decide
  refine holds_newFile sectionName_sync (by decide) ?_ ?_ ?_ hfew
  · simp only [List.forall_mem_cons]
    refine ⟨⟨entry_sync keyName_syncprocess (by decide) _, ?_⟩,
      ⟨entry_sync keyName_timestamp (by decide) _, ?_⟩, by simp⟩
    · rw [← processKey, written_eq, Function.update_of_ne hkeys, Function.update_self]
    · rw [← timestampKey, written_eq, Function.update_self]
  · rw [written_section sectionOnly info colon_not_mem_sync, sectionOnly, Function.update_self]
  · intro k hk
    by_contra hmem
    simp only [List.map_cons, List.map_nil, List.mem_cons, List.not_mem_nil, or_false,
      not_or] at hmem
    rw [written_of_ne _ info hmem.2.1 hmem.2.2, sectionOnly, Function.update_of_ne hmem.1] at hk
    exact hk rfl

/-- Behind its own write the section of a new file is left alone. -/
theorem dumped_sectionOnly (info : SyncInfo) :
    (sectionOnly.written info).dumped = sectionOnly.written info := by
  ext1 k
  rw [Entries.dumped]
  split_ifs with hsec
  · by_contra hk
    have hsection : sectionOf k = syncName := by
      rcases eq_or_ne k processKey with rfl | hprocess
      · exact sectionOf_entry colon_not_mem_sync _
      rcases eq_or_ne k timestampKey with rfl | htimestamp
      · exact sectionOf_entry colon_not_mem_sync _
      rcases eq_or_ne k syncName with rfl | hne
      · exact sectionOf_self colon_not_mem_sync
      · rw [written_of_ne _ info hprocess htimestamp, sectionOnly,
          Function.update_of_ne hne] at hk
        exact absurd rfl hk
    rw [hsection, written_section sectionOnly info colon_not_mem_sync, sectionOnly,
      Function.update_self] at hsec
    exact absurd hsec (by simp)
  · rfl

/-- The file as it is found, with the entries that a write starts from: either it cannot be loaded,
or it has the section and can be dumped. -/
inductive Found (front : Option Char) : Option Str → Entries → Prop
  | unloadable {file : Option Str} : iniparserLoad front file = some none →
      Found front file sectionOnly
  | loaded {text : Str} {m : Entries} : Holds front text m → Dumpable m → m syncName ≠ none →
      Found front (some text) m

/-- What `write_sync_config` sets in a dictionary. -/
def SyncInfo.changes (info : SyncInfo) : List (Str × Option Str) :=
  [("sync:syncprocess".toList, some (printDecimal info.syncProcess.toInt)),
    ("sync:timestamp".toList, some (printDecimal info.timeStamp.toInt))]

theorem setAll_changes (m : Entries) (info : SyncInfo) :
    m.setAll info.changes = m.written info := rfl

theorem writeSyncConfig_loaded {front : Option Char} {text : Str} {d : Dictionary}
    (hload : iniparserLoad front (some text) = some (some d)) (info : SyncInfo) :
    writeSyncConfig front (some text) info = updateFile front text info.changes := by
  rw [writeSyncConfig, updateFile, hload, Option.bind_some, Option.bind_some, Option.bind_some,
    setAll, SyncInfo.changes, List.foldlM_cons]
  dsimp only
  cases iniparserSet d "sync:syncprocess".toList
      (some (printDecimal info.syncProcess.toInt)) with
  | none => rfl
  | some r =>
      rw [Option.bind_some, Option.map_some, Option.bind_eq_bind, Option.bind_some,
        List.foldlM_cons]
      dsimp only
      cases iniparserSet r.2 "sync:timestamp".toList
          (some (printDecimal info.timeStamp.toInt)) with
      | none => rfl
      | some r => rfl

section

variable {front : Option Char} (hfront : ∃ c ∈ front, c ≠ '\\') {keys : Set Str}
  (hfinite : keys.Finite)
  (hfew : keys.ncard ≤ 2 ^ 28) (hsync : ∀ k ∈ [syncName, processKey, timestampKey], k ∈ keys)

include hfront hfinite hfew hsync

/-- One write. -/
theorem writeSyncConfig_spec {file : Option Str} {m : Entries} (h : Found front file m)
    (hkeys : ∀ k, m k ≠ none → k ∈ keys) (info : SyncInfo) :
    ∃ text m', writeSyncConfig front file info = some text ∧ Holds front text m' ∧
      Written m info m' ∧ ∀ k, m' k ≠ none → k ∈ keys := by
  have hwritten : ∀ k, m.written info k ≠ none → k ∈ keys := by
    intro k hk
    rcases eq_or_ne k processKey with rfl | hprocess
    · exact hsync _ (by simp)
    rcases eq_or_ne k timestampKey with rfl | htimestamp
    · exact hsync _ (by simp)
    rw [written_of_ne m info hprocess htimestamp] at hk
    exact hkeys k hk
  cases h with
  | unloadable hload =>
      refine ⟨newSyncFile info, sectionOnly.written info, ?_, holds_newSyncFile front info, ?_,
        hwritten⟩
      · rw [writeSyncConfig, hload]
        rfl
      · have hsec : sectionOnly syncName ≠ none := by
          rw [sectionOnly, Function.update_self]
          simp
        have hstep := written_dumped dumpable_sectionOnly hsec info
        rwa [dumped_sectionOnly] at hstep
  | @loaded text m hholds hdump hsec =>
      have hfine : (m.setAll info.changes).Fine := by
        refine ⟨dumpable_written hdump info, syncName, colon_not_mem_sync, ?_⟩
        rwa [setAll_changes, written_section m info colon_not_mem_sync]
      have hchanges : ∀ change ∈ info.changes, strlwc change.1 ∈ keys := by
        simp only [SyncInfo.changes, List.forall_mem_cons]
        exact ⟨hsync processKey (by simp), hsync timestampKey (by simp), by simp⟩
      obtain ⟨text', hupdate, hholds', hkeys'⟩ :=
        update_spec hfinite hfew hfront hholds hkeys info.changes hchanges hfine
      obtain ⟨d, hload, -⟩ := hholds
      exact ⟨text', _, (writeSyncConfig_loaded hload info).trans hupdate, hholds',
        written_dumped hdump hsec info, hkeys'⟩

/-- Writes, one behind the other. -/
theorem writes_spec (info : SyncInfo) (writes : List SyncInfo) {file : Option Str} {m : Entries}
    (h : Found front file m) (hkeys : ∀ k, m k ≠ none → k ∈ keys) :
    ∃ text m', (info :: writes).foldlM
        (fun file info => (writeSyncConfig front file info).map some) file = some (some text) ∧
      Holds front text m' ∧ Written m ((info :: writes).getLast (by simp)) m' := by
  induction writes generalizing info file m with
  | nil =>
      obtain ⟨text, m', hwrite, hholds, hwritten, -⟩ :=
        writeSyncConfig_spec hfront hfinite hfew hsync h hkeys info
      refine ⟨text, m', ?_, hholds, hwritten⟩
      rw [List.foldlM_cons, hwrite]
      rfl
  | cons next writes ih =>
      obtain ⟨text, m', hwrite, hholds, hwritten, hkeys'⟩ :=
        writeSyncConfig_spec hfront hfinite hfew hsync h hkeys info
      obtain ⟨text', m'', hrun, hholds', hwritten'⟩ :=
        ih next (.loaded hholds hwritten.dumpable hwritten.section_mem) hkeys'
      refine ⟨text', m'', ?_, hholds', hwritten.next hwritten'⟩
      rw [List.foldlM_cons, hwrite]
      exact hrun

end

theorem iniparserGetint_printDecimal {d : Dictionary} (h : d.Ok) (key : Str) {i : Int32}
    (hmap : d.map (strlwc key) = some (some (printDecimal i.toInt))) (notfound : ℤ) :
    iniparserGetint d key notfound = some i.toInt := by
  rw [iniparserGetint, dictionaryGet_eq h, hmap]
  exact congrArg some (strtol_printDecimal (Int32.le_toInt i) (Int32.toInt_lt i))

/-- What a write left is read. -/
theorem readSyncConfig_written {front : Option Char} {text : Str} {m m' : Entries} {info : SyncInfo}
    (h : Holds front text m') (hwritten : Written m info m') :
    readSyncConfig front (some text) = some info := by
  obtain ⟨d, hload, hok, rfl⟩ := h
  have hprocess := iniparserGetint_printDecimal hok "sync:syncprocess".toList hwritten.process 0
  have htimestamp := iniparserGetint_printDecimal hok "sync:timestamp".toList hwritten.timestamp 0
  rw [readSyncConfig, hload, Option.bind_some]
  dsimp only
  rw [hprocess, Option.bind_some, htimestamp, Option.map_some, Int32.ofInt_toInt, Int32.ofInt_toInt]

theorem sectionOnly_subset : {k | sectionOnly k ≠ none} ⊆ {syncName} := by
  intro k hk
  by_contra hne
  exact hk (Function.update_of_ne hne _ _)

/-- The keys of a file that is found are finitely many, and the section is one. -/
theorem Found.keys {front : Option Char} {file : Option Str} {m : Entries}
    (h : Found front file m) :
    {k | m k ≠ none}.Finite ∧ m syncName ≠ none := by
  cases h with
  | unloadable _ =>
      refine ⟨(Set.finite_singleton syncName).subset sectionOnly_subset, ?_⟩
      rw [sectionOnly, Function.update_self]
      exact Option.some_ne_none none
  | loaded hholds _ hsec =>
      obtain ⟨d, -, -, rfl⟩ := hholds
      exact ⟨d.finite_map, hsec⟩

/-- In whatever state the file is found, the writes go through and the last numbers are read behind
them; the entries of the file that are not the two numbers are those of a dump. -/
theorem readSyncConfig_writes {front : Option Char} (hfront : ∃ c ∈ front, c ≠ '\\')
    {file : Option Str} {m : Entries} (h : Found front file m)
    (hfew : {k | m k ≠ none}.ncard + 2 ≤ 2 ^ 28)
    {writes : List SyncInfo} (hne : writes ≠ []) :
    ∃ text m', writes.foldlM (fun file info => (writeSyncConfig front file info).map some) file =
        some (some text) ∧
      readSyncConfig front (some text) = some (writes.getLast hne) ∧ Holds front text m' ∧
      ∀ k, k ≠ processKey → k ≠ timestampKey → m' k = m.dumped k := by
  obtain ⟨info, writes, rfl⟩ := List.exists_cons_of_ne_nil hne
  obtain ⟨hfinite, hsec⟩ := h.keys
  have hcard : (insert processKey (insert timestampKey {k | m k ≠ none})).ncard ≤ 2 ^ 28 := by
    have houter := Set.ncard_insert_le processKey (insert timestampKey {k | m k ≠ none})
    have hinner := Set.ncard_insert_le timestampKey {k | m k ≠ none}
    omega
  have hsync : ∀ k ∈ [syncName, processKey, timestampKey],
      k ∈ insert processKey (insert timestampKey {k | m k ≠ none}) := by
    simp only [List.forall_mem_cons]
    exact ⟨.inr (.inr hsec), .inl rfl, .inr (.inl rfl), by simp⟩
  obtain ⟨text, m', hrun, hholds, hwritten⟩ := writes_spec hfront
    ((hfinite.insert timestampKey).insert processKey) hcard hsync info writes h
    fun k hk => .inr (.inr hk)
  exact ⟨text, m', hrun, readSyncConfig_written hholds hwritten, hholds, hwritten.others⟩

/-- A file that is not there, two writes. -/
theorem readSyncConfig_writes_twice :
    ∃ text, [(⟨1, 7⟩ : SyncInfo), ⟨0, -3⟩].foldlM
        (fun file info => (writeSyncConfig (some 'x') file info).map some) none = some (some text) ∧
      readSyncConfig (some 'x') (some text) = some ⟨0, -3⟩ := by
  have hfew : {k | sectionOnly k ≠ none}.ncard + 2 ≤ 2 ^ 28 := by
    have hcard := Set.ncard_le_ncard sectionOnly_subset (Set.finite_singleton syncName)
    rw [Set.ncard_singleton] at hcard
    omega
  have hfound : Found (some 'x') none sectionOnly := .unloadable rfl
  have hne : [(⟨1, 7⟩ : SyncInfo), ⟨0, -3⟩] ≠ [] := List.cons_ne_nil _ _
  have hfront : ∃ c ∈ some 'x', c ≠ '\\' := ⟨'x', rfl, by decide⟩
  obtain ⟨text, m', hrun, hread, -⟩ := readSyncConfig_writes hfront hfound hfew hne
  exact ⟨text, hrun, hread⟩

end PanelTester.Ini
