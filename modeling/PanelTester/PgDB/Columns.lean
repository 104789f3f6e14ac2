import PanelTester.FileSync.LocalDB

/-!
How the rows of a result of `sqlite3_get_table` become records: `dbpattern_configLoad` and
`dbglobal_configLoad` of `pgDB.c`, and `localDBInit` of `pgLocalDB.c`. They run through the entries
of a row with an index. Where the step of the index stands inside of the test for `NULL`, a `NULL`
column leaves the index behind, and what follows is read from it.
-/

namespace PanelTester.PgDB

open Library FileSync

/-- How a field is loaded: into an array of characters of this size, or as an integer, and whether
the index stays where it is when the entry is `NULL`. -/
structure Column where
  size : Option ℕ
  staysOnNull : Bool

/-- `if(result[index]) strcpy(field, result[index++]);` -/
def text (size : ℕ) : Column := ⟨some size, true⟩

/-- `field = _stringtoint(result[index++], 0);` -/
def int : Column := ⟨none, false⟩

/-- `if(result[index]) field = _stringtoint(result[index++], 0);` -/
def intUnlessNull : Column := ⟨none, true⟩

/-- `if(result[index]) strcpy(field, result[index]); index++;` -/
def textAlways (size : ℕ) : Column := ⟨some size, false⟩

/-- `MAX_FILE_NAME_LEN` -/
def maxFileNameLen : ℕ := 64

/-- A loader: how many columns its table has, and how the fields are loaded from them. -/
inductive Loader
  | dbpatternConfigLoad
  | dbglobalConfigLoad
  | localDBInit
  deriving DecidableEq

namespace Loader

def column : Loader → ℕ
  | dbpatternConfigLoad => 20
  | dbglobalConfigLoad => 7
  | localDBInit => 6

def columns : Loader → List Column
  | dbpatternConfigLoad =>
      [int, -- index
        text maxFileNameLen, -- name
        text (maxFileNameLen / 2), -- image_type
        int, -- bit_nums
        text (maxFileNameLen / 2), -- resolution
        int, -- lock_time
        int, -- freq
        text maxFileNameLen, -- pic_move
        text maxFileNameLen, -- edid
        text maxFileNameLen, -- init_code
        text maxFileNameLen, -- 3d
        text maxFileNameLen, -- video
        text maxFileNameLen, -- vcom_config; nothing is copied of an empty text
        text maxFileNameLen, -- power_test
        text maxFileNameLen, -- dynamic_pic
        text maxFileNameLen] -- gamma_config
  | dbglobalConfigLoad =>
      [textAlways maxFileNameLen, -- power config file
        textAlways maxFileNameLen, -- timing config file
        int, -- ageing time
        textAlways maxFileNameLen] -- ic name
  | localDBInit =>
      [text localFileNameLen, -- name
        intUnlessNull, -- time
        intUnlessNull, -- size
        intUnlessNull] -- status

end Loader

/-- The array of `sqlite3_get_table`: the names of the columns, and behind them the rows. -/
def sqlite3GetTable {n : ℕ} (names : Fin n → Str) (rows : List (Fin n → Option Str)) :
    List (Option Str) :=
  List.ofFn (fun c => some (names c)) ++ rows.flatMap List.ofFn

/-- `result[index]`, which has no value outside of the row that begins at `first`. -/
def entry (result : List (Option Str)) (first column index : ℕ) : Option (Option Str) :=
  if first ≤ index ∧ index < first + column then result[index]? else none

/-- What a field takes from an entry, and the index behind it; nothing is taken of `NULL`, and
there is no result when `strcpy` leaves the field. -/
def Column.take (c : Column) (value : Option Str) (index : ℕ) : Option (Option Str × ℕ) :=
  match value with
  | none => some (none, if c.staysOnNull then index else index + 1)
  | some s =>
      match c.size with
      | none => some (some s, index + 1)
      | some size => (strcpy size s).map fun s => (some s, index + 1)

/-- What the fields take from a row. -/
def takeRow (result : List (Option Str)) (first column : ℕ) :
    List Column → ℕ → Option (List (Option Str))
  | [], _ => some []
  | c :: cs, index =>
      (entry result first column index).bind fun value =>
        (c.take value index).bind fun (taken, index) =>
          (takeRow result first column cs index).map fun rest => taken :: rest

/-- What the fields take from row `i`. -/
def Loader.take (l : Loader) (result : List (Option Str)) (i : ℕ) : Option (List (Option Str)) :=
  takeRow result ((i + 1) * l.column) l.column l.columns ((i + 1) * l.column)

/-! ### The records -/

/-- `_stringtoint` with the default 0. -/
def stringtoint (value : Option Str) : Int32 := value.elim 0 stringToInt

/-- A text field; one that nothing was copied to is empty. -/
def stringOf (value : Option Str) : Str := value.getD []

/-- `module_info_t` -/
structure ModuleInfo where
  ptdindex : Int32
  ptdpatternname : Str
  ptdpatterntype : Str
  ptdpatternbit : Int32
  displayX : Str
  ptddisptime : Int32
  timclockfreq : Int32
  movefile : Str
  edidfile : Str
  initcodefile : Str
  i3dfile : Str
  videofile : Str
  vcomfile : Str
  powertestfile : Str
  dynamicpattern : Str
  signaltest : Str
  deriving DecidableEq

/-- The fields, in the order in which they are loaded. -/
def ModuleInfo.ofTaken (taken : List (Option Str)) : ModuleInfo where
  ptdindex := stringtoint (taken.getD 0 none)
  ptdpatternname := stringOf (taken.getD 1 none)
  ptdpatterntype := stringOf (taken.getD 2 none)
  ptdpatternbit := stringtoint (taken.getD 3 none)
  displayX := stringOf (taken.getD 4 none)
  ptddisptime := stringtoint (taken.getD 5 none)
  timclockfreq := stringtoint (taken.getD 6 none)
  movefile := stringOf (taken.getD 7 none)
  edidfile := stringOf (taken.getD 8 none)
  initcodefile := stringOf (taken.getD 9 none)
  i3dfile := stringOf (taken.getD 10 none)
  videofile := stringOf (taken.getD 11 none)
  vcomfile := stringOf (taken.getD 12 none)
  powertestfile := stringOf (taken.getD 13 none)
  dynamicpattern := stringOf (taken.getD 14 none)
  signaltest := stringOf (taken.getD 15 none)

/-- The record of row `i` of `pattern_config`. -/
def dbpatternConfigRow (result : List (Option Str)) (i : ℕ) : Option ModuleInfo :=
  (Loader.dbpatternConfigLoad.take result i).map .ofTaken

/-- The fields of `module_set_t` that a row of `global_config` is loaded to. -/
structure GlobalConfig where
  powermainfile : Str
  timingmainfile : Str
  agingtime : Int32
  strIcName : Str
  deriving DecidableEq

/-- Row `i` of `global_config`; the texts stay as they were where it has `NULL`. -/
def dbglobalConfigRow (result : List (Option Str)) (i : ℕ) (old : GlobalConfig) :
    Option GlobalConfig :=
  (Loader.dbglobalConfigLoad.take result i).map fun taken =>
    { powermainfile := (taken.getD 0 none).getD old.powermainfile
      timingmainfile := (taken.getD 1 none).getD old.timingmainfile
      agingtime := stringtoint (taken.getD 2 none)
      strIcName := (taken.getD 3 none).getD old.strIcName }

/-- The column `index` of `pattern_config` -/
def indexColumn : Fin 20 := 0

/-! ### The question -/

/-- What the fields of a row are to be taken from: each from its own column. -/
def Loader.own (l : Loader) (row : Fin l.column → Option Str) : List (Option Str) :=
  (List.ofFn row).take l.columns.length

/-- Each field takes what its own column holds. No copy of a text leaves its field, `NULL` is never
copied, and nothing is read outside of the row. -/
def Loader.TakesOwn (l : Loader) (names : Fin l.column → Str)
    (rows : List (Fin l.column → Option Str)) (i : Fin rows.length) : Prop :=
  l.take (sqlite3GetTable names rows) i = some (l.own (rows.get i))

/-- The texts fit their fields, and behind a `NULL` that the index stays on there is nothing but
`NULL`. -/
def Fits : List Column → List (Option Str) → Prop
  | c :: cs, some s :: values => (∀ size, c.size = some size → s.length < size) ∧ Fits cs values
  | c :: cs, none :: values =>
      if c.staysOnNull = true then ∀ value ∈ values.take cs.length, value = none else Fits cs values
  | _, _ => True

/-! ### One row -/

/-- The entries that the fields are loaded from; the index stays behind on `NULL`. -/
def entriesRead : List Column → List (Option Str) → List (Option Str)
  | c :: cs, entry :: entries =>
      entry :: entriesRead cs
        (if entry = none ∧ c.staysOnNull then entry :: entries else entries)
  | _, _ => []

/-- No text leaves the field that it is copied to. -/
def TextsFit : List Column → List (Option Str) → Prop
  | c :: cs, entry :: entries =>
      (∀ s size, entry = some s → c.size = some size → s.length < size) ∧
        TextsFit cs (if entry = none ∧ c.staysOnNull then entry :: entries else entries)
  | _, _ => True

section

variable {result : List (Option Str)} {first column index : ℕ}

/-- The entry that is read, and what follows it. -/
theorem entry_eq {value : Option Str} {rest : List (Option Str)}
    (hdrop : result.drop index = value :: rest) (hfirst : first ≤ index)
    (hlast : index < first + column) :
    entry result first column index = some value ∧ result.drop (index + 1) = rest := by
  refine ⟨?_, ?_⟩
  · rw [entry, if_pos ⟨hfirst, hlast⟩, ← List.head?_drop, hdrop, List.head?_cons]
  · rw [← List.drop_drop, hdrop]
    rfl

end

theorem map_cons_eq_some_iff {x : Option (List (Option Str))} {entry : Option Str}
    {taken rest : List (Option Str)} {Q : Prop}
    (h : ∀ taken, x = some taken ↔ Q ∧ rest = taken) :
    (x.map fun rest => entry :: rest) = some taken ↔ Q ∧ entry :: rest = taken := by
  rw [Option.map_eq_some_iff]
  constructor
  · rintro ⟨rest', hx, rfl⟩
    obtain ⟨hq, rfl⟩ := (h rest').mp hx
    exact ⟨hq, rfl⟩
  · rintro ⟨hq, rfl⟩
    exact ⟨rest, (h rest).mpr ⟨hq, rfl⟩, rfl⟩

/-- What is taken from a row, which depends on nothing else. -/
theorem takeRow_eq_some_iff {result : List (Option Str)} {first column index : ℕ}
    {cs : List Column} {entries rest taken : List (Option Str)}
    (hdrop : result.drop index = entries ++ rest) (hfirst : first ≤ index)
    (hlast : index + entries.length = first + column) (hlen : cs.length ≤ entries.length) :
    takeRow result first column cs index = some taken ↔
      TextsFit cs entries ∧ entriesRead cs entries = taken := by
  induction cs generalizing index entries taken with
  | nil => simp [takeRow, TextsFit, entriesRead]
  | cons c cs ih =>
      obtain ⟨entry, entries, rfl⟩ := List.exists_cons_of_length_pos
        (show 0 < entries.length by rw [List.length_cons] at hlen; omega)
      have hstays := fun taken => @ih index (entry :: entries) taken hdrop hfirst hlast
        (Nat.le_of_succ_le hlen)
      simp only [List.length_cons] at hlast hlen
      obtain ⟨hentry, hnext⟩ := entry_eq hdrop hfirst (show index < first + column by omega)
      have hstep := fun taken => @ih (index + 1) entries taken hnext (by omega) (by omega)
        (by omega)
      rw [takeRow, hentry, Option.bind_some, TextsFit, entriesRead]
      cases entry with
      | none =>
          have hfree : ∀ (s : Str) (size : ℕ), none = some s → c.size = some size →
              s.length < size := fun s _ h => absurd h.symm (Option.some_ne_none s)
          rw [Column.take, Option.bind_some, and_iff_right hfree]
          apply map_cons_eq_some_iff
          intro taken
          rcases c.staysOnNull.eq_false_or_eq_true with hstay | hstay
          · rw [hstay, if_pos rfl, if_pos ⟨rfl, rfl⟩]
            exact hstays taken
          · rw [hstay, if_neg Bool.false_ne_true, if_neg fun h => Bool.false_ne_true h.2]
            exact hstep taken
      | some s =>
          rw [if_neg (by simp)]
          cases hsize : c.size with
          | none =>
              have hfree : ∀ s' size, some s = some s' → none = some size → s'.length < size :=
                fun _ size _ h => absurd h.symm (Option.some_ne_none size)
              simp only [Column.take, hsize, Option.bind_some]
              rw [and_iff_right hfree]
              exact map_cons_eq_some_iff hstep
          | some size =>
              have hfit : (∀ s' size', some s = some s' → some size = some size' →
                  s'.length < size') ↔ s.length < size := by simp
              rw [hfit]
              by_cases hlt : s.length < size
              · simp only [Column.take, hsize, strcpy, if_pos hlt, Option.map_some,
                  Option.bind_some]
                rw [and_iff_right hlt]
                exact map_cons_eq_some_iff hstep
              · simp [Column.take, hsize, strcpy, hlt]

/-- What is read behind a `NULL`, which fits every field. -/
theorem read_null {c : Column} {cs : List Column} {entries : List (Option Str)} :
    (TextsFit (c :: cs) (none :: entries) ↔
      TextsFit cs (if c.staysOnNull = true then none :: entries else entries)) ∧
    entriesRead (c :: cs) (none :: entries) =
      none :: entriesRead cs (if c.staysOnNull = true then none :: entries else entries) := by
  rw [TextsFit, entriesRead]
  simp only [true_and]
  refine ⟨and_iff_right ?_, trivial⟩
  exact fun s _ h => absurd h.symm (Option.some_ne_none s)

/-- An index that was left behind on `NULL` stays behind: all fields are to be `NULL`. -/
theorem behind_iff {cs : List Column} {values : List (Option Str)} (m : ℕ)
    (hlen : cs.length ≤ values.length) :
    (TextsFit cs (List.replicate (m + 1) none ++ values) ∧
      entriesRead cs (List.replicate (m + 1) none ++ values) = values.take cs.length) ↔
        ∀ value ∈ values.take cs.length, value = none := by
  induction cs generalizing m values with
  | nil => simp [TextsFit, entriesRead]
  | cons c cs ih =>
      obtain ⟨value, values, rfl⟩ := List.exists_cons_of_length_pos
        (show 0 < values.length by rw [List.length_cons] at hlen; omega)
      obtain ⟨htexts, hentries⟩ := @read_null c cs (List.replicate m none ++ value :: values)
      rw [List.replicate_succ, List.cons_append, htexts, hentries, List.length_cons,
        List.take_succ_cons, List.cons.injEq, List.forall_mem_cons, @eq_comm _ none value,
        and_left_comm]
      apply and_congr_right
      rintro rfl
      have hshift : List.replicate m none ++ none :: values =
          List.replicate (m + 1) none ++ values := by
        rw [List.replicate_succ', List.append_assoc]
        rfl
      rw [hshift]
      split_ifs
      · exact ih (m + 1) (Nat.le_of_succ_le_succ hlen)
      · exact ih m (Nat.le_of_succ_le_succ hlen)

/-- The fields take the entries of the row in their order exactly when the row fits them. -/
theorem entriesRead_iff {cs : List Column} {values : List (Option Str)}
    (hlen : cs.length ≤ values.length) :
    (TextsFit cs values ∧ entriesRead cs values = values.take cs.length) ↔ Fits cs values := by
  induction cs generalizing values with
  | nil => simp [TextsFit, entriesRead, Fits]
  | cons c cs ih =>
      obtain ⟨value, values, rfl⟩ := List.exists_cons_of_length_pos
        (show 0 < values.length by rw [List.length_cons] at hlen; omega)
      have hrest := Nat.le_of_succ_le_succ hlen
      rw [List.length_cons, List.take_succ_cons]
      cases value with
      | none =>
          obtain ⟨htexts, hentries⟩ := @read_null c cs values
          rw [htexts, hentries, List.cons.injEq, and_iff_right rfl, Fits]
          split_ifs
          · exact behind_iff 0 hrest
          · exact ih hrest
      | some s =>
          have hfirst : (∀ s' size, some s = some s' → c.size = some size → s'.length < size) ↔
              ∀ size, c.size = some size → s.length < size :=
            ⟨fun h size => h s size rfl, fun h s' size hs => Option.some.inj hs ▸ h size⟩
          rw [TextsFit, entriesRead, if_neg (by simp), List.cons.injEq, and_iff_right rfl, Fits,
            hfirst, and_assoc, ih hrest]

/-! ### The tables -/

/-- Where a row stands in the result of a query. -/
theorem drop_sqlite3GetTable {n : ℕ} (names : Fin n → Str) (rows : List (Fin n → Option Str))
    (i : Fin rows.length) :
    ∃ rest, (sqlite3GetTable names rows).drop ((i + 1) * n) = List.ofFn (rows.get i) ++ rest := by
  have hrows : ∀ rows : List (Fin n → Option Str), (rows.flatMap List.ofFn).length =
      rows.length * n := by
    intro rows
    induction rows with
    | nil => simp
    | cons row rows ih =>
        rw [List.flatMap_cons, List.length_append, ih, List.length_ofFn, List.length_cons,
          Nat.succ_mul, Nat.add_comm]
  have hfront : ((rows.take i).flatMap List.ofFn).length = i * n := by
    rw [hrows, List.length_take_of_le i.isLt.le]
  have hsplit : rows.flatMap List.ofFn = (rows.take i).flatMap List.ofFn ++
      (List.ofFn (rows.get i) ++ (rows.drop (i + 1)).flatMap List.ofFn) := by
    rw [← List.flatMap_cons, ← List.flatMap_append, List.get_eq_getElem,
      ← List.drop_eq_getElem_cons i.isLt, List.take_append_drop]
  refine ⟨(rows.drop (i + 1)).flatMap List.ofFn, ?_⟩
  have hnames : (List.ofFn fun c => some (names c)).length = n := List.length_ofFn
  rw [sqlite3GetTable, Nat.succ_mul, Nat.add_comm, ← List.drop_drop, List.drop_left' hnames,
    hsplit, List.drop_left' hfront]

theorem Loader.length_columns_le (l : Loader) : l.columns.length ≤ l.column := by
  cases l <;> decide

/-- What is taken from a row depends on nothing else. -/
theorem Loader.take_eq_some_iff (l : Loader) (names : Fin l.column → Str)
    (rows : List (Fin l.column → Option Str)) (i : Fin rows.length) (taken : List (Option Str)) :
    l.take (sqlite3GetTable names rows) i = some taken ↔
      TextsFit l.columns (List.ofFn (rows.get i)) ∧
        entriesRead l.columns (List.ofFn (rows.get i)) = taken := by
  obtain ⟨rest, hdrop⟩ := drop_sqlite3GetTable names rows i
  apply takeRow_eq_some_iff hdrop le_rfl
  · rw [List.length_ofFn]
  · rw [List.length_ofFn]
    exact l.length_columns_le

/-- A row can be loaded exactly when its texts fit. -/
theorem Loader.take_isSome_iff (l : Loader) (names : Fin l.column → Str)
    (rows : List (Fin l.column → Option Str)) (i : Fin rows.length) :
    (∃ taken, l.take (sqlite3GetTable names rows) i = some taken) ↔
      TextsFit l.columns (List.ofFn (rows.get i)) := by
  simp only [l.take_eq_some_iff, exists_and_left, exists_eq', and_true]

theorem takesOwn_iff (l : Loader) (names : Fin l.column → Str)
    (rows : List (Fin l.column → Option Str)) (i : Fin rows.length) :
    l.TakesOwn names rows i ↔ Fits l.columns (List.ofFn (rows.get i)) := by
  have hlen : l.columns.length ≤ (List.ofFn (rows.get i)).length := by
    rw [List.length_ofFn]
    exact l.length_columns_le
  rw [Loader.TakesOwn, l.take_eq_some_iff]
  exact entriesRead_iff hlen

/-- A row of `pattern_config` with an index and a pattern type, and no name. -/
def unnamed : Fin 20 → Option Str := fun c =>
  if c = indexColumn then some ['1'] else if c = 2 then some ['b', 'm', 'p'] else none

/-- The pattern type of a row without a name is lost. -/
theorem not_takesOwn_unnamed :
    ¬ Loader.dbpatternConfigLoad.TakesOwn (fun _ => []) [unnamed] 0 := by
  rw [Loader.TakesOwn]
  decide

end PanelTester.PgDB
