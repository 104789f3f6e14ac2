import PanelTester.Library.Steps
import PanelTester.PgDB.Patterns

/-!
The module database from one `dbModuleInit` of `pgDB.c` to the next. It closes the list that it has
before it knows whether the new database opens; `loop_cleanup` frees the records and the array, and
leaves the list as it was. Between two databases the look-ups go through what was freed.
-/

namespace PanelTester.PgDB

open Library FileSync

namespace ModuleSet

/-- How `loop_cleanup` frees the records. -/
def deleteAll (s : ModuleSet) : Option (List (Option ModuleInfo)) :=
  if s.delFunc = true ∧ s.loopConns.head ≠ s.loopConns.tail then
    if s.items = .live then s.loopConns.clearDeleted.foldlM delPattern s.heap else none
  else some s.heap

/-- `loop_cleanup`, which has no result when the array was freed before. -/
def loopCleanup (s : ModuleSet) : Option ModuleSet :=
  s.deleteAll.bind fun heap =>
    match s.items with
    | .null => some { s with heap }
    | .live => some { s with heap, items := .freed }
    | .freed => none

end ModuleSet

/-- `sizeof(db_modle_init_info.dbName)` -/
def dbNameLen : ℕ := 128

/-- `module_set` and `db_modle_init_info` -/
structure ModuleDB where
  moduleSet : ModuleSet
  dbName : Str
  bInit : Bool
  deriving DecidableEq

/-- The name may be `NULL`, or that of no database that opens. -/
inductive ModuleCall
  | dbModuleInit (db : Option (Str × ModuleTables))
  | dbModuleGetPatternById (ptnId : Int32)
  | dbModuleGetPatternByLoopId (loopId : ℕ)
  | dbGetVcomModuleInfo

namespace ModuleDB

/-- All of it is zero at first. -/
def start : ModuleDB where
  moduleSet :=
    { config := ⟨[], [], 0, []⟩
      loopConns := ⟨0, 0, 0, []⟩
      items := .null
      delFunc := false
      curConns := 0
      heap := [] }
  dbName := []
  bInit := false

/-- `dbModuleInit` -/
def dbModuleInit (d : ModuleDB) (db : Option (Str × ModuleTables)) : Option ModuleDB :=
  d.moduleSet.loopCleanup.bind fun s =>
    match db with
    | none => some { d with moduleSet := s, bInit := false }
    | some (pName, tables) =>
        (s.dbModuleOpen tables).bind fun s =>
          (strcpy dbNameLen pName).map fun dbName => ⟨s, dbName, true⟩

/-- What a call returns, when it is a look-up, and what it leaves. -/
def perform (d : ModuleDB) : ModuleCall → Option (Option ℕ × ModuleDB)
  | .dbModuleInit db => (d.dbModuleInit db).map fun d => (none, d)
  | .dbModuleGetPatternById ptnId =>
      (d.moduleSet.dbModuleGetPatternById ptnId).map fun p => (p, d)
  | .dbModuleGetPatternByLoopId loopId =>
      (d.moduleSet.dbModuleGetPatternByLoopId loopId).map fun p => (p, d)
  | .dbGetVcomModuleInfo => d.moduleSet.dbGetVcomModuleInfo.map fun p => (p, d)

/-! ### The question -/

/-- A record is only looked up by a number that is counted. -/
def Allowed (d : ModuleDB) : ModuleCall → Prop
  | .dbModuleGetPatternByLoopId loopId => loopId < d.moduleSet.dbModuleTstPtnNum
  | _ => True

/-- What is returned is a record that was not freed, and there is none after an init that failed. -/
def Kept (d : ModuleDB) (r : Option ℕ × ModuleDB) : Prop :=
  (∀ p, r.1 = some p → ∃ info, r.2.moduleSet.record (some p) = some info) ∧
    (d.bInit = false → r.1 = none)

/-- Nothing is freed twice, or read when it was freed, along a run, and all of it is kept. -/
def KeptRun : ModuleDB → List ModuleCall → Prop
  | _, [] => True
  | d, c :: cs => d.Allowed c → ∃ r, d.perform c = some r ∧ d.Kept r ∧ r.2.KeptRun cs

/-- No text of a row that is loaded leaves its field. -/
def TablesFit (db : ModuleTables) : Prop :=
  (∀ row ∈ db.rows.take (maxPatternNumInModule + 1),
    TextsFit Loader.dbpatternConfigLoad.columns (List.ofFn row)) ∧ db.GlobalFits

/-- An init finds no list that was freed, and neither the name nor a text of a row that it loads
leaves its field. A look-up finds no list that was freed, or an empty one, and nothing is looked up
behind the array. -/
def Fits (d : ModuleDB) : ModuleCall → Prop
  | .dbModuleInit db => d.moduleSet.items ≠ .freed ∧
      ∀ pName tables, db = some (pName, tables) → TablesFit tables ∧ pName.length < dbNameLen
  | .dbModuleGetPatternByLoopId loopId => d.moduleSet.items ≠ .freed ∧
      d.moduleSet.loopConns.head + loopId < maxPatternNumInModule
  | _ => d.moduleSet.items = .freed → d.moduleSet.loopConns.head = d.moduleSet.loopConns.tail

def FitsRun : ModuleDB → List ModuleCall → Prop
  | _, [] => True
  | d, c :: cs => d.Allowed c → d.Fits c ∧ ∀ r, d.perform c = some r → r.2.FitsRun cs

end ModuleDB

/-! ### Freeing -/

namespace ModuleSet

/-- Different records that were not freed yet can be freed. -/
theorem foldlM_delPattern {heap : List (Option ModuleInfo)} {ps : List (Option ℕ)}
    (hnodup : ps.Nodup) (hlive : ∀ p ∈ ps, ∃ (i : ℕ) (info : ModuleInfo),
      p = some i ∧ heap[i]? = some (some info)) :
    ∃ heap', ps.foldlM delPattern heap = some heap' := by
  induction ps generalizing heap with
  | nil => exact ⟨heap, rfl⟩
  | cons p ps ih =>
      obtain ⟨hnew, hrest⟩ := List.nodup_cons.mp hnodup
      obtain ⟨i, info, rfl, hinfo⟩ := hlive p List.mem_cons_self
      have hdel : delPattern heap (some i) = some (heap.set i none) := by
        rw [delPattern, Option.bind_some, hinfo]
        rfl
      rw [List.foldlM_cons, hdel]
      apply ih hrest
      intro q hq
      obtain ⟨j, info', rfl, hinfo'⟩ := hlive q (List.mem_cons_of_mem _ hq)
      refine ⟨j, info', rfl, ?_⟩
      rw [List.getElem?_set_ne, hinfo']
      rintro rfl
      exact hnew hq

variable {s : ModuleSet}

/-- A list in order is freed, and is left as it was. -/
theorem Live.loopCleanup (h : s.Live) :
    ∃ heap, s.loopCleanup = some { s with heap, items := .freed } := by
  obtain ⟨heap, hheap⟩ : ∃ heap, s.deleteAll = some heap := by
    rw [deleteAll, if_pos h.items, h.valid.clearDeleted_eq]
    split_ifs
    · apply foldlM_delPattern h.nodup
      intro p hp
      obtain ⟨info, hinfo⟩ := h.live p hp
      cases p with
      | none => exact absurd hinfo.symm (Option.some_ne_none info)
      | some i => exact ⟨i, info, rfl, Option.join_eq_some_iff.mp hinfo⟩
    · exact ⟨s.heap, rfl⟩
  refine ⟨heap, ?_⟩
  rw [ModuleSet.loopCleanup, hheap, Option.bind_some, h.items]

theorem loopCleanup_freed (h : s.items = .freed) : s.loopCleanup = none := by
  rw [ModuleSet.loopCleanup, h]
  cases s.deleteAll <;> rfl

/-- There is nothing to free yet. -/
theorem loopCleanup_null (hdel : s.delFunc = false) (h : s.items = .null) :
    s.loopCleanup = some s := by
  have hheap : s.deleteAll = some s.heap :=
    if_neg fun hne => Bool.false_ne_true (hdel.symm.trans hne.1)
  rw [ModuleSet.loopCleanup, hheap, Option.bind_some]
  split
  · rfl
  · next hlive => exact absurd (h.symm.trans hlive) (by decide)
  · next hfreed => exact absurd (h.symm.trans hfreed) (by decide)

/-- A search in a list that is not in order, which finds nothing when the list is empty. -/
theorem loopSearch_of_not_live (h : s.items ≠ .live) (search : ModuleInfo → Bool) :
    s.loopSearch search = if s.loopConns.head = s.loopConns.tail then some none else none := by
  rw [loopSearch, if_neg h]

/-- What a search finds is not freed. -/
theorem Live.of_loopSearch (h : s.Live) {search : ModuleInfo → Bool} :
    ∃ r, s.loopSearch search = some r ∧
      ∀ p, r = some p → ∃ info, s.record (some p) = some info := by
  refine ⟨_, h.loopSearch_eq search, ?_⟩
  intro p hp
  exact h.live _ (List.mem_of_find?_eq_some (Option.join_eq_some_iff.mp hp))

/-- What is counted is found at its number, unless the array ends before it. -/
theorem Live.of_byLoopId (h : s.Live) {i : ℕ} (hi : i < s.dbModuleTstPtnNum)
    (hsize : s.loopConns.head + i < maxPatternNumInModule) :
    ∃ r, s.dbModuleGetPatternByLoopId i = some r ∧
      ∀ p, r = some p → ∃ info, s.record (some p) = some info := by
  have hlt : i < s.loopConns.length := by
    rw [dbModuleTstPtnNum] at hi
    rw [maxPatternNumInModule] at hsize
    rcases h.count with ⟨-, hlength⟩ | ⟨hhead, hlength, -⟩
    · omega
    · omega
  have hget : s.loopConns.contents[i]? = some (s.loopConns.contents.get
      ⟨i, hlt.trans_eq h.valid.length_contents.symm⟩) := List.getElem?_eq_getElem _
  rw [h.byLoopId_eq hlt hsize, hget]
  refine ⟨_, rfl, ?_⟩
  intro p hp
  exact h.live _ (hp ▸ List.getElem_mem _)

end ModuleSet

/-! ### Runs -/

namespace ModuleDB

/-- No database was opened yet, or one is open, or the last init failed after one was open. -/
inductive Inv : ModuleDB → Prop
  | unopened {d : ModuleDB} (hitems : d.moduleSet.items = .null)
      (hempty : d.moduleSet.loopConns.head = d.moduleSet.loopConns.tail)
      (hdel : d.moduleSet.delFunc = false) (hcur : d.moduleSet.curConns = 0)
      (hinit : d.bInit = false) : Inv d
  | opened {d : ModuleDB} (hlive : d.moduleSet.Live) (hinit : d.bInit = true) : Inv d
  | closed {d : ModuleDB} (hitems : d.moduleSet.items = .freed) (hinit : d.bInit = false) : Inv d

theorem start_inv : start.Inv := .unopened rfl rfl rfl rfl rfl

variable {d : ModuleDB}

/-- The list can be filled exactly when the texts of the rows that are loaded fit. -/
theorem dbpatternConfigLoad_isSome_iff (s : ModuleSet) (db : ModuleTables) :
    (∃ s', (ModuleSet.fresh s.heap).dbpatternConfigLoad ((List.range db.rows.length).map
        (dbpatternConfigRow (sqlite3GetTable db.names db.rows))) = some s') ↔
      ∀ row ∈ db.rows.take (maxPatternNumInModule + 1),
        TextsFit Loader.dbpatternConfigLoad.columns (List.ofFn row) := by
  rw [(ModuleSet.fresh_live s.heap).load_isSome_iff]
  show (∀ row ∈ (List.map _ (List.range _)).take (maxPatternNumInModule + 1), _) ↔ _
  rw [← List.map_take, List.take_range, List.forall_mem_map]
  constructor
  · intro h row hrow
    obtain ⟨i, hi, rfl⟩ := List.getElem_of_mem hrow
    rw [List.length_take, Nat.lt_min] at hi
    rw [List.getElem_take]
    exact (dbpatternConfigRow_isSome_iff db.names db.rows ⟨i, hi.2⟩).mp
      (h i (List.mem_range.mpr (Nat.lt_min.mpr hi)))
  · intro h i hi
    obtain ⟨hmax, hlt⟩ := Nat.lt_min.mp (List.mem_range.mp hi)
    apply (dbpatternConfigRow_isSome_iff db.names db.rows ⟨i, hlt⟩).mpr
    apply h
    exact List.mem_take_iff_getElem.mpr ⟨i, Nat.lt_min.mpr ⟨hmax, hlt⟩, rfl⟩

/-- A database can be loaded exactly when the texts of the rows that are loaded fit. -/
theorem dbModuleOpen_isSome_iff (s : ModuleSet) (db : ModuleTables) :
    (∃ s', s.dbModuleOpen db = some s') ↔ TablesFit db := by
  rw [TablesFit, ← dbpatternConfigLoad_isSome_iff s db]
  simp only [ModuleSet.dbModuleOpen_eq_some_iff]
  constructor
  · rintro ⟨s', t, hload, hglobal⟩
    exact ⟨⟨t, hload⟩, (t.dbglobalConfigLoad_isSome_iff db).mp ⟨s', hglobal⟩⟩
  · rintro ⟨⟨t, hload⟩, hglobal⟩
    obtain ⟨s', hopened⟩ := (t.dbglobalConfigLoad_isSome_iff db).mpr hglobal
    exact ⟨s', t, hload, hopened⟩

/-- What an init leaves once the old list is closed. -/
theorem dbModuleInit_of_cleanup {s : ModuleSet} (hclean : d.moduleSet.loopCleanup = some s)
    (hclosed : Inv { d with moduleSet := s, bInit := false }) {db : Option (Str × ModuleTables)}
    (htexts : ∀ pName tables, db = some (pName, tables) →
      TablesFit tables ∧ pName.length < dbNameLen) :
    ∃ d', d.dbModuleInit db = some d' ∧ d'.Inv := by
  rw [dbModuleInit, hclean, Option.bind_some]
  cases db with
  | none => exact ⟨_, rfl, hclosed⟩
  | some db =>
      obtain ⟨pName, tables⟩ := db
      obtain ⟨hfit, hname⟩ := htexts pName tables rfl
      obtain ⟨s', hopen⟩ := (dbModuleOpen_isSome_iff s tables).mpr hfit
      obtain ⟨hlive, -⟩ := ModuleSet.of_open hopen
      refine ⟨⟨s', pName, true⟩, ?_, .opened hlive rfl⟩
      show (s.dbModuleOpen tables).bind _ = _
      rw [hopen, Option.bind_some, strcpy, if_pos hname]
      rfl

/-- A search leaves everything as it is. -/
theorem Inv.search (h : d.Inv) (search : ModuleInfo → Bool)
    (hfits : d.moduleSet.items = .freed →
      d.moduleSet.loopConns.head = d.moduleSet.loopConns.tail) :
    ∃ r, ((d.moduleSet.loopSearch search).map fun p => (p, d)) = some r ∧ d.Kept r ∧ r.2.Inv := by
  have hnothing : d.moduleSet.items ≠ .live →
      d.moduleSet.loopConns.head = d.moduleSet.loopConns.tail →
        ∃ r, ((d.moduleSet.loopSearch search).map fun p => (p, d)) = some r ∧ d.Kept r ∧
          r.2.Inv := by
    intro hitems hempty
    rw [ModuleSet.loopSearch_of_not_live hitems, if_pos hempty]
    exact ⟨_, rfl, ⟨fun p hp => absurd hp.symm (Option.some_ne_none p), fun _ => rfl⟩, h⟩
  cases h with
  | unopened hitems hempty hdel hcur hinit => exact hnothing (by rw [hitems]; decide) hempty
  | closed hitems hinit => exact hnothing (by rw [hitems]; decide) (hfits hitems)
  | opened hlive hinit =>
      obtain ⟨r, hr, hrecord⟩ := @ModuleSet.Live.of_loopSearch _ hlive search
      rw [hr]
      refine ⟨_, rfl, ⟨hrecord, ?_⟩, .opened hlive hinit⟩
      exact fun hfalse => absurd (hinit.symm.trans hfalse) (by decide)

theorem Inv.perform (h : d.Inv) {c : ModuleCall} (hallowed : d.Allowed c) (hfits : d.Fits c) :
    ∃ r, d.perform c = some r ∧ d.Kept r ∧ r.2.Inv := by
  cases c with
  | dbModuleInit db =>
      obtain ⟨hfree, htexts⟩ := hfits
      obtain ⟨d', hinit, hinv⟩ : ∃ d', d.dbModuleInit db = some d' ∧ d'.Inv := by
        cases h with
        | unopened hitems hempty hdel hcur hinit =>
            apply dbModuleInit_of_cleanup (ModuleSet.loopCleanup_null hdel hitems) _ htexts
            exact .unopened hitems hempty hdel hcur rfl
        | opened hlive hinit =>
            obtain ⟨heap, hclean⟩ := hlive.loopCleanup
            exact dbModuleInit_of_cleanup hclean (.closed rfl rfl) htexts
        | closed hitems hinit => exact absurd hitems hfree
      refine ⟨(none, d'), ?_, ⟨fun p hp => absurd hp.symm (Option.some_ne_none p), fun _ => rfl⟩,
        hinv⟩
      rw [ModuleDB.perform, hinit]
      rfl
  | dbModuleGetPatternById ptnId => exact h.search _ hfits
  | dbGetVcomModuleInfo => exact h.search _ hfits
  | dbModuleGetPatternByLoopId loopId =>
      obtain ⟨hfree, hsize⟩ := hfits
      cases h with
      | unopened hitems hempty hdel hcur hinit =>
          rw [Allowed, ModuleSet.dbModuleTstPtnNum, hcur] at hallowed
          exact absurd hallowed (Nat.not_lt_zero _)
      | opened hlive hinit =>
          obtain ⟨r, hr, hrecord⟩ := hlive.of_byLoopId hallowed hsize
          refine ⟨(r, d), ?_, ⟨hrecord, ?_⟩, .opened hlive hinit⟩
          · rw [ModuleDB.perform, hr]
            rfl
          · exact fun hfalse => absurd (hinit.symm.trans hfalse) (by decide)
      | closed hitems hinit => exact absurd hitems hfree

/-- A search that comes to an end did not go through a list that was freed. -/
theorem empty_of_search {search : ModuleInfo → Bool} {r : Option ℕ × ModuleDB}
    (hperform : (d.moduleSet.loopSearch search).map (fun p => (p, d)) = some r)
    (hitems : d.moduleSet.items = .freed) :
    d.moduleSet.loopConns.head = d.moduleSet.loopConns.tail := by
  obtain ⟨p, hsearch, -⟩ := Option.map_eq_some_iff.mp hperform
  rw [ModuleSet.loopSearch_of_not_live (by rw [hitems]; decide),
    Option.ite_none_right_eq_some] at hsearch
  exact hsearch.1

theorem Inv.fits (h : d.Inv) {c : ModuleCall} {r : Option ℕ × ModuleDB}
    (hperform : d.perform c = some r) : d.Fits c := by
  cases c with
  | dbModuleInit db =>
      obtain ⟨d', hinit, -⟩ := Option.map_eq_some_iff.mp hperform
      obtain ⟨s, hclean, hopen⟩ := Option.bind_eq_some_iff.mp hinit
      refine ⟨?_, ?_⟩
      · intro hitems
        rw [ModuleSet.loopCleanup_freed hitems] at hclean
        exact Option.some_ne_none s hclean.symm
      · rintro pName tables rfl
        obtain ⟨s', hs', hname⟩ := Option.bind_eq_some_iff.mp hopen
        obtain ⟨dbName, hcopy, -⟩ := Option.map_eq_some_iff.mp hname
        refine ⟨(dbModuleOpen_isSome_iff s tables).mp ⟨s', hs'⟩, ?_⟩
        rw [strcpy, Option.ite_none_right_eq_some] at hcopy
        exact hcopy.1
  | dbModuleGetPatternById ptnId => exact empty_of_search hperform
  | dbGetVcomModuleInfo => exact empty_of_search hperform
  | dbModuleGetPatternByLoopId loopId =>
      obtain ⟨p, hget, -⟩ := Option.map_eq_some_iff.mp hperform
      rw [ModuleSet.dbModuleGetPatternByLoopId, Option.ite_none_right_eq_some] at hget
      obtain ⟨hlive, hget⟩ := hget
      have hfree : d.moduleSet.items ≠ .freed := by
        rw [hlive]
        decide
      refine ⟨hfree, ?_⟩
      cases h with
      | unopened hitems hempty hdel hcur hinit =>
          exact absurd (hlive.symm.trans hitems) (by decide)
      | opened hinv hinit =>
          rw [← hinv.size, ← hinv.valid.items]
          exact (List.getElem?_eq_some_iff.mp hget).1
      | closed hitems hinit => exact absurd hitems hfree

theorem keptRun_iff_of_inv (h : d.Inv) (cs : List ModuleCall) : d.KeptRun cs ↔ d.FitsRun cs := by
  induction cs generalizing d with
  | nil => exact Iff.rfl
  | cons c cs ih =>
      rw [KeptRun, FitsRun]
      apply imp_congr_right
      intro hallowed
      apply run_step_iff
      · intro hfits
        obtain ⟨r, hperform, hkept, hinv⟩ := h.perform hallowed hfits
        exact ⟨r, hperform, hkept, ih hinv⟩
      · intro r hperform _
        exact h.fits hperform

/-- The promises are kept in a run exactly as long as each call fits. -/
theorem moduleDB_keptRun_iff (cs : List ModuleCall) : start.KeptRun cs ↔ start.FitsRun cs :=
  keptRun_iff_of_inv start_inv cs

/-- After an init that succeeds and one that fails, the next one frees the array again. -/
theorem not_keptRun_reinit : ¬ start.KeptRun
    [.dbModuleInit (some ("a.db".toList, ⟨fun _ => [], [], fun _ => [], []⟩)),
      .dbModuleInit none, .dbModuleInit none] := by
  intro h
  obtain ⟨r, hopened, -, h⟩ := h trivial
  obtain rfl := Option.some.inj hopened
  obtain ⟨r, hclosed, -, h⟩ := h trivial
  obtain rfl := Option.some.inj hclosed
  obtain ⟨r, hfreed, -⟩ := h trivial
  exact Option.some_ne_none r hfreed.symm

end ModuleDB

end PanelTester.PgDB
