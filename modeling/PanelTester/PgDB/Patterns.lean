import PanelTester.FileSync.LoopDeque
import PanelTester.Library.Steps
import PanelTester.PgDB.Columns

/-!
The patterns of the module database, `module_set` of `pgDB.c`: its list of records, how it is
filled from the table, and the look-ups. A list of 200 items holds 199 records. The loader counts
up to 200, and a record is looked up by its number without a look at the end of the list. The
texts of the other table stand in front of the list, and are copied there once it is filled.
-/

namespace PanelTester.PgDB

open Library FileSync

/-- `MAX_PATTERN_NUM_IN_MODULE` -/
def maxPatternNumInModule : ℕ := 200

/-- The array of the list: not there yet, there, or given back. -/
inductive Items
  | null
  | live
  | freed
  deriving DecidableEq

/-- A database that can be opened: its tables `pattern_config` and `global_config`. A query that
fails leaves what one of an empty table does. -/
structure ModuleTables where
  names : Fin 20 → Str
  rows : List (Fin 20 → Option Str)
  globalNames : Fin 7 → Str
  globalRows : List (Fin 7 → Option Str)

/-- `module_set`, and the records that were allocated; those that were freed are holes. -/
structure ModuleSet where
  config : GlobalConfig
  loopConns : LoopList (Option ℕ)
  items : Items
  delFunc : Bool
  curConns : ℕ
  heap : List (Option ModuleInfo)
  deriving DecidableEq

namespace ModuleSet

/-- The record that a pointer leads to. -/
def record (s : ModuleSet) (p : Option ℕ) : Option ModuleInfo := p.bind fun p => (s.heap[p]?).join

/-- `delPattern`, which has no result when there is no record, or not any more. -/
def delPattern (heap : List (Option ModuleInfo)) (p : Option ℕ) :
    Option (List (Option ModuleInfo)) :=
  p.bind fun p => ((heap[p]?).join).map fun _ => heap.set p none

/-- `loop_push_to_tail` -/
def loopPushToTail (s : ModuleSet) (p : ℕ) : Option ModuleSet :=
  (s.loopConns.pushToTailDeleted.foldlM delPattern s.heap).map fun heap =>
    { s with heap, loopConns := s.loopConns.pushToTail (some p) }

/-- The loop of `dbpattern_configLoad`, over the rows as they are loaded. -/
def dbpatternConfigLoad (s : ModuleSet) : List (Option ModuleInfo) → Option ModuleSet
  | [] => some s
  | row :: rows =>
      row.bind fun info =>
        if s.curConns < maxPatternNumInModule then
          (loopPushToTail { s with heap := s.heap ++ [some info] } s.heap.length).bind fun s =>
            dbpatternConfigLoad { s with curConns := s.curConns + 1 } rows
        else some { s with heap := s.heap ++ [none] }

/-- `dbglobal_configLoad`, which has no result when a text leaves its field. -/
def dbglobalConfigLoad (s : ModuleSet) (result : List (Option Str)) (row : ℕ) : Option ModuleSet :=
  ((List.range row).foldlM (fun config i => dbglobalConfigRow result i config) s.config).map
    fun config => { s with config }

/-- A list that was just made. -/
def fresh (heap : List (Option ModuleInfo)) : ModuleSet where
  config := ⟨[], [], 0, []⟩
  loopConns := LoopList.create maxPatternNumInModule
  items := .live
  delFunc := true
  curConns := 0
  heap

/-- `dbModuleOpen` of a database that can be opened. -/
def dbModuleOpen (s : ModuleSet) (db : ModuleTables) : Option ModuleSet := do
  let s ← (fresh s.heap).dbpatternConfigLoad
    ((List.range db.rows.length).map (dbpatternConfigRow (sqlite3GetTable db.names db.rows)))
  s.dbglobalConfigLoad (sqlite3GetTable db.globalNames db.globalRows) db.globalRows.length

/-- `loop_search` with a test that reads the records on its way; there is no result when it comes
to something that was freed. -/
def loopSearch (s : ModuleSet) (search : ModuleInfo → Bool) : Option (Option ℕ) :=
  if s.loopConns.head = s.loopConns.tail then some none
  else if s.items = .live then
    match s.loopConns.search fun p => (s.record p).all search with
    | none => some none
    | some p => (s.record p).map fun _ => p
  else none

/-- `dbModuleGetPatternById` -/
def dbModuleGetPatternById (s : ModuleSet) (ptnId : Int32) : Option (Option ℕ) :=
  s.loopSearch fun info => info.ptdindex = ptnId

/-- `db_get_vcom_module_info` -/
def dbGetVcomModuleInfo (s : ModuleSet) : Option (Option ℕ) :=
  s.loopSearch fun info => info.vcomfile ≠ []

/-- `dbModuleTstPtnNum` -/
def dbModuleTstPtnNum (s : ModuleSet) : ℕ := s.curConns

/-- `dbModuleGetPatternByLoopId`, with `loop_get_from_head`. -/
def dbModuleGetPatternByLoopId (s : ModuleSet) (loopId : ℕ) : Option (Option ℕ) :=
  if s.items = .live then s.loopConns.items[s.loopConns.head + loopId]? else none

/-! ### A list in order -/

/-- The list is a ring of 200 items that leads to different records, none of them freed. As long as
fewer than 200 rows were loaded it holds all of them, from the first item on. -/
structure Live (s : ModuleSet) : Prop where
  valid : s.loopConns.Valid
  size : s.loopConns.size = maxPatternNumInModule
  items : s.items = .live
  delFunc : s.delFunc = true
  nodup : s.loopConns.contents.Nodup
  live : ∀ p ∈ s.loopConns.contents, ∃ info, s.record p = some info
  count : s.loopConns.head = 0 ∧ s.loopConns.length = s.curConns ∨
    s.loopConns.head = 1 ∧ s.loopConns.length = 199 ∧ s.curConns = maxPatternNumInModule

theorem fresh_live (heap : List (Option ModuleInfo)) : (fresh heap).Live := by
  have hvalid : (fresh heap).loopConns.Valid := LoopList.create_valid (by decide)
  have hnil : (fresh heap).loopConns.contents = [] := LoopList.contents_create (by decide)
  refine ⟨hvalid, rfl, rfl, rfl, ?_, ?_, .inl ⟨rfl, ?_⟩⟩
  · rw [hnil]
    exact List.nodup_nil
  · rw [hnil]
    exact fun p hp => absurd hp List.not_mem_nil
  · rw [← hvalid.length_contents, hnil]
    rfl

section

variable {s : ModuleSet}

/-- The item at an offset from the head, as long as it does not leave the array. -/
theorem Live.byLoopId_eq (h : s.Live) {i : ℕ} (hi : i < s.loopConns.length)
    (hsize : s.loopConns.head + i < maxPatternNumInModule) :
    s.dbModuleGetPatternByLoopId i = s.loopConns.contents[i]? := by
  rw [dbModuleGetPatternByLoopId, if_pos h.items]
  exact h.valid.getFromHead_eq hi (h.size.symm ▸ hsize)

theorem Live.byLoopId_outside (h : s.Live) {i : ℕ}
    (hsize : maxPatternNumInModule ≤ s.loopConns.head + i) :
    s.dbModuleGetPatternByLoopId i = none := by
  rw [dbModuleGetPatternByLoopId, if_pos h.items, List.getElem?_eq_none]
  rw [h.valid.items, h.size]
  exact hsize

/-- A search finds the first record that it looks for. -/
theorem Live.loopSearch_eq (h : s.Live) (search : ModuleInfo → Bool) :
    s.loopSearch search =
      some (s.loopConns.contents.find? fun p => (s.record p).any search).join := by
  have hsame : s.loopConns.contents.find? (fun p => (s.record p).all search) =
      s.loopConns.contents.find? fun p => (s.record p).any search := by
    apply List.find?_congr
    intro p hp
    obtain ⟨info, hinfo⟩ := h.live p hp
    rw [hinfo]
    rfl
  rw [loopSearch, h.valid.search_eq, hsame, if_pos h.items]
  split_ifs with hempty
  · have hzero : s.loopConns.length = 0 := by
      rw [← h.valid.isEmpty_iff, LoopList.isEmpty, hempty]
      exact decide_eq_true rfl
    have hnil : s.loopConns.contents = [] :=
      List.eq_nil_of_length_eq_zero (h.valid.length_contents.trans hzero)
    rw [hnil]
    rfl
  · cases hfind : s.loopConns.contents.find? fun p => (s.record p).any search with
    | none => rfl
    | some p =>
        obtain ⟨info, hinfo⟩ := h.live p (List.mem_of_find?_eq_some hfind)
        cases p with
        | none => exact absurd hinfo.symm (Option.some_ne_none info)
        | some p => exact congrArg (Option.map fun _ => some p) hinfo

/-! ### Loading -/

theorem lt_of_record {p : ℕ} {info : ModuleInfo} (h : s.record (some p) = some info) :
    p < s.heap.length := by
  by_contra hle
  rw [record, Option.bind_some, List.getElem?_eq_none (Nat.not_lt.mp hle)] at h
  exact Option.some_ne_none info h.symm

/-- A record stays where it is when another one is allocated. -/
theorem record_append {p : Option ℕ} {info : ModuleInfo} (h : s.record p = some info)
    (cell : Option ModuleInfo) :
    record { s with heap := s.heap ++ [cell] } p = some info := by
  cases p with
  | none => exact h
  | some p =>
      have hlt := lt_of_record h
      show ((s.heap ++ [cell])[p]?).join = some info
      rw [List.getElem?_append_left hlt]
      exact h

theorem record_new (cell : Option ModuleInfo) :
    record { s with heap := s.heap ++ [cell] } (some s.heap.length) = cell := by
  show ((s.heap ++ [cell])[s.heap.length]?).join = cell
  rw [List.getElem?_concat_length]
  rfl

/-- A hole in the heap does not matter to the list. -/
theorem Live.hole (h : s.Live) : Live { s with heap := s.heap ++ [none] } where
  valid := h.valid
  size := h.size
  items := h.items
  delFunc := h.delFunc
  nodup := h.nodup
  live p hp := by
    obtain ⟨info, hinfo⟩ := h.live p hp
    exact ⟨info, record_append hinfo none⟩
  count := h.count

/-- A new pointer is not in the list. -/
theorem Live.new_not_mem (h : s.Live) : some s.heap.length ∉ s.loopConns.contents := by
  intro hmem
  obtain ⟨info, hinfo⟩ := h.live _ hmem
  exact absurd (lt_of_record hinfo) (Nat.lt_irrefl _)

/-- The texts in front of the list do not matter to it. -/
theorem Live.config (h : s.Live) (config : GlobalConfig) : Live { s with config } :=
  ⟨h.valid, h.size, h.items, h.delFunc, h.nodup, h.live, h.count⟩

theorem Live.length_of_lt (h : s.Live) (hcur : s.curConns < maxPatternNumInModule) :
    s.loopConns.head = 0 ∧ s.loopConns.length = s.curConns := by
  rcases h.count with hcount | ⟨-, -, hfull⟩
  · exact hcount
  · omega

/-- A record that finds room is put behind the others. -/
theorem Live.push (h : s.Live) (info : ModuleInfo) (hcur : s.curConns < 199) :
    ∃ s', loopPushToTail { s with heap := s.heap ++ [some info] } s.heap.length = some s' ∧
      Live { s' with curConns := s.curConns + 1 } ∧ s'.heap = s.heap ++ [some info] ∧
      s'.loopConns.contents = s.loopConns.contents ++ [some s.heap.length] := by
  obtain ⟨hhead, hlength⟩ := h.length_of_lt (hcur.trans (by decide))
  have hsize : s.loopConns.size = 200 := h.size
  have hroom : ¬ s.loopConns.length + 1 = s.loopConns.size := by omega
  have hdeleted : s.loopConns.pushToTailDeleted = [] := by
    rw [h.valid.pushToTailDeleted_eq (by omega), if_neg hroom]
  have hcontents := h.valid.contents_pushToTail (some s.heap.length)
  rw [if_neg hroom] at hcontents
  rw [loopPushToTail, hdeleted]
  refine ⟨_, rfl, ⟨h.valid.pushToTail _, h.size, h.items, h.delFunc, ?_, ?_, .inl ⟨?_, ?_⟩⟩, rfl,
    hcontents⟩
  · show (s.loopConns.pushToTail _).contents.Nodup
    rw [hcontents]
    exact h.nodup.append (List.nodup_singleton _) (List.disjoint_singleton.mpr h.new_not_mem)
  · intro p hp
    change p ∈ (s.loopConns.pushToTail (some s.heap.length)).contents at hp
    rw [hcontents] at hp
    rcases List.mem_append.mp hp with hp | hp
    · obtain ⟨info', hinfo'⟩ := h.live p hp
      exact ⟨info', record_append hinfo' _⟩
    · obtain rfl := List.mem_singleton.mp hp
      exact ⟨info, record_new (some info)⟩
  · show (s.loopConns.pushToTail _).head = 0
    rw [h.valid.pushToTail_head, if_neg hroom, hhead]
  · show (s.loopConns.pushToTail _).length = s.curConns + 1
    rw [h.valid.length_pushToTail, if_neg hroom, hlength]

/-- A record stays where it is when another one is freed. -/
theorem record_free {p : Option ℕ} {q : ℕ} {info : ModuleInfo} (h : s.record p = some info)
    (hne : p ≠ some q) : record { s with heap := s.heap.set q none } p = some info := by
  cases p with
  | none => exact h
  | some p =>
      show ((s.heap.set q none)[p]?).join = some info
      rw [List.getElem?_set_ne fun heq => hne (congrArg some heq.symm)]
      exact h

/-- The last record that is counted takes the place of the first, which is freed. -/
theorem Live.push_last (h : s.Live) (info : ModuleInfo) (hcur : s.curConns = 199) :
    ∃ s', loopPushToTail { s with heap := s.heap ++ [some info] } s.heap.length = some s' ∧
      Live { s' with curConns := s.curConns + 1 } := by
  obtain ⟨hhead, hlength⟩ := h.length_of_lt (by rw [hcur]; decide)
  have hsize : s.loopConns.size = 200 := h.size
  have hfull : s.loopConns.length + 1 = s.loopConns.size := by omega
  have hlen := h.valid.length_contents
  obtain ⟨first, tail, hcons⟩ := List.exists_cons_of_length_pos
    (show 0 < s.loopConns.contents.length by omega)
  obtain ⟨oldest, holdest⟩ := h.live first (hcons ▸ List.mem_cons_self)
  obtain ⟨q, rfl⟩ : ∃ q, first = some q := by
    cases first with
    | none => exact absurd holdest.symm (Option.some_ne_none oldest)
    | some q => exact ⟨q, rfl⟩
  have hnodup := h.nodup
  rw [hcons, List.nodup_cons] at hnodup
  have hdeleted : s.loopConns.pushToTailDeleted = [some q] := by
    rw [h.valid.pushToTailDeleted_eq (by omega), if_pos hfull, hcons]
    rfl
  have hdel : delPattern (s.heap ++ [some info]) (some q) =
      some ((s.heap ++ [some info]).set q none) := by
    have hjoin : ((s.heap ++ [some info])[q]?).join = some oldest := record_append holdest _
    rw [delPattern, Option.bind_some, hjoin]
    rfl
  have hcontents := h.valid.contents_pushToTail (some s.heap.length)
  rw [if_pos hfull, hcons, List.cons_append, List.tail_cons] at hcontents
  have hnew : some s.heap.length ∉ tail := by
    intro hmem
    exact h.new_not_mem (hcons ▸ List.mem_cons_of_mem _ hmem)
  rw [loopPushToTail, hdeleted, List.foldlM_cons, hdel]
  refine ⟨_, rfl, ⟨h.valid.pushToTail _, h.size, h.items, h.delFunc, ?_, ?_, .inr ⟨?_, ?_, ?_⟩⟩⟩
  · show (s.loopConns.pushToTail _).contents.Nodup
    rw [hcontents]
    exact hnodup.2.append (List.nodup_singleton _) (List.disjoint_singleton.mpr hnew)
  · intro p hp
    change p ∈ (s.loopConns.pushToTail (some s.heap.length)).contents at hp
    rw [hcontents] at hp
    rcases List.mem_append.mp hp with hp | hp
    · obtain ⟨info', hinfo'⟩ := h.live p (hcons ▸ List.mem_cons_of_mem _ hp)
      refine ⟨info', record_free (record_append hinfo' _) ?_⟩
      rintro rfl
      exact hnodup.1 hp
    · obtain rfl := List.mem_singleton.mp hp
      refine ⟨info, record_free (record_new (some info)) ?_⟩
      intro heq
      have hlt := lt_of_record holdest
      have hq := Option.some.inj heq
      omega
  · show (s.loopConns.pushToTail _).head = 1
    rw [h.valid.pushToTail_head, if_pos hfull, hhead, hsize]
    rfl
  · show (s.loopConns.pushToTail _).length = 199
    rw [h.valid.length_pushToTail, if_pos hfull]
    omega
  · show s.curConns + 1 = 200
    omega

/-- What one turn of the loop does when there is room. -/
theorem Live.loaded (h : s.Live) (info : ModuleInfo) (hcur : s.curConns < maxPatternNumInModule) :
    ∃ s' : ModuleSet, s'.Live ∧ s'.curConns = s.curConns + 1 ∧
      ∀ rows, s.dbpatternConfigLoad (some info :: rows) = s'.dbpatternConfigLoad rows := by
  obtain ⟨t, hpush, hlive⟩ : ∃ t,
      loopPushToTail { s with heap := s.heap ++ [some info] } s.heap.length = some t ∧
        Live { t with curConns := s.curConns + 1 } := by
    rcases Nat.lt_succ_iff_lt_or_eq.mp hcur with hlt | heq
    · obtain ⟨t, hpush, hlive, -⟩ := h.push info hlt
      exact ⟨t, hpush, hlive⟩
    · exact h.push_last info heq
  have hcurConns : t.curConns = s.curConns := by
    obtain ⟨heap, -, rfl⟩ := Option.map_eq_some_iff.mp hpush
    rfl
  refine ⟨_, hlive, rfl, ?_⟩
  intro rows
  rw [ModuleSet.dbpatternConfigLoad, Option.bind_some, if_pos hcur, hpush, Option.bind_some,
    hcurConns]

theorem Live.curConns_le (h : s.Live) : s.curConns ≤ maxPatternNumInModule := by
  have hlt := h.valid.length_lt
  have hsize : s.loopConns.size = maxPatternNumInModule := h.size
  rcases h.count with ⟨-, hlength⟩ | ⟨-, -, hfull⟩
  · omega
  · exact hfull.le

/-- What the loader leaves is in order, whatever it loads. -/
theorem Live.of_load (h : s.Live) {rows : List (Option ModuleInfo)} {s' : ModuleSet}
    (hload : s.dbpatternConfigLoad rows = some s') :
    s'.Live ∧ s'.curConns = min (s.curConns + rows.length) maxPatternNumInModule := by
  have hle := h.curConns_le
  induction rows generalizing s with
  | nil =>
      obtain rfl := Option.some.inj hload
      exact ⟨h, (Nat.min_eq_left hle).symm⟩
  | cons row rows ih =>
      cases row with
      | none => exact absurd hload.symm (Option.some_ne_none s')
      | some info =>
          rcases hle.lt_or_eq with hcur | hcur
          · obtain ⟨t, hlive, hcount, hstep⟩ := h.loaded info hcur
            rw [hstep] at hload
            obtain ⟨hlive', hcount'⟩ := ih hlive hload hlive.curConns_le
            refine ⟨hlive', ?_⟩
            rw [hcount', hcount, List.length_cons, Nat.add_assoc, Nat.add_comm 1]
          · rw [ModuleSet.dbpatternConfigLoad, Option.bind_some, if_neg (by omega)] at hload
            obtain rfl := Option.some.inj hload
            refine ⟨h.hole, ?_⟩
            show s.curConns = _
            rw [hcur, List.length_cons]
            omega

/-- The loader comes to an end when each row that it comes to can be loaded. -/
theorem Live.load_isSome_iff (h : s.Live) (rows : List (Option ModuleInfo)) :
    (∃ s', s.dbpatternConfigLoad rows = some s') ↔
      ∀ row ∈ rows.take (maxPatternNumInModule - s.curConns + 1), ∃ info, row = some info := by
  induction rows generalizing s with
  | nil => simp [ModuleSet.dbpatternConfigLoad]
  | cons row rows ih =>
      rw [List.take_succ_cons, List.forall_mem_cons]
      cases row with
      | none =>
          refine iff_of_false ?_ ?_
          · rintro ⟨s', hload⟩
            exact Option.some_ne_none s' hload.symm
          · rintro ⟨⟨info, hinfo⟩, -⟩
            exact Option.some_ne_none info hinfo.symm
      | some info =>
          rw [and_iff_right ⟨info, rfl⟩]
          rcases h.curConns_le.lt_or_eq with hcur | hcur
          · obtain ⟨t, hlive, hcount, hstep⟩ := h.loaded info hcur
            rw [hstep, ih hlive, hcount,
              show maxPatternNumInModule - (s.curConns + 1) + 1 =
                maxPatternNumInModule - s.curConns by omega]
          · rw [ModuleSet.dbpatternConfigLoad, Option.bind_some, if_neg (by omega), hcur,
              Nat.sub_self, List.take_zero]
            exact iff_of_true ⟨_, rfl⟩ fun row hrow => absurd hrow List.not_mem_nil

/-- As long as there is room, every row is loaded. -/
theorem Live.rows_of_load (h : s.Live) {rows : List (Option ModuleInfo)} {s' : ModuleSet}
    (hroom : s.curConns + rows.length ≤ maxPatternNumInModule)
    (hload : s.dbpatternConfigLoad rows = some s') :
    ∃ infos : List ModuleInfo, rows = infos.map some := by
  induction rows generalizing s with
  | nil => exact ⟨[], rfl⟩
  | cons row rows ih =>
      rw [List.length_cons] at hroom
      cases row with
      | none => exact absurd hload.symm (Option.some_ne_none s')
      | some info =>
          obtain ⟨t, hlive, hcount, hstep⟩ := h.loaded info (by omega)
          rw [hstep] at hload
          obtain ⟨infos, rfl⟩ := ih hlive (by omega) hload
          exact ⟨info :: infos, rfl⟩

/-- As long as there is room, the list holds what was loaded, in its order. -/
theorem Live.load_short (h : s.Live) {infos : List ModuleInfo}
    (hroom : s.curConns + infos.length ≤ 199) {s' : ModuleSet}
    (hload : s.dbpatternConfigLoad (infos.map some) = some s') :
    s'.heap = s.heap ++ infos.map some ∧
      s'.loopConns.contents = s.loopConns.contents ++
        (List.range infos.length).map fun i => some (s.heap.length + i) := by
  induction infos generalizing s with
  | nil =>
      obtain rfl := Option.some.inj hload
      simp
  | cons info infos ih =>
      rw [List.length_cons] at hroom
      obtain ⟨t, hpush, hlive, hheap, hcontents⟩ := h.push info (by omega)
      have hcurConns : t.curConns = s.curConns := by
        obtain ⟨heap, -, rfl⟩ := Option.map_eq_some_iff.mp hpush
        rfl
      rw [List.map_cons, ModuleSet.dbpatternConfigLoad, Option.bind_some,
        if_pos (by rw [maxPatternNumInModule]; omega), hpush, Option.bind_some, hcurConns] at hload
      have hroom' : s.curConns + 1 + infos.length ≤ 199 := by omega
      obtain ⟨hheap', hcontents'⟩ := ih hlive hroom' hload
      refine ⟨?_, ?_⟩
      · rw [hheap']
        show t.heap ++ _ = _
        rw [hheap, List.append_assoc, List.map_cons]
        rfl
      · rw [hcontents']
        show t.loopConns.contents ++ (List.range infos.length).map
          (fun i => some (t.heap.length + i)) = _
        rw [hcontents, hheap, List.append_assoc, List.length_cons, List.range_succ_eq_map,
          List.map_cons, List.map_map, List.length_append]
        simp only [List.cons_append, List.nil_append, Nat.add_zero, List.length_singleton]
        congr 3
        funext i
        simp only [Function.comp_apply]
        congr 1
        omega

end

end ModuleSet

/-! ### What the rows are read as -/

/-- Two entries that leave the same in a field. -/
def Column.Same (c : Column) (a b : Option Str) : Prop :=
  match c.size with
  | none => stringtoint a = stringtoint b
  | some _ => stringOf a = stringOf b

/-- Entries that leave the same in all fields. -/
def Agree : List Column → List (Option Str) → List (Option Str) → Prop
  | c :: cs, a :: as, b :: bs => c.Same a b ∧ Agree cs as bs
  | _, _, _ => True

/-- The record of a row of `pattern_config`, field by field from its own columns. -/
def ownInfo (row : Fin 20 → Option Str) : ModuleInfo := .ofTaken (List.ofFn row)

/-- A row that is loaded as it stands in the table: no text of it leaves its field, and each field
gets from the entry that is read for it what it would get from its own column. -/
def LoadsAsOwn (row : Fin 20 → Option Str) : Prop :=
  TextsFit Loader.dbpatternConfigLoad.columns (List.ofFn row) ∧
    Agree Loader.dbpatternConfigLoad.columns
      (entriesRead Loader.dbpatternConfigLoad.columns (List.ofFn row)) (List.ofFn row)

theorem length_entriesRead {cs : List Column} {entries : List (Option Str)}
    (h : cs.length ≤ entries.length) : (entriesRead cs entries).length = cs.length := by
  induction cs generalizing entries with
  | nil => rfl
  | cons c cs ih =>
      obtain ⟨entry, entries, rfl⟩ := List.exists_cons_of_length_pos
        (show 0 < entries.length by rw [List.length_cons] at h; omega)
      rw [entriesRead, List.length_cons, List.length_cons]
      congr 1
      split_ifs
      · exact ih (Nat.le_of_succ_le h)
      · exact ih (Nat.le_of_succ_le_succ h)

theorem exists_ofFn {α : Type*} {n : ℕ} {l : List α} (h : l.length = n) :
    ∃ f : Fin n → α, l = List.ofFn f := by
  subst h
  exact ⟨l.get, (List.ofFn_get l).symm⟩

/-- What was taken makes the row's own record exactly when it agrees with the row. -/
theorem ofTaken_iff {taken : List (Option Str)} (htaken : taken.length = 16)
    (row : Fin 20 → Option Str) : ModuleInfo.ofTaken taken = ownInfo row ↔
      Agree Loader.dbpatternConfigLoad.columns taken (List.ofFn row) := by
  obtain ⟨f, rfl⟩ := exists_ofFn htaken
  simp [ModuleInfo.ofTaken, ownInfo, List.ofFn_succ, Agree, Loader.columns, Column.Same, text, int]

/-- What is taken from a row of the table. -/
theorem dbpatternConfigLoad_take (names : Fin 20 → Str) (rows : List (Fin 20 → Option Str))
    (i : Fin rows.length) (taken : List (Option Str)) :
    Loader.dbpatternConfigLoad.take (sqlite3GetTable names rows) i = some taken ↔
      TextsFit Loader.dbpatternConfigLoad.columns (List.ofFn (rows.get i)) ∧
        entriesRead Loader.dbpatternConfigLoad.columns (List.ofFn (rows.get i)) = taken :=
  Loader.dbpatternConfigLoad.take_eq_some_iff names rows i taken

/-- A row can be loaded exactly when its texts fit. -/
theorem dbpatternConfigRow_isSome_iff (names : Fin 20 → Str) (rows : List (Fin 20 → Option Str))
    (i : Fin rows.length) :
    (∃ info, dbpatternConfigRow (sqlite3GetTable names rows) i = some info) ↔
      TextsFit Loader.dbpatternConfigLoad.columns (List.ofFn (rows.get i)) := by
  rw [dbpatternConfigRow, exists_map_eq_some_iff]
  exact Loader.dbpatternConfigLoad.take_isSome_iff names rows i

/-- A row is loaded to its own record exactly when each field gets what its own column holds. -/
theorem dbpatternConfigRow_iff (names : Fin 20 → Str) (rows : List (Fin 20 → Option Str))
    (i : Fin rows.length) :
    dbpatternConfigRow (sqlite3GetTable names rows) i = some (ownInfo (rows.get i)) ↔
      LoadsAsOwn (rows.get i) := by
  have hlen : (entriesRead Loader.dbpatternConfigLoad.columns
      (List.ofFn (rows.get i))).length = 16 := by
    apply length_entriesRead
    rw [List.length_ofFn]
    decide
  simp only [dbpatternConfigRow, Option.map_eq_some_iff, dbpatternConfigLoad_take]
  rw [LoadsAsOwn, ← ofTaken_iff hlen]
  constructor
  · rintro ⟨taken, ⟨hfit, rfl⟩, hown⟩
    exact ⟨hfit, hown⟩
  · rintro ⟨hfit, hown⟩
    exact ⟨_, ⟨hfit, rfl⟩, hown⟩

/-! ### The question -/

/-- After the database was opened, the look-ups find what is counted: the records of the rows in
their order, by their numbers and by their index values. -/
def TableFound (s : ModuleSet) (db : ModuleTables) : Prop :=
  ∃ s', s.dbModuleOpen db = some s' ∧
    ∀ i < s'.dbModuleTstPtnNum, ∃ row p, db.rows[i]? = some row ∧
      s'.dbModuleGetPatternByLoopId i = some (some p) ∧
      s'.record (some p) = some (ownInfo row) ∧
      s'.dbModuleGetPatternById (stringtoint (row indexColumn)) = some (some p)

/-- No text of the table `global_config` leaves its field of `module_set`. -/
def ModuleTables.GlobalFits (db : ModuleTables) : Prop :=
  ∀ row ∈ db.globalRows, TextsFit Loader.dbglobalConfigLoad.columns (List.ofFn row)

/-- The other table can be loaded exactly when its texts fit. -/
theorem ModuleSet.dbglobalConfigLoad_isSome_iff (s : ModuleSet) (db : ModuleTables) :
    (∃ s', s.dbglobalConfigLoad (sqlite3GetTable db.globalNames db.globalRows)
      db.globalRows.length = some s') ↔ db.GlobalFits := by
  rw [dbglobalConfigLoad, exists_map_eq_some_iff]
  have hrow : ∀ config, ∀ i ∈ List.range db.globalRows.length,
      (∃ config', dbglobalConfigRow (sqlite3GetTable db.globalNames db.globalRows) i config =
        some config') ↔ ∀ row, db.globalRows[i]? = some row →
          TextsFit Loader.dbglobalConfigLoad.columns (List.ofFn row) := by
    intro config i hi
    have hlt := List.mem_range.mp hi
    rw [dbglobalConfigRow, exists_map_eq_some_iff, List.getElem?_eq_getElem hlt]
    simp only [Option.some.injEq, forall_eq']
    exact Loader.dbglobalConfigLoad.take_isSome_iff db.globalNames db.globalRows ⟨i, hlt⟩
  rw [foldlM_isSome_iff hrow]
  constructor
  · intro h row hmem
    obtain ⟨i, hi, hget⟩ := List.getElem_of_mem hmem
    exact h i (List.mem_range.mpr hi) row (List.getElem?_eq_some_iff.mpr ⟨hi, hget⟩)
  · exact fun h i _ row hget => h row (List.mem_of_getElem? hget)

/-- What was opened is the list that was filled, with the texts of the other table. -/
theorem ModuleSet.dbModuleOpen_eq_some_iff {s s' : ModuleSet} {db : ModuleTables} :
    s.dbModuleOpen db = some s' ↔ ∃ t, (fresh s.heap).dbpatternConfigLoad
        ((List.range db.rows.length).map (dbpatternConfigRow (sqlite3GetTable db.names db.rows))) =
          some t ∧ t.dbglobalConfigLoad (sqlite3GetTable db.globalNames db.globalRows)
            db.globalRows.length = some s' :=
  Option.bind_eq_some_iff

theorem ModuleSet.of_globalConfigLoad {s s' : ModuleSet} {result : List (Option Str)} {row : ℕ}
    (h : s.dbglobalConfigLoad result row = some s') : ∃ config, s' = { s with config } := by
  obtain ⟨config, -, rfl⟩ := Option.map_eq_some_iff.mp h
  exact ⟨config, rfl⟩

/-- The database was opened, whatever the rows hold. -/
theorem ModuleSet.of_open {s s' : ModuleSet} {db : ModuleTables}
    (hopen : s.dbModuleOpen db = some s') :
    s'.Live ∧ s'.curConns = min db.rows.length maxPatternNumInModule := by
  obtain ⟨t, hload, hglobal⟩ := dbModuleOpen_eq_some_iff.mp hopen
  obtain ⟨config, rfl⟩ := of_globalConfigLoad hglobal
  obtain ⟨hlive, hcur⟩ := (ModuleSet.fresh_live s.heap).of_load hload
  rw [List.length_map, List.length_range] at hcur
  exact ⟨hlive.config config, hcur.trans (congrArg (min · _) (Nat.zero_add _))⟩

/-- Where the records of a table are that finds room. -/
theorem ModuleSet.of_load_short {s s' : ModuleSet} {infos : List ModuleInfo}
    (hroom : infos.length ≤ 199)
    (hload : (fresh s.heap).dbpatternConfigLoad (infos.map some) = some s') :
    s'.loopConns.contents = (List.range infos.length).map (fun i => some (s.heap.length + i)) ∧
      ∀ (i : ℕ) (info : ModuleInfo), infos[i]? = some info →
        s'.record (some (s.heap.length + i)) = some info ∧
          s'.dbModuleGetPatternByLoopId i = some (some (s.heap.length + i)) := by
  have hfresh := fresh_live s.heap
  obtain ⟨hheap, hcontents⟩ := hfresh.load_short
    (by rw [show (fresh s.heap).curConns = 0 from rfl]; omega) hload
  obtain ⟨hlive, hcur⟩ := hfresh.of_load hload
  have hnil : (fresh s.heap).loopConns.contents = [] := LoopList.contents_create (by decide)
  rw [hnil, List.nil_append] at hcontents
  rw [List.length_map, show (fresh s.heap).curConns = 0 from rfl, Nat.zero_add,
    Nat.min_eq_left (hroom.trans (by decide))] at hcur
  refine ⟨hcontents, ?_⟩
  intro i info hinfo
  have hi : i < infos.length := (List.getElem?_eq_some_iff.mp hinfo).1
  refine ⟨?_, ?_⟩
  · rw [record, hheap, Option.bind_some]
    show ((s.heap ++ _)[_]?).join = _
    rw [List.getElem?_append_right (Nat.le_add_right _ _), Nat.add_sub_cancel_left,
      List.getElem?_map, hinfo]
    rfl
  · obtain ⟨hhead, hlength⟩ := hlive.length_of_lt (by rw [hcur, maxPatternNumInModule]; omega)
    rw [hlive.byLoopId_eq (by omega) (by rw [hhead, maxPatternNumInModule]; omega), hcontents,
      List.getElem?_map, List.getElem?_range hi]
    rfl

/-- A record is found by its index value when there is no other one with it. -/
theorem ModuleSet.byId_of_load_short {s s' : ModuleSet} {infos : List ModuleInfo}
    (hroom : infos.length ≤ 199)
    (hload : (fresh s.heap).dbpatternConfigLoad (infos.map some) = some s')
    (hdistinct : (infos.map (·.ptdindex)).Nodup) {i : ℕ} {info : ModuleInfo}
    (hinfo : infos[i]? = some info) :
    s'.dbModuleGetPatternById info.ptdindex = some (some (s.heap.length + i)) := by
  obtain ⟨hlive, -⟩ := (ModuleSet.fresh_live s.heap).of_load hload
  obtain ⟨hcontents, hrecord⟩ := of_load_short hroom hload
  have hi : i < infos.length := (List.getElem?_eq_some_iff.mp hinfo).1
  have hfind : (s'.loopConns.contents.find? fun p =>
      (s'.record p).any fun other => other.ptdindex = info.ptdindex) =
        some (some (s.heap.length + i)) := by
    rw [hcontents, List.find?_eq_some_iff_getElem]
    refine ⟨?_, i, ?_, ?_, ?_⟩
    · rw [(hrecord i info hinfo).1]
      exact decide_eq_true rfl
    · rw [List.length_map, List.length_range]
      exact hi
    · rw [List.getElem_map, List.getElem_range]
    · intro j hj
      have hj' : j < infos.length := hj.trans hi
      rw [List.getElem_map, List.getElem_range,
        (hrecord j _ (List.getElem?_eq_getElem hj')).1]
      have hne : infos[j].ptdindex ≠ info.ptdindex := by
        obtain ⟨_, hget⟩ := List.getElem?_eq_some_iff.mp hinfo
        rw [← hget]
        intro hindex
        have hsame := List.inj_on_of_nodup_map hdistinct (List.getElem_mem hj')
          (List.getElem_mem hi) hindex
        exact hj.ne ((List.Nodup.of_map _ hdistinct).getElem_inj_iff.mp hsame)
      rw [Option.any_some, decide_eq_false hne]
      rfl
  rw [dbModuleGetPatternById, hlive.loopSearch_eq, hfind]
  rfl

/-- The last of 200 records that are counted is looked up behind the list. -/
theorem not_tableFound_of_le (s : ModuleSet) {db : ModuleTables}
    (hrows : maxPatternNumInModule ≤ db.rows.length) : ¬ TableFound s db := by
  rintro ⟨s', hopen, hfound⟩
  obtain ⟨hlive, hcur⟩ := ModuleSet.of_open hopen
  rw [Nat.min_eq_right hrows] at hcur
  obtain ⟨row, p, -, hget, -⟩ := hfound 199 (by rw [ModuleSet.dbModuleTstPtnNum, hcur]; decide)
  have hhead : s'.loopConns.head = 1 := by
    rcases hlive.count with ⟨-, hlength⟩ | ⟨hhead, -⟩
    · have hlt := hlive.valid.length_lt
      rw [hlive.size] at hlt
      omega
    · exact hhead
  rw [hlive.byLoopId_outside (by rw [hhead]; decide)] at hget
  exact Option.some_ne_none _ hget.symm

/-- A short table that is found was loaded as it stands. -/
theorem loadsAsOwn_of_tableFound {s : ModuleSet} {db : ModuleTables}
    (hlt : db.rows.length < maxPatternNumInModule) (hfound : TableFound s db) :
    (∀ row ∈ db.rows, LoadsAsOwn row) ∧ db.GlobalFits := by
  obtain ⟨s', hopen, hfound⟩ := hfound
  obtain ⟨-, hcur⟩ := ModuleSet.of_open hopen
  rw [Nat.min_eq_left hlt.le] at hcur
  obtain ⟨t, hload, hglobal⟩ := ModuleSet.dbModuleOpen_eq_some_iff.mp hopen
  refine ⟨?_, (t.dbglobalConfigLoad_isSome_iff db).mp ⟨s', hglobal⟩⟩
  obtain ⟨config, rfl⟩ := ModuleSet.of_globalConfigLoad hglobal
  obtain ⟨infos, hinfos⟩ := (ModuleSet.fresh_live s.heap).rows_of_load
    (by rw [List.length_map, List.length_range]; exact (Nat.zero_add _).le.trans hlt.le) hload
  have hlength : infos.length = db.rows.length := by
    have hlen := congrArg List.length hinfos
    rw [List.length_map, List.length_range, List.length_map] at hlen
    exact hlen.symm
  rw [hinfos] at hload
  obtain ⟨-, hrecord⟩ := ModuleSet.of_load_short (by rw [hlength]; exact Nat.le_of_lt_succ hlt)
    hload
  intro row hrow
  obtain ⟨i, rfl⟩ := List.get_of_mem hrow
  rw [← dbpatternConfigRow_iff db.names]
  obtain ⟨row, p, hrow', hget, hp, -⟩ := hfound i (by
    rw [ModuleSet.dbModuleTstPtnNum, hcur]
    exact i.isLt)
  have hinfo : infos[(i : ℕ)]? = some (infos.get (i.cast hlength.symm)) :=
    List.getElem?_eq_getElem _
  obtain ⟨hrec, hbyLoop⟩ := hrecord i _ hinfo
  obtain rfl : s.heap.length + (i : ℕ) = p :=
    Option.some.inj (Option.some.inj (hbyLoop.symm.trans hget))
  obtain rfl : db.rows.get i = row :=
    Option.some.inj ((List.getElem?_eq_getElem i.isLt).symm.trans hrow')
  have hloaded := congrArg (·[(i : ℕ)]?) hinfos
  simp only [List.getElem?_map, List.getElem?_range i.isLt, hinfo] at hloaded
  exact (Option.some.inj hloaded).trans (hrec.symm.trans hp)

/-- A short table that is loaded as it stands is found. -/
theorem tableFound_of_loadsAsOwn (s : ModuleSet) {db : ModuleTables}
    (hlt : db.rows.length < maxPatternNumInModule)
    (hdistinct : (db.rows.map fun row => stringtoint (row indexColumn)).Nodup)
    (hload : ∀ row ∈ db.rows, LoadsAsOwn row) (hglobal : db.GlobalFits) : TableFound s db := by
  have hinfos : (List.range db.rows.length).map
      (dbpatternConfigRow (sqlite3GetTable db.names db.rows)) = (db.rows.map ownInfo).map some := by
    apply List.ext_getElem
    · rw [List.length_map, List.length_range, List.length_map, List.length_map]
    · intro i _ hi
      rw [List.length_map, List.length_map] at hi
      rw [List.getElem_map, List.getElem_range, List.getElem_map, List.getElem_map]
      exact (dbpatternConfigRow_iff db.names db.rows ⟨i, hi⟩).mpr (hload _ (List.getElem_mem hi))
  have hroom : (db.rows.map ownInfo).length ≤ 199 := by
    rw [List.length_map]
    exact Nat.le_of_lt_succ hlt
  have hloads : ∀ row ∈ ((db.rows.map ownInfo).map some).take (maxPatternNumInModule - 0 + 1),
      ∃ info, row = some info := by
    intro row hrow
    obtain ⟨info, -, hinfo⟩ := List.mem_map.mp (List.mem_of_mem_take hrow)
    exact ⟨info, hinfo.symm⟩
  obtain ⟨t, hfilled⟩ := ((ModuleSet.fresh_live s.heap).load_isSome_iff _).mpr hloads
  obtain ⟨-, hcur⟩ := (ModuleSet.fresh_live s.heap).of_load hfilled
  obtain ⟨-, hrecord⟩ := ModuleSet.of_load_short hroom hfilled
  obtain ⟨s', hopened⟩ := (t.dbglobalConfigLoad_isSome_iff db).mpr hglobal
  refine ⟨s', ?_, ?_⟩
  · rw [ModuleSet.dbModuleOpen_eq_some_iff, hinfos]
    exact ⟨t, hfilled, hopened⟩
  · obtain ⟨config, rfl⟩ := ModuleSet.of_globalConfigLoad hopened
    intro i hi
    have hi' : i < db.rows.length := by
      have hcount : i < t.curConns := hi
      rw [hcur, List.length_map, List.length_map] at hcount
      exact (lt_of_lt_of_le hcount (Nat.min_le_left _ _)).trans_eq (Nat.zero_add _)
    have hinfo : (db.rows.map ownInfo)[i]? = some (ownInfo db.rows[i]) := by
      rw [List.getElem?_map, List.getElem?_eq_getElem hi']
      rfl
    obtain ⟨hrec, hbyLoop⟩ := hrecord i _ hinfo
    refine ⟨db.rows[i], s.heap.length + i, List.getElem?_eq_getElem hi', hbyLoop, hrec, ?_⟩
    have hdistinct' : ((db.rows.map ownInfo).map (·.ptdindex)).Nodup := by
      rw [List.map_map]
      exact hdistinct
    exact ModuleSet.byId_of_load_short hroom hfilled hdistinct' hinfo

/-- The look-ups find every row of a table exactly when it has fewer than 200 of them, each is
loaded as it stands in the table, and the texts of the other table fit their fields. -/
theorem tableFound_iff (s : ModuleSet) (db : ModuleTables)
    (hdistinct : (db.rows.map fun row => stringtoint (row indexColumn)).Nodup) :
    TableFound s db ↔ db.rows.length < maxPatternNumInModule ∧
      (∀ row ∈ db.rows, LoadsAsOwn row) ∧ db.GlobalFits := by
  constructor
  · intro hfound
    have hlt : db.rows.length < maxPatternNumInModule := by
      apply Nat.lt_of_not_le
      intro hle
      exact not_tableFound_of_le s hle hfound
    exact ⟨hlt, loadsAsOwn_of_tableFound hlt hfound⟩
  · rintro ⟨hlt, hload, hglobal⟩
    exact tableFound_of_loadsAsOwn s hlt hdistinct hload hglobal

/-- A row with an index value and nothing else. -/
def indexed (i : ℕ) : Fin 20 → Option Str := fun c =>
  if c = indexColumn then some (printDecimal i) else none

theorem stringtoint_indexed {i : ℕ} (hi : i < maxPatternNumInModule) :
    (stringtoint (indexed i indexColumn)).toInt = i := by
  have hlt : (i : ℤ) < 200 := Int.ofNat_lt.mpr hi
  show (Int32.ofInt (strtol (printDecimal i) 0)).toInt = i
  rw [strtol_printDecimal (by omega) (by omega)]
  exact Int32.toInt_ofInt_of_le (by omega) (by omega)

/-- A table of three rows, whose index values are not in order, and a power configuration. -/
def threeRows : ModuleTables where
  names _ := []
  rows := [indexed 7, indexed 0, indexed 199]
  globalNames _ := []
  globalRows := [fun c => if c = 0 then some "power.cfg".toList else none]

theorem tableFound_indexed : TableFound (.fresh []) threeRows := by
  have hdistinct : (threeRows.rows.map fun row => stringtoint (row indexColumn)).Nodup := by
    decide
  apply (tableFound_iff (.fresh []) threeRows hdistinct).mpr
  refine ⟨?_, ?_, ?_⟩
  · decide
  · have hown : ∀ i, LoadsAsOwn (indexed i) := by
      intro i
      have hrow : List.ofFn (indexed i) = some (printDecimal i) :: List.replicate 19 none := rfl
      rw [LoadsAsOwn, hrow]
      simp [List.replicate_succ, Loader.columns, TextsFit, entriesRead, Agree, Column.Same, text,
        int]
    intro row hrow
    rcases List.mem_cons.mp hrow with rfl | hrow
    · exact hown 7
    · rcases List.mem_cons.mp hrow with rfl | hrow
      · exact hown 0
      · obtain rfl := List.mem_singleton.mp hrow
        exact hown 199
  · intro row hrow
    obtain rfl := List.mem_singleton.mp hrow
    exact (Loader.dbglobalConfigLoad.take_isSome_iff (fun _ => []) threeRows.globalRows
      ⟨0, Nat.one_pos⟩).mp ⟨_, rfl⟩

/-- Of 200 rows with different index values the last one is not found. -/
theorem not_tableFound_200 : ¬ ∀ (s : ModuleSet) (db : ModuleTables),
    (db.rows.map fun row => stringtoint (row indexColumn)).Nodup → TableFound s db := by
  intro hall
  let db : ModuleTables :=
    { names := fun _ => []
      rows := (List.range maxPatternNumInModule).map indexed
      globalNames := fun _ => []
      globalRows := [] }
  have hlength : db.rows.length = maxPatternNumInModule := by
    rw [List.length_map, List.length_range]
  apply not_tableFound_of_le (.fresh []) hlength.ge
  apply hall
  apply List.Nodup.of_map Int32.toInt
  have hvalues : (db.rows.map fun row => stringtoint (row indexColumn)).map Int32.toInt =
      (List.range maxPatternNumInModule).map Nat.cast := by
    rw [List.map_map, List.map_map]
    apply List.map_congr_left
    intro i hi
    show (stringtoint (indexed i indexColumn)).toInt = i
    exact stringtoint_indexed (List.mem_range.mp hi)
  rw [hvalues]
  exact List.nodup_range.map Nat.cast_injective

end PanelTester.PgDB
