import PanelTester.FileSync.LocalDB
import PanelTester.Library.Steps

/-!
The records in memory against the table. As long as every row has its record, the records are
the rows, in order (`Mirrors`); the steps that break this are a row too many, a name that does
not fit, and `localDBAdd` for a name that the table has with other values.
-/

namespace PanelTester.FileSync

open Library

/-! ### The question -/

/-- What the table says of a name. -/
def tableEntry (table : List Row) (name : Str) : Option (Int32 × Int32) :=
  (table.find? (·.name = name)).map fun row => (row.time, row.size)

/-- `localDBGetRec` says what the table says. -/
def Coherent (db : LocalDB) : Prop :=
  ∀ name, (localDBGetRec db name).map (fun record => (record.fileTime, record.fileSize)) =
    tableEntry db.table name

/-- The operations; `update` is with the caller's change of the record. -/
inductive DbOp
  | init
  | add (name : Str) (time size : Int32)
  | update (name : Str) (time size : Int32)
  | delAll

namespace DbOp

def apply (db : LocalDB) : DbOp → Option LocalDB
  | init => localDBInit db
  | add name time size => localDBAdd .meant db name time size
  | update name time size => localDBUpdate .meant (setRec db name time size) name time size
  | delAll => some (localDBDelAll db)

/-- The texts of the statements are as they should be. -/
def Plain : DbOp → Prop
  | init | delAll => True
  | add name time size =>
      (Sql.select name).Plain ∧ (Sql.update name time size).Plain ∧
        (Sql.insert name time size 0).Plain
  | update name time size => (Sql.update name time size).Plain

instance : (op : DbOp) → Decidable op.Plain
  | init | delAll => .isTrue trivial
  | add _ _ _ => inferInstanceAs (Decidable (_ ∧ _ ∧ _))
  | update _ _ _ => inferInstanceAs (Decidable (_ ∧ _))

/-- The record of every row has its place, and does not go stale. -/
def Fits (db : LocalDB) : DbOp → Prop
  | init => db.table.length < maxFilesNum ∧ ∀ row ∈ db.table, row.name.length < localFileNameLen
  | add name time size =>
      tableEntry db.table name = some (time, size) ∨
        tableEntry db.table name = none ∧ db.table.length + 1 < maxFilesNum ∧
          name.length < localFileNameLen
  | update _ _ _ | delAll => True

/-- Every operation is defined, and coherent behind it. -/
def CoherentRun : LocalDB → List DbOp → Prop
  | _, [] => True
  | db, op :: ops => ∃ db', op.apply db = some db' ∧ Coherent db' ∧ CoherentRun db' ops

/-- Every operation fits where it is made. -/
def FitsRun : LocalDB → List DbOp → Prop
  | _, [] => True
  | db, op :: ops => op.Fits db ∧ ∀ db', op.apply db = some db' → FitsRun db' ops

end DbOp

/-! ### Records that are the rows -/

def Row.entry (row : Row) : Str × Int32 × Int32 := (row.name, row.time, row.size)

def LocalFileInfo.entry (record : LocalFileInfo) : Str × Int32 × Int32 :=
  (record.fileName, record.fileTime, record.fileSize)

/-- The records are the rows, in order, and there is one for a name. -/
structure Mirrors (db : LocalDB) : Prop where
  valid : db.records.Valid
  size : db.records.size = maxFilesNum
  names : (db.table.map Row.name).Nodup
  rows : db.records.contents.map LocalFileInfo.entry = db.table.map Row.entry

section

variable {sqlite : Sqlite} {table : List Row} {db : LocalDB} {name : Str} {time size : Int32}

/-- The entry of a name among records. -/
def recordEntry (records : List LocalFileInfo) (name : Str) : Option (Int32 × Int32) :=
  (records.find? (searchParternName name)).map fun record => (record.fileTime, record.fileSize)

theorem find?_entry (entries : List (Str × Int32 × Int32)) (name : Str)
    (records : List LocalFileInfo)
    (h : records.map LocalFileInfo.entry = entries) :
    recordEntry records name = (entries.find? (·.1 = name)).map Prod.snd := by
  subst h
  rw [recordEntry, List.find?_map, Option.map_map]
  rfl

theorem tableEntry_eq (table : List Row) (name : Str) :
    tableEntry table name = ((table.map Row.entry).find? (·.1 = name)).map Prod.snd := by
  rw [tableEntry, List.find?_map, Option.map_map]
  rfl

theorem Mirrors.coherent (h : Mirrors db) : Coherent db := by
  intro name
  rw [localDBGetRec, h.valid.search_eq, tableEntry_eq]
  exact find?_entry _ name _ h.rows

theorem tableEntry_eq_none : tableEntry table name = none ↔ ∀ row ∈ table, row.name ≠ name := by
  rw [tableEntry, Option.map_eq_none_iff, List.find?_eq_none]
  simp

theorem Mirrors.length (h : Mirrors db) : db.records.length = db.table.length := by
  have hlength := congrArg List.length h.rows
  rw [List.length_map, List.length_map, h.valid.length_contents] at hlength
  exact hlength

/-- With one row for a name, it is what the table says. -/
theorem tableEntry_of_mem (hnames : (table.map Row.name).Nodup) {row : Row} (hrow : row ∈ table) :
    tableEntry table row.name = some (row.time, row.size) := by
  obtain ⟨front, back, rfl⟩ := List.append_of_mem hrow
  rw [List.map_append, List.map_cons, List.nodup_append'] at hnames
  have hfront : (front.find? (·.name = row.name)) = none := by
    apply List.find?_eq_none.mpr
    intro r hr heq
    apply hnames.2.2 (List.mem_map_of_mem hr)
    rw [show r.name = row.name by simpa using heq]
    exact List.mem_cons_self
  rw [tableEntry, List.find?_append, hfront, Option.none_or, List.find?_cons]
  simp

/-! ### Updates -/

/-- A change of the first that is searched for, where there is at most one, changes all. -/
theorem modify_findIdx? {α : Type*} {p : α → Bool} {f : α → α} {l : List α}
    (h : l.Pairwise fun a b => ¬ (p a = true ∧ p b = true)) :
    ((l.findIdx? p).elim l fun j => l.modify j f) = l.map fun a => if p a then f a else a := by
  induction l with
  | nil => rfl
  | cons a l ih =>
      obtain ⟨ha, hl⟩ := List.pairwise_cons.mp h
      rw [List.findIdx?_cons, List.map_cons]
      by_cases hp : p a = true
      · have hrest : l.map (fun b => if p b then f b else b) = l :=
          (List.map_congr_left fun b hb => if_neg fun hpb => ha b hb ⟨hp, hpb⟩).trans
            (List.map_id' l)
        simp [hp, hrest]
      · simp only [hp, Bool.false_eq_true, if_false, ← ih hl]
        cases l.findIdx? p <;> rfl

/-- The rows that `UPDATE` leaves. -/
theorem run_update_entry :
    ((Sql.update name time size).run table).1.map Row.entry =
      (table.map Row.entry).map fun e => if e.1 = name then (e.1, time, size) else e := by
  rw [Sql.run, List.map_map, List.map_map]
  apply List.map_congr_left
  intro row _
  by_cases hname : row.name = name <;> simp [Row.entry, hname]

theorem run_update_names : ((Sql.update name time size).run table).1.map Row.name =
    table.map Row.name := by
  rw [Sql.run, List.map_map]
  apply List.map_congr_left
  intro row _
  simp only [Function.comp_apply]
  split <;> rfl

theorem Mirrors.pairwise (h : Mirrors db) (name : Str) : db.records.contents.Pairwise fun a b =>
    ¬ (searchParternName name a = true ∧ searchParternName name b = true) := by
  have hnames : db.records.contents.map LocalFileInfo.fileName = db.table.map Row.name := by
    have hmap := congrArg (List.map Prod.fst) h.rows
    rw [List.map_map, List.map_map] at hmap
    exact hmap
  have hnodup := h.names
  rw [← hnames, List.Nodup, List.pairwise_map] at hnodup
  refine hnodup.imp fun hne hboth => hne ?_
  simp only [searchParternName, decide_eq_true_eq] at hboth
  exact hboth.1.trans hboth.2.symm

/-- An update with the record changes both alike. -/
theorem Mirrors.update (h : Mirrors db) (hplain : (Sql.update name time size).Plain) :
    ∃ db', localDBUpdate .meant (setRec db name time size) name time size = some db' ∧
      Mirrors db' ∧ db'.table = ((Sql.update name time size).run db.table).1 := by
  have hexec : localDBUpdate .meant (setRec db name time size) name time size =
      some { setRec db name time size with
        table := ((Sql.update name time size).run db.table).1 } := by
    rw [localDBUpdate, exec_of_plain faithful_meant hplain]
    rfl
  refine ⟨_, hexec, ⟨h.valid.modify _ _, ?_, ?_, ?_⟩, rfl⟩
  · show (LoopList.modify ..).size = _
    rw [LoopList.modify]
    split <;> exact h.size
  · show ((Sql.update name time size).run db.table).1.map Row.name |>.Nodup
    rw [run_update_names]
    exact h.names
  · show (LoopList.modify ..).contents.map _ = ((Sql.update name time size).run db.table).1.map _
    rw [h.valid.contents_modify, modify_findIdx? (h.pairwise name), run_update_entry, ← h.rows,
      List.map_map, List.map_map]
    apply List.map_congr_left
    intro record _
    by_cases hname : record.fileName = name <;> simp [searchParternName, LocalFileInfo.entry, hname]

/-! ### The start -/

theorem loadRow_eq {row : Row} (h : row.name.length < localFileNameLen) :
    loadRow row = some ⟨row.name, row.time, row.size, row.status⟩ := by
  simp [loadRow, copyName, h]

theorem loadRow_eq_none {row : Row} (h : ¬ row.name.length < localFileNameLen) :
    loadRow row = none := by
  simp [loadRow, copyName, h]

/-- A record is pushed, and as many go as do not fit. -/
theorem contents_push {α : Type*} {l : LoopList α} (h : l.Valid) (data : α) :
    (l.pushToTail data).contents = (l.contents ++ [data]).drop (l.length + 2 - l.size) := by
  have hlt := h.length_lt
  rw [h.contents_pushToTail]
  split
  · rw [show l.length + 2 - l.size = 1 by omega, List.drop_one]
  · rw [show l.length + 2 - l.size = 0 by omega, List.drop_zero]

theorem load_rows {rows : List Row} (hshort : ∀ row ∈ rows, row.name.length < localFileNameLen)
    {records : LoopList LocalFileInfo} (hvalid : records.Valid) :
    ∃ records', rows.foldlM (fun records row => do
        let record ← loadRow row
        some (records.pushToTail record)) records = some records' ∧ records'.Valid ∧
      records'.size = records.size ∧ records'.contents.map LocalFileInfo.entry =
        (records.contents.map LocalFileInfo.entry ++ rows.map Row.entry).drop
          (records.length + rows.length + 1 - records.size) := by
  induction rows generalizing records with
  | nil =>
      refine ⟨records, rfl, hvalid, rfl, ?_⟩
      have hlt := hvalid.length_lt
      rw [List.length_nil, show records.length + 0 + 1 - records.size = 0 by omega, List.drop_zero,
        List.map_nil, List.append_nil]
  | cons row rows ih =>
      have hlt := hvalid.length_lt
      obtain ⟨records', heq, hvalid', hsize, hcontents⟩ :=
        ih (fun r hr => hshort r (List.mem_cons_of_mem _ hr))
          (hvalid.pushToTail ⟨row.name, row.time, row.size, row.status⟩)
      refine ⟨records', ?_, hvalid', hsize, ?_⟩
      · rw [List.foldlM_cons, loadRow_eq (hshort row List.mem_cons_self)]
        exact heq
      · have hsplit : (records.contents.map LocalFileInfo.entry ++ [row.entry]).length =
            records.length + 1 := by
          rw [List.length_append, List.length_map, hvalid.length_contents]
          rfl
        have hfirst : records.length + 2 - records.size ≤
            (records.contents.map LocalFileInfo.entry ++ [row.entry]).length := by
          rw [hsplit]
          omega
        have hpushed : (records.pushToTail ⟨row.name, row.time, row.size, row.status⟩).contents.map
            LocalFileInfo.entry = (records.contents.map LocalFileInfo.entry ++ [row.entry]).drop
              (records.length + 2 - records.size) := by
          rw [contents_push hvalid, List.map_drop, List.map_append]
          rfl
        have hlength := hvalid.length_pushToTail ⟨row.name, row.time, row.size, row.status⟩
        rw [hcontents, hpushed, ← List.drop_append_of_le_length hfirst, List.drop_drop,
          List.append_assoc, List.map_cons, hlength]
        have hsame : (records.pushToTail ⟨row.name, row.time, row.size, row.status⟩).size =
            records.size := rfl
        congr 1
        rw [hsame, List.length_cons]
        split_ifs <;> omega

theorem load_rows_long {rows : List Row} {row : Row} (hrow : row ∈ rows)
    (hlong : ¬ row.name.length < localFileNameLen) (records : LoopList LocalFileInfo) :
    rows.foldlM (fun records row => do
        let record ← loadRow row
        some (records.pushToTail record)) records = none := by
  induction rows generalizing records with
  | nil => exact nomatch hrow
  | cons r rows ih =>
      rw [List.foldlM_cons]
      rcases List.mem_cons.mp hrow with rfl | hrow
      · rw [loadRow_eq_none hlong]
        rfl
      · cases hload : loadRow r with
        | none => rfl
        | some record => exact ih hrow _

theorem init_of_fits (hnames : (db.table.map Row.name).Nodup) (hfits : DbOp.init.Fits db) :
    ∃ db', localDBInit db = some db' ∧ Mirrors db' ∧ db'.table = db.table := by
  obtain ⟨hfew, hshort⟩ := hfits
  have hpos : 0 < maxFilesNum := by decide
  have hvalid : (LoopList.create maxFilesNum : LoopList LocalFileInfo).Valid :=
    LoopList.create_valid hpos
  have hempty := LoopList.contents_create (α := LocalFileInfo) hpos
  have hlength := hvalid.length_contents
  obtain ⟨records, heq, hvalid', hsize, hcontents⟩ := load_rows hshort hvalid
  refine ⟨{ db with records := records }, ?_, ⟨hvalid', hsize, hnames, ?_⟩, rfl⟩
  · rw [localDBInit, heq]
    rfl
  · rw [hempty, List.length_nil] at hlength
    rw [hcontents, hempty, ← hlength, List.map_nil, List.nil_append,
      show 0 + db.table.length + 1 - LoopList.size _ = 0 from ?_, List.drop_zero]
    show 0 + db.table.length + 1 - maxFilesNum = 0
    omega

/-- With a row too many, the first one has no record. -/
theorem fits_of_init {db' : LocalDB} (hnames : (db.table.map Row.name).Nodup)
    (heq : localDBInit db = some db') (h : Coherent db') : DbOp.init.Fits db := by
  have hpos : 0 < maxFilesNum := by decide
  have hvalid : (LoopList.create maxFilesNum : LoopList LocalFileInfo).Valid :=
    LoopList.create_valid hpos
  have hempty := LoopList.contents_create (α := LocalFileInfo) hpos
  have hlength := hvalid.length_contents
  rw [hempty, List.length_nil] at hlength
  have hshort : ∀ row ∈ db.table, row.name.length < localFileNameLen := by
    by_contra hlong
    obtain ⟨row, hrow⟩ := not_forall.mp hlong
    obtain ⟨hmem, hrow⟩ := Classical.not_imp.mp hrow
    rw [localDBInit, load_rows_long hmem hrow] at heq
    exact nomatch heq
  refine ⟨?_, hshort⟩
  obtain ⟨records, hload, hvalid', -, hcontents⟩ := load_rows hshort hvalid
  rw [localDBInit, hload] at heq
  obtain rfl := Option.some.inj heq
  by_contra hmany
  cases htable : db.table with
  | nil =>
      rw [htable] at hmany
      exact hmany hpos
  | cons row rows =>
      have hentry := h row.name
      rw [localDBGetRec, hvalid'.search_eq,
        show tableEntry db.table row.name = some (row.time, row.size) from
          tableEntry_of_mem hnames (htable ▸ List.mem_cons_self)] at hentry
      have hnone : recordEntry records.contents row.name = none := by
        rw [find?_entry _ _ _ hcontents, hempty, ← hlength, List.map_nil, List.nil_append]
        rw [htable, List.map_cons, List.nodup_cons] at hnames
        rw [Option.map_eq_none_iff, List.find?_eq_none]
        intro e he hname
        have hsize : (LoopList.create maxFilesNum : LoopList LocalFileInfo).size =
          maxFilesNum := rfl
        rw [htable] at hmany
        rw [htable, List.map_cons, hsize,
          show 0 + (row :: rows).length + 1 - maxFilesNum =
            ((row :: rows).length - maxFilesNum) + 1 by omega, List.drop_succ_cons] at he
        obtain ⟨r, hr, rfl⟩ := List.mem_map.mp (List.mem_of_mem_drop he)
        exact hnames.1 (List.mem_map.mpr ⟨r, hr, of_decide_eq_true hname⟩)
      exact nomatch hentry.symm.trans hnone

/-! ### Additions -/

theorem add_of_row (hsqlite : Faithful sqlite) {e : Int32 × Int32}
    (he : tableEntry db.table name = some e) (hplain : (DbOp.add name time size).Plain) :
    localDBAdd sqlite db name time size =
      some { db with table := ((Sql.update name time size).run db.table).1 } := by
  obtain ⟨hselect, hupdate, -⟩ := hplain
  have hrows : db.table.filter (·.name = name) ≠ [] := fun hnil => by
    have hnone : tableEntry db.table name = none := tableEntry_eq_none.mpr fun row hrow hname =>
      List.filter_eq_nil_iff.mp hnil row hrow (decide_eq_true hname)
    exact nomatch he.symm.trans hnone
  rw [localDBAdd, exec_of_plain hsqlite hselect]
  show (if db.table.filter (·.name = name) ≠ [] then
    (Sql.exec sqlite db.table (.update name time size)).bind _ else _) = _
  rw [if_pos hrows, exec_of_plain hsqlite hupdate]
  rfl

theorem add_of_no_row (hsqlite : Faithful sqlite) (he : tableEntry db.table name = none)
    (hplain : (DbOp.add name time size).Plain) :
    localDBAdd sqlite db name time size =
      if name.length < localFileNameLen then
        some
          { db with
            table := db.table ++ [⟨name, time, size, 0⟩]
            records := db.records.pushToTail ⟨name, time, size, 0⟩ }
      else none := by
  obtain ⟨hselect, -, hinsert⟩ := hplain
  have hrows : db.table.filter (·.name = name) = [] :=
    List.filter_eq_nil_iff.mpr fun row hrow hname =>
      tableEntry_eq_none.mp he row hrow (of_decide_eq_true hname)
  rw [localDBAdd, exec_of_plain hsqlite hselect]
  show (if db.table.filter (·.name = name) ≠ [] then _ else
    (Sql.exec sqlite db.table (.insert name time size 0)).bind _) = _
  rw [if_neg (not_not.mpr hrows), exec_of_plain hsqlite hinsert]
  by_cases hlength : name.length < localFileNameLen
  · rw [if_pos hlength]
    simp [copyName, hlength, Sql.run]
  · rw [if_neg hlength]
    simp [copyName, hlength]

/-- An update to the values that the table has anyway. -/
theorem Mirrors.same (h : Mirrors db) (he : tableEntry db.table name = some (time, size)) :
    Mirrors { db with table := ((Sql.update name time size).run db.table).1 } := by
  refine ⟨h.valid, h.size, ?_, ?_⟩
  · show ((Sql.update name time size).run db.table).1.map Row.name |>.Nodup
    rw [run_update_names]
    exact h.names
  · show _ = ((Sql.update name time size).run db.table).1.map Row.entry
    rw [run_update_entry, h.rows, List.map_map]
    apply List.map_congr_left
    intro row hrow
    have hrow := tableEntry_of_mem h.names hrow
    by_cases hname : row.name = name
    · rw [hname, he] at hrow
      obtain ⟨rfl, rfl⟩ := Prod.mk.inj (Option.some.inj hrow)
      simp [Row.entry, hname]
    · simp [Row.entry, hname]

/-- What the table says once it is updated. -/
theorem tableEntry_update {e : Int32 × Int32} (he : tableEntry table name = some e) :
    tableEntry ((Sql.update name time size).run table).1 name = some (time, size) := by
  rw [tableEntry_eq] at he ⊢
  rw [run_update_entry, List.find?_map]
  have hsame : ((fun e : Str × Int32 × Int32 => decide (e.1 = name)) ∘ fun e =>
      if e.1 = name then (e.1, time, size) else e) = fun e => decide (e.1 = name) := by
    funext e
    by_cases hname : e.1 = name <;> simp [hname]
  rw [hsame]
  cases hfind : (table.map Row.entry).find? (·.1 = name) with
  | none =>
      rw [hfind] at he
      exact nomatch he
  | some e' =>
      have hname : e'.1 = name := by simpa using List.find?_some hfind
      simp [hname]

theorem Mirrors.add (h : Mirrors db) (hplain : (DbOp.add name time size).Plain)
    (hfits : (DbOp.add name time size).Fits db) :
    ∃ db', localDBAdd .meant db name time size = some db' ∧ Mirrors db' := by
  rcases hfits with he | ⟨he, hroom, hshort⟩
  · exact ⟨_, add_of_row faithful_meant he hplain, h.same he⟩
  · refine ⟨_, (add_of_no_row faithful_meant he hplain).trans (if_pos hshort),
      h.valid.pushToTail _, h.size, ?_, ?_⟩
    · show ((db.table ++ [_]).map Row.name).Nodup
      rw [List.map_append, List.nodup_append']
      refine ⟨h.names, List.nodup_singleton _, ?_⟩
      intro n hn hmem
      obtain ⟨row, hrow, rfl⟩ := List.mem_map.mp hn
      exact tableEntry_eq_none.mp he row hrow (List.mem_singleton.mp hmem)
    · have hsize := h.size
      have hlength := h.length
      show (LoopList.pushToTail ..).contents.map _ = (db.table ++ [_]).map _
      rw [contents_push h.valid, show db.records.length + 2 - db.records.size = 0 by omega,
        List.drop_zero, List.map_append, List.map_append, h.rows]
      rfl

/-- The record of the first row is pushed out when one is added to a full list. -/
theorem Mirrors.recordEntry_evicted (h : Mirrors db) (time size : Int32) {row : Row}
    {rows : List Row} (htable : db.table = row :: rows)
    (hfull : db.records.length + 1 = db.records.size) (hne : row.name ≠ name) :
    recordEntry (db.records.pushToTail ⟨name, time, size, 0⟩).contents row.name = none := by
  have hnames := h.names
  rw [htable, List.map_cons, List.nodup_cons] at hnames
  have hcontents : (db.records.pushToTail ⟨name, time, size, 0⟩).contents.map
      LocalFileInfo.entry = rows.map Row.entry ++ [(name, time, size)] := by
    rw [contents_push h.valid, show db.records.length + 2 - db.records.size = 1 by omega,
      List.map_drop, List.map_append, h.rows, htable]
    rfl
  rw [find?_entry _ _ _ hcontents, Option.map_eq_none_iff, List.find?_eq_none]
  intro e he hname
  have hname : e.1 = row.name := of_decide_eq_true hname
  rcases List.mem_append.mp he with he | he
  · obtain ⟨r, hr, rfl⟩ := List.mem_map.mp he
    exact hnames.1 (List.mem_map.mpr ⟨r, hr, hname⟩)
  · obtain rfl := List.mem_singleton.mp he
    exact hne hname.symm

theorem Mirrors.fits_of_add {db' : LocalDB} (h : Mirrors db)
    (hplain : (DbOp.add name time size).Plain)
    (heq : localDBAdd .meant db name time size = some db') (hcoherent : Coherent db') :
    (DbOp.add name time size).Fits db := by
  cases he : tableEntry db.table name with
  | some e =>
      rw [add_of_row faithful_meant he hplain] at heq
      obtain rfl := Option.some.inj heq
      have hnow := hcoherent name
      have hbefore := h.coherent name
      rw [show tableEntry _ name = _ from tableEntry_update he] at hnow
      exact .inl (hbefore.symm.trans hnow)
  | none =>
      rw [add_of_no_row faithful_meant he hplain] at heq
      split at heq
      case isFalse => exact nomatch heq
      case isTrue hshort =>
        obtain rfl := Option.some.inj heq
        refine .inr ⟨he, ?_, hshort⟩
        by_contra hfull
        -- the first record is gone, and its row is still there
        have hsize := h.size
        have hlength := h.length
        have hlt := h.valid.length_lt
        have hmax : 1 < maxFilesNum := by decide
        cases htable : db.table with
        | nil =>
            rw [htable, List.length_nil] at hfull
            omega
        | cons row rows =>
            have hmem : row ∈ db.table := htable ▸ List.mem_cons_self
            have hrow : tableEntry db.table row.name = some (row.time, row.size) :=
              tableEntry_of_mem h.names hmem
            have hfirst := hcoherent row.name
            have hafter : tableEntry (db.table ++ [⟨name, time, size, 0⟩]) row.name =
                some (row.time, row.size) := by
              rw [tableEntry, htable, List.cons_append, List.find?_cons]
              simp
            rw [show tableEntry _ row.name = _ from hafter, localDBGetRec,
              (h.valid.pushToTail _).search_eq] at hfirst
            have hnone := h.recordEntry_evicted time size htable (by omega)
              (tableEntry_eq_none.mp he row hmem)
            exact nomatch hfirst.symm.trans hnone

theorem Mirrors.delAll (h : Mirrors db) : Mirrors (localDBDelAll db) where
  valid := h.valid.clear
  size := h.size
  names := List.nodup_nil
  rows := by
    show db.records.clear.contents.map _ = [].map _
    rw [h.valid.contents_clear]
    rfl

end

/-! ### Runs -/

/-- The start, from any table. -/
theorem init_step {db : LocalDB} (hnames : (db.table.map Row.name).Nodup) :
    (∃ db', localDBInit db = some db' ∧ Coherent db') ↔ DbOp.init.Fits db := by
  constructor
  · rintro ⟨db', heq, hcoherent⟩
    exact fits_of_init hnames heq hcoherent
  · intro hfits
    obtain ⟨db', heq, hmirrors, -⟩ := init_of_fits hnames hfits
    exact ⟨db', heq, hmirrors.coherent⟩

/-- An operation is defined and coherent behind it exactly when it fits. -/
theorem Mirrors.step_iff {db : LocalDB} (h : Mirrors db) {op : DbOp} (hplain : op.Plain) :
    (∃ db', op.apply db = some db' ∧ Coherent db') ↔ op.Fits db := by
  cases op with
  | init => exact init_step h.names
  | add name time size =>
      constructor
      · rintro ⟨db', heq, hcoherent⟩
        exact h.fits_of_add hplain heq hcoherent
      · intro hfits
        obtain ⟨db', heq, hmirrors⟩ := h.add hplain hfits
        exact ⟨db', heq, hmirrors.coherent⟩
  | update name time size =>
      obtain ⟨db', heq, hmirrors, -⟩ := h.update hplain
      exact ⟨fun _ => trivial, fun _ => ⟨db', heq, hmirrors.coherent⟩⟩
  | delAll => exact ⟨fun _ => trivial, fun _ => ⟨_, rfl, h.delAll.coherent⟩⟩

/-- An operation that fits keeps the records the rows. -/
theorem Mirrors.step {db db' : LocalDB} (h : Mirrors db) {op : DbOp} (hplain : op.Plain)
    (hfits : op.Fits db) (heq : op.apply db = some db') : Mirrors db' := by
  have hsome : ∃ db'', op.apply db = some db'' ∧ Mirrors db'' := by
    cases op with
    | init =>
        obtain ⟨db'', heq, hmirrors, -⟩ := init_of_fits h.names hfits
        exact ⟨db'', heq, hmirrors⟩
    | add name time size => exact h.add hplain hfits
    | update name time size =>
        obtain ⟨db'', heq, hmirrors, -⟩ := h.update hplain
        exact ⟨db'', heq, hmirrors⟩
    | delAll => exact ⟨_, rfl, h.delAll⟩
  obtain ⟨db'', heq', hmirrors⟩ := hsome
  obtain rfl := Option.some.inj (heq.symm.trans heq')
  exact hmirrors

theorem Mirrors.coherentRun_iff {ops : List DbOp} (hplain : ∀ op ∈ ops, op.Plain) {db : LocalDB}
    (h : Mirrors db) : DbOp.CoherentRun db ops ↔ DbOp.FitsRun db ops := by
  induction ops generalizing db with
  | nil => exact Iff.rfl
  | cons op ops ih =>
      have hop := hplain op List.mem_cons_self
      have hops := fun o ho => hplain o (List.mem_cons_of_mem _ ho)
      refine run_step_iff (fun hfits => ?_) fun db' heq hgood =>
        (h.step_iff hop).mp ⟨db', heq, hgood⟩
      obtain ⟨db', heq, hcoherent⟩ := (h.step_iff hop).mpr hfits
      exact ⟨db', heq, hcoherent, ih hops (h.step hop hfits heq)⟩

/-- From any table with one row for a name, the records say what the table says for the whole
run exactly when every operation fits. -/
theorem localDB_coherent_iff (db : LocalDB) (ops : List DbOp)
    (hnames : (db.table.map Row.name).Nodup) (hplain : ∀ op ∈ ops, op.Plain) :
    DbOp.CoherentRun db (.init :: ops) ↔ DbOp.FitsRun db (.init :: ops) := by
  refine run_step_iff (fun hfits => ?_) fun db' heq hcoherent => fits_of_init hnames heq hcoherent
  obtain ⟨db', heq, hmirrors, -⟩ := init_of_fits hnames hfits
  exact ⟨db', heq, hmirrors.coherent, hmirrors.coherentRun_iff hplain⟩

/-- The database before the first `localDBInit` on an empty table. -/
def emptyDB : LocalDB := { table := [], records := LoopList.create maxFilesNum }

/-- The operations of a first synchronisation, and a picture that changes behind it. -/
theorem localDB_coherent_update :
    DbOp.CoherentRun emptyDB [.init, .add ['a'] 1 1, .update ['a'] 2 2, .delAll] :=
  (localDB_coherent_iff emptyDB _ List.nodup_nil (by decide)).mpr (by
    refine ⟨⟨by decide, fun _ h => nomatch h⟩, fun db' heq => ?_⟩
    obtain rfl := Option.some.inj heq
    refine ⟨.inr ⟨rfl, by decide, by decide⟩, fun db' _ =>
      ⟨trivial, fun db' _ => ⟨trivial, fun _ _ => trivial⟩⟩⟩)

/-- Added twice with other values, the file keeps the first ones in memory. -/
theorem not_localDB_coherent_twice :
    ¬ ∀ (db : LocalDB) (ops : List DbOp), (db.table.map Row.name).Nodup →
      (∀ op ∈ ops, op.Plain) → DbOp.CoherentRun db (.init :: ops) := by
  intro h
  have hplain : ∀ op ∈ [DbOp.add ['a'] 1 1, DbOp.add ['a'] 2 2], op.Plain := by decide
  obtain ⟨db, heq, -, hrun⟩ := h emptyDB _ List.nodup_nil hplain
  have hnames : (emptyDB.table.map Row.name).Nodup := List.nodup_nil
  have hfits : DbOp.init.Fits emptyDB := ⟨by decide, fun _ hrow => nomatch hrow⟩
  obtain ⟨db', heq', hmirrors, htable⟩ := init_of_fits hnames hfits
  obtain rfl := Option.some.inj (heq.symm.trans heq')
  obtain ⟨-, hrest⟩ := (hmirrors.coherentRun_iff hplain).mp hrun
  have hnone : tableEntry db.table ['a'] = none := by rw [htable]; rfl
  have hadd := (add_of_no_row faithful_meant hnone (hplain _ List.mem_cons_self)).trans
    (if_pos (by decide))
  have hfits := (hrest _ hadd).1
  rw [htable] at hfits
  have hentry : tableEntry (emptyDB.table ++ [⟨['a'], 1, 1, 0⟩]) ['a'] = some (1, 1) := rfl
  rcases hfits with hsame | ⟨hnone, -⟩
  · exact absurd (hentry.symm.trans hsame) (by decide)
  · exact nomatch hentry.symm.trans hnone

end PanelTester.FileSync
