import PanelTester.FileSync.BufferSafety

/-!
What storing a file does to the database. The records are always the last rows of the table
(`Follows`): a new row pushes the first record out once there are as many records as the ring
holds, and a row whose record is gone is changed in the table alone.
-/

namespace PanelTester.FileSync

open Library

/-! ### Statements that fit -/

/-- A name that the database can take. -/
def NameFits (name : Str) : Prop := '\'' ∉ name ∧ name.length < localFileNameLen

instance (name : Str) : Decidable (NameFits name) := inferInstanceAs (Decidable (_ ∧ _))

theorem NameFits.plain {name : Str} (h : NameFits name) (time size : Int32) :
    (DbOp.add name time size).Plain := by
  obtain ⟨hquote, hshort⟩ := h
  have hshort : name.length < 128 := hshort
  have htime := length_printDecimal_int32 time
  have hsize := length_printDecimal_int32 size
  refine ⟨⟨hquote, ?_⟩, ⟨hquote, ?_⟩, ⟨hquote, ?_⟩⟩
  · rw [Sql.Short, length_select]
    omega
  · rw [Sql.Short, length_update]
    omega
  · rw [Sql.Short, length_insert]
    omega

/-! ### The table -/

section

variable {table : List Row} {name n : Str} {time size : Int32}

/-- The table once a file is stored. -/
def stored (table : List Row) (name : Str) (time size : Int32) : List Row :=
  if tableEntry table name = none then table ++ [⟨name, time, size, 0⟩]
  else ((Sql.update name time size).run table).1

theorem stored_of_none (h : tableEntry table name = none) :
    stored table name time size = table ++ [⟨name, time, size, 0⟩] := if_pos h

theorem stored_of_some (h : tableEntry table name ≠ none) :
    stored table name time size = ((Sql.update name time size).run table).1 := if_neg h

theorem names_stored : (stored table name time size).map Row.name =
    if tableEntry table name = none then table.map Row.name ++ [name] else table.map Row.name := by
  by_cases h : tableEntry table name = none
  · rw [stored_of_none h, if_pos h, List.map_append]
    rfl
  · rw [stored_of_some h, if_neg h, run_update_names]

theorem length_stored : (stored table name time size).length =
    if tableEntry table name = none then table.length + 1 else table.length := by
  have hnames : ((stored table name time size).map Row.name).length = _ :=
    congrArg List.length names_stored
  rw [List.length_map] at hnames
  rw [hnames]
  split
  · rw [List.length_append, List.length_map]
    rfl
  · rw [List.length_map]

/-- What was stored is in the table. -/
theorem tableEntry_stored : tableEntry (stored table name time size) name = some (time, size) := by
  cases h : tableEntry table name with
  | none =>
      have hnone : table.find? (·.name = name) = none := Option.map_eq_none_iff.mp h
      rw [stored_of_none h, tableEntry, List.find?_append, hnone]
      simp
  | some e =>
      rw [stored_of_some (by simp [h])]
      exact tableEntry_update h

/-- A statement leaves the entries of other names. -/
theorem tableEntry_run_of_ne {q : Sql} (h : n ≠ q.name) :
    tableEntry (q.run table).1 n = tableEntry table n := by
  cases q with
  | select name => rfl
  | insert name time size status =>
      show tableEntry (table ++ [⟨name, time, size, status⟩]) n = _
      rw [tableEntry, tableEntry, List.find?_append]
      have hlast : [(⟨name, time, size, status⟩ : Row)].find? (·.name = n) = none := by
        have h : n ≠ name := h
        simpa using h.symm
      rw [hlast, Option.or_none]
  | update name time size =>
      have h : n ≠ name := h
      rw [tableEntry_eq, tableEntry_eq, run_update_entry, List.find?_map]
      have hsame : ((fun e : Str × Int32 × Int32 => decide (e.1 = n)) ∘ fun e =>
          if e.1 = name then (e.1, time, size) else e) = fun e => decide (e.1 = n) := by
        funext e
        by_cases hname : e.1 = name <;> simp [hname]
      rw [hsame]
      cases hfind : (table.map Row.entry).find? (·.1 = n) with
      | none => rfl
      | some e =>
          have hname : e.1 = n := by simpa using List.find?_some hfind
          have hne : e.1 ≠ name := hname ▸ h
          simp [hne]

theorem tableEntry_stored_of_ne (h : n ≠ name) :
    tableEntry (stored table name time size) n = tableEntry table n := by
  by_cases hnone : tableEntry table name = none
  · rw [stored_of_none hnone]
    exact tableEntry_run_of_ne (q := .insert name time size 0) h
  · rw [stored_of_some hnone]
    exact tableEntry_run_of_ne (q := .update name time size) h

end

/-! ### Statements with a quote -/

/-- SQLite where a name with a quote makes every statement an error. -/
def Sqlite.refusing : Sqlite := fun table q =>
  if '\'' ∈ q.name then (table, none) else Sqlite.meant table q

theorem faithful_refusing : Faithful .refusing := fun _ _ h => if_neg h

section

variable {db db' : LocalDB} {table table' : List Row} {rows : Option (List Row)} {q : Sql}
  {name n : Str} {time size : Int32}

/-- The entry of a name with a quote is left as it is. -/
theorem tableEntry_refusing (hn : '\'' ∈ n) (h : q.exec .refusing table = some (table', rows)) :
    tableEntry table' n = tableEntry table n := by
  obtain ⟨-, h⟩ := Option.ite_none_right_eq_some.mp h
  have htable : (Sqlite.refusing table q).1 = table' := congrArg Prod.fst (Option.some.inj h)
  rw [← htable, Sqlite.refusing]
  split
  case isTrue => rfl
  case isFalse hquote => exact tableEntry_run_of_ne fun heq => hquote (heq ▸ hn)

theorem tableEntry_localDBUpdate (hn : '\'' ∈ n)
    (h : localDBUpdate .refusing db name time size = some db') :
    tableEntry db'.table n = tableEntry db.table n := by
  obtain ⟨⟨table, rows⟩, hexec, h⟩ := Option.bind_eq_some_iff.mp h
  obtain rfl := Option.some.inj h
  exact tableEntry_refusing hn hexec

theorem tableEntry_localDBAdd (hn : '\'' ∈ n)
    (h : localDBAdd .refusing db name time size = some db') :
    tableEntry db'.table n = tableEntry db.table n := by
  obtain ⟨⟨table, rows⟩, hexec, h⟩ := Option.bind_eq_some_iff.mp h
  have hselect := tableEntry_refusing hn hexec
  clear hexec
  cases rows with
  | none =>
      obtain rfl := Option.some.inj h
      exact hselect
  | some rows =>
      simp only at h
      split at h
      case isTrue =>
        obtain ⟨⟨table', rows'⟩, hupdate, h⟩ := Option.bind_eq_some_iff.mp h
        obtain rfl := Option.some.inj h
        exact (tableEntry_refusing hn hupdate).trans hselect
      case isFalse =>
        obtain ⟨⟨table', inserted⟩, hinsert, h⟩ := Option.bind_eq_some_iff.mp h
        have hinsert := (tableEntry_refusing hn hinsert).trans hselect
        simp only at h
        split at h
        case isTrue =>
          obtain rfl := Option.some.inj h
          exact hinsert
        case isFalse =>
          obtain ⟨fileName, -, h⟩ := Option.bind_eq_some_iff.mp h
          obtain rfl := Option.some.inj h
          exact hinsert

theorem tableEntry_placeFile {f : RecvFileInfo} {parsed : Option ℤ} (hn : '\'' ∈ n)
    (h : placeFile .refusing db f parsed = some db') :
    tableEntry db'.table n = tableEntry db.table n := by
  obtain ⟨path, -, h⟩ := Option.bind_eq_some_iff.mp h
  obtain ⟨u, -, h⟩ := Option.bind_eq_some_iff.mp h
  rw [storeFile] at h
  split at h
  · have hset := tableEntry_localDBUpdate hn h
    exact hset
  · exact tableEntry_localDBAdd hn h

end

/-! ### Rows and records -/

/-- With one entry for a name, it is the one that is found. -/
theorem find?_entry_iff {entries : List (Str × Int32 × Int32)} (h : (entries.map Prod.fst).Nodup)
    {name : Str} {values : Int32 × Int32} :
    (entries.find? (·.1 = name)).map Prod.snd = some values ↔ (name, values) ∈ entries := by
  constructor
  · intro heq
    obtain ⟨e, he, rfl⟩ := Option.map_eq_some_iff.mp heq
    have hname : e.1 = name := by simpa using List.find?_some he
    rw [← hname]
    exact List.mem_of_find?_eq_some he
  · intro hmem
    induction entries with
    | nil => cases hmem
    | cons e entries ih =>
        rw [List.map_cons, List.nodup_cons] at h
        rw [List.find?_cons]
        rcases List.mem_cons.mp hmem with rfl | hmem
        · simp
        · have hne : e.1 ≠ name := fun heq => h.1 (heq ▸ List.mem_map_of_mem hmem)
          simp only [hne, decide_false]
          exact ih h.2 hmem

/-! ### The last rows -/

/-- The entries of the last rows, as many as the ring holds. -/
def lastRows (table : List Row) : List (Str × Int32 × Int32) :=
  (table.map Row.entry).drop (table.length + 1 - maxFilesNum)

/-- The records are the last rows, and every name fits. -/
structure Follows (db : LocalDB) : Prop where
  valid : db.records.Valid
  size : db.records.size = maxFilesNum
  names : (db.table.map Row.name).Nodup
  short : ∀ row ∈ db.table, row.name.length < localFileNameLen
  rows : db.records.contents.map LocalFileInfo.entry = lastRows db.table

theorem Mirrors.follows {db : LocalDB} (h : Mirrors db)
    (hshort : ∀ row ∈ db.table, row.name.length < localFileNameLen) : Follows db where
  valid := h.valid
  size := h.size
  names := h.names
  short := hshort
  rows := by
    have hlt := h.valid.length_lt
    rw [h.length, h.size] at hlt
    rw [h.rows, lastRows, show db.table.length + 1 - maxFilesNum = 0 by omega, List.drop_zero]

namespace Follows

variable {sqlite : Sqlite} {db : LocalDB} {name : Str} {time size : Int32}

theorem nodup_entries (h : Follows db) : ((db.table.map Row.entry).map Prod.fst).Nodup := by
  rw [List.map_map]
  exact h.names

theorem nodup_lastRows (h : Follows db) : ((lastRows db.table).map Prod.fst).Nodup := by
  rw [lastRows, List.map_drop]
  exact h.nodup_entries.sublist (List.drop_sublist _ _)

theorem tableEntry_iff (h : Follows db) :
    tableEntry db.table name = some (time, size) ↔ (name, time, size) ∈ db.table.map Row.entry := by
  rw [tableEntry_eq]
  exact find?_entry_iff h.nodup_entries

theorem recordEntry_eq (h : Follows db) :
    recordEntry db.records.contents name = ((lastRows db.table).find? (·.1 = name)).map Prod.snd :=
  find?_entry _ name _ h.rows

/-- A file is found when its row is among the last ones, with its values. -/
theorem findFile_iff (h : Follows db) :
    findFileFromLocalDB db name size time = true ↔ (name, time, size) ∈ lastRows db.table := by
  rw [← find?_entry_iff h.nodup_lastRows, ← h.recordEntry_eq, findFileFromLocalDB, localDBGetRec,
    h.valid.search_eq, recordEntry]
  cases db.records.contents.find? (searchParternName name) with
  | none => simp
  | some record => simp

/-- The row of a file is among the last ones. -/
theorem mem_lastRows_iff (h : Follows db) :
    (name, time, size) ∈ lastRows db.table ↔
      tableEntry db.table name = some (time, size) ∧
        ∀ i, (db.table.map Row.name)[i]? = some name → db.table.length < maxFilesNum + i := by
  have hnames : db.table.map Row.name = (db.table.map Row.entry).map Prod.fst := by
    rw [List.map_map]
    rfl
  rw [h.tableEntry_iff, lastRows, List.mem_iff_getElem?, List.mem_iff_getElem?]
  constructor
  · rintro ⟨j, hj⟩
    rw [List.getElem?_drop] at hj
    refine ⟨⟨_, hj⟩, ?_⟩
    intro i hi
    have hsame : (db.table.map Row.name)[db.table.length + 1 - maxFilesNum + j]? = some name := by
      rw [hnames, List.getElem?_map, hj]
      rfl
    have hlt := (List.getElem?_eq_some_iff.mp hi).1
    have heq := (List.getElem?_inj hlt h.names).mp (hi.trans hsame.symm)
    omega
  · rintro ⟨⟨i, hi⟩, hlast⟩
    have hroom := hlast i (by rw [hnames, List.getElem?_map, hi]; rfl)
    refine ⟨i - (db.table.length + 1 - maxFilesNum), ?_⟩
    rw [List.getElem?_drop, show db.table.length + 1 - maxFilesNum +
      (i - (db.table.length + 1 - maxFilesNum)) = i by omega]
    exact hi

/-- Where a row is, its name is among the names. -/
theorem tableEntry_ne_none (hmem : (name, time, size) ∈ lastRows db.table) :
    tableEntry db.table name ≠ none := by
  intro hnone
  obtain ⟨row, hrow, hentry⟩ := List.mem_map.mp (List.mem_of_mem_drop hmem)
  exact tableEntry_eq_none.mp hnone row hrow (congrArg Prod.fst hentry)

theorem short_stored (h : Follows db) (hname : name.length < localFileNameLen) (time size : Int32) :
    ∀ row ∈ stored db.table name time size, row.name.length < localFileNameLen := by
  intro row hrow
  have hmem : row.name ∈ (stored db.table name time size).map Row.name := List.mem_map_of_mem hrow
  have hold : ∀ n ∈ db.table.map Row.name, n.length < localFileNameLen := fun n hn => by
    obtain ⟨r, hr, rfl⟩ := List.mem_map.mp hn
    exact h.short r hr
  rw [names_stored] at hmem
  split at hmem
  · rcases List.mem_append.mp hmem with hmem | hmem
    · exact hold _ hmem
    · rwa [List.mem_singleton.mp hmem]
  · exact hold _ hmem

theorem nodup_stored (h : Follows db) (name : Str) (time size : Int32) :
    ((stored db.table name time size).map Row.name).Nodup := by
  rw [names_stored]
  split
  case isTrue hnone =>
    refine List.nodup_append'.mpr ⟨h.names, List.nodup_singleton _, ?_⟩
    intro n hn hmem
    obtain ⟨row, hrow, rfl⟩ := List.mem_map.mp hn
    exact tableEntry_eq_none.mp hnone row hrow (List.mem_singleton.mp hmem)
  case isFalse => exact h.names

/-- What an update does to the last rows. -/
theorem lastRows_update : lastRows ((Sql.update name time size).run db.table).1 =
    (lastRows db.table).map fun e => if e.1 = name then (e.1, time, size) else e := by
  have hlength : ((Sql.update name time size).run db.table).1.length = db.table.length :=
    List.length_map _
  rw [lastRows, lastRows, run_update_entry, hlength, List.map_drop]

/-- The record of a file is changed with its row. -/
theorem pairwise (h : Follows db) (name : Str) : db.records.contents.Pairwise fun a b =>
    ¬ (searchParternName name a = true ∧ searchParternName name b = true) := by
  have hnodup := h.nodup_lastRows
  rw [← h.rows, List.map_map, List.Nodup, List.pairwise_map] at hnodup
  refine hnodup.imp fun hne hboth => hne ?_
  simp only [searchParternName, decide_eq_true_eq] at hboth
  exact hboth.1.trans hboth.2.symm

theorem setRec_update (h : Follows db) (hsqlite : Faithful sqlite) (hname : NameFits name)
    (hrow : tableEntry db.table name ≠ none) :
    ∃ db', localDBUpdate sqlite (setRec db name time size) name time size = some db' ∧ Follows db' ∧
      db'.table = stored db.table name time size := by
  have hplain := (hname.plain time size).2.1
  have hstored : stored db.table name time size = _ := stored_of_some hrow
  refine ⟨{ setRec db name time size with table := stored db.table name time size }, ?_, ?_, rfl⟩
  · rw [localDBUpdate, exec_of_plain hsqlite hplain, hstored]
    rfl
  constructor
  case valid => exact h.valid.modify _ _
  case size =>
    show (LoopList.modify ..).size = _
    rw [LoopList.modify]
    split <;> exact h.size
  case names => exact h.nodup_stored _ _ _
  case short => exact h.short_stored hname.2 _ _
  case rows =>
    show (LoopList.modify ..).contents.map _ = lastRows (stored db.table name time size)
    rw [h.valid.contents_modify, modify_findIdx? (h.pairwise name), hstored,
      lastRows_update, ← h.rows,
      List.map_map, List.map_map]
    apply List.map_congr_left
    intro record _
    by_cases hsame : record.fileName = name <;> simp [searchParternName, LocalFileInfo.entry, hsame]

/-- The row of a file whose record is gone is changed alone. -/
theorem add_row (h : Follows db) (hsqlite : Faithful sqlite) (hname : NameFits name)
    (hrecord : recordEntry db.records.contents name = none)
    (hrow : tableEntry db.table name ≠ none) :
    ∃ db', localDBAdd sqlite db name time size = some db' ∧ Follows db' ∧
      db'.table = stored db.table name time size := by
  obtain ⟨e, he⟩ := Option.ne_none_iff_exists'.mp hrow
  have hstored : stored db.table name time size = _ := stored_of_some hrow
  refine ⟨{ db with table := stored db.table name time size }, ?_, ?_, rfl⟩
  · rw [add_of_row hsqlite he (hname.plain time size), hstored]
  refine ⟨h.valid, h.size, h.nodup_stored _ _ _, h.short_stored hname.2 _ _, ?_⟩
  show _ = lastRows (stored db.table name time size)
  rw [h.recordEntry_eq, Option.map_eq_none_iff, List.find?_eq_none] at hrecord
  rw [hstored, lastRows_update, h.rows]
  refine (List.map_id' _).symm.trans (List.map_congr_left fun e he => ?_)
  rw [if_neg (by simpa using hrecord e he)]

/-- A new file gets a record. -/
theorem add_new (h : Follows db) (hsqlite : Faithful sqlite) (hname : NameFits name)
    (hrow : tableEntry db.table name = none) :
    ∃ db', localDBAdd sqlite db name time size = some db' ∧ Follows db' ∧
      db'.table = stored db.table name time size := by
  have hstored : stored db.table name time size = _ := stored_of_none hrow
  have hadd := (add_of_no_row hsqlite hrow (hname.plain time size)).trans (if_pos hname.2)
  refine ⟨_, hadd, ?_, hstored.symm⟩
  constructor
  case valid => exact h.valid.pushToTail _
  case size => exact h.size
  case names => exact hstored ▸ h.nodup_stored name time size
  case short => exact hstored ▸ h.short_stored hname.2 time size
  case rows =>
    have hlength := congrArg List.length h.rows
    rw [List.length_map, h.valid.length_contents, lastRows, List.length_drop, List.length_map]
      at hlength
    have hsize := h.size
    have hmax : 1 < maxFilesNum := by decide
    have hfirst : db.table.length + 1 - maxFilesNum ≤ (db.table.map Row.entry).length := by
      rw [List.length_map]
      omega
    show (db.records.pushToTail _).contents.map _ = lastRows (db.table ++ [_])
    rw [contents_push h.valid, List.map_drop, List.map_append, h.rows, lastRows, lastRows,
      List.map_append, List.length_append, List.length_singleton,
      ← List.drop_append_of_le_length hfirst, List.drop_drop]
    exact congrArg (fun n => List.drop n _) (by omega)

/-- A file is stored when its name fits. -/
theorem store {f : RecvFileInfo} (h : Follows db) (hsqlite : Faithful sqlite)
    (hname : NameFits f.rfiName) : ∃ db', storeFile sqlite db f = some db' ∧ Follows db' ∧
      db'.table = stored db.table f.rfiName f.rfiTime f.rfiSize := by
  rw [storeFile]
  have hentry : (localDBGetRec db f.rfiName).map (fun r => (r.fileTime, r.fileSize)) =
      recordEntry db.records.contents f.rfiName := by
    rw [localDBGetRec, h.valid.search_eq, recordEntry]
  cases hrec : localDBGetRec db f.rfiName with
  | some record =>
      apply h.setRec_update hsqlite hname
      rw [hrec, h.recordEntry_eq] at hentry
      exact tableEntry_ne_none ((find?_entry_iff h.nodup_lastRows).mp hentry.symm)
  | none =>
      rw [hrec] at hentry
      by_cases hrow : tableEntry db.table f.rfiName = none
      · exact h.add_new hsqlite hname hrow
      · exact h.add_row hsqlite hname hentry.symm hrow

/-- A file that is placed with its picture. -/
theorem place {f : RecvFileInfo} {parsed : Option ℤ} (h : Follows db) (hsqlite : Faithful sqlite)
    (hname : NameFits f.rfiName) (hptn : PtnFits (dstFile f) parsed) :
    ∃ db', placeFile sqlite db f parsed = some db' ∧ Follows db' ∧
      db'.table = stored db.table f.rfiName f.rfiTime f.rfiSize := by
  obtain ⟨db', hstore, hfollows, htable⟩ := h.store hsqlite hname
  obtain ⟨db'', hplace⟩ := RecvState.placeFile_iff.mpr
    ⟨hptn, RecvState.storeFile_iff.mp ⟨db', hstore⟩⟩
  obtain ⟨path, -, heq⟩ := Option.bind_eq_some_iff.mp hplace
  obtain ⟨u, -, heq⟩ := Option.bind_eq_some_iff.mp heq
  obtain rfl := Option.some.inj (hstore.symm.trans heq)
  exact ⟨db', hplace, hfollows, htable⟩

/-- A file that is stored has a name that fits, if there is no quote in it. -/
theorem short_of_storable {f : RecvFileInfo} (h : Follows db) (hsqlite : Faithful sqlite)
    (hquote : '\'' ∉ f.rfiName) (hstorable : Storable sqlite db f) :
    f.rfiName.length < localFileNameLen := by
  have hshort : ∀ row ∈ db.table, row.name = f.rfiName → f.rfiName.length < localFileNameLen :=
    fun row hrow hname => hname ▸ h.short row hrow
  rw [Storable] at hstorable
  split at hstorable
  case isTrue hrec =>
    obtain ⟨record, hrecord⟩ := Option.ne_none_iff_exists'.mp hrec
    have hentry : recordEntry db.records.contents f.rfiName =
        some (record.fileTime, record.fileSize) := by
      rw [recordEntry, ← h.valid.search_eq, ← localDBGetRec, hrecord]
      rfl
    rw [h.recordEntry_eq] at hentry
    have hne := tableEntry_ne_none ((find?_entry_iff h.nodup_lastRows).mp hentry)
    obtain ⟨row, hrow, hname⟩ : ∃ row ∈ db.table, row.name = f.rfiName := by
      by_contra hno
      exact hne (tableEntry_eq_none.mpr fun row hrow hname => hno ⟨row, hrow, hname⟩)
    exact hshort row hrow hname
  case isFalse =>
    have hrest := hstorable.2 db.table _ (hsqlite db.table (.select f.rfiName) hquote)
    split at hrest
    case isTrue hrows =>
      obtain ⟨row, hrow⟩ := List.exists_mem_of_ne_nil _ hrows
      obtain ⟨hrow, hname⟩ := List.mem_filter.mp hrow
      exact hshort row hrow (of_decide_eq_true hname)
    case isFalse =>
      refine hrest.2 ?_
      rw [hsqlite db.table (.insert f.rfiName f.rfiTime f.rfiSize 0) hquote]
      exact Option.some_ne_none _

end Follows

end PanelTester.FileSync
