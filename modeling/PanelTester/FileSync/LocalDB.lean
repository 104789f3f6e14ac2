import PanelTester.FileSync.LoopList
import PanelTester.Library.Decimal

/-!
The local file database of `pgLocalDB.c`: a table of SQLite and a ring of records in memory.
There is no result where a text does not fit its buffer, or a name its record. What SQLite makes
of a statement is a parameter: it does what the statement says as long as the name in it has no
quote (`Faithful`), and another text is an error or does something else.
-/

namespace PanelTester.FileSync

open Library

/-- The columns of a row of `FileInfoTable` that are read: C integers, as `%d` writes them. -/
structure Row where
  name : Str
  time : Int32
  size : Int32
  status : Int32
  deriving DecidableEq

/-- `local_file_info_t` -/
structure LocalFileInfo where
  fileName : Str
  fileTime : Int32
  fileSize : Int32
  fileStatus : Int32
  deriving DecidableEq, Inhabited

/-- The table, and `local_file_set`. -/
structure LocalDB where
  table : List Row
  records : LoopList LocalFileInfo

/-- `LOCAL_FILE_NAME_LEN` -/
def localFileNameLen : ℕ := 128

/-- `MAX_FILES_NUM` -/
def maxFilesNum : ℕ := 1000

/-! ### SQL -/

/-- The statements that are issued with a name. -/
inductive Sql
  | select (name : Str)
  | update (name : Str) (time size : Int32)
  | insert (name : Str) (time size status : Int32)

namespace Sql

def name : Sql → Str
  | select name | update name _ _ | insert name _ _ _ => name

/-- The texts of the formats. -/
def text : Sql → Str
  | select name => "SELECT * FROM 'FileInfoTable' where name='".toList ++ name ++ "' ".toList
  | update name time size =>
      "UPDATE FileInfoTable SET time=".toList ++ printDecimal time.toInt ++ ",size=".toList ++
        printDecimal size.toInt ++ " where name='".toList ++ name ++ "'".toList
  | insert name time size status =>
      "INSERT INTO FileInfoTable VALUES ('".toList ++ name ++ "', ".toList ++
        printDecimal time.toInt ++ ", ".toList ++ printDecimal size.toInt ++ ", ".toList ++
        printDecimal status.toInt ++ ", 0, 0 )".toList

/-- The text fits `sqls[256]`. -/
def Short (q : Sql) : Prop := q.text.length < 256

instance (q : Sql) : Decidable q.Short := inferInstanceAs (Decidable (_ < _))

/-- The text fits, and is the statement that is meant. -/
def Plain (q : Sql) : Prop := '\'' ∉ q.name ∧ q.Short

instance (q : Sql) : Decidable q.Plain := inferInstanceAs (Decidable (_ ∧ _))

/-- The rows that a statement leaves, and those that it selects. -/
def run (table : List Row) : Sql → List Row × List Row
  | select name => (table, table.filter (·.name = name))
  | update name time size =>
      (table.map fun row =>
        if row.name = name then { row with time := time, size := size } else row, [])
  | insert name time size status => (table ++ [⟨name, time, size, status⟩], [])

end Sql

/-- What becomes of the table with a statement, and the rows that are selected, unless there is an
error. -/
abbrev Sqlite := List Row → Sql → List Row × Option (List Row)

/-- Statements do what they say. -/
def Sqlite.meant : Sqlite := fun table q => ((q.run table).1, some (q.run table).2)

/-- A name without a quote stands in a statement as it is. -/
def Faithful (sqlite : Sqlite) : Prop :=
  ∀ table q, '\'' ∉ q.name → sqlite table q = Sqlite.meant table q

theorem faithful_meant : Faithful .meant := fun _ _ _ => rfl

/-- `sqlite3_get_table`, `sqlite3_exec`, with the text in `sqls`. -/
def Sql.exec (sqlite : Sqlite) (table : List Row) (q : Sql) :
    Option (List Row × Option (List Row)) :=
  if q.Short then some (sqlite table q) else none

/-! ### The records -/

/-- `_stringtoint` -/
def stringToInt (s : Str) : Int32 := Int32.ofInt (strtol s 0)

/-- `strcpy` into the name of a record. -/
def copyName (name : Str) : Option Str := if name.length < localFileNameLen then some name else none

/-- A row of the result of a query, as a record. -/
def loadRow (row : Row) : Option LocalFileInfo := do
  let name ← copyName row.name
  some
    { fileName := name
      fileTime := stringToInt (printDecimal row.time.toInt)
      fileSize := stringToInt (printDecimal row.size.toInt)
      fileStatus := stringToInt (printDecimal row.status.toInt) }

/-- `localDBInit` -/
def localDBInit (db : LocalDB) : Option LocalDB := do
  let records ← db.table.foldlM (fun records row => do
    let record ← loadRow row
    some (records.pushToTail record)) (LoopList.create maxFilesNum)
  some { db with records := records }

/-- `localDBAdd`; behind an error nothing else is done. -/
def localDBAdd (sqlite : Sqlite) (db : LocalDB) (name : Str) (time size : Int32) :
    Option LocalDB := do
  let (table, rows) ← Sql.exec sqlite db.table (.select name)
  match rows with
  | none => some { db with table := table }
  | some rows =>
      if rows ≠ [] then
        let (table, _) ← Sql.exec sqlite table (.update name time size)
        some { db with table := table }
      else
        let (table, inserted) ← Sql.exec sqlite table (.insert name time size 0)
        if inserted = none then some { db with table := table }
        else
          let fileName ← copyName name
          some
            { db with
              table := table
              records := db.records.pushToTail
                { fileName := fileName, fileTime := time, fileSize := size, fileStatus := 0 } }

/-- `localDBUpdate` -/
def localDBUpdate (sqlite : Sqlite) (db : LocalDB) (name : Str) (time size : Int32) :
    Option LocalDB := do
  let (table, _) ← Sql.exec sqlite db.table (.update name time size)
  some { db with table := table }

/-- `searchParternName` -/
def searchParternName (name : Str) (record : LocalFileInfo) : Bool := record.fileName = name

/-- `localDBGetRec` -/
def localDBGetRec (db : LocalDB) (name : Str) : Option LocalFileInfo :=
  db.records.search (searchParternName name)

/-- The record that `localDBGetRec` points to is changed, as `client_pg_syncFile` does it. -/
def setRec (db : LocalDB) (name : Str) (time size : Int32) : LocalDB :=
  { db with records := db.records.modify (searchParternName name) fun record =>
      { record with fileTime := time, fileSize := size } }

/-- `localDBDelAll` -/
def localDBDelAll (db : LocalDB) : LocalDB := { table := [], records := db.records.clear }

/-! ### What the operations do to the table and to the records -/

@[simp] theorem stringToInt_printDecimal (i : Int32) : stringToInt (printDecimal i.toInt) = i := by
  rw [stringToInt, strtol_printDecimal i.le_toInt i.toInt_lt, Int32.ofInt_toInt]

theorem exec_of_plain {sqlite : Sqlite} {table : List Row} {q : Sql} (hsqlite : Faithful sqlite)
    (h : q.Plain) : q.exec sqlite table = some ((q.run table).1, some (q.run table).2) :=
  (if_pos h.2).trans (congrArg some (hsqlite table q h.1))

theorem length_select (name : Str) : (Sql.select name).text.length = 44 + name.length := by
  show ("SELECT * FROM 'FileInfoTable' where name='".toList ++ name ++ "' ".toList).length = _
  rw [List.length_append, List.length_append,
    show "SELECT * FROM 'FileInfoTable' where name='".toList.length = 42 from rfl,
    show "' ".toList.length = 2 from rfl]
  omega

theorem length_update (name : Str) (time size : Int32) : (Sql.update name time size).text.length =
    50 + name.length + (printDecimal time.toInt).length + (printDecimal size.toInt).length := by
  show ("UPDATE FileInfoTable SET time=".toList ++ printDecimal time.toInt ++ ",size=".toList ++
    printDecimal size.toInt ++ " where name='".toList ++ name ++ "'".toList).length = _
  simp only [List.length_append]
  rw [show "UPDATE FileInfoTable SET time=".toList.length = 30 from rfl,
    show ",size=".toList.length = 6 from rfl, show " where name='".toList.length = 13 from rfl,
    show "'".toList.length = 1 from rfl]
  omega

theorem length_insert (name : Str) (time size : Int32) :
    (Sql.insert name time size 0).text.length =
      51 + name.length + (printDecimal time.toInt).length + (printDecimal size.toInt).length := by
  show ("INSERT INTO FileInfoTable VALUES ('".toList ++ name ++ "', ".toList ++
    printDecimal time.toInt ++ ", ".toList ++ printDecimal size.toInt ++ ", ".toList ++
    printDecimal (0 : Int32).toInt ++ ", 0, 0 )".toList).length = _
  simp only [List.length_append]
  rw [show "INSERT INTO FileInfoTable VALUES ('".toList.length = 35 from rfl,
    show "', ".toList.length = 3 from rfl, show ", ".toList.length = 2 from rfl,
    show ", 0, 0 )".toList.length = 8 from rfl,
    show (printDecimal (0 : Int32).toInt).length = 1 from rfl]
  omega

end PanelTester.FileSync
