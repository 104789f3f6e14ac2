import PanelTester.Ini.Dictionary
import PanelTester.Library.Scan
import PanelTester.Library.StringArray

/-!
The parser of the ini files. A line is classified by `iniparser_line`, with five formats of `sscanf`
tried one after the other for a value; `iniparser_load` puts sections and values into a dictionary,
line by line, a line that ends with a backslash going on in the next. `iniparser_dump_ini` writes
a dictionary as a file again, section by section. Behind the model stand the lemmas on one line
(`iniparserLine_section`, `iniparserLine_member`) and on one turn of the loop (`loadLoop_line`).
-/

namespace PanelTester.Ini

open Library

/-- `ASCIILINESZ` -/
def asciiLineSz : ℕ := 1024 * 4

/-- `strlwc`, which copies to an array of its own. -/
def strlwc (s : Str) : Str := (s.take asciiLineSz).map Char.toLower

/-- `strstrip`, which copies to an array of its own; a line fits it. -/
def strstrip (s : Str) : Str := strip s

/-! ### A line -/

/-- `line_status`, with what was written to the arrays. -/
inductive LineStatus
  | lineError
  | lineEmpty
  | lineComment
  | lineSection (name : Str)
  | lineValue (key value : Str)
  deriving DecidableEq, Repr

/-- The format `%[^=] = `: the key, and what stands behind. -/
def scanKey (line : Str) : Option (Str × Str) :=
  (scanset (· ≠ '=') line).bind fun r =>
    match r.2.dropWhile isSpace with
    | '=' :: s => some (r.1, s.dropWhile isSpace)
    | _ => none

/-- The format `%[^=] = "%[^"]"`, with the quotes a parameter. -/
def scanQuoted (quote : Char) (line : Str) : Option (Str × Str) :=
  (scanKey line).bind fun r =>
    match r.2 with
    | [] => none
    | c :: s =>
        if c = quote then (scanset (· ≠ quote) s).map fun v => (r.1, v.1) else none

/-- The format `%[^=] = %[^;#]`. -/
def scanPlain (line : Str) : Option (Str × Str) :=
  (scanKey line).bind fun r => (scanset (fun c => c ≠ ';' && c ≠ '#') r.2).map fun v => (r.1, v.1)

/-- The format `%[^=] = %[;#]`. -/
def scanComment (line : Str) : Option Str :=
  (scanKey line).bind fun r => (scanset (fun c => c = ';' || c = '#') r.2).map fun _ => r.1

/-- The format `%[^=] %[=]`. -/
def scanBare (line : Str) : Option Str :=
  (scanset (· ≠ '=') line).bind fun r =>
    (scanset (· = '=') (r.2.dropWhile isSpace)).map fun _ => r.1

/-- `iniparser_line`. The array `section` holds the name of the section before, which stays there
where the brackets are empty. -/
def iniparserLine (sectionName inputLine : Str) : LineStatus :=
  let line := strstrip inputLine
  if line = [] then .lineEmpty
  else if line.head? = some '#' then .lineComment
  else if line.head? = some '[' ∧ line.getLast? = some ']' then
    .lineSection (strlwc (strstrip (((scanset (· ≠ ']') line.tail).map Prod.fst).getD sectionName)))
  else
    match ((scanQuoted '"' line).or (scanQuoted '\'' line)).or (scanPlain line) with
    | some (key, value) =>
        let value := strstrip value
        .lineValue (strlwc (strstrip key))
          (if value = ['"', '"'] ∨ value = ['\'', '\''] then [] else value)
    | none =>
        match (scanComment line).or (scanBare line) with
        | some key => .lineValue (strlwc (strstrip key)) []
        | none => .lineError

/-! ### Loading -/

/-- The variables of `iniparser_load` between two turns: the first `last` characters of the array
`line` are kept. -/
structure Load where
  dict : Dictionary
  sectionName : Str
  kept : Str
  errs : ℤ

/-- What became of a turn. -/
inductive Turn
  | outside
  | null
  | next (load : Load)

/-- The dictionary gets a key; `errs` is what `dictionary_set` returns. -/
def Load.store (l : Load) (sectionName key : Str) (val : Option Str) : Turn :=
  match dictionarySet l.dict (some key) val with
  | none => .outside
  | some (errs, dict) => .next ⟨dict, sectionName, [], errs⟩

/-- What is done with a line, and the end of the turn. -/
def Load.put (l : Load) : LineStatus → Turn
  | .lineEmpty => .next { l with kept := [] }
  | .lineComment => .next { l with kept := [] }
  | .lineSection name => l.store name name none
  | .lineValue key val =>
      match strcpy (asciiLineSz + 1) (l.sectionName ++ ':' :: key) with
      | none => .outside
      | some tmp => l.store l.sectionName tmp (some val)
  | .lineError => .next { l with kept := [], errs := l.errs + 1 }

/-- A turn of the loop, with what `fgets` read behind the characters kept. A blank line makes it
look at the byte in front of the array `line`: `front`, or nothing where that counts as leaving the
array. -/
def loadTurn (front : Option Char) (l : Load) (got : Str) : Turn :=
  let line := untilNul (l.kept ++ got)
  match line.getLast?.or front with
  | none => .outside
  | some c =>
      if c ≠ '\n' then .null
      else
        let line := line.rdropWhile isSpace
        match line.getLast?.or front with
        | none => .outside
        | some c =>
            if c = '\\' then
              if line = [] then .outside else .next { l with kept := line.dropLast }
            else l.put (iniparserLine l.sectionName line)

/-- The loop of `iniparser_load`; no result where it leaves its arrays. -/
def loadLoop (front : Option Char) : ℕ → Load → Str → Option (Option Dictionary)
  | 0, _, _ => none
  | fuel + 1, l, file =>
      match fgets (asciiLineSz - l.kept.length) file with
      | none => some (if l.errs ≠ 0 then none else some l.dict)
      | some (got, rest) =>
          match loadTurn front l got with
          | .outside => none
          | .null => some none
          | .next l => if l.errs < 0 then some none else loadLoop front fuel l rest

/-- The variables when the loop is entered. -/
def Load.start : Load := ⟨dictionaryNew 0, [], [], 0⟩

/-- `iniparser_load`, of a file that may be missing. -/
def iniparserLoad (front : Option Char) (file : Option Str) : Option (Option Dictionary) :=
  match file with
  | none => some none
  | some file => loadLoop front (file.length + 1) .start file

/-! ### Sections and entries -/

/-- `iniparser_getnsec` -/
def iniparserGetnsec (d : Dictionary) : ℕ :=
  d.slots.countP fun s => s.key.any fun key => ':' ∉ key

/-- The loop of `iniparser_getsecname`. -/
def secnameLoop (n : ℕ) : ℕ → List Slot → Option Str
  | _, [] => none
  | foundsec, s :: slots =>
      match s.key with
      | none => secnameLoop n foundsec slots
      | some key =>
          if ':' ∈ key then secnameLoop n foundsec slots
          else if n < foundsec + 1 then some key
          else secnameLoop n (foundsec + 1) slots

/-- `iniparser_getsecname` -/
def iniparserGetsecname (d : Dictionary) (n : ℕ) : Option Str := secnameLoop n 0 d.slots

/-- `iniparser_getstring`, with a default that may be a null pointer. -/
def iniparserGetstring (d : Dictionary) (key : Str) (default : Option Str) : Option Str :=
  (dictionaryGet d (strlwc key)).getD default

/-- `iniparser_getint`; no result where a null pointer is read. -/
def iniparserGetint (d : Dictionary) (key : Str) (notfound : ℤ) : Option ℤ :=
  match dictionaryGet d (strlwc key) with
  | none => some notfound
  | some val => val.map fun str => strtol str 0

/-- `iniparser_set` -/
def iniparserSet (d : Dictionary) (entry : Str) (val : Option Str) : Option (ℤ × Dictionary) :=
  dictionarySet d (some (strlwc entry)) val

/-! ### Dumping -/

/-- What is written to the file, and whether the file is closed. -/
structure Dump where
  text : Str
  closed : Bool
  deriving DecidableEq, Repr

/-- What the file holds in the end. Nothing is promised of a file that is left open. -/
def Dump.contents (dump : Dump) : Option Str := if dump.closed then some dump.text else none

/-- The end of a line as it is written. -/
def crlf : Str := ['\r', '\n']

/-- A string printed by `%-30s`. -/
def padded (s : Str) : Str := s ++ List.replicate (30 - s.length) ' '

/-- What is written for a slot under a section; `keym` is the name of the section with the
colon. -/
def dumpSlot (seclen : ℕ) (keym : Str) (s : Slot) : Str :=
  match s.key with
  | none => []
  | some key =>
      if keym <+: key then padded (key.drop (seclen + 1)) ++ '=' :: (s.val.getD [] ++ crlf)
      else []

/-- The lines of a section. -/
def dumpSection (d : Dictionary) (secname : Str) : Option Str :=
  (strcpy (asciiLineSz + 1) (secname ++ [':'])).map fun keym =>
    crlf ++ '[' :: (secname ++ ']' :: crlf) ++ d.slots.flatMap (dumpSlot secname.length keym)

/-- `iniparser_dump_ini`; a dictionary without sections is written as it is, and the file is left
open. A null pointer is printed as `(null)`. -/
def iniparserDumpIni (d : Dictionary) : Option Dump :=
  if iniparserGetnsec d < 1 then
    some ⟨d.slots.flatMap fun s =>
      match s.key with
      | none => []
      | some key => key ++ '=' :: (s.val.getD "(null)".toList ++ crlf), false⟩
  else
    (((List.range (iniparserGetnsec d)).map (iniparserGetsecname d)).mapM
      fun secname : Option Str => secname.bind (dumpSection d)).map fun sections =>
        ⟨sections.flatten ++ crlf, true⟩

/-! ### Lines that are read back -/

/-- What is read as it was written, up to the length of the arrays. -/
structure Name (s : Str) : Prop where
  ne_nil : s ≠ []
  trimmed : Trimmed s
  lower : s.map Char.toLower = s

/-- A name of a section. -/
structure SectionName (s : Str) : Prop extends Name s where
  plain : ∀ c ∈ s, c ≠ ']' ∧ c ≠ ':' ∧ c ≠ '\n' ∧ c ≠ nul

/-- A key of a section. -/
structure KeyName (s : Str) : Prop extends Name s where
  plain : ∀ c ∈ s, c ≠ '=' ∧ c ≠ '\n' ∧ c ≠ nul
  head : ∀ c ∈ s.head?, c ≠ '#' ∧ c ≠ '['

/-- A value of a key. -/
structure PlainValue (s : Str) : Prop where
  trimmed : Trimmed s
  plain : ∀ c ∈ s, c ≠ ';' ∧ c ≠ '#' ∧ c ≠ '\n' ∧ c ≠ nul
  head : ∀ c ∈ s.head?, c ≠ '"' ∧ c ≠ '\''
  last : ∀ c ∈ s.getLast?, c ≠ '\\'

section

variable {s key val : Str}

theorem Name.strlwc_eq (h : Name s) (hlen : s.length ≤ asciiLineSz) : strlwc s = s := by
  rw [strlwc, List.take_of_length_le hlen, h.lower]

theorem iniparserLine_section (h : SectionName s) (hlen : s.length ≤ asciiLineSz)
    (sectionName : Str) : iniparserLine sectionName ('[' :: (s ++ [']'])) = .lineSection s := by
  have hline : Trimmed ('[' :: (s ++ [']'])) := by
    refine ⟨?_, ?_⟩
    · simp [isSpace]
    · rw [← List.cons_append, List.getLast?_concat]
      simp [isSpace]
  have hscan : scanset (· ≠ ']') (s ++ [']']) = some (s, [']']) := by
    apply scanset_append h.ne_nil
    · intro c hc
      exact decide_eq_true (h.plain c hc).1
    · simp
  have hlast : ('[' :: (s ++ [']'])).getLast? = some ']' := by
    rw [← List.cons_append, List.getLast?_concat]
  rw [iniparserLine, strstrip, hline.strip_eq, if_neg (List.cons_ne_nil _ _),
    if_neg (by simp), if_pos ⟨rfl, hlast⟩, List.tail_cons, hscan]
  show LineStatus.lineSection (strlwc (strip s)) = _
  rw [h.trimmed.strip_eq, h.strlwc_eq hlen]

/-- The line of a key with its value, the key with blanks behind it. -/
def memberLine (key : Str) (blanks : ℕ) (val : Str) : Str :=
  key ++ List.replicate blanks ' ' ++ '=' :: val

theorem scanset_member (h : KeyName key) (blanks : ℕ) (val : Str) :
    scanset (· ≠ '=') (memberLine key blanks val) =
      some (key ++ List.replicate blanks ' ', '=' :: val) := by
  apply scanset_append
  · exact fun hnil => h.ne_nil (List.append_eq_nil_iff.mp hnil).1
  · intro c hc
    rcases List.mem_append.mp hc with hc | hc
    · exact decide_eq_true (h.plain c hc).1
    · rw [List.eq_of_mem_replicate hc]
      rfl
  · simp

theorem scanKey_member (h : KeyName key) (blanks : ℕ) (hval : Trimmed val) :
    scanKey (memberLine key blanks val) = some (key ++ List.replicate blanks ' ', val) := by
  have hequals : ('=' :: val).dropWhile isSpace = '=' :: val := rfl
  rw [scanKey, scanset_member h, Option.bind_some]
  simp only [hequals, dropWhile_eq_self hval.head]

theorem scanQuoted_member (h : KeyName key) (blanks : ℕ) (hval : Trimmed val) {quote : Char}
    (hquote : ∀ c ∈ val.head?, c ≠ quote) :
    scanQuoted quote (memberLine key blanks val) = none := by
  rw [scanQuoted, scanKey_member h blanks hval, Option.bind_some]
  cases val with
  | nil => rfl
  | cons c val => exact if_neg (hquote c rfl)

/-- The line of a key and a value is read as both, in whichever format the value is found. -/
theorem iniparserLine_member (hkey : KeyName key) (hlen : key.length ≤ asciiLineSz)
    (hval : PlainValue val) (blanks : ℕ) (sectionName : Str) :
    iniparserLine sectionName (memberLine key blanks val) = .lineValue key val := by
  obtain ⟨k, ks, rfl⟩ := List.exists_cons_of_ne_nil hkey.ne_nil
  have hhead : (memberLine (k :: ks) blanks val).head? = some k := rfl
  have hlast : ∀ c ∈ (memberLine (k :: ks) blanks val).getLast?, isSpace c = false := by
    intro c hc
    rw [memberLine, List.getLast?_append_of_ne_nil _ (List.cons_ne_nil _ _)] at hc
    cases val with
    | nil =>
        obtain rfl : '=' = c := by simpa using hc
        rfl
    | cons v vs =>
        rw [List.getLast?_cons_cons] at hc
        exact hval.trimmed.last c hc
  have hline : Trimmed (memberLine (k :: ks) blanks val) :=
    ⟨fun c hc => hkey.trimmed.head c (by rwa [hhead] at hc), hlast⟩
  have hscan := scanKey_member hkey blanks hval.trimmed
  have hstrip : strip (k :: ks ++ List.replicate blanks ' ') = k :: ks := by
    apply hkey.trimmed.strip_append hkey.ne_nil
    intro c hc
    rw [List.eq_of_mem_replicate hc]
    rfl
  have hsharp : ¬ (memberLine (k :: ks) blanks val).head? = some '#' := by
    rw [hhead]
    exact fun heq => (hkey.head k rfl).1 (Option.some.inj heq)
  have hbracket : ¬ ((memberLine (k :: ks) blanks val).head? = some '[' ∧
      (memberLine (k :: ks) blanks val).getLast? = some ']') := by
    rw [hhead]
    exact fun heq => (hkey.head k rfl).2 (Option.some.inj heq.1)
  have hne : memberLine (k :: ks) blanks val ≠ [] := List.cons_ne_nil _ _
  rw [iniparserLine, strstrip, hline.strip_eq, if_neg hne, if_neg hsharp, if_neg hbracket,
    scanQuoted_member hkey blanks hval.trimmed fun c hc => (hval.head c hc).1,
    scanQuoted_member hkey blanks hval.trimmed fun c hc => (hval.head c hc).2, Option.none_or,
    Option.none_or, scanPlain, hscan, Option.bind_some]
  rcases eq_or_ne val [] with rfl | hne
  · have hequals : scanset (· = '=') ['='] = some (['='], []) := rfl
    rw [scanset_eq_none (by simp), Option.map_none, scanComment, hscan, Option.bind_some,
      scanset_eq_none (by simp), Option.map_none, Option.none_or, scanBare,
      scanset_member hkey]
    show LineStatus.lineValue (strlwc (strip _)) [] = _
    rw [hstrip, hkey.strlwc_eq hlen]
  · have hplain : scanset (fun c => c ≠ ';' && c ≠ '#') (val ++ []) = some (val, []) := by
      apply scanset_append hne
      · intro c hc
        have hc := hval.plain c hc
        simp [hc.1, hc.2.1]
      · simp
    have hquotes : ¬ (strip val = ['"', '"'] ∨ strip val = ['\'', '\'']) := by
      rw [hval.trimmed.strip_eq]
      rintro (rfl | rfl)
      · exact (hval.head _ rfl).1 rfl
      · exact (hval.head _ rfl).2 rfl
    rw [List.append_nil] at hplain
    rw [hplain]
    show LineStatus.lineValue (strlwc (strip _))
      (if strip val = ['"', '"'] ∨ strip val = ['\'', '\''] then [] else strip val) = _
    rw [hstrip, hkey.strlwc_eq hlen, if_neg hquotes, hval.trimmed.strip_eq]

end

/-! ### Lines one after the other -/

/-- A line that `fgets` reads as a whole, and that does not go on in the next one. -/
structure WholeLine (front : Option Char) (w : Str) : Prop where
  newline : '\n' ∉ w
  nul : nul ∉ w
  length : w.length + 2 ≤ asciiLineSz
  ends : ∃ c ∈ (w.rdropWhile isSpace).getLast?.or front, c ≠ '\\'

/-- The turns for lines one after the other. -/
def Load.run (l : Load) : List Str → Turn
  | [] => .next l
  | w :: ws =>
      match l.put (iniparserLine l.sectionName (w.rdropWhile isSpace)) with
      | .outside => .outside
      | .null => .null
      | .next l => l.run ws

/-- The text of lines. -/
def fileOf (ws : List Str) : Str := ws.flatMap (· ++ ['\n'])

theorem fileOf_cons (w : Str) (ws : List Str) : fileOf (w :: ws) = w ++ '\n' :: fileOf ws := by
  rw [fileOf, List.flatMap_cons, List.append_assoc]
  rfl

theorem loadTurn_line {front : Option Char} {w : Str} (hw : WholeLine front w) {l : Load}
    (hkept : l.kept = []) :
    loadTurn front l (w ++ ['\n']) =
      l.put (iniparserLine l.sectionName (w.rdropWhile isSpace)) := by
  have huntil : untilNul (l.kept ++ (w ++ ['\n'])) = w ++ ['\n'] := by
    rw [hkept, List.nil_append, untilNul_append hw.nul]
    rfl
  have hstrip : (w ++ ['\n']).rdropWhile isSpace = w.rdropWhile isSpace := by
    rw [List.rdropWhile_concat_pos _ _ _ rfl]
  obtain ⟨c, hc, hne⟩ := hw.ends
  rw [loadTurn, huntil, List.getLast?_concat, Option.some_or]
  simp only [hstrip, Option.mem_def.mp hc, ne_eq, not_true_eq_false, if_false, if_neg hne]

theorem dictionarySet_code {d d' : Dictionary} {key : Str} {val : Option Str} {code : ℤ}
    (h : dictionarySet d (some key) val = some (code, d')) : code = 0 := by
  rw [dictionarySet] at h
  split at h
  · exact (Prod.ext_iff.mp (Option.some.inj h)).1.symm
  · obtain ⟨e, -, he⟩ := Option.bind_eq_some_iff.mp h
    obtain ⟨i, -, hi⟩ := Option.map_eq_some_iff.mp he
    exact (Prod.ext_iff.mp hi).1.symm

theorem Load.store_next {l l' : Load} {sectionName key : Str} {val : Option Str}
    (h : l.store sectionName key val = .next l') : l'.kept = [] ∧ l'.errs = 0 := by
  rw [Load.store] at h
  split at h
  · exact absurd h (by simp)
  · rename_i code dict hset
    obtain rfl := Turn.next.inj h
    exact ⟨rfl, dictionarySet_code hset⟩

/-- Behind a turn no characters are kept, and `errs` is not negative. -/
theorem Load.put_next {l l' : Load} {status : LineStatus} (h : l.put status = .next l')
    (herrs : 0 ≤ l.errs) : l'.kept = [] ∧ 0 ≤ l'.errs := by
  cases status with
  | lineError =>
      obtain rfl := Turn.next.inj h
      exact ⟨rfl, Int.add_nonneg herrs (by decide)⟩
  | lineEmpty =>
      obtain rfl := Turn.next.inj h
      exact ⟨rfl, herrs⟩
  | lineComment =>
      obtain rfl := Turn.next.inj h
      exact ⟨rfl, herrs⟩
  | lineSection name =>
      obtain ⟨hkept, hzero⟩ := Load.store_next h
      exact ⟨hkept, hzero.ge⟩
  | lineValue key val =>
      rw [Load.put] at h
      split at h
      · exact absurd h (by simp)
      · obtain ⟨hkept, hzero⟩ := Load.store_next h
        exact ⟨hkept, hzero.ge⟩

/-- The result at the end of the file. -/
def Turn.result : Turn → Option (Option Dictionary)
  | .outside => none
  | .null => some none
  | .next l => some (if l.errs ≠ 0 then none else some l.dict)

/-- A file of such lines is loaded line by line. -/
theorem loadLoop_lines {front : Option Char} (ws : List Str) (hws : ∀ w ∈ ws, WholeLine front w)
    {l : Load} (hkept : l.kept = []) (herrs : 0 ≤ l.errs) {fuel : ℕ}
    (hfuel : (fileOf ws).length < fuel) :
    loadLoop front fuel l (fileOf ws) = (l.run ws).result := by
  induction ws generalizing l fuel with
  | nil =>
      obtain ⟨fuel, rfl⟩ := Nat.exists_eq_add_of_lt hfuel
      rfl
  | cons w ws ih =>
      obtain ⟨hw, hws⟩ := List.forall_mem_cons.mp hws
      rw [fileOf_cons, List.length_append, List.length_cons] at hfuel
      obtain ⟨fuel, rfl⟩ := Nat.exists_eq_add_of_lt (Nat.zero_lt_of_lt hfuel)
      have hsize : w.length + 2 ≤ asciiLineSz - l.kept.length := by
        rw [hkept]
        exact hw.length
      rw [fileOf_cons, Nat.zero_add, loadLoop, fgets_line hw.newline hsize]
      simp only [loadTurn_line hw hkept]
      rw [Load.run]
      cases hput : l.put (iniparserLine l.sectionName (w.rdropWhile isSpace)) with
      | outside => rfl
      | null => rfl
      | next l' =>
          obtain ⟨hkept', herrs'⟩ := Load.put_next hput herrs
          show (if l'.errs < 0 then _ else _) = _
          rw [if_neg (Int.not_lt.mpr herrs')]
          exact ih hws hkept' herrs' (by omega)

theorem Load.run_append (l : Load) (ws vs : List Str) :
    l.run (ws ++ vs) =
      match l.run ws with
      | .outside => .outside
      | .null => .null
      | .next l => l.run vs := by
  induction ws generalizing l with
  | nil => rfl
  | cons w ws ih =>
      rw [List.cons_append, Load.run, Load.run]
      cases l.put (iniparserLine l.sectionName (w.rdropWhile isSpace)) with
      | outside => rfl
      | null => rfl
      | next l' => exact ih l'

/-- A file of such lines, from the start. -/
theorem iniparserLoad_lines {front : Option Char} {ws : List Str}
    (hws : ∀ w ∈ ws, WholeLine front w) :
    iniparserLoad front (some (fileOf ws)) = (Load.start.run ws).result :=
  loadLoop_lines ws hws rfl le_rfl (Nat.lt_succ_self _)

end PanelTester.Ini
