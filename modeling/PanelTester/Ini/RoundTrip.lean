import PanelTester.Ini.Parser

/-!
Dictionaries that are dumped and loaded again. What can be dumped is said of the map of a dictionary
(`Dumpable`): the sections have no value, and in them names and values are read as they are written.
Such a dictionary is loaded from its dump with the entries whose section is there, and no others
(`iniparserLoad_dump`); the others are lost. So a file is kept over any number of loads, changes and
dumps (`updates_spec`).
-/

namespace PanelTester.Ini

open Library

/-- A key and a value that a line of a section is read as, in the room of the arrays. -/
structure Entry (s key val : Str) : Prop where
  key_name : KeyName key
  value : PlainValue val
  line : max 30 key.length + val.length + 3 < asciiLineSz
  tmp : s.length + 1 + key.length ≤ asciiLineSz

/-- The section of a key, which of a section is the section itself. -/
def sectionOf (k : Str) : Str := k.takeWhile (· ≠ ':')

/-- The entries whose section is there. -/
def Entries.dumped (m : Entries) : Entries := fun k =>
  if m (sectionOf k) = none then none else m k

/-- The sections, and the entries in them, are read as they are dumped. -/
structure Dumpable (m : Entries) : Prop where
  sections : ∀ s v, ':' ∉ s → m s = some v → v = none ∧ SectionName s ∧ s.length + 4 < asciiLineSz
  entries : ∀ s key v, ':' ∉ s → m s ≠ none → m (s ++ ':' :: key) = some v →
    ∃ val, v = some val ∧ Entry s key val

theorem sectionOf_self {s : Str} (hs : ':' ∉ s) : sectionOf s = s := by
  rw [sectionOf, List.takeWhile_eq_self_iff]
  intro c hc
  exact decide_eq_true fun heq => hs (heq ▸ hc)

theorem sectionOf_entry {s : Str} (hs : ':' ∉ s) (key : Str) : sectionOf (s ++ ':' :: key) = s := by
  have hpos : ∀ c ∈ s, decide (c ≠ ':') := by
    intro c hc
    exact decide_eq_true fun heq => hs (heq ▸ hc)
  rw [sectionOf, List.takeWhile_append_of_pos hpos]
  simp

theorem Entries.dumped_section (m : Entries) {s : Str} (hs : ':' ∉ s) : m.dumped s = m s := by
  rw [Entries.dumped, sectionOf_self hs]
  split_ifs with hm
  · exact hm.symm
  · rfl

theorem Entries.dumped_entry (m : Entries) {s : Str} (hs : ':' ∉ s) (hm : m s ≠ none) (key : Str) :
    m.dumped (s ++ ':' :: key) = m (s ++ ':' :: key) := by
  rw [Entries.dumped, sectionOf_entry hs, if_neg hm]

theorem Entries.of_dumped {m : Entries} {k : Str} (h : m.dumped k ≠ none) :
    m (sectionOf k) ≠ none ∧ m k ≠ none := by
  rw [Entries.dumped] at h
  split_ifs at h with hm
  · exact absurd rfl h
  · exact ⟨hm, h⟩

/-- A key with a colon has its section in front of the first one. -/
theorem exists_section {k : Str} (hk : ':' ∈ k) : ∃ s key, k = s ++ ':' :: key ∧ ':' ∉ s := by
  obtain ⟨s, key, rfl, hs⟩ := List.eq_append_cons_of_mem hk
  exact ⟨s, key, rfl, hs⟩

/-! ### Maps that can be dumped -/

theorem dumpable_empty : Dumpable fun _ => none where
  sections _ _ _ h := absurd h (by simp)
  entries _ _ _ _ h := absurd rfl h

/-- A new section, without entries that were outside of any before. -/
theorem Dumpable.add_section {m : Entries} (h : Dumpable m) {s : Str} (hs : SectionName s)
    (hlen : s.length + 4 < asciiLineSz) (hnew : ∀ key, m (s ++ ':' :: key) = none) :
    Dumpable (Function.update m s (some none)) where
  sections s' v hcolon hv := by
    rcases eq_or_ne s' s with rfl | hne
    · rw [Function.update_self] at hv
      exact ⟨(Option.some.inj hv).symm, hs, hlen⟩
    · rw [Function.update_of_ne hne] at hv
      exact h.sections s' v hcolon hv
  entries s' key v hcolon hsec hv := by
    have hkey : s' ++ ':' :: key ≠ s := by
      rintro rfl
      exact (hs.plain ':' (by simp)).2.1 rfl
    rw [Function.update_of_ne hkey] at hv
    rcases eq_or_ne s' s with rfl | hne
    · exact absurd hv (by simp [hnew])
    · rw [Function.update_of_ne hne] at hsec
      exact h.entries s' key v hcolon hsec hv

/-- An entry that is read as it is dumped. -/
theorem Dumpable.set_entry {m : Entries} (h : Dumpable m) {s key val : Str} (hs : ':' ∉ s)
    (he : Entry s key val) :
    Dumpable (Function.update m (s ++ ':' :: key) (some (some val))) where
  sections s' v hcolon hv := by
    have hne : s' ≠ s ++ ':' :: key := by
      rintro rfl
      exact hcolon (by simp)
    rw [Function.update_of_ne hne] at hv
    exact h.sections s' v hcolon hv
  entries s' key' v hcolon hsec hv := by
    have hne : s' ≠ s ++ ':' :: key := by
      rintro rfl
      exact hcolon (by simp)
    rw [Function.update_of_ne hne] at hsec
    rcases eq_or_ne (s' ++ ':' :: key') (s ++ ':' :: key) with heq | hkey
    · have hsection := congrArg sectionOf heq
      rw [sectionOf_entry hcolon, sectionOf_entry hs] at hsection
      subst hsection
      obtain rfl : key' = key := (List.cons.inj (List.append_cancel_left heq)).2
      rw [Function.update_self] at hv
      exact ⟨val, (Option.some.inj hv).symm, he⟩
    · rw [Function.update_of_ne hkey] at hv
      exact h.entries s' key' v hcolon hsec hv

/-! ### Lines of a dump -/

/-- A line with blanks behind it, which on one that is dumped are a carriage return. -/
theorem wholeLine_append {front : Option Char} {w t : Str} (hplain : ∀ c ∈ w, c ≠ '\n' ∧ c ≠ nul)
    (hlen : w.length + t.length + 2 ≤ asciiLineSz)
    (hw : ∀ c ∈ w.getLast?, isSpace c = false) (ht : ∀ c ∈ t, isSpace c ∧ c ≠ '\n')
    (hlast : ∃ c ∈ w.getLast?.or front, c ≠ '\\') : WholeLine front (w ++ t) where
  newline hmem := by
    rcases List.mem_append.mp hmem with hmem | hmem
    · exact (hplain _ hmem).1 rfl
    · exact (ht _ hmem).2 rfl
  nul hmem := by
    rcases List.mem_append.mp hmem with hmem | hmem
    · exact (hplain _ hmem).2 rfl
    · exact absurd (ht _ hmem).1 (by simp [isSpace, nul])
  length := by
    rw [List.length_append]
    omega
  ends := by
    rwa [rdropWhile_blank hw fun c hc => (ht c hc).1]

theorem blanks_return : ∀ c ∈ ['\r'], isSpace c ∧ c ≠ '\n' := by simp [isSpace]

theorem wholeLine_return {front : Option Char} (hfront : ∃ c ∈ front, c ≠ '\\') :
    WholeLine front ['\r'] :=
  wholeLine_append (w := []) (by simp) (by decide) (by simp) blanks_return hfront

/-- The line of a section. -/
def sectionLine (s : Str) : Str := '[' :: (s ++ [']'])

theorem getLast?_sectionLine (s : Str) : (sectionLine s).getLast? = some ']' := by
  rw [sectionLine, ← List.cons_append, List.getLast?_concat]

theorem last_sectionLine (s : Str) : ∀ c ∈ (sectionLine s).getLast?, isSpace c = false := by
  rw [getLast?_sectionLine]
  simp [isSpace]

theorem wholeLine_section {front : Option Char} {s t : Str} (h : SectionName s)
    (hlen : s.length + t.length + 4 ≤ asciiLineSz) (ht : ∀ c ∈ t, isSpace c ∧ c ≠ '\n') :
    WholeLine front (sectionLine s ++ t) := by
  refine wholeLine_append ?_ ?_ (last_sectionLine s) ht ?_
  · intro c hc
    rcases List.mem_cons.mp hc with rfl | hc
    · decide
    · rcases List.mem_append.mp hc with hc | hc
      · exact (h.plain c hc).2.2
      · obtain rfl : c = ']' := by simpa using hc
        decide
  · rw [sectionLine, List.length_cons, List.length_append, List.length_singleton]
    omega
  · rw [getLast?_sectionLine]
    simp

theorem getLast?_memberLine (key : Str) (blanks : ℕ) (val : Str) :
    (memberLine key blanks val).getLast? = some (val.getLast?.getD '=') := by
  rw [memberLine, List.getLast?_append_of_ne_nil _ (List.cons_ne_nil _ _),
    List.getLast?_cons]

theorem last_memberLine (key : Str) (blanks : ℕ) {val : Str} (h : PlainValue val) :
    ∀ c ∈ (memberLine key blanks val).getLast?, isSpace c = false ∧ c ≠ '\\' := by
  intro c hc
  rw [getLast?_memberLine] at hc
  cases hval : val.getLast? with
  | none =>
      obtain rfl : '=' = c := by simpa [hval] using hc
      decide
  | some v =>
      obtain rfl : v = c := by simpa [hval] using hc
      exact ⟨h.trimmed.last v hval, h.last v hval⟩

theorem wholeLine_member {front : Option Char} {key val t : Str} {blanks : ℕ} (hkey : KeyName key)
    (hval : PlainValue val)
    (hlen : key.length + blanks + val.length + t.length + 3 ≤ asciiLineSz)
    (ht : ∀ c ∈ t, isSpace c ∧ c ≠ '\n') : WholeLine front (memberLine key blanks val ++ t) := by
  have hlast := last_memberLine key blanks hval
  refine wholeLine_append ?_ ?_ (fun c hc => (hlast c hc).1) ht ?_
  · intro c hc
    rcases List.mem_append.mp hc with hc | hc
    · rcases List.mem_append.mp hc with hc | hc
      · exact (hkey.plain c hc).2
      · rw [List.eq_of_mem_replicate hc]
        decide
    · rcases List.mem_cons.mp hc with rfl | hc
      · decide
      · exact (hval.plain c hc).2.2
  · rw [memberLine, List.length_append, List.length_append, List.length_replicate,
      List.length_cons]
    omega
  · rw [getLast?_memberLine]
    exact ⟨_, rfl, (hlast _ (getLast?_memberLine key blanks val)).2⟩

/-! ### What is loaded -/

/-- A load of the entries of `m`, of which those in `done` are there already. -/
structure Filled (m : Entries) (done : Set Str) (l : Load) : Prop where
  ok : l.dict.Ok
  errs : l.errs = 0
  within : ∀ k v, l.dict.map k = some v → m k = some v
  done : ∀ k ∈ done, l.dict.map k ≠ none

section

variable {m : Entries} {done : Set Str} {l : Load}

/-- A load with an entry more. -/
theorem Filled.store (h : Filled m done l) (hfinite : {k | m k ≠ none}.Finite)
    (hfew : {k | m k ≠ none}.ncard ≤ 2 ^ 28) {k : Str} {v : Option Str} (hk : m k = some v)
    (name : Str) :
    ∃ l', l.store name k v = .next l' ∧ l'.sectionName = name ∧ Filled m (insert k done) l' := by
  have hkeys : ∀ k, l.dict.map k ≠ none → k ∈ {k | m k ≠ none} := by
    intro k hk
    obtain ⟨v, hv⟩ := Option.ne_none_iff_exists'.mp hk
    exact Option.ne_none_iff_exists'.mpr ⟨v, h.within k v hv⟩
  have hroom : l.dict.map k = none → l.dict.n < 2 ^ 28 :=
    h.ok.room hfinite hfew hkeys (Option.ne_none_iff_exists'.mpr ⟨v, hk⟩)
  obtain ⟨d', hset, hok, hmap, -⟩ := dictionarySet_spec h.ok k v hroom
  refine ⟨⟨d', name, [], 0⟩, ?_, rfl, hok, rfl, ?_, ?_⟩
  · rw [Load.store, hset]
  · intro k' v' hv'
    dsimp only at hv'
    rw [hmap] at hv'
    rcases eq_or_ne k' k with rfl | hne
    · rw [Function.update_self] at hv'
      rw [hk, hv']
    · rw [Function.update_of_ne hne] at hv'
      exact h.within k' v' hv'
  · intro k' hk'
    show d'.map k' ≠ none
    rw [hmap]
    rcases eq_or_ne k' k with rfl | hne
    · rw [Function.update_self]
      exact Option.some_ne_none v
    · rw [Function.update_of_ne hne]
      exact h.done k' (Set.mem_of_mem_insert_of_ne hk' hne)

variable (hfinite : {k | m k ≠ none}.Finite) (hfew : {k | m k ≠ none}.ncard ≤ 2 ^ 28)

include hfinite hfew

theorem Filled.run_section (h : Filled m done l) {s t : Str} (hs : SectionName s)
    (hlen : s.length ≤ asciiLineSz) (ht : ∀ c ∈ t, isSpace c) (hm : m s = some none) :
    ∃ l', l.run [sectionLine s ++ t] = .next l' ∧ l'.sectionName = s ∧
      Filled m (insert s done) l' := by
  obtain ⟨l', hstore, hname, hfilled⟩ := h.store hfinite hfew hm s
  have hline : iniparserLine l.sectionName (sectionLine s) = .lineSection s :=
    iniparserLine_section hs hlen l.sectionName
  refine ⟨l', ?_, hname, hfilled⟩
  rw [Load.run, rdropWhile_blank (last_sectionLine s) ht, hline, Load.put, hstore]
  rfl

theorem Filled.run_entry (h : Filled m done l) {key val t : Str} (hkey : KeyName key)
    (hval : PlainValue val) (htmp : l.sectionName.length + 1 + key.length ≤ asciiLineSz)
    (blanks : ℕ) (ht : ∀ c ∈ t, isSpace c)
    (hm : m (l.sectionName ++ ':' :: key) = some (some val)) :
    ∃ l', l.run [memberLine key blanks val ++ t] = .next l' ∧ l'.sectionName = l.sectionName ∧
      Filled m (insert (l.sectionName ++ ':' :: key) done) l' := by
  obtain ⟨l', hstore, hname, hfilled⟩ := h.store hfinite hfew hm l.sectionName
  have hlast : ∀ c ∈ (memberLine key blanks val).getLast?, isSpace c = false :=
    fun c hc => (last_memberLine key blanks hval c hc).1
  have hline : iniparserLine l.sectionName (memberLine key blanks val) = .lineValue key val :=
    iniparserLine_member hkey (by omega) hval blanks l.sectionName
  have hcopy : strcpy (asciiLineSz + 1) (l.sectionName ++ ':' :: key) =
      some (l.sectionName ++ ':' :: key) := by
    rw [strcpy, if_pos]
    rw [List.length_append, List.length_cons]
    omega
  refine ⟨l', ?_, hname, hfilled⟩
  rw [Load.run, rdropWhile_blank hlast ht, hline, Load.put]
  simp only [hcopy, hstore]
  rfl

/-- The lines of the entries of a section, with any blanks. -/
theorem Filled.run_entries {line : Str × Str → Str}
    (hline : ∀ e, ∃ blanks t, line e = memberLine e.1 blanks e.2 ++ t ∧ ∀ c ∈ t, isSpace c)
    (entries : List (Str × Str)) (h : Filled m done l)
    (hentries : ∀ e ∈ entries, Entry l.sectionName e.1 e.2 ∧
      m (l.sectionName ++ ':' :: e.1) = some (some e.2)) :
    ∃ l' done', l.run (entries.map line) = .next l' ∧ Filled m done' l' ∧ done ⊆ done' ∧
      ∀ e ∈ entries, l.sectionName ++ ':' :: e.1 ∈ done' := by
  induction entries generalizing l done with
  | nil => exact ⟨l, done, rfl, h, subset_rfl, by simp⟩
  | cons e entries ih =>
      obtain ⟨⟨hentry, hm⟩, hrest⟩ := List.forall_mem_cons.mp hentries
      obtain ⟨blanks, t, ht, hblank⟩ := hline e
      obtain ⟨l₁, hrun₁, hname₁, hfilled₁⟩ := h.run_entry hfinite hfew hentry.key_name
        hentry.value hentry.tmp blanks hblank hm
      rw [← hname₁] at hrest
      obtain ⟨l₂, done₂, hrun₂, hfilled₂, hsub, hmem⟩ := ih hfilled₁ hrest
      refine ⟨l₂, done₂, ?_, hfilled₂, (Set.subset_insert _ _).trans hsub, ?_⟩
      · rw [List.map_cons, ← List.singleton_append, Load.run_append, ht, hrun₁]
        exact hrun₂
      · rw [hname₁] at hmem
        exact List.forall_mem_cons.mpr ⟨hsub (Set.mem_insert _ _), hmem⟩

omit hfinite hfew in
theorem Filled.run_blank (h : Filled m done l) :
    ∃ l', l.run [['\r']] = .next l' ∧ Filled m done l' :=
  ⟨_, rfl, h.ok, h.errs, h.within, h.done⟩

end

/-! ### What is dumped -/

/-- The sections of a dictionary, in the order of the slots. -/
def secnames (d : Dictionary) : List Str := (d.slots.filterMap Slot.key).filter fun key => ':' ∉ key

/-- The entries of a section, in the order of the slots. -/
def entriesOf (d : Dictionary) (s : Str) : List (Str × Str) :=
  d.slots.filterMap fun slot =>
    slot.key.bind fun key =>
      if s ++ [':'] <+: key then some (key.drop (s.length + 1), slot.val.getD []) else none

/-- The line of an entry, as it is dumped. -/
def entryLine (e : Str × Str) : Str := memberLine e.1 (30 - e.1.length) e.2 ++ ['\r']

theorem entryLine_blanks (e : Str × Str) :
    ∃ blanks t, entryLine e = memberLine e.1 blanks e.2 ++ t ∧ ∀ c ∈ t, isSpace c :=
  ⟨30 - e.1.length, ['\r'], rfl, fun c hc => (blanks_return c hc).1⟩

/-- The lines of a section. -/
def linesOf (d : Dictionary) (s : Str) : List Str :=
  ['\r'] :: (sectionLine s ++ ['\r']) :: (entriesOf d s).map entryLine

theorem iniparserGetnsec_eq (d : Dictionary) : iniparserGetnsec d = (secnames d).length := by
  rw [iniparserGetnsec, secnames]
  induction d.slots with
  | nil => rfl
  | cons slot slots ih =>
      rw [List.countP_cons, ih]
      cases hkey : slot.key with
      | none => simp [hkey]
      | some key =>
          by_cases hcolon : ':' ∈ key
          · simp [hkey, hcolon]
          · simp [hkey, hcolon]

theorem secnameLoop_eq (n : ℕ) (slots : List Slot) (foundsec : ℕ) (h : foundsec ≤ n) :
    secnameLoop n foundsec slots =
      ((slots.filterMap Slot.key).filter fun key => ':' ∉ key)[n - foundsec]? := by
  induction slots generalizing foundsec with
  | nil => rfl
  | cons slot slots ih =>
      rw [secnameLoop]
      cases hkey : slot.key with
      | none =>
          rw [List.filterMap_cons, hkey]
          exact ih foundsec h
      | some key =>
          rw [List.filterMap_cons, hkey]
          by_cases hcolon : ':' ∈ key
          · rw [List.filter_cons_of_neg (by simpa using hcolon)]
            simp only [if_pos hcolon]
            exact ih foundsec h
          · rw [List.filter_cons_of_pos (by simpa using hcolon)]
            simp only [if_neg hcolon]
            rcases Nat.lt_or_ge n (foundsec + 1) with hlt | hge
            · rw [if_pos hlt, Nat.sub_eq_zero_of_le (Nat.le_of_lt_succ hlt)]
              rfl
            · obtain ⟨k, rfl⟩ := Nat.exists_eq_add_of_le hge
              rw [if_neg (Nat.not_lt.mpr hge), ih (foundsec + 1) hge, Nat.add_sub_cancel_left,
                show foundsec + 1 + k - foundsec = k + 1 by omega, List.getElem?_cons_succ]

theorem iniparserGetsecname_eq (d : Dictionary) (n : ℕ) :
    iniparserGetsecname d n = (secnames d)[n]? :=
  secnameLoop_eq n d.slots 0 (Nat.zero_le n)

theorem dumpSection_eq (d : Dictionary) {s : Str} (hlen : s.length < asciiLineSz) :
    dumpSection d s = some (fileOf (linesOf d s)) := by
  have hcopy : strcpy (asciiLineSz + 1) (s ++ [':']) = some (s ++ [':']) := by
    rw [strcpy, if_pos]
    rw [List.length_append, List.length_singleton]
    omega
  have hentries : d.slots.flatMap (dumpSlot s.length (s ++ [':'])) =
      fileOf ((entriesOf d s).map entryLine) := by
    rw [entriesOf]
    induction d.slots with
    | nil => rfl
    | cons slot slots ih =>
        rw [List.flatMap_cons, ih, dumpSlot]
        cases hkey : slot.key with
        | none => simp [hkey]
        | some key =>
            by_cases hmem : s ++ [':'] <+: key
            · simp [hkey, hmem, fileOf, entryLine, memberLine, padded, crlf]
            · simp [hkey, hmem]
  rw [dumpSection, hcopy, Option.map_some, hentries, linesOf, fileOf_cons, fileOf_cons, sectionLine]
  simp [crlf]

theorem mapM_eq_some {α β : Type} {f : α → Option β} {g : α → β} {l : List α}
    (h : ∀ a ∈ l, f a = some (g a)) : l.mapM f = some (l.map g) := by
  induction l with
  | nil => rfl
  | cons a l ih =>
      obtain ⟨ha, hl⟩ := List.forall_mem_cons.mp h
      rw [List.mapM_cons, ha, ih hl]
      rfl

theorem fileOf_append (ws vs : List Str) : fileOf (ws ++ vs) = fileOf ws ++ fileOf vs :=
  List.flatMap_append

/-- A dictionary with sections is written section by section, and the file is closed. -/
theorem iniparserDumpIni_eq {d : Dictionary} (hne : secnames d ≠ [])
    (hlen : ∀ s ∈ secnames d, s.length < asciiLineSz) :
    iniparserDumpIni d = some ⟨fileOf ((secnames d).flatMap (linesOf d) ++ [['\r']]), true⟩ := by
  have hnames : (List.range (iniparserGetnsec d)).map (iniparserGetsecname d) =
      (secnames d).map some := by
    rw [iniparserGetnsec_eq]
    apply List.ext_getElem
    · simp
    · intro i hi hi'
      simp [iniparserGetsecname_eq]
  have hpos : ¬ iniparserGetnsec d < 1 := by
    rw [iniparserGetnsec_eq, Nat.not_lt]
    exact List.length_pos_iff.mpr hne
  have hsections : ((secnames d).map some).mapM (fun secname => secname.bind (dumpSection d)) =
      some ((secnames d).map fun s => fileOf (linesOf d s)) := by
    rw [mapM_eq_some (g := fun secname => fileOf (linesOf d (secname.getD []))), List.map_map]
    · rfl
    · intro secname hmem
      obtain ⟨s, hs, rfl⟩ := List.mem_map.mp hmem
      exact dumpSection_eq d (hlen s hs)
  rw [iniparserDumpIni, if_neg hpos, hnames, hsections, Option.map_some, fileOf_append]
  rw [fileOf, List.flatMap_assoc, ← List.flatMap_def]
  rfl

/-! ### The dump of a dictionary is loaded -/

theorem mem_secnames {d : Dictionary} {s : Str} :
    s ∈ secnames d ↔ ':' ∉ s ∧ d.map s ≠ none := by
  have hmem : s ∈ d.slots.filterMap Slot.key ↔ d.map s ≠ none := by
    rw [Dictionary.map, Ne, Option.map_eq_none_iff, Slots.lookup_eq_none, List.mem_filterMap]
    simp
  rw [secnames, List.mem_filter, hmem, and_comm]
  simp

/-- An entry that is dumped under a section is the one that the map has. -/
theorem map_of_mem_entriesOf {d : Dictionary} (h : d.Ok) (hd : Dumpable d.map) {s : Str}
    (hs : ':' ∉ s) (hsec : d.map s ≠ none) {e : Str × Str} (he : e ∈ entriesOf d s) :
    Entry s e.1 e.2 ∧ d.map (s ++ ':' :: e.1) = some (some e.2) := by
  obtain ⟨slot, hslot, hbind⟩ := List.mem_filterMap.mp he
  obtain ⟨key, hkey, hentry⟩ := Option.bind_eq_some_iff.mp hbind
  obtain ⟨⟨rest, hrest⟩, hpair⟩ := Option.ite_none_right_eq_some.mp hentry
  have hfull : key = s ++ ':' :: rest := by simpa using hrest.symm
  have hdrop : key.drop (s.length + 1) = rest := by
    rw [← hrest, ← List.length_singleton (a := ':'), ← List.length_append, List.drop_left]
  obtain ⟨i, hi⟩ := List.getElem?_of_mem hslot
  have hmap : d.map (s ++ ':' :: rest) = some slot.val := by
    rw [Dictionary.map, (Slots.lookup_eq_some h.distinct).mpr ⟨hkey.trans (by rw [hfull]), i, hi⟩]
    rfl
  obtain ⟨val, hval, hgood⟩ := hd.entries s rest slot.val hs hsec hmap
  have he' : e = (rest, val) := by
    rw [← Option.some.inj hpair, hdrop, hval]
    rfl
  subst he'
  exact ⟨hgood, hval ▸ hmap⟩

/-- Every entry is dumped under its section. -/
theorem exists_mem_entriesOf {d : Dictionary} {s key val : Str}
    (hmap : d.map (s ++ ':' :: key) = some (some val)) : (key, val) ∈ entriesOf d s := by
  obtain ⟨slot, hslot, hval⟩ := Option.map_eq_some_iff.mp hmap
  obtain ⟨hkey, i, hi⟩ := Slots.exists_of_lookup hslot
  refine List.mem_filterMap.mpr ⟨slot, List.mem_of_getElem? hi, ?_⟩
  have hpre : s ++ [':'] <+: s ++ ':' :: key := ⟨key, by simp⟩
  rw [hkey, Option.bind_some, if_pos hpre, hval]
  simp

section

variable {d : Dictionary} {front : Option Char}

/-- As few entries are dumped as there are. -/
theorem dumped_few (h : d.Ok) (hfew : d.n ≤ 2 ^ 28) :
    {k | d.map.dumped k ≠ none}.Finite ∧ {k | d.map.dumped k ≠ none}.ncard ≤ 2 ^ 28 := by
  have hsub : {k | d.map.dumped k ≠ none} ⊆ {k | d.map k ≠ none} :=
    fun _ hk => (Entries.of_dumped hk).2
  refine ⟨d.finite_map.subset hsub, (Set.ncard_le_ncard hsub d.finite_map).trans ?_⟩
  rw [h.n_eq] at hfew
  exact_mod_cast hfew

theorem wholeLine_linesOf (hfront : ∃ c ∈ front, c ≠ '\\') (h : d.Ok) (hd : Dumpable d.map)
    {s : Str} (hs : s ∈ secnames d) : ∀ w ∈ linesOf d s, WholeLine front w := by
  obtain ⟨hcolon, hne⟩ := mem_secnames.mp hs
  obtain ⟨v, hv⟩ := Option.ne_none_iff_exists'.mp hne
  obtain ⟨-, hname, hlen⟩ := hd.sections s v hcolon hv
  intro w hw
  rcases List.mem_cons.mp hw with rfl | hw
  · exact wholeLine_return hfront
  · rcases List.mem_cons.mp hw with rfl | hw
    · exact wholeLine_section hname (by rw [List.length_singleton]; omega) blanks_return
    · obtain ⟨e, he, rfl⟩ := List.mem_map.mp hw
      have hentry := (map_of_mem_entriesOf h hd hcolon hne he).1
      have hline := hentry.line
      refine wholeLine_member hentry.key_name hentry.value ?_ blanks_return
      rw [List.length_singleton]
      omega

/-- The lines of a section: the section and its entries are there. -/
theorem Filled.run_linesOf (h : d.Ok) (hd : Dumpable d.map) (hfew : d.n ≤ 2 ^ 28) {s : Str}
    (hs : s ∈ secnames d) {done : Set Str} {l : Load} (hl : Filled d.map.dumped done l) :
    ∃ l' done', l.run (linesOf d s) = .next l' ∧ Filled d.map.dumped done' l' ∧ done ⊆ done' ∧
      s ∈ done' ∧ ∀ e ∈ entriesOf d s, s ++ ':' :: e.1 ∈ done' := by
  obtain ⟨hfinite, hncard⟩ := dumped_few h hfew
  obtain ⟨hcolon, hne⟩ := mem_secnames.mp hs
  obtain ⟨v, hv⟩ := Option.ne_none_iff_exists'.mp hne
  obtain ⟨rfl, hname, hlen⟩ := hd.sections s v hcolon hv
  obtain ⟨l₁, hrun₁, hfilled₁⟩ := hl.run_blank
  obtain ⟨l₂, hrun₂, hname₂, hfilled₂⟩ := hfilled₁.run_section hfinite hncard hname
    (Nat.le_of_lt ((Nat.le_add_right _ 4).trans_lt hlen)) (fun c hc => (blanks_return c hc).1)
    ((Entries.dumped_section d.map hcolon).trans hv)
  have hentries : ∀ e ∈ entriesOf d s, Entry l₂.sectionName e.1 e.2 ∧
      d.map.dumped (l₂.sectionName ++ ':' :: e.1) = some (some e.2) := by
    intro e he
    rw [hname₂, Entries.dumped_entry d.map hcolon hne]
    exact map_of_mem_entriesOf h hd hcolon hne he
  obtain ⟨l₃, done₃, hrun₃, hfilled₃, hsub, hmem⟩ :=
    hfilled₂.run_entries hfinite hncard entryLine_blanks (entriesOf d s) hentries
  rw [hname₂] at hmem
  refine ⟨l₃, done₃, ?_, hfilled₃, (Set.subset_insert _ _).trans hsub,
    hsub (Set.mem_insert _ _), hmem⟩
  have hlines : linesOf d s = [['\r']] ++ ([sectionLine s ++ ['\r']] ++
      (entriesOf d s).map entryLine) := rfl
  rw [hlines, Load.run_append, hrun₁]
  show l₁.run _ = _
  rw [Load.run_append, hrun₂]
  exact hrun₃

theorem Filled.run_sections (h : d.Ok) (hd : Dumpable d.map) (hfew : d.n ≤ 2 ^ 28)
    (names : List Str) (hnames : ∀ s ∈ names, s ∈ secnames d) {done : Set Str} {l : Load}
    (hl : Filled d.map.dumped done l) :
    ∃ l' done', l.run (names.flatMap (linesOf d)) = .next l' ∧ Filled d.map.dumped done' l' ∧
      done ⊆ done' ∧
      ∀ s ∈ names, s ∈ done' ∧ ∀ e ∈ entriesOf d s, s ++ ':' :: e.1 ∈ done' := by
  induction names generalizing l done with
  | nil => exact ⟨l, done, rfl, hl, subset_rfl, by simp⟩
  | cons s names ih =>
      obtain ⟨hs, hnames⟩ := List.forall_mem_cons.mp hnames
      obtain ⟨l₁, done₁, hrun₁, hfilled₁, hsub₁, hmem₁, hentries₁⟩ := hl.run_linesOf h hd hfew hs
      obtain ⟨l₂, done₂, hrun₂, hfilled₂, hsub₂, hall₂⟩ := ih hnames hfilled₁
      refine ⟨l₂, done₂, ?_, hfilled₂, hsub₁.trans hsub₂, ?_⟩
      · rw [List.flatMap_cons, Load.run_append, hrun₁]
        exact hrun₂
      · exact List.forall_mem_cons.mpr
          ⟨⟨hsub₂ hmem₁, fun e he => hsub₂ (hentries₁ e he)⟩, hall₂⟩

/-- Once every key is there, the maps are the same. -/
theorem Filled.map_eq {m : Entries} {done : Set Str} {l : Load} (hl : Filled m done l)
    (hdone : ∀ k, m k ≠ none → k ∈ done) : l.dict.map = m := by
  funext k
  cases hm : m k with
  | none =>
      by_contra hne
      obtain ⟨v, hv⟩ := Option.ne_none_iff_exists'.mp hne
      exact absurd (hl.within k v hv) (by simp [hm])
  | some v =>
      have hne := hl.done k (hdone k (by simp [hm]))
      obtain ⟨v', hv'⟩ := Option.ne_none_iff_exists'.mp hne
      rw [hv', ← hm, hl.within k v' hv']

theorem filled_start (m : Entries) : Filled m ∅ Load.start where
  ok := dictionaryNew_ok 0
  errs := rfl
  within k v hv := by
    have hnone : Load.start.dict.map k = none := congrFun (dictionaryNew_map 0) k
    exact absurd hv (by simp [hnone])
  done k hk := absurd hk (Set.notMem_empty k)

/-- A dictionary without any key is dumped as an empty text. -/
theorem iniparserDumpIni_empty (hnone : ∀ k, d.map k = none) :
    iniparserDumpIni d = some ⟨[], false⟩ := by
  have hkeys : ∀ slot ∈ d.slots, slot.key = none := by
    intro slot hslot
    by_contra hkey
    obtain ⟨k, hk⟩ := Option.ne_none_iff_exists'.mp hkey
    have hmap := hnone k
    rw [Dictionary.map, Option.map_eq_none_iff, Slots.lookup_eq_none] at hmap
    exact hmap slot hslot hk
  have hzero : iniparserGetnsec d < 1 := by
    rw [iniparserGetnsec, Nat.lt_one_iff, List.countP_eq_zero]
    intro slot hslot
    simp [hkeys slot hslot]
  rw [iniparserDumpIni, if_pos hzero]
  congr 2
  refine List.flatMap_eq_nil_iff.mpr fun slot hslot => ?_
  rw [hkeys slot hslot]

/-- A dictionary with a section is loaded from its dump, and the file was closed. -/
theorem load_dump_sections (hfront : ∃ c ∈ front, c ≠ '\\') (h : d.Ok) (hd : Dumpable d.map)
    (hfew : d.n ≤ 2 ^ 28) (hsec : ∃ s, ':' ∉ s ∧ d.map s ≠ none) :
    ∃ text d', iniparserDumpIni d = some ⟨text, true⟩ ∧
      iniparserLoad front (some text) = some (some d') ∧ d'.Ok ∧ d'.map = d.map.dumped := by
  obtain ⟨s, hs, hmap⟩ := hsec
  have hne : secnames d ≠ [] := List.ne_nil_of_mem (mem_secnames.mpr ⟨hs, hmap⟩)
  have hlen : ∀ s ∈ secnames d, s.length < asciiLineSz := by
    intro s hs
    obtain ⟨hcolon, hmap⟩ := mem_secnames.mp hs
    obtain ⟨v, hv⟩ := Option.ne_none_iff_exists'.mp hmap
    have hlen := (hd.sections s v hcolon hv).2.2
    omega
  have hwhole : ∀ w ∈ (secnames d).flatMap (linesOf d) ++ [['\r']], WholeLine front w := by
    intro w hw
    rcases List.mem_append.mp hw with hw | hw
    · obtain ⟨s, hs, hw⟩ := List.mem_flatMap.mp hw
      exact wholeLine_linesOf hfront h hd hs w hw
    · obtain rfl : w = ['\r'] := by simpa using hw
      exact wholeLine_return hfront
  obtain ⟨l₁, done, hrun₁, hfilled₁, -, hall⟩ :=
    (filled_start d.map.dumped).run_sections h hd hfew (secnames d) fun _ hs => hs
  obtain ⟨l₂, hrun₂, hfilled₂⟩ := hfilled₁.run_blank
  have hrun : Load.start.run ((secnames d).flatMap (linesOf d) ++ [['\r']]) = .next l₂ := by
    rw [Load.run_append, hrun₁]
    exact hrun₂
  refine ⟨_, l₂.dict, iniparserDumpIni_eq hne hlen, ?_, hfilled₂.ok, ?_⟩
  · rw [iniparserLoad_lines hwhole, hrun, Turn.result, hfilled₂.errs]
    rfl
  · apply hfilled₂.map_eq
    intro k hk
    obtain ⟨hsec, hmap⟩ := Entries.of_dumped hk
    by_cases hcolon : ':' ∈ k
    · obtain ⟨s, key, rfl, hs⟩ := exists_section hcolon
      rw [sectionOf_entry hs] at hsec
      obtain ⟨v, hv⟩ := Option.ne_none_iff_exists'.mp hmap
      obtain ⟨val, rfl, -⟩ := hd.entries s key v hs hsec hv
      exact (hall s (mem_secnames.mpr ⟨hs, hsec⟩)).2 _ (exists_mem_entriesOf hv)
    · exact (hall k (mem_secnames.mpr ⟨hcolon, hmap⟩)).1

/-- A dictionary is loaded from its dump with the entries whose section is there. -/
theorem iniparserLoad_dump (hfront : ∃ c ∈ front, c ≠ '\\') (h : d.Ok) (hd : Dumpable d.map)
    (hfew : d.n ≤ 2 ^ 28) (hsec : (∀ k, d.map k = none) ∨ ∃ s, ':' ∉ s ∧ d.map s ≠ none) :
    ∃ dump d', iniparserDumpIni d = some dump ∧ (dump.closed = true ∨ dump.text = []) ∧
      iniparserLoad front (some dump.text) = some (some d') ∧ d'.Ok ∧
      d'.map = d.map.dumped := by
  rcases hsec with hnone | hsec
  · refine ⟨_, dictionaryNew 0, iniparserDumpIni_empty hnone, .inr rfl, rfl, dictionaryNew_ok 0, ?_⟩
    funext k
    rw [Entries.dumped, hnone, if_pos rfl]
    exact congrFun (dictionaryNew_map 0) k
  · obtain ⟨text, d', hdump, hload, hok, hmap⟩ := load_dump_sections hfront h hd hfew hsec
    exact ⟨_, d', hdump, .inl rfl, hload, hok, hmap⟩

end

/-- The small names and values of the dumps below. -/
theorem entry_digit {s : Str} (hs : s.length ≤ 100) {c : Char} (hc : c ∈ ['1', '2']) :
    Entry s ['k'] [c] := by
  have hkey : KeyName ['k'] := by
    refine ⟨⟨by simp, ⟨?_, ?_⟩, rfl⟩, ?_, ?_⟩ <;> simp [isSpace, nul]
  have hval : PlainValue [c] := by
    rcases List.mem_pair.mp hc with rfl | rfl <;>
      exact ⟨⟨by simp [isSpace], by simp [isSpace]⟩, by simp [nul], by simp, by simp⟩
  refine ⟨hkey, hval, ?_, ?_⟩
  · exact (by decide : 30 + 1 + 3 < asciiLineSz)
  · exact (Nat.add_le_add_right hs 2).trans (by decide)

theorem sectionName_a : SectionName ['a'] where
  ne_nil := by simp
  trimmed := ⟨by simp [isSpace], by simp [isSpace]⟩
  lower := rfl
  plain := by simp [nul]

/-- An entry of a section that is not there is lost in the dump. -/
theorem iniparserLoad_dump_stray :
    ∃ d dump d', dictionaryGet d ['b', ':', 'k'] = some (some ['2']) ∧
      iniparserDumpIni d = some dump ∧ iniparserLoad (some 'x') (some dump.text) = some (some d') ∧
      dictionaryGet d' ['a', ':', 'k'] = some (some ['1']) ∧
      dictionaryGet d' ['b', ':', 'k'] = none := by
  obtain ⟨d, -, hok, hmap, hn⟩ := run_spec [.set ['a'] none, .set ['a', ':', 'k'] (some ['1']),
    .set ['b', ':', 'k'] (some ['2'])] (dictionaryNew_ok 0) (by decide)
  rw [dictionaryNew_map] at hmap
  have hcolon : ':' ∉ ['a'] ∧ ':' ∉ ['b'] := by simp
  have hdump : Dumpable d.map := by
    rw [hmap]
    have hsection := dumpable_empty.add_section sectionName_a (by decide) fun _ => rfl
    have hfirst := hsection.set_entry hcolon.1 (entry_digit (by simp) (List.mem_cons_self))
    exact hfirst.set_entry hcolon.2 (entry_digit (by simp) (by simp))
  have hsec : d.map ['a'] ≠ none := by
    rw [hmap]
    simp [Change.apply]
  have hfront : ∃ c ∈ some 'x', c ≠ '\\' := ⟨'x', rfl, by decide⟩
  obtain ⟨dump, d', hd, -, hload, hok', hmap'⟩ := iniparserLoad_dump hfront hok hdump
    (hn.trans (by decide)) (.inr ⟨['a'], hcolon.1, hsec⟩)
  refine ⟨d, dump, d', ?_, hd, hload, ?_, ?_⟩
  · rw [dictionaryGet_eq hok, hmap]
    rfl
  · rw [dictionaryGet_eq hok', hmap', hmap]
    rfl
  · rw [dictionaryGet_eq hok', hmap', hmap]
    rfl

/-! ### Files that are updated -/

/-- The calls of `iniparser_set` for some entries. -/
def setAll (d : Dictionary) (changes : List (Str × Option Str)) : Option Dictionary :=
  changes.foldlM (fun d change => (iniparserSet d change.1 change.2).map Prod.snd) d

/-- A file that is loaded, changed, and written again. -/
def updateFile (front : Option Char) (file : Str) (changes : List (Str × Option Str)) :
    Option Str :=
  (iniparserLoad front (some file)).bind fun ini =>
    ini.bind fun d => (setAll d changes).bind fun d => (iniparserDumpIni d).bind Dump.contents

/-- What `iniparser_set` makes of the entries. -/
def Entries.setAll (m : Entries) (changes : List (Str × Option Str)) : Entries :=
  changes.foldl (fun m change => Function.update m (strlwc change.1) (some change.2)) m

/-- A file that is loaded with the entries `m`. -/
def Holds (front : Option Char) (file : Str) (m : Entries) : Prop :=
  ∃ d, iniparserLoad front (some file) = some (some d) ∧ d.Ok ∧ d.map = m

/-- A file with one section, as it is written anew. -/
def newFile (s : Str) (entries : List (Str × Str)) : Str :=
  fileOf (sectionLine s :: entries.map fun e => memberLine e.1 0 e.2)

/-- A new file is loaded with its section and its entries. -/
theorem holds_newFile {front : Option Char} {s : Str} {entries : List (Str × Str)} {m : Entries}
    (hs : SectionName s) (hlen : s.length + 4 ≤ asciiLineSz)
    (hentries : ∀ e ∈ entries, Entry s e.1 e.2 ∧ m (s ++ ':' :: e.1) = some (some e.2))
    (hsec : m s = some none)
    (honly : ∀ k, m k ≠ none → k ∈ s :: entries.map fun e => s ++ ':' :: e.1)
    (hfew : entries.length < 2 ^ 28) : Holds front (newFile s entries) m := by
  have hkeys : {k | m k ≠ none} ⊆
      ((s :: entries.map fun e => s ++ ':' :: e.1).toFinset : Set Str) :=
    fun k hk => by simpa using honly k hk
  have hfinite : {k | m k ≠ none}.Finite := (Finset.finite_toSet _).subset hkeys
  have hncard : {k | m k ≠ none}.ncard ≤ 2 ^ 28 := by
    have hle := (Set.ncard_le_ncard hkeys (Finset.finite_toSet _)).trans
      ((Set.ncard_coe_finset _).le.trans (List.toFinset_card_le _))
    rw [List.length_cons, List.length_map] at hle
    omega
  have hwhole : ∀ w ∈ sectionLine s :: entries.map fun e => memberLine e.1 0 e.2,
      WholeLine front w := by
    refine List.forall_mem_cons.mpr ⟨?_, ?_⟩
    · have hwhole : WholeLine front (sectionLine s ++ []) :=
        wholeLine_section hs hlen (by simp)
      rwa [List.append_nil] at hwhole
    · intro w hw
      obtain ⟨e, he, rfl⟩ := List.mem_map.mp hw
      have hentry := (hentries e he).1
      have hline := hentry.line
      have hwhole : WholeLine front (memberLine e.1 0 e.2 ++ []) :=
        wholeLine_member hentry.key_name hentry.value (by rw [List.length_nil]; omega) (by simp)
      rwa [List.append_nil] at hwhole
  obtain ⟨l₁, hrun₁, hname₁, hfilled₁⟩ := (filled_start m).run_section hfinite hncard (t := []) hs
    (by omega) (by simp) hsec
  have hline : ∀ e : Str × Str, ∃ blanks t, memberLine e.1 0 e.2 =
      memberLine e.1 blanks e.2 ++ t ∧ ∀ c ∈ t, isSpace c :=
    fun e => ⟨0, [], (List.append_nil _).symm, by simp⟩
  rw [← hname₁] at hentries
  obtain ⟨l₂, done, hrun₂, hfilled₂, hsub, hmem⟩ :=
    hfilled₁.run_entries hfinite hncard hline entries hentries
  rw [List.append_nil] at hrun₁
  have hrun : Load.start.run (sectionLine s :: entries.map fun e => memberLine e.1 0 e.2) =
      .next l₂ := by
    rw [← List.singleton_append, Load.run_append, hrun₁]
    exact hrun₂
  refine ⟨l₂.dict, ?_, hfilled₂.ok, ?_⟩
  · rw [newFile, iniparserLoad_lines hwhole, hrun, Turn.result, hfilled₂.errs]
    rfl
  · apply hfilled₂.map_eq
    intro k hk
    rcases List.mem_cons.mp (honly k hk) with rfl | hk
    · exact hsub (Set.mem_insert _ _)
    · obtain ⟨e, he, rfl⟩ := List.mem_map.mp hk
      rw [← hname₁]
      exact hmem e he

/-- What the entries have to be before they are dumped. -/
def Entries.Fine (m : Entries) : Prop := Dumpable m ∧ ∃ s, ':' ∉ s ∧ m s ≠ none

section

variable {keys : Set Str} (hfinite : keys.Finite) (hfew : keys.ncard ≤ 2 ^ 28)

include hfinite hfew

theorem setAll_spec (changes : List (Str × Option Str)) {d : Dictionary} (h : d.Ok)
    (hkeys : ∀ k, d.map k ≠ none → k ∈ keys)
    (hchanges : ∀ change ∈ changes, strlwc change.1 ∈ keys) :
    ∃ d', setAll d changes = some d' ∧ d'.Ok ∧ d'.map = Entries.setAll d.map changes ∧
      ∀ k, d'.map k ≠ none → k ∈ keys := by
  induction changes generalizing d with
  | nil => exact ⟨d, rfl, h, rfl, hkeys⟩
  | cons change changes ih =>
      obtain ⟨hchange, hchanges⟩ := List.forall_mem_cons.mp hchanges
      obtain ⟨d₁, hset, hok₁, hmap₁, -⟩ := dictionarySet_spec h (strlwc change.1) change.2
        (h.room hfinite hfew hkeys hchange)
      have hkeys₁ : ∀ k, d₁.map k ≠ none → k ∈ keys := by
        intro k hk
        rcases eq_or_ne k (strlwc change.1) with rfl | hne
        · exact hchange
        · rw [hmap₁, Function.update_of_ne hne] at hk
          exact hkeys k hk
      obtain ⟨d₂, hall, hok₂, hmap₂, hkeys₂⟩ := ih hok₁ hkeys₁ hchanges
      refine ⟨d₂, ?_, hok₂, ?_, hkeys₂⟩
      · rw [setAll, List.foldlM_cons, iniparserSet, hset]
        exact hall
      · rw [hmap₂, hmap₁]
        rfl

/-- One update of a file. -/
theorem update_spec {front : Option Char} (hfront : ∃ c ∈ front, c ≠ '\\') {file : Str}
    {m : Entries}
    (h : Holds front file m) (hkeys : ∀ k, m k ≠ none → k ∈ keys)
    (changes : List (Str × Option Str)) (hchanges : ∀ change ∈ changes, strlwc change.1 ∈ keys)
    (hfine : (m.setAll changes).Fine) :
    ∃ file', updateFile front file changes = some file' ∧
      Holds front file' (m.setAll changes).dumped ∧
      ∀ k, (m.setAll changes).dumped k ≠ none → k ∈ keys := by
  obtain ⟨d, hload, hok, rfl⟩ := h
  obtain ⟨d₁, hset, hok₁, hmap₁, hkeys₁⟩ := setAll_spec hfinite hfew changes hok hkeys hchanges
  have hn : d₁.n ≤ 2 ^ 28 := by
    rw [hok₁.n_eq]
    exact_mod_cast (Set.ncard_le_ncard hkeys₁ hfinite).trans hfew
  rw [← hmap₁] at hfine ⊢
  obtain ⟨text, d₂, hdump, hload₂, hok₂, hmap₂⟩ :=
    load_dump_sections hfront hok₁ hfine.1 hn hfine.2
  refine ⟨text, ?_, ⟨d₂, hload₂, hok₂, hmap₂⟩, fun k hk => hkeys₁ k (Entries.of_dumped hk).2⟩
  rw [updateFile, hload, Option.bind_some, Option.bind_some, hset, Option.bind_some, hdump]
  rfl

end

/-- The entries are fine before each of the dumps. -/
def Entries.AllFine : Entries → List (List (Str × Option Str)) → Prop
  | _, [] => True
  | m, changes :: rest => (m.setAll changes).Fine ∧ AllFine (m.setAll changes).dumped rest

/-- A file that is updated again and again: it is loaded each time, no array is left, and in the end
it holds the entries of all updates. Its keys are among few ones. -/
theorem updates_spec {front : Option Char} (hfront : ∃ c ∈ front, c ≠ '\\') {keys : Set Str}
    (hfinite : keys.Finite) (hfew : keys.ncard ≤ 2 ^ 28)
    (updates : List (List (Str × Option Str)))
    (hupdates : ∀ changes ∈ updates, ∀ change ∈ changes, strlwc change.1 ∈ keys) {file : Str}
    {m : Entries} (h : Holds front file m) (hkeys : ∀ k, m k ≠ none → k ∈ keys)
    (hfine : m.AllFine updates) :
    ∃ file', updates.foldlM (updateFile front) file = some file' ∧
      Holds front file' (updates.foldl (fun m changes => (m.setAll changes).dumped) m) := by
  induction updates generalizing file m with
  | nil => exact ⟨file, rfl, h⟩
  | cons changes updates ih =>
      obtain ⟨hchanges, hupdates⟩ := List.forall_mem_cons.mp hupdates
      obtain ⟨file₁, hupdate, hholds, hkeys₁⟩ :=
        update_spec hfinite hfew hfront h hkeys changes hchanges hfine.1
      obtain ⟨file₂, hrun, hholds₂⟩ := ih hupdates hholds hkeys₁ hfine.2
      refine ⟨file₂, ?_, hholds₂⟩
      rw [List.foldlM_cons, hupdate]
      exact hrun

/-- A value is replaced, under its name in capitals. -/
theorem updates_spec_once :
    ∃ file' m, [[(['A', ':', 'K'], some ['2'])]].foldlM (updateFile (some 'x'))
        (newFile ['a'] [(['k'], ['1'])]) = some file' ∧ Holds (some 'x') file' m ∧
      m ['a', ':', 'k'] = some (some ['2']) := by
  obtain ⟨m, hm⟩ : ∃ m : Entries, m = Function.update
      (Function.update (fun _ => none) ['a'] (some none)) ['a', ':', 'k'] (some (some ['1'])) :=
    ⟨_, rfl⟩
  have hcolon : ':' ∉ ['a'] := by simp
  have hone : Entry ['a'] ['k'] ['1'] := entry_digit (by decide) (by simp)
  have htwo : Entry ['a'] ['k'] ['2'] := entry_digit (by decide) (by simp)
  have hsec : m ['a'] = some none := by
    rw [hm]
    rfl
  have hdump : Dumpable m := by
    rw [hm]
    exact (dumpable_empty.add_section sectionName_a (by decide) fun _ => rfl).set_entry hcolon hone
  have hkeys : ∀ k, m k ≠ none → k ∈ [['a'], ['a', ':', 'k']] := by
    intro k hk
    by_contra hmem
    simp only [List.mem_cons, List.not_mem_nil, or_false, not_or] at hmem
    rw [hm, Function.update_of_ne hmem.2, Function.update_of_ne hmem.1] at hk
    exact hk rfl
  have hentries : ∀ e ∈ [(['k'], ['1'])],
      Entry ['a'] e.1 e.2 ∧ m (['a'] ++ ':' :: e.1) = some (some e.2) := by
    intro e he
    obtain rfl := List.mem_singleton.mp he
    exact ⟨hone, by rw [hm]; rfl⟩
  have hholds : Holds (some 'x') (newFile ['a'] [(['k'], ['1'])]) m :=
    holds_newFile sectionName_a (by decide) hentries hsec hkeys (by decide)
  have hset : m.setAll [(['A', ':', 'K'], some ['2'])] =
      Function.update m ['a', ':', 'k'] (some (some ['2'])) := rfl
  have hsec' : m.setAll [(['A', ':', 'K'], some ['2'])] ['a'] ≠ none := by
    rw [hset, Function.update_of_ne (by simp), hsec]
    simp
  have hfine : m.AllFine [[(['A', ':', 'K'], some ['2'])]] :=
    ⟨⟨hdump.set_entry hcolon htwo, ['a'], hcolon, hsec'⟩, trivial⟩
  have hcard : ({['a'], ['a', ':', 'k']} : Set Str).ncard ≤ 2 ^ 28 := by
    have hinsert := Set.ncard_insert_le ['a'] {['a', ':', 'k']}
    rw [Set.ncard_singleton] at hinsert
    omega
  have hfront : ∃ c ∈ some 'x', c ≠ '\\' := ⟨'x', rfl, by decide⟩
  obtain ⟨file', hrun, hholds'⟩ := updates_spec hfront (Set.toFinite _) hcard
    [[(['A', ':', 'K'], some ['2'])]] (List.forall_mem_singleton.mpr
      (List.forall_mem_singleton.mpr (Set.mem_insert_of_mem _ rfl))) hholds
    (fun k hk => by simpa using hkeys k hk) hfine
  refine ⟨file', _, hrun, hholds', ?_⟩
  rw [List.foldl_cons, List.foldl_nil]
  refine (Entries.dumped_entry _ hcolon hsec' ['k']).trans ?_
  rw [hset]
  exact Function.update_self _ _ _

end PanelTester.Ini
