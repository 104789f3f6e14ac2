import PanelTester.Library.CString
import PanelTester.Library.Slots

/-!
The dictionary that the ini files are read into: three arrays of one size, for the keys, the values
and the hashes of the keys. A key is compared only where its hash is the one looked for, the first
free slot takes a new key, and the arrays are doubled when no slot is free. After any run of
`dictionary_set` and `dictionary_unset` it is the finite map of the run (`run_dictionaryNew`).
-/

namespace PanelTester.Ini

open Library

/-- One index of the three arrays. -/
structure Slot where
  key : Option Str
  val : Option Str
  hash : UInt32
  deriving DecidableEq, Repr

/-- What `calloc` leaves at an index. -/
def Slot.free : Slot := ⟨none, none, 0⟩

/-- `dictionary`; its `size` is the number of slots. -/
structure Dictionary where
  n : ℤ
  slots : List Slot
  deriving DecidableEq, Repr

/-- `DICTMINSZ` -/
def dictMinSz : ℤ := 128

/-- `dictionary_hash` -/
def dictionaryHash (key : Str) : UInt32 :=
  let hash := key.foldl (fun hash c =>
    let hash := hash + UInt32.ofNat c.toNat
    let hash := hash + (hash <<< 10)
    hash ^^^ (hash >>> 6)) 0
  let hash := hash + (hash <<< 3)
  let hash := hash ^^^ (hash >>> 11)
  hash + (hash <<< 15)

/-- `dictionary_new` -/
def dictionaryNew (size : ℤ) : Dictionary :=
  ⟨0, List.replicate (if size < dictMinSz then dictMinSz else size).toNat .free⟩

/-- The comparison of a slot with a key: the hashes first, then the keys. -/
def Slot.holds (hash : UInt32) (key : Str) (s : Slot) : Bool :=
  match s.key with
  | none => false
  | some k => hash == s.hash && key == k

/-- `dictionary_get`; nothing where the default is returned. -/
def dictionaryGet (d : Dictionary) (key : Str) : Option (Option Str) :=
  (d.slots.find? (Slot.holds (dictionaryHash key) key)).map Slot.val

/-- The three calls of `mem_double`. Its sizes are numbers of bytes in an `int`, and a pointer has
four. -/
def Dictionary.double (d : Dictionary) : Option Dictionary :=
  if 2 * (4 * d.slots.length) < 2 ^ 31 then
    some ⟨d.n, d.slots ++ List.replicate d.slots.length .free⟩
  else none

/-- `dictionary_set`; no result where it leaves the arrays or the `int`s. -/
def dictionarySet (d : Dictionary) (key : Option Str) (val : Option Str) :
    Option (ℤ × Dictionary) :=
  match key with
  | none => some (-1, d)
  | some key =>
      let hash := dictionaryHash key
      match if 0 < d.n then d.slots.findIdx? (Slot.holds hash key) else none with
      | some i => some (0, ⟨d.n, d.slots.modify i fun s => { s with val := val }⟩)
      | none =>
          (if d.n = d.slots.length then d.double else some d).bind fun d =>
            (d.slots.findIdx? fun s => s.key.isNone).map fun i =>
              (0, ⟨d.n + 1, d.slots.set i ⟨some key, val, hash⟩⟩)

/-- `dictionary_unset` -/
def dictionaryUnset (d : Dictionary) (key : Option Str) : Dictionary :=
  match key with
  | none => d
  | some key =>
      match d.slots.findIdx? (Slot.holds (dictionaryHash key) key) with
      | none => d
      | some i => ⟨d.n - 1, d.slots.set i .free⟩

/-! ### The map of a dictionary -/

/-- A value for some keys, which may be a null pointer. -/
abbrev Entries := Str → Option (Option Str)

/-- What a dictionary says of each key. -/
def Dictionary.map (d : Dictionary) : Entries := fun key =>
  (Slots.lookup Slot.key d.slots key).map Slot.val

/-- What every dictionary keeps. -/
structure Dictionary.Ok (d : Dictionary) : Prop where
  count : d.n = Slots.used Slot.key d.slots
  distinct : Slots.Distinct Slot.key d.slots
  hash : ∀ s ∈ d.slots, ∀ k, s.key = some k → s.hash = dictionaryHash k
  size : 0 < d.slots.length

section

variable {d : Dictionary} {key : Str}

/-- With the right hashes the comparison is the one of the keys. -/
theorem Dictionary.Ok.holds_eq (h : d.Ok) {s : Slot} (hs : s ∈ d.slots) (key : Str) :
    s.holds (dictionaryHash key) key = decide (s.key = some key) := by
  rw [Slot.holds]
  cases hkey : s.key with
  | none => rfl
  | some k =>
      rw [h.hash s hs k hkey]
      rcases eq_or_ne key k with rfl | hne
      · simp
      · simp [hne, Ne.symm hne]

theorem Dictionary.Ok.find_holds (h : d.Ok) (key : Str) :
    d.slots.find? (Slot.holds (dictionaryHash key) key) = Slots.lookup Slot.key d.slots key :=
  List.find?_congr fun _ hs => h.holds_eq hs key

/-- The hashes change no look-up. -/
theorem dictionaryGet_eq (h : d.Ok) (key : Str) : dictionaryGet d key = d.map key := by
  rw [dictionaryGet, h.find_holds, Dictionary.map]

/-- The index at which a key stands. -/
theorem Dictionary.Ok.findIdx_of_map (h : d.Ok) (hmap : d.map key ≠ none) :
    ∃ i s, d.slots.findIdx? (Slot.holds (dictionaryHash key) key) = some i ∧
      d.slots[i]? = some s ∧ s.key = some key := by
  cases hfind : d.slots.findIdx? (Slot.holds (dictionaryHash key) key) with
  | none =>
      refine absurd ?_ hmap
      have hnone : Slots.lookup Slot.key d.slots key = none := by
        rw [← h.find_holds, List.find?_eq_none]
        intro s hs
        simpa using List.findIdx?_eq_none_iff.mp hfind s hs
      rw [Dictionary.map, hnone]
      rfl
  | some i =>
      obtain ⟨hlt, hi, -⟩ := List.findIdx?_eq_some_iff_getElem.mp hfind
      refine ⟨i, d.slots[i], rfl, List.getElem?_eq_getElem hlt, ?_⟩
      rw [h.holds_eq (List.getElem_mem hlt)] at hi
      exact of_decide_eq_true hi

theorem lookup_of_map (hmap : d.map key = none) : Slots.lookup Slot.key d.slots key = none := by
  rw [Dictionary.map] at hmap
  exact Option.map_eq_none_iff.mp hmap

theorem Dictionary.Ok.findIdx_of_not_map (h : d.Ok) (hmap : d.map key = none) :
    d.slots.findIdx? (Slot.holds (dictionaryHash key) key) = none := by
  rw [List.findIdx?_eq_none_iff]
  intro s hs
  rw [h.holds_eq hs, decide_eq_false_iff_not]
  exact Slots.lookup_eq_none.mp (lookup_of_map hmap) s hs

/-! ### Setting and removing keys -/

/-- A write of one slot keeps a dictionary. -/
theorem Dictionary.Ok.set (h : d.Ok) {i : ℕ} {s t : Slot} (hi : d.slots[i]? = some t)
    (hkey : ∀ k, s.key = some k → t.key = some k ∨ Slots.lookup Slot.key d.slots k = none)
    (hhash : ∀ k, s.key = some k → s.hash = dictionaryHash k) {n : ℤ}
    (hn : n + (if t.key.isSome then 1 else 0) = d.n + if s.key.isSome then 1 else 0) :
    (⟨n, d.slots.set i s⟩ : Dictionary).Ok where
  count := by
    have hused := Slots.used_set Slot.key s hi
    have hcount := h.count
    show n = Slots.used Slot.key (d.slots.set i s)
    split_ifs at hused hn <;> omega
  distinct := h.distinct.set hi hkey
  hash u hu k hk := by
    rcases List.mem_or_eq_of_mem_set hu with hu | rfl
    · exact h.hash u hu k hk
    · exact hhash k hk
  size := by simpa using h.size

/-- A new key, and where it goes. -/
theorem Dictionary.Ok.add (h : d.Ok) (hmap : d.map key = none) (val : Option Str) {i : ℕ} {t : Slot}
    (hi : d.slots[i]? = some t) (ht : t.key = none) :
    (⟨d.n + 1, d.slots.set i ⟨some key, val, dictionaryHash key⟩⟩ : Dictionary).Ok ∧
      (⟨d.n + 1, d.slots.set i ⟨some key, val, dictionaryHash key⟩⟩ : Dictionary).map =
        Function.update d.map key (some val) := by
  have hkey : ∀ k, some key = some k → t.key = some k ∨ Slots.lookup Slot.key d.slots k = none := by
    intro k hk
    obtain rfl := Option.some.inj hk
    exact .inr (lookup_of_map hmap)
  refine ⟨h.set hi hkey ?_ ?_, ?_⟩
  · intro k hk
    obtain rfl := Option.some.inj hk
    rfl
  · simp [ht]
  · funext k
    rw [Dictionary.map, Slots.lookup_set h.distinct hi hkey, ht]
    rcases eq_or_ne k key with rfl | hne
    · simp
    · rw [Function.update_of_ne hne, if_neg fun heq => hne (Option.some.inj heq).symm,
        if_neg (Option.some_ne_none k).symm]
      rfl

/-- The doubled arrays say the same of each key. -/
theorem Dictionary.Ok.double (h : d.Ok) :
    (⟨d.n, d.slots ++ List.replicate d.slots.length .free⟩ : Dictionary).Ok ∧
      (⟨d.n, d.slots ++ List.replicate d.slots.length .free⟩ : Dictionary).map = d.map := by
  have hfree : ∀ s ∈ List.replicate d.slots.length Slot.free, s.key = none := by
    intro s hs
    rw [List.eq_of_mem_replicate hs]
    rfl
  refine ⟨⟨?_, h.distinct.append_free hfree, ?_, ?_⟩, ?_⟩
  · rw [Slots.used_append_free hfree]
    exact h.count
  · intro s hs k hk
    rcases List.mem_append.mp hs with hs | hs
    · exact h.hash s hs k hk
    · exact absurd hk (by simp [hfree s hs])
  · rw [List.length_append]
    exact Nat.lt_add_right _ h.size
  · funext k
    rw [Dictionary.map, Slots.lookup_append_free hfree, Dictionary.map]

/-- A key with a value: the arrays are not left, and the map has the value in the end. -/
theorem dictionarySet_spec (h : d.Ok) (key : Str) (val : Option Str)
    (hroom : d.map key = none → d.n < 2 ^ 28) :
    ∃ d', dictionarySet d (some key) val = some (0, d') ∧ d'.Ok ∧
      d'.map = Function.update d.map key (some val) ∧
      d'.n = d.n + if d.map key = none then 1 else 0 := by
  by_cases hmap : d.map key = none
  · have hfind : (if 0 < d.n then d.slots.findIdx? (Slot.holds (dictionaryHash key) key)
        else none) = none := by
      rw [h.findIdx_of_not_map hmap, ite_self]
    -- the dictionary behind the check whether it has to grow
    obtain ⟨e, he, hok, hemap, hen, hfull⟩ : ∃ e,
        (if d.n = d.slots.length then d.double else some d) = some e ∧ e.Ok ∧ e.map = d.map ∧
          e.n = d.n ∧ Slots.used Slot.key e.slots < e.slots.length := by
      have hcount := h.count
      have hle := Slots.used_le_length Slot.key d.slots
      by_cases hn : d.n = d.slots.length
      · have hroom := hroom hmap
        rw [if_pos hn, Dictionary.double, if_pos (by omega)]
        have hdouble := h.double
        refine ⟨_, rfl, hdouble.1, hdouble.2, rfl, ?_⟩
        have hcount' := hdouble.1.count
        have hsize := h.size
        rw [List.length_append, List.length_replicate]
        dsimp only at hcount' ⊢
        omega
      · rw [if_neg hn]
        exact ⟨d, rfl, h, rfl, rfl, by omega⟩
    obtain ⟨i, t, hfree, hi, ht⟩ := Slots.exists_free hfull
    obtain ⟨hadd, haddmap⟩ := hok.add (hemap ▸ hmap) val hi ht
    rw [hen] at hadd haddmap
    refine ⟨_, ?_, hadd, ?_, ?_⟩
    · rw [dictionarySet, hfind]
      simp only [he, Option.bind_some, hfree, Option.map_some, hen]
    · rw [haddmap, hemap]
    · rw [if_pos hmap]
  · obtain ⟨i, t, hfind, hi, ht⟩ := h.findIdx_of_map hmap
    have hlt := Slots.lt_of_getElem? hi
    have hpos : 0 < d.n := by
      have hcount := h.count
      have hused : 0 < Slots.used Slot.key d.slots :=
        List.countP_pos_iff.mpr ⟨t, List.mem_of_getElem? hi, by simp [ht]⟩
      omega
    have hmodify : d.slots.modify i (fun s => { s with val := val }) =
        d.slots.set i { t with val := val } := by
      rw [List.modify_eq_set_getElem?, hi]
      rfl
    have hkey : ∀ k, t.key = some k →
        t.key = some k ∨ Slots.lookup Slot.key d.slots k = none := fun _ hk => .inl hk
    refine ⟨⟨d.n, d.slots.set i { t with val := val }⟩, ?_, ?_, ?_, ?_⟩
    · rw [dictionarySet, if_pos hpos, hfind, ← hmodify]
    · exact h.set (s := { t with val := val }) hi hkey (h.hash t (List.mem_of_getElem? hi)) rfl
    · funext k
      rw [Dictionary.map, Slots.lookup_set (s := { t with val := val }) h.distinct hi hkey, ht]
      rcases eq_or_ne k key with rfl | hne
      · simp
      · have hne' : ¬ some key = some k := fun heq => hne (Option.some.inj heq).symm
        rw [Function.update_of_ne hne, if_neg hne', if_neg hne']
        rfl
    · rw [if_neg hmap, add_zero]

/-- A key that is removed is not found any more, and the others stay as they are. -/
theorem dictionaryUnset_spec (h : d.Ok) (key : Str) :
    (dictionaryUnset d (some key)).Ok ∧
      (dictionaryUnset d (some key)).map = Function.update d.map key none ∧
      (dictionaryUnset d (some key)).n = d.n - if d.map key = none then 0 else 1 := by
  by_cases hmap : d.map key = none
  · rw [dictionaryUnset, h.findIdx_of_not_map hmap, if_pos hmap, sub_zero]
    refine ⟨h, ?_, rfl⟩
    rw [← hmap, Function.update_eq_self]
  · obtain ⟨i, t, hfind, hi, ht⟩ := h.findIdx_of_map hmap
    rw [dictionaryUnset, hfind, if_neg hmap]
    have hkey : ∀ k, Slot.free.key = some k →
        t.key = some k ∨ Slots.lookup Slot.key d.slots k = none := by
      intro k hk
      exact absurd hk (by simp [Slot.free])
    refine ⟨h.set hi hkey ?_ ?_, ?_, rfl⟩
    · intro k hk
      exact absurd hk (by simp [Slot.free])
    · simp [ht, Slot.free]
    · funext k
      rw [Dictionary.map, Slots.lookup_set h.distinct hi hkey, ht]
      rcases eq_or_ne k key with rfl | hne
      · simp [Slot.free]
      · rw [Function.update_of_ne hne, if_neg (by simp [Slot.free]),
          if_neg fun heq => hne (Option.some.inj heq).symm]
        rfl

end

/-! ### Runs -/

theorem dictionaryNew_ok (size : ℤ) : (dictionaryNew size).Ok where
  count := by
    have hzero : Slots.used Slot.key (dictionaryNew size).slots = 0 :=
      List.countP_eq_zero.mpr fun s hs => by simp [List.eq_of_mem_replicate hs, Slot.free]
    rw [hzero]
    rfl
  distinct i j s t k hi _ hs _ := by
    rw [List.eq_of_mem_replicate (List.mem_of_getElem? hi)] at hs
    exact absurd hs (by simp [Slot.free])
  hash s hs k hk := by
    rw [List.eq_of_mem_replicate hs] at hk
    exact absurd hk (by simp [Slot.free])
  size := by
    rw [dictionaryNew, List.length_replicate, dictMinSz]
    split_ifs <;> omega

theorem dictionaryNew_map (size : ℤ) : (dictionaryNew size).map = fun _ => none := by
  funext k
  have hnone : Slots.lookup Slot.key (dictionaryNew size).slots k = none :=
    Slots.lookup_eq_none.mpr fun s hs => by simp [List.eq_of_mem_replicate hs, Slot.free]
  rw [Dictionary.map, hnone]
  rfl

theorem Dictionary.map_ne_none (d : Dictionary) :
    {k | d.map k ≠ none} = {k | Slots.lookup Slot.key d.slots k ≠ none} := by
  ext k
  simp [Dictionary.map]

theorem Dictionary.finite_map (d : Dictionary) : {k | d.map k ≠ none}.Finite := by
  rw [d.map_ne_none]
  exact Slots.finite_keys Slot.key d.slots

/-- As many keys as the map has. -/
theorem Dictionary.Ok.n_eq {d : Dictionary} (h : d.Ok) : d.n = {k | d.map k ≠ none}.ncard := by
  rw [h.count, Slots.used_eq_ncard h.distinct, d.map_ne_none]

/-- A dictionary whose keys are all among few ones has room for each of these. -/
theorem Dictionary.Ok.room {d : Dictionary} (h : d.Ok) {keys : Set Str} (hfinite : keys.Finite)
    (hfew : keys.ncard ≤ 2 ^ 28) (hkeys : ∀ k, d.map k ≠ none → k ∈ keys) {key : Str}
    (hkey : key ∈ keys) (hnone : d.map key = none) : d.n < 2 ^ 28 := by
  have hsub : {k | d.map k ≠ none} ⊂ keys := by
    refine ⟨hkeys, ?_⟩
    intro hsub
    exact hsub hkey hnone
  have hlt := Set.ncard_lt_ncard hsub hfinite
  rw [h.n_eq]
  exact_mod_cast hlt.trans_le hfew

/-- A change of a dictionary. -/
inductive Change
  | set (key : Str) (val : Option Str)
  | unset (key : Str)

def Change.exec (d : Dictionary) : Change → Option Dictionary
  | .set key val => (dictionarySet d (some key) val).map Prod.snd
  | .unset key => some (dictionaryUnset d (some key))

/-- What a change makes of a map. -/
def Change.apply (m : Entries) : Change → Entries
  | .set key val => Function.update m key (some val)
  | .unset key => Function.update m key none

theorem Change.exec_spec {d : Dictionary} (h : d.Ok) (change : Change) (hroom : d.n < 2 ^ 28) :
    ∃ d', change.exec d = some d' ∧ d'.Ok ∧ d'.map = change.apply d.map ∧ d'.n ≤ d.n + 1 := by
  cases change with
  | set key val =>
      obtain ⟨d', hset, hok, hmap, hn⟩ := dictionarySet_spec h key val fun _ => hroom
      refine ⟨d', ?_, hok, hmap, ?_⟩
      · rw [exec, hset]
        rfl
      · rw [hn]
        split_ifs <;> omega
  | unset key =>
      obtain ⟨hok, hmap, hn⟩ := dictionaryUnset_spec h key
      refine ⟨_, rfl, hok, hmap, ?_⟩
      rw [hn]
      split_ifs <;> omega

theorem run_spec (changes : List Change) {d : Dictionary} (h : d.Ok)
    (hfew : d.n + changes.length ≤ 2 ^ 28) :
    ∃ d', changes.foldlM Change.exec d = some d' ∧ d'.Ok ∧
      d'.map = changes.foldl Change.apply d.map ∧ d'.n ≤ d.n + changes.length := by
  induction changes generalizing d with
  | nil => exact ⟨d, rfl, h, rfl, by simp⟩
  | cons change changes ih =>
      rw [List.length_cons] at hfew
      obtain ⟨d₁, hexec, hok₁, hmap₁, hn₁⟩ := change.exec_spec h (by omega)
      obtain ⟨d₂, hrun, hok₂, hmap₂, hn₂⟩ := ih hok₁ (by omega)
      refine ⟨d₂, ?_, hok₂, ?_, ?_⟩
      · rw [List.foldlM_cons, hexec]
        exact hrun
      · rw [hmap₂, hmap₁, List.foldl_cons]
      · rw [List.length_cons]
        omega

/-- Any run of changes of a new dictionary: the arrays are never left, each key has the value it
was set to last, and `n` is the number of keys. -/
theorem run_dictionaryNew (size : ℤ) (changes : List Change) (hfew : changes.length ≤ 2 ^ 28) :
    ∃ d, changes.foldlM Change.exec (dictionaryNew size) = some d ∧
      (∀ key, dictionaryGet d key = changes.foldl Change.apply (fun _ => none) key) ∧
      d.n = {key | changes.foldl Change.apply (fun _ => none) key ≠ none}.ncard := by
  have hstart : (dictionaryNew size).n + changes.length ≤ 2 ^ 28 := by
    show 0 + _ ≤ _
    omega
  obtain ⟨d, hrun, hok, hmap, -⟩ := run_spec changes (dictionaryNew_ok size) hstart
  rw [dictionaryNew_map] at hmap
  refine ⟨d, hrun, ?_, ?_⟩
  · intro key
    rw [dictionaryGet_eq hok, hmap]
  · rw [hok.n_eq, hmap]

/-- A key that is set, set again and removed, among others. -/
theorem run_dictionaryNew_unset :
    ∃ d, [Change.set ['a'] none, .set ['b'] (some ['1']), .set ['a'] (some ['2']),
        .unset ['b']].foldlM Change.exec (dictionaryNew 0) = some d ∧
      dictionaryGet d ['a'] = some (some ['2']) ∧ dictionaryGet d ['b'] = none := by
  obtain ⟨d, hrun, hget, -⟩ := run_dictionaryNew 0 [Change.set ['a'] none,
    .set ['b'] (some ['1']), .set ['a'] (some ['2']), .unset ['b']] (by decide)
  exact ⟨d, hrun, hget _, hget _⟩

end PanelTester.Ini
