import PanelTester.Library.CString

/-!
Strings that `strcpy` copies one after the other into the entries of one array of characters,
each entry cleared before. A string that is longer than its entry runs on into the entries
behind it, where the next strings are copied over it; `runOn` is what the entries hold in the
end (`stringAt_copyStrings`). How far a copy may reach is a parameter: to the end of its entry,
or to the end of the array.
-/

namespace PanelTester.Library

/-- The terminating zero. -/
def nul : Char := Char.ofNat 0

/-- `s` written over `mem` from `i` on. -/
def overwrite {α : Type} (mem : List α) (i : ℕ) (s : List α) : List α :=
  mem.take i ++ s ++ mem.drop (i + s.length)

/-- How far the copy of a string may reach. -/
inductive Room
  | entry
  | array

/-- The end of the room for the string that is copied into entry `n`. -/
def Room.limit (w size n : ℕ) : Room → ℕ
  | .entry => w * n + w
  | .array => size

/-- An entry of `w` characters is cleared by `memset`, and `strcpy` copies a string into it. -/
def copyString (w : ℕ) (room : Room) (mem : Str) (n : ℕ) (s : Str) : Option Str :=
  if w * n + w ≤ mem.length ∧ w * n + (s ++ [nul]).length ≤ room.limit w mem.length n then
    some (overwrite (overwrite mem (w * n) (List.replicate w nul)) (w * n) (s ++ [nul]))
  else none

/-- Strings are copied one after the other, the first into entry `n`. -/
def copyStrings (w : ℕ) (room : Room) : ℕ → List Str → Str → Option Str
  | _, [], mem => some mem
  | n, s :: ss, mem => (copyString w room mem n s).bind (copyStrings w room (n + 1) ss)

/-- The string that begins with entry `i`. -/
def stringAt (w : ℕ) (mem : Str) (i : ℕ) : Str := untilNul (mem.drop (w * i))

/-- The strings that begin with the entries that `ss` were copied into. -/
def runOn (w : ℕ) : List Str → List Str
  | [] => []
  | [s] => [s]
  | s :: t :: ss =>
      (if s.length < w then s else s.take w ++ (runOn w (t :: ss)).headD []) :: runOn w (t :: ss)

@[simp] theorem length_runOn (w : ℕ) (ss : List Str) : (runOn w ss).length = ss.length := by
  induction ss using runOn.induct with
  | case1 => rfl
  | case2 s => rfl
  | case3 s t ss ih => rw [runOn, List.length_cons, ih, ← List.length_cons]

/-- Strings that fit their entries stay as they are. -/
theorem runOn_of_short {w : ℕ} {ss : List Str} (h : ∀ s ∈ ss, s.length < w) : runOn w ss = ss := by
  induction ss using runOn.induct with
  | case1 => rfl
  | case2 s => rfl
  | case3 s t ss ih =>
      obtain ⟨hs, hss⟩ := List.forall_mem_cons.mp h
      rw [runOn, if_pos hs, ih hss]

/-! ### Writing over characters -/

section

variable {α : Type} {mem s : List α} {i : ℕ}

@[simp] theorem overwrite_nil (mem : List α) (i : ℕ) : overwrite mem i [] = mem := by
  rw [overwrite, List.append_nil, List.length_nil, Nat.add_zero, List.take_append_drop]

theorem length_overwrite (h : i + s.length ≤ mem.length) :
    (overwrite mem i s).length = mem.length := by
  simp only [overwrite, List.length_append, List.length_take, List.length_drop]
  omega

theorem take_overwrite (h : i ≤ mem.length) : (overwrite mem i s).take i = mem.take i := by
  rw [overwrite, List.append_assoc, List.take_append_of_le_length (by rw [List.length_take]; omega),
    List.take_take, Nat.min_self]

theorem drop_overwrite (h : i ≤ mem.length) :
    (overwrite mem i s).drop i = s ++ mem.drop (i + s.length) := by
  have hlen : (mem.take i).length = i := List.length_take_of_le h
  rw [overwrite, List.append_assoc, List.drop_append_of_le_length hlen.ge,
    List.drop_eq_nil_of_le hlen.le, List.nil_append]

/-- What is written over all but the first of what was written before. -/
theorem overwrite_overwrite_succ {t : List α} {a : α} (hi : i ≤ mem.length)
    (hlen : s.length ≤ t.length) :
    overwrite (overwrite mem i (a :: s)) (i + 1) t = overwrite mem i (a :: t) := by
  have htake : (mem.take i).length = i := List.length_take_of_le hi
  have hfirst : (overwrite mem i (a :: s)).take (i + 1) = mem.take i ++ [a] := by
    rw [overwrite, List.append_assoc, List.take_append, List.take_of_length_le (by omega), htake,
      Nat.add_sub_cancel_left, List.cons_append, List.take_succ_cons, List.take_zero]
  have hrest : (overwrite mem i (a :: s)).drop (i + 1 + t.length) =
      mem.drop (i + (a :: t).length) := by
    have hwritten : (mem.take i ++ a :: s).length = i + 1 + s.length := by
      rw [List.length_append, htake, List.length_cons]
      omega
    rw [overwrite, List.drop_append, List.drop_eq_nil_of_le (by omega), List.nil_append,
      List.drop_drop, hwritten, List.length_cons, List.length_cons]
    congr 1
    omega
  rw [overwrite, hfirst, hrest, List.append_assoc, List.append_assoc, List.singleton_append,
    overwrite, List.append_assoc, List.cons_append]

/-- What is written right behind what was written before. -/
theorem overwrite_overwrite_append (hi : i ≤ mem.length) (t : List α) :
    overwrite (overwrite mem i s) (i + s.length) t = overwrite mem i (s ++ t) := by
  have hwritten : (mem.take i ++ s).length = i + s.length := by
    rw [List.length_append, List.length_take_of_le hi]
  have hfirst : (overwrite mem i s).take (i + s.length) = mem.take i ++ s := by
    rw [overwrite, List.take_append_of_le_length hwritten.ge, List.take_of_length_le hwritten.le]
  have hrest : (overwrite mem i s).drop (i + s.length + t.length) =
      mem.drop (i + (s ++ t).length) := by
    rw [overwrite, List.drop_append, List.drop_eq_nil_of_le (by omega), List.nil_append,
      List.drop_drop, hwritten, List.length_append]
    congr 1
    omega
  rw [overwrite, hfirst, hrest, List.append_assoc (mem.take i), overwrite]

/-- The last of what was written. -/
theorem getElem?_overwrite_last (hi : i ≤ mem.length) (hs : s ≠ []) :
    (overwrite mem i s)[i + s.length - 1]? = s.getLast? := by
  have hpos := List.length_pos_iff.mpr hs
  have hbehind : (overwrite mem i s)[i + (s.length - 1)]? =
      ((overwrite mem i s).drop i)[s.length - 1]? := List.getElem?_drop.symm
  rw [Nat.add_sub_assoc (by omega), hbehind, drop_overwrite hi,
    List.getElem?_append_left (by omega), List.getLast?_eq_getElem?]

end

theorem untilNul_append {s : Str} (hs : nul ∉ s) (t : Str) :
    untilNul (s ++ t) = s ++ untilNul t := by
  apply List.takeWhile_append_of_pos
  intro c hc
  exact decide_eq_true fun h : c = nul => hs (h ▸ hc)

theorem untilNul_eq_self {s : Str} (h : nul ∉ s) : untilNul s = s := by
  apply List.takeWhile_eq_self_iff.mpr
  intro c hc
  apply decide_eq_true
  rintro rfl
  exact h hc

theorem untilNul_cons_nul (t : Str) : untilNul (nul :: t) = [] :=
  List.takeWhile_cons_of_neg (by simp [nul])

/-! ### What the entries hold -/

section

variable {w n : ℕ} {room : Room} {mem mem' s : Str} {ss : List Str}

theorem limit_le (h : w * n + w ≤ mem.length) : room.limit w mem.length n ≤ mem.length := by
  cases room with
  | entry => exact h
  | array => exact le_rfl

/-- What is in front of the entry stays, and the string stands in it. -/
theorem copyString_eq_some (h : copyString w room mem n s = some mem') :
    mem'.length = mem.length ∧ mem'.take (w * n) = mem.take (w * n) ∧
      ∃ rest, mem'.drop (w * n) = s ++ nul :: rest := by
  rw [copyString] at h
  split at h
  · rename_i hroom
    obtain ⟨hentry, hlimit⟩ := hroom
    obtain rfl := Option.some.inj h
    have hcopy := hlimit.trans (limit_le hentry)
    have hcleared : (overwrite mem (w * n) (List.replicate w nul)).length = mem.length :=
      length_overwrite (by rwa [List.length_replicate])
    refine ⟨?_, ?_, ?_⟩
    · rw [length_overwrite (by rwa [hcleared]), hcleared]
    · rw [take_overwrite (by omega), take_overwrite (by omega)]
    · rw [drop_overwrite (by omega), List.append_assoc]
      exact ⟨_, rfl⟩
  · exact absurd h (by simp)

theorem copyStrings_eq_some (h : copyStrings w room n ss mem = some mem') :
    mem'.length = mem.length ∧ mem'.take (w * n) = mem.take (w * n) := by
  induction ss generalizing n mem with
  | nil =>
      obtain rfl := Option.some.inj h
      exact ⟨rfl, rfl⟩
  | cons s ss ih =>
      obtain ⟨mem₁, hfirst, h⟩ := Option.bind_eq_some_iff.mp h
      obtain ⟨hlen₁, htake₁, -⟩ := copyString_eq_some hfirst
      obtain ⟨hlen, htake⟩ := ih h
      refine ⟨hlen.trans hlen₁, ?_⟩
      have hnarrow := congrArg (List.take (w * n)) htake
      rw [List.take_take, List.take_take,
        Nat.min_eq_left (Nat.mul_le_mul_left w n.le_succ)] at hnarrow
      exact hnarrow.trans htake₁

/-- An entry that another one follows. -/
theorem stringAt_of_next (hs : nul ∉ s) {mem₁ rest : Str}
    (hentry : mem₁.drop (w * n) = s ++ nul :: rest)
    (htake : mem'.take (w * (n + 1)) = mem₁.take (w * (n + 1))) :
    stringAt w mem' n = if s.length < w then s else s.take w ++ stringAt w mem' (n + 1) := by
  have hwidth : w * (n + 1) - w * n = w := by
    rw [Nat.mul_succ]
    omega
  have hdrop : mem'.drop (w * n) = (s ++ nul :: rest).take w ++ mem'.drop (w * (n + 1)) :=
    calc mem'.drop (w * n)
        = (mem'.take (w * (n + 1))).drop (w * n) ++ (mem'.drop (w * n)).drop w := by
          rw [List.drop_take, hwidth, List.take_append_drop]
      _ = _ := by rw [htake, List.drop_take, hwidth, hentry, List.drop_drop, Nat.mul_succ]
  rw [stringAt, hdrop]
  split
  · rename_i hshort
    obtain ⟨k, hk⟩ := Nat.exists_eq_add_of_lt hshort
    rw [List.take_append, List.take_of_length_le (by omega), hk,
      show s.length + k + 1 - s.length = k + 1 by omega, List.take_succ_cons, List.append_assoc,
      List.cons_append, untilNul_append hs, untilNul_cons_nul, List.append_nil]
  · rw [List.take_append_of_le_length (by omega),
      untilNul_append fun h => hs (List.mem_of_mem_take h), stringAt]

/-- The strings that begin with the entries that were copied into. -/
theorem stringAt_copyStrings (hss : ∀ s ∈ ss, nul ∉ s)
    (h : copyStrings w room n ss mem = some mem') :
    ∀ i < ss.length, stringAt w mem' (n + i) = (runOn w ss).getD i [] := by
  induction ss using runOn.induct generalizing n mem with
  | case1 => exact fun i hi => absurd hi (Nat.not_lt_zero i)
  | case2 s =>
      intro i hi
      obtain ⟨mem₁, hfirst, h⟩ := Option.bind_eq_some_iff.mp h
      obtain rfl := Option.some.inj h
      obtain ⟨-, -, rest, hentry⟩ := copyString_eq_some hfirst
      obtain rfl : i = 0 := Nat.lt_one_iff.mp hi
      show untilNul (mem₁.drop (w * n)) = s
      rw [hentry, untilNul_append (hss s List.mem_cons_self), untilNul_cons_nul, List.append_nil]
  | case3 s t ss ih =>
      intro i hi
      obtain ⟨mem₁, hfirst, h⟩ := Option.bind_eq_some_iff.mp h
      obtain ⟨-, -, rest, hentry⟩ := copyString_eq_some hfirst
      obtain ⟨hs, hss⟩ := List.forall_mem_cons.mp hss
      have hnext := ih hss h
      cases i with
      | zero =>
          have hhead : stringAt w mem' (n + 1) = (runOn w (t :: ss)).headD [] := by
            rw [hnext 0 (Nat.succ_pos _), List.getD_eq_getElem?_getD, List.headD_eq_head?_getD,
              List.head?_eq_getElem?]
          rw [Nat.add_zero, stringAt_of_next hs hentry (copyStrings_eq_some h).2, hhead, runOn,
            List.getD_cons_zero]
      | succ i =>
          rw [runOn, List.getD_cons_succ, ← hnext i (Nat.lt_of_succ_lt_succ hi)]
          congr 1
          omega

/-- Strings are copied when the array has room for them and, if each has to keep to its entry,
all of them are shorter than one. -/
theorem exists_copyStrings_iff (hw : 0 < w)
    (hfit : ∀ s ∈ ss, w * (n + ss.length) + s.length ≤ mem.length) :
    (∃ mem', copyStrings w room n ss mem = some mem') ↔
      (room = .entry → ∀ s ∈ ss, s.length < w) := by
  induction ss generalizing n mem with
  | nil => exact ⟨fun _ _ s hs => absurd hs List.not_mem_nil, fun _ => ⟨mem, rfl⟩⟩
  | cons s ss ih =>
      obtain ⟨hs, hss⟩ := List.forall_mem_cons.mp hfit
      have hsize : w * (n + (s :: ss).length) = w * n + w + w * ss.length := by
        rw [List.length_cons]
        ring
      have hfirst : (∃ mem₁, copyString w room mem n s = some mem₁) ↔
          (room = .entry → s.length < w) := by
        rw [hsize] at hs
        rw [copyString]
        split
        · rename_i hroom
          refine iff_of_true ⟨_, rfl⟩ fun hentry => ?_
          subst hentry
          have hlimit := hroom.2
          rw [Room.limit, List.length_append, List.length_singleton] at hlimit
          omega
        · rename_i hroom
          refine iff_of_false (by simp) fun hshort => hroom ⟨by omega, ?_⟩
          rw [List.length_append, List.length_singleton]
          cases room with
          | entry =>
              have hlt := hshort rfl
              rw [Room.limit]
              omega
          | array =>
              rw [Room.limit]
              omega
      have hrest : ∀ {mem₁}, copyString w room mem n s = some mem₁ →
          ((∃ mem', copyStrings w room (n + 1) ss mem₁ = some mem') ↔
            (room = .entry → ∀ s ∈ ss, s.length < w)) := by
        intro mem₁ hmem₁
        apply ih
        intro t ht
        rw [(copyString_eq_some hmem₁).1]
        have hle := hss t ht
        rwa [List.length_cons, Nat.add_comm ss.length, ← Nat.add_assoc] at hle
      simp only [copyStrings, Option.bind_eq_some_iff, List.forall_mem_cons, forall_and]
      constructor
      · rintro ⟨mem', mem₁, hmem₁, hmem'⟩
        exact ⟨hfirst.mp ⟨mem₁, hmem₁⟩, (hrest hmem₁).mp ⟨mem', hmem'⟩⟩
      · rintro ⟨hs, hss⟩
        obtain ⟨mem₁, hmem₁⟩ := hfirst.mpr hs
        obtain ⟨mem', hmem'⟩ := (hrest hmem₁).mpr hss
        exact ⟨mem', mem₁, hmem₁, hmem'⟩

end

end PanelTester.Library
