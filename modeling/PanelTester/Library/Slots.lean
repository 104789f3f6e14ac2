import Mathlib.Tactic

/-!
Maps that are kept in an array of slots, some of them free. A look-up visits the slots in order;
as long as no two slots hold one key (`Distinct`), what it finds does not depend on where the keys
stand. Writing one slot and appending free ones are all that such a map is changed by: `lookup_set`
says what is found behind a write, `Distinct.set` and `used_set` what it keeps.
-/

namespace PanelTester.Library

namespace Slots

variable {σ κ : Type*} (key : σ → Option κ)

/-- The number of slots that are not free. -/
def used (slots : List σ) : ℕ := slots.countP fun s => (key s).isSome

/-- No two slots hold one key. -/
def Distinct (slots : List σ) : Prop :=
  ∀ ⦃i j : ℕ⦄ ⦃s t : σ⦄ ⦃k : κ⦄, slots[i]? = some s → slots[j]? = some t →
    key s = some k → key t = some k → i = j

/-- The first slot with a key. -/
def lookup [DecidableEq κ] (slots : List σ) (k : κ) : Option σ :=
  slots.find? fun s => key s = some k

variable {key} {slots : List σ} {i : ℕ} {s t : σ} {k : κ}

/-! ### Free slots -/

theorem lt_of_getElem? (h : slots[i]? = some s) : i < slots.length := by
  by_contra hge
  rw [List.getElem?_eq_none (Nat.not_lt.mp hge)] at h
  exact absurd h (by simp)

theorem used_set (key : σ → Option κ) (s : σ) (hi : slots[i]? = some t) :
    used key (slots.set i s) + (if (key t).isSome then 1 else 0) =
      used key slots + if (key s).isSome then 1 else 0 := by
  have hlt := lt_of_getElem? hi
  obtain rfl : slots[i] = t := by
    rw [List.getElem?_eq_getElem hlt] at hi
    exact Option.some.inj hi
  have hpos : (if (key slots[i]).isSome then 1 else 0) ≤ used key slots := by
    split_ifs with hsome
    · exact List.countP_pos_iff.mpr ⟨slots[i], List.getElem_mem hlt, hsome⟩
    · exact Nat.zero_le _
  rw [used, List.countP_set hlt]
  rw [used] at hpos ⊢
  omega

theorem used_append_free {free : List σ} (hfree : ∀ s ∈ free, key s = none) :
    used key (slots ++ free) = used key slots := by
  have hzero : used key free = 0 :=
    List.countP_eq_zero.mpr fun s hs => by simp [hfree s hs]
  rw [used, List.countP_append]
  rw [used] at hzero
  rw [hzero, used, Nat.add_zero]

theorem Distinct.append_free {free : List σ} (h : Distinct key slots)
    (hfree : ∀ s ∈ free, key s = none) : Distinct key (slots ++ free) := by
  have hfront : ∀ {i : ℕ} {s : σ} {k : κ}, (slots ++ free)[i]? = some s → key s = some k →
      slots[i]? = some s := by
    intro i s k hi hs
    rcases Nat.lt_or_ge i slots.length with hlt | hge
    · rwa [List.getElem?_append_left hlt] at hi
    · rw [List.getElem?_append_right hge] at hi
      have hnone := hfree s (List.mem_of_getElem? hi)
      exact absurd (hnone.symm.trans hs) (by simp)
  intro i j s t k hi hj hs ht
  exact h (hfront hi hs) (hfront hj ht) hs ht

/-- Where not every slot is used, the first free one is found. -/
theorem exists_free (h : used key slots < slots.length) :
    ∃ (i : ℕ) (s : σ), slots.findIdx? (fun s => (key s).isNone) = some i ∧ slots[i]? = some s ∧
      key s = none := by
  cases hfind : slots.findIdx? fun s => (key s).isNone with
  | none =>
      have hall : ∀ s ∈ slots, (key s).isSome := fun s hs => by
        simpa using List.findIdx?_eq_none_iff.mp hfind s hs
      exact absurd (List.countP_eq_length.mpr hall) h.ne
  | some i =>
      obtain ⟨hlt, hi, -⟩ := List.findIdx?_eq_some_iff_getElem.mp hfind
      exact ⟨i, slots[i], rfl, List.getElem?_eq_getElem hlt, by simpa using hi⟩

theorem used_le_length (key : σ → Option κ) (slots : List σ) : used key slots ≤ slots.length :=
  List.countP_le_length

/-! ### Look-ups -/

variable [DecidableEq κ]

theorem exists_of_lookup (h : lookup key slots k = some s) :
    key s = some k ∧ ∃ i : ℕ, slots[i]? = some s := by
  refine ⟨by simpa using List.find?_some h, ?_⟩
  exact List.getElem?_of_mem (List.mem_of_find?_eq_some h)

theorem lookup_eq_none : lookup key slots k = none ↔ ∀ s ∈ slots, key s ≠ some k := by
  simp [lookup]

theorem lookup_eq_some (h : Distinct key slots) :
    lookup key slots k = some s ↔ key s = some k ∧ ∃ i : ℕ, slots[i]? = some s := by
  constructor
  · exact exists_of_lookup
  · rintro ⟨hs, i, hi⟩
    cases hfind : lookup key slots k with
    | none => exact absurd hs (lookup_eq_none.mp hfind s (List.mem_of_getElem? hi))
    | some t =>
        obtain ⟨ht, j, hj⟩ := exists_of_lookup hfind
        obtain rfl := h hi hj hs ht
        exact hj.symm.trans hi

theorem getElem?_set_cases {j : ℕ} {u : σ} (h : (slots.set i s)[j]? = some u) :
    j = i ∧ u = s ∨ j ≠ i ∧ slots[j]? = some u := by
  rcases eq_or_ne j i with rfl | hji
  · have hlt : j < slots.length := by simpa using lt_of_getElem? h
    rw [List.getElem?_set_self hlt] at h
    exact .inl ⟨rfl, (Option.some.inj h).symm⟩
  · rw [List.getElem?_set_ne (Ne.symm hji)] at h
    exact .inr ⟨hji, h⟩

/-- A slot may get a key that no other slot has. -/
theorem Distinct.set (h : Distinct key slots) (hi : slots[i]? = some t)
    (hkey : ∀ k, key s = some k → key t = some k ∨ lookup key slots k = none) :
    Distinct key (slots.set i s) := by
  have hlt := lt_of_getElem? hi
  -- a slot that was not written has the new key only where the old one is it
  have hother : ∀ {j : ℕ} {u : σ} {k : κ}, j ≠ i → slots[j]? = some u → key u = some k →
      key s ≠ some k := by
    intro j u k hji hj hu hs
    rcases hkey k hs with ht | hnone
    · exact hji (h hj hi hu ht)
    · exact lookup_eq_none.mp hnone u (List.mem_of_getElem? hj) hu
  intro a b u v k ha hb hu hv
  rcases eq_or_ne a i with rfl | hai <;> rcases eq_or_ne b a with rfl | hba
  · rfl
  · rw [List.getElem?_set_self hlt] at ha
    rw [List.getElem?_set_ne (Ne.symm hba)] at hb
    exact absurd (Option.some.inj ha ▸ hu) (hother hba hb hv)
  · rfl
  · rw [List.getElem?_set_ne (Ne.symm hai)] at ha
    rcases eq_or_ne b i with rfl | hbi
    · rw [List.getElem?_set_self hlt] at hb
      exact absurd (Option.some.inj hb ▸ hv) (hother hai ha hu)
    · rw [List.getElem?_set_ne (Ne.symm hbi)] at hb
      exact h ha hb hu hv

/-- What is found behind a write of one slot: the new slot with its own key, nothing with the key
that it had before, and what was found before with the others. -/
theorem lookup_set (h : Distinct key slots) (hi : slots[i]? = some t)
    (hkey : ∀ k, key s = some k → key t = some k ∨ lookup key slots k = none) (k : κ) :
    lookup key (slots.set i s) k =
      if key s = some k then some s else if key t = some k then none else lookup key slots k := by
  have hdistinct := h.set hi hkey
  have hlt := lt_of_getElem? hi
  split_ifs with hs ht
  · exact (lookup_eq_some hdistinct).mpr ⟨hs, i, List.getElem?_set_self hlt⟩
  · rw [lookup_eq_none]
    intro u hu huk
    obtain ⟨j, hj⟩ := List.getElem?_of_mem hu
    rcases getElem?_set_cases hj with ⟨-, rfl⟩ | ⟨hji, hj⟩
    · exact hs huk
    · exact hji (h hj hi huk ht)
  · apply Option.ext
    intro u
    rw [lookup_eq_some hdistinct, lookup_eq_some h]
    refine and_congr_right fun huk => exists_congr fun j => ?_
    constructor
    · intro hj
      rcases getElem?_set_cases hj with ⟨-, rfl⟩ | ⟨-, hj⟩
      · exact absurd huk hs
      · exact hj
    · intro hj
      rcases eq_or_ne j i with rfl | hji
      · exact absurd (Option.some.inj (hi.symm.trans hj) ▸ huk) ht
      · rw [List.getElem?_set_ne (Ne.symm hji)]
        exact hj

/-- Free slots behind the others change nothing. -/
theorem lookup_append_free {free : List σ} (hfree : ∀ s ∈ free, key s = none) (k : κ) :
    lookup key (slots ++ free) k = lookup key slots k := by
  have hnone : lookup key free k = none :=
    lookup_eq_none.mpr fun s hs => by simp [hfree s hs]
  rw [lookup, List.find?_append]
  rw [lookup] at hnone
  rw [hnone, Option.or_none, lookup]

theorem finite_keys (key : σ → Option κ) (slots : List σ) :
    {k | lookup key slots k ≠ none}.Finite := by
  refine (slots.filterMap key).toFinset.finite_toSet.subset ?_
  intro k hk
  obtain ⟨s, hs⟩ := Option.ne_none_iff_exists'.mp hk
  obtain ⟨hkey, i, hi⟩ := exists_of_lookup hs
  simpa using ⟨s, List.mem_of_getElem? hi, hkey⟩

/-- With distinct keys there are as many keys as slots in use. -/
theorem used_eq_ncard (h : Distinct key slots) :
    used key slots = {k | lookup key slots k ≠ none}.ncard := by
  have hset : {k | lookup key slots k ≠ none} = ((slots.filterMap key).toFinset : Set κ) := by
    ext k
    simp [lookup]
  have hnodup : (slots.filterMap key).Nodup := by
    rw [List.nodup_iff_pairwise_ne, List.pairwise_filterMap, List.pairwise_iff_getElem]
    intro i j hi hj hij a ha b hb hab
    have heq := h (List.getElem?_eq_getElem hi) (List.getElem?_eq_getElem hj) ha (hab ▸ hb)
    exact absurd heq hij.ne
  rw [hset, Set.ncard_coe_finset, List.toFinset_card_of_nodup hnodup,
    List.length_filterMap_eq_countP]
  rfl

end Slots

end PanelTester.Library
