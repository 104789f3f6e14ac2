import PanelTester.Library.CString
import PanelTester.Library.LinkedList
import PanelTester.Library.Steps

/-!
The registry of event groups, `pGroup_list` of `MsOS_event.c`. Groups are never freed: a deleted
one is marked, and taken again for its name. The loop of `_AddEventGroupList` that is to find the
last node does not move, so that a node is only added to an empty list.
-/

namespace PanelTester.MsOS

open Library

/-- What the registry knows of an `MSOS_event`. -/
structure EventGroup where
  eventName : Str
  eventDeleted : Bool
  deriving DecidableEq

/-- The groups that were allocated, each at the address that is its number, and the list. -/
structure Registry where
  events : List EventGroup
  nodes : Heap ℕ
  pGroupList : Option ℕ

namespace Registry

/-- `pGroup_list = 0` -/
def start : Registry := ⟨[], .empty, none⟩

/-- The loop of `_AddEventGroupList`: it leaves `pList` as it is, so that it ends at once or never.
There is no result when it does not end. -/
def addLoop (nodes : Heap ℕ) (pList : Option ℕ) : Option (Option ℕ) :=
  match pList with
  | none => some none
  | some p =>
      match nodes.read p with
      | some ⟨_, none⟩ => some (some p)
      | _ => none

/-- `_AddEventGroupList` -/
def addEventGroupList (s : Registry) (pNode : ℕ) : Option Registry :=
  let pNewListnode := s.nodes.size
  let nodes := s.nodes.alloc ⟨pNode, none⟩
  (addLoop nodes s.pGroupList).bind fun pList =>
    if pList = s.pGroupList then some { s with nodes, pGroupList := some pNewListnode }
    else
      pList.bind fun p =>
        (nodes.read p).map fun c => { s with nodes := nodes.write p ⟨c.val, some pNewListnode⟩ }

/-- The loops of `_ResumEventGroupList` and `_SuspendEventGroupList`, with the test that ends
them. There is no result when a list has more than the given number of nodes. -/
def findLoop (s : Registry) (test : EventGroup → Bool) : ℕ → Option ℕ → Option (Option ℕ)
  | _, none => some none
  | 0, some _ => none
  | n + 1, some p =>
      (s.nodes.read p).bind fun c =>
        (s.events[c.val]?).bind fun pNode =>
          if test pNode then some (some c.val) else s.findLoop test n c.next

/-- `_ResumEventGroupList` -/
def resumEventGroupList (s : Registry) (pName : Str) : Option (Option ℕ × Registry) :=
  (s.findLoop (fun g => pName = g.eventName && g.eventDeleted) s.nodes.size s.pGroupList).map
    fun found =>
      match found with
      | none => (none, s)
      | some p =>
          (some p, { s with events := s.events.modify p ({ · with eventDeleted := false }) })

/-- `_SuspendEventGroupList` -/
def suspendEventGroupList (s : Registry) (pName : Str) : Option (Bool × Registry) :=
  (s.findLoop (fun g => pName = g.eventName) s.nodes.size s.pGroupList).map fun found =>
    match found with
    | none => (false, s)
    | some p =>
        (true, { s with events := s.events.modify p ({ · with eventDeleted := true }) })

/-- `MsOS_CreateEventGroup`, where there is memory for another group or not. -/
def createEventGroup (s : Registry) (pName : Str) (memory : Bool) :
    Option (Option ℕ × Registry) :=
  (s.resumEventGroupList pName).bind fun (pEvent, s) =>
    match pEvent with
    | some p => some (some p, s)
    | none =>
        if memory then
          (strcpy 128 pName).bind fun eventName =>
            let pEvent := s.events.length
            let s : Registry := { s with events := s.events ++ [⟨eventName, false⟩] }
            (s.addEventGroupList pEvent).map fun s => (some pEvent, s)
        else some (none, s)

/-- `MsOS_DeleteEventGroup` of a group. -/
def deleteEventGroup (s : Registry) (pEvent : ℕ) : Option (Bool × Registry) :=
  (s.events[pEvent]?).bind fun g =>
    (s.suspendEventGroupList g.eventName).map fun (_, s) => (true, s)

end Registry

inductive GroupCall
  | createEventGroup (pName : Str) (memory : Bool)
  | deleteEventGroup (pEvent : ℕ)

namespace Registry

/-- A call, with the group that it returns. -/
def perform (s : Registry) : GroupCall → Option (Option ℕ × Registry)
  | .createEventGroup pName memory => s.createEventGroup pName memory
  | .deleteEventGroup pEvent => (s.deleteEventGroup pEvent).map fun (_, s) => (none, s)

/-! ### The question -/

/-- The list has each group once. -/
def AllReachable (s : Registry) : Prop :=
  ∃ l, s.nodes.Path s.pGroupList l none ∧ (l.map Prod.snd).Perm (List.range s.events.length)

/-- A caller deletes a group that was created. -/
def Allows (s : Registry) : GroupCall → Prop
  | .createEventGroup _ _ => True
  | .deleteEventGroup pEvent => pEvent < s.events.length

/-- What is promised of a call: every group is still in the list; a deleted group is taken again
for its name, and is not deleted any more; else there is a new one; and it is the group that was
passed in that is marked. -/
def Kept (s : Registry) (c : GroupCall) (r : Option ℕ × Registry) : Prop :=
  r.2.AllReachable ∧
    match c with
    | .createEventGroup pName memory =>
        (∀ i, s.events[i]? = some ⟨pName, true⟩ →
          r.1 = some i ∧ r.2.events = s.events.modify i ({ · with eventDeleted := false })) ∧
        (⟨pName, true⟩ ∉ s.events → memory = true →
          r.1 = some s.events.length ∧ r.2.events = s.events ++ [⟨pName, false⟩]) ∧
        (⟨pName, true⟩ ∉ s.events → memory = false → r.1 = none ∧ r.2 = s)
    | .deleteEventGroup pEvent =>
        r.2.events = s.events.modify pEvent ({ · with eventDeleted := true })

/-- A group is only created when there is none. -/
def Fits (s : Registry) : GroupCall → Prop
  | .createEventGroup pName memory =>
      ⟨pName, true⟩ ∈ s.events ∨ memory = false ∨ s.events = [] ∧ pName.length < 128
  | .deleteEventGroup _ => True

/-- Every call ends, and keeps what is promised. -/
def KeptRun : Registry → List GroupCall → Prop
  | _, [] => True
  | s, c :: cs => s.Allows c → ∃ r, s.perform c = some r ∧ s.Kept c r ∧ r.2.KeptRun cs

def FitsRun : Registry → List GroupCall → Prop
  | _, [] => True
  | s, c :: cs => s.Allows c → s.Fits c ∧ ∀ r, s.perform c = some r → r.2.FitsRun cs

/-! ### Lists of any length -/

section

variable {s s' : Registry} {l : List (ℕ × ℕ)}

/-- A walk along the list ends, and finds the first group that passes the test. -/
theorem findLoop_eq {test : EventGroup → Bool} {p : Option ℕ} {n : ℕ}
    (hpath : s.nodes.Path p l none) (hlen : l.length ≤ n)
    (hval : ∀ i ∈ l.map Prod.snd, i < s.events.length) :
    s.findLoop test n p = some ((l.map Prod.snd).find? fun i => (s.events[i]?).any test) := by
  induction l generalizing p n with
  | nil =>
      obtain rfl := hpath
      cases n <;> rfl
  | cons c l ih =>
      obtain ⟨a, i⟩ := c
      obtain ⟨rfl, next, hread, hrest⟩ := hpath
      obtain ⟨n, rfl⟩ := Nat.exists_eq_succ_of_ne_zero
        (show n ≠ 0 from fun h => by simp [h] at hlen)
      obtain ⟨hi, hval⟩ := List.forall_mem_cons.mp hval
      have hevent : s.events[i]? = some s.events[i] := List.getElem?_eq_getElem hi
      rw [findLoop, hread, Option.bind_some, hevent, Option.bind_some, List.map_cons,
        List.find?_cons, hevent, Option.any_some, ih hrest (Nat.le_of_succ_le_succ hlen) hval]
      cases test s.events[i] <;> rfl

/-- A new node is put in the place of a list of one, and never behind a list of more. -/
theorem addEventGroupList_eq (hpath : s.nodes.Path s.pGroupList l none) (pNode : ℕ) :
    s.addEventGroupList pNode =
      if l.length ≤ 1 then
        some { s with nodes := s.nodes.alloc ⟨pNode, none⟩, pGroupList := some s.nodes.size }
      else none := by
  have hread : ∀ {a : ℕ} {c : Cell ℕ}, s.nodes.read a = some c →
      (s.nodes.alloc ⟨pNode, none⟩).read a = some c := fun ha =>
    (Heap.read_alloc_of_lt _ (Heap.lt_size_of_read ha)).trans ha
  rw [addEventGroupList]
  match l, hpath with
  | [], hpath =>
      have hnil : s.pGroupList = none := hpath
      rw [hnil, addLoop, Option.bind_some, if_pos rfl]
      rfl
  | [(a, i)], hpath =>
      obtain ⟨ha, next, hnext, rfl⟩ := hpath
      have hone : [(a, i)].length ≤ 1 := le_rfl
      rw [ha, addLoop, hread hnext, if_pos hone]
      exact if_pos rfl
  | (a, i) :: (b, j) :: l, hpath =>
      obtain ⟨ha, next, hnext, hb, -⟩ := hpath
      subst hb
      rw [ha, addLoop, hread hnext, if_neg (by simp)]
      rfl

/-- What the walk finds is a group that passes the test, if there is one. -/
theorem AllReachable.find (h : s.AllReachable) (test : EventGroup → Bool) :
    ∃ r, s.findLoop test s.nodes.size s.pGroupList = some r ∧
      (∀ i, r = some i → ∃ g, s.events[i]? = some g ∧ test g = true) ∧
      (r = none → ∀ g ∈ s.events, test g = false) := by
  obtain ⟨l, hpath, hperm⟩ := h
  have hval : ∀ i ∈ l.map Prod.snd, i < s.events.length := by
    intro i hi
    exact List.mem_range.mp (hperm.mem_iff.mp hi)
  refine ⟨_, findLoop_eq hpath hpath.length_le hval, ?_, ?_⟩
  · intro i hi
    have htest := List.find?_some hi
    exact (Option.any_eq_true _ _).mp htest
  · intro hnone g hg
    obtain ⟨i, hi, rfl⟩ := List.getElem_of_mem hg
    have hmem : i ∈ l.map Prod.snd := hperm.mem_iff.mpr (List.mem_range.mpr hi)
    have htest := List.find?_eq_none.mp hnone i hmem
    rw [List.getElem?_eq_getElem hi, Option.any_some] at htest
    exact Bool.eq_false_of_not_eq_true htest

/-- The marks do not matter for the list. -/
theorem AllReachable.modify (h : s.AllReachable) (i : ℕ) (f : EventGroup → EventGroup) :
    Registry.AllReachable { s with events := s.events.modify i f } := by
  obtain ⟨l, hpath, hperm⟩ := h
  refine ⟨l, hpath, ?_⟩
  rw [List.length_modify]
  exact hperm

/-- A group that is added to the list is all of it. -/
theorem addEventGroupList_reachable (h : s.AllReachable) (g : EventGroup) :
    (∃ s', Registry.addEventGroupList { s with events := s.events ++ [g] } s.events.length =
      some s' ∧ s'.AllReachable ∧ s'.events = s.events ++ [g]) ↔ s.events = [] := by
  obtain ⟨l, hpath, hperm⟩ := h
  have hlen : l.length = s.events.length := by
    rw [← List.length_map Prod.snd, hperm.length_eq, List.length_range]
  have hadd := addEventGroupList_eq (s := { s with events := s.events ++ [g] }) hpath
    s.events.length
  have hnew : (s.nodes.alloc ⟨s.events.length, none⟩).Path (some s.nodes.size)
      [(s.nodes.size, s.events.length)] none :=
    ⟨rfl, none, Heap.read_alloc_self _ _, rfl⟩
  rw [hadd, hlen]
  constructor
  · rintro ⟨s', hs', ⟨l', hpath', hperm'⟩, -⟩
    obtain ⟨-, hs'⟩ := Option.ite_none_right_eq_some.mp hs'
    obtain rfl := Option.some.inj hs'
    obtain rfl := hpath'.unique hnew
    have hsize := hperm'.length_eq
    rw [List.length_range, List.length_append] at hsize
    exact List.eq_nil_of_length_eq_zero (Nat.succ.inj hsize).symm
  · intro hnil
    have hone : ([] : List EventGroup).length ≤ 1 := Nat.zero_le 1
    rw [hnil, if_pos hone]
    rw [hnil] at hnew
    exact ⟨_, rfl, ⟨_, hnew, List.Perm.refl _⟩, rfl⟩

/-! ### The calls -/

/-- The list has each group once, and no two have the same name. -/
structure Intact (s : Registry) : Prop where
  reachable : s.AllReachable
  distinct : (s.events.map EventGroup.eventName).Nodup

theorem start_intact : start.Intact := ⟨⟨[], rfl, List.Perm.refl _⟩, List.nodup_nil⟩

namespace Intact

/-- A name is that of one group. -/
theorem unique (h : s.Intact) {i j : ℕ} {g g' : EventGroup} (hi : s.events[i]? = some g)
    (hj : s.events[j]? = some g') (hname : g.eventName = g'.eventName) : i = j := by
  have hlt : i < (s.events.map EventGroup.eventName).length := by
    rw [List.length_map]
    exact (List.getElem?_eq_some_iff.mp hi).1
  apply (List.getElem?_inj hlt h.distinct).mp
  rw [List.getElem?_map, List.getElem?_map, hi, hj]
  exact congrArg some hname

/-- A group is marked or taken again. -/
theorem modify (h : s.Intact) (i : ℕ) (b : Bool) :
    Intact { s with events := s.events.modify i ({ · with eventDeleted := b }) } := by
  refine ⟨h.reachable.modify i _, ?_⟩
  have hnames : (s.events.modify i ({ · with eventDeleted := b })).map EventGroup.eventName =
      s.events.map EventGroup.eventName := by
    apply List.ext_getElem?
    intro j
    rw [List.getElem?_map, List.getElem?_modify, List.getElem?_map]
    cases s.events[j]? with
    | none => rfl
    | some g =>
        show some (ite (i = j) _ _ : EventGroup).eventName = some g.eventName
        split_ifs <;> rfl
  rw [hnames]
  exact h.distinct

/-- A deleted group is taken again; else there is a new one, if there is memory. -/
theorem createEventGroup_cases (h : s.Intact) (pName : Str) (memory : Bool) :
    (∃ i, s.events[i]? = some ⟨pName, true⟩ ∧
      s.createEventGroup pName memory =
        some (some i, { s with events := s.events.modify i ({ · with eventDeleted := false }) })) ∨
    (⟨pName, true⟩ ∉ s.events ∧
      s.createEventGroup pName memory =
        if memory = true then
          (strcpy 128 pName).bind fun eventName =>
            (Registry.addEventGroupList { s with events := s.events ++ [⟨eventName, false⟩] }
              s.events.length).map fun s' => (some s.events.length, s')
        else some (none, s)) := by
  obtain ⟨r, hfind, hsome, hnone⟩ :=
    h.reachable.find fun g => pName = g.eventName && g.eventDeleted
  rw [createEventGroup, resumEventGroupList, hfind]
  cases r with
  | some i =>
      obtain ⟨⟨name, deleted⟩, hi, htest⟩ := hsome i rfl
      obtain ⟨hname, hdeleted⟩ := (Bool.and_eq_true _ _).mp htest
      obtain rfl := of_decide_eq_true hname
      obtain rfl : deleted = true := hdeleted
      exact .inl ⟨i, hi, rfl⟩
  | none =>
      refine .inr ⟨?_, rfl⟩
      intro hmem
      have htest := hnone rfl _ hmem
      simp at htest

/-- The group that is passed in is the one that is marked. -/
theorem deleteEventGroup_eq (h : s.Intact) {i : ℕ} (hi : i < s.events.length) :
    s.deleteEventGroup i =
      some (true, { s with events := s.events.modify i ({ · with eventDeleted := true }) }) := by
  have hevent : s.events[i]? = some s.events[i] := List.getElem?_eq_getElem hi
  obtain ⟨r, hfind, hsome, hnone⟩ :=
    h.reachable.find fun g => (s.events[i]).eventName = g.eventName
  rw [deleteEventGroup, hevent, Option.bind_some, suspendEventGroupList, hfind]
  cases r with
  | some j =>
      obtain ⟨g, hj, htest⟩ := hsome j rfl
      obtain rfl := h.unique hevent hj (of_decide_eq_true htest)
      rfl
  | none =>
      have htest := hnone rfl _ (List.getElem_mem hi)
      exact absurd rfl (of_decide_eq_false htest)

/-- A call that fits keeps what is promised. -/
theorem perform_of_fits (h : s.Intact) {c : GroupCall} (hallows : s.Allows c) (hfits : s.Fits c) :
    ∃ r, s.perform c = some r ∧ s.Kept c r ∧ r.2.Intact := by
  cases c with
  | deleteEventGroup i =>
      have hkept := h.modify i true
      rw [perform, h.deleteEventGroup_eq hallows]
      exact ⟨_, rfl, ⟨hkept.reachable, rfl⟩, hkept⟩
  | createEventGroup pName memory =>
      rw [perform]
      rcases h.createEventGroup_cases pName memory with ⟨i, hi, hrun⟩ | ⟨hnew, hrun⟩
      · have hkept := h.modify i false
        have hmem : ⟨pName, true⟩ ∈ s.events := List.mem_of_getElem? hi
        refine ⟨_, hrun, ⟨hkept.reachable, ?_, ?_, ?_⟩, hkept⟩
        · intro j hj
          obtain rfl := h.unique hi hj rfl
          exact ⟨rfl, rfl⟩
        · exact fun hnew => absurd hmem hnew
        · exact fun hnew => absurd hmem hnew
      · have hold : ∀ {P : Prop} {i : ℕ}, s.events[i]? = some ⟨pName, true⟩ → P := fun hi =>
          absurd (List.mem_of_getElem? hi) hnew
        cases memory with
        | false =>
            refine ⟨_, hrun, ⟨h.reachable, fun _ => hold, ?_, fun _ _ => ⟨rfl, rfl⟩⟩, h⟩
            exact fun _ hmemory => absurd hmemory Bool.false_ne_true
        | true =>
            obtain ⟨hnil, hshort⟩ := (hfits.resolve_left hnew).resolve_left Bool.noConfusion
            obtain ⟨s', hs', hreachable, hevents⟩ :=
              (addEventGroupList_reachable h.reachable ⟨pName, false⟩).mpr hnil
            rw [if_pos rfl, strcpy, if_pos hshort, Option.bind_some, hs'] at hrun
            refine ⟨_, hrun, ⟨hreachable, fun _ => hold, fun _ _ => ⟨rfl, hevents⟩, ?_⟩, ?_⟩
            · exact fun _ hmemory => absurd hmemory.symm Bool.false_ne_true
            · refine ⟨hreachable, ?_⟩
              rw [hevents, hnil]
              exact List.nodup_singleton _

/-- A call that keeps what is promised fits. -/
theorem fits_of_kept (h : s.Intact) {c : GroupCall} {r : Option ℕ × Registry}
    (hrun : s.perform c = some r) (hkept : s.Kept c r) : s.Fits c := by
  cases c with
  | deleteEventGroup i => trivial
  | createEventGroup pName memory =>
      rw [perform] at hrun
      rcases h.createEventGroup_cases pName memory with ⟨i, hi, -⟩ | ⟨hnew, hcreate⟩
      · exact .inl (List.mem_of_getElem? hi)
      · cases memory with
        | false => exact .inr (.inl rfl)
        | true =>
            rw [hrun, if_pos rfl] at hcreate
            obtain ⟨name, hname, hcreate⟩ := Option.bind_eq_some_iff.mp hcreate.symm
            obtain ⟨s', hadd, rfl⟩ := Option.map_eq_some_iff.mp hcreate
            obtain ⟨hshort, heq⟩ := Option.ite_none_right_eq_some.mp hname
            obtain rfl := Option.some.inj heq
            obtain ⟨hreachable, -, hevents, -⟩ := hkept
            refine .inr (.inr ⟨?_, hshort⟩)
            exact (addEventGroupList_reachable h.reachable _).mp
              ⟨s', hadd, hreachable, (hevents hnew rfl).2⟩

end Intact

end

/-! ### The runs -/

theorem keptRun_iff_of_intact {s : Registry} (h : s.Intact) (calls : List GroupCall) :
    s.KeptRun calls ↔ s.FitsRun calls := by
  induction calls generalizing s with
  | nil => exact Iff.rfl
  | cons c cs ih =>
      rw [KeptRun, FitsRun]
      apply imp_congr_right
      intro hallows
      apply run_step_iff
      · intro hfits
        obtain ⟨r, hrun, hkept, hintact⟩ := h.perform_of_fits hallows hfits
        exact ⟨r, hrun, hkept, ih hintact⟩
      · intro r hrun hkept
        exact h.fits_of_kept hrun hkept

theorem keptRun_iff (calls : List GroupCall) : start.KeptRun calls ↔ start.FitsRun calls :=
  keptRun_iff_of_intact start_intact calls

/-- The second group takes the place of the first in the list. -/
theorem not_keptRun_two :
    ¬ start.KeptRun [.createEventGroup ['a'] true, .createEventGroup ['b'] true] := by
  intro h
  have hfits := (keptRun_iff_of_intact start_intact _).mp h
  obtain ⟨-, hfits⟩ := hfits trivial
  obtain ⟨hfits, -⟩ := hfits _ rfl trivial
  rcases hfits with hmem | hmemory | ⟨hnil, -⟩
  · obtain heq : (⟨['b'], true⟩ : EventGroup) = ⟨['a'], false⟩ := List.mem_singleton.mp hmem
    exact absurd (congrArg EventGroup.eventDeleted heq) Bool.noConfusion
  · exact absurd hmemory Bool.noConfusion
  · exact absurd hnil (List.cons_ne_nil _ _)

end Registry

end PanelTester.MsOS
