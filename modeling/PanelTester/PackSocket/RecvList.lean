import Mathlib.Data.List.TakeWhile
import PanelTester.Library.LinkedList
import PanelTester.PackSocket.Frame

/-!
The receive list of `packsocket.c`: one singly linked list for the pending
fragments of all commands. The four loops over it follow the source node by
node in a heap whose freed cells can no longer be read, with the heap size as
fuel; an execution that reads a freed cell, or runs in a circle, has no result.
Each loop has one lemma giving its result on a list. For the in-place filter
`destoryRecvList2` that is the filtered list in some cases only: a matching node
between two others is freed but stays linked.
-/

namespace PanelTester.PackSocket

open Library

/-- `socket_cmd_t` -/
structure SocketCmd where
  cmd : UInt16
  type : UInt16
  ipnum : UInt32
  len : ℕ
  pcmd : List UInt8
  deriving DecidableEq, Repr

/-- `gstRecvSocketCmdList` with the heap its nodes live in. -/
structure RecvList where
  heap : Heap SocketCmdInfo
  psockCmdListHead : Option ℕ
  deriving DecidableEq

/-- `_addcmd` -/
def addcmd (c : SocketCmd) (pcmd : List UInt8) (len : ℕ) : SocketCmd :=
  { c with pcmd := c.pcmd ++ pcmd.take len, len := c.len + len }

namespace RecvList

/-- The loop of `_addRecvList`: the last node, or `prev`. -/
def addRecvListLoop (heap : Heap SocketCmdInfo) : ℕ → Option ℕ → ℕ → Option ℕ
  | _, none, prev => some prev
  | 0, some _, _ => none
  | fuel + 1, some temp, _ => do
      let node ← heap.read temp
      addRecvListLoop heap fuel node.next temp

/-- `_addRecvList` -/
def addRecvList (l : RecvList) (pSocketList : ℕ) : Option RecvList :=
  match l.psockCmdListHead with
  | none => some { l with psockCmdListHead := some pSocketList }
  | some head => do
      let prev ← addRecvListLoop l.heap l.heap.size (some head) head
      let node ← l.heap.read prev
      some { l with heap := l.heap.write prev { node with next := some pSocketList } }

/-- The loop of `_checkRecvList2`. -/
def checkRecvList2Loop (heap : Heap SocketCmdInfo) (cmd : UInt16) :
    ℕ → Option ℕ → Int → Int → Option Bool
  | _, none, _, _ => some false
  | 0, some _, _, _ => none
  | fuel + 1, some p, totalnum, num => do
      let node ← heap.read p
      let num' := if node.val.cmd = cmd then num + 1 else num
      let totalnum' :=
        if node.val.cmd = cmd ∧ totalnum = -1 then (node.val.lastNo.toNat : Int) + 1 else totalnum
      if num' = totalnum' then some true
      else checkRecvList2Loop heap cmd fuel node.next totalnum' num'

/-- `_checkRecvList2` -/
def checkRecvList2 (l : RecvList) (cmd : UInt16) : Option Bool :=
  checkRecvList2Loop l.heap cmd l.heap.size l.psockCmdListHead (-1) 0

/-- The loop of `parseSocketCmd` that joins the payloads of a complete command. -/
def collectLoop (heap : Heap SocketCmdInfo) (cmd : UInt16) :
    ℕ → Option ℕ → SocketCmd → Option SocketCmd
  | _, none, c => some c
  | 0, some _, _ => none
  | fuel + 1, some p, c => do
      let node ← heap.read p
      collectLoop heap cmd fuel node.next
        (if node.val.length > 0 ∧ node.val.cmd = cmd
          then addcmd c node.val.pValid node.val.length.toNat else c)

def collect (l : RecvList) (cmd : UInt16) (c : SocketCmd) : Option SocketCmd :=
  collectLoop l.heap cmd l.heap.size l.psockCmdListHead c

/-- Clear the next pointer of `pPrvSocketList`, if there is one. -/
def cutAfter (heap : Heap SocketCmdInfo) : Option ℕ → Option (Heap SocketCmdInfo)
  | none => some heap
  | some q => do
      let node ← heap.read q
      some (heap.write q { node with next := none })

/-- The loop of `_destoryRecvList2`. The node behind a freed one is only unlinked
from the front when it is the head, and from behind when it is the last. -/
def destoryRecvList2Loop (cmd : UInt16) :
    ℕ → RecvList → Option ℕ → Option ℕ → Option RecvList
  | _, l, _, none => some l
  | 0, _, _, some _ => none
  | fuel + 1, l, pPrvSocketList, some pTmpSocketList => do
      let node ← l.heap.read pTmpSocketList
      if node.val.cmd = cmd then
        let head := if pPrvSocketList = none then node.next else l.psockCmdListHead
        let heap ← if node.next = none then cutAfter l.heap pPrvSocketList else some l.heap
        destoryRecvList2Loop cmd fuel ⟨heap.free pTmpSocketList, head⟩ pPrvSocketList node.next
      else destoryRecvList2Loop cmd fuel l (some pTmpSocketList) node.next

/-- `_destoryRecvList2` -/
def destoryRecvList2 (l : RecvList) (cmd : UInt16) : Option RecvList :=
  destoryRecvList2Loop cmd l.heap.size l none l.psockCmdListHead

/-- The list is intact and holds these nodes in this order. -/
def Holds (l : RecvList) (vs : List SocketCmdInfo) : Prop :=
  ∃ cells, l.heap.Path l.psockCmdListHead cells none ∧ cells.map Prod.snd = vs

/-- Following the list arrives at a freed node. -/
def Dangling (l : RecvList) : Prop := l.heap.Dangles l.psockCmdListHead

theorem Holds.not_dangling {l : RecvList} {vs : List SocketCmdInfo} (h : l.Holds vs) :
    ¬ l.Dangling := by
  obtain ⟨cells, hpath, -⟩ := h
  exact hpath.not_dangles

theorem Holds.unique {l : RecvList} {vs ws : List SocketCmdInfo} (h : l.Holds vs)
    (h' : l.Holds ws) : vs = ws := by
  obtain ⟨cells, hpath, rfl⟩ := h
  obtain ⟨cells', hpath', rfl⟩ := h'
  rw [hpath.unique hpath']

/-! ### Appending -/

theorem addRecvListLoop_spec {h : Heap SocketCmdInfo} {cells : List (ℕ × SocketCmdInfo)}
    {fuel : ℕ} {p : Option ℕ} (prev : ℕ) (hpath : h.Path p cells none)
    (hfuel : cells.length ≤ fuel) :
    addRecvListLoop h fuel p prev = some ((cells.getLast?.map Prod.fst).getD prev) := by
  induction cells generalizing fuel p prev with
  | nil =>
      obtain rfl : p = none := hpath
      cases fuel <;> rfl
  | cons c cells ih =>
      obtain ⟨a, v⟩ := c
      obtain ⟨rfl, n, hn, hrest⟩ := hpath
      cases fuel with
      | zero => simp at hfuel
      | succ fuel =>
          simp only [addRecvListLoop, hn, Option.bind_eq_bind, Option.bind_some]
          rw [ih a hrest (by simpa using hfuel)]
          cases cells with
          | nil => rfl
          | cons d cells => simp [List.getLast?_cons]

/-- Appending a freshly allocated node. -/
theorem addRecvList_spec {l : RecvList} {vs : List SocketCmdInfo} (hl : l.Holds vs)
    (v : SocketCmdInfo) :
    ∃ l', addRecvList { l with heap := l.heap.alloc ⟨v, none⟩ } l.heap.size = some l' ∧
      l'.Holds (vs ++ [v]) := by
  obtain ⟨cells, hpath, rfl⟩ := hl
  obtain ⟨h, head⟩ := l
  have hnew := Heap.read_alloc_self h (⟨v, none⟩ : Cell SocketCmdInfo)
  have halloc : (h.alloc ⟨v, none⟩).Path head cells none :=
    hpath.congr fun a ha => Heap.read_alloc_of_lt _ (hpath.lt_size ha)
  rcases List.eq_nil_or_concat cells with rfl | ⟨init, ⟨b, w⟩, rfl⟩
  · obtain rfl : head = none := hpath
    exact ⟨_, rfl, [(h.size, v)], ⟨rfl, none, hnew, rfl⟩, rfl⟩
  · rw [List.concat_eq_append] at hpath halloc ⊢
    have hread := (Heap.path_concat.mp halloc).2
    have hlt : b < h.size := hpath.lt_size (by simp)
    obtain ⟨p, rfl⟩ : ∃ p, head = some p := by
      cases init with
      | nil => exact ⟨_, hpath.1⟩
      | cons c init => exact ⟨_, hpath.1⟩
    have hloop := addRecvListLoop_spec p halloc halloc.length_le
    rw [List.getLast?_concat, Option.map_some, Option.getD_some] at hloop
    have hrelink := halloc.relink (Heap.Path.not_mem_front halloc) (some h.size)
    refine ⟨⟨(h.alloc ⟨v, none⟩).write b ⟨w, some h.size⟩, some p⟩, ?_,
      init ++ [(b, w)] ++ [(h.size, v)], ?_, by simp⟩
    · simp only [addRecvList, Option.bind_eq_bind, hloop, Option.bind_some, hread]
    · refine Heap.path_concat.mpr ⟨hrelink, ?_⟩
      rw [Heap.read_write_of_ne _ hlt.ne', hnew]

/-! ### Counting -/

/-- The completion test on the list of nodes: as many nodes of the command as the
first of them says. -/
def complete (cmd : UInt16) (vs : List SocketCmdInfo) : Bool :=
  match vs.find? (·.cmd == cmd) with
  | none => false
  | some f => decide (f.lastNo.toNat + 1 ≤ vs.countP (·.cmd == cmd))

/-- The loop once the first node of the command has set `totalnum`. -/
theorem checkRecvList2Loop_counting {h : Heap SocketCmdInfo} (cmd : UInt16)
    {cells : List (ℕ × SocketCmdInfo)} {fuel : ℕ} {p : Option ℕ} {num total : ℕ}
    (hpath : h.Path p cells none) (hfuel : cells.length ≤ fuel) (hnum : num < total) :
    checkRecvList2Loop h cmd fuel p total num =
      some (decide (total ≤ num + (cells.map Prod.snd).countP (·.cmd == cmd))) := by
  induction cells generalizing fuel p num with
  | nil =>
      obtain rfl : p = none := hpath
      have hle : ¬ total ≤ num := by omega
      cases fuel <;> simp [checkRecvList2Loop, hle]
  | cons c cells ih =>
      obtain ⟨a, v⟩ := c
      obtain ⟨rfl, n, hn, hrest⟩ := hpath
      cases fuel with
      | zero => simp at hfuel
      | succ fuel =>
          have hset : ¬ ((total : Int) = -1) := by omega
          simp only [checkRecvList2Loop, hn, Option.bind_eq_bind, Option.bind_some, hset,
            and_false, if_false, List.map_cons, List.countP_cons, beq_iff_eq]
          by_cases hcmd : v.cmd = cmd
          · simp only [hcmd, if_true]
            by_cases hlast : num + 1 = total
            · rw [if_pos (by omega), decide_eq_true (by omega)]
            · rw [if_neg (by omega)]
              have hrec := ih hrest (by simpa using hfuel) (show num + 1 < total by omega)
              rw [Nat.cast_add, Nat.cast_one] at hrec
              rw [hrec, Nat.add_assoc, Nat.add_comm 1]
          · simp only [hcmd, if_false, Nat.add_zero]
            rw [if_neg (by omega)]
            exact ih hrest (by simpa using hfuel) hnum

theorem checkRecvList2Loop_spec {h : Heap SocketCmdInfo} {cmd : UInt16}
    {cells : List (ℕ × SocketCmdInfo)} {fuel : ℕ} {p : Option ℕ}
    (hpath : h.Path p cells none) (hfuel : cells.length ≤ fuel) :
    checkRecvList2Loop h cmd fuel p (-1) 0 = some (complete cmd (cells.map Prod.snd)) := by
  induction cells generalizing fuel p with
  | nil =>
      obtain rfl : p = none := hpath
      cases fuel <;> rfl
  | cons c cells ih =>
      obtain ⟨a, v⟩ := c
      obtain ⟨rfl, n, hn, hrest⟩ := hpath
      cases fuel with
      | zero => simp at hfuel
      | succ fuel =>
          have hfuel' : cells.length ≤ fuel := by simpa using hfuel
          simp only [checkRecvList2Loop, hn, Option.bind_eq_bind, Option.bind_some, complete,
            List.map_cons, List.find?_cons, List.countP_cons, beq_iff_eq]
          by_cases hcmd : v.cmd = cmd
          · simp only [hcmd, beq_self_eq_true, if_true, and_self]
            by_cases hlast : v.lastNo.toNat = 0
            · rw [if_pos (by omega), decide_eq_true (by omega)]
            · rw [if_neg (by omega)]
              have hrec := checkRecvList2Loop_counting cmd hrest hfuel'
                (show 1 < v.lastNo.toNat + 1 by omega)
              rw [Nat.cast_add, Nat.cast_one] at hrec
              rw [Int.zero_add, hrec, Nat.add_comm 1]
          · have hbeq : (v.cmd == cmd) = false := by simpa using hcmd
            simp only [hcmd, hbeq, if_false, false_and, Nat.add_zero]
            rw [if_neg (by omega), ih hrest hfuel']
            rfl

theorem checkRecvList2_spec {l : RecvList} {vs : List SocketCmdInfo} (hl : l.Holds vs)
    (cmd : UInt16) : l.checkRecvList2 cmd = some (complete cmd vs) := by
  obtain ⟨cells, hpath, rfl⟩ := hl
  exact checkRecvList2Loop_spec hpath hpath.length_le

/-! ### Joining payloads -/

/-- The payloads of a command's nodes, in list order. -/
def payloads (cmd : UInt16) (vs : List SocketCmdInfo) : List UInt8 :=
  (vs.filter (·.cmd == cmd)).flatMap SocketCmdInfo.pValid

theorem collectLoop_spec {h : Heap SocketCmdInfo} {cmd : UInt16}
    {cells : List (ℕ × SocketCmdInfo)} {fuel : ℕ} {p : Option ℕ} {c : SocketCmd}
    (hpath : h.Path p cells none) (hfuel : cells.length ≤ fuel)
    (hwf : ∀ v ∈ cells.map Prod.snd, WellFormed v) :
    collectLoop h cmd fuel p c = some { c with
      pcmd := c.pcmd ++ payloads cmd (cells.map Prod.snd)
      len := c.len + (payloads cmd (cells.map Prod.snd)).length } := by
  induction cells generalizing fuel p c with
  | nil =>
      obtain rfl : p = none := hpath
      cases fuel <;> simp [collectLoop, payloads]
  | cons d cells ih =>
      obtain ⟨a, v⟩ := d
      obtain ⟨rfl, n, hn, hrest⟩ := hpath
      have hlen := (hwf v (by simp)).2
      cases fuel with
      | zero => simp at hfuel
      | succ fuel =>
          simp only [collectLoop, hn, Option.bind_eq_bind, Option.bind_some]
          rw [ih hrest (by simpa using hfuel)
            fun w hw => hwf w (by rw [List.map_cons]; exact List.mem_cons_of_mem _ hw)]
          by_cases hcmd : v.cmd = cmd
          · by_cases hpos : v.length > 0
            · simp [hcmd, hpos, addcmd, payloads, ← hlen, Nat.add_assoc]
            · have hnil : v.pValid = [] := by
                refine List.length_eq_zero_iff.mp (hlen.trans ?_)
                rw [gt_iff_lt, UInt16.lt_iff_toNat_lt] at hpos
                simpa using hpos
              simp [hcmd, hpos, payloads, hnil]
          · simp [hcmd, payloads]

theorem collect_spec {l : RecvList} {vs : List SocketCmdInfo} (hl : l.Holds vs)
    (hwf : ∀ v ∈ vs, WellFormed v) (cmd : UInt16) (c : SocketCmd) :
    l.collect cmd c = some { c with
      pcmd := c.pcmd ++ payloads cmd vs
      len := c.len + (payloads cmd vs).length } := by
  obtain ⟨cells, hpath, rfl⟩ := hl
  exact collectLoop_spec hpath hpath.length_le hwf

/-! ### Removing -/

/-- The nodes `destoryRecvList2` frees. -/
def dropped (cmd : UInt16) (cells : List (ℕ × SocketCmdInfo)) : List ℕ :=
  (cells.filter (·.2.cmd == cmd)).map Prod.fst

/-- The last node it keeps, or the one before the list. -/
def lastKept (cmd : UInt16) (cells : List (ℕ × SocketCmdInfo)) (pPrv : Option ℕ) : Option ℕ :=
  ((cells.filter (·.2.cmd != cmd)).getLast?.map Prod.fst).or pPrv

/-- Whether the list ends in a node it frees. -/
def endsDropped (cmd : UInt16) (cells : List (ℕ × SocketCmdInfo)) : Bool :=
  cells.getLast?.any (·.2.cmd == cmd)

/-- What is left in a cell: nothing where a node was freed, the next pointer
cleared in the last kept node when nodes behind it were freed. -/
def readAfter (h : Heap SocketCmdInfo) (cmd : UInt16) (cells : List (ℕ × SocketCmdInfo))
    (pPrv : Option ℕ) (x : ℕ) : Option (Cell SocketCmdInfo) :=
  if x ∈ dropped cmd cells then none
  else if endsDropped cmd cells ∧ lastKept cmd cells pPrv = some x then
    (h.read x).map fun c => { c with next := none }
  else h.read x

section

variable {cmd : UInt16} {a : ℕ} {v : SocketCmdInfo} {cells : List (ℕ × SocketCmdInfo)}

/-- A freed first node, with more nodes behind it. -/
theorem readAfter_drop {h : Heap SocketCmdInfo} {pPrv : Option ℕ} (hcmd : v.cmd = cmd)
    (hne : cells ≠ []) (x : ℕ) :
    readAfter h cmd ((a, v) :: cells) pPrv x = readAfter (h.free a) cmd cells pPrv x := by
  have hends : endsDropped cmd ((a, v) :: cells) = endsDropped cmd cells := by
    obtain ⟨d, cells, rfl⟩ := List.exists_cons_of_ne_nil hne
    simp [endsDropped]
  have hdropped : dropped cmd ((a, v) :: cells) = a :: dropped cmd cells := by
    simp [dropped, hcmd]
  have hlast : lastKept cmd ((a, v) :: cells) pPrv = lastKept cmd cells pPrv := by
    simp [lastKept, hcmd]
  unfold readAfter
  rw [hends, hdropped, hlast, Heap.read_free]
  by_cases hxa : x = a
  · simp [hxa]
  · simp [hxa]

/-- A kept first node is the last kept one for the nodes behind it. -/
theorem readAfter_keep {h : Heap SocketCmdInfo} {pPrv : Option ℕ} (hcmd : v.cmd ≠ cmd)
    (x : ℕ) :
    readAfter h cmd ((a, v) :: cells) pPrv x = readAfter h cmd cells (some a) x := by
  have hdropped : dropped cmd ((a, v) :: cells) = dropped cmd cells := by simp [dropped, hcmd]
  have hends : endsDropped cmd ((a, v) :: cells) = endsDropped cmd cells := by
    cases cells with
    | nil => simp [endsDropped, hcmd]
    | cons d cells => simp [endsDropped]
  have hlast : lastKept cmd ((a, v) :: cells) pPrv = lastKept cmd cells (some a) := by
    simp only [lastKept, List.filter_cons, bne_iff_ne, ne_eq, hcmd, not_false_eq_true, if_true]
    cases cells.filter (·.2.cmd != cmd) with
    | nil => rfl
    | cons d kept => simp [List.getLast?_cons]
  unfold readAfter
  rw [hdropped, hends, hlast]

/-- A freed last node: the node before it loses its next pointer. -/
theorem cutAfter_spec {h : Heap SocketCmdInfo} {pPrv : Option ℕ} (hcmd : v.cmd = cmd)
    (hprv : ∀ q, pPrv = some q → ∃ c, h.read q = some c) :
    ∃ h', cutAfter h pPrv = some h' ∧
      ∀ x, (h'.free a).read x = readAfter h cmd [(a, v)] pPrv x := by
  have hafter (x : ℕ) : readAfter h cmd [(a, v)] pPrv x =
      if x = a then none
      else if pPrv = some x then (h.read x).map fun c => { c with next := none }
      else h.read x := by
    simp [readAfter, dropped, lastKept, endsDropped, hcmd]
  cases pPrv with
  | none => exact ⟨h, rfl, fun x => by rw [hafter, Heap.read_free]; simp⟩
  | some q =>
      obtain ⟨c, hc⟩ := hprv q rfl
      refine ⟨h.write q { c with next := none }, by simp [cutAfter, hc], ?_⟩
      intro x
      rw [hafter, Heap.read_free]
      by_cases hxq : x = q
      · subst hxq
        simp [Heap.read_write_self _ hc, hc]
      · rw [Heap.read_write_of_ne _ hxq]
        simp [Ne.symm hxq]

end

theorem cutAfter_size {h h' : Heap SocketCmdInfo} {pPrv : Option ℕ}
    (hcut : cutAfter h pPrv = some h') : h'.size = h.size := by
  cases pPrv with
  | none => rw [← Option.some.inj hcut]
  | some q =>
      obtain ⟨node, -, hwrite⟩ := Option.bind_eq_some_iff.mp hcut
      rw [← Option.some.inj hwrite, Heap.size_write]

/-- The removal frees nodes but leaves their addresses in use. -/
theorem destoryRecvList2Loop_size (cmd : UInt16) {fuel : ℕ} {l l' : RecvList} {pPrv p : Option ℕ}
    (h : destoryRecvList2Loop cmd fuel l pPrv p = some l') : l'.heap.size = l.heap.size := by
  induction fuel generalizing l pPrv p with
  | zero =>
      cases p with
      | none => rw [← Option.some.inj h]
      | some a => simp [destoryRecvList2Loop] at h
  | succ fuel ih =>
      cases p with
      | none => rw [← Option.some.inj h]
      | some a =>
          obtain ⟨node, -, h⟩ := Option.bind_eq_some_iff.mp h
          split at h
          · by_cases hlast : node.next = none
            · simp only [hlast, if_true] at h
              obtain ⟨heap, hcut, h⟩ := Option.bind_eq_some_iff.mp h
              rw [ih h, Heap.size_free, cutAfter_size hcut]
            · simp only [hlast, if_false, Option.bind_eq_bind, Option.bind_some] at h
              rw [ih h, Heap.size_free]
          · exact ih h

theorem destoryRecvList2Loop_spec (cmd : UInt16) (head pPrv : Option ℕ)
    {cells : List (ℕ × SocketCmdInfo)} {fuel : ℕ} {h : Heap SocketCmdInfo} {p : Option ℕ}
    (hpath : h.Path p cells none) (hfuel : cells.length ≤ fuel)
    (hprv : ∀ q, pPrv = some q → q ∉ cells.map Prod.fst ∧ ∃ c, h.read q = some c)
    (hhead : pPrv = none → head = p) :
    ∃ h', destoryRecvList2Loop cmd fuel ⟨h, head⟩ pPrv p =
        some ⟨h', if pPrv = none then (cells.filter (·.2.cmd != cmd)).head?.map Prod.fst
          else head⟩ ∧
      ∀ x, h'.read x = readAfter h cmd cells pPrv x := by
  induction cells generalizing fuel h head pPrv p with
  | nil =>
      obtain rfl : p = none := hpath
      refine ⟨h, ?_, fun x => by simp [readAfter, dropped, endsDropped]⟩
      cases pPrv with
      | none => cases fuel <;> simp [destoryRecvList2Loop, hhead rfl]
      | some q => cases fuel <;> simp [destoryRecvList2Loop]
  | cons c cells ih =>
      obtain ⟨a, v⟩ := c
      obtain ⟨rfl, n, hn, hrest⟩ := hpath
      have ha : a ∉ cells.map Prod.fst := by
        have hwhole : h.Path (some a) ((a, v) :: cells) none := ⟨rfl, n, hn, hrest⟩
        exact (List.nodup_cons.mp hwhole.nodup).1
      cases fuel with
      | zero => simp at hfuel
      | succ fuel =>
          have hfuel' : cells.length ≤ fuel := by simpa using hfuel
          simp only [destoryRecvList2Loop, hn, Option.bind_eq_bind, Option.bind_some]
          by_cases hcmd : v.cmd = cmd
          · cases cells with
            | nil =>
                -- the last node is freed, and only here the list is cut behind `pPrv`
                obtain rfl : n = none := hrest
                obtain ⟨h', hcut, hread⟩ := cutAfter_spec (a := a) hcmd
                  fun q hq => (hprv q hq).2
                refine ⟨h'.free a, ?_, hread⟩
                rw [if_pos hcmd, if_pos rfl, hcut]
                cases fuel <;> simp [destoryRecvList2Loop, hcmd]
            | cons d cells =>
                -- a node before it is freed, and `pPrv` goes on pointing to it
                have hnext : n = some d.1 := hrest.1
                have hfree : (h.free a).Path n (d :: cells) none :=
                  hrest.congr fun b hb => Heap.read_free_of_ne fun hba => ha (hba ▸ hb)
                obtain ⟨h', hloop, hread⟩ := ih (if pPrv = none then n else head) pPrv
                  hfree hfuel'
                  (fun q hq => by
                    obtain ⟨hmem, c, hc⟩ := hprv q hq
                    rw [List.map_cons, List.mem_cons, not_or] at hmem
                    exact ⟨hmem.2, c, by rw [Heap.read_free_of_ne hmem.1, hc]⟩)
                  fun hnone => if_pos hnone
                refine ⟨h', ?_, fun x => by rw [hread, readAfter_drop hcmd (by simp)]⟩
                rw [if_pos hcmd, if_neg (by rw [hnext]; simp)]
                simp only [hloop]
                cases pPrv <;> simp [hcmd]
          · -- a node of another command is the next `pPrv`
            have hne : (v.cmd != cmd) = true := by simpa using hcmd
            obtain ⟨h', hloop, hread⟩ := ih head (some a) hrest hfuel'
              (fun q hq => by
                obtain rfl : a = q := Option.some.inj hq
                exact ⟨ha, _, hn⟩) (by simp)
            refine ⟨h', ?_, fun x => by rw [hread, readAfter_keep hcmd]⟩
            rw [if_neg hcmd, hloop]
            cases pPrv with
            | none => simp [hne, hhead rfl]
            | some q => simp

/-- The removal of a command unlinks every node it frees: behind the nodes of the
command at the front and the other nodes after them, only its own nodes are left. -/
def cleanRemoval (cmd : UInt16) (vs : List SocketCmdInfo) : Bool :=
  ((vs.dropWhile (·.cmd == cmd)).dropWhile (·.cmd != cmd)).all (·.cmd == cmd)

theorem not_of_dropWhile_eq_cons {α : Type*} {p : α → Bool} {l r : List α} {x : α}
    (h : l.dropWhile p = x :: r) : p x = false := by
  have hhead := List.head?_dropWhile_not p l
  rw [h] at hhead
  simpa using hhead

/-- The nodes of the command at the front, the other nodes after them, and the rest,
which only a clean removal leaves without foreign nodes. -/
theorem removal_split (cmd : UInt16) (cells : List (ℕ × SocketCmdInfo)) :
    ∃ A B C, cells = A ++ (B ++ C) ∧ (∀ c ∈ A, c.2.cmd = cmd) ∧ (∀ c ∈ B, c.2.cmd ≠ cmd) ∧
      (B = [] → C = []) ∧
      (cleanRemoval cmd (cells.map Prod.snd) = true → ∀ c ∈ C, c.2.cmd = cmd) ∧
      (cleanRemoval cmd (cells.map Prod.snd) = false →
        ∃ x C', C = x :: C' ∧ x.2.cmd = cmd ∧ ∃ y ∈ C', y.2.cmd ≠ cmd) := by
  let m : ℕ × SocketCmdInfo → Bool := fun c => c.2.cmd == cmd
  let R := cells.dropWhile m
  have hclean : cleanRemoval cmd (cells.map Prod.snd) = (R.dropWhile (!m ·)).all m := by
    simp only [cleanRemoval, List.dropWhile_map, List.all_map]
    rfl
  refine ⟨cells.takeWhile m, R.takeWhile (!m ·), R.dropWhile (!m ·), ?_, ?_, ?_, ?_, ?_, ?_⟩
  · rw [List.takeWhile_append_dropWhile, List.takeWhile_append_dropWhile]
  · intro c hc
    simpa [m] using List.mem_takeWhile_imp hc
  · intro c hc
    simpa [m] using List.mem_takeWhile_imp hc
  · intro hB
    cases hR : R with
    | nil => rfl
    | cons x r =>
        have hx : m x = false := not_of_dropWhile_eq_cons hR
        rw [hR] at hB
        simp [hx] at hB
  · intro h c hc
    rw [hclean, List.all_eq_true] at h
    simpa [m] using h c hc
  · intro h
    rw [hclean, List.all_eq_false] at h
    obtain ⟨y, hy, hym⟩ := h
    cases hC : R.dropWhile (!m ·) with
    | nil => simp [hC] at hy
    | cons x C' =>
        have hx : m x = true := by simpa using not_of_dropWhile_eq_cons hC
        rw [hC] at hy
        rcases List.mem_cons.mp hy with rfl | hy
        · exact absurd hx hym
        · exact ⟨x, C', rfl, by simpa [m] using hx, y, hy, by simpa [m] using hym⟩

section

variable {cmd : UInt16} {A B C : List (ℕ × SocketCmdInfo)}

theorem filter_keep_split (hA : ∀ c ∈ A, c.2.cmd = cmd) (hB : ∀ c ∈ B, c.2.cmd ≠ cmd) :
    (A ++ (B ++ C)).filter (·.2.cmd != cmd) = B ++ C.filter (·.2.cmd != cmd) := by
  rw [List.filter_append, List.filter_append, List.filter_eq_nil_iff.mpr, List.nil_append,
    List.filter_eq_self.mpr]
  · intro c hc; simpa using hB c hc
  · intro c hc; simpa using hA c hc

/-- A kept node is not freed. -/
theorem not_mem_dropped {cells : List (ℕ × SocketCmdInfo)}
    (hnodup : (cells.map Prod.fst).Nodup) {c : ℕ × SocketCmdInfo} (hc : c ∈ cells)
    (hne : c.2.cmd ≠ cmd) : c.1 ∉ dropped cmd cells := by
  intro hmem
  obtain ⟨d, hd, hdc⟩ := List.mem_map.mp hmem
  obtain ⟨hd, hcmd⟩ := List.mem_filter.mp hd
  obtain rfl := List.inj_on_of_nodup_map hnodup hd hc hdc
  exact hne (by simpa using hcmd)

/-- After a clean removal the other nodes are left, in the same order. -/
theorem path_after_clean {h h' : Heap SocketCmdInfo} {head : Option ℕ}
    (hpath : h.Path head (A ++ (B ++ C)) none) (hA : ∀ c ∈ A, c.2.cmd = cmd)
    (hB : ∀ c ∈ B, c.2.cmd ≠ cmd) (hC : ∀ c ∈ C, c.2.cmd = cmd)
    (hread : ∀ x, h'.read x = readAfter h cmd (A ++ (B ++ C)) none x) :
    h'.Path (B.head?.map Prod.fst) B none := by
  have hnodup := hpath.nodup
  obtain ⟨r₁, -, hBC⟩ := Heap.path_append.mp hpath
  obtain ⟨r₂, hpathB, hpathC⟩ := Heap.path_append.mp hBC
  have hkeep : (A ++ (B ++ C)).filter (·.2.cmd != cmd) = B := by
    rw [filter_keep_split hA hB, List.filter_eq_nil_iff.mpr (fun c hc => by simpa using hC c hc),
      List.append_nil]
  rcases List.eq_nil_or_concat B with rfl | ⟨B', ⟨q, w⟩, rfl⟩
  · rfl
  · rw [List.concat_eq_append] at *
    obtain ⟨hfront, hq⟩ := Heap.path_concat.mp hpathB
    have hqmem : q ∉ (A ++ B').map Prod.fst :=
      Heap.Path.not_mem_front (m := C) (v := w) (by simpa using hpath)
    have hlast : lastKept cmd (A ++ (B' ++ [(q, w)] ++ C)) none = some q := by
      rw [lastKept, hkeep, List.getLast?_concat]
      rfl
    have hundropped {c : ℕ × SocketCmdInfo} (hc : c ∈ B' ++ [(q, w)]) :
        c.1 ∉ dropped cmd (A ++ (B' ++ [(q, w)] ++ C)) :=
      not_mem_dropped hnodup (List.mem_append_right _ (List.mem_append_left _ hc)) (hB c hc)
    have hr₁ : (B' ++ [(q, w)]).head?.map Prod.fst = r₁ := by
      cases B' with
      | nil => exact hpathB.1.symm
      | cons c B' => exact hpathB.1.symm
    rw [hr₁]
    refine Heap.path_concat.mpr ⟨hfront.congr fun x hx => ?_, ?_⟩
    · obtain ⟨c, hc, rfl⟩ := List.mem_map.mp hx
      have hxq : q ≠ c.1 := fun heq => hqmem (by
        rw [List.map_append]
        exact List.mem_append_right _ (heq ▸ hx))
      rw [hread, readAfter, if_neg (hundropped (List.mem_append_left _ hc)), hlast,
        if_neg (by simp [hxq])]
    · rw [hread, readAfter, if_neg (hundropped (c := (q, w)) (by simp)), hlast, hq]
      rcases List.eq_nil_or_concat C with rfl | ⟨C', d, rfl⟩
      · obtain rfl : r₂ = none := hpathC
        split <;> rfl
      · have hd : d.2.cmd = cmd := hC d (by simp)
        rw [if_pos (by simp [endsDropped, ← List.append_assoc, hd])]
        rfl

/-- After any other removal the list runs into a freed node. -/
theorem dangles_after_dirty {h h' : Heap SocketCmdInfo} {head : Option ℕ}
    {x y : ℕ × SocketCmdInfo} (hpath : h.Path head (A ++ (B ++ x :: C)) none)
    (hB : ∀ c ∈ B, c.2.cmd ≠ cmd) (hne : B ≠ []) (hx : x.2.cmd = cmd) (hy : y ∈ C)
    (hycmd : y.2.cmd ≠ cmd) (hA : ∀ c ∈ A, c.2.cmd = cmd)
    (hread : ∀ z, h'.read z = readAfter h cmd (A ++ (B ++ x :: C)) none z)
    (hsize : h'.size = h.size) : h'.Dangles (B.head?.map Prod.fst) := by
  have hnodup := hpath.nodup
  obtain ⟨r₁, -, hBC⟩ := Heap.path_append.mp hpath
  obtain ⟨r₂, hpathB, hpathC⟩ := Heap.path_append.mp hBC
  have hr₁ : B.head?.map Prod.fst = r₁ := by
    obtain ⟨c, B, rfl⟩ := List.exists_cons_of_ne_nil hne
    exact hpathB.1.symm
  have hr₂ : r₂ = some x.1 := hpathC.1
  have hlast : ∃ z ∈ C, lastKept cmd (A ++ (B ++ x :: C)) none = some z.1 := by
    have hyC : y ∈ C.filter (·.2.cmd != cmd) := List.mem_filter.mpr ⟨hy, by simpa using hycmd⟩
    obtain ⟨init, z, hz⟩ : ∃ init z, C.filter (·.2.cmd != cmd) = init ++ [z] := by
      rcases List.eq_nil_or_concat (C.filter (·.2.cmd != cmd)) with hnil | ⟨init, z, hz⟩
      · simp [hnil] at hyC
      · exact ⟨init, z, by rw [hz, List.concat_eq_append]⟩
    have hzC : z ∈ C := List.mem_of_mem_filter (hz ▸ (by simp : z ∈ init ++ [z]))
    have hz' : (x :: C).filter (·.2.cmd != cmd) = init ++ [z] := by
      rw [List.filter_cons_of_neg (by simpa using hx), hz]
    refine ⟨z, hzC, ?_⟩
    rw [lastKept, filter_keep_split hA hB, hz', ← List.append_assoc, List.getLast?_concat]
    rfl
  obtain ⟨z, hz, hlast⟩ := hlast
  refine ⟨B, x.1, ?_, hsize ▸ hpath.lt_size (by simp), ?_⟩
  · rw [hr₁, ← hr₂]
    apply hpathB.congr
    intro b hb
    obtain ⟨c, hc, rfl⟩ := List.mem_map.mp hb
    have hcz : z.1 ≠ c.1 := by
      intro heq
      have hback : z ∈ A ++ (B ++ x :: C) := by simp [hz]
      have hfront : c ∈ A ++ (B ++ x :: C) := by simp [hc]
      obtain rfl := List.inj_on_of_nodup_map hnodup hback hfront heq
      rw [List.map_append, List.map_append, List.nodup_append', List.nodup_append'] at hnodup
      exact hnodup.2.1.2.2 (List.mem_map_of_mem hc)
        (List.mem_map_of_mem (List.mem_cons_of_mem _ hz))
    rw [hread, readAfter, if_neg (not_mem_dropped hnodup (by simp [hc]) (hB c hc)), hlast,
      if_neg (by simp [hcz])]
  · rw [hread, readAfter, if_pos]
    exact List.mem_map.mpr ⟨x, List.mem_filter.mpr ⟨by simp, by simpa using hx⟩, rfl⟩

end

/-- `_destoryRecvList2` always returns. It leaves the nodes of the other commands when
the removal is clean, and a list that runs into a freed node otherwise. -/
theorem destoryRecvList2_spec {l : RecvList} {vs : List SocketCmdInfo} (hl : l.Holds vs)
    (cmd : UInt16) :
    ∃ l', l.destoryRecvList2 cmd = some l' ∧
      (cleanRemoval cmd vs = true → l'.Holds (vs.filter (·.cmd != cmd))) ∧
      (cleanRemoval cmd vs = false → l'.Dangling) := by
  obtain ⟨cells, hpath, rfl⟩ := hl
  obtain ⟨h, head⟩ := l
  obtain ⟨h', hloop, hread⟩ := destoryRecvList2Loop_spec cmd head none
    hpath hpath.length_le (by simp) (fun _ => rfl)
  rw [if_pos rfl] at hloop
  obtain ⟨A, B, C, rfl, hA, hB, hBC, hclean, hdirty⟩ := removal_split cmd cells
  refine ⟨_, hloop, fun hcl => ?_, fun hd => ?_⟩
  · have hC := hclean hcl
    have hkeep : (A ++ (B ++ C)).filter (·.2.cmd != cmd) = B := by
      rw [filter_keep_split hA hB,
        List.filter_eq_nil_iff.mpr (fun c hc => by simpa using hC c hc), List.append_nil]
    refine ⟨B, ?_, ?_⟩
    · rw [hkeep]
      exact path_after_clean hpath hA hB hC hread
    · rw [List.filter_map]
      exact congrArg _ hkeep.symm
  · obtain ⟨x, C, rfl, hx, y, hy, hycmd⟩ := hdirty hd
    have hne : B ≠ [] := fun hB => by simpa using hBC hB
    have hhead : ((A ++ (B ++ x :: C)).filter (·.2.cmd != cmd)).head? = B.head? := by
      obtain ⟨b, B, rfl⟩ := List.exists_cons_of_ne_nil hne
      rw [filter_keep_split hA hB]
      rfl
    have hsize := destoryRecvList2Loop_size cmd hloop
    rw [Dangling, hhead]
    exact dangles_after_dirty hpath hB hne hx hy hycmd hA hread hsize

/-! ### A damaged list -/

section

variable {h : Heap SocketCmdInfo} {cmd : UInt16} {cells : List (ℕ × SocketCmdInfo)}
  {p : Option ℕ} {q : ℕ}

theorem addRecvListLoop_freed (hpath : h.Path p cells (some q)) (hq : h.read q = none)
    (fuel prev : ℕ) :
    addRecvListLoop h fuel p prev = none := by
  induction cells generalizing p fuel prev with
  | nil =>
      obtain rfl : p = some q := hpath
      cases fuel <;> simp [addRecvListLoop, hq]
  | cons c cells ih =>
      obtain ⟨a, v⟩ := c
      obtain ⟨rfl, n, hn, hrest⟩ := hpath
      cases fuel with
      | zero => rfl
      | succ fuel => simp [addRecvListLoop, hn, ih hrest]

theorem checkRecvList2Loop_freed (hpath : h.Path p cells (some q)) (hq : h.read q = none)
    (fuel : ℕ) (totalnum num : Int) :
    checkRecvList2Loop h cmd fuel p totalnum num ≠ some false := by
  induction cells generalizing p fuel totalnum num with
  | nil =>
      obtain rfl : p = some q := hpath
      cases fuel <;> simp [checkRecvList2Loop, hq]
  | cons c cells ih =>
      obtain ⟨a, v⟩ := c
      obtain ⟨rfl, n, hn, hrest⟩ := hpath
      cases fuel with
      | zero => simp [checkRecvList2Loop]
      | succ fuel =>
          simp only [checkRecvList2Loop, hn, Option.bind_eq_bind, Option.bind_some]
          split_ifs <;> first | exact ih hrest fuel _ _ | simp

theorem collectLoop_freed (hpath : h.Path p cells (some q)) (hq : h.read q = none) (fuel : ℕ)
    (c : SocketCmd) : collectLoop h cmd fuel p c = none := by
  induction cells generalizing p fuel c with
  | nil =>
      obtain rfl : p = some q := hpath
      cases fuel <;> simp [collectLoop, hq]
  | cons d cells ih =>
      obtain ⟨a, v⟩ := d
      obtain ⟨rfl, n, hn, hrest⟩ := hpath
      cases fuel with
      | zero => rfl
      | succ fuel => simp [collectLoop, hn, ih hrest]

end

/-- Appending walks the whole list, into the freed node. -/
theorem Dangling.addRecvList {l : RecvList} (hl : l.Dangling) (v : SocketCmdInfo) :
    addRecvList { l with heap := l.heap.alloc ⟨v, none⟩ } l.heap.size = none := by
  obtain ⟨cells, q, hpath, -, hq⟩ := Heap.Dangles.alloc hl ⟨v, none⟩
  cases hhead : l.psockCmdListHead with
  | none =>
      rw [hhead] at hpath
      cases cells with
      | nil => exact absurd hpath (by simp)
      | cons c cells => exact absurd hpath.1 (by simp)
  | some head =>
      rw [hhead] at hpath
      simp [RecvList.addRecvList, addRecvListLoop_freed hpath hq]

/-- The completion test may stop before the freed node, but only with a match. -/
theorem Dangling.checkRecvList2 {l : RecvList} (hl : l.Dangling) (cmd : UInt16) :
    l.checkRecvList2 cmd ≠ some false := by
  obtain ⟨cells, q, hpath, -, hq⟩ := hl
  exact checkRecvList2Loop_freed hpath hq _ _ _

theorem Dangling.collect {l : RecvList} (hl : l.Dangling) (cmd : UInt16) (c : SocketCmd) :
    l.collect cmd c = none := by
  obtain ⟨cells, q, hpath, -, hq⟩ := hl
  exact collectLoop_freed hpath hq ..

end RecvList

end PanelTester.PackSocket
