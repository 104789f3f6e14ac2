import PanelTester.Library.StringArray
import PanelTester.Library.Words

/-!
`load_gamma_config` of `vcom.c`, which reads the gamma registers of a configuration. Each turn of
its loop stores a word of four bytes for an element of one byte and then goes on behind the next
space, so that a token is scanned once for each space in front of it. The condition
`i < nums, new_str` of the loop is that of its second part.
-/

namespace PanelTester.Gamma

open Library

/-- `MAX_GAMMA_REG_NUMS` -/
def maxGammaRegNums : ℕ := 255

/-- `gamma_reg` -/
@[ext] structure GammaReg where
  bytes : List UInt8
  size : bytes.length = maxGammaRegNums

/-- `gamma_cfg_t` -/
structure GammaCfg where
  enableGammaReg : ℤ
  gammaRegNums : ℤ
  gammaReg : GammaReg

/-- What `iniparser_load` returns: the strings that its keys have. -/
abbrev Dictionary := String → Option Str

def iniparserGetint (ini : Dictionary) (key : String) (notfound : ℤ) : ℤ :=
  match ini key with
  | none => notfound
  | some str => strtol str 0

def iniparserGetboolean (ini : Dictionary) (key : String) (notfound : ℤ) : ℤ :=
  match ini key with
  | none => notfound
  | some c =>
      if c.head?.any (· ∈ "yY1tT".toList) then 1
      else if c.head?.any (· ∈ "nN0fF".toList) then 0
      else notfound

def iniparserGetstring (ini : Dictionary) (key : String) (default : Str) : Str :=
  (ini key).getD default

/-- The number at the front of a string, if there is one. -/
def scanDigits (s : Str) : Option ℕ :=
  if (s.head?.bind digitValue).any (· < 16) then some (readNumber 16 s) else none

/-- A number as `strtoul` returns it. -/
def clip (n : ℕ) : UInt32 := UInt32.ofNat (min n (2 ^ 32 - 1))

/-- What `sscanf` with `%x` stores; nothing is stored when it finds no number. -/
def scanHex (s : Str) : Option UInt32 :=
  match s.dropWhile isSpace with
  | '-' :: t => (scanDigits t).map fun n => if n < 2 ^ 32 then -clip n else clip n
  | '+' :: t => (scanDigits t).map clip
  | t => (scanDigits t).map clip

/-- A word is stored at `gamma_reg + i`; there is no result when it leaves the array. -/
def GammaReg.storeWord (reg : GammaReg) (i : ℕ) (w : UInt32) : Option GammaReg :=
  if h : i + (bytesLE32 w).length ≤ reg.bytes.length then
    some ⟨overwrite reg.bytes i (bytesLE32 w), (length_overwrite h).trans reg.size⟩
  else none

/-- What stands behind the first space. -/
def behindSpace (s : Str) : Option Str :=
  match s.dropWhile (· ≠ ' ') with
  | [] => none
  | _ :: t => some t

theorem length_behindSpace {s t : Str} (h : behindSpace s = some t) : t.length < s.length := by
  rw [behindSpace] at h
  split at h
  · exact absurd h.symm (Option.some_ne_none t)
  · rename_i hdrop
    obtain rfl := Option.some.inj h
    have hle := (List.dropWhile_suffix (l := s) (· ≠ ' ')).length_le
    rw [hdrop, List.length_cons] at hle
    exact hle

/-- The loop of `load_gamma_config`. -/
def scanLoop (reg : GammaReg) (i : ℕ) (newStr : Str) : Option GammaReg :=
  let stored :=
    match scanHex newStr with
    | none => some reg
    | some w => reg.storeWord i w
  match h : behindSpace newStr with
  | none => stored
  | some t => stored.bind fun reg => scanLoop reg (i + 1) t
termination_by newStr.length
decreasing_by exact length_behindSpace h

/-- `load_gamma_config`, where `iniparser_load` returns `ini`. -/
def loadGammaConfig (pGammaCfg : Option GammaCfg) (fileName : Option Str)
    (ini : Option Dictionary) : Option (ℤ × Option GammaCfg) :=
  match pGammaCfg, fileName, ini with
  | some cfg, some _, some ini =>
      (scanLoop cfg.gammaReg 0 (iniparserGetstring ini "init_data:gamma_reg" [])).map fun reg =>
        (0, some
          { enableGammaReg := iniparserGetboolean ini "init_data:enable_gamma_reg" 0
            gammaRegNums := iniparserGetint ini "init_data:gamma_reg_nums" 0
            gammaReg := reg })
  | pGammaCfg, _, _ => some (-1, pGammaCfg)

/-! ### Texts of tokens -/

/-- A hexadecimal number as `sscanf` takes it, with or without `0x`. -/
def IsHex (s : Str) : Prop :=
  ∃ c ds, (∀ d ∈ c :: ds, (digitValue d).any (· < 16)) ∧
    (s = c :: ds ∨ ∃ x, (x = 'x' ∨ x = 'X') ∧ s = '0' :: x :: c :: ds)

/-- A token, and how many spaces more than it needs stand in front of it. -/
structure Token where
  spaces : ℕ
  digits : Str
  isHex : IsHex digits

def Token.value (t : Token) : ℕ := readNumber 16 t.digits

def Token.text (t : Token) : Str := List.replicate t.spaces ' ' ++ t.digits

/-- Tokens one after the other, with a space or more between them. -/
def textOf : List Token → Str
  | [] => []
  | [t] => t.text
  | t :: u :: ts => t.text ++ ' ' :: textOf (u :: ts)

/-- The value of each token, as often as the token is scanned. -/
def scanned (ts : List Token) : List ℕ :=
  ts.flatMap fun t => List.replicate (t.spaces + 1) t.value

/-- The bytes that words leave behind which are stored a byte apart. -/
def storedBytes : List ℕ → List UInt8
  | [] => []
  | [n] => bytesLE32 (clip n)
  | n :: m :: ns => (clip n).toUInt8 :: storedBytes (m :: ns)

theorem length_storedBytes {ns : List ℕ} (hne : ns ≠ []) :
    (storedBytes ns).length = ns.length + 3 := by
  induction ns using storedBytes.induct with
  | case1 => exact absurd rfl hne
  | case2 n => rfl
  | case3 n m ns ih =>
      have hcons : (n :: m :: ns).length = (m :: ns).length + 1 := List.length_cons
      rw [storedBytes, List.length_cons, ih (List.cons_ne_nil m ns), hcons]

/-! ### Scanning a token -/

theorem behindSpace_append {s : Str} (hs : ' ' ∉ s) (t : Str) :
    behindSpace (s ++ ' ' :: t) = some t := by
  have hall : ∀ c ∈ s, decide (c ≠ ' ') = true := fun c hc =>
    decide_eq_true fun h => hs (h ▸ hc)
  rw [behindSpace, List.dropWhile_append_of_pos hall, List.dropWhile_cons_of_neg (by simp)]

theorem behindSpace_of_notMem {s : Str} (hs : ' ' ∉ s) : behindSpace s = none := by
  have hall : ∀ c ∈ s, decide (c ≠ ' ') = true := fun c hc =>
    decide_eq_true fun h => hs (h ▸ hc)
  rw [behindSpace, List.dropWhile_eq_nil_iff.mpr hall]

/-- What the characters of a token are not. -/
theorem IsHex.not_mem {s : Str} (h : IsHex s) {c : Char} (hc : (digitValue c).all (16 ≤ ·))
    (hx : c ≠ 'x') (hX : c ≠ 'X') : c ∉ s := by
  obtain ⟨d, ds, hdigits, hs⟩ := h
  have hnot : c ∉ d :: ds := by
    intro hmem
    have hlt := hdigits c hmem
    cases hvalue : digitValue c with
    | none => simp [hvalue] at hlt
    | some n =>
        simp only [hvalue, Option.all_some, Option.any_some, decide_eq_true_eq] at hc hlt
        omega
  rcases hs with rfl | ⟨x, hmark, rfl⟩
  · exact hnot
  · intro hmem
    rcases List.mem_cons.mp hmem with rfl | hmem
    · exact absurd hc (by decide)
    · rcases List.mem_cons.mp hmem with rfl | hmem
      · rcases hmark with rfl | rfl
        · exact hx rfl
        · exact hX rfl
      · exact hnot hmem

theorem IsHex.space_not_mem {s : Str} (h : IsHex s) : ' ' ∉ s :=
  h.not_mem (by decide) (by decide) (by decide)

/-- The digits at the front of a string end at a space. -/
theorem readDigits_append_space (base n : ℕ) {s : Str} (t : Str) :
    readDigits base n (s ++ ' ' :: t) = readDigits base n s := by
  induction s generalizing n with
  | nil => rfl
  | cons c s ih =>
      rw [List.cons_append, readDigits, readDigits]
      cases digitValue c with
      | none => rfl
      | some d =>
          dsimp only
          split_ifs
          · exact ih _
          · rfl

theorem hexMarked_of_ne {c : Char} (hc : c ≠ '0') (s : Str) : hexMarked (c :: s) = false := by
  rw [hexMarked]
  intro x d tail heq
  exact hc (List.cons.inj heq).1

theorem hexMarked_append_space (s t : Str) : hexMarked (s ++ ' ' :: t) = hexMarked s := by
  cases s with
  | nil => rfl
  | cons c s =>
      rcases eq_or_ne c '0' with rfl | hc
      · match s with
        | [] => cases t <;> rfl
        | [x] =>
            have hspace : ((digitValue ' ').any fun n => decide (n < 16)) = false := rfl
            show ((decide (x = 'x') || decide (x = 'X')) &&
              (digitValue ' ').any fun n => decide (n < 16)) = false
            rw [hspace, Bool.and_false]
        | _ :: _ :: _ => rfl
      · rw [List.cons_append, hexMarked_of_ne hc, hexMarked_of_ne hc]

/-- A marked number has a digit behind the mark. -/
theorem length_of_hexMarked {s : Str} (h : hexMarked s = true) : 3 ≤ s.length := by
  unfold hexMarked at h
  split at h
  · rename_i x d tail
    exact Nat.le_add_left 3 tail.length
  · exact absurd h Bool.false_ne_true

theorem readNumber_sixteen (s : Str) :
    readNumber 16 s = if hexMarked s then readDigits 16 0 (s.drop 2) else readDigits 16 0 s := by
  simp [readNumber]

theorem readNumber_append_space (s t : Str) :
    readNumber 16 (s ++ ' ' :: t) = readNumber 16 s := by
  rw [readNumber_sixteen, readNumber_sixteen, hexMarked_append_space, readDigits_append_space]
  split_ifs with hmark
  · have hlen := length_of_hexMarked hmark
    rw [List.drop_append_of_le_length (by omega), readDigits_append_space]
  · rfl

/-- `sscanf` finds the token behind the spaces. -/
theorem scanHex_token {s : Str} (h : IsHex s) (n : ℕ) {t : Str} (ht : t = [] ∨ ∃ u, t = ' ' :: u) :
    scanHex (List.replicate n ' ' ++ (s ++ t)) = some (clip (readNumber 16 s)) := by
  have hnumber : readNumber 16 (s ++ t) = readNumber 16 s := by
    rcases ht with rfl | ⟨u, rfl⟩
    · rw [List.append_nil]
    · exact readNumber_append_space s u
  have hhex : ∃ c tail, s = c :: tail ∧ (digitValue c).any (· < 16) := by
    obtain ⟨c, ds, hdigits, rfl | ⟨x, -, rfl⟩⟩ := h
    · exact ⟨c, ds, rfl, hdigits c List.mem_cons_self⟩
    · exact ⟨'0', x :: c :: ds, rfl, rfl⟩
  obtain ⟨c, tail, rfl, hc⟩ := hhex
  have hnot : ∀ d : Char, (digitValue d).any (· < 16) = false → c ≠ d := by
    rintro d hd rfl
    exact Bool.false_ne_true (hd.symm.trans hc)
  have hvisible : ¬ isSpace c = true := by
    have hsix := hnot (Char.ofNat 11) rfl
    have hseven := hnot (Char.ofNat 12) rfl
    simp only [isSpace, hnot ' ' rfl, hnot '\t' rfl, hnot '\n' rfl, hnot '\r' rfl, hsix, hseven]
    decide
  have hspaces : (List.replicate n ' ').all isSpace := by
    rw [List.all_replicate]
    exact ite_self true
  have hdrop : (List.replicate n ' ' ++ (c :: tail ++ t)).dropWhile isSpace = c :: (tail ++ t) := by
    rw [List.dropWhile_append_of_pos (List.all_eq_true.mp hspaces), List.cons_append,
      List.dropWhile_cons_of_neg hvisible]
  have hfound : scanDigits (c :: (tail ++ t)) = some (readNumber 16 (c :: tail)) := by
    rw [scanDigits, List.head?_cons, Option.bind_some, if_pos hc, ← List.cons_append, hnumber]
  rw [scanHex, hdrop]
  split
  · rename_i u hu
    exact absurd (List.cons.inj hu).1 (hnot '-' rfl)
  · rename_i u hu
    exact absurd (List.cons.inj hu).1 (hnot '+' rfl)
  · rw [hfound, Option.map_some]

/-! ### The loop -/

/-- Numbers are stored one after the other, a byte apart. -/
def storeAll : GammaReg → ℕ → List ℕ → Option GammaReg
  | reg, _, [] => some reg
  | reg, i, n :: ns => (reg.storeWord i (clip n)).bind fun reg => storeAll reg (i + 1) ns

section

variable {reg reg' : GammaReg} {i : ℕ} {s t : Str} {w : UInt32}

theorem scanLoop_last (hscan : scanHex s = some w) (h : behindSpace s = none) :
    scanLoop reg i s = reg.storeWord i w := by
  rw [scanLoop, hscan]
  split
  · rfl
  · rename_i hsome
    exact absurd (h.symm.trans hsome) (Option.some_ne_none _).symm

theorem scanLoop_next (hscan : scanHex s = some w) (h : behindSpace s = some t) :
    scanLoop reg i s = (reg.storeWord i w).bind fun reg => scanLoop reg (i + 1) t := by
  rw [scanLoop, hscan]
  split
  · rename_i hnone
    exact absurd (h.symm.trans hnone) (Option.some_ne_none t)
  · rename_i hsome
    rw [h] at hsome
    obtain rfl := Option.some.inj hsome
    rfl

/-- A token is scanned once for each space in front of it, and once more. -/
theorem scanLoop_token {d : Str} (hd : IsHex d) {tail : Str} {ns : List ℕ}
    (htail : tail = [] ∧ ns = [] ∨
      ∃ u, tail = ' ' :: u ∧ ∀ reg i, scanLoop reg i u = storeAll reg i ns)
    (k : ℕ) (reg : GammaReg) (i : ℕ) :
    scanLoop reg i (List.replicate k ' ' ++ (d ++ tail)) =
      storeAll reg i (List.replicate (k + 1) (readNumber 16 d) ++ ns) := by
  have htoken : ∀ k, scanHex (List.replicate k ' ' ++ (d ++ tail)) =
      some (clip (readNumber 16 d)) := by
    intro k
    apply scanHex_token hd
    rcases htail with ⟨hnil, -⟩ | ⟨u, hu, -⟩
    · exact .inl hnil
    · exact .inr ⟨u, hu⟩
  induction k generalizing reg i with
  | zero =>
      rcases htail with ⟨rfl, rfl⟩ | ⟨u, rfl, hu⟩
      · have hend : behindSpace (List.replicate 0 ' ' ++ (d ++ [])) = none := by
          rw [List.append_nil]
          exact behindSpace_of_notMem hd.space_not_mem
        rw [scanLoop_last (htoken 0) hend]
        exact (Option.bind_fun_some _).symm
      · rw [scanLoop_next (htoken 0) (behindSpace_append hd.space_not_mem u)]
        simp only [hu]
        rfl
  | succ k ih =>
      have hnext : behindSpace (List.replicate (k + 1) ' ' ++ (d ++ tail)) =
          some (List.replicate k ' ' ++ (d ++ tail)) :=
        behindSpace_append (List.not_mem_nil) _
      rw [scanLoop_next (htoken (k + 1)) hnext, List.replicate_succ, List.cons_append, storeAll]
      simp only [ih]

/-- The loop stores the value of each token as often as it scans the token. -/
theorem scanLoop_textOf (ts : List Token) (reg : GammaReg) (i : ℕ) :
    scanLoop reg i (textOf ts) = storeAll reg i (scanned ts) := by
  induction ts using textOf.induct generalizing reg i with
  | case1 =>
      rw [textOf, scanLoop]
      rfl
  | case2 t =>
      rw [textOf, Token.text, scanned, List.flatMap_singleton]
      have hlast := scanLoop_token t.isHex (.inl ⟨rfl, rfl⟩) t.spaces reg i
      rwa [List.append_nil, List.append_nil] at hlast
  | case3 t u ts ih =>
      rw [textOf, Token.text, List.append_assoc, scanned, List.flatMap_cons]
      exact scanLoop_token t.isHex (.inr ⟨_, rfl, ih⟩) t.spaces reg i

end

theorem storeWord_eq_some {reg reg' : GammaReg} {i : ℕ} {w : UInt32} :
    reg.storeWord i w = some reg' ↔
      i + 4 ≤ maxGammaRegNums ∧ reg'.bytes = overwrite reg.bytes i (bytesLE32 w) := by
  have hfit : i + (bytesLE32 w).length ≤ reg.bytes.length ↔ i + 4 ≤ maxGammaRegNums := by
    rw [reg.size, length_bytesLE32]
  rw [GammaReg.storeWord]
  split
  · rename_i h
    constructor
    · intro heq
      obtain rfl := Option.some.inj heq
      exact ⟨hfit.mp h, rfl⟩
    · rintro ⟨-, hbytes⟩
      exact congrArg some (GammaReg.ext hbytes.symm)
  · rename_i h
    apply iff_of_false (Option.some_ne_none reg').symm
    rintro ⟨hlt, -⟩
    exact h (hfit.mpr hlt)

/-- What is stored fits the array, and the bytes that are left of it. -/
theorem storeAll_eq_some {reg reg' : GammaReg} {i : ℕ} {ns : List ℕ} (hne : ns ≠ []) :
    storeAll reg i ns = some reg' ↔ i + ns.length + 3 ≤ maxGammaRegNums ∧
      reg'.bytes = overwrite reg.bytes i (storedBytes ns) := by
  induction ns using storedBytes.induct generalizing reg i with
  | case1 => exact absurd rfl hne
  | case2 n =>
      have hone : storeAll reg i [n] = reg.storeWord i (clip n) :=
        Option.bind_fun_some _
      rw [hone, storeWord_eq_some, storedBytes]
      rfl
  | case3 n m ns ih =>
      have hlonger : (bytesLE32 (clip n)).tail.length ≤ (storedBytes (m :: ns)).length := by
        rw [length_storedBytes (List.cons_ne_nil m ns)]
        exact Nat.le_add_left 3 _
      have hcons : (n :: m :: ns).length = (m :: ns).length + 1 := List.length_cons
      have hover : i + 4 ≤ maxGammaRegNums →
          overwrite (overwrite reg.bytes i (bytesLE32 (clip n))) (i + 1) (storedBytes (m :: ns)) =
            overwrite reg.bytes i (storedBytes (n :: m :: ns)) := by
        intro hroom
        apply overwrite_overwrite_succ _ hlonger
        rw [reg.size]
        omega
      rw [storeAll, Option.bind_eq_some_iff]
      constructor
      · rintro ⟨reg₁, hfirst, hrest⟩
        obtain ⟨hroom, hbytes₁⟩ := storeWord_eq_some.mp hfirst
        obtain ⟨hfit, hbytes⟩ := (ih (List.cons_ne_nil m ns)).mp hrest
        rw [hbytes₁, hover hroom] at hbytes
        refine ⟨?_, hbytes⟩
        omega
      · rintro ⟨hfit, hbytes⟩
        have hroom : i + 4 ≤ maxGammaRegNums := by omega
        have hsize : (overwrite reg.bytes i (bytesLE32 (clip n))).length = maxGammaRegNums := by
          rw [length_overwrite (by rw [length_bytesLE32, reg.size]; exact hroom), reg.size]
        refine ⟨⟨_, hsize⟩, storeWord_eq_some.mpr ⟨hroom, rfl⟩, ?_⟩
        rw [ih (List.cons_ne_nil m ns), hover hroom]
        refine ⟨?_, hbytes⟩
        omega

/-! ### Which configurations are loaded -/

/-- What is promised of a configuration whose `gamma_reg` is the text of `ts`: the values of the
first tokens, at most `gamma_reg_nums` of them, are in front of what the array held behind them. -/
def LoadsTokens (cfg : GammaCfg) (fileName : Str) (ini : Dictionary) (ts : List Token) : Prop :=
  let nums := iniparserGetint ini "init_data:gamma_reg_nums" 0
  let m := min nums.toNat ts.length
  ∃ cfg', loadGammaConfig (some cfg) (some fileName) (some ini) = some (0, some cfg') ∧
    cfg'.gammaRegNums = nums ∧
    cfg'.gammaReg.bytes.map UInt8.toNat =
      (ts.map Token.value).take m ++ (cfg.gammaReg.bytes.drop m).map UInt8.toNat

/-- The text has no token. Or the words that are stored for it stay in the array; the numbers
that are wanted are bytes, and are the first that are scanned; and what is stored behind them is
what the array held there. -/
def Fits (reg : GammaReg) (m : ℕ) (ts : List Token) : Prop :=
  ts = [] ∨ (scanned ts).length + 3 ≤ maxGammaRegNums ∧
    (∀ n ∈ (ts.map Token.value).take m, n < 256) ∧
    (scanned ts).take m = (ts.map Token.value).take m ∧
    (storedBytes (scanned ts)).drop m <+: reg.bytes.drop m

/-- Each word is stored whole but for what the next one takes of it. -/
theorem take_storedBytes {ns : List ℕ} {m : ℕ} (h : m ≤ ns.length) :
    (storedBytes ns).take m = (ns.take m).map fun n => (clip n).toUInt8 := by
  induction ns using storedBytes.induct generalizing m with
  | case1 =>
      obtain rfl := Nat.le_zero.mp h
      rfl
  | case2 n =>
      rcases Nat.le_one_iff_eq_zero_or_eq_one.mp h with rfl | rfl
      · rfl
      · rfl
  | case3 n k ns ih =>
      cases m with
      | zero => rfl
      | succ m =>
          rw [storedBytes, List.take_succ_cons, List.take_succ_cons, List.map_cons,
            ih (Nat.le_of_succ_le_succ h)]

theorem toNat_clip (n : ℕ) : (clip n).toUInt8.toNat = min n (2 ^ 32 - 1) % 256 := by
  rw [UInt32.toNat_toUInt8, clip, UInt32.toNat_ofNat']
  omega

theorem length_le_scanned (ts : List Token) : ts.length ≤ (scanned ts).length := by
  induction ts with
  | nil => exact Nat.zero_le _
  | cons t ts ih =>
      have hcons : scanned (t :: ts) = List.replicate (t.spaces + 1) t.value ++ scanned ts :=
        List.flatMap_cons
      rw [hcons, List.length_append, List.length_replicate, List.length_cons]
      omega

/-- What is scanned first comes from the first tokens. -/
theorem mem_take_scanned {ts : List Token} {m n : ℕ} (h : n ∈ (scanned ts).take m) :
    n ∈ (ts.map Token.value).take m := by
  induction ts generalizing m with
  | nil => exact absurd (List.mem_of_mem_take h) List.not_mem_nil
  | cons t ts ih =>
      have hcons : scanned (t :: ts) = List.replicate (t.spaces + 1) t.value ++ scanned ts :=
        List.flatMap_cons
      cases m with
      | zero => exact absurd h List.not_mem_nil
      | succ m =>
          rw [List.map_cons, List.take_succ_cons]
          rw [hcons, List.take_append, List.length_replicate, List.mem_append] at h
          rcases h with h | h
          · exact List.mem_cons.mpr (.inl (List.eq_of_mem_replicate (List.mem_of_mem_take h)))
          · apply List.mem_cons_of_mem
            exact List.take_subset_take_left _ (by omega) (ih h)

/-- The first numbers are found where the words of the first tokens are stored. -/
theorem map_clip_scanned (ts : List Token) (m : ℕ) :
    ((scanned ts).take m).map (fun n => (clip n).toUInt8.toNat) = (ts.map Token.value).take m ↔
      (∀ n ∈ (ts.map Token.value).take m, n < 256) ∧
        (scanned ts).take m = (ts.map Token.value).take m := by
  have hsame : ∀ ns : List ℕ, (∀ n ∈ ns, n < 256) →
      ns.map (fun n => (clip n).toUInt8.toNat) = ns := by
    intro ns hbytes
    apply (List.map_congr_left fun n hn => ?_).trans (List.map_id ns)
    have hlt := hbytes n hn
    rw [toNat_clip, id_eq]
    omega
  constructor
  · intro h
    have hbytes : ∀ n ∈ (ts.map Token.value).take m, n < 256 := by
      intro n hn
      rw [← h] at hn
      obtain ⟨k, -, rfl⟩ := List.mem_map.mp hn
      exact UInt8.toNat_lt _
    refine ⟨hbytes, ?_⟩
    rw [← h, hsame]
    intro n hn
    exact hbytes n (mem_take_scanned hn)
  · rintro ⟨hbytes, h⟩
    rw [h, hsame _ hbytes]

/-- What is written over the front of an array, seen from entry `m` of it. -/
theorem map_overwrite_zero {mem s : List UInt8} {m : ℕ} (hm : m ≤ s.length) {vs : List ℕ}
    (hvs : vs.length = m) :
    (overwrite mem 0 s).map UInt8.toNat = vs ++ (mem.drop m).map UInt8.toNat ↔
      (s.take m).map UInt8.toNat = vs ∧ s.drop m <+: mem.drop m := by
  have hsplit : overwrite mem 0 s =
      s.take m ++ (s.drop m ++ (mem.drop m).drop (s.drop m).length) := by
    rw [overwrite, List.take_zero, List.nil_append, List.drop_drop, List.length_drop,
      ← List.append_assoc, List.take_append_drop]
    congr 2
    omega
  have hlen : ((s.take m).map UInt8.toNat).length = vs.length := by
    rw [List.length_map, List.length_take, hvs]
    omega
  have hinj : Function.Injective (List.map UInt8.toNat) :=
    List.map_injective_iff.mpr fun _ _ => UInt8.toNat_inj.mp
  rw [hsplit, List.map_append, List.prefix_iff_eq_append]
  constructor
  · intro h
    obtain ⟨hfront, hrest⟩ := List.append_inj h hlen
    exact ⟨hfront, hinj hrest⟩
  · rintro ⟨hfront, hrest⟩
    rw [hfront, hrest]

/-- A text of tokens is loaded when the words that are stored for it fit the array. -/
theorem exists_loadGammaConfig {cfg : GammaCfg} {fileName : Str} {ini : Dictionary}
    {ts : List Token} (htext : iniparserGetstring ini "init_data:gamma_reg" [] = textOf ts)
    {P : GammaCfg → Prop} :
    (∃ cfg', loadGammaConfig (some cfg) (some fileName) (some ini) = some (0, some cfg') ∧
      P cfg') ↔
    ∃ reg, storeAll cfg.gammaReg 0 (scanned ts) = some reg ∧
      P { enableGammaReg := iniparserGetboolean ini "init_data:enable_gamma_reg" 0
          gammaRegNums := iniparserGetint ini "init_data:gamma_reg_nums" 0
          gammaReg := reg } := by
  rw [loadGammaConfig, htext, scanLoop_textOf]
  cases storeAll cfg.gammaReg 0 (scanned ts) with
  | none => simp
  | some reg => simp

theorem loadsTokens_iff (cfg : GammaCfg) (fileName : Str) (ini : Dictionary) (ts : List Token)
    (htext : iniparserGetstring ini "init_data:gamma_reg" [] = textOf ts) :
    LoadsTokens cfg fileName ini ts ↔
      Fits cfg.gammaReg
        (min (iniparserGetint ini "init_data:gamma_reg_nums" 0).toNat ts.length) ts := by
  rw [LoadsTokens, exists_loadGammaConfig htext]
  simp only [true_and]
  set m := min (iniparserGetint ini "init_data:gamma_reg_nums" 0).toNat ts.length with hm
  have hvalues : ((ts.map Token.value).take m).length = m := by
    rw [List.length_take, List.length_map]
    omega
  have hscanned := length_le_scanned ts
  rcases eq_or_ne ts [] with rfl | hne
  · refine iff_of_true ⟨cfg.gammaReg, rfl, ?_⟩ (.inl rfl)
    rw [show m = 0 from Nat.min_zero _]
    rfl
  · have hpos : 0 < ts.length := List.length_pos_iff.mpr hne
    have hnone : scanned ts ≠ [] := by
      rw [← List.length_pos_iff]
      omega
    have hlen := length_storedBytes hnone
    have hiff := @map_overwrite_zero cfg.gammaReg.bytes (storedBytes (scanned ts)) m (by omega) _
      hvalues
    rw [take_storedBytes (by omega), List.map_map,
      show UInt8.toNat ∘ (fun n => (clip n).toUInt8) = fun n => (clip n).toUInt8.toNat from rfl,
      map_clip_scanned] at hiff
    rw [Fits, or_iff_right hne]
    constructor
    · rintro ⟨reg, hreg, hbytes⟩
      obtain ⟨hfit, hover⟩ := (storeAll_eq_some hnone).mp hreg
      rw [hover] at hbytes
      obtain ⟨⟨hsmall, hfirst⟩, hbehind⟩ := hiff.mp hbytes
      exact ⟨by omega, hsmall, hfirst, hbehind⟩
    · rintro ⟨hfit, hsmall, hfirst, hbehind⟩
      have hsize : (overwrite cfg.gammaReg.bytes 0 (storedBytes (scanned ts))).length =
          maxGammaRegNums := by
        rw [length_overwrite (by rw [hlen, cfg.gammaReg.size]; omega), cfg.gammaReg.size]
      refine ⟨⟨_, hsize⟩, ?_, hiff.mpr ⟨⟨hsmall, hfirst⟩, hbehind⟩⟩
      rw [storeAll_eq_some hnone]
      exact ⟨by omega, rfl⟩

/-- A configuration without registers. -/
def noRegs : GammaCfg := ⟨0, 0, ⟨List.replicate 255 0, List.length_replicate⟩⟩

/-- A file with these two keys. -/
def iniOf (nums gammaReg : String) : Dictionary := fun key =>
  if key = "init_data:gamma_reg_nums" then some nums.toList
  else if key = "init_data:gamma_reg" then some gammaReg.toList
  else none

def token12 : Token := ⟨0, ['1', '2'], ⟨'1', ['2'], List.all_eq_true.mp rfl, .inl rfl⟩⟩

def token34 : Token := ⟨0, ['3', '4'], ⟨'3', ['4'], List.all_eq_true.mp rfl, .inl rfl⟩⟩

theorem loadsTokens_12_34 : LoadsTokens noRegs [] (iniOf "2" "12 34") [token12, token34] := by
  apply (loadsTokens_iff noRegs [] (iniOf "2" "12 34") [token12, token34] rfl).mpr
  refine .inr ⟨by decide, by decide, rfl, ?_⟩
  show [0, 0, 0] <+: (List.replicate 255 0).drop 2
  rw [List.drop_replicate, List.prefix_replicate_iff]
  exact ⟨by decide, rfl⟩

/-- One number is wanted of two: the other is stored behind it. -/
theorem not_loadsTokens_nums : ¬ LoadsTokens noRegs [] (iniOf "1" "12 34") [token12, token34] := by
  intro h
  have htext : iniparserGetstring (iniOf "1" "12 34") "init_data:gamma_reg" [] =
      textOf [token12, token34] := rfl
  obtain ⟨reg, hstore, -, hbytes⟩ := (exists_loadGammaConfig htext).mp h
  have hover := ((storeAll_eq_some (List.cons_ne_nil _ _)).mp hstore).2
  have hsecond : (reg.bytes.map UInt8.toNat)[1]? = some 0 := by
    rw [hbytes]
    rfl
  rw [hover] at hsecond
  exact absurd hsecond (by decide)

end PanelTester.Gamma
