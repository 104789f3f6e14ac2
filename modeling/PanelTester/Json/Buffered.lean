import PanelTester.Json.Minify

/-!
`cJSON_PrintBuffered`, which prints into one buffer that grows. It writes piece by piece at an
offset, and finds the end of what a child has written by its terminating zero. Whatever the buffer
is at first, no piece is written outside of it, and the text is the one of `cJSON_Print`
(`cJSONPrintBuffered_eq`). What a new block of memory holds is a parameter.
-/

namespace PanelTester.Json

open Library

/-- `printbuffer`: the block, as long as it is, and the offset. -/
structure PrintBuffer where
  buffer : Str
  offset : ℕ

def PrintBuffer.advance (p : PrintBuffer) (n : ℕ) : PrintBuffer := { p with offset := p.offset + n }

/-- `pow2gt` -/
def pow2gt (x : ℕ) : ℕ :=
  let x := x - 1
  let x := x ||| x >>> 1
  let x := x ||| x >>> 2
  let x := x ||| x >>> 4
  let x := x ||| x >>> 8
  let x := x ||| x >>> 16
  x + 1

/-- What `cJSON_malloc` returns, where `junk` is what stands there. -/
def malloc (junk : ℕ → Char) (size : ℕ) : Str := (List.range size).map junk

/-- `ensure`: behind what was copied to a new block stands what it held before. -/
def ensure (junk : ℕ → Char) (p : PrintBuffer) (needed : ℕ) : PrintBuffer :=
  if needed + p.offset ≤ p.buffer.length then p
  else
    let newbuffer := malloc junk (pow2gt (needed + p.offset))
    { p with buffer := p.buffer ++ newbuffer.drop p.buffer.length }

/-- Characters are written at the offset; there is no result when they leave the block. -/
def PrintBuffer.write (p : PrintBuffer) (s : Str) : Option PrintBuffer :=
  if p.offset + s.length ≤ p.buffer.length then
    some { p with buffer := overwrite p.buffer p.offset s }
  else none

/-- A piece of the text: room is made for it, it is written with what stands behind it, and the
offset goes on behind it. -/
def emit (junk : ℕ → Char) (needed : ℕ) (piece behind : Str) (p : PrintBuffer) :
    Option PrintBuffer :=
  ((ensure junk p needed).write (piece ++ behind)).map (PrintBuffer.advance · piece.length)

/-- `update`: the offset goes on to the terminating zero. -/
def PrintBuffer.update (p : PrintBuffer) : Option PrintBuffer :=
  if nul ∈ p.buffer.drop p.offset then
    some (p.advance (untilNul (p.buffer.drop p.offset)).length)
  else none

/-- What stands between an entry of an object and the next one. -/
def separator (fmt last : Bool) : Str :=
  (if last then [] else [',']) ++ if fmt then ['\n'] else []

mutual

/-- `print_value` with a buffer. An item without children is written as it is without one, and the
offset stays in front of it. -/
def printInto (junk : ℕ → Char) (fmt : Bool) (depth : ℕ) :
    Item → PrintBuffer → Option PrintBuffer
  | .array (item :: items), p =>
      (emit junk 1 ['['] [] p).bind fun p =>
        (printItemsInto junk fmt (depth + 1) (item :: items) p).bind fun p =>
          emit junk 2 [] [']', nul] p
  | .object (member :: members), p =>
      (emit junk ((if fmt then 2 else 1) + 1) (spaced fmt '{' '\n') [nul] p).bind fun p =>
        (printMembersInto junk fmt (depth + 1) (member :: members) p).bind fun p =>
          emit junk (if fmt then depth + 1 + 1 else 2) [] (tabs fmt depth ++ ['}', nul]) p
  | item, p =>
      emit junk (printValue fmt depth item).size [] ((printValue fmt depth item).text ++ [nul]) p

/-- The entries of an array. -/
def printItemsInto (junk : ℕ → Char) (fmt : Bool) (depth : ℕ) :
    List Item → PrintBuffer → Option PrintBuffer
  | [], p => some p
  | item :: items, p =>
      (printInto junk fmt depth item p).bind fun p =>
        p.update.bind fun p =>
          match items with
          | [] => some p
          | _ :: _ =>
              (emit junk ((if fmt then 2 else 1) + 1) (spaced fmt ',' ' ') [nul] p).bind
                (printItemsInto junk fmt depth items)

/-- The entries of an object. -/
def printMembersInto (junk : ℕ → Char) (fmt : Bool) (depth : ℕ) :
    List (Str × Item) → PrintBuffer → Option PrintBuffer
  | [], p => some p
  | (string, child) :: members, p =>
      (if fmt then emit junk depth (tabs fmt depth) [] p else some p).bind fun p =>
        (emit junk (printStringPtr string).size [] ((printStringPtr string).text ++ [nul]) p).bind
          fun p => p.update.bind fun p =>
            (emit junk (if fmt then 2 else 1) (spaced fmt ':' '\t') [] p).bind fun p =>
              (printInto junk fmt depth child p).bind fun p => p.update.bind fun p =>
                (emit junk ((separator fmt members.isEmpty).length + 1)
                  (separator fmt members.isEmpty) [nul] p).bind
                    (printMembersInto junk fmt depth members)

end

/-- Where `print_value` says that its text begins. In `print_object` the loop of the tabs takes the
variable that held the offset. -/
def outOf (fmt : Bool) (depth offset : ℕ) : Item → ℕ
  | .object (_ :: _) => if fmt then depth else offset
  | _ => offset

/-- `cJSON_PrintBuffered` -/
def cJSONPrintBuffered (junk : ℕ → Char) (item : Item) (prebuffer : ℕ) (fmt : Bool) : Option Str :=
  (printInto junk fmt 0 item ⟨malloc junk prebuffer, 0⟩).map fun p =>
    untilNul (p.buffer.drop (outOf fmt 0 0 item))

/-! ### One piece -/

/-- What stands in front of the offset, and behind it. -/
structure PrintBuffer.At (p : PrintBuffer) (pre post : Str) : Prop where
  buffer : p.buffer = pre ++ post
  offset : p.offset = pre.length

theorem le_pow2gt (x : ℕ) : x ≤ pow2gt x := by
  have h : ∀ a n, a ≤ a ||| a >>> n := fun a n => Nat.left_le_or
  have hchain := (h (x - 1) 1).trans ((h _ 2).trans ((h _ 4).trans ((h _ 8).trans (h _ 16))))
  rw [pow2gt]
  omega

section

variable {p : PrintBuffer} {pre post : Str}

theorem PrintBuffer.At.ensure (h : p.At pre post) (junk : ℕ → Char) (needed : ℕ) :
    ∃ post', (ensure junk p needed).At pre post' ∧ needed ≤ post'.length := by
  rw [Json.ensure]
  split_ifs with hroom
  · refine ⟨post, h, ?_⟩
    rw [h.buffer, h.offset, List.length_append] at hroom
    omega
  · refine ⟨post ++ (malloc junk (pow2gt (needed + p.offset))).drop p.buffer.length, ?_, ?_⟩
    · refine ⟨?_, h.offset⟩
      show p.buffer ++ _ = _
      rw [h.buffer, List.append_assoc]
    · have hpow := le_pow2gt (needed + p.offset)
      rw [h.buffer, h.offset, List.length_append] at *
      rw [List.length_append, List.length_drop, malloc, List.length_map, List.length_range]
      omega

theorem overwrite_append (s : Str) :
    overwrite (pre ++ post) pre.length s = pre ++ s ++ post.drop s.length := by
  rw [overwrite, List.take_left, ← List.drop_drop, List.drop_left]

/-- A piece that there is room for is written, and the offset is behind it. -/
theorem PrintBuffer.At.emit (h : p.At pre post) (junk : ℕ → Char) {needed : ℕ}
    {piece behind : Str} (hroom : (piece ++ behind).length ≤ needed) :
    ∃ p' post', emit junk needed piece behind p = some p' ∧
      p'.At (pre ++ piece) (behind ++ post') := by
  obtain ⟨post', hat, hpost⟩ := h.ensure junk needed
  have hfits : (Json.ensure junk p needed).offset + (piece ++ behind).length ≤
      (Json.ensure junk p needed).buffer.length := by
    have hlen : (pre ++ post').length = pre.length + post'.length := List.length_append
    rw [hat.buffer, hat.offset, hlen]
    omega
  have hwrite : (Json.ensure junk p needed).write (piece ++ behind) =
      some ⟨overwrite (Json.ensure junk p needed).buffer (Json.ensure junk p needed).offset
        (piece ++ behind), (Json.ensure junk p needed).offset⟩ := by
    rw [PrintBuffer.write, if_pos hfits]
  refine ⟨_, post'.drop (piece ++ behind).length, congrArg (Option.map _) hwrite, ⟨?_, ?_⟩⟩
  · show overwrite _ _ _ = _
    rw [hat.buffer, hat.offset, overwrite_append, List.append_assoc, List.append_assoc,
      List.append_assoc]
  · show _ + _ = _
    rw [hat.offset, List.length_append]

/-- The end of what stands behind the offset is found. -/
theorem PrintBuffer.At.update {s : Str} (h : p.At pre (s ++ nul :: post)) (hs : nul ∉ s) :
    ∃ p', p.update = some p' ∧ p'.At (pre ++ s) (nul :: post) := by
  have hdrop : p.buffer.drop p.offset = s ++ nul :: post := by
    rw [h.buffer, h.offset, List.drop_left]
  have huntil : untilNul (s ++ nul :: post) = s := by
    have hself := untilNul_eq_self hs
    rw [untilNul] at hself ⊢
    rw [List.takeWhile_append_of_pos fun c hc => List.takeWhile_eq_self_iff.mp hself c hc]
    simp [nul]
  refine ⟨p.advance s.length, ?_, ?_, ?_⟩
  · rw [PrintBuffer.update, hdrop, if_pos (by simp), huntil]
  · show p.buffer = _
    rw [h.buffer, List.append_assoc]
  · show p.offset + _ = _
    rw [h.offset, List.length_append]

/-! ### Items -/

/-- No zero is in what is written for a string of C. -/
theorem nul_not_mem_escape {c : Char} (hc : c ≠ nul) : nul ∉ escape c := by
  rw [escape]
  split_ifs
  · simpa using hc.symm
  · cases hletter : letterOf c with
    | some letter =>
        have hne : letter ≠ nul := by
          rw [letterOf] at hletter
          split_ifs at hletter <;> obtain rfl := Option.some.inj hletter <;> decide
        simpa using ⟨by decide, hne.symm⟩
    | none =>
        have hdigit : ∀ m < 16, lowerDigits.getD m '0' ≠ nul := by decide
        have hmod : ∀ m, m % 16 < 16 := fun m => Nat.mod_lt m (by decide)
        intro hmem
        rcases List.mem_cons.mp hmem with h | hmem
        · exact absurd h (by decide)
        rcases List.mem_cons.mp hmem with h | hmem
        · exact absurd h (by decide)
        obtain ⟨m, hm, heq⟩ := List.mem_map.mp hmem
        refine hdigit m ?_ heq
        simp only [List.mem_cons, List.not_mem_nil, or_false] at hm
        omega

theorem nul_not_mem_string {str : Str} (h : nul ∉ str) : nul ∉ (printStringPtr str).text := by
  rw [printStringPtr_text h]
  intro hmem
  rcases List.mem_cons.mp hmem with heq | hmem
  · exact absurd heq (by decide)
  rcases List.mem_append.mp hmem with hmem | hmem
  · obtain ⟨c, hc, hesc⟩ := List.mem_flatMap.mp hmem
    refine nul_not_mem_escape ?_ hesc
    rintro rfl
    exact h hc
  · exact absurd hmem (by decide)

theorem nul_not_mem_member (fmt : Bool) (depth : ℕ) {name : Str} (hname : nul ∉ name)
    {value : Block} (hvalue : nul ∉ value.text) :
    nul ∉ composeMember fmt depth (printStringPtr name, value) := by
  have hstring := nul_not_mem_string hname
  rw [composeMember, spaced_eq, blankIf, tabs]
  cases fmt <;> simp [nul] at hstring hvalue ⊢ <;> exact ⟨hstring, hvalue⟩

end

/-- What an item is made of as C can hold it. -/
def Item.Valid (item : Item) : Prop := item.All IsNumber IsString

mutual

theorem nul_not_mem_value (fmt : Bool) (depth : ℕ) : ∀ item : Item, item.Valid →
    nul ∉ (printValue fmt depth item).text
  | .null, _ => show nul ∉ "null".toList by decide
  | .false, _ => show nul ∉ "false".toList by decide
  | .true, _ => show nul ∉ "true".toList by decide
  | .number i d, _ => fun hmem => absurd (inNumber_printNumber i d nul hmem)
      (show ¬ (isDigitChar nul ∨ nul ∈ ['-', '+', '.', 'e']) by decide)
  | .string _, hall => nul_not_mem_string hall
  | .array child, hall => by
      have hitems := nul_not_mem_items fmt (depth + 1) child hall
      rw [printValue, printArray_text]
      simpa using ⟨by decide, hitems, by decide⟩
  | .object [], _ => by
      rw [printValue, printMembers, printObject_nil_text, blankIf, tabs]
      cases fmt <;> simp [nul]
  | .object ((name, item) :: members), hall => by
      have hmembers := nul_not_mem_members fmt (depth + 1) ((name, item) :: members) hall
      have hne : printMembers fmt (depth + 1) ((name, item) :: members) ≠ [] := List.cons_ne_nil _ _
      rw [printValue, printObject_text fmt depth hne, blankIf, tabs]
      cases fmt <;> simp [nul] at hmembers ⊢ <;> exact hmembers

theorem nul_not_mem_items (fmt : Bool) (depth : ℕ) : ∀ items : List Item,
    AllItems IsNumber IsString items → nul ∉ composeItems fmt (printItems fmt depth items)
  | [], _ => List.not_mem_nil
  | [item], hall => nul_not_mem_value fmt depth item hall.1
  | item :: item' :: items, hall => by
      have hvalue := nul_not_mem_value fmt depth item hall.1
      have hitems := nul_not_mem_items fmt depth (item' :: items) hall.2
      rw [items_cons, spaced_eq, blankIf]
      cases fmt <;> simp [nul] at hvalue hitems ⊢ <;> exact ⟨hvalue, hitems⟩

theorem nul_not_mem_members (fmt : Bool) (depth : ℕ) : ∀ members : List (Str × Item),
    AllMembers IsNumber IsString members →
      nul ∉ composeMembers fmt depth (printMembers fmt depth members)
  | [], _ => List.not_mem_nil
  | [(name, item)], hall => by
      have hmember := nul_not_mem_member fmt depth hall.1
        (nul_not_mem_value fmt depth item hall.2.1)
      rw [members_single]
      cases fmt <;> simp [nul] at hmember ⊢ <;> exact hmember
  | (name, item) :: (name', item') :: members, hall => by
      have hmember := nul_not_mem_member fmt depth hall.1
        (nul_not_mem_value fmt depth item hall.2.1)
      have hmembers := nul_not_mem_members fmt depth ((name', item') :: members) hall.2.2
      rw [members_cons, spaced_eq, blankIf]
      cases fmt <;> simp [nul] at hmember hmembers ⊢ <;> exact ⟨hmember, hmembers⟩

end

theorem length_spaced_append (fmt : Bool) (c blank d : Char) :
    (spaced fmt c blank ++ [d]).length ≤ (if fmt then 2 else 1) + 1 := by
  cases fmt <;> exact le_rfl

theorem composeMembers_single (fmt : Bool) (depth : ℕ) (name : Str) (item : Item) :
    composeMembers fmt depth (printMembers fmt depth [(name, item)]) =
      composeMember fmt depth (printStringPtr name, printValue fmt depth item) ++
        separator fmt true := rfl

theorem separator_false (fmt : Bool) : separator fmt false = spaced fmt ',' '\n' := by
  cases fmt <;> rfl

/-- An item without children is written as a whole. -/
theorem printInto_leaf {junk : ℕ → Char} {fmt : Bool} {depth : ℕ} {item : Item} {p : PrintBuffer}
    {pre post : Str} (hvalid : item.Valid) (hat : p.At pre post)
    (hleaf : printInto junk fmt depth item p =
      emit junk (printValue fmt depth item).size [] ((printValue fmt depth item).text ++ [nul]) p) :
    ∃ p' s t post', printInto junk fmt depth item p = some p' ∧
      s ++ t = (printValue fmt depth item).text ∧ p'.At (pre ++ s) (t ++ nul :: post') := by
  have hfits : (printValue fmt depth item).text.length < (printValue fmt depth item).size :=
    printValue_fits fmt depth hvalid
  have hroom : ([] ++ ((printValue fmt depth item).text ++ [nul])).length ≤
      (printValue fmt depth item).size := by
    rw [List.nil_append, List.length_append, List.length_singleton]
    omega
  obtain ⟨p', post', h, hat'⟩ := hat.emit junk hroom
  refine ⟨p', [], (printValue fmt depth item).text, post', hleaf.trans h, rfl, ?_⟩
  rwa [List.append_assoc] at hat'

/-- Behind a value that was written the offset is found again. -/
theorem update_value {p : PrintBuffer} {pre post s t text : Str} (hat : p.At (pre ++ s)
    (t ++ nul :: post)) (htext : s ++ t = text) (hnul : nul ∉ text) :
    ∃ p', p.update = some p' ∧ p'.At (pre ++ text) (nul :: post) := by
  obtain ⟨p', h, hat'⟩ := hat.update fun hmem => hnul (htext ▸ List.mem_append_right s hmem)
  rw [List.append_assoc, htext] at hat'
  exact ⟨p', h, hat'⟩

mutual

/-- A value is written at the offset, which stays in its text; behind the text stands the zero. -/
theorem printInto_spec (junk : ℕ → Char) (fmt : Bool) : ∀ (item : Item) (depth : ℕ)
    (p : PrintBuffer) (pre post : Str), item.Valid → p.At pre post →
      ∃ p' s t post', printInto junk fmt depth item p = some p' ∧
        s ++ t = (printValue fmt depth item).text ∧ p'.At (pre ++ s) (t ++ nul :: post')
  | .array (item :: items), depth, p, pre, post, hall, hat => by
      have hopen : (['['] ++ []).length ≤ 1 := le_rfl
      obtain ⟨p₁, post₁, h₁, hat₁⟩ := hat.emit junk hopen
      obtain ⟨p₂, post₂, h₂, hat₂⟩ := printItemsInto_spec junk fmt (item :: items) (depth + 1) p₁
        _ _ hall hat₁
      have hclose : (([] : Str) ++ [']', nul]).length ≤ 2 := le_rfl
      obtain ⟨p₃, post₃, h₃, hat₃⟩ := hat₂.emit junk hclose
      refine ⟨p₃, '[' :: composeItems fmt (printItems fmt (depth + 1) (item :: items)), [']'],
        post₃, ?_, ?_, ?_⟩
      · rw [printInto, h₁, Option.bind_some, h₂, Option.bind_some, h₃]
      · rw [printValue, printArray_text]
        rfl
      · simpa using hat₃
  | .object ((name, item) :: members), depth, p, pre, post, hall, hat => by
      obtain ⟨p₁, post₁, h₁, hat₁⟩ := hat.emit junk (length_spaced_append fmt '{' '\n' nul)
      obtain ⟨p₂, post₂, h₂, hat₂⟩ := printMembersInto_spec junk fmt ((name, item) :: members)
        (depth + 1) p₁ _ _ hall hat₁
      have hroom : ([] ++ (tabs fmt depth ++ ['}', nul])).length ≤
          if fmt then depth + 1 + 1 else 2 := by
        rw [List.nil_append, List.length_append, length_tabs]
        cases fmt <;> simp
      obtain ⟨p₃, post₃, h₃, hat₃⟩ := hat₂.emit junk hroom
      have hne : printMembers fmt (depth + 1) ((name, item) :: members) ≠ [] := List.cons_ne_nil _ _
      refine ⟨p₃, spaced fmt '{' '\n' ++ composeMembers fmt (depth + 1)
        (printMembers fmt (depth + 1) ((name, item) :: members)), tabs fmt depth ++ ['}'], post₃,
          ?_, ?_, ?_⟩
      · rw [printInto, h₁, Option.bind_some, h₂, Option.bind_some, h₃]
      · rw [printValue, printObject, if_neg hne, List.append_assoc, List.append_assoc,
          List.append_assoc]
      · simpa using hat₃
  | .null, _, _, _, _, hall, hat => printInto_leaf hall hat rfl
  | .false, _, _, _, _, hall, hat => printInto_leaf hall hat rfl
  | .true, _, _, _, _, hall, hat => printInto_leaf hall hat rfl
  | .number _ _, _, _, _, _, hall, hat => printInto_leaf hall hat rfl
  | .string _, _, _, _, _, hall, hat => printInto_leaf hall hat rfl
  | .array [], _, _, _, _, hall, hat => printInto_leaf hall hat rfl
  | .object [], _, _, _, _, hall, hat => printInto_leaf hall hat rfl

theorem printItemsInto_spec (junk : ℕ → Char) (fmt : Bool) : ∀ (items : List Item) (depth : ℕ)
    (p : PrintBuffer) (pre post : Str), AllItems IsNumber IsString items → p.At pre post →
      ∃ p' post', printItemsInto junk fmt depth items p = some p' ∧
        p'.At (pre ++ composeItems fmt (printItems fmt depth items)) post'
  | [], depth, p, pre, post, _, hat => ⟨p, post, rfl, by simpa [printItems, composeItems] using hat⟩
  | [item], depth, p, pre, post, hall, hat => by
      obtain ⟨p₁, s, t, post₁, h₁, htext, hat₁⟩ := printInto_spec junk fmt item depth p pre post
        hall.1 hat
      obtain ⟨p₂, h₂, hat₂⟩ := update_value hat₁ htext (nul_not_mem_value fmt depth item hall.1)
      refine ⟨p₂, nul :: post₁, ?_, hat₂⟩
      rw [printItemsInto, h₁, Option.bind_some, h₂, Option.bind_some]
  | item :: item' :: items, depth, p, pre, post, hall, hat => by
      obtain ⟨p₁, s, t, post₁, h₁, htext, hat₁⟩ := printInto_spec junk fmt item depth p pre post
        hall.1 hat
      obtain ⟨p₂, h₂, hat₂⟩ := update_value hat₁ htext (nul_not_mem_value fmt depth item hall.1)
      obtain ⟨p₃, post₃, h₃, hat₃⟩ := hat₂.emit junk (length_spaced_append fmt ',' ' ' nul)
      obtain ⟨p₄, post₄, h₄, hat₄⟩ := printItemsInto_spec junk fmt (item' :: items) depth p₃ _ _
        hall.2 hat₃
      refine ⟨p₄, post₄, ?_, ?_⟩
      · rw [printItemsInto, h₁, Option.bind_some, h₂, Option.bind_some, h₃, Option.bind_some, h₄]
      · rw [items_cons]
        simpa using hat₄

theorem printMembersInto_spec (junk : ℕ → Char) (fmt : Bool) : ∀ (members : List (Str × Item))
    (depth : ℕ) (p : PrintBuffer) (pre post : Str), AllMembers IsNumber IsString members →
      p.At pre post →
        ∃ p' post', printMembersInto junk fmt depth members p = some p' ∧
          p'.At (pre ++ composeMembers fmt depth (printMembers fmt depth members)) post'
  | [], depth, p, pre, post, _, hat =>
      ⟨p, post, rfl, by simpa [printMembers, composeMembers] using hat⟩
  | (name, item) :: members, depth, p, pre, post, hall, hat => by
      obtain ⟨p₁, post₁, h₁, hat₁⟩ : ∃ p₁ post₁,
          (if fmt then emit junk depth (tabs fmt depth) [] p else some p) = some p₁ ∧
            p₁.At (pre ++ tabs fmt depth) post₁ := by
        cases fmt with
        | false => exact ⟨p, post, rfl, by simpa [tabs] using hat⟩
        | true =>
            have hroom : (tabs true depth ++ []).length ≤ depth := by simp
            obtain ⟨p₁, post₁, h₁, hat₁⟩ := hat.emit junk hroom
            exact ⟨p₁, post₁, h₁, hat₁⟩
      have hname : ([] ++ ((printStringPtr name).text ++ [nul])).length ≤
          (printStringPtr name).size := by
        have hfits : (printStringPtr name).text.length < (printStringPtr name).size :=
          printStringPtr_fits name
        rw [List.nil_append, List.length_append, List.length_singleton]
        omega
      obtain ⟨p₂, post₂, h₂, hat₂⟩ := hat₁.emit junk hname
      rw [List.append_nil, List.append_assoc] at hat₂
      obtain ⟨p₃, h₃, hat₃⟩ := hat₂.update (nul_not_mem_string hall.1)
      have hcolon : (spaced fmt ':' '\t' ++ []).length ≤ if fmt then 2 else 1 := by
        cases fmt <;> exact le_rfl
      obtain ⟨p₄, post₄, h₄, hat₄⟩ := hat₃.emit junk hcolon
      obtain ⟨p₅, s, t, post₅, h₅, htext, hat₅⟩ := printInto_spec junk fmt item depth p₄ _ _
        hall.2.1 hat₄
      obtain ⟨p₆, h₆, hat₆⟩ := update_value hat₅ htext (nul_not_mem_value fmt depth item hall.2.1)
      have hsep : (separator fmt members.isEmpty ++ [nul]).length ≤
          (separator fmt members.isEmpty).length + 1 := by
        rw [List.length_append, List.length_singleton]
      obtain ⟨p₇, post₇, h₇, hat₇⟩ := hat₆.emit junk hsep
      obtain ⟨p₈, post₈, h₈, hat₈⟩ := printMembersInto_spec junk fmt members depth p₇ _ _
        hall.2.2 hat₇
      refine ⟨p₈, post₈, ?_, ?_⟩
      · rw [printMembersInto, h₁, Option.bind_some, h₂, Option.bind_some, h₃, Option.bind_some, h₄,
          Option.bind_some, h₅, Option.bind_some, h₆, Option.bind_some, h₇, Option.bind_some, h₈]
      · cases members with
        | nil =>
            rw [composeMembers_single, composeMember]
            simpa [printMembers, composeMembers] using hat₈
        | cons member members =>
            obtain ⟨name', item'⟩ := member
            rw [members_cons, composeMember, ← separator_false]
            simpa using hat₈

end

/-- Whatever the first buffer is, and whatever memory holds: no piece is written outside of the
buffer, and the text is the one that is printed without it. -/
theorem cJSONPrintBuffered_eq (junk : ℕ → Char) (prebuffer : ℕ) (fmt : Bool) {item : Item}
    (h : item.Valid) :
    cJSONPrintBuffered junk item prebuffer fmt = some (printValue fmt 0 item).text := by
  have hstart : (⟨malloc junk prebuffer, 0⟩ : PrintBuffer).At [] (malloc junk prebuffer) :=
    ⟨rfl, rfl⟩
  obtain ⟨p, s, t, post, hprint, htext, hat⟩ := printInto_spec junk fmt item 0 _ _ _ h hstart
  have hout : outOf fmt 0 0 item = 0 := by
    rw [outOf.eq_def]
    split
    · exact ite_self 0
    · rfl
  have hnul := nul_not_mem_value fmt 0 item h
  have huntil : untilNul (p.buffer.drop 0) = (printValue fmt 0 item).text := by
    have hself := untilNul_eq_self hnul
    rw [List.drop_zero, hat.buffer, List.nil_append, ← List.append_assoc, htext]
    rw [untilNul] at hself ⊢
    rw [List.takeWhile_append_of_pos fun c hc => List.takeWhile_eq_self_iff.mp hself c hc]
    simp [nul]
  rw [cJSONPrintBuffered, hprint, Option.map_some, hout, huntil]

/-- An object that a buffer of two characters has to grow for. -/
theorem cJSONPrintBuffered_eq_small :
    cJSONPrintBuffered (fun _ => 'x') (.object [("n".toList, .number 7 7)]) 2 true =
      some (printValue true 0 (.object [("n".toList, .number 7 7)])).text := by
  apply cJSONPrintBuffered_eq
  exact ⟨by decide, by exact_mod_cast isNumber_int (i := 7) (by decide), trivial⟩

end PanelTester.Json
