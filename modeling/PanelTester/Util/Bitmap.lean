import PanelTester.Library.CountedLoop
import PanelTester.Library.Words

/-!
`parseBmp` of `bitmap.c`, without its messages. An access outside of an array, and an array of a
negative size, have no result. The products of the sizes are those of `ℤ`, so sizes whose products
do not fit an `int` are not considered.
-/

namespace PanelTester.Util

open Library

/-- Why there is no result: a negative size, or an access outside of `pColorData`, of the palette
or of the output. -/
inductive Stray
  | size
  | colorData
  | palette
  | output
  deriving DecidableEq

def readAt (stray : Stray) (buf : List UInt8) (k : ℕ) : Except Stray UInt8 :=
  match buf[k]? with
  | some b => .ok b
  | none => .error stray

def writeAt (buf : List UInt8) (k : ℕ) (b : UInt8) : Except Stray (List UInt8) :=
  if k < buf.length then .ok (buf.set k b) else .error .output

/-- `fread` of `n` bytes; what the file does not have keeps its old value. -/
def fread (old : ℕ → UInt8) (n : ℕ) (file : List UInt8) : List UInt8 :=
  (List.range n).map fun k => file.getD k (old k)

/-- The fields of `BITMAPINFOHEADER` that are used. -/
structure BitmapInfoHeader where
  biWidth : ℤ
  biHeight : ℤ
  biBitCount : ℕ
  deriving DecidableEq

/-- An `INT`. -/
def intAt (bytes : List UInt8) (k : ℕ) : ℤ :=
  (wordLE32 (byteAt bytes k) (byteAt bytes (k + 1)) (byteAt bytes (k + 2))
    (byteAt bytes (k + 3))).toInt32.toInt

/-- A `WORD`. -/
def wordAt (bytes : List UInt8) (k : ℕ) : UInt16 :=
  wordLE16 (byteAt bytes k) (byteAt bytes (k + 1))

/-- The header that stands in 40 bytes. -/
def bitInfoHead (bytes : List UInt8) : BitmapInfoHeader where
  biWidth := intAt bytes 4
  biHeight := intAt bytes 8
  biBitCount := (wordAt bytes 14).toNat

/-- The places of the colours in a `RGBQUAD`. -/
def rgbBlue : ℕ := 0
def rgbGreen : ℕ := 1
def rgbRed : ℕ := 2

/-- What the loops over the pixels read. -/
structure Source where
  height : ℕ
  orgwidth : ℕ
  width : ℕ
  lWidth : ℕ
  pColorData : List UInt8
  pRgb : List UInt8

/-- What they change: `pBmpRGBHead`, with `pBmpRGBData` 64 bytes behind its start, and `index`. -/
structure Canvas where
  pBmpRGBHead : List UInt8
  index : ℕ
  deriving DecidableEq

/-- The three assignments to a pixel, and `index++`. -/
def writePixel (s : Canvas) (b₀ b₁ b₂ : UInt8) : Except Stray Canvas := do
  let head ← writeAt s.pBmpRGBHead (64 + (s.index * 4 + 0)) b₀
  let head ← writeAt head (64 + (s.index * 4 + 1)) b₁
  let head ← writeAt head (64 + (s.index * 4 + 2)) b₂
  return { pBmpRGBHead := head, index := s.index + 1 }

/-- The bits of a pixel, where a byte has several, the lowest ones first: the cases of the three
`switch`es, and all of the byte for 8 bits. -/
def mixIndex (bits : ℕ) (j : ℕ) (b : UInt8) : UInt8 :=
  (b <<< UInt8.ofNat (8 - bits * (j % (8 / bits) + 1))) >>> UInt8.ofNat (8 - bits)

/-- A pixel by the palette. The loops differ in the number of bits, and in the colour that they
copy last. -/
def paletteTurn (src : Source) (bits last i j : ℕ) (s : Canvas) : Except Stray Canvas := do
  let b ← readAt .colorData src.pColorData (i * src.lWidth + j / (8 / bits))
  let mix := (mixIndex bits j b).toNat
  let b₀ ← readAt .palette src.pRgb (4 * mix + rgbRed)
  let b₁ ← readAt .palette src.pRgb (4 * mix + rgbGreen)
  let b₂ ← readAt .palette src.pRgb (4 * mix + last)
  writePixel s b₀ b₁ b₂

def paletteLoop (src : Source) (bits last : ℕ) (s : Canvas) : Except Stray Canvas :=
  forLoop src.height (fun i => forLoop (8 / bits * src.width) (paletteTurn src bits last i)) s

/-- A pixel of `step` bytes, the one at `first` copied first and the one at `last` copied last. -/
def trueColourTurn (src : Source) (step first last i j : ℕ) (s : Canvas) : Except Stray Canvas := do
  let k := i * src.lWidth + j * step
  let b₀ ← readAt .colorData src.pColorData (k + first)
  let b₁ ← readAt .colorData src.pColorData (k + 1)
  let b₂ ← readAt .colorData src.pColorData (k + last)
  writePixel s b₀ b₁ b₂

def trueColourLoop (src : Source) (step first last : ℕ) (s : Canvas) : Except Stray Canvas :=
  forLoop src.height (fun i s => do
    let s ← forLoop src.orgwidth (trueColourTurn src step first last i) s
    forLoop (src.width - src.orgwidth) (fun _ s => .ok { s with index := s.index + 1 }) s) s

/-- The loops, by the number of bits. -/
def pixels (src : Source) (biBitCount : ℕ) (s : Canvas) : Except Stray Canvas :=
  if biBitCount < 16 then
    if biBitCount = 1 then paletteLoop src 1 rgbGreen s
    else if biBitCount = 2 then paletteLoop src 2 rgbGreen s
    else if biBitCount = 4 then paletteLoop src 4 rgbGreen s
    else if biBitCount = 8 then paletteLoop src 8 rgbBlue s
    else .ok s
  else if biBitCount = 16 then .ok s
  else if biBitCount = 24 then trueColourLoop src 3 0 2 s
  else trueColourLoop src 4 2 0 s

/-- `WIDTHBYTES` -/
def widthBytes (bits : ℤ) : ℤ := (bits + 31).tdiv 32 * 4

/-- What is written in front of the pixels. -/
def headBytes (height width : ℤ) : List (ℕ × UInt8) :=
  (List.range 8).map (fun i => (i, UInt8.ofNat i)) ++
    [(24, UInt8.ofInt height), (25, UInt8.ofInt (height / 256)), (26, UInt8.ofInt width),
      (27, UInt8.ofInt (width / 256)), (32, 32), (33, 0)]

def writeAll (head : List UInt8) (writes : List (ℕ × UInt8)) : Except Stray (List UInt8) :=
  writes.foldlM (fun head w => writeAt head w.1 w.2) head

/-- What is returned, and the buffer with its size where there is one. -/
structure Parsed where
  ret : ℤ
  image : Option (List UInt8 × ℤ)
  deriving DecidableEq

/-- `parseBmp` behind the headers. -/
def parseData (info : BitmapInfoHeader) (file : List UInt8) : Except Stray Parsed := do
  let paletteSize := if info.biBitCount < 16 then 4 * 2 ^ info.biBitCount else 0
  let width := (info.biWidth + 15).tdiv 16 * 16
  let lWidth := widthBytes (info.biWidth * info.biBitCount)
  let nData := info.biHeight * lWidth
  let size := width * info.biHeight * 4 + 64
  if nData < 0 ∨ size < 0 then .error .size
  else
    let src : Source :=
      { height := info.biHeight.toNat
        orgwidth := info.biWidth.toNat
        width := width.toNat
        lWidth := lWidth.toNat
        pColorData := fread (fun _ => 0) nData.toNat (file.drop paletteSize)
        pRgb := fread (fun _ => 0) paletteSize file }
    let head ← writeAll (List.replicate size.toNat 0) (headBytes info.biHeight width)
    let s ← pixels src info.biBitCount ⟨head, 0⟩
    return { ret := 0, image := some (s.pBmpRGBHead, size) }

/-- What is read of the second header, over what is there before. -/
def readInfo (stack : ℕ → UInt8) (file : List UInt8) : BitmapInfoHeader :=
  bitInfoHead (fread stack 40 (file.drop 14))

/-- `parseBmp`, with what the arrays for the two headers hold before. -/
def parseBmp (heap stack : ℕ → UInt8) (pfile : Option (List UInt8)) : Except Stray Parsed :=
  match pfile with
  | none => .ok { ret := -2, image := none }
  | some file =>
      let bmpFileHeader := fread heap 14 file
      if wordAt bmpFileHeader 0 ≠ 0x4d42 then .ok { ret := -1, image := none }
      else parseData (readInfo stack file) (file.drop 54)

/-! ### One pixel -/

theorem readAt_eq {stray : Stray} {buf : List UInt8} {k : ℕ} (h : k < buf.length) :
    readAt stray buf k = .ok (byteAt buf k) := by
  rw [readAt, byteAt, List.getD_eq_getElem?_getD, List.getElem?_eq_getElem h]
  rfl

/-- A byte that could be read is in the array. -/
theorem lt_of_readAt {stray : Stray} {buf : List UInt8} {k : ℕ} {b : UInt8}
    (h : readAt stray buf k = .ok b) : k < buf.length := by
  by_contra hlt
  rw [readAt, List.getElem?_eq_none (not_lt.mp hlt)] at h
  cases h

theorem writeAt_eq {buf : List UInt8} {k : ℕ} (h : k < buf.length) (b : UInt8) :
    writeAt buf k b = .ok (buf.set k b) := if_pos h

theorem byteAt_set {buf : List UInt8} {k : ℕ} (h : k < buf.length) (b : UInt8) (n : ℕ) :
    byteAt (buf.set k b) n = if k = n then b else byteAt buf n := by
  simp only [byteAt, List.getD_eq_getElem?_getD, List.getElem?_set, h, if_true]
  split_ifs <;> rfl

/-- The four bytes of a pixel. -/
def pixelAt (head : List UInt8) (q : ℕ) : List UInt8 :=
  [byteAt head (64 + (q * 4 + 0)), byteAt head (64 + (q * 4 + 1)), byteAt head (64 + (q * 4 + 2)),
    byteAt head (64 + (q * 4 + 3))]

def blank : List UInt8 := [0, 0, 0, 0]

variable {s : Canvas}

/-- The three assignments to a pixel. -/
def setPixel (head : List UInt8) (index : ℕ) (b₀ b₁ b₂ : UInt8) : List UInt8 :=
  ((head.set (64 + (index * 4 + 0)) b₀).set (64 + (index * 4 + 1)) b₁).set (64 + (index * 4 + 2)) b₂

@[simp] theorem length_setPixel (head : List UInt8) (index : ℕ) (b₀ b₁ b₂ : UInt8) :
    (setPixel head index b₀ b₁ b₂).length = head.length := by
  rw [setPixel, List.length_set, List.length_set, List.length_set]

theorem writePixel_eq (h : 64 + (s.index * 4 + 2) < s.pBmpRGBHead.length) (b₀ b₁ b₂ : UInt8) :
    writePixel s b₀ b₁ b₂ = .ok ⟨setPixel s.pBmpRGBHead s.index b₀ b₁ b₂, s.index + 1⟩ := by
  rw [writePixel, writeAt_eq (by omega), ok_bind, writeAt_eq (by rw [List.length_set]; omega),
    ok_bind, writeAt_eq (by rw [List.length_set, List.length_set]; omega)]
  rfl

theorem byteAt_setPixel {head : List UInt8} {index : ℕ} (h : 64 + (index * 4 + 2) < head.length)
    (b₀ b₁ b₂ : UInt8) (n : ℕ) :
    byteAt (setPixel head index b₀ b₁ b₂) n = if 64 + (index * 4 + 2) = n then b₂ else
      if 64 + (index * 4 + 1) = n then b₁ else
        if 64 + (index * 4 + 0) = n then b₀ else byteAt head n := by
  rw [setPixel, byteAt_set (by simpa using h), byteAt_set (by rw [List.length_set]; omega),
    byteAt_set (by omega)]

theorem pixelAt_setPixel_self {head : List UInt8} {index : ℕ}
    (h : 64 + (index * 4 + 2) < head.length) (b₀ b₁ b₂ : UInt8) :
    pixelAt (setPixel head index b₀ b₁ b₂) index =
      [b₀, b₁, b₂, byteAt head (64 + (index * 4 + 3))] := by
  simp [pixelAt, byteAt_setPixel h]

theorem pixelAt_setPixel_of_ne {head : List UInt8} {index q : ℕ}
    (h : 64 + (index * 4 + 2) < head.length) (hne : q ≠ index) (b₀ b₁ b₂ : UInt8) :
    pixelAt (setPixel head index b₀ b₁ b₂) q = pixelAt head q := by
  have hother : ∀ k < 4, byteAt (setPixel head index b₀ b₁ b₂) (64 + (q * 4 + k)) =
      byteAt head (64 + (q * 4 + k)) := by
    intro k hk
    rw [byteAt_setPixel h, if_neg (by omega), if_neg (by omega), if_neg (by omega)]
  rw [pixelAt, hother 0 (by omega), hother 1 (by omega), hother 2 (by omega),
    hother 3 (by omega), pixelAt]

/-- Of `total` pixels, those in front of the `t`-th were counted through and show `P`. -/
structure Shown (P : ℕ → List UInt8) (total t : ℕ) (s : Canvas) : Prop where
  index_eq : s.index = t
  length_eq : s.pBmpRGBHead.length = 64 + total * 4
  pixel_eq : ∀ q, pixelAt s.pBmpRGBHead q = if q < t then P q else blank

variable {P : ℕ → List UInt8} {total t : ℕ}

/-- One pixel more. -/
theorem Shown.writePixel (h : Shown P total t s) (ht : t < total) {b₀ b₁ b₂ : UInt8}
    (hpixel : P t = [b₀, b₁, b₂, 0]) :
    ∃ s', writePixel s b₀ b₁ b₂ = .ok s' ∧ Shown P total (t + 1) s' := by
  obtain ⟨rfl, hlen, hpixels⟩ := h
  have hfits : 64 + (s.index * 4 + 2) < s.pBmpRGBHead.length := by omega
  refine ⟨_, writePixel_eq hfits b₀ b₁ b₂, rfl, ?_, ?_⟩
  · rw [length_setPixel, hlen]
  · intro q
    rcases eq_or_ne q s.index with rfl | hne
    · -- the fourth byte of the pixel is still 0
      have hblank := hpixels s.index
      rw [if_neg (lt_irrefl _), pixelAt, blank] at hblank
      injections _ _ _ _ _ _ hlast
      rw [pixelAt_setPixel_self hfits, if_pos (Nat.lt_succ_self _), hpixel, hlast]
    · rw [pixelAt_setPixel_of_ne hfits hne, hpixels q]
      exact if_congr (by omega) rfl rfl

/-- One pixel is left out. -/
theorem Shown.skip (h : Shown P total t s) (hpixel : P t = blank) :
    Shown P total (t + 1) { s with index := s.index + 1 } where
  index_eq := congrArg (· + 1) h.index_eq
  length_eq := h.length_eq
  pixel_eq q := by
    rw [h.pixel_eq q]
    rcases eq_or_ne q t with rfl | hne
    · rw [if_neg (lt_irrefl _), if_pos (Nat.lt_succ_self _), hpixel]
    · exact if_congr (by omega) rfl rfl

/-- Some pixels are left out. -/
theorem Shown.skips {n : ℕ} (h : Shown P total t s) (hblank : ∀ j < n, P (t + j) = blank) :
    ∃ s', forLoop n (fun _ s => (.ok { s with index := s.index + 1 } : Except Stray Canvas)) s =
      .ok s' ∧ Shown P total (t + n) s' := by
  apply forLoop_invariant (fun j => Shown P total (t + j)) h
  intro j hj s hs
  exact ⟨_, rfl, hs.skip (hblank j hj)⟩

/-! ### The loops -/

variable {src : Source}

/-- The pixel at a place, by its row and column. -/
def rowwise (width : ℕ) (P : ℕ → ℕ → List UInt8) (q : ℕ) : List UInt8 :=
  P (q / width) (q % width)

theorem rowwise_place {width i j : ℕ} (P : ℕ → ℕ → List UInt8) (hj : j < width) :
    rowwise width P (i * width + j) = P i j := by
  rw [rowwise, place_div hj, place_mod hj]

/-- What a palette of 256 colours makes of a byte. -/
def palettePixel (src : Source) (i j : ℕ) : List UInt8 :=
  let mix := (byteAt src.pColorData (i * src.lWidth + j)).toNat
  [byteAt src.pRgb (4 * mix + rgbRed), byteAt src.pRgb (4 * mix + rgbGreen),
    byteAt src.pRgb (4 * mix + rgbBlue), 0]

theorem mixIndex_eight (j : ℕ) (b : UInt8) : mixIndex 8 j b = b := by
  simp [mixIndex, Nat.mod_one]

theorem paletteTurn_shown {i j : ℕ} (hdata : src.pColorData.length = src.height * src.lWidth)
    (hpalette : src.pRgb.length = 4 * 256) (hfits : src.width ≤ src.lWidth) (hi : i < src.height)
    (hj : j < src.width)
    (h : Shown (rowwise src.width (palettePixel src)) (src.height * src.width)
      (i * src.width + j) s) :
    ∃ s', paletteTurn src 8 rgbBlue i j s = .ok s' ∧
      Shown (rowwise src.width (palettePixel src)) (src.height * src.width)
        (i * src.width + (j + 1)) s' := by
  have hread : i * src.lWidth + j < src.pColorData.length := by
    rw [hdata]
    exact place_lt hi (hj.trans_le hfits)
  have hentry : ∀ k < 4,
      4 * (byteAt src.pColorData (i * src.lWidth + j)).toNat + k < src.pRgb.length := by
    intro k hk
    have := (byteAt src.pColorData (i * src.lWidth + j)).toNat_lt
    omega
  rw [paletteTurn, Nat.div_self (by omega), Nat.div_one, readAt_eq hread, ok_bind]
  dsimp only
  rw [mixIndex_eight, readAt_eq (hentry rgbRed (by decide)), ok_bind,
    readAt_eq (hentry rgbGreen (by decide)), ok_bind, readAt_eq (hentry rgbBlue (by decide)),
    ok_bind]
  exact h.writePixel (place_lt hi hj) (rowwise_place _ hj)

/-- The loop over pixels of 8 bits, when the rows of the data are as wide as the output. -/
theorem paletteLoop_shown (hdata : src.pColorData.length = src.height * src.lWidth)
    (hpalette : src.pRgb.length = 4 * 256) (hfits : src.width ≤ src.lWidth)
    (h : Shown (rowwise src.width (palettePixel src)) (src.height * src.width) 0 s) :
    ∃ s', paletteLoop src 8 rgbBlue s = .ok s' ∧
      Shown (rowwise src.width (palettePixel src)) (src.height * src.width)
        (src.height * src.width) s' := by
  rw [paletteLoop, Nat.div_self (by omega), Nat.one_mul]
  apply forLoop_rows _ h
  intro i hi j hj s hs
  exact paletteTurn_shown hdata hpalette hfits hi hj hs

/-- A loop by a palette that stays in the arrays reads the data over the width of the output. -/
theorem width_le_of_paletteLoop {bits last : ℕ} {s' : Canvas} (hbits : 0 < 8 / bits)
    (hdata : src.pColorData.length = src.height * src.lWidth) (hheight : 0 < src.height)
    (hwidth : 0 < src.width) (h : paletteLoop src bits last s = .ok s') :
    src.width ≤ src.lWidth := by
  have hturns : 0 < 8 / bits * src.width := Nat.mul_pos hbits hwidth
  obtain ⟨t, t', hrow⟩ := exists_turn h (Nat.sub_lt hheight Nat.one_pos)
  obtain ⟨t, t', hturn⟩ := exists_turn hrow (Nat.sub_lt hturns Nat.one_pos)
  obtain ⟨b, hread, -⟩ := bind_eq_ok.mp hturn
  have hlt := lt_of_readAt hread
  -- in the last row, the byte of the last pixel
  have hlast : (8 / bits * src.width - 1) / (8 / bits) = src.width - 1 := by
    obtain ⟨n, hn⟩ := Nat.exists_eq_succ_of_ne_zero hwidth.ne'
    have hsplit : 8 / bits * (n + 1) - 1 = 8 / bits * n + (8 / bits - 1) := by
      rw [Nat.mul_succ]
      omega
    rw [hn, Nat.succ_eq_add_one, hsplit, Nat.mul_add_div hbits, Nat.div_eq_of_lt (by omega)]
    rfl
  have hrows : (src.height - 1) * src.lWidth + src.lWidth = src.height * src.lWidth := by
    rw [← Nat.succ_mul, Nat.succ_eq_add_one, Nat.sub_add_cancel hheight]
  rw [hdata, hlast] at hlt
  omega

/-- What the loops make of a pixel with a byte for each colour. -/
def trueColourPixel (src : Source) (step first last i j : ℕ) : List UInt8 :=
  if j < src.orgwidth then
    let k := i * src.lWidth + j * step
    [byteAt src.pColorData (k + first), byteAt src.pColorData (k + 1),
      byteAt src.pColorData (k + last), 0]
  else blank

variable {step first last : ℕ}

theorem trueColourTurn_shown {i j : ℕ} (hdata : src.pColorData.length = src.height * src.lWidth)
    (hfits : src.orgwidth * step ≤ src.lWidth) (hwidth : src.orgwidth ≤ src.width)
    (hstep : 1 < step ∧ first < step ∧ last < step) (hi : i < src.height) (hj : j < src.orgwidth)
    (h : Shown (rowwise src.width (trueColourPixel src step first last)) (src.height * src.width)
      (i * src.width + j) s) :
    ∃ s', trueColourTurn src step first last i j s = .ok s' ∧
      Shown (rowwise src.width (trueColourPixel src step first last)) (src.height * src.width)
        (i * src.width + (j + 1)) s' := by
  have hread : ∀ k < step, i * src.lWidth + j * step + k < src.pColorData.length := by
    intro k hk
    rw [hdata, Nat.add_assoc]
    exact place_lt hi ((place_lt hj hk).trans_le hfits)
  rw [trueColourTurn, readAt_eq (hread first hstep.2.1), ok_bind, readAt_eq (hread 1 hstep.1),
    ok_bind, readAt_eq (hread last hstep.2.2), ok_bind]
  have hpixel := rowwise_place (i := i) (trueColourPixel src step first last)
    (hj.trans_le hwidth)
  rw [trueColourPixel, if_pos hj] at hpixel
  exact h.writePixel (place_lt hi (hj.trans_le hwidth)) hpixel

/-- The loop over pixels with a byte for each colour. -/
theorem trueColourLoop_shown (hdata : src.pColorData.length = src.height * src.lWidth)
    (hfits : src.orgwidth * step ≤ src.lWidth) (hwidth : src.orgwidth ≤ src.width)
    (hstep : 1 < step ∧ first < step ∧ last < step)
    (h : Shown (rowwise src.width (trueColourPixel src step first last))
      (src.height * src.width) 0 s) :
    ∃ s', trueColourLoop src step first last s = .ok s' ∧
      Shown (rowwise src.width (trueColourPixel src step first last)) (src.height * src.width)
        (src.height * src.width) s' := by
  apply forLoop_invariant fun i =>
    Shown (rowwise src.width (trueColourPixel src step first last)) (src.height * src.width)
      (i * src.width)
  · rwa [Nat.zero_mul]
  · intro i hi s hs
    obtain ⟨t, hpixels, ht⟩ := forLoop_invariant
      (fun j => Shown (rowwise src.width (trueColourPixel src step first last))
        (src.height * src.width) (i * src.width + j)) hs
      fun j hj s hs => trueColourTurn_shown hdata hfits hwidth hstep hi hj hs
    -- behind the picture, columns are left out
    have hblank : ∀ j < src.width - src.orgwidth,
        rowwise src.width (trueColourPixel src step first last)
          (i * src.width + src.orgwidth + j) = blank := by
      intro j hj
      rw [Nat.add_assoc, rowwise_place _ (by omega), trueColourPixel, if_neg (by omega)]
    obtain ⟨s', hskip, hs'⟩ := ht.skips hblank
    refine ⟨s', ?_, ?_⟩
    · rw [hpixels, ok_bind]
      exact hskip
    · rwa [Nat.add_assoc, Nat.add_sub_cancel' hwidth, ← Nat.succ_mul] at hs'

/-! ### The buffers -/

theorem byteAt_replicate_zero (n k : ℕ) : byteAt (List.replicate n 0) k = 0 := by
  rw [byteAt, List.getD_eq_getElem?_getD, List.getElem?_replicate]
  split_ifs <;> rfl

theorem byteAt_fread {old : ℕ → UInt8} {n k : ℕ} (file : List UInt8) (hk : k < n) :
    byteAt (fread old n file) k = file.getD k (old k) := by
  rw [byteAt, fread, List.getD_eq_getElem?_getD, List.getElem?_map, List.getElem?_range hk]
  rfl

@[simp] theorem length_fread (old : ℕ → UInt8) (n : ℕ) (file : List UInt8) :
    (fread old n file).length = n := by
  rw [fread, List.length_map, List.length_range]

/-- What is written in front of the pixels keeps the pixels. -/
theorem writeAll_eq {head : List UInt8} (hlen : 64 ≤ head.length) {writes : List (ℕ × UInt8)}
    (hwrites : ∀ w ∈ writes, w.1 < 64) :
    ∃ head', writeAll head writes = .ok head' ∧ head'.length = head.length ∧
      ∀ q, pixelAt head' q = pixelAt head q := by
  induction writes generalizing head with
  | nil => exact ⟨head, rfl, rfl, fun _ => rfl⟩
  | cons w writes ih =>
      obtain ⟨hw, hwrites⟩ := List.forall_mem_cons.mp hwrites
      obtain ⟨head', hrun, hlen', hkept⟩ :=
        ih (show 64 ≤ (head.set w.1 w.2).length by rwa [List.length_set]) hwrites
      refine ⟨head', ?_, hlen'.trans List.length_set, ?_⟩
      · rw [writeAll, List.foldlM_cons, writeAt_eq (hw.trans_le hlen), ok_bind]
        exact hrun
      · intro q
        have hother : ∀ k, byteAt (head.set w.1 w.2) (64 + (q * 4 + k)) =
            byteAt head (64 + (q * 4 + k)) := by
          intro k
          rw [byteAt_set (hw.trans_le hlen), if_neg (by omega)]
        rw [hkept, pixelAt, hother, hother, hother, hother, pixelAt]

theorem lt_of_mem_headBytes {height width : ℤ} {w : ℕ × UInt8} (hw : w ∈ headBytes height width) :
    w.1 < 64 := by
  rcases List.mem_append.mp hw with hw | hw
  · obtain ⟨i, hi, rfl⟩ := List.mem_map.mp hw
    exact (List.mem_range.mp hi).trans (by omega)
  · simp only [List.mem_cons, List.not_mem_nil, or_false] at hw
    rcases hw with rfl | rfl | rfl | rfl | rfl | rfl <;> simp

/-- A width, rounded to 16. -/
def roundUp (w : ℕ) : ℕ := (w + 15) / 16 * 16

/-- The bytes of a row. -/
def rowBytes (w bits : ℕ) : ℕ := (w * bits + 31) / 32 * 4

def paletteSize (bits : ℕ) : ℕ := if bits < 16 then 4 * 2 ^ bits else 0

/-- What the loops read of a file with sizes that are not negative. -/
def sourceOf (w h bits : ℕ) (file : List UInt8) : Source where
  height := h
  orgwidth := w
  width := roundUp w
  lWidth := rowBytes w bits
  pColorData := fread (fun _ => 0) (h * rowBytes w bits) (file.drop (paletteSize bits))
  pRgb := fread (fun _ => 0) (paletteSize bits) file

variable {w h bits : ℕ} {file : List UInt8}

/-- The loops begin with pixels of zeros. -/
theorem parseData_eq (w h bits : ℕ) (file : List UInt8) :
    ∃ s₀, (∀ P, Shown P (h * roundUp w) 0 s₀) ∧
      parseData ⟨w, h, bits⟩ file =
        (pixels (sourceOf w h bits file) bits s₀ >>= fun s =>
          .ok { ret := 0, image := some (s.pBmpRGBHead, ((roundUp w * h * 4 + 64 : ℕ) : ℤ)) }) := by
  have hwidth : ((w : ℤ) + 15).tdiv 16 * 16 = (roundUp w : ℕ) := by
    rw [roundUp, Int.tdiv_eq_ediv_of_nonneg (by omega)]
    omega
  have hrow : widthBytes ((w : ℤ) * (bits : ℕ)) = (rowBytes w bits : ℕ) := by
    rw [widthBytes, rowBytes, ← Nat.cast_mul, Int.tdiv_eq_ediv_of_nonneg (by omega)]
    omega
  have hzeros : 64 ≤ (List.replicate (roundUp w * h * 4 + 64) (0 : UInt8)).length := by
    rw [List.length_replicate]
    omega
  have hplaces : ∀ b ∈ headBytes h (roundUp w : ℕ), b.1 < 64 := fun _ => lt_of_mem_headBytes
  obtain ⟨head, hwrite, hlen, hkept⟩ := writeAll_eq hzeros hplaces
  refine ⟨⟨head, 0⟩, ?_, ?_⟩
  · intro P
    refine ⟨rfl, ?_, ?_⟩
    · rw [hlen, List.length_replicate, Nat.mul_comm h]
      omega
    · intro q
      rw [hkept, if_neg (Nat.not_lt_zero q), pixelAt, byteAt_replicate_zero,
        byteAt_replicate_zero, byteAt_replicate_zero, byteAt_replicate_zero, blank]
  · have hdata : (h : ℤ) * (rowBytes w bits : ℕ) = (h * rowBytes w bits : ℕ) :=
      (Nat.cast_mul _ _).symm
    have hsize : ((roundUp w : ℕ) : ℤ) * h * 4 + 64 = (roundUp w * h * 4 + 64 : ℕ) := by
      push_cast
      rfl
    simp only [parseData, hwidth, hrow, hdata, hsize, Int.toNat_natCast]
    rw [if_neg (by omega), hwrite, ok_bind]
    rfl

/-! ### The depths -/

variable {P : ℕ → ℕ → List UInt8}

/-- The output shows the pixels `P`. -/
def Outputs (w h : ℕ) (P : ℕ → ℕ → List UInt8) (r : Parsed) : Prop :=
  ∃ head, r = { ret := 0, image := some (head, ((roundUp w * h * 4 + 64 : ℕ) : ℤ)) } ∧
    head.length = roundUp w * h * 4 + 64 ∧
    ∀ i < h, ∀ j < roundUp w, pixelAt head (i * roundUp w + j) = P i j

/-- What loops that end well make of the file. -/
theorem parseData_outputs
    (hrun : ∀ s₀, Shown (rowwise (roundUp w) P) (h * roundUp w) 0 s₀ →
      ∃ s', pixels (sourceOf w h bits file) bits s₀ = .ok s' ∧
        Shown (rowwise (roundUp w) P) (h * roundUp w) (h * roundUp w) s') :
    ∃ r, parseData ⟨w, h, bits⟩ file = .ok r ∧ Outputs w h P r := by
  obtain ⟨s₀, hstart, hparse⟩ := parseData_eq w h bits file
  obtain ⟨s', hpixels, hshown⟩ := hrun s₀ (hstart _)
  refine ⟨_, by rw [hparse, hpixels, ok_bind], s'.pBmpRGBHead, rfl, ?_, ?_⟩
  · rw [hshown.length_eq, Nat.mul_comm h, Nat.add_comm]
  · intro i hi j hj
    rw [hshown.pixel_eq, if_pos (place_lt hi hj), rowwise_place P hj]

/-- 8 bits, when a row of the file has as many bytes as the output has columns. -/
theorem parseData_eight (h : ℕ) (file : List UInt8) (hfits : roundUp w ≤ rowBytes w 8) :
    ∃ r, parseData ⟨w, h, (8 : ℕ)⟩ file = .ok r ∧
      Outputs w h (palettePixel (sourceOf w h 8 file)) r := by
  have hpalette : (sourceOf w h 8 file).pRgb.length = 4 * 256 := by
    rw [sourceOf, length_fread, paletteSize, if_pos (by omega)]
    rfl
  apply parseData_outputs
  intro s₀ hstart
  exact paletteLoop_shown (length_fread ..) hpalette hfits hstart

/-- The bits with a byte for each colour, and how the loop goes over them. -/
structure TrueColour (bits step first last : ℕ) : Prop where
  loop_eq : ∀ src s, pixels src bits s = trueColourLoop src step first last s
  bits_eq : bits = 8 * step
  no_palette : paletteSize bits = 0
  places : 1 < step ∧ first < step ∧ last < step

theorem trueColour24 : TrueColour 24 3 0 2 := ⟨fun _ _ => rfl, rfl, rfl, by omega⟩

theorem trueColour32 : TrueColour 32 4 2 0 := ⟨fun _ _ => rfl, rfl, rfl, by omega⟩

/-- A row has the bytes of its pixels. -/
theorem TrueColour.row_le (h : TrueColour bits step first last) (w : ℕ) :
    w * step ≤ rowBytes w bits := by
  have hbits : w * bits = 8 * (w * step) := by
    rw [h.bits_eq, Nat.mul_left_comm]
  rw [rowBytes, hbits]
  omega

theorem le_roundUp (w : ℕ) : w ≤ roundUp w := by
  rw [roundUp]
  omega

theorem TrueColour.parseData (htrue : TrueColour bits step first last) (w h : ℕ)
    (file : List UInt8) :
    ∃ r, parseData ⟨w, h, bits⟩ file = .ok r ∧
      Outputs w h (trueColourPixel (sourceOf w h bits file) step first last) r := by
  apply parseData_outputs
  intro s₀ hstart
  rw [htrue.loop_eq]
  exact trueColourLoop_shown (length_fread ..) (htrue.row_le w) (le_roundUp w) htrue.places hstart

/-- With a palette, the rows of the data are read over the width of the output. -/
theorem roundUp_le_of_parseData {r : Parsed} (hw : 0 < w) (hh : 0 < h)
    (hbits : bits = 1 ∨ bits = 2 ∨ bits = 4 ∨ bits = 8)
    (hparse : parseData ⟨w, h, bits⟩ file = .ok r) : roundUp w ≤ rowBytes w bits := by
  obtain ⟨s₀, -, heq⟩ := parseData_eq w h bits file
  obtain ⟨s', hpixels, -⟩ := bind_eq_ok.mp (heq.symm.trans hparse)
  have hround : 0 < roundUp w := by
    rw [roundUp]
    omega
  rcases hbits with rfl | rfl | rfl | rfl
  all_goals exact width_le_of_paletteLoop (by decide) (length_fread ..) hh hround hpixels

/-- Of the depths with a palette, only 8 bits have rows as wide as the output. -/
theorem eight_of_roundUp_le (hw : 0 < w) (hbits : bits = 1 ∨ bits = 2 ∨ bits = 4 ∨ bits = 8)
    (hle : roundUp w ≤ rowBytes w bits) : bits = 8 := by
  rw [roundUp, rowBytes] at hle
  rcases hbits with rfl | rfl | rfl | rfl
  · omega
  · omega
  · omega
  · rfl

theorem roundUp_le_rowBytes_iff (w : ℕ) :
    roundUp w ≤ rowBytes w 8 ↔ w % 16 = 0 ∨ 13 ≤ w % 16 := by
  rw [roundUp, rowBytes]
  omega

/-- The sizes that are converted without leaving a buffer. -/
theorem parseData_inside_iff (hw : 0 < w) (hh : 0 < h)
    (hbits : bits ∈ [1, 2, 4, 8, 16, 24, 32]) (file : List UInt8) :
    (∃ r, parseData ⟨w, h, bits⟩ file = .ok r) ↔
      bits ∈ [16, 24, 32] ∨ bits = 8 ∧ (w % 16 = 0 ∨ 13 ≤ w % 16) := by
  constructor
  · rintro ⟨r, hparse⟩
    rcases Nat.lt_or_ge bits 16 with hpalette | hdeep
    · have hbits' : bits = 1 ∨ bits = 2 ∨ bits = 4 ∨ bits = 8 := by
        simp only [List.mem_cons, List.not_mem_nil, or_false] at hbits
        omega
      have hle := roundUp_le_of_parseData hw hh hbits' hparse
      obtain rfl := eight_of_roundUp_le hw hbits' hle
      exact .inr ⟨rfl, (roundUp_le_rowBytes_iff w).mp hle⟩
    · simp only [List.mem_cons, List.not_mem_nil, or_false] at hbits ⊢
      omega
  · simp only [List.mem_cons, List.not_mem_nil, or_false]
    rintro ((rfl | rfl | rfl) | ⟨rfl, hwidth⟩)
    · obtain ⟨s₀, -, heq⟩ := parseData_eq w h 16 file
      exact ⟨_, heq⟩
    · obtain ⟨r, hr, -⟩ := trueColour24.parseData w h file
      exact ⟨r, hr⟩
    · obtain ⟨r, hr, -⟩ := trueColour32.parseData w h file
      exact ⟨r, hr⟩
    · obtain ⟨r, hr, -⟩ := parseData_eight h file ((roundUp_le_rowBytes_iff w).mpr hwidth)
      exact ⟨r, hr⟩

/-! ### The file -/

/-- A bitmap of one of the depths, whose sizes are positive. -/
structure IsBitmap (heap stack : ℕ → UInt8) (file : List UInt8) : Prop where
  type_eq : wordAt (fread heap 14 file) 0 = 0x4d42
  width_pos : 0 < (readInfo stack file).biWidth
  height_pos : 0 < (readInfo stack file).biHeight
  bits_mem : (readInfo stack file).biBitCount ∈ [1, 2, 4, 8, 16, 24, 32]

variable {heap stack : ℕ → UInt8}

theorem IsBitmap.parseBmp_eq (hbmp : IsBitmap heap stack file) :
    ∃ w h : ℕ, (readInfo stack file).biWidth = w ∧ (readInfo stack file).biHeight = h ∧
      0 < w ∧ 0 < h ∧ parseBmp heap stack (some file) =
        parseData ⟨w, h, (readInfo stack file).biBitCount⟩ (file.drop 54) := by
  obtain ⟨w, hw⟩ := Int.eq_ofNat_of_zero_le hbmp.width_pos.le
  obtain ⟨h, hh⟩ := Int.eq_ofNat_of_zero_le hbmp.height_pos.le
  have hwidth := hbmp.width_pos
  have hheight := hbmp.height_pos
  refine ⟨w, h, hw, hh, by omega, by omega, ?_⟩
  rw [parseBmp, if_neg (not_not.mpr hbmp.type_eq), ← hw, ← hh]

/-- `parseBmp` stays in its buffers for 16, 24 and 32 bits, for 8 bits exactly when a row has as
many bytes as the output has columns, and never for 1, 2 and 4 bits. -/
theorem parseBmp_inside_iff (hbmp : IsBitmap heap stack file) :
    (∃ r, parseBmp heap stack (some file) = .ok r) ↔
      (readInfo stack file).biBitCount ∈ [16, 24, 32] ∨ (readInfo stack file).biBitCount = 8 ∧
        ((readInfo stack file).biWidth % 16 = 0 ∨ 13 ≤ (readInfo stack file).biWidth % 16) := by
  obtain ⟨w, h, hw, -, hwidth, hheight, hparse⟩ := hbmp.parseBmp_eq
  have hcast : (w : ℤ) % 16 = 0 ∨ 13 ≤ (w : ℤ) % 16 ↔ w % 16 = 0 ∨ 13 ≤ w % 16 := by omega
  rw [hparse, parseData_inside_iff hwidth hheight hbmp.bits_mem, hw, hcast]

/-- Two rows of two pixels of 24 bits, each with its padding. -/
theorem parseBmp_inside_trueColour :
    ∃ r, parseBmp (fun _ => 0) (fun _ => 0) (some ([0x42, 0x4d] ++ List.replicate 12 0 ++
      [40, 0, 0, 0, 2, 0, 0, 0, 2, 0, 0, 0, 1, 0, 24, 0] ++ List.replicate 24 0 ++
      [1, 2, 3, 4, 5, 6, 0, 0, 7, 8, 9, 10, 11, 12, 0, 0])) = .ok r :=
  (parseBmp_inside_iff ⟨by decide, by decide, by decide, by decide⟩).mpr (.inl (by decide))

/-- One pixel of one bit. -/
theorem not_parseBmp_inside_bit :
    ∃ file, IsBitmap (fun _ => 0) (fun _ => 0) file ∧
      ¬∃ r, parseBmp (fun _ => 0) (fun _ => 0) (some file) = .ok r := by
  refine ⟨[0x42, 0x4d] ++ List.replicate 12 0 ++ [40, 0, 0, 0, 1, 0, 0, 0, 1, 0, 0, 0, 1, 0, 1, 0],
    ⟨by decide, by decide, by decide, by decide⟩, ?_⟩
  rintro ⟨r, hparse⟩
  have hdata : parseData ⟨(1 : ℕ), (1 : ℕ), 1⟩ [] = .ok r := hparse
  have hle := roundUp_le_of_parseData (by decide) (by decide) (.inl rfl) hdata
  exact absurd hle (by decide)

end PanelTester.Util
