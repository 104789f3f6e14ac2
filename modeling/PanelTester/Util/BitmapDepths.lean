import PanelTester.Util.Bitmap

/-!
One picture in files of several depths, as the comments of `bitmap.c` describe them: the two
headers, the palette with the colours that are used, and right behind it the rows, each filled up
to a multiple of four bytes. `parseBmp` gives the channels of 24 bits in the other order than those
of 32 bits and of the palette, it takes every palette to be a full one, and the columns behind the
picture are those that fill up a row.
-/

namespace PanelTester.Util

open Library

structure Colour where
  red : UInt8
  green : UInt8
  blue : UInt8
  deriving DecidableEq

/-- The row 0 is the one that stands first in a file. -/
structure Picture where
  width : ℕ
  height : ℕ
  colour : ℕ → ℕ → Colour
  width_pos : 0 < width
  height_pos : 0 < height

/-- A `DWORD`. -/
def dwordAt (bytes : List UInt8) (k : ℕ) : ℕ :=
  (wordLE32 (byteAt bytes k) (byteAt bytes (k + 1)) (byteAt bytes (k + 2))
    (byteAt bytes (k + 3))).toNat

/-- The colour that stands at a place. -/
def colourAt (file : List UInt8) (k : ℕ) : Colour :=
  ⟨byteAt file (k + 2), byteAt file (k + 1), byteAt file k⟩

/-- `biClrUsed`, or as many colours as the bits have values. -/
def coloursUsed (file : List UInt8) (bits : ℕ) : ℕ :=
  if dwordAt file 46 = 0 then 2 ^ bits else dwordAt file 46

/-- The value of a pixel by the palette, where the first of several in a byte has the highest
bits. -/
def sampleAt (w bits : ℕ) (file : List UInt8) (dataAt i j : ℕ) : ℕ :=
  (byteAt file (dataAt + (i * rowBytes w bits + j / (8 / bits)))).toNat /
    2 ^ (8 - bits * (j % (8 / bits) + 1)) % 2 ^ bits

/-- The headers of a picture whose rows begin at `dataAt`. -/
structure Stored (p : Picture) (bits dataAt : ℕ) (file : List UInt8) : Prop where
  type_eq : wordAt file 0 = 0x4d42
  offBits_eq : dwordAt file 10 = dataAt
  size_eq : dwordAt file 14 = 40
  width_eq : intAt file 18 = p.width
  height_eq : intAt file 22 = p.height
  bits_eq : (wordAt file 28).toNat = bits
  compression_eq : dwordAt file 30 = 0
  length_le : dataAt + p.height * rowBytes p.width bits ≤ file.length

/-- A picture that is stored with a palette. -/
structure StoredPalette (p : Picture) (bits : ℕ) (file : List UInt8) : Prop
    extends Stored p bits (54 + 4 * coloursUsed file bits) file where
  bits_mem : bits ∈ [1, 2, 4, 8]
  sample_lt : ∀ i < p.height, ∀ j < p.width,
    sampleAt p.width bits file (54 + 4 * coloursUsed file bits) i j < coloursUsed file bits
  colour_eq : ∀ i < p.height, ∀ j < p.width,
    colourAt file (54 + 4 * sampleAt p.width bits file (54 + 4 * coloursUsed file bits) i j) =
      p.colour i j

/-- A picture that is stored with its colours, of 24 or 32 bits. -/
structure StoredTrueColour (p : Picture) (bits : ℕ) (file : List UInt8) : Prop
    extends Stored p bits 54 file where
  colour_eq : ∀ i < p.height, ∀ j < p.width,
    colourAt file (54 + (i * rowBytes p.width bits + j * (bits / 8))) = p.colour i j

/-- The order of the channels in the output. -/
inductive ChannelOrder
  | rgb
  | bgr

def ChannelOrder.bytes : ChannelOrder → Colour → List UInt8
  | .rgb, c => [c.red, c.green, c.blue, 0]
  | .bgr, c => [c.blue, c.green, c.red, 0]

/-- The pixels that an output is to have: the picture, and zeros in the columns behind it. -/
def Picture.pixels (p : Picture) (order : ChannelOrder) (i j : ℕ) : List UInt8 :=
  if j < p.width then order.bytes (p.colour i j) else blank

/-- `parseBmp` shows the picture. -/
def Shows (heap stack : ℕ → UInt8) (p : Picture) (order : ChannelOrder) (file : List UInt8) :
    Prop :=
  ∃ r, parseBmp heap stack (some file) = .ok r ∧
    Outputs p.width p.height (p.pixels order) r

/-- `parseBmp` shows the picture in one order of the channels, whichever file it gets. -/
def SameOutput (heap stack : ℕ → UInt8) (p : Picture) (file file24 file32 : List UInt8) : Prop :=
  ∃ order, Shows heap stack p order file ∧ Shows heap stack p order file24 ∧
    Shows heap stack p order file32

/-- The colour of a pixel of 8 bits, when the palette is taken to have 256 colours. -/
def selectedColour (w : ℕ) (file : List UInt8) (i j : ℕ) : Colour :=
  colourAt file (54 + 4 * (byteAt file (54 + 4 * 256 + (i * rowBytes w 8 + j))).toNat)

/-! ### The headers -/

variable {p : Picture} {bits dataAt : ℕ} {file file24 file32 : List UInt8}
  {heap stack : ℕ → UInt8}

theorem byteAt_drop (file : List UInt8) (m k : ℕ) :
    byteAt (file.drop m) k = byteAt file (m + k) := by
  rw [byteAt, byteAt, List.getD_eq_getElem?_getD, List.getElem?_drop,
    List.getD_eq_getElem?_getD]

/-- A byte that the file has is read. -/
theorem byteAt_fread_file {old : ℕ → UInt8} {n k : ℕ} (hfile : n ≤ file.length) (hk : k < n) :
    byteAt (fread old n file) k = byteAt file k := by
  rw [byteAt_fread file hk, byteAt, List.getD_eq_getElem?_getD, List.getD_eq_getElem?_getD,
    List.getElem?_eq_getElem (hk.trans_le hfile)]
  rfl

/-- The headers are those of the file, when it has 54 bytes. -/
theorem byteAt_readInfo (stack : ℕ → UInt8) (hlen : 54 ≤ file.length) {k : ℕ} (hk : k < 40) :
    byteAt (fread stack 40 (file.drop 14)) k = byteAt file (14 + k) := by
  have hrest : 40 ≤ (file.drop 14).length := by
    rw [List.length_drop]
    omega
  rw [byteAt_fread_file hrest hk, byteAt_drop]

theorem intAt_readInfo (stack : ℕ → UInt8) (hlen : 54 ≤ file.length) {k : ℕ} (hk : k + 3 < 40) :
    intAt (fread stack 40 (file.drop 14)) k = intAt file (14 + k) := by
  rw [intAt, byteAt_readInfo stack hlen (by omega), byteAt_readInfo stack hlen (by omega),
    byteAt_readInfo stack hlen (by omega), byteAt_readInfo stack hlen hk]
  rfl

theorem wordAt_readInfo (stack : ℕ → UInt8) (hlen : 54 ≤ file.length) {k : ℕ} (hk : k + 1 < 40) :
    wordAt (fread stack 40 (file.drop 14)) k = wordAt file (14 + k) := by
  rw [wordAt, byteAt_readInfo stack hlen (by omega), byteAt_readInfo stack hlen hk]
  rfl

theorem Stored.parseBmp_eq (h : Stored p bits dataAt file) (hdata : 54 ≤ dataAt)
    (heap stack : ℕ → UInt8) :
    parseBmp heap stack (some file) = parseData ⟨p.width, p.height, bits⟩ (file.drop 54) := by
  have hlen : 54 ≤ file.length := (hdata.trans (Nat.le_add_right ..)).trans h.length_le
  have htype : wordAt (fread heap 14 file) 0 = 0x4d42 := by
    rw [wordAt, byteAt_fread_file (by omega) (by omega), byteAt_fread_file (by omega) (by omega)]
    exact h.type_eq
  have hinfo : readInfo stack file = ⟨p.width, p.height, bits⟩ := by
    rw [readInfo, bitInfoHead, intAt_readInfo stack hlen (by omega),
      intAt_readInfo stack hlen (by omega), wordAt_readInfo stack hlen (by omega), h.width_eq,
      h.height_eq, h.bits_eq]
  rw [parseBmp, if_neg (not_not.mpr htype), hinfo]

/-! ### The pixels -/

variable {w h i j step first last : ℕ}

theorem byteAt_fread_zero {n k : ℕ} (file : List UInt8) (hk : k < n) :
    byteAt (fread (fun _ => 0) n file) k = byteAt file k := byteAt_fread file hk

/-- A pixel of 8 bits. -/
theorem palettePixel_eq (file : List UInt8) (hi : i < h) (hj : j < rowBytes w 8) :
    palettePixel (sourceOf w h 8 (file.drop 54)) i j =
      ChannelOrder.rgb.bytes (selectedColour w file i j) := by
  have hdata : byteAt (sourceOf w h 8 (file.drop 54)).pColorData (i * rowBytes w 8 + j) =
      byteAt file (54 + 4 * 256 + (i * rowBytes w 8 + j)) := by
    rw [sourceOf, byteAt_fread_zero _ (place_lt hi hj), byteAt_drop, byteAt_drop, Nat.add_assoc]
    rfl
  have hentry : ∀ (b : UInt8), ∀ c < 4, byteAt (sourceOf w h 8 (file.drop 54)).pRgb
      (4 * b.toNat + c) = byteAt file (54 + 4 * b.toNat + c) := by
    intro b c hc
    have hb := b.toNat_lt
    have hsize : 4 * b.toNat + c < paletteSize 8 := by
      rw [paletteSize, if_pos (by omega)]
      omega
    rw [sourceOf, byteAt_fread_zero _ hsize, byteAt_drop, Nat.add_assoc]
  rw [palettePixel, show (sourceOf w h 8 (file.drop 54)).lWidth = rowBytes w 8 from rfl, hdata,
    hentry _ rgbRed (by decide), hentry _ rgbGreen (by decide), hentry _ rgbBlue (by decide)]
  rfl

/-- A pixel with a byte for each colour. -/
theorem TrueColour.pixel_eq (htrue : TrueColour bits step first last)
    (file : List UInt8) (hi : i < h) (hj : j < w) :
    trueColourPixel (sourceOf w h bits (file.drop 54)) step first last i j =
      [byteAt file (54 + (i * rowBytes w bits + j * step) + first),
        byteAt file (54 + (i * rowBytes w bits + j * step) + 1),
        byteAt file (54 + (i * rowBytes w bits + j * step) + last), 0] := by
  have hdata : ∀ k < step, byteAt (sourceOf w h bits (file.drop 54)).pColorData
      (i * rowBytes w bits + j * step + k) =
        byteAt file (54 + (i * rowBytes w bits + j * step) + k) := by
    intro k hk
    have hplace : i * rowBytes w bits + j * step + k < h * rowBytes w bits := by
      rw [Nat.add_assoc]
      exact place_lt hi ((place_lt hj hk).trans_le (htrue.row_le w))
    rw [sourceOf, byteAt_fread_zero _ hplace, htrue.no_palette, List.drop_zero, byteAt_drop,
      ← Nat.add_assoc]
  obtain ⟨hone, hfirst, hlast⟩ := htrue.places
  rw [trueColourPixel, if_pos (show j < (sourceOf w h bits (file.drop 54)).orgwidth from hj)]
  dsimp only
  rw [show (sourceOf w h bits (file.drop 54)).lWidth = rowBytes w bits from rfl, hdata first hfirst,
    hdata 1 hone, hdata last hlast]

/-- What an output shows, by the pixels it is known to have. -/
theorem Outputs.iff {P Q : ℕ → ℕ → List UInt8} {r : Parsed} (hr : Outputs w h P r) :
    Outputs w h Q r ↔ ∀ i < h, ∀ j < roundUp w, P i j = Q i j := by
  obtain ⟨head, rfl, hlen, hP⟩ := hr
  constructor
  · rintro ⟨head', hhead, -, hQ⟩ i hi j hj
    obtain rfl : head = head' := by
      injection hhead with _ himage
      injection himage with hpair
      exact congrArg Prod.fst hpair
    rw [← hP i hi j hj, hQ i hi j hj]
  · intro heq
    refine ⟨head, rfl, hlen, ?_⟩
    intro i hi j hj
    rw [hP i hi j hj, heq i hi j hj]

theorem shows_iff {P : ℕ → ℕ → List UInt8} {order : ChannelOrder}
    (hparse : ∃ r, parseBmp heap stack (some file) = .ok r ∧ Outputs p.width p.height P r) :
    Shows heap stack p order file ↔
      ∀ i < p.height, ∀ j < roundUp p.width, P i j = p.pixels order i j := by
  obtain ⟨r, hr, hP⟩ := hparse
  rw [← hP.iff]
  constructor
  · rintro ⟨r', hr', hQ⟩
    obtain rfl := Except.ok.inj (hr.symm.trans hr')
    exact hQ
  · intro hQ
    exact ⟨r, hr, hQ⟩

/-! ### The depths -/

/-- The order in which a depth gives the channels. -/
def TrueColour.Gives (_ : TrueColour bits step first last) (order : ChannelOrder) : Prop :=
  ∀ file k, [byteAt file (k + first), byteAt file (k + 1), byteAt file (k + last), 0] =
    order.bytes (colourAt file k)

/-- 24 bits give the channels from blue to red. -/
theorem trueColour24_gives : trueColour24.Gives .bgr := fun _ _ => rfl

/-- 32 bits give the channels from red to blue. -/
theorem trueColour32_gives : trueColour32.Gives .rgb := fun _ _ => rfl

/-- A picture that is stored with its colours is shown in the order of its depth. -/
theorem StoredTrueColour.shows_iff (h : StoredTrueColour p bits file)
    {htrue : TrueColour bits step first last} {given : ChannelOrder} (hgives : htrue.Gives given)
    (order : ChannelOrder) :
    Shows heap stack p order file ↔
      ∀ i < p.height, ∀ j < roundUp p.width, p.pixels given i j = p.pixels order i j := by
  have hstep : bits / 8 = step := by
    rw [htrue.bits_eq]
    omega
  have hpixel : ∀ i < p.height, ∀ j,
      trueColourPixel (sourceOf p.width p.height bits (file.drop 54)) step first last i j =
        p.pixels given i j := by
    intro i hi j
    rw [Picture.pixels]
    split_ifs with hj
    · rw [htrue.pixel_eq file hi hj, hgives, ← h.colour_eq i hi j hj, hstep]
    · exact if_neg hj
  obtain ⟨r, hr, houtputs⟩ := htrue.parseData p.width p.height (file.drop 54)
  rw [← h.parseBmp_eq (le_refl 54) heap stack] at hr
  rw [Util.shows_iff ⟨r, hr, houtputs⟩]
  apply forall₄_congr
  intro i hi j _
  rw [hpixel i hi]

theorem StoredPalette.shows_iff8 (h : StoredPalette p 8 file)
    (hfits : roundUp p.width ≤ rowBytes p.width 8) (order : ChannelOrder) :
    Shows heap stack p order file ↔ ∀ i < p.height, ∀ j < roundUp p.width,
      ChannelOrder.rgb.bytes (selectedColour p.width file i j) = p.pixels order i j := by
  obtain ⟨r, hr, houtputs⟩ := parseData_eight p.height (file.drop 54) hfits
  rw [← h.parseBmp_eq (Nat.le_add_right ..) heap stack] at hr
  rw [Util.shows_iff ⟨r, hr, houtputs⟩]
  apply forall₄_congr
  intro i hi j hj
  rw [palettePixel_eq file hi (hj.trans_le hfits)]

/-- Only 8 bits are shown, in rows that are as wide as the output. -/
theorem StoredPalette.fits_of_shows (h : StoredPalette p bits file) {order : ChannelOrder}
    (hshows : Shows heap stack p order file) :
    bits = 8 ∧ roundUp p.width ≤ rowBytes p.width 8 := by
  obtain ⟨r, hr, -⟩ := hshows
  rw [h.parseBmp_eq (Nat.le_add_right ..)] at hr
  have hbits := h.bits_mem
  simp only [List.mem_cons, List.not_mem_nil, or_false] at hbits
  have hle := roundUp_le_of_parseData p.width_pos p.height_pos hbits hr
  obtain rfl := eight_of_roundUp_le p.width_pos hbits hle
  exact ⟨rfl, hle⟩

theorem ChannelOrder.bytes_rgb_inj {c c' : Colour} (h : rgb.bytes c = rgb.bytes c') : c = c' := by
  obtain ⟨red, green, blue⟩ := c
  simp only [ChannelOrder.bytes, List.cons.injEq] at h
  obtain ⟨rfl, rfl, rfl, -⟩ := h
  rfl

/-- Where red and blue are the same, so are the two orders. -/
theorem ChannelOrder.bytes_eq {c : Colour} (h : c.red = c.blue) (order order' : ChannelOrder) :
    order.bytes c = order'.bytes c := by
  cases order <;> cases order' <;> simp [bytes, h]

/-- `parseBmp` shows one picture with a palette, of 24 bits and of 32 bits in the same way exactly
when it has 8 bits with rows as wide as the output, red and blue are the same everywhere, and what
stands behind a palette of 256 colours is the picture (`StoredPalette.selectedColour_eq` says when
it is), with black behind its columns. -/
theorem sameOutput_iff (h : StoredPalette p bits file) (h24 : StoredTrueColour p 24 file24)
    (h32 : StoredTrueColour p 32 file32) :
    SameOutput heap stack p file file24 file32 ↔
      bits = 8 ∧ (p.width % 16 = 0 ∨ 13 ≤ p.width % 16) ∧
        (∀ i < p.height, ∀ j < p.width, (p.colour i j).red = (p.colour i j).blue) ∧
        ∀ i < p.height, ∀ j < roundUp p.width,
          selectedColour p.width file i j = if j < p.width then p.colour i j else ⟨0, 0, 0⟩ := by
  have hround := roundUp_le_rowBytes_iff p.width
  have hpixels : ∀ i j, p.pixels .rgb i j =
      ChannelOrder.rgb.bytes (if j < p.width then p.colour i j else ⟨0, 0, 0⟩) := by
    intro i j
    rw [Picture.pixels]
    split_ifs <;> rfl
  constructor
  · rintro ⟨order, hshows, hshows24, hshows32⟩
    obtain ⟨rfl, hfits⟩ := h.fits_of_shows hshows
    rw [h.shows_iff8 hfits] at hshows
    rw [h24.shows_iff trueColour24_gives] at hshows24
    rw [h32.shows_iff trueColour32_gives] at hshows32
    refine ⟨rfl, hround.mp hfits, ?_, ?_⟩
    · intro i hi j hj
      have hin := hj.trans_le (le_roundUp p.width)
      have hsame := (hshows32 i hi j hin).trans (hshows24 i hi j hin).symm
      rw [Picture.pixels, if_pos hj, Picture.pixels, if_pos hj] at hsame
      exact (List.cons.inj hsame).1
    · intro i hi j hj
      apply ChannelOrder.bytes_rgb_inj
      rw [hshows i hi j hj, ← hshows32 i hi j hj, hpixels]
  · rintro ⟨rfl, hwidth, hgrey, hselected⟩
    refine ⟨.rgb, ?_, ?_, ?_⟩
    · rw [h.shows_iff8 (hround.mpr hwidth)]
      intro i hi j hj
      rw [hselected i hi j hj, hpixels]
    · rw [h24.shows_iff trueColour24_gives]
      intro i hi j _
      rw [Picture.pixels, Picture.pixels]
      split_ifs with hj
      · exact ChannelOrder.bytes_eq (hgrey i hi j hj) ..
      · rfl
    · rw [h32.shows_iff trueColour32_gives]
      intro i _ j _
      rfl

/-- With a full palette, the bytes behind it are the rows of the picture. -/
theorem StoredPalette.selectedColour_eq (h : StoredPalette p 8 file)
    (hfull : coloursUsed file 8 = 256) (hi : i < p.height) (hj : j < p.width) :
    selectedColour p.width file i j = p.colour i j := by
  have hsample : sampleAt p.width 8 file (54 + 4 * coloursUsed file 8) i j =
      (byteAt file (54 + 4 * 256 + (i * rowBytes p.width 8 + j))).toNat := by
    rw [sampleAt, hfull, Nat.div_self (by omega), Nat.div_one, Nat.mod_one]
    exact (Nat.mod_eq_of_lt ((Nat.div_le_self ..).trans_lt (UInt8.toNat_lt _))).trans
      (Nat.div_one _)
  rw [← h.colour_eq i hi j hj, hsample, selectedColour]

/-- The headers of a file. -/
def headers (w h : UInt32) (bits : UInt16) (offBits clrUsed : UInt32) : List UInt8 :=
  [0x42, 0x4d] ++ bytesLE32 0 ++ bytesLE32 0 ++ bytesLE32 offBits ++ bytesLE32 40 ++
    bytesLE32 w ++ bytesLE32 h ++ bytesLE16 1 ++ bytesLE16 bits ++ bytesLE32 0 ++ bytesLE32 0 ++
    bytesLE32 0 ++ bytesLE32 0 ++ bytesLE32 clrUsed ++ bytesLE32 0

/-- A row of pixels of one grey. -/
def greyRow (w : ℕ) (h : 0 < w) : Picture :=
  ⟨w, 1, fun _ _ => ⟨0x80, 0x80, 0x80⟩, h, Nat.one_pos⟩

theorem sameOutput_greyRow :
    SameOutput (fun _ => 0) (fun _ => 0) (greyRow 16 (by omega))
      (headers 16 1 8 1078 0 ++ List.replicate 1024 0x80 ++ List.replicate 16 1)
      (headers 16 1 24 54 0 ++ List.replicate 48 0x80)
      (headers 16 1 32 54 0 ++ List.replicate 64 0x80) := by
  have h : StoredPalette (greyRow 16 (by omega)) 8
      (headers 16 1 8 1078 0 ++ List.replicate 1024 0x80 ++ List.replicate 16 1) := by
    refine ⟨⟨?_, ?_, ?_, ?_, ?_, ?_, ?_, ?_⟩, ?_, ?_, ?_⟩ <;> decide +kernel
  have h24 : StoredTrueColour (greyRow 16 (by omega)) 24
      (headers 16 1 24 54 0 ++ List.replicate 48 0x80) := by
    refine ⟨⟨?_, ?_, ?_, ?_, ?_, ?_, ?_, ?_⟩, ?_⟩ <;> decide +kernel
  have h32 : StoredTrueColour (greyRow 16 (by omega)) 32
      (headers 16 1 32 54 0 ++ List.replicate 64 0x80) := by
    refine ⟨⟨?_, ?_, ?_, ?_, ?_, ?_, ?_, ?_⟩, ?_⟩ <;> decide +kernel
  exact (sameOutput_iff h h24 h32).mpr (by decide +kernel)

/-- A pixel, of one bit. -/
theorem not_sameOutput_bit :
    ∃ file file24 file32, StoredPalette (greyRow 1 Nat.one_pos) 1 file ∧
      StoredTrueColour (greyRow 1 Nat.one_pos) 24 file24 ∧
      StoredTrueColour (greyRow 1 Nat.one_pos) 32 file32 ∧
      ¬SameOutput (fun _ => 0) (fun _ => 0) (greyRow 1 Nat.one_pos) file file24 file32 := by
  have h : StoredPalette (greyRow 1 Nat.one_pos) 1
      (headers 1 1 1 62 0 ++ List.replicate 8 0x80 ++ List.replicate 4 0) := by
    refine ⟨⟨?_, ?_, ?_, ?_, ?_, ?_, ?_, ?_⟩, ?_, ?_, ?_⟩ <;> decide +kernel
  have h24 : StoredTrueColour (greyRow 1 Nat.one_pos) 24
      (headers 1 1 24 54 0 ++ List.replicate 4 0x80) := by
    refine ⟨⟨?_, ?_, ?_, ?_, ?_, ?_, ?_, ?_⟩, ?_⟩ <;> decide +kernel
  have h32 : StoredTrueColour (greyRow 1 Nat.one_pos) 32
      (headers 1 1 32 54 0 ++ List.replicate 4 0x80) := by
    refine ⟨⟨?_, ?_, ?_, ?_, ?_, ?_, ?_, ?_⟩, ?_⟩ <;> decide +kernel
  refine ⟨_, _, _, h, h24, h32, ?_⟩
  rintro ⟨order, hshows, -⟩
  exact absurd (h.fits_of_shows hshows).1 (by decide)

end PanelTester.Util
