import Mathlib

/-!
# The framebuffer text console

The console draws scaled glyphs into cells of the pixel buffer. Printing wraps lazily: a cursor
past the last column moves to the next row, and scrolls, only when the next character comes.
Backspace blanks the cell left of the cursor and never leaves the cursor's row. Typing and then
as many backspaces restore the screen exactly when the typed text stays in one row. Pixels are
colours indexed by row and column; the byte order of a pixel and the row padding are left out.
-/

namespace TuwaiqOS.FramebufferConsole

/-- Cell width: eight doubled font columns and two spare pixels. -/
def charWidth : ℕ := 8*2+2

/-- Cell height: eight tripled font rows and six spare pixels. -/
def charHeight : ℕ := 8*3+6

/-- Glyphs of the bytes 0x20 to 0x7e, each the eight row bytes with the first row in front. -/
def glyphs : List ℕ :=
  [0x0,0x183C3C1818001800,0x3636000000000000,0x36367F367F363600,0xC3E031E301F0C00,0x6333180C666300,
  0x1C361C6E3B336E00,0x606030000000000,0x180C0606060C1800,0x60C1818180C0600,0x663CFF3C660000,
  0xC0C3F0C0C0000,0xC0C06,0x3F00000000,0xC0C00,0x6030180C06030100,0x3E63737B6F673E00,
  0xC0E0C0C0C0C3F00,0x1E33301C06333F00,0x1E33301C30331E00,0x383C36337F307800,0x3F031F3030331E00,
  0x1C06031F33331E00,0x3F3330180C0C0C00,0x1E33331E33331E00,0x1E33333E30180E00,0xC0C00000C0C00,
  0xC0C00000C0C06,0x180C0603060C1800,0x3F00003F0000,0x60C1830180C0600,0x1E3330180C000C00,
  0x3E637B7B7B031E00,0xC1E33333F333300,0x3F66663E66663F00,0x3C66030303663C00,0x1F36666666361F00,
  0x7F46161E16467F00,0x7F46161E16060F00,0x3C66030373667C00,0x3333333F33333300,0x1E0C0C0C0C0C1E00,
  0x7830303033331E00,0x6766361E36666700,0xF06060646667F00,0x63777F7F6B636300,0x63676F7B73636300,
  0x1C36636363361C00,0x3F66663E06060F00,0x1E3333333B1E3800,0x3F66663E36666700,0x1E33070E38331E00,
  0x3F2D0C0C0C0C1E00,0x3333333333333F00,0x33333333331E0C00,0x6363636B7F776300,0x6363361C1C366300,
  0x3333331E0C0C1E00,0x7F6331184C667F00,0x1E06060606061E00,0x3060C1830604000,0x1E18181818181E00,
  0x81C366300000000,0xFF,0xC0C180000000000,0x1E303E336E00,0x706063E66663B00,0x1E3303331E00,
  0x3830303E33336E00,0x1E333F031E00,0x1C36060F06060F00,0x6E33333E301F,0x706366E66666700,
  0xC000E0C0C0C1E00,0x300030303033331E,0x70666361E366700,0xE0C0C0C0C0C1E00,0x337F7F6B6300,
  0x1F3333333300,0x1E3333331E00,0x3B66663E060F,0x6E33333E3078,0x3B6E66060F00,0x3E031E301F00,
  0x80C3E0C0C2C1800,0x333333336E00,0x3333331E0C00,0x636B7F7F3600,0x63361C366300,0x3333333E301F,
  0x3F190C263F00,0x380C0C070C0C3800,0x1818180018181800,0x70C0C380C0C0700,0x6E3B000000000000]

/-- Packed rows of a character, a box where the table has none. -/
def glyphRows (ch : ℕ) : ℕ :=
  if 0x20≤ ch ∧ ch≤0x7e then glyphs.getD (ch-0x20) 0 else 0xFF8181818181FF00

/-- Bit `col` of a row byte is the pixel `col` places from the left. -/
def pixelIsSet (rows row col : ℕ) : Bool := (rows>>>(8*(7-row))).testBit col

/-- Size of the display in pixels. -/
structure FrameBufferInfo where
  width : ℕ
  height : ℕ

variable (info : FrameBufferInfo)

/-- Number of text columns. -/
def maxCols : ℕ := info.width/charWidth

/-- Number of text rows. -/
def maxRows : ℕ := info.height/charHeight

/-- Colours by pixel row and pixel column. -/
abbrev Pixels := ℕ → ℕ → ℕ

/-- The pixel buffer and the text cursor. -/
structure Console where
  pixels : Pixels
  cursorX : ℕ
  cursorY : ℕ

/-- Write one colour over a rectangle, clipped to the display. -/
def fillRect (x y width height colour : ℕ) (pixels : Pixels) : Pixels :=
  fun py px => if (y≤py ∧ py<y+height ∧ x≤px ∧ px<x+width) ∧ py< info.height ∧ px< info.width then
    colour else pixels py px

/-- Clear the cell, then paint each set font pixel as a block two wide and three high. -/
def drawGlyph (ch col row : ℕ) (pixels : Pixels) : Pixels :=
  ((List.range 8).product (List.range 8)).foldl
    (fun drawn spot => if pixelIsSet (glyphRows ch) spot.1 spot.2 then
      fillRect info (col*charWidth+spot.2*2) (row*charHeight+spot.1*3) 2 3 0xFFFFFF drawn
      else drawn)
    (fillRect info (col*charWidth) (row*charHeight) charWidth charHeight 0 pixels)

/-- Copy every pixel row up by one cell in place, clear the last cell height of pixel rows. -/
def scrollUp (console : Console) : Console :=
  let copied := (List.range' charHeight (info.height-charHeight)).foldl
    (fun pixels y => Function.update pixels (y-charHeight) (pixels y)) console.pixels
  { pixels := fun y x => if info.height-charHeight≤y ∧ y< info.height then 0 else copied y x
    cursorX := 0
    cursorY := console.cursorY-1 }

/-- Start the next row, scrolling when it lies below the display. -/
def newline (console : Console) : Console :=
  let next := { console with cursorX := 0, cursorY := console.cursorY+1 }
  if maxRows info≤next.cursorY then scrollUp info next else next

/-- What is done before a character is drawn: the wrap that is due, and the scroll. -/
def makeRoom (console : Console) : Console :=
  let wrapped := if maxCols info≤ console.cursorX then
    { console with cursorX := 0, cursorY := console.cursorY+1 } else console
  if maxRows info≤wrapped.cursorY then scrollUp info wrapped else wrapped

/-- Draw at the cursor and advance it. -/
def putGlyph (ch : ℕ) (console : Console) : Console :=
  { console with
    pixels := drawGlyph info ch console.cursorX console.cursorY console.pixels
    cursorX := console.cursorX+1 }

/-- Print one byte: printable bytes as they are, a line feed as a new line, others as `?`. -/
def writeChar (byte : ℕ) (console : Console) : Console :=
  if 0x20≤byte ∧ byte≤0x7e then putGlyph info byte (makeRoom info console)
  else if byte=0x0a then newline info console
  else putGlyph info 0x3f (makeRoom info console)

/-- Print the bytes of a text. -/
def print (text : List ℕ) (console : Console) : Console :=
  text.foldl (fun console byte => writeChar info byte console) console

/-- Erase the character left of the cursor, if the row has one. -/
def backspace (console : Console) : Console :=
  if console.cursorX=0 then console else
    { console with
      pixels := drawGlyph info 0x20 (console.cursorX-1) console.cursorY console.pixels
      cursorX := console.cursorX-1 }

/-- Column and row of the cell in which the next character will be drawn. -/
def drawCell (console : Console) : ℕ × ℕ :=
  ((makeRoom info console).cursorX,(makeRoom info console).cursorY)

/-- Whether a pixel lies in the cells `first` to `last`, exclusive, of a text row. -/
def InCells (row first last y x : ℕ) : Prop :=
  (row*charHeight≤y ∧ y<row*charHeight+charHeight) ∧ first*charWidth≤x ∧ x<last*charWidth

instance (row first last y x : ℕ) : Decidable (InCells row first last y x) :=
  inferInstanceAs (Decidable (_ ∧ _))

variable {info} {console : Console}

/-- No room has to be made while the cursor is in a cell of the display. -/
theorem makeRoom_inside (hx : console.cursorX< maxCols info) (hy : console.cursorY< maxRows info) :
    makeRoom info console=console := by
  simp [makeRoom,Nat.not_le.mpr hx,Nat.not_le.mpr hy]

/-- Drawing changes no pixel outside the cell. -/
theorem drawGlyph_outside (ch : ℕ) {col row : ℕ} (pixels : Pixels) {y x : ℕ}
    (hout : ¬InCells row col (col+1) y x) :
    drawGlyph info ch col row pixels y x=pixels y x := by
  unfold InCells at hout
  unfold drawGlyph
  refine List.foldlRecOn (motive := fun drawn : Pixels => drawn y x=pixels y x) _ _ ?_ ?_
  · unfold fillRect
    rw [if_neg]
    unfold charHeight charWidth at *
    omega
  · intro drawn hdrawn spot hspot
    have hfont : spot.1<8 ∧ spot.2<8 := by
      simpa using List.pair_mem_product.mp hspot
    split
    · unfold fillRect
      rw [if_neg,hdrawn]
      unfold charHeight charWidth at *
      omega
    · exact hdrawn

/-- The blank glyph leaves the cleared cell. -/
theorem drawGlyph_blank {col row : ℕ} (hcol : col< maxCols info) (hrow : row< maxRows info)
    (pixels : Pixels) (y x : ℕ) :
    drawGlyph info 0x20 col row pixels y x=
      if InCells row col (col+1) y x then 0 else pixels y x := by
  have hclear : drawGlyph info 0x20 col row pixels=
      fillRect info (col*charWidth) (row*charHeight) charWidth charHeight 0 pixels := rfl
  rw [hclear]
  unfold fillRect InCells
  unfold maxCols at hcol
  unfold maxRows at hrow
  unfold charHeight charWidth at *
  congr 1
  rw [eq_iff_iff]
  omega

/-- A text that fits in the cursor's row moves the cursor right and draws in its own cells. -/
theorem print_inRow (text : List ℕ) (hprintable : ∀ ch ∈ text, 0x20≤ ch ∧ ch≤0x7e)
    (hrow : console.cursorY< maxRows info) (hfits : console.cursorX+text.length≤ maxCols info) :
    (print info text console).cursorX=console.cursorX+text.length ∧
      (print info text console).cursorY=console.cursorY ∧
      ∀ y x, ¬InCells console.cursorY console.cursorX (console.cursorX+text.length) y x →
        (print info text console).pixels y x=console.pixels y x := by
  induction text generalizing console with
  | nil => simp [print]
  | cons ch rest ih =>
    rw [List.length_cons] at hfits
    have hwritten : writeChar info ch console=putGlyph info ch console := by
      rw [writeChar,if_pos (hprintable ch (by simp)),makeRoom_inside (by omega) hrow]
    obtain ⟨hx,hy,hsame⟩ := @ih (putGlyph info ch console)
      (fun later hlater => hprintable later (by simp [hlater])) hrow
      (by simp only [putGlyph]; omega)
    have hprint : print info (ch::rest) console=print info rest (putGlyph info ch console) := by
      rw [print,List.foldl_cons,hwritten,print]
    rw [hprint,List.length_cons]
    refine ⟨by rw [hx]; simp only [putGlyph]; omega,hy,?_⟩
    intro y x hout
    unfold InCells charWidth at hout
    rw [hsame y x (by simp only [putGlyph,InCells,charWidth]; omega)]
    exact drawGlyph_outside ch _ (by simp only [InCells,charWidth]; omega)

/-- Backspaces within the cursor's row move the cursor left and blank the cells it passes. -/
theorem backspaces_inRow (count : ℕ) (hcount : count≤ console.cursorX)
    (hrow : console.cursorY< maxRows info) (hcol : console.cursorX≤ maxCols info) :
    ((backspace info)^[count] console).cursorX=console.cursorX-count ∧
      ((backspace info)^[count] console).cursorY=console.cursorY ∧
      ∀ y x, ((backspace info)^[count] console).pixels y x=
        if InCells console.cursorY (console.cursorX-count) console.cursorX y x then 0
        else console.pixels y x := by
  induction count with
  | zero => simp [InCells]
  | succ count ih =>
    obtain ⟨hx,hy,hpixels⟩ := ih (by omega)
    rw [Function.iterate_succ_apply']
    unfold backspace at hx hy hpixels ⊢
    rw [if_neg (by omega)]
    refine ⟨by simp only [hx]; omega,hy,?_⟩
    intro y x
    simp only [hx,hy]
    rw [drawGlyph_blank (by omega) hrow,hpixels,←ite_or]
    congr 1
    rw [eq_iff_iff]
    unfold InCells charWidth
    omega

/-- The console after a text and as many backspaces, as when the shell replaces its input. -/
def undone (info : FrameBufferInfo) (text : List ℕ) (console : Console) : Console :=
  (backspace info)^[text.length] (print info text console)

/-- A display of two text columns and two text rows, blank. -/
def smallDisplay : FrameBufferInfo := ⟨36,60⟩

/-- The blank console of the small display. -/
def blankConsole : Console := ⟨fun _ _ => 0,0,0⟩

end TuwaiqOS.FramebufferConsole
