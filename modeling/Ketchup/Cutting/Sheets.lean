/-
**Sheets.**

`cutSheets` lays one piece after the other where it leaves least beside it, on a sheet that is open or
on a new one, and cuts what is left of the space in two. A piece longer than a sheet less its trim
keeps the factory edges of the sheet along that side. In the end each sheet shrinks to the smallest
stock that holds its pieces where they lie.
-/

import Ketchup.Cutting.Lengths

namespace Ketchup.Cutting

/-- A free space along one axis of a sheet. -/
structure Span where
  start : ℚ
  length : ℚ
  /-- It reaches into the trim the sheet keeps there. -/
  edge : Bool

/-- A free rectangle. -/
abbrev Free := Fin 2 → Span

structure Sheet where
  size : Size
  /-- Along each axis: its factory edges stay, no trim comes off there. -/
  edges : Fin 2 → Bool
  free : List Free
  placed : List Placed

/-- Where a piece can lie. -/
structure Fit where
  shortLeft : ℚ
  longLeft : ℚ
  sheet : Nat
  free : Nat
  /-- The part of the free rectangle the piece may take. -/
  room : Free
  turned : Bool

section Cutting

variable (kerf trim : ℚ)

/-- The piece is longer than the sheet less its trim at both ends, but not than the sheet. -/
def spanned (piece sheet : ℚ) : Bool :=
  decide (eps < trim) && decide (sheet - 2 * trim + eps < piece) && decide (piece ≤ sheet + eps)

/-- What of a span a piece may take that keeps the edge (`spans`), or lies inside the trim. -/
def Span.room (span : Span) (size : ℚ) (spans : Bool) : Option Span :=
  if spans then
    if span.edge then some span else none
  else if span.edge then
    let low := max span.start trim
    let high := min (span.start + span.length) (size - trim + kerf)
    if high ≤ low then none else some ⟨low, high - low, false⟩
  else some span

def Free.room (free : Free) (size : Size) (spans : Fin 2 → Bool) : Option Free := do
  let along ← (free 0).room kerf trim (size 0) (spans 0)
  let across ← (free 1).room kerf trim (size 1) (spans 1)
  return ![along, across]

/-- A new sheet; it ends a kerf behind its last cut. -/
def fresh (size : Size) (edges : Fin 2 → Bool) : Sheet where
  size := size
  edges := edges
  free := [fun axis =>
    if edges axis then ⟨0, size axis + kerf, true⟩
    else ⟨trim, size axis - 2 * trim + kerf, false⟩]
  placed := []

/-- The sides of a piece along the sheet and across it. -/
def Piece.sides (piece : Piece) (turned : Bool) : Size :=
  if turned then ![piece.size 1, piece.size 0] else piece.size

def Piece.orientations (piece : Piece) : List Bool := piece.turned.elim [false, true] fun turned => [turned]

/-- What a piece takes: its size and one kerf. -/
def Piece.footprint (piece : Piece) (turned : Bool) : Size := fun axis =>
  piece.sides turned axis + kerf

def Piece.spans (piece : Piece) (size : Size) (turned : Bool) : Fin 2 → Bool := fun axis =>
  spanned trim (piece.sides turned axis) (size axis)

/-- How a piece lies in a free rectangle, if it does. -/
def Piece.fitIn (piece : Piece) (sheet : Sheet) (s f : Nat) (free : Free) (turned : Bool) :
    Option Fit := do
  let room ← Free.room kerf trim free sheet.size (piece.spans trim sheet.size turned)
  let footprint := piece.footprint kerf turned
  if footprint 0 ≤ (room 0).length + eps ∧ footprint 1 ≤ (room 1).length + eps then
    let along := (room 0).length - footprint 0
    let across := (room 1).length - footprint 1
    return ⟨min along across, max along across, s, f, room, turned⟩
  else none

def Piece.fits (piece : Piece) (sheets : List Sheet) : List Fit :=
  sheets.zipIdx.flatMap fun sheet => sheet.1.free.zipIdx.flatMap fun free =>
    piece.orientations.filterMap fun turned =>
      piece.fitIn kerf trim sheet.1 sheet.2 free.2 free.1 turned

/-- One leaves less than the other, on the short side first. -/
def Fit.better (fit other : Fit) : Bool :=
  decide (fit.shortLeft < other.shortLeft) ||
    decide (fit.shortLeft = other.shortLeft) && decide (fit.longLeft < other.longLeft)

def takeBetter (best : Option Fit) (fit : Fit) : Option Fit :=
  match best with
  | none => some fit
  | some other => if fit.better other then some fit else some other

/-- The first of the best places for a piece. -/
def Piece.consider (piece : Piece) (sheets : List Sheet) : Option Fit :=
  (piece.fits kerf trim sheets).foldl takeBetter none

/-- The sheets a piece may open, and the edges they keep: the largest it spans, else the largest. -/
def Piece.openings (piece : Piece) (sizes : List Size) : List (Size × (Fin 2 → Bool)) :=
  (sizes.reverse.flatMap fun size =>
      (piece.orientations.map fun turned => (size, piece.spans trim size turned)).filter
        fun opening => opening.2 0 || opening.2 1) ++
    sizes.reverse.map fun size => (size, fun _ => false)

/-- The sheets with the one the piece goes on, and where on it. -/
def Piece.find (piece : Piece) (sizes : List Size) (sheets : List Sheet) :
    Option (List Sheet × Fit) :=
  match piece.consider kerf trim sheets with
  | some best => some (sheets, best)
  | none => (piece.openings trim sizes).findSome? fun opening =>
      let opened := sheets ++ [fresh kerf trim opening.1 opening.2]
      (piece.consider kerf trim opened).map fun best => (opened, best)

/-! ### Laying a piece -/

/-- What a piece leaves of its room: beside it and above it, split along the shorter leftover. -/
def leftover (room : Free) (footprint : Size) : List Free :=
  let rightWidth := (room 0).length - footprint 0
  let topHeight := (room 1).length - footprint 1
  let right (height : ℚ) : Free :=
    ![⟨(room 0).start + footprint 0, rightWidth, (room 0).edge⟩,
      ⟨(room 1).start, height, (room 1).edge⟩]
  let top (width : ℚ) : Free :=
    ![⟨(room 0).start, width, (room 0).edge⟩,
      ⟨(room 1).start + footprint 1, topHeight, (room 1).edge⟩]
  let both :=
    if rightWidth < topHeight then [right (footprint 1), top (room 0).length]
    else [right (room 1).length, top (footprint 0)]
  both.filter fun free => decide (eps < (free 0).length) && decide (eps < (free 1).length)

def Piece.placedAt (piece : Piece) (room : Free) (turned : Bool) : Placed :=
  let sides := piece.sides turned
  ⟨piece.part, [(room 0).start, (room 1).start], [sides 0, sides 1], turned⟩

/-- The piece laid on a sheet. What the room leaves of its rectangle is trim. -/
def Piece.layOn (piece : Piece) (fit : Fit) (sheet : Sheet) : Sheet :=
  { sheet with
    free := swapRemove sheet.free fit.free ++ leftover fit.room (piece.footprint kerf fit.turned)
    placed := sheet.placed ++ [piece.placedAt fit.room fit.turned] }

/-- One piece more: on a sheet, or in the list of those no sheet takes. -/
def layPiece (stock : Stock) (given sizes : List Size) (so : List Sheet × List Unplaced)
    (piece : Piece) : List Sheet × List Unplaced :=
  match piece.find stock.kerfMm stock.trimMm sizes so.1 with
  | some (sheets, fit) => (sheets.modify fit.sheet (piece.layOn stock.kerfMm fit), so.2)
  | none =>
    let laidAlong := piece.turned.map fun _ => stock.along.getD "axis"
    (so.1, so.2 ++ [⟨piece.part, .fitsNoSheet (piece.size 0) (piece.size 1) given laidAlong⟩])

/-- Some stock has a side that the piece spans. -/
def Piece.keepsEdge (piece : Piece) (sizes : List Size) : Bool :=
  sizes.any fun size => piece.orientations.any fun turned =>
    piece.spans trim size turned 0 || piece.spans trim size turned 1

/-! ### Shrinking a sheet -/

/-- The piece, where it lies, on a sheet of another size: one that keeps a factory edge still spans it,
the others lie inside its trim. -/
def Sheet.holdsOn (sheet : Sheet) (size : Size) (piece : Placed) (axis : Fin 2) : Bool :=
  let length := piece.sizeMm.getD axis 0
  if sheet.edges axis && spanned trim length (sheet.size axis) then spanned trim length (size axis)
  else decide (piece.atMm.getD axis 0 + length ≤ size axis - trim + eps)

def Sheet.holds (sheet : Sheet) (size : Size) : Bool :=
  sheet.placed.all fun piece =>
    sheet.holdsOn trim size piece 0 && sheet.holdsOn trim size piece 1

/-- The smallest stock that holds the pieces. -/
def Sheet.shrunk (sheet : Sheet) (sizes : List Size) : Size :=
  (sizes.find? (sheet.holds trim)).getD sheet.size

def Sheet.layout (sheet : Sheet) (sizes : List Size) : Layout :=
  let size := sheet.shrunk trim sizes
  let area := (sheet.placed.map fun piece => piece.sizeMm.getD 0 0 * piece.sizeMm.getD 1 0).sum
  ⟨[size 0, size 1], sheet.placed, percent area (size 0 * size 1), none⟩

end Cutting

/-- The sizes of sheets, the smallest area first. -/
def bySize (sizesMm : List Size) : List Size :=
  sizesMm.insertionSort fun left right => left 0 * left 1 ≤ right 0 * right 1

/-- Those that keep a factory edge are laid first. -/
def edgesFirst (trim : ℚ) (sizes : List Size) (pieces : List Piece) : List Piece :=
  pieces.insertionSort fun left right => !left.keepsEdge trim sizes ≤ !right.keepsEdge trim sizes

def cutSheets (stock : Stock) (sizesMm : List Size) (pieces : List Piece) :
    List Layout × List Unplaced :=
  let sizes := bySize sizesMm
  if sizes = [] then ([], [])
  else
    let laid := (edgesFirst stock.trimMm sizes pieces).foldl (layPiece stock sizesMm sizes) ([], [])
    (laid.1.map fun sheet => sheet.layout stock.trimMm sizes, laid.2)

end Ketchup.Cutting
