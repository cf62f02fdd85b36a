/-
**What laying a piece does.**

`layPiece_cases` says all that one step of `cutSheets` can do: the piece goes into the room of a free
rectangle, on a sheet that was open or on a new one, or it is listed as not placed.
-/

import Ketchup.Cutting.Sheets

namespace Ketchup.Cutting

variable {kerf trim : ℚ} {piece : Piece} {sheets : List Sheet}

/-- The room a piece goes into, and that it fits. -/
structure FitsAt (kerf trim : ℚ) (piece : Piece) (sheet : Sheet) (free : Free) (fit : Fit) : Prop where
  turns : fit.turned ∈ piece.orientations
  room : Free.room kerf trim free sheet.size (piece.spans trim sheet.size fit.turned) = some fit.room
  fits : ∀ axis, piece.footprint kerf fit.turned axis ≤ (fit.room axis).length + eps
  short : fit.shortLeft = min ((fit.room 0).length - piece.footprint kerf fit.turned 0)
    ((fit.room 1).length - piece.footprint kerf fit.turned 1)

theorem fitIn_some {sheet : Sheet} {s f : Nat} {free : Free} {turned : Bool} {fit : Fit}
    (turns : turned ∈ piece.orientations)
    (is : piece.fitIn kerf trim sheet s f free turned = some fit) :
    fit.sheet = s ∧ fit.free = f ∧ FitsAt kerf trim piece sheet free fit := by
  unfold Piece.fitIn at is
  obtain ⟨room, isRoom, is⟩ := Option.bind_eq_some_iff.mp is
  dsimp only at is
  split at is
  case isTrue small =>
    obtain rfl := Option.some.inj is
    exact ⟨rfl, rfl, turns, isRoom, Fin.forall_fin_two.mpr small, rfl⟩
  case isFalse => cases is

/-- Every place found for a piece is one on a sheet. -/
theorem mem_fits {fit : Fit} (member : fit ∈ piece.fits kerf trim sheets) :
    ∃ sheet free, sheets[fit.sheet]? = some sheet ∧ sheet.free[fit.free]? = some free ∧
      FitsAt kerf trim piece sheet free fit := by
  obtain ⟨sheet, isSheet, member⟩ := List.mem_flatMap.mp member
  obtain ⟨free, isFree, member⟩ := List.mem_flatMap.mp member
  obtain ⟨turned, turns, is⟩ := List.mem_filterMap.mp member
  obtain ⟨s, f, fits⟩ := fitIn_some turns is
  refine ⟨sheet.1, free.1, ?_, ?_, fits⟩
  · rw [s]
    exact List.mem_zipIdx_iff_getElem?.mp isSheet
  · rw [f]
    exact List.mem_zipIdx_iff_getElem?.mp isFree

theorem takeBetter_mem {fits : List Fit} {best : Option Fit} {fit : Fit}
    (is : fits.foldl takeBetter best = some fit) : fit ∈ fits ∨ best = some fit := by
  induction fits generalizing best with
  | nil => exact .inr is
  | cons next rest ih =>
    rcases ih is with later | here
    · exact .inl (List.mem_cons_of_mem _ later)
    · unfold takeBetter at here
      cases best with
      | none => exact .inl (Option.some.inj here ▸ List.mem_cons_self ..)
      | some other =>
        dsimp only at here
        split at here
        · exact .inl (Option.some.inj here ▸ List.mem_cons_self ..)
        · exact .inr here

theorem consider_mem {fit : Fit} (is : piece.consider kerf trim sheets = some fit) :
    fit ∈ piece.fits kerf trim sheets :=
  (takeBetter_mem is).resolve_right nofun

/-- A piece goes on the sheets that are open, or on one of its openings. -/
theorem find_some {sizes : List Size} {found : List Sheet} {fit : Fit}
    (is : piece.find kerf trim sizes sheets = some (found, fit)) :
    (found = sheets ∨ ∃ opening ∈ piece.openings trim sizes,
        found = sheets ++ [fresh kerf trim opening.1 opening.2]) ∧
      fit ∈ piece.fits kerf trim found := by
  unfold Piece.find at is
  split at is
  case h_1 best isBest =>
    cases is
    exact ⟨.inl rfl, consider_mem isBest⟩
  case h_2 =>
    obtain ⟨opening, member, is⟩ := List.exists_of_findSome?_eq_some is
    obtain ⟨best, isBest, is⟩ := Option.map_eq_some_iff.mp is
    cases is
    exact ⟨.inr ⟨opening, member, rfl⟩, consider_mem isBest⟩

/-- What is known of the sheet a piece was laid on. -/
structure Laid (stock : Stock) (sizes : List Size) (piece : Piece) (sheets : List Sheet)
    (found : List Sheet) (fit : Fit) (sheet : Sheet) (free : Free) : Prop where
  opened : found = sheets ∨ ∃ opening ∈ piece.openings stock.trimMm sizes,
    found = sheets ++ [fresh stock.kerfMm stock.trimMm opening.1 opening.2]
  isSheet : found[fit.sheet]? = some sheet
  isFree : sheet.free[fit.free]? = some free
  fits : FitsAt stock.kerfMm stock.trimMm piece sheet free fit

/-- **What laying a piece can do.** -/
theorem layPiece_cases (stock : Stock) (given sizes : List Size) (sheets : List Sheet)
    (unplaced : List Unplaced) (piece : Piece) :
    (∃ found fit sheet free, Laid stock sizes piece sheets found fit sheet free ∧
        layPiece stock given sizes (sheets, unplaced) piece =
          (found.modify fit.sheet (piece.layOn stock.kerfMm fit), unplaced)) ∨
      ∃ reason, layPiece stock given sizes (sheets, unplaced) piece =
        (sheets, unplaced ++ [⟨piece.part, reason⟩]) := by
  unfold layPiece
  cases is : piece.find stock.kerfMm stock.trimMm sizes sheets with
  | none => exact .inr ⟨_, rfl⟩
  | some found =>
    obtain ⟨opened, member⟩ := find_some is
    obtain ⟨sheet, free, isSheet, isFree, fits⟩ := mem_fits member
    exact .inl ⟨found.1, found.2, sheet, free, ⟨opened, isSheet, isFree, fits⟩, rfl⟩

end Ketchup.Cutting
