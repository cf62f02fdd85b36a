/-
**Bars.**

`cutLengths` fills one bar after the other, each the stock length its pieces fill best, and takes
instead what a search of a bounded number of steps finds, where that is less stock (`leastStock`).
-/

import Ketchup.Cutting.Stock

namespace Ketchup.Cutting

/-- A piece to cut: its length, and for sheets its width. -/
structure Piece where
  part : String
  size : Size
  size_nonneg : ∀ axis, 0 ≤ size axis
  /-- Whether it must lie turned, or must not. -/
  turned : Option Bool

/-- A piece laid on its bar or sheet: where it starts, and how far it goes. -/
structure Placed where
  part : String
  atMm : List ℚ
  sizeMm : List ℚ
  turned : Bool

/-- One bar or sheet and what is cut from it. -/
structure Layout where
  stockMm : List ℚ
  pieces : List Placed
  usedPercent : ℚ
  offcutMm : Option ℚ

/-- Why a part is not laid out. -/
inductive Reason
  | throughThickness (name : String)
  | moreThanPlanned
  | longerThanStock (length longest : ℚ)
  | fitsNoSheet (length width : ℚ) (sizes : List Size) (laidAlong : Option String)

structure Unplaced where
  part : String
  reason : Reason

def percent (part whole : ℚ) : ℚ :=
  if whole ≤ 0 then 0 else roundAway (part / whole * 1000) / 10

/-- A measure as a key: thousandths, as far as an `i64` goes. -/
def key (value : ℚ) : ℤ := max (-2 ^ 63) (min (2 ^ 63 - 1) (roundAway (value * 1000)))

/-! ### Filling bars -/

section Filling

variable (sizes : List ℚ) (kerf : ℚ)

def sizeOf (index : Nat) : ℚ := sizes.getD index 0

/-- One more piece on a bar, if there is room. -/
def fillNext (room : ℚ) (filled : ℚ × List Nat) (index : Nat) : ℚ × List Nat :=
  let needs := filled.1 + kerf + sizeOf sizes index
  if needs ≤ room + eps then (needs, filled.2 ++ [index]) else filled

/-- The pieces a bar takes: the first, then each next that still fits. -/
def fill (room : ℚ) : List Nat → List Nat
  | [] => []
  | first :: rest => (rest.foldl (fillNext sizes kerf room) (sizeOf sizes first, [first])).2

/-- How much of a bar is filled. -/
def filled (bar : List Nat × ℚ) : ℚ := (bar.1.map (sizeOf sizes)).sum / bar.2

/-- The bar the pieces left fill best, the longer of two they fill alike. -/
def nextBar (trim : ℚ) (lengths : List ℚ) (longest : ℚ) (first : Nat) (open_ : List Nat) :
    List Nat × ℚ :=
  let usable (length : ℚ) := length - 2 * trim
  let offered := lengths.filter fun length => decide (sizeOf sizes first ≤ usable length + eps)
  let bars := offered.map fun length => (fill sizes kerf (usable length) open_, length)
  let atMost (bar other : List Nat × ℚ) : Bool :=
    decide (filled sizes bar < filled sizes other) ||
      decide (filled sizes bar = filled sizes other) && decide (bar.2 ≤ other.2)
  (maxBy atMost bars).getD ([first], longest)

/-- Bars for the pieces left, at most as many as there is fuel. -/
def greedyBars (trim : ℚ) (lengths : List ℚ) (longest : ℚ) : Nat → List Nat → List (List Nat × ℚ)
  | 0, _ => []
  | _, [] => []
  | fuel + 1, first :: rest =>
    let bar := nextBar sizes kerf trim lengths longest first (first :: rest)
    bar :: greedyBars trim lengths longest fuel ((first :: rest).filter fun index => index ∉ bar.1)

end Filling

/-! ### The search for the least stock -/

def searchedPieces : Nat := 48

def searchSteps : Nat := 200000

/-- A bar in the search: its pieces, which length it is, and how much of it is taken. -/
structure OpenBar where
  pieces : List Nat
  length : Nat
  taken : ℚ

/-- What the search has found so far. -/
structure Found where
  best : Option (List (List Nat × ℚ))
  bestTotal : ℚ
  steps : Nat

section Search

variable (lengths : List ℚ) (room : List ℚ) (kerf : ℚ)

/-- Places the pieces that remain, from `index` on, on bars that are open or on new ones. -/
def place : List ℚ → Nat → List OpenBar → ℚ → Found → Found
  | remaining, index, bars, total, before =>
    let found := { before with steps := before.steps + 1 }
    if searchSteps < found.steps then found
    else
      match remaining with
      | [] =>
        if total < found.bestTotal - eps then
          { found with
            best := some (bars.map fun bar => (bar.pieces, lengths.getD bar.length 0))
            bestTotal := total }
        else found
      | size :: later =>
        -- every new bar is at least as long as the pieces it takes
        let free := (bars.map fun bar => room.getD bar.length 0 - bar.taken).sum
        if found.bestTotal - eps ≤ total + max ((size :: later).sum - free) 0 then found
        else
          let onBars := bars.zipIdx.foldl (fun (so : Found × List (Nat × ℤ)) bar =>
            let needs := bar.1.taken + kerf + size
            let state := (bar.1.length, key bar.1.taken)
            if room.getD bar.1.length 0 + eps < needs ∨ state ∈ so.2 then so
            else
              let longer : OpenBar := ⟨bar.1.pieces ++ [index], bar.1.length, needs⟩
              (place later (index + 1) (bars.set bar.2 longer) total so.1, so.2 ++ [state]))
            (found, [])
          lengths.zipIdx.foldl (fun so length =>
            if size ≤ room.getD length.2 0 + eps then
              place later (index + 1) (bars ++ [⟨[index], length.2, size⟩]) (total + length.1) so
            else so) onBars.1

end Search

/-- Bars of less stock than `bound` that hold all pieces, if the search finds any. -/
def leastStock (sizes lengths : List ℚ) (usable : ℚ → ℚ) (kerf bound : ℚ) :
    Option (List (List Nat × ℚ)) :=
  if sizes = [] ∨ searchedPieces < sizes.length then none
  else (place lengths (lengths.map usable) kerf sizes 0 [] 0 ⟨none, bound, 0⟩).best

/-! ### Laying bars -/

/-- The pieces of a bar in turn, from `at_` on, with the pieces that are left and where the bar ends.
A piece is taken once. -/
def layPieces (kerf : ℚ) : List (Option Piece) → ℚ → List Nat →
    List Placed × List (Option Piece) × ℚ
  | left, at_, [] => ([], left, at_)
  | left, at_, index :: cut =>
    match left[index]?.join with
    | none => layPieces kerf left at_ cut
    | some piece =>
      let laid := layPieces kerf (left.set index none) (at_ + (piece.size 0 + kerf)) cut
      (⟨piece.part, [at_], [piece.size 0], false⟩ :: laid.1, laid.2)

def layBars (stock : Stock) : List (Option Piece) → List (List Nat × ℚ) → List Layout
  | _, [] => []
  | left, (cut, length) :: bars =>
    let laid := layPieces stock.kerfMm left stock.trimMm cut
    let pieces := (laid.1.map fun piece => piece.sizeMm.getD 0 0).sum
    ⟨[length], laid.1, percent pieces length,
      some (roundAway (max (length - stock.trimMm - laid.2.2) 0 * 10) / 10)⟩ ::
        layBars stock laid.2.1 bars

/-- The longest stock length, of those in order. -/
def longestOf (lengths : List ℚ) : ℚ := lengths.getLast?.getD 0

def tooLong (trim longest : ℚ) (piece : Piece) : Bool :=
  decide (longest - 2 * trim + eps < piece.size 0)

/-- Each bar the stock length its pieces fill best; then the least stock a bounded search finds, when
that is less. -/
def barsFor (stock : Stock) (lengths sizes : List ℚ) : List (List Nat × ℚ) :=
  let usable (length : ℚ) := length - 2 * stock.trimMm
  let greedy := greedyBars sizes stock.kerfMm stock.trimMm lengths (longestOf lengths) sizes.length
    (List.range sizes.length)
  let bound := (greedy.map Prod.snd).sum
  (leastStock sizes lengths usable stock.kerfMm bound).getD greedy

def cutLengths (stock : Stock) (sizesMm : List ℚ) (pieces : List Piece) :
    List Layout × List Unplaced :=
  let lengths := sizesMm.insertionSort (· ≤ ·)
  let longest := longestOf lengths
  let left := pieces.filter fun piece => !tooLong stock.trimMm longest piece
  let unplaced := (pieces.filter (tooLong stock.trimMm longest)).map fun piece =>
    ⟨piece.part, .longerThanStock (piece.size 0) longest⟩
  (layBars stock (left.map some) (barsFor stock lengths (left.map fun piece => piece.size 0)), unplaced)

end Ketchup.Cutting
