/-
**Bars are cut within their length, and never cost more than filling them one by one.**

* `OnBar`: the pieces of a layout lie in turn from the trim on, a kerf between each two, within an
  offered length less both trims;
* `cutLengths_planned`: every layout of `cutLengths` is one, each piece that some length takes is on one
  of them, and together they are no more stock than the bars that are filled one by one.
-/

import Ketchup.Cutting.Bars
import Mathlib.Data.List.Sort

namespace Ketchup.Cutting

/-! ### The longest length -/

theorem longestOf_sorted {sizesMm : List ℚ} (some_ : sizesMm ≠ []) :
    longestOf (sizesMm.insertionSort (· ≤ ·)) ∈ sizesMm.insertionSort (· ≤ ·) ∧
      ∀ length ∈ sizesMm, length ≤ longestOf (sizesMm.insertionSort (· ≤ ·)) := by
  have sorted : (sizesMm.insertionSort (· ≤ ·)).Pairwise (· ≤ ·) := List.pairwise_insertionSort _ _
  have members := fun length : ℚ => (List.mem_insertionSort (· ≤ ·) (l := sizesMm) (x := length)).symm
  simp only [members]
  rcases List.eq_nil_or_concat' (sizesMm.insertionSort (· ≤ ·)) with none_ | ⟨before, last, is⟩
  · have length := List.length_insertionSort (· ≤ ·) sizesMm
    rw [none_] at length
    exact absurd (List.length_eq_zero_iff.mp length.symm) some_
  · rw [is] at sorted ⊢
    have longest : longestOf (before ++ [last]) = last := by simp [longestOf]
    rw [longest]
    refine ⟨by simp, fun length member => ?_⟩
    rcases List.mem_append.mp member with earlier | here
    · exact (List.pairwise_append.mp sorted).2.2 length earlier last (List.mem_singleton_self last)
    · exact (List.mem_singleton.mp here).le

/-- A length of the stock takes the piece. -/
def Piece.FitsSome (stock : Stock) (sizesMm : List ℚ) (piece : Piece) : Prop :=
  ∃ length ∈ sizesMm, piece.size 0 ≤ length - 2 * stock.trimMm + eps

instance (stock : Stock) (sizesMm : List ℚ) (piece : Piece) : Decidable (piece.FitsSome stock sizesMm) :=
  inferInstanceAs (Decidable (∃ length ∈ sizesMm, _))

/-- A piece is too long exactly where no length takes it. -/
theorem tooLong_iff {stock : Stock} {sizesMm : List ℚ} (some_ : sizesMm ≠ []) (piece : Piece) :
    (!tooLong stock.trimMm (longestOf (sizesMm.insertionSort (· ≤ ·))) piece) =
      decide (piece.FitsSome stock sizesMm) := by
  obtain ⟨listed, greatest⟩ := longestOf_sorted some_
  rw [tooLong, ← decide_not, decide_eq_decide, not_lt]
  constructor
  · intro fits
    exact ⟨_, (List.mem_insertionSort _).mp listed, fits⟩
  · rintro ⟨length, member, fits⟩
    have most := greatest length member
    linarith

/-! ### Layouts -/

/-- How long a piece is as it lies. -/
def Placed.lengthMm (placed : Placed) : ℚ := placed.sizeMm.getD 0 0

/-- Pieces lie in turn from a place on, a kerf between each two. -/
def InTurn (kerf : ℚ) : ℚ → List Placed → Prop
  | _, [] => True
  | at_, placed :: rest => placed.atMm = [at_] ∧ InTurn kerf (at_ + placed.lengthMm + kerf) rest

/-- A layout is a bar of an offered length, and its pieces with a kerf between each two neighbours fit
in the length less both trims. -/
structure OnBar (stock : Stock) (sizesMm : List ℚ) (layout : Layout) : Prop where
  inTurn : InTurn stock.kerfMm stock.trimMm layout.pieces
  bar : ∃ length ∈ sizesMm, layout.stockMm = [length] ∧
    load stock.kerfMm (layout.pieces.map Placed.lengthMm) ≤ length - 2 * stock.trimMm + eps

theorem laidFrom_inTurn (kerf at_ : ℚ) (pieces : List Piece) :
    InTurn kerf at_ (laidFrom kerf at_ pieces) := by
  induction pieces generalizing at_ with
  | nil => trivial
  | cons piece rest ih =>
    refine ⟨rfl, ?_⟩
    have later := ih (at_ + (piece.size 0 + kerf))
    rw [← add_assoc] at later
    rw [← add_assoc]
    exact later

/-! ### The plan -/

/-- The bars that are filled one by one. -/
def greedyOnly (stock : Stock) (lengths sizes : List ℚ) : List (List Nat × ℚ) :=
  greedyBars sizes stock.kerfMm stock.trimMm lengths (longestOf lengths) sizes.length
    (List.range sizes.length)

/-- **The bars are packed, and no more stock than those filled one by one.** -/
theorem barsFor_packed {stock : Stock} {lengths sizes : List ℚ} (listed : longestOf lengths ∈ lengths)
    (fits : ∀ size ∈ sizes, size ≤ longestOf lengths - 2 * stock.trimMm + eps) :
    Packed sizes lengths (fun length => length - 2 * stock.trimMm) stock.kerfMm
        (barsFor stock lengths sizes) ∧
      stockTotal (barsFor stock lengths sizes) ≤ stockTotal (greedyOnly stock lengths sizes) := by
  have greedy : Packed sizes lengths (fun length => length - 2 * stock.trimMm) stock.kerfMm
      (greedyOnly stock lengths sizes) := greedyBars_packed listed fits
  have is : barsFor stock lengths sizes =
      (leastStock sizes lengths (fun length => length - 2 * stock.trimMm) stock.kerfMm
        (stockTotal (greedyOnly stock lengths sizes))).getD (greedyOnly stock lengths sizes) := rfl
  rw [is]
  cases found : leastStock _ _ _ _ _ with
  | none => exact ⟨greedy, le_refl _⟩
  | some bars =>
    obtain ⟨packed, less⟩ := leastStock_packed found
    exact ⟨packed, less.le⟩

/-- The pieces of a bar are as long as their sizes say. -/
theorem map_piecesAt (pieces : List Piece) {cut : List Nat} (inside : ∀ index ∈ cut, index < pieces.length) :
    (piecesAt (pieces.map some) cut).map (fun piece => piece.size 0) =
      cut.map (sizeOf (pieces.map fun piece => piece.size 0)) := by
  induction cut with
  | nil => rfl
  | cons index rest ih =>
    have here := inside index (List.mem_cons_self ..)
    have is : (pieces.map some)[index]?.join = some pieces[index] := by
      rw [List.getElem?_map, List.getElem?_eq_getElem here]
      rfl
    rw [piecesAt_some is, List.map_cons, List.map_cons,
      ih fun other member => inside other (List.mem_cons_of_mem _ member)]
    congr 1
    rw [sizeOf, List.getD_eq_getElem?_getD, List.getElem?_map, List.getElem?_eq_getElem here]
    rfl

/-- **Packed bars are laid out** within their lengths, each with its pieces. -/
theorem layBars_onBars {stock : Stock} {lengths : List ℚ} {pieces : List Piece}
    {bars : List (List Nat × ℚ)}
    (packed : Packed (pieces.map fun piece => piece.size 0) lengths
      (fun length => length - 2 * stock.trimMm) stock.kerfMm bars) :
    (∀ layout ∈ layBars stock (pieces.map some) bars, OnBar stock lengths layout) ∧
      ((layBars stock (pieces.map some) bars).flatMap fun layout =>
        layout.pieces.map fun placed => (placed.part, placed.lengthMm)).Perm
          (pieces.map fun piece => (piece.part, piece.size 0)) ∧
      ((layBars stock (pieces.map some) bars).flatMap Layout.stockMm).sum = stockTotal bars := by
  have holds := packed.holds
  rw [List.length_map] at holds
  have laid := layBars_eq stock (pieces.map some) (holds.nodup_iff.mpr List.nodup_range)
  refine ⟨fun layout member => ?_, ?_, ?_⟩
  · have inside : (layout.stockMm, layout.pieces) ∈
        (layBars stock (pieces.map some) bars).map fun layout => (layout.stockMm, layout.pieces) :=
      List.mem_map_of_mem member
    rw [laid] at inside
    obtain ⟨bar, isBar, is⟩ := List.mem_map.mp inside
    obtain ⟨isStock, arePieces⟩ := Prod.mk.inj is
    refine ⟨arePieces ▸ laidFrom_inTurn .., bar.2, packed.offered bar isBar, isStock.symm, ?_⟩
    have within : ∀ index ∈ bar.1, index < pieces.length := fun index held =>
      List.mem_range.mp (holds.subset (List.mem_flatMap.mpr ⟨bar, isBar, held⟩))
    rw [← arePieces, map_laidFrom Placed.lengthMm (fun piece => piece.size 0) (fun _ _ => rfl),
      map_piecesAt pieces within]
    exact packed.fits bar isBar
  · have views := congrArg (List.flatMap fun layout : List ℚ × List Placed =>
      layout.2.map fun placed => (placed.part, placed.lengthMm)) laid
    rw [List.flatMap_map, List.flatMap_map] at views
    have each (bar : List Nat × ℚ) : (laidFrom stock.kerfMm stock.trimMm
        (piecesAt (pieces.map some) bar.1)).map (fun placed => (placed.part, placed.lengthMm)) =
          (piecesAt (pieces.map some) bar.1).map fun piece => (piece.part, piece.size 0) :=
      map_laidFrom _ _ (fun _ _ => rfl) ..
    simp only [each] at views
    rw [views, ← List.map_flatMap, ← piecesAt_held]
    have all := holds.filterMap fun index => (pieces.map some)[index]?.join
    rw [← piecesAt, ← piecesAt, piecesAt_all] at all
    exact all.map _
  · have stocks := congrArg (List.flatMap fun layout : List ℚ × List Placed => layout.1) laid
    rw [List.flatMap_map, List.flatMap_map] at stocks
    rw [stocks]
    exact congrArg List.sum List.map_eq_flatMap.symm

/-- **Bars are cut within their length and never worse than filled one by one.** -/
theorem cutLengths_planned {stock : Stock} {sizesMm : List ℚ} (accepted : stock.Accepted)
    (bars : stock.sizes = .lengths sizesMm) (pieces : List Piece) :
    (∀ layout ∈ (cutLengths stock sizesMm pieces).1, OnBar stock sizesMm layout) ∧
      ((cutLengths stock sizesMm pieces).1.flatMap fun layout =>
        layout.pieces.map fun placed => (placed.part, placed.lengthMm)).Perm
          ((pieces.filter fun piece => piece.FitsSome stock sizesMm).map fun piece =>
            (piece.part, piece.size 0)) ∧
      ((cutLengths stock sizesMm pieces).1.flatMap Layout.stockMm).sum ≤
        stockTotal (greedyOnly stock (sizesMm.insertionSort (· ≤ ·))
          ((pieces.filter fun piece => piece.FitsSome stock sizesMm).map fun piece => piece.size 0)) := by
  have some_ : sizesMm ≠ [] := by
    rintro rfl
    refine accepted.sound.some ?_
    rw [bars]
    rfl
  have kept : (fun piece => !tooLong stock.trimMm (longestOf (sizesMm.insertionSort (· ≤ ·))) piece) =
      fun piece => decide (piece.FitsSome stock sizesMm) := funext (tooLong_iff some_)
  obtain ⟨listed, greatest⟩ := longestOf_sorted some_
  unfold cutLengths
  dsimp only
  rw [kept]
  generalize isLeft : (pieces.filter fun piece => piece.FitsSome stock sizesMm) = left
  have fits : ∀ size ∈ left.map fun piece => piece.size 0,
      size ≤ longestOf (sizesMm.insertionSort (· ≤ ·)) - 2 * stock.trimMm + eps := by
    intro size member
    obtain ⟨piece, inside, rfl⟩ := List.mem_map.mp member
    rw [← isLeft] at inside
    obtain ⟨length, offered, within⟩ := of_decide_eq_true (List.mem_filter.mp inside).2
    have most := greatest length offered
    linarith
  obtain ⟨packed, less⟩ := barsFor_packed listed fits
  obtain ⟨onBars, placed, total⟩ := layBars_onBars packed
  refine ⟨fun layout member => ?_, placed, total.trans_le less⟩
  obtain ⟨inTurn, length, offered, within⟩ := onBars layout member
  exact ⟨inTurn, length, (List.mem_insertionSort _).mp offered, within⟩

def railStock : Stock := ⟨.lengths [5000, 3000], 4, 10, none⟩

def rail (part : String) (length : ℚ) (nonneg : 0 ≤ length) : Piece where
  part := part
  size := ![length, 0]
  size_nonneg := Fin.forall_fin_two.mpr ⟨nonneg, le_refl 0⟩
  turned := none

/-- Two rails of 1500 mm, three of 980 mm and one that is too long. -/
def rails : List Piece :=
  [rail "long" 5000 (by norm_num), rail "top" 1500 (by norm_num), rail "bottom" 1500 (by norm_num),
    rail "left" 980 (by norm_num), rail "middle" 980 (by norm_num), rail "right" 980 (by norm_num)]

theorem railStock_accepted : railStock.Accepted := by
  have kerf : measure 4 "kerf" = .ok 4 := if_neg (by norm_num)
  have trim : measure 10 "trim" = .ok 10 := if_neg (by norm_num)
  have long : railStock.sizes.sides.find? (fun size => size.any fun side => decide (side ≤ 2 * 10)) =
      none := by norm_num [railStock, StockSizes.sides]
  refine ⟨.lengths [5000, 3000], 4, 10, none, ?_⟩
  rw [stockOf, kerf, trim]
  show ((railStock.sizes.sides.find? _).elim (Except.ok ()) _ >>= fun _ => _) = _
  rw [long]
  rfl

theorem rails_planned :
    (∀ layout ∈ (cutLengths railStock [5000, 3000] rails).1, OnBar railStock [5000, 3000] layout) ∧
      ((cutLengths railStock [5000, 3000] rails).1.flatMap fun layout =>
        layout.pieces.map fun placed => (placed.part, placed.lengthMm)).Perm
          ((rails.filter fun piece => piece.FitsSome railStock [5000, 3000]).map fun piece =>
            (piece.part, piece.size 0)) ∧
      ((cutLengths railStock [5000, 3000] rails).1.flatMap Layout.stockMm).sum ≤
        stockTotal (greedyOnly railStock ([5000, 3000].insertionSort (· ≤ ·))
          ((rails.filter fun piece => piece.FitsSome railStock [5000, 3000]).map fun piece =>
            piece.size 0)) :=
  cutLengths_planned railStock_accepted rfl rails

end Ketchup.Cutting
