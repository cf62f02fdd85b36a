/-
**Every part instance is in a plan once.**

Bars hold every piece once, and each is laid once; so are the pieces of sheets. `plans_keep_parts` puts
this together for the groups that `plans` makes.
-/

import Ketchup.Cutting.Bars
import Ketchup.Cutting.Plans
import Ketchup.Cutting.Laying

namespace Ketchup.Cutting

/-- The parts a layout cuts. -/
def Layout.parts (layout : Layout) : List String := layout.pieces.map Placed.part

def partsOf (cut : List Layout × List Unplaced) : List String :=
  cut.1.flatMap Layout.parts ++ cut.2.map Unplaced.part

/-- The parts of a plan: those laid out, and those that are not. -/
def CuttingPlan.parts (plan : CuttingPlan) : List String := partsOf (plan.layouts, plan.unplaced)

/-! ### Bars -/

section Bars

/-- **Bars that hold pieces once** lay each once. -/
theorem layBars_parts {stock : Stock} {left : List (Option Piece)} {bars : List (List Nat × ℚ)}
    (distinct : (held bars).Nodup) :
    (layBars stock left bars).flatMap Layout.parts = (piecesAt left (held bars)).map Piece.part := by
  have each (bar : List Nat × ℚ) : (laidFrom stock.kerfMm stock.trimMm (piecesAt left bar.1)).map
      Placed.part = (piecesAt left bar.1).map Piece.part :=
    map_laidFrom Placed.part Piece.part (fun _ _ => rfl) ..
  have laid := congrArg (List.flatMap fun layout : List ℚ × List Placed => layout.2.map Placed.part)
    (layBars_eq stock left distinct)
  rw [List.flatMap_map, List.flatMap_map] at laid
  simp only [each] at laid
  rw [piecesAt_held, List.map_flatMap]
  exact laid

theorem held_barsFor (stock : Stock) (lengths sizes : List ℚ) :
    (held (barsFor stock lengths sizes)).Perm (List.range sizes.length) := by
  unfold barsFor
  dsimp only
  cases is : leastStock _ _ _ _ _ with
  | none => exact held_greedyBars List.length_range.le List.nodup_range
  | some bars => exact (leastStock_packed is).1.holds

/-- **Bars lose no piece** and cut none twice. -/
theorem cutLengths_parts (stock : Stock) (sizesMm : List ℚ) (pieces : List Piece) :
    (partsOf (cutLengths stock sizesMm pieces)).Perm (pieces.map Piece.part) := by
  unfold cutLengths partsOf
  dsimp only
  generalize isLong : tooLong stock.trimMm (longestOf (sizesMm.insertionSort (· ≤ ·))) = long
  generalize isLeft : (pieces.filter fun piece => !long piece) = left
  have bars := held_barsFor stock (sizesMm.insertionSort (· ≤ ·)) (left.map fun piece => piece.size 0)
  rw [List.length_map] at bars
  rw [layBars_parts (bars.nodup_iff.mpr List.nodup_range)]
  have laid := (bars.filterMap fun index => (left.map some)[index]?.join).map Piece.part
  rw [← piecesAt, ← piecesAt, piecesAt_all] at laid
  have rest : (left ++ pieces.filter long).Perm pieces := by
    rw [← isLeft]
    exact List.perm_append_comm.trans (List.filter_append_perm long pieces)
  have parts := rest.map Piece.part
  rw [List.map_append] at parts
  rw [List.map_map]
  exact (laid.append_right _).trans parts

end Bars

/-! ### Sheets -/

section Sheets

/-- The parts that sheets hold. -/
def onSheets (sheets : List Sheet) : List String :=
  sheets.flatMap fun sheet => sheet.placed.map Placed.part

variable (stock : Stock) (given sizes : List Size)

theorem layPiece_parts (so : List Sheet × List Unplaced) (piece : Piece) :
    (onSheets (layPiece stock given sizes so piece).1 ++
        (layPiece stock given sizes so piece).2.map Unplaced.part).Perm
      (onSheets so.1 ++ so.2.map Unplaced.part ++ [piece.part]) := by
  obtain ⟨sheets, unplaced⟩ := so
  rcases layPiece_cases stock given sizes sheets unplaced piece with
    ⟨found, fit, sheet, free, laid, is⟩ | ⟨reason, is⟩
  · rw [is]
    have opened : onSheets found = onSheets sheets := by
      rcases laid.opened with rfl | ⟨opening, _, rfl⟩
      · rfl
      · unfold onSheets
        rw [List.flatMap_append]
        exact List.append_nil _
    have more : (piece.layOn stock.kerfMm fit sheet).placed.map Placed.part =
        sheet.placed.map Placed.part ++ [piece.part] := List.map_append
    have changed : found.modify fit.sheet (piece.layOn stock.kerfMm fit) =
        found.set fit.sheet (piece.layOn stock.kerfMm fit sheet) := by
      rw [List.modify_eq_set_getElem?, laid.isSheet]
      rfl
    have perm : (onSheets (found.set fit.sheet (piece.layOn stock.kerfMm fit sheet))).Perm
        (onSheets found ++ [piece.part]) := perm_flatMap_set laid.isSheet more
    rw [changed]
    rw [opened] at perm
    refine (perm.append_right _).trans ?_
    rw [List.append_assoc, List.append_assoc, List.perm_append_left_iff]
    exact List.perm_append_comm
  · rw [is, List.map_append, List.append_assoc]
    exact List.Perm.refl _

theorem foldl_layPiece_parts (pieces : List Piece) (so : List Sheet × List Unplaced) :
    (onSheets (pieces.foldl (layPiece stock given sizes) so).1 ++
        (pieces.foldl (layPiece stock given sizes) so).2.map Unplaced.part).Perm
      (onSheets so.1 ++ so.2.map Unplaced.part ++ pieces.map Piece.part) := by
  induction pieces generalizing so with
  | nil =>
    rw [List.map_nil, List.append_nil]
    exact List.Perm.refl _
  | cons piece rest ih =>
    rw [List.foldl_cons, List.map_cons, ← List.singleton_append, ← List.append_assoc]
    exact (ih _).trans ((layPiece_parts stock given sizes so piece).append_right _)

/-- **Sheets lose no piece** and cut none twice. -/
theorem cutSheets_parts {sizesMm : List Size} (some_ : sizesMm ≠ [])
    (pieces : List Piece) :
    (partsOf (cutSheets stock sizesMm pieces)).Perm (pieces.map Piece.part) := by
  have sorted : bySize sizesMm ≠ [] := fun none_ => by
    have perm : (bySize sizesMm).Perm sizesMm := List.perm_insertionSort _ sizesMm
    rw [none_] at perm
    exact some_ perm.nil_eq.symm
  unfold cutSheets
  dsimp only
  rw [if_neg sorted]
  generalize isLaid : (edgesFirst stock.trimMm (bySize sizesMm) pieces).foldl
    (layPiece stock sizesMm (bySize sizesMm)) ([], []) = laid
  have perm := foldl_layPiece_parts stock sizesMm (bySize sizesMm)
    (edgesFirst stock.trimMm (bySize sizesMm) pieces) ([], [])
  rw [isLaid] at perm
  have layouts : (laid.1.map fun sheet => sheet.layout stock.trimMm (bySize sizesMm)).flatMap
      Layout.parts = onSheets laid.1 := by
    rw [List.flatMap_map]
    rfl
  unfold partsOf
  rw [layouts]
  exact perm.trans ((List.perm_insertionSort _ pieces).map Piece.part)

end Sheets

/-! ### Plans -/

/-- A stock that has some size. -/
def Stock.Offered (stock : Stock) : Prop := stock.sizes.sides ≠ []

theorem cutStock_parts {stock : Stock} (offered : stock.Offered) (pieces : List Piece) :
    (partsOf (cutStock stock pieces)).Perm (pieces.map Piece.part) := by
  unfold cutStock
  cases is : stock.sizes with
  | lengths sizesMm => exact cutLengths_parts stock sizesMm pieces
  | sheets sizesMm =>
    refine cutSheets_parts stock (fun none_ => offered ?_) pieces
    rw [is, none_]
    rfl

/-- Even of a stock without sizes no other part is cut. -/
theorem cutStock_only {stock : Stock} {pieces : List Piece} {name : String}
    (member : name ∈ partsOf (cutStock stock pieces)) : name ∈ pieces.map Piece.part := by
  by_cases offered : stock.Offered
  · exact (cutStock_parts offered pieces).mem_iff.mp member
  · unfold cutStock at member
    cases is : stock.sizes with
    | lengths sizesMm =>
      rw [is] at member
      exact (cutLengths_parts stock sizesMm pieces).mem_iff.mp member
    | sheets sizesMm =>
      rw [is] at member
      by_cases none_ : sizesMm = []
      · rw [none_] at member
        exact absurd member (List.not_mem_nil)
      · exact (cutSheets_parts stock none_ pieces).mem_iff.mp member

def Group.parts (group : Group) : List String :=
  group.pieces.map Piece.part ++ group.unplaced.map Unplaced.part

section Groups

variable {material : String} {stock : Stock} {group : Group}

/-- What a plan cuts and what it does not, of the pieces in the order they are cut. -/
theorem planOf_perm (material : String) (stock : Stock) (group : Group) : ∃ sorted : List Piece, sorted.Perm group.pieces ∧
    (planOf material stock group).parts.Perm
      (partsOf (cutStock stock (sorted.take maxPieces)) ++ (sorted.drop maxPieces).map Piece.part ++
        group.unplaced.map Unplaced.part) := by
  refine ⟨_, List.perm_insertionSort (fun left right => left.atMost right = true) group.pieces, ?_⟩
  refine List.perm_iff_count.mpr fun name => ?_
  unfold CuttingPlan.parts planOf partsOf
  have extra : Unplaced.part ∘ (fun piece : Piece => ⟨piece.part, .moreThanPlanned⟩) = Piece.part := rfl
  simp only [List.map_append, List.map_map, List.count_append, extra]
  omega

/-- **The plan of a group** has each of its parts once. -/
theorem planOf_parts (offered : stock.Offered) :
    (planOf material stock group).parts.Perm group.parts := by
  obtain ⟨sorted, perm, plan⟩ := planOf_perm material stock group
  refine plan.trans (List.Perm.append_right _ ?_)
  refine ((cutStock_parts offered _).append_right _).trans ?_
  rw [← List.map_append, List.take_append_drop]
  exact perm.map Piece.part

theorem planOf_only {name : String} (member : name ∈ (planOf material stock group).parts) :
    name ∈ group.parts := by
  obtain ⟨sorted, perm, plan⟩ := planOf_perm material stock group
  have sub : ∀ part ∈ sorted.map Piece.part, part ∈ group.pieces.map Piece.part := fun part =>
    (perm.map Piece.part).mem_iff.mp
  unfold Group.parts
  rw [List.mem_append]
  rcases List.mem_append.mp (plan.mem_iff.mp member) with cut | unplaced
  · refine .inl (sub name ?_)
    rw [← List.take_append_drop maxPieces sorted, List.map_append]
    exact List.mem_append.mpr ((List.mem_append.mp cut).imp cutStock_only id)
  · exact .inr unplaced

end Groups

/-! ### Groups -/

section Gathering

variable {model : ProgramModel} {byName : BTreeMap String Part}

/-- The parts of all groups. -/
def groupParts (groups : Groups) : List String := groups.toList.flatMap fun group => group.2.parts

/-- Each part in a group is one of its material, which has stock. -/
def Gathered (model : ProgramModel) (byName : BTreeMap String Part) (groups : Groups) : Prop :=
  ∀ (groupKey : GroupKey) (group : Group), groups[groupKey]? = some group →
    ∀ name ∈ group.parts, ∃ part stock,
      model.stocked byName name = some (part, groupKey.material, stock)

theorem Group.add_parts (group : Group) (part : Part) (stock : Stock) :
    (group.add part stock).parts.Perm (group.parts ++ [part.name]) := by
  refine List.perm_iff_count.mpr fun name => ?_
  unfold Group.parts Group.add
  have named (turned : Option Bool) : (pieceOf part stock turned).part = part.name := rfl
  cases grainOf part stock _ <;>
    simp only [List.map_append, List.map_cons, List.map_nil, List.count_append, named] <;> omega

/-- The parts of a group that is there, or of a new one. -/
theorem addStocked_parts {groups : Groups} {part : Part} {material : String} {stock : Stock}
    (gathered : Gathered model byName groups)
    (is : model.stocked byName part.name = some (part, material, stock)) :
    Gathered model byName (addStocked groups part material stock) ∧
      (groupParts (addStocked groups part material stock)).Perm (groupParts groups ++ [part.name]) := by
  unfold addStocked
  dsimp only
  generalize isKey : (⟨material, (sectionOf part stock).map key⟩ : GroupKey) = groupKey
  have ofMaterial : groupKey.material = material := by rw [← isKey]
  generalize isGroup : groups[groupKey]?.getD ⟨sectionOf part stock, [], []⟩ = group
  have more := group.add_parts part stock
  have before : ∀ name ∈ group.parts, ∃ part stock,
      model.stocked byName name = some (part, groupKey.material, stock) := by
    cases found : groups[groupKey]? with
    | none =>
      rw [found] at isGroup
      rw [← isGroup]
      exact nofun
    | some old =>
      rw [found] at isGroup
      exact isGroup ▸ gathered groupKey old found
  constructor
  · intro other held found name member
    rw [BTreeMap.getElem?_insert] at found
    split at found
    case isTrue same =>
      obtain rfl := same
      obtain rfl := Option.some.inj found
      rcases List.mem_append.mp (more.mem_iff.mp member) with earlier | new
      · exact before name earlier
      · rw [List.mem_singleton.mp new, ofMaterial]
        exact ⟨part, stock, is⟩
    case isFalse => exact gathered other held found name member
  · unfold groupParts
    refine ((BTreeMap.toList_insert groups groupKey _).flatMap_right _).trans ?_
    rw [List.flatMap_cons]
    have old : (group.parts ++ (groups.erase groupKey).toList.flatMap fun group => group.2.parts).Perm
        (groups.toList.flatMap fun group => group.2.parts) := by
      cases found : groups[groupKey]? with
      | none =>
        rw [found] at isGroup
        rw [← isGroup, BTreeMap.erase_absent found]
        exact List.Perm.refl _
      | some old =>
        rw [found] at isGroup
        obtain rfl : old = group := isGroup
        exact ((BTreeMap.toList_of_getElem? found).flatMap_right fun group => group.2.parts).symm
    refine ((more.append_right _).trans ?_).trans (old.append_right _)
    rw [List.append_assoc, List.append_assoc, List.perm_append_left_iff]
    exact List.perm_append_comm

theorem stocked_some {name : String} {part : Part} {material : String} {stock : Stock}
    (is : model.stocked byName name = some (part, material, stock)) :
    byName[name]? = some part ∧ model.stock[material]? = some stock := by
  obtain ⟨found, isPart, is⟩ := Option.bind_eq_some_iff.mp is
  obtain ⟨held, isMaterial, is⟩ := Option.bind_eq_some_iff.mp is
  obtain ⟨offered, isStock, is⟩ := Option.bind_eq_some_iff.mp is
  cases is
  exact ⟨isPart, isStock⟩

/-- The part of a name has it. -/
theorem partsByName_name {name : String} {part : Part}
    (found : model.partsByName[name]? = some part) : part.name = name := by
  have named : ∀ (name : String) (part : Part),
      model.partsByName[name]? = some part → part.name = name := by
    unfold ProgramModel.partsByName
    refine List.foldlRecOn (motive := fun byName : BTreeMap String Part =>
      ∀ (name : String) (part : Part), byName[name]? = some part → part.name = name) _ _ ?_
      fun byName named next _ name part found => ?_
    · intro name part found
      rw [Std.ExtTreeMap.getElem?_empty] at found
      cases found
    · rw [BTreeMap.getElem?_insert] at found
      split at found
      case isTrue same => rw [← Option.some.inj found, same]
      case isFalse => exact named name part found
  exact named name part found

def ProgramModel.isStocked (model : ProgramModel) (name : String) : Bool :=
  (model.stocked model.partsByName name).isSome

/-- **The groups have each part with stock**, as often as it is named. -/
theorem foldl_addPart_parts (names : List String) {groups : Groups}
    (gathered : Gathered model model.partsByName groups) :
    Gathered model model.partsByName (names.foldl (addPart model model.partsByName) groups) ∧
      (groupParts (names.foldl (addPart model model.partsByName) groups)).Perm
        (groupParts groups ++ names.filter model.isStocked) := by
  induction names generalizing groups with
  | nil => exact ⟨gathered, by rw [List.filter_nil, List.append_nil]; exact List.Perm.refl _⟩
  | cons name rest ih =>
    rw [List.foldl_cons]
    cases is : model.stocked model.partsByName name with
    | none =>
      have same : addPart model model.partsByName groups name = groups := by
        unfold addPart
        rw [is]
      have unstocked : ¬model.isStocked name = true := by
        unfold ProgramModel.isStocked
        rw [is]
        exact Bool.noConfusion
      rw [same, List.filter_cons_of_neg unstocked]
      exact ih gathered
    | some found =>
      obtain ⟨part, material, stock⟩ := found
      have added : addPart model model.partsByName groups name =
          addStocked groups part material stock := by
        unfold addPart
        rw [is]
      have named := partsByName_name (stocked_some is).1
      have stocked : model.isStocked name = true := by
        unfold ProgramModel.isStocked
        rw [is]
        rfl
      obtain ⟨held, more⟩ := addStocked_parts gathered (named.symm ▸ is)
      obtain ⟨gathered, perm⟩ := ih held
      rw [added, List.filter_cons_of_pos stocked]
      refine ⟨gathered, perm.trans ((more.append_right _).trans ?_)⟩
      rw [named, List.append_assoc]
      exact List.Perm.refl _

/-- A stock exists for the part of a name. -/
def ProgramModel.HasStock (model : ProgramModel) (name : String) : Prop :=
  ∃ part material stock, model.stocked model.partsByName name = some (part, material, stock) ∧
    stock.Offered

/-- **Nothing is lost or cut twice.** A part that a stock exists for is in the plans, as a piece of a
layout or as one that is not laid out, exactly as often as it is named. -/
theorem plans_keep_parts (model : ProgramModel) (names : List String) {name : String}
    (stocked : model.HasStock name) :
    ((plans model names).flatMap CuttingPlan.parts).count name = names.count name := by
  obtain ⟨part, material, stock, is, offered⟩ := stocked
  have empty : Gathered model model.partsByName ∅ := fun _ _ found => by
    rw [Std.ExtTreeMap.getElem?_empty] at found
    cases found
  obtain ⟨gathered, perm⟩ := foldl_addPart_parts names empty
  unfold plans
  dsimp only
  generalize names.foldl (addPart model model.partsByName) ∅ = groups at gathered perm
  have each : ∀ group ∈ groups.toList,
      (((model.stock[group.1.material]?).map fun stock =>
        planOf group.1.material stock group.2).elim [] CuttingPlan.parts).count name =
          group.2.parts.count name := by
    intro group member
    have found := Std.ExtTreeMap.mem_toList_iff_getElem?_eq_some.mp
      (show (group.1, group.2) ∈ groups.toList from member)
    by_cases inside : name ∈ group.2.parts
    · obtain ⟨_, held, same⟩ := gathered group.1 group.2 found name inside
      obtain ⟨_, isMaterial, isStock⟩ : _ ∧ material = group.1.material ∧ stock = held := by
        simpa using is.symm.trans same
      rw [← isMaterial, (stocked_some is).2]
      exact (planOf_parts offered).count_eq name
    · rw [List.count_eq_zero.mpr inside, List.count_eq_zero]
      cases model.stock[group.1.material]? with
      | none => exact List.not_mem_nil
      | some held => exact fun member => inside (planOf_only member)
  have listed : (names.filter model.isStocked).count name = names.count name := by
    refine List.count_filter ?_
    unfold ProgramModel.isStocked
    rw [is]
    rfl
  have none_ : groupParts ∅ = [] := by
    unfold groupParts
    rw [BTreeMap.toList_empty]
    rfl
  rw [none_, List.nil_append] at perm
  rw [flatMap_filterMap, List.count_flatMap, ← listed, ← perm.count_eq name]
  unfold groupParts
  rw [List.count_flatMap]
  exact congrArg List.sum (List.map_congr_left each)

end Gathering

/-- A shelf of 600 by 300, 18 thick. -/
def shelf : Part where
  name := "shelf"
  material := some "OSB"
  attributes := ∅
  blankSizeAlong _ := ![600, 300, 18]
  blankSize_nonneg _ := by decide

def boards : Stock := ⟨.sheets [![2500, 1250]], 4, 10, none⟩

def shelves : ProgramModel := ⟨[shelf], (∅ : BTreeMap String Stock).insert "OSB" boards⟩

theorem shelves_stocked : shelves.HasStock "shelf" := by
  have part : shelves.partsByName["shelf"]? = some shelf := by
    show ((∅ : BTreeMap String Part).insert "shelf" shelf)["shelf"]? = _
    rw [BTreeMap.getElem?_insert, if_pos rfl]
  have stock : shelves.stock["OSB"]? = some boards := by
    show ((∅ : BTreeMap String Stock).insert "OSB" boards)["OSB"]? = _
    rw [BTreeMap.getElem?_insert, if_pos rfl]
  refine ⟨shelf, "OSB", boards, ?_, nofun⟩
  unfold ProgramModel.stocked
  rw [part]
  show (do let stock ← shelves.stock["OSB"]?; some (shelf, "OSB", stock)) = _
  rw [stock]
  rfl

/-- Three shelves are cut three times. -/
theorem three_shelves_planned :
    ((plans shelves ["shelf", "shelf", "shelf"]).flatMap CuttingPlan.parts).count "shelf" = 3 :=
  (plans_keep_parts shelves ["shelf", "shelf", "shelf"] shelves_stocked).trans (by decide)

end Ketchup.Cutting
