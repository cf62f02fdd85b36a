/-
**Rectangles under a stretch along an axis.**

What a sketch draws is compared by its coordinates only, so a strictly increasing map of the coordinates
along each axis takes the corners found to the corners found (`rectangleOf_mapAxes`). Resizing such a
rectangle is a map of this kind on the coordinates it has (`rectangleOf_resized`).
-/

import Ketchup.Product.ParameterReadBack

namespace Ketchup.Product

/-- A map of the coordinates along each axis. -/
def Vec2.mapAxes (scale : Axis → ℚ → ℚ) (point : Vec2 ℚ) : Vec2 ℚ := ⟨scale .x point.x, scale .y point.y⟩

@[simp] theorem Vec2.get_mapAxes (scale : Axis → ℚ → ℚ) (point : Vec2 ℚ) (axis : Axis) :
    (point.mapAxes scale).get axis = scale axis (point.get axis) := by
  cases axis with
  | _ => rfl

def mapEnds (map : Vec2 ℚ → Vec2 ℚ) (line : Vec2 ℚ × Vec2 ℚ) : Vec2 ℚ × Vec2 ℚ := (map line.1, map line.2)

theorem min?_map {A B : Type} [LinearOrder A] [LinearOrder B] {stretch : A → B}
    (monotone : Monotone stretch) (list : List A) :
    (list.map stretch).min? = list.min?.map stretch := by
  cases list with
  | nil => rfl
  | cons head rest =>
    rw [List.map_cons, List.min?_cons', List.min?_cons', Option.map_some,
      List.foldl_map_hom fun _ _ => monotone.map_min.symm]

theorem max?_map {A B : Type} [LinearOrder A] [LinearOrder B] {stretch : A → B}
    (monotone : Monotone stretch) (list : List A) :
    (list.map stretch).max? = list.max?.map stretch := by
  cases list with
  | nil => rfl
  | cons head rest =>
    rw [List.map_cons, List.max?_cons', List.max?_cons', Option.map_some,
      List.foldl_map_hom fun _ _ => monotone.map_max.symm]

section Increasing

variable {scale : Axis → ℚ → ℚ} (increasing : ∀ axis, StrictMono (scale axis))

include increasing

theorem rectangleSide_mapAxes (minimum maximum : Vec2 ℚ) (line : Vec2 ℚ × Vec2 ℚ) :
    rectangleSide (minimum.mapAxes scale) (maximum.mapAxes scale) (mapEnds (Vec2.mapAxes scale) line) =
      rectangleSide minimum maximum line := by
  have same (axis : Axis) (one two : ℚ) : scale axis one = scale axis two ↔ one = two :=
    (increasing axis).injective.eq_iff
  simp only [rectangleSide, maximumSide, mapEnds, Vec2.get_mapAxes, same, ne_eq,
    ← (increasing _).monotone.map_min, ← (increasing _).monotone.map_max]

theorem extremes_mapAxes (lines : List (Vec2 ℚ × Vec2 ℚ)) :
    extremes (lines.map (mapEnds (Vec2.mapAxes scale))) =
      (extremes lines).map (mapEnds (Vec2.mapAxes scale)) := by
  have ends : (lines.map (mapEnds (Vec2.mapAxes scale))).flatMap (fun line => [line.1, line.2]) =
      (lines.flatMap fun line => [line.1, line.2]).map (Vec2.mapAxes scale) := by
    rw [List.flatMap_map, List.map_flatMap]
    rfl
  have along (list : List (Vec2 ℚ)) :
      (list.map (Vec2.mapAxes scale)).map Vec2.x = (list.map Vec2.x).map (scale .x) ∧
        (list.map (Vec2.mapAxes scale)).map Vec2.y = (list.map Vec2.y).map (scale .y) := by
    constructor
    all_goals
      rw [List.map_map, List.map_map]
      rfl
  simp only [extremes, ends, along, min?_map (increasing _).monotone, max?_map (increasing _).monotone]
  generalize (lines.flatMap fun line => [line.1, line.2]).map Vec2.x = xs
  generalize (lines.flatMap fun line => [line.1, line.2]).map Vec2.y = ys
  cases xs.min? with
  | none => rfl
  | some _ => cases ys.min? with
    | none => rfl
    | some _ => cases xs.max? with
      | none => rfl
      | some _ => cases ys.max? with
        | none => rfl
        | some _ => rfl

omit increasing in
/-- What makes four lines a rectangle. -/
theorem rectangleOf_eq_some {lines : List (Vec2 ℚ × Vec2 ℚ)} {minimum maximum : Vec2 ℚ} :
    rectangleOf lines = some (minimum, maximum) ↔
      extremes lines = some (minimum, maximum) ∧
        ¬(maximum.x - minimum.x ≤ epsilonMm ∨ maximum.y - minimum.y ≤ epsilonMm) ∧
        ∃ sides, lines.mapM (rectangleSide minimum maximum) = some sides ∧ sides.Nodup := by
  unfold rectangleOf
  cases found : extremes lines with
  | none => simp
  | some corners =>
    obtain ⟨low, high⟩ := corners
    simp only [Option.bind_eq_bind, Option.bind_some, Option.some.injEq, Prod.mk.injEq]
    constructor
    · intro drawn
      split at drawn
      case isTrue => cases drawn
      case isFalse wide =>
        obtain ⟨sides, made, drawn⟩ := Option.bind_eq_some_iff.mp drawn
        split at drawn
        case isFalse => cases drawn
        case isTrue distinct =>
          cases drawn
          exact ⟨⟨rfl, rfl⟩, wide, sides, made, distinct⟩
    · rintro ⟨⟨rfl, rfl⟩, wide, sides, made, distinct⟩
      rw [if_neg wide, made, Option.bind_some, if_pos distinct]

theorem rectangleOf_mapAxes {lines : List (Vec2 ℚ × Vec2 ℚ)} {minimum maximum : Vec2 ℚ}
    (rectangle : rectangleOf lines = some (minimum, maximum)) :
    rectangleOf (lines.map (mapEnds (Vec2.mapAxes scale))) =
      if scale .x maximum.x - scale .x minimum.x ≤ epsilonMm ∨
          scale .y maximum.y - scale .y minimum.y ≤ epsilonMm then none
      else some (minimum.mapAxes scale, maximum.mapAxes scale) := by
  obtain ⟨found, _, sides, made, distinct⟩ := rectangleOf_eq_some.mp rectangle
  have extremes_ := extremes_mapAxes increasing lines
  rw [found, Option.map_some] at extremes_
  have sides_ : (lines.map (mapEnds (Vec2.mapAxes scale))).mapM
      (rectangleSide (minimum.mapAxes scale) (maximum.mapAxes scale)) = some sides := by
    rw [List.mapM_map, ← made]
    congr 1
    funext line
    exact rectangleSide_mapAxes increasing minimum maximum line
  split
  case isTrue narrow =>
    unfold rectangleOf
    rw [extremes_]
    exact if_pos narrow
  case isFalse wide => exact rectangleOf_eq_some.mpr ⟨extremes_, wide, sides, sides_, distinct⟩

end Increasing

/-! ### Where the corners of the lines lie -/

/-- The ends of a side lie at the least or the greatest coordinate along each axis. -/
theorem ends_of_rectangleSide {minimum maximum : Vec2 ℚ} {line : Vec2 ℚ × Vec2 ℚ} {side : Axis × Bool}
    (drawn : rectangleSide minimum maximum line = some side) (axis : Axis) :
    (line.1.get axis = minimum.get axis ∨ line.1.get axis = maximum.get axis) ∧
      (line.2.get axis = minimum.get axis ∨ line.2.get axis = maximum.get axis) := by
  obtain ⟨across, found, drawn⟩ := Option.bind_eq_some_iff.mp drawn
  obtain ⟨far, place, drawn⟩ := Option.bind_eq_some_iff.mp drawn
  have level : line.1.get across = line.2.get across := by
    have := List.find?_some found
    exact of_decide_eq_true this
  have placed : line.1.get across = minimum.get across ∨ line.1.get across = maximum.get across := by
    unfold maximumSide at place
    split at place
    case isTrue low => exact .inl low
    case isFalse =>
      split at place
      case isTrue high => exact .inr high
      case isFalse => cases place
  by_cases same : axis = across
  · rw [same, ← level]
    exact ⟨placed, placed⟩
  · have other : axis = across.other := by
      cases axis with
      | _ => cases across with
        | _ => first | rfl | exact absurd rfl same
    split at drawn
    case isTrue => cases drawn
    case isFalse spans =>
      push Not at spans
      rw [← other] at spans
      rw [← spans.1, ← spans.2]
      rcases le_total (line.1.get axis) (line.2.get axis) with less | more
      · rw [min_eq_left less, max_eq_right less]
        exact ⟨.inl rfl, .inr rfl⟩
      · rw [min_eq_right more, max_eq_left more]
        exact ⟨.inr rfl, .inl rfl⟩

theorem epsilonMm_pos : 0 < epsilonMm := by norm_num [epsilonMm]

/-! ### Resizing -/

/-- The scale that takes the extent between two corners along an axis to a value. -/
def resizing (minimum maximum : Vec2 ℚ) (axis : Axis) (value : ℚ) (along : Axis) (coordinate : ℚ) : ℚ :=
  if along = axis then
    minimum.get axis + (coordinate - minimum.get axis) * (value / (maximum.get axis - minimum.get axis))
  else coordinate

section Resizing

variable {minimum maximum : Vec2 ℚ} {axis : Axis} {value : ℚ}

theorem resizing_increasing (wide : minimum.get axis < maximum.get axis) (positive : 0 < value)
    (along : Axis) : StrictMono (resizing minimum maximum axis value along) := by
  intro less more ordered
  unfold resizing
  by_cases same : along = axis
  · rw [if_pos same, if_pos same]
    have rate : 0 < value / (maximum.get axis - minimum.get axis) := div_pos positive (sub_pos.mpr wide)
    have nearer : less - minimum.get axis < more - minimum.get axis := sub_lt_sub_right ordered _
    exact (add_lt_add_iff_left _).mpr (mul_lt_mul_of_pos_right nearer rate)
  · rw [if_neg same, if_neg same]
    exact ordered

@[simp] theorem resizing_of_ne {along : Axis} (apart : along ≠ axis) (coordinate : ℚ) :
    resizing minimum maximum axis value along coordinate = coordinate := if_neg apart

theorem resizing_low : resizing minimum maximum axis value axis (minimum.get axis) = minimum.get axis := by
  rw [resizing, if_pos rfl, sub_self, zero_mul, add_zero]

theorem resizing_high (wide : minimum.get axis < maximum.get axis) :
    resizing minimum maximum axis value axis (maximum.get axis) = minimum.get axis + value := by
  rw [resizing, if_pos rfl, mul_div_cancel₀ value (sub_pos.mpr wide).ne']

theorem resizing_minimum : minimum.mapAxes (resizing minimum maximum axis value) = minimum := by
  refine Vec2.ext_get fun along => ?_
  rw [Vec2.get_mapAxes]
  by_cases same : along = axis
  · rw [same, resizing_low]
  · exact resizing_of_ne same _

/-- On a corner of the rectangle the scale moves the far side alone. -/
theorem withFarSide_eq (wide : minimum.get axis < maximum.get axis) {point : Vec2 ℚ}
    (placed : point.get axis = minimum.get axis ∨ point.get axis = maximum.get axis) :
    point.withFarSide (maximum.get axis) (minimum.get axis + value) axis =
      point.mapAxes (resizing minimum maximum axis value) := by
  refine Vec2.ext_get fun along => ?_
  rw [Vec2.get_mapAxes, Vec2.withFarSide]
  by_cases same : along = axis
  · rw [same]
    rcases placed with low | high
    · rw [if_neg (low ▸ wide.ne), low, resizing_low]
    · rw [if_pos high, Vec2.get_put, high, resizing_high wide]
  · rw [resizing_of_ne same]
    split
    case isTrue => exact Vec2.get_put_of_ne same
    case isFalse => rfl

theorem resizing_maximum (wide : minimum.get axis < maximum.get axis) :
    maximum.mapAxes (resizing minimum maximum axis value) =
      maximum.put (minimum.get axis + value) axis := by
  rw [← withFarSide_eq wide (.inr rfl), Vec2.withFarSide, if_pos rfl]

/-- The lines of a rectangle with the far side moved draw the rectangle of that size, if it is wide
enough to be one. -/
theorem rectangleOf_resized {lines : List (Vec2 ℚ × Vec2 ℚ)}
    (rectangle : rectangleOf lines = some (minimum, maximum)) (positive : 0 < value) :
    rectangleOf (lines.map (mapEnds (Vec2.withFarSide (maximum.get axis) (minimum.get axis + value) axis))) =
      if value ≤ epsilonMm then none
      else some (minimum, maximum.put (minimum.get axis + value) axis) := by
  obtain ⟨_, wide, sides, made, _⟩ := rectangleOf_eq_some.mp rectangle
  have less (along : Axis) : minimum.get along < maximum.get along := by
    have small := epsilonMm_pos
    push Not at wide
    cases along with
    | x => exact sub_pos.mp (small.trans wide.1)
    | y => exact sub_pos.mp (small.trans wide.2)
  have moved : lines.map (mapEnds (Vec2.withFarSide (maximum.get axis) (minimum.get axis + value) axis)) =
      lines.map (mapEnds (Vec2.mapAxes (resizing minimum maximum axis value))) := by
    refine List.map_congr_left fun line there => ?_
    obtain ⟨side, _, drawn⟩ := exists_of_mapM_some made there
    have ends := ends_of_rectangleSide drawn axis
    unfold mapEnds
    rw [withFarSide_eq (less axis) ends.1, withFarSide_eq (less axis) ends.2]
  rw [moved, rectangleOf_mapAxes (resizing_increasing (less axis) positive) rectangle, resizing_minimum,
    resizing_maximum (less axis)]
  refine if_congr ?_ rfl rfl
  cases axis with
  | x =>
    have size : resizing minimum maximum .x value .x maximum.x - resizing minimum maximum .x value .x minimum.x =
        value := by
      rw [show maximum.x = maximum.get .x from rfl, show minimum.x = minimum.get .x from rfl, resizing_high (less .x),
        resizing_low, add_sub_cancel_left]
    rw [size, resizing_of_ne Axis.noConfusion, resizing_of_ne Axis.noConfusion]
    exact or_iff_left fun narrow => wide (.inr narrow)
  | y =>
    have size : resizing minimum maximum .y value .y maximum.y - resizing minimum maximum .y value .y minimum.y =
        value := by
      rw [show maximum.y = maximum.get .y from rfl, show minimum.y = minimum.get .y from rfl, resizing_high (less .y),
        resizing_low, add_sub_cancel_left]
    rw [size, resizing_of_ne Axis.noConfusion, resizing_of_ne Axis.noConfusion]
    exact or_iff_right fun narrow => wide (.inl narrow)

end Resizing

end Ketchup.Product
