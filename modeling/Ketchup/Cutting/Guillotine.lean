/-
**What the cuts of a sheet leave.**

`Sheet.Sound` is kept by every piece that is laid: free rectangles clear each other and the pieces that
lie, spans stay inside the trim or reach the edges, and a piece that keeps a factory edge lies at it
unless another one that keeps it lies before it (`Abreast`).
-/

import Ketchup.Library.Boxes
import Ketchup.Cutting.Laying

namespace Ketchup.Cutting

/-! ### Boxes -/

def Free.box (free : Free) : Box (Fin 2) ℚ :=
  ⟨fun axis => (free axis).start, fun axis => (free axis).start + (free axis).length⟩

def Placed.at_ (placed : Placed) (axis : Fin 2) : ℚ := placed.atMm.getD axis 0

def Placed.side (placed : Placed) (axis : Fin 2) : ℚ := placed.sizeMm.getD axis 0

/-- A piece and one kerf behind it. -/
def Placed.box (kerf : ℚ) (placed : Placed) : Box (Fin 2) ℚ :=
  ⟨placed.at_, fun axis => placed.at_ axis + (placed.side axis + kerf)⟩

theorem placedAt_at (piece : Piece) (room : Free) (turned : Bool) :
    (piece.placedAt room turned).at_ = fun axis => (room axis).start := by
  funext axis
  fin_cases axis <;> rfl

theorem placedAt_side (piece : Piece) (room : Free) (turned : Bool) :
    (piece.placedAt room turned).side = piece.sides turned := by
  funext axis
  fin_cases axis <;> rfl

theorem placedAt_box (kerf : ℚ) (piece : Piece) (room : Free) (turned : Bool) :
    (piece.placedAt room turned).box kerf =
      ⟨fun axis => (room axis).start,
        fun axis => (room axis).start + piece.footprint kerf turned axis⟩ := by
  unfold Placed.box
  rw [placedAt_at, placedAt_side]
  rfl

/-! ### Pieces abreast -/

variable {kerf trim : ℚ}

theorem spanned_iff {piece sheet : ℚ} : spanned trim piece sheet = true ↔
    eps < trim ∧ sheet - 2 * trim + eps < piece ∧ piece ≤ sheet + eps := by
  unfold spanned
  rw [Bool.and_eq_true, Bool.and_eq_true, decide_eq_true_eq, decide_eq_true_eq, decide_eq_true_eq,
    and_assoc]

/-- Two pieces fit one behind the other on a side of a stock sheet both of whose factory edges each of
them keeps. -/
def Abreast (kerf trim : ℚ) (sizes : List Size) (first second : Piece) : Prop :=
  ∃ size ∈ sizes, ∃ (axis : Fin 2), ∃ turned ∈ first.orientations, ∃ turned' ∈ second.orientations,
    spanned trim (first.sides turned axis) (size axis) = true ∧
      spanned trim (second.sides turned' axis) (size axis) = true ∧
      first.sides turned axis + kerf + second.sides turned' axis ≤ size axis + eps

/-! ### Sound spans -/

/-- A piece of these that spans the sheet ends before the span. -/
def SpansBefore (kerf trim : ℚ) (done : List Piece) (size : ℚ) (axis : Fin 2) (start : ℚ) : Prop :=
  ∃ piece ∈ done, ∃ turned ∈ piece.orientations,
    spanned trim (piece.sides turned axis) size = true ∧ piece.sides turned axis + kerf ≤ start

/-- A span inside the trim, or one that reaches the far edge and starts at the near one or behind a
piece that spans the sheet. -/
def Span.Sound (kerf trim : ℚ) (done : List Piece) (sheet : Sheet) (axis : Fin 2) (span : Span) :
    Prop :=
  if span.edge then
    sheet.edges axis = true ∧ 0 ≤ span.start ∧
      span.start + span.length ≤ sheet.size axis + kerf ∧
      (span.start = 0 ∨ SpansBefore kerf trim done (sheet.size axis) axis span.start)
  else trim ≤ span.start ∧ span.start + span.length ≤ sheet.size axis - trim + kerf

/-- A piece at the factory edge it keeps, or inside the trim. -/
def Placed.Sound (trim : ℚ) (sheet : Sheet) (axis : Fin 2) (placed : Placed) : Prop :=
  (spanned trim (placed.side axis) (sheet.size axis) = true ∧ sheet.edges axis = true ∧
      placed.at_ axis = 0) ∨
    (spanned trim (placed.side axis) (sheet.size axis) = false ∧ trim ≤ placed.at_ axis ∧
      placed.at_ axis + placed.side axis ≤ sheet.size axis - trim + eps)

/-- **What holds of a sheet** on which these pieces were considered. -/
structure Sheet.Sound (kerf trim : ℚ) (done : List Piece) (sheet : Sheet) : Prop where
  spans : ∀ free ∈ sheet.free, ∀ axis, (free axis).Sound kerf trim done sheet axis
  lies : ∀ placed ∈ sheet.placed, ∀ axis, placed.Sound trim sheet axis
  frees : sheet.free.Pairwise fun first second => Box.Clears 0 first.box second.box
  clear : ∀ placed ∈ sheet.placed, ∀ free ∈ sheet.free, Box.Clears eps (placed.box kerf) free.box
  apart : sheet.placed.Pairwise fun first second =>
    Box.Apart eps (first.box kerf) (second.box kerf)

theorem SpansBefore.mono {done more : List Piece} {size start : ℚ} {axis : Fin 2}
    (before : SpansBefore kerf trim done size axis start) :
    SpansBefore kerf trim (done ++ more) size axis start := by
  obtain ⟨piece, member, rest⟩ := before
  exact ⟨piece, List.mem_append_left _ member, rest⟩

theorem Span.Sound.mono {done more : List Piece} {sheet : Sheet} {axis : Fin 2} {span : Span}
    (sound : span.Sound kerf trim done sheet axis) :
    span.Sound kerf trim (done ++ more) sheet axis := by
  unfold Span.Sound at sound ⊢
  split
  case isTrue edge =>
    rw [if_pos edge] at sound
    obtain ⟨edges, least, ends, start⟩ := sound
    exact ⟨edges, least, ends, start.imp id SpansBefore.mono⟩
  case isFalse inner =>
    rw [if_neg inner] at sound
    exact sound

theorem Sheet.Sound.mono {done more : List Piece} {sheet : Sheet}
    (sound : sheet.Sound kerf trim done) : sheet.Sound kerf trim (done ++ more) :=
  { sound with spans := fun free member axis => (sound.spans free member axis).mono }

/-- A new sheet. -/
theorem fresh_sound (done : List Piece) (size : Size) (edges : Fin 2 → Bool) :
    (fresh kerf trim size edges).Sound kerf trim done where
  spans free member axis := by
    rw [List.mem_singleton.mp member]
    unfold Span.Sound
    by_cases edge : edges axis = true
    · simp only [edge, if_true]
      exact ⟨edge, le_refl _, (zero_add _).le, .inl trivial⟩
    · simp only [edge, if_false, Bool.false_eq_true]
      refine ⟨le_refl _, ?_⟩
      show trim + (size axis - 2 * trim + kerf) ≤ size axis - trim + kerf
      linarith
  lies := nofun
  frees := List.pairwise_singleton ..
  clear := nofun
  apart := List.Pairwise.nil

/-! ### Rooms -/

section Rooms

variable {done : List Piece} {sheet : Sheet} {axis : Fin 2} {span room : Span} {spans : Bool}

/-- The room of a span is in it. -/
theorem Span.room_inside {size : ℚ} (is : span.room kerf trim size spans = some room) :
    span.start ≤ room.start ∧ room.start + room.length ≤ span.start + span.length := by
  unfold Span.room at is
  split at is
  · split at is
    · obtain rfl := Option.some.inj is
      exact ⟨le_refl _, le_refl _⟩
    · cases is
  · split at is
    · dsimp only at is
      split at is
      · cases is
      · obtain rfl := Option.some.inj is
        refine ⟨le_max_left _ _, ?_⟩
        dsimp only
        rw [add_sub_cancel]
        exact min_le_left _ _
    · obtain rfl := Option.some.inj is
      exact ⟨le_refl _, le_refl _⟩

/-- **The room of a span**: the whole of one that reaches the edges for a piece that spans the sheet,
inside the trim for any other piece. -/
theorem Span.room_sound (sound : span.Sound kerf trim done sheet axis)
    (is : span.room kerf trim (sheet.size axis) spans = some room) :
    room.Sound kerf trim done sheet axis ∧ room.edge = spans := by
  unfold Span.room at is
  split at is
  case isTrue spans_ =>
    split at is
    case isTrue edge =>
      obtain rfl := Option.some.inj is
      exact ⟨sound, edge.trans spans_.symm⟩
    case isFalse => cases is
  case isFalse inner =>
    have none_ : spans = false := Bool.eq_false_iff.mpr inner
    split at is
    case isTrue edge =>
      dsimp only at is
      split at is
      case isTrue => cases is
      case isFalse =>
        obtain rfl := Option.some.inj is
        refine ⟨?_, none_.symm⟩
        unfold Span.Sound
        rw [if_neg Bool.false_ne_true]
        refine ⟨le_max_right _ _, ?_⟩
        dsimp only
        rw [add_sub_cancel]
        exact min_le_right _ _
    case isFalse edge =>
      obtain rfl := Option.some.inj is
      exact ⟨sound, (Bool.eq_false_iff.mpr edge).trans none_.symm⟩

theorem Free.room_axes {free rooms : Free} {size : Size} {spans : Fin 2 → Bool}
    (is : Free.room kerf trim free size spans = some rooms) (axis : Fin 2) :
    (free axis).room kerf trim (size axis) (spans axis) = some (rooms axis) := by
  obtain ⟨along, isAlong, is⟩ := Option.bind_eq_some_iff.mp is
  obtain ⟨across, isAcross, is⟩ := Option.bind_eq_some_iff.mp is
  obtain rfl := Option.some.inj is
  fin_cases axis
  · exact isAlong
  · exact isAcross

end Rooms

/-! ### Leftovers -/

section Leftovers

variable {room free : Free} {footprint : Size}

/-- What is left of a room behind a piece along one axis. -/
def Behind (room : Free) (footprint : Size) (axis : Fin 2) (free : Free) : Prop :=
  free axis = ⟨(room axis).start + footprint axis, (room axis).length - footprint axis,
      (room axis).edge⟩ ∧
    ∀ other ≠ axis, (free other).start = (room other).start ∧ (free other).edge = (room other).edge ∧
      (free other).length ≤ (room other).length

theorem leftover_behind (member : free ∈ leftover room footprint) :
    ∃ axis, Behind room footprint axis free := by
  obtain ⟨member, wide⟩ := List.mem_filter.mp member
  obtain ⟨wide, high⟩ := Bool.and_eq_true_iff.mp wide
  have wide := of_decide_eq_true wide
  have high := of_decide_eq_true high
  have positive := eps_pos
  split at member
  case isTrue shorter =>
    rcases List.mem_cons.mp member with rfl | member
    · change eps < (room 0).length - footprint 0 at wide
      refine ⟨0, rfl, fun other apart => ?_⟩
      obtain rfl : other = 1 := by omega
      refine ⟨rfl, rfl, ?_⟩
      show footprint 1 ≤ (room 1).length
      linarith
    · obtain rfl := List.mem_singleton.mp member
      refine ⟨1, rfl, fun other apart => ?_⟩
      obtain rfl : other = 0 := by omega
      exact ⟨rfl, rfl, le_refl _⟩
  case isFalse longer =>
    rcases List.mem_cons.mp member with rfl | member
    · refine ⟨0, rfl, fun other apart => ?_⟩
      obtain rfl : other = 1 := by omega
      exact ⟨rfl, rfl, le_refl _⟩
    · obtain rfl := List.mem_singleton.mp member
      change eps < (room 1).length - footprint 1 at high
      refine ⟨1, rfl, fun other apart => ?_⟩
      obtain rfl : other = 0 := by omega
      refine ⟨rfl, rfl, ?_⟩
      show footprint 0 ≤ (room 0).length
      have order := not_lt.mp longer
      linarith

/-- The two leftovers of a cut clear each other. -/
theorem leftover_clears (room : Free) (footprint : Size) :
    (leftover room footprint).Pairwise fun first second =>
      Box.Clears 0 (Free.box first) (Free.box second) := by
  refine List.Pairwise.filter _ ?_
  split
  · refine List.pairwise_pair.mpr ⟨1, .inl ?_⟩
    exact (add_zero _).ge
  · refine List.pairwise_pair.mpr ⟨0, .inr ?_⟩
    exact le_refl _

/-- Where a piece lies in a room. -/
def pieceBox (room : Free) (footprint : Size) : Box (Fin 2) ℚ :=
  ⟨fun axis => (room axis).start, fun axis => (room axis).start + footprint axis⟩

theorem Behind.inside {axis : Fin 2} (behind : Behind room footprint axis free)
    (least : ∀ axis, 0 ≤ footprint axis) : Box.Inside 0 free.box room.box := by
  obtain ⟨here, others⟩ := behind
  intro other
  by_cases same : other = axis
  · subst same
    have nonneg := least other
    unfold Free.box
    dsimp only
    rw [here]
    dsimp only
    constructor <;> linarith
  · obtain ⟨start, _, length⟩ := others other same
    unfold Free.box
    dsimp only
    rw [start]
    constructor <;> linarith

theorem Behind.clears {axis : Fin 2} (behind : Behind room footprint axis free) :
    Box.Clears 0 (pieceBox room footprint) free.box := by
  refine ⟨axis, .inl ?_⟩
  unfold Free.box pieceBox
  dsimp only
  rw [behind.1]
  exact (add_zero _).ge

variable {done : List Piece} {piece : Piece} {sheet : Sheet} {turned : Bool}

/-- **Leftovers are sound**: what a piece leaves behind it starts behind a piece that spans the sheet,
if it reaches the edges. -/
theorem Behind.sound {axis : Fin 2} (behind : Behind room (piece.footprint kerf turned) axis free)
    (turns : turned ∈ piece.orientations) (least : ∀ axis, 0 ≤ piece.footprint kerf turned axis)
    (rooms : ∀ axis, (room axis).Sound kerf trim done sheet axis)
    (edges : ∀ axis, (room axis).edge = spanned trim (piece.sides turned axis) (sheet.size axis))
    (other : Fin 2) : (free other).Sound kerf trim (done ++ [piece]) sheet other := by
  obtain ⟨here, others⟩ := behind
  have sound := rooms other
  have nonneg := least other
  by_cases same : other = axis
  · subst same
    unfold Span.Sound at sound ⊢
    rw [here]
    dsimp only
    split
    case isTrue edge =>
      rw [if_pos edge] at sound
      obtain ⟨keeps, start, ends, _⟩ := sound
      refine ⟨keeps, by linarith, by linarith, .inr ⟨piece, ?_, turned, turns, ?_, ?_⟩⟩
      · exact List.mem_append_right _ (List.mem_singleton.mpr rfl)
      · exact (edges other).symm.trans edge
      · show piece.footprint kerf turned other ≤ _
        linarith
    case isFalse inner =>
      rw [if_neg inner] at sound
      exact ⟨by linarith, by linarith⟩
  · obtain ⟨start, edge, length⟩ := others other same
    unfold Span.Sound at sound ⊢
    rw [edge, start]
    split
    case isTrue isEdge =>
      rw [if_pos isEdge] at sound
      obtain ⟨keeps, least, ends, before⟩ := sound
      exact ⟨keeps, least, by linarith, before.imp id SpansBefore.mono⟩
    case isFalse inner =>
      rw [if_neg inner] at sound
      exact ⟨sound.1, by linarith⟩

end Leftovers

/-! ### One piece more -/

section Step

variable {done : List Piece} {sizes : List Size} {piece : Piece} {sheet : Sheet} {free : Free}
  {fit : Fit}

theorem sides_nonneg (piece : Piece) (turned : Bool) (axis : Fin 2) :
    0 ≤ piece.sides turned axis := by
  unfold Piece.sides
  cases turned with
  | false => exact piece.size_nonneg axis
  | true =>
    fin_cases axis
    · exact piece.size_nonneg 1
    · exact piece.size_nonneg 0

/-- The box of a piece exceeds its free rectangle by the tolerance at most. -/
theorem FitsAt.inside (fits : FitsAt kerf trim piece sheet free fit) :
    Box.Inside eps (pieceBox fit.room (piece.footprint kerf fit.turned)) free.box := by
  intro axis
  obtain ⟨low, high⟩ := Span.room_inside (Free.room_axes fits.room axis)
  have fits := fits.fits axis
  unfold pieceBox Free.box
  dsimp only
  constructor <;> linarith

/-- **A piece lies at the edge it keeps, or inside the trim.** -/
theorem FitsAt.placed_sound (sound : sheet.Sound kerf trim done) (isFree : free ∈ sheet.free)
    (fits : FitsAt kerf trim piece sheet free fit) (isSize : sheet.size ∈ sizes)
    (alone : ∀ other ∈ done, ¬Abreast kerf trim sizes other piece) (axis : Fin 2) :
    (piece.placedAt fit.room fit.turned).Sound trim sheet axis := by
  obtain ⟨room, edge⟩ := Span.room_sound (sound.spans free isFree axis)
    (Free.room_axes fits.room axis)
  have long := fits.fits axis
  unfold Placed.Sound
  rw [placedAt_at, placedAt_side]
  dsimp only
  change (fit.room axis).edge = spanned trim (piece.sides fit.turned axis) (sheet.size axis) at edge
  change piece.sides fit.turned axis + kerf ≤ _ at long
  unfold Span.Sound at room
  cases is : spanned trim (piece.sides fit.turned axis) (sheet.size axis) with
  | true =>
    rw [if_pos (edge.trans is)] at room
    obtain ⟨keeps, _, ends, start⟩ := room
    refine .inl ⟨rfl, keeps, start.resolve_right fun before => ?_⟩
    obtain ⟨other, member, turned, turns, spans, earlier⟩ := before
    exact alone other member ⟨sheet.size, isSize, axis, turned, turns, fit.turned, fits.turns, spans,
      is, by linarith⟩
  | false =>
    rw [if_neg (Bool.eq_false_iff.mp (edge.trans is))] at room
    exact .inr ⟨rfl, room.1, by linarith [room.2]⟩

/-- **One piece more** leaves a sheet sound, unless it lies abreast of another one. -/
theorem Sheet.Sound.layOn (sound : sheet.Sound kerf trim done)
    (isFree : sheet.free[fit.free]? = some free) (fits : FitsAt kerf trim piece sheet free fit)
    (least : 0 ≤ kerf) (isSize : sheet.size ∈ sizes)
    (alone : ∀ other ∈ done, ¬Abreast kerf trim sizes other piece) :
    (piece.layOn kerf fit sheet).Sound kerf trim (done ++ [piece]) := by
  have member : free ∈ sheet.free := List.mem_of_getElem? isFree
  have perm := perm_swapRemove isFree
  have symmetric : ∀ {first second : Free}, Box.Clears 0 first.box second.box →
      Box.Clears 0 second.box first.box := fun clears => clears.symm
  obtain ⟨cleared, frees⟩ := List.pairwise_cons.mp ((perm.pairwise_iff symmetric).mp sound.frees)
  have others : ∀ other ∈ swapRemove sheet.free fit.free, other ∈ sheet.free := fun other inside =>
    perm.mem_iff.mpr (List.mem_cons_of_mem _ inside)
  have nonneg : ∀ axis, 0 ≤ piece.footprint kerf fit.turned axis := fun axis =>
    add_nonneg (sides_nonneg piece fit.turned axis) least
  have rooms : ∀ axis, (fit.room axis).Sound kerf trim done sheet axis ∧
      (fit.room axis).edge = spanned trim (piece.sides fit.turned axis) (sheet.size axis) :=
    fun axis => Span.room_sound (sound.spans free member axis) (Free.room_axes fits.room axis)
  have roomInside : Box.Inside 0 fit.room.box free.box := fun axis => by
    obtain ⟨low, high⟩ := Span.room_inside (Free.room_axes fits.room axis)
    exact ⟨low, high.trans_eq (add_zero _).symm⟩
  have inside : ∀ rest ∈ leftover fit.room (piece.footprint kerf fit.turned),
      Box.Inside 0 (Free.box rest) free.box := fun rest held => by
    obtain ⟨axis, behind⟩ := leftover_behind held
    exact (behind.inside nonneg).trans roomInside
  have box : (piece.placedAt fit.room fit.turned).box kerf =
      pieceBox fit.room (piece.footprint kerf fit.turned) := placedAt_box ..
  refine ⟨fun rest held axis => ?_, fun placed held axis => ?_, ?_, fun placed held rest free_ => ?_,
    ?_⟩
  · rcases List.mem_append.mp held with held | held
    · exact (sound.spans rest (others rest held) axis).mono
    · obtain ⟨cut, behind⟩ := leftover_behind held
      exact behind.sound fits.turns nonneg (fun axis => (rooms axis).1) (fun axis => (rooms axis).2) axis
  · rcases List.mem_append.mp held with held | held
    · exact sound.lies placed held axis
    · rw [List.mem_singleton.mp held]
      exact fits.placed_sound sound member isSize alone axis
  · refine List.pairwise_append.mpr ⟨frees, leftover_clears .., fun other held rest left => ?_⟩
    exact (cleared other held).symm.shrink (inside rest left)
  · rcases List.mem_append.mp held with held | held
    · rcases List.mem_append.mp free_ with free_ | free_
      · exact sound.clear placed held rest (others rest free_)
      · exact (sound.clear placed held free member).shrink (inside rest free_)
    · rw [List.mem_singleton.mp held, box]
      rcases List.mem_append.mp free_ with free_ | free_
      · exact (cleared rest free_).exceed fits.inside
      · obtain ⟨axis, behind⟩ := leftover_behind free_
        exact behind.clears.exceed fun axis => ⟨le_refl _, le_add_of_nonneg_right eps_pos.le⟩
  · refine List.pairwise_append.mpr ⟨sound.apart, List.pairwise_singleton .., fun placed held new is => ?_⟩
    rw [List.mem_singleton.mp is, box]
    exact (sound.clear placed held free member).apart fits.inside

end Step

end Ketchup.Cutting
