/-
**Loose lines joined into polylines.**

`joinLoose` appends the loose polylines of a layer to its lines, each run of them of one style that meets
end to end joined into one polyline. It walks from an end to the far end of its piece and on to the other
piece there, as long as exactly two ends of the style meet and that piece is free.

* `joinLoose_joinedUp` — the walk is the sweep of `Library.Joints`, so each piece is written once.
* `joinLoose_loses_nothing` — what the polylines and the reported ranges hold.
-/

import Ketchup.Library.Meeting
import Ketchup.Underlay.LayerLines

set_option linter.unusedSectionVars false

namespace Ketchup.Underlay

open LayerLines

variable {P : Type}

/-! ### Pieces and their ends -/

/-- The end of a piece: its first point, or its last. -/
abbrev LooseEnd (loose : LayerLines P) : Type := PieceEnd loose.ends.length

section Ends

variable (loose : LayerLines P)

def piece (index : Fin loose.ends.length) : List P := loose.polylines.getD index []

def pieceStyle (index : Fin loose.ends.length) : Nat := loose.styles.getD index 0

variable {loose}

def endPoint (pieceEnd : LooseEnd loose) : Option P :=
  if pieceEnd.2 then (piece loose pieceEnd.1).getLast? else (piece loose pieceEnd.1).head?

variable (loose) in
/-- The style and the point of an end. -/
def key (pieceEnd : LooseEnd loose) : Nat × Option P := (pieceStyle loose pieceEnd.1, endPoint pieceEnd)

variable [DecidableEq P]

/-- The end a walk goes on at after the piece it entered at `pieceEnd`. -/
def next (used : Finset (Fin loose.ends.length)) (pieceEnd : LooseEnd loose) : Option (LooseEnd loose) :=
  let meeting := endsAt (key loose) (key loose (farEnd pieceEnd))
  if meeting.length ≠ 2 then none else meeting.find? fun other => other.1 ∉ used

end Ends

/-! ### The walk -/

/-- Appends `piece`, from its last point back if `reversed`, without its first point if `joined`, since the
run already ends there. -/
def pushOriented (points piece : List P) (reversed joined : Bool) : List P :=
  points ++ (if reversed then piece.reverse else piece).drop joined.toNat

/-- The pieces written so far, the lines, and the points each piece became. -/
structure Joining (loose : LayerLines P) where
  used : Finset (Fin loose.ends.length)
  lines : LayerLines P
  placed : List (Fin loose.ends.length × Nat × Nat)

variable {loose : LayerLines P}

def Joining.write (joining : Joining loose) (joined : Bool) (pieceEnd : LooseEnd loose) : Joining loose :=
  let points := pushOriented joining.lines.pointsMm (piece loose pieceEnd.1) pieceEnd.2 joined
  { used := insert pieceEnd.1 joining.used
    lines := { joining.lines with pointsMm := points }
    placed := joining.placed ++
      [(pieceEnd.1, joining.lines.pointsMm.length - joined.toNat, points.length)] }

variable [DecidableEq P]

theorem next_free {used : Finset (Fin loose.ends.length)} {pieceEnd other : LooseEnd loose}
    (goes : next used pieceEnd = some other) : other.1 ∉ used := by
  simp only [next] at goes
  split at goes
  · exact absurd goes (by simp)
  · simpa using List.find?_some goes

/-- The rest of a walk after the piece entered at `pieceEnd`. -/
def Joining.follow (joining : Joining loose) (pieceEnd : LooseEnd loose) : Joining loose :=
  match _h : next joining.used pieceEnd with
  | none => joining
  | some other => (joining.write true other).follow other
termination_by joining.usedᶜ.card
decreasing_by exact Joints.compl_insert_card_lt (next_free _h)

def Joining.walk (joining : Joining loose) (first : LooseEnd loose) : Joining loose :=
  let joining := (joining.write false first).follow first
  { joining with
    lines := { joining.lines with
      ends := joining.lines.ends ++ [joining.lines.pointsMm.length]
      styles := joining.lines.styles ++ [pieceStyle loose first.1] } }

/-- A walk from an end that does not meet one other alone. -/
def Joining.walkOpen (joining : Joining loose) (pieceEnd : LooseEnd loose) : Joining loose :=
  if pieceEnd.1 ∉ joining.used ∧ (endsAt (key loose) (key loose pieceEnd)).length ≠ 2 then joining.walk pieceEnd else joining

/-- A walk over what is left, which are closed rings. -/
def Joining.walkRing (joining : Joining loose) (index : Fin loose.ends.length) : Joining loose :=
  if index ∉ joining.used then joining.walk (index, false) else joining

def joinLoose (loose lines : LayerLines P) : LayerLines P × List (Fin loose.ends.length × Nat × Nat) :=
  let joining := (allEnds loose.ends.length).foldl Joining.walkOpen ⟨∅, lines, []⟩
  let joining := (List.finRange loose.ends.length).foldl Joining.walkRing joining
  (joining.lines, joining.placed)

/-! ### The walk is a run of the joints -/

/-- A walk goes on where the run of the joints does. -/
theorem next_eq {used : Finset (Fin loose.ends.length)} {pieceEnd : LooseEnd loose} (taken : pieceEnd.1 ∈ used) :
    next used pieceEnd = (joints (key loose)).next used pieceEnd := by
  ext other
  rw [Joints.next_eq_some]
  change next used pieceEnd = some other ↔ mate (key loose) (farEnd pieceEnd) = some other ∧ other.1 ∉ used
  rw [mate_eq_some, meetAlone_iff, next]
  constructor
  · intro found
    simp only [ne_eq, ite_not] at found
    split at found
    next two =>
      have free : other.1 ∉ used := by simpa using List.find?_some found
      refine ⟨⟨two, mem_endsAt.mp (List.mem_of_find?_eq_some found), ?_⟩, free⟩
      rintro rfl
      exact free taken
    next => exact absurd found (by simp)
  · rintro ⟨alone, free⟩
    have both := meetAlone_iff.mpr alone
    simp only [ne_eq, alone.1, not_true_eq_false, if_false]
    cases found : (endsAt (key loose) (key loose (farEnd pieceEnd))).find? fun other => other.1 ∉ used with
    | none =>
      have := List.find?_eq_none.mp found other (mem_endsAt.mpr alone.2.1)
      exact absurd free (by simpa using this)
    | some third =>
      have inside := mem_endsAt.mp (List.mem_of_find?_eq_some found)
      rcases (both.2 third).mp inside with rfl | rfl
      · have free := List.find?_some found
        exact absurd taken (of_decide_eq_true free)
      · rfl

/-! ### What a walk writes -/

/-- The points of a piece from the end at which it is entered. -/
def oriented (pieceEnd : LooseEnd loose) : List P :=
  if pieceEnd.2 then (piece loose pieceEnd.1).reverse else piece loose pieceEnd.1

/-- The points of a run: those of its first piece, and of each other one without the first. -/
def runPoints : List (LooseEnd loose) → List P
  | [] => []
  | first :: rest => oriented first ++ rest.flatMap fun pieceEnd => (oriented pieceEnd).drop 1

/-- The style of a run is that of its first piece. -/
def runStyle : List (LooseEnd loose) → Nat
  | [] => 0
  | first :: _ => pieceStyle loose first.1

def Joining.writeAll (joining : Joining loose) (rest : List (LooseEnd loose)) : Joining loose :=
  rest.foldl (Joining.write · true) joining

/-- The pieces of a run written one after another, and its polyline ended. -/
def Joining.writeRun (joining : Joining loose) : List (LooseEnd loose) → Joining loose
  | [] => joining
  | first :: rest =>
    let written := (joining.write false first).writeAll rest
    { written with
      lines := { written.lines with
        ends := written.lines.ends ++ [written.lines.pointsMm.length]
        styles := written.lines.styles ++ [pieceStyle loose first.1] } }

theorem follow_eq {joining : Joining loose} {pieceEnd : LooseEnd loose} (taken : pieceEnd.1 ∈ joining.used) :
    joining.follow pieceEnd = joining.writeAll ((joints (key loose)).path joining.used pieceEnd) := by
  induction joining, pieceEnd using Joining.follow.induct with
  | case1 joining pieceEnd none =>
    rw [Joints.path_none ((next_eq taken).symm.trans none), Joining.follow]
    split
    · rfl
    · simp_all
  | case2 joining pieceEnd other goes ih =>
    rw [Joints.path_some ((next_eq taken).symm.trans goes), Joining.follow]
    split
    · simp_all
    next found =>
      obtain rfl := Option.some.inj (found.symm.trans goes)
      exact ih (Finset.mem_insert_self ..)

theorem walk_eq (joining : Joining loose) (first : LooseEnd loose) :
    joining.walk first = joining.writeRun ((joints (key loose)).run joining.used first) := by
  rw [Joining.walk, follow_eq (Finset.mem_insert_self ..)]
  rfl

theorem used_writeAll (joining : Joining loose) (rest : List (LooseEnd loose)) :
    (joining.writeAll rest).used = (joints (key loose)).usedBy joining.used rest := by
  induction rest generalizing joining with
  | nil => rfl
  | cons next rest ih => exact ih (joining.write true next)

theorem used_writeRun (joining : Joining loose) (run : List (LooseEnd loose)) :
    (joining.writeRun run).used = (joints (key loose)).usedBy joining.used run := by
  cases run with
  | nil => rfl
  | cons first rest => exact used_writeAll (joining.write false first) rest

/-- What a sweep stands for: its runs written into `lines`. -/
def Writes (lines : LayerLines P) (swept : Swept (LooseEnd loose) (Fin loose.ends.length))
    (joining : Joining loose) : Prop :=
  joining = swept.runs.foldl Joining.writeRun ⟨∅, lines, []⟩ ∧ joining.used = swept.used

section Sweep

variable {lines : LayerLines P} {swept : Swept (LooseEnd loose) (Fin loose.ends.length)} {joining : Joining loose}

theorem Writes.walk (writes : Writes lines swept joining) (first : LooseEnd loose) :
    Writes lines ((joints (key loose)).lay swept first) (joining.walk first) := by
  rw [walk_eq, writes.2]
  refine ⟨?_, ?_⟩
  · rw [Joints.lay, List.foldl_append, ← writes.1]
    rfl
  · rw [used_writeRun, writes.2]
    rfl

theorem Writes.walkOpens (writes : Writes lines swept joining) (ends : List (LooseEnd loose)) :
    Writes lines (ends.foldl (joints (key loose)).layOpen swept) (ends.foldl Joining.walkOpen joining) := by
  induction ends generalizing swept joining with
  | nil => exact writes
  | cons pieceEnd ends ih =>
    refine ih ?_
    have same : (pieceEnd.1 ∉ joining.used ∧ (endsAt (key loose) (key loose pieceEnd)).length ≠ 2) ↔
        ((joints (key loose)).item pieceEnd ∉ swept.used ∧ ((joints (key loose)).mate pieceEnd).isNone) := by
      rw [writes.2, ← mate_isNone]
      rfl
    rw [Joining.walkOpen, Joints.layOpen]
    by_cases walks : pieceEnd.1 ∉ joining.used ∧ (endsAt (key loose) (key loose pieceEnd)).length ≠ 2
    · rw [if_pos walks, if_pos (same.mp walks)]
      exact writes.walk pieceEnd
    · rw [if_neg walks, if_neg (mt same.mpr walks)]
      exact writes

theorem Writes.walkRings (writes : Writes lines swept joining) (indices : List (Fin loose.ends.length)) :
    Writes lines ((indices.map fun index => (index, false)).foldl (joints (key loose)).layRing swept)
      (indices.foldl Joining.walkRing joining) := by
  induction indices generalizing swept joining with
  | nil => exact writes
  | cons index indices ih =>
    refine ih ?_
    rw [Joining.walkRing, Joints.layRing, writes.2]
    by_cases free : index ∉ swept.used
    · rw [if_pos free, if_pos (show (joints (key loose)).item (index, false) ∉ swept.used from free)]
      exact writes.walk (index, false)
    · rw [if_neg free, if_neg (show ¬(joints (key loose)).item (index, false) ∉ swept.used from free)]
      exact writes

end Sweep

variable (loose) in
/-- The runs of the loose pieces. -/
def runs : List (List (LooseEnd loose)) :=
  ((joints (key loose)).sweep (allEnds loose.ends.length) ((List.finRange loose.ends.length).map fun index => (index, false))).runs

variable (loose) in
theorem runs_covers : Joints.Covers (joints (key loose)) ((joints (key loose)).sweep (allEnds loose.ends.length)
    ((List.finRange loose.ends.length).map fun index => (index, false))) ∧
    ∀ index, index ∈ ((joints (key loose)).sweep (allEnds loose.ends.length)
      ((List.finRange loose.ends.length).map fun index => (index, false))).used := by
  refine Joints.sweep_covers mem_allEnds fun index => ⟨(index, false), ?_, rfl⟩
  exact List.mem_map.mpr ⟨index, List.mem_finRange index, rfl⟩

/-- The loose lines are joined run by run. -/
theorem joinLoose_eq (lines : LayerLines P) : joinLoose loose lines =
    (((runs loose).foldl Joining.writeRun ⟨∅, lines, []⟩).lines,
      ((runs loose).foldl Joining.writeRun ⟨∅, lines, []⟩).placed) := by
  have begun : Writes lines ⟨∅, []⟩ (⟨∅, lines, []⟩ : Joining loose) := ⟨rfl, rfl⟩
  have written := ((begun.walkOpens (allEnds loose.ends.length)).walkRings (List.finRange loose.ends.length)).1
  rw [joinLoose, written]
  rfl

/-! ### The polylines -/

theorem lines_writeAll (joining : Joining loose) (rest : List (LooseEnd loose)) :
    (joining.writeAll rest).lines = { joining.lines with
      pointsMm := joining.lines.pointsMm ++ rest.flatMap fun pieceEnd => (oriented pieceEnd).drop 1 } := by
  induction rest generalizing joining with
  | nil => simp [Joining.writeAll]
  | cons next rest ih =>
    refine (ih (joining.write true next)).trans ?_
    simp [Joining.write, pushOriented, oriented, List.append_assoc]

/-- A run becomes one polyline. -/
theorem lines_writeRun (joining : Joining loose) {run : List (LooseEnd loose)} (some : run ≠ []) :
    (joining.writeRun run).lines = joining.lines.push (runStyle run) (runPoints run) := by
  cases run with
  | nil => exact absurd rfl some
  | cons first rest =>
    rw [Joining.writeRun]
    simp only [lines_writeAll]
    simp [Joining.write, pushOriented, oriented, push, runStyle, runPoints, List.append_assoc]

theorem styledPolylines_writeRuns {joining : Joining loose} (sound : joining.lines.Sound)
    {runs : List (List (LooseEnd loose))} (some : ∀ run ∈ runs, run ≠ []) :
    (runs.foldl Joining.writeRun joining).lines.Sound ∧
      (runs.foldl Joining.writeRun joining).lines.styledPolylines =
        joining.lines.styledPolylines ++ runs.map fun run => (runStyle run, runPoints run) := by
  induction runs generalizing joining with
  | nil => exact ⟨sound, (List.append_nil _).symm⟩
  | cons run runs ih =>
    have lines := lines_writeRun joining (some run List.mem_cons_self)
    have next : (joining.writeRun run).lines.Sound := lines ▸ sound.push
    obtain ⟨after, polylines⟩ := ih next fun other inside => some other (List.mem_cons_of_mem _ inside)
    refine ⟨after, ?_⟩
    rw [List.foldl_cons, polylines, lines, sound.styledPolylines_push, List.append_assoc]
    rfl

/-! ### The points of the pieces -/

/-- Every polyline has two points or more. -/
def Long (loose : LayerLines P) : Prop :=
  ∀ points ∈ loose.polylines, 2 ≤ points.length

theorem piece_eq (index : Fin loose.ends.length) :
    piece loose index = loose.polylines.get (index.cast length_polylines.symm) := by
  have bound : index.1 < loose.polylines.length := length_polylines.symm ▸ index.2
  simp [piece, List.getD_eq_getElem?_getD, List.getElem?_eq_getElem bound]

theorem oriented_length (long : Long loose) (pieceEnd : LooseEnd loose) : 2 ≤ (oriented pieceEnd).length := by
  have its := long _ (piece_eq pieceEnd.1 ▸ List.get_mem ..)
  rw [oriented]
  split
  · rwa [List.length_reverse]
  · exact its

theorem oriented_head (pieceEnd : LooseEnd loose) : (oriented pieceEnd).head? = endPoint pieceEnd := by
  rw [oriented, endPoint]
  split
  · exact List.head?_reverse
  · rfl

theorem oriented_last (pieceEnd : LooseEnd loose) :
    (oriented pieceEnd).getLast? = endPoint (farEnd pieceEnd) := by
  obtain ⟨index, side⟩ := pieceEnd
  cases side <;> simp [oriented, endPoint, farEnd]

/-- Each piece of a run starts where the one before ends. -/
theorem meets_of_alone {before after : LooseEnd loose} (alone : MeetAlone (key loose) (farEnd before) after) :
    (oriented before).getLast? = (oriented after).head? := by
  have same : key loose after = key loose (farEnd before) := (alone.2 after).mpr (Or.inr rfl)
  rw [oriented_last, oriented_head]
  exact (congrArg Prod.snd same).symm

theorem style_of_alone {before after : LooseEnd loose} (alone : MeetAlone (key loose) (farEnd before) after) :
    pieceStyle loose after.1 = pieceStyle loose before.1 :=
  congrArg Prod.fst ((alone.2 after).mpr (Or.inr rfl))

theorem last_drop {points more : List P} (long : 2 ≤ more.length) :
    (points ++ more.drop 1).getLast? = more.getLast? := by
  obtain ⟨first, second, rest, rfl⟩ : ∃ first second rest, more = first :: second :: rest := by
    match more, long with
    | first :: second :: rest, _ => exact ⟨first, second, rest, rfl⟩
  rw [List.drop_one, List.tail_cons, List.getLast?_append_of_ne_nil _ (by simp), List.getLast?_cons_cons]

/-- The points from `start` up to `stop` are those of the piece of `pieceEnd`, from that end. -/
def Holds (points : List P) (pieceEnd : LooseEnd loose) (placed : Fin loose.ends.length × Nat × Nat) : Prop :=
  placed.1 = pieceEnd.1 ∧ placed.2.2 ≤ points.length ∧ between points placed.2.1 placed.2.2 = oriented pieceEnd

theorem Holds.append {points : List P} {pieceEnd : LooseEnd loose} {placed : Fin loose.ends.length × Nat × Nat}
    (holds : Holds points pieceEnd placed) (more : List P) : Holds (points ++ more) pieceEnd placed := by
  refine ⟨holds.1, holds.2.1.trans (by simp), ?_⟩
  rw [between_append holds.2.1, holds.2.2]

/-- The ranges of `joining` hold the pieces entered at `written`. -/
def Placed (joining : Joining loose) (written : List (LooseEnd loose)) : Prop :=
  List.Forall₂ (Holds joining.lines.pointsMm) written joining.placed

theorem Placed.write {joining : Joining loose} {written : List (LooseEnd loose)} (placed : Placed joining written)
    (joined : Bool) {pieceEnd : LooseEnd loose}
    (its : between (joining.lines.pointsMm ++ (oriented pieceEnd).drop joined.toNat)
      (joining.lines.pointsMm.length - joined.toNat)
      (joining.lines.pointsMm ++ (oriented pieceEnd).drop joined.toNat).length = oriented pieceEnd) :
    Placed (joining.write joined pieceEnd) (written ++ [pieceEnd]) := by
  refine List.rel_append (placed.imp fun _ _ holds => holds.append _) ?_
  exact .cons ⟨rfl, le_rfl, its⟩ .nil

theorem between_first (points its : List P) :
    between (points ++ its) points.length (points ++ its).length = its := by
  rw [between, List.take_length, List.drop_left]

/-- A piece that starts at the last point shares it. -/
theorem between_joined {points its : List P} (meets : points.getLast? = its.head?) (long : 2 ≤ its.length) :
    between (points ++ its.drop 1) (points.length - 1) (points ++ its.drop 1).length = its := by
  obtain ⟨first, rest, rfl⟩ := List.exists_cons_of_length_pos (by omega : 0 < its.length)
  obtain ⟨before, rfl⟩ := List.getLast?_eq_some_iff.mp meets
  rw [between, List.take_length, List.drop_one, List.tail_cons, List.append_assoc]
  simp

theorem Placed.writeAll (long : Long loose) {joining : Joining loose} {written rest : List (LooseEnd loose)}
    (placed : Placed joining written) {before : LooseEnd loose}
    (ends : joining.lines.pointsMm.getLast? = (oriented before).getLast?)
    (joined : (before :: rest).IsChain fun a b => MeetAlone (key loose) (farEnd a) b) :
    Placed (joining.writeAll rest) (written ++ rest) := by
  induction rest generalizing joining written before with
  | nil => simpa [Joining.writeAll] using placed
  | cons next rest ih =>
    obtain ⟨alone, after⟩ := List.isChain_cons_cons.mp joined
    have meets := ends.trans (meets_of_alone alone)
    have written' := placed.write true (between_joined meets (oriented_length long next))
    rw [List.append_cons]
    exact ih written' (last_drop (oriented_length long next)) after

theorem Placed.writeRun (long : Long loose) {joining : Joining loose} {written run : List (LooseEnd loose)}
    (placed : Placed joining written) (joined : run.IsChain fun a b => MeetAlone (key loose) (farEnd a) b) :
    Placed (joining.writeRun run) (written ++ run) := by
  cases run with
  | nil => simpa [Joining.writeRun] using placed
  | cons first rest =>
    have written' := placed.write false (between_first _ (oriented first))
    have ends : (joining.write false first).lines.pointsMm.getLast? = (oriented first).getLast? := by
      have two := oriented_length long first
      refine List.getLast?_append_of_ne_nil _ fun nothing => ?_
      have none : oriented first = [] := nothing
      exact absurd (none ▸ two) (by simp)
    rw [List.append_cons]
    exact Placed.writeAll long written' ends joined

theorem Placed.writeRuns (long : Long loose) {joining : Joining loose} {written : List (LooseEnd loose)}
    (placed : Placed joining written) {runs : List (List (LooseEnd loose))}
    (joined : ∀ run ∈ runs, run.IsChain fun a b => MeetAlone (key loose) (farEnd a) b) :
    Placed (runs.foldl Joining.writeRun joining) (written ++ runs.flatten) := by
  induction runs generalizing joining written with
  | nil => simpa using placed
  | cons run runs ih =>
    rw [List.flatten_cons, ← List.append_assoc]
    refine ih (placed.writeRun long (joined run List.mem_cons_self)) fun other inside => ?_
    exact joined other (List.mem_cons_of_mem _ inside)

/-! ### The straight pieces -/

/-- A piece with its style. -/
def styledPiece (pieceEnd : LooseEnd loose) : Nat × List P := (pieceStyle loose pieceEnd.1, piece loose pieceEnd.1)

theorem undirected_oriented (pieceEnd : LooseEnd loose) :
    (undirected (oriented pieceEnd)).Perm (undirected (piece loose pieceEnd.1)) := by
  rw [oriented]
  split
  · exact undirected_reverse _
  · exact .refl _

theorem undirected_rest (long : Long loose) {points : List P} {before : LooseEnd loose}
    {rest : List (LooseEnd loose)} (ends : points.getLast? = (oriented before).getLast?)
    (joined : (before :: rest).IsChain fun a b => MeetAlone (key loose) (farEnd a) b) :
    (undirected (points ++ rest.flatMap fun pieceEnd => (oriented pieceEnd).drop 1)).Perm
      (undirected points ++ rest.flatMap fun pieceEnd => undirected (piece loose pieceEnd.1)) := by
  induction rest generalizing points before with
  | nil => simp
  | cons next rest ih =>
    obtain ⟨alone, after⟩ := List.isChain_cons_cons.mp joined
    have last : (points ++ (oriented next).drop 1).getLast? = (oriented next).getLast? :=
      last_drop (oriented_length long next)
    rw [List.flatMap_cons, List.flatMap_cons, ← List.append_assoc]
    refine (ih last after).trans ?_
    rw [undirected_joined (ends.trans (meets_of_alone alone)), List.append_assoc]
    exact ((undirected_oriented next).append_right _).append_left _

theorem undirected_runPoints (long : Long loose) {run : List (LooseEnd loose)}
    (joined : run.IsChain fun a b => MeetAlone (key loose) (farEnd a) b) :
    (undirected (runPoints run)).Perm (run.flatMap fun pieceEnd => undirected (piece loose pieceEnd.1)) := by
  cases run with
  | nil => exact .nil
  | cons first rest =>
    rw [List.flatMap_cons]
    exact (undirected_rest long rfl joined).trans ((undirected_oriented first).append_right _)

theorem style_of_mem {run : List (LooseEnd loose)} (joined : run.IsChain fun a b => MeetAlone (key loose) (farEnd a) b) :
    ∀ pieceEnd ∈ run, pieceStyle loose pieceEnd.1 = runStyle run := by
  induction run with
  | nil => simp
  | cons first rest ih =>
    intro pieceEnd inside
    rcases List.mem_cons.mp inside with rfl | later
    · rfl
    · cases rest with
      | nil => exact absurd later List.not_mem_nil
      | cons next rest =>
        obtain ⟨alone, after⟩ := List.isChain_cons_cons.mp joined
        exact (ih after pieceEnd later).trans (style_of_alone alone)

/-- A run has the straight pieces of what it is made of. -/
theorem straight_run (long : Long loose) {run : List (LooseEnd loose)}
    (joined : run.IsChain fun a b => MeetAlone (key loose) (farEnd a) b) (style : Nat) :
    (straightOf [(runStyle run, runPoints run)] style).Perm (straightOf (run.map styledPiece) style) := by
  have styles : ∀ each ∈ run.map styledPiece, each.1 = runStyle run := by
    intro each inside
    obtain ⟨pieceEnd, member, rfl⟩ := List.mem_map.mp inside
    exact style_of_mem joined pieceEnd member
  have style' : ∀ each ∈ [(runStyle run, runPoints run)], each.1 = runStyle run := by simp
  rw [straightOf_uniform styles, straightOf_uniform style']
  split
  · simpa [List.flatMap_map, styledPiece] using undirected_runPoints long joined
  · exact .nil

theorem straight_runs (long : Long loose) {runs : List (List (LooseEnd loose))}
    (joined : ∀ run ∈ runs, run.IsChain fun a b => MeetAlone (key loose) (farEnd a) b) (style : Nat) :
    (straightOf (runs.map fun run => (runStyle run, runPoints run)) style).Perm
      (straightOf (runs.flatten.map styledPiece) style) := by
  induction runs with
  | nil => exact .nil
  | cons run runs ih =>
    have rest := ih fun other inside => joined other (List.mem_cons_of_mem _ inside)
    have split : straightOf (List.map (fun run => (runStyle run, runPoints run)) (run :: runs)) style =
        straightOf [(runStyle run, runPoints run)] style ++
          straightOf (runs.map fun run => (runStyle run, runPoints run)) style :=
      straightOf_append [_] _ style
    rw [split, List.flatten_cons, List.map_append, straightOf_append]
    exact (straight_run long (joined run List.mem_cons_self) style).append rest

/-- The loose polylines with their styles, piece by piece. -/
theorem styledPolylines_loose (styled : loose.styles.length = loose.ends.length) :
    loose.styledPolylines =
      (List.finRange loose.ends.length).map fun index => (pieceStyle loose index, piece loose index) := by
  refine List.ext_getElem ?_ fun index first second => ?_
  · simp [styledPolylines, styled, length_polylines]
  · have inPieces : index < loose.polylines.length := by
      simpa [length_polylines] using second
    have inStyles : index < loose.styles.length := by
      simpa [styled] using second
    simp [styledPolylines, pieceStyle, piece, inPieces, inStyles]

/-! ### Nothing is lost -/

/-- The two ends are the outer ends of a run. -/
def Closes (run : List (LooseEnd loose)) (first second : LooseEnd loose) : Prop :=
  run.getLast?.map farEnd = some first ∧ run.head? = some second

/-- `out` and `placed` are the loose pieces joined along `runs`, after `lines`. -/
structure JoinedUp (loose lines out : LayerLines P) (placed : List (Fin loose.ends.length × Nat × Nat))
    (runs : List (List (LooseEnd loose))) : Prop where
  /-- Each piece is entered once, at one of its ends. -/
  once : (runs.flatten.map Prod.fst).Perm (List.finRange loose.ends.length)
  polylines : out.styledPolylines =
    lines.styledPolylines ++ runs.map fun run => (runStyle run, runPoints run)
  /-- A piece is joined to the one before it where no third end of the style is. -/
  met : ∀ run ∈ runs, run.IsChain fun before after => MeetAlone (key loose) (farEnd before) after
  /-- Two ends that meet alone are joined, or close a ring. -/
  joined : ∀ first second : LooseEnd loose, MeetAlone (key loose) first second → ∃ run ∈ runs,
    (Follows run (farEnd first) second ∨ Follows run (farEnd second) first) ∨
      Closes run first second ∨ Closes run second first
  /-- The range reported for each piece holds its points, in the order it was entered. -/
  placed : List.Forall₂ (Holds out.pointsMm) runs.flatten placed

/-- **Joining loose lines loses nothing**: every piece is written once, joined where exactly two ends of its
style meet and nowhere else, and the straight pieces of each style stay. -/
theorem joinLoose_loses_nothing {loose lines : LayerLines P} (long : Long loose)
    (styled : loose.styles.length = loose.ends.length) (sound : lines.Sound) :
    (∃ runs, JoinedUp loose lines (joinLoose loose lines).1 (joinLoose loose lines).2 runs) ∧
      (joinLoose loose lines).1.Sound ∧
      ∀ style, (joinLoose loose lines).1.straight style = lines.straight style + loose.straight style := by
  obtain ⟨covers, all⟩ := runs_covers loose
  have met : ∀ run ∈ runs loose, run.IsChain fun before after => MeetAlone (key loose) (farEnd before) after := by
    intro run inside
    exact (covers.joined run inside).imp fun _ _ mated => mate_eq_some.mp mated
  have some : ∀ run ∈ runs loose, run ≠ [] := by
    rintro run inside rfl
    obtain ⟨_, _, first, -⟩ := covers.ended [] inside
    exact absurd first (by simp)
  have once : ((runs loose).flatten.map Prod.fst).Perm (List.finRange loose.ends.length) := by
    refine (List.perm_ext_iff_of_nodup covers.once (List.nodup_finRange _)).mpr fun index => ?_
    refine iff_of_true ?_ (List.mem_finRange index)
    obtain ⟨run, inside, pieceEnd, member, same⟩ := (covers.used index).mp (all index)
    exact List.mem_map.mpr ⟨pieceEnd, List.mem_flatten.mpr ⟨run, inside, member⟩, same⟩
  have start : (⟨∅, lines, []⟩ : Joining loose).lines.Sound := sound
  obtain ⟨after, polylines⟩ := styledPolylines_writeRuns start some
  rw [joinLoose_eq]
  refine ⟨⟨runs loose, once, polylines, met, ?_, ?_⟩, after, fun style => ?_⟩
  · intro first second alone
    exact covers.mates_joined (all first.1) (mate_eq_some.mpr alone)
  · have begun : Placed (⟨∅, lines, []⟩ : Joining loose) [] := .nil
    exact begun.writeRuns long met
  · have pieces : ((runs loose).flatten.map styledPiece).Perm loose.styledPolylines := by
      have each := once.map fun index => (pieceStyle loose index, piece loose index)
      rw [List.map_map] at each
      exact styledPolylines_loose styled ▸ each
    rw [straight, polylines, straightOf_append, ← Multiset.coe_add]
    refine congrArg (straight lines style + ·) (Multiset.coe_eq_coe.mpr ?_)
    exact (straight_runs long met style).trans (straightOf_perm pieces style)

/-- Two strokes of a style that meet at a point, a third of another style that ends there too, and a closed
one. -/
def fourStrokes : LayerLines Nat where
  pointsMm := [1, 2, 5, 3, 2, 2, 4, 6, 7, 8, 6]
  ends := [2, 5, 7, 11]
  styles := [0, 0, 1, 0]

theorem fourStrokes_lose_nothing :
    (∃ runs, JoinedUp fourStrokes ⟨[], [], []⟩ (joinLoose fourStrokes ⟨[], [], []⟩).1
      (joinLoose fourStrokes ⟨[], [], []⟩).2 runs) ∧
      (joinLoose fourStrokes ⟨[], [], []⟩).1.Sound ∧
      ∀ style, (joinLoose fourStrokes ⟨[], [], []⟩).1.straight style =
        (⟨[], [], []⟩ : LayerLines Nat).straight style + fourStrokes.straight style :=
  joinLoose_loses_nothing (by unfold Long; decide) rfl ⟨rfl, by decide, rfl⟩

end Ketchup.Underlay
