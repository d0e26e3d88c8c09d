import Pacman.Theorems.Band
import Pacman.Theorems.Contact

/-! The choice of a ghost at an intersection. At a three-way junction it takes a side that brings it
    closer to Pac-Man if there is one; in a corridor it turns back when its random field is 3 and goes on
    otherwise, and the field moves on by one at every intersection. -/

namespace Pacman
open Lattice Walker

def Turns.openCount (t : Turns) : ℕ := t.turnL.toNat + t.turnR.toNat + t.turnU.toNat + t.turnD.toNat

theorem Turns.eq_of_toward {t : Turns} {f : Dir → Bool} (h : t.toward = f) :
    t = { turnL := f .left, turnR := f .right, turnU := f .up, turnD := f .down } := by
  subst h
  rfl

namespace GhostMotion

variable {g : GhostMotion} {w : Walls} {pacX pacY : BitVec 10} {randomness : BitVec 16} {d : Dir}

/-! ### The step of a turn -/

theorem inField_cell (g : GhostMotion) : InField g.cell := by
  have hx := g.ghostXPos.isLt
  have hy := g.ghostYPos.isLt
  simp only [InField, cell]
  omega

theorem turns_cell (g : GhostMotion) (d : Dir) : (g.turns w).toward d = side w g.cell d := by
  unfold turns side cell
  rw [high_bits_eq, high_bits_eq, Int.toNat_natCast, Int.toNat_natCast]

theorem headingMotion_toInt (d : Dir) :
    (headingMotion (some d)).x.toInt = d.dx ∧ (headingMotion (some d)).y.toInt = d.dy :=
  ⟨toInt_word (stepX_bounds (some d)), toInt_word (stepY_bounds (some d))⟩

/-- A ghost that turns into an open side moves by one step without wrapping. -/
theorem leaves_of_turn (hat : g.atIntersection = true)
    (hm : g.turnMotion w pacX pacY randomness = headingMotion (some d)) (hd : (g.turns w).toward d = true) :
    Leaves g (g.moveGhost w pacX pacY randomness) d := by
  have hnext : InField (next g.cell d) := inField_of_side g.inField_cell ((g.turns_cell d).symm.trans hd)
  have hfinal : g.motionFinal w pacX pacY randomness = headingMotion (some d) := by
    simp only [motionFinal, hat, Bool.true_eq_false, if_false, hm]
  rw [atIntersection_eq, decide_eq_true_iff] at hat
  obtain ⟨hx, hy⟩ := headingMotion_toInt d
  simp only [InField, next, cell] at hnext
  have hxPos := Bits.toNat_add_toInt (p := g.ghostXPos) (m := (headingMotion (some d)).x)
    (by rw [hx]; omega) (by rw [hx]; omega)
  have hyPos := Bits.toNat_add_toInt (p := g.ghostYPos) (m := (headingMotion (some d)).y)
    (by rw [hy]; omega) (by rw [hy]; omega)
  unfold Leaves moveGhost
  dsimp only
  rw [hfinal, hxPos, hyPos, hx, hy]
  omega

/-! ### Three-way junctions -/

/-- The distance of a point from Pac-Man, in pixels along both axes. -/
def distance (x y : ℤ) (pacX pacY : BitVec 10) : ℕ := (x - pacX.toNat).natAbs + (y - pacY.toNat).natAbs

/-- One step in direction `d` brings the ghost closer to Pac-Man. -/
def Closer (g : GhostMotion) (pacX pacY : BitVec 10) (d : Dir) : Prop :=
  distance (g.ghostXPos.toNat + d.dx) (g.ghostYPos.toNat + d.dy) pacX pacY <
    distance g.ghostXPos.toNat g.ghostYPos.toNat pacX pacY

/-- The turn at a junction with one closed side, for the coordinates of the ghost and of Pac-Man. -/
def threeWay (gx gy px py : ℕ) : Dir → Dir
  | .down => if py < gy then .up else if px < gx then .left else .right
  | .up => if gy < py then .down else if px < gx then .left else .right
  | .right => if px < gx then .left else if py < gy then .up else .down
  | .left => if gx < px then .right else if py < gy then .up else .down

theorem turnMotion_three (randomness : BitVec 16) (hx : Near g.ghostXPos pacX) (hy : Near g.ghostYPos pacY) {closed : Dir}
    (h : (g.turns w).toward = fun d => decide (d ≠ closed)) :
    g.turnMotion w pacX pacY randomness = headingMotion (some
      (threeWay g.ghostXPos.toNat g.ghostYPos.toNat pacX.toNat pacY.toNat closed)) := by
  have ht := Turns.eq_of_toward h
  unfold turnMotion
  rw [goL_eq, goR_eq, goU_eq, goD_eq, tooFarHigh_eq hx, tooFarLow_eq hx, tooFarHigh_eq hy, tooFarLow_eq hy, ht]
  cases closed <;> simp only [threeWay, decide_eq_true_eq] <;> (repeat' split) <;> first | rfl | contradiction

theorem threeWay_ne_closed (gx gy px py : ℕ) (closed : Dir) : threeWay gx gy px py closed ≠ closed := by
  cases closed <;> simp only [threeWay] <;> (repeat' split) <;> simp

theorem closer_iff : g.Closer pacX pacY d ↔
    match d with
    | .left => pacX.toNat < g.ghostXPos.toNat
    | .right => g.ghostXPos.toNat < pacX.toNat
    | .up => pacY.toNat < g.ghostYPos.toNat
    | .down => g.ghostYPos.toNat < pacY.toNat := by
  cases d <;> simp only [Closer, distance, Dir.dx, Dir.dy] <;> omega

/-- The turn taken at a junction is closer when any open side is. -/
theorem threeWay_closer {closed e : Dir} (he : e ≠ closed) (hcloser : g.Closer pacX pacY e) :
    g.Closer pacX pacY (threeWay g.ghostXPos.toNat g.ghostYPos.toNat pacX.toNat pacY.toNat closed) := by
  rw [closer_iff] at hcloser
  cases closed <;> cases e <;> first | exact absurd rfl he | simp only [threeWay] at hcloser ⊢
  all_goals
    repeat' split
    all_goals
      rw [closer_iff]
      dsimp only
      omega

theorem closed_of_openCount {t : Turns} (h : t.openCount = 3) :
    ∃ closed, t.toward = fun d => decide (d ≠ closed) := by
  obtain ⟨l, r, u, dn⟩ := t
  cases l <;> cases r <;> cases u <;> cases dn <;> try cases h
  · exact ⟨.left, by funext d; cases d <;> rfl⟩
  · exact ⟨.right, by funext d; cases d <;> rfl⟩
  · exact ⟨.up, by funext d; cases d <;> rfl⟩
  · exact ⟨.down, by funext d; cases d <;> rfl⟩

/-- Greedy chase: at an intersection with three open sides a ghost leaves by one of them, and it gets
    closer to Pac-Man whenever one of them leads closer. -/
theorem three_way_chase (w : Walls) (g : GhostMotion) (pacX pacY : BitVec 10) (randomness : BitVec 16)
    (hat : g.atIntersection = true) (hthree : (g.turns w).openCount = 3) (hx : Near g.ghostXPos pacX)
    (hy : Near g.ghostYPos pacY) :
    let g' := g.moveGhost w pacX pacY randomness
    ∃ d, (g.turns w).toward d = true ∧ Leaves g g' d ∧
      ((∃ e, (g.turns w).toward e = true ∧ g.Closer pacX pacY e) →
        distance g'.ghostXPos.toNat g'.ghostYPos.toNat pacX pacY <
          distance g.ghostXPos.toNat g.ghostYPos.toNat pacX pacY) := by
  intro g'
  obtain ⟨closed, hclosed⟩ := closed_of_openCount hthree
  have hm := turnMotion_three randomness hx hy hclosed
  have hopen := threeWay_ne_closed g.ghostXPos.toNat g.ghostYPos.toNat pacX.toNat pacY.toNat closed
  have hstep : Leaves g g' _ := leaves_of_turn hat hm (by simpa [hclosed] using hopen)
  refine ⟨_, by simpa [hclosed] using hopen, hstep, ?_⟩
  rintro ⟨e, he, hcloser⟩
  have hne : e ≠ closed := by simpa [hclosed] using he
  have hgoal := threeWay_closer hne hcloser
  unfold Closer at hgoal
  rwa [← hstep.1, ← hstep.2, add_sub_cancel, add_sub_cancel] at hgoal

/-- A ghost above the pen of level 1 goes left, towards Pac-Man at his start. -/
theorem three_way_chase_above_pen :
    distance ((reset 6 5).moveGhost (getWalls 0b01 false) 160 160 0).ghostXPos.toNat
        ((reset 6 5).moveGhost (getWalls 0b01 false) 160 160 0).ghostYPos.toNat 160 160 <
      distance (reset 6 5).ghostXPos.toNat (reset 6 5).ghostYPos.toNat 160 160 := by
  have hleft : ((reset 6 5).turns (getWalls 0b01 false)).toward .left = true := by decide +kernel
  obtain ⟨_, -, -, h⟩ := three_way_chase (getWalls 0b01 false) (reset 6 5) 160 160 0 (by decide)
    (by decide +kernel) (by unfold Near; decide) (by unfold Near; decide)
  exact h ⟨.left, hleft, by rw [closer_iff]; decide⟩

/-! ### Corridors -/

theorem currRand_eq (g : GhostMotion) (randomness : BitVec 16) :
    g.currRand randomness = randomness.extractLsb' (2 * g.counterRand.toNat) 2 := by
  have hlt := g.counterRand.isLt
  unfold currRand
  generalize g.counterRand.toNat = n at *
  interval_cases n <;> rfl

theorem toNat_nextCounterRand (g : GhostMotion) :
    g.nextCounterRand.toNat = (g.counterRand.toNat + if g.atIntersection then 1 else 0) % 8 := by
  have hlt := g.counterRand.isLt
  unfold nextCounterRand
  cases g.atIntersection with
  | false =>
    simp only [if_true, Bool.false_eq_true, if_false]
    omega
  | true =>
    simp only [Bool.true_eq_false, if_false, if_true]
    generalize g.counterRand.toNat = n at *
    interval_cases n <;> rfl

theorem turnMotion_one (h : (g.turns w).toward = fun e => decide (e = d)) :
    g.turnMotion w pacX pacY randomness = headingMotion (some d) := by
  have ht := Turns.eq_of_toward h
  unfold turnMotion
  rw [goL_eq, goR_eq, goU_eq, goD_eq, ht]
  cases d <;> rfl

/-- A corridor between the sides `d₁`, which the ghost came through, and `d₂`. -/
theorem turnMotion_two (pacX pacY : BitVec 10) (randomness : BitVec 16) {p : Place Node Dir}
    {d₁ d₂ : Dir} (hd : g.DrawnAt p) (hhead : p.heading = some d₁.back)
    (hne : d₁ ≠ d₂) (h : (g.turns w).toward = fun e => decide (e = d₁ ∨ e = d₂)) :
    g.turnMotion w pacX pacY randomness =
      headingMotion (some (if g.currRand randomness = 0b11 then d₁ else d₂)) := by
  have ht := Turns.eq_of_toward h
  obtain ⟨hl, -, hu, hdn⟩ := heading_eq hd
  unfold turnMotion
  rw [goL_eq, goR_eq, goU_eq, goD_eq, ht, hl, hu, hdn, hhead]
  by_cases hback : g.currRand randomness = 0b11
  · simp only [hback, decide_true, if_true]
    cases d₁ <;> cases d₂ <;> first | exact absurd rfl hne | rfl
  · simp only [hback, decide_false, Bool.false_eq_true, if_false]
    cases d₁ <;> cases d₂ <;> first | exact absurd rfl hne | rfl

end GhostMotion

open GhostMotion

section Corridor
variable {xStart yStart : BitVec 5}

/-- The frames at which the ghost stood at an intersection before now. -/
def intersections (xStart yStart : BitVec 5) (frames : List GhostFrame) : ℕ :=
  Machine.visits GhostMotion.frame atIntersection (GhostMotion.reset xStart yStart) frames

theorem counterRand_ghostRun (frames : List GhostFrame) :
    (ghostRun xStart yStart frames).counterRand.toNat = intersections xStart yStart frames % 8 := by
  induction frames using List.reverseRecOn with
  | nil => rfl
  | append_singleton frames f ih =>
    have hnext : (ghostRun xStart yStart (frames ++ [f])).counterRand =
        (ghostRun xStart yStart frames).nextCounterRand := by
      unfold ghostRun
      rw [Machine.run_snoc]
      rfl
    have hvisits : intersections xStart yStart (frames ++ [f]) = intersections xStart yStart frames +
        if (ghostRun xStart yStart frames).atIntersection then 1 else 0 :=
      Machine.visits_snoc ..
    rw [hnext, toNat_nextCounterRand, ih, hvisits]
    exact Nat.mod_add_mod ..

/-- The ghost came to where it is through the side `d` of its cell. -/
def CameThrough (xStart yStart : BitVec 5) (frames : List GhostFrame) (d : Dir) : Prop :=
  ∃ before last, frames = before ++ [last] ∧
    Leaves (ghostRun xStart yStart before) (ghostRun xStart yStart frames) d.back

theorem CameThrough.heading {frames : List GhostFrame} {d : Dir} (h : CameThrough xStart yStart frames d) :
    ∃ p, (ghostRun xStart yStart frames).DrawnAt p ∧ p.heading = some d.back := by
  obtain ⟨before, last, rfl, hstep⟩ := h
  have hrun : ghostRun xStart yStart (before ++ [last]) = (ghostRun xStart yStart before).frame last :=
    Machine.run_snoc ..
  rw [hrun] at hstep ⊢
  obtain ⟨p, hp, hlegal⟩ := ghostRun_drawnAt_field xStart yStart before
  obtain ⟨q, e, hq, hhead, hstep'⟩ := ghost_step hp hlegal last
  exact ⟨q, hq, hhead.trans (congrArg some (hstep'.unique hstep))⟩

/-- Corridor law: with two open sides a ghost turns back through the one it came through exactly when its
    random field is 3, and else leaves by the other one; with one open side it leaves by that one. The
    field is picked by the number of intersections before, modulo 8. -/
theorem corridor_law (xStart yStart : BitVec 5) (frames : List GhostFrame) (f : GhostFrame)
    (hat : (ghostRun xStart yStart frames).atIntersection = true) :
    let g := ghostRun xStart yStart frames
    let k := intersections xStart yStart frames
    let r := f.randomness.extractLsb' (2 * (k % 8)) 2
    (∀ d₁ d₂, d₁ ≠ d₂ → (∀ d, (g.turns f.walls).toward d = true ↔ d = d₁ ∨ d = d₂) →
      CameThrough xStart yStart frames d₁ →
        (Leaves g (g.frame f) d₁ ↔ r = 3) ∧ (r ≠ 3 → Leaves g (g.frame f) d₂)) ∧
    (∀ d, (∀ e, (g.turns f.walls).toward e = true ↔ e = d) → Leaves g (g.frame f) d) := by
  intro g k r
  have hr : g.currRand f.randomness = r := by
    rw [currRand_eq, counterRand_ghostRun]
  refine ⟨fun d₁ d₂ hne hopen hcame => ?_, fun d hopen => ?_⟩
  · obtain ⟨p, hp, hhead⟩ := hcame.heading
    have hsides : (g.turns f.walls).toward = fun e => decide (e = d₁ ∨ e = d₂) := by
      funext e
      rw [Bool.eq_iff_iff, hopen, decide_eq_true_iff]
    have hm := turnMotion_two f.pacX f.pacY f.randomness hp hhead hne hsides
    rw [hr] at hm
    by_cases hback : r = 3
    · rw [if_pos hback] at hm
      exact ⟨iff_of_true (leaves_of_turn hat hm ((hopen _).mpr (Or.inl rfl))) hback, fun h => absurd hback h⟩
    · rw [if_neg hback] at hm
      have hother := leaves_of_turn hat hm ((hopen _).mpr (Or.inr rfl))
      exact ⟨iff_of_false (fun h => hne (h.unique hother)) hback, fun _ => hother⟩
  · have hsides : (g.turns f.walls).toward = fun e => decide (e = d) := by
      funext e
      rw [Bool.eq_iff_iff, hopen, decide_eq_true_iff]
    exact leaves_of_turn hat (turnMotion_one hsides) ((hopen d).mpr rfl)

/-- In the pen a ghost whose random field is not 3 comes down from its start cell and goes on to the
    right. -/
theorem corridor_law_pen :
    let f : GhostFrame := { walls := getWalls 0b01 true, pacX := 160, pacY := 160, randomness := 0 }
    Leaves (ghostRun 6 6 (List.replicate 32 f)) ((ghostRun 6 6 (List.replicate 32 f)).frame f) .right := by
  intro f
  have hopen : ∀ d, ((ghostRun 6 6 (List.replicate 32 f)).turns f.walls).toward d = true ↔
      d = .up ∨ d = .right := by
    intro d
    cases d <;> decide +kernel
  have hcame : CameThrough 6 6 (List.replicate 32 f) .up :=
    ⟨List.replicate 31 f, f, List.replicate_succ', by unfold Leaves; decide +kernel⟩
  exact ((corridor_law 6 6 (List.replicate 32 f) f (by decide +kernel)).1 .up .right (by decide) hopen hcame).2
    (by decide +kernel)

end Corridor

end Pacman
