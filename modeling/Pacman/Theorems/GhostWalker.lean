import Pacman.GhostMotion
import Pacman.Theorems.Drawing

/-! A ghost is a walker that never stops: at an intersection it turns into an open side, or up when every
    side is closed, and between intersections it goes on. -/

namespace Pacman
open Bits Lattice Walker

namespace GhostMotion

abbrev DrawnAt (g : GhostMotion) (p : Place Node Dir) : Prop :=
  Depicts p g.ghostXPos g.ghostYPos g.ghostXMotion g.ghostYMotion

theorem drawnAt_reset (xStart yStart : BitVec 5) :
    (reset xStart yStart).DrawnAt (.node (xStart.toNat, yStart.toNat) none) := by
  have hcell : ∀ v : BitVec 5, ((v ++ 0#5).toNat : ℤ) = 32 * v.toNat := fun v => by
    have hlt := v.isLt
    rw [BitVec.toNat_append]
    simp [Nat.shiftLeft_eq]
    omega
  exact ⟨hcell xStart, hcell yStart, rfl, rfl⟩

variable {g : GhostMotion} {p : Place Node Dir} {w : Walls} {pacX pacY : BitVec 10} {randomness : BitVec 16}

theorem atIntersection_eq (g : GhostMotion) :
    g.atIntersection = decide (g.ghostXPos.toNat % 32 = 0 ∧ g.ghostYPos.toNat % 32 = 0) := by
  rw [Bool.decide_and, ← low_bits_eq, ← low_bits_eq]
  rfl

theorem atIntersection_on_node {c : Node} {h : Option Dir} (hd : g.DrawnAt (.node c h)) :
    g.atIntersection = true := by
  rw [atIntersection_eq, decide_eq_true_iff]
  exact hd.on_node

theorem atIntersection_in_edge {c : Node} {d : Dir} {k : ℕ} (hd : g.DrawnAt (.edge c d k)) (h0 : 0 < k)
    (hk : k < cellSize) : g.atIntersection = false := by
  rw [atIntersection_eq, decide_eq_false_iff_not]
  exact hd.off_node h0 hk

theorem heading_eq (hd : g.DrawnAt p) :
    g.left = decide (p.heading = some .left) ∧ g.right = decide (p.heading = some .right) ∧
      g.up = decide (p.heading = some .up) ∧ g.down = decide (p.heading = some .down) :=
  hd.direction_bits

theorem turns_toward {c : Node} {h : Option Dir} (hd : g.DrawnAt (.node c h)) :
    (g.turns w).toward = side w c := by
  funext d
  unfold turns side
  rw [hd.cell.1, hd.cell.2]

def cell (g : GhostMotion) : Node := ((g.ghostXPos.toNat / 32 : ℕ), (g.ghostYPos.toNat / 32 : ℕ))

theorem cell_of_node {c : Node} {h : Option Dir} (hd : g.DrawnAt (.node c h)) : g.cell = c := by
  have hx := hd.xPos_eq
  have hy := hd.yPos_eq
  simp only [pos_node, cellSize] at hx hy
  exact Prod.ext (by simp only [cell]; omega) (by simp only [cell]; omega)

theorem goL_eq : goL = headingMotion (some .left) := by decide

theorem goR_eq : goR = headingMotion (some .right) := by decide

theorem goU_eq : goU = headingMotion (some .up) := by decide

theorem goD_eq : goD = headingMotion (some .down) := by decide

/-- From `g` to `g'` a ghost moves by one pixel in direction `d`. -/
def Leaves (g g' : GhostMotion) (d : Dir) : Prop :=
  (g'.ghostXPos.toNat : ℤ) - g.ghostXPos.toNat = d.dx ∧ (g'.ghostYPos.toNat : ℤ) - g.ghostYPos.toNat = d.dy

theorem Leaves.unique {g' : GhostMotion} {d e : Dir} (hd : Leaves g g' d) (he : Leaves g g' e) : d = e :=
  Dir.eq_of_step (hd.1.symm.trans he.1) (hd.2.symm.trans he.2)

/-- The turns that a ghost makes: through an open side, or up when no side is open. -/
def TurnsInto (sides : Dir → Bool) (d : Dir) : Prop := sides d = true ∨ (∀ d', sides d' = false) ∧ d = .up

theorem turnMotion_turnsInto (g : GhostMotion) (w : Walls) (pacX pacY : BitVec 10) (randomness : BitVec 16) :
    ∃ d, g.turnMotion w pacX pacY randomness = headingMotion (some d) ∧ TurnsInto (g.turns w).toward d := by
  unfold turnMotion
  rw [goL_eq, goR_eq, goU_eq, goD_eq]
  obtain ⟨l, r, u, dn⟩ := g.turns w
  dsimp only
  repeat' split
  all_goals
    first
    | exact ⟨.left, rfl, Or.inl rfl⟩
    | exact ⟨.right, rfl, Or.inl rfl⟩
    | exact ⟨.up, rfl, Or.inl rfl⟩
    | exact ⟨.down, rfl, Or.inl rfl⟩
    | exact ⟨.up, rfl, Or.inr ⟨fun d => by cases d <;> rfl, rfl⟩⟩

/-- One frame edge of `ghost_motion`: at an intersection a turn that a ghost makes, between intersections
    onwards, as a move of the walker. -/
theorem drawnAt_moveGhost (w : Walls) (pacX pacY : BitVec 10) (randomness : BitVec 16)
    {E : Node → Dir → Prop} {good : Node → Prop} (hc : Closed grid E good)
    (hturn : ∀ c d, good c → TurnsInto (side w c) d → E c d) (hE : ∀ c d, E c d → FieldEdge c d)
    (hgood : ∀ c, good c → InField c) (hd : g.DrawnAt p) (hp : Legal cellSize E good p) :
    ∃ turn, (∀ c h, p = .node c h → ∃ d, turn = some d ∧ TurnsInto (side w c) d ∧
        g.turnMotion w pacX pacY randomness = headingMotion (some d)) ∧
      (g.moveGhost w pacX pacY randomness).DrawnAt (move grid cellSize turn false p) ∧
      Legal cellSize E good (move grid cellSize turn false p) := by
  cases p with
  | node c h =>
    obtain ⟨d, hm, hd'⟩ := turnMotion_turnsInto g w pacX pacY randomness
    rw [turns_toward hd] at hd'
    have hp' : Legal cellSize E good (move grid cellSize (some d) false (.node c h)) :=
      Legal.advance hc 0 (hturn c d hp hd')
    have hfinal : g.motionFinal w pacX pacY randomness = headingMotion (some d) := by
      simp only [motionFinal, atIntersection_on_node hd, Bool.true_eq_false, if_false, hm]
    refine ⟨some d, fun c' h' heq => ?_, ?_, hp'⟩
    · cases heq
      exact ⟨d, rfl, hd', hm⟩
    · exact Depicts.move hd (hp.mono hE hgood) (some d) false (hp'.mono hE hgood)
        (by rw [hfinal, move_turn, heading_advance]; rfl) (by rw [hfinal, move_turn, heading_advance]; rfl)
  | edge c d k =>
    have hp' : Legal cellSize E good (move grid cellSize none false (.edge c d k)) :=
      Legal.advance hc k hp.2.2
    have hfinal : g.motionFinal w pacX pacY randomness = { y := g.ghostYMotion, x := g.ghostXMotion } := by
      simp only [motionFinal, atIntersection_in_edge hd hp.1 hp.2.1, if_true]
    refine ⟨none, fun c' h' heq => (by cases heq), ?_, hp'⟩
    exact Depicts.move hd (hp.mono hE hgood) none false (hp'.mono hE hgood)
      (by rw [hfinal, move_on, heading_advance]; exact hd.xMotion_eq)
      (by rw [hfinal, move_on, heading_advance]; exact hd.yMotion_eq)

theorem displacement {E : Node → Dir → Prop} {good : Node → Prop} {turn : Option Dir} {g' : GhostMotion}
    (hd : g.DrawnAt p) (hd' : g'.DrawnAt (move grid cellSize turn false p)) (hp : Legal cellSize E good p)
    (hturn : ∀ c h, p = .node c h → ∃ d, turn = some d) :
    ∃ d : Dir, (move grid cellSize turn false p).heading = some d ∧ Leaves g g' d := by
  have hdisp := Depicts.displacement hd hd' hp
  cases p with
  | node c h =>
    obtain ⟨d, rfl⟩ := hturn c h rfl
    exact ⟨d, heading_advance .., by simpa [Leaves] using hdisp⟩
  | edge c d k => exact ⟨d, heading_advance .., by simpa [Leaves] using hdisp⟩

theorem TurnsInto.inField {c : Node} {d : Dir} (hc : InField c) (h : TurnsInto (side w c) d) : FieldEdge c d := by
  rcases h with hs | ⟨hnone, rfl⟩
  · exact ⟨hc, inField_of_side hc hs⟩
  · exact ⟨hc, ((inside_of_closed hc hnone).inBand_next .up).inField⟩

theorem TurnsInto.inBand {c : Node} {d : Dir} (hc : InBand c) (h : TurnsInto (side w c) d) : BandEdge c d := by
  rcases h with hs | ⟨hnone, rfl⟩
  · exact ⟨hc, inBand_of_side hc hs⟩
  · exact ⟨hc, (inside_of_closed hc.inField hnone).inBand_next .up⟩

theorem drawnAt_band (hd : g.DrawnAt p) (hp : Legal cellSize BandEdge InBand p) :
    ∃ q, (g.moveGhost w pacX pacY randomness).DrawnAt q ∧ Legal cellSize BandEdge InBand q := by
  obtain ⟨turn, -, hd', hp'⟩ := drawnAt_moveGhost w pacX pacY randomness closed_band
    (fun _ _ hc ht => ht.inBand hc) (fun _ _ => BandEdge.fieldEdge) (fun _ => InBand.inField) hd hp
  exact ⟨_, hd', hp'⟩

end GhostMotion

end Pacman
