import Pacman.Lib.Taxicab
import Pacman.Theorems.GhostWalker

/-! The arithmetic of `ghost_motion` on two positions. Coordinates that are at most 511 apart compare
    exactly, so `hitPacman` finds a distance of 16 on one axis and less on the other; two figures on open
    edges are then joined by a short walk along open edges. -/

namespace Pacman
open Bits Lattice Walker

/-- Two coordinates whose difference fits in ten bits of two's complement. -/
def Near (a b : BitVec 10) : Prop := ((a.toNat : ℤ) - b.toNat).natAbs ≤ 511

theorem near_of_le {a b : BitVec 10} (ha : a.toNat ≤ 416) (hb : b.toNat ≤ 416) : Near a b := by
  unfold Near
  omega

namespace GhostMotion

/-! ### Signed differences -/

section Compare
variable {ghost pac : BitVec 10}

theorem toInt_cmp (h : Near ghost pac) : (cmp ghost pac).toInt = ghost.toNat - pac.toNat := by
  unfold Near at h
  have hcmp : cmp ghost pac = ghost - pac := add_not_add_one ghost pac
  rw [hcmp, toInt_sub_of_near] <;> omega

theorem toInt_cmp2 (h : Near ghost pac) : (cmp2 ghost pac).toInt = pac.toNat - ghost.toNat := by
  unfold Near at h
  have hcmp : cmp2 ghost pac = pac - ghost := not_add_one_add pac ghost
  rw [hcmp, toInt_sub_of_near] <;> omega

theorem sign_cmp (h : Near ghost pac) : (cmp ghost pac).getLsbD 9 = decide (ghost.toNat < pac.toNat) := by
  rw [getLsbD_top, toInt_cmp h]
  exact decide_eq_decide.mpr (by omega)

theorem cmp_eq_zero (h : Near ghost pac) : cmp ghost pac = 0 ↔ ghost.toNat = pac.toNat := by
  have hz := eq_zero_iff_toInt (a := cmp ghost pac)
  rw [toInt_cmp h] at hz
  refine hz.trans ?_
  omega

theorem toNat_abs (h : Near ghost pac) : (abs ghost pac).toNat = ((ghost.toNat : ℤ) - pac.toNat).natAbs := by
  unfold abs
  rw [sign_cmp h]
  by_cases hlt : ghost.toNat < pac.toNat
  · have hz : (0 : ℤ) ≤ pac.toNat - ghost.toNat := by omega
    have := toNat_of_toInt_nonneg (toInt_cmp2 h) hz
    simp only [hlt, decide_true, if_true]
    omega
  · have hz : (0 : ℤ) ≤ ghost.toNat - pac.toNat := by omega
    have := toNat_of_toInt_nonneg (toInt_cmp h) hz
    simp only [hlt, decide_false, Bool.false_eq_true, if_false]
    omega

theorem toInt_hit (h : Near ghost pac) :
    (hit ghost pac).toInt = ((ghost.toNat : ℤ) - pac.toNat).natAbs - 16 := by
  have habs := toNat_abs h
  unfold Near at h
  have hhit : hit ghost pac = abs ghost pac - collisionDist := add_not_add_one ..
  have hdist : collisionDist.toNat = 16 := rfl
  have hsub := toInt_sub_of_near (a := abs ghost pac) (b := collisionDist) (by omega) (by omega)
  rw [hhit, hsub, habs, hdist]
  rfl

theorem tooFarHigh_eq (h : Near ghost pac) : tooFarHigh ghost pac = decide (pac.toNat < ghost.toNat) := by
  have hz := cmp_eq_zero h
  rw [Bool.eq_iff_iff, decide_eq_true_iff, tooFarHigh, sign_cmp h]
  simp only [Bool.and_eq_true, Bool.not_eq_true', decide_eq_false_iff_not, decide_eq_true_eq, ne_eq, hz]
  omega

theorem tooFarLow_eq (h : Near ghost pac) : tooFarLow ghost pac = decide (ghost.toNat < pac.toNat) := by
  have hz := cmp_eq_zero h
  rw [Bool.eq_iff_iff, decide_eq_true_iff, tooFarLow, tooFarHigh_eq h]
  simp only [Bool.and_eq_true, Bool.not_eq_true', decide_eq_false_iff_not, decide_eq_true_eq, ne_eq, hz]
  omega

end Compare

/-- Contact: exactly 16 pixels apart on one axis, and less on the other. -/
theorem hitPacman_iff {g : GhostMotion} {pacX pacY : BitVec 10} (hx : Near g.ghostXPos pacX)
    (hy : Near g.ghostYPos pacY) : g.hitPacman pacX pacY = true ↔
      (((g.ghostXPos.toNat : ℤ) - pacX.toNat).natAbs = 16 ∧ ((g.ghostYPos.toNat : ℤ) - pacY.toNat).natAbs < 16) ∨
      (((g.ghostYPos.toNat : ℤ) - pacY.toNat).natAbs = 16 ∧ ((g.ghostXPos.toNat : ℤ) - pacX.toNat).natAbs < 16) := by
  have hzx := eq_zero_iff_toInt (a := hit g.ghostXPos pacX)
  have hzy := eq_zero_iff_toInt (a := hit g.ghostYPos pacY)
  have hsx := getLsbD_top (a := hit g.ghostXPos pacX)
  have hsy := getLsbD_top (a := hit g.ghostYPos pacY)
  rw [toInt_hit hx] at hzx hsx
  rw [toInt_hit hy] at hzy hsy
  simp only [hitPacman, hsx, hsy, Bool.or_eq_true, Bool.and_eq_true, decide_eq_true_eq]
  refine Iff.trans (or_congr (and_congr_left' hzx) (and_congr_left' hzy)) ?_
  omega

/-- The collision test is exact on coordinates at most 511 apart: `absX` and `absY` are the distances on the
    two axes, and contact is a distance of 16 on one of them and a smaller one on the other. -/
theorem collision_test_exact (g : GhostMotion) (pacX pacY : BitVec 10) (hx : Near g.ghostXPos pacX)
    (hy : Near g.ghostYPos pacY) :
    let dx := ((g.ghostXPos.toNat : ℤ) - pacX.toNat).natAbs
    let dy := ((g.ghostYPos.toNat : ℤ) - pacY.toNat).natAbs
    (abs g.ghostXPos pacX).toNat = dx ∧ (abs g.ghostYPos pacY).toNat = dy ∧
      (g.hitPacman pacX pacY = true ↔ dx = 16 ∧ dy < 16 ∨ dy = 16 ∧ dx < 16) :=
  ⟨toNat_abs hx, toNat_abs hy, hitPacman_iff hx hy⟩

theorem collision_test_exact_corner : (reset 5 5).hitPacman 176 145 = true :=
  (collision_test_exact (reset 5 5) 176 145 (by unfold Near; decide) (by unfold Near; decide)).2.2.mpr (by decide)

end GhostMotion

/-! ### Contact and the maze -/

/-- At an intersection of the maze, or strictly inside an edge whose wall bit is clear. -/
def OnMaze (w : Walls) (x y : BitVec 10) : Prop :=
  OnTrack cellSize (OpenEdge w) Inside ((x.toNat : ℤ), (y.toNat : ℤ))

theorem OnMaze.bounds {w : Walls} {x y : BitVec 10} (h : OnMaze w x y) : x.toNat ≤ 416 ∧ y.toNat ≤ 416 := by
  obtain ⟨p, hp, hpos⟩ := h
  have hband := pos_band (hp.mono (fun _ _ => OpenEdge.bandEdge) fun _ => Inside.inBand)
  rw [hpos] at hband
  dsimp only at hband
  omega

/-- No death through a wall: when two figures on the maze are in contact, a walk along open edges joins
    them, as long as their distances on both axes together, which is between 16 and 31 pixels. -/
theorem hit_along_open_edges (w : Walls) (g : GhostMotion) (pacX pacY : BitVec 10)
    (hg : OnMaze w g.ghostXPos g.ghostYPos) (hp : OnMaze w pacX pacY) (hhit : g.hitPacman pacX pacY = true) :
    let length := ((g.ghostXPos.toNat : ℤ) - pacX.toNat).natAbs + ((g.ghostYPos.toNat : ℤ) - pacY.toNat).natAbs
    Walk cellSize (OpenEdge w) (g.ghostXPos.toNat, g.ghostYPos.toNat) (pacX.toNat, pacY.toNat) length ∧
      16 ≤ length ∧ length ≤ 31 := by
  intro length
  have hdist := (GhostMotion.hitPacman_iff (near_of_le hg.bounds.1 hp.bounds.1)
    (near_of_le hg.bounds.2 hp.bounds.2)).mp hhit
  have hcell : cellSize = 32 := rfl
  refine ⟨exists_walk (openEdge_undirected w) (by decide) hg hp ?_ ?_, ?_⟩
  · dsimp only
    omega
  · dsimp only
    omega
  · omega

/-- In level 1, a ghost comes from the right and has Pac-Man's start cell 16 pixels ahead. -/
theorem hit_along_open_edges_level1 :
    Walk cellSize (OpenEdge (getWalls 0b01 false)) (176, 160) (160, 160) 16 := by
  let g : GhostMotion :=
    { ghostXMotion := 0x3ff, ghostYMotion := 0, ghostXPos := 176, ghostYPos := 160, counterRand := 0 }
  have hg : OnMaze (getWalls 0b01 false) g.ghostXPos g.ghostYPos :=
    ⟨.edge (5, 5) .right 16, ⟨by decide, by decide, by decide +kernel⟩, rfl⟩
  have hp : OnMaze (getWalls 0b01 false) 160 160 := ⟨.node (5, 5) none, by unfold Legal Inside; decide, rfl⟩
  have h := (hit_along_open_edges _ g 160 160 hg hp (by decide +kernel)).1
  simpa [g] using h

end Pacman
