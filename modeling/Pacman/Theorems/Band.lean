import Pacman.Theorems.GhostWalker
import Pacman.Theorems.PacWalker

/-! Runs of the movers under walls that may change at every frame. Whatever the walls are, the movers stay
    on the lattice lines in the band around the maze, Pac-Man moves by at most one pixel a frame, and a
    ghost by exactly one. -/

namespace Pacman
open Lattice Walker

structure GhostFrame where
  walls : Walls
  pacX : BitVec 10
  pacY : BitVec 10
  randomness : BitVec 16

structure PacFrame where
  walls : Walls
  keycode : BitVec 16

def pacRun (frames : List PacFrame) : PacMotion :=
  Machine.run (fun pac f => pac.movePac f.walls f.keycode) PacMotion.reset frames

def GhostMotion.frame (g : GhostMotion) (f : GhostFrame) : GhostMotion :=
  g.moveGhost f.walls f.pacX f.pacY f.randomness

def ghostRun (xStart yStart : BitVec 5) (frames : List GhostFrame) : GhostMotion :=
  Machine.run GhostMotion.frame (GhostMotion.reset xStart yStart) frames

theorem pacRun_drawnAt (frames : List PacFrame) :
    ∃ p, (pacRun frames).DrawnAt p ∧ Legal cellSize BandEdge InBand p := by
  refine Machine.run_invariant (P := fun pac : PacMotion => ∃ p, pac.DrawnAt p ∧ Legal cellSize BandEdge InBand p)
    ?_ ⟨_, PacMotion.drawnAt_reset, by unfold Legal InBand; decide⟩ frames
  rintro pac f ⟨p, hd, hp⟩
  exact ⟨_, PacMotion.drawnAt_band hd hp f.keycode⟩

section Ghost
variable {xStart yStart : BitVec 5}

theorem ghostRun_drawnAt_field (xStart yStart : BitVec 5) (frames : List GhostFrame) :
    ∃ p, (ghostRun xStart yStart frames).DrawnAt p ∧ Legal cellSize FieldEdge InField p := by
  refine Machine.run_invariant
    (P := fun g : GhostMotion => ∃ p, g.DrawnAt p ∧ Legal cellSize FieldEdge InField p)
    ?_ ⟨_, GhostMotion.drawnAt_reset xStart yStart, ?_⟩ frames
  · rintro g f ⟨p, hd, hp⟩
    obtain ⟨turn, -, hd', hp'⟩ := GhostMotion.drawnAt_moveGhost f.walls f.pacX f.pacY f.randomness closed_field
      (fun _ _ hc ht => ht.inField hc) (fun _ _ h => h) (fun _ h => h) hd hp
    exact ⟨_, hd', hp'⟩
  · have hx := xStart.isLt
    have hy := yStart.isLt
    simp only [Legal, InField]
    omega

theorem ghostRun_drawnAt (hx : 1 ≤ xStart.toNat ∧ xStart.toNat ≤ 12) (hy : 1 ≤ yStart.toNat ∧ yStart.toNat ≤ 12)
    (frames : List GhostFrame) :
    ∃ p, (ghostRun xStart yStart frames).DrawnAt p ∧ Legal cellSize BandEdge InBand p := by
  refine Machine.run_invariant
    (P := fun g : GhostMotion => ∃ p, g.DrawnAt p ∧ Legal cellSize BandEdge InBand p)
    ?_ ⟨_, GhostMotion.drawnAt_reset xStart yStart, ?_⟩ frames
  · rintro g f ⟨p, hd, hp⟩
    exact GhostMotion.drawnAt_band hd hp
  · simp only [Legal, InBand]
    omega

/-- Each frame edge of a ghost moves it by one step, and its new heading is the direction of the step. -/
theorem ghost_step {g : GhostMotion} {p : Place Node Dir} (hd : g.DrawnAt p)
    (hp : Legal cellSize FieldEdge InField p) (f : GhostFrame) :
    ∃ q d, (g.frame f).DrawnAt q ∧ q.heading = some d ∧ GhostMotion.Leaves g (g.frame f) d := by
  obtain ⟨turn, hturn, hd', -⟩ := GhostMotion.drawnAt_moveGhost f.walls f.pacX f.pacY f.randomness closed_field
    (fun _ _ hc ht => ht.inField hc) (fun _ _ h => h) (fun _ h => h) hd hp
  obtain ⟨d, hh, hstep⟩ := GhostMotion.displacement hd hd' hp fun c h heq => by
    obtain ⟨d, rfl, -⟩ := hturn c h heq
    exact ⟨d, rfl⟩
  exact ⟨_, d, hd', hh, hstep⟩

end Ghost

/-- Under any walls, keys, random words and Pac-Man positions, which may all change at every frame: both
    coordinates of every mover stay in 0..416 with at least one a multiple of 32, Pac-Man's next frame
    moves him by at most one pixel along one axis, and a ghost's next frame moves it by exactly one. The
    displacements are integer differences of positions, so no position wraps. -/
theorem movers_stay_in_band (xStart yStart : BitVec 5) (hx : 1 ≤ xStart.toNat ∧ xStart.toNat ≤ 12)
    (hy : 1 ≤ yStart.toNat ∧ yStart.toNat ≤ 12) (pacFrames : List PacFrame) (ghostFrames : List GhostFrame) :
    let pac := pacRun pacFrames
    let g := ghostRun xStart yStart ghostFrames
    (pac.pacXPos.toNat ≤ 416 ∧ pac.pacYPos.toNat ≤ 416 ∧ (32 ∣ pac.pacXPos.toNat ∨ 32 ∣ pac.pacYPos.toNat)) ∧
    (∀ f : PacFrame, let pac' := pac.movePac f.walls f.keycode
      ((pac'.pacXPos.toNat : ℤ) - pac.pacXPos.toNat).natAbs +
        ((pac'.pacYPos.toNat : ℤ) - pac.pacYPos.toNat).natAbs ≤ 1) ∧
    (g.ghostXPos.toNat ≤ 416 ∧ g.ghostYPos.toNat ≤ 416 ∧ (32 ∣ g.ghostXPos.toNat ∨ 32 ∣ g.ghostYPos.toNat)) ∧
    (∀ f : GhostFrame, ((((g.frame f).ghostXPos.toNat : ℤ) - g.ghostXPos.toNat).natAbs +
      (((g.frame f).ghostYPos.toNat : ℤ) - g.ghostYPos.toNat).natAbs = 1)) := by
  obtain ⟨p, hpd, hp⟩ := pacRun_drawnAt pacFrames
  obtain ⟨q, hgd, hq⟩ := ghostRun_drawnAt hx hy ghostFrames
  refine ⟨hpd.bounds_band hp, fun f => ?_, hgd.bounds_band hq, fun f => ?_⟩
  · intro pac'
    obtain ⟨h, -, h₁, h₂⟩ :=
      PacMotion.displacement hpd (PacMotion.drawnAt_band (w := f.walls) hpd hp f.keycode).1 hp
    have hlen := step_length_le h
    rwa [← h₁, ← h₂] at hlen
  · obtain ⟨-, d, -, -, h₁, h₂⟩ :=
      ghost_step hgd (hq.mono (fun _ _ => BandEdge.fieldEdge) fun _ => InBand.inField) f
    rw [h₁, h₂]
    exact step_length d

/-- The start cell of the game, (6, 6), is one of these: forty frames of level 1 with the key A held. -/
theorem movers_stay_in_band_start :
    let w := getWalls 0b01 false
    let pac := pacRun (List.replicate 40 { walls := w, keycode := PacMotion.codeA })
    let g := ghostRun 6 6 (List.replicate 40 { walls := w, pacX := pac.pacXPos, pacY := pac.pacYPos, randomness := 0x1234 })
    pac.pacXPos.toNat ≤ 416 ∧ g.ghostXPos.toNat ≤ 416 ∧
      ∀ f : GhostFrame, ((((g.frame f).ghostXPos.toNat : ℤ) - g.ghostXPos.toNat).natAbs +
        (((g.frame f).ghostYPos.toNat : ℤ) - g.ghostYPos.toNat).natAbs = 1) := by
  intro w pac g
  have h := movers_stay_in_band 6 6 (by decide) (by decide)
    (List.replicate 40 { walls := w, keycode := PacMotion.codeA })
    (List.replicate 40 { walls := w, pacX := pac.pacXPos, pacY := pac.pacYPos, randomness := 0x1234 })
  exact ⟨h.1.1, h.2.2.1.1, h.2.2.2⟩

end Pacman
