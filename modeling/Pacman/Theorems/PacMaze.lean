import Pacman.Theorems.PacWalker

/-! Under constant walls `pac_motion` refines the walker that the wall bits allow: it never crosses a
    wall, and each frame it makes the walker's move. -/

namespace Pacman
open Lattice Walker

namespace PacMotion

/-- The frame edges of `pac_motion` under constant walls, one for each key. -/
def frames (w : Walls) (keys : List (BitVec 16)) : PacMotion :=
  Machine.run (fun pac key => pac.movePac w key) reset keys

/-- The walker that the same keys drive on the wall bits. -/
def walk (w : Walls) (keys : List (BitVec 16)) : Place Node Dir :=
  Machine.run (drive grid cellSize (isOpen w)) (.node (5, 5) none) (keys.map keyDir)

theorem legal_start (w : Walls) : Legal cellSize (OpenEdge w) (Enterable w) (.node (5, 5) none) :=
  Or.inl ⟨by decide, by decide, by decide, by decide⟩

theorem drawnAt_step {w : Walls} {pac : PacMotion} {p : Place Node Dir} (hd : pac.DrawnAt p)
    (hp : Legal cellSize (OpenEdge w) (Enterable w) p) (key : BitVec 16) :
    (pac.movePac w key).DrawnAt (drive grid cellSize (isOpen w) p (keyDir key)) ∧
      Legal cellSize (OpenEdge w) (Enterable w) (drive grid cellSize (isOpen w) p (keyDir key)) := by
  have hsides : ∀ c h, p = .node c h → side w c = isOpen w c := by
    rintro c h rfl
    exact side_eq_isOpen hp
  have hside : ∀ c d, Enterable w c → side w c d = true → OpenEdge w c d := fun c d hc => (side_iff hc).mp
  rw [← drive_congr hsides]
  exact ⟨drawnAt_movePac (closed_openEdge w) hside (fun _ _ h => h.bandEdge.fieldEdge)
    (fun _ h => h.inBand.inField) hd hp key, Legal.drive (closed_openEdge w) hside hp _⟩

theorem drawnAt_frames (w : Walls) (keys : List (BitVec 16)) :
    (frames w keys).DrawnAt (walk w keys) ∧ Legal cellSize (OpenEdge w) (Enterable w) (walk w keys) :=
  Machine.run_simulation
    (R := fun (pac : PacMotion) p => pac.DrawnAt p ∧ Legal cellSize (OpenEdge w) (Enterable w) p)
    (fun _ _ key h => drawnAt_step h.1 h.2 key) ⟨drawnAt_reset, legal_start w⟩ keys

section Step
variable {w : Walls} {pac : PacMotion} {p : Place Node Dir}

theorem motionFinal_on_node {c : Node} {h : Option Dir} (hd : pac.DrawnAt (.node c h)) (hc : Enterable w c)
    (key : BitVec 16) : pac.motionFinal w key =
      headingMotion (if (keyDir key).any (isOpen w c) then keyDir key
        else if h.any (isOpen w c) then h else none) := by
  have hp : Legal cellSize (OpenEdge w) (Enterable w) (.node c h) := hc
  simp only [motionFinal_eq hd hp, heading_drive_node, turn, side_eq_isOpen hc]

theorem motionFinal_in_edge {c : Node} {d : Dir} {k : ℕ} (hd : pac.DrawnAt (.edge c d k))
    (hp : Legal cellSize (OpenEdge w) (Enterable w) (.edge c d k)) (key : BitVec 16) :
    pac.motionFinal w key = headingMotion (some (if keyDir key = some d.back then d.back else d)) := by
  rw [motionFinal_eq hd hp, heading_drive_edge, grid_back]

theorem legal_inside (hb : BoundaryClosed w) (hp : Legal cellSize (OpenEdge w) (Enterable w) p) :
    Legal cellSize (OpenEdge w) Inside p := by
  refine hp.mono (fun _ _ h => h) ?_
  rintro c (h | ⟨d, h⟩)
  · exact h
  · exact h.inside hb

end Step

/-- `pac_motion` refines the grid walker that the wall bits allow. In every state that frame edges reach
    under constant walls it depicts the walker driven by the same keys, so it stands at an intersection
    or, moving along it, strictly inside an edge whose wall bit is clear; the next motion is the walker's;
    a frame moves by at most one pixel on one axis; and a closed boundary keeps it in the maze. -/
theorem pac_motion_refines_walker (w : Walls) (keys : List (BitVec 16)) :
    let pac := frames w keys
    pac.DrawnAt (walk w keys) ∧
    Travels (OpenEdge w) pac.pacXPos pac.pacYPos pac.pacXMotion pac.pacYMotion ∧
    (pac.pacXMotion = 0 ∧ pac.pacYMotion = 0 → 32 ∣ pac.pacXPos.toNat ∧ 32 ∣ pac.pacYPos.toNat) ∧
    (∀ key, let pac' := pac.movePac w key
      ((pac'.pacXPos.toNat : ℤ) - pac.pacXPos.toNat).natAbs +
        ((pac'.pacYPos.toNat : ℤ) - pac.pacYPos.toNat).natAbs ≤ 1) ∧
    (∀ key c h, walk w keys = .node c h → pac.motionFinal w key =
      headingMotion (if (keyDir key).any (isOpen w c) then keyDir key
        else if h.any (isOpen w c) then h else none)) ∧
    (∀ key c d k, walk w keys = .edge c d k → pac.motionFinal w key =
      headingMotion (some (if keyDir key = some d.back then d.back else d))) ∧
    (BoundaryClosed w → (32 ≤ pac.pacXPos.toNat ∧ pac.pacXPos.toNat ≤ 384) ∧
      (32 ≤ pac.pacYPos.toNat ∧ pac.pacYPos.toNat ≤ 384)) := by
  intro pac
  obtain ⟨hd, hp⟩ := drawnAt_frames w keys
  refine ⟨hd, hd.travels hp, hd.at_intersection_of_rest hp, fun key => ?_, fun key c h hw => ?_,
    fun key c d k hw => ?_, fun hb => ?_⟩
  · obtain ⟨h, -, hx, hy⟩ := displacement hd (drawnAt_step hd hp key).1 hp
    have hlen := step_length_le h
    rwa [← hx, ← hy] at hlen
  · rw [hw] at hd hp
    exact motionFinal_on_node hd hp key
  · rw [hw] at hd hp
    exact motionFinal_in_edge hd hp key
  · exact hd.bounds_inside (legal_inside hb hp) fun c d h =>
      ⟨h.inside hb, (openEdge_undirected w c d h).inside hb⟩

end PacMotion

end Pacman
