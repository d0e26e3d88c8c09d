import Pacman.Theorems.Drawing

/-! Pac-Man is a walker driven by the keys W, A, S and D: each frame edge of `pac_motion` depicts one
    step of the driven walker on the maze whose open sides are those of `check_walls`. -/

namespace Pacman
open Bits Lattice Walker

def keyDir (keycode : BitVec 16) : Option Dir :=
  if keycode = PacMotion.codeS then some .down
  else if keycode = PacMotion.codeW then some .up
  else if keycode = PacMotion.codeD then some .right
  else if keycode = PacMotion.codeA then some .left
  else none

namespace PacMotion

def sideNumber : Option Dir → BitVec 3
  | some .left => 0b000
  | some .right => 0b001
  | some .up => 0b010
  | some .down => 0b011
  | none => 0b111

abbrev DrawnAt (pac : PacMotion) (p : Place Node Dir) : Prop :=
  Depicts p pac.pacXPos pac.pacYPos pac.pacXMotion pac.pacYMotion

theorem drawnAt_reset : DrawnAt reset (.node (5, 5) none) := by
  constructor <;> decide

/-! ### The wires -/

section Wires
variable {pac : PacMotion} {p : Place Node Dir} {t : Turns} {keycode : BitVec 16}

theorem atIntersection_eq (pac : PacMotion) :
    pac.atIntersection = decide (pac.pacXPos.toNat % 32 = 0 ∧ pac.pacYPos.toNat % 32 = 0) := by
  rw [Bool.decide_and, ← low_bits_eq, ← low_bits_eq]
  simp only [atIntersection, Bool.not_or, Bool.and_assoc]

theorem heading_eq (hd : pac.DrawnAt p) :
    pac.left = decide (p.heading = some .left) ∧ pac.right = decide (p.heading = some .right) ∧
      pac.up = decide (p.heading = some .up) ∧ pac.down = decide (p.heading = some .down) :=
  hd.direction_bits

theorem keyTurn_of_key {d : Dir} (hk : keyDir keycode = some d) :
    pac.keyTurn t keycode =
      { pacYTurnMotion := word d.dy, pacXTurnMotion := word d.dx, turnBlocked := !t.toward d,
        turnDir := sideNumber (some d) } := by
  unfold keyDir at hk
  unfold keyTurn
  split at hk
  next h => cases hk; rw [if_pos h]; rfl
  next h₁ =>
    rw [if_neg h₁]
    split at hk
    next h => cases hk; rw [if_pos h]; rfl
    next h₂ =>
      rw [if_neg h₂]
      split at hk
      next h => cases hk; rw [if_pos h]; rfl
      next h₃ =>
        rw [if_neg h₃]
        split at hk
        next h => cases hk; rw [if_pos h]; rfl
        next => cases hk

theorem keyTurn_of_noKey (hk : keyDir keycode = none) :
    pac.keyTurn t keycode =
      { pacYTurnMotion := pac.lastYTurnMotion, pacXTurnMotion := pac.lastXTurnMotion, turnBlocked := true,
        turnDir := sideNumber none } := by
  unfold keyDir at hk
  unfold keyTurn
  split at hk
  next => cases hk
  next h₁ =>
    split at hk
    next => cases hk
    next h₂ =>
      split at hk
      next => cases hk
      next h₃ =>
        split at hk
        next => cases hk
        next h₄ => rw [if_neg h₁, if_neg h₂, if_neg h₃, if_neg h₄]; rfl

theorem turns_toward {w : Walls} {c : Node} {h : Option Dir} (hd : pac.DrawnAt (.node c h)) (d : Dir) :
    (pac.turns w).toward d = side w c d := by
  unfold turns side
  rw [hd.cell.1, hd.cell.2]

theorem continueMotion_on_node {c : Node} {h : Option Dir} (hd : pac.DrawnAt (.node c h)) (n : BitVec 3) :
    pac.continueMotion t n =
      headingMotion (if h.any t.toward then h else none) := by
  obtain ⟨hl, hr, hu, hdn⟩ := heading_eq hd
  have hat : pac.atIntersection = true := by
    rw [atIntersection_eq, decide_eq_true_iff]
    exact hd.on_node
  simp only [continueMotion, hat, hl, hr, hu, hdn, Place.heading_node, if_true]
  obtain ⟨l, r, u, dn⟩ := t
  cases h with
  | none => rfl
  | some d =>
    cases d with
    | left => cases l <;> rfl
    | right => cases r <;> rfl
    | up => cases u <;> rfl
    | down => cases dn <;> rfl

theorem continueMotion_in_edge {c : Node} {d : Dir} {k : ℕ} (hd : pac.DrawnAt (.edge c d k)) (h0 : 0 < k)
    (hk : k < cellSize) (key : Option Dir) :
    pac.continueMotion t (sideNumber key) =
      headingMotion (some (if key = some d.back then d.back else d)) := by
  obtain ⟨hl, hr, hu, hdn⟩ := heading_eq hd
  have hat : pac.atIntersection = false := by
    rw [atIntersection_eq, decide_eq_false_iff_not]
    exact hd.off_node h0 hk
  simp only [continueMotion, hat, hl, hr, hu, hdn, Place.heading_edge, Bool.false_eq_true, if_false,
    hd.xMotion_eq, hd.yMotion_eq, stepX_some, stepY_some]
  cases key with
  | none => cases d <;> rfl
  | some d' => cases d <;> cases d' <;> rfl

end Wires

/-! ### The refinement -/

section Refinement
variable {pac : PacMotion} {p : Place Node Dir} {w : Walls} {E : Node → Dir → Prop} {good : Node → Prop}

theorem motionFinal_eq (hd : pac.DrawnAt p) (hp : Legal cellSize E good p) (keycode : BitVec 16) :
    pac.motionFinal w keycode =
      headingMotion (drive grid cellSize (side w) p (keyDir keycode)).heading := by
  cases p with
  | node c h =>
    have hat : pac.atIntersection = true := by
      rw [atIntersection_eq, decide_eq_true_iff]
      exact hd.on_node
    have hside : (pac.turns w).toward = side w c := funext (turns_toward hd)
    simp only [heading_drive_node, motionFinal, hat, Bool.true_eq_false, or_false]
    cases hk : keyDir keycode with
    | none =>
      rw [keyTurn_of_noKey hk]
      simp only [if_true, continueMotion_on_node hd, hside]
      rfl
    | some d =>
      rw [keyTurn_of_key hk]
      simp only [hside, continueMotion_on_node hd, turn, Option.any_some]
      by_cases hs : side w c d = true <;> simp [hs, headingMotion]
  | edge c d k =>
    obtain ⟨h0, hk, -⟩ := hp
    have hat : pac.atIntersection = false := by
      rw [atIntersection_eq, decide_eq_false_iff_not]
      exact hd.off_node h0 hk
    simp only [heading_drive_edge, motionFinal, hat, or_true, if_true, grid_back]
    cases hkey : keyDir keycode with
    | none => rw [keyTurn_of_noKey hkey]; exact continueMotion_in_edge hd h0 hk none
    | some d' => rw [keyTurn_of_key hkey]; exact continueMotion_in_edge hd h0 hk (some d')

/-- One frame edge of `pac_motion` is one step of the driven walker. -/
theorem drawnAt_movePac (hc : Closed grid E good) (hside : ∀ c d, good c → side w c d = true → E c d)
    (hE : ∀ c d, E c d → FieldEdge c d) (hgood : ∀ c, good c → InField c) (hd : pac.DrawnAt p)
    (hp : Legal cellSize E good p) (keycode : BitVec 16) :
    (pac.movePac w keycode).DrawnAt (drive grid cellSize (side w) p (keyDir keycode)) := by
  have hm := motionFinal_eq (w := w) hd hp keycode
  have hp' := (Legal.drive hc hside hp (keyDir keycode)).mono hE hgood
  obtain ⟨turn, reverse, hmove⟩ := drive_eq_move grid cellSize (side w) p (keyDir keycode)
  rw [hmove] at hm hp' ⊢
  exact Depicts.move hd (hp.mono hE hgood) turn reverse hp' (congrArg Motion.x hm) (congrArg Motion.y hm)

theorem displacement {sides : Node → Dir → Bool} {key : Option Dir} {pac' : PacMotion} (hd : pac.DrawnAt p)
    (hd' : pac'.DrawnAt (drive grid cellSize sides p key)) (hp : Legal cellSize E good p) :
    ∃ h : Option Dir, (pac'.pacXMotion = word (stepX h) ∧ pac'.pacYMotion = word (stepY h)) ∧
      (pac'.pacXPos.toNat : ℤ) - pac.pacXPos.toNat = stepX h ∧
      (pac'.pacYPos.toNat : ℤ) - pac.pacYPos.toNat = stepY h := by
  obtain ⟨turn, reverse, hmove⟩ := drive_eq_move grid cellSize sides p key
  rw [hmove] at hd'
  exact ⟨_, ⟨hd'.xMotion_eq, hd'.yMotion_eq⟩, Depicts.displacement hd hd' hp⟩

theorem drawnAt_band (hd : pac.DrawnAt p) (hp : Legal cellSize BandEdge InBand p) (keycode : BitVec 16) :
    (pac.movePac w keycode).DrawnAt (drive grid cellSize (side w) p (keyDir keycode)) ∧
      Legal cellSize BandEdge InBand (drive grid cellSize (side w) p (keyDir keycode)) := by
  have hside : ∀ c d, InBand c → side w c d = true → BandEdge c d := fun c d hc hs =>
    ⟨hc, inBand_of_side hc hs⟩
  exact ⟨drawnAt_movePac closed_band hside (fun _ _ => BandEdge.fieldEdge) (fun _ => InBand.inField) hd hp keycode,
    Legal.drive closed_band hside hp _⟩

end Refinement

end PacMotion

end Pacman
