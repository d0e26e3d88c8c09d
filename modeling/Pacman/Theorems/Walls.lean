import Mathlib.Tactic.IntervalCases
import Pacman.Lib.Lattice
import Pacman.Walls

/-! `checkWalls` in closed form, and the maze it describes: the edges between neighbouring cells whose
    wall bit is clear form an undirected graph, and inside the maze a side is open exactly when its edge
    is in that graph. -/

namespace Pacman
open Bits Lattice Walker

/-! ### Closed form of the lookup -/

theorem checkWallsRow_inside {v : BitVec 13} {b a : BitVec 12} {x : BitVec 5} (h₁ : 1 ≤ x.toNat)
    (h₂ : x.toNat ≤ 12) : checkWallsRow v b a x =
      { turnL := !v.getMsbD (x.toNat - 1), turnR := !v.getMsbD x.toNat, turnU := !a.getMsbD (x.toNat - 1),
        turnD := !b.getMsbD (x.toNat - 1) } := by
  unfold checkWallsRow
  generalize x.toNat = n at *
  interval_cases n <;> rfl

theorem checkWallsRow_left {v : BitVec 13} {b a : BitVec 12} {x : BitVec 5} (h : x.toNat = 0) :
    checkWallsRow v b a x = { turnL := false, turnR := true, turnU := false, turnD := false } := by
  simp [checkWallsRow, h]

theorem checkWallsRow_right {v : BitVec 13} {b a : BitVec 12} {x : BitVec 5} (h : 12 < x.toNat) :
    checkWallsRow v b a x = { turnL := true, turnR := false, turnU := false, turnD := false } := by
  unfold checkWallsRow
  have hlt := x.isLt
  generalize x.toNat = n at *
  interval_cases n <;> rfl

variable {w : Walls} {x y : BitVec 5}

theorem checkWalls_inside (hx₁ : 1 ≤ x.toNat) (hx₂ : x.toNat ≤ 12) (hy₁ : 1 ≤ y.toNat) (hy₂ : y.toNat ≤ 12) :
    checkWalls w x y =
      { turnL := !w.vertWalls.getMsbD (13 * (y.toNat - 1) + (x.toNat - 1))
        turnR := !w.vertWalls.getMsbD (13 * (y.toNat - 1) + x.toNat)
        turnU := !w.horizWalls.getMsbD (12 * (y.toNat - 1) + (x.toNat - 1))
        turnD := !w.horizWalls.getMsbD (12 * y.toNat + (x.toNat - 1)) } := by
  unfold checkWalls
  generalize y.toNat = m at *
  interval_cases m <;> simp only [checkWallsRow_inside hx₁ hx₂] <;>
    rw [getMsbD_slice (by omega) (by omega), getMsbD_slice (by omega) (by omega),
      getMsbD_slice (by omega) (by omega), getMsbD_slice (by omega) (by omega)]

theorem checkWalls_above (h : y.toNat = 0) :
    checkWalls w x y = { turnL := false, turnR := false, turnU := false, turnD := true } := by
  simp [checkWalls, h]

theorem checkWalls_below (h : 12 < y.toNat) :
    checkWalls w x y = { turnL := false, turnR := false, turnU := true, turnD := false } := by
  unfold checkWalls
  have hlt := y.isLt
  generalize y.toNat = m at *
  interval_cases m <;> rfl

theorem checkWalls_left (hy₁ : 1 ≤ y.toNat) (hy₂ : y.toNat ≤ 12) (h : x.toNat = 0) :
    checkWalls w x y = { turnL := false, turnR := true, turnU := false, turnD := false } := by
  unfold checkWalls
  generalize y.toNat = m at *
  interval_cases m <;> exact checkWallsRow_left h

theorem checkWalls_right (hy₁ : 1 ≤ y.toNat) (hy₂ : y.toNat ≤ 12) (h : 12 < x.toNat) :
    checkWalls w x y = { turnL := true, turnR := false, turnU := false, turnD := false } := by
  unfold checkWalls
  generalize y.toNat = m at *
  interval_cases m <;> exact checkWallsRow_right h

/-! ### The maze -/

def Turns.toward (t : Turns) : Dir → Bool
  | .left => t.turnL
  | .right => t.turnR
  | .up => t.turnU
  | .down => t.turnD

/-- What `checkWalls` answers for a side of cell `c`. -/
def side (w : Walls) (c : Node) (d : Dir) : Bool :=
  (checkWalls w (BitVec.ofNat 5 c.1.toNat) (BitVec.ofNat 5 c.2.toNat)).toward d

def Inside (c : Node) : Prop := 1 ≤ c.1 ∧ c.1 ≤ 12 ∧ 1 ≤ c.2 ∧ c.2 ≤ 12

/-- A cell that the five bits of a column and a row can name. -/
def InField (c : Node) : Prop := 0 ≤ c.1 ∧ c.1 ≤ 31 ∧ 0 ≤ c.2 ∧ c.2 ≤ 31

/-- Inside the maze, or next to one of its outer sides. -/
def InBand (c : Node) : Prop :=
  0 ≤ c.1 ∧ c.1 ≤ 13 ∧ 0 ≤ c.2 ∧ c.2 ≤ 13 ∧ (1 ≤ c.1 ∧ c.1 ≤ 12 ∨ 1 ≤ c.2 ∧ c.2 ≤ 12)

/-- The vertical wall between `c` and its right neighbour has a bit, and it is clear. -/
def RightOpen (w : Walls) (c : Node) : Prop :=
  0 ≤ c.1 ∧ c.1 ≤ 12 ∧ 1 ≤ c.2 ∧ c.2 ≤ 12 ∧ w.vertWalls.getMsbD (13 * (c.2 - 1) + c.1).toNat = false

/-- The horizontal wall between `c` and its lower neighbour has a bit, and it is clear. -/
def DownOpen (w : Walls) (c : Node) : Prop :=
  1 ≤ c.1 ∧ c.1 ≤ 12 ∧ 0 ≤ c.2 ∧ c.2 ≤ 12 ∧ w.horizWalls.getMsbD (12 * c.2 + c.1 - 1).toNat = false

/-- The edge from `c` in direction `d` has a wall bit, and it is clear. -/
def OpenEdge (w : Walls) (c : Node) : Dir → Prop
  | .right => RightOpen w c
  | .left => RightOpen w (next c .left)
  | .down => DownOpen w c
  | .up => DownOpen w (next c .up)

instance (w : Walls) (c : Node) (d : Dir) : Decidable (OpenEdge w c d) := by
  cases d <;> unfold OpenEdge <;> first | unfold RightOpen; infer_instance | unfold DownOpen; infer_instance

theorem openEdge_undirected (w : Walls) : Undirected (OpenEdge w) := fun c d h => by
  cases d <;> simpa [OpenEdge, Dir.back, next, Dir.dx, Dir.dy] using h

theorem OpenEdge.inBand {w : Walls} {c : Node} {d : Dir} (h : OpenEdge w c d) : InBand c := by
  cases d <;> simp only [OpenEdge, RightOpen, DownOpen, next, Dir.dx, Dir.dy] at h <;> unfold InBand <;> omega

theorem Inside.inBand {c : Node} (h : Inside c) : InBand c := by
  simp only [Inside, InBand] at h ⊢
  omega

section Side
variable {w : Walls} {c : Node} {d : Dir}

theorem side_left (hc : c.1 = 0) (h₁ : 1 ≤ c.2) (h₂ : c.2 ≤ 12) : side w c d = decide (d = .right) := by
  unfold side
  rw [checkWalls_left (by simp; omega) (by simp; omega) (by simp [hc])]
  cases d <;> rfl

theorem side_right (hc : 13 ≤ c.1) (hf : c.1 ≤ 31) (h₁ : 1 ≤ c.2) (h₂ : c.2 ≤ 12) :
    side w c d = decide (d = .left) := by
  unfold side
  rw [checkWalls_right (by simp; omega) (by simp; omega) (by simp; omega)]
  cases d <;> rfl

theorem side_above (hc : c.2 = 0) : side w c d = decide (d = .down) := by
  unfold side
  rw [checkWalls_above (by simp [hc])]
  cases d <;> rfl

theorem side_below (hc : 13 ≤ c.2) (hf : c.2 ≤ 31) : side w c d = decide (d = .up) := by
  unfold side
  rw [checkWalls_below (by simp; omega)]
  cases d <;> rfl

theorem rightOpen_iff (h₁ : 0 ≤ c.1) (h₂ : c.1 ≤ 12) (h₃ : 1 ≤ c.2) (h₄ : c.2 ≤ 12) :
    RightOpen w c ↔ w.vertWalls.getMsbD (13 * (c.2 - 1) + c.1).toNat = false :=
  ⟨fun h => h.2.2.2.2, fun h => ⟨h₁, h₂, h₃, h₄, h⟩⟩

theorem downOpen_iff (h₁ : 1 ≤ c.1) (h₂ : c.1 ≤ 12) (h₃ : 0 ≤ c.2) (h₄ : c.2 ≤ 12) :
    DownOpen w c ↔ w.horizWalls.getMsbD (12 * c.2 + c.1 - 1).toNat = false :=
  ⟨fun h => h.2.2.2.2, fun h => ⟨h₁, h₂, h₃, h₄, h⟩⟩

/-- Inside the maze the open sides are the edges whose wall bit is clear. -/
theorem side_inside (h : Inside c) : side w c d = true ↔ OpenEdge w c d := by
  obtain ⟨a, b⟩ := c
  obtain ⟨h₁, h₂, h₃, h₄⟩ : 1 ≤ a ∧ a ≤ 12 ∧ 1 ≤ b ∧ b ≤ 12 := h
  obtain ⟨a, rfl⟩ := Int.eq_ofNat_of_zero_le (show 0 ≤ a by omega)
  obtain ⟨b, rfl⟩ := Int.eq_ofNat_of_zero_le (show 0 ≤ b by omega)
  have ha : (BitVec.ofNat 5 a).toNat = a := by simp; omega
  have hb : (BitVec.ofNat 5 b).toNat = b := by simp; omega
  unfold side
  simp only [Int.toNat_natCast]
  rw [checkWalls_inside (by omega) (by omega) (by omega) (by omega), ha, hb]
  cases d with
  | left =>
    have hi : (13 * ((b : ℤ) + 0 - 1) + (a + -1)).toNat = 13 * (b - 1) + (a - 1) := by omega
    refine Iff.trans ?_ (rightOpen_iff (c := next (a, b) .left) ?_ ?_ ?_ ?_).symm <;>
      simp only [next, Dir.dx, Dir.dy, hi, Turns.toward, Bool.not_eq_true'] <;> omega
  | right =>
    have hi : (13 * ((b : ℤ) - 1) + a).toNat = 13 * (b - 1) + a := by omega
    refine Iff.trans ?_ (rightOpen_iff (c := (a, b)) ?_ ?_ ?_ ?_).symm <;>
      simp only [hi, Turns.toward, Bool.not_eq_true'] <;> omega
  | up =>
    have hi : (12 * ((b : ℤ) + -1) + (a + 0) - 1).toNat = 12 * (b - 1) + (a - 1) := by omega
    refine Iff.trans ?_ (downOpen_iff (c := next (a, b) .up) ?_ ?_ ?_ ?_).symm <;>
      simp only [next, Dir.dx, Dir.dy, hi, Turns.toward, Bool.not_eq_true'] <;> omega
  | down =>
    have hi : (12 * (b : ℤ) + a - 1).toNat = 12 * b + (a - 1) := by omega
    refine Iff.trans ?_ (downOpen_iff (c := (a, b)) ?_ ?_ ?_ ?_).symm <;>
      simp only [hi, Turns.toward, Bool.not_eq_true'] <;> omega

/-- A cell that Pac-Man can stand in: inside the maze, or beyond an outer side that has a gap. -/
def Enterable (w : Walls) (c : Node) : Prop := Inside c ∨ ∃ d, OpenEdge w c d

/-- Outside the maze the only open side leads back in; it is the gap through which the cell was
    entered. -/
theorem side_iff (h : Enterable w c) : side w c d = true ↔ OpenEdge w c d := by
  by_cases hin : Inside c
  · exact side_inside hin
  rcases h with h | ⟨d', h⟩
  · exact absurd h hin
  have hband := h.inBand
  simp only [Inside, InBand] at hin hband
  have hgap : side w c d = decide (d = d') := by
    cases d' <;> simp only [OpenEdge, RightOpen, DownOpen, next, Dir.dx, Dir.dy] at h
    · exact side_right (by omega) (by omega) (by omega) (by omega)
    · exact side_left (by omega) (by omega) (by omega)
    · exact side_below (by omega) (by omega)
    · exact side_above (by omega)
  rw [hgap, decide_eq_true_iff]
  constructor
  · rintro rfl
    exact h
  · intro hd
    cases d <;> cases d' <;> simp only [OpenEdge, RightOpen, DownOpen, next, Dir.dx, Dir.dy] at h hd <;>
      first | rfl | omega

def isOpen (w : Walls) (c : Node) (d : Dir) : Bool := decide (OpenEdge w c d)

theorem side_eq_isOpen (h : Enterable w c) : side w c = isOpen w c := by
  funext d
  rw [Bool.eq_iff_iff, side_iff h, isOpen, decide_eq_true_iff]

theorem closed_openEdge (w : Walls) : Closed grid (OpenEdge w) (Enterable w) where
  back h := openEdge_undirected w _ _ h
  arrive h := Or.inr ⟨_, openEdge_undirected w _ _ h⟩

theorem Enterable.inBand (h : Enterable w c) : InBand c := by
  rcases h with h | ⟨d, h⟩
  · exact h.inBand
  · exact h.inBand

/-- Every wall bit of the outer boundary is set. -/
def BoundaryClosed (w : Walls) : Prop :=
  ∀ i < 12, w.vertWalls.getMsbD (13 * i) = true ∧ w.vertWalls.getMsbD (13 * i + 12) = true ∧
    w.horizWalls.getMsbD i = true ∧ w.horizWalls.getMsbD (144 + i) = true

/-- Behind a closed boundary both ends of an open edge lie inside the maze. -/
theorem OpenEdge.inside (hb : BoundaryClosed w) (h : OpenEdge w c d) : Inside c := by
  have hright : ∀ a : Node, RightOpen w a → 1 ≤ a.1 ∧ a.1 ≤ 11 := by
    rintro ⟨a, b⟩ ⟨h₁, h₂, h₃, h₄, h⟩
    dsimp only at h₁ h₂ h₃ h₄ h
    obtain ⟨hl, hr, -, -⟩ := hb (b - 1).toNat (by omega)
    have hl' : (13 * (b - 1) + a).toNat ≠ 13 * (b - 1).toNat := fun he => by rw [he, hl] at h; cases h
    have hr' : (13 * (b - 1) + a).toNat ≠ 13 * (b - 1).toNat + 12 := fun he => by rw [he, hr] at h; cases h
    omega
  have hdown : ∀ a : Node, DownOpen w a → 1 ≤ a.2 ∧ a.2 ≤ 11 := by
    rintro ⟨a, b⟩ ⟨h₁, h₂, h₃, h₄, h⟩
    dsimp only at h₁ h₂ h₃ h₄ h
    obtain ⟨-, -, hu, hd⟩ := hb (a - 1).toNat (by omega)
    have hu' : (12 * b + a - 1).toNat ≠ (a - 1).toNat := fun he => by rw [he, hu] at h; cases h
    have hd' : (12 * b + a - 1).toNat ≠ 144 + (a - 1).toNat := fun he => by rw [he, hd] at h; cases h
    omega
  cases d <;> simp only [OpenEdge] at h
  · have := hright _ h
    simp only [RightOpen, next, Dir.dx, Dir.dy, Inside] at h this ⊢
    omega
  · have := hright _ h
    simp only [RightOpen, Inside] at h this ⊢
    omega
  · have := hdown _ h
    simp only [DownOpen, next, Dir.dx, Dir.dy, Inside] at h this ⊢
    omega
  · have := hdown _ h
    simp only [DownOpen, Inside] at h this ⊢
    omega

/-- Outside the maze there is one open side, and it leads towards the maze. -/
theorem side_outside (hf : InField c) (hout : ¬Inside c) :
    ∃ e, (∀ d, side w c d = decide (d = e)) ∧ InField (next c e) ∧ (InBand c → InBand (next c e)) := by
  simp only [Inside, InField, InBand] at hf hout ⊢
  have hcases : c.2 = 0 ∨ 13 ≤ c.2 ∨ (1 ≤ c.2 ∧ c.2 ≤ 12 ∧ (c.1 = 0 ∨ 13 ≤ c.1)) := by omega
  rcases hcases with hc | hc | ⟨h₁, h₂, hc | hc⟩
  · exact ⟨.down, fun d => side_above hc, by simp only [next, Dir.dx, Dir.dy]; omega⟩
  · exact ⟨.up, fun d => side_below hc (by omega), by simp only [next, Dir.dx, Dir.dy]; omega⟩
  · exact ⟨.right, fun d => side_left hc h₁ h₂, by simp only [next, Dir.dx, Dir.dy]; omega⟩
  · exact ⟨.left, fun d => side_right hc (by omega) h₁ h₂, by simp only [next, Dir.dx, Dir.dy]; omega⟩

theorem Inside.inBand_next (h : Inside c) (d : Dir) : InBand (next c d) := by
  obtain ⟨h₁, h₂, h₃, h₄⟩ := h
  cases d <;> simp only [InBand, next, Dir.dx, Dir.dy] <;> omega

theorem InBand.inField (h : InBand c) : InField c := ⟨h.1, by have := h.2.1; omega, h.2.2.1, by have := h.2.2.2.1; omega⟩

/-- No side leads out of the band or out of the field, whatever the walls are. -/
theorem inBand_of_side (h : InBand c) (hs : side w c d = true) : InBand (next c d) := by
  by_cases hin : Inside c
  · exact hin.inBand_next d
  · obtain ⟨e, he, -, hband⟩ := side_outside (w := w) h.inField hin
    rw [he, decide_eq_true_iff] at hs
    exact hs ▸ hband h

theorem inField_of_side (h : InField c) (hs : side w c d = true) : InField (next c d) := by
  by_cases hin : Inside c
  · exact (hin.inBand_next d).inField
  · obtain ⟨e, he, hfield, -⟩ := side_outside (w := w) h hin
    rw [he, decide_eq_true_iff] at hs
    exact hs ▸ hfield

theorem inside_of_closed (h : InField c) (hs : ∀ d, side w c d = false) : Inside c := by
  by_contra hout
  obtain ⟨e, he, -⟩ := side_outside (w := w) h hout
  simp [he] at hs

end Side

/-! ### The lookup as a whole -/

/-- The answer for every cell. Inside the maze each side has its wall bit, and two neighbours read the same
    bit for the side between them; outside of it the one open side leads back towards the maze. -/
theorem checkWalls_closed_form (w : Walls) (x y : BitVec 5) :
    (1 ≤ x.toNat → x.toNat ≤ 12 → 1 ≤ y.toNat → y.toNat ≤ 12 →
      (checkWalls w x y).turnL = !w.vertWalls.getMsbD (13 * (y.toNat - 1) + x.toNat - 1) ∧
      (checkWalls w x y).turnR = !w.vertWalls.getMsbD (13 * (y.toNat - 1) + x.toNat) ∧
      (checkWalls w x y).turnU = !w.horizWalls.getMsbD (12 * (y.toNat - 1) + x.toNat - 1) ∧
      (checkWalls w x y).turnD = !w.horizWalls.getMsbD (12 * y.toNat + x.toNat - 1)) ∧
    (1 ≤ x.toNat → x.toNat + 1 ≤ 12 → 1 ≤ y.toNat → y.toNat ≤ 12 →
      (checkWalls w x y).turnR = (checkWalls w (x + 1) y).turnL) ∧
    (1 ≤ x.toNat → x.toNat ≤ 12 → 1 ≤ y.toNat → y.toNat + 1 ≤ 12 →
      (checkWalls w x y).turnD = (checkWalls w x (y + 1)).turnU) ∧
    (¬(1 ≤ x.toNat ∧ x.toNat ≤ 12 ∧ 1 ≤ y.toNat ∧ y.toNat ≤ 12) → ∀ d,
      (checkWalls w x y).toward d = decide (d =
        if y.toNat = 0 then Dir.down else if 12 < y.toNat then Dir.up
        else if x.toNat = 0 then Dir.right else Dir.left)) := by
  refine ⟨fun hx₁ hx₂ hy₁ hy₂ => ?_, fun hx₁ hx₂ hy₁ hy₂ => ?_, fun hx₁ hx₂ hy₁ hy₂ => ?_, fun hout d => ?_⟩
  · rw [checkWalls_inside hx₁ hx₂ hy₁ hy₂, Nat.add_sub_assoc hx₁, Nat.add_sub_assoc hx₁, Nat.add_sub_assoc hx₁]
    exact ⟨rfl, rfl, rfl, rfl⟩
  · have hnext : (x + 1).toNat = x.toNat + 1 := toNat_succ (by omega)
    rw [checkWalls_inside hx₁ (by omega) hy₁ hy₂, checkWalls_inside (by omega) (by omega) hy₁ hy₂, hnext]
    rfl
  · have hnext : (y + 1).toNat = y.toNat + 1 := toNat_succ (by omega)
    rw [checkWalls_inside hx₁ hx₂ hy₁ (by omega), checkWalls_inside hx₁ hx₂ (by omega) (by omega), hnext]
    rfl
  · by_cases habove : y.toNat = 0
    · rw [checkWalls_above habove, if_pos habove]
      cases d <;> rfl
    rw [if_neg habove]
    by_cases hbelow : 12 < y.toNat
    · rw [checkWalls_below hbelow, if_pos hbelow]
      cases d <;> rfl
    rw [if_neg hbelow]
    by_cases hleft : x.toNat = 0
    · rw [checkWalls_left (by omega) (by omega) hleft, if_pos hleft]
      cases d <;> rfl
    · rw [checkWalls_right (by omega) (by omega) (by omega), if_neg hleft]
      cases d <;> rfl

end Pacman
