import Pacman.Theorems.Picture

/-! The pictures of the walls show the maps that the figures move by. A row of a picture is the same over the
    height of a cell, and over the height of a horizontal wall. Between two neighbouring cells a wall is drawn
    exactly when the edge between them is closed, and the cells themselves are dark; only the four pixels square
    where four cells meet are left to the picture. -/

namespace Pacman
open Bits Lattice

/-! ### Rows -/

theorem expand_getD {w : ℕ} : ∀ (runs : List (ℕ × BitVec w)) (j : ℕ) {k : ℕ}, k < (runs.getD j (0, 0)).1 →
    (expand runs).getD (((runs.take j).map Prod.fst).sum + k) 0 = (runs.getD j (0, 0)).2
  | [], j, k, hk => by simp at hk
  | r :: runs, 0, k, hk => by
    have hk' : k < r.1 := hk
    have hlen : k < (List.replicate r.1 r.2).length := by rwa [List.length_replicate]
    simp only [expand, List.take_zero, List.map_nil, List.sum_nil, Nat.zero_add, List.flatMap_cons]
    rw [List.getD_append _ _ _ _ hlen, List.getD_replicate _ hk']
    rfl
  | r :: runs, j + 1, k, hk => by
    have ih := expand_getD runs j hk
    have hlen : (List.replicate r.1 r.2).length = r.1 := List.length_replicate
    simp only [List.take_succ_cons, List.map_cons, List.sum_cons, expand, List.flatMap_cons]
    rw [List.getD_append_right _ _ _ _ (by rw [hlen]; omega), hlen]
    have hsub : r.1 + ((runs.take j).map Prod.fst).sum + k - r.1 = ((runs.take j).map Prod.fst).sum + k := by omega
    rw [hsub]
    exact ih

/-- The picture of a level as it is listed. -/
def levelRuns (level : BitVec 2) : List (ℕ × BitVec 416) := if level = 0b01 then level1Runs else level2Runs

/-- Pixel `x` of row `y` of the picture of a level. -/
def pictured (level : BitVec 2) (x y : ℕ) : Bool := ((expand (levelRuns level)).getD y 0).getLsbD x

section Level
variable {level : BitVec 2} (hlevel : level = 0b01 ∨ level = 0b10)
include hlevel

/-- Above row `r + 1` of the cells stand the rows of the horizontal walls of row `r`, then its own. -/
theorem wallRows_start : ∀ r : Fin 13, (((levelRuns level).take (2 * r + 1)).map Prod.fst).sum = 32 * (r : ℕ) + 14 ∧
    ((levelRuns level).getD (2 * r + 1) (0, 0)).1 = 4 := by
  rcases hlevel with rfl | rfl <;> decide +kernel

theorem cellRows_start : ∀ r : Fin 12, (((levelRuns level).take (2 * r + 2)).map Prod.fst).sum = 32 * (r : ℕ) + 18 ∧
    ((levelRuns level).getD (2 * r + 2) (0, 0)).1 = 28 := by
  rcases hlevel with rfl | rfl <;> decide +kernel

theorem pictured_wallRow (x : ℕ) {r k : ℕ} (hr : r ≤ 12) (hk : k < 4) :
    pictured level x (32 * r + 14 + k) = ((levelRuns level).getD (2 * r + 1) (0, 0)).2.getLsbD x := by
  obtain ⟨hsum, hheight⟩ := wallRows_start hlevel ⟨r, by omega⟩
  have h := expand_getD (levelRuns level) (2 * r + 1) (k := k) (hheight ▸ hk)
  rw [pictured, ← hsum]
  exact congrArg (BitVec.getLsbD · x) h

theorem pictured_cellRow (x : ℕ) {r k : ℕ} (hr : r < 12) (hk : k < 28) :
    pictured level x (32 * r + 18 + k) = ((levelRuns level).getD (2 * r + 2) (0, 0)).2.getLsbD x := by
  obtain ⟨hsum, hheight⟩ := cellRows_start hlevel ⟨r, hr⟩
  have h := expand_getD (levelRuns level) (2 * r + 2) (k := k) (hheight ▸ hk)
  rw [pictured, ← hsum]
  exact congrArg (BitVec.getLsbD · x) h

/-! ### Walls and cells -/

theorem lower_walls_drawn : ∀ (r : Fin 13) (c : Fin 12),
    ((levelRuns level).getD (2 * r + 1) (0, 0)).2.extractLsb' (32 * c + 18) 28 =
      if OpenEdge (getWalls level false) ((c : ℤ) + 1, r) .down then 0 else BitVec.allOnes 28 := by
  rcases hlevel with rfl | rfl <;> decide +kernel

theorem right_walls_drawn : ∀ (r : Fin 12) (c : Fin 13),
    ((levelRuns level).getD (2 * r + 2) (0, 0)).2.extractLsb' (32 * c + 14) 4 =
      if OpenEdge (getWalls level false) (c, (r : ℤ) + 1) .right then 0 else BitVec.allOnes 4 := by
  rcases hlevel with rfl | rfl <;> decide +kernel

theorem cells_dark : ∀ (r c : Fin 12),
    ((levelRuns level).getD (2 * r + 2) (0, 0)).2.extractLsb' (32 * c + 18) 28 = 0 := by
  rcases hlevel with rfl | rfl <;> decide +kernel

end Level

/-- A strip of pixels that is dark when the edge is open, and lit when it is closed. -/
theorem strip_lit_iff {n j : ℕ} (hj : j < n) {P : Prop} [Decidable P] :
    (if P then 0#n else BitVec.allOnes n).getLsbD j = true ↔ ¬P := by
  split
  next hopen => exact iff_of_false (by rw [BitVec.getLsbD_zero]; decide) (not_not.mpr hopen)
  next hclosed => exact iff_of_true (by rw [BitVec.getLsbD_allOnes, decide_eq_true hj]) hclosed

/-- The pixels of cell `c`. -/
def CellPixel (c : Node) (x y : ℕ) : Prop :=
  (32 * c.1 - 14 ≤ x ∧ x ≤ 32 * c.1 + 13) ∧ 32 * c.2 - 14 ≤ y ∧ y ≤ 32 * c.2 + 13

/-- The pixels between cell `c` and its right neighbour. -/
def RightPixel (c : Node) (x y : ℕ) : Prop :=
  (32 * c.1 + 14 ≤ x ∧ x ≤ 32 * c.1 + 17) ∧ 32 * c.2 - 14 ≤ y ∧ y ≤ 32 * c.2 + 13

/-- The pixels between cell `c` and its lower neighbour. -/
def LowerPixel (c : Node) (x y : ℕ) : Prop :=
  (32 * c.1 - 14 ≤ x ∧ x ≤ 32 * c.1 + 13) ∧ 32 * c.2 + 14 ≤ y ∧ y ≤ 32 * c.2 + 17

/-- The pixels between cell `c` and its neighbour in direction `d`. -/
def WallPixel (c : Node) : Dir → ℕ → ℕ → Prop
  | .right => RightPixel c
  | .left => RightPixel (next c .left)
  | .down => LowerPixel c
  | .up => LowerPixel (next c .up)

section Level
variable {level : BitVec 2} (hlevel : level = 0b01 ∨ level = 0b10) {c : Node} {x y : ℕ}
include hlevel

theorem pictured_cell (hc : Inside c) (h : CellPixel c x y) : pictured level x y = false := by
  obtain ⟨a, b⟩ := c
  obtain ⟨⟨hx₁, hx₂⟩, hy₁, hy₂⟩ := h
  obtain ⟨ha₁, ha₂, hb₁, hb₂⟩ := hc
  dsimp only at *
  obtain ⟨a, rfl⟩ : ∃ n : ℕ, a = n + 1 := ⟨(a - 1).toNat, by omega⟩
  obtain ⟨b, rfl⟩ : ∃ n : ℕ, b = n + 1 := ⟨(b - 1).toNat, by omega⟩
  obtain ⟨k, rfl⟩ : ∃ k, y = 32 * b + 18 + k := ⟨y - (32 * b + 18), by omega⟩
  obtain ⟨j, rfl⟩ : ∃ j, x = 32 * a + 18 + j := ⟨x - (32 * a + 18), by omega⟩
  have hrow := cells_dark hlevel ⟨b, by omega⟩ ⟨a, by omega⟩
  have hbit := congrArg (BitVec.getLsbD · j) hrow
  simp only [BitVec.getLsbD_extractLsb', show j < 28 by omega, decide_true, Bool.true_and] at hbit
  rw [pictured_cellRow hlevel _ (by omega) (by omega), hbit]
  exact BitVec.getLsbD_zero

theorem pictured_right (hx : 0 ≤ c.1 ∧ c.1 ≤ 12) (hy : 1 ≤ c.2 ∧ c.2 ≤ 12) (h : RightPixel c x y) :
    pictured level x y = true ↔ ¬OpenEdge (getWalls level false) c .right := by
  obtain ⟨a, b⟩ := c
  obtain ⟨⟨hx₁, hx₂⟩, hy₁, hy₂⟩ := h
  dsimp only at *
  obtain ⟨a, rfl⟩ : ∃ n : ℕ, a = n := ⟨a.toNat, by omega⟩
  obtain ⟨b, rfl⟩ : ∃ n : ℕ, b = n + 1 := ⟨(b - 1).toNat, by omega⟩
  obtain ⟨k, rfl⟩ : ∃ k, y = 32 * b + 18 + k := ⟨y - (32 * b + 18), by omega⟩
  obtain ⟨j, rfl⟩ : ∃ j, x = 32 * a + 14 + j := ⟨x - (32 * a + 14), by omega⟩
  have hj : j < 4 := by omega
  have hrow := right_walls_drawn hlevel ⟨b, by omega⟩ ⟨a, by omega⟩
  have hbit := congrArg (BitVec.getLsbD · j) hrow
  simp only [BitVec.getLsbD_extractLsb', hj, decide_true, Bool.true_and] at hbit
  rw [pictured_cellRow hlevel _ (by omega) (by omega), hbit]
  exact strip_lit_iff hj

theorem pictured_lower (hx : 1 ≤ c.1 ∧ c.1 ≤ 12) (hy : 0 ≤ c.2 ∧ c.2 ≤ 12) (h : LowerPixel c x y) :
    pictured level x y = true ↔ ¬OpenEdge (getWalls level false) c .down := by
  obtain ⟨a, b⟩ := c
  obtain ⟨⟨hx₁, hx₂⟩, hy₁, hy₂⟩ := h
  dsimp only at *
  obtain ⟨a, rfl⟩ : ∃ n : ℕ, a = n + 1 := ⟨(a - 1).toNat, by omega⟩
  obtain ⟨b, rfl⟩ : ∃ n : ℕ, b = n := ⟨b.toNat, by omega⟩
  obtain ⟨k, rfl⟩ : ∃ k, y = 32 * b + 14 + k := ⟨y - (32 * b + 14), by omega⟩
  obtain ⟨j, rfl⟩ : ∃ j, x = 32 * a + 18 + j := ⟨x - (32 * a + 18), by omega⟩
  have hj : j < 28 := by omega
  have hrow := lower_walls_drawn hlevel ⟨b, by omega⟩ ⟨a, by omega⟩
  have hbit := congrArg (BitVec.getLsbD · j) hrow
  simp only [BitVec.getLsbD_extractLsb', hj, decide_true, Bool.true_and] at hbit
  rw [pictured_wallRow hlevel _ (by omega) (by omega), hbit]
  exact strip_lit_iff hj

theorem pictured_wall (hc : Inside c) {d : Dir} (h : WallPixel c d x y) :
    pictured level x y = true ↔ ¬OpenEdge (getWalls level false) c d := by
  obtain ⟨h₁, h₂, h₃, h₄⟩ := hc
  cases d with
  | right => exact pictured_right hlevel ⟨by omega, h₂⟩ ⟨h₃, h₄⟩ h
  | left => exact pictured_right hlevel (by simp only [next, Dir.dx]; omega) (by simp only [next, Dir.dy]; omega) h
  | down => exact pictured_lower hlevel ⟨h₁, h₂⟩ ⟨by omega, h₄⟩ h
  | up => exact pictured_lower hlevel (by simp only [next, Dir.dx]; omega) (by simp only [next, Dir.dy]; omega) h

end Level

/-! ### The layer of the walls -/

namespace ColorMapper

/-- Level 2 shows the row two below the line. -/
def lineShift (level : BitVec 2) : ℕ := if level = 0b01 then 0 else 2

variable {m : ColorMapper} (hlevel : m.level = 0b01 ∨ m.level = 0b10)
include hlevel

theorem wallLit_iff : m.wallLit = true ↔ (m.drawX.toNat < 416 ∧ m.drawY.toNat ≤ 400) ∧
    pictured m.level m.drawX.toNat (m.drawY.toNat + lineShift m.level) = true := by
  have hon_iff : m.wallOn = true ↔ m.drawX.toNat < 416 ∧ m.drawY.toNat ≤ 400 := by
    rw [wallOn, Bool.and_eq_true, decide_eq_true_iff, decide_eq_true_iff]
  rw [wallLit, Bool.and_eq_true, hon_iff]
  refine and_congr_right ?_
  intro hin
  have hon := hon_iff.mpr hin
  have hrow : (wallRowAt m.wallAddr).content =
      (expand (levelRuns m.level)).getD (m.drawY.toNat + lineShift m.level) 0 := by
    rcases hlevel with hlevel | hlevel
    · rw [wallRow_level1 hon hlevel, hlevel]
      rfl
    · rw [wallRow_level2 hon hlevel, hlevel]
      split
      next => rfl
      next hlast =>
        refine (List.getD_eq_default _ _ ?_).symm
        have hlen : (expand (levelRuns 0b10)).length = 402 := level2Rows_length
        rw [hlen]
        simp only [lineShift, show ¬((0b10 : BitVec 2) = 0b01) by decide, if_false]
        omega
  rw [wallData_eq, hrow, pictured]

/-- The walls that are shown are the walls of the maze. Around each cell, the pixels between it and a neighbour
    are lit exactly when the edge between the two is closed on the map that the figures move by, and the pixels
    of the cell itself are dark. In level 2 all of it stands two lines higher. -/
theorem walls_shown_are_walls (c : Node) (hc : Inside c) :
    (CellPixel c m.drawX.toNat (m.drawY.toNat + lineShift m.level) → m.wallLit = false) ∧
    ∀ d, m.drawY.toNat ≤ 400 → WallPixel c d m.drawX.toNat (m.drawY.toNat + lineShift m.level) →
      (m.wallLit = true ↔ ¬OpenEdge (getWalls m.level false) c d) := by
  refine ⟨fun h => ?_, fun d hy h => ?_⟩
  · rw [← Bool.not_eq_true, wallLit_iff hlevel, pictured_cell hlevel hc h]
    rintro ⟨-, hlit⟩
    cases hlit
  · have hx : m.drawX.toNat < 416 := by
      obtain ⟨-, hx, -, -⟩ := hc
      cases d <;> simp only [WallPixel, RightPixel, LowerPixel, next, Dir.dx, Dir.dy] at h <;> omega
    rw [wallLit_iff hlevel, and_iff_right ⟨hx, hy⟩]
    exact pictured_wall hlevel hc h

end ColorMapper

/-- The wall to the left of Pac-Man's start cell in level 1. -/
theorem walls_shown_are_walls_start : (Lab8.reset.colorInstance 0 144 160).wallLit = true ↔
    ¬OpenEdge (getWalls 0b01 false) (5, 5) .left :=
  (ColorMapper.walls_shown_are_walls (m := Lab8.reset.colorInstance 0 144 160) (Or.inl rfl) (5, 5)
    (by unfold Inside; decide)).2 .left (by decide) (by unfold WallPixel RightPixel; decide)

end Pacman
