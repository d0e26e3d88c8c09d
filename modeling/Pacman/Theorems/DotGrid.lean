import Pacman.Theorems.System

/-! The dots. Every bit of `currDotMap` belongs to the dot of its cell, and a dot is eaten exactly when
    Pac-Man stood on its cell at some Clk edge since the last reset; so no dot is skipped, none comes back,
    and a level is beaten when all its dots were visited. -/

namespace Pacman
open Bits

/-- Column `c` and row `r` of a cell of the maze. -/
structure IsCell (c r : ℕ) : Prop where
  left : 1 ≤ c
  right : c ≤ 12
  top : 1 ≤ r
  bottom : r ≤ 12

/-- The bit of cell `(c, r)` in a map of dots, counted from the most significant one. -/
def cellBit (c r : ℕ) : ℕ := 12 * (r - 1) + (c - 1)

/-- Bit `12 * i + j` from the least significant one belongs to dot `j` of row `i`. -/
theorem getMsbD_cellBit (v : BitVec 144) (i j : Fin 12) :
    v.getMsbD (cellBit (12 - j) (12 - i)) = v.getLsbD (12 * i + j) := by
  rw [getMsbD_eq_getLsbD (by unfold cellBit; omega)]
  congr 1
  unfold cellBit
  omega

theorem isCell_of_fin (i j : Fin 12) : IsCell (12 - j) (12 - i) := ⟨by omega, by omega, by omega, by omega⟩

theorem IsCell.exists_fin {c r : ℕ} (h : IsCell c r) : ∃ i j : Fin 12, c = 12 - j ∧ r = 12 - i := by
  obtain ⟨h₁, h₂, h₃, h₄⟩ := h
  exact ⟨⟨12 - r, by omega⟩, ⟨12 - c, by omega⟩, by dsimp only; omega, by dsimp only; omega⟩

theorem toNat_dotX (j : Fin 12) : (PacDotRow.dotX j).toNat = 12 - j := by
  revert j
  decide

theorem toNat_dotY (i : Fin 12) : (AllPacDots.dotY i).toNat = 12 - i := by
  revert i
  decide

/-! ### The wiring of the rows -/

namespace AllPacDots

theorem lowBit_eq (i : Fin 12) : lowBit i = 12 * i := by
  revert i
  decide

theorem getLsbD_rowStart (map : BitVec 144) (i j : Fin 12) :
    (rowStart map i).getLsbD j = map.getLsbD (12 * i + j) := by
  rw [rowStart, lowBit_eq, BitVec.getLsbD_extractLsb']
  simp

theorem getLsbD_rows (row : Fin 12 → BitVec 12) (i j : Fin 12) :
    (concat 144 [row 11, row 10, row 9, row 8, row 7, row 6, row 5, row 4, row 3, row 2, row 1,
      row 0]).getLsbD (12 * i + j) = (row i).getLsbD j := by
  have hdiv : (12 * (i : ℕ) + j) / 12 = i := by omega
  have hmod : (12 * (i : ℕ) + j) % 12 = j := by omega
  have hrow : [row 11, row 10, row 9, row 8, row 7, row 6, row 5, row 4, row 3, row 2, row 1,
      row 0].reverse.getD i 0#12 = row i := by
    obtain ⟨i, hi⟩ := i
    interval_cases i <;> rfl
  rw [getLsbD_concat (by decide) (by omega), hdiv, hmod, hrow]

theorem getLsbD_stillHere (dots : AllPacDots) (map : BitVec 144) (i j : Fin 12) :
    (dots.stillHere map).getLsbD (12 * i + j) =
      PacDot.stillHere (dots i j) (map.getLsbD (12 * i + j)) := by
  refine (getLsbD_rows (fun i => PacDotRow.stillHere (dots i) (rowStart map i)) i j).trans ?_
  rw [PacDotRow.stillHere, getLsbD_ofBits, getLsbD_rowStart]

theorem anyLeft_iff (dots : AllPacDots) (map : BitVec 144) :
    dots.anyLeft map = true ↔ ∃ i j : Fin 12, dots i j = .uneaten ∧ map.getLsbD (12 * i + j) = true := by
  have hrow : ∀ i : Fin 12, PacDotRow.anyLeft (dots i) (rowStart map i) = true ↔
      ∃ j : Fin 12, dots i j = .uneaten ∧ map.getLsbD (12 * i + j) = true := fun i => by
    rw [PacDotRow.anyLeft, decide_eq_true_iff]
    refine ne_zero_iff.trans (exists_congr fun j => ?_)
    rw [PacDotRow.stillHere, getLsbD_ofBits, getLsbD_rowStart]
    cases dots i j <;> simp [PacDot.stillHere]
  simp [anyLeft, hrow]

theorem atIntersection_eq (pacX pacY : BitVec 10) :
    atIntersection pacX pacY = decide (pacX.toNat % 32 = 0 ∧ pacY.toNat % 32 = 0) := by
  rw [Bool.decide_and, ← low_bits_eq, ← low_bits_eq]
  simp only [atIntersection, Bool.not_or, Bool.and_assoc]

theorem block_eq_iff (dot : BitVec 5) (v : BitVec 10) : dot = v.extractLsb' 5 5 ↔ dot.toNat = v.toNat / 32 := by
  rw [← BitVec.toNat_inj, toNat_high_bits rfl]
  rfl

/-- A dot is eaten at an edge when it already was, or Pac-Man stands exactly on its cell. -/
theorem next_eaten_iff (dots : AllPacDots) (pacX pacY : BitVec 10) (i j : Fin 12) :
    dots.next pacX pacY i j = .eaten ↔
      dots i j = .eaten ∨ pacX.toNat = 32 * (12 - j) ∧ pacY.toNat = 32 * (12 - i) := by
  have here : (PacDotRow.dotX j = pacX.extractLsb' 5 5 ∧ dotY i = pacY.extractLsb' 5 5 ∧
      atIntersection pacX pacY = true) ↔ pacX.toNat = 32 * (12 - j) ∧ pacY.toNat = 32 * (12 - i) := by
    rw [block_eq_iff, block_eq_iff, atIntersection_eq, decide_eq_true_iff, toNat_dotX, toNat_dotY]
    omega
  unfold next PacDot.next
  cases dots i j with
  | eaten => simp
  | uneaten =>
    simp only [here, reduceCtorEq, false_or]
    split <;> simp_all

end AllPacDots

/-! ### Runs -/

namespace Lab8
open Machine

def StandsOn (c r : ℕ) (s : Lab8) (_ : Input) : Prop :=
  s.pac.pacXPos.toNat = 32 * c ∧ s.pac.pacYPos.toNat = 32 * r

def Resets (s : Lab8) (i : Input) : Prop := s.resetObjects i = true

instance : ∀ (s : Lab8) (i : Input), Decidable (Resets s i) := fun _ _ => inferInstanceAs (Decidable (_ = _))

/-- At some edge of the run since `resetObjects` was last asserted, Pac-Man stood exactly on the cell. -/
def Visited (is : List Input) (c r : ℕ) : Prop := OnceSince step (StandsOn c r) Resets reset is

theorem eaten_iff_visited (is : List Input) (i j : Fin 12) :
    (run step reset is).dots i j = .eaten ↔ Visited is (12 - j) (12 - i) := by
  induction is using List.reverseRecOn with
  | nil => exact iff_of_false (fun h => by cases h) not_onceSince_nil
  | append_singleton is x ih =>
    unfold Visited at ih ⊢
    rw [run_snoc, onceSince_snoc]
    by_cases hr : (run step reset is).resetObjects x = true
    · refine iff_of_false (fun h => ?_) fun h => h.1 hr
      rw [(step_of_reset hr).2.2] at h
      cases h
    · rw [step_dots (Bool.not_eq_true _ ▸ hr), AllPacDots.next_eaten_iff, ih]
      exact ⟨fun h => ⟨hr, h.symm⟩, fun h => h.2.symm⟩

section Bits
variable {s : Lab8} {i j : Fin 12}

theorem currDotMap_eq (s : Lab8) (i j : Fin 12) :
    s.currDotMap.getMsbD (cellBit (12 - j) (12 - i)) = true ↔
      s.dotStartMap.getMsbD (cellBit (12 - j) (12 - i)) = true ∧ s.dots i j ≠ .eaten := by
  unfold currDotMap
  rw [getMsbD_cellBit, getMsbD_cellBit, AllPacDots.getLsbD_stillHere]
  cases s.dots i j <;> simp [PacDot.stillHere]

theorem dotStartMap_step {x : Input} (h : s.resetObjects x = false) : (s.step x).dotStartMap = s.dotStartMap :=
  congrArg getDotStarts (control_of_not_reset h).1

theorem anyDotsLeft_iff (s : Lab8) : s.anyDotsLeft = false ↔
    ∀ i j : Fin 12, s.dotStartMap.getMsbD (cellBit (12 - j) (12 - i)) = true → s.dots i j = .eaten := by
  have hleft := AllPacDots.anyLeft_iff s.dots s.dotStartMap
  rw [← Bool.not_eq_true, anyDotsLeft, hleft]
  simp only [not_exists, not_and]
  refine forall_congr' fun i => forall_congr' fun j => ?_
  rw [getMsbD_cellBit]
  cases s.dots i j <;> simp

end Bits

/-- A level is beaten at an edge when no dot is left, no ghost is in contact and the button is up. -/
theorem beats_iff {s : Lab8} {x : Input} {lvl beat : LevelState}
    (hlvl : lvl = .level1 ∧ beat = .beat1 ∨ lvl = .level2 ∧ beat = .beat2) (hs : s.control.state = lvl) :
    (s.step x).control.state = beat ↔
      x.resetH = false ∧ (∀ g, s.hitPacman g = false) ∧ s.anyDotsLeft = false := by
  rw [← pacManDied_eq_false]
  by_cases hb : x.resetH = true
  · rw [controlNext_reset hb, hb]
    rcases hlvl with ⟨-, rfl⟩ | ⟨-, rfl⟩ <;> simp [Control.reset]
  rw [Bool.not_eq_true] at hb
  rw [controlNext_eq hb, Control.next, hs, hb]
  cases s.pacManDied <;> cases s.anyDotsLeft <;> rcases hlvl with ⟨rfl, rfl⟩ | ⟨rfl, rfl⟩ <;> simp

/-- The map of dots after a run. A dot is shown exactly when the level's map has it and its cell was not
    visited since the last reset. So standing on a cell at one edge, however the frames fall, removes its
    dot; a dot comes back by a reset only; and a level is beaten at an edge (with the reset button up) exactly
    when every dot of its map was visited before and no ghost is in contact. -/
theorem dots_since_reset (is : List Input) :
    let s := run step reset is
    (∀ c r, IsCell c r → (s.currDotMap.getMsbD (cellBit c r) = true ↔
      s.dotStartMap.getMsbD (cellBit c r) = true ∧ ¬Visited is c r)) ∧
    (∀ c r x, IsCell c r → s.resetObjects x = false → StandsOn c r s x →
      (s.step x).currDotMap.getMsbD (cellBit c r) = false) ∧
    (∀ c r x, IsCell c r → s.resetObjects x = false → s.currDotMap.getMsbD (cellBit c r) = false →
      (s.step x).currDotMap.getMsbD (cellBit c r) = false) ∧
    (∀ x lvl beat, lvl = .level1 ∧ beat = .beat1 ∨ lvl = .level2 ∧ beat = .beat2 → s.control.state = lvl →
      ((s.step x).control.state = beat ↔ x.resetH = false ∧ (∀ g, s.hitPacman g = false) ∧
        ∀ c r, IsCell c r → s.dotStartMap.getMsbD (cellBit c r) = true → Visited is c r)) := by
  intro s
  have hshown : ∀ c r, IsCell c r → (s.currDotMap.getMsbD (cellBit c r) = true ↔
      s.dotStartMap.getMsbD (cellBit c r) = true ∧ ¬Visited is c r) := by
    intro c r hcell
    obtain ⟨i, j, rfl, rfl⟩ := hcell.exists_fin
    rw [currDotMap_eq, ← eaten_iff_visited]
  refine ⟨hshown, fun c r x hcell hr hstands => ?_, fun c r x hcell hr hgone => ?_,
    fun x lvl beat hlvl hs => ?_⟩
  · obtain ⟨i, j, rfl, rfl⟩ := hcell.exists_fin
    rw [← Bool.not_eq_true, currDotMap_eq, step_dots hr, ne_eq, AllPacDots.next_eaten_iff]
    exact fun h => h.2 (Or.inr hstands)
  · obtain ⟨i, j, rfl, rfl⟩ := hcell.exists_fin
    rw [← Bool.not_eq_true, currDotMap_eq] at hgone ⊢
    rw [dotStartMap_step hr, step_dots hr, ne_eq, AllPacDots.next_eaten_iff]
    exact fun h => hgone ⟨h.1, fun he => h.2 (Or.inl he)⟩
  · rw [beats_iff hlvl hs, anyDotsLeft_iff]
    refine and_congr_right fun _ => and_congr_right fun _ => ⟨fun h c r hcell hmap => ?_, fun h i j hmap => ?_⟩
    · obtain ⟨i, j, rfl, rfl⟩ := hcell.exists_fin
      exact (eaten_iff_visited is i j).mp (h i j hmap)
    · exact (eaten_iff_visited is i j).mpr (h _ _ (isCell_of_fin i j) hmap)

end Lab8

end Pacman
