import Pacman.Theorems.Contact
import Pacman.Theorems.DotGrid

/-! Between levels the closed map holds Pac-Man on his start cell and the ghosts in the pen, however long
    that lasts. A level ends with a reset, so every level starts from there although nothing is reset when
    it begins. -/

namespace Pacman
open Lattice Walker

/-! ### The closed map -/

def InPen (c : Node) : Prop := (c.1 = 6 ∨ c.1 = 7) ∧ (c.2 = 6 ∨ c.2 = 7)

def PenEdge (c : Node) (d : Dir) : Prop := InPen c ∧ InPen (next c d)

instance (c : Node) : Decidable (InPen c) := inferInstanceAs (Decidable ((c.1 = 6 ∨ c.1 = 7) ∧ (c.2 = 6 ∨ c.2 = 7)))

def closedMap : Walls := { horizWalls := defaultHoriz, vertWalls := defaultVert }

theorem getWalls_pre (level : BitVec 2) : getWalls level true = closedMap := rfl

theorem InPen.cases {c : Node} (h : InPen c) : c = (6, 6) ∨ c = (6, 7) ∨ c = (7, 6) ∨ c = (7, 7) := by
  obtain ⟨a, b⟩ := c
  obtain ⟨rfl | rfl, rfl | rfl⟩ : (a = 6 ∨ a = 7) ∧ (b = 6 ∨ b = 7) := h <;> simp

theorem InPen.inside {c : Node} (h : InPen c) : Inside c := by
  simp only [InPen, Inside] at *
  omega

theorem PenEdge.fieldEdge {c : Node} {d : Dir} (h : PenEdge c d) : FieldEdge c d :=
  ⟨h.1.inside.inBand.inField, h.2.inside.inBand.inField⟩

theorem closed_pen : Closed grid PenEdge InPen where
  back h := ⟨h.2, by simpa using h.1⟩
  arrive h := h.2

theorem side_closedMap_pen {c : Node} (h : InPen c) (d : Dir) :
    side closedMap c d = decide (InPen (next c d)) := by
  rcases h.cases with rfl | rfl | rfl | rfl <;> cases d <;> decide +kernel

theorem side_closedMap_start (d : Dir) : side closedMap (5, 5) d = false := by
  cases d <;> decide +kernel

theorem turnsInto_closedMap {c : Node} {d : Dir} (h : InPen c) (ht : GhostMotion.TurnsInto (side closedMap c) d) :
    PenEdge c d := by
  rcases ht with hs | ⟨hnone, -⟩
  · rw [side_closedMap_pen h, decide_eq_true_iff] at hs
    exact ⟨h, hs⟩
  · -- Each pen cell has a neighbour in the pen.
    exfalso
    have hleft := hnone .left
    have hright := hnone .right
    rw [side_closedMap_pen h, decide_eq_false_iff_not] at hleft hright
    simp only [InPen, next, Dir.dx, Dir.dy] at h hleft hright
    omega

theorem PacMotion.drawnAt_start_closed {pac : PacMotion} (hd : pac.DrawnAt (.node (5, 5) none)) (keycode : BitVec 16) :
    (pac.movePac closedMap keycode).DrawnAt (.node (5, 5) none) := by
  have hp : Legal cellSize BandEdge InBand (.node (5, 5) none) := by unfold Legal InBand; decide
  have hstop : drive grid cellSize (side closedMap) (.node (5, 5) none) (keyDir keycode) = .node (5, 5) none := by
    unfold drive
    cases keyDir keycode <;> simp [turn, side_closedMap_start]
  have hmove := (PacMotion.drawnAt_band (w := closedMap) hd hp keycode).1
  rwa [hstop] at hmove

theorem pos_pen {p : Place Node Dir} (h : Legal cellSize PenEdge InPen p) :
    (192 ≤ (pos cellSize p).1 ∧ (pos cellSize p).1 ≤ 224) ∧
      (192 ≤ (pos cellSize p).2 ∧ (pos cellSize p).2 ≤ 224) ∧
      ((pos cellSize p).1 = 192 ∨ (pos cellSize p).1 = 224 ∨ (pos cellSize p).2 = 192 ∨
        (pos cellSize p).2 = 224) := by
  cases p with
  | node c hd =>
    have hc : InPen c := h
    simp only [pos_node, cellSize, InPen] at hc ⊢
    omega
  | edge c d k =>
    obtain ⟨h0, hk, hc, hn⟩ := h
    simp only [cellSize, InPen, next] at hk hc hn
    cases d <;> simp only [pos_edge, point, cellSize, Dir.dx, Dir.dy] at hn ⊢ <;> omega

/-! ### The objects between levels -/

namespace Lab8

/-- The objects of a level that has not begun to move: Pac-Man rests on his start cell, the ghosts walk in
    the pen, and only the dot of the start cell may be eaten. -/
structure Ready (s : Lab8) : Prop where
  pac : s.pac.DrawnAt (.node (5, 5) none)
  ghost : ∀ g, ∃ p, (s.ghosts g).DrawnAt p ∧ Legal cellSize PenEdge InPen p
  dots : ∀ i j : Fin 12, s.dots i j = .eaten → (i : ℕ) = 7 ∧ (j : ℕ) = 7

variable {s : Lab8} {i : Input}

theorem ready_of_reset (hpac : s.pac = PacMotion.reset)
    (hghost : ∀ g, s.ghosts g = GhostMotion.reset ghostStart ghostStart) (hdots : s.dots = AllPacDots.reset) :
    Ready s where
  pac := by
    rw [hpac]
    exact PacMotion.drawnAt_reset
  ghost g := by
    rw [hghost]
    exact ⟨_, GhostMotion.drawnAt_reset ghostStart ghostStart, by unfold Legal InPen; decide⟩
  dots i j h := by
    rw [hdots] at h
    cases h

theorem walls_of_isPre (h : s.control.isPre = true) : s.walls = closedMap := by
  unfold walls
  rw [h, getWalls_pre]

theorem walls_of_level (h : s.control.isPre = false) : s.walls = getWalls s.control.level false := by
  unfold walls
  rw [h]

/-- An edge between levels keeps the objects ready, also the one that begins a level. -/
theorem Ready.step (h : Ready s) (hpre : s.control.isPre = true) (i : Input) : Ready (s.step i) := by
  by_cases hr : s.resetObjects i = true
  · obtain ⟨hpac, hghost, hdots⟩ := step_of_reset hr
    exact ready_of_reset hpac hghost hdots
  rw [Bool.not_eq_true] at hr
  have hwalls := walls_of_isPre hpre
  refine ⟨?_, fun g => ?_, fun i j he => ?_⟩
  · rw [step_pac hr, hwalls]
    split
    next => exact PacMotion.drawnAt_start_closed h.pac i.keycode
    next => exact h.pac
  · rw [step_ghost hr, hwalls]
    obtain ⟨p, hd, hp⟩ := h.ghost g
    split
    next =>
      obtain ⟨turn, -, hd', hp'⟩ := GhostMotion.drawnAt_moveGhost closedMap s.pac.pacXPos s.pac.pacYPos
        (i.randomness g) closed_pen (fun _ _ => turnsInto_closedMap) (fun _ _ => PenEdge.fieldEdge)
        (fun _ hc => hc.inside.inBand.inField) hd hp
      exact ⟨_, hd', hp'⟩
    next => exact ⟨p, hd, hp⟩
  · rw [step_dots hr, AllPacDots.next_eaten_iff] at he
    rcases he with he | ⟨hx, hy⟩
    · exact h.dots i j he
    · have hx' := h.pac.xPos_eq
      have hy' := h.pac.yPos_eq
      simp only [pos_node, cellSize] at hx' hy'
      omega

theorem ready_of_reachable (h : s.Reachable) (hpre : s.control.isPre = true) : Ready s := by
  refine Machine.Reachable.induction (P := fun s : Lab8 => s.control.isPre = true → Ready s)
    (fun _ => ready_of_reset rfl (fun _ => rfl) rfl) (fun s i _ ih hpre => ?_) h hpre
  by_cases hr : s.resetObjects i = true
  · obtain ⟨hpac, hghost, hdots⟩ := step_of_reset hr
    exact ready_of_reset hpac hghost hdots
  · have hold := isPre_of_not_reset (Bool.not_eq_true _ ▸ hr) hpre
    exact (ih hold).step hold i

/-! ### Clean starts -/

/-- What a level starts with, in the registers. -/
structure Clean (s : Lab8) : Prop where
  pac_at_start : s.pac.pacXPos = 160 ∧ s.pac.pacYPos = 160
  pac_at_rest : s.pac.pacXMotion = 0 ∧ s.pac.pacYMotion = 0
  ghosts_in_pen : ∀ g, let x := (s.ghosts g).ghostXPos.toNat
    let y := (s.ghosts g).ghostYPos.toNat
    (192 ≤ x ∧ x ≤ 224) ∧ (192 ≤ y ∧ y ≤ 224) ∧ (x = 192 ∨ x = 224 ∨ y = 192 ∨ y = 224)
  no_contact : ∀ g, s.hitPacman g = false
  dots_uneaten : ∀ i j : Fin 12, s.dots i j = .eaten → AllPacDots.dotY i = 5 ∧ PacDotRow.dotX j = 5

theorem Ready.clean (h : Ready s) : Clean s := by
  have hx := h.pac.xPos_eq
  have hy := h.pac.yPos_eq
  simp only [pos_node, cellSize] at hx hy
  have hpen : ∀ g, (192 ≤ (s.ghosts g).ghostXPos.toNat ∧ (s.ghosts g).ghostXPos.toNat ≤ 224) ∧
      (192 ≤ (s.ghosts g).ghostYPos.toNat ∧ (s.ghosts g).ghostYPos.toNat ≤ 224) ∧
      ((s.ghosts g).ghostXPos.toNat = 192 ∨ (s.ghosts g).ghostXPos.toNat = 224 ∨
        (s.ghosts g).ghostYPos.toNat = 192 ∨ (s.ghosts g).ghostYPos.toNat = 224) := fun g => by
    obtain ⟨p, hd, hp⟩ := h.ghost g
    have hpos := pos_pen hp
    rw [← hd.xPos_eq, ← hd.yPos_eq] at hpos
    omega
  refine ⟨⟨?_, ?_⟩, ⟨h.pac.xMotion_eq, h.pac.yMotion_eq⟩, hpen, fun g => ?_, fun i j he => ?_⟩
  · exact BitVec.eq_of_toNat_eq (by rw [show (160 : BitVec 10).toNat = 160 from rfl]; omega)
  · exact BitVec.eq_of_toNat_eq (by rw [show (160 : BitVec 10).toNat = 160 from rfl]; omega)
  · -- The pen is 32 pixels away from the start cell.
    have hfar := hpen g
    rw [hitPacman, ← Bool.not_eq_true, GhostMotion.hitPacman_iff (near_of_le (by omega) (by omega))
      (near_of_le (by omega) (by omega))]
    omega
  · obtain ⟨hi, hj⟩ := h.dots i j he
    obtain rfl : i = 7 := Fin.ext hi
    obtain rfl : j = 7 := Fin.ext hj
    exact ⟨rfl, rfl⟩

theorem Clean.dots_shown (h : Clean s) {c r : ℕ} (hcell : IsCell c r) (hne : ¬(c = 5 ∧ r = 5)) :
    s.currDotMap.getMsbD (cellBit c r) = s.dotStartMap.getMsbD (cellBit c r) := by
  obtain ⟨i, j, rfl, rfl⟩ := hcell.exists_fin
  rw [Bool.eq_iff_iff, currDotMap_eq, and_iff_left_iff_imp]
  intro _ he
  obtain ⟨hy, hx⟩ := h.dots_uneaten i j he
  have hi := toNat_dotY i
  have hj := toNat_dotX j
  rw [hy] at hi
  rw [hx] at hj
  exact hne ⟨hj.symm, hi.symm⟩

/-- A level is entered from a state between levels. -/
theorem isPre_of_entry (h : s.Reachable) (hl : (s.step i).control.isPre = false)
    (hentry : (s.step i).control.state ≠ s.control.state) : s.control.isPre = true := by
  by_contra hpre
  rw [Bool.not_eq_true] at hpre
  exact hentry ((control_of_not_reset (not_reset_of_level h hpre hl)).2 hpre)

/-- In every state that runs reach between levels the objects are clean, and in a level `resetAll` is low. Every edge
    that enters a level, whichever the state before it was, comes from a state between levels, leaves `resetAll` low and
    the objects clean, and every dot of the level's map is still there but possibly that of the start cell. -/
theorem levels_start_clean (s : Lab8) (h : s.Reachable) :
    (s.control.isPre = true → Clean s) ∧
    (s.control.isPre = false → s.control.resetAll = false) ∧
    (∀ i, (s.step i).control.isPre = false → (s.step i).control.state ≠ s.control.state →
      s.control.isPre = true ∧ (s.step i).control.resetAll = false ∧ Clean (s.step i) ∧
      ∀ c r, IsCell c r → ¬(c = 5 ∧ r = 5) →
        (s.step i).currDotMap.getMsbD (cellBit c r) = (s.step i).dotStartMap.getMsbD (cellBit c r)) := by
  refine ⟨fun hpre => (ready_of_reachable h hpre).clean, resetAll_in_level h, fun i hl hentry => ?_⟩
  have hpre := isPre_of_entry h hl hentry
  have hclean := ((ready_of_reachable h hpre).step hpre i).clean
  exact ⟨hpre, resetAll_in_level (h.tail i) hl, hclean, fun c r => hclean.dots_shown⟩

/-- The enter key begins level 1, an edge after the reset. -/
theorem levels_start_clean_enter :
    let wait : Input :=
      { resetH := false, keycode := 0, randomness := fun _ => 0, pacFrame := false, ghostFrame := false }
    let enter : Input := { wait with keycode := Control.codeEnter }
    let s := (reset.step wait).step enter
    s.control.state = .level1 ∧ s.control.resetAll = false ∧ Clean s ∧ ∀ c r, IsCell c r → ¬(c = 5 ∧ r = 5) →
      s.currDotMap.getMsbD (cellBit c r) = s.dotStartMap.getMsbD (cellBit c r) := by
  intro wait enter s
  have hreach : (reset.step wait).Reachable := Machine.Reachable.tail Machine.Reachable.refl wait
  have hstate : s.control.state = .level1 := by decide
  exact ⟨hstate, ((levels_start_clean (reset.step wait) hreach).2.2 enter (by decide) (by decide)).2⟩

end Lab8

end Pacman
