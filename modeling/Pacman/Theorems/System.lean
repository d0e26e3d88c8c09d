import Pacman.Lab8
import Pacman.Theorems.Band

/-! Steps of the whole game. An edge at which `resetObjects` is asserted puts every object back; any other
    edge leaves the level as it is, ends no level, and moves the objects under the walls shown before it.
    Every mover always depicts a walker in the band. -/

namespace Pacman
open Lattice Walker

/-! ### Control -/

/-- What an edge does to `control`: a death resets, an edge between levels resets nothing and keeps the
    level, an edge in a level keeps the state, and the last dot ends the level with a reset. -/
theorem Control.next_cases (c : Control) (keycode : BitVec 16) (died left : Bool) :
    (died = true ∧ c.next keycode died left = Control.reset) ∨
    (died = false ∧ c.isPre = true ∧ (c.next keycode died left).resetAll = false ∧
      (c.next keycode died left).level = c.level) ∨
    (died = false ∧ c.isPre = false ∧ left = true ∧ c.next keycode died left = { c with resetAll := false }) ∨
    (died = false ∧ c.isPre = false ∧ left = false ∧ (c.next keycode died left).isPre = true ∧
      (c.next keycode died left).resetAll = true) := by
  obtain ⟨state, resetAll⟩ := c
  cases died with
  | true => exact Or.inl ⟨rfl, rfl⟩
  | false =>
    refine Or.inr ?_
    cases state with
    | newGame | beat1 | beat2 =>
      refine Or.inl ⟨rfl, rfl, rfl, ?_⟩
      by_cases hk : keycode = codeEnter <;> simp [next, level, hk]
    | level1 | level2 =>
      cases left with
      | true => exact Or.inr (Or.inl ⟨rfl, rfl, rfl, rfl⟩)
      | false => exact Or.inr (Or.inr ⟨rfl, rfl, rfl, rfl, rfl⟩)

/-- The wires of `control` depend on the state alone. -/
theorem Control.isPre_congr {c d : Control} (h : c.state = d.state) : c.isPre = d.isPre := by
  unfold Control.isPre
  rw [h]

theorem Control.level_congr {c d : Control} (h : c.state = d.state) : c.level = d.level := by
  unfold Control.level
  rw [h]

namespace Lab8

variable {s : Lab8} {i : Input}

theorem level_cases (s : Lab8) : s.control.level = 0b01 ∨ s.control.level = 0b10 := by
  unfold Control.level
  cases s.control.state with
  | newGame | level1 | beat2 => exact Or.inl rfl
  | level2 | beat1 => exact Or.inr rfl

theorem controlNext_eq (h : i.resetH = false) :
    (s.step i).control = s.control.next i.keycode s.pacManDied s.anyDotsLeft := by
  change s.controlNext i = _
  simp [controlNext, h]

theorem controlNext_reset (h : i.resetH = true) : (s.step i).control = Control.reset := by
  change s.controlNext i = _
  simp [controlNext, h]

/-- An edge without a reset: the button is up, Pac-Man is alive, and `resetAll` is low after it. -/
theorem not_reset (h : s.resetObjects i = false) :
    i.resetH = false ∧ s.pacManDied = false ∧ (s.step i).control.resetAll = false := by
  obtain ⟨⟨hbutton, -⟩, hall⟩ : (i.resetH = false ∧ s.control.resetAll = false) ∧
      (s.controlNext i).resetAll = false := by
    simpa only [resetObjects, Bool.or_eq_false_iff] using h
  change (s.step i).control.resetAll = false at hall
  refine ⟨hbutton, ?_, hall⟩
  rw [controlNext_eq hbutton] at hall
  rcases s.control.next_cases i.keycode s.pacManDied s.anyDotsLeft with h | h | h | h
  · rw [h.2] at hall
    cases hall
  · exact h.1
  · exact h.1
  · exact h.1

/-- An edge at which Pac-Man is dead resets. -/
theorem resetObjects_of_died (h : s.pacManDied = true) : s.resetObjects i = true := by
  by_contra hr
  have hdied := (not_reset (Bool.not_eq_true _ ▸ hr)).2.1
  rw [h] at hdied
  cases hdied

theorem pacManDied_eq_false : s.pacManDied = false ↔ ∀ g, s.hitPacman g = false := by
  simp only [pacManDied, Bool.or_eq_false_iff]
  exact ⟨fun h g => by cases g <;> simp [h], fun h => by simp [h]⟩

theorem resetAll_of_level (h : (s.step i).control.isPre = false) : (s.step i).control.resetAll = false := by
  by_cases hb : i.resetH = true
  · rw [controlNext_reset hb] at h
    cases h
  rw [controlNext_eq (Bool.not_eq_true _ ▸ hb)] at h ⊢
  rcases s.control.next_cases i.keycode s.pacManDied s.anyDotsLeft with hc | hc | hc | hc
  · rw [hc.2] at h
    cases h
  · exact hc.2.2.1
  · rw [hc.2.2.2]
  · rw [hc.2.2.2.1] at h
    cases h

theorem resetAll_in_level (h : s.Reachable) (hl : s.control.isPre = false) : s.control.resetAll = false :=
  Machine.Reachable.induction (P := fun s : Lab8 => s.control.isPre = false → s.control.resetAll = false)
    (fun hl => by cases hl) (fun _ _ _ _ => resetAll_of_level) h hl

/-- In a level only the button, or the edge that ends it, resets. -/
theorem not_reset_of_level (hreach : s.Reachable) (hl : s.control.isPre = false)
    (hnext : (s.step i).control.isPre = false) : s.resetObjects i = false := by
  have hall : s.control.resetAll = false := resetAll_in_level hreach hl
  have hall' : (s.controlNext i).resetAll = false := resetAll_of_level hnext
  have hbutton : i.resetH = false := by
    by_contra hb
    rw [Bool.not_eq_false] at hb
    rw [controlNext_reset hb] at hnext
    cases hnext
  simp [resetObjects, hall, hall', hbutton]

/-- In a level nothing is reset while Pac-Man is alive and dots are left. -/
theorem not_reset_of_alive (hreach : s.Reachable) (hl : s.control.isPre = false) (hb : i.resetH = false)
    (hdied : s.pacManDied = false) (hleft : s.anyDotsLeft = true) : s.resetObjects i = false := by
  refine not_reset_of_level hreach hl ?_
  rw [controlNext_eq hb, hdied, hleft]
  unfold Control.isPre at hl
  cases hs : s.control.state with
  | newGame | beat1 | beat2 =>
    rw [hs] at hl
    cases hl
  | level1 | level2 => simp [Control.next, Control.isPre, hs]

/-- Without a reset the level stays, and no level ends. -/
theorem control_of_not_reset (h : s.resetObjects i = false) :
    (s.step i).control.level = s.control.level ∧
      (s.control.isPre = false → (s.step i).control.state = s.control.state) := by
  obtain ⟨hb, hd, hall⟩ := not_reset h
  rw [controlNext_eq hb] at hall ⊢
  rcases s.control.next_cases i.keycode s.pacManDied s.anyDotsLeft with hc | hc | hc | hc
  · rw [hd] at hc
    cases hc.1
  · exact ⟨hc.2.2.2, fun hpre => by rw [hc.2.1] at hpre; cases hpre⟩
  · rw [hc.2.2.2]
    exact ⟨rfl, fun _ => rfl⟩
  · rw [hc.2.2.2.2] at hall
    cases hall

theorem isPre_of_not_reset (h : s.resetObjects i = false) (hpre : (s.step i).control.isPre = true) :
    s.control.isPre = true := by
  by_contra hl
  rw [Bool.not_eq_true] at hl
  rw [Control.isPre_congr ((control_of_not_reset h).2 hl), hl] at hpre
  cases hpre

/-! ### Objects -/

theorem step_of_reset (h : s.resetObjects i = true) :
    (s.step i).pac = PacMotion.reset ∧ (∀ g, (s.step i).ghosts g = GhostMotion.reset ghostStart ghostStart) ∧
      (s.step i).dots = AllPacDots.reset := by
  simp [step, h]

theorem step_pac (h : s.resetObjects i = false) :
    (s.step i).pac = if i.pacFrame then s.pac.movePac s.walls i.keycode else s.pac := by
  simp [step, h]

theorem step_ghost (h : s.resetObjects i = false) (g : Ghost) :
    (s.step i).ghosts g = if i.ghostFrame then
      (s.ghosts g).moveGhost s.walls s.pac.pacXPos s.pac.pacYPos (i.randomness g) else s.ghosts g := by
  simp [step, h]

theorem step_dots (h : s.resetObjects i = false) :
    (s.step i).dots = s.dots.next s.pac.pacXPos s.pac.pacYPos := by
  simp [step, h]

/-! ### Every mover is drawn in the band -/

/-- Each mover depicts a walker in the band. -/
structure Drawn (s : Lab8) : Prop where
  pac : ∃ p, s.pac.DrawnAt p ∧ Legal cellSize BandEdge InBand p
  ghost : ∀ g, ∃ p, (s.ghosts g).DrawnAt p ∧ Legal cellSize BandEdge InBand p

theorem drawn_of_reset (hpac : s.pac = PacMotion.reset)
    (hghost : ∀ g, s.ghosts g = GhostMotion.reset ghostStart ghostStart) : Drawn s := by
  constructor
  · rw [hpac]
    exact ⟨_, PacMotion.drawnAt_reset, by unfold Legal InBand; decide⟩
  · intro g
    rw [hghost]
    exact ⟨_, GhostMotion.drawnAt_reset ghostStart ghostStart, by unfold Legal InBand; decide⟩

theorem Drawn.step (h : Drawn s) (i : Input) : Drawn (s.step i) := by
  by_cases hr : s.resetObjects i = true
  · obtain ⟨hpac, hghost, -⟩ := step_of_reset hr
    exact drawn_of_reset hpac hghost
  rw [Bool.not_eq_true] at hr
  constructor
  · rw [step_pac hr]
    obtain ⟨p, hd, hp⟩ := h.pac
    split
    · exact ⟨_, PacMotion.drawnAt_band hd hp i.keycode⟩
    · exact ⟨p, hd, hp⟩
  · intro g
    rw [step_ghost hr]
    obtain ⟨p, hd, hp⟩ := h.ghost g
    split
    · exact GhostMotion.drawnAt_band hd hp
    · exact ⟨p, hd, hp⟩

theorem drawn_of_reachable (h : s.Reachable) : Drawn s :=
  h.induction (drawn_of_reset rfl fun _ => rfl) fun _ i _ hs => hs.step i

end Lab8

end Pacman
