import Pacman.Theorems.Chase
import Pacman.Theorems.Completion
import Pacman.Theorems.PenExit

/-! The game can be won. Pac-Man's cells keep a whole edge away from the pen, so until the first frame of the
    ghosts nobody is in contact, and the keys that clear a level on their own clear it in the whole game too. -/

namespace Pacman
open Lattice Walker Machine

section
variable {w : Walls}

theorem Reached.not_inPen (hw : PenMap w) {c : Node} (h : Reached w c) : ¬InPen c := by
  rcases Relation.ReflTransGen.cases_tail h with rfl | ⟨b, -, d, hd, rfl⟩
  · decide
  · exact not_inPen_of_openEdge hw (openEdge_undirected w b d (decide_eq_true_iff.mp hd))

theorem pos_reached (hw : PenMap w) {p : Place Node Dir} (h : Legal cellSize (ReachedEdge w) (Reached w) p) :
    ¬(160 < (pos cellSize p).1 ∧ (pos cellSize p).1 < 256 ∧ 160 < (pos cellSize p).2 ∧ (pos cellSize p).2 < 256) := by
  cases p with
  | node c hd =>
    have hout := Reached.not_inPen hw h
    simp only [pos_node, cellSize, InPen] at hout ⊢
    omega
  | edge c d k =>
    obtain ⟨h0, hk, he, hc⟩ := h
    have hout := hc.not_inPen hw
    have hnext := (hc.next he).not_inPen hw
    simp only [cellSize, InPen, grid, next] at hk hout hnext
    cases d <;> simp only [pos_edge, point, cellSize, Dir.dx, Dir.dy] at hnext ⊢ <;> omega

end

namespace Lab8
open PacAndDots

variable {s : Lab8} {i : Input}

/-- The ghosts walk in the pen. -/
def Penned (s : Lab8) : Prop := ∀ g, ∃ p, (s.ghosts g).DrawnAt p ∧ Legal cellSize PenEdge InPen p

theorem Penned.step (h : Penned s) (hr : s.resetObjects i = false) (hf : i.ghostFrame = false) : Penned (s.step i) := by
  intro g
  rw [step_ghost hr, hf]
  exact h g

theorem Penned.not_died (hp : Penned s) (h : s.Reachable) (hl : s.control.isPre = false) : s.pacManDied = false := by
  obtain ⟨p, hd, hlegal⟩ := exists_reached h hl
  have hfar := pos_reached (penMap_walls hl) hlegal
  rw [← hd.xPos_eq, ← hd.yPos_eq] at hfar
  refine pacManDied_eq_false.mpr fun g => ?_
  obtain ⟨q, hq, hpen⟩ := hp g
  have hnear := pos_pen hpen
  rw [← hq.xPos_eq, ← hq.yPos_eq] at hnear
  rw [← Bool.not_eq_true, hitPacman_iff_touching (drawn_of_reachable h)]
  unfold Touching diffX diffY
  omega

/-- Without the button and without frames of the ghosts, some edges of a run clear the level, or Pac-Man and the dots
    have gone all the way as they do on their own. -/
theorem clears_or_runs {is : List Input} (hp : Penned s) (h : s.Reachable) (hl : s.control.isPre = false)
    (hcalm : ∀ i ∈ is, i.resetH = false ∧ i.ghostFrame = false) :
    (∃ js, Clears (run step s js) s.control.state) ∨
    (run step s is).control.state = s.control.state ∧ Penned (run step s is) ∧
      (run step s is).pacAndDots = run (clk s.walls) s.pacAndDots (is.map Input.toPacInput) := by
  induction is generalizing s with
  | nil => exact Or.inr ⟨rfl, hp, rfl⟩
  | cons i is ih =>
    cases hleft : s.anyDotsLeft with
    | false => exact Or.inl ⟨[], rfl, hleft, hp.not_died h hl⟩
    | true =>
      obtain ⟨hb, hf⟩ := hcalm i List.mem_cons_self
      have hr := not_reset_of_alive h hl hb (hp.not_died h hl) hleft
      have hstate : (s.step i).control.state = s.control.state := (control_of_not_reset hr).2 hl
      obtain ⟨hl', hwalls⟩ := level_step hl hr
      have hrest := ih (hp.step hr hf) (h.tail i) hl' fun j hj => hcalm j (List.mem_cons_of_mem i hj)
      rw [hstate, hwalls, pacAndDots_step hr] at hrest
      rcases hrest with ⟨js, hjs⟩ | hrest
      · exact Or.inl ⟨i :: js, hjs⟩
      · exact Or.inr hrest

/-- A level in which no ghost has come out of the pen can be cleared. -/
theorem exists_clears (hp : Penned s) (h : s.Reachable) (hl : s.control.isPre = false) :
    ∃ is, Clears (run step s is) s.control.state := by
  have hwalls := walls_of_level hl
  obtain ⟨p, hd, hlegal⟩ := exists_reached h hl
  rw [hwalls] at hlegal
  obtain ⟨keys, hkeys⟩ := exists_clearing_keys (s := s.pacAndDots) (level_cases s) hd hlegal
  let is : List Input := keys.map (fun key => { idle with keycode := key, pacFrame := true }) ++ [idle]
  have hcalm : ∀ i ∈ is, i.resetH = false ∧ i.ghostFrame = false := by
    intro i hi
    rcases List.mem_append.mp hi with hi | hi
    · obtain ⟨key, -, rfl⟩ := List.mem_map.mp hi
      exact ⟨rfl, rfl⟩
    · rw [List.mem_singleton.mp hi]
      exact ⟨rfl, rfl⟩
  rcases clears_or_runs hp h hl hcalm with ⟨js, hclears⟩ | ⟨hstate, hpenned, hobjects⟩
  · exact ⟨js, hclears⟩
  · have hpre : (run step s is).control.isPre = false := (Control.isPre_congr hstate).trans hl
    refine ⟨is, hstate, ?_, hpenned.not_died (h.trans is) hpre⟩
    have hdots := hkeys (keys.map fun key => { keycode := key, pacFrame := true }) (keysOf_frames keys) idle.toPacInput
    have hmap : is.map Input.toPacInput =
        (keys.map fun key => { keycode := key, pacFrame := true }) ++ [idle.toPacInput] := by
      rw [List.map_append, List.map_map]
      rfl
    rw [← hwalls, ← hmap, ← hobjects] at hdots
    unfold anyDotsLeft dotStartMap
    rw [Control.level_congr hstate]
    exact hdots

/-! ### From the new game to the end -/

/-- An edge with the enter key and no frame. -/
def enter : Input := { idle with keycode := Control.codeEnter }

/-- The enter key begins a level that keys can clear. -/
theorem exists_clears_after_enter {lvl : LevelState} (hlvl : lvl = .level1 ∨ lvl = .level2) (h : s.Reachable)
    (hpre : s.control.isPre = true) (hentry : (s.step enter).control.state = lvl) :
    ∃ is, Clears (run step (s.step enter) is) lvl := by
  have hl : (s.step enter).control.isPre = false := by
    unfold Control.isPre
    rw [hentry]
    rcases hlvl with rfl | rfl <;> rfl
  have hpenned : Penned (s.step enter) := ((ready_of_reachable h hpre).step hpre enter).ghost
  rw [← hentry]
  exact exists_clears hpenned (h.tail enter) hl

theorem Clears.beat {lvl beat : LevelState} (h : Clears s lvl)
    (hlvl : lvl = .level1 ∧ beat = .beat1 ∨ lvl = .level2 ∧ beat = .beat2) : (s.step idle).control.state = beat :=
  (beats_iff hlvl h.state_eq).mpr ⟨rfl, pacManDied_eq_false.mp h.alive, h.no_dots⟩

theorem enter_after_beat1 (h : s.Reachable) (hs : s.control.state = .beat1) :
    (s.step enter).control.state = .level2 := by
  have hpre : s.control.isPre = true := by
    unfold Control.isPre
    rw [hs]
  have hdied := pacManDied_eq_false.mpr (ready_of_reachable h hpre).clean.no_contact
  rw [controlNext_eq rfl, Control.next, hdied, hs]
  rfl

/-- Level 1 can be cleared from the new game. -/
theorem exists_clears_level1 : ∃ is, Clears (run step reset is) .level1 := by
  obtain ⟨is, his⟩ := exists_clears_after_enter (s := reset) (Or.inl rfl) Reachable.refl rfl (by decide)
  exact ⟨enter :: is, his⟩

/-- The whole game can be played to the end of level 2. -/
theorem exists_clears_level2 : ∃ is, Clears (run step reset is) .level2 := by
  obtain ⟨is, his⟩ := exists_clears_level1
  have hbeat : (run step reset (is ++ [idle])).control.state = .beat1 := by
    rw [run_snoc]
    exact his.beat (Or.inl ⟨rfl, rfl⟩)
  have hreach : (run step reset (is ++ [idle])).Reachable := Reachable.refl.trans _
  have hpre : (run step reset (is ++ [idle])).control.isPre = true := by
    unfold Control.isPre
    rw [hbeat]
  obtain ⟨js, hjs⟩ := exists_clears_after_enter (Or.inr rfl) hreach hpre (enter_after_beat1 hreach hbeat)
  refine ⟨is ++ [idle] ++ enter :: js, ?_⟩
  rw [run_append, run_cons]
  exact hjs

/-- Some run beats level 1, and then every dot of its map was visited. -/
theorem dots_since_reset_level1 : ∃ is, (run step reset is).control.state = .level1 ∧
    ((run step reset is).step idle).control.state = .beat1 ∧
    ∀ c r, IsCell c r → (run step reset is).dotStartMap.getMsbD (cellBit c r) = true → Visited is c r := by
  obtain ⟨is, his⟩ := exists_clears_level1
  have hbeat : ((run step reset is).step idle).control.state = .beat1 := his.beat (Or.inl ⟨rfl, rfl⟩)
  exact ⟨is, his.state_eq, hbeat,
    (((dots_since_reset is).2.2.2 idle .level1 .beat1 (Or.inl ⟨rfl, rfl⟩) his.state_eq).mp hbeat).2.2⟩

/-- Some run waits for level 2, and some run for level 1 again. -/
theorem levels_take_turns_twice :
    (∃ is : List Input, (run step reset is).control.state = .beat1 ∧
      ∃ j < is.length, Clears (run step reset (is.take j)) .level1) ∧
    ∃ is : List Input, (run step reset is).control.state = .beat2 ∧
      ∃ j < is.length, Clears (run step reset (is.take j)) .level2 ∧
        ∀ l, j < l → l ≤ is.length → (run step reset (is.take l)).control.state = .beat2 := by
  constructor
  · obtain ⟨is, his⟩ := exists_clears_level1
    have hbeat : (run step reset (is ++ [idle])).control.state = .beat1 := by
      rw [run_snoc]
      exact his.beat (Or.inl ⟨rfl, rfl⟩)
    obtain ⟨j, hj, hclears, -⟩ := (levels_take_turns (is ++ [idle])).1
      (by simp only [List.take_length]; exact Or.inl hbeat)
    exact ⟨is ++ [idle], hbeat, j, hj, hclears⟩
  · obtain ⟨is, his⟩ := exists_clears_level2
    have hbeat : (run step reset (is ++ [idle])).control.state = .beat2 := by
      rw [run_snoc]
      exact his.beat (Or.inr ⟨rfl, rfl⟩)
    exact ⟨is ++ [idle], hbeat, (levels_take_turns (is ++ [idle])).2
      (by simp only [List.take_length]; exact hbeat)⟩

end Lab8

end Pacman
