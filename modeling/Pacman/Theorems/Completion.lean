import Mathlib.Data.List.ProdSigma
import Pacman.Lib.Tour
import Pacman.Theorems.PacMaze
import Pacman.Theorems.PreLevel

/-! Both levels can be completed. Pac-Man and the dots alone, without the ghosts, form a smaller machine that
    every reset-free edge of the game steps. In each level paths of open sides join Pac-Man's start cell to
    every dot, so from any state keys take him through all of them, and whatever Clk edges fall between
    the frames, each dot he passes is eaten. -/

namespace Pacman
open Lattice Walker Machine

/-! ### Pac-Man and the dots -/

/-- What a Clk edge means to Pac-Man: the key, and whether it carries a frame. -/
structure PacInput where
  keycode : BitVec 16
  pacFrame : Bool

structure PacAndDots where
  pac : PacMotion
  dots : AllPacDots

namespace PacAndDots

def reset : PacAndDots := { pac := PacMotion.reset, dots := AllPacDots.reset }

def clk (w : Walls) (s : PacAndDots) (i : PacInput) : PacAndDots where
  pac := if i.pacFrame then s.pac.movePac w i.keycode else s.pac
  dots := s.dots.next s.pac.pacXPos s.pac.pacYPos

/-- The states of a level: after the edges `before` under the closed map, and the edges `is` under the
    map of the level. -/
def inLevel (level : BitVec 2) (before is : List PacInput) : PacAndDots :=
  run (clk (getWalls level false)) (run (clk (getWalls level true)) reset before) is

end PacAndDots

namespace Lab8
open PacAndDots

def pacAndDots (s : Lab8) : PacAndDots := { pac := s.pac, dots := s.dots }

def Input.toPacInput (i : Input) : PacInput := { keycode := i.keycode, pacFrame := i.pacFrame }

theorem pacAndDots_step {s : Lab8} {i : Input} (hr : s.resetObjects i = false) :
    (s.step i).pacAndDots = clk s.walls s.pacAndDots i.toPacInput := by
  unfold pacAndDots
  rw [step_pac hr, step_dots hr]
  rfl

/-- In every state of the game in a level, Pac-Man and the dots are in a state of that level. -/
theorem exists_inLevel {s : Lab8} (h : s.Reachable) :
    (s.control.isPre = true → ∃ before, run (clk closedMap) PacAndDots.reset before = s.pacAndDots) ∧
      (s.control.isPre = false → ∃ before is, inLevel s.control.level before is = s.pacAndDots) := by
  refine Reachable.induction (P := fun s : Lab8 =>
    (s.control.isPre = true → ∃ before, run (clk closedMap) PacAndDots.reset before = s.pacAndDots) ∧
      (s.control.isPre = false → ∃ before is, inLevel s.control.level before is = s.pacAndDots))
    ⟨fun _ => ⟨[], rfl⟩, fun hl => by cases hl⟩ (fun s i _ ih => ?_) h
  by_cases hr : s.resetObjects i = true
  · obtain ⟨hpac, -, hdots⟩ := step_of_reset hr
    have hobjects : (s.step i).pacAndDots = PacAndDots.reset := by
      unfold pacAndDots
      rw [hpac, hdots]
      rfl
    rw [hobjects]
    exact ⟨fun _ => ⟨[], rfl⟩, fun _ => ⟨[], [], rfl⟩⟩
  rw [Bool.not_eq_true] at hr
  rw [pacAndDots_step hr]
  by_cases hpre : s.control.isPre = true
  · obtain ⟨before, hbefore⟩ := ih.1 hpre
    have hstep : run (clk closedMap) PacAndDots.reset (before ++ [i.toPacInput]) =
        clk s.walls s.pacAndDots i.toPacInput := by
      rw [run_snoc, hbefore, walls_of_isPre hpre]
    refine ⟨fun _ => ⟨_, hstep⟩, fun _ => ⟨before ++ [i.toPacInput], [], ?_⟩⟩
    rw [inLevel, getWalls_pre, run_nil, hstep]
  · rw [Bool.not_eq_true] at hpre
    obtain ⟨before, is, his⟩ := ih.2 hpre
    obtain ⟨hlevel, hstate⟩ := control_of_not_reset hr
    refine ⟨fun hpre' => ?_, fun _ => ⟨before, is ++ [i.toPacInput], ?_⟩⟩
    · rw [isPre_of_not_reset hr hpre'] at hpre
      cases hpre
    · rw [hlevel, ← his, walls_of_level hpre]
      exact run_snoc ..

end Lab8

/-! ### Schedules -/

def keysOf (is : List PacInput) : List (BitVec 16) := (is.filter fun i => i.pacFrame).map fun i => i.keycode

/-- The frames of `pac_motion` for a list of keys. -/
def PacMotion.framesFrom (w : Walls) (pac : PacMotion) (keys : List (BitVec 16)) : PacMotion :=
  run (fun pac key => pac.movePac w key) pac keys

def PacMotion.On (pac : PacMotion) (c r : ℕ) : Prop := pac.pacXPos.toNat = 32 * c ∧ pac.pacYPos.toNat = 32 * r

theorem keysOf_cons_frame (key : BitVec 16) (is : List PacInput) :
    keysOf ({ keycode := key, pacFrame := true } :: is) = key :: keysOf is := rfl

theorem exists_take_keysOf : ∀ (is : List PacInput) (n : ℕ), ∃ m, keysOf (is.take m) = (keysOf is).take n
  | _, 0 => ⟨0, rfl⟩
  | [], n + 1 => ⟨0, rfl⟩
  | i :: is, n + 1 => by
    obtain ⟨key, frame⟩ := i
    cases frame with
    | true =>
      obtain ⟨m, hm⟩ := exists_take_keysOf is n
      exact ⟨m + 1, by rw [List.take_succ_cons, keysOf_cons_frame, keysOf_cons_frame, List.take_succ_cons, hm]⟩
    | false =>
      obtain ⟨m, hm⟩ := exists_take_keysOf is (n + 1)
      exact ⟨m + 1, hm⟩

namespace PacAndDots
variable {w : Walls} {s : PacAndDots} {i j : Fin 12}

theorem run_clk_pac (is : List PacInput) : (run (clk w) s is).pac = s.pac.framesFrom w (keysOf is) := by
  induction is generalizing s with
  | nil => rfl
  | cons x is ih =>
    obtain ⟨key, frame⟩ := x
    rw [run_cons, ih]
    cases frame <;> rfl

theorem eaten_clk (x : PacInput) (h : s.dots i j = .eaten) : (clk w s x).dots i j = .eaten :=
  (AllPacDots.next_eaten_iff ..).mpr (Or.inl h)

/-- However the edges fall, a dot that Pac-Man passes on some frame is eaten by the edge after the last
    frame. -/
theorem eaten_of_passed {is : List PacInput} {n : ℕ}
    (h : (s.pac.framesFrom w ((keysOf is).take n)).On (12 - j) (12 - i)) (x : PacInput) :
    (run (clk w) s (is ++ [x])).dots i j = .eaten := by
  obtain ⟨m, hm⟩ := exists_take_keysOf is n
  rw [← hm, ← run_clk_pac] at h
  -- The first edge after Pac-Man came to the cell eats the dot.
  obtain ⟨y, rest, hrest⟩ : ∃ y rest, is.drop m ++ [x] = y :: rest := by
    cases his : is.drop m with
    | nil => exact ⟨x, [], rfl⟩
    | cons y rest => exact ⟨y, rest ++ [x], rfl⟩
  have hsplit : is ++ [x] = is.take m ++ (y :: rest) := by
    rw [← hrest, ← List.append_assoc, List.take_append_drop]
  rw [hsplit, run_append, run_cons]
  exact run_invariant (P := fun s : PacAndDots => s.dots i j = .eaten) (fun _ x hs => eaten_clk x hs)
    ((AllPacDots.next_eaten_iff ..).mpr (Or.inr h)) rest

end PacAndDots

/-! ### Reaching every dot -/

/-- The key of a direction; no direction has a key of its own in 0. -/
def codeOf : Option Dir → BitVec 16
  | none => 0
  | some .left => PacMotion.codeA
  | some .right => PacMotion.codeD
  | some .up => PacMotion.codeW
  | some .down => PacMotion.codeS

theorem keyDir_codeOf (key : Option Dir) : keyDir (codeOf key) = key := by
  cases key with
  | none => rfl
  | some d => cases d <;> rfl

/-- Paths of open sides lead to the cell from Pac-Man's start cell. -/
def Reached (w : Walls) (c : Node) : Prop := OpenPath grid (isOpen w) (5, 5) c

/-- An open edge from a cell that paths lead to. -/
def ReachedEdge (w : Walls) (c : Node) (d : Dir) : Prop := OpenEdge w c d ∧ Reached w c

section Reach
variable {w : Walls} {c : Node} {d : Dir}

theorem isOpen_back (w : Walls) (c : Node) (d : Dir) (h : isOpen w c d = true) :
    isOpen w (grid.next c d) (grid.back d) = true := by
  rw [isOpen, decide_eq_true_iff] at *
  exact openEdge_undirected w c d h

theorem Reached.next (h : Reached w c) (hd : OpenEdge w c d) : Reached w (grid.next c d) :=
  OpenPath.step h (decide_eq_true hd)

theorem closed_reached (w : Walls) : Closed grid (ReachedEdge w) (Reached w) where
  back h := ⟨openEdge_undirected w _ _ h.1, h.2.next h.1⟩
  arrive h := h.2.next h.1

theorem Reached.enterable (h : Reached w c) : Enterable w c := by
  rcases Relation.ReflTransGen.cases_tail h with rfl | ⟨b, -, d, hd, rfl⟩
  · exact Or.inl ⟨by decide, by decide, by decide, by decide⟩
  · exact Or.inr ⟨_, openEdge_undirected w b d (decide_eq_true_iff.mp hd)⟩

theorem Reached.path {a b : Node} (ha : Reached w a) (hb : Reached w b) : OpenPath grid (isOpen w) a b :=
  (ha.symm (isOpen_back w)).trans hb

end Reach

namespace PacMotion
variable {w : Walls} {pac : PacMotion} {p : Place Node Dir}

theorem drawnAt_reached (hd : pac.DrawnAt p) (hp : Legal cellSize (ReachedEdge w) (Reached w) p)
    (key : BitVec 16) :
    (pac.movePac w key).DrawnAt (drive grid cellSize (isOpen w) p (keyDir key)) ∧
      Legal cellSize (ReachedEdge w) (Reached w) (drive grid cellSize (isOpen w) p (keyDir key)) :=
  ⟨(drawnAt_step hd (hp.mono (fun _ _ h => h.1) fun _ => Reached.enterable) key).1,
    Legal.drive (closed_reached w) (fun _ _ hc hs => ⟨decide_eq_true_iff.mp hs, hc⟩) hp _⟩

theorem drawnAt_framesFrom (hd : pac.DrawnAt p) (hp : Legal cellSize (ReachedEdge w) (Reached w) p)
    (keys : List (BitVec 16)) :
    (pac.framesFrom w keys).DrawnAt (run (drive grid cellSize (isOpen w)) p (keys.map keyDir)) ∧
      Legal cellSize (ReachedEdge w) (Reached w) (run (drive grid cellSize (isOpen w)) p (keys.map keyDir)) :=
  run_simulation
    (R := fun (pac : PacMotion) p => pac.DrawnAt p ∧ Legal cellSize (ReachedEdge w) (Reached w) p)
    (fun _ _ key h => drawnAt_reached h.1 h.2 key) ⟨hd, hp⟩ keys

/-- Keys take Pac-Man through any list of cells that paths lead to. -/
theorem exists_keycodes (hd : pac.DrawnAt p) (hp : Legal cellSize (ReachedEdge w) (Reached w) p)
    (cells : List (ℕ × ℕ)) (hcells : ∀ c ∈ cells, Reached w (c.1, c.2)) :
    ∃ keys : List (BitVec 16), ∀ c ∈ cells, ∃ n, (pac.framesFrom w (keys.take n)).On c.1 c.2 := by
  have hpath : ∀ a b, Reached w a → Reached w b → OpenPath grid (isOpen w) a b := fun _ _ => Reached.path
  obtain ⟨keys, hkeys⟩ := exists_tour (by decide) Dir.ne_back (closed_reached w) hpath
    (cells.map fun c => ((c.1 : ℤ), (c.2 : ℤ))) hp fun b hb => by
      obtain ⟨c, hc, rfl⟩ := List.mem_map.mp hb
      exact hcells c hc
  refine ⟨keys.map codeOf, fun c hc => ?_⟩
  obtain ⟨n, h, hn⟩ := hkeys _ (List.mem_map_of_mem hc)
  have hdrawn := (drawnAt_framesFrom hd hp ((keys.map codeOf).take n)).1
  have hmap : ((keys.map codeOf).take n).map keyDir = keys.take n := by
    have hid : keyDir ∘ codeOf = id := funext keyDir_codeOf
    rw [← List.map_take, List.map_map, hid, List.map_id]
  rw [hmap, hn] at hdrawn
  have hx := hdrawn.xPos_eq
  have hy := hdrawn.yPos_eq
  simp only [pos_node, cellSize] at hx hy
  exact ⟨n, by omega, by omega⟩

end PacMotion

/-! ### The levels -/

/-- The cells that a search from Pac-Man's start cell finds. -/
def cellsFound (w : Walls) : List Node :=
  explore grid (isOpen w) [.left, .right, .up, .down] 144 [(5, 5)] [(5, 5)]

theorem reached_of_found {w : Walls} {c : Node} (h : c ∈ cellsFound w) : Reached w c :=
  openPath_of_mem_explore (fun _ hb => by rw [List.mem_singleton.mp hb]; exact OpenPath.refl _)
    (fun _ hb => by rw [List.mem_singleton.mp hb]; exact OpenPath.refl _) c h

theorem dots_found {level : BitVec 2} (hlevel : level = 0b01 ∨ level = 0b10) :
    ∀ i j : Fin 12, (getDotStarts level).getLsbD (12 * i + j) = true →
      (((12 - j : ℕ) : ℤ), ((12 - i : ℕ) : ℤ)) ∈ cellsFound (getWalls level false) := by
  rcases hlevel with rfl | rfl <;> decide +kernel

namespace PacAndDots

theorem inLevel_drawnAt (level : BitVec 2) (before is : List PacInput) :
    ∃ p, (inLevel level before is).pac.DrawnAt p ∧
      Legal cellSize (ReachedEdge (getWalls level false)) (Reached (getWalls level false)) p := by
  have hstart : (run (clk (getWalls level true)) reset before).pac.DrawnAt (.node (5, 5) none) := by
    rw [getWalls_pre]
    refine run_invariant (P := fun s : PacAndDots => s.pac.DrawnAt (.node (5, 5) none)) (fun s x hs => ?_)
      PacMotion.drawnAt_reset before
    unfold clk
    split
    · exact PacMotion.drawnAt_start_closed hs x.keycode
    · exact hs
  have hreached : Legal cellSize (ReachedEdge (getWalls level false)) (Reached (getWalls level false))
      (.node (5, 5) none) := OpenPath.refl _
  rw [inLevel, run_clk_pac]
  exact ⟨_, PacMotion.drawnAt_framesFrom hstart hreached _⟩

end PacAndDots

/-- In a level Pac-Man is on a path of open sides from his start cell. -/
theorem Lab8.exists_reached {s : Lab8} (h : s.Reachable) (hl : s.control.isPre = false) :
    ∃ p, s.pac.DrawnAt p ∧ Legal cellSize (ReachedEdge s.walls) (Reached s.walls) p := by
  obtain ⟨before, is, his⟩ := (exists_inLevel h).2 hl
  have hpac : s.pac = (PacAndDots.inLevel s.control.level before is).pac := congrArg PacAndDots.pac his.symm
  rw [walls_of_level hl, hpac]
  exact PacAndDots.inLevel_drawnAt s.control.level before is

namespace PacAndDots

/-- Keys take Pac-Man through all dots of a level's map; whatever Clk edges fall between their frames, no dot is left
    after one more edge. -/
theorem exists_clearing_keys {level : BitVec 2} (hlevel : level = 0b01 ∨ level = 0b10) {s : PacAndDots}
    {p : Place Node Dir} (hd : s.pac.DrawnAt p)
    (hp : Legal cellSize (ReachedEdge (getWalls level false)) (Reached (getWalls level false)) p) :
    ∃ keys, ∀ js, keysOf js = keys → ∀ x,
      (run (clk (getWalls level false)) s (js ++ [x])).dots.anyLeft (getDotStarts level) = false := by
  let dots : List (Fin 12 × Fin 12) := ((List.finRange 12).product (List.finRange 12)).filter
    fun c => (getDotStarts level).getLsbD (12 * c.1 + c.2)
  obtain ⟨keys, hkeys⟩ := PacMotion.exists_keycodes hd hp
    (dots.map fun c => (12 - (c.2 : ℕ), 12 - (c.1 : ℕ))) fun c hc => by
      obtain ⟨⟨i, j⟩, hij, rfl⟩ := List.mem_map.mp hc
      exact reached_of_found (dots_found hlevel i j (List.mem_filter.mp hij).2)
  refine ⟨keys, fun js hjs x => ?_⟩
  rw [← Bool.not_eq_true, AllPacDots.anyLeft_iff]
  rintro ⟨i, j, huneaten, hmap⟩
  have hij : (i, j) ∈ dots := List.mem_filter.mpr
    ⟨List.mem_product.mpr ⟨List.mem_finRange i, List.mem_finRange j⟩, hmap⟩
  obtain ⟨n, hn⟩ := hkeys _ (List.mem_map_of_mem hij)
  rw [← hjs] at hn
  rw [eaten_of_passed hn x] at huneaten
  cases huneaten

theorem keysOf_frames (keys : List (BitVec 16)) :
    keysOf (keys.map fun key => { keycode := key, pacFrame := true }) = keys := by
  simp [keysOf, List.filter_map, Function.comp_def]

/-- Both levels can always be completed: from every state of a level, for every dot still there, keys bring
    Pac-Man exactly onto its cell; and there are keys after whose frames, however they fall among the Clk
    edges, no dot is left. -/
theorem levels_can_be_completed (level : BitVec 2) (hlevel : level = 0b01 ∨ level = 0b10)
    (before is : List PacInput) :
    let w := getWalls level false
    let s := inLevel level before is
    (∀ c r, IsCell c r → (s.dots.stillHere (getDotStarts level)).getMsbD (cellBit c r) = true →
      ∃ keys, (s.pac.framesFrom w keys).On c r) ∧
    ∃ keys, ∀ js, keysOf js = keys → ∀ x,
      (run (clk w) s (js ++ [x])).dots.anyLeft (getDotStarts level) = false := by
  intro w s
  obtain ⟨p, hd, hp⟩ := inLevel_drawnAt level before is
  refine ⟨fun c r hcell hdot => ?_, ?_⟩
  · obtain ⟨i, j, rfl, rfl⟩ := hcell.exists_fin
    rw [getMsbD_cellBit, AllPacDots.getLsbD_stillHere] at hdot
    have hmap : (getDotStarts level).getLsbD (12 * i + j) = true := by
      cases hs : s.dots i j <;> simp [PacDot.stillHere, hs] at hdot
      exact hdot
    obtain ⟨keys, hkeys⟩ := PacMotion.exists_keycodes hd hp [(12 - j, 12 - i)]
      (by simpa using reached_of_found (dots_found hlevel i j hmap))
    obtain ⟨n, hn⟩ := hkeys _ List.mem_cons_self
    exact ⟨keys.take n, hn⟩
  · exact exists_clearing_keys hlevel hd hp

/-- From the start of level 1 some run of frames, followed by one more Clk edge, leaves no dot. -/
theorem levels_can_be_completed_level1 : ∃ js, (run (clk (getWalls 0b01 false)) (inLevel 0b01 [] []) js).dots.anyLeft
    (getDotStarts 0b01) = false := by
  obtain ⟨-, keys, hkeys⟩ := levels_can_be_completed 0b01 (Or.inl rfl) [] []
  exact ⟨_, hkeys _ (keysOf_frames keys) { keycode := 0, pacFrame := false }⟩

end PacAndDots

end Pacman
