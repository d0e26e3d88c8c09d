import Pacman.Lib.Chase
import Pacman.Theorems.Overlap
import Pacman.Theorems.PreLevel

/-! What the game is for, and that it does it. The game is a chase on the maze: the two levels take turns for
    as long as Pac-Man lives, he is driven by the keys, the ghosts walk about, a dot is eaten where he stood,
    and contact takes him back to the first level. Every run of the registers of `lab8.sv` is, moment by
    moment, a run of that chase. -/

namespace Pacman
open Lattice Walker Machine

/-! ### The chase -/

/-- The level that stage `n` is played on. -/
def levelOf (n : ℕ) : BitVec 2 := if n % 2 = 0 then 0b01 else 0b10

/-- The cells that have a dot on the map of a level. -/
def dotCells (level : BitVec 2) : Set Node :=
  {p | ∃ c r : ℕ, IsCell c r ∧ p = (↑c, ↑r) ∧ (getDotStarts level).getMsbD (cellBit c r) = true}

/-- The chase of the game. -/
def mazeRules : Chase.Rules Node Dir Ghost where
  graph := grid
  length := cellSize
  stageSide n := side (getWalls (levelOf n) false)
  pellets n := dotCells (levelOf n)
  waitingSide := side closedMap
  heroStart := (5, 5)
  hunterStart := fun _ => (6, 6)
  noWay := .up
  touching p q := Touching ((pos cellSize q).1 - (pos cellSize p).1) ((pos cellSize q).2 - (pos cellSize p).2)

abbrev Chase := Chase.State Node Dir Ghost

/-- The states of `control` that a stage may be in. -/
def AtStage : LevelState → ℕ → Prop
  | .newGame, n => n = 0
  | .level1, n => n % 2 = 0
  | .beat1, n => n % 2 = 1
  | .level2, n => n % 2 = 1
  | .beat2, n => n % 2 = 0 ∧ 0 < n

section AtStage
variable {c : LevelState} {n : ℕ}

theorem AtStage.odd (h : AtStage c n) (hn : n % 2 = 1) : c = .beat1 ∨ c = .level2 := by
  cases c with
  | newGame =>
    have hzero : n = 0 := h
    omega
  | level1 =>
    have heven : n % 2 = 0 := h
    omega
  | beat1 => exact Or.inl rfl
  | level2 => exact Or.inr rfl
  | beat2 =>
    have heven : n % 2 = 0 := h.1
    omega

theorem AtStage.even (h : AtStage c n) (hn : n % 2 = 0) : c = .newGame ∨ c = .level1 ∨ c = .beat2 ∧ 0 < n := by
  cases c with
  | newGame => exact Or.inl rfl
  | level1 => exact Or.inr (Or.inl rfl)
  | beat2 => exact Or.inr (Or.inr ⟨rfl, h.2⟩)
  | beat1 | level2 =>
    have hodd : n % 2 = 1 := h
    omega

end AtStage

/-- An edge that ends no level keeps the stage, and begins it with the enter key. -/
theorem Control.next_play {c : Control} (keycode : BitVec 16) {left : Bool} {n : ℕ} (hstage : AtStage c.state n)
    (hnot : ¬(c.isPre = false ∧ left = false)) :
    AtStage (c.next keycode false left).state n ∧
      (!(c.next keycode false left).isPre) = (!c.isPre || decide (keycode = codeEnter)) ∧
      (c.next keycode false left).resetAll = false := by
  obtain ⟨state, resetAll⟩ := c
  cases state with
  | newGame =>
    have hzero : n = 0 := hstage
    by_cases hk : keycode = codeEnter <;> simp [next, isPre, hk, hzero, AtStage]
  | beat1 =>
    have hodd : n % 2 = 1 := hstage
    by_cases hk : keycode = codeEnter <;> simp [next, isPre, hk, hodd, AtStage]
  | beat2 =>
    obtain ⟨heven, hpos⟩ : n % 2 = 0 ∧ 0 < n := hstage
    by_cases hk : keycode = codeEnter <;> simp [next, isPre, hk, heven, hpos, AtStage]
  | level1 | level2 =>
    cases left with
    | true => exact ⟨hstage, rfl, rfl⟩
    | false => exact absurd ⟨rfl, rfl⟩ hnot

theorem Control.next_cleared {c : Control} (keycode : BitVec 16) {n : ℕ} (hstage : AtStage c.state n)
    (hpre : c.isPre = false) : AtStage (c.next keycode false false).state (n + 1) ∧
      (c.next keycode false false).isPre = true ∧ (c.next keycode false false).resetAll = true := by
  obtain ⟨state, resetAll⟩ := c
  cases state with
  | newGame | beat1 | beat2 => cases hpre
  | level1 =>
    have heven : n % 2 = 0 := hstage
    exact ⟨show (n + 1) % 2 = 1 by omega, rfl, rfl⟩
  | level2 =>
    have hodd : n % 2 = 1 := hstage
    exact ⟨show (n + 1) % 2 = 0 ∧ 0 < n + 1 by omega, rfl, rfl⟩

namespace Lab8

/-- What an edge means for the chase. -/
def Input.event (i : Input) : Chase.Event Dir where
  abort := i.resetH
  go := i.keycode = Control.codeEnter
  key := keyDir i.keycode
  heroMoves := i.pacFrame
  huntersMove := i.ghostFrame

/-- The registers show a state of the chase. -/
structure Shows (s : Lab8) (a : Chase) : Prop where
  stage : AtStage s.control.state a.stage
  playing : a.playing = !s.control.isPre
  held : a.held = s.control.resetAll
  hero : s.pac.DrawnAt a.hero ∧ Legal cellSize BandEdge InBand a.hero
  hunters : ∀ g, (s.ghosts g).DrawnAt (a.hunters g) ∧ Legal cellSize BandEdge InBand (a.hunters g)
  eaten : ∀ i j : Fin 12, s.dots i j = .eaten ↔ (((12 - j : ℕ) : ℤ), ((12 - i : ℕ) : ℤ)) ∈ a.eaten

variable {s : Lab8} {a : Chase} {i : Input}

section Shows
variable (h : s.Shows a)
include h

theorem Shows.drawn : Drawn s := ⟨⟨_, h.hero⟩, fun g => ⟨_, h.hunters g⟩⟩

theorem Shows.level_eq : s.control.level = levelOf a.stage := by
  have hstage := h.stage
  unfold Control.level levelOf
  cases hs : s.control.state with
  | newGame =>
    have hzero : a.stage = 0 := by rwa [hs] at hstage
    rw [hzero]
    rfl
  | level1 =>
    rw [hs] at hstage
    exact (if_pos hstage).symm
  | beat1 | level2 =>
    rw [hs] at hstage
    have hodd : a.stage % 2 = 1 := hstage
    exact (if_neg (by omega)).symm
  | beat2 =>
    rw [hs] at hstage
    exact (if_pos hstage.1).symm

theorem Shows.side_eq : side s.walls = mazeRules.side a := by
  unfold walls Chase.Rules.side
  rw [h.playing, h.level_eq]
  cases s.control.isPre <;> rfl

theorem Shows.caught_iff : mazeRules.Caught a ↔ s.pacManDied = true := by
  have htouch : ∀ g, mazeRules.touching a.hero (a.hunters g) ↔ s.hitPacman g = true := fun g => by
    rw [hitPacman_iff_touching h.drawn]
    unfold diffX diffY
    rw [h.hero.1.xPos_eq, h.hero.1.yPos_eq, (h.hunters g).1.xPos_eq, (h.hunters g).1.yPos_eq]
    rfl
  simp only [Chase.Rules.Caught, htouch, pacManDied, Bool.or_eq_true]
  constructor
  · rintro ⟨g, hg⟩
    cases g <;> simp [hg]
  · rintro (((hg | hg) | hg) | hg)
    exacts [⟨_, hg⟩, ⟨_, hg⟩, ⟨_, hg⟩, ⟨_, hg⟩]

theorem Shows.cleared_iff : mazeRules.Cleared a ↔ s.control.isPre = false ∧ s.anyDotsLeft = false := by
  unfold Chase.Rules.Cleared
  rw [h.playing, Bool.not_eq_true', anyDotsLeft_iff]
  refine and_congr_right fun _ => ?_
  unfold dotStartMap
  rw [h.level_eq]
  constructor
  · intro hsub i j hdot
    exact (h.eaten i j).mpr (hsub ⟨_, _, isCell_of_fin i j, rfl, hdot⟩)
  · rintro hall _ ⟨c, r, hcell, rfl, hdot⟩
    obtain ⟨i, j, rfl, rfl⟩ := hcell.exists_fin
    exact (h.eaten i j).mp (hall i j hdot)

end Shows

/-! ### The steps -/

theorem shows_of_objects_reset (hpac : s.pac = PacMotion.reset)
    (hghost : ∀ g, s.ghosts g = GhostMotion.reset ghostStart ghostStart) (hdots : s.dots = AllPacDots.reset)
    {n : ℕ} {playing held : Bool} (hstage : AtStage s.control.state n) (hplaying : playing = !s.control.isPre)
    (hheld : held = s.control.resetAll) : s.Shows { mazeRules.start n with playing := playing, held := held } := by
  refine ⟨hstage, hplaying, hheld, ?_, fun g => ?_, fun k j => ?_⟩
  · rw [hpac]
    exact ⟨PacMotion.drawnAt_reset, show InBand (5, 5) by unfold InBand; decide⟩
  · rw [hghost]
    exact ⟨GhostMotion.drawnAt_reset ghostStart ghostStart, show InBand (6, 6) by unfold InBand; decide⟩
  · rw [hdots]
    exact iff_of_false (fun h => by cases h) fun h => h

theorem shows_start {n : ℕ} (hr : s.resetObjects i = true) (hstage : AtStage (s.step i).control.state n)
    (hpre : (s.step i).control.isPre = true) (hall : (s.step i).control.resetAll = true) :
    (s.step i).Shows (mazeRules.start n) := by
  obtain ⟨hpac, hghost, hdots⟩ := step_of_reset hr
  exact shows_of_objects_reset hpac hghost hdots hstage (by rw [hpre]; rfl) hall.symm

/-- A walker that stands on no cell is off every dot. -/
theorem stands_iff (h : s.Shows a) (i j : Fin 12) :
    (s.pac.pacXPos.toNat = 32 * (12 - j) ∧ s.pac.pacYPos.toNat = 32 * (12 - i)) ↔
      ∃ hd, a.hero = .node (((12 - j : ℕ) : ℤ), ((12 - i : ℕ) : ℤ)) hd := by
  obtain ⟨hd, hp⟩ := h.hero
  have hx := hd.xPos_eq
  have hy := hd.yPos_eq
  cases ha : a.hero with
  | node c hdg =>
    rw [ha] at hx hy
    simp only [pos_node, cellSize] at hx hy
    simp only [Place.node.injEq, exists_and_left, exists_eq', and_true, Prod.ext_iff]
    omega
  | edge c d k =>
    rw [ha] at hd hp
    have hoff := hd.off_node hp.1 hp.2.1
    refine iff_of_false (fun hstand => hoff (by omega)) ?_
    rintro ⟨hd, h⟩
    cases h

section Figures
variable (h : s.Shows a) (hr : s.resetObjects i = false)
include h hr

theorem Shows.step_hero :
    (s.step i).pac.DrawnAt
        (if i.pacFrame then drive grid cellSize (mazeRules.side a) a.hero (keyDir i.keycode) else a.hero) ∧
      Legal cellSize BandEdge InBand
        (if i.pacFrame then drive grid cellSize (mazeRules.side a) a.hero (keyDir i.keycode) else a.hero) := by
  obtain ⟨hd, hp⟩ := h.hero
  rw [step_pac hr, ← h.side_eq]
  split
  · exact PacMotion.drawnAt_band hd hp i.keycode
  · exact ⟨hd, hp⟩

theorem Shows.step_hunter (g : Ghost) :
    ∃ q, (if i.ghostFrame then mazeRules.HunterMoves (mazeRules.side a) (a.hunters g) q else q = a.hunters g) ∧
      ((s.step i).ghosts g).DrawnAt q ∧ Legal cellSize BandEdge InBand q := by
  obtain ⟨hd, hp⟩ := h.hunters g
  rw [step_ghost hr, ← h.side_eq]
  split
  · obtain ⟨turn, hturn, hd', hp'⟩ := GhostMotion.drawnAt_moveGhost s.walls s.pac.pacXPos s.pac.pacYPos
      (i.randomness g) closed_band (fun _ _ hc ht => ht.inBand hc) (fun _ _ => BandEdge.fieldEdge)
      (fun _ => InBand.inField) hd hp
    refine ⟨_, ⟨turn, fun c hd heq => ?_, rfl⟩, hd', hp'⟩
    obtain ⟨d, hd, hinto, -⟩ := hturn c hd heq
    exact ⟨d, hd, hinto⟩
  · exact ⟨_, rfl, hd, hp⟩

theorem Shows.step_eaten (k j : Fin 12) : (s.step i).dots k j = .eaten ↔
    (((12 - j : ℕ) : ℤ), ((12 - k : ℕ) : ℤ)) ∈ a.eaten ∪ {c | ∃ hd, a.hero = .node c hd} := by
  rw [step_dots hr, AllPacDots.next_eaten_iff, h.eaten, stands_iff h]
  rfl

end Figures

theorem Shows.follow (h : s.Shows a) (i : Input) :
    ∃ a', mazeRules.Step a i.event a' ∧ (s.step i).Shows a' := by
  by_cases hb : i.resetH = true
  · have hcontrol := controlNext_reset (s := s) hb
    refine ⟨_, .abort hb, shows_start (by simp [resetObjects, hb]) ?_ ?_ ?_⟩ <;> rw [hcontrol] <;> rfl
  rw [Bool.not_eq_true] at hb
  have hcontrol := controlNext_eq (s := s) hb
  by_cases hd : s.pacManDied = true
  · rw [hd] at hcontrol
    refine ⟨_, .caught hb (h.caught_iff.mpr hd), shows_start (resetObjects_of_died hd) ?_ ?_ ?_⟩ <;>
      rw [hcontrol] <;> rfl
  have hcaught : ¬mazeRules.Caught a := fun hc => hd (h.caught_iff.mp hc)
  rw [Bool.not_eq_true] at hd
  rw [hd] at hcontrol
  by_cases hc : s.control.isPre = false ∧ s.anyDotsLeft = false
  · rw [hc.2] at hcontrol
    obtain ⟨hstage, hpre, hall⟩ := Control.next_cleared i.keycode h.stage hc.1
    rw [← hcontrol] at hstage hpre hall
    have hr : s.resetObjects i = true := by
      change (s.controlNext i).resetAll = true at hall
      simp [resetObjects, hall]
    exact ⟨_, .cleared hb hcaught (h.cleared_iff.mpr hc), shows_start hr hstage hpre hall⟩
  have hcleared : ¬mazeRules.Cleared a := fun hcl => hc (h.cleared_iff.mp hcl)
  obtain ⟨hstage, hplaying, hall⟩ := Control.next_play i.keycode h.stage hc
  rw [← hcontrol] at hstage hplaying hall
  have hr : s.resetObjects i = s.control.resetAll := by
    change (s.controlNext i).resetAll = false at hall
    simp [resetObjects, hall, hb]
  have hgo : (a.playing || i.event.go) = !(s.step i).control.isPre := by
    rw [hplaying, h.playing]
    rfl
  cases hheld : a.held with
  | true =>
    -- The reset that is still asserted holds every figure at its start.
    rw [← h.held, hheld] at hr
    obtain ⟨hpac, hghost, hdots⟩ := step_of_reset hr
    let a' : Chase := { mazeRules.start a.stage with playing := a.playing || i.event.go, held := false }
    have hmove : mazeRules.FiguresMove a i.event a' :=
      ⟨by rw [hheld]; rfl, fun g => by rw [hheld]; rfl, by rw [hheld]; rfl⟩
    exact ⟨a', .play hb hcaught hcleared hmove rfl rfl rfl,
      shows_of_objects_reset hpac hghost hdots hstage hgo hall.symm⟩
  | false =>
    rw [← h.held, hheld] at hr
    choose hunters hhunter hdrawn using h.step_hunter hr
    let a' : Chase :=
      { stage := a.stage
        playing := a.playing || i.event.go
        held := false
        hero := if i.pacFrame then drive grid cellSize (mazeRules.side a) a.hero (keyDir i.keycode) else a.hero
        hunters := hunters
        eaten := a.eaten ∪ {c | ∃ hd, a.hero = .node c hd} }
    have hmove : mazeRules.FiguresMove a i.event a' :=
      ⟨by rw [hheld]; rfl, fun g => by rw [hheld]; exact hhunter g, by rw [hheld]; rfl⟩
    exact ⟨a', .play hb hcaught hcleared hmove rfl rfl rfl, hstage, hgo, hall.symm, h.step_hero hr, hdrawn,
      h.step_eaten hr⟩

theorem shows_reset : reset.Shows (mazeRules.start 0) :=
  shows_of_objects_reset rfl (fun _ => rfl) rfl rfl rfl rfl

/-- Every run of the game is a run of the chase: at each moment the registers show its state, and each `Clk`
    edge is one of its steps, with what the edge means. -/
theorem lab8_refines_chase (is : List Input) :
    ∃ t, mazeRules.IsRun (is.map Input.event) t ∧ ∀ k ≤ is.length, (run step reset (is.take k)).Shows (t k) :=
  isRun_of_simulation (R := Shows) (fun _ _ i h => h.follow i) shows_reset is

/-! ### The levels take turns -/

/-- A level is being cleared: its last dot is eaten, and Pac-Man is alive. -/
structure Clears (s : Lab8) (level : LevelState) : Prop where
  state_eq : s.control.state = level
  no_dots : s.anyDotsLeft = false
  alive : s.pacManDied = false

/-- What comes before the wait for level 1 after level 2. -/
theorem beat2_cases (h : (s.step i).control.state = .beat2) : s.control.state = .beat2 ∨ s.control.state = .level2 := by
  have hb : i.resetH = false := by
    by_contra hb
    rw [controlNext_reset ((Bool.not_eq_false _).mp hb)] at h
    cases h
  rw [controlNext_eq hb] at h
  generalize s.control = c at h ⊢
  obtain ⟨state, resetAll⟩ := c
  cases hdied : s.pacManDied with
  | true =>
    rw [hdied] at h
    cases h
  | false =>
    rw [hdied] at h
    cases state with
    | beat2 => exact Or.inl rfl
    | level2 => exact Or.inr rfl
    | newGame | beat1 =>
      by_cases hkey : i.keycode = Control.codeEnter <;> simp [Control.next, hkey] at h
    | level1 => cases hleft : s.anyDotsLeft <;> simp [Control.next, hleft] at h

/-- The levels come in turn. Who waits for level 2 or plays it cleared level 1 at some edge of the run and has
    been at level 2 since; who waits for level 1 again cleared level 2 at some edge and has been waiting since.
    From the edge that cleared on nobody died and nobody pressed the reset button, as that leads to the new game. -/
theorem levels_take_turns (is : List Input) :
    let state k := run step reset (is.take k)
    ((state is.length).control.state = .beat1 ∨ (state is.length).control.state = .level2 →
      ∃ j < is.length, Clears (state j) .level1 ∧ ∀ l, j < l → l ≤ is.length →
        (state l).control.state = .beat1 ∨ (state l).control.state = .level2) ∧
    ((state is.length).control.state = .beat2 →
      ∃ j < is.length, Clears (state j) .level2 ∧ ∀ l, j < l → l ≤ is.length → (state l).control.state = .beat2) := by
  intro state
  obtain ⟨t, hrun, hshows⟩ := isRun_of_simulation (R := Shows) (fun _ _ i h => h.follow i) shows_reset is
  -- The stage before the one of the last state was cleared, and the stage has stayed since.
  have hcleared : ∀ m, (t is.length).stage = m + 1 → ∃ j < is.length, (t j).stage = m ∧
      ((state j).control.isPre = false ∧ (state j).anyDotsLeft = false) ∧ (state j).pacManDied = false ∧
      ∀ l, j < l → l ≤ is.length → (t l).stage = m + 1 := by
    intro m hm
    obtain ⟨j, hj, hstage, hcl, hcaught, hsince⟩ :=
      Chase.Rules.exists_cleared hrun (by rw [List.length_map]) (show m < (t is.length).stage by omega)
    have h := hshows j hj.le
    refine ⟨j, hj, hstage, h.cleared_iff.mp hcl, ?_, fun l hl hle => ?_⟩
    · rw [← Bool.not_eq_true, ← h.caught_iff]
      exact hcaught
    · have := hsince l hl hle
      omega
  have hstages : ∀ l ≤ is.length, AtStage (state l).control.state (t l).stage := fun l hl => (hshows l hl).stage
  constructor
  · intro hnow
    have hodd : (t is.length).stage % 2 = 1 := by
      have hend := hstages is.length le_rfl
      rcases hnow with hnow | hnow <;> rwa [hnow] at hend
    obtain ⟨j, hj, hstage, ⟨hpre, hdots⟩, halive, hsince⟩ := hcleared ((t is.length).stage - 1) (by omega)
    refine ⟨j, hj, ⟨?_, hdots, halive⟩, fun l hl hle => (hstages l hle).odd (by rw [hsince l hl hle]; omega)⟩
    rcases (hstages j hj.le).even (by omega) with h | h | ⟨h, -⟩
    · rw [Control.isPre, h] at hpre
      cases hpre
    · exact h
    · rw [Control.isPre, h] at hpre
      cases hpre
  · intro hnow
    obtain ⟨heven, hpos⟩ : (t is.length).stage % 2 = 0 ∧ 0 < (t is.length).stage := by
      have hend := hstages is.length le_rfl
      rwa [hnow] at hend
    obtain ⟨j, hj, hstage, ⟨hpre, hdots⟩, halive, hsince⟩ := hcleared ((t is.length).stage - 1) (by omega)
    have hat : ∀ l, j < l → l ≤ is.length → (state l).control.state = .beat2 ∨ (state l).control.state = .level1 := by
      intro l hl hle
      rcases (hstages l hle).even (by rw [hsince l hl hle]; omega) with h | h | ⟨h, -⟩
      · have hzero := hstages l hle
        rw [h, hsince l hl hle] at hzero
        cases hzero
      · exact Or.inr h
      · exact Or.inl h
    refine ⟨j, hj, ⟨?_, hdots, halive⟩, fun l hl hle => ?_⟩
    · rcases (hstages j hj.le).odd (by omega) with h | h
      · rw [Control.isPre, h] at hpre
        cases hpre
      · exact h
    · -- Backwards from the end: before a wait in this stage there is a wait.
      obtain ⟨n, hn⟩ := Nat.exists_eq_add_of_le hle
      induction n generalizing l with
      | zero =>
        obtain rfl : l = is.length := hn.symm
        exact hnow
      | succ n ih =>
        have hnext : (state (l + 1)).control.state = .beat2 := ih (l + 1) (by omega) (by omega) (by omega)
        have hsucc : state (l + 1) = (state l).step is[l] :=
          run_take_succ step reset (List.getElem?_eq_getElem (by omega))
        rw [hsucc] at hnext
        rcases hat l hl hle with h | h
        · exact h
        · rcases beat2_cases hnext with h' | h'
          · exact h'
          · rw [h] at h'
            cases h'

end Lab8

end Pacman
