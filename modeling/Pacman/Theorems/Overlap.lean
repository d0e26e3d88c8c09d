import Pacman.Theorems.Contact
import Pacman.Theorems.System

/-! When contact is noticed in time. `hitPacman` answers at a distance of exactly 16 pixels, and one edge that
    carries a frame of Pac-Man and one of the ghosts changes a distance by 2. The figures overlap after an
    edge exactly when both frames fall on it and jump that distance; an edge with one frame never does. -/

namespace Pacman

/-! ### Relative motion -/

/-- The motion `m` makes the difference `d` smaller. -/
def Closes (d m : ℤ) : Prop := (d + m).natAbs < d.natAbs

/-- The figures overlap: they are less than the contact distance apart on both axes. -/
def Overlapping (dx dy : ℤ) : Prop := dx.natAbs < 16 ∧ dy.natAbs < 16

instance (dx dy : ℤ) : Decidable (Overlapping dx dy) := inferInstanceAs (Decidable (dx.natAbs < 16 ∧ dy.natAbs < 16))

/-- The figures are in contact. -/
def Touching (dx dy : ℤ) : Prop :=
  dx.natAbs = 16 ∧ dy.natAbs < 16 ∨ dy.natAbs = 16 ∧ dx.natAbs < 16

/-- Motions `(gx, gy)` of the ghost and `(px, py)` of Pac-Man that jump over the contact distance: 17 pixels
    apart on one axis they close in on each other on it, or 16 pixels apart on both axes one closes in on
    one of them and one on the other. -/
def Jumps (dx dy gx gy px py : ℤ) : Prop :=
  (dx.natAbs = 17 ∧ dy.natAbs < 16 ∧ Closes dx gx ∧ Closes dx (-px)) ∨
  (dy.natAbs = 17 ∧ dx.natAbs < 16 ∧ Closes dy gy ∧ Closes dy (-py)) ∨
  (dx.natAbs = 16 ∧ dy.natAbs = 16 ∧ (Closes dx gx ∧ Closes dy (-py) ∨ Closes dy gy ∧ Closes dx (-px)))

@[simp] theorem not_closes_zero (d : ℤ) : ¬Closes d 0 := by
  simp [Closes]

theorem apart_of_not_near {d e : ℤ} (hno : ¬Overlapping d e) (htouch : ¬Touching d e) :
    17 ≤ d.natAbs ∨ 17 ≤ e.natAbs ∨ d.natAbs = 16 ∧ e.natAbs = 16 := by
  unfold Overlapping Touching at *
  omega

theorem near_iff_same_axis {d e g p : ℤ} (hg : g.natAbs ≤ 1) (hp : p.natAbs ≤ 1) (hno : ¬Overlapping d e)
    (htouch : ¬Touching d e) :
    Overlapping (d + g - p) e ↔ d.natAbs = 17 ∧ e.natAbs < 16 ∧ Closes d g ∧ Closes d (-p) := by
  have hapart := apart_of_not_near hno htouch
  clear hno htouch
  unfold Overlapping Closes
  rcases hapart with h | h | ⟨-, h⟩
  · by_cases he : e.natAbs < 16
    · simp only [he, and_true, true_and]
      omega
    · simp only [he, and_false, false_and]
  · exact iff_of_false (fun hnear => by omega) fun hjump => by omega
  · exact iff_of_false (fun hnear => by omega) fun hjump => by omega

theorem near_iff_two_axes {d e g p : ℤ} (hg : g.natAbs ≤ 1) (hp : p.natAbs ≤ 1) (hno : ¬Overlapping d e)
    (htouch : ¬Touching d e) :
    Overlapping (d + g) (e - p) ↔ d.natAbs = 16 ∧ e.natAbs = 16 ∧ Closes d g ∧ Closes e (-p) := by
  have hapart := apart_of_not_near hno htouch
  clear hno htouch
  unfold Overlapping Closes
  rcases hapart with h | h | ⟨h, h'⟩
  · exact iff_of_false (fun hnear => by omega) fun hjump => by omega
  · exact iff_of_false (fun hnear => by omega) fun hjump => by omega
  · simp only [h, h', true_and]
    omega

theorem overlapping_comm {d e : ℤ} : Overlapping d e ↔ Overlapping e d := and_comm

theorem touching_comm {d e : ℤ} : Touching d e ↔ Touching e d := or_comm

/-- Of two figures that neither overlap nor touch, each moving one pixel along one axis at most, exactly the
    motions that jump lead to an overlap. -/
theorem overlapping_iff_jumps {dx dy gx gy px py : ℤ} (hg : gx.natAbs + gy.natAbs ≤ 1)
    (hp : px.natAbs + py.natAbs ≤ 1) (hno : ¬Overlapping dx dy) (htouch : ¬Touching dx dy) :
    Overlapping (dx + gx - px) (dy + gy - py) ↔ Jumps dx dy gx gy px py := by
  have hno' : ¬Overlapping dy dx := fun h => hno (overlapping_comm.mp h)
  have htouch' : ¬Touching dy dx := fun h => htouch (touching_comm.mp h)
  have hgx : gx.natAbs ≤ 1 := by omega
  have hgy : gy.natAbs ≤ 1 := by omega
  have hpx : px.natAbs ≤ 1 := by omega
  have hpy : py.natAbs ≤ 1 := by omega
  -- Each of the two moves along one axis.
  have hghost : gx = 0 ∨ gy = 0 := by omega
  have hpac : px = 0 ∨ py = 0 := by omega
  unfold Jumps
  rcases hghost with rfl | rfl <;> rcases hpac with rfl | rfl
  · have h := near_iff_same_axis hgy hpy hno' htouch'
    rw [overlapping_comm] at h
    simpa using h
  · have h := near_iff_two_axes hgy hpx hno' htouch'
    rw [overlapping_comm] at h
    simpa [and_comm, and_assoc, and_left_comm] using h
  · simpa using near_iff_two_axes hgx hpy hno htouch
  · simpa using near_iff_same_axis hgx hpx hno htouch

theorem not_jumps_of_ghost_rest (dx dy px py : ℤ) : ¬Jumps dx dy 0 0 px py := by
  simp [Jumps]

theorem not_jumps_of_pac_rest (dx dy gx gy : ℤ) : ¬Jumps dx dy gx gy 0 0 := by
  simp [Jumps]

/-! ### The game -/

namespace Lab8
open Lattice Walker Machine

variable {s : Lab8} {i : Input}

/-- The differences of the coordinates of ghost `g` and of Pac-Man. -/
def diffX (s : Lab8) (g : Ghost) : ℤ := (s.ghosts g).ghostXPos.toNat - s.pac.pacXPos.toNat

def diffY (s : Lab8) (g : Ghost) : ℤ := (s.ghosts g).ghostYPos.toNat - s.pac.pacYPos.toNat

/-- No ghost overlaps Pac-Man. -/
def NoOverlap (s : Lab8) : Prop := ∀ g, ¬Overlapping (s.diffX g) (s.diffY g)

/-- The motion that Pac-Man makes at an edge without a reset. -/
def pacMotion (s : Lab8) (i : Input) : Motion :=
  if i.pacFrame then s.pac.motionFinal s.walls i.keycode else { x := 0, y := 0 }

/-- The motion that a ghost makes at an edge without a reset. -/
def ghostMotion (s : Lab8) (i : Input) (g : Ghost) : Motion :=
  if i.ghostFrame then (s.ghosts g).motionFinal s.walls s.pac.pacXPos s.pac.pacYPos (i.randomness g)
  else { x := 0, y := 0 }

/-- The edge is not answered by a reset, carries a frame of Pac-Man and one of the ghosts, and their motions
    jump over the contact distance. -/
def JumpsContact (s : Lab8) (i : Input) : Prop :=
  s.resetObjects i = false ∧ i.pacFrame = true ∧ i.ghostFrame = true ∧ ∃ g,
    Jumps (s.diffX g) (s.diffY g) (s.ghostMotion i g).x.toInt (s.ghostMotion i g).y.toInt
      (s.pacMotion i).x.toInt (s.pacMotion i).y.toInt

theorem step_word_length (h : Option Dir) :
    (word (stepX h)).toInt.natAbs + (word (stepY h)).toInt.natAbs ≤ 1 := by
  rw [toInt_word (stepX_bounds h), toInt_word (stepY_bounds h)]
  exact step_length_le h

theorem pac_step (hd : Drawn s) (hr : s.resetObjects i = false) :
    ((s.step i).pac.pacXPos.toNat : ℤ) = s.pac.pacXPos.toNat + (s.pacMotion i).x.toInt ∧
      ((s.step i).pac.pacYPos.toNat : ℤ) = s.pac.pacYPos.toNat + (s.pacMotion i).y.toInt ∧
      (s.pacMotion i).x.toInt.natAbs + (s.pacMotion i).y.toInt.natAbs ≤ 1 := by
  rw [step_pac hr]
  unfold pacMotion
  split
  next =>
    obtain ⟨p, hdrawn, hp⟩ := hd.pac
    obtain ⟨h, ⟨hx, hy⟩, hdx, hdy⟩ := PacMotion.displacement hdrawn
      (PacMotion.drawnAt_band (w := s.walls) hdrawn hp i.keycode).1 hp
    have hmx : (s.pac.motionFinal s.walls i.keycode).x = word (stepX h) := hx
    have hmy : (s.pac.motionFinal s.walls i.keycode).y = word (stepY h) := hy
    have hlen := step_word_length h
    rw [hmx, hmy]
    rw [toInt_word (stepX_bounds h), toInt_word (stepY_bounds h)] at hlen ⊢
    omega
  next => simp

/-- A ghost moves by its motion, at most one pixel. -/
theorem ghost_step (hd : Drawn s) (hr : s.resetObjects i = false) (g : Ghost) :
    (((s.step i).ghosts g).ghostXPos.toNat : ℤ) = (s.ghosts g).ghostXPos.toNat + (s.ghostMotion i g).x.toInt ∧
      (((s.step i).ghosts g).ghostYPos.toNat : ℤ) =
        (s.ghosts g).ghostYPos.toNat + (s.ghostMotion i g).y.toInt ∧
      (s.ghostMotion i g).x.toInt.natAbs + (s.ghostMotion i g).y.toInt.natAbs ≤ 1 := by
  rw [step_ghost hr]
  unfold ghostMotion
  split
  next =>
    obtain ⟨p, hdrawn, hp⟩ := hd.ghost g
    obtain ⟨q, d, hq, hhead, hleaves⟩ := Pacman.ghost_step hdrawn
      (hp.mono (fun _ _ => BandEdge.fieldEdge) fun _ => InBand.inField)
      { walls := s.walls, pacX := s.pac.pacXPos, pacY := s.pac.pacYPos, randomness := i.randomness g }
    have hmx : ((s.ghosts g).motionFinal s.walls s.pac.pacXPos s.pac.pacYPos (i.randomness g)).x =
        word (stepX q.heading) := hq.xMotion_eq
    have hmy : ((s.ghosts g).motionFinal s.walls s.pac.pacXPos s.pac.pacYPos (i.randomness g)).y =
        word (stepY q.heading) := hq.yMotion_eq
    obtain ⟨hdx, hdy⟩ : GhostMotion.Leaves (s.ghosts g)
        ((s.ghosts g).moveGhost s.walls s.pac.pacXPos s.pac.pacYPos (i.randomness g)) d := hleaves
    have hlen := step_word_length (some d)
    rw [hmx, hmy, hhead]
    rw [toInt_word (stepX_bounds _), toInt_word (stepY_bounds _)] at hlen ⊢
    simp only [stepX_some, stepY_some] at hlen ⊢
    omega
  next => simp

theorem hitPacman_iff_touching (hd : Drawn s) (g : Ghost) :
    s.hitPacman g = true ↔ Touching (s.diffX g) (s.diffY g) := by
  obtain ⟨p, hp, hpband⟩ := hd.pac
  obtain ⟨q, hq, hqband⟩ := hd.ghost g
  obtain ⟨hpx, hpy, -⟩ := hp.bounds_band hpband
  obtain ⟨hqx, hqy, -⟩ := hq.bounds_band hqband
  exact GhostMotion.hitPacman_iff (near_of_le hqx hpx) (near_of_le hqy hpy)

theorem not_touching_of_not_reset (hd : Drawn s) (hr : s.resetObjects i = false) (g : Ghost) :
    ¬Touching (s.diffX g) (s.diffY g) := by
  rw [← hitPacman_iff_touching hd, Bool.not_eq_true]
  exact pacManDied_eq_false.mp (not_reset hr).2.1 g

/-- From a state without an overlap, exactly the edges that jump over the contact distance lead to one. -/
theorem noOverlap_step_iff (hd : Drawn s) (hno : NoOverlap s) (i : Input) :
    NoOverlap (s.step i) ↔ ¬JumpsContact s i := by
  by_cases hr : s.resetObjects i = true
  · -- After a reset the ghosts are 32 pixels away.
    obtain ⟨hpac, hghost, -⟩ := step_of_reset hr
    refine iff_of_true (fun g => ?_) fun h => by rw [h.1] at hr; cases hr
    unfold diffX diffY
    rw [hpac, hghost]
    decide
  rw [Bool.not_eq_true] at hr
  have hjump : ∀ g, Overlapping ((s.step i).diffX g) ((s.step i).diffY g) ↔
      Jumps (s.diffX g) (s.diffY g) (s.ghostMotion i g).x.toInt (s.ghostMotion i g).y.toInt
        (s.pacMotion i).x.toInt (s.pacMotion i).y.toInt := fun g => by
    obtain ⟨hgx, hgy, hglen⟩ := ghost_step hd hr g
    obtain ⟨hpx, hpy, hplen⟩ := pac_step hd hr
    rw [← overlapping_iff_jumps hglen hplen (hno g) (not_touching_of_not_reset hd hr g)]
    unfold diffX diffY
    rw [hgx, hgy, hpx, hpy]
    ring_nf
  unfold NoOverlap JumpsContact
  simp only [hjump, hr, true_and]
  constructor
  · rintro hno ⟨-, -, g, hg⟩
    exact hno g hg
  · intro hno g hg
    refine hno ⟨?_, ?_, g, hg⟩
    · by_contra hf
      rw [pacMotion, if_neg hf] at hg
      exact not_jumps_of_pac_rest _ _ _ _ hg
    · by_contra hf
      rw [ghostMotion, if_neg hf] at hg
      exact not_jumps_of_ghost_rest _ _ _ _ hg

/-- A run keeps clear of overlaps exactly when no edge of it jumps over the contact distance. -/
theorem noOverlap_iff_no_jump (is : List Input) :
    (∀ k, NoOverlap (run step reset (is.take k))) ↔ Avoids step JumpsContact reset is := by
  refine always_iff_avoids (I := Drawn) (fun s i h => h.step i) (fun s i hd hno => noOverlap_step_iff hd hno i)
    (drawn_of_reset rfl fun _ => rfl) fun g => ?_
  unfold diffX diffY
  cases g <;> decide

/-- An edge with no key and no frame. -/
def idle : Input where
  resetH := false
  keycode := 0
  randomness := fun _ => 0
  pacFrame := false
  ghostFrame := false

/-- Level 1 begins; 47 ghost frames bring the ghosts out of the pen, up to 17 pixels to the right of Pac-Man;
    then both frames fall on one edge while the key D is down. -/
def headOn : List Input :=
  { idle with keycode := Control.codeEnter } ::
    List.replicate 47 { idle with ghostFrame := true } ++
      [{ idle with keycode := PacMotion.codeD, pacFrame := true, ghostFrame := true }]

/-- After these edges the orange ghost is 15 pixels away, and no ghost is reported to be in contact. -/
theorem overlap_reached : ¬NoOverlap (run step reset headOn) ∧
    (run step reset headOn).diffX .orange = 15 ∧ (run step reset headOn).pacManDied = false := by
  have hx : (run step reset headOn).diffX .orange = 15 := by decide +kernel
  have hy : (run step reset headOn).diffY .orange = 0 := by decide +kernel
  refine ⟨fun hno => hno .orange ?_, hx, by decide +kernel⟩
  rw [hx, hy]
  decide

end Lab8

end Pacman
