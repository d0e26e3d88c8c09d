import Pacman.Theorems.Completion
import Pacman.Theorems.System

/-! Pac-Man can be steered. A direction key that is held turns him where its side is open and until then he goes straight
    on, one pixel nearer to the edge of the maze with each frame: so he is steered before he would be there. -/

namespace Pacman
open Lattice Walker Machine

namespace PacMotion

/-- The frames that Pac-Man can go straight on at most. -/
def room (pac : PacMotion) : ℕ :=
  if pac.left then pac.pacXPos.toNat
  else if pac.right then 416 - pac.pacXPos.toNat
  else if pac.up then pac.pacYPos.toNat
  else if pac.down then 416 - pac.pacYPos.toNat
  else 0

/-- Pac-Man moves as the key says, or he rests at an intersection whose side is closed. -/
def Steered (pac : PacMotion) (w : Walls) (d : Dir) : Prop :=
  (pac.pacXMotion = word d.dx ∧ pac.pacYMotion = word d.dy) ∨
    (pac.pacXMotion = 0 ∧ pac.pacYMotion = 0 ∧ pac.atIntersection = true ∧ (pac.turns w).toward d = false)

/-- Steered, or with less than `m` frames to go straight on. -/
def Steers (pac : PacMotion) (w : Walls) (d : Dir) (m : ℕ) : Prop :=
  ∃ p, pac.DrawnAt p ∧ Legal cellSize BandEdge InBand p ∧
    (Walker.Steered (side w) d p ∨ p.heading.elim 0 (Lattice.room 416 (pos cellSize p)) < m)

variable {pac : PacMotion} {w : Walls} {d : Dir} {p : Place Node Dir} {m : ℕ}

theorem DrawnAt.steered (hd : pac.DrawnAt p) (h : Walker.Steered (side w) d p) : pac.Steered w d := by
  rcases h with hheading | ⟨c, rfl, hclosed⟩
  · refine Or.inl ⟨?_, ?_⟩
    · rw [hd.xMotion_eq, hheading, stepX_some]
    · rw [hd.yMotion_eq, hheading, stepY_some]
  · refine Or.inr ⟨hd.xMotion_eq, hd.yMotion_eq, ?_, ?_⟩
    · rw [atIntersection_eq, decide_eq_true_iff]
      exact hd.on_node
    · rw [turns_toward hd]
      exact hclosed

theorem DrawnAt.room_eq (hd : pac.DrawnAt p) (hp : Legal cellSize BandEdge InBand p) :
    (pac.room : ℤ) = p.heading.elim 0 (Lattice.room 416 (pos cellSize p)) := by
  obtain ⟨hl, hr, hu, hdn⟩ := heading_eq hd
  obtain ⟨hx, hy, -⟩ := hd.bounds_band hp
  have hxp := hd.xPos_eq
  have hyp := hd.yPos_eq
  unfold room
  rw [hl, hr, hu, hdn]
  cases hh : p.heading with
  | none => rfl
  | some e => cases e <;> simp [Lattice.room] <;> omega

theorem Steers.start (hd : pac.DrawnAt p) (hp : Legal cellSize BandEdge InBand p) (hroom : pac.room < m) :
    pac.Steers w d m := by
  refine ⟨p, hd, hp, Or.inr ?_⟩
  rw [← hd.room_eq hp]
  exact_mod_cast hroom

/-- A frame with the key takes one from the frames that are left. -/
theorem Steers.movePac (h : pac.Steers w d m) : (pac.movePac w (codeOf (some d))).Steers w d (m - 1) := by
  obtain ⟨p, hd, hp, hgo⟩ := h
  obtain ⟨hd', hp'⟩ := drawnAt_band (w := w) hd hp (codeOf (some d))
  rw [keyDir_codeOf] at hd' hp'
  refine ⟨_, hd', hp', ?_⟩
  rcases hgo with hsteered | hroom
  · exact Or.inl hsteered.drive
  rcases steered_or_straight (G := grid) (n := cellSize) (side w) p d with hsteered | ⟨e, he, he'⟩
  · exact Or.inl hsteered
  · refine Or.inr ?_
    obtain ⟨turn, reverse, hmove⟩ := drive_eq_move grid cellSize (side w) p (some d)
    have hpos := pos_move (n := cellSize) (by decide) hp turn reverse
    rw [← hmove, he', stepX_some, stepY_some] at hpos
    have hnearer := room_step 416 (pos cellSize p) e
    rw [he, Option.elim_some] at hroom
    rw [he', hpos, Option.elim_some]
    omega

end PacMotion

namespace Lab8

variable {s : Lab8} {i : Input} {d : Dir} {m : ℕ}

/-- Another key, or the end of the level. -/
def Breaks (d : Dir) (s : Lab8) (i : Input) : Prop :=
  i.keycode ≠ codeOf (some d) ∨ (s.step i).control.isPre = true

instance (d : Dir) (s : Lab8) (i : Input) : Decidable (Breaks d s i) := inferInstanceAs (Decidable (_ ∨ _))

/-- In a level Pac-Man is steered, or has less than `m` frames left. -/
structure Steers (d : Dir) (s : Lab8) (m : ℕ) : Prop where
  reachable : s.Reachable
  level : s.control.isPre = false
  pac : s.pac.Steers s.walls d m

theorem Steers.step (h : Steers d s m) (hb : ¬Breaks d s i) :
    Steers d (s.step i) (if i.pacFrame then m - 1 else m) := by
  obtain ⟨hreach, hlevel, hpac⟩ := h
  obtain ⟨hkey, hnext⟩ := not_or.mp hb
  rw [not_ne_iff] at hkey
  rw [Bool.not_eq_true] at hnext
  have hr := not_reset_of_level hreach hlevel hnext
  obtain ⟨hl, -⟩ := control_of_not_reset hr
  have hwalls : (s.step i).walls = s.walls := by
    rw [walls, walls, hl, hlevel, hnext]
  refine ⟨Reachable.tail hreach i, hnext, ?_⟩
  rw [hwalls, step_pac hr, hkey]
  split
  · exact hpac.movePac
  · exact hpac

/-- A direction key that is held in a level steers Pac-Man: as soon as there were more frames than he could go straight
    on, and from then on, he moves in its direction or rests before a wall on this side. -/
theorem held_key_steers (s : Lab8) (hreach : s.Reachable) (hlevel : s.control.isPre = false) (d : Dir)
    (is : List Input) (hheld : Avoids step (Breaks d) s is)
    (hframes : s.pac.room < stepsOf step (fun _ i => i.pacFrame) s is) :
    (run step s is).pac.Steered (run step s is).walls d := by
  obtain ⟨p, hd, hp⟩ := (drawn_of_reachable hreach).pac
  have hstart : Steers d s (stepsOf step (fun _ i => i.pacFrame) s is) :=
    ⟨hreach, hlevel, PacMotion.Steers.start hd hp hframes⟩
  have hidle : ∀ (s : Lab8) (i : Input) (m : ℕ), ¬Breaks d s i → i.pacFrame = false → Steers d s m →
      Steers d (s.step i) m := fun s i m hb hc h => by
    have hnext := h.step hb
    rwa [hc, if_neg Bool.false_ne_true] at hnext
  have htick : ∀ (s : Lab8) (i : Input) (m : ℕ), ¬Breaks d s i → i.pacFrame = true → Steers d s m →
      Steers d (s.step i) (m - 1) := fun s i m hb hc h => by
    have hnext := h.step hb
    rwa [hc, if_pos rfl] at hnext
  have hend := run_countdown (Q := Steers d) hidle htick hheld hstart
  rw [Nat.sub_self] at hend
  obtain ⟨p, hd, hp, hsteered | hroom⟩ := hend.pac
  · exact hd.steered hsteered
  · rw [← hd.room_eq hp] at hroom
    exact absurd hroom (by simp)

/-- The first frame of a level, with the key A held. -/
theorem held_key_steers_first :
    let start : Input :=
      { resetH := false, keycode := Control.codeEnter, randomness := fun _ => 0, pacFrame := false, ghostFrame := false }
    let frame : Input := { start with keycode := PacMotion.codeA, pacFrame := true }
    let s := run step reset [start]
    (run step s [frame]).pac.Steered (run step s [frame]).walls .left :=
  held_key_steers _ ⟨_, rfl⟩ (by decide) .left _ (by decide +kernel) (by decide +kernel)

end Lab8

end Pacman
