import Pacman.Theorems.Board
import Pacman.Theorems.PreLevel
import Pacman.Theorems.Raster

/-! What the beam meets. A picture takes 840000 edges, and between two frames of Pac-Man there are 400002, of a
    ghost 524002; so the figures move while a picture is drawn. But the beam passes over 250 lines in 400000
    edges, and a figure has 32: in the lines around it a picture shows it in one place, or down to some pixel in
    one place and from there on a pixel further. -/

namespace Pacman
open Machine Counter

/-! ### Places -/

/-- The places are one pixel apart along one axis, or the same. -/
def Beside (p q : ℤ × ℤ) : Prop := (q.1 - p.1).natAbs + (q.2 - p.2).natAbs ≤ 1

theorem beside_refl (p : ℤ × ℤ) : Beside p p := by simp [Beside]

namespace Lab8

def pacPlace (s : Lab8) : ℤ × ℤ := (s.pac.pacXPos.toNat, s.pac.pacYPos.toNat)

def ghostPlace (g : Ghost) (s : Lab8) : ℤ × ℤ := ((s.ghosts g).ghostXPos.toNat, (s.ghosts g).ghostYPos.toNat)

variable {s : Lab8} {i : Input}

theorem beside_step_pac (hd : Drawn s) (hr : s.resetObjects i = false) : Beside s.pacPlace (s.step i).pacPlace := by
  obtain ⟨hx, hy, hlen⟩ := pac_step hd hr
  simp only [Beside, pacPlace]
  omega

theorem beside_step_ghost (hd : Drawn s) (hr : s.resetObjects i = false) (g : Ghost) :
    Beside (s.ghostPlace g) ((s.step i).ghostPlace g) := by
  obtain ⟨hx, hy, hlen⟩ := ghost_step hd hr g
  simp only [Beside, ghostPlace]
  omega

theorem step_pac_rest (hr : s.resetObjects i = false) (hf : ¬i.pacFrame = true) : (s.step i).pacPlace = s.pacPlace := by
  unfold pacPlace
  rw [step_pac hr, if_neg hf]

theorem step_ghost_rest (hr : s.resetObjects i = false) (hf : ¬i.ghostFrame = true) (g : Ghost) :
    (s.step i).ghostPlace g = s.ghostPlace g := by
  unfold ghostPlace
  rw [step_ghost hr, if_neg hf]

end Lab8

namespace Board

/-! ### The beam -/

theorem vga_eq (is : List Input) : (run step reset is).vga = VgaController.clk^[ticks is] VgaController.reset := by
  induction is using List.reverseRecOn with
  | nil => rfl
  | append_singleton is i ih =>
    rw [run_snoc, ticks_snoc]
    change (if i.resetH then VgaController.reset else (run step reset is).vga.clk) = _
    split
    next => rfl
    next => rw [ih, Function.iterate_succ_apply']

theorem drawY_eq (is : List Input) : (run step reset is).vga.drawY.toNat = (ticks is + 1) / 1600 % 525 := by
  have hscan := (VgaController.scans ((ticks is + 1) / 2)).vc_eq
  rw [vga_eq, VgaController.clk_run, VgaController.drawY]
  rw [Nat.div_div_eq_div_mul] at hscan
  exact hscan

/-! ### A stretch of a run -/

/-- The state after `k` edges of a stretch of a run. -/
def during (before stretch : List Input) (k : ℕ) : Board := run step reset (before ++ stretch.take k)

/-- No edge of the stretch resets the objects. -/
def NoReset (before stretch : List Input) : Prop :=
  ∀ k i, stretch[k]? = some i → ((during before stretch k).game.resetObjects ((during before stretch k).edge i)) = false

section Stretch
variable {before stretch : List Input} {k : ℕ}

theorem take_succ (hk : k < stretch.length) :
    before ++ stretch.take (k + 1) = before ++ stretch.take k ++ [stretch[k]] := by
  rw [List.take_succ_eq_append_getElem hk, List.append_assoc]

theorem during_succ (hk : k < stretch.length) :
    during before stretch (k + 1) = (during before stretch k).step stretch[k] := by
  unfold during
  rw [take_succ hk, run_snoc]

theorem NoReset.at (h : NoReset before stretch) (hk : k < stretch.length) :
    (during before stretch k).game.resetObjects ((during before stretch k).edge stretch[k]) = false :=
  h k _ (List.getElem?_eq_getElem hk)

theorem NoReset.ticks_eq (h : NoReset before stretch) (k : ℕ) (hk : k ≤ stretch.length) :
    ticks (before ++ stretch.take k) = ticks before + k := by
  induction k with
  | zero => rw [List.take_zero, List.append_nil, Nat.add_zero]
  | succ k ih =>
    have hbutton : stretch[k].resetH = false := (Lab8.not_reset (h.at hk)).1
    rw [take_succ hk, ticks_snoc, hbutton, ih (by omega)]
    rfl

/-- The beam needs 1600 edges for a line. -/
theorem length_lt_of_beam {y : ℕ} (h : NoReset before stretch) (hbeam : ∀ k ≤ stretch.length,
    y ≤ (during before stretch k).vga.drawY.toNat ∧ (during before stretch k).vga.drawY.toNat < y + 250) :
    stretch.length < 400000 := by
  have hlines : stretch.length / 1600 < 250 := by
    refine lt_of_stays (m := 525) (a := (ticks before + 1) / 1600) (y := y) (by decide) fun i hi => ?_
    have hle : 1600 * i ≤ stretch.length := by omega
    have hline := hbeam (1600 * i) hle
    rw [during, drawY_eq, h.ticks_eq _ hle] at hline
    rwa [show (ticks before + 1600 * i + 1) / 1600 = (ticks before + 1) / 1600 + i by omega] at hline
  omega

theorem NoReset.pacFrame (h : NoReset before stretch) (hk : k < stretch.length)
    (hf : ((during before stretch k).edge stretch[k]).pacFrame = true) : Rises 200001 (ticks before + k) := by
  have hrise := ((edge_frames (before ++ stretch.take k) stretch[k]).1.mp hf).2
  rwa [FrameClocks.pacFrame_iff, h.ticks_eq k hk.le] at hrise

theorem NoReset.ghostFrame (h : NoReset before stretch) (hk : k < stretch.length)
    (hf : ((during before stretch k).edge stretch[k]).ghostFrame = true) : Rises 262001 (ticks before + k) := by
  have hrise := ((edge_frames (before ++ stretch.take k) stretch[k]).2.mp hf).2
  rwa [FrameClocks.ghostFrame_iff, h.ticks_eq k hk.le] at hrise

end Stretch

/-- A figure is torn once at most, by one pixel. In every run, while the beam is on 250 lines of a picture and
    nothing resets the objects, each figure stays in its place, or moves one pixel once. -/
theorem torn_once (before stretch : List Input) (y : ℕ) (hreset : NoReset before stretch)
    (hbeam : ∀ k ≤ stretch.length, y ≤ (during before stretch k).vga.drawY.toNat ∧
      (during before stretch k).vga.drawY.toNat < y + 250) :
    ChangesOnce Beside (fun k => (during before stretch k).game.pacPlace) stretch.length ∧
    ∀ g, ChangesOnce Beside (fun k => (during before stretch k).game.ghostPlace g) stretch.length := by
  have hlen := length_lt_of_beam hreset hbeam
  have hdrawn : ∀ k, (during before stretch k).game.Drawn := fun k => drawn _
  refine ⟨?_, fun g => ?_⟩
  · refine changesOnce (P := fun k => Rises 200001 (ticks before + k)) beside_refl (fun k hk => ?_)
      (fun k hk hmark => ?_) fun k k' hk hk' hmark hmark' => ?_
    · rw [during_succ hk]
      exact Lab8.beside_step_pac (hdrawn k) (hreset.at hk)
    · rw [during_succ hk]
      exact Lab8.step_pac_rest (hreset.at hk) fun hf => hmark (hreset.pacFrame hk hf)
    · have := eq_of_rises (a := ticks before) (by decide) (by omega) (by omega) hmark hmark'
      omega
  · refine changesOnce (P := fun k => Rises 262001 (ticks before + k)) beside_refl (fun k hk => ?_)
      (fun k hk hmark => ?_) fun k k' hk hk' hmark hmark' => ?_
    · rw [during_succ hk]
      exact Lab8.beside_step_ghost (hdrawn k) (hreset.at hk) g
    · rw [during_succ hk]
      exact Lab8.step_ghost_rest (hreset.at hk) (fun hf => hmark (hreset.ghostFrame hk hf)) g
    · have := eq_of_rises (a := ticks before) (by decide) (by omega) (by omega) hmark hmark'
      omega

/-! ### The first picture -/

theorem step_game (s : Board) (i : Input) : (s.step i).game = s.game.step (s.edge i) := rfl

theorem waits (n : ℕ) : (run step reset (List.replicate (n + 1) idle)).game.Ready ∧
    (run step reset (List.replicate (n + 1) idle)).game.control = { state := .newGame, resetAll := false } := by
  induction n with
  | zero => exact ⟨(Lab8.ready_of_reset rfl (fun _ => rfl) rfl).step rfl _, by decide⟩
  | succ n ih =>
    rw [List.replicate_succ', run_snoc]
    generalize run step reset (List.replicate (n + 1) idle) = s at *
    obtain ⟨hready, hcontrol⟩ := ih
    refine ⟨hready.step (by rw [hcontrol]; rfl) _, ?_⟩
    have halive : s.game.pacManDied = false := by simp [Lab8.pacManDied, hready.clean.no_contact]
    rw [step_game, Lab8.controlNext_eq rfl, hcontrol, halive]
    rfl

theorem during_idle {n k : ℕ} (hk : k ≤ n) :
    during [idle] (List.replicate n idle) k = run step reset (List.replicate (k + 1) idle) := by
  rw [during, List.take_replicate, Nat.min_eq_left hk, List.replicate_succ]
  rfl

theorem noReset_idle (n : ℕ) : NoReset [idle] (List.replicate n idle) := by
  intro k i hi
  rw [List.getElem?_replicate] at hi
  split at hi
  next hk =>
    obtain rfl := Option.some.inj hi
    obtain ⟨-, hcontrol⟩ := waits k
    obtain ⟨-, hnext⟩ := waits (k + 1)
    rw [List.replicate_succ', run_snoc] at hnext
    rw [during_idle hk.le]
    generalize run step reset (List.replicate (k + 1) idle) = s at *
    simp only [step_game, Lab8.step] at hnext
    rw [Lab8.resetObjects, hnext, hcontrol]
    rfl
  next => cases hi

/-- The upper half of the first picture, in which the ghosts make their first step. -/
theorem torn_once_first_picture : ChangesOnce Beside
    (fun k => (during [idle] (List.replicate 399990 idle) k).game.ghostPlace .orange) 399990 := by
  have h := (torn_once [idle] (List.replicate 399990 idle) 0 (noReset_idle _) fun k hk => ?_).2 .orange
  · rwa [List.length_replicate] at h
  · rw [List.length_replicate] at hk
    rw [during_idle hk, drawY_eq, ticks_replicate idle rfl]
    omega

end Board

end Pacman
