import Pacman.Lib.Bits
import Pacman.Lib.Counter
import Pacman.VgaController

/-! The raster scan in closed form, and where the sync pulses fall. The horizontal pulse is set from the pixel
    that comes next, and so is right on every pixel. The vertical pulse is set from the line that would come
    next at a line's end, but the register takes it on every pixel: the pulse begins and ends almost a line
    too early. -/

namespace Pacman
namespace VgaController
open Bits Counter

/-- What the counters show after `n` pixel clocks. -/
structure Scans (n : ℕ) (s : VgaController) : Prop where
  hc_eq : s.hc.toNat = n % 800
  vc_eq : s.vc.toNat = n / 800 % 525

theorem Scans.pixelClock {n : ℕ} {s : VgaController} (h : Scans n s) : Scans (n + 1) s.pixelClock := by
  have hh := next_mod (show 0 < 800 by decide) n
  have hv := next_carry (show 0 < 800 by decide) (show 0 < 525 by decide) n
  have hline : s.hc = hpixels ↔ 800 ≤ n % 800 + 1 := by
    rw [← BitVec.toNat_inj, h.hc_eq, show hpixels.toNat = 799 from rfl]
    omega
  have hframe : s.vc = vlines ↔ 525 ≤ n / 800 % 525 + 1 := by
    rw [← BitVec.toNat_inj, h.vc_eq, show vlines.toNat = 524 from rfl]
    omega
  unfold Counter.next at hh hv
  constructor
  · rw [← hh]
    simp only [VgaController.pixelClock, hline]
    split
    next => rfl
    next => rw [toNat_succ (by rw [h.hc_eq]; omega), h.hc_eq]
  · rw [← hv]
    simp only [VgaController.pixelClock, hline, hframe]
    split
    next =>
      split
      next => rfl
      next => rw [toNat_succ (by rw [h.vc_eq]; omega), h.vc_eq]
    next => exact h.vc_eq

theorem afterPixelClocks_succ (n : ℕ) : afterPixelClocks (n + 1) = (afterPixelClocks n).pixelClock :=
  Function.iterate_succ_apply' ..

theorem scans (n : ℕ) : Scans n (afterPixelClocks n) := by
  induction n with
  | zero => exact ⟨rfl, rfl⟩
  | succ n ih =>
    rw [afterPixelClocks_succ]
    exact ih.pixelClock

/-- `clkdiv` rises at every other `Clk` edge, beginning with the first one. -/
theorem clk_run (m : ℕ) : clk^[m] reset = { afterPixelClocks ((m + 1) / 2) with clkdiv := decide (m % 2 = 1) } := by
  induction m with
  | zero => rfl
  | succ m ih =>
    rw [Function.iterate_succ_apply', ih]
    rcases Nat.mod_two_eq_zero_or_one m with hm | hm
    · have hhalf : (m + 1 + 1) / 2 = (m + 1) / 2 + 1 := by omega
      have hodd : (m + 1) % 2 = 1 := by omega
      rw [hhalf, afterPixelClocks_succ]
      simp [clk, hm, hodd, VgaController.pixelClock]
    · have hhalf : (m + 1 + 1) / 2 = (m + 1) / 2 := by omega
      have heven : (m + 1) % 2 = 0 := by omega
      simp [clk, hm, hhalf, heven]

/-! ### The visible part -/

theorem blank_iff (s : VgaController) : s.blank = true ↔ s.drawX.toNat < 640 ∧ s.drawY.toNat < 480 := by
  simp only [blank, drawX, drawY, Bool.not_eq_true', Bool.or_eq_false_iff, decide_eq_false_iff_not, ge_iff_le,
    BitVec.le_def]
  exact and_congr Nat.not_le Nat.not_le

/-- After `n` pixel clocks the coordinates are shown as visible. -/
def Presents (n x y : ℕ) : Prop :=
  (afterPixelClocks n).drawX.toNat = x ∧ (afterPixelClocks n).drawY.toNat = y ∧ (afterPixelClocks n).blank = true

/-- The raster scan. The coordinates count pixels and lines, `blank` is high on the visible ones, and every
    window of a frame's 420000 pixel clocks presents each visible coordinate once, and no other. -/
theorem raster_scan :
    (∀ n, (afterPixelClocks n).drawX.toNat = n % 800 ∧ (afterPixelClocks n).drawY.toNat = n / 800 % 525 ∧
      ((afterPixelClocks n).blank = true ↔
        (afterPixelClocks n).drawX.toNat < 640 ∧ (afterPixelClocks n).drawY.toNat < 480)) ∧
    (∀ a x y, x < 640 → y < 480 → ∃! n, (a ≤ n ∧ n < a + 420000) ∧ Presents n x y) ∧
    ∀ n x y, Presents n x y → x < 640 ∧ y < 480 := by
  refine ⟨fun n => ⟨(scans n).hc_eq, (scans n).vc_eq, blank_iff _⟩, ?_, ?_⟩
  · intro a x y hx hy
    have hiff : ∀ n, Presents n x y ↔ n % 420000 = x + 800 * y := by
      intro n
      have hdigits : n % 800 = x ∧ n / 800 % 525 = y ↔ n % 420000 = x + 800 * y :=
        digits_iff (by decide) (by omega)
      rw [← hdigits, Presents, blank_iff, drawX, drawY, (scans n).hc_eq, (scans n).vc_eq]
      omega
    simp only [hiff]
    exact existsUnique_mod (by omega) a
  · rintro n x y ⟨rfl, rfl, hblank⟩
    exact (blank_iff _).mp hblank

/-! ### Sync pulses -/

theorem frame_position (n : ℕ) : n % 420000 = n % 800 + 800 * (n / 800 % 525) ∧ n % 800 < 800 :=
  ⟨Nat.mod_mul (a := 800) (b := 525), Nat.mod_lt n (by decide)⟩

theorem hs_pixelClock (s : VgaController) :
    s.pixelClock.hs = false ↔ 656 ≤ s.hc.toNat + 1 ∧ s.hc.toNat + 1 < 752 := by
  simp [VgaController.pixelClock]

theorem vs_pixelClock (s : VgaController) :
    s.pixelClock.vs = false ↔ s.vc.toNat + 1 = 490 ∨ s.vc.toNat + 1 = 491 := by
  simp only [VgaController.pixelClock]
  split
  next h => exact iff_of_true rfl h
  next h => exact iff_of_false (by decide) h

theorem hs_low_iff {n : ℕ} (hn : 1 ≤ n) : (afterPixelClocks n).hs = false ↔ 656 ≤ n % 800 ∧ n % 800 ≤ 751 := by
  obtain ⟨n, rfl⟩ := Nat.exists_eq_add_of_le' hn
  rw [afterPixelClocks_succ, hs_pixelClock, (scans n).hc_eq]
  omega

theorem vs_low_iff {n : ℕ} (hn : 1 ≤ n) :
    (afterPixelClocks n).vs = false ↔ 391200 < n % 420000 ∧ n % 420000 ≤ 392800 := by
  obtain ⟨n, rfl⟩ := Nat.exists_eq_add_of_le' hn
  obtain ⟨hpos, hlt⟩ := frame_position n
  rw [afterPixelClocks_succ, vs_pixelClock, (scans n).vc_eq]
  omega

/-- The pulses are where they should be: the horizontal one on pixels 656 to 751, the vertical one on lines
    490 and 491. -/
def SyncInPlace (s : VgaController) : Prop :=
  (s.hs = false ↔ 656 ≤ s.hc.toNat ∧ s.hc.toNat ≤ 751) ∧ (s.vs = false ↔ s.vc.toNat = 490 ∨ s.vc.toNat = 491)

/-- After `n` pixel clocks the pulses are in place on the first pixel of a line, and on lines other than 489
    and 491. The one vertical pulse of a frame is 1600 pixel clocks long, but it begins on the second pixel of
    line 489. -/
theorem sync_in_place_iff (n : ℕ) (hn : 1 ≤ n) :
    (SyncInPlace (afterPixelClocks n) ↔ n % 800 = 0 ∨ n / 800 % 525 ≠ 489 ∧ n / 800 % 525 ≠ 491) ∧
    ((afterPixelClocks n).vs = false ↔ 489 * 800 + 1 ≤ n % (525 * 800) ∧ n % (525 * 800) < 489 * 800 + 1 + 1600) := by
  refine ⟨?_, ?_⟩
  · obtain ⟨hpos, hlt⟩ := frame_position n
    rw [SyncInPlace, hs_low_iff hn, vs_low_iff hn, (scans n).hc_eq, (scans n).vc_eq, hpos]
    generalize n / 800 % 525 = y at *
    generalize n % 800 = x at *
    omega
  · rw [vs_low_iff hn]
    omega

/-- On the second pixel of line 489 the vertical pulse has begun. -/
theorem sync_early : (afterPixelClocks 391201).vs = false ∧ (afterPixelClocks 391201).vc.toNat = 489 ∧
    ¬SyncInPlace (afterPixelClocks 391201) := by
  have hvs : (afterPixelClocks 391201).vs = false := (vs_low_iff (by decide)).mpr (by decide)
  have hvc : (afterPixelClocks 391201).vc.toNat = 489 := (scans 391201).vc_eq
  refine ⟨hvs, hvc, ?_⟩
  intro h
  have := h.2.mp hvs
  omega

theorem sync_in_place_start : SyncInPlace (afterPixelClocks 1) :=
  (sync_in_place_iff 1 (by decide)).1.mpr (by decide)

end VgaController

end Pacman
