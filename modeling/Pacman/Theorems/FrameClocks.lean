import Pacman.FrameClocks
import Pacman.Lib.Bits
import Pacman.Lib.Counter

/-! The frame clocks in closed form. The ghosts' counter counts more values than Pac-Man's, so a ghost frame
    never comes without a frame of Pac-Man since the one before it, and Pac-Man is never behind. -/

namespace Pacman
namespace FrameClocks
open Bits Counter

/-- The registers of a divider that counts `m` values, after `n` edges. -/
structure Divides (m n : ℕ) (counter : BitVec 18) (clk : Bool) : Prop where
  counter_eq : counter.toNat = n % m
  clk_eq : clk = decide (n / m % 2 = 1)

variable {m n : ℕ} {limit counter : BitVec 18} {clk : Bool}

/-- One edge of a divider with the limit `m - 1`. -/
theorem Divides.next (hlimit : limit.toNat + 1 = m) (hfits : m < 2 ^ 18) (h : Divides m n counter clk) :
    Divides m (n + 1) (if counter ≥ limit then 0 else counter + 1) (if counter ≥ limit then !clk else clk) := by
  have hm : 0 < m := by omega
  have hge : counter ≥ limit ↔ m ≤ n % m + 1 := by
    rw [ge_iff_le, BitVec.le_def, h.counter_eq]
    omega
  have hmod := next_mod hm n
  have htoggle := toggle hm n
  unfold Counter.next at hmod
  simp only [hge]
  constructor
  · rw [← hmod]
    split
    next => rfl
    next hlt => rw [toNat_succ (by rw [h.counter_eq]; omega), h.counter_eq]
  · rw [htoggle, h.clk_eq]
    split
    next =>
      have := Nat.mod_lt (n / m) (by decide : 0 < 2)
      rw [Bool.eq_iff_iff]
      simp only [Bool.not_eq_true', decide_eq_false_iff_not, decide_eq_true_eq]
      omega
    next => rfl

theorem Divides.toNat_clk (h : Divides m n counter clk) : clk.toNat = n / m % 2 := by
  have hlt := Nat.mod_lt (n / m) (by decide : 0 < 2)
  rw [h.clk_eq]
  by_cases hodd : n / m % 2 = 1
  · simp [hodd]
  · rw [decide_eq_false hodd, Bool.toNat_false]
    omega

theorem Divides.rises_iff {counter' : BitVec 18} {clk' : Bool} (h : Divides m n counter clk)
    (h' : Divides m (n + 1) counter' clk') : clk = false ∧ clk' = true ↔ Rises m n := by
  rw [h.clk_eq, h'.clk_eq, decide_eq_false_iff_not, decide_eq_true_iff, Rises]
  exact and_congr_left' (by omega)

theorem divides_after (n : ℕ) :
    Divides 200001 n (after n).counter (after n).clkdiv ∧
      Divides 262001 n (after n).ghostCounter (after n).ghostClk := by
  induction n with
  | zero => exact ⟨⟨rfl, rfl⟩, ⟨rfl, rfl⟩⟩
  | succ n ih =>
    rw [after, Function.iterate_succ_apply']
    exact ⟨ih.1.next rfl (by decide), ih.2.next rfl (by decide)⟩

/-! ### Frame edges -/

/-- Edge `n + 1` carries a frame edge of Pac-Man. -/
def PacFrame (n : ℕ) : Prop := (after n).clkdiv = false ∧ (after (n + 1)).clkdiv = true

/-- Edge `n + 1` carries a frame edge of the ghosts. -/
def GhostFrame (n : ℕ) : Prop := (after n).ghostClk = false ∧ (after (n + 1)).ghostClk = true

instance : DecidablePred PacFrame := fun n =>
  inferInstanceAs (Decidable ((after n).clkdiv = false ∧ (after (n + 1)).clkdiv = true))

instance : DecidablePred GhostFrame := fun n =>
  inferInstanceAs (Decidable ((after n).ghostClk = false ∧ (after (n + 1)).ghostClk = true))

theorem pacFrame_iff (n : ℕ) : PacFrame n ↔ Rises 200001 n :=
  (divides_after n).1.rises_iff (divides_after (n + 1)).1

theorem ghostFrame_iff (n : ℕ) : GhostFrame n ↔ Rises 262001 n :=
  (divides_after n).2.rises_iff (divides_after (n + 1)).2

/-- The frame clocks after `n` edges. Both are `n` divided by the length of their counter, modulo 2; no counter
    gets to the top of its range; a frame of Pac-Man falls strictly between any two frames of the ghosts; and
    Pac-Man has had at least as many frames as the ghosts. -/
theorem frame_clocks (n : ℕ) :
    ((after n).clkdiv.toNat = n / 200001 % 2 ∧ (after n).ghostClk.toNat = n / 262001 % 2) ∧
    ((after n).counter.toNat + 1 < 2 ^ 18 ∧ (after n).ghostCounter.toNat + 1 < 2 ^ 18) ∧
    (∀ m, GhostFrame m → GhostFrame n → m < n → ∃ k, m < k ∧ k < n ∧ PacFrame k) ∧
    Nat.count GhostFrame n ≤ Nat.count PacFrame n := by
  obtain ⟨hpac, hghost⟩ := divides_after n
  refine ⟨⟨hpac.toNat_clk, hghost.toNat_clk⟩, ⟨?_, ?_⟩, ?_, ?_⟩
  · have := hpac.counter_eq
    omega
  · have := hghost.counter_eq
    omega
  · -- Two ghost frames are two lengths of the ghosts' counter apart.
    intro m hm hn hlt
    rw [ghostFrame_iff, Counter.rises_iff (by decide)] at hm hn
    obtain ⟨k, ⟨hk₁, hk₂⟩, hk⟩ := exists_rises (show 0 < 200001 by decide) (m + 1)
    exact ⟨k, by omega, by omega, (pacFrame_iff k).mpr hk⟩
  · calc Nat.count GhostFrame n
        ≤ Nat.count (Rises 262001) n := Nat.count_mono_left fun k _ => (ghostFrame_iff k).mp
      _ ≤ Nat.count (Rises 200001) n := count_rises_le (by decide) (by decide) n
      _ ≤ Nat.count PacFrame n := Nat.count_mono_left fun k _ => (pacFrame_iff k).mpr

end FrameClocks

end Pacman
