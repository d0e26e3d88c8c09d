import Pacman.Board
import Pacman.Theorems.FrameClocks
import Pacman.Theorems.Overlap

/-! The game on its own clocks. The lengths of the two counters are odd and coprime, so the two frame clocks
    rise on one edge only at the odd multiples of the product, the first time some seventeen minutes after
    reset. Until then contact is always noticed, whatever the keys and the random words are. -/

namespace Pacman
open Machine Counter

namespace Board

variable {s : Board} {i : Input}

/-- The `Clk` edges since the last one with the reset button down. -/
def ticks (is : List Input) : ℕ := countSince step (fun _ i => i.resetH) (fun _ _ => true) reset is

theorem ticks_snoc (is : List Input) (i : Input) :
    ticks (is ++ [i]) = if i.resetH then 0 else ticks is + 1 := countSince_snoc ..

theorem clocks_eq (is : List Input) : (run step reset is).clocks = FrameClocks.after (ticks is) := by
  induction is using List.reverseRecOn with
  | nil => rfl
  | append_singleton is i ih =>
    rw [run_snoc, ticks_snoc]
    change (run step reset is).clocksNext i = _
    unfold clocksNext
    split
    next => rfl
    next =>
      rw [ih]
      exact (Function.iterate_succ_apply' ..).symm

/-! ### The frames of an edge -/

theorem edge_frames (is : List Input) (i : Input) :
    (((run step reset is).edge i).pacFrame = true ↔ i.resetH = false ∧ FrameClocks.PacFrame (ticks is)) ∧
    (((run step reset is).edge i).ghostFrame = true ↔ i.resetH = false ∧ FrameClocks.GhostFrame (ticks is)) := by
  have hsucc : FrameClocks.after (ticks is + 1) = (FrameClocks.after (ticks is)).next :=
    Function.iterate_succ_apply' ..
  simp only [edge, clocksNext, clocks_eq, FrameClocks.PacFrame, FrameClocks.GhostFrame, hsucc]
  cases i.resetH with
  | true => simp [FrameClocks.reset]
  | false => simp

/-- Both frames fall on an edge exactly when it is an odd multiple of 52400462001 edges after reset. -/
theorem both_frames_iff (is : List Input) (i : Input) :
    ((run step reset is).edge i).pacFrame = true ∧ ((run step reset is).edge i).ghostFrame = true ↔
      ticks (is ++ [i]) % 104800924002 = 52400462001 := by
  obtain ⟨hpac, hghost⟩ := edge_frames is i
  have hrises : Rises 200001 (ticks is) ∧ Rises 262001 (ticks is) ↔ Rises 52400462001 (ticks is) :=
    rises_mul_iff (by decide) (by decide) (by decide)
  rw [hpac, hghost, FrameClocks.pacFrame_iff, FrameClocks.ghostFrame_iff, ticks_snoc]
  cases i.resetH with
  | true => simp
  | false =>
    simp only [true_and, Bool.false_eq_true, if_false]
    rw [hrises, Counter.rises_iff (by decide)]
    omega

/-! ### Contact -/

theorem drawn (is : List Input) : Lab8.Drawn (run step reset is).game :=
  run_invariant (P := fun s : Board => s.game.Drawn) (fun s i h => h.step (s.edge i))
    (Lab8.drawn_of_reset rfl fun _ => rfl) is

theorem noOverlap_reset : Lab8.NoOverlap Lab8.reset := by
  intro g
  unfold Lab8.diffX Lab8.diffY
  cases g <;> decide

/-- The frame clocks fall on one edge exactly at the odd multiples of 52400462001 edges after the reset button
    was let go, and in a run without such an edge no ghost ever overlaps Pac-Man: each contact ends in a reset
    before. A run that presses the button, or ends, before that many edges has none. -/
theorem contact_noticed_on_clocks (is : List Input) :
    (∀ k i, is[k]? = some i → let s := run step reset (is.take k)
      ((s.edge i).pacFrame = true ∧ (s.edge i).ghostFrame = true ↔
        ticks (is.take (k + 1)) % 104800924002 = 52400462001)) ∧
    ((∀ k ≤ is.length, ticks (is.take k) % 104800924002 ≠ 52400462001) →
      ∀ k, Lab8.NoOverlap (run step reset (is.take k)).game) := by
  refine ⟨fun k i hi => ?_, fun h k => ?_⟩
  · have htake : is.take (k + 1) = is.take k ++ [i] := by rw [List.take_add_one, hi, Option.toList_some]
    rw [htake]
    exact both_frames_iff (is.take k) i
  · induction k with
    | zero =>
      rw [List.take_zero, run_nil]
      exact noOverlap_reset
    | succ k ih =>
      rcases Nat.lt_or_ge k is.length with hk | hk
      · have htake : is.take (k + 1) = is.take k ++ [is[k]] := List.take_succ_eq_append_getElem hk
        have hnot := h (k + 1) hk
        rw [htake, ne_eq, ← both_frames_iff] at hnot
        rw [htake, run_snoc]
        exact (Lab8.noOverlap_step_iff (drawn _) ih _).mpr fun hjump => hnot ⟨hjump.2.1, hjump.2.2.1⟩
      · rw [List.take_of_length_le (by omega)]
        rwa [List.take_of_length_le hk] at ih

/-- An edge with no key. -/
def idle : Input where
  resetH := false
  keycode := 0
  randomness := fun _ => 0

theorem ticks_append_replicate (is : List Input) (hi : i.resetH = false) (n : ℕ) :
    ticks (is ++ List.replicate n i) = ticks is + n := by
  induction n with
  | zero => rw [List.replicate_zero, List.append_nil, Nat.add_zero]
  | succ n ih =>
    rw [List.replicate_succ', ← List.append_assoc, ticks_snoc, hi, ih]
    rfl

theorem ticks_replicate (i : Input) (hi : i.resetH = false) (n : ℕ) : ticks (List.replicate n i) = n := by
  have hn := ticks_append_replicate [] hi n
  rwa [List.nil_append, show ticks [] = 0 from rfl, Nat.zero_add] at hn

/-- With the enter key held, so that level 1 begins at once and again after each contact, no ghost overlaps Pac-Man in
    the first thousand million edges, twenty seconds at 50 MHz. -/
theorem contact_noticed_twenty_seconds :
    let enter : Input := { idle with keycode := Control.codeEnter }
    let state k := (run step reset ((List.replicate 1000000000 enter).take k)).game
    (state 1).control.state = .level1 ∧ ∀ k, (state k).NoOverlap := by
  intro enter state
  have hbegins : (state 1).control.state = .level1 := by
    unfold state
    rw [List.take_replicate]
    decide
  refine ⟨hbegins, (contact_noticed_on_clocks (List.replicate 1000000000 enter)).2 fun k hk => ?_⟩
  rw [List.length_replicate] at hk
  rw [List.take_replicate, ticks_replicate enter rfl]
  omega

end Board

end Pacman
