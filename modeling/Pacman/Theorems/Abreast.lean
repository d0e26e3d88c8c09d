import Pacman.Theorems.Junction
import Pacman.Theorems.System

/-! The ghosts move abreast. They start from one cell, on one clock, and neither stop nor turn back inside an
    edge: after `k` frames each of them is `k % 32` pixels out of a cell of the same shade of the chess board.
    So they choose their sides at the same frames, with the same field of their random words, and two ghosts
    between the same two cells never meet there: they go the same way, on top of each other. -/

namespace Pacman
open Bits Lattice Walker Machine

namespace GhostMotion

/-- Both ghosts are between the same two neighbouring cells. -/
structure SameCorridor (g h : GhostMotion) : Prop where
  between : g.atIntersection = false ∧ h.atIntersection = false
  cell_eq : g.cell = h.cell
  axis_eq : g.sameBlockX = h.sameBlockX

variable {g h : GhostMotion} {c c' : Node} {d d' : Dir} {j j' : ℕ}

theorem sameBlockX_eq (g : GhostMotion) : g.sameBlockX = decide (g.ghostXPos.toNat % 32 = 0) :=
  low_bits_eq g.ghostXPos

theorem SameCorridor.edge_eq (hs : SameCorridor g h) (hg : g.DrawnAt (.edge c d j)) (hh : h.DrawnAt (.edge c' d' j'))
    (hj : 0 < j ∧ j < cellSize) (hj' : 0 < j' ∧ j' < cellSize) :
    c' = c ∧ d' = d ∨ c' = next c d ∧ d' = d.back := by
  obtain ⟨-, hcell, haxis⟩ := hs
  obtain ⟨hx, hy, -, -⟩ := hg
  obtain ⟨hx', hy', -, -⟩ := hh
  rw [sameBlockX_eq, sameBlockX_eq, decide_eq_decide] at haxis
  obtain ⟨hcx, hcy⟩ := Prod.ext_iff.mp hcell
  simp only [cell, Nat.cast_inj] at hcx hcy
  simp only [Prod.ext_iff, next_fst, next_snd]
  simp only [pos_edge, point, cellSize] at hx hy hx' hy' hj hj'
  cases d <;> cases d' <;> simp only [Dir.dx, Dir.dy, Dir.back] at hx hy hx' hy' ⊢ <;> simp <;> omega

/-- A ghost after `k` frames: on the lattice as any ghost after `k` frames, with the field of the intersections
    it has been at. -/
structure Paced (k : ℕ) (g : GhostMotion) : Prop where
  drawn : ∃ p, g.DrawnAt p ∧ Legal cellSize BandEdge InBand p ∧ Abreast cellSize shade k p
  field : g.counterRand.toNat = (k + 31) / 32 % 8

variable {k : ℕ}

theorem Paced.atIntersection (h : Paced k g) : g.atIntersection = true ↔ 32 ∣ k := by
  obtain ⟨p, hd, hp, hout, -⟩ := h.drawn
  rw [Nat.dvd_iff_mod_eq_zero]
  cases p with
  | node c hd' => exact iff_of_true (atIntersection_on_node hd) hout.symm
  | edge c d j =>
    rw [atIntersection_in_edge hd hp.1 hp.2.1]
    have hj : j = k % 32 := hout
    have hpos := hp.1
    exact iff_of_false (by decide) (by omega)

theorem Paced.moveGhost (h : Paced k g) (w : Walls) (pacX pacY : BitVec 10) (randomness : BitVec 16) :
    Paced (k + 1) (g.moveGhost w pacX pacY randomness) := by
  have hat := h.atIntersection
  obtain ⟨⟨p, hd, hp, habreast⟩, hfield⟩ := h
  obtain ⟨turn, hturn, hd', hp'⟩ := drawnAt_moveGhost w pacX pacY randomness closed_band
    (fun _ _ hc ht => ht.inBand hc) (fun _ _ => BandEdge.fieldEdge) (fun _ => InBand.inField) hd hp
  have hgoes : ∀ c hd, p = .node c hd → ∃ d, turn = some d := fun c hd heq => by
    obtain ⟨d, hd', -⟩ := hturn c hd heq
    exact ⟨d, hd'⟩
  refine ⟨⟨_, hd', hp', habreast.move (by decide) shade_next hgoes⟩, ?_⟩
  -- The field moves on at an intersection, that is when `k` is a multiple of 32.
  change g.nextCounterRand.toNat = _
  rw [toNat_nextCounterRand, hfield]
  rw [Nat.dvd_iff_mod_eq_zero] at hat
  by_cases hk : k % 32 = 0
  · rw [if_pos (hat.mpr hk)]
    omega
  · rw [if_neg fun h => hk (hat.mp h)]
    omega

/-- Two ghosts that have made the same number of frames and are in one corridor are in one place. -/
theorem Paced.eq_of_corridor (hg : Paced k g) (hh : Paced k h) (hs : SameCorridor g h) : g = h := by
  have hfield := BitVec.eq_of_toNat_eq (hg.field.trans hh.field.symm)
  obtain ⟨⟨p, hdg, hpg, hag⟩, -⟩ := hg
  obtain ⟨⟨q, hdh, hph, hah⟩, -⟩ := hh
  obtain ⟨hbg, hbh⟩ := hs.between
  cases p with
  | node c hd =>
    rw [atIntersection_on_node hdg] at hbg
    cases hbg
  | edge c d j =>
    cases q with
    | node c' hd' =>
      rw [atIntersection_on_node hdh] at hbh
      cases hbh
    | edge c' d' j' =>
      have hsame := hag.same_edge shade_next hah (hs.edge_eq hdg hdh ⟨hpg.1, hpg.2.1⟩ ⟨hph.1, hph.2.1⟩)
      rw [hsame] at hdh
      obtain ⟨hx, hy, hmx, hmy⟩ := hdg
      obtain ⟨hx', hy', hmx', hmy'⟩ := hdh
      have hxx := BitVec.eq_of_toNat_eq (Int.ofNat_inj.mp (hx.trans hx'.symm))
      have hyy := BitVec.eq_of_toNat_eq (Int.ofNat_inj.mp (hy.trans hy'.symm))
      cases g
      cases h
      simp only [GhostMotion.mk.injEq]
      exact ⟨hmx.trans hmx'.symm, hmy.trans hmy'.symm, hxx, hyy, hfield⟩

end GhostMotion

/-! ### Runs of the game -/

namespace Lab8

/-- The ghost frames since the last edge at which the objects were reset. -/
def framesSinceReset (is : List Input) : ℕ := countSince step resetObjects (fun _ i => i.ghostFrame) reset is

theorem framesSinceReset_snoc (is : List Input) (i : Input) : framesSinceReset (is ++ [i]) =
    if (run step reset is).resetObjects i then 0 else framesSinceReset is + i.ghostFrame.toNat := countSince_snoc ..

theorem paced_reset : GhostMotion.Paced 0 (GhostMotion.reset ghostStart ghostStart) :=
  ⟨⟨_, GhostMotion.drawnAt_reset ghostStart ghostStart, by unfold Legal InBand; decide, rfl, by decide⟩, rfl⟩

theorem paced (is : List Input) (g : Ghost) : GhostMotion.Paced (framesSinceReset is) ((run step reset is).ghosts g) := by
  induction is using List.reverseRecOn with
  | nil => exact paced_reset
  | append_singleton is i ih =>
    rw [run_snoc, framesSinceReset_snoc]
    cases hr : (run step reset is).resetObjects i with
    | true =>
      rw [(step_of_reset hr).2.1 g, if_pos rfl]
      exact paced_reset
    | false =>
      rw [step_ghost hr, if_neg Bool.false_ne_true]
      cases i.ghostFrame with
      | true => exact ih.moveGhost ..
      | false => exact ih

/-- The ghosts move abreast. In every run, with `k` ghost frames since the objects were reset: every ghost is at
    an intersection when `k` is a multiple of 32 and between two cells otherwise, has been at `k / 32`
    intersections rounded up, which pick the field of its random word, and two ghosts between the same two
    cells have the same position and the same motion. -/
theorem ghosts_abreast (is : List Input) :
    let s := run step reset is
    let k := framesSinceReset is
    (∀ g, ((s.ghosts g).atIntersection = true ↔ 32 ∣ k) ∧ (s.ghosts g).counterRand.toNat = (k + 31) / 32 % 8) ∧
    ∀ g h, (s.ghosts g).SameCorridor (s.ghosts h) → s.ghosts g = s.ghosts h := by
  intro s k
  exact ⟨fun g => ⟨(paced is g).atIntersection, (paced is g).field⟩,
    fun g h => (paced is g).eq_of_corridor (paced is h)⟩

/-- Two ghosts on their first way through the pen. -/
theorem ghosts_abreast_pen :
    let i : Input := { resetH := false, keycode := 0, randomness := fun _ => 0, pacFrame := false, ghostFrame := true }
    (run step reset (List.replicate 10 i)).ghosts .orange = (run step reset (List.replicate 10 i)).ghosts .pink := by
  intro i
  exact (ghosts_abreast (List.replicate 10 i)).2 .orange .pink
    ⟨by decide +kernel, by decide +kernel, by decide +kernel⟩

end Lab8

end Pacman
