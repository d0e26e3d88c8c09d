import Pacman.Theorems.Board
import Pacman.Theorems.Screen

/-! The first second of a level. A ghost needs 95 of its frames at most to leave the pen, and at 50 MHz these take
    less than a second; from then on no figure is drawn on a wall until the level ends. -/

namespace Pacman
open Lattice Walker Machine
open Counter (Rises count_rises_add untilRise rises_iff_untilRise)

/-! ### Ghosts that are out -/

theorem not_inPenArea_roams {w : Walls} (hw : PenMap w) {p : Place Node Dir}
    (h : Legal cellSize (OpenEdge w) (Roams w) p) :
    ¬((192 ≤ (pos cellSize p).1 ∧ (pos cellSize p).1 ≤ 224) ∧ 160 < (pos cellSize p).2 ∧ (pos cellSize p).2 ≤ 224) := by
  cases p with
  | node c hd =>
    obtain ⟨d, hd⟩ := h.2
    have hout := not_inPen_of_openEdge hw hd
    simp only [pos_node, cellSize, InPen] at hout ⊢
    omega
  | edge c d k =>
    obtain ⟨h0, hk, he⟩ := h
    have hout := not_inPen_of_openEdge hw he
    have hout' := not_inPen_of_openEdge hw (openEdge_undirected w c d he)
    simp only [cellSize, InPen, next] at hk hout hout'
    cases d <;> simp only [pos_edge, point, cellSize, Dir.dx, Dir.dy] at hout' ⊢ <;> omega

namespace Lab8
variable {s : Lab8} {g : Ghost}

theorem Out.not_inPenArea (h : Out g s) : ¬(s.ghosts g).InPenArea := by
  obtain ⟨hl, p, hd, hp⟩ := h
  have hpos := not_inPenArea_roams (penMap_walls hl) hp
  rw [← hd.xPos_eq, ← hd.yPos_eq] at hpos
  unfold GhostMotion.InPenArea
  omega

theorem onWayOut_of_entry {i : Input} (h : s.Reachable) (hpre : s.control.isPre = true)
    (hl : (s.step i).control.isPre = false) (g : Ghost) :
    ∃ p₀, Legal cellSize PenEdge InPen p₀ ∧ OnWayOut p₀ g (s.step i) 95 := by
  obtain ⟨p₀, hd₀, h₀⟩ := ((ready_of_reachable h hpre).step hpre i).ghost g
  exact ⟨p₀, h₀, hl, p₀, hd₀, exitEdge_start h₀, (movesLeft_bounds h₀ (exitEdge_start h₀)).2⟩

end Lab8

namespace Board

variable {is : List Input} {i : Input}

/-- The `Clk` edges since a level began, 0 between the levels. -/
def levelAge (is : List Input) : ℕ :=
  countSince step (fun s i => (s.step i).game.control.isPre) (fun s _ => !s.game.control.isPre) reset is

theorem levelAge_snoc (is : List Input) (i : Input) : levelAge (is ++ [i]) =
    if (run step reset (is ++ [i])).game.control.isPre then 0
    else levelAge is + (!(run step reset is).game.control.isPre).toNat := by
  rw [run_snoc]
  exact countSince_snoc ..

theorem reachable_game (is : List Input) : (run step reset is).game.Reachable := by
  have h0 : (reset : Board).game.Reachable := Machine.Reachable.refl
  have keep (s : Board) (i : Input) (h : s.game.Reachable) : (s.step i).game.Reachable := Reachable.tail h (s.edge i)
  exact run_invariant keep h0 is

/-- The ghost is out, or the frames that it needs at most and those that it had since the level began are 95. -/
def OutOrOnWay (g : Ghost) (is : List Input) : Prop :=
  Lab8.Out g (run step reset is).game ∨ ∃ p₀ m, Legal cellSize PenEdge InPen p₀ ∧
    Lab8.OnWayOut p₀ g (run step reset is).game m ∧
    m + Nat.count (Rises 262001) (ticks is) ≤ 95 + Nat.count (Rises 262001) (ticks is - levelAge is)

structure InLevel (is : List Input) : Prop where
  age_le : levelAge is ≤ ticks is
  ghosts : ∀ g, OutOrOnWay g is

theorem inLevel_of_entry (hage : levelAge is = 0) (hpre : (run step reset is).game.control.isPre = true)
    (hl : (run step reset (is ++ [i])).game.control.isPre = false) : InLevel (is ++ [i]) := by
  have hzero : levelAge (is ++ [i]) = 0 := by
    rw [levelAge_snoc, hl, hpre, hage]
    rfl
  refine ⟨by omega, fun g => Or.inr ?_⟩
  rw [run_snoc] at hl ⊢
  obtain ⟨p₀, h₀, hway⟩ := Lab8.onWayOut_of_entry (reachable_game is) hpre hl g
  exact ⟨p₀, 95, h₀, hway, by rw [hzero, Nat.sub_zero]⟩

/-- An edge of a level takes a frame from those that are left when it carries one. -/
theorem InLevel.snoc (h : InLevel is) (hpre : (run step reset is).game.control.isPre = false)
    (hl : (run step reset (is ++ [i])).game.control.isPre = false) : InLevel (is ++ [i]) := by
  have hr : (run step reset is).game.resetObjects ((run step reset is).edge i) = false := by
    rw [run_snoc] at hl
    exact Lab8.not_reset_of_level (reachable_game is) hpre hl
  have hbutton : i.resetH = false := (Lab8.not_reset hr).1
  have hticks : ticks (is ++ [i]) = ticks is + 1 := by
    rw [ticks_snoc, hbutton]
    rfl
  have hage : levelAge (is ++ [i]) = levelAge is + 1 := by
    rw [levelAge_snoc, hl, hpre]
    rfl
  have hage_le := h.age_le
  refine ⟨by omega, fun g => ?_⟩
  have hframe := (edge_frames is i).2
  rw [hbutton, FrameClocks.ghostFrame_iff] at hframe
  unfold OutOrOnWay
  rw [hticks, hage, Nat.add_sub_add_right, Nat.count_succ, run_snoc]
  rcases h.ghosts g with hout | ⟨p₀, m, h₀, hway, hm⟩
  · exact Or.inl (hout.step hr)
  · by_cases hf : ((run step reset is).edge i).ghostFrame = true
    · rw [if_pos (hframe.mp hf).2]
      cases m with
      | zero =>
        obtain ⟨-, p, -, hp, hleft⟩ := hway
        have := (movesLeft_bounds h₀ hp).1
        omega
      | succ m =>
        rcases hway.step h₀ hr hf with hway' | hout
        · exact Or.inr ⟨p₀, m, h₀, hway', by omega⟩
        · exact Or.inl hout.1
    · rw [if_neg fun hrise => hf (hframe.mpr ⟨rfl, hrise⟩)]
      exact Or.inr ⟨p₀, m, h₀, hway.idle hr (Bool.not_eq_true _ ▸ hf), hm⟩

theorem inLevel (is : List Input) : ((run step reset is).game.control.isPre = true → levelAge is = 0) ∧
    ((run step reset is).game.control.isPre = false → InLevel is) := by
  induction is using List.reverseRecOn with
  | nil => exact ⟨fun _ => rfl, fun h => by cases h⟩
  | append_singleton is i ih =>
    refine ⟨fun hpre => by rw [levelAge_snoc, hpre]; rfl, fun hl => ?_⟩
    cases hpre : (run step reset is).game.control.isPre with
    | true => exact inLevel_of_entry (ih.1 hpre) hpre hl
    | false => exact (ih.2 hpre).snoc hpre hl

/-- After 95 periods of their clock the ghosts are out. -/
theorem InLevel.out (h : InLevel is) (hlong : 49780190 ≤ levelAge is) (g : Ghost) :
    Lab8.Out g (run step reset is).game := by
  rcases h.ghosts g with hout | ⟨p₀, m, h₀, hway, hm⟩
  · exact hout
  · have hage := h.age_le
    have hcount := count_rises_add (m := 262001) (k := 95) (by decide) (ticks is - levelAge is)
    have hmono := Nat.count_monotone (Rises 262001) (show ticks is - levelAge is + 262001 * 2 * 95 ≤ ticks is by omega)
    obtain ⟨-, p, -, hp, hleft⟩ := hway
    have := (movesLeft_bounds h₀ hp).1
    omega

end Board

/-! ### Levels that last -/

namespace Lab8

variable {s t : Lab8} {x : Input} {i j : Fin 12}

/-- The movers after the frames of an edge that resets nothing. -/
def frame (s : Lab8) (x : Input) : Lab8 :=
  { s with
    pac := if x.pacFrame then s.pac.movePac s.walls x.keycode else s.pac
    ghosts := fun g => if x.ghostFrame then
      (s.ghosts g).moveGhost s.walls s.pac.pacXPos s.pac.pacYPos (x.randomness g) else s.ghosts g }

/-- Nobody is in contact, and Pac-Man leaves the cell's dot. -/
def Spares (i j : Fin 12) (s : Lab8) : Prop :=
  s.pacManDied = false ∧ ¬(s.pac.pacXPos.toNat = 32 * (12 - j) ∧ s.pac.pacYPos.toNat = 32 * (12 - i))

instance : Decidable (Spares i j s) := inferInstanceAs (Decidable (_ ∧ _))

/-- A level that has the cell's dot, with the movers of `t`. -/
structure Lasts (i j : Fin 12) (t s : Lab8) : Prop where
  level : s.control.isPre = false
  dot_mem : (getDotStarts s.control.level).getLsbD (12 * i + j) = true
  uneaten : s.dots i j = .uneaten
  state_eq : s.control.state = t.control.state
  pac_eq : s.pac = t.pac
  ghosts_eq : s.ghosts = t.ghosts

/-- While the dot is spared, an edge changes the movers by its frames alone. -/
theorem Lasts.step (h : Lasts i j t s) (hreach : s.Reachable) (hspares : Spares i j t) (hb : x.resetH = false) :
    Lasts i j (t.frame x) (s.step x) := by
  have hdied : s.pacManDied = false := by
    unfold pacManDied hitPacman
    rw [h.pac_eq, h.ghosts_eq]
    exact hspares.1
  have hleft : s.anyDotsLeft = true := (AllPacDots.anyLeft_iff ..).mpr ⟨i, j, h.uneaten, h.dot_mem⟩
  have hr := not_reset_of_alive hreach h.level hb hdied hleft
  have hwalls : s.walls = t.walls := by
    unfold walls
    rw [Control.level_congr h.state_eq, Control.isPre_congr h.state_eq]
  obtain ⟨hlevel, hstate⟩ := control_of_not_reset hr
  refine ⟨(level_step h.level hr).1, hlevel ▸ h.dot_mem, ?_, (hstate h.level).trans h.state_eq, ?_, funext fun g => ?_⟩
  · have hkept : (s.step x).dots i j ≠ .eaten := by
      rw [step_dots hr, ne_eq, AllPacDots.next_eaten_iff, h.uneaten, h.pac_eq]
      exact fun he => he.elim (fun he => by cases he) hspares.2
    cases hdot : (s.step x).dots i j with
    | uneaten => rfl
    | eaten => exact absurd hdot hkept
  · rw [step_pac hr, hwalls, h.pac_eq]
    rfl
  · rw [step_ghost hr, hwalls, h.pac_eq, h.ghosts_eq]
    rfl

end Lab8

namespace Board

variable {is : List Input} {i j : Fin 12} {t : Lab8}

/-- An edge at which a key is held. -/
def hold (key : BitVec 16) : Input := { idle with keycode := key }

/-- The edge after `n` ticks, as the game meets it while a key is held. -/
def edgeAt (key : BitVec 16) (n : ℕ) : Lab8.Input :=
  { Lab8.idle with keycode := key, pacFrame := decide (Rises 200001 n), ghostFrame := decide (Rises 262001 n) }

theorem edge_hold (is : List Input) (key : BitVec 16) : (run step reset is).edge (hold key) = edgeAt key (ticks is) := by
  obtain ⟨hpac, hghost⟩ := edge_frames is (hold key)
  have hp : ((run step reset is).edge (hold key)).pacFrame = decide (Rises 200001 (ticks is)) := by
    rw [Bool.eq_iff_iff, decide_eq_true_iff, hpac, FrameClocks.pacFrame_iff]
    exact and_iff_right rfl
  have hg : ((run step reset is).edge (hold key)).ghostFrame = decide (Rises 262001 (ticks is)) := by
    rw [Bool.eq_iff_iff, decide_eq_true_iff, hghost, FrameClocks.ghostFrame_iff]
    exact and_iff_right rfl
  unfold edgeAt
  rw [← hp, ← hg]
  rfl

theorem ticks_hold (is : List Input) (key : BitVec 16) (n : ℕ) :
    ticks (is ++ List.replicate n (hold key)) = ticks is + n :=
  ticks_append_replicate is rfl n

theorem lasts_edge (key : BitVec 16) (h : t.Lasts i j (run step reset is).game) (hspares : t.Spares i j) :
    (t.frame (edgeAt key (ticks is))).Lasts i j (run step reset (is ++ [hold key])).game := by
  rw [run_snoc, ← edge_hold]
  exact h.step (reachable_game is) hspares rfl

/-- The ticks to the next frame. -/
def untilFrame (n : ℕ) : ℕ := min (untilRise 200001 n) (untilRise 262001 n)

/-- Up to the next frame the movers rest. -/
theorem lasts_until_frame (key : BitVec 16) (h : t.Lasts i j (run step reset is).game) (hspares : t.Spares i j) {n : ℕ}
    (hn : n ≤ untilFrame (ticks is)) : t.Lasts i j (run step reset (is ++ List.replicate n (hold key))).game := by
  induction n with
  | zero => rwa [List.replicate_zero, List.append_nil]
  | succ n ih =>
    unfold untilFrame at hn ih
    have hpac : ¬Rises 200001 (ticks is + n) := by
      rw [rises_iff_untilRise (by decide) (by omega)]
      omega
    have hghost : ¬Rises 262001 (ticks is + n) := by
      rw [rises_iff_untilRise (by decide) (by omega)]
      omega
    have hnext := lasts_edge key (ih (by omega)) hspares
    rw [ticks_hold, List.append_assoc, ← List.replicate_succ'] at hnext
    unfold edgeAt at hnext
    rw [decide_eq_false hpac, decide_eq_false hghost] at hnext
    exact hnext

/-- From `n` ticks on, the given number of frames spare the dot until `last` ticks are over. -/
def outlasts (i j : Fin 12) (key : BitVec 16) (last : ℕ) : ℕ → ℕ → Lab8 → Bool
  | 0, n, _ => decide (last ≤ n)
  | frames + 1, n, t =>
    decide (t.Spares i j) &&
      outlasts i j key last frames (n + untilFrame n + 1) (t.frame (edgeAt key (n + untilFrame n)))

/-- A level goes on for as long as its dot is spared. -/
theorem level_of_outlasts {key : BitVec 16} {last frames : ℕ} (hlast : outlasts i j key last frames (ticks is) t = true)
    (h : t.Lasts i j (run step reset is).game) {n : ℕ} (hn : ticks is + n ≤ last) :
    (run step reset (is ++ List.replicate n (hold key))).game.control.isPre = false := by
  induction frames generalizing is t n with
  | zero =>
    have hover : last ≤ ticks is := of_decide_eq_true hlast
    obtain rfl : n = 0 := by omega
    rw [List.replicate_zero, List.append_nil]
    exact h.level
  | succ frames ih =>
    rw [outlasts, Bool.and_eq_true, decide_eq_true_eq] at hlast
    obtain ⟨hspares, hlater⟩ := hlast
    rcases Nat.lt_or_ge (untilFrame (ticks is)) n with hfar | hnear
    · -- The run goes on from the edge with the next frame.
      have hnext := lasts_edge key (lasts_until_frame key h hspares le_rfl) hspares
      rw [ticks_hold, List.append_assoc, ← List.replicate_succ'] at hnext
      have hticks := ticks_hold is key (untilFrame (ticks is) + 1)
      have hrest := ih (hticks ▸ hlater) hnext (show _ + (n - (untilFrame (ticks is) + 1)) ≤ last by omega)
      rw [List.append_assoc, List.replicate_append_replicate] at hrest
      rwa [show untilFrame (ticks is) + 1 + (n - (untilFrame (ticks is) + 1)) = n by omega] at hrest
    · exact (lasts_until_frame key h hspares hnear).level

theorem levelAge_hold {key : BitVec 16} {n : ℕ}
    (h : ∀ k ≤ n, (run step reset (is ++ List.replicate k (hold key))).game.control.isPre = false) :
    levelAge (is ++ List.replicate n (hold key)) = levelAge is + n := by
  induction n with
  | zero => rw [List.replicate_zero, List.append_nil, Nat.add_zero]
  | succ n ih =>
    have hnow := h n (by omega)
    have hnext := h (n + 1) le_rfl
    rw [List.replicate_succ', ← List.append_assoc] at hnext ⊢
    rw [levelAge_snoc, hnext, hnow, ih fun k hk => h k (by omega)]
    rfl

/-! ### The walls -/

/-- A level is younger than 49780190 edges, which is less than a second, or there is no ghost in the pen or on its
    way out, and nothing at all is drawn on a wall. -/
theorem walls_clear_after_second (is : List Input) :
    let s := run step reset is
    levelAge is < 49780190 ∨ (∀ g, ¬(s.game.ghosts g).InPenArea) ∧
      ∀ (keycode : BitVec 16) (drawX drawY : BitVec 10), let m := s.game.colorInstance keycode drawX drawY
        m.wallLit = true → m.ballLit = false ∧ m.dotLit = false ∧ (∀ g, m.ghostLit g = false) ∧
          m.color = { red := 0x00, green := 0x00, blue := 0xff } := by
  intro s
  rcases Nat.lt_or_ge (levelAge is) 49780190 with hyoung | hlong
  · exact Or.inl hyoung
  have hpre : s.game.control.isPre = false := by
    by_contra hpre
    have := (inLevel is).1 ((Bool.not_eq_false _).mp hpre)
    omega
  have hout : ∀ g, Lab8.Out g s.game := ((inLevel is).2 hpre).out hlong
  refine Or.inr ⟨fun g => (hout g).not_inPenArea, fun keycode drawX drawY => ?_⟩
  intro m hwall
  have hreach := reachable_game is
  have hghost : ∀ g, m.ghostLit g = false := by
    intro g
    obtain ⟨p, hd, hp⟩ := Lab8.ghost_on_open_edges hreach (hout g).not_inPenArea
    exact Lab8.not_ghostLit_of_wallLit hwall hd hp
  exact ⟨Lab8.not_ballLit_of_wallLit hwall hreach, Lab8.not_dotLit_of_wallLit hwall, hghost,
    Lab8.color_of_wallLit hwall hreach hghost⟩

/-- Level 1 begins at once, and a second later, with the key S held, it has not ended: no ghost is in the pen, and
    nothing is drawn on a wall. -/
theorem walls_clear_after_second_level1 :
    let is := [hold Control.codeEnter] ++ List.replicate 49780190 (hold PacMotion.codeS)
    let s := run step reset is
    levelAge is = 49780190 ∧ (∀ g, ¬(s.game.ghosts g).InPenArea) ∧
      ∀ (keycode : BitVec 16) (drawX drawY : BitVec 10), let m := s.game.colorInstance keycode drawX drawY
        m.wallLit = true → m.ballLit = false ∧ m.dotLit = false ∧ (∀ g, m.ghostLit g = false) ∧
          m.color = { red := 0x00, green := 0x00, blue := 0xff } := by
  intro is
  -- The movers at the start of the level.
  let t : Lab8 := { Lab8.reset with control := { state := .level1, resetAll := false } }
  have hbegins : t.Lasts 1 1 (run step reset [hold Control.codeEnter]).game :=
    ⟨by decide, by decide +kernel, by decide, by decide, rfl, rfl⟩
  have hticks : ticks [hold Control.codeEnter] = 1 := by decide
  have hlast : outlasts 1 1 PacMotion.codeS 49780191 220 (ticks [hold Control.codeEnter]) t = true := by
    rw [hticks]
    decide +kernel
  have hlevel : ∀ k ≤ 49780190,
      (run step reset ([hold Control.codeEnter] ++ List.replicate k (hold PacMotion.codeS))).game.control.isPre = false := by
    intro k hk
    refine level_of_outlasts hlast hbegins ?_
    rw [hticks]
    omega
  have hage : levelAge is = levelAge [hold Control.codeEnter] + 49780190 := levelAge_hold hlevel
  have hstart : levelAge [hold Control.codeEnter] = 0 := by decide
  rw [hstart, Nat.zero_add] at hage
  clear_value is
  exact ⟨hage, (walls_clear_after_second is).resolve_left (by omega)⟩

end Board

end Pacman
