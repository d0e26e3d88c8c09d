import Pacman.Theorems.PreLevel

/-! How the ghosts leave the pen. When a level starts its map closes every side of the pen cells, so a ghost
    ends the edge it is in, walks up through the walls to row 5, and from there on keeps to open edges: no
    edge leads back to a closed cell. -/

namespace Pacman
open Lattice Walker

/-! ### The maps of the levels -/

/-- What the ghosts need of a level's map: a closed boundary, a pen without open sides, and an open side in
    the two cells above it. -/
structure PenMap (w : Walls) : Prop where
  boundary : BoundaryClosed w
  sealed : ∀ c, InPen c → ∀ d, side w c d = false
  above : ∀ c : Node, c.1 = 6 ∨ c.1 = 7 → c.2 = 5 → ∃ d, OpenEdge w c d

theorem penMap_level {level : BitVec 2} (hlevel : level = 0b01 ∨ level = 0b10) :
    PenMap (getWalls level false) where
  boundary := by
    unfold BoundaryClosed
    rcases hlevel with rfl | rfl <;> decide +kernel
  sealed c hc d := by
    rcases hlevel with rfl | rfl <;> rcases hc.cases with rfl | rfl | rfl | rfl <;> cases d <;> decide +kernel
  above c h₁ h₂ := by
    obtain ⟨a, b⟩ := c
    dsimp only at h₁ h₂
    subst h₂
    rcases h₁ with rfl | rfl
    · exact ⟨.left, by rcases hlevel with rfl | rfl <;> decide +kernel⟩
    · exact ⟨.right, by rcases hlevel with rfl | rfl <;> decide +kernel⟩

/-- A cell of the maze with an open side; open edges lead to no other cell. -/
def Roams (w : Walls) (c : Node) : Prop := Inside c ∧ ∃ d, OpenEdge w c d

theorem closed_roams {w : Walls} (hw : PenMap w) : Closed grid (OpenEdge w) (Roams w) where
  back h := openEdge_undirected w _ _ h
  arrive h := ⟨(openEdge_undirected w _ _ h).inside hw.boundary, _, openEdge_undirected w _ _ h⟩

theorem not_inPen_of_openEdge {w : Walls} (hw : PenMap w) {c : Node} {d : Dir} (h : OpenEdge w c d) : ¬InPen c :=
  fun hpen => by
    have hside := (side_inside (h.inside hw.boundary)).mpr h
    rw [hw.sealed c hpen d] at hside
    cases hside

theorem Roams.turnsInto {w : Walls} {c : Node} {d : Dir} (hc : Roams w c)
    (ht : GhostMotion.TurnsInto (side w c) d) : OpenEdge w c d := by
  rcases ht with hs | ⟨hnone, -⟩
  · exact (side_inside hc.1).mp hs
  · obtain ⟨e, he⟩ := hc.2
    rw [← side_inside hc.1, hnone] at he
    cases he

theorem pos_roams {w : Walls} (hw : PenMap w) {p : Place Node Dir} (h : Legal cellSize (OpenEdge w) (Roams w) p) :
    ¬(192 ≤ (pos cellSize p).1 ∧ (pos cellSize p).1 ≤ 224 ∧ 192 ≤ (pos cellSize p).2 ∧
      (pos cellSize p).2 ≤ 224) := by
  cases p with
  | node c hd =>
    obtain ⟨d, hd⟩ := h.2
    have hout := not_inPen_of_openEdge hw hd
    simp only [pos_node, cellSize, InPen] at hout ⊢
    omega
  | edge c d k =>
    obtain ⟨h0, hk, he⟩ := h
    have hout := not_inPen_of_openEdge hw he
    simp only [cellSize, InPen] at hk hout
    cases d <;> simp only [pos_edge, point, cellSize, Dir.dx, Dir.dy] <;> omega

/-! ### On the way out -/

/-- The edges of a ghost that leaves the pen: the one it was in when the level started, at `p₀`, and the
    edges up from the pen cells. -/
def ExitEdge (p₀ : Place Node Dir) (c : Node) (d : Dir) : Prop := (InPen c ∧ d = .up) ∨ ∃ k, p₀ = .edge c d k

/-- The frames from a cell to row 5. -/
def framesToRow5 (c : Node) : ℕ := (32 * (c.2 - 5)).toNat

section Exit
variable {p₀ p : Place Node Dir}

theorem exitEdge_start (h₀ : Legal cellSize PenEdge InPen p₀) : Legal cellSize (ExitEdge p₀) InPen p₀ := by
  cases p₀ with
  | node c h => exact h₀
  | edge c d k => exact ⟨h₀.1, h₀.2.1, Or.inr ⟨k, rfl⟩⟩

theorem ExitEdge.cases {c : Node} {d : Dir} (h₀ : Legal cellSize PenEdge InPen p₀) (h : ExitEdge p₀ c d) :
    InPen c ∧ (InPen (next c d) ∨ d = .up) := by
  rcases h with ⟨hc, rfl⟩ | ⟨k, rfl⟩
  · exact ⟨hc, Or.inr rfl⟩
  · exact ⟨h₀.2.2.1, Or.inl h₀.2.2.2⟩

theorem movesLeft_bounds (h₀ : Legal cellSize PenEdge InPen p₀) (h : Legal cellSize (ExitEdge p₀) InPen p) :
    1 ≤ movesLeft framesToRow5 grid cellSize p ∧ movesLeft framesToRow5 grid cellSize p ≤ 95 := by
  cases p with
  | node c hd =>
    obtain ⟨-, hrow⟩ : InPen c := h
    simp only [movesLeft, framesToRow5]
    omega
  | edge c d k =>
    obtain ⟨h0, hk, he⟩ := h
    obtain ⟨⟨-, hrow⟩, hnext⟩ := he.cases h₀
    simp only [movesLeft, framesToRow5, cellSize, grid_next, InPen, next_snd] at hk hnext ⊢
    rcases hnext with hnext | rfl
    · omega
    · simp only [Dir.dy]
      omega

theorem below_row5 (h₀ : Legal cellSize PenEdge InPen p₀) (h : Legal cellSize (ExitEdge p₀) InPen p) :
    160 < (pos cellSize p).2 := by
  cases p with
  | node c hd =>
    obtain ⟨-, hrow⟩ : InPen c := h
    simp only [pos_node, cellSize]
    omega
  | edge c d k =>
    obtain ⟨h0, hk, he⟩ := h
    obtain ⟨⟨hx, hy⟩, hnext⟩ := he.cases h₀
    simp only [cellSize, InPen, next] at hk hnext
    cases d <;> simp only [pos_edge, point, cellSize, Dir.dx, Dir.dy] at hnext ⊢ <;> omega

/-- A frame on the way out leads one step closer to row 5, or to a cell of it. -/
theorem exit_move {w : Walls} (hw : PenMap w) (h₀ : Legal cellSize PenEdge InPen p₀)
    (h : Legal cellSize (ExitEdge p₀) InPen p) {turn : Option Dir}
    (hturn : ∀ c hd, p = .node c hd → ∃ d, turn = some d ∧ GhostMotion.TurnsInto (side w c) d) :
    Legal cellSize (ExitEdge p₀) InPen (move grid cellSize turn false p) ∧
        movesLeft framesToRow5 grid cellSize (move grid cellSize turn false p) + 1 =
          movesLeft framesToRow5 grid cellSize p ∨
      Legal cellSize (OpenEdge w) (Roams w) (move grid cellSize turn false p) ∧
        (pos cellSize (move grid cellSize turn false p)).2 = 160 := by
  cases p with
  | node c hd =>
    have hc : InPen c := h
    obtain ⟨d, rfl, hd⟩ := hturn c hd rfl
    -- Every side of a pen cell is closed, so the ghost goes up.
    obtain rfl : d = .up := by
      rcases hd with hs | ⟨-, hup⟩
      · rw [hw.sealed c hc d] at hs
        cases hs
      · exact hup
    refine Or.inl ⟨⟨by decide, by decide, Or.inl ⟨hc, rfl⟩⟩, ?_⟩
    refine movesLeft_move framesToRow5 (by decide) (fun _ _ _ hp => by cases hp) fun c' hd' hp => ⟨.up, rfl, ?_⟩
    cases hp
    obtain ⟨-, hrow⟩ := hc
    simp only [framesToRow5, grid_next, next_snd, Dir.dy, cellSize]
    omega
  | edge c d k =>
    obtain ⟨h0, hk, he⟩ := h
    have hleft := movesLeft_advance framesToRow5 (G := grid) (c := c) (d := d) hk
    rw [move_on]
    by_cases hend : k + 1 < cellSize
    · refine Or.inl ⟨?_, hleft⟩
      simp only [advance, hend, if_true]
      exact ⟨Nat.succ_pos k, hend, he⟩
    · simp only [advance, hend, if_false, grid_next] at hleft ⊢
      by_cases hpen : InPen (next c d)
      · exact Or.inl ⟨hpen, hleft⟩
      · obtain ⟨⟨hx, hy⟩, hout⟩ := he.cases h₀
        obtain rfl : d = .up := hout.resolve_left hpen
        simp only [InPen, next, Dir.dx, Dir.dy] at hpen
        have hrow : (next c .up).2 = 5 := by simp only [next, Dir.dy]; omega
        have hcolumn : (next c .up).1 = 6 ∨ (next c .up).1 = 7 := by simp only [next, Dir.dx]; omega
        refine Or.inr ⟨⟨?_, hw.above _ hcolumn hrow⟩, ?_⟩
        · simp only [Inside]
          omega
        · rw [pos_node, hrow]
          rfl

end Exit

/-! ### Runs of a level -/

namespace Lab8
open Machine

variable {s : Lab8} {i : Input} {g : Ghost}

theorem penMap_walls (hl : s.control.isPre = false) : PenMap s.walls := by
  rw [walls_of_level hl]
  exact penMap_level (level_cases s)

theorem level_step (hl : s.control.isPre = false) (hr : s.resetObjects i = false) :
    (s.step i).control.isPre = false ∧ (s.step i).walls = s.walls := by
  obtain ⟨hlevel, hstate⟩ := control_of_not_reset hr
  have hpre : (s.step i).control.isPre = false := (Control.isPre_congr (hstate hl)).trans hl
  refine ⟨hpre, ?_⟩
  unfold walls
  rw [hlevel, hpre, hl]

/-- The run `is` follows the edge `i₀` that began a level at `s₀`, and nothing was reset since. -/
structure SinceEntry (s₀ : Lab8) (i₀ : Input) (is : List Input) : Prop where
  reachable : s₀.Reachable
  pre : s₀.control.isPre = true
  level : (s₀.step i₀).control.isPre = false
  calm : Avoids step Resets (s₀.step i₀) is

/-- Every state in a level comes from the edge that began it. -/
theorem exists_entry (h : s.Reachable) (hl : s.control.isPre = false) :
    ∃ s₀ i₀ is, SinceEntry s₀ i₀ is ∧ run step (s₀.step i₀) is = s := by
  refine Reachable.induction (P := fun s : Lab8 => s.control.isPre = false →
    ∃ s₀ i₀ is, SinceEntry s₀ i₀ is ∧ run step (s₀.step i₀) is = s) (fun hl => by cases hl)
    (fun s i hreach ih hl => ?_) h hl
  by_cases hpre : s.control.isPre = true
  · exact ⟨s, i, [], ⟨hreach, hpre, hl, trivial⟩, rfl⟩
  · rw [Bool.not_eq_true] at hpre
    obtain ⟨s₀, i₀, is, hsince, rfl⟩ := ih hpre
    refine ⟨s₀, i₀, is ++ [i], ⟨hsince.reachable, hsince.pre, hsince.level, ?_⟩, run_snoc ..⟩
    rw [avoids_append]
    refine ⟨hsince.calm, fun hr => ?_, trivial⟩
    rw [Resets, not_reset_of_level hreach hpre hl] at hr
    cases hr

/-- On the next frame from an intersection the ghost enters an edge of `E`. -/
def TurnsAlong (s : Lab8) (g : Ghost) (E : Node → Dir → Prop) : Prop :=
  ∀ i, s.resetObjects i = false → i.ghostFrame = true → (s.ghosts g).atIntersection = true →
    ∃ d, GhostMotion.Leaves (s.ghosts g) ((s.step i).ghosts g) d ∧ E (s.ghosts g).cell d

theorem ghost_frame {p : Place Node Dir} (hr : s.resetObjects i = false) (hf : i.ghostFrame = true)
    (hd : (s.ghosts g).DrawnAt p) (hp : Legal cellSize BandEdge InBand p) :
    ∃ turn, (∀ c h, p = .node c h → ∃ d, turn = some d ∧ GhostMotion.TurnsInto (side s.walls c) d) ∧
      ((s.step i).ghosts g).DrawnAt (move grid cellSize turn false p) := by
  obtain ⟨turn, hturn, hd', -⟩ := GhostMotion.drawnAt_moveGhost s.walls s.pac.pacXPos
    s.pac.pacYPos (i.randomness g) closed_band (fun _ _ hc ht => ht.inBand hc)
    (fun _ _ => BandEdge.fieldEdge) (fun _ => InBand.inField) hd hp
  refine ⟨turn, fun c h heq => ?_, by rw [step_ghost hr, if_pos hf]; exact hd'⟩
  obtain ⟨d, hd, ht, -⟩ := hturn c h heq
  exact ⟨d, hd, ht⟩

theorem turnsAlong {p : Place Node Dir} {E : Node → Dir → Prop} (hd : (s.ghosts g).DrawnAt p)
    (hp : Legal cellSize BandEdge InBand p)
    (hE : ∀ c h d, p = .node c h → GhostMotion.TurnsInto (side s.walls c) d → E c d) : TurnsAlong s g E := by
  intro i hr hf hat
  cases p with
  | node c h =>
    obtain ⟨turn, hturn, hd'⟩ := ghost_frame hr hf hd hp
    obtain ⟨d, rfl, ht⟩ := hturn c h rfl
    obtain ⟨e, hhead, hleaves⟩ := GhostMotion.displacement hd hd' hp fun _ _ _ => ⟨d, rfl⟩
    rw [move_turn, heading_advance] at hhead
    obtain rfl := Option.some.inj hhead
    exact ⟨d, hleaves, by rw [GhostMotion.cell_of_node hd]; exact hE c h d rfl ht⟩
  | edge c d k =>
    rw [GhostMotion.atIntersection_in_edge hd hp.1 hp.2.1] at hat
    cases hat

/-- The ghost is on its way out of the pen, at most `m` frames below row 5. -/
def OnWayOut (p₀ : Place Node Dir) (g : Ghost) (s : Lab8) (m : ℕ) : Prop :=
  s.control.isPre = false ∧ ∃ p, (s.ghosts g).DrawnAt p ∧ Legal cellSize (ExitEdge p₀) InPen p ∧
    movesLeft framesToRow5 grid cellSize p ≤ m

/-- The ghost is out of the pen, on open edges. -/
def Out (g : Ghost) (s : Lab8) : Prop :=
  s.control.isPre = false ∧ ∃ p, (s.ghosts g).DrawnAt p ∧ Legal cellSize (OpenEdge s.walls) (Roams s.walls) p

theorem legal_band_of_out {w : Walls} {p : Place Node Dir} (h : Legal cellSize (OpenEdge w) (Roams w) p) :
    Legal cellSize BandEdge InBand p :=
  h.mono (fun _ _ => OpenEdge.bandEdge) fun _ h => h.1.inBand

theorem legal_band_of_exit {p₀ p : Place Node Dir} (h₀ : Legal cellSize PenEdge InPen p₀)
    (h : Legal cellSize (ExitEdge p₀) InPen p) : Legal cellSize BandEdge InBand p :=
  h.mono (fun _ d he => ⟨(he.cases h₀).1.inside.inBand, (he.cases h₀).1.inside.inBand_next d⟩)
    fun _ hc => hc.inside.inBand

theorem OnWayOut.step {p₀ : Place Node Dir} {m : ℕ} (h₀ : Legal cellSize PenEdge InPen p₀)
    (h : OnWayOut p₀ g s (m + 1)) (hr : s.resetObjects i = false) (hf : i.ghostFrame = true) :
    OnWayOut p₀ g (s.step i) m ∨ Out g (s.step i) ∧ ((s.step i).ghosts g).ghostYPos.toNat = 160 := by
  obtain ⟨hl, p, hd, hp, hm⟩ := h
  obtain ⟨hl', hwalls⟩ := level_step hl hr
  obtain ⟨turn, hturn, hd'⟩ := ghost_frame hr hf hd (legal_band_of_exit h₀ hp)
  rcases exit_move (penMap_walls hl) h₀ hp hturn with ⟨hp', hm'⟩ | ⟨hp', hrow⟩
  · exact Or.inl ⟨hl', _, hd', hp', by omega⟩
  · refine Or.inr ⟨⟨hl', _, hd', by rwa [hwalls]⟩, ?_⟩
    have hy := hd'.yPos_eq
    omega

theorem OnWayOut.weaken {p₀ : Place Node Dir} {m : ℕ} (h : OnWayOut p₀ g s m) : OnWayOut p₀ g s (m + 1) := by
  obtain ⟨hl, p, hd, hp, hm⟩ := h
  exact ⟨hl, p, hd, hp, by omega⟩

theorem OnWayOut.idle {p₀ : Place Node Dir} {m : ℕ} (h : OnWayOut p₀ g s m) (hr : s.resetObjects i = false)
    (hf : i.ghostFrame = false) : OnWayOut p₀ g (s.step i) m := by
  obtain ⟨hl, p, hd, hp, hm⟩ := h
  refine ⟨(level_step hl hr).1, p, ?_, hp, hm⟩
  rw [step_ghost hr, hf]
  exact hd

theorem Out.step (h : Out g s) (hr : s.resetObjects i = false) : Out g (s.step i) := by
  obtain ⟨hl, p, hd, hp⟩ := h
  obtain ⟨hl', hwalls⟩ := level_step hl hr
  refine ⟨hl', ?_⟩
  rw [hwalls]
  by_cases hf : i.ghostFrame = true
  · obtain ⟨turn, hturn, hd'⟩ := ghost_frame hr hf hd (legal_band_of_out hp)
    refine ⟨_, hd', Legal.move (closed_roams (penMap_walls hl)) hp turn false fun c h d heq ht => ?_⟩
    subst heq
    obtain ⟨e, he, hturns⟩ := hturn c h rfl
    rw [ht] at he
    obtain rfl := Option.some.inj he
    exact Roams.turnsInto hp hturns
  · rw [Bool.not_eq_true] at hf
    refine ⟨p, ?_, hp⟩
    rw [step_ghost hr, hf]
    exact hd

/-- Since a level began, a ghost is on its way out of the pen, or out. -/
theorem SinceEntry.ghost {s₀ : Lab8} {i₀ : Input} {is : List Input} (h : SinceEntry s₀ i₀ is) (g : Ghost) :
    ∃ p₀, ((s₀.step i₀).ghosts g).DrawnAt p₀ ∧ Legal cellSize PenEdge InPen p₀ ∧
      OnWayOut p₀ g (s₀.step i₀) 95 ∧
      (OnWayOut p₀ g (run step (s₀.step i₀) is) 95 ∨ Out g (run step (s₀.step i₀) is)) := by
  obtain ⟨p₀, hd₀, h₀⟩ := ((ready_of_reachable h.reachable h.pre).step h.pre i₀).ghost g
  have hstart : OnWayOut p₀ g (s₀.step i₀) 95 :=
    ⟨h.level, p₀, hd₀, exitEdge_start h₀, (movesLeft_bounds h₀ (exitEdge_start h₀)).2⟩
  refine ⟨p₀, hd₀, h₀, hstart, ?_⟩
  refine run_invariant_avoids (P := fun s => OnWayOut p₀ g s 95 ∨ Out g s) (fun s i hr hs => ?_) (Or.inl hstart)
    h.calm
  rw [Resets, Bool.not_eq_true] at hr
  rcases hs with hs | hs
  · by_cases hf : i.ghostFrame = true
    · rcases hs.weaken.step h₀ hr hf with hs' | hs'
      · exact Or.inl hs'
      · exact Or.inr hs'.1
    · exact Or.inl (hs.idle hr (Bool.not_eq_true _ ▸ hf))
  · exact Or.inr (hs.step hr)

/-! ### The way out -/

/-- The ghost frame edges of a run. -/
def ghostFrames (is : List Input) : ℕ := is.countP fun i => i.ghostFrame

/-- The edges out of the pen cells that lead up. -/
def UpFromPen (c : Node) (d : Dir) : Prop := InPen c ∧ d = .up

/-- The pen edge that ghost `g` is in at `s`. -/
def InsidePenEdge (s : Lab8) (g : Ghost) (c : Node) (d : Dir) : Prop :=
  PenEdge c d ∧ ∃ k, 0 < k ∧ k < cellSize ∧ (s.ghosts g).DrawnAt (.edge c d k)

/-- The edges that ghost `g` travels along at `s`. -/
def TravelsAlong (s : Lab8) (g : Ghost) (E : Node → Dir → Prop) : Prop :=
  Travels E (s.ghosts g).ghostXPos (s.ghosts g).ghostYPos (s.ghosts g).ghostXMotion (s.ghosts g).ghostYMotion

theorem Out.travels (h : Out g s) : TravelsAlong s g (OpenEdge s.walls) ∧ TurnsAlong s g (OpenEdge s.walls) := by
  obtain ⟨-, p, hd, hp⟩ := h
  refine ⟨hd.travels hp, turnsAlong hd (legal_band_of_out hp) fun c h d heq ht => ?_⟩
  subst heq
  exact Roams.turnsInto hp ht

theorem OnWayOut.travels {p₀ : Place Node Dir} {start : Lab8} {m : ℕ} (hd₀ : (start.ghosts g).DrawnAt p₀)
    (h₀ : Legal cellSize PenEdge InPen p₀) (h : OnWayOut p₀ g s m) :
    TravelsAlong s g (fun c d => UpFromPen c d ∨ InsidePenEdge start g c d) ∧ TurnsAlong s g UpFromPen := by
  obtain ⟨hl, p, hd, hp, -⟩ := h
  constructor
  · have hp' : Legal cellSize (fun c d => UpFromPen c d ∨ InsidePenEdge start g c d) InPen p := by
      refine hp.mono (fun c d he => ?_) fun _ hc => hc
      rcases he with he | ⟨k, rfl⟩
      · exact Or.inl he
      · exact Or.inr ⟨h₀.2.2, k, h₀.1, h₀.2.1, hd₀⟩
    exact hd.travels hp'
  · refine turnsAlong hd (legal_band_of_exit h₀ hp) fun c h d heq ht => ?_
    subst heq
    refine ⟨hp, ?_⟩
    rcases ht with hs | ⟨-, hup⟩
    · rw [(penMap_walls hl).sealed c hp d] at hs
      cases hs
    · exact hup

theorem TravelsAlong.mono {E E' : Node → Dir → Prop} (hE : ∀ c d, E c d → E' c d) (h : TravelsAlong s g E) :
    TravelsAlong s g E' := by
  rcases h with h | ⟨c, d, k, h0, hk, he, h⟩
  · exact Or.inl h
  · exact Or.inr ⟨c, d, k, h0, hk, hE c d he, h⟩

theorem TurnsAlong.mono {E E' : Node → Dir → Prop} (hE : ∀ c d, E c d → E' c d) (h : TurnsAlong s g E) :
    TurnsAlong s g E' := fun i hr hf hat => by
  obtain ⟨d, hd, he⟩ := h i hr hf hat
  exact ⟨d, hd, hE _ d he⟩

theorem OnWayOut.below {p₀ : Place Node Dir} {m : ℕ} (h₀ : Legal cellSize PenEdge InPen p₀)
    (h : OnWayOut p₀ g s m) : (s.ghosts g).ghostYPos.toNat ≠ 160 := by
  obtain ⟨-, p, hd, hp, -⟩ := h
  have hy := hd.yPos_eq
  have hbelow := below_row5 h₀ hp
  omega

theorem Out.not_in_pen (h : Out g s) :
    ¬(192 ≤ (s.ghosts g).ghostXPos.toNat ∧ (s.ghosts g).ghostXPos.toNat ≤ 224 ∧
      192 ≤ (s.ghosts g).ghostYPos.toNat ∧ (s.ghosts g).ghostYPos.toNat ≤ 224) := by
  obtain ⟨hl, p, hd, hp⟩ := h
  have hpos := pos_roams (penMap_walls hl) hp
  rw [← hd.xPos_eq, ← hd.yPos_eq] at hpos
  omega

theorem Out.bounds (h : Out g s) :
    (32 ≤ (s.ghosts g).ghostXPos.toNat ∧ (s.ghosts g).ghostXPos.toNat ≤ 384) ∧
      (32 ≤ (s.ghosts g).ghostYPos.toNat ∧ (s.ghosts g).ghostYPos.toNat ≤ 384) := by
  obtain ⟨hl, p, hd, hp⟩ := h
  have hb := (penMap_walls hl).boundary
  exact hd.bounds_inside (hp.mono (fun _ _ h => h) fun _ h => h.1)
    fun c d he => ⟨he.inside hb, (openEdge_undirected _ c d he).inside hb⟩

theorem OnWayOut.bounds {p₀ : Place Node Dir} {m : ℕ} (h₀ : Legal cellSize PenEdge InPen p₀)
    (h : OnWayOut p₀ g s m) :
    (32 ≤ (s.ghosts g).ghostXPos.toNat ∧ (s.ghosts g).ghostXPos.toNat ≤ 384) ∧
      (32 ≤ (s.ghosts g).ghostYPos.toNat ∧ (s.ghosts g).ghostYPos.toNat ≤ 384) := by
  obtain ⟨-, p, hd, hp, -⟩ := h
  refine hd.bounds_inside (hp.mono (fun _ _ h => h) fun _ h => h.inside) fun c d he => ?_
  obtain ⟨hc, hnext⟩ := he.cases h₀
  refine ⟨hc.inside, ?_⟩
  rcases hnext with hnext | rfl
  · exact hnext.inside
  · simp only [InPen, Inside, next, Dir.dx, Dir.dy] at hc ⊢
    omega

/-- Every state in a level comes from the edge that began the level, without a reset since. From that edge
    on each ghost travels along open edges, but for the pen edge it was in then and the edges up from the
    pen cells; at an intersection it enters no edge but an open one or one up from a pen cell; with its 95th
    frame, or before, it has reached row 5; from there on it is never on or between pen cells and keeps to
    open edges; and it always stays in the maze with a coordinate that is a multiple of 32. -/
theorem ghosts_leave_pen :
    (∀ s : Lab8, s.Reachable → s.control.isPre = false →
      ∃ s₀ i₀ is, SinceEntry s₀ i₀ is ∧ run step (s₀.step i₀) is = s) ∧
    ∀ (s₀ : Lab8) (i₀ : Input) (is : List Input), SinceEntry s₀ i₀ is → ∀ g : Ghost,
      let start := s₀.step i₀
      let s := run step start is
      TravelsAlong s g (fun c d => OpenEdge s.walls c d ∨ UpFromPen c d ∨ InsidePenEdge start g c d) ∧
      TurnsAlong s g (fun c d => OpenEdge s.walls c d ∨ UpFromPen c d) ∧
      (95 ≤ ghostFrames is → ∃ k ≤ is.length, ghostFrames (is.take k) ≤ 95 ∧
        ((run step start (is.take k)).ghosts g).ghostYPos.toNat = 160) ∧
      ((s.ghosts g).ghostYPos.toNat = 160 → ∀ js, Avoids step Resets s js →
        let t := run step s js
        ¬(192 ≤ (t.ghosts g).ghostXPos.toNat ∧ (t.ghosts g).ghostXPos.toNat ≤ 224 ∧
          192 ≤ (t.ghosts g).ghostYPos.toNat ∧ (t.ghosts g).ghostYPos.toNat ≤ 224) ∧
        TravelsAlong t g (OpenEdge t.walls) ∧ TurnsAlong t g (OpenEdge t.walls)) ∧
      (32 ≤ (s.ghosts g).ghostXPos.toNat ∧ (s.ghosts g).ghostXPos.toNat ≤ 384) ∧
      (32 ≤ (s.ghosts g).ghostYPos.toNat ∧ (s.ghosts g).ghostYPos.toNat ≤ 384) ∧
      (32 ∣ (s.ghosts g).ghostXPos.toNat ∨ 32 ∣ (s.ghosts g).ghostYPos.toNat) := by
  refine ⟨fun s => exists_entry, fun s₀ i₀ is h g => ?_⟩
  intro start s
  obtain ⟨p₀, hd₀, h₀, hstart, hnow⟩ := h.ghost g
  have hdrawn : Drawn s :=
    drawn_of_reachable ((h.reachable.tail i₀).trans is)
  obtain ⟨q, hq, hband⟩ := hdrawn.ghost g
  have htravel : TravelsAlong s g (fun c d => OpenEdge s.walls c d ∨ UpFromPen c d ∨ InsidePenEdge start g c d) ∧
      TurnsAlong s g (fun c d => OpenEdge s.walls c d ∨ UpFromPen c d) := by
    rcases hnow with hnow | hnow
    · obtain ⟨htravel, hturns⟩ := hnow.travels hd₀ h₀
      exact ⟨htravel.mono fun _ _ => Or.inr, hturns.mono fun _ _ => Or.inr⟩
    · obtain ⟨htravel, hturns⟩ := hnow.travels
      exact ⟨htravel.mono fun _ _ => Or.inl, hturns.mono fun _ _ => Or.inl⟩
  have hbounds : (32 ≤ (s.ghosts g).ghostXPos.toNat ∧ (s.ghosts g).ghostXPos.toNat ≤ 384) ∧
      (32 ≤ (s.ghosts g).ghostYPos.toNat ∧ (s.ghosts g).ghostYPos.toNat ≤ 384) := by
    rcases hnow with hnow | hnow
    · exact hnow.bounds h₀
    · exact hnow.bounds
  refine ⟨htravel.1, htravel.2, fun hframes => ?_, fun hrow js hjs => ?_, hbounds.1, hbounds.2,
    (hq.bounds_band hband).2.2⟩
  · refine exists_goal_of_countdown (Q := fun s m => OnWayOut p₀ g s m)
      (R := fun s => (s.ghosts g).ghostYPos.toNat = 160) ?_ ?_ ?_ h.calm hstart hframes
    · rintro s ⟨-, p, -, hp, hm⟩
      have := (movesLeft_bounds h₀ hp).1
      omega
    · exact fun s i m hr hf hq => hq.idle (Bool.not_eq_true _ ▸ hr) hf
    · exact fun s i m hr hf hq => ((hq.step h₀ (Bool.not_eq_true _ ▸ hr) hf).imp_right And.right).symm
  · have hout : Out g s := hnow.resolve_left fun hway => hway.below h₀ hrow
    have hlater : Out g (run step s js) :=
      run_invariant_avoids (fun s i hr hs => hs.step (Bool.not_eq_true _ ▸ hr)) hout hjs
    exact ⟨hlater.not_in_pen, hlater.travels⟩

/-- Level 1, in which Pac-Man goes down and away from the ghosts: with their 95th frame, or before, the orange ghost has
    reached row 5. -/
theorem ghosts_leave_pen_level1 :
    let enter : Input :=
      { resetH := false, keycode := Control.codeEnter, randomness := fun _ => 0, pacFrame := false, ghostFrame := false }
    let start := reset.step enter
    let is := List.replicate 95 { enter with keycode := PacMotion.codeS, pacFrame := true, ghostFrame := true }
    (run step start is).control.state = .level1 ∧ ∃ k ≤ is.length, ghostFrames (is.take k) ≤ 95 ∧
      ((run step start (is.take k)).ghosts .orange).ghostYPos.toNat = 160 := by
  intro enter start is
  have hsince : SinceEntry reset enter is :=
    ⟨Machine.Reachable.refl, by decide, by decide, by decide +kernel⟩
  exact ⟨by decide +kernel, ((ghosts_leave_pen.2 reset enter is hsince .orange).2.2.1) (by decide +kernel)⟩

end Lab8

end Pacman
