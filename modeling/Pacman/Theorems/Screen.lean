import Pacman.Theorems.Completion
import Pacman.Theorems.PenExit
import Pacman.Theorems.WallPicture

/-! What is seen of a game. A figure on an open edge has 14 pixels of dark around it, as wide as a corridor, and
    the pictures of the figures are no wider; so neither Pac-Man nor a dot is ever drawn on a wall, and no ghost
    but those in the pen and on their way out of it. -/

namespace Pacman
open Bits Lattice Walker

/-! ### The dark around a walker -/

section Dark
variable {level : BitVec 2} {c : Node} {d : Dir} {k x y : ℕ}

/-- The pixels up to 14 to the left and above a point, and up to 13 to the right and below. -/
def Around (p : ℤ × ℤ) (x y : ℕ) : Prop :=
  (p.1 - 14 ≤ x ∧ x ≤ p.1 + 13) ∧ p.2 - 14 ≤ y ∧ y ≤ p.2 + 13

theorem around_edge_cases (hk : k < cellSize) (h : Around (point cellSize c d k) x y) :
    CellPixel c x y ∨ WallPixel c d x y ∨ CellPixel (next c d) x y := by
  simp only [cellSize] at hk
  cases d <;>
    simp only [Around, point, cellSize, CellPixel, WallPixel, RightPixel, LowerPixel, next, Dir.dx, Dir.dy] at h ⊢ <;>
    omega

theorem dark_around (hlevel : level = 0b01 ∨ level = 0b10) {p : Place Node Dir}
    (hp : Legal cellSize (OpenEdge (getWalls level false)) Inside p) (h : Around (pos cellSize p) x y) :
    pictured level x y = false := by
  cases p with
  | node c hd => exact pictured_cell hlevel hp (by simpa [Around, CellPixel, cellSize] using h)
  | edge c d k =>
    obtain ⟨-, hk, hopen⟩ := hp
    have hb := (penMap_level hlevel).boundary
    rcases around_edge_cases hk h with hcell | hwall | hcell
    · exact pictured_cell hlevel (hopen.inside hb) hcell
    · rw [← Bool.not_eq_true, pictured_wall hlevel (hopen.inside hb) hwall]
      exact not_not.mpr hopen
    · exact pictured_cell hlevel ((openEdge_undirected _ c d hopen).inside hb) hcell

end Dark

/-! ### The size of the figures -/

/-- A row of a picture lights columns 3 to 28 only, and rows 5 to 26 only light any. -/
def Framed (v : ℕ) (row : BitVec 32) : Prop :=
  row.extractLsb' 0 3 = 0 ∧ row.extractLsb' 29 3 = 0 ∧ (v < 5 ∨ 26 < v → row = 0)

instance (v : ℕ) (row : BitVec 32) : Decidable (Framed v row) :=
  inferInstanceAs (Decidable (row.extractLsb' 0 3 = 0 ∧ row.extractLsb' 29 3 = 0 ∧ (v < 5 ∨ 26 < v → row = 0)))

theorem framed_pacPicture : ∀ (direction : BitVec 2) (v : Fin 32), Framed v (pacPicture direction v) := by
  decide +kernel

theorem framed_ghostPicture : ∀ v : Fin 32, Framed v (ghostPicture v) := by
  decide +kernel

theorem Framed.bounds {v u : ℕ} {row : BitVec 32} (h : Framed v row) (hlit : row.getLsbD u = true) :
    (3 ≤ u ∧ u ≤ 28) ∧ 5 ≤ v ∧ v ≤ 26 := by
  obtain ⟨hleft, hright, hout⟩ := h
  have hu : u < 32 := by
    by_contra hge
    rw [BitVec.getLsbD_of_ge _ _ (Nat.not_lt.mp hge)] at hlit
    cases hlit
  have hv : ¬(v < 5 ∨ 26 < v) := fun hv => by
    simp [hout hv] at hlit
  refine ⟨⟨?_, ?_⟩, by omega, by omega⟩
  · by_contra hlt
    have hbit := congrArg (BitVec.getLsbD · u) hleft
    simp [show u < 3 by omega, hlit] at hbit
  · by_contra hgt
    have hbit := congrArg (BitVec.getLsbD · (u - 29)) hright
    simp [show u - 29 < 3 by omega, show 29 + (u - 29) = u by omega, hlit] at hbit

namespace ColorMapper

/-- A pixel of a figure's picture, also two lines further down, is in the dark around the figure. -/
theorem around_of_offset {drawX drawY x y : BitVec 10} {u v n : ℕ} (hx : offset drawX x = u) (hy : offset drawY y = v)
    (hb : (3 ≤ u ∧ u ≤ 28) ∧ 5 ≤ v ∧ v ≤ 26) (hn : n ≤ 2) :
    Around (↑x.toNat, ↑y.toNat) drawX.toNat (drawY.toNat + n) := by
  unfold offset at hx hy
  simp only [Around]
  omega

variable {m : ColorMapper} {n : ℕ}

theorem around_of_ballLit (hsize : m.ballSize = 16) (h : OnScreen m.ballX m.ballY) (hlit : m.ballLit = true)
    (hn : n ≤ 2) : Around (↑m.ballX.toNat, ↑m.ballY.toNat) m.drawX.toNat (m.drawY.toNat + n) := by
  obtain ⟨⟨hu₀, hu₁⟩, ⟨hv₀, hv₁⟩, hbit⟩ := (ballLit_iff hsize h).mp hlit
  have hframed := framed_pacPicture m.direction ⟨(offset m.drawY m.ballY).toNat, by omega⟩
  rw [getMsbD_eq_getLsbD (by omega)] at hbit
  -- The columns count from the other side.
  obtain ⟨hcol, hrow⟩ := hframed.bounds hbit
  exact around_of_offset (Int.toNat_of_nonneg hu₀).symm (Int.toNat_of_nonneg hv₀).symm ⟨by omega, hrow⟩ hn

theorem around_of_ghostLit {g : Ghost} (hsize : m.ballSize = 16) (h : OnScreen (m.ghostx g) (m.ghosty g))
    (hlit : m.ghostLit g = true) (hn : n ≤ 2) :
    Around (↑(m.ghostx g).toNat, ↑(m.ghosty g).toNat) m.drawX.toNat (m.drawY.toNat + n) := by
  obtain ⟨⟨hu₀, -⟩, ⟨hv₀, hv₁⟩, hbit⟩ := (ghostLit_iff hsize h).mp hlit
  have hframed := framed_ghostPicture ⟨(offset m.drawY (m.ghosty g)).toNat, by omega⟩
  exact around_of_offset (Int.toNat_of_nonneg hu₀).symm (Int.toNat_of_nonneg hv₀).symm (hframed.bounds hbit) hn

end ColorMapper

/-! ### Where the figures are -/

/-- In the pen, or between it and row 5. -/
def GhostMotion.InPenArea (g : GhostMotion) : Prop :=
  (192 ≤ g.ghostXPos.toNat ∧ g.ghostXPos.toNat ≤ 224) ∧ 160 < g.ghostYPos.toNat ∧ g.ghostYPos.toNat ≤ 224

instance (g : GhostMotion) : Decidable g.InPenArea :=
  inferInstanceAs (Decidable ((192 ≤ g.ghostXPos.toNat ∧ g.ghostXPos.toNat ≤ 224) ∧
    160 < g.ghostYPos.toNat ∧ g.ghostYPos.toNat ≤ 224))

namespace Lab8
open Machine ColorMapper

variable {s : Lab8} {g : Ghost}

/-- Pac-Man is always on an open edge of the map of the level that is shown, or on a cell. -/
theorem pac_on_open_edges (h : s.Reachable) : ∃ p, s.pac.DrawnAt p ∧
    Legal cellSize (OpenEdge (getWalls s.control.level false)) Inside p := by
  cases hpre : s.control.isPre with
  | true => exact ⟨_, (ready_of_reachable h hpre).pac, show Inside (5, 5) by unfold Inside; decide⟩
  | false =>
    obtain ⟨p, hd, hp⟩ := exists_reached h hpre
    have hb := (penMap_level (level_cases s)).boundary
    rw [← walls_of_level hpre] at hb ⊢
    exact ⟨p, hd, PacMotion.legal_inside hb (hp.mono (fun _ _ h => h.1) fun _ => Reached.enterable)⟩

theorem inPenArea_of_exit {p₀ p : Place Node Dir} (h₀ : Legal cellSize PenEdge InPen p₀) (hd : (s.ghosts g).DrawnAt p)
    (hp : Legal cellSize (ExitEdge p₀) InPen p) : (s.ghosts g).InPenArea := by
  have hbelow := below_row5 h₀ hp
  have hx := hd.xPos_eq
  have hy := hd.yPos_eq
  unfold GhostMotion.InPenArea
  cases p with
  | node c hdg =>
    have hc : InPen c := hp
    simp only [pos_node, cellSize, InPen] at hc hx hy
    omega
  | edge c d k =>
    obtain ⟨hk₀, hk, he⟩ := hp
    obtain ⟨hc, hnext⟩ := he.cases h₀
    simp only [cellSize, InPen, next] at hk hc hnext
    simp only [pos_edge, point, cellSize] at hx hy hbelow
    rcases hnext with hnext | rfl
    · cases d <;> simp only [Dir.dx, Dir.dy] at hx hy hnext <;> omega
    · simp only [Dir.dx, Dir.dy] at hx hy hbelow
      omega

/-- A ghost elsewhere is on an open edge of the map of the level, or on a cell. -/
theorem ghost_on_open_edges (h : s.Reachable) (hout : ¬(s.ghosts g).InPenArea) :
    ∃ p, (s.ghosts g).DrawnAt p ∧ Legal cellSize (OpenEdge (getWalls s.control.level false)) Inside p := by
  cases hpre : s.control.isPre with
  | true =>
    have hpen := (ready_of_reachable h hpre).clean.ghosts_in_pen g
    refine absurd ?_ hout
    unfold GhostMotion.InPenArea
    omega
  | false =>
    obtain ⟨s₀, i₀, is, hsince, rfl⟩ := exists_entry h hpre
    obtain ⟨p₀, -, h₀, -, hway | hroams⟩ := hsince.ghost g
    · obtain ⟨-, p, hd, hp, -⟩ := hway
      exact absurd (inPenArea_of_exit h₀ hd hp) hout
    · obtain ⟨-, p, hd, hp⟩ := hroams
      unfold walls at hp
      rw [hpre] at hp
      exact ⟨p, hd, hp.mono (fun _ _ h => h) fun _ h => h.1⟩

theorem pos_eq_of_depicts {x y mx my : BitVec 10} {p : Place Node Dir} (hd : Depicts p x y mx my) :
    pos cellSize p = (↑x.toNat, ↑y.toNat) := Prod.ext hd.xPos_eq.symm hd.yPos_eq.symm

theorem onScreen_of_legal {w : Walls} {x y mx my : BitVec 10} {p : Place Node Dir} (hb : BoundaryClosed w)
    (hd : Depicts p x y mx my) (hp : Legal cellSize (OpenEdge w) Inside p) : OnScreen x y := by
  obtain ⟨hx, hy⟩ := hd.bounds_inside hp fun c d h => ⟨h.inside hb, (openEdge_undirected w c d h).inside hb⟩
  exact ⟨hx, hy⟩

variable {keycode : BitVec 16} {drawX drawY : BitVec 10}

theorem lineShift_le (level : BitVec 2) : lineShift level ≤ 2 := by
  unfold lineShift
  split <;> decide

theorem not_wallLit_of_dark (h : pictured s.control.level drawX.toNat (drawY.toNat + lineShift s.control.level) = false) :
    (s.colorInstance keycode drawX drawY).wallLit = false := by
  rw [← Bool.not_eq_true, wallLit_iff (m := s.colorInstance keycode drawX drawY) (level_cases s)]
  rintro ⟨-, hlit⟩
  change pictured s.control.level drawX.toNat (drawY.toNat + lineShift s.control.level) = true at hlit
  rw [h] at hlit
  cases hlit

section Wall
variable (hwall : (s.colorInstance keycode drawX drawY).wallLit = true)
include hwall

theorem not_dark_of_wallLit :
    pictured s.control.level drawX.toNat (drawY.toNat + lineShift s.control.level) ≠ false := by
  intro hdark
  rw [not_wallLit_of_dark hdark] at hwall
  cases hwall

theorem not_ballLit_of_wallLit (h : s.Reachable) : (s.colorInstance keycode drawX drawY).ballLit = false := by
  have hlevel := level_cases s
  obtain ⟨p, hd, hp⟩ := pac_on_open_edges h
  refine Bool.eq_false_iff.mpr fun hball => not_dark_of_wallLit hwall (dark_around hlevel hp ?_)
  rw [pos_eq_of_depicts hd]
  exact around_of_ballLit (m := s.colorInstance keycode drawX drawY) rfl
    (onScreen_of_legal (penMap_level hlevel).boundary hd hp) hball (lineShift_le _)

theorem not_dotLit_of_wallLit : (s.colorInstance keycode drawX drawY).dotLit = false := by
  refine Bool.eq_false_iff.mpr fun hdot => not_dark_of_wallLit hwall ?_
  have hshift := lineShift_le s.control.level
  obtain ⟨c, r, ⟨h₁, h₂, h₃, h₄⟩, -, hcol, hrow, -, -⟩ := dotLit_iff.mp hdot
  change (1 : ℤ) = drawX.toNat - (32 * c - 2) at hcol
  change (3 : ℤ) = drawY.toNat - (32 * r - 2) at hrow
  refine pictured_cell (c := (c, r)) (level_cases s) ?_ ?_
  · unfold Inside
    omega
  · unfold CellPixel
    dsimp only
    omega

theorem not_ghostLit_of_wallLit {p : Place Node Dir} (hd : (s.ghosts g).DrawnAt p)
    (hp : Legal cellSize (OpenEdge (getWalls s.control.level false)) Inside p) :
    (s.colorInstance keycode drawX drawY).ghostLit g = false := by
  have hlevel := level_cases s
  refine Bool.eq_false_iff.mpr fun hghost => not_dark_of_wallLit hwall (dark_around hlevel hp ?_)
  rw [pos_eq_of_depicts hd]
  exact around_of_ghostLit (m := s.colorInstance keycode drawX drawY) rfl
    (onScreen_of_legal (penMap_level hlevel).boundary hd hp) hghost (lineShift_le _)

/-- Where no ghost is in the way the wall is seen. -/
theorem color_of_wallLit (h : s.Reachable) (hghost : ∀ g, (s.colorInstance keycode drawX drawY).ghostLit g = false) :
    (s.colorInstance keycode drawX drawY).color = { red := 0x00, green := 0x00, blue := 0xff } := by
  simp [color, not_ballLit_of_wallLit hwall h, hghost, not_dotLit_of_wallLit hwall, hwall]

end Wall

/-- Nothing is drawn on a wall. In every state that runs reach, at every pixel of a wall that is lit neither
    Pac-Man is drawn nor a dot, nor a ghost but those in the pen and on their way out of it; so unless one of
    these ghosts is drawn there, the pixel is blue. -/
theorem walls_stay_visible (s : Lab8) (h : s.Reachable) (keycode : BitVec 16) (drawX drawY : BitVec 10) :
    let m := s.colorInstance keycode drawX drawY
    m.wallLit = true → m.ballLit = false ∧ m.dotLit = false ∧
      (∀ g, ¬(s.ghosts g).InPenArea → m.ghostLit g = false) ∧
      ((∀ g, (s.ghosts g).InPenArea → m.ghostLit g = false) → m.color = { red := 0x00, green := 0x00, blue := 0xff }) := by
  intro m hwall
  have hghost : ∀ g, ¬(s.ghosts g).InPenArea → m.ghostLit g = false := by
    intro g hout
    obtain ⟨p, hd, hp⟩ := ghost_on_open_edges h hout
    exact not_ghostLit_of_wallLit hwall hd hp
  refine ⟨not_ballLit_of_wallLit hwall h, not_dotLit_of_wallLit hwall, hghost, fun hpen => ?_⟩
  refine color_of_wallLit hwall h fun g => ?_
  by_cases hg : (s.ghosts g).InPenArea
  · exact hpen g hg
  · exact hghost g hg

/-- A wall pixel at the start of the game. -/
theorem walls_stay_visible_start :
    (reset.colorInstance 0 144 160).color = { red := 0x00, green := 0x00, blue := 0xff } :=
  (walls_stay_visible reset Reachable.refl 0 144 160 (by decide +kernel)).2.2.2
    fun g _ => by cases g <;> decide +kernel

end Lab8

end Pacman
