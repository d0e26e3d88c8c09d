import Pacman.PacMotion
import Pacman.Theorems.Walls

/-! How the registers of a mover depict a walker on the maze: cells are 32 pixels apart, a position is
    the walker's point, and the motion words are its heading in two's complement. Pac-Man and the ghosts
    share all of this. -/

namespace Pacman
open Bits Lattice Walker

def cellSize : ℕ := 32

def word (z : ℤ) : BitVec 10 := BitVec.ofInt 10 z

/-- The motion words of a heading: one pixel along its direction, or none. -/
def headingMotion (h : Option Dir) : Motion := { x := word (stepX h), y := word (stepY h) }

/-- The registers of a mover depict a place of a walker. -/
structure Depicts (p : Place Node Dir) (xPos yPos xMotion yMotion : BitVec 10) : Prop where
  xPos_eq : (xPos.toNat : ℤ) = (pos cellSize p).1
  yPos_eq : (yPos.toNat : ℤ) = (pos cellSize p).2
  xMotion_eq : xMotion = word (stepX p.heading)
  yMotion_eq : yMotion = word (stepY p.heading)

/-- The registers of a mover that stands at an intersection, or strictly inside an edge of `E` and moves along
    it. -/
def Travels (E : Node → Dir → Prop) (xPos yPos xMotion yMotion : BitVec 10) : Prop :=
  (32 ∣ xPos.toNat ∧ 32 ∣ yPos.toNat) ∨
    ∃ c d k, 0 < k ∧ k < 32 ∧ E c d ∧ (xPos.toNat : ℤ) = 32 * c.1 + k * d.dx ∧
      (yPos.toNat : ℤ) = 32 * c.2 + k * d.dy ∧ xMotion = word d.dx ∧ yMotion = word d.dy

/-! ### Bit tests -/

/-- The tests of the five low bits find the multiples of 32. -/
theorem low_bits_eq (v : BitVec 10) :
    (!(v.getLsbD 0 || v.getLsbD 1 || v.getLsbD 2 || v.getLsbD 3 || v.getLsbD 4)) =
      decide (v.toNat % 32 = 0) := by
  have h := low_bits_clear_iff (v := v) (k := 5)
  rw [Bool.eq_iff_iff, decide_eq_true_iff]
  refine Iff.trans ?_ h
  constructor
  · intro hb i hi
    simp only [Bool.not_eq_true', Bool.or_eq_false_iff] at hb
    obtain ⟨⟨⟨⟨h0, h1⟩, h2⟩, h3⟩, h4⟩ := hb
    interval_cases i <;> assumption
  · intro hb
    simp only [Bool.not_eq_true', Bool.or_eq_false_iff]
    exact ⟨⟨⟨⟨hb 0 (by omega), hb 1 (by omega)⟩, hb 2 (by omega)⟩, hb 3 (by omega)⟩, hb 4 (by omega)⟩

theorem high_bits_eq (v : BitVec 10) : v.extractLsb' 5 5 = BitVec.ofNat 5 (v.toNat / 32) := by
  have hlt := v.isLt
  rw [← BitVec.toNat_inj, toNat_high_bits rfl, BitVec.toNat_ofNat]
  omega

theorem toInt_word {z : ℤ} (h : -1 ≤ z ∧ z ≤ 1) : (word z).toInt = z := by
  obtain ⟨h₁, h₂⟩ := h
  interval_cases z <;> decide

theorem word_unit_ne_zero (d : Dir) : ¬(word d.dx = 0 ∧ word d.dy = 0) := by cases d <;> decide

theorem stepX_bounds (h : Option Dir) : -1 ≤ stepX h ∧ stepX h ≤ 1 := by
  cases h with
  | none => simp
  | some d => cases d <;> decide

theorem stepY_bounds (h : Option Dir) : -1 ≤ stepY h ∧ stepY h ≤ 1 := by
  cases h with
  | none => simp
  | some d => cases d <;> decide

/-! ### The field and the band -/

def FieldEdge (c : Node) (d : Dir) : Prop := InField c ∧ InField (next c d)

theorem closed_field : Closed grid FieldEdge InField where
  back h := ⟨h.2, by simpa using h.1⟩
  arrive h := h.2

theorem pos_field {p : Place Node Dir} (h : Legal cellSize FieldEdge InField p) :
    (0 ≤ (pos cellSize p).1 ∧ (pos cellSize p).1 < 1024) ∧ (0 ≤ (pos cellSize p).2 ∧ (pos cellSize p).2 < 1024) := by
  cases p with
  | node c hd =>
    have hc : InField c := h
    simp only [pos_node, cellSize, InField] at hc ⊢
    omega
  | edge c d k =>
    obtain ⟨h0, hk, hc, hn⟩ := h
    simp only [cellSize, InField, next] at hk hc hn
    cases d <;> simp only [pos_edge, point, cellSize, Dir.dx, Dir.dy] at hn ⊢ <;> omega

def BandEdge (c : Node) (d : Dir) : Prop := InBand c ∧ InBand (next c d)

theorem closed_band : Closed grid BandEdge InBand where
  back h := ⟨h.2, by simpa using h.1⟩
  arrive h := h.2

theorem BandEdge.fieldEdge {c : Node} {d : Dir} (h : BandEdge c d) : FieldEdge c d :=
  ⟨h.1.inField, h.2.inField⟩

theorem OpenEdge.bandEdge {w : Walls} {c : Node} {d : Dir} (h : OpenEdge w c d) : BandEdge c d :=
  ⟨h.inBand, (openEdge_undirected w c d h).inBand⟩

/-- A walker in the band is drawn with coordinates of at most 416 = 13 * 32, one of them a multiple
    of 32. -/
theorem pos_band {p : Place Node Dir} (h : Legal cellSize BandEdge InBand p) :
    (0 ≤ (pos cellSize p).1 ∧ (pos cellSize p).1 ≤ 416) ∧ (0 ≤ (pos cellSize p).2 ∧ (pos cellSize p).2 ≤ 416) ∧
      (32 ∣ (pos cellSize p).1 ∨ 32 ∣ (pos cellSize p).2) := by
  cases p with
  | node c hd =>
    have hc : InBand c := h
    simp only [pos_node, cellSize, InBand] at hc ⊢
    omega
  | edge c d k =>
    obtain ⟨h0, hk, hc, hn⟩ := h
    simp only [cellSize, InBand, next] at hk hc hn
    cases d <;> simp only [pos_edge, point, cellSize, Dir.dx, Dir.dy] at hn ⊢ <;> omega

theorem pos_inside {p : Place Node Dir} {E : Node → Dir → Prop} (h : Legal cellSize E Inside p)
    (hE : ∀ c d, E c d → Inside c ∧ Inside (next c d)) :
    (32 ≤ (pos cellSize p).1 ∧ (pos cellSize p).1 ≤ 384) ∧
      (32 ≤ (pos cellSize p).2 ∧ (pos cellSize p).2 ≤ 384) := by
  cases p with
  | node c hd =>
    have hc : Inside c := h
    simp only [pos_node, cellSize, Inside] at hc ⊢
    omega
  | edge c d k =>
    obtain ⟨h0, hk, he⟩ := h
    obtain ⟨hc, hn⟩ := hE c d he
    simp only [cellSize, Inside, next] at hk hc hn
    cases d <;> simp only [pos_edge, point, cellSize, Dir.dx, Dir.dy] at hn ⊢ <;> omega

namespace Depicts
variable {p : Place Node Dir} {xPos yPos xMotion yMotion : BitVec 10}

theorem cell {c : Node} {h : Option Dir} (hd : Depicts (.node c h) xPos yPos xMotion yMotion) :
    xPos.extractLsb' 5 5 = BitVec.ofNat 5 c.1.toNat ∧ yPos.extractLsb' 5 5 = BitVec.ofNat 5 c.2.toNat := by
  have hx := hd.xPos_eq
  have hy := hd.yPos_eq
  simp only [pos_node, cellSize] at hx hy
  rw [high_bits_eq, high_bits_eq]
  exact ⟨congrArg _ (by omega), congrArg _ (by omega)⟩

theorem on_node {c : Node} {h : Option Dir} (hd : Depicts (.node c h) xPos yPos xMotion yMotion) :
    xPos.toNat % 32 = 0 ∧ yPos.toNat % 32 = 0 := by
  have hx := hd.xPos_eq
  have hy := hd.yPos_eq
  simp only [pos_node, cellSize] at hx hy
  omega

theorem off_node {c : Node} {d : Dir} {k : ℕ} (hd : Depicts (.edge c d k) xPos yPos xMotion yMotion)
    (h0 : 0 < k) (hk : k < cellSize) : ¬(xPos.toNat % 32 = 0 ∧ yPos.toNat % 32 = 0) := by
  have hx := hd.xPos_eq
  have hy := hd.yPos_eq
  simp only [cellSize] at hk
  cases d <;> simp only [pos_edge, point, cellSize, Dir.dx, Dir.dy] at hx hy <;> omega

theorem travels {E : Node → Dir → Prop} {good : Node → Prop} (hd : Depicts p xPos yPos xMotion yMotion)
    (hp : Legal cellSize E good p) : Travels E xPos yPos xMotion yMotion := by
  cases p with
  | node c h =>
    obtain ⟨h₁, h₂⟩ := hd.on_node
    exact Or.inl ⟨Nat.dvd_of_mod_eq_zero h₁, Nat.dvd_of_mod_eq_zero h₂⟩
  | edge c d k =>
    obtain ⟨h0, hk, he⟩ := hp
    exact Or.inr ⟨c, d, k, by exact_mod_cast h0, by exact_mod_cast hk, he, hd.xPos_eq, hd.yPos_eq,
      hd.xMotion_eq, hd.yMotion_eq⟩

theorem at_intersection_of_rest {E : Node → Dir → Prop} {good : Node → Prop}
    (hd : Depicts p xPos yPos xMotion yMotion) (hp : Legal cellSize E good p)
    (hrest : xMotion = 0 ∧ yMotion = 0) : 32 ∣ xPos.toNat ∧ 32 ∣ yPos.toNat := by
  rcases hd.travels hp with h | ⟨c, d, k, -, -, -, -, -, hmx, hmy⟩
  · exact h
  · exact absurd ⟨hmx.symm.trans hrest.1, hmy.symm.trans hrest.2⟩ (word_unit_ne_zero d)

theorem bounds_inside {E : Node → Dir → Prop} (hd : Depicts p xPos yPos xMotion yMotion)
    (hp : Legal cellSize E Inside p) (hE : ∀ c d, E c d → Inside c ∧ Inside (next c d)) :
    (32 ≤ xPos.toNat ∧ xPos.toNat ≤ 384) ∧ (32 ≤ yPos.toNat ∧ yPos.toNat ≤ 384) := by
  have h := pos_inside hp hE
  have hx := hd.xPos_eq
  have hy := hd.yPos_eq
  omega

/-- The registers after a frame edge depict the walker after a move when the motion words are those of
    its new heading. -/
theorem move (hd : Depicts p xPos yPos xMotion yMotion) (hp : Legal cellSize FieldEdge InField p)
    (turn : Option Dir) (reverse : Bool)
    (hp' : Legal cellSize FieldEdge InField (Walker.move grid cellSize turn reverse p)) {m n : BitVec 10}
    (hm : m = word (stepX (Walker.move grid cellSize turn reverse p).heading))
    (hn : n = word (stepY (Walker.move grid cellSize turn reverse p).heading)) :
    Depicts (Walker.move grid cellSize turn reverse p) (xPos + m) (yPos + n) m n := by
  have hpos := pos_move (n := cellSize) (by decide) hp turn reverse
  obtain ⟨⟨hx₁, hx₂⟩, hy₁, hy₂⟩ := pos_field hp'
  have hmi : m.toInt = stepX (Walker.move grid cellSize turn reverse p).heading := by
    rw [hm, toInt_word (stepX_bounds _)]
  have hni : n.toInt = stepY (Walker.move grid cellSize turn reverse p).heading := by
    rw [hn, toInt_word (stepY_bounds _)]
  rw [hpos] at hx₁ hx₂ hy₁ hy₂
  refine ⟨?_, ?_, hm, hn⟩
  · rw [toNat_add_toInt (by rw [hmi, hd.xPos_eq]; exact hx₁) (by rw [hmi, hd.xPos_eq]; exact hx₂),
      hpos, hmi, hd.xPos_eq]
  · rw [toNat_add_toInt (by rw [hni, hd.yPos_eq]; exact hy₁) (by rw [hni, hd.yPos_eq]; exact hy₂),
      hpos, hni, hd.yPos_eq]

theorem displacement {E : Node → Dir → Prop} {good : Node → Prop} {turn : Option Dir} {reverse : Bool}
    {xPos' yPos' xMotion' yMotion' : BitVec 10} (hd : Depicts p xPos yPos xMotion yMotion)
    (hd' : Depicts (Walker.move grid cellSize turn reverse p) xPos' yPos' xMotion' yMotion')
    (hp : Legal cellSize E good p) :
    (xPos'.toNat : ℤ) - xPos.toNat = stepX (Walker.move grid cellSize turn reverse p).heading ∧
      (yPos'.toNat : ℤ) - yPos.toNat = stepY (Walker.move grid cellSize turn reverse p).heading := by
  rw [hd'.xPos_eq, hd'.yPos_eq, hd.xPos_eq, hd.yPos_eq, pos_move (by decide) hp]
  simp only [add_sub_cancel_left, and_self]

theorem direction_bits (hd : Depicts p xPos yPos xMotion yMotion) :
    xMotion.getLsbD 9 = decide (p.heading = some .left) ∧
    (xMotion.getLsbD 0 && !xMotion.getLsbD 9) = decide (p.heading = some .right) ∧
    yMotion.getLsbD 9 = decide (p.heading = some .up) ∧
    (yMotion.getLsbD 0 && !yMotion.getLsbD 9) = decide (p.heading = some .down) := by
  rw [hd.xMotion_eq, hd.yMotion_eq]
  generalize p.heading = h
  cases h with
  | none => decide
  | some d => cases d <;> decide

theorem bounds_band (hd : Depicts p xPos yPos xMotion yMotion) (hp : Legal cellSize BandEdge InBand p) :
    xPos.toNat ≤ 416 ∧ yPos.toNat ≤ 416 ∧ (32 ∣ xPos.toNat ∨ 32 ∣ yPos.toNat) := by
  have h := pos_band hp
  have hx := hd.xPos_eq
  have hy := hd.yPos_eq
  omega

end Depicts

end Pacman
