import Mathlib.Data.Int.Basic
import Mathlib.Tactic.Ring
import Mathlib.Tactic.Linarith
import Pacman.Lib.Walker

/-! The square lattice as a port graph, drawn with edges of length `n`: the place of a walker becomes
    a point with integer coordinates (`y` grows downwards). A walk is a sequence of unit steps along
    allowed edges; two points on allowed edges that are less than one edge apart on both axes are
    joined by a walk of taxicab length. -/

namespace Lattice
open Walker

inductive Dir where
  | left | right | up | down
  deriving DecidableEq, Repr

namespace Dir

def dx : Dir → ℤ
  | left => -1
  | right => 1
  | up | down => 0

def dy : Dir → ℤ
  | up => -1
  | down => 1
  | left | right => 0

def back : Dir → Dir
  | left => right
  | right => left
  | up => down
  | down => up

@[simp] theorem back_back (d : Dir) : d.back.back = d := by cases d <;> rfl

theorem ne_back (d : Dir) : d ≠ d.back := by cases d <;> decide

theorem eq_of_step {d e : Dir} (hx : d.dx = e.dx) (hy : d.dy = e.dy) : d = e := by
  cases d <;> cases e <;>
    first | rfl | exact absurd hx (by decide) | exact absurd hy (by decide)

@[simp] theorem dx_back (d : Dir) : d.back.dx = -d.dx := by cases d <;> rfl

@[simp] theorem dy_back (d : Dir) : d.back.dy = -d.dy := by cases d <;> rfl

end Dir

abbrev Node := ℤ × ℤ

def next (c : Node) (d : Dir) : Node := (c.1 + d.dx, c.2 + d.dy)

@[simp] theorem next_fst (c : Node) (d : Dir) : (next c d).1 = c.1 + d.dx := rfl

@[simp] theorem next_snd (c : Node) (d : Dir) : (next c d).2 = c.2 + d.dy := rfl

@[simp] theorem next_back (c : Node) (d : Dir) : next (next c d) d.back = c := by
  ext <;> simp

def grid : PortGraph Node Dir where
  next := next
  back := Dir.back
  back_back := Dir.back_back
  next_back := next_back

@[simp] theorem grid_next (c : Node) (d : Dir) : grid.next c d = next c d := rfl

@[simp] theorem grid_back (d : Dir) : grid.back d = d.back := rfl

/-- The nodes of a chess board. -/
def shade (c : Node) : Bool := decide ((c.1 + c.2) % 2 = 1)

theorem shade_next (c : Node) (d : Dir) : shade (grid.next c d) = !shade c := by
  rw [shade, shade, ← decide_not, decide_eq_decide, grid_next, next_fst, next_snd]
  cases d <;> simp only [Dir.dx, Dir.dy] <;> omega

/-! ### Points -/

/-- The point `k` units out of node `c` in direction `d`. -/
def point (n : ℕ) (c : Node) (d : Dir) (k : ℤ) : ℤ × ℤ := (n * c.1 + k * d.dx, n * c.2 + k * d.dy)

/-- Where a walker is drawn. -/
def pos (n : ℕ) : Place Node Dir → ℤ × ℤ
  | .node c _ => (n * c.1, n * c.2)
  | .edge c d k => point n c d k

/-- The displacement of one move with the given heading. -/
def stepX (h : Option Dir) : ℤ := h.elim 0 Dir.dx

def stepY (h : Option Dir) : ℤ := h.elim 0 Dir.dy

@[simp] theorem stepX_none : stepX none = 0 := rfl

@[simp] theorem stepX_some (d : Dir) : stepX (some d) = d.dx := rfl

@[simp] theorem stepY_none : stepY none = 0 := rfl

@[simp] theorem stepY_some (d : Dir) : stepY (some d) = d.dy := rfl

theorem step_length (d : Dir) : d.dx.natAbs + d.dy.natAbs = 1 := by cases d <;> rfl

theorem step_length_le (h : Option Dir) : (stepX h).natAbs + (stepY h).natAbs ≤ 1 := by
  cases h with
  | none => simp
  | some d => exact (step_length d).le

/-- How far it is from a point to the side of the box from 0 to `m` that lies in a direction. -/
def room (m : ℤ) (q : ℤ × ℤ) : Dir → ℤ
  | .left => q.1
  | .right => m - q.1
  | .up => q.2
  | .down => m - q.2

theorem room_step (m : ℤ) (q : ℤ × ℤ) (d : Dir) : room m (q.1 + d.dx, q.2 + d.dy) d + 1 = room m q d := by
  cases d <;> simp only [room, Dir.dx, Dir.dy] <;> ring

section Pos
variable {n : ℕ}

@[simp] theorem pos_node (c : Node) (h : Option Dir) : pos n (.node c h) = (n * c.1, n * c.2) := rfl

@[simp] theorem pos_edge (c : Node) (d : Dir) (k : ℕ) : pos n (.edge c d k) = point n c d k := rfl

theorem point_end (c : Node) (d : Dir) : point n c d n = (n * (next c d).1, n * (next c d).2) := by
  simp only [point, next_fst, next_snd, mul_add]

theorem point_back (c : Node) (d : Dir) (k : ℤ) : point n (next c d) d.back (n - k) = point n c d k := by
  simp only [point, next_fst, next_snd, Dir.dx_back, Dir.dy_back]
  ext <;> ring

theorem pos_advance {c : Node} {d : Dir} {k : ℕ} (hk : k < n) :
    pos n (advance grid n c d k) = point n c d (k + 1) := by
  unfold advance
  split
  next => simp
  next hend =>
    have hn : (n : ℤ) = k + 1 := by omega
    rw [pos_node, grid_next, ← point_end, hn]

theorem pos_move {E : Node → Dir → Prop} {good : Node → Prop} {p : Place Node Dir} (hn : 0 < n)
    (h : Legal n E good p) (turn : Option Dir) (reverse : Bool) :
    pos n (move grid n turn reverse p) =
      ((pos n p).1 + stepX (move grid n turn reverse p).heading,
        (pos n p).2 + stepY (move grid n turn reverse p).heading) := by
  cases p with
  | node c hd =>
    cases turn with
    | none => simp
    | some d => simp [pos_advance hn, point]
  | edge c d k =>
    obtain ⟨h0, hk, -⟩ := h
    cases reverse with
    | false =>
      rw [move_on, pos_advance hk, heading_advance, pos_edge]
      simp only [point, stepX_some, stepY_some]
      ext <;> ring
    | true =>
      have hcast : ((n - k : ℕ) : ℤ) = n - k := by omega
      rw [move_back, pos_advance (by omega), heading_advance, pos_edge, hcast, ← point_back c d k]
      simp only [point, stepX_some, stepY_some, grid_next, grid_back]
      ext <;> ring

end Pos

/-! ### Points on allowed edges -/

/-- A node of `good`, or a point strictly inside an edge of `E`. -/
def OnTrack (n : ℕ) (E : Node → Dir → Prop) (good : Node → Prop) (p : ℤ × ℤ) : Prop :=
  ∃ w, Legal n E good w ∧ pos n w = p

/-- The allowed edges form an undirected graph. -/
def Undirected (E : Node → Dir → Prop) : Prop := ∀ c d, E c d → E (next c d) d.back

section Track
variable {n : ℕ} {E : Node → Dir → Prop} {good : Node → Prop} {p q : ℤ × ℤ}

/-- A point on the track is a node, or inside an edge to the right, or inside an edge down. -/
theorem OnTrack.cases (hE : Undirected E) (h : OnTrack n E good p) :
    (∃ c, good c ∧ p = (n * c.1, n * c.2)) ∨
    (∃ c, E c .right ∧ p.2 = n * c.2 ∧ n * c.1 < p.1 ∧ p.1 < n * (c.1 + 1)) ∨
    (∃ c, E c .down ∧ p.1 = n * c.1 ∧ n * c.2 < p.2 ∧ p.2 < n * (c.2 + 1)) := by
  obtain ⟨w, hw, rfl⟩ := h
  cases w with
  | node c hd => exact Or.inl ⟨c, hw, rfl⟩
  | edge c d k =>
    obtain ⟨h0, hk, he⟩ := hw
    cases d with
    | right =>
      refine Or.inr (Or.inl ⟨c, he, ?_⟩)
      simp only [pos_edge, point, Dir.dx, Dir.dy, mul_add]
      omega
    | left =>
      refine Or.inr (Or.inl ⟨next c .left, hE c _ he, ?_⟩)
      simp only [pos_edge, point, next, Dir.dx, Dir.dy, mul_add]
      omega
    | down =>
      refine Or.inr (Or.inr ⟨c, he, ?_⟩)
      simp only [pos_edge, point, Dir.dx, Dir.dy, mul_add]
      omega
    | up =>
      refine Or.inr (Or.inr ⟨next c .up, hE c _ he, ?_⟩)
      simp only [pos_edge, point, next, Dir.dx, Dir.dy, mul_add]
      omega

/-! ### Walks -/

/-- `Walk n E p q m`: `m` unit steps along allowed edges lead from `p` to `q`. -/
inductive Walk (n : ℕ) (E : Node → Dir → Prop) : ℤ × ℤ → ℤ × ℤ → ℕ → Prop where
  | refl (p : ℤ × ℤ) : Walk n E p p 0
  | step {c : Node} {d : Dir} {k : ℕ} {q : ℤ × ℤ} {m : ℕ} (allowed : E c d) (inside : k < n)
      (rest : Walk n E (point n c d (k + 1)) q m) : Walk n E (point n c d k) q (m + 1)

namespace Walk

theorem trans {r : ℤ × ℤ} {a b : ℕ} (h₁ : Walk n E p q a) (h₂ : Walk n E q r b) : Walk n E p r (a + b) := by
  induction h₁ with
  | refl => simpa using h₂
  | step he hk _ ih =>
    rw [Nat.add_right_comm]
    exact .step he hk (ih h₂)

theorem symm (hE : Undirected E) {m : ℕ} (h : Walk n E p q m) : Walk n E q p m := by
  induction h with
  | refl => exact .refl _
  | @step c d k q m he hk _ ih =>
    -- The step back starts `n - (k + 1)` units out of the other end of the edge.
    have hback : Walk n E (point n c d (k + 1)) (point n c d k) 1 := by
      have hstart := point_back (n := n) c d (k + 1)
      have hend := point_back (n := n) c d k
      have hcast : ((n - (k + 1) : ℕ) : ℤ) = n - (k + 1) := by omega
      rw [← hstart, ← hend, ← hcast, show (n - k : ℤ) = ((n - (k + 1) : ℕ) : ℤ) + 1 by omega]
      exact .step (hE c d he) (by omega) (.refl _)
    exact ih.trans hback

/-- A straight walk to the right, along edges that are allowed as far as it uses them. -/
theorem right {r : ℤ} : ∀ {m : ℕ} {x : ℤ},
    (∀ c, n * c < x + m → x < n * (c + 1) → E (c, r) .right) → 0 < n →
      Walk n E (x, n * r) (x + m, n * r) m
  | 0, x, _, _ => by simpa using Walk.refl (x, (n : ℤ) * r)
  | m + 1, x, h, hn => by
    have hn' : (0 : ℤ) < n := by exact_mod_cast hn
    have hdiv := Int.mul_ediv_add_emod x n
    have hlo := Int.emod_nonneg x hn'.ne'
    have hhi := Int.emod_lt_of_pos x hn'
    have he : E (x / n, r) .right := h _ (by push_cast; omega) (by rw [mul_add]; omega)
    obtain ⟨k, hk⟩ : ∃ k : ℕ, (k : ℤ) = x % n := ⟨(x % n).toNat, by omega⟩
    have hfrom : point n (x / n, r) .right k = (x, n * r) := by
      ext <;> simp only [point, Dir.dx, Dir.dy] <;> omega
    have hto : point n (x / n, r) .right (k + 1) = (x + 1, n * r) := by
      ext <;> simp only [point, Dir.dx, Dir.dy] <;> omega
    have rest := right (m := m) (x := x + 1) (fun c h₁ h₂ => h c (by push_cast; omega) (by omega)) hn
    have hsum : x + 1 + (m : ℤ) = x + ((m + 1 : ℕ) : ℤ) := by push_cast; ring
    rw [← hfrom]
    refine .step he (by omega) ?_
    rw [hto, ← hsum]
    exact rest

theorem down {c : ℤ} : ∀ {m : ℕ} {y : ℤ},
    (∀ r, n * r < y + m → y < n * (r + 1) → E (c, r) .down) → 0 < n →
      Walk n E (n * c, y) (n * c, y + m) m
  | 0, y, _, _ => by simpa using Walk.refl ((n : ℤ) * c, y)
  | m + 1, y, h, hn => by
    have hn' : (0 : ℤ) < n := by exact_mod_cast hn
    have hdiv := Int.mul_ediv_add_emod y n
    have hlo := Int.emod_nonneg y hn'.ne'
    have hhi := Int.emod_lt_of_pos y hn'
    have he : E (c, y / n) .down := h _ (by push_cast; omega) (by rw [mul_add]; omega)
    obtain ⟨k, hk⟩ : ∃ k : ℕ, (k : ℤ) = y % n := ⟨(y % n).toNat, by omega⟩
    have hfrom : point n (c, y / n) .down k = (n * c, y) := by
      ext <;> simp only [point, Dir.dx, Dir.dy] <;> omega
    have hto : point n (c, y / n) .down (k + 1) = (n * c, y + 1) := by
      ext <;> simp only [point, Dir.dx, Dir.dy] <;> omega
    have rest := down (m := m) (y := y + 1) (fun r h₁ h₂ => h r (by push_cast; omega) (by omega)) hn
    have hsum : y + 1 + (m : ℤ) = y + ((m + 1 : ℕ) : ℤ) := by push_cast; ring
    rw [← hfrom]
    refine .step he (by omega) ?_
    rw [hto, ← hsum]
    exact rest

end Walk

end Track

end Lattice
