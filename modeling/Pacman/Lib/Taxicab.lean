import Pacman.Lib.Lattice

/-! Two points on the track that are less than one edge apart on both axes are joined by a walk along
    allowed edges whose length is their taxicab distance. -/

namespace Lattice
open Walker

variable {n : ℕ} {E : Node → Dir → Prop} {good : Node → Prop} {p q : ℤ × ℤ}

theorem natAbs_sub_comm (a b : ℤ) : (a - b).natAbs = (b - a).natAbs := by omega

theorem not_between {a b : ℤ} (hn : 0 < n) (h₁ : n * a < n * b) (h₂ : n * b < n * (a + 1)) : False := by
  have hn' : (0 : ℤ) < n := by exact_mod_cast hn
  have := lt_of_mul_lt_mul_left h₁ hn'.le
  have := lt_of_mul_lt_mul_left h₂ hn'.le
  omega

theorem eq_of_between {a b x : ℤ} (hn : 0 < n) (h₁ : n * a < x) (h₂ : x < n * (a + 1)) (h₃ : n * b < x)
    (h₄ : x < n * (b + 1)) : a = b := by
  have hn' : (0 : ℤ) < n := by exact_mod_cast hn
  have := lt_of_mul_lt_mul_left (h₁.trans h₄) hn'.le
  have := lt_of_mul_lt_mul_left (h₃.trans h₂) hn'.le
  omega

theorem eq_of_mul_near {a b : ℤ} (hn : 0 < n) (h : ((n * a - n * b : ℤ)).natAbs < n) : a = b := by
  have hn' : (0 : ℤ) < n := by exact_mod_cast hn
  rw [← mul_sub, Int.natAbs_mul, Int.natAbs_natCast] at h
  have : (a - b).natAbs < 1 := by
    by_contra hge
    exact absurd h (not_lt.mpr (Nat.le_mul_of_pos_right n (by omega)))
  omega

/-- `p` lies on row `r`, and the edge of the row that it is inside of, if any, is allowed. -/
structure RowOpen (n : ℕ) (E : Node → Dir → Prop) (p : ℤ × ℤ) (r : ℤ) : Prop where
  row : p.2 = n * r
  inside : ∀ c, n * c < p.1 → p.1 < n * (c + 1) → E (c, r) .right

/-- `p` lies on column `c`, and the edge of the column that it is inside of, if any, is allowed. -/
structure ColumnOpen (n : ℕ) (E : Node → Dir → Prop) (p : ℤ × ℤ) (c : ℤ) : Prop where
  column : p.1 = n * c
  inside : ∀ r, n * r < p.2 → p.2 < n * (r + 1) → E (c, r) .down

theorem rowOpen_node (hn : 0 < n) (c r : ℤ) : RowOpen n E (n * c, n * r) r :=
  ⟨rfl, fun _ h₁ h₂ => (not_between hn h₁ h₂).elim⟩

theorem columnOpen_node (hn : 0 < n) (c r : ℤ) : ColumnOpen n E (n * c, n * r) c :=
  ⟨rfl, fun _ h₁ h₂ => (not_between hn h₁ h₂).elim⟩

theorem OnTrack.open_line (hE : Undirected E) (hn : 0 < n) (h : OnTrack n E good p) :
    (∃ r, RowOpen n E p r) ∨ ∃ c, ColumnOpen n E p c := by
  rcases h.cases hE with ⟨c, -, rfl⟩ | ⟨c, he, hrow, hlo, hhi⟩ | ⟨c, he, hcol, hlo, hhi⟩
  · exact Or.inl ⟨c.2, rowOpen_node hn c.1 c.2⟩
  · refine Or.inl ⟨c.2, hrow, fun c' h₁ h₂ => ?_⟩
    obtain rfl := eq_of_between hn hlo hhi h₁ h₂
    exact he
  · refine Or.inr ⟨c.1, hcol, fun r' h₁ h₂ => ?_⟩
    obtain rfl := eq_of_between hn hlo hhi h₁ h₂
    exact he

/-- The edges between two points of a row that are less than an edge apart: each has one of the points
    inside. -/
theorem RowOpen.walk (hE : Undirected E) (hn : 0 < n) {r : ℤ} (hp : RowOpen n E p r) (hq : RowOpen n E q r)
    (hx : (p.1 - q.1).natAbs < n) : Walk n E p q (p.1 - q.1).natAbs := by
  wlog hle : p.1 ≤ q.1 generalizing p q
  · rw [natAbs_sub_comm] at hx ⊢
    exact (this hq hp hx (le_of_not_ge hle)).symm hE
  obtain ⟨m, hm⟩ : ∃ m : ℕ, q.1 = p.1 + m := ⟨(q.1 - p.1).toNat, by omega⟩
  have hwalk : Walk n E (p.1, n * r) (p.1 + m, n * r) m := by
    refine Walk.right (fun c h₁ h₂ => ?_) hn
    rw [← hm] at h₁
    rcases lt_or_ge (n * c) p.1 with hin | hout
    · exact hp.inside c hin h₂
    · refine hq.inside c h₁ ?_
      rw [mul_add] at h₂ ⊢
      omega
  have hlen : (p.1 - q.1).natAbs = m := by omega
  rwa [← hm, ← hp.row, show (p.1, p.2) = p from rfl, hp.row, ← hq.row, show (q.1, q.2) = q from rfl,
    ← hlen] at hwalk

theorem ColumnOpen.walk (hE : Undirected E) (hn : 0 < n) {c : ℤ} (hp : ColumnOpen n E p c)
    (hq : ColumnOpen n E q c) (hy : (p.2 - q.2).natAbs < n) : Walk n E p q (p.2 - q.2).natAbs := by
  wlog hle : p.2 ≤ q.2 generalizing p q
  · rw [natAbs_sub_comm] at hy ⊢
    exact (this hq hp hy (le_of_not_ge hle)).symm hE
  obtain ⟨m, hm⟩ : ∃ m : ℕ, q.2 = p.2 + m := ⟨(q.2 - p.2).toNat, by omega⟩
  have hwalk : Walk n E (n * c, p.2) (n * c, p.2 + m) m := by
    refine Walk.down (fun r h₁ h₂ => ?_) hn
    rw [← hm] at h₁
    rcases lt_or_ge (n * r) p.2 with hin | hout
    · exact hp.inside r hin h₂
    · refine hq.inside r h₁ ?_
      rw [mul_add] at h₂ ⊢
      omega
  have hlen : (p.2 - q.2).natAbs = m := by omega
  have hp' : (n * c, p.2) = p := Prod.ext hp.column.symm rfl
  have hq' : (n * c, q.2) = q := Prod.ext hq.column.symm rfl
  rwa [← hm, hp', hq', ← hlen] at hwalk

/-- An L-shaped walk: along the row of `p` to the column of `q`, then along that column. -/
theorem walk_corner (hE : Undirected E) (hn : 0 < n) {r c : ℤ} (hp : RowOpen n E p r)
    (hq : ColumnOpen n E q c) (hx : (p.1 - q.1).natAbs < n) (hy : (p.2 - q.2).natAbs < n) :
    Walk n E p q ((p.1 - q.1).natAbs + (p.2 - q.2).natAbs) := by
  have h₁ := hp.walk hE hn (q := (n * c, n * r)) (rowOpen_node hn c r) (by simpa [← hq.column] using hx)
  have h₂ := (columnOpen_node (E := E) hn c r).walk hE hn hq (by simpa [← hp.row] using hy)
  simpa [← hq.column, ← hp.row] using h₁.trans h₂

theorem exists_walk (hE : Undirected E) (hn : 0 < n) (hp : OnTrack n E good p) (hq : OnTrack n E good q)
    (hx : (p.1 - q.1).natAbs < n) (hy : (p.2 - q.2).natAbs < n) :
    Walk n E p q ((p.1 - q.1).natAbs + (p.2 - q.2).natAbs) := by
  rcases hp.open_line hE hn with ⟨r, hp⟩ | ⟨c, hp⟩ <;> rcases hq.open_line hE hn with ⟨r', hq⟩ | ⟨c', hq⟩
  · obtain rfl : r = r' := eq_of_mul_near hn (by rw [← hp.row, ← hq.row]; exact hy)
    simpa [hp.row, hq.row] using hp.walk hE hn hq hx
  · exact walk_corner hE hn hp hq hx hy
  · rw [natAbs_sub_comm] at hx hy
    rw [natAbs_sub_comm p.1, natAbs_sub_comm p.2]
    exact (walk_corner hE hn hq hp hx hy).symm hE
  · obtain rfl : c = c' := eq_of_mul_near hn (by rw [← hp.column, ← hq.column]; exact hx)
    simpa [hp.column, hq.column] using hp.walk hE hn hq hy

end Lattice
