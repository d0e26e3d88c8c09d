import Mathlib.Algebra.Ring.Parity
import Mathlib.Data.Nat.Count
import Mathlib.Tactic.Common
import Mathlib.Tactic.Ring

/-! Counters that start over, in closed form: after `n` ticks a counter of `m` values shows `n % m`, a counter
    that ticks at each wrap of it shows `n / m % k`, and a clock that toggles there is high when `n / m` is
    odd. From the closed form follow the rising edges of such a clock and what a window of ticks contains. -/

namespace Counter

variable {m k n : ℕ}

/-- The value after `c` of a counter of the values below `m`. -/
def next (m c : ℕ) : ℕ := if m ≤ c + 1 then 0 else c + 1

/-! ### Ticks -/

theorem next_mod (hm : 0 < m) (n : ℕ) : next m (n % m) = (n + 1) % m := by
  have hlt := Nat.mod_lt n hm
  rw [← Nat.mod_add_mod]
  unfold next
  split
  next h => rw [show n % m + 1 = m by omega, Nat.mod_self]
  next h => exact (Nat.mod_eq_of_lt (by omega)).symm

theorem div_succ (hm : 0 < m) (n : ℕ) : (n + 1) / m = n / m + if m ≤ n % m + 1 then 1 else 0 := by
  have hnext := next_mod hm n
  have hiff : m ∣ n + 1 ↔ m ≤ n % m + 1 := by
    rw [Nat.dvd_iff_mod_eq_zero, ← hnext, next]
    split <;> simp [*]
  simp only [Nat.succ_div, hiff]

/-- The second of two counters ticks when the first one wraps. -/
theorem next_carry (hm : 0 < m) (hk : 0 < k) (n : ℕ) :
    (if m ≤ n % m + 1 then next k (n / m % k) else n / m % k) = (n + 1) / m % k := by
  rw [div_succ hm]
  split
  · exact next_mod hk _
  · rfl

/-- Two such counters together count `m * k` ticks. -/
theorem digits_iff (hm : 0 < m) {x y : ℕ} (hx : x < m) :
    n % m = x ∧ n / m % k = y ↔ n % (m * k) = x + m * y := by
  rw [Nat.mod_mul]
  constructor
  · rintro ⟨rfl, rfl⟩
    rfl
  · intro h
    have hlow : n % m = x := by
      have := congrArg (· % m) h
      simpa [Nat.mod_eq_of_lt hx] using this
    refine ⟨hlow, ?_⟩
    rw [hlow] at h
    exact Nat.eq_of_mul_eq_mul_left hm (Nat.add_left_cancel h)

/-- A window of `m` ticks shows each value once. -/
theorem existsUnique_mod {r : ℕ} (hr : r < m) (a : ℕ) : ∃! n, (a ≤ n ∧ n < a + m) ∧ n % m = r := by
  have ha := Nat.mod_lt a (by omega : 0 < m)
  have hdiv := Nat.div_add_mod a m
  have hexists : ∃ n, (a ≤ n ∧ n < a + m) ∧ n % m = r := by
    by_cases h : a % m ≤ r
    · exact ⟨m * (a / m) + r, by omega, by rw [Nat.mul_add_mod, Nat.mod_eq_of_lt hr]⟩
    · refine ⟨m * (a / m + 1) + r, ?_, by rw [Nat.mul_add_mod, Nat.mod_eq_of_lt hr]⟩
      rw [Nat.mul_add, Nat.mul_one]
      omega
  have hle : ∀ {n n'}, n < a + m → a ≤ n' → n % m = n' % m → n ≤ n' := by
    intro n n' hn hn' h
    have hzero := Nat.sub_mod_eq_zero_of_mod_eq h
    rw [Nat.mod_eq_of_lt (by omega)] at hzero
    omega
  obtain ⟨n, ⟨h₁, h₂⟩, hn⟩ := hexists
  refine ⟨n, ⟨⟨h₁, h₂⟩, hn⟩, ?_⟩
  rintro n' ⟨⟨h₁', h₂'⟩, hn'⟩
  exact Nat.le_antisymm (hle h₂' h₁ (hn'.trans hn.symm)) (hle h₂ h₁' (hn.trans hn'.symm))

/-- A counter that keeps within `w` of its values leaves them before it has counted `w` of them. -/
theorem lt_of_stays {w y a : ℕ} (hw : w < m) (h : ∀ i ≤ n, y ≤ (a + i) % m ∧ (a + i) % m < y + w) : n < w := by
  by_contra hge
  obtain ⟨hlo, hhi⟩ := h 0 (Nat.zero_le n)
  rw [Nat.add_zero] at hlo hhi
  have ha := Nat.mod_lt a (by omega : 0 < m)
  -- The first of the other values is the one above the window, or 0 where the window is at the top.
  rcases Nat.lt_or_ge (y + w) m with htop | htop
  · have h' := h (y + w - a % m) (by omega)
    rw [← Nat.mod_add_mod, show a % m + (y + w - a % m) = y + w by omega, Nat.mod_eq_of_lt htop] at h'
    omega
  · have h' := h (m - a % m) (by omega)
    rw [← Nat.mod_add_mod, show a % m + (m - a % m) = m by omega, Nat.mod_self] at h'
    omega

/-! ### A value that is watched for `n` ticks -/

/-- The value changes once at most, to one that `R` relates to it. -/
def ChangesOnce {α : Type*} (R : α → α → Prop) (p : ℕ → α) (n : ℕ) : Prop :=
  ∃ cut ≤ n, (∀ k < cut, p k = p 0) ∧ (∀ k, cut ≤ k → k ≤ n → p k = p n) ∧ R (p 0) (p n)

section Watched
variable {α : Type*} {R : α → α → Prop} {p : ℕ → α} {a b : ℕ}

theorem eq_of_rests (h : ∀ k, a ≤ k → k < b → p (k + 1) = p k) (k : ℕ) (ha : a ≤ k) (hb : k ≤ b) : p k = p a := by
  induction k, ha using Nat.le_induction with
  | base => rfl
  | succ k ha ih => rw [h k ha (by omega), ih (by omega)]

/-- A value that rests at all ticks but those that `P` marks, of which there is one at most. -/
theorem changesOnce {P : ℕ → Prop} (hrefl : ∀ x, R x x) (hstep : ∀ k < n, R (p k) (p (k + 1)))
    (hrest : ∀ k < n, ¬P k → p (k + 1) = p k)
    (honce : ∀ k k', k < n → k' < n → P k → P k' → k = k') : ChangesOnce R p n := by
  by_cases h : ∃ c < n, P c
  · obtain ⟨c, hc, hmark⟩ := h
    have hother : ∀ k < n, k ≠ c → p (k + 1) = p k := fun k hk hne =>
      hrest k hk fun hk' => hne (honce k c hk hc hk' hmark)
    have hbefore : ∀ k ≤ c, p k = p 0 := fun k hk =>
      eq_of_rests (b := c) (fun k _ hk => hother k (by omega) (by omega)) k (Nat.zero_le k) hk
    have hafter : ∀ k, c + 1 ≤ k → k ≤ n → p k = p (c + 1) :=
      eq_of_rests fun k hk hn => hother k hn (by omega)
    refine ⟨c + 1, hc, fun k hk => hbefore k (by omega), fun k hk hn => ?_, ?_⟩
    · rw [hafter k hk hn, hafter n hc (le_refl n)]
    · rw [← hbefore c (le_refl c), hafter n hc (le_refl n)]
      exact hstep c hc
  · have hall : ∀ k, 0 ≤ k → k ≤ n → p k = p 0 :=
      eq_of_rests fun k _ hk => hrest k hk fun hmark => h ⟨k, hk, hmark⟩
    have hlast := hall n (Nat.zero_le n) (le_refl n)
    refine ⟨0, Nat.zero_le n, fun k hk => absurd hk (Nat.not_lt_zero k), fun k hk hn => ?_, ?_⟩
    · rw [hall k hk hn, hlast]
    · rw [hlast]
      exact hrefl _

end Watched

/-! ### A clock that toggles at each wrap -/

/-- The clock rises at the edge that follows `n` ticks. -/
def Rises (m n : ℕ) : Prop := n / m % 2 = 0 ∧ (n + 1) / m % 2 = 1

instance (m n : ℕ) : Decidable (Rises m n) := inferInstanceAs (Decidable (n / m % 2 = 0 ∧ (n + 1) / m % 2 = 1))

theorem toggle (hm : 0 < m) (n : ℕ) :
    (n + 1) / m % 2 = if m ≤ n % m + 1 then 1 - n / m % 2 else n / m % 2 := by
  rw [div_succ hm]
  split
  next => omega
  next => rfl

theorem rises_iff (hm : 0 < m) : Rises m n ↔ n % (m * 2) = m - 1 := by
  have hlt := Nat.mod_lt n hm
  have hdigits : n % m = m - 1 ∧ n / m % 2 = 0 ↔ n % (m * 2) = m - 1 := digits_iff hm (by omega)
  rw [← hdigits, Rises, toggle hm]
  split <;> omega

/-- The ticks from the `n`th to the next one that the clock rises after. -/
def untilRise (m n : ℕ) : ℕ := if n % (m * 2) < m then m - 1 - n % (m * 2) else m * 3 - 1 - n % (m * 2)

/-- Up to its next rise the clock does not rise. -/
theorem rises_iff_untilRise (hm : 0 < m) {d : ℕ} (hd : d ≤ untilRise m n) : Rises m (n + d) ↔ d = untilRise m n := by
  have hlt := Nat.mod_lt n (show 0 < m * 2 by omega)
  rw [rises_iff hm, ← Nat.mod_add_mod]
  unfold untilRise at hd ⊢
  split at hd
  next hlow => rw [Nat.mod_eq_of_lt (by omega), if_pos hlow]; omega
  next hhigh =>
    rw [if_neg hhigh]
    rcases Nat.lt_or_ge (n % (m * 2) + d) (m * 2) with h | h
    · rw [Nat.mod_eq_of_lt h]
      omega
    · rw [Nat.mod_eq_sub_mod h, Nat.mod_eq_of_lt (by omega)]
      omega

/-- A clock of an odd length rises at the odd multiples of it. -/
theorem rises_iff_odd (hm : Odd m) : Rises m n ↔ m ∣ n + 1 ∧ Odd (n + 1) := by
  have hpos : 0 < m := Nat.pos_of_ne_zero fun h => by simp [h] at hm
  rw [rises_iff hpos]
  constructor
  · intro h
    have hdiv := Nat.div_add_mod n (m * 2)
    rw [h] at hdiv
    have heq : n + 1 = m * (2 * (n / (m * 2)) + 1) := by
      rw [Nat.mul_add, ← Nat.mul_assoc]
      omega
    rw [heq]
    exact ⟨Dvd.intro _ rfl, hm.mul ⟨_, rfl⟩⟩
  · rintro ⟨⟨q, hq⟩, hodd⟩
    rw [hq, Nat.odd_mul] at hodd
    obtain ⟨k, rfl⟩ := hodd.2
    have heq : n = m - 1 + m * 2 * k := by
      rw [Nat.mul_add, ← Nat.mul_assoc] at hq
      omega
    rw [heq, Nat.add_mul_mod_self_left, Nat.mod_eq_of_lt (by omega)]

/-- Two clocks of coprime odd lengths rise together exactly when a clock of the product of the lengths does. -/
theorem rises_mul_iff (hm : Odd m) (hk : Odd k) (hco : Nat.Coprime m k) :
    Rises m n ∧ Rises k n ↔ Rises (m * k) n := by
  rw [rises_iff_odd hm, rises_iff_odd hk, rises_iff_odd (hm.mul hk)]
  constructor
  · rintro ⟨⟨hm', hodd⟩, hk', -⟩
    exact ⟨hco.mul_dvd_of_dvd_of_dvd hm' hk', hodd⟩
  · rintro ⟨hdvd, hodd⟩
    exact ⟨⟨(Dvd.intro k rfl).trans hdvd, hodd⟩, (Dvd.intro_left m rfl).trans hdvd, hodd⟩

theorem eq_of_rises (hm : 0 < m) {a n' : ℕ} (hn : a ≤ n ∧ n < a + m * 2) (hn' : a ≤ n' ∧ n' < a + m * 2)
    (h : Rises m n) (h' : Rises m n') : n = n' :=
  (existsUnique_mod (show m - 1 < m * 2 by omega) a).unique ⟨hn, (rises_iff hm).mp h⟩ ⟨hn', (rises_iff hm).mp h'⟩

/-- Every window of two periods of the counter has a rising edge. -/
theorem exists_rises (hm : 0 < m) (a : ℕ) : ∃ n, (a ≤ n ∧ n < a + m * 2) ∧ Rises m n := by
  obtain ⟨n, ⟨hn, hmod⟩, -⟩ := existsUnique_mod (show m - 1 < m * 2 by omega) a
  exact ⟨n, hn, (rises_iff hm).mpr hmod⟩

theorem count_rises (hm : 0 < m) : ∀ n, Nat.count (Rises m) n = (n / m + 1) / 2
  | 0 => by simp
  | n + 1 => by
    rw [Nat.count_succ, count_rises hm n, div_succ hm]
    simp only [Rises, toggle hm]
    split <;> split <;> omega

/-- `k` periods have `k` rising edges. -/
theorem count_rises_add (hm : 0 < m) (a : ℕ) : Nat.count (Rises m) (a + m * 2 * k) = Nat.count (Rises m) a + k := by
  rw [count_rises hm, count_rises hm, Nat.mul_assoc, Nat.add_mul_div_left _ _ hm]
  omega

/-- A counter of fewer values makes the faster clock. -/
theorem count_rises_le (hm : 0 < m) (h : m ≤ k) (n : ℕ) : Nat.count (Rises k) n ≤ Nat.count (Rises m) n := by
  rw [count_rises hm, count_rises (Nat.lt_of_lt_of_le hm h)]
  exact Nat.div_le_div_right (Nat.add_le_add_right (Nat.div_le_div_left h hm) 1)

end Counter
