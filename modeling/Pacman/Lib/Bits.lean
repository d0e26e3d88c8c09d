import Mathlib.Data.Int.Basic
import Mathlib.Data.List.Induction
import Mathlib.Tactic.Ring
import Mathlib.Tactic.Linarith
import Mathlib.Tactic.NormNum

/-! Bit vectors as a hardware description uses them: slices that count from the most significant bit,
    low bits that say whether a number is a multiple of a power of two, and differences of unsigned
    numbers read as two's complement. Widths are arbitrary. -/

namespace Bits

variable {w : ℕ}

/-! ### Slices -/

/-- Bits `lo..hi` of `v`, where bit 0 is the most significant one: `v[lo:hi]` of an ascending range. -/
def slice (v : BitVec w) (lo hi : ℕ) : BitVec (hi + 1 - lo) := v.extractLsb' (w - 1 - hi) (hi + 1 - lo)

theorem getMsbD_slice {v : BitVec w} {lo hi i : ℕ} (hi_lt : hi < w) (hlo : lo + i ≤ hi) :
    (slice v lo hi).getMsbD i = v.getMsbD (lo + i) := by
  have h₁ : i < hi + 1 - lo := by omega
  have h₂ : lo + i < w := by omega
  have h₃ : hi + 1 - lo - 1 - i < hi + 1 - lo := by omega
  have h₄ : w - 1 - hi + (hi + 1 - lo - 1 - i) = w - 1 - (lo + i) := by omega
  simp only [slice, BitVec.getMsbD, BitVec.getLsbD_extractLsb', h₁, h₂, h₃, h₄, decide_true, Bool.true_and]

theorem getMsbD_eq_getLsbD {v : BitVec w} {i : ℕ} (hi : i < w) : v.getMsbD i = v.getLsbD (w - 1 - i) := by
  simp [BitVec.getMsbD, hi]

/-- A bit vector given bit by bit, from the least significant one. -/
def ofBits : (w : ℕ) → (Fin w → Bool) → BitVec w
  | 0, _ => 0#0
  | w + 1, f => BitVec.cons (f (Fin.last w)) (ofBits w fun i => f i.castSucc)

@[simp] theorem getLsbD_ofBits : ∀ {w : ℕ} (f : Fin w → Bool) (i : Fin w), (ofBits w f).getLsbD i = f i
  | 0, _, i => i.elim0
  | w + 1, f, i => by
    rw [ofBits, BitVec.getLsbD_cons]
    split
    next h => rw [show i = Fin.last w from Fin.ext h]
    next h =>
      have hi : (i : ℕ) < w := by omega
      exact getLsbD_ofBits (fun i => f i.castSucc) ⟨i, hi⟩

theorem ne_zero_iff {v : BitVec w} : v ≠ 0#w ↔ ∃ i : Fin w, v.getLsbD i = true := by
  constructor
  · intro h
    by_contra hall
    refine h (BitVec.eq_of_getLsbD_eq fun i hi => ?_)
    rw [BitVec.getLsbD_zero]
    exact Bool.eq_false_iff.mpr fun ht => hall ⟨⟨i, hi⟩, ht⟩
  · rintro ⟨i, hi⟩ rfl
    simp at hi

/-- The concatenation `{r, r', ...}` of equally wide words, the last one in the low bits, assigned to
    `w` bits. -/
def concat {k : ℕ} (w : ℕ) (rows : List (BitVec k)) : BitVec w :=
  rows.foldl (fun acc r => acc <<< k ||| r.setWidth w) 0#w

theorem concat_snoc {k : ℕ} (w : ℕ) (rows : List (BitVec k)) (r : BitVec k) :
    concat w (rows ++ [r]) = concat w rows <<< k ||| r.setWidth w := by
  simp [concat]

/-- Bit `i` of a concatenation is in row `i / k` counted from the last one. -/
theorem getLsbD_concat {k : ℕ} (hk : 0 < k) {rows : List (BitVec k)} : ∀ {i : ℕ}, i < w →
    (concat w rows).getLsbD i = (rows.reverse.getD (i / k) 0#k).getLsbD (i % k) := by
  induction rows using List.reverseRecOn with
  | nil => simp [concat]
  | append_singleton rows r ih =>
    intro i hi
    rw [concat_snoc, BitVec.getLsbD_or, BitVec.getLsbD_shiftLeft, BitVec.getLsbD_setWidth,
      List.reverse_append, List.reverse_singleton, List.singleton_append]
    rcases Nat.lt_or_ge i k with hlt | hge
    · simp [hi, hlt, Nat.div_eq_of_lt hlt, Nat.mod_eq_of_lt hlt]
    · have hdiv : i / k = (i - k) / k + 1 := by
        rw [← Nat.sub_add_cancel hge, Nat.add_div_right _ hk, Nat.add_sub_cancel]
      have hmod : (i - k) % k = i % k := by
        conv_rhs => rw [← Nat.sub_add_cancel hge, Nat.add_mod_right]
      have hr : r.getLsbD i = false := BitVec.getLsbD_of_ge _ _ hge
      rw [hdiv, List.getD_cons_succ, ← hmod, ← ih (by omega), hr]
      simp [hi, Nat.not_lt.mpr hge]

/-- Row `addr` of a memory of `depth` rows whose contents are a concatenation: row 0 is the leftmost one, and
    a concatenation that is too short is extended with zeros on the left. -/
def rom {k : ℕ} (depth : ℕ) (rows : List (BitVec k)) (addr : ℕ) : BitVec k :=
  (concat (depth * k) rows).extractLsb' ((depth - 1 - addr) * k) k

section Rom
variable {k depth addr : ℕ} {rows : List (BitVec k)}

theorem rom_eq (h : addr < depth) : rom depth rows addr = rows.reverse.getD (depth - 1 - addr) 0#k := by
  refine BitVec.eq_of_getLsbD_eq fun i hi => ?_
  have hk : 0 < k := by omega
  have hbit : (depth - 1 - addr) * k + i < depth * k := by
    have hmul := Nat.mul_le_mul_right k (show depth - 1 - addr + 1 ≤ depth by omega)
    rw [Nat.add_mul, Nat.one_mul] at hmul
    omega
  have hrow : ((depth - 1 - addr) * k + i) / k = depth - 1 - addr := by
    rw [Nat.add_comm, Nat.add_mul_div_right _ _ hk, Nat.div_eq_of_lt hi, Nat.zero_add]
  have hcol : ((depth - 1 - addr) * k + i) % k = i := by
    rw [Nat.add_comm, Nat.add_mul_mod_self_right, Nat.mod_eq_of_lt hi]
  rw [rom, BitVec.getLsbD_extractLsb', getLsbD_concat hk hbit, hrow, hcol]
  simp [hi]

/-- The rows that are listed stand at the end of the memory. -/
theorem rom_listed {n : ℕ} (hn : n < rows.length) (hlen : rows.length ≤ depth) :
    rom depth rows (depth - rows.length + n) = rows.getD n 0#k := by
  have hrev : depth - 1 - (depth - rows.length + n) = rows.length - 1 - n := by omega
  rw [rom_eq (by omega), hrev, List.getD_eq_getElem?_getD, List.getD_eq_getElem?_getD,
    List.getElem?_reverse (by omega)]
  congr 2
  omega

theorem rom_padding (h : addr + rows.length < depth) : rom depth rows addr = 0#k := by
  have hout : rows.reverse[depth - 1 - addr]? = none := by
    rw [List.getElem?_eq_none_iff, List.length_reverse]
    omega
  rw [rom_eq (by omega), List.getD_eq_getElem?_getD, hout]
  rfl

end Rom

/-! ### Low bits -/

theorem low_bits_clear_iff {v : BitVec w} {k : ℕ} :
    (∀ i < k, v.getLsbD i = false) ↔ v.toNat % 2 ^ k = 0 := by
  constructor
  · intro h
    refine Nat.eq_of_testBit_eq fun i => ?_
    rw [Nat.testBit_mod_two_pow, Nat.zero_testBit]
    by_cases hi : i < k
    · simpa [hi, BitVec.testBit_toNat] using h i hi
    · simp [hi]
  · intro h i hi
    have := congrArg (Nat.testBit · i) h
    simpa [Nat.testBit_mod_two_pow, hi, BitVec.testBit_toNat] using this

theorem toNat_high_bits {v : BitVec w} {k m : ℕ} (hw : w = k + m) :
    (v.extractLsb' k m).toNat = v.toNat / 2 ^ k := by
  subst hw
  have hlt : v.toNat < 2 ^ m * 2 ^ k := by
    rw [← Nat.pow_add, Nat.add_comm m]
    exact v.isLt
  rw [BitVec.extractLsb'_toNat, Nat.shiftRight_eq_div_pow, Nat.mod_eq_of_lt]
  exact (Nat.div_lt_iff_lt_mul (Nat.two_pow_pos k)).mpr hlt

/-! ### Two's complement -/

theorem add_not_add_one (a b : BitVec w) : a + (~~~b + 1#w) = a - b := by
  rw [BitVec.sub_eq_add_neg, BitVec.neg_eq_not_add]

theorem not_add_one_add (a b : BitVec w) : (~~~b + 1#w) + a = a - b := by
  rw [BitVec.add_comm, add_not_add_one]

/-- The difference of two numbers less than half the range apart, read as a signed number, is exact. -/
theorem toInt_sub_of_near {a b : BitVec (w + 1)} (hlo : -(2 ^ w : ℤ) ≤ a.toNat - b.toNat)
    (hhi : (a.toNat : ℤ) - b.toNat < 2 ^ w) : (a - b).toInt = a.toNat - b.toNat := by
  have hpow : (2 ^ (w + 1) : ℤ) = 2 ^ w * 2 := pow_succ ..
  have hmod : ((a - b).toNat : ℤ) = ((a.toNat : ℤ) - b.toNat) % (2 ^ (w + 1) : ℕ) := by
    have hb := b.isLt
    rw [BitVec.toNat_sub, Int.natCast_mod, Nat.cast_add, Nat.cast_sub hb.le,
      ← Int.add_emod_right (a.toNat - b.toNat : ℤ)]
    congr 1
    ring
  rw [BitVec.toInt_eq_toNat_bmod, hmod, Int.emod_bmod, Int.bmod_eq_of_le] <;> push_cast <;> omega

theorem getLsbD_top {a : BitVec (w + 1)} : a.getLsbD w = decide (a.toInt < 0) := by
  have h : a.msb = a.getLsbD w := by simp [BitVec.msb_eq_getLsbD_last]
  rw [← h, BitVec.msb_eq_toInt]

/-- The magnitude of a signed number: the number itself when its top bit is clear, else its negation. -/
theorem toNat_of_toInt_nonneg {a : BitVec w} {z : ℤ} (h : a.toInt = z) (hz : 0 ≤ z) : (a.toNat : ℤ) = z := by
  subst h
  have := BitVec.toInt_eq_toNat_cond a
  split at this
  next => exact this.symm
  next =>
    have := a.isLt
    omega

theorem eq_zero_iff_toInt {a : BitVec w} : a = 0#w ↔ a.toInt = 0 := by
  rw [← BitVec.toInt_inj, BitVec.toInt_zero]

theorem toNat_succ {v : BitVec w} (h : v.toNat + 1 < 2 ^ w) : (v + 1).toNat = v.toNat + 1 := by
  have hone : (1 : BitVec w).toNat = 1 :=
    Nat.mod_eq_of_lt (Nat.lt_of_le_of_lt (Nat.le_add_left 1 v.toNat) h)
  rw [BitVec.toNat_add, hone, Nat.mod_eq_of_lt h]

/-- Adding a signed number does not wrap when the sum is in range. -/
theorem toNat_add_toInt {p m : BitVec w} (hlo : 0 ≤ (p.toNat : ℤ) + m.toInt)
    (hhi : (p.toNat : ℤ) + m.toInt < 2 ^ w) : ((p + m).toNat : ℤ) = p.toNat + m.toInt := by
  have hm : ((p.toNat : ℤ) + m.toInt) % (2 ^ w : ℕ) = ((p + m).toNat : ℤ) := by
    rw [BitVec.toNat_add, Int.natCast_mod, Nat.cast_add, BitVec.toInt_eq_toNat_bmod, Int.add_emod,
      Int.bmod_emod, ← Int.add_emod]
  rw [← hm, Int.emod_eq_of_lt hlo (by push_cast; exact hhi)]

end Bits
