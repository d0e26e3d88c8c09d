import Mathlib.Data.List.Basic
import Mathlib.Logic.Function.Basic
import Mathlib.Tactic.Ring

/-! Words in a memory with addresses of any width, two addresses to a word, and linked lists in it. Words are
    stored one behind the other; a list is read by following a pointer in each node until the null address. -/

namespace Memory

variable {a : ℕ} {α : Type*} {m m' : BitVec a → α}

/-- The words `xs` stand in `m` from address `p` on. -/
def Holds (m : BitVec a → α) : BitVec a → List α → Prop
  | _, [] => True
  | p, x :: xs => m p = x ∧ Holds m (p + 2) xs

/-- `m` after the words `xs` were stored from address `p` on. -/
def fill (m : BitVec a → α) : BitVec a → List α → BitVec a → α
  | _, [] => m
  | p, x :: xs => fill (Function.update m p x) (p + 2) xs

section Words
variable {p q : BitVec a} {xs ys : List α}

@[simp] theorem holds_nil : Holds m p [] := trivial

@[simp] theorem holds_cons {x : α} : Holds m p (x :: xs) ↔ m p = x ∧ Holds m (p + 2) xs := Iff.rfl

theorem toNat_add_two (h : p.toNat + 2 < 2 ^ a) : (p + 2).toNat = p.toNat + 2 := by
  have htwo : (BitVec.ofNat a 2).toNat = 2 := by
    rw [BitVec.toNat_ofNat]
    exact Nat.mod_eq_of_lt (by omega)
  rw [BitVec.toNat_add]
  exact (congrArg (fun k => (p.toNat + k) % 2 ^ a) htwo).trans (Nat.mod_eq_of_lt h)

theorem holds_append : ∀ {p : BitVec a} {xs : List α},
    Holds m p (xs ++ ys) ↔ Holds m p xs ∧ Holds m (p + 2 * BitVec.ofNat a xs.length) ys
  | p, [] => by simp
  | p, x :: xs => by
    have hnext : p + 2 + 2 * BitVec.ofNat a xs.length = p + 2 * BitVec.ofNat a (x :: xs).length := by
      rw [List.length_cons, BitVec.ofNat_add, BitVec.mul_add, BitVec.add_assoc, BitVec.add_comm 2]
      simp
    rw [List.cons_append, holds_cons, holds_append, holds_cons, and_assoc, hnext]

/-- Words that are stored below `p`, or from the end of `xs` on, keep. -/
theorem fill_outside (hfit : p.toNat + 2 * xs.length < 2 ^ a)
    (hq : q.toNat < p.toNat ∨ p.toNat + 2 * xs.length ≤ q.toNat) : fill m p xs q = m q := by
  induction xs generalizing m p with
  | nil => rfl
  | cons x xs ih =>
    rw [List.length_cons] at hfit hq
    have hsucc := toNat_add_two (p := p) (by omega)
    have hne : q ≠ p := by
      rintro rfl
      omega
    rw [fill, ih (by omega) (by omega), Function.update_of_ne hne]

/-- What is stored at an address depends on what was there before and on nothing else. -/
theorem fill_congr (h : m q = m' q) : fill m p xs q = fill m' p xs q := by
  induction xs generalizing m m' p with
  | nil => exact h
  | cons x xs ih =>
    refine ih ?_
    by_cases hq : q = p
    · rw [hq, Function.update_self, Function.update_self]
    · rw [Function.update_of_ne hq, Function.update_of_ne hq, h]

theorem holds_fill (hfit : p.toNat + 2 * xs.length < 2 ^ a) : Holds (fill m p xs) p xs := by
  induction xs generalizing m p with
  | nil => trivial
  | cons x xs ih =>
    rw [List.length_cons] at hfit
    have hsucc := toNat_add_two (p := p) (by omega)
    refine ⟨?_, ih (by omega)⟩
    rw [fill, fill_outside (by omega) (.inl (by omega)), Function.update_self]

/-- What is held stays held where the memory stays. -/
theorem Holds.congr (h : Holds m p xs) (hfit : p.toNat + 2 * xs.length < 2 ^ a)
    (heq : ∀ q : BitVec a, p.toNat ≤ q.toNat → q.toNat < p.toNat + 2 * xs.length → m' q = m q) :
    Holds m' p xs := by
  induction xs generalizing p with
  | nil => trivial
  | cons x xs ih =>
    rw [List.length_cons] at hfit heq
    have hsucc := toNat_add_two (p := p) (by omega)
    refine ⟨(heq p (by omega) (by omega)).trans h.1, ih h.2 (by omega) fun q h₁ h₂ => ?_⟩
    exact heq q (by omega) (by omega)

end Words

/-! ### Linked lists -/

section Chain
variable {A : Type*}

/-- The nodes that lie on the way from `p` along `next` to the null address. -/
inductive Chain (next : A → A) (null : A) : A → List A → Prop
  | nil : Chain next null null []
  | cons {p : A} {ps : List A} : p ≠ null → Chain next null (next p) ps → Chain next null p (p :: ps)

end Chain

/-- A node of a list: the words before its pointer and those behind it. -/
structure Node (α : Type*) where
  front : List α
  back : List α

section Layout
variable {p : BitVec a} {n : Node (BitVec a)} {ns : List (Node (BitVec a))} {m m' : BitVec a → BitVec a} {k : ℕ}

namespace Node

def size (n : Node (BitVec a)) : ℕ := n.front.length + 1 + n.back.length

/-- The words of the node with its pointer. -/
def words (n : Node (BitVec a)) (next : BitVec a) : List (BitVec a) := n.front ++ next :: n.back

/-- The first address behind the node. -/
def after (n : Node (BitVec a)) (p : BitVec a) : BitVec a := p + 2 * BitVec.ofNat a n.size

end Node

/-- The words of nodes that stand one behind the other from `p` on. Each points to the one behind it, the last
    to the null address 0. -/
def layout : BitVec a → List (Node (BitVec a)) → List (BitVec a)
  | _, [] => []
  | p, n :: ns => n.words (if ns.isEmpty then 0 else n.after p) ++ layout (n.after p) ns

/-- Where the nodes stand. -/
def places : BitVec a → List (Node (BitVec a)) → List (BitVec a)
  | _, [] => []
  | p, n :: ns => p :: places (n.after p) ns

@[simp] theorem length_words (next : BitVec a) : (n.words next).length = n.size := by
  simp [Node.words, Node.size, Nat.add_assoc, Nat.add_comm 1]

theorem length_layout : (layout p ns).length = (ns.map Node.size).sum := by
  induction ns generalizing p with
  | nil => rfl
  | cons n ns ih => rw [layout, List.length_append, length_words, ih, List.map_cons, List.sum_cons]

theorem toNat_after (h : p.toNat + 2 * n.size < 2 ^ a) : (n.after p).toNat = p.toNat + 2 * n.size := by
  have hmul : (2 * BitVec.ofNat a n.size).toNat = 2 * n.size := by
    have htwo : (2 : BitVec a) = BitVec.ofNat a 2 := rfl
    rw [htwo, ← BitVec.ofNat_mul, BitVec.toNat_ofNat]
    exact Nat.mod_eq_of_lt (by omega)
  rw [Node.after, BitVec.toNat_add, hmul]
  exact Nat.mod_eq_of_lt h

theorem holds_layout_cons : Holds m p (layout p (n :: ns)) ↔
    Holds m p (n.words (if ns.isEmpty then 0 else n.after p)) ∧ Holds m (n.after p) (layout (n.after p) ns) := by
  rw [layout, holds_append, length_words]
  rfl

/-- The way along the pointers, which stand `k` words behind the beginning of each node, finds the nodes. -/
theorem Holds.chain (h : Holds m p (layout p ns)) (hne : ns ≠ []) (hfront : ∀ n ∈ ns, n.front.length = k)
    (hp : 0 < p.toNat) (hfit : p.toNat + 2 * (ns.map Node.size).sum < 2 ^ a) :
    Chain (fun q => m (q + 2 * BitVec.ofNat a k)) 0 p (places p ns) := by
  induction ns generalizing p with
  | nil => exact absurd rfl hne
  | cons n ns ih =>
    rw [List.map_cons, List.sum_cons] at hfit
    obtain ⟨hnode, hrest⟩ := holds_layout_cons.mp h
    have hlen := hfront n List.mem_cons_self
    have hp0 : p ≠ 0 := by
      rintro rfl
      simp at hp
    refine .cons hp0 ?_
    have hnext : m (p + 2 * BitVec.ofNat a k) = if ns.isEmpty then 0 else n.after p := by
      rw [Node.words, holds_append, hlen] at hnode
      exact hnode.2.1
    rw [hnext]
    cases ns with
    | nil => exact .nil
    | cons n' ns =>
      have hafter := toNat_after (n := n) (p := p) (by omega)
      change Chain _ 0 (n.after p) _
      exact ih hrest (List.cons_ne_nil _ _) (fun x hx => hfront x (List.mem_cons_of_mem _ hx)) (by omega) (by omega)

/-- Each node holds its own words at its place. -/
theorem Holds.nodes (h : Holds m p (layout p ns)) (hfront : ∀ n ∈ ns, n.front.length = k) :
    List.Forall₂ (fun q n => Holds m q n.front ∧ Holds m (q + 2 * BitVec.ofNat a (k + 1)) n.back) (places p ns) ns := by
  induction ns generalizing p with
  | nil => exact .nil
  | cons n ns ih =>
    obtain ⟨hnode, hrest⟩ := holds_layout_cons.mp h
    refine .cons ?_ (ih hrest fun x hx => hfront x (List.mem_cons_of_mem _ hx))
    rw [Node.words, holds_append, hfront n List.mem_cons_self, holds_cons] at hnode
    refine ⟨hnode.1, ?_⟩
    rw [BitVec.ofNat_add, BitVec.mul_add, ← BitVec.add_assoc]
    have htwo : (2 : BitVec a) * BitVec.ofNat a 1 = 2 := BitVec.mul_one _
    rw [htwo]
    exact hnode.2.2

end Layout

end Memory
