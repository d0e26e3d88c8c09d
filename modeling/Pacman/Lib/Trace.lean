import Mathlib.Data.List.DropRight
import Pacman.Lib.Machine

/-! What a machine puts out along a run, and the pulses in a trace: the values of a signal that is low, `none`,
    between them. -/

namespace Machine

variable {σ ι ω : Type*}

/-- The outputs along a run, each step's in order. -/
def outputs (step : σ → ι → σ) (out : σ → ι → List ω) : σ → List ι → List ω
  | _, [] => []
  | s, i :: is => out s i ++ outputs step out (step s i) is

section Outputs
variable (step : σ → ι → σ) (out : σ → ι → List ω) (s : σ)

@[simp] theorem outputs_nil : outputs step out s [] = [] := rfl

@[simp] theorem outputs_cons (i : ι) (is : List ι) :
    outputs step out s (i :: is) = out s i ++ outputs step out (step s i) is := rfl

theorem outputs_append (is js : List ι) :
    outputs step out s (is ++ js) = outputs step out s is ++ outputs step out (run step s is) js := by
  induction is generalizing s with
  | nil => rfl
  | cons i is ih => rw [List.cons_append, outputs_cons, ih, outputs_cons, run_cons, List.append_assoc]

variable {step out s}

theorem mem_outputs {x : ω} {is : List ι} (h : x ∈ outputs step out s is) : ∃ t i, x ∈ out t i := by
  induction is generalizing s with
  | nil => exact absurd h List.not_mem_nil
  | cons i is ih =>
    rw [outputs_cons, List.mem_append] at h
    exact h.elim (fun h => ⟨s, i, h⟩) ih

theorem mem_outputs_at {x : ω} {is : List ι} {k : ℕ} (hk : k < is.length) (h : x ∈ out (run step s (is.take k)) is[k]) :
    x ∈ outputs step out s is := by
  rw [← List.take_append_drop k is, List.drop_eq_getElem_cons hk, outputs_append, outputs_cons]
  exact List.mem_append_right _ (List.mem_append_left _ h)

/-- Every output of a run that keeps `P` under its inputs has `Q` when each step's outputs have. -/
theorem forall_mem_outputs {P : σ → Prop} {good : ι → Prop} {Q : ω → Prop} (keep : ∀ s i, P s → good i → P (step s i))
    (hout : ∀ s i, P s → good i → ∀ x ∈ out s i, Q x) (h : P s) {is : List ι} (hgood : ∀ i ∈ is, good i) :
    ∀ x ∈ outputs step out s is, Q x := by
  induction is generalizing s with
  | nil => simp
  | cons i is ih =>
    have hi := hgood i List.mem_cons_self
    rw [outputs_cons, List.forall_mem_append]
    exact ⟨hout s i h hi, ih (keep s i h hi) fun j hj => hgood j (List.mem_cons_of_mem i hj)⟩

/-- What stands before an output of a run was put out by the steps before, and by the same step. -/
theorem outputs_split {x : ω} {t u : List ω} {is : List ι} (h : outputs step out s is = t ++ x :: u) :
    ∃ js i ks a b, is = js ++ i :: ks ∧ out (run step s js) i = a ++ x :: b ∧ t = outputs step out s js ++ a := by
  induction is generalizing s t with
  | nil => simp at h
  | cons i is ih =>
    rw [outputs_cons] at h
    rcases List.append_eq_append_iff.mp h with ⟨t', rfl, hrest⟩ | ⟨a, hout, hrest⟩
    · obtain ⟨js, j, ks, a, b, rfl, hj, rfl⟩ := ih hrest
      exact ⟨i :: js, j, ks, a, b, rfl, hj, by rw [outputs_cons, List.append_assoc]⟩
    · cases a with
      | nil =>
        obtain ⟨js, j, ks, a, b, rfl, hj, ha⟩ := ih (t := []) hrest.symm
        refine ⟨i :: js, j, ks, a, b, rfl, hj, ?_⟩
        rw [outputs_cons, List.append_assoc, ← ha, List.append_nil, hout, List.append_nil]
      | cons y a =>
        obtain ⟨rfl, -⟩ := List.cons.inj hrest
        exact ⟨[], i, is, t, a, rfl, hout, rfl⟩

end Outputs

end Machine

namespace Trace

variable {α β : Type*} [DecidableEq β] (f : α → Option β)

/-- The value of the signal after a trace that follows the value `prev`. -/
def level (prev : Option β) (xs : List α) : Option β := Machine.run (fun _ x => f x) prev xs

/-- The values that the signal takes one after the other; a value that stays is one pulse. -/
def pulses (prev : Option β) (xs : List α) : List β :=
  Machine.outputs (fun _ x => f x) (fun prev x => if f x = prev then [] else (f x).toList) prev xs

variable {f} {prev : Option β} {b : β}

theorem pulses_append (xs ys : List α) :
    pulses f prev (xs ++ ys) = pulses f prev xs ++ pulses f (level f prev xs) ys :=
  Machine.outputs_append ..

omit [DecidableEq β] in
theorem level_append (xs ys : List α) : level f prev (xs ++ ys) = level f (level f prev xs) ys :=
  Machine.run_append ..

theorem pulses_low {xs : List α} (h : ∀ x ∈ xs, f x = none) : pulses f prev xs = [] := by
  induction xs generalizing prev with
  | nil => rfl
  | cons x xs ih =>
    have hx := h x List.mem_cons_self
    simp only [pulses, Machine.outputs_cons, hx, Option.toList_none, ite_self, List.nil_append]
    exact ih fun y hy => h y (List.mem_cons_of_mem x hy)

omit [DecidableEq β] in
/-- A signal that is constant over a trace has that value after it. -/
theorem level_const {v : Option β} {xs : List α} (h : ∀ x ∈ xs, f x = v) (hne : xs ≠ []) : level f prev xs = v := by
  rw [← List.dropLast_concat_getLast hne, level, Machine.run_snoc]
  exact h _ (List.getLast_mem hne)

omit [DecidableEq β] in
theorem level_low {xs : List α} (h : ∀ x ∈ xs, f x = none) : level f none xs = none := by
  by_cases hnil : xs = []
  · rw [hnil]
    rfl
  · exact level_const h hnil

theorem pulses_same {xs : List α} (h : ∀ x ∈ xs, f x = prev) : pulses f prev xs = [] := by
  induction xs with
  | nil => rfl
  | cons x xs ih =>
    have hx := h x List.mem_cons_self
    simp only [pulses, Machine.outputs_cons, hx, if_true, List.nil_append]
    exact ih fun y hy => h y (List.mem_cons_of_mem x hy)

theorem pulses_high {xs : List α} (h : ∀ x ∈ xs, f x = some b) (hne : xs ≠ []) : pulses f none xs = [b] := by
  cases xs with
  | nil => exact absurd rfl hne
  | cons x xs =>
    have hx := h x List.mem_cons_self
    have hrest : pulses f (some b) xs = [] := pulses_same fun y hy => h y (List.mem_cons_of_mem x hy)
    simp only [pulses, Machine.outputs_cons, hx] at hrest ⊢
    rw [hrest]
    rfl

/-- A pulse with the signal low before and after it. -/
theorem pulses_once {xs ys zs : List α} (hx : ∀ x ∈ xs, f x = none) (hy : ∀ y ∈ ys, f y = some b)
    (hne : ys ≠ []) (hz : ∀ z ∈ zs, f z = none) (hne' : zs ≠ []) :
    pulses f none (xs ++ ys ++ zs) = [b] ∧ level f none (xs ++ ys ++ zs) = none := by
  constructor
  · rw [pulses_append, pulses_append, pulses_low hx, level_low hx, pulses_high hy hne, pulses_low hz]
    rfl
  · rw [level_append, level_const hz hne']

/-! ### Pieces of a trace -/

section Pieces
variable {p t u : List α} {ps qs : List (List α)}

/-- The pieces lie in the trace in this order, each one whole and behind the one before. -/
def InOrder : List (List α) → List α → Prop
  | [], _ => True
  | p :: ps, t => ∃ a b, t = a ++ p ++ b ∧ InOrder ps b

theorem InOrder.append (h : InOrder ps t) (h' : InOrder qs u) : InOrder (ps ++ qs) (t ++ u) := by
  induction ps generalizing t with
  | nil =>
    cases qs with
    | nil => trivial
    | cons q qs =>
      obtain ⟨a, b, rfl, hb⟩ := h'
      exact ⟨t ++ a, b, by simp, hb⟩
  | cons p ps ih =>
    obtain ⟨a, b, rfl, hb⟩ := h
    exact ⟨a, b ++ u, by simp, ih hb⟩

theorem InOrder.append_right (h : InOrder ps t) : InOrder ps (t ++ u) := by
  have hnil : InOrder [] u := trivial
  simpa using h.append hnil

theorem InOrder.snoc (h : InOrder ps t) (hp : p <:+: u) : InOrder (ps ++ [p]) (t ++ u) := by
  obtain ⟨a, b, rfl⟩ := hp
  exact h.append ⟨a, b, rfl, trivial⟩

theorem InOrder.of_append (h : InOrder (ps ++ qs) t) : InOrder ps t := by
  induction ps generalizing t with
  | nil => trivial
  | cons p ps ih =>
    obtain ⟨a, b, rfl, hb⟩ := h
    exact ⟨a, b, rfl, ih hb⟩

end Pieces

section SinceLast
variable {P : α → Prop} [DecidablePred P] {x : α} {t u : List α}

/-- The part of the trace behind the last element with `P`. -/
def sinceLast (P : α → Prop) [DecidablePred P] (t : List α) : List α := t.rtakeWhile fun x => ¬P x

theorem sinceLast_append (h : ∀ y ∈ u, ¬P y) : sinceLast P (t ++ u) = sinceLast P t ++ u := by
  rw [sinceLast, List.rtakeWhile, List.reverse_append, List.takeWhile_append_of_pos (by simpa using h),
    List.reverse_append, List.reverse_reverse]
  rfl

theorem sinceLast_append_cons (hx : P x) (h : ∀ y ∈ u, ¬P y) : sinceLast P (t ++ x :: u) = u := by
  have hnone : sinceLast P (t ++ [x]) = [] := by
    rw [sinceLast, List.rtakeWhile_concat_neg]
    simpa using hx
  rw [List.append_cons, sinceLast_append h, hnone, List.nil_append]

end SinceLast

end Trace
