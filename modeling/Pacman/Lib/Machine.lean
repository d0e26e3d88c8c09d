import Mathlib.Data.List.Induction
import Mathlib.Tactic.Common

/-! Runs of a deterministic machine with inputs. A machine is its step function `σ → ι → σ`; a run
    consumes a list of inputs. This file holds the induction rules for runs, the simulation rule, and
    events that happened since the last clearing one. -/

namespace Machine

variable {σ τ ι κ : Type*}

/-- The state after the inputs `is`, consumed from the head. -/
def run (step : σ → ι → σ) (s : σ) (is : List ι) : σ := is.foldl step s

section Run
variable (step : σ → ι → σ) (s : σ)

@[simp] theorem run_nil : run step s [] = s := rfl

@[simp] theorem run_cons (i : ι) (is : List ι) : run step s (i :: is) = run step (step s i) is := rfl

theorem run_append (is js : List ι) : run step s (is ++ js) = run step (run step s is) js :=
  List.foldl_append

@[simp] theorem run_snoc (is : List ι) (i : ι) : run step s (is ++ [i]) = step (run step s is) i := by
  rw [run_append, run_cons, run_nil]

theorem run_take_succ {is : List ι} {i : ι} {k : ℕ} (hi : is[k]? = some i) :
    run step s (is.take (k + 1)) = step (run step s (is.take k)) i := by
  rw [List.take_add_one, hi, Option.toList_some, run_snoc]

end Run

/-- How many states of a run before its end satisfy `P`. -/
def visits (step : σ → ι → σ) (P : σ → Bool) (s : σ) (is : List ι) : ℕ :=
  (List.range is.length).countP fun n => P (run step s (is.take n))

theorem visits_snoc (step : σ → ι → σ) (P : σ → Bool) (s : σ) (is : List ι) (i : ι) :
    visits step P s (is ++ [i]) = visits step P s is + if P (run step s is) then 1 else 0 := by
  have hold : (List.range is.length).countP (fun n => P (run step s ((is ++ [i]).take n))) =
      visits step P s is := by
    refine List.countP_congr fun n hn => ?_
    rw [List.take_append_of_le_length (Nat.le_of_lt (List.mem_range.mp hn))]
  unfold visits
  rw [List.length_append, List.length_singleton, List.range_succ, List.countP_append, hold,
    List.countP_singleton]
  simp [visits]

/-- A state that some run from `init` reaches. -/
def Reachable (step : σ → ι → σ) (init s : σ) : Prop := ∃ is, run step init is = s

section Invariants
variable {step : σ → ι → σ} {init s : σ}

theorem Reachable.refl : Reachable step init init := ⟨[], rfl⟩

theorem Reachable.tail (h : Reachable step init s) (i : ι) : Reachable step init (step s i) := by
  obtain ⟨is, rfl⟩ := h
  exact ⟨is ++ [i], run_snoc ..⟩

theorem Reachable.trans (h : Reachable step init s) (is : List ι) :
    Reachable step init (run step s is) := by
  obtain ⟨js, rfl⟩ := h
  exact ⟨js ++ is, run_append ..⟩

theorem run_invariant {P : σ → Prop} (keep : ∀ s i, P s → P (step s i)) (h : P s) (is : List ι) :
    P (run step s is) := by
  induction is generalizing s with
  | nil => exact h
  | cons i is ih => exact ih (keep s i h)

/-- An invariant of the reachable states; a step may use that its source is reachable. -/
theorem Reachable.induction {P : σ → Prop} (h0 : P init)
    (keep : ∀ s i, Reachable step init s → P s → P (step s i)) (h : Reachable step init s) : P s := by
  obtain ⟨is, rfl⟩ := h
  induction is using List.reverseRecOn with
  | nil => exact h0
  | append_singleton is i ih =>
    rw [run_snoc]
    exact keep _ i ⟨is, rfl⟩ ih

end Invariants

section Avoids
variable {step : σ → ι → σ} {bad : σ → ι → Prop} {s : σ}

/-- No step of the run is bad. -/
def Avoids (step : σ → ι → σ) (bad : σ → ι → Prop) : σ → List ι → Prop
  | _, [] => True
  | s, i :: is => ¬bad s i ∧ Avoids step bad (step s i) is

instance decidableAvoids [∀ s i, Decidable (bad s i)] : ∀ (is : List ι) (s : σ), Decidable (Avoids step bad s is)
  | [], _ => isTrue trivial
  | i :: is, s =>
    have := decidableAvoids is (step s i)
    inferInstanceAs (Decidable (¬bad s i ∧ Avoids step bad (step s i) is))

theorem avoids_append {is js : List ι} :
    Avoids step bad s (is ++ js) ↔ Avoids step bad s is ∧ Avoids step bad (run step s is) js := by
  induction is generalizing s with
  | nil => simp [Avoids]
  | cons i is ih => simp only [List.cons_append, Avoids, ih, run_cons, and_assoc]

theorem run_invariant_avoids {P : σ → Prop} (keep : ∀ s i, ¬bad s i → P s → P (step s i)) (h : P s)
    {is : List ι} (ha : Avoids step bad s is) : P (run step s is) := by
  induction is generalizing s with
  | nil => exact h
  | cons i is ih => exact ih (keep s i ha.1 h) ha.2

/-- Where exactly the bad steps break `P`, it holds all along a run when the run has no bad step. -/
theorem always_iff_avoids {I P : σ → Prop} (hinv : ∀ s i, I s → I (step s i))
    (hstep : ∀ s i, I s → P s → (P (step s i) ↔ ¬bad s i)) :
    ∀ {is : List ι} {s : σ}, I s → P s → ((∀ k, P (run step s (is.take k))) ↔ Avoids step bad s is)
  | [], s, _, hP => by simp [hP, Avoids]
  | i :: is, s, hs, hP => by
    have hshift : (∀ k, P (run step s ((i :: is).take k))) ↔ ∀ k, P (run step (step s i) (is.take k)) := by
      refine ⟨fun h k => h (k + 1), fun h k => ?_⟩
      cases k with
      | zero => exact hP
      | succ k => exact h k
    rw [hshift, Avoids, ← hstep s i hs hP]
    constructor
    · intro h
      have hnext : P (step s i) := by simpa using h 0
      exact ⟨hnext, (always_iff_avoids hinv hstep (hinv s i hs) hnext).mp h⟩
    · rintro ⟨hnext, h⟩
      exact (always_iff_avoids hinv hstep (hinv s i hs) hnext).mpr h

/-- A countdown: `Q s m` says that `m` counted inputs are left at most. Each of them takes one off or
    reaches the goal `R`, so a run with `m` of them has reached it. -/
theorem exists_goal_of_countdown {Q : σ → ℕ → Prop} {R : σ → Prop} {counts : ι → Bool}
    (positive : ∀ s, ¬Q s 0)
    (idle : ∀ s i m, ¬bad s i → counts i = false → Q s m → Q (step s i) m)
    (tick : ∀ s i m, ¬bad s i → counts i = true → Q s (m + 1) → R (step s i) ∨ Q (step s i) m) :
    ∀ {is : List ι} {s : σ} {m : ℕ}, Avoids step bad s is → Q s m → m ≤ is.countP counts →
      ∃ k ≤ is.length, (is.take k).countP counts ≤ m ∧ R (run step s (is.take k))
  | [], s, m, _, hq, hm => by
    obtain rfl : m = 0 := by simpa using hm
    exact absurd hq (positive s)
  | i :: is, s, 0, _, hq, _ => absurd hq (positive s)
  | i :: is, s, m + 1, ha, hq, hm => by
    by_cases hi : counts i = true
    · rcases tick s i m ha.1 hi hq with hgoal | hq'
      · exact ⟨1, by simp, by simp [hi], hgoal⟩
      · obtain ⟨k, hk, hcount, hgoal⟩ := exists_goal_of_countdown positive idle tick ha.2 hq'
          (by simpa [List.countP_cons, hi] using hm)
        exact ⟨k + 1, by simpa using hk, by simpa [List.countP_cons, hi] using hcount, hgoal⟩
    · rw [Bool.not_eq_true] at hi
      obtain ⟨k, hk, hcount, hgoal⟩ := exists_goal_of_countdown positive idle tick ha.2
        (idle s i _ ha.1 hi hq) (by simpa [List.countP_cons, hi] using hm)
      exact ⟨k + 1, by simpa using hk, by simpa [List.countP_cons, hi] using hcount, hgoal⟩

/-- The steps of a run that count. -/
def stepsOf (step : σ → ι → σ) (counts : σ → ι → Bool) : σ → List ι → ℕ
  | _, [] => 0
  | s, i :: is => (if counts s i then 1 else 0) + stepsOf step counts (step s i) is

/-- A rank `f` that no step raises and each counted step lowers, as long as the goal `R` is not reached: a run with more
    counted steps than the rank it begins with has been at the goal. -/
theorem exists_goal_of_rank {f : σ → ℕ} {R : σ → Prop} {counts : σ → ι → Bool}
    (idle : ∀ s i, ¬R s → ¬bad s i → f (step s i) ≤ f s)
    (tick : ∀ s i, ¬R s → ¬bad s i → counts s i = true → f (step s i) < f s) :
    ∀ {is : List ι} {s : σ}, Avoids step bad s is → f s < stepsOf step counts s is →
      ∃ k < is.length, R (run step s (is.take k))
  | [], s, _, h => absurd h (Nat.not_lt_zero _)
  | i :: is, s, ha, h => by
    by_cases hgoal : R s
    · exact ⟨0, Nat.succ_pos _, hgoal⟩
    have hless : f (step s i) < stepsOf step counts (step s i) is := by
      rw [stepsOf] at h
      split at h
      next hi =>
        have := tick s i hgoal ha.1 hi
        omega
      next hi =>
        have := idle s i hgoal ha.1
        omega
    obtain ⟨k, hk, hreached⟩ := exists_goal_of_rank idle tick ha.2 hless
    exact ⟨k + 1, Nat.succ_lt_succ hk, hreached⟩

/-- A countdown that every step keeps, `Q s m` with `m` counted steps left at most: a run takes off as many as it has
    counted. -/
theorem run_countdown {Q : σ → ℕ → Prop} {counts : σ → ι → Bool}
    (idle : ∀ s i m, ¬bad s i → counts s i = false → Q s m → Q (step s i) m)
    (tick : ∀ s i m, ¬bad s i → counts s i = true → Q s m → Q (step s i) (m - 1)) :
    ∀ {is : List ι} {s : σ} {m : ℕ}, Avoids step bad s is → Q s m → Q (run step s is) (m - stepsOf step counts s is)
  | [], _, _, _, hq => hq
  | i :: is, s, m, ha, hq => by
    rw [run_cons, stepsOf]
    cases hcounts : counts s i with
    | true =>
      rw [if_pos rfl, ← Nat.sub_sub]
      exact run_countdown idle tick ha.2 (tick s i m ha.1 hcounts hq)
    | false =>
      rw [if_neg Bool.false_ne_true, Nat.zero_add]
      exact run_countdown idle tick ha.2 (idle s i m ha.1 hcounts hq)

end Avoids

/-- Two machines stay related along a run when each step keeps the relation. -/
theorem run_simulation {step : σ → ι → σ} {step' : τ → κ → τ} {f : ι → κ} {R : σ → τ → Prop}
    (keep : ∀ s t i, R s t → R (step s i) (step' t (f i))) {s : σ} {t : τ} (h : R s t) (is : List ι) :
    R (run step s is) (run step' t (is.map f)) := by
  induction is generalizing s t with
  | nil => exact h
  | cons i is ih => exact ih (keep s t i h)

/-! ### Runs of a relation -/

section Relation
variable {Step : τ → κ → τ → Prop}

/-- `t` gives the states of a run of a nondeterministic machine, moment by moment, where step `k` meets
    `ks[k]`. -/
structure IsRun (Step : τ → κ → τ → Prop) (t₀ : τ) (ks : List κ) (t : ℕ → τ) : Prop where
  start : t 0 = t₀
  step : ∀ k i, ks[k]? = some i → Step (t k) i (t (k + 1))

/-- The forward simulation rule: the states of a run are related, moment by moment, to those of a run of a
    relation that can follow each step. -/
theorem isRun_of_simulation {step : σ → ι → σ} {f : ι → κ} {R : σ → τ → Prop}
    (follow : ∀ s t i, R s t → ∃ t', Step t (f i) t' ∧ R (step s i) t') {s : σ} {t₀ : τ} (h : R s t₀) (is : List ι) :
    ∃ t, IsRun Step t₀ (is.map f) t ∧ ∀ k ≤ is.length, R (run step s (is.take k)) (t k) := by
  induction is using List.reverseRecOn with
  | nil =>
    refine ⟨fun _ => t₀, ⟨rfl, fun k i hi => by simp at hi⟩, fun k _ => ?_⟩
    rwa [List.take_nil]
  | append_singleton is i ih =>
    obtain ⟨t, ⟨hstart, hstep⟩, hrel⟩ := ih
    obtain ⟨t', hlast, hend⟩ := follow _ _ i (hrel is.length (Nat.le_refl _))
    rw [List.take_length] at hend
    -- The run goes on with the new state.
    have hold : ∀ {k}, k ≤ is.length → (if k ≤ is.length then t k else t') = t k := fun hk => if_pos hk
    have hnew : (if is.length + 1 ≤ is.length then t (is.length + 1) else t') = t' := if_neg (Nat.not_succ_le_self _)
    refine ⟨fun k => if k ≤ is.length then t k else t', ⟨?_, fun k x hx => ?_⟩, fun k hk => ?_⟩
    · exact (hold (Nat.zero_le _)).trans hstart
    · rw [List.map_append, List.map_singleton] at hx
      rcases Nat.lt_or_ge k is.length with hlt | hge
      · rw [List.getElem?_append_left (by simpa using hlt)] at hx
        rw [hold (Nat.le_of_lt hlt), hold (Nat.succ_le_of_lt hlt)]
        exact hstep k x hx
      · obtain ⟨hk, -⟩ := List.getElem?_eq_some_iff.mp hx
        obtain rfl : k = is.length := by simp at hk; omega
        obtain rfl : f i = x := by simpa using hx
        rw [hold (Nat.le_refl _), hnew]
        exact hlast
    · dsimp only
      rcases Nat.lt_or_ge is.length k with hlt | hle
      · obtain rfl : k = is.length + 1 := by simp at hk; omega
        have htake : (is ++ [i]).take (is.length + 1) = is ++ [i] := List.take_of_length_le (by simp)
        rw [htake, run_snoc, hnew]
        exact hend
      · rw [List.take_append_of_le_length hle, hold hle]
        exact hrel k hle

end Relation

/-! ### Events since the last clearing one -/

section Since
variable {step : σ → ι → σ} {mark clear : σ → ι → Prop} {s : σ}

/-- Some step of the run was marked, and no step from there on cleared. A step is given by the state
    before it and its input. -/
def OnceSince (step : σ → ι → σ) (mark clear : σ → ι → Prop) (s : σ) (is : List ι) : Prop :=
  ∃ k i, is[k]? = some i ∧ mark (run step s (is.take k)) i ∧
    ∀ j x, k ≤ j → is[j]? = some x → ¬clear (run step s (is.take j)) x

theorem not_onceSince_nil : ¬OnceSince step mark clear s [] := by
  rintro ⟨k, i, hi, -⟩
  simp at hi

/-- The last step decides: it must not clear, and it is marked or an earlier mark still stands. -/
theorem onceSince_snoc {is : List ι} {i : ι} :
    OnceSince step mark clear s (is ++ [i]) ↔
      ¬clear (run step s is) i ∧ (mark (run step s is) i ∨ OnceSince step mark clear s is) := by
  constructor
  · rintro ⟨k, x, hx, hm, hc⟩
    have hk : k ≤ is.length := by
      obtain ⟨hk, -⟩ := List.getElem?_eq_some_iff.mp hx
      simpa [Nat.lt_succ_iff] using hk
    have hlast : ¬clear (run step s is) i := by
      simpa using hc is.length i hk (by simp)
    refine ⟨hlast, ?_⟩
    rcases Nat.lt_or_eq_of_le hk with hlt | rfl
    · rw [List.getElem?_append_left hlt] at hx
      rw [List.take_append_of_le_length hk] at hm
      refine Or.inr ⟨k, x, hx, hm, fun j y hkj hy => ?_⟩
      obtain ⟨hj, -⟩ := List.getElem?_eq_some_iff.mp hy
      have := hc j y hkj (by rw [List.getElem?_append_left hj]; exact hy)
      rwa [List.take_append_of_le_length (Nat.le_of_lt hj)] at this
    · obtain rfl : i = x := by simpa using hx
      exact Or.inl (by simpa using hm)
  · rintro ⟨hlast, hm | ⟨k, x, hx, hm, hc⟩⟩
    · refine ⟨is.length, i, by simp, by simpa using hm, fun j y hj hy => ?_⟩
      obtain ⟨hlt, -⟩ := List.getElem?_eq_some_iff.mp hy
      obtain rfl : j = is.length := by simp at hlt; omega
      obtain rfl : i = y := by simpa using hy
      simpa using hlast
    · obtain ⟨hk, -⟩ := List.getElem?_eq_some_iff.mp hx
      refine ⟨k, x, by rw [List.getElem?_append_left hk]; exact hx, ?_, fun j y hkj hy => ?_⟩
      · rwa [List.take_append_of_le_length (Nat.le_of_lt hk)]
      · obtain ⟨hlt, -⟩ := List.getElem?_eq_some_iff.mp hy
        rcases Nat.lt_or_ge j is.length with hj | hj
        · rw [List.getElem?_append_left hj] at hy
          rw [List.take_append_of_le_length (Nat.le_of_lt hj)]
          exact hc j y hkj hy
        · obtain rfl : j = is.length := by simp at hlt; omega
          obtain rfl : i = y := by simpa using hy
          simpa using hlast

end Since

/-- What holds at the end of a run and not at its start has begun to hold with some step, and has held since. -/
theorem exists_onset {step : σ → ι → σ} {P : σ → Prop} {s : σ} (h0 : ¬P s) {is : List ι} (h : P (run step s is)) :
    ∃ k i, is[k]? = some i ∧ ¬P (run step s (is.take k)) ∧ ∀ j, k < j → j ≤ is.length → P (run step s (is.take j)) := by
  induction is using List.reverseRecOn with
  | nil => exact absurd h h0
  | append_singleton is i ih =>
    have hend : (is ++ [i]).take (is.length + 1) = is ++ [i] := List.take_of_length_le (by simp)
    by_cases hbefore : P (run step s is)
    · obtain ⟨k, x, hx, hnot, hsince⟩ := ih hbefore
      have hk := (List.getElem?_eq_some_iff.mp hx).1
      refine ⟨k, x, by rwa [List.getElem?_append_left hk], ?_, fun j hkj hj => ?_⟩
      · rwa [List.take_append_of_le_length (Nat.le_of_lt hk)]
      · rcases Nat.lt_or_ge is.length j with hlt | hle
        · obtain rfl : j = is.length + 1 := by simp at hj; omega
          rwa [hend]
        · rw [List.take_append_of_le_length hle]
          exact hsince j hkj hle
    · refine ⟨is.length, i, by simp, by simpa using hbefore, fun j hkj hj => ?_⟩
      obtain rfl : j = is.length + 1 := by simp at hj; omega
      rwa [hend]

/-! ### Counting since the last clearing step -/

section CountSince
variable {step : σ → ι → σ} {clear counts : σ → ι → Bool} {s : σ}

def tally (step : σ → ι → σ) (clear counts : σ → ι → Bool) (p : σ × ℕ) (i : ι) : σ × ℕ :=
  (step p.1 i, if clear p.1 i then 0 else p.2 + (counts p.1 i).toNat)

/-- The counted steps of a run since the last clearing one. -/
def countSince (step : σ → ι → σ) (clear counts : σ → ι → Bool) (s : σ) (is : List ι) : ℕ :=
  (run (tally step clear counts) (s, 0) is).2

theorem run_tally_fst (p : σ × ℕ) (is : List ι) : (run (tally step clear counts) p is).1 = run step p.1 is := by
  induction is generalizing p with
  | nil => rfl
  | cons i is ih => exact ih _

@[simp] theorem countSince_nil : countSince step clear counts s [] = 0 := rfl

theorem countSince_snoc (is : List ι) (i : ι) : countSince step clear counts s (is ++ [i]) =
    if clear (run step s is) i then 0
    else countSince step clear counts s is + (counts (run step s is) i).toNat := by
  unfold countSince
  rw [run_snoc, tally, run_tally_fst]

end CountSince

end Machine
