import Mathlib.Logic.Relation
import Pacman.Lib.Walker

/-! Where a driven walker can be brought. Along a path of open sides there are keys that drive it to the end
    of the path, so on a connected part of the graph there are keys that take it through any list of nodes.
    `explore` collects nodes that paths lead to. -/

namespace Walker
open Place

variable {N D : Type*} {G : PortGraph N D} {n : ℕ} {side : N → D → Bool}

/-! ### Paths -/

section Path
variable (G) (side)

def Joined (a b : N) : Prop := ∃ d, side a d = true ∧ G.next a d = b

def OpenPath : N → N → Prop := Relation.ReflTransGen (Joined G side)

variable {G} {side}

theorem OpenPath.refl (a : N) : OpenPath G side a a := Relation.ReflTransGen.refl

theorem OpenPath.step {a b : N} (h : OpenPath G side a b) {d : D} (hd : side b d = true) :
    OpenPath G side a (G.next b d) :=
  Relation.ReflTransGen.tail h ⟨d, hd, rfl⟩

theorem OpenPath.trans {a b c : N} (h₁ : OpenPath G side a b) (h₂ : OpenPath G side b c) :
    OpenPath G side a c :=
  Relation.ReflTransGen.trans h₁ h₂

theorem OpenPath.symm (hback : ∀ c d, side c d = true → side (G.next c d) (G.back d) = true) {a b : N}
    (h : OpenPath G side a b) : OpenPath G side b a := by
  have hsymm : Std.Symm (Joined G side) := by
    refine ⟨fun a b => ?_⟩
    rintro ⟨d, hd, rfl⟩
    exact ⟨G.back d, hback a d hd, G.next_back a d⟩
  exact Relation.ReflTransGen.stdSymm.symm _ _ h

end Path

/-! ### Exploring -/

section Explore
variable [DecidableEq N] (G) (side) (dirs : List D)

/-- Nodes found from those of `todo`, after those of `seen`, in at most `fuel` expansions. -/
def explore : ℕ → List N → List N → List N
  | 0, seen, _ => seen
  | _, seen, [] => seen
  | fuel + 1, seen, c :: todo =>
    let new := ((dirs.filter (side c)).map (G.next c)).filter fun b => b ∉ seen
    explore fuel (new ++ seen) (todo ++ new)

variable {G} {side} {dirs}

/-- Paths lead from the start to every node found, if they do to those that the search starts with. -/
theorem openPath_of_mem_explore {start : N} :
    ∀ {fuel : ℕ} {seen todo : List N}, (∀ c ∈ seen, OpenPath G side start c) →
      (∀ c ∈ todo, OpenPath G side start c) → ∀ c ∈ explore G side dirs fuel seen todo, OpenPath G side start c
  | 0, _, _, hseen, _, c, hc => hseen c hc
  | _ + 1, _, [], hseen, _, c, hc => hseen c hc
  | fuel + 1, seen, a :: todo, hseen, htodo, c, hc => by
    let new := ((dirs.filter (side a)).map (G.next a)).filter fun b => b ∉ seen
    have hnew : ∀ b ∈ new, OpenPath G side start b := fun b hb => by
      obtain ⟨hb, -⟩ := List.mem_filter.mp hb
      obtain ⟨d, hd, rfl⟩ := List.mem_map.mp hb
      exact (htodo a List.mem_cons_self).step (List.mem_filter.mp hd).2
    have hseen' : ∀ b ∈ new ++ seen, OpenPath G side start b := fun b hb => by
      rcases List.mem_append.mp hb with hb | hb
      · exact hnew b hb
      · exact hseen b hb
    have htodo' : ∀ b ∈ todo ++ new, OpenPath G side start b := fun b hb => by
      rcases List.mem_append.mp hb with hb | hb
      · exact htodo b (List.mem_cons_of_mem a hb)
      · exact hnew b hb
    exact openPath_of_mem_explore hseen' htodo' c hc

end Explore

/-! ### Keys -/

section Keys
variable [DecidableEq D] {E : N → D → Prop} {good : N → Prop}

theorem exists_keys_of_path (hn : 0 < n) (hback : ∀ d : D, d ≠ G.back d) {a b : N}
    (path : OpenPath G side a b) (h : Option D) :
    ∃ keys h', Machine.run (drive G n side) (.node a h) keys = .node b h' := by
  induction path with
  | refl => exact ⟨[], h, rfl⟩
  | tail _ hstep ih =>
    obtain ⟨d, hs, rfl⟩ := hstep
    obtain ⟨keys, h', hk⟩ := ih
    exact ⟨keys ++ List.replicate n (some d), some d, by
      rw [Machine.run_append, hk, drive_across hn (hback d) hs]⟩

/-- From anywhere on allowed edges there are keys that drive the walker to any good node, when paths join
    all good nodes. -/
theorem exists_keys (hn : 0 < n) (hback : ∀ d : D, d ≠ G.back d) (hc : Closed G E good)
    (hpath : ∀ a b, good a → good b → OpenPath G side a b) {p : Place N D} (hp : Legal n E good p) {b : N}
    (hb : good b) : ∃ keys h, Machine.run (drive G n side) p keys = .node b h := by
  cases p with
  | node a h => exact exists_keys_of_path hn hback (hpath a b hp hb) h
  | edge a d k =>
    -- First to the end of the edge.
    obtain ⟨h0, hk, he⟩ := hp
    obtain ⟨keys, h, hrun⟩ := exists_keys_of_path hn hback (hpath (G.next a d) b (hc.arrive he) hb) (some d)
    exact ⟨List.replicate (n - k) (some d) ++ keys, h, by
      rw [Machine.run_append, drive_along (hback d) h0 hk, hrun]⟩

/-- There are keys that take the walker through all of a list of good nodes. -/
theorem exists_tour (hn : 0 < n) (hback : ∀ d : D, d ≠ G.back d) (hc : Closed G E good)
    (hpath : ∀ a b, good a → good b → OpenPath G side a b) :
    ∀ (goals : List N) {p : Place N D}, Legal n E good p → (∀ b ∈ goals, good b) →
      ∃ keys : List (Option D), ∀ b ∈ goals, ∃ k h, Machine.run (drive G n side) p (keys.take k) = .node b h
  | [], _, _, _ => ⟨[], fun _ hb => by cases hb⟩
  | a :: goals, p, hp, hgoals => by
    obtain ⟨keys, h, hrun⟩ := exists_keys hn hback hc hpath hp (hgoals a List.mem_cons_self)
    have ha : Legal n E good (.node a h) := hgoals a List.mem_cons_self
    obtain ⟨rest, hrest⟩ := exists_tour hn hback hc hpath goals ha fun b hb => hgoals b (List.mem_cons_of_mem a hb)
    refine ⟨keys ++ rest, fun b hb => ?_⟩
    rcases List.mem_cons.mp hb with rfl | hb
    · exact ⟨keys.length, h, by rw [List.take_left, hrun]⟩
    · obtain ⟨k, h', hk⟩ := hrest b hb
      exact ⟨keys.length + k, h', by rw [List.take_length_add_append, Machine.run_append, hrun, hk]⟩

end Keys

end Walker
