import Mathlib.Data.Set.Insert
import Pacman.Lib.Walker

/-! A chase on a port graph. A hero who is driven by keys collects pellets; hunters walk about, and a hunter
    that touches him takes him back to the first stage. When the last pellet of a stage is eaten, everybody
    goes back to the start and waits for the next stage. Nothing here depends on the graph. -/

namespace Chase
open Walker Machine

/-- The graph with the length of its edges; the open sides and the pellets of each stage, and the open sides
    between stages; where the figures start; the way of a hunter that finds no open side; and when a hunter
    touches the hero. -/
structure Rules (N D γ : Type*) where
  graph : PortGraph N D
  length : ℕ
  stageSide : ℕ → N → D → Bool
  pellets : ℕ → Set N
  waitingSide : N → D → Bool
  heroStart : N
  hunterStart : γ → N
  noWay : D
  touching : Place N D → Place N D → Prop

/-- The state of a chase. `stage` counts the stages that were cleared, and `held` says that the figures are
    still held at their starts. -/
structure State (N D γ : Type*) where
  stage : ℕ
  playing : Bool
  held : Bool
  hero : Place N D
  hunters : γ → Place N D
  eaten : Set N

/-- What a step meets: whether the chase is aborted, whether the next stage may begin, the key, and which
    figures move. -/
structure Event (D : Type*) where
  abort : Bool
  go : Bool
  key : Option D
  heroMoves : Bool
  huntersMove : Bool

variable {N D γ : Type*}

namespace Rules
variable (R : Rules N D γ) (s : State N D γ)

/-- The figures at their starts before a stage. -/
def start (stage : ℕ) : State N D γ where
  stage := stage
  playing := false
  held := true
  hero := .node R.heroStart none
  hunters := fun g => .node (R.hunterStart g) none
  eaten := ∅

def side : N → D → Bool := if s.playing then R.stageSide s.stage else R.waitingSide

def Caught : Prop := ∃ g, R.touching s.hero (s.hunters g)

def Cleared : Prop := s.playing = true ∧ R.pellets s.stage ⊆ s.eaten

/-- A hunter goes on, or turns into an open side, or where it must if there is none. -/
def HunterMoves (side : N → D → Bool) (p q : Place N D) : Prop :=
  ∃ turn, (∀ c h, p = .node c h →
      ∃ d, turn = some d ∧ (side c d = true ∨ (∀ d', side c d' = false) ∧ d = R.noWay)) ∧
    q = move R.graph R.length turn false p

variable [DecidableEq D]

/-- What the figures do in a step that ends no stage. -/
structure FiguresMove (e : Event D) (s' : State N D γ) : Prop where
  hero : s'.hero = if s.held then .node R.heroStart none
    else if e.heroMoves then drive R.graph R.length (R.side s) s.hero e.key else s.hero
  hunters : ∀ g, if s.held then s'.hunters g = .node (R.hunterStart g) none
    else if e.huntersMove then R.HunterMoves (R.side s) (s.hunters g) (s'.hunters g)
    else s'.hunters g = s.hunters g
  eaten : s'.eaten = if s.held then ∅ else s.eaten ∪ {c | ∃ h, s.hero = .node c h}

inductive Step : State N D γ → Event D → State N D γ → Prop
  | abort {s : State N D γ} {e : Event D} : e.abort = true → Step s e (R.start 0)
  | caught {s : State N D γ} {e : Event D} : e.abort = false → R.Caught s → Step s e (R.start 0)
  | cleared {s : State N D γ} {e : Event D} : e.abort = false → ¬R.Caught s → R.Cleared s →
      Step s e (R.start (s.stage + 1))
  | play {s s' : State N D γ} {e : Event D} : e.abort = false → ¬R.Caught s → ¬R.Cleared s →
      R.FiguresMove s e s' → s'.stage = s.stage → s'.playing = (s.playing || e.go) → s'.held = false → Step s e s'

/-- The runs from the first start. -/
abbrev IsRun : List (Event D) → (ℕ → State N D γ) → Prop := Machine.IsRun R.Step (R.start 0)

/-! ### Stages -/

variable {R} {es : List (Event D)} {t : ℕ → State N D γ} {k m : ℕ}

/-- A step ends at the first stage, ends one stage more by clearing one, or keeps the stage. -/
theorem Step.stage_cases {s s' : State N D γ} {e : Event D} (h : R.Step s e s') :
    s'.stage = 0 ∨ (s'.stage = s.stage + 1 ∧ R.Cleared s ∧ ¬R.Caught s) ∨ s'.stage = s.stage := by
  cases h with
  | abort => exact Or.inl rfl
  | caught => exact Or.inl rfl
  | cleared _ hcaught hcleared => exact Or.inr (Or.inl ⟨rfl, hcleared, hcaught⟩)
  | play _ _ _ _ hstage => exact Or.inr (Or.inr hstage)

/-- Every stage that counts was cleared: at some moment it was played with all its pellets eaten and no hunter
    at the hero, and it has counted ever since, with the stages after it. -/
theorem exists_cleared (h : R.IsRun es t) (hk : k ≤ es.length) (hm : m < (t k).stage) :
    ∃ j < k, (t j).stage = m ∧ R.Cleared (t j) ∧ ¬R.Caught (t j) ∧
      ∀ l, j < l → l ≤ k → m < (t l).stage ∧ (t l).stage ≤ (t k).stage := by
  induction k with
  | zero =>
    rw [h.start] at hm
    exact absurd hm (Nat.not_lt_zero m)
  | succ k ih =>
    have hstep := h.step k es[k] (List.getElem?_eq_getElem hk)
    have hlater : m < (t k).stage → (t k).stage ≤ (t (k + 1)).stage →
        ∃ j < k + 1, (t j).stage = m ∧ R.Cleared (t j) ∧ ¬R.Caught (t j) ∧
          ∀ l, j < l → l ≤ k + 1 → m < (t l).stage ∧ (t l).stage ≤ (t (k + 1)).stage := by
      intro hlt hle
      obtain ⟨j, hj, hstage, hcleared, hcaught, hsince⟩ := ih (by omega) hlt
      refine ⟨j, by omega, hstage, hcleared, hcaught, fun l hl hlk => ?_⟩
      rcases Nat.lt_succ_iff_lt_or_eq.mp (Nat.lt_succ_of_le hlk) with hlt' | rfl
      · obtain ⟨hlow, hhigh⟩ := hsince l hl (by omega)
        exact ⟨hlow, hhigh.trans hle⟩
      · exact ⟨hm, le_rfl⟩
    rcases hstep.stage_cases with hzero | ⟨hsucc, hcleared, hcaught⟩ | hsame
    · rw [hzero] at hm
      exact absurd hm (Nat.not_lt_zero m)
    · rcases Nat.lt_or_ge m (t k).stage with hlt | hge
      · exact hlater hlt (by omega)
      · refine ⟨k, by omega, by omega, hcleared, hcaught, fun l hl hle => ?_⟩
        obtain rfl : l = k + 1 := by omega
        exact ⟨hm, le_rfl⟩
    · exact hlater (hsame ▸ hm) hsame.ge

end Rules

end Chase
