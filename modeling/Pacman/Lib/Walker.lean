import Mathlib.Logic.Relation
import Pacman.Lib.Counter
import Pacman.Lib.Machine

/-! A walker on a graph whose edges have length `n`. It stands on a node, or `k` steps out of a node
    inside an edge. On a node it turns into an edge or stops; inside an edge it goes on or turns back.
    Nothing here depends on how the graph lies in a plane. -/

/-- A graph whose edges leave a node by direction; every edge can be walked back. -/
structure PortGraph (N D : Type*) where
  next : N → D → N
  back : D → D
  back_back : ∀ d, back (back d) = d
  next_back : ∀ c d, next (next c d) (back d) = c

namespace Walker

variable {N D : Type*}

/-- Where the walker is, with the direction it last moved in: on a node (no heading when it stopped
    there), or `k` steps out of `c` inside the edge that leaves `c` in direction `d`. -/
inductive Place (N D : Type*) where
  | node (c : N) (heading : Option D)
  | edge (c : N) (d : D) (k : ℕ)
  deriving DecidableEq

namespace Place

def heading : Place N D → Option D
  | node _ h => h
  | edge _ d _ => some d

@[simp] theorem heading_node (c : N) (h : Option D) : (node c h).heading = h := rfl

@[simp] theorem heading_edge (c : N) (d : D) (k : ℕ) : (edge c d k).heading = some d := rfl

end Place

open Place

section Move
variable (G : PortGraph N D) (n : ℕ)

/-- One step further into the edge from `c` in direction `d`, from `k` steps out of `c`. -/
def advance (c : N) (d : D) (k : ℕ) : Place N D :=
  if k + 1 < n then .edge c d (k + 1) else .node (G.next c d) (some d)

/-- A move: on a node into the edge `turn`, or a stop; inside an edge onwards, or back. -/
def move (turn : Option D) (reverse : Bool) : Place N D → Place N D
  | .node c _ =>
    match turn with
    | none => .node c none
    | some d => advance G n c d 0
  | .edge c d k => if reverse then advance G n (G.next c d) (G.back d) (n - k) else advance G n c d k

@[simp] theorem heading_advance (c : N) (d : D) (k : ℕ) : (advance G n c d k).heading = some d := by
  unfold advance
  split <;> rfl

@[simp] theorem move_stop (reverse : Bool) (c : N) (h : Option D) :
    move G n none reverse (.node c h) = .node c none := rfl

@[simp] theorem move_turn (reverse : Bool) (c : N) (h : Option D) (d : D) :
    move G n (some d) reverse (.node c h) = advance G n c d 0 := rfl

@[simp] theorem move_on (turn : Option D) (c : N) (d : D) (k : ℕ) :
    move G n turn false (.edge c d k) = advance G n c d k := rfl

@[simp] theorem move_back (turn : Option D) (c : N) (d : D) (k : ℕ) :
    move G n turn true (.edge c d k) = advance G n (G.next c d) (G.back d) (n - k) := rfl

end Move

/-! ### Allowed edges -/

section Legal
variable {G : PortGraph N D} {n : ℕ} {E : N → D → Prop} {good : N → Prop}

/-- The walker stands on a good node or strictly inside an allowed edge. -/
def Legal (n : ℕ) (E : N → D → Prop) (good : N → Prop) : Place N D → Prop
  | .node c _ => good c
  | .edge c d k => 0 < k ∧ k < n ∧ E c d

/-- Allowed edges can be walked back, and lead to good nodes. -/
structure Closed (G : PortGraph N D) (E : N → D → Prop) (good : N → Prop) : Prop where
  back : ∀ {c d}, E c d → E (G.next c d) (G.back d)
  arrive : ∀ {c d}, E c d → good (G.next c d)

theorem Legal.advance (hc : Closed G E good) {c : N} {d : D} (k : ℕ) (he : E c d) :
    Legal n E good (advance G n c d k) := by
  unfold Walker.advance
  split
  next hk => exact ⟨Nat.succ_pos k, hk, he⟩
  next => exact hc.arrive he

/-- A walker that enters allowed edges only stays on allowed edges and good nodes. -/
theorem Legal.move (hc : Closed G E good) {p : Place N D} (h : Legal n E good p) (turn : Option D)
    (reverse : Bool) (enter : ∀ c hd d, p = .node c hd → turn = some d → E c d) :
    Legal n E good (move G n turn reverse p) := by
  cases p with
  | node c hd =>
    cases turn with
    | none => exact h
    | some d => exact Legal.advance hc 0 (enter c hd d rfl rfl)
  | edge c d k =>
    obtain ⟨-, -, he⟩ := h
    cases reverse with
    | false => exact Legal.advance hc k he
    | true => exact Legal.advance hc (n - k) (hc.back he)

theorem Legal.mono {E' : N → D → Prop} {good' : N → Prop} (hE : ∀ c d, E c d → E' c d)
    (hgood : ∀ c, good c → good' c) {p : Place N D} (h : Legal n E good p) : Legal n E' good' p := by
  cases p with
  | node c hd => exact hgood c h
  | edge c d k => exact ⟨h.1, h.2.1, hE c d h.2.2⟩

end Legal

/-! ### Distance to go -/

section Togo
variable {G : PortGraph N D} {n : ℕ} (togo : N → ℕ)

/-- The moves left until the goal of a walker whose nodes are `togo` moves away from it and that does
    not turn back. -/
def movesLeft (G : PortGraph N D) (n : ℕ) : Place N D → ℕ
  | .node c _ => togo c
  | .edge c d k => (n - k) + togo (G.next c d)

theorem movesLeft_advance {c : N} {d : D} {k : ℕ} (hk : k < n) :
    movesLeft togo G n (advance G n c d k) + 1 = (n - k) + togo (G.next c d) := by
  unfold advance
  split
  next => simp only [movesLeft]; omega
  next => simp only [movesLeft]; omega

/-- Each move takes one from the moves left when a turn leads to a node that is one edge closer. -/
theorem movesLeft_move {p : Place N D} {turn : Option D} (hn : 0 < n)
    (hp : ∀ c d k, p = .edge c d k → k < n)
    (enter : ∀ c hd, p = .node c hd → ∃ d, turn = some d ∧ togo c = n + togo (G.next c d)) :
    movesLeft togo G n (move G n turn false p) + 1 = movesLeft togo G n p := by
  cases p with
  | node c hd =>
    obtain ⟨d, rfl, hd'⟩ := enter c hd rfl
    simpa [movesLeft, hd'] using movesLeft_advance togo (G := G) (c := c) (d := d) hn
  | edge c d k => exact movesLeft_advance togo (hp c d k rfl)

end Togo

/-! ### Walkers abreast -/

section Abreast
variable {G : PortGraph N D} {n k : ℕ} {shade : N → Bool} {p q : Place N D}

namespace Place

/-- The node that the walker is on, or has left last. -/
def base : Place N D → N
  | node c _ => c
  | edge c _ _ => c

/-- The steps since then. -/
def out : Place N D → ℕ
  | node _ _ => 0
  | edge _ _ k => k

end Place

/-- Where a walker is after `k` moves that were neither a stop nor a turn back, from a dark node of a graph
    whose nodes are shaded like a chess board. -/
structure Abreast (n : ℕ) (shade : N → Bool) (k : ℕ) (p : Place N D) : Prop where
  out_eq : p.out = k % n
  shade_eq : shade p.base = decide (k / n % 2 = 1)

theorem Abreast.advance (hn : 0 < n) (hshade : ∀ c d, shade (G.next c d) = !shade c) {c : N} {d : D}
    (hc : shade c = decide (k / n % 2 = 1)) : Abreast n shade (k + 1) (advance G n c d (k % n)) := by
  have hmod := Counter.next_mod hn k
  have hdiv := Counter.div_succ hn k
  unfold Counter.next at hmod
  unfold Walker.advance
  split
  next hin =>
    rw [if_neg (Nat.not_le.mpr hin)] at hmod hdiv
    exact ⟨hmod, by rw [hdiv]; exact hc⟩
  next hend =>
    rw [if_pos (Nat.not_lt.mp hend)] at hmod hdiv
    refine ⟨hmod, ?_⟩
    have htwo := Nat.mod_lt (k / n) (by decide : 0 < 2)
    rw [hdiv]
    change shade (G.next c d) = _
    rw [hshade, hc, Bool.eq_iff_iff]
    simp only [Bool.not_eq_true', decide_eq_false_iff_not, decide_eq_true_eq]
    omega

theorem Abreast.move (hn : 0 < n) (hshade : ∀ c d, shade (G.next c d) = !shade c) (h : Abreast n shade k p)
    {turn : Option D} (hturn : ∀ c hd, p = .node c hd → ∃ d, turn = some d) :
    Abreast n shade (k + 1) (move G n turn false p) := by
  obtain ⟨hout, hc⟩ := h
  cases p with
  | node c hd =>
    obtain ⟨d, rfl⟩ := hturn c hd rfl
    rw [move_turn, show (0 : ℕ) = k % n from hout]
    exact Abreast.advance hn hshade hc
  | edge c d j =>
    rw [move_on, show j = k % n from hout]
    exact Abreast.advance hn hshade hc

/-- Two walkers abreast in one edge entered it at the same end. -/
theorem Abreast.same_edge (hshade : ∀ c d, shade (G.next c d) = !shade c) {c c' : N} {d d' : D} {j j' : ℕ}
    (h : Abreast n shade k (.edge c d j)) (h' : Abreast n shade k (.edge c' d' j'))
    (hedge : c' = c ∧ d' = d ∨ c' = G.next c d ∧ d' = G.back d) :
    (.edge c' d' j' : Place N D) = .edge c d j := by
  rcases hedge with ⟨rfl, rfl⟩ | ⟨rfl, rfl⟩
  · rw [show j' = j from h'.out_eq.trans h.out_eq.symm]
  · have hopposite : shade (G.next c d) = shade c := h'.shade_eq.trans h.shade_eq.symm
    rw [hshade] at hopposite
    cases hc : shade c <;> rw [hc] at hopposite <;> cases hopposite

end Abreast

/-! ### A walker driven by keys -/

section Drive
variable (G : PortGraph N D) (n : ℕ) (side : N → D → Bool)

/-- The way taken at a node: the key's side if it is open, else straight on if that is open, else
    a stop. -/
def turn (key heading : Option D) (c : N) : Option D :=
  if key.any (side c) then key else if heading.any (side c) then heading else none

theorem turn_open {side : N → D → Bool} {key h : Option D} {c : N} {d : D}
    (ht : turn side key h c = some d) : side c d = true := by
  unfold turn at ht
  split at ht
  next hk => subst ht; exact hk
  next =>
    split at ht
    next hh => subst ht; exact hh
    next => cases ht

theorem turn_key {side : N → D → Bool} {h : Option D} {c : N} {d : D} (hd : side c d = true) :
    turn side (some d) h c = some d := by
  simp [turn, hd]

variable [DecidableEq D]

/-- A driven walker turns by `turn` on a node, and turns back inside an edge on the opposite key. -/
def drive (p : Place N D) (key : Option D) : Place N D :=
  match p with
  | .node c h => move G n (turn side key h c) false (.node c h)
  | .edge c d k => move G n none (key == some (G.back d)) (.edge c d k)

theorem drive_eq_move (p : Place N D) (key : Option D) :
    ∃ turn reverse, drive G n side p key = move G n turn reverse p := by
  cases p with
  | node c h => exact ⟨_, false, rfl⟩
  | edge c d k => exact ⟨none, _, rfl⟩

variable {G n side}

@[simp] theorem heading_drive_node (c : N) (h key : Option D) :
    (drive G n side (.node c h) key).heading = turn side key h c := by
  unfold drive
  dsimp only
  cases turn side key h c <;> simp

theorem heading_drive_edge (c : N) (d : D) (k : ℕ) (key : Option D) :
    (drive G n side (.edge c d k) key).heading = some (if key = some (G.back d) then G.back d else d) := by
  unfold drive
  dsimp only
  by_cases hk : key = some (G.back d)
  · simp [hk]
  · have hne : (key == some (G.back d)) = false := by simpa using hk
    simp [hk, hne]

/-- A driven walker turns on the key only. -/
theorem heading_drive_cases {p : Place N D} {key : Option D} {d : D} (h : (drive G n side p key).heading = some d) :
    key = some d ∨ p.heading = some d := by
  cases p with
  | node c hd =>
    rw [heading_drive_node] at h
    unfold turn at h
    split at h
    next => exact Or.inl h
    next =>
      split at h
      next => exact Or.inr h
      next => cases h
  | edge c e k =>
    rw [heading_drive_edge] at h
    split at h
    next hkey => exact Or.inl (hkey.trans h)
    next => exact Or.inr h

/-- The walker goes as the key says, or stands before a closed side. -/
def Steered (side : N → D → Bool) (d : D) (p : Place N D) : Prop :=
  p.heading = some d ∨ ∃ c, p = .node c none ∧ side c d = false

/-- A key that is held steers the walker, or he goes straight on. -/
theorem steered_or_straight (side : N → D → Bool) (p : Place N D) (d : D) : Steered side d (drive G n side p (some d)) ∨
    ∃ e, p.heading = some e ∧ (drive G n side p (some d)).heading = some e := by
  cases p with
  | node c h =>
    cases hopen : side c d with
    | true => exact Or.inl (Or.inl (by rw [heading_drive_node, turn_key hopen]))
    | false =>
      have hturn : turn side (some d) h c = if h.any (side c) then h else none := by
        simp [turn, hopen]
      by_cases hon : h.any (side c) = true
      · obtain ⟨e, rfl, -⟩ := (Option.any_eq_true _ _).mp hon
        exact Or.inr ⟨e, rfl, by rw [heading_drive_node, hturn, if_pos hon]⟩
      · rw [if_neg hon] at hturn
        refine Or.inl (Or.inr ⟨c, ?_, hopen⟩)
        simp only [drive, hturn, move_stop]
  | edge c e k =>
    by_cases hback : some d = some (G.back e)
    · refine Or.inl (Or.inl ?_)
      rw [heading_drive_edge, if_pos hback, ← hback]
    · exact Or.inr ⟨e, rfl, by rw [heading_drive_edge, if_neg hback]⟩

theorem Steered.drive {p : Place N D} {d : D} (h : Steered side d p) : Steered side d (drive G n side p (some d)) := by
  rcases steered_or_straight (G := G) (n := n) side p d with hsteered | ⟨e, he, hnext⟩
  · exact hsteered
  · rcases h with hd | ⟨c, rfl, -⟩
    · rw [hd] at he
      exact Or.inl (hnext.trans he.symm)
    · cases he

theorem drive_congr {side' : N → D → Bool} {p : Place N D} (h : ∀ c hd, p = .node c hd → side c = side' c)
    (key : Option D) : drive G n side p key = drive G n side' p key := by
  cases p with
  | node c hd => simp only [drive, turn, h c hd rfl]
  | edge c d k => rfl

theorem Legal.drive {E : N → D → Prop} {good : N → Prop} (hc : Closed G E good)
    (hside : ∀ c d, good c → side c d = true → E c d) {p : Place N D} (h : Legal n E good p)
    (key : Option D) : Legal n E good (drive G n side p key) := by
  cases p with
  | node c hd =>
    refine Legal.move hc h _ false fun c' hd' d hp ht => ?_
    cases hp
    exact hside c d h (turn_open ht)
  | edge c d k => exact Legal.move hc h none _ fun _ _ _ hp => by cases hp

theorem drive_on {c : N} {d : D} (hd : d ≠ G.back d) (k : ℕ) :
    drive G n side (.edge c d k) (some d) = advance G n c d k := by
  have hne : (some d == some (G.back d)) = false := by simpa using hd
  simp only [Walker.drive, hne, move_on]

/-- Holding the key of an edge's direction walks the edge to its end. -/
theorem drive_along {c : N} {d : D} (hd : d ≠ G.back d) :
    ∀ {k : ℕ}, 0 < k → k < n →
      Machine.run (drive G n side) (.edge c d k) (List.replicate (n - k) (some d)) =
        .node (G.next c d) (some d) := by
  intro k hk hkn
  obtain ⟨m, hm⟩ : ∃ m, n - k = m + 1 := ⟨n - k - 1, by omega⟩
  induction m generalizing k with
  | zero =>
    have hend : ¬k + 1 < n := by omega
    simp [hm, drive_on hd, advance, hend]
  | succ m ih =>
    have hin : k + 1 < n := by omega
    have hstep : Walker.drive G n side (.edge c d k) (some d) = .edge c d (k + 1) := by
      simp [drive_on hd, advance, hin]
    rw [hm, List.replicate_succ, Machine.run_cons, hstep]
    have := ih (k := k + 1) (by omega) hin (by omega)
    rwa [show n - (k + 1) = m + 1 by omega] at this

theorem drive_across (hn : 0 < n) {c : N} {d : D} (hd : d ≠ G.back d) (hs : side c d = true)
    (h : Option D) :
    Machine.run (drive G n side) (.node c h) (List.replicate n (some d)) =
      .node (G.next c d) (some d) := by
  obtain ⟨m, rfl⟩ : ∃ m, n = m + 1 := ⟨n - 1, by omega⟩
  rw [List.replicate_succ, Machine.run_cons]
  have hstep : Walker.drive G (m + 1) side (.node c h) (some d) = advance G (m + 1) c d 0 := by
    simp [Walker.drive, turn_key hs]
  rw [hstep]
  unfold advance
  split
  next hm => exact drive_along hd Nat.one_pos hm
  next hm =>
    obtain rfl : m = 0 := by omega
    rfl

end Drive

end Walker
