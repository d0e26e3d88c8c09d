import Pacman.Console
import Pacman.Theorems.Completion
import Pacman.Theorems.UsbMain

/-! The keyboard and the game. However the pieces of `main` and the `Clk` edges alternate and whatever the chip replies, a
    level begins on the enter key only, and Pac-Man moves only as keys of the level have ordered; each of these keys has
    come from an enumerated keyboard. -/

namespace Pacman
open Lattice Walker Machine Trace

theorem eq_codeOf_of_keyDir {keycode : BitVec 16} {d : Dir} (h : keyDir keycode = some d) : keycode = codeOf (some d) := by
  unfold keyDir at h
  split at h
  next hkey => cases h; exact hkey
  next =>
    split at h
    next hkey => cases h; exact hkey
    next =>
      split at h
      next hkey => cases h; exact hkey
      next =>
        split at h
        next hkey => cases h; exact hkey
        next => cases h

theorem Control.enter_of_begins {c : Control} {keycode : BitVec 16} {died left : Bool} (hpre : c.isPre = true)
    (hl : (c.next keycode died left).isPre = false) : keycode = codeEnter := by
  obtain ⟨state, resetAll⟩ := c
  cases died with
  | true => cases hl
  | false =>
    by_contra hkey
    cases state with
    | newGame | beat1 | beat2 =>
      simp only [next, if_neg hkey] at hl
      cases hl
    | level1 | level2 => cases hpre

namespace Console

variable {s : Console} {as : List Action} {a : Action} {v : ℕ → BitVec 16} {c : BitVec 16} {k : ℕ}

/-! ### The two sides -/

def reply (vs : List (ℕ → BitVec 16)) : Action → List (ℕ → BitVec 16)
  | .software v => vs ++ [v]
  | .clk true => []
  | .clk false => vs

/-- The replies to `main` since the reset button was down. -/
def replies (as : List Action) : List (ℕ → BitVec 16) := run reply [] as

/-- What has happened on the bus since then. -/
def heard (as : List Action) : List BusEvent := UsbMain.trace (replies as)

theorem software_eq (as : List Action) : (run step reset as).software = run UsbMain.step UsbMain.start (replies as) := by
  induction as using List.reverseRecOn with
  | nil => rfl
  | append_singleton as a ih =>
    rw [replies, run_snoc, run_snoc, ← replies]
    cases a with
    | software v => rw [reply, run_snoc, ← ih, step]
    | clk resetH =>
      cases resetH with
      | true => rfl
      | false => exact ih

theorem game_reachable (as : List Action) : (run step reset as).board.game.Reachable := by
  induction as using List.reverseRecOn with
  | nil => exact Reachable.refl
  | append_singleton as a ih =>
    rw [run_snoc]
    cases a with
    | software v => exact ih
    | clk resetH => exact Reachable.tail ih _

theorem game_clk (s : Console) (resetH : Bool) :
    (s.step (.clk resetH)).board.game = s.board.game.step (s.board.edge (s.input resetH)) := rfl

def Playing (s : Console) : Prop := s.board.game.control.isPre = false

instance : DecidablePred Playing := fun s => inferInstanceAs (Decidable (s.board.game.control.isPre = false))

/-! ### Key codes -/

def Stores (c : BitVec 16) (s : Console) : Action → Prop
  | .software v => .keycode c ∈ s.software.events v
  | .clk .. => False

/-- The action number `k` of the run stores the key code `c`, which is the low byte of the word that it reads. Since the
    last soft reset the keyboard has been enumerated, and it has been asked for this word. -/
def KeyStored (as : List Action) (k : ℕ) (c : BitVec 16) : Prop :=
  ∃ v w toggle, as[k]? = some (.software v) ∧
    (run step reset (as.take k)).software.events v = UsbMain.loaded 0x051e (v 0) ++ [.keycode c] ∧ c = v 0 &&& 0xff ∧
    InOrder (UsbMain.enumeration w ++ [UsbMain.sent (keyboardPoll ((w &&& 0x0ff).setWidth 8) toggle),
      UsbMain.loaded hpiSie1MsgAdr husbTDListDone]) (sinceLast IsReset (heard (as.take k)))

theorem keyStored (ha : as[k]? = some a) (h : Stores c (run step reset (as.take k)) a) : KeyStored as k c := by
  cases a with
  | clk resetH => exact h.elim
  | software v =>
    obtain ⟨hplace, rfl⟩ := UsbMain.keycode_mem_events.mp h
    have hevents := UsbMain.events_keycode (v := v) hplace
    rw [software_eq] at hplace
    obtain ⟨w, toggle, horder⟩ := UsbMain.enumerated_at_keycode hplace
    exact ⟨v, w, toggle, ha, hevents, rfl, horder⟩

theorem keycode_store {es : List BusEvent} {p : Ports} (h : ∀ e ∈ es, ¬IsKeycode e) :
    (es.foldl Ports.store p).keycode = p.keycode := by
  induction es generalizing p with
  | nil => rfl
  | cons e es ih =>
    obtain ⟨he, hes⟩ := List.forall_mem_cons.mp h
    have hkeep : (p.store e).keycode = p.keycode := by
      cases e with
      | keycode value => exact absurd ⟨value, rfl⟩ he
      | write | read | random => rfl
    exact (ih hes).trans hkeep

theorem keycode_software (s : Console) (v : ℕ → BitVec 16) : (s.step (.software v)).ports.keycode = s.ports.keycode ∨
    Stores (s.step (.software v)).ports.keycode s (.software v) := by
  by_cases hplace : s.software.place = .keycode
  · refine Or.inr (UsbMain.keycode_mem_events.mpr ⟨hplace, ?_⟩)
    rw [step, UsbMain.events_keycode hplace]
    rfl
  · exact Or.inl (keycode_store (UsbMain.not_isKeycode_events hplace))

theorem keycode_cases (s : Console) (a : Action) : (s.step a).ports.keycode = s.ports.keycode ∨
    Stores (s.step a).ports.keycode s a ∨ (s.step a).ports.keycode = 0 := by
  cases a with
  | software v => exact (keycode_software s v).imp_right Or.inl
  | clk resetH =>
    cases resetH with
    | true => exact Or.inr (Or.inr rfl)
    | false => exact Or.inl rfl

/-- The key code that the game sees has been stored, and stands since then. -/
theorem exists_keyStored (hc : c ≠ 0) (h : (run step reset as).ports.keycode = c) :
    ∃ k < as.length, KeyStored as k c ∧ ∀ j, k < j → j ≤ as.length → (run step reset (as.take j)).ports.keycode = c := by
  have h0 : ¬reset.ports.keycode = c := fun heq => hc heq.symm
  obtain ⟨k, a, ha, hnot, hsince⟩ := exists_onset (P := fun s : Console => s.ports.keycode = c) h0 h
  have hk := (List.getElem?_eq_some_iff.mp ha).1
  have hnext := hsince (k + 1) (Nat.lt_succ_self k) hk
  rw [run_take_succ step reset ha] at hnext
  refine ⟨k, hk, ?_, hsince⟩
  rcases keycode_cases (run step reset (as.take k)) a with hkeep | hstores | hzero
  · exact absurd (hkeep.symm.trans hnext) hnot
  · rw [hnext] at hstores
    exact keyStored ha hstores
  · exact absurd (hnext.symm.trans hzero) hc

/-! ### Levels -/

/-- The only action that begins a level is an edge that meets the enter key. -/
theorem begins_on_enter (hpre : ¬Playing s) (h : Playing (s.step a)) :
    s.ports.keycode = Control.codeEnter ∧ a = .clk false := by
  rw [Playing, Bool.not_eq_false] at hpre
  cases a with
  | software v => exact absurd (hpre.symm.trans h) (by decide)
  | clk resetH =>
    rw [Playing, game_clk] at h
    cases resetH with
    | true =>
      rw [Lab8.controlNext_reset rfl] at h
      cases h
    | false =>
      rw [Lab8.controlNext_eq rfl] at h
      exact ⟨Control.enter_of_begins hpre h, rfl⟩

/-- A level that is played has begun at an edge that met the enter key; this key has come from an enumerated keyboard,
    and no other key code was stored, nor the button pressed, between it and the edge. -/
theorem levels_begin_on_enter (as : List Action) (h : Playing (run step reset as)) :
    ∃ m k, m < k ∧ KeyStored as m Control.codeEnter ∧
      (∀ j, m < j → j ≤ k → (run step reset (as.take j)).ports.keycode = Control.codeEnter) ∧
      as[k]? = some (.clk false) ∧ ¬Playing (run step reset (as.take k)) ∧
      ∀ j, k < j → j ≤ as.length → Playing (run step reset (as.take j)) := by
  have h0 : ¬Playing reset := by decide
  obtain ⟨k, a, ha, hpre, hsince⟩ := exists_onset h0 h
  have hk := (List.getElem?_eq_some_iff.mp ha).1
  have hnext := hsince (k + 1) (Nat.lt_succ_self k) hk
  rw [run_take_succ step reset ha] at hnext
  obtain ⟨hkey, rfl⟩ := begins_on_enter hpre hnext
  obtain ⟨m, hm, ⟨v, w, toggle, hv, hstored⟩, hstands⟩ := exists_keyStored (by decide) hkey
  have hlength : (as.take k).length = k := List.length_take_of_le (Nat.le_of_lt hk)
  rw [hlength] at hm
  have htake : ∀ j ≤ k, (as.take k).take j = as.take j := fun j hj => by rw [List.take_take, Nat.min_eq_left hj]
  rw [htake m (Nat.le_of_lt hm)] at hstored
  rw [List.getElem?_take_of_lt hm] at hv
  refine ⟨m, k, hm, ⟨v, w, toggle, hv, hstored⟩, fun j hmj hj => ?_, ha, hpre, hsince⟩
  rw [← htake j hj]
  exact hstands j hmj (hlength.symm ▸ hj)

/-- A chip that answers at once and a player who presses enter. -/
def enterRun : List Action :=
  (UsbMain.promptRun.dropLast ++ [fun _ => 0x0028]).map .software ++ [.clk false]

theorem levels_begin_on_enter_first : ∃ m k, m < k ∧ KeyStored enterRun m Control.codeEnter ∧
    (∀ j, m < j → j ≤ k → (run step reset (enterRun.take j)).ports.keycode = Control.codeEnter) ∧
    enterRun[k]? = some (.clk false) ∧ ¬Playing (run step reset (enterRun.take k)) ∧
    ∀ j, k < j → j ≤ enterRun.length → Playing (run step reset (enterRun.take j)) :=
  levels_begin_on_enter enterRun (by decide +kernel)

/-! ### Pac-Man -/

/-- The key code `c` has been stored in this level. -/
abbrev Ordered (c : BitVec 16) (as : List Action) : Prop :=
  OnceSince step (Stores c) (fun s _ => ¬Playing s) reset as

theorem Ordered.snoc (h : Ordered c as) (hplaying : Playing (run step reset as)) (a : Action) : Ordered c (as ++ [a]) :=
  onceSince_snoc.mpr ⟨not_not.mpr hplaying, Or.inr h⟩

/-- What the game has of the level's keys: the key code is that of the level's start or one of them, and Pac-Man is under
    way as one of them has ordered. -/
structure Obeys (as : List Action) : Prop where
  key : (run step reset as).ports.keycode = Control.codeEnter ∨ Ordered (run step reset as).ports.keycode as
  pac : ∃ p, (run step reset as).board.game.pac.DrawnAt p ∧ Legal cellSize BandEdge InBand p ∧
    ∀ d, p.heading = some d → Ordered (codeOf (some d)) as

theorem ordered_drive {p : Place Node Dir} {sides : Node → Dir → Bool} {d : Dir} {keycode : BitVec 16}
    (hkey : keycode = Control.codeEnter ∨ Ordered keycode as)
    (hpac : ∀ d, p.heading = some d → Ordered (codeOf (some d)) as)
    (h : (drive grid cellSize sides p (keyDir keycode)).heading = some d) : Ordered (codeOf (some d)) as := by
  rcases heading_drive_cases h with hd | hd
  · rcases hkey with rfl | hkey
    · cases hd
    · rwa [← eq_codeOf_of_keyDir hd]
  · exact hpac d hd

/-- Between the levels Pac-Man rests, also over the edge that ends the wait. -/
theorem ready_step (hpre : ¬Playing (run step reset as)) (i : Board.Input) :
    (run step reset as).board.game.Ready ∧ ((run step reset as).board.step i).game.Ready := by
  rw [Playing, Bool.not_eq_false] at hpre
  have hready := Lab8.ready_of_reachable (game_reachable as) hpre
  exact ⟨hready, hready.step hpre _⟩

theorem obeys (as : List Action) (h : Playing (run step reset as)) : Obeys as := by
  induction as using List.reverseRecOn with
  | nil => cases h
  | append_singleton as a ih =>
    have hstate : run step reset (as ++ [a]) = (run step reset as).step a := run_snoc ..
    rw [hstate] at h
    by_cases hplaying : Playing (run step reset as)
    · obtain ⟨hkey, p, hd, hp, hpac⟩ := ih hplaying
      have hpac' : ∀ d, p.heading = some d → Ordered (codeOf (some d)) (as ++ [a]) := fun d hdir =>
        (hpac d hdir).snoc hplaying a
      cases a with
      | software v =>
        refine ⟨?_, p, by rwa [hstate], hp, hpac'⟩
        rw [hstate]
        rcases keycode_software (run step reset as) v with hkeep | hstores
        · rw [hkeep]
          exact hkey.imp_right fun hk => hk.snoc hplaying _
        · exact Or.inr (onceSince_snoc.mpr ⟨not_not.mpr hplaying, Or.inl hstores⟩)
      | clk resetH =>
        rw [Playing, game_clk] at h
        have hr := Lab8.not_reset_of_level (game_reachable as) hplaying h
        obtain rfl : resetH = false := (Lab8.not_reset hr).1
        refine ⟨?_, ?_⟩
        · rw [hstate]
          exact hkey.imp_right fun hk => hk.snoc hplaying _
        · rw [hstate, game_clk, Lab8.step_pac hr]
          split
          next =>
            obtain ⟨hd', hp'⟩ := PacMotion.drawnAt_band (w := (run step reset as).board.game.walls) hd hp
              (run step reset as).ports.keycode
            exact ⟨_, hd', hp', fun d hdir => (ordered_drive hkey hpac hdir).snoc hplaying _⟩
          next => exact ⟨p, hd, hp, hpac'⟩
    · obtain ⟨hkey, rfl⟩ := begins_on_enter hplaying h
      refine ⟨Or.inl (by rw [hstate]; exact hkey), .node (5, 5) none, ?_, by unfold Legal InBand; decide, fun d hdir => ?_⟩
      · rw [hstate]
        exact (ready_step hplaying _).2.pac
      · cases hdir

/-- A frame leaves Pac-Man where he is, or takes him on in a direction that was ordered. -/
theorem Obeys.movePac (h : Obeys as) (w : Walls) : let pac := (run step reset as).board.game.pac
    let pac' := pac.movePac w (run step reset as).ports.keycode
    (pac'.pacXPos = pac.pacXPos ∧ pac'.pacYPos = pac.pacYPos) ∨
      ∃ d, (pac'.pacXPos.toNat : ℤ) - pac.pacXPos.toNat = d.dx ∧ (pac'.pacYPos.toNat : ℤ) - pac.pacYPos.toNat = d.dy ∧
        Ordered (codeOf (some d)) as := by
  intro pac pac'
  obtain ⟨hkey, p, hd, hp, hheading⟩ := h
  have hd' : pac'.DrawnAt _ := (PacMotion.drawnAt_band hd hp (run step reset as).ports.keycode).1
  obtain ⟨turn, reverse, hmove⟩ := drive_eq_move grid cellSize (side w) p (keyDir (run step reset as).ports.keycode)
  rw [hmove] at hd'
  obtain ⟨hx, hy⟩ := Depicts.displacement hd hd' hp
  rw [← hmove] at hx hy
  cases hdir : (drive grid cellSize (side w) p (keyDir (run step reset as).ports.keycode)).heading with
  | none =>
    rw [hdir, stepX_none, sub_eq_zero, Nat.cast_inj] at hx
    rw [hdir, stepY_none, sub_eq_zero, Nat.cast_inj] at hy
    exact Or.inl ⟨BitVec.eq_of_toNat_eq hx, BitVec.eq_of_toNat_eq hy⟩
  | some d =>
    rw [hdir] at hx hy
    exact Or.inr ⟨d, hx, hy, ordered_drive hkey hheading hdir⟩

theorem Ordered.exists_keyStored (h : Ordered c as) (hplaying : Playing (run step reset as)) :
    ∃ k, KeyStored as k c ∧ ∀ j, k ≤ j → j ≤ as.length → Playing (run step reset (as.take j)) := by
  obtain ⟨k, a, ha, hstores, hclear⟩ := h
  refine ⟨k, keyStored ha hstores, fun j hkj hj => ?_⟩
  rcases Nat.lt_or_eq_of_le hj with hlt | rfl
  · exact not_not.mp (hclear j _ hkj (List.getElem?_eq_getElem hlt))
  · rwa [List.take_length]

/-- Pac-Man obeys the keyboard. An edge or a piece of `main` puts him back, leaves him where he is, or moves him one pixel
    on in a direction whose key was stored before in the same level, and had come from an enumerated keyboard. -/
theorem pac_obeys_keyboard (as : List Action) (a : Action) :
    let pac := (run step reset as).board.game.pac
    let pac' := (run step reset (as ++ [a])).board.game.pac
    pac' = PacMotion.reset ∨ (pac'.pacXPos = pac.pacXPos ∧ pac'.pacYPos = pac.pacYPos) ∨
      ∃ d, (pac'.pacXPos.toNat : ℤ) - pac.pacXPos.toNat = d.dx ∧ (pac'.pacYPos.toNat : ℤ) - pac.pacYPos.toNat = d.dy ∧
        ∃ k, KeyStored as k (codeOf (some d)) ∧ ∀ j, k ≤ j → j ≤ as.length → Playing (run step reset (as.take j)) := by
  rw [run_snoc]
  cases a with
  | software v => exact Or.inr (Or.inl ⟨rfl, rfl⟩)
  | clk resetH =>
    rw [game_clk]
    by_cases hplaying : Playing (run step reset as)
    · by_cases hr : (run step reset as).board.game.resetObjects
          ((run step reset as).board.edge ((run step reset as).input resetH)) = true
      · exact Or.inl (Lab8.step_of_reset hr).1
      rw [Bool.not_eq_true] at hr
      rw [Lab8.step_pac hr]
      split
      next =>
        rcases (obeys as hplaying).movePac (run step reset as).board.game.walls with hrest | ⟨d, hx, hy, hordered⟩
        · exact Or.inr (Or.inl hrest)
        · exact Or.inr (Or.inr ⟨d, hx, hy, hordered.exists_keyStored hplaying⟩)
      next => exact Or.inr (Or.inl ⟨rfl, rfl⟩)
    · obtain ⟨hready, hready'⟩ := ready_step hplaying ((run step reset as).input resetH)
      refine Or.inr (Or.inl ⟨BitVec.eq_of_toNat_eq ?_, BitVec.eq_of_toNat_eq ?_⟩)
      · exact_mod_cast hready'.pac.xPos_eq.trans hready.pac.xPos_eq.symm
      · exact_mod_cast hready'.pac.yPos_eq.trans hready.pac.yPos_eq.symm

end Console

end Pacman
