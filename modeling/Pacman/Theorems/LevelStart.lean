import Pacman.Theorems.Console
import Pacman.Theorems.UsbProgress

/-! A key that is held down is heard. Wherever `main` is and whatever the game does, forty right replies bring the key
    to the register that the game sees, and a game that waits begins a level at the first `Clk` edge that meets enter. -/

namespace Pacman
open Machine

theorem Control.begins {c : Control} (hpre : c.isPre = true) (left : Bool) :
    (c.next codeEnter false left).isPre = false := by
  obtain ⟨state, resetAll⟩ := c
  cases state with
  | newGame | beat1 | beat2 => simp [next, isPre]
  | level1 | level2 => cases hpre

namespace Console

variable {s : Console} {a : Action} {key : BitVec 16} {v : ℕ → BitVec 16} {m : ℕ}

/-! ### The key -/

/-- What keeps the key from the game: the button, a wrong reply of the chip, and another key on the keyboard. -/
def Hinders (key : BitVec 16) (s : Console) : Action → Prop
  | .software v => s.software.reply v = .wrong ∨ (s.software.place = .keycode ∧ v 0 &&& 0xff ≠ key)
  | .clk resetH => resetH = true

instance : ∀ (key : BitVec 16) (s : Console) (a : Action), Decidable (Hinders key s a)
  | _, _, .software _ => inferInstanceAs (Decidable (_ ∨ _))
  | _, _, .clk _ => inferInstanceAs (Decidable (_ = _))

def Helps (s : Console) : Action → Bool
  | .software v => s.software.reply v = .right
  | .clk _ => false

/-- The game sees the key, or at most `m` right replies are still to come. -/
def Awaits (key : BitVec 16) (s : Console) (m : ℕ) : Prop := s.ports.keycode = key ∨ s.software.place.rank < m

/-- What `main` reads for the key code is the key. -/
theorem key_reported (h : ¬Hinders key s (.software v)) (hplace : s.software.place = .keycode) : v 0 &&& 0xff = key := by
  by_contra hother
  exact h (Or.inr ⟨hplace, hother⟩)

/-- Only the key takes the place of a key. -/
theorem keycode_step (h : ¬Hinders key s a) :
    (s.step a).ports.keycode = s.ports.keycode ∨ (s.step a).ports.keycode = key := by
  cases a with
  | software v =>
    refine (keycode_software s v).imp_right fun hstores => ?_
    obtain ⟨hplace, hkey⟩ := UsbMain.keycode_mem_events.mp hstores
    exact hkey.trans (key_reported h hplace)
  | clk resetH =>
    obtain rfl : resetH = false := Bool.not_eq_true _ ▸ h
    exact Or.inl rfl

theorem key_stays (h : ¬Hinders key s a) (hkey : s.ports.keycode = key) : (s.step a).ports.keycode = key :=
  (keycode_step h).elim (fun hkeep => hkeep.trans hkey) id

theorem key_at_keycode (h : ¬Hinders key s (.software v)) (hplace : s.software.place = .keycode) :
    (s.step (.software v)).ports.keycode = key := by
  rw [step, UsbMain.events_keycode hplace, ← key_reported h hplace]
  rfl

theorem Awaits.tick (h : ¬Hinders key s a) (hhelps : Helps s a = true) (hq : Awaits key s m) :
    Awaits key (s.step a) (m - 1) := by
  cases hq with
  | inl hkey => exact Or.inl (key_stays h hkey)
  | inr hrank =>
    cases a with
    | software v =>
      by_cases hplace : s.software.place = .keycode
      · exact Or.inl (key_at_keycode h hplace)
      · have hless := UsbMain.rank_step_lt hplace (of_decide_eq_true hhelps)
        exact Or.inr (Nat.lt_of_lt_of_le hless (Nat.le_sub_one_of_lt hrank))
    | clk resetH => cases hhelps

theorem Awaits.idle (h : ¬Hinders key s a) (hhelps : Helps s a = false) (hq : Awaits key s m) :
    Awaits key (s.step a) m := by
  cases hq with
  | inl hkey => exact Or.inl (key_stays h hkey)
  | inr hrank =>
    refine Or.inr ?_
    cases a with
    | software v =>
      cases hreply : s.software.reply v with
      | right => exact absurd hreply (of_decide_eq_false hhelps)
      | notYet =>
        have hsame : (s.step (.software v)).software.place.rank = s.software.place.rank :=
          UsbMain.rank_step_notYet hreply
        rwa [hsame]
      | wrong => exact absurd (Or.inl hreply) h
    | clk resetH =>
      obtain rfl : resetH = false := Bool.not_eq_true _ ▸ h
      exact hrank

/-- From every state the key comes to the register of the key code, and stays there. -/
theorem key_heard {bs : List Action} (hhinders : Avoids step (Hinders key) s bs)
    (hhelps : 40 ≤ stepsOf step Helps s bs) : (run step s bs).ports.keycode = key := by
  have hstart : Awaits key s 40 := Or.inr (Nat.lt_succ_of_le s.software.place.rank_le)
  have hend := run_countdown (Q := Awaits key) (fun _ _ _ h hc hq => Awaits.idle h hc hq)
    (fun _ _ _ h hc hq => Awaits.tick h hc hq) hhinders hstart
  rw [Nat.sub_eq_zero_of_le hhelps] at hend
  exact hend.resolve_right (Nat.not_lt_zero _)

/-! ### The level -/

/-- A game that waits begins a level at the edge that meets the enter key: nobody touches Pac-Man between levels. -/
theorem begins_at_edge {as : List Action} (hpre : ¬Playing (run step reset as))
    (henter : (run step reset as).ports.keycode = Control.codeEnter) : Playing ((run step reset as).step (.clk false)) := by
  rw [Playing, Bool.not_eq_false] at hpre
  have hclean := (Lab8.ready_of_reachable (game_reachable as) hpre).clean
  have halive : (run step reset as).board.game.pacManDied = false := by
    simp [Lab8.pacManDied, hclean.no_contact]
  rw [Playing, game_clk, Lab8.controlNext_eq rfl, halive]
  change (Control.next _ (run step reset as).ports.keycode _ _).isPre = false
  rw [henter]
  exact Control.begins hpre _

/-- Whatever has happened before, with the keyboard removed or a request in its retries, a player who holds the enter key
    down gets into a level: forty right replies, with any number of edges and of replies that are not there yet
    among them, and one more edge. -/
theorem enter_begins_level (as bs : List Action)
    (hhinders : Avoids step (Hinders Control.codeEnter) (run step reset as) bs)
    (hhelps : 40 ≤ stepsOf step Helps (run step reset as) bs) :
    Playing (run step reset (as ++ bs)) ∨ Playing (run step reset (as ++ bs ++ [.clk false])) := by
  by_cases hplaying : Playing (run step reset (as ++ bs))
  · exact Or.inl hplaying
  · refine Or.inr ?_
    rw [run_snoc]
    refine begins_at_edge hplaying ?_
    rw [run_append]
    exact key_heard hhinders hhelps

/-- The replies of a chip that answers at once, to the second key code. -/
def enterReplies : List Action :=
  (UsbMain.promptRun.dropLast ++ [fun _ => 0x0028, fun _ => 0x2000] ++ List.replicate 4 (fun _ => 0x4E35) ++
    [fun _ => 0, fun _ => 0x0010, fun _ => 0x1000, fun _ => 0x1A28]).map .software

theorem enter_begins_level_pressed : Playing (run step reset ([.clk true] ++ enterReplies)) ∨
    Playing (run step reset ([.clk true] ++ enterReplies ++ [.clk false])) :=
  enter_begins_level _ _ (by decide +kernel) (by decide +kernel)

end Console

end Pacman
