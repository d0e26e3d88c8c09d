import Pacman.Theorems.Console

/-! The random words of the ghosts. From one key code to the next each ghost gets one new word, in the order of the source,
    unless the keyboard was removed in between: then none. The words stay in their registers until they are renewed. -/

namespace Pacman
open Machine Trace

def BusEvent.ghost : BusEvent → Option Ghost
  | .random g _ => some g
  | _ => none

def BusEvent.word (g : Ghost) : BusEvent → Option (BitVec 16)
  | .random g' value => if g' = g then some value else none
  | _ => none

namespace UsbMain

/-- The ghosts in the order of the stores. -/
def ghostOrder : List Ghost := [.orange, .blue, .red, .pink]

/-- The ghosts that got a word since the last key code. -/
def renewed (t : List BusEvent) : List Ghost := (sinceLast IsKeycode t).filterMap BusEvent.ghost

/-- There was a key code, and since the last one the chip was not reset. -/
def Steady (t : List BusEvent) : Prop := (∃ e ∈ t, IsKeycode e) ∧ ∀ e ∈ sinceLast IsKeycode t, ¬IsReset e

instance : DecidablePred Steady := fun _ => inferInstanceAs (Decidable (_ ∧ _))

inductive Phase where
  | start
  | enumerating
  | polling
  | parting
  | storing (g : Ghost)

def Place.phase : Place → Phase
  | .hotPlug => .start
  | .poll | .pollStatus | .pollDone | .keycode => .polling
  | .present | .presentAgain _ | .removed => .parting
  | .random g => .storing g
  | _ => .enumerating

/-- What has been renewed when `main` is in a phase. -/
def Renews (t : List BusEvent) : Phase → Prop
  | .start => renewed t = []
  | .enumerating => renewed t = [] ∧ ¬Steady t
  | .polling => renewed t = if Steady t then ghostOrder else []
  | .parting => renewed t = [] ∧ Steady t
  | .storing g => renewed t = ghostOrder.takeWhile (· ≠ g) ∧ Steady t

variable {s : UsbMain} {v : ℕ → BitVec 16} {t es : List BusEvent}

/-! ### Phases -/

theorem Place.eq_hotPlug {p : Place} (h : p.phase = .start) : p = .hotPlug := by
  cases p with
  | hotPlug => rfl
  | _ => cases h

theorem Place.eq_random {p : Place} {g : Ghost} (h : p.phase = .storing g) : p = .random g := by
  cases p with
  | random g' => cases h; rfl
  | _ => cases h

theorem phase_answered (s : UsbMain) (r : Request) :
    (s.answered r).place.phase = .enumerating ∨ (s.answered r).place.phase = .polling := by
  cases r with
  | reportDesc => exact Or.inr rfl
  | _ => exact Or.inl rfl

theorem phase_of_enumerating (h : s.place.phase = .enumerating) : (s.step v).place.phase = .enumerating ∨
    (s.step v).place.phase = .start ∨ (s.step v).place.phase = .polling := by
  obtain ⟨place, toggle, dataSize⟩ := s
  cases place with
  | check r =>
    simp only [step]
    split
    · exact Or.inl rfl
    · exact (phase_answered _ r).imp_right Or.inr
  | retryCount r =>
    simp only [step]
    split
    · exact Or.inr (Or.inl rfl)
    split
    · exact Or.inl rfl
    · exact (phase_answered _ r).imp_right Or.inr
  | ackError => exact Or.inr (Or.inl rfl)
  | waitDevice =>
    simp only [step]
    split
    · exact Or.inr (Or.inl rfl)
    · exact Or.inl rfl
  | hotPlug | poll | pollStatus | pollDone | keycode | present | presentAgain n | removed | random g => cases h
  | _ =>
    refine Or.inl ?_
    simp only [step]
    repeat' split
    all_goals rfl

theorem phase_of_polling (h : s.place.phase = .polling) (hplace : s.place ≠ .keycode) :
    (s.step v).place.phase = .polling := by
  obtain ⟨place, toggle, dataSize⟩ := s
  cases place with
  | keycode => exact absurd rfl hplace
  | poll => rfl
  | pollStatus | pollDone =>
    simp only [step]
    split <;> rfl
  | _ => cases h

theorem phase_of_parting (h : s.place.phase = .parting) : (s.step v).place.phase = .parting ∨
    (s.step v).place.phase = .start ∨ (s.step v).place.phase = .storing .orange := by
  obtain ⟨place, toggle, dataSize⟩ := s
  cases place with
  | present =>
    simp only [step]
    split
    · exact Or.inl rfl
    · exact Or.inr (Or.inr rfl)
  | presentAgain n =>
    simp only [step]
    split
    · exact Or.inr (Or.inr rfl)
    · split <;> exact Or.inl rfl
  | removed =>
    simp only [step]
    split
    · exact Or.inr (Or.inl rfl)
    · exact Or.inl rfl
  | _ => cases h

/-! ### The words -/

/-- What is on the bus renews nothing. -/
theorem ghost_of_bus (hbus : ∀ e ∈ es, IsBus e) : es.filterMap BusEvent.ghost = [] := by
  refine List.filterMap_eq_nil_iff.mpr fun e he => ?_
  cases e with
  | write | read => rfl
  | keycode | random => exact (hbus _ he).elim

theorem not_isKeycode_of_bus (hbus : ∀ e ∈ es, IsBus e) : ∀ e ∈ es, ¬IsKeycode e := by
  rintro _ he ⟨c, rfl⟩
  exact hbus _ he

theorem renewed_append (hkey : ∀ e ∈ es, ¬IsKeycode e) :
    renewed (t ++ es) = renewed t ++ es.filterMap BusEvent.ghost := by
  rw [renewed, sinceLast_append hkey, List.filterMap_append, renewed]

theorem steady_append (hkey : ∀ e ∈ es, ¬IsKeycode e) : Steady (t ++ es) ↔ Steady t ∧ ∀ e ∈ es, ¬IsReset e := by
  have hold : (∃ e ∈ t ++ es, IsKeycode e) ↔ ∃ e ∈ t, IsKeycode e := by
    constructor
    · rintro ⟨e, he, hk⟩
      rcases List.mem_append.mp he with he | he
      · exact ⟨e, he, hk⟩
      · exact absurd hk (hkey e he)
    · rintro ⟨e, he, hk⟩
      exact ⟨e, List.mem_append_left _ he, hk⟩
  rw [Steady, Steady, hold, sinceLast_append hkey, List.forall_mem_append, and_assoc]

theorem Renews.quiet {p : Phase} (h : Renews t p) (hbus : ∀ e ∈ es, IsBus e) (hreset : ∀ e ∈ es, ¬IsReset e) :
    Renews (t ++ es) p := by
  have hkey := not_isKeycode_of_bus hbus
  have hwords : renewed (t ++ es) = renewed t := by
    rw [renewed_append hkey, ghost_of_bus hbus, List.append_nil]
  have hsteady : Steady (t ++ es) ↔ Steady t := (steady_append hkey).trans (and_iff_left hreset)
  cases p <;> simpa only [Renews, hwords, hsteady] using h

/-- The soft reset begins a time without new words. -/
theorem Renews.reset (h : Renews t .start) (hbus : ∀ e ∈ es, IsBus e) (hreset : ∃ e ∈ es, IsReset e) :
    Renews (t ++ es) .enumerating := by
  have hkey := not_isKeycode_of_bus hbus
  refine ⟨?_, fun hsteady => ?_⟩
  · rw [renewed_append hkey, ghost_of_bus hbus, List.append_nil]
    exact h
  · obtain ⟨e, he, hr⟩ := hreset
    exact ((steady_append hkey).mp hsteady).2 e he hr

theorem renews_keycode {c : BitVec 16} : Renews (t ++ [.keycode c]) .parting := by
  have hlast : sinceLast IsKeycode (t ++ [.keycode c]) = [] := sinceLast_append_cons ⟨c, rfl⟩ (by simp)
  refine ⟨?_, ⟨.keycode c, by simp, c, rfl⟩, ?_⟩
  · rw [renewed, hlast]
    rfl
  · rw [hlast]
    simp

/-- A store takes its ghost's turn. -/
theorem Renews.store {g : Ghost} (h : Renews t (.storing g)) (value : BitVec 16) :
    renewed (t ++ [.random g value]) = ghostOrder.takeWhile (· ≠ g) ++ [g] ∧ Steady (t ++ [.random g value]) := by
  have hkey : ∀ e ∈ [BusEvent.random g value], ¬IsKeycode e := by simp [IsKeycode]
  refine ⟨?_, (steady_append hkey).mpr ⟨h.2, by simp [IsReset]⟩⟩
  rw [renewed_append hkey, h.1]
  rfl

/-! ### Runs -/

theorem isBus_events (hkey : s.place ≠ .keycode) (hrand : ∀ g, s.place ≠ .random g) : ∀ e ∈ s.events v, IsBus e := by
  have hstores : s.stores v = [] := by
    unfold stores
    split
    next h => exact absurd h hkey
    next g h => exact absurd h (hrand g)
    next => rfl
  rw [events, hstores, List.append_nil]
  exact isBus_busEvents s.calls

theorem events_random {g : Ghost} (h : s.place = .random g) : s.events v = [.random g (v 0)] := by
  simp only [events, calls, stores, h]
  rfl

theorem Renews.step (h : Renews t s.place.phase) : Renews (t ++ s.events v) (s.step v).place.phase := by
  by_cases hplace : s.place = .hotPlug
  · obtain ⟨es, hes, -⟩ := events_hotPlug (v := v) hplace
    have hnext : (s.step v).place = .initStatus := by
      rw [UsbMain.step, hplace]
      rfl
    rw [hplace] at h
    rw [hnext]
    refine h.reset (isBus_events (by simp [hplace]) (by simp [hplace])) ⟨.write hpiMailbox commReset, ?_, rfl⟩
    rw [hes]
    exact List.mem_cons_self
  have hreset := not_isReset_events (v := v) hplace
  by_cases hkey : s.place = .keycode
  · have hnext : (s.step v).place = .present := by
      rw [UsbMain.step, hkey]
      rfl
    rw [events_keycode hkey, hnext, ← List.append_assoc]
    exact renews_keycode
  by_cases hrand : ∃ g, s.place = .random g
  · obtain ⟨g, hg⟩ := hrand
    rw [hg] at h
    obtain ⟨hwords, hsteady⟩ := h.store (v 0)
    rw [events_random hg, UsbMain.step, hg]
    cases g with
    | orange | blue | red => exact ⟨hwords, hsteady⟩
    | pink => exact hwords.trans (if_pos hsteady).symm
  -- What is left of the places stores nothing.
  have hquiet := h.quiet (isBus_events hkey (not_exists.mp hrand)) hreset
  cases hphase : s.place.phase with
  | start => exact absurd (Place.eq_hotPlug hphase) hplace
  | enumerating =>
    rw [hphase] at hquiet
    obtain ⟨hnone, hunsteady⟩ := hquiet
    rcases phase_of_enumerating hphase with hp | hp | hp <;> rw [hp]
    · exact ⟨hnone, hunsteady⟩
    · exact hnone
    · exact hnone.trans (if_neg hunsteady).symm
  | polling =>
    rw [phase_of_polling hphase hkey, ← hphase]
    exact hquiet
  | parting =>
    rw [hphase] at hquiet
    obtain ⟨hnone, hsteady⟩ := hquiet
    rcases phase_of_parting hphase with hp | hp | hp <;> rw [hp]
    · exact ⟨hnone, hsteady⟩
    · exact hnone
    · exact ⟨hnone, hsteady⟩
  | storing g => exact absurd ⟨g, Place.eq_random hphase⟩ hrand

theorem renews_run (vs : List (ℕ → BitVec 16)) : Renews (trace vs) (run step start vs).place.phase := by
  induction vs using List.reverseRecOn with
  | nil => rfl
  | append_singleton vs v ih =>
    rw [run_snoc, trace_snoc]
    exact ih.step

/-- Before a key code all the ghosts have got their words since the one before, in their order, or none has: at the first
    key code, and when the keyboard had to be enumerated again. -/
theorem renewed_at_keycode {vs : List (ℕ → BitVec 16)} {u : List BusEvent} {c : BitVec 16}
    (h : trace vs = t ++ .keycode c :: u) : renewed t = if Steady t then ghostOrder else [] := by
  obtain ⟨js, v, -, a, b, -, hev, rfl⟩ := outputs_split h
  obtain ⟨hplace, rfl, -⟩ := keycode_events hev
  have hrun := renews_run js
  rw [hplace] at hrun
  have hbus : ∀ e ∈ loaded 0x051e (v 0), IsBus e := by simp [loaded, IsBus]
  have hreset : ∀ e ∈ loaded 0x051e (v 0), ¬IsReset e := by simp [loaded, IsReset, mailbox_ne.1.symm]
  exact hrun.quiet hbus hreset

end UsbMain

namespace Console

variable {as : List Action} {g : Ghost}

theorem heard_snoc (as : List Action) (v : ℕ → BitVec 16) :
    heard (as ++ [.software v]) = heard as ++ (run step reset as).software.events v := by
  rw [heard, replies, run_snoc, ← replies, reply, UsbMain.trace_snoc, ← software_eq, heard]

/-- The ports hold what has been stored since the button was down. -/
theorem ports_eq (as : List Action) : (run step reset as).ports = (heard as).foldl Ports.store Ports.reset := by
  induction as using List.reverseRecOn with
  | nil => rfl
  | append_singleton as a ih =>
    cases a with
    | software v => rw [run_snoc, heard_snoc, List.foldl_append, ← ih, step]
    | clk resetH =>
      rw [run_snoc, heard, replies, run_snoc, ← replies]
      cases resetH with
      | true => rfl
      | false => exact ih

theorem randomness_store {p : Ports} {e : BusEvent} :
    (p.store e).randomness g = (e.word g).getD (p.randomness g) := by
  cases e with
  | random g' value =>
    by_cases hg : g' = g
    · subst hg
      simp [Ports.store, BusEvent.word]
    · simp [Ports.store, BusEvent.word, hg, Function.update_of_ne (Ne.symm hg)]
  | write | read | keycode => rfl

theorem randomness_foldl {es : List BusEvent} {p : Ports} :
    (es.foldl Ports.store p).randomness g = (es.filterMap (BusEvent.word g)).getLast?.getD (p.randomness g) := by
  induction es using List.reverseRecOn with
  | nil => rfl
  | append_singleton es e ih =>
    rw [List.foldl_append, List.foldl_cons, List.foldl_nil, randomness_store, ih, List.filterMap_append]
    cases hword : e.word g <;> simp [hword]

/-- Each ghost moves by the last word that `main` has stored for it. From one key code to the next all four ghosts have got
    one new word each, the orange one first; before the first key code, and where the chip was reset in between, none. -/
theorem words_renewed (as : List Action) :
    (∀ g, (run step reset as).ports.randomness g = ((heard as).filterMap (BusEvent.word g)).getLast?.getD 0) ∧
      ∀ t c u, heard as = t ++ .keycode c :: u →
        UsbMain.renewed t = if UsbMain.Steady t then UsbMain.ghostOrder else [] := by
  refine ⟨fun g => ?_, fun t c u h => UsbMain.renewed_at_keycode h⟩
  rw [ports_eq, randomness_foldl]
  rfl

end Console

end Pacman
