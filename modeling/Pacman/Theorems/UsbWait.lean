import Pacman.Usb

/-! When `UsbWaitTDListDone` notices a finished transfer. It tests what it has read for equality with one bit of
    a bit map, and clears the register in an access of its own; a notification is lost when the read finds
    other bits beside it, or when it is posted between the read and the clear. -/

namespace Pacman
namespace UsbWait
open Machine

/-- The message `HUSB_TDListDone` is among the bits. -/
def Carries (bits : BitVec 16) : Prop := bits &&& husbTDListDone ≠ 0

instance (bits : BitVec 16) : Decidable (Carries bits) := inferInstanceAs (Decidable (_ ≠ _))

theorem carries_or {a b : BitVec 16} : Carries (a ||| b) ↔ Carries a ∨ Carries b := by
  rw [Carries, BitVec.and_or_distrib_right]
  exact (not_congr BitVec.or_eq_zero_iff).trans not_and_or

theorem not_carries_zero : ¬Carries 0 := by decide

/-- The next access reads the register. -/
def Reading (s : UsbWait) : Prop := s.todo.head? = some (.read hpiData)

/-- The register has been read in this pass, and not yet cleared. -/
def Clearing (s : UsbWait) : Prop := s.todo ≠ [] ∧ .read hpiData ∉ s.todo

def Returned (s : UsbWait) : Prop := s.todo = []

instance (s : UsbWait) : Decidable s.Reading := inferInstanceAs (Decidable (_ = _))

instance (s : UsbWait) : Decidable s.Clearing := inferInstanceAs (Decidable (_ ∧ _))

instance (s : UsbWait) : Decidable s.Returned := inferInstanceAs (Decidable (_ = _))

/-- The stage of the pass, which the accesses to come show. The address register stands at the message register
    before a data access. -/
inductive Stage (s : UsbWait) : Prop
  | toRead (htodo : s.todo = pass)
  | reading (htodo : s.todo = pass.drop 1) (haddr : s.chip.address = hpiSie1MsgAdr)
  | toClear (htodo : s.todo = pass.drop 2)
  | clearing (htodo : s.todo = pass.drop 3) (haddr : s.chip.address = hpiSie1MsgAdr)
  | returned (htodo : s.todo = [])

variable {s : UsbWait} {bits : BitVec 16}

theorem Stage.of_reading (h : s.Stage) (hread : s.Reading) :
    s.todo = pass.drop 1 ∧ s.chip.address = hpiSie1MsgAdr := by
  unfold Reading at hread
  cases h with
  | reading h haddr => exact ⟨h, haddr⟩
  | toRead h => simp [h, pass, usbRead] at hread
  | toClear h => simp [h, pass, usbRead, usbWrite] at hread
  | clearing h => simp [h, pass, usbRead, usbWrite] at hread
  | returned h => simp [h] at hread

/-! ### One access -/

theorem msg_post (c : UsbChip) (bits : BitVec 16) : (c.post bits).msg = c.msg ||| bits := by
  simp [UsbChip.msg, UsbChip.post]

theorem step_toRead (h : s.todo = pass) : s.step bits =
    { s with chip := { s.chip.post bits with address := hpiSie1MsgAdr }, todo := pass.drop 1 } := by
  simp only [step, h]
  rfl

theorem step_reading (h : s.todo = pass.drop 1) (haddr : s.chip.address = hpiSie1MsgAdr) : s.step bits =
    { chip := s.chip.post bits, todo := pass.drop 2, usbCtlVal := s.chip.msg ||| bits } := by
  rw [← msg_post, UsbChip.msg, ← haddr]
  simp only [step, h]
  rfl

theorem step_toClear (h : s.todo = pass.drop 2) : s.step bits =
    { s with chip := { s.chip.post bits with address := hpiSie1MsgAdr }, todo := pass.drop 3 } := by
  simp only [step, h]
  rfl

theorem step_clearing (h : s.todo = pass.drop 3) :
    (s.step bits).todo = if s.usbCtlVal ≠ husbTDListDone then pass else [] := by
  simp only [step, h]
  rfl

theorem msg_clearing (h : s.todo = pass.drop 3) (haddr : s.chip.address = hpiSie1MsgAdr) :
    (s.step bits).chip.msg = 0 := by
  have haddr' : (s.chip.post bits).address = hpiSie1MsgAdr := haddr
  have hstep : (s.step bits).chip = (s.chip.post bits).write hpiData 0 := by
    simp only [step, h]
    rfl
  rw [hstep, UsbChip.msg, UsbChip.write, if_neg (by decide), if_pos rfl, haddr']
  exact Function.update_self hpiSie1MsgAdr 0 (s.chip.post bits).word

theorem step_returned (h : s.todo = []) : (s.step bits).todo = [] := by
  simp only [step, h]

theorem Stage.step (h : s.Stage) (bits : BitVec 16) : (s.step bits).Stage := by
  cases h with
  | toRead h => exact .reading (by rw [step_toRead h]) (by rw [step_toRead h])
  | reading h haddr => exact .toClear (by rw [step_reading h haddr])
  | toClear h => exact .clearing (by rw [step_toClear h]) (by rw [step_toClear h])
  | clearing h haddr =>
    by_cases hval : s.usbCtlVal = husbTDListDone
    · exact .returned (by rw [step_clearing h, if_neg (not_not_intro hval)])
    · exact .toRead (by rw [step_clearing h, if_pos hval])
  | returned h => exact .returned (step_returned h)

theorem stage_run (chip : UsbChip) (val : BitVec 16) (posts : List (BitVec 16)) :
    (run step (enter chip val) posts).Stage :=
  run_invariant (fun _ bits h => h.step bits) (.toRead rfl) posts

/-! ### Noticing -/

/-- The message has not been lost so far: the function has returned or returns with this pass, or the register
    that it is going to read holds the message. -/
def Noticing (s : UsbWait) : Prop :=
  s.Returned ∨ s.Clearing ∧ s.usbCtlVal = husbTDListDone ∨ (s.todo = pass ∨ s.Reading) ∧ Carries s.chip.msg

/-- The access loses the message: it reads `HUSB_TDListDone` together with other bits, or the message comes
    after the read of a pass with which the function does not return. -/
def Drops (s : UsbWait) (bits : BitVec 16) : Prop :=
  s.Reading ∧ Carries (s.chip.msg ||| bits) ∧ s.chip.msg ||| bits ≠ husbTDListDone ∨
    s.Clearing ∧ Carries bits ∧ s.usbCtlVal ≠ husbTDListDone

instance (s : UsbWait) (bits : BitVec 16) : Decidable (s.Drops bits) := inferInstanceAs (Decidable (_ ∨ _))

/-- The accesses to come decide which part of these definitions counts. -/
theorem noticing_of_todo {l : List Call} (h : s.todo = l) :
    s.Noticing ↔ l = [] ∨ (l ≠ [] ∧ .read hpiData ∉ l) ∧ s.usbCtlVal = husbTDListDone ∨
      (l = pass ∨ l.head? = some (.read hpiData)) ∧ Carries s.chip.msg := by
  subst h
  rfl

theorem drops_of_todo {l : List Call} (h : s.todo = l) :
    s.Drops bits ↔
      l.head? = some (.read hpiData) ∧ Carries (s.chip.msg ||| bits) ∧ s.chip.msg ||| bits ≠ husbTDListDone ∨
        (l ≠ [] ∧ .read hpiData ∉ l) ∧ Carries bits ∧ s.usbCtlVal ≠ husbTDListDone := by
  subst h
  rfl

theorem noticing_held (h : s.todo = pass ∨ s.todo = pass.drop 1) : s.Noticing ↔ Carries s.chip.msg := by
  rcases h with h | h
  · rw [noticing_of_todo h]
    simp [pass, usbRead, usbWrite]
  · rw [noticing_of_todo h]
    simp [pass, usbRead, usbWrite]

theorem noticing_read (h : s.todo = pass.drop 2 ∨ s.todo = pass.drop 3) :
    s.Noticing ↔ s.usbCtlVal = husbTDListDone := by
  rcases h with h | h
  · rw [noticing_of_todo h]
    simp [pass, usbRead, usbWrite]
  · rw [noticing_of_todo h]
    simp [pass, usbRead, usbWrite]

theorem drops_read (h : s.todo = pass.drop 2 ∨ s.todo = pass.drop 3) :
    s.Drops bits ↔ Carries bits ∧ s.usbCtlVal ≠ husbTDListDone := by
  rcases h with h | h
  · rw [drops_of_todo h]
    simp [pass, usbRead, usbWrite]
  · rw [drops_of_todo h]
    simp [pass, usbRead, usbWrite]

/-- What one access does to the message: it is there afterwards when it was or came, and the access does not
    lose it. -/
theorem noticing_step (h : s.Stage) (bits : BitVec 16) :
    (s.step bits).Noticing ↔ (s.Noticing ∨ Carries bits) ∧ ¬s.Drops bits := by
  cases h with
  | toRead h =>
    have hdrops : ¬s.Drops bits := by
      rw [drops_of_todo h]
      simp [pass, usbRead, usbWrite]
    have hnext : (s.step bits).todo = pass.drop 1 := by rw [step_toRead h]
    have hmsg : (s.step bits).chip.msg = s.chip.msg ||| bits := by
      rw [step_toRead h]
      exact msg_post s.chip bits
    rw [noticing_held (Or.inr hnext), noticing_held (Or.inl h), hmsg, carries_or]
    exact (and_iff_left hdrops).symm
  | reading h haddr =>
    have hdrops : s.Drops bits ↔ Carries (s.chip.msg ||| bits) ∧ s.chip.msg ||| bits ≠ husbTDListDone := by
      rw [drops_of_todo h]
      simp [pass, usbRead, usbWrite]
    have hnext : (s.step bits).todo = pass.drop 2 := by rw [step_reading h haddr]
    have hval : (s.step bits).usbCtlVal = s.chip.msg ||| bits := by rw [step_reading h haddr]
    have hcarries : s.chip.msg ||| bits = husbTDListDone → Carries (s.chip.msg ||| bits) := by
      intro hv
      rw [hv]
      decide
    rw [noticing_read (Or.inl hnext), hval, noticing_held (Or.inr h), ← carries_or, hdrops]
    tauto
  | toClear h =>
    have hnext : (s.step bits).todo = pass.drop 3 := by rw [step_toClear h]
    have hval : (s.step bits).usbCtlVal = s.usbCtlVal := by rw [step_toClear h]
    rw [noticing_read (Or.inr hnext), hval, noticing_read (Or.inl h), drops_read (Or.inl h)]
    tauto
  | clearing h haddr =>
    have hnext : (s.step bits).todo = if s.usbCtlVal ≠ husbTDListDone then pass else [] := step_clearing h
    rw [noticing_read (Or.inr h), drops_read (Or.inr h)]
    by_cases hval : s.usbCtlVal = husbTDListDone
    · rw [if_neg (not_not_intro hval)] at hnext
      exact iff_of_true (Or.inl hnext) ⟨Or.inl hval, fun hd => hd.2 hval⟩
    · rw [if_pos hval] at hnext
      rw [noticing_held (Or.inl hnext), msg_clearing h haddr]
      exact iff_of_false not_carries_zero (by tauto)
  | returned h =>
    have hdrops : ¬s.Drops bits := by
      rw [drops_of_todo h]
      simp
    exact iff_of_true (Or.inl (step_returned h)) ⟨Or.inl (Or.inl h), hdrops⟩

/-! ### Runs -/

section Runs
variable {chip : UsbChip} {val : BitVec 16} {posts : List (BitVec 16)}

theorem noticing_run (hgood : Avoids step Drops (enter chip val) posts) (hpost : ∃ p ∈ posts, Carries p) :
    (run step (enter chip val) posts).Noticing := by
  induction posts using List.reverseRecOn with
  | nil => simp at hpost
  | append_singleton posts bits ih =>
    obtain ⟨hgood, hlast, -⟩ := avoids_append.mp hgood
    rw [run_snoc, noticing_step (stage_run chip val posts)]
    refine ⟨?_, hlast⟩
    obtain ⟨p, hp, hc⟩ := hpost
    rcases List.mem_append.mp hp with hp | hp
    · exact Or.inl (ih hgood ⟨p, hp, hc⟩)
    · exact Or.inr (List.mem_singleton.mp hp ▸ hc)

/-- A message that is not there stays away until it is posted again. -/
theorem not_noticing_run (hst : s.Stage) (h : ¬s.Noticing) (hposts : ∀ p ∈ posts, ¬Carries p) :
    ¬(run step s posts).Noticing := by
  induction posts generalizing s with
  | nil => exact h
  | cons bits posts ih =>
    refine ih (hst.step bits) ?_ fun p hp => hposts p (List.mem_cons_of_mem bits hp)
    intro hn
    obtain ⟨hn | hc, -⟩ := (noticing_step hst bits).mp hn
    · exact h hn
    · exact hposts bits List.mem_cons_self hc

theorem returned_run (h : s.Returned) (posts : List (BitVec 16)) : (run step s posts).Returned := by
  have keep : ∀ (t : UsbWait) bits, t.Returned → (t.step bits).Returned := fun _ _ h => step_returned h
  exact run_invariant keep h posts

/-- With `HUSB_TDListDone` read, the function returns once it has cleared the register. -/
theorem returns_of_read (htodo : s.todo = pass.drop 2) (hval : s.usbCtlVal = husbTDListDone)
    (hlong : 2 ≤ posts.length) : (run step s posts).Returned := by
  match posts, hlong with
  | a :: b :: posts, _ =>
    have htodo' : (s.step a).todo = pass.drop 3 := by rw [step_toClear htodo]
    have hval' : (s.step a).usbCtlVal = husbTDListDone := by rw [step_toClear htodo, hval]
    have hreturned : ((s.step a).step b).Returned := by
      rw [Returned, step_clearing htodo', if_neg (not_not_intro hval')]
    exact returned_run hreturned posts

/-- Once `HUSB_TDListDone` is posted, or is in a value that is read, the function returns when it has cleared
    the register after that read. -/
def Notified (s : UsbWait) (posts : List (BitVec 16)) : Prop :=
  ∀ before bits after, posts = before ++ bits :: after → (run step s before).Reading →
    (∃ p ∈ before ++ [bits], Carries p) ∨ Carries (run step s (before ++ [bits])).usbCtlVal →
      2 ≤ after.length → (run step s posts).Returned

theorem notified_of_avoids (hgood : Avoids step Drops (enter chip val) posts) : Notified (enter chip val) posts := by
  rintro before bits after rfl hread hpost hlong
  have hgood' : Avoids step Drops (enter chip val) (before ++ [bits]) := by
    rw [← List.singleton_append, ← List.append_assoc] at hgood
    exact (avoids_append.mp hgood).1
  obtain ⟨htodo, haddr⟩ := (stage_run chip val before).of_reading hread
  have hnext : (run step (enter chip val) (before ++ [bits])).todo = pass.drop 2 := by
    rw [run_snoc, step_reading htodo haddr]
  have hval : (run step (enter chip val) (before ++ [bits])).usbCtlVal = husbTDListDone := by
    rw [← noticing_read (Or.inl hnext)]
    rcases hpost with hpost | hcarries
    · exact noticing_run hgood' hpost
    · rw [run_snoc] at hcarries ⊢
      rw [step_reading htodo haddr] at hcarries
      rw [noticing_step (stage_run chip val before), noticing_held (Or.inr htodo), ← carries_or]
      exact ⟨hcarries, (avoids_append.mp hgood').2.1⟩
  rw [← List.singleton_append, ← List.append_assoc, run_append]
  exact returns_of_read hnext hval hlong

theorem not_returned_of_drops {before after : List (BitVec 16)} {bits : BitVec 16}
    (hdrops : (run step (enter chip val) before).Drops bits) (hafter : ∀ p ∈ after, ¬Carries p) :
    ¬(run step (enter chip val) (before ++ bits :: after)).Returned := by
  have hst := stage_run chip val before
  have hlost : ¬((run step (enter chip val) before).step bits).Noticing := fun hn =>
    ((noticing_step hst bits).mp hn).2 hdrops
  rw [run_append, run_cons]
  exact fun hreturned => not_noticing_run (hst.step bits) hlost hafter (Or.inl hreturned)

end Runs

/-- In every run in which no access loses the message, the function returns with its next read after
    `HUSB_TDListDone` is posted, and with the first read that finds it. After an access that loses the message
    it does not return before the message is posted again. -/
theorem td_list_done_noticed (chip : UsbChip) (val : BitVec 16) :
    (∀ posts, Avoids step Drops (enter chip val) posts → Notified (enter chip val) posts) ∧
    ∀ before bits after, (run step (enter chip val) before).Drops bits → (∀ p ∈ after, ¬Carries p) →
      ¬(run step (enter chip val) (before ++ bits :: after)).Returned :=
  ⟨fun _ => notified_of_avoids, fun _ _ _ => not_returned_of_drops⟩

/-- A message that comes alone and before the first read. -/
theorem td_list_done_noticed_alone : (run step (enter ⟨0, fun _ => 0⟩ 0) [0x1000, 0, 0, 0]).Returned := by
  have hgood : Avoids step Drops (enter ⟨0, fun _ => 0⟩ 0) [0x1000, 0, 0, 0] :=
    ⟨by decide, by decide, by decide, by decide, trivial⟩
  have hnotified := (td_list_done_noticed ⟨0, fun _ => 0⟩ 0).1 [0x1000, 0, 0, 0] hgood
  exact hnotified [0x1000] 0 [0, 0] rfl rfl (Or.inl ⟨0x1000, by decide, by decide⟩) (by decide)

/-- The message together with the start-of-frame message is read, cleared and forgotten, and so is the message
    that comes between the read and the clear of a pass. -/
theorem td_list_done_lost :
    ¬Notified (enter ⟨0, fun _ => 0⟩ 0) [0x3000, 0, 0, 0] ∧
    ¬Notified (enter ⟨0, fun _ => 0⟩ 0) [0, 0, 0x1000, 0, 0, 0, 0, 0] := by
  constructor
  · intro h
    have hreturned := h [0x3000] 0 [0, 0] rfl rfl (Or.inl ⟨0x3000, by decide, by decide⟩) (by decide)
    exact absurd hreturned (by decide)
  · intro h
    have hreturned := h [0, 0, 0x1000, 0, 0] 0 [0, 0] rfl rfl (Or.inl ⟨0x1000, by decide, by decide⟩) (by decide)
    exact absurd hreturned (by decide)

end UsbWait

end Pacman
