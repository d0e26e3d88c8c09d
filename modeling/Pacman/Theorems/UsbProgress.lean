import Pacman.Theorems.UsbMain

/-! `main` finds back to the keyboard from everywhere. Each place has a rank, about the number of replies that are still
    to come before the next key code; a reply that is right leads to a lower rank, and one that is not there yet to
    none that is higher. The requests that begin the enumeration anew have the highest ranks. -/

namespace Pacman
open Machine

/-- What a reply of the chip is for `main`. -/
inductive Reply where
  | right
  | notYet
  | wrong
  deriving DecidableEq

namespace UsbMain

variable {s : UsbMain} {v : ℕ → BitVec 16}

/-- What the reads of a piece are for the test behind it. Where `main` asks and where it waits the reply may be not there
    yet; a missing acknowledgment, a missing keyboard and a request with retries are wrong. -/
def reply (s : UsbMain) (v : ℕ → BitVec 16) : Reply :=
  match s.place with
  | .hotPlug | .ackError | .retry _ | .retryClear _ | .deviceInfo | .keycode | .random _ => .right
  | .issue _ | .poll => .notYet
  | .initStatus => if v 0 &&& 0xFFFF = 0 then .notYet else .right
  | .initAck | .reset => if v 0 = commAck then .right else .wrong
  | .detect | .detectAgain _ | .present | .presentAgain _ => if v 0 &&& noDevice = 0 then .wrong else .right
  | .waitDevice => if v 0 &&& noDevice = 0 then .notYet else .right
  | .removed => if v 2 &&& noDevice = 0 then .notYet else .right
  | .status _ | .retryStatus _ | .pollStatus => if v 0 &&& hpiStatusSIE1msgFlag = 0 then .notYet else .right
  | .done _ | .pollDone => if v 0 = husbTDListDone then .right else .notYet
  | .check _ => if v 1 = 0x03 then .right else .wrong
  | .retryCount _ => if v 0 = 0x03 then .right else .wrong

/-! ### Ranks -/

/-- The rank where a request has been answered. -/
def rankAnswered : Request → ℕ
  | .reportDesc => 2
  | .hidDesc => 5
  | .classRequest => 8
  | .setConfig => 11
  | .configDesc2 => 15
  | .configDesc1 => 18
  | .deviceDesc2 => 21
  | .deviceDesc1 => 24
  | .setAddress => 27

/-- The rank behind the retries of a request: those of the first one start over. -/
def rankRetried (r : Request) : ℕ := if r = .setAddress then 35 else rankAnswered r

def Place.rank : Place → ℕ
  | .keycode => 0
  | .pollDone => 1
  | .poll | .pollStatus => 2
  | .random .pink => 3
  | .random .red => 4
  | .random .blue => 5
  | .random .orange => 6
  | .present | .presentAgain _ => 7
  | .check r => rankAnswered r + 1
  | .done r => rankAnswered r + 2
  | .issue r | .status r => rankAnswered r + 3
  | .deviceInfo => 15
  | .detect | .detectAgain _ => 31
  | .reset => 32
  | .initAck => 33
  | .initStatus => 34
  | .hotPlug => 35
  | .ackError | .waitDevice | .removed => 36
  | .retryCount r => rankRetried r + 1
  | .retryStatus r => rankRetried r + 2
  | .retryClear r => rankRetried r + 3
  | .retry r => rankRetried r + 4

theorem rankAnswered_le (r : Request) : rankAnswered r ≤ 27 := by
  cases r <;> decide

theorem rankRetried_le (r : Request) : rankRetried r ≤ 35 := by
  cases r <;> decide

theorem Place.rank_le (p : Place) : p.rank ≤ 39 := by
  cases p with
  | issue r | status r | done r | check r =>
    have := rankAnswered_le r
    simp only [rank]
    omega
  | retry r | retryClear r | retryStatus r | retryCount r =>
    have := rankRetried_le r
    simp only [rank]
    omega
  | random g => cases g <;> decide
  | _ => simp [rank]

@[simp] theorem place_goto (s : UsbMain) (p : Place) : (s.goto p).place = p := rfl

@[simp] theorem rank_answered (s : UsbMain) (r : Request) : (s.answered r).place.rank = rankAnswered r := by
  cases r <;> rfl

theorem rank_step_lt (hplace : s.place ≠ .keycode) (h : s.reply v = .right) :
    (s.step v).place.rank < s.place.rank := by
  obtain ⟨place, toggle, dataSize⟩ := s
  cases place with
  | keycode => exact absurd rfl hplace
  | hotPlug | ackError | retryClear r => simp [step, Place.rank]
  | deviceInfo => exact Nat.lt_succ_self 14
  | random g => cases g <;> exact Nat.lt_succ_self _
  | issue r | poll => cases h
  | initStatus | status r | retryStatus r | pollStatus | detect | present =>
    simp only [reply] at h
    split at h
    next => cases h
    next htest =>
      simp only [step, if_neg htest, place_goto, Place.rank, rankAnswered]
      omega
  | waitDevice | removed | detectAgain n | presentAgain n =>
    simp only [reply] at h
    split at h
    next => cases h
    next htest =>
      simp only [step, if_pos htest, place_goto, Place.rank, rankAnswered]
      omega
  | initAck | reset | done r | pollDone =>
    simp only [reply] at h
    split at h
    next htest => simp [step, htest, Place.rank]
    next => cases h
  | check r =>
    simp only [reply] at h
    split at h
    next htest =>
      have hstep : step ⟨.check r, toggle, dataSize⟩ v = answered ⟨.check r, toggle, dataSize⟩ r := by
        simp [step, htest]
      rw [hstep, rank_answered]
      exact Nat.lt_succ_self _
    next => cases h
  | retry r =>
    simp only [step]
    split <;> simp [Place.rank]
  | retryCount r =>
    simp only [reply] at h
    split at h
    next htest =>
      -- The first request starts over.
      by_cases hr : r = .setAddress
      · simp [step, hr, Place.rank, rankRetried]
      · have hstep : step ⟨.retryCount r, toggle, dataSize⟩ v = answered ⟨.retryCount r, toggle, dataSize⟩ r := by
          simp [step, hr, htest]
        rw [hstep, rank_answered, Place.rank, rankRetried, if_neg hr]
        exact Nat.lt_succ_self _
    next => cases h

theorem rank_step_notYet (h : s.reply v = .notYet) : (s.step v).place.rank = s.place.rank := by
  obtain ⟨place, toggle, dataSize⟩ := s
  cases place with
  | issue r | poll => rfl
  | initStatus | status r | retryStatus r | pollStatus =>
    simp only [reply] at h
    split at h
    next htest => simp only [step, if_pos htest, place_goto, Place.rank]
    next => cases h
  | waitDevice | removed =>
    simp only [reply] at h
    split at h
    next htest => simp only [step, if_neg (not_not.mpr htest), place_goto]
    next => cases h
  | done r | pollDone =>
    simp only [reply] at h
    split at h
    next => cases h
    next htest => simp [step, htest, Place.rank]
  | hotPlug | ackError | retry r | retryClear r | deviceInfo | keycode | random g => cases h
  | initAck | reset | detect | detectAgain n | present | presentAgain n | check r | retryCount r =>
    simp only [reply] at h
    split at h <;> cases h

/-- From wherever `main` is, with the keyboard removed, the chip without an answer or any retries, a stretch without a
    wrong reply that holds forty right ones has a key code. -/
theorem keycode_after_replies (s : UsbMain) (vs : List (ℕ → BitVec 16))
    (hwrong : Avoids step (fun s v => s.reply v = .wrong) s vs)
    (hright : 40 ≤ stepsOf step (fun s v => s.reply v = .right) s vs) :
    ∃ c, .keycode c ∈ outputs step events s vs := by
  have hidle : ∀ s v, s.place ≠ .keycode → ¬s.reply v = .wrong → (step s v).place.rank ≤ s.place.rank := by
    intro s v hplace hnot
    cases hreply : s.reply v with
    | right => exact (rank_step_lt hplace hreply).le
    | notYet => exact (rank_step_notYet hreply).le
    | wrong => exact absurd hreply hnot
  obtain ⟨k, hk, hplace⟩ := exists_goal_of_rank (f := fun s : UsbMain => s.place.rank) (R := fun s => s.place = .keycode) hidle
    (fun s v hplace _ hcounts => rank_step_lt hplace (of_decide_eq_true hcounts)) hwrong
    (Nat.lt_of_le_of_lt s.place.rank_le hright)
  refine ⟨vs[k] 0 &&& 0xff, mem_outputs_at hk ?_⟩
  rw [events_keycode hplace]
  exact List.mem_append_right _ List.mem_cons_self

/-- The keyboard was removed; it comes back, and the chip answers at once. -/
theorem keycode_after_replies_removed : ∃ c, .keycode c ∈ outputs step events ⟨.removed, 7, 8⟩
    ([fun _ => 0, fun _ => 0x2000] ++ promptLoop) :=
  keycode_after_replies _ _ (by decide +kernel) (by decide +kernel)

end UsbMain

end Pacman
