import Pacman.Theorems.UsbTransfers
import Pacman.UsbMain

/-! Key codes come from an enumerated keyboard. Each place of `main` has a list of pieces that the bus has seen, in this
    order, since the last soft reset; the pieces of the loop hold the whole enumeration. -/

namespace Pacman
open Machine Trace

/-- The soft reset of the chip. -/
def IsReset (e : BusEvent) : Prop := e = .write hpiMailbox commReset

instance : DecidablePred IsReset := fun _ => inferInstanceAs (Decidable (_ = _))

def IsKeycode (e : BusEvent) : Prop := ∃ c, e = .keycode c

instance : DecidablePred IsKeycode
  | .keycode c => isTrue ⟨c, rfl⟩
  | .write .. | .read .. | .random .. => isFalse fun ⟨_, h⟩ => by cases h

def IsBus : BusEvent → Prop
  | .write .. | .read .. => True
  | .keycode _ | .random .. => False

instance : DecidablePred IsBus
  | .write .. | .read .. => isTrue trivial
  | .keycode _ | .random .. => isFalse id

namespace UsbMain

/-! ### What the bus has seen -/

def acked : List BusEvent := [.read hpiMailbox commAck]

/-- The accesses of a list; there is no read among them. -/
def sent (calls : List Call) : List BusEvent := busEvents calls fun _ => 0

/-- A read of the chip's memory. -/
def loaded (address value : BitVec 16) : List BusEvent := [.write hpiAddr address, .read hpiData value]

/-- A request, the controller's message, and the word of the first descriptor that shows that no retry is left. -/
def answer (r : Request) : List (List BusEvent) :=
  [sent r.calls, loaded hpiSie1MsgAdr husbTDListDone, loaded 0x0508 0x03]

def requests : List Request :=
  [.setAddress, .deviceDesc1, .deviceDesc2, .configDesc1, .configDesc2, .setConfig, .classRequest, .hidDesc,
    .reportDesc]

/-- A request with what `main` does before the next one; `w` is the word that it takes the data size from. -/
def stage (w : BitVec 16) (r : Request) : List (List BusEvent) :=
  answer r ++ if r = .configDesc2 then [loaded 0x057c w] else []

def enumerationTo (w : BitVec 16) (r : Request) : List (List BusEvent) :=
  [acked, acked] ++ (requests.takeWhile (· ≠ r)).flatMap (stage w)

def enumeration (w : BitVec 16) : List (List BusEvent) := [acked, acked] ++ requests.flatMap (stage w)

/-- The pieces that the bus has seen since the last soft reset when `main` comes to a place. -/
def passed (w : BitVec 16) (s : UsbMain) : List (List BusEvent) :=
  match s.place with
  | .hotPlug | .initStatus | .initAck | .ackError => []
  | .reset => [acked]
  | .detect | .detectAgain _ | .waitDevice => [acked, acked]
  | .issue r => enumerationTo w r
  | .status r | .done r => enumerationTo w r ++ [sent r.calls]
  | .check r | .retry r | .retryClear r | .retryStatus r | .retryCount r =>
    enumerationTo w r ++ [sent r.calls, loaded hpiSie1MsgAdr husbTDListDone]
  | .deviceInfo => enumerationTo w .configDesc2 ++ answer .configDesc2
  | .poll | .present | .presentAgain _ | .removed | .random _ => enumeration w
  | .pollStatus | .pollDone => enumeration w ++ [sent (keyboardPoll s.dataSize s.toggle)]
  | .keycode =>
    enumeration w ++ [sent (keyboardPoll s.dataSize s.toggle), loaded hpiSie1MsgAdr husbTDListDone]

variable {s : UsbMain} {v : ℕ → BitVec 16} {w : BitVec 16} {t : List BusEvent}

/-! ### The accesses of a place -/

theorem write_mem_busEvents {calls : List Call} {port : BitVec 8} {data : BitVec 16} :
    .write port data ∈ busEvents calls v ↔ .write port data ∈ calls := by
  induction calls generalizing v with
  | nil => simp [busEvents]
  | cons call calls ih => cases call <;> simp [busEvents, ih]

theorem isBus_busEvents (calls : List Call) : ∀ e ∈ busEvents calls v, IsBus e := by
  induction calls generalizing v with
  | nil => simp [busEvents]
  | cons call calls ih => cases call <;> exact List.forall_mem_cons.mpr ⟨trivial, ih⟩

theorem not_isBus_stores (s : UsbMain) : ∀ e ∈ s.stores v, ¬IsBus e := by
  intro e he
  unfold stores at he
  split at he
  next => rw [List.mem_singleton.mp he]; exact id
  next => rw [List.mem_singleton.mp he]; exact id
  next => cases he

theorem keycode_mem_events {c : BitVec 16} : .keycode c ∈ s.events v ↔ s.place = .keycode ∧ c = v 0 &&& 0xff := by
  have hbus : .keycode c ∉ busEvents s.calls v := fun h => isBus_busEvents s.calls _ h
  obtain ⟨place, toggle, dataSize⟩ := s
  cases place <;> simp [events, stores, hbus]

theorem not_isKeycode_events (h : s.place ≠ .keycode) : ∀ e ∈ s.events v, ¬IsKeycode e := by
  rintro _ he ⟨c, rfl⟩
  exact h (keycode_mem_events.mp he).1

theorem busEvents_tdList (words : List (BitVec 16)) : busEvents (tdList words) v = sent (tdList words) := by
  have hstores : ∀ (rest : List Call) (v : ℕ → BitVec 16),
      busEvents (words.map (.write hpiData) ++ rest) v = words.map (.write hpiData) ++ busEvents rest v := by
    intro rest v
    induction words with
    | nil => rfl
    | cons x words ih => simp [busEvents, ih]
  simp [sent, tdList, busEvents, hstores, usbWrite]

theorem busEvents_calls (r : Request) : busEvents r.calls v = sent r.calls := by
  rw [calls_eq, busEvents_tdList]

section Mailbox
variable {address data : BitVec 16}

theorem mailbox_ne : hpiMailbox ≠ hpiAddr ∧ hpiMailbox ≠ hpiData := by decide

@[simp] theorem mailbox_notMem_usbRead : .write hpiMailbox data ∉ usbRead address := by
  simp [usbRead, mailbox_ne.1]

@[simp] theorem mailbox_notMem_usbWrite {value : BitVec 16} : .write hpiMailbox data ∉ usbWrite address value := by
  simp [usbWrite, mailbox_ne]

@[simp] theorem mailbox_notMem_tdList {words : List (BitVec 16)} : .write hpiMailbox data ∉ tdList words := by
  simp [tdList, mailbox_ne, mailbox_ne.2.symm]

@[simp] theorem mailbox_notMem_commRegisters {r0 : BitVec 16} : .write hpiMailbox data ∉ commRegisters r0 := by
  simp [commRegisters]

end Mailbox

/-- Only the start at `USB_HOT_PLUG` resets the chip. -/
theorem reset_notMem_calls (h : s.place ≠ .hotPlug) : .write hpiMailbox commReset ∉ s.calls := by
  have hexec : commReset ≠ commExecInt := by decide
  obtain ⟨place, toggle, dataSize⟩ := s
  cases place with
  | hotPlug => exact absurd rfl h
  | issue r =>
    simp only [calls, calls_eq]
    exact mailbox_notMem_tdList
  | _ => simp [calls, keyboardPoll, UsbWait.pass, mailbox_ne, hexec]

theorem not_isReset_events (h : s.place ≠ .hotPlug) : ∀ e ∈ s.events v, ¬IsReset e := by
  rintro _ he rfl
  rw [events, List.mem_append, write_mem_busEvents] at he
  rcases he with he | he
  · exact reset_notMem_calls h he
  · exact not_isBus_stores s _ he trivial

/-- The soft reset is the first access at `USB_HOT_PLUG`, and the only one of its kind. -/
theorem events_hotPlug (h : s.place = .hotPlug) :
    ∃ es, s.events v = .write hpiMailbox commReset :: es ∧ ∀ e ∈ es, ¬IsReset e := by
  have hexec : commReset ≠ commExecInt := by decide
  obtain ⟨place, toggle, dataSize⟩ := s
  obtain rfl : place = .hotPlug := h
  obtain ⟨calls', hcalls⟩ : ∃ calls', (calls ⟨.hotPlug, toggle, dataSize⟩) = .write hpiMailbox commReset :: calls' ∧
      .write hpiMailbox commReset ∉ calls' := by
    refine ⟨_, rfl, ?_⟩
    simp [hexec]
  refine ⟨busEvents calls' v, ?_, ?_⟩
  · rw [events, hcalls.1, busEvents]
    simp [stores]
  · rintro _ he rfl
    exact hcalls.2 (write_mem_busEvents.mp he)

theorem events_issue {r : Request} (h : s.place = .issue r) : s.events v = sent r.calls := by
  simp only [events, calls, stores, h, List.append_nil]
  exact busEvents_calls r

theorem events_poll (h : s.place = .poll) : s.events v = sent (keyboardPoll s.dataSize s.toggle) := by
  simp only [events, calls, stores, h, List.append_nil]
  exact busEvents_tdList _

theorem events_keycode (h : s.place = .keycode) : s.events v = loaded 0x051e (v 0) ++ [.keycode (v 0 &&& 0xff)] := by
  simp only [events, calls, stores, h]
  rfl

/-- The controller's message is read where `main` waits for it. -/
theorem done_in_events (h : s.place = .pollDone ∨ ∃ r, s.place = .done r) (hdone : v 0 = husbTDListDone) :
    loaded hpiSie1MsgAdr husbTDListDone <:+: s.events v := by
  rw [← hdone]
  rcases h with h | ⟨r, h⟩
  · rw [events, calls, h]
    exact ⟨[], _, rfl⟩
  · rw [events, calls, h]
    exact ⟨[], _, rfl⟩

/-! ### The enumeration -/

/-- With the last piece of its answer a request is behind `main`. -/
theorem passed_answered {r : Request} {u : List BusEvent}
    (h : InOrder (enumerationTo w r ++ [sent r.calls, loaded hpiSie1MsgAdr husbTDListDone]) t)
    (hcheck : loaded 0x0508 0x03 <:+: u) : InOrder (passed w (s.answered r)) (t ++ u) := by
  have hnext := h.snoc hcheck
  rw [List.append_assoc] at hnext
  cases r <;> exact hnext

theorem answered_dataSize (r : Request) : (s.answered r).dataSize = s.dataSize := by
  cases r <;> rfl

/-- What `main` does from a place to the next one puts the next piece behind those that it has passed. -/
theorem inOrder_step (hdata : s.dataSize = (w &&& 0x0ff).setWidth 8) (h : InOrder (passed w s) t)
    (hplace : s.place ≠ .hotPlug) : ∃ w' : BitVec 16, (s.step v).dataSize = (w' &&& 0x0ff).setWidth 8 ∧
      InOrder (passed w' (s.step v)) (t ++ s.events v) := by
  obtain ⟨place, toggle, dataSize⟩ := s
  have hsame : ∀ s' : UsbMain, s'.dataSize = dataSize →
      InOrder (passed w s') (t ++ events ⟨place, toggle, dataSize⟩ v) →
      ∃ w' : BitVec 16, s'.dataSize = (w' &&& 0x0ff).setWidth 8 ∧
        InOrder (passed w' s') (t ++ events ⟨place, toggle, dataSize⟩ v) := fun _ h₁ h₂ => ⟨w, h₁.trans hdata, h₂⟩
  cases place with
  | hotPlug => exact absurd rfl hplace
  | initStatus =>
    simp only [step]
    split <;> exact hsame _ rfl trivial
  | initAck =>
    simp only [step]
    split
    · exact hsame _ rfl trivial
    · rename_i hack
      refine hsame _ rfl (h.snoc ⟨[], [], ?_⟩)
      rw [events, acked, ← not_ne_iff.mp hack]
      rfl
  | ackError => exact hsame _ rfl trivial
  | reset =>
    simp only [step]
    split
    · exact hsame _ rfl trivial
    · rename_i hack
      refine hsame _ rfl (h.snoc ⟨(events ⟨.reset, toggle, dataSize⟩ v).take 31, [], ?_⟩)
      rw [acked, ← not_ne_iff.mp hack]
      rfl
  | detect =>
    simp only [step]
    split <;> exact hsame _ rfl h.append_right
  | detectAgain n =>
    simp only [step]
    repeat' split
    all_goals exact hsame _ rfl h.append_right
  | waitDevice =>
    simp only [step]
    split
    · exact hsame _ rfl trivial
    · exact hsame _ rfl h.append_right
  | issue r =>
    rw [events_issue rfl] at hsame ⊢
    exact hsame _ rfl (h.snoc (List.infix_refl _))
  | status r =>
    simp only [step]
    split
    · exact hsame _ rfl h.of_append.append_right
    · exact hsame _ rfl h.append_right
  | done r =>
    simp only [step]
    split
    · exact hsame _ rfl h.append_right
    · rename_i hdone
      have hnext := h.snoc (done_in_events (s := ⟨.done r, toggle, dataSize⟩) (.inr ⟨r, rfl⟩) (not_ne_iff.mp hdone))
      rw [passed, List.append_assoc] at hnext
      exact hsame _ rfl hnext
  | check r =>
    simp only [step]
    split
    · exact hsame _ rfl h.append_right
    · rename_i hcheck
      refine hsame _ (answered_dataSize r) (passed_answered h ?_)
      rw [← not_ne_iff.mp hcheck]
      exact ⟨loaded 0x0506 (v 0), [], rfl⟩
  | retry r =>
    simp only [step]
    split <;> exact hsame _ rfl h.append_right
  | retryClear r => exact hsame _ rfl h.append_right
  | retryStatus r =>
    simp only [step]
    split <;> exact hsame _ rfl h.append_right
  | retryCount r =>
    simp only [step]
    split
    · exact hsame _ rfl trivial
    split
    · exact hsame _ rfl h.append_right
    · rename_i hcheck
      refine hsame _ (answered_dataSize r) (passed_answered h ?_)
      rw [← not_ne_iff.mp hcheck]
      exact ⟨[], [], rfl⟩
  -- The data size is from now on that of this session.
  | deviceInfo =>
    refine ⟨v 1, rfl, ?_⟩
    have hnext := h.snoc (u := events ⟨.deviceInfo, toggle, dataSize⟩ v) (p := loaded 0x057c (v 1))
      ⟨(events ⟨.deviceInfo, toggle, dataSize⟩ v).take 10, [], rfl⟩
    exact hnext
  | poll =>
    rw [events_poll rfl] at hsame ⊢
    exact hsame _ rfl (h.snoc (List.infix_refl _))
  | pollStatus =>
    simp only [step]
    split
    · exact hsame _ rfl h.of_append.append_right
    · exact hsame _ rfl h.append_right
  | pollDone =>
    simp only [step]
    split
    · exact hsame _ rfl h.append_right
    · rename_i hdone
      have hnext := h.snoc (done_in_events (s := ⟨.pollDone, toggle, dataSize⟩) (.inl rfl) (not_ne_iff.mp hdone))
      rw [passed, List.append_assoc] at hnext
      exact hsame _ rfl hnext
  | keycode => exact hsame _ rfl h.of_append.append_right
  | present =>
    simp only [step]
    split <;> exact hsame _ rfl h.append_right
  | presentAgain n =>
    simp only [step]
    repeat' split
    all_goals exact hsame _ rfl h.append_right
  | random g => cases g <;> exact hsame _ rfl h.append_right
  | removed =>
    simp only [step]
    split
    · exact hsame _ rfl trivial
    · exact hsame _ rfl h.append_right

theorem trace_snoc (vs : List (ℕ → BitVec 16)) :
    trace (vs ++ [v]) = trace vs ++ (run step start vs).events v := by
  rw [trace, outputs_append, outputs_cons, outputs_nil, List.append_nil]
  rfl

theorem inOrder_run (vs : List (ℕ → BitVec 16)) :
    ∃ w : BitVec 16, (run step start vs).dataSize = (w &&& 0x0ff).setWidth 8 ∧
      InOrder (passed w (run step start vs)) (sinceLast IsReset (trace vs)) := by
  induction vs using List.reverseRecOn with
  | nil => exact ⟨0, rfl, trivial⟩
  | append_singleton vs v ih =>
    obtain ⟨w, hdata, h⟩ := ih
    rw [run_snoc, trace_snoc]
    by_cases hplace : (run step start vs).place = .hotPlug
    · obtain ⟨es, hes, hnone⟩ := events_hotPlug (v := v) hplace
      have hreset : IsReset (.write hpiMailbox commReset) := rfl
      rw [hes, sinceLast_append_cons hreset hnone, step, hplace]
      exact ⟨w, hdata, trivial⟩
    · rw [sinceLast_append (not_isReset_events hplace)]
      exact inOrder_step hdata h hplace

/-! ### Key codes -/

/-- A key code is stored by the piece that has read it. -/
theorem keycode_events {a b : List BusEvent} {c : BitVec 16} (h : s.events v = a ++ .keycode c :: b) :
    s.place = .keycode ∧ a = loaded 0x051e (v 0) ∧ c = v 0 &&& 0xff := by
  by_cases hplace : s.place = .keycode
  · rw [events_keycode hplace] at h
    rcases a with _ | ⟨e, _ | ⟨e', _ | ⟨e'', a⟩⟩⟩ <;> simp [loaded] at h
    obtain ⟨rfl, rfl, rfl, -⟩ := h
    exact ⟨hplace, rfl, rfl⟩
  · have hmem : .keycode c ∈ s.events v := by
      rw [h]
      simp
    exact absurd (keycode_mem_events.mp hmem).1 hplace

/-- Where `main` stores a key code the keyboard has been enumerated and asked. -/
theorem enumerated_at_keycode {vs : List (ℕ → BitVec 16)} (hplace : (run step start vs).place = .keycode) :
    ∃ w toggle, InOrder (enumeration w ++ [sent (keyboardPoll ((w &&& 0x0ff).setWidth 8) toggle),
      loaded hpiSie1MsgAdr husbTDListDone]) (sinceLast IsReset (trace vs)) := by
  obtain ⟨w, hdata, hpassed⟩ := inOrder_run vs
  rw [passed, hplace, hdata] at hpassed
  exact ⟨w, _, hpassed⟩

/-- Every key code comes from an enumerated keyboard: since the last soft reset the chip has acknowledged both calls of
    its BIOS and the nine requests have been answered in their order, each by a finished list without retries; then
    the keyboard has been asked with the data size that was read, and the key code is what came in. -/
theorem keycode_after_enumeration {vs : List (ℕ → BitVec 16)} {t u : List BusEvent} {c : BitVec 16}
    (h : trace vs = t ++ .keycode c :: u) : ∃ w x toggle, c = x &&& 0xff ∧
      InOrder (enumeration w ++ [sent (keyboardPoll ((w &&& 0x0ff).setWidth 8) toggle),
        loaded hpiSie1MsgAdr husbTDListDone, loaded 0x051e x]) (sinceLast IsReset t) := by
  obtain ⟨js, v, -, a, b, -, hev, rfl⟩ := outputs_split h
  obtain ⟨hplace, rfl, rfl⟩ := keycode_events hev
  obtain ⟨w, toggle, hpassed⟩ := enumerated_at_keycode hplace
  refine ⟨w, v 0, toggle, rfl, ?_⟩
  have hnone : ∀ e ∈ loaded 0x051e (v 0), ¬IsReset e := by
    simp [loaded, IsReset, mailbox_ne.1.symm]
  have hnext := hpassed.snoc (List.infix_refl (loaded 0x051e (v 0)))
  rw [List.append_assoc] at hnext
  change InOrder _ (sinceLast IsReset (trace js ++ _))
  rw [sinceLast_append hnone]
  exact hnext

/-- What a chip gives that answers at once: the replies to the piece that issues a request and to the three that
    follow it. -/
def promptAnswer : List (ℕ → BitVec 16) := [fun _ => 0, fun _ => 0x0010, fun _ => 0x1000, fun _ => 0x0003]

/-- A run up to the first key code, with the key code 0x2B. -/
def promptRun : List (ℕ → BitVec 16) :=
  [fun _ => 0, fun _ => 1, fun _ => commAck, fun _ => commAck, fun _ => 0x2000] ++
    (List.replicate 5 promptAnswer).flatten ++ [fun _ => 8] ++ (List.replicate 4 promptAnswer).flatten ++
    [fun _ => 0, fun _ => 0x0010, fun _ => 0x1000, fun _ => 0x1A2B]

theorem keycode_after_enumeration_prompt : ∃ w x toggle, (0x2B : BitVec 16) = x &&& 0xff ∧
    InOrder (enumeration w ++ [sent (keyboardPoll ((w &&& 0x0ff).setWidth 8) toggle),
      loaded hpiSie1MsgAdr husbTDListDone, loaded 0x051e x]) (sinceLast IsReset (trace promptRun).dropLast) :=
  have hrun : trace promptRun = (trace promptRun).dropLast ++ [.keycode 0x2B] := by decide +kernel
  keycode_after_enumeration hrun

/-! ### One poll for each key code -/

/-- `main` has begun to ask and has not stored the key code yet. -/
def Asking : Place → Prop
  | .poll | .pollStatus | .pollDone | .keycode => True
  | _ => False

instance : DecidablePred Asking
  | .poll | .pollStatus | .pollDone | .keycode => isTrue trivial
  | .hotPlug | .initStatus | .initAck | .ackError | .reset | .detect | .detectAgain _ | .waitDevice | .issue _
  | .status _ | .done _ | .check _ | .retry _ | .retryClear _ | .retryStatus _ | .retryCount _ | .deviceInfo
  | .present | .presentAgain _ | .removed | .random _ => isFalse id

/-- The pieces that the bus has seen since the last key code. -/
def polled (s : UsbMain) : List (List BusEvent) :=
  match s.place with
  | .pollStatus | .pollDone => [sent (keyboardPoll s.dataSize s.toggle)]
  | .keycode => [sent (keyboardPoll s.dataSize s.toggle), loaded hpiSie1MsgAdr husbTDListDone]
  | _ => []

/-- After `n` key codes `toggle` holds the number of the poll that `main` is at, as far as 8 bits go, and the bus has
    seen this poll. -/
structure Polls (n : ℕ) (s : UsbMain) (t : List BusEvent) : Prop where
  toggle : s.toggle = BitVec.ofNat 8 (if Asking s.place then n + 1 else n)
  pieces : InOrder (polled s) t

theorem Polls.toggle_asking {n : ℕ} (h : Polls n s t) (hplace : s.place = .keycode) :
    s.toggle = BitVec.ofNat 8 (n + 1) := by
  have hasking : Asking s.place := hplace ▸ trivial
  have htoggle := h.toggle
  rwa [if_pos hasking] at htoggle

theorem Polls.loop {n : ℕ} (h : Polls n s t) (hplace : ¬Asking s.place) : Polls n s.loop t where
  toggle := by
    have htoggle := h.toggle
    have hasking : (if Asking s.loop.place then n + 1 else n) = n + 1 := if_pos trivial
    rw [if_neg hplace] at htoggle
    rw [hasking, UsbMain.loop, htoggle, BitVec.ofNat_add]
    rfl
  pieces := trivial

theorem Polls.goto {n : ℕ} {p : Place} (h : Polls n s t) (hplace : Asking p ↔ Asking s.place)
    (hpieces : InOrder (polled (s.goto p)) t) : Polls n (s.goto p) t :=
  ⟨h.toggle.trans (by simp [UsbMain.goto, hplace]), hpieces⟩

theorem Polls.answered {n : ℕ} (h : Polls n s t) (hplace : ¬Asking s.place) (r : Request) :
    Polls n (s.answered r) t := by
  cases r with
  | reportDesc => exact h.loop hplace
  | _ => exact h.goto (iff_of_false id hplace) trivial

/-- No other piece stores a key code. -/
theorem Polls.step {n : ℕ} (h : Polls n s t) (hplace : s.place ≠ .keycode) :
    Polls n (s.step v) (t ++ s.events v) := by
  have hmore : Polls n s (t ++ s.events v) := ⟨h.toggle, h.pieces.append_right⟩
  have hidle : ∀ {p : Place}, ¬Asking s.place → ¬Asking p → polled (s.goto p) = [] →
      Polls n (s.goto p) (t ++ s.events v) :=
    fun hs hp hnil => hmore.goto (iff_of_false hp hs) (hnil ▸ trivial)
  obtain ⟨place, toggle, dataSize⟩ := s
  cases place with
  | keycode => exact absurd rfl hplace
  | deviceInfo => exact ⟨h.toggle, trivial⟩
  | check r =>
    simp only [UsbMain.step]
    split
    · exact hidle id id rfl
    · exact hmore.answered id r
  | retryCount r =>
    simp only [UsbMain.step]
    split
    · exact hidle id id rfl
    split
    · exact hidle id id rfl
    · exact hmore.answered id r
  | poll =>
    rw [events_poll rfl] at hmore ⊢
    exact hmore.goto Iff.rfl (h.pieces.snoc (List.infix_refl _))
  | pollStatus =>
    simp only [UsbMain.step]
    split
    · exact hmore.goto Iff.rfl trivial
    · exact hmore.goto Iff.rfl hmore.pieces
  | pollDone =>
    simp only [UsbMain.step]
    split
    · exact hmore.goto Iff.rfl hmore.pieces
    · rename_i hdone
      exact hmore.goto Iff.rfl (h.pieces.snoc (done_in_events (.inl rfl) (not_ne_iff.mp hdone)))
  | random g =>
    cases g with
    | pink => exact hmore.loop id
    | orange | blue | red => exact hidle id id rfl
  | _ =>
    simp only [UsbMain.step]
    repeat' split
    all_goals exact hidle id id rfl

theorem polls_run (vs : List (ℕ → BitVec 16)) :
    Polls ((trace vs).countP (IsKeycode ·)) (run step start vs) (sinceLast IsKeycode (trace vs)) := by
  induction vs using List.reverseRecOn with
  | nil => exact ⟨rfl, trivial⟩
  | append_singleton vs v ih =>
    rw [run_snoc, trace_snoc, List.countP_append]
    by_cases hplace : (run step start vs).place = .keycode
    · have hev := events_keycode (v := v) hplace
      have hkey : IsKeycode (.keycode (v 0 &&& 0xff)) := ⟨_, rfl⟩
      have hlast : sinceLast IsKeycode (trace vs ++ (run step start vs).events v) = [] := by
        rw [hev, ← List.append_assoc]
        exact sinceLast_append_cons hkey (by simp)
      have hcount : ((run step start vs).events v).countP (IsKeycode ·) = 1 := by
        rw [hev]
        rfl
      rw [hlast, hcount, UsbMain.step, hplace]
      exact ⟨ih.toggle_asking hplace, trivial⟩
    · have hnone := not_isKeycode_events (v := v) hplace
      have hcount : ((run step start vs).events v).countP (IsKeycode ·) = 0 :=
        List.countP_eq_zero.mpr fun e he => by simpa using hnone e he
      rw [hcount, Nat.add_zero, sinceLast_append hnone]
      exact ih.step hplace

theorem even_toggle_iff (n : ℕ) : BitVec.ofNat 8 (n + 1) % 2 = 0 ↔ n % 2 = 1 := by
  rw [← BitVec.toNat_inj]
  simp [BitVec.toNat_umod]
  omega

/-- Key codes and polls take turns. Behind the last key code the keyboard has been asked anew, the controller has
    finished the list, and the key code is the low byte of what came in. The controller has found in the list one
    transaction with endpoint 1 of the keyboard; its sequence bit is the other one each time, over the wrap of the
    counter and over every new enumeration. -/
theorem keycodes_polled_in_turn {vs : List (ℕ → BitVec 16)} {t u : List BusEvent} {c : BitVec 16}
    (h : trace vs = t ++ .keycode c :: u) : ∃ dataSize x, c = x &&& 0xff ∧
      InOrder [sent (keyboardPoll dataSize (BitVec.ofNat 8 (t.countP (IsKeycode ·) + 1))),
        loaded hpiSie1MsgAdr husbTDListDone, loaded 0x051e x] (sinceLast IsKeycode t) ∧
      ∀ {κ ι : Type} (chip : HpiChip κ ι) (s : κ) (ops : List (ι × Call)),
        ops.map Prod.snd = keyboardPoll dataSize (BitVec.ofNat 8 (t.countP (IsKeycode ·) + 1)) →
        Finds (chip.word (run chip.next s ops)) 0x0500
          [{ pid := inPid, device := 2, endpoint := 1, data1 := t.countP (IsKeycode ·) % 2 = 1, buffer := 0x051C,
             length := dataSize.setWidth 10 &&& 0xF }] := by
  obtain ⟨js, v, -, a, b, -, hev, rfl⟩ := outputs_split h
  obtain ⟨hplace, rfl, rfl⟩ := keycode_events hev
  have hpolls := polls_run js
  have hnone : ∀ e ∈ loaded 0x051e (v 0), ¬IsKeycode e := by
    simp [loaded, IsKeycode]
  have hcount : (outputs step events start js ++ loaded 0x051e (v 0)).countP (IsKeycode ·) =
      (trace js).countP (IsKeycode ·) := by
    have hzero : (loaded 0x051e (v 0)).countP (IsKeycode ·) = 0 :=
      List.countP_eq_zero.mpr fun e he => by simpa using hnone e he
    rw [List.countP_append, hzero]
    rfl
  have htoggle := hpolls.toggle_asking hplace
  refine ⟨(run step start js).dataSize, v 0, rfl, ?_, fun chip s ops hops => ?_⟩
  · have hnext := hpolls.pieces.snoc (List.infix_refl (loaded 0x051e (v 0)))
    rw [polled, hplace, htoggle] at hnext
    rw [hcount, sinceLast_append hnone]
    exact hnext
  · rw [hcount] at hops ⊢
    have hfound := (poll_reaches_controller chip s hops).2
    rw [pollTransaction, decide_eq_decide.mpr (even_toggle_iff _)] at hfound
    exact hfound

/-- `promptRun` and once more around the loop, with the key code 0x2C. -/
def promptLoop : List (ℕ → BitVec 16) :=
  promptRun ++ [fun _ => 0x2000] ++ List.replicate 4 (fun _ => 0x4E35) ++
    [fun _ => 0, fun _ => 0x0010, fun _ => 0x1000, fun _ => 0x1A2C]

theorem keycodes_polled_in_turn_second : ∃ dataSize x, (0x2C : BitVec 16) = x &&& 0xff ∧
    InOrder [sent (keyboardPoll dataSize (BitVec.ofNat 8 ((trace promptLoop).dropLast.countP (IsKeycode ·) + 1))),
      loaded hpiSie1MsgAdr husbTDListDone, loaded 0x051e x] (sinceLast IsKeycode (trace promptLoop).dropLast) := by
  have hrun : trace promptLoop = (trace promptLoop).dropLast ++ [.keycode 0x2C] := by decide +kernel
  obtain ⟨dataSize, x, hx, hpieces, -⟩ := keycodes_polled_in_turn hrun
  exact ⟨dataSize, x, hx, hpieces⟩

end UsbMain
end Pacman
