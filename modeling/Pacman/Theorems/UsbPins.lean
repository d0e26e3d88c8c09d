import Pacman.Theorems.HpiBus
import Pacman.Theorems.UsbMain

/-! The software down to the pins. What `main` does on the bus is what the chip sees on its pins, strobe by strobe, and
    a list that a request stores through the PIO registers is the list that the controller finds. -/

namespace Pacman
open Machine Trace

/-- The call that a strobe makes of the chip, when it is selected. -/
def Strobe.call : Strobe → Option Call
  | .write false addr (some data) => some (.write (addr.setWidth 8) data)
  | .read false addr _ => some (.read (addr.setWidth 8))
  | _ => none

/-- What happens on the bus with a strobe. -/
def Strobe.event : Strobe → Option BusEvent
  | .write false addr (some data) => some (.write (addr.setWidth 8) data)
  | .read false addr (some value) => some (.read (addr.setWidth 8) value)
  | _ => none

/-- The value that a read gives. -/
def BusEvent.value : BusEvent → List (BitVec 16)
  | .read _ value => [value]
  | _ => []

/-- The event is that of the call. -/
def Call.Made : Call → BusEvent → Prop
  | .write port data, e => e = .write port data
  | .read port, e => ∃ value, e = .read port value

/-! ### Strobes -/

section Strobes
variable {call : Call} {b : Strobe} {calls : List Call} {bs : List Strobe} {es : List BusEvent}

theorem setWidth_addr {addr : BitVec 2} {address : BitVec 8} (h : addr.toNat = address.toNat) :
    addr.setWidth 8 = address := by
  have hlt := addr.isLt
  rw [← BitVec.toNat_inj, BitVec.toNat_setWidth, h]
  omega

theorem Call.ServedBy.call_eq (h : call.ServedBy b) : b.call = some call := by
  cases call with
  | write address data =>
    cases b with
    | write csN addr drive =>
      obtain ⟨rfl, haddr, rfl⟩ := h
      rw [Strobe.call, setWidth_addr haddr]
    | read => exact h.elim
  | read address =>
    cases b with
    | write => exact h.elim
    | read csN addr chip =>
      obtain ⟨rfl, haddr, -⟩ := h
      rw [Strobe.call, setWidth_addr haddr]

/-- The chip is called as the software calls. -/
theorem calls_of_served (h : List.Forall₂ Call.ServedBy calls bs) : bs.map Strobe.call = calls.map some := by
  induction h with
  | nil => rfl
  | cons hcall _ ih => rw [List.map_cons, List.map_cons, hcall.call_eq, ih]

/-- Where the reads return what the chip drives, the events are those of the strobes. -/
theorem events_of_served (h : List.Forall₂ Call.ServedBy calls bs) (hmade : List.Forall₂ Call.Made calls es)
    (hvalues : bs.flatMap Strobe.answer = (es.flatMap BusEvent.value).map some) :
    bs.map Strobe.event = es.map some := by
  induction h generalizing es with
  | nil =>
    cases hmade
    rfl
  | @cons call b calls bs hcall _ ih =>
    obtain ⟨e, es, he, hes, rfl⟩ := List.forall₂_cons_left_iff.mp hmade
    rw [List.flatMap_cons, List.flatMap_cons] at hvalues
    cases call with
    | write address data =>
      obtain rfl : e = .write address data := he
      cases b with
      | write csN addr drive =>
        obtain ⟨rfl, haddr, rfl⟩ := hcall
        have hevent : (Strobe.write false addr (some data)).event = some (.write address data) := by
          rw [Strobe.event, setWidth_addr haddr]
        rw [List.map_cons, List.map_cons, hevent, ih hes hvalues]
      | read => exact hcall.elim
    | read address =>
      obtain ⟨value, rfl⟩ := he
      cases b with
      | write => exact hcall.elim
      | read csN addr chip =>
        obtain ⟨rfl, haddr, -⟩ := hcall
        obtain ⟨rfl, hrest⟩ := List.cons.inj hvalues
        have hevent : (Strobe.read false addr (some value)).event = some (.read address value) := by
          rw [Strobe.event, setWidth_addr haddr]
        rw [List.map_cons, List.map_cons, hevent, ih hes hrest]

end Strobes

/-! ### The calls of `main` -/

namespace UsbMain
variable {s : UsbMain} {v : ℕ → BitVec 16}

/-- The calls that a run makes, one after the other. -/
def callsOf (vs : List (ℕ → BitVec 16)) : List Call := outputs step (fun s _ => s.calls) start vs

/-- What happens on the bus in a run. -/
def busTrace (vs : List (ℕ → BitVec 16)) : List BusEvent := (trace vs).filter (IsBus ·)

theorem made_busEvents {calls : List Call} : List.Forall₂ Call.Made calls (busEvents calls v) := by
  induction calls generalizing v with
  | nil => exact .nil
  | cons call calls ih =>
    cases call with
    | write => exact .cons rfl ih
    | read => exact .cons ⟨_, rfl⟩ ih

theorem filter_events : (s.events v).filter (IsBus ·) = busEvents s.calls v := by
  have hbus : (busEvents s.calls v).filter (IsBus ·) = busEvents s.calls v :=
    List.filter_eq_self.mpr fun e he => decide_eq_true (isBus_busEvents _ e he)
  have hstores : (s.stores v).filter (IsBus ·) = [] :=
    List.filter_eq_nil_iff.mpr fun e he => by simpa using not_isBus_stores s e he
  rw [events, List.filter_append, hbus, hstores, List.append_nil]

theorem made_busTrace (vs : List (ℕ → BitVec 16)) : List.Forall₂ Call.Made (callsOf vs) (busTrace vs) := by
  have hall : ∀ s : UsbMain, List.Forall₂ Call.Made (outputs step (fun s _ => s.calls) s vs)
      ((outputs step events s vs).filter (IsBus ·)) := by
    induction vs with
    | nil => exact fun _ => .nil
    | cons v vs ih =>
      intro s
      rw [outputs_cons, outputs_cons, List.filter_append, filter_events]
      exact List.rel_append made_busEvents (ih _)
  exact hall start

def OnPorts (calls : List Call) : Prop := ∀ call ∈ calls, call.address.toNat ≤ 3

section Ports
variable {call : Call} {calls calls' : List Call} {address data : BitVec 16}

@[simp] theorem onPorts_nil : OnPorts [] := by simp [OnPorts]

@[simp] theorem onPorts_cons : OnPorts (call :: calls) ↔ call.address.toNat ≤ 3 ∧ OnPorts calls := by simp [OnPorts]

@[simp] theorem onPorts_append : OnPorts (calls ++ calls') ↔ OnPorts calls ∧ OnPorts calls' := List.forall_mem_append

@[simp] theorem ports : hpiData.toNat ≤ 3 ∧ hpiMailbox.toNat ≤ 3 ∧ hpiAddr.toNat ≤ 3 ∧ hpiStatus.toNat ≤ 3 := by decide

@[simp] theorem onPorts_usbRead : OnPorts (usbRead address) := by simp [usbRead, Call.address]

@[simp] theorem onPorts_usbWrite : OnPorts (usbWrite address data) := by simp [usbWrite, Call.address]

@[simp] theorem onPorts_tdList {words : List (BitVec 16)} : OnPorts (tdList words) := by
  have hstores : OnPorts (words.map (.write hpiData)) := by simp [OnPorts, Call.address]
  exact onPorts_append.mpr ⟨onPorts_cons.mpr ⟨ports.2.2.1, hstores⟩, onPorts_usbWrite⟩

@[simp] theorem onPorts_commRegisters {r0 : BitVec 16} : OnPorts (commRegisters r0) := by
  intro call hcall
  obtain ⟨n, -, hn⟩ := List.mem_flatMap.mp hcall
  exact onPorts_usbWrite call hn

end Ports

/-- `main` uses the four registers of the chip and no other port. -/
theorem onPorts_calls (s : UsbMain) : OnPorts s.calls := by
  obtain ⟨place, toggle, dataSize⟩ := s
  cases place with
  | issue r =>
    simp only [calls, calls_eq]
    exact onPorts_tdList
  | poll => exact onPorts_tdList
  | _ => simp [calls, usbSoftReset, UsbWait.pass, Call.address]

end UsbMain

/-! ### The pins -/

namespace OtgPort
variable {s : OtgPort} {init ops : List Op}

/-- The chip is not asked to drive. -/
def Unread (s : OtgPort) : Prop := s.sw.r = true ∧ s.intf.otgRdN = true

theorem Quiet.unread (h : s.Quiet) : s.Unread := by
  obtain ⟨hsw, sw, hpins, hshow⟩ := h
  exact ⟨hsw.1, hshow.otgRdN.trans hpins.1⟩

theorem Unread.access {a : Access} (h : s.Unread) (ha : a ≠ .r false) : (s.access a).Unread := by
  refine ⟨?_, h.2⟩
  cases a with
  | r level =>
    cases level with
    | false => exact absurd rfl ha
    | true => rfl
  | _ => exact h.1

theorem Unread.clk (h : s.Unread) (chip : Option (BitVec 16)) : (s.clk chip).Unread := ⟨h.1, h.1⟩

/-- Without a store that lowers the read strobe the chip need not drive. -/
theorem Unread.chipStable (h : s.Unread) (hops : ∀ op ∈ ops, op.1 ≠ .r false) : ChipStable (s.trace ops) := by
  have hnone : ∀ x ∈ s.trace ops, ¬x.Reading := by
    refine forall_mem_outputs (P := Unread) (fun t op ht hop => ?_) (fun t op ht hop => ?_) h hops
    · exact run_invariant (P := Unread) (fun _ chip hu => hu.clk chip) (ht.access hop) op.2
    · refine forall_mem_outputs (P := Unread) (fun _ chip hu _ => hu.clk chip) (fun u chip hu _ => ?_) (ht.access hop)
        fun _ _ => trivial
      rw [List.forall_mem_singleton]
      exact fun hread => Bool.false_ne_true (hread.2.symm.trans hu.2)
  refine ⟨fun x hx hread => absurd hread (hnone x hx), ?_⟩
  refine List.isChain_iff_forall_rel_of_append_cons_cons.mpr fun x y l l' hl hread => absurd hread (hnone x ?_)
  rw [hl]
  simp

theorem quiet_call {call : Call} (hs : s.Quiet) (hops : ops.map Prod.fst = call.accesses) (hspaced : Spaced ops) :
    (run step s ops).Quiet := by
  obtain ⟨⟨hr, hw⟩, -⟩ := hs
  cases call with
  | write address data =>
    obtain ⟨g₁, g₂, g₃, g₄, g₅, g₆, rfl, -, -, -, -, hg₅⟩ := exists_gaps hops hspaced
    have hsw : (run step s [(.cs false, g₁), (.address address, g₂), (.data data, g₃), (.w false, g₄),
        (.w true, g₅)]).sw.Quiet := ⟨by simpa [FromSw.store] using hr, by simp [FromSw.store]⟩
    have hcalm : ∀ op ∈ [(Access.cs true, g₆)], op.1.Calm := by simp [Access.Calm]
    exact (quiet_run ⟨hsw, _, hsw, shows_step (gap_ne_nil hg₅)⟩ hcalm).1
  | read address =>
    obtain ⟨g₁, g₂, g₃, g₄, g₅, g₆, rfl, -, -, -, -, hg₅⟩ := exists_gaps hops hspaced
    have hsw : (run step s [(.cs false, g₁), (.address address, g₂), (.r false, g₃), (.loadData, g₄),
        (.r true, g₅)]).sw.Quiet := ⟨by simp [FromSw.store], by simpa [FromSw.store] using hw⟩
    have hcalm : ∀ op ∈ [(Access.cs true, g₆)], op.1.Calm := by simp [Access.Calm]
    exact (quiet_run ⟨hsw, _, hsw, shows_step (gap_ne_nil hg₅)⟩ hcalm).1

/-- Calls leave the strobes high, whatever the chip does. -/
theorem quiet_calls {calls : List Call} (hs : s.Quiet) (hops : ops.map Prod.fst = calls.flatMap Call.accesses)
    (hspaced : Spaced ops) : (run step s ops).Quiet := by
  induction calls generalizing s ops with
  | nil =>
    obtain rfl : ops = [] := by simpa using hops
    exact hs
  | cons call calls ih =>
    obtain ⟨now, later, rfl, hnow, hlater⟩ := List.map_eq_append_iff.mp (hops.trans List.flatMap_cons)
    obtain ⟨hspaced, hspaced'⟩ := hspaced.of_append
    rw [run_append]
    exact ih (quiet_call hs hnow hspaced) hlater hspaced'

end OtgPort

theorem read_notMem_accesses {words : List (BitVec 16)} {call : Call} (h : call ∈ tdList words) :
    .r false ∉ call.accesses := by
  have hwrites : ∀ call ∈ tdList words, ∃ port data, call = .write port data := by
    simp [tdList, usbWrite, or_imp, forall_and]
  obtain ⟨port, data, rfl⟩ := hwrites call h
  simp [Call.accesses, ioWrite]

/-- What the software does on the bus happens on the pins of the chip. In every run of `main` on the PIO registers, from
    any state of theirs and of `hpi_io_intf`, whose reads give what `IO_read` returns, the strobes that the chip sees
    after `IO_init` are the accesses of the run in their order, and there is no other. -/
theorem main_on_pins (vs : List (ℕ → BitVec 16)) (start : OtgPort) (init ops : List Op)
    (hinit : init.map Prod.fst = ioInit) (hops : ops.map Prod.fst = (UsbMain.callsOf vs).flatMap Call.accesses)
    (hspaced : Spaced (init ++ ops)) (hchip : ChipStable ((run OtgPort.step start init).trace ops))
    (hreads : (run OtgPort.step start init).returned ops = ((UsbMain.busTrace vs).flatMap BusEvent.value).map some) :
    (pulses Cycle.strobe none ((run OtgPort.step start init).trace ops)).map Strobe.event =
      (UsbMain.busTrace vs).map some := by
  obtain ⟨hspaced, hspaced'⟩ := hspaced.of_append
  have haddr : UsbMain.OnPorts (UsbMain.callsOf vs) := by
    intro call hcall
    obtain ⟨s, -, hs⟩ := mem_outputs hcall
    exact UsbMain.onPorts_calls s call hs
  obtain ⟨hserved, hreturned, -⟩ := OtgPort.serves_calls (OtgPort.quiet_init hinit hspaced) hops hspaced' haddr hchip
  exact events_of_served hserved (UsbMain.made_busTrace vs) (hreturned.symm.trans hreads)

/-- Registers as the power-up may leave them. -/
def powerUp : OtgPort := ⟨⟨0, 0, false, false, false⟩, HpiIoIntf.reset⟩

/-- Accesses with three edges each, at which the chip drives `chip`. -/
def paced (chip : Option (BitVec 16)) (accesses : List Access) : List Op := accesses.map (·, [chip, chip, chip])

/-- The first two pieces of `main` with a chip that drives zeros. -/
theorem main_on_pins_start :
    (pulses Cycle.strobe none ((run OtgPort.step powerUp (paced none ioInit)).trace
      (paced (some 0) ((UsbMain.callsOf [fun _ => 0, fun _ => 0]).flatMap Call.accesses)))).map Strobe.event =
      (UsbMain.busTrace [fun _ => 0, fun _ => 0]).map some :=
  main_on_pins [fun _ => 0, fun _ => 0] powerUp _ _ (by decide +kernel) (by decide +kernel) (by decide +kernel)
    ⟨by decide +kernel, by decide +kernel⟩ (by decide +kernel)

/-- A request reaches the controller through the PIO registers. After `IO_init` and any calls of `IO_write` and
    `IO_read`, with three `Clk` edges or more between the accesses, a chip that is called as the strobes of the request
    say, and that leaves the driver's words alone in the meantime, finds the transactions of the transfer. -/
theorem request_on_pins {κ ι : Type*} (chip : HpiChip κ ι) (s : κ) (r : Request) (start : OtgPort)
    (init before ops : List Op) (earlier : List Call) (called : List (ι × Call)) (hinit : init.map Prod.fst = ioInit)
    (hbefore : before.map Prod.fst = earlier.flatMap Call.accesses)
    (hops : ops.map Prod.fst = r.calls.flatMap Call.accesses) (hspaced : Spaced (init ++ (before ++ ops)))
    (hcalled : called.map (some ∘ Prod.snd) =
      (pulses Cycle.strobe none ((run OtgPort.step start (init ++ before)).trace ops)).map Strobe.call) :
    Finds (chip.word (run chip.next s called)) (chip.word (run chip.next s called) husbSie1PCurrentTDPtr)
      r.transfer.transactions := by
  obtain ⟨hspacedInit, hspaced⟩ := hspaced.of_append
  obtain ⟨hspacedBefore, hspacedOps⟩ := hspaced.of_append
  have hquiet : (run OtgPort.step start (init ++ before)).Quiet := by
    rw [run_append]
    exact OtgPort.quiet_calls (OtgPort.quiet_init hinit hspacedInit) hbefore hspacedBefore
  rw [calls_eq] at hops
  have hchip : ChipStable ((run OtgPort.step start (init ++ before)).trace ops) := by
    refine hquiet.unread.chipStable fun op hop hread => ?_
    have hmem := List.mem_map_of_mem (f := Prod.fst) hop
    rw [hops, List.mem_flatMap] at hmem
    obtain ⟨call, hcall, hop⟩ := hmem
    rw [hread] at hop
    exact read_notMem_accesses hcall hop
  obtain ⟨hserved, -, -⟩ := OtgPort.serves_calls hquiet hops hspacedOps UsbMain.onPorts_tdList hchip
  rw [calls_of_served hserved, ← List.map_map] at hcalled
  have hcalls := List.map_injective_iff.mpr (fun _ _ => Option.some.inj) hcalled
  have hlen := r.transfer.length_encode
  have hle := r.transfer.listEnd_le
  rw [word_tdList hcalls (.inl rfl), if_pos rfl]
  exact r.transfer.finds_encode (holds_tdList hcalls (by omega))

/-- The first request after the soft reset. -/
theorem request_on_pins_setAddress :
    let called := usbSetAddress.map (Prod.mk ())
    Finds (memoryChip.word (run memoryChip.next (0, fun _ => 0) called))
      (memoryChip.word (run memoryChip.next (0, fun _ => 0) called) husbSie1PCurrentTDPtr)
      Request.setAddress.transfer.transactions :=
  request_on_pins memoryChip (0, fun _ => 0) .setAddress powerUp (paced none ioInit)
    (paced (some 0) (usbSoftReset.flatMap Call.accesses)) (paced none (usbSetAddress.flatMap Call.accesses)) usbSoftReset
    (usbSetAddress.map (Prod.mk ())) (by decide +kernel) (by decide +kernel) (by decide +kernel) (by decide +kernel)
    (by decide +kernel)

end Pacman
