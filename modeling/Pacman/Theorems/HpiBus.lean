import Mathlib.Data.List.Chain
import Pacman.IoHandler

/-! Every call of `IO_write` and `IO_read` is one strobe on the OTG pins. The pins show the PIO registers one
    `Clk` edge late, so from one access to the next they show what the last access left; between two strobes
    they are quiet for as long as the accesses around them take. -/

namespace Pacman
open Machine Trace

/-- Neither strobe is given. -/
def FromSw.Quiet (sw : FromSw) : Prop := sw.r = true ∧ sw.w = true

/-- An access that gives no strobe. -/
def Access.Calm : Access → Prop
  | .r level => level = true
  | .w level => level = true
  | _ => True

theorem FromSw.Quiet.store {sw : FromSw} {a : Access} (h : sw.Quiet) (ha : a.Calm) : (sw.store a).Quiet := by
  cases a with
  | r level => exact ⟨ha, h.2⟩
  | w level => exact ⟨h.1, ha⟩
  | _ => exact h

/-- The pins while the PIO registers stand at `sw`. -/
def FromSw.cycle (sw : FromSw) (chip : Option (BitVec 16)) : Cycle where
  csN := sw.cs
  rdN := sw.r
  wrN := sw.w
  addr := sw.address
  drive := if sw.w then none else some sw.dataOut
  chip := chip

/-- A strobe with what stands beside it on the pins: a write strobe with what the FPGA drives, a read strobe
    with what the chip drives. -/
inductive Strobe where
  | write (csN : Bool) (addr : BitVec 2) (drive : Option (BitVec 16))
  | read (csN : Bool) (addr : BitVec 2) (chip : Option (BitVec 16))
  deriving DecidableEq

/-- The strobe that a `Clk` edge meets. -/
def Cycle.strobe (x : Cycle) : Option Strobe :=
  if x.wrN = false then some (.write x.csN x.addr x.drive)
  else if x.rdN = false then some (.read x.csN x.addr x.chip)
  else none

/-- The chip is selected and asked to drive. -/
def Cycle.Reading (x : Cycle) : Prop := x.csN = false ∧ x.rdN = false

instance (x : Cycle) : Decidable x.Reading := inferInstanceAs (Decidable (_ ∧ _))

/-- The chip drives while it is asked to, and does not change what it drives. -/
structure ChipStable (xs : List Cycle) : Prop where
  drives : ∀ x ∈ xs, x.Reading → x.chip.isSome
  stable : xs.IsChain fun x y => x.Reading → y.Reading → x.chip = y.chip

theorem ChipStable.of_infix {xs ys : List Cycle} (h : ChipStable ys) (hsub : xs <:+: ys) : ChipStable xs where
  drives x hx := h.drives x (hsub.subset hx)
  stable := h.stable.infix hsub

/-- From one access to the next there are three `Clk` edges or more. -/
def Spaced (ops : List Op) : Prop := ∀ op ∈ ops.dropLast, 3 ≤ op.2.length

instance (ops : List Op) : Decidable (Spaced ops) := inferInstanceAs (Decidable (∀ op ∈ _, _))

/-- A strobe does what a call wants. -/
def Call.ServedBy : Call → Strobe → Prop
  | .write address data, .write csN addr drive =>
    csN = false ∧ addr.toNat = address.toNat ∧ drive = some data
  | .read address, .read csN addr chip => csN = false ∧ addr.toNat = address.toNat ∧ chip.isSome
  | _, _ => False

/-- What `IO_read` should return for a strobe. -/
def Strobe.answer : Strobe → List (Option (BitVec 16))
  | .write .. => []
  | .read _ _ chip => [chip]

theorem Spaced.of_append {ops ops' : List Op} (h : Spaced (ops ++ ops')) : Spaced ops ∧ Spaced ops' := by
  refine ⟨fun op hop => h op ?_, fun op hop => h op ?_⟩
  · rw [List.dropLast_append]
    split
    next => exact hop
    next => exact List.mem_append_left _ (List.dropLast_subset _ hop)
  · rw [List.dropLast_append]
    split
    next hnil => simp [List.isEmpty_iff.mp hnil] at hop
    next => exact List.mem_append_right _ hop

/-- The gaps of a call, which makes six accesses. -/
theorem exists_gaps {ops : List Op} {a₁ a₂ a₃ a₄ a₅ a₆ : Access} (h : ops.map Prod.fst = [a₁, a₂, a₃, a₄, a₅, a₆])
    (hspaced : Spaced ops) : ∃ g₁ g₂ g₃ g₄ g₅ g₆,
      ops = [(a₁, g₁), (a₂, g₂), (a₃, g₃), (a₄, g₄), (a₅, g₅), (a₆, g₆)] ∧
      3 ≤ g₁.length ∧ 3 ≤ g₂.length ∧ 3 ≤ g₃.length ∧ 3 ≤ g₄.length ∧ 3 ≤ g₅.length := by
  simp only [List.map_eq_cons_iff, List.map_eq_nil_iff] at h
  obtain ⟨⟨_, g₁⟩, _, rfl, rfl, ⟨_, g₂⟩, _, rfl, rfl, ⟨_, g₃⟩, _, rfl, rfl, ⟨_, g₄⟩, _, rfl, rfl, ⟨_, g₅⟩, _, rfl, rfl,
    ⟨_, g₆⟩, _, rfl, rfl, rfl⟩ := h
  refine ⟨g₁, g₂, g₃, g₄, g₅, g₆, rfl, ?_⟩
  simpa [Spaced] using hspaced

theorem exists_gap {gap : List (Option (BitVec 16))} (h : 3 ≤ gap.length) : ∃ c t, gap = c :: t ∧ t ≠ [] := by
  match gap, h with
  | c :: d :: t, _ => exact ⟨c, d :: t, rfl, by simp⟩

theorem gap_ne_nil {gap : List (Option (BitVec 16))} (h : 3 ≤ gap.length) : gap ≠ [] := by
  rintro rfl
  simp at h

namespace OtgPort
variable {s : OtgPort}

/-! ### What the pins show -/

/-- The pins show the PIO registers as they stood at `sw`. -/
structure Shows (s : OtgPort) (sw : FromSw) : Prop where
  tmpData : s.intf.tmpData = some sw.dataOut
  otgAddr : s.intf.otgAddr = sw.address
  otgRdN : s.intf.otgRdN = sw.r
  otgWrN : s.intf.otgWrN = sw.w
  otgCsN : s.intf.otgCsN = sw.cs

theorem shows_clk (s : OtgPort) (chip : Option (BitVec 16)) : (s.clk chip).Shows s.sw := ⟨rfl, rfl, rfl, rfl, rfl⟩

theorem Shows.cycle {sw : FromSw} (h : s.Shows sw) (chip : Option (BitVec 16)) : s.cycle chip = sw.cycle chip := by
  simp only [OtgPort.cycle, FromSw.cycle, HpiIoIntf.otgData, h.tmpData, h.otgAddr, h.otgRdN, h.otgWrN, h.otgCsN]

@[simp] theorem run_clk_sw (s : OtgPort) (gap : List (Option (BitVec 16))) : (run clk s gap).sw = s.sw := by
  have keep : ∀ (t : OtgPort) chip, t.sw = s.sw → (t.clk chip).sw = s.sw := fun _ _ h => h
  exact run_invariant keep rfl gap

@[simp] theorem step_sw (s : OtgPort) (op : Op) : (s.step op).sw = s.sw.store op.1 := run_clk_sw ..

theorem shows_run {gap : List (Option (BitVec 16))} (hne : gap ≠ []) : (run clk s gap).Shows s.sw := by
  rw [← List.dropLast_concat_getLast hne, run_snoc]
  have h := shows_clk (run clk s gap.dropLast) (gap.getLast hne)
  rwa [run_clk_sw] at h

theorem shows_step {op : Op} (hne : op.2 ≠ []) : (s.step op).Shows (s.step op).sw := by
  rw [step_sw]
  exact shows_run (s := s.access op.1) hne

/-- Between two accesses the pins show what the first one left. -/
theorem outputs_shows (h : s.Shows s.sw) (gap : List (Option (BitVec 16))) :
    outputs clk (fun t chip => [t.cycle chip]) s gap = gap.map s.sw.cycle := by
  induction gap generalizing s with
  | nil => rfl
  | cons c gap ih =>
    rw [outputs_cons, h.cycle, ih (s := s.clk c) (shows_clk s c)]
    rfl

theorem trace_append (ops ops' : List Op) :
    s.trace (ops ++ ops') = s.trace ops ++ (run step s ops).trace ops' := outputs_append ..

theorem cycles_cons {sw : FromSw} (h : s.Shows sw) (a : Access) (c : Option (BitVec 16))
    (gap : List (Option (BitVec 16))) : s.cycles (a, c :: gap) = sw.cycle c :: gap.map (s.sw.store a).cycle := by
  have hfirst : (s.access a).cycle c = sw.cycle c := Shows.cycle ⟨h.1, h.2, h.3, h.4, h.5⟩ c
  rw [cycles, outputs_cons, hfirst, outputs_shows (s := (s.access a).clk c) (shows_clk _ c)]
  rfl

/-! ### Quiet stretches -/

/-- Neither the PIO registers nor the pins give a strobe. -/
def Quiet (s : OtgPort) : Prop := s.sw.Quiet ∧ ∃ sw, sw.Quiet ∧ s.Shows sw

theorem strobe_eq_none {sw : FromSw} (h : sw.Quiet) (chip : Option (BitVec 16)) : (sw.cycle chip).strobe = none := by
  simp [Cycle.strobe, FromSw.cycle, h.1, h.2]

theorem wrN_of_strobe {x : Cycle} (h : x.strobe = none) : x.wrN = true := by
  rw [← Bool.not_eq_false]
  intro hw
  simp [Cycle.strobe, hw] at h

theorem quiet_step (h : s.Quiet) {op : Op} (hcalm : op.1.Calm) :
    (s.step op).Quiet ∧ ∀ x ∈ s.cycles op, x.strobe = none := by
  obtain ⟨hsw, sw, hpins, hshow⟩ := h
  have hnext : (s.sw.store op.1).Quiet := hsw.store hcalm
  obtain ⟨a, _ | ⟨c, gap⟩⟩ := op
  · exact ⟨⟨hnext, sw, hpins, ⟨hshow.1, hshow.2, hshow.3, hshow.4, hshow.5⟩⟩, by simp [cycles]⟩
  · have hafter : (s.step (a, c :: gap)).sw.Quiet := by
      rw [step_sw]
      exact hnext
    refine ⟨⟨hafter, _, hafter, shows_step (List.cons_ne_nil c gap)⟩, ?_⟩
    intro x hx
    rw [cycles_cons hshow, List.mem_cons, List.mem_map] at hx
    rcases hx with rfl | ⟨c', -, rfl⟩
    · exact strobe_eq_none hpins c
    · exact strobe_eq_none hnext c'

theorem quiet_run {ops : List Op} (h : s.Quiet) (hcalm : ∀ op ∈ ops, op.1.Calm) :
    (run step s ops).Quiet ∧ ∀ x ∈ s.trace ops, x.strobe = none := by
  induction ops generalizing s with
  | nil => exact ⟨h, by simp [trace]⟩
  | cons op ops ih =>
    obtain ⟨hquiet, hlow⟩ := quiet_step h (hcalm op List.mem_cons_self)
    obtain ⟨hquiet', hlow'⟩ := ih hquiet fun o ho => hcalm o (List.mem_cons_of_mem op ho)
    refine ⟨hquiet', ?_⟩
    intro x hx
    rw [trace, outputs_cons, List.mem_append] at hx
    rcases hx with hx | hx
    · exact hlow x hx
    · exact hlow' x hx

/-! ### One strobe -/

/-- The accesses give the strobe `b` and no other. -/
structure Pulse (s : OtgPort) (ops : List Op) (b : Strobe) : Prop where
  pulses_eq : pulses Cycle.strobe none (s.trace ops) = [b]
  level_eq : level Cycle.strobe none (s.trace ops) = none
  apart : ∀ x ∈ s.trace ops, x.rdN = true ∨ x.wrN = true
  quiet : (run step s ops).Quiet

/-- The pins while one access lowers a strobe and the next one raises it. -/
theorem trace_strobe (h : s.Shows s.sw) {lower raise : Access} (c c' : Option (BitVec 16))
    (t t' : List (Option (BitVec 16))) (post : List Op) :
    s.trace ((lower, c :: t) :: (raise, c' :: t') :: post) =
      [s.sw.cycle c] ++ (t ++ [c']).map (s.sw.store lower).cycle ++
        (t'.map ((s.sw.store lower).store raise).cycle ++
          trace (run step s [(lower, c :: t), (raise, c' :: t')]) post) := by
  have hlow : (s.step (lower, c :: t)).Shows (s.step (lower, c :: t)).sw := shows_step (List.cons_ne_nil c t)
  rw [trace, outputs_cons, cycles_cons h, outputs_cons, cycles_cons hlow, step_sw]
  simp [trace]

theorem pulse_strobe (h : s.Shows s.sw) (hq : s.sw.Quiet) {lower raise : Access} {c c' : Option (BitVec 16)}
    {t t' : List (Option (BitVec 16))} {post : List Op} {b : Strobe}
    (hone : (s.sw.store lower).r = true ∨ (s.sw.store lower).w = true)
    (hb : ∀ x ∈ t ++ [c'], ((s.sw.store lower).cycle x).strobe = some b)
    (hraise : ((s.sw.store lower).store raise).Quiet) (ht' : t' ≠ []) (hpost : ∀ op ∈ post, op.1.Calm) :
    Pulse s ((lower, c :: t) :: (raise, c' :: t') :: post) b := by
  have hsw : (run step s [(lower, c :: t), (raise, c' :: t')]).sw.Quiet := by simpa using hraise
  obtain ⟨hquiet, hlow⟩ := quiet_run ⟨hsw, _, hsw, shows_step (List.cons_ne_nil c' t')⟩ hpost
  have hbefore : ∀ x ∈ [s.sw.cycle c], x.strobe = none := by
    simpa using strobe_eq_none hq c
  have hduring : ∀ x ∈ (t ++ [c']).map (s.sw.store lower).cycle, x.strobe = some b := by
    simpa only [List.forall_mem_map] using hb
  have hafter : ∀ x ∈ t'.map ((s.sw.store lower).store raise).cycle ++
      trace (run step s [(lower, c :: t), (raise, c' :: t')]) post, x.strobe = none := by
    intro x hx
    rw [List.mem_append, List.mem_map] at hx
    rcases hx with ⟨chip, -, rfl⟩ | hx
    · exact strobe_eq_none hraise chip
    · exact hlow x hx
  obtain ⟨hpulses, hlevel⟩ := pulses_once hbefore hduring (by simp) hafter (by simp [ht'])
  rw [← trace_strobe h] at hpulses hlevel
  refine ⟨hpulses, hlevel, ?_, hquiet⟩
  intro x hx
  rw [trace_strobe h, List.mem_append, List.mem_append] at hx
  rcases hx with (hx | hx) | hx
  · exact Or.inr (wrN_of_strobe (hbefore x hx))
  · obtain ⟨chip, -, rfl⟩ := List.mem_map.mp hx
    exact hone
  · exact Or.inr (wrN_of_strobe (hafter x hx))

theorem Pulse.after {pre ops : List Op} {b : Strobe} (hs : s.Quiet) (hpre : ∀ op ∈ pre, op.1.Calm)
    (h : Pulse (run step s pre) ops b) : Pulse s (pre ++ ops) b := by
  obtain ⟨-, hlow⟩ := quiet_run hs hpre
  have hlevel : level Cycle.strobe none (s.trace pre) = none := level_low hlow
  refine ⟨?_, ?_, ?_, ?_⟩
  · rw [trace_append, pulses_append, pulses_low hlow, hlevel, h.pulses_eq]
    rfl
  · rw [trace_append, level_append, hlevel, h.level_eq]
  · intro x hx
    rw [trace_append, List.mem_append] at hx
    rcases hx with hx | hx
    · exact Or.inr (wrN_of_strobe (hlow x hx))
    · exact h.apart x hx
  · rw [run_append]
    exact h.quiet

/-! ### The value that a read samples -/

theorem Shows.run (h : s.Shows s.sw) (gap : List (Option (BitVec 16))) : (run clk s gap).Shows s.sw := by
  by_cases hnil : gap = []
  · rw [hnil]
    exact h
  · exact shows_run hnil

/-- The stale data register stays off the bus, so what comes in is what the chip drives. -/
theorem dataIn_run (h : s.Shows s.sw) (hw : s.sw.w = true) {gap : List (Option (BitVec 16))}
    {v : Option (BitVec 16)} (hv : ∀ c ∈ gap, c = v) (hne : gap ≠ []) : (run clk s gap).intf.fromSwDataIn = v := by
  have hwr : (Machine.run clk s gap.dropLast).intf.otgWrN = true := by rw [(h.run _).otgWrN, hw]
  have hlast : gap.getLast hne = v := hv _ (List.getLast_mem hne)
  rw [← List.dropLast_concat_getLast hne, run_snoc, hlast]
  simp [clk, HpiIoIntf.next, HpiIoIntf.otgData, hwr]

/-- A load changes nothing on the pins: the cycles after it go on as before it. -/
theorem step_load (a : Access) (g g' : List (Option (BitVec 16))) :
    s.step (a, g ++ g') = (s.step (a, g)).step (.loadData, g') := run_append ..

theorem trace_load (a : Access) (g g' : List (Option (BitVec 16))) (ops : List Op) :
    s.trace ((a, g ++ g') :: ops) = s.trace ((a, g) :: (.loadData, g') :: ops) := by
  have hcycles : s.cycles (a, g ++ g') = s.cycles (a, g) ++ (s.step (a, g)).cycles (.loadData, g') :=
    outputs_append ..
  rw [trace, outputs_cons, hcycles, step_load, trace, outputs_cons, outputs_cons, List.append_assoc]

theorem Pulse.load {a : Access} {g g' : List (Option (BitVec 16))} {ops : List Op} {b : Strobe}
    (h : Pulse s ((a, g ++ g') :: ops) b) : Pulse s ((a, g) :: (.loadData, g') :: ops) b := by
  have hrun : run step s ((a, g ++ g') :: ops) = run step s ((a, g) :: (.loadData, g') :: ops) := by
    rw [run_cons, step_load, run_cons, run_cons]
  obtain ⟨hpulses, hlevel, hapart, hquiet⟩ := h
  rw [trace_load] at hpulses hlevel hapart
  exact ⟨hpulses, hlevel, hapart, hrun ▸ hquiet⟩

theorem returned_eq_nil {ops : List Op} (h : ∀ op ∈ ops, op.1 ≠ .loadData) : s.returned ops = [] := by
  induction ops generalizing s with
  | nil => rfl
  | cons op ops ih =>
    rw [returned, outputs_cons, loaded, if_neg (h op List.mem_cons_self), List.nil_append]
    exact ih fun o ho => h o (List.mem_cons_of_mem op ho)

/-! ### Calls -/

/-- The accesses give the strobe that the call wants, and return its answer. -/
structure Serves (s : OtgPort) (ops : List Op) (call : Call) (b : Strobe) : Prop where
  pulse : Pulse s ops b
  servedBy : call.ServedBy b
  returned_eq : s.returned ops = b.answer

theorem address_kept {address : BitVec 8} (h : address.toNat ≤ 3) : (address.setWidth 2).toNat = address.toNat := by
  rw [BitVec.toNat_setWidth]
  omega

theorem serves_write {ops : List Op} {address : BitVec 8} {data : BitVec 16} (hs : s.Quiet)
    (hops : ops.map Prod.fst = ioWrite address data) (hspaced : Spaced ops) (haddr : address.toNat ≤ 3) :
    ∃ b, Serves s ops (.write address data) b := by
  obtain ⟨g1, g2, g3, g4, g5, g6, rfl, -, -, hg3, hg4, hg5⟩ := exists_gaps hops hspaced
  obtain ⟨c4, t4, rfl, ht4⟩ := exists_gap hg4
  obtain ⟨c5, t5, rfl, ht5⟩ := exists_gap hg5
  refine ⟨.write false (address.setWidth 2) (some data), ?_, ⟨rfl, address_kept haddr, rfl⟩,
    returned_eq_nil (by simp)⟩
  have hpre : ∀ op ∈ [(Access.cs false, g1), (.address address, g2), (.data data, g3)], op.1.Calm := by
    simp [Access.Calm]
  have hquiet := (quiet_run hs hpre).1
  refine Pulse.after hs hpre (pulse_strobe (shows_step (gap_ne_nil hg3)) hquiet.1 ?_ ?_ ?_ ht5 ?_)
  · exact Or.inl hquiet.1.1
  · simp [FromSw.store, FromSw.cycle, Cycle.strobe]
  · exact ⟨hquiet.1.1, rfl⟩
  · simp [Access.Calm]

/-! A read strobe lasts over the load between its two stores. -/

/-- During one read strobe the chip drives one value. -/
theorem chips_const {sw : FromSw} {chips : List (Option (BitVec 16))} (hcs : sw.cs = false) (hr : sw.r = false)
    (h : ChipStable (chips.map sw.cycle)) (hne : chips ≠ []) :
    ∃ v : Option (BitVec 16), v.isSome ∧ ∀ c ∈ chips, c = v := by
  have hreading : ∀ c, (sw.cycle c).Reading := fun c => ⟨hcs, hr⟩
  cases chips with
  | nil => exact absurd rfl hne
  | cons v chips =>
    refine ⟨v, h.drives (sw.cycle v) (by simp) (hreading v), ?_⟩
    intro c hc
    have hchain : (v :: chips).IsChain (· = ·) :=
      List.isChain_of_isChain_map sw.cycle (fun x y hxy => hxy (hreading x) (hreading y)) h.stable
    rcases List.mem_cons.mp hc with rfl | hc
    · rfl
    · exact (hchain.rel_cons hc).symm

theorem pulse_read (h : s.Shows s.sw) (hq : s.sw.Quiet) (hcs : s.sw.cs = false) {c c' : Option (BitVec 16)}
    {t g t' : List (Option (BitVec 16))} {post : List Op} (ht : t ≠ []) (ht' : t' ≠ [])
    (hpost : ∀ op ∈ post, op.1.Calm)
    (hchip : ChipStable (s.trace ((.r false, c :: t) :: (.loadData, g) :: (.r true, c' :: t') :: post))) :
    ∃ v : Option (BitVec 16), v.isSome ∧ (s.step (.r false, c :: t)).intf.fromSwDataIn = v ∧
      Pulse s ((.r false, c :: t) :: (.loadData, g) :: (.r true, c' :: t') :: post) (.read false s.sw.address v) := by
  have hw : s.sw.w = true := hq.2
  have hcs' : (s.sw.store (.r false)).cs = false := hcs
  rw [← trace_load, List.cons_append, trace_strobe h] at hchip
  have hstrobe : ChipStable ((t ++ g ++ [c']).map (s.sw.store (.r false)).cycle) :=
    hchip.of_infix (List.infix_append ..)
  obtain ⟨v, hsome, hv⟩ := chips_const hcs' rfl hstrobe (by simp)
  have hpulse : Pulse s ((.r false, c :: (t ++ g)) :: (.r true, c' :: t') :: post) (.read false s.sw.address v) := by
    refine pulse_strobe h hq (Or.inr hw) ?_ ⟨rfl, hw⟩ ht' hpost
    intro x hx
    rw [hv x hx]
    simp [FromSw.store, FromSw.cycle, Cycle.strobe, hw, hcs]
  have hshows := shows_clk (s.access (.r false)) c
  exact ⟨v, hsome, dataIn_run hshows hw (fun x hx => hv x (by simp [hx])) ht, hpulse.load⟩

theorem serves_read {ops : List Op} {address : BitVec 8} (hs : s.Quiet)
    (hops : ops.map Prod.fst = ioRead address) (hspaced : Spaced ops) (haddr : address.toNat ≤ 3)
    (hchip : ChipStable (s.trace ops)) : ∃ b, Serves s ops (.read address) b := by
  obtain ⟨g1, g2, g3, g4, g5, g6, rfl, -, hg2, hg3, -, hg5⟩ := exists_gaps hops hspaced
  obtain ⟨c3, t3, rfl, ht3⟩ := exists_gap hg3
  obtain ⟨c5, t5, rfl, ht5⟩ := exists_gap hg5
  have hpre : ∀ op ∈ [(Access.cs false, g1), (.address address, g2)], op.1.Calm := by
    simp [Access.Calm]
  have hquiet := (quiet_run hs hpre).1
  have htrace : s.trace [(.cs false, g1), (.address address, g2), (.r false, c3 :: t3), (.loadData, g4),
      (.r true, c5 :: t5), (.cs true, g6)] = s.trace [(.cs false, g1), (.address address, g2)] ++
        (run step s [(.cs false, g1), (.address address, g2)]).trace [(.r false, c3 :: t3), (.loadData, g4),
          (.r true, c5 :: t5), (.cs true, g6)] := trace_append [(.cs false, g1), (.address address, g2)] _
  rw [htrace] at hchip
  obtain ⟨v, hsome, hv, hpulse⟩ := pulse_read (shows_step (gap_ne_nil hg2)) hquiet.1 (by simp [FromSw.store]) ht3 ht5
    (by simp [Access.Calm]) (hchip.of_infix (List.suffix_append ..).isInfix)
  refine ⟨_, hpulse.after hs hpre, ⟨rfl, ?_, hsome⟩, ?_⟩
  · simpa [FromSw.store] using address_kept haddr
  · simpa [returned, loaded, Strobe.answer] using hv

theorem serves_call {ops : List Op} {call : Call} (hs : s.Quiet) (hops : ops.map Prod.fst = call.accesses)
    (hspaced : Spaced ops) (haddr : call.address.toNat ≤ 3) (hchip : ChipStable (s.trace ops)) :
    ∃ b, Serves s ops call b := by
  cases call with
  | write address data => exact serves_write hs hops hspaced haddr
  | read address => exact serves_read hs hops hspaced haddr hchip

/-- The strobes serve the calls one for one, and what the reads return is what they are answered. -/
structure ServesAll (s : OtgPort) (ops : List Op) (calls : List Call) : Prop where
  served : List.Forall₂ Call.ServedBy calls (pulses Cycle.strobe none (s.trace ops))
  returned_eq : s.returned ops = (pulses Cycle.strobe none (s.trace ops)).flatMap Strobe.answer
  apart : ∀ x ∈ s.trace ops, x.rdN = true ∨ x.wrN = true

theorem Serves.cons {call : Call} {calls : List Call} {ops ops' : List Op} {b : Strobe} (h : Serves s ops call b)
    (h' : ServesAll (run step s ops) ops' calls) : ServesAll s (ops ++ ops') (call :: calls) := by
  have hreturned : s.returned (ops ++ ops') = s.returned ops ++ (run step s ops).returned ops' := outputs_append ..
  have hpulses : pulses Cycle.strobe none (s.trace (ops ++ ops')) =
      b :: pulses Cycle.strobe none ((run step s ops).trace ops') := by
    rw [trace_append, pulses_append, h.pulse.pulses_eq, h.pulse.level_eq]
    rfl
  refine ⟨?_, ?_, ?_⟩
  · rw [hpulses]
    exact .cons h.servedBy h'.served
  · rw [hpulses, hreturned, h.returned_eq, h'.returned_eq, List.flatMap_cons]
  · intro x hx
    rw [trace_append, List.mem_append] at hx
    rcases hx with hx | hx
    · exact h.pulse.apart x hx
    · exact h'.apart x hx

theorem serves_calls {calls : List Call} {ops : List Op} (hs : s.Quiet)
    (hops : ops.map Prod.fst = calls.flatMap Call.accesses) (hspaced : Spaced ops)
    (haddr : ∀ call ∈ calls, call.address.toNat ≤ 3) (hchip : ChipStable (s.trace ops)) :
    ServesAll s ops calls := by
  induction calls generalizing s ops with
  | nil =>
    obtain rfl : ops = [] := by simpa using hops
    exact ⟨.nil, rfl, by simp [trace]⟩
  | cons call calls ih =>
    obtain ⟨now, later, rfl, hnow, hlater⟩ := List.map_eq_append_iff.mp (hops.trans List.flatMap_cons)
    rw [trace_append] at hchip
    obtain ⟨hspaced, hspaced'⟩ := hspaced.of_append
    obtain ⟨b, hb⟩ := serves_call hs hnow hspaced (haddr call List.mem_cons_self)
      (hchip.of_infix (List.prefix_append ..).isInfix)
    exact hb.cons (ih hb.pulse.quiet hlater hspaced' (fun c hc => haddr c (List.mem_cons_of_mem call hc))
      (hchip.of_infix (List.suffix_append ..).isInfix))

/-! ### From `IO_init` on -/

theorem quiet_init {start : OtgPort} {init : List Op} (hinit : init.map Prod.fst = ioInit) (hspaced : Spaced init) :
    (run step start init).Quiet := by
  simp only [ioInit, List.map_eq_cons_iff, List.map_eq_nil_iff] at hinit
  obtain ⟨⟨_, g1⟩, _, rfl, rfl, ⟨_, g2⟩, _, rfl, rfl, ⟨_, g3⟩, _, rfl, rfl, ⟨_, g4⟩, _, rfl, rfl, ⟨_, g5⟩, _, rfl, rfl, rfl⟩ :=
    hinit
  have hg3 : 3 ≤ g3.length := hspaced (.w true, g3) (by simp)
  have hsw : (run step start [(.cs true, g1), (.r true, g2), (.w true, g3)]).sw.Quiet :=
    ⟨by simp [FromSw.store], by simp [FromSw.store]⟩
  have hcalm : ∀ op ∈ [(Access.address 0, g4), (.data 0, g5)], op.1.Calm := by simp [Access.Calm]
  exact (quiet_run ⟨hsw, _, hsw, shows_step (gap_ne_nil hg3)⟩ hcalm).1

theorem undriven {ops : List Op} {x : Cycle} (hx : x ∈ s.trace ops) (hw : x.wrN = true) : x.drive = none := by
  obtain ⟨t, op, hx⟩ := mem_outputs hx
  obtain ⟨t', chip, hx⟩ := mem_outputs hx
  obtain rfl := List.mem_singleton.mp hx
  exact if_pos hw

/-- After `IO_init`, the calls of `IO_write` and `IO_read` give one strobe each and in order, and no other. A
    write strobe carries the call's address and data, and the FPGA drives the bus in no other cycle; a read
    strobe carries the call's address, and the call returns what the chip drives during it. -/
theorem hpi_transactions (start : OtgPort) (init ops : List Op) (calls : List Call)
    (hinit : init.map Prod.fst = ioInit) (hops : ops.map Prod.fst = calls.flatMap Call.accesses)
    (hspaced : Spaced (init ++ ops)) (haddr : ∀ call ∈ calls, call.address.toNat ≤ 3)
    (hchip : ChipStable ((run step start init).trace ops)) :
    List.Forall₂ Call.ServedBy calls (pulses Cycle.strobe none ((run step start init).trace ops)) ∧
    (run step start init).returned ops =
      (pulses Cycle.strobe none ((run step start init).trace ops)).flatMap Strobe.answer ∧
    ∀ x ∈ (run step start init).trace ops, (x.rdN = true ∨ x.wrN = true) ∧ (x.wrN = true → x.drive = none) := by
  obtain ⟨hspaced, hspaced'⟩ := hspaced.of_append
  obtain ⟨hserved, hreturned, hapart⟩ := serves_calls (quiet_init hinit hspaced) hops hspaced' haddr hchip
  exact ⟨hserved, hreturned, fun x hx => ⟨hapart x hx, undriven hx⟩⟩

/-- A write of the address register and a read of the data register, from the reset of both sides. -/
theorem hpi_transactions_register :
    let start : OtgPort := ⟨⟨0, 0, false, false, false⟩, HpiIoIntf.reset⟩
    let idle : List (Option (BitVec 16)) := [none, none, none]
    let init : List Op := ioInit.map (·, idle)
    let ops : List Op := (ioWrite 2 0x0144).map (·, idle) ++
      [(.cs false, idle), (.address 0, idle), (.r false, [none, some 0x1000, some 0x1000]),
        (.loadData, [some 0x1000, some 0x1000, some 0x1000]), (.r true, [some 0x1000, none, none]), (.cs true, [])]
    pulses Cycle.strobe none ((run step start init).trace ops) =
      [.write false 2 (some 0x0144), .read false 0 (some 0x1000)] ∧
    (run step start init).returned ops = [some 0x1000] := by
  intro start idle init ops
  have hchip : ChipStable ((run step start init).trace ops) := ⟨by decide, by decide⟩
  have h := hpi_transactions start init ops [.write 2 0x0144, .read 0] (by decide) (by decide) (by decide) (by decide)
    hchip
  have hpulses : pulses Cycle.strobe none ((run step start init).trace ops) =
      [.write false 2 (some 0x0144), .read false 0 (some 0x1000)] := by decide
  exact ⟨hpulses, by rw [h.2.1, hpulses]; rfl⟩

end OtgPort

end Pacman
