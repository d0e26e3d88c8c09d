import Pacman.UsbTransfers

/-! The driver's lists reach the controller: from the pointer that a request stores, it finds the transactions of the
    transfer that the request is for, also after the device's data have come in. -/

namespace Pacman
open Machine Memory

/-- The controller finds the transactions `ts` on its way along the pointers from `p` on. -/
def Finds (m : BitVec 16 → BitVec 16) (p : BitVec 16) (ts : List Transaction) : Prop :=
  ∃ ps, Chain (fun q => m (q + 10)) 0 p ps ∧ ps.map (Transaction.ofDescriptor m) = ts

/-- The data that come in with the transactions go to `q`. -/
def Fills (ts : List Transaction) (q : BitVec 16) : Prop := ∃ t ∈ ts, t.pid = inPid ∧ q ∈ t.addresses

/-! ### Descriptors -/

section Descriptors
variable {m m' : BitVec 16 → BitVec 16} {p : BitVec 16} {t : Transaction} {ts : List Transaction}
  {ns : List (Node (BitVec 16))}

theorem ofDescriptor_eq (h : Holds m p t.words) : Transaction.ofDescriptor m p = t := by
  obtain ⟨h₀, h₂, h₄, h₆, -⟩ := h
  have hpid : (t.device ++ t.pid ++ t.endpoint).extractLsb' 4 4 = t.pid := by
    rw [BitVec.extractLsb'_append_eq_of_le (Nat.le_refl 4)]
    exact BitVec.extractLsb'_append_eq_right
  have hdevice : (t.device ++ t.pid ++ t.endpoint).extractLsb' 8 8 = t.device := by
    rw [BitVec.extractLsb'_append_eq_of_le (by decide)]
    exact BitVec.extractLsb'_append_eq_left
  have hendpoint : (t.device ++ t.pid ++ t.endpoint).extractLsb' 0 4 = t.endpoint :=
    BitVec.extractLsb'_append_eq_right
  have hdata : (if t.data1 then (0x0041 : BitVec 16) else 0x0001).getLsbD 6 = t.data1 := by
    cases t.data1 <;> rfl
  have hlength : (t.length.setWidth 16).setWidth 10 = t.length := by
    rw [BitVec.setWidth_setWidth_of_le _ (by decide), BitVec.setWidth_eq]
  rw [BitVec.add_assoc] at h₄ h₆
  rw [BitVec.add_assoc] at h₆
  have hword : m (p + 4) = t.device ++ t.pid ++ t.endpoint := h₄
  have hctl : m (p + 6) = if t.data1 then 0x0041 else 0x0001 := h₆
  rw [Transaction.ofDescriptor, h₀, h₂, hword, hctl, hpid, hdevice, hendpoint, hdata, hlength]

/-- A layout of descriptors is found as the list of their transactions. -/
theorem finds_layout (h : Holds m p (layout p ns)) (hne : ns ≠ []) (hts : ns.map Node.front = ts.map Transaction.words)
    (hp : 0 < p.toNat) (hfit : p.toNat + 2 * (ns.map Node.size).sum < 2 ^ 16) : Finds m p ts := by
  have hfront : ∀ n ∈ ns, n.front.length = 5 := by
    intro n hn
    obtain ⟨t, -, ht⟩ := List.mem_map.mp (hts ▸ List.mem_map_of_mem hn)
    rw [← ht]
    rfl
  refine ⟨places p ns, h.chain hne hfront hp hfit, ?_⟩
  have hnodes := h.nodes hfront
  generalize places p ns = ps at hnodes
  clear h hne hfit hp hfront
  -- Node by node.
  induction hnodes generalizing ts with
  | nil =>
    rw [List.map_nil, eq_comm, List.map_eq_nil_iff] at hts
    rw [hts, List.map_nil]
  | cons hnode _ ih =>
    cases ts with
    | nil => simp at hts
    | cons t ts =>
      rw [List.map_cons, List.map_cons, List.cons.injEq] at hts
      rw [List.map_cons, ofDescriptor_eq (hts.1 ▸ hnode.1), ih hts.2]

end Descriptors

/-! ### Control transfers -/

namespace ControlTransfer
variable {m m' : BitVec 16 → BitVec 16} {q : BitVec 16} (t : ControlTransfer)

/-- The first address behind the list. -/
def listEnd : ℕ := 0x0514 + 12 * ((t.bytes + 7) / 8 + 1)

theorem nodes_front : t.nodes.map Node.front = t.transactions.map Transaction.words := by
  simp [nodes, transactions, Transaction.node, Function.comp_def]

theorem nodes_size : 0x0500 + 2 * (t.nodes.map Node.size).sum = t.listEnd := by
  have hsize : ∀ ts : List Transaction,
      ((ts.map fun u => u.node []).map Node.size).sum = 6 * ts.length := by
    intro ts
    induction ts with
    | nil => rfl
    | cons u ts ih =>
      rw [List.map_cons, List.map_cons, List.sum_cons, ih, List.length_cons]
      simp only [Node.size, Transaction.node, Transaction.words, List.length_cons, List.length_nil]
      omega
  have hlen : (t.dataStage ++ [t.statusStage]).length = (t.bytes + 7) / 8 + 1 := by simp [dataStage]
  rw [nodes, List.map_cons, List.sum_cons, hsize, hlen, listEnd]
  simp only [Node.size, Transaction.node, Transaction.words, setupPacket, List.length_cons, List.length_nil]
  omega

theorem length_encode : 0x0500 + 2 * t.encode.length = t.listEnd := by
  rw [encode, length_layout, nodes_size]

theorem listEnd_le : t.listEnd ≤ 0x0600 := by
  by_cases h : 0 < t.bytes
  · obtain ⟨h₁, h₂⟩ := t.room h
    rw [listEnd]
    omega
  · rw [listEnd]
    omega

theorem finds_encode (h : Holds m 0x0500 t.encode) : Finds m 0x0500 t.transactions := by
  have hle := t.listEnd_le
  have hsize := t.nodes_size
  refine finds_layout h (List.cons_ne_nil _ _) t.nodes_front (by decide) ?_
  rw [show (0x0500 : BitVec 16).toNat = 0x0500 from rfl]
  omega

/-- The setup packet lies where the first transaction takes its data from. -/
theorem holds_setupPacket (h : Holds m 0x0500 t.encode) : Holds m 0x050C t.setupPacket := by
  rw [encode, nodes] at h
  have hnode := (holds_layout_cons.mp h).1
  rw [Node.words, holds_append] at hnode
  exact hnode.2.2

/-! #### The data stage -/

theorem addresses_dataPacket (i : ℕ) : (t.dataPacket i).addresses =
    (List.range (min 8 (t.bytes - 8 * i))).map fun n => t.buffer + BitVec.ofNat 16 (8 * i + n) := by
  have hlen : (BitVec.ofNat 10 (min 8 (t.bytes - 8 * i))).toNat = min 8 (t.bytes - 8 * i) := by
    rw [BitVec.toNat_ofNat]
    exact Nat.mod_eq_of_lt (by omega)
  simp only [Transaction.addresses, dataPacket, hlen, BitVec.add_assoc, BitVec.ofNat_add]

/-- The packets fill one piece of the memory, byte after byte. -/
theorem addresses_range (i : ℕ) : (List.range i).flatMap (fun j => (t.dataPacket j).addresses) =
    (List.range (min (8 * i) t.bytes)).map fun n => t.buffer + BitVec.ofNat 16 n := by
  induction i with
  | zero => simp
  | succ i ih =>
    rw [List.range_succ, List.flatMap_append, ih, List.flatMap_singleton, addresses_dataPacket]
    rcases Nat.lt_or_ge t.bytes (8 * i) with hend | hmore
    · have hnone : min 8 (t.bytes - 8 * i) = 0 := by omega
      have hsame : min (8 * (i + 1)) t.bytes = min (8 * i) t.bytes := by omega
      rw [hnone, hsame, List.range_zero, List.map_nil, List.append_nil]
    · have hsum : min (8 * (i + 1)) t.bytes = 8 * i + min 8 (t.bytes - 8 * i) := by omega
      rw [hsum, Nat.min_eq_left hmore, List.range_add, List.map_append, List.map_map]
      rfl

theorem addresses_dataStage : t.dataStage.flatMap Transaction.addresses =
    (List.range t.bytes).map fun n => t.buffer + BitVec.ofNat 16 n := by
  have hall : min (8 * ((t.bytes + 7) / 8)) t.bytes = t.bytes := by omega
  rw [dataStage, List.flatMap_map, addresses_range, hall]

theorem fills_iff : Fills t.transactions q ↔ q ∈ t.dataStage.flatMap Transaction.addresses := by
  rw [List.mem_flatMap]
  constructor
  · rintro ⟨u, hu, hin, hq⟩
    rcases List.mem_cons.mp hu with rfl | hu
    · exact absurd hin (by simp [setupStage, setupPid, inPid])
    rcases List.mem_append.mp hu with hu | hu
    · exact ⟨u, hu, hq⟩
    · obtain rfl := List.mem_singleton.mp hu
      simp [statusStage, Transaction.addresses] at hq
  · rintro ⟨u, hu, hq⟩
    refine ⟨u, List.mem_cons_of_mem _ (List.mem_append_left _ hu), ?_, hq⟩
    obtain ⟨i, -, rfl⟩ := List.mem_map.mp hu
    rfl

theorem addresses_transactions : (t.transactions.filter (·.pid = inPid)).flatMap Transaction.addresses =
    t.dataStage.flatMap Transaction.addresses := by
  have hsetup : ¬t.setupStage.pid = inPid := by
    intro h
    cases h
  have hdata : t.dataStage.filter (·.pid = inPid) = t.dataStage := by
    refine List.filter_eq_self.mpr fun u hu => ?_
    obtain ⟨i, -, rfl⟩ := List.mem_map.mp hu
    rfl
  have hstatus : ([t.statusStage].filter (·.pid = inPid)).flatMap Transaction.addresses = [] := by
    refine List.flatMap_eq_nil_iff.mpr fun u hu => ?_
    obtain rfl := List.mem_singleton.mp (List.mem_filter.mp hu).1
    rfl
  rw [transactions, List.filter_cons_of_neg (by simpa using hsetup), List.filter_append, hdata,
    List.flatMap_append, hstatus, List.append_nil]

theorem listEnd_le_of_fills (h : Fills t.transactions q) : t.listEnd ≤ q.toNat := by
  rw [fills_iff, addresses_dataStage, List.mem_map] at h
  obtain ⟨n, hn, rfl⟩ := h
  rw [List.mem_range] at hn
  obtain ⟨h₁, h₂⟩ := t.room (by omega)
  have hn' : (BitVec.ofNat 16 n).toNat = n := by
    rw [BitVec.toNat_ofNat]
    exact Nat.mod_eq_of_lt (by omega)
  rw [BitVec.toNat_add, hn', Nat.mod_eq_of_lt (by omega), listEnd]
  omega

/-- The list stays what it is while the data come in. -/
theorem holds_of_filled (h : Holds m 0x0500 t.encode)
    (heq : ∀ q, DriverWord q → ¬Fills t.transactions q → m' q = m q) : Holds m' 0x0500 t.encode := by
  have hle := t.listEnd_le
  have hlen := t.length_encode
  refine h.congr (by rw [show (0x0500 : BitVec 16).toNat = 0x0500 from rfl]; omega) fun q h₁ h₂ => ?_
  rw [show (0x0500 : BitVec 16).toNat = 0x0500 from rfl] at h₁ h₂
  refine heq q (.inr ⟨h₁, by omega⟩) fun hfill => ?_
  have := t.listEnd_le_of_fills hfill
  omega

end ControlTransfer

/-! ### The accesses of a request -/

section Accesses
variable {κ ι : Type*} {chip : HpiChip κ ι} {s : κ} {ops : List (ι × Call)} {words : List (BitVec 16)}
  {q : BitVec 16}

/-- Data accesses in a row store their words one behind the other. -/
theorem word_stores (hops : ops.map Prod.snd = words.map (.write hpiData)) (hq : DriverWord q) :
    chip.word (run chip.next s ops) q = fill (chip.word s) (chip.address s) words q := by
  induction words generalizing s ops with
  | nil =>
    rw [List.map_nil, List.map_eq_nil_iff] at hops
    rw [hops]
    rfl
  | cons x words ih =>
    obtain ⟨⟨i, call⟩, rest, rfl, hcall, hrest⟩ := List.map_eq_cons_iff.mp hops
    obtain rfl : call = .write hpiData x := hcall
    rw [run_cons, ih hrest, fill, chip.address_data]
    refine fill_congr ?_
    rw [chip.word_data s i x q hq, Function.update_apply]

/-- After the accesses of a list the memory holds the words, and the pointer to them. -/
theorem word_tdList (hops : ops.map Prod.snd = tdList words) (hq : DriverWord q) : chip.word (run chip.next s ops) q =
    if q = husbSie1PCurrentTDPtr then 0x0500 else fill (chip.word s) 0x0500 words q := by
  obtain ⟨⟨i, call⟩, rest, rfl, hcall, hrest⟩ := List.map_eq_cons_iff.mp hops
  obtain rfl : call = .write hpiAddr 0x0500 := hcall
  obtain ⟨stores, ends, rfl, hstores, hends⟩ := List.map_eq_append_iff.mp hrest
  obtain ⟨⟨j, call⟩, last, rfl, hcall, hlast⟩ := List.map_eq_cons_iff.mp hends
  obtain rfl : call = .write hpiAddr husbSie1PCurrentTDPtr := hcall
  obtain ⟨⟨k, call⟩, nothing, rfl, hcall, hnothing⟩ := List.map_eq_cons_iff.mp hlast
  obtain rfl : call = .write hpiData 0x0500 := hcall
  obtain rfl := List.map_eq_nil_iff.mp hnothing
  rw [run_cons, run_append, run_cons, run_cons, run_nil, chip.word_data _ _ _ _ hq, chip.address_addr,
    chip.word_addr _ _ _ _ hq, word_stores hstores hq, chip.address_addr]
  refine if_congr Iff.rfl rfl (fill_congr ?_)
  exact chip.word_addr _ _ _ _ hq

/-- The words that a list holds stand in the driver's words. -/
theorem holds_tdList (hops : ops.map Prod.snd = tdList words) (hfit : 0x0500 + 2 * words.length ≤ 0x0600) :
    Holds (chip.word (run chip.next s ops)) 0x0500 words := by
  have hstart : (0x0500 : BitVec 16).toNat = 0x0500 := rfl
  have hfill : Holds (fill (chip.word s) 0x0500 words) 0x0500 words := holds_fill (by omega)
  refine hfill.congr (by omega) fun q h₁ h₂ => ?_
  have hne : q ≠ husbSie1PCurrentTDPtr := by
    rintro rfl
    simp [husbSie1PCurrentTDPtr] at h₁
  rw [word_tdList hops (.inr ⟨by omega, by omega⟩), if_neg hne]

end Accesses

/-! ### The poll -/

section Poll
variable {κ ι : Type*} {ops : List (ι × Call)} {dataSize toggle : BitVec 8}

theorem keyboardPoll_eq (dataSize toggle : BitVec 8) :
    keyboardPoll dataSize toggle = tdList (layout 0x0500 [(pollTransaction dataSize toggle).node []]) := by
  simp [keyboardPoll, layout, Node.words, Transaction.node, Transaction.words, pollTransaction, inPid, BitVec.and_comm]

/-- The controller finds one transaction in the list of a poll. -/
theorem poll_reaches_controller (chip : HpiChip κ ι) (s : κ) (hops : ops.map Prod.snd = keyboardPoll dataSize toggle) :
    chip.word (run chip.next s ops) husbSie1PCurrentTDPtr = 0x0500 ∧
      Finds (chip.word (run chip.next s ops)) 0x0500 [pollTransaction dataSize toggle] := by
  rw [keyboardPoll_eq] at hops
  refine ⟨?_, finds_layout (holds_tdList hops (by simp [length_layout, Transaction.node, Transaction.words, Node.size]))
    (List.cons_ne_nil _ _) rfl (by decide) (by simp [Transaction.node, Transaction.words, Node.size])⟩
  rw [word_tdList hops (.inl rfl), if_pos rfl]

end Poll

/-! ### The requests -/

theorem calls_eq (r : Request) : r.calls = tdList r.transfer.encode := by
  cases r <;> rfl

namespace Request
variable {κ ι : Type*} {ops : List (ι × Call)}

/-- Every request reaches the controller as the control transfer that it is for: the controller finds the
    transactions, and the setup packet for the first of them, also while the answer comes in. The data stage takes in
    one piece of bytes behind the list, no more than the setup packet asks for. Of the words that lists are stored in,
    0x0500 to 0x05FF, those behind the list keep what they hold. -/
theorem reaches_controller (chip : HpiChip κ ι) (s : κ) (r : Request) (hops : ops.map Prod.snd = r.calls) :
    chip.word (run chip.next s ops) husbSie1PCurrentTDPtr = 0x0500 ∧
    (∀ m, (∀ q, DriverWord q → ¬Fills r.transfer.transactions q → m q = chip.word (run chip.next s ops) q) →
      Finds m 0x0500 r.transfer.transactions ∧ Holds m 0x050C r.transfer.setupPacket) ∧
    (r.transfer.transactions.filter (·.pid = inPid)).flatMap Transaction.addresses =
      (List.range r.transfer.bytes).map (fun n => r.transfer.buffer + BitVec.ofNat 16 n) ∧
    r.transfer.bytes ≤ r.transfer.length.toNat ∧
    (0 < r.transfer.bytes → r.transfer.listEnd ≤ r.transfer.buffer.toNat ∧
      r.transfer.buffer.toNat + r.transfer.bytes ≤ 0x0600) ∧
    ∀ q, DriverWord q → q ≠ husbSie1PCurrentTDPtr → r.transfer.listEnd ≤ q.toNat →
      chip.word (run chip.next s ops) q = chip.word s q := by
  have hlen := r.transfer.length_encode
  have hle := r.transfer.listEnd_le
  have hstart : (0x0500 : BitVec 16).toNat = 0x0500 := rfl
  rw [calls_eq] at hops
  have hlist : Holds (chip.word (run chip.next s ops)) 0x0500 r.transfer.encode := holds_tdList hops (by omega)
  refine ⟨?_, fun m hm => ?_, ?_, r.transfer.asked, r.transfer.room, fun q hq hne hend => ?_⟩
  · rw [word_tdList hops (.inl rfl), if_pos rfl]
  · have hm' := r.transfer.holds_of_filled hlist hm
    exact ⟨r.transfer.finds_encode hm', r.transfer.holds_setupPacket hm'⟩
  · rw [r.transfer.addresses_transactions, r.transfer.addresses_dataStage]
  · rw [word_tdList hops hq, if_neg hne, fill_outside (by omega) (.inr (by omega))]

theorem reaches_controller_configDesc2 :
    Finds (memoryChip.word (run memoryChip.next (0, fun _ => 0) (usbGetConfigDesc2.map (Prod.mk ())))) 0x0500
      configDesc2.transfer.transactions :=
  ((reaches_controller memoryChip (0, fun _ => 0) configDesc2 rfl).2.1 _ fun _ _ _ => rfl).1

end Request

end Pacman
