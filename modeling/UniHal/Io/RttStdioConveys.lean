import UniHal.Io.RttStdio

/-! # What the host and the IO give to each other

Each buffer is a circular buffer between the handler and the host. In every order of their accesses
no byte is lost or doubled on the way to the IO, and on the way to the host only those bytes are
lost that `SEGGER_RTT_PutChar` refuses.
-/

namespace UniHal.Io.RttStdio
open Foundations Execution Uart
open Reception (RxSide TxSide tunnelTransmit transmitData delivery Delivery unread)

def memory (c : CircularBuffer UInt8) (flags : Flags) : RttBuffer :=
  ⟨c.cells, c.slots, c.head, c.tail, flags⟩

section Memory
variable (c : CircularBuffer UInt8) (flags : Flags)

theorem getAvailWriteSpace_memory :
    (memory c flags).getAvailWriteSpace = c.slots - 1 - c.length := by
  have := c.head_lt
  have := c.tail_lt
  change (if c.tail ≤ c.head then c.slots - 1 - c.head + c.tail else c.tail - c.head - 1) = _
  rw [CircularBuffer.length]
  split_ifs <;> omega

theorem used_memory : (memory c flags).used = c.length := by
  have := c.length_lt
  rw [RttBuffer.used, getAvailWriteSpace_memory]
  change c.slots - 1 - _ = _
  omega

theorem bytes_memory : (memory c flags).bytes = c.items := by
  rw [RttBuffer.bytes, used_memory]
  rfl

theorem nextWrOff_memory : (memory c flags).nextWrOff = wrap c.slots (c.head + 1) := by
  have := c.head_lt
  change (if c.head + 1 = c.slots then 0 else c.head + 1) = _
  rw [wrap]
  split_ifs <;> omega

theorem wrap_head_ne_tail_iff : wrap c.slots (c.head + 1) ≠ c.tail ↔ c.length + 1 < c.slots := by
  have := c.head_lt
  have := c.tail_lt
  simp only [wrap, CircularBuffer.length]
  split_ifs <;> omega

theorem length_pos_of_ne (h : c.head ≠ c.tail) : 0 < c.length := by
  have := c.head_lt
  have := c.tail_lt
  rw [CircularBuffer.length]
  split <;> omega

variable {c}

theorem memory_advance {n : ℕ} (hn : c.length + n < c.slots) :
    memory (c.advance n) flags =
      { memory c flags with wrOff := (memory c flags).behind c.head n } := by
  simp only [memory, CircularBuffer.advance, RttBuffer.behind]
  rw [Nat.min_eq_left (by omega)]

theorem memory_pop {n : ℕ} (hn : n ≤ c.length) :
    memory (c.pop n).2 flags =
      { memory c flags with rdOff := (memory c flags).behind c.tail n } := by
  simp only [memory, CircularBuffer.pop, RttBuffer.behind]
  rw [Nat.min_eq_left hn]

end Memory

theorem map_wrap_range' {slots off n : ℕ} (h : off + n ≤ slots) :
    (List.range n).map (fun k => wrap slots (off + k)) = List.range' off n := by
  rw [List.range_eq_range', List.map_congr_left (g := fun k => off + k)]
  · rw [List.map_add_range']
    rfl
  · intro k hk
    have hlt := (List.mem_range'_1.mp hk).2
    exact if_pos (by omega)

/-- `SEGGER_RTT_ReadNoLock` copies the oldest bytes, as many as there are and fit. -/
theorem readNoLock_eq (c : CircularBuffer UInt8) (bufferSize : ℕ) :
    RttBuffer.readNoLock c.slots c.tail c.head bufferSize =
      ((List.range (min bufferSize c.length)).map fun k => wrap c.slots (c.tail + k),
        wrap c.slots (c.tail + min bufferSize c.length)) := by
  have hhead := c.head_lt
  have htail := c.tail_lt
  unfold RttBuffer.readNoLock RttBuffer.readRemaining
  split
  · rename_i hlt
    have hlen : c.length = c.head + c.slots - c.tail := if_neg (by omega)
    dsimp only
    rcases Nat.lt_or_ge bufferSize (c.slots - c.tail) with hshort | hlong
    · have hfirst : min (c.slots - c.tail) bufferSize = min bufferSize c.length := by omega
      have hnext : ¬c.tail + min bufferSize c.length = c.slots := by omega
      have hrest : bufferSize - min bufferSize c.length = 0 := by omega
      have hwrap : wrap c.slots (c.tail + min bufferSize c.length) =
          c.tail + min bufferSize c.length := if_pos (by omega)
      rw [hfirst, if_neg hnext, hrest, Nat.min_zero, map_wrap_range' (by omega), hwrap,
        List.range'_zero, List.append_nil, Nat.add_zero]
    · have hfirst : min (c.slots - c.tail) bufferSize = c.slots - c.tail := by omega
      have hnext : c.tail + (c.slots - c.tail) = c.slots := by omega
      have hcount : min bufferSize c.length =
          (c.slots - c.tail) + min c.head (bufferSize - (c.slots - c.tail)) := by omega
      have hround (k : ℕ) : wrap c.slots (c.tail + (c.slots - c.tail + k)) = k := by
        rw [wrap, if_neg (by omega)]
        omega
      rw [hfirst, if_pos hnext, hcount, List.range_add, List.map_append, List.map_map,
        map_wrap_range' (by omega), hround, Nat.sub_zero, Nat.zero_add]
      congr 2
      rw [← List.range_eq_range']
      exact (List.map_congr_left fun k _ => hround k).trans (List.map_id _) |>.symm
  · rename_i hge
    have hlen : c.length = c.head - c.tail := if_pos (by omega)
    have hcount : min (c.head - c.tail) bufferSize = min bufferSize c.length := by omega
    have hwrap : wrap c.slots (c.tail + min bufferSize c.length) =
        c.tail + min bufferSize c.length := if_pos (by omega)
    dsimp only
    rw [hcount, map_wrap_range' (by omega), hwrap]

/-- Bytes that it has copied before it moves `RdOff` over them. -/
def copied : Option Pc → List UInt8
  | some (.readCopy _ _ pData) => pData
  | _ => []

def inHand (data : UInt8) : Option Pc → List UInt8
  | some .tunnel => [data]
  | _ => []

def untested (data : UInt8) : Option Pc → List UInt8
  | some .putChar | some (.putCharWait _) | some (.putCharCheck _) => [data]
  | _ => []

def unsent (data : UInt8) : Option Pc → List UInt8
  | some (.putCharStore _) | some (.putCharWrOff _) => [data]
  | _ => []

/-- The byte that it has written before it moves `WrOff` over it. -/
def written (data : UInt8) : Option Pc → List UInt8
  | some (.putCharWrOff _) => [data]
  | _ => []

def uncounted : Option Pc → ℕ
  | some (.putCharStore _) | some (.putCharWrOff _) | some .transmited => 1
  | _ => 0

def DownAt (c : CircularBuffer UInt8) : Option Pc → Prop
  | some (.hasDataRdOff v) => v ≠ c.tail → 0 < c.length
  | some .read => 0 < c.length
  | some (.readWrOff rdOff) => rdOff = c.tail ∧ 0 < c.length
  | some (.readCopy pSrc rdOff pData) =>
    rdOff = wrap c.slots (c.tail + 1) ∧ 0 < c.length ∧
      (pSrc = [c.tail] ∧ pData = [] ∨ pSrc = [] ∧ pData.length = 1)
  | _ => True

/-- What the local variables say of the up buffer: where `WrOff` goes, and that there is room. -/
def UpAt (c : CircularBuffer UInt8) (flags : Flags) : Option Pc → Prop
  | some (.putCharWait wrOff) => wrOff = wrap c.slots (c.head + 1)
  | some (.putCharCheck wrOff) => wrOff = wrap c.slots (c.head + 1) ∧
      (flags = .blockIfFifoFull → c.length + 1 < c.slots)
  | some (.putCharStore wrOff) | some (.putCharWrOff wrOff) =>
    wrOff = wrap c.slots (c.head + 1) ∧ c.length + 1 < c.slots
  | _ => True

theorem DownAt.mono {c c' : CircularBuffer UInt8} {pc : Option Pc} (h : DownAt c pc)
    (hslots : c'.slots = c.slots) (htail : c'.tail = c.tail) (hlen : c.length ≤ c'.length) :
    DownAt c' pc := by
  unfold DownAt at h ⊢
  rw [hslots, htail]
  split
  · exact fun hne => (h hne).trans_le hlen
  · exact h.trans_le hlen
  · exact ⟨h.1, h.2.trans_le hlen⟩
  · exact ⟨h.1, h.2.1.trans_le hlen, h.2.2⟩
  · trivial

theorem UpAt.mono {c c' : CircularBuffer UInt8} {flags : Flags} {pc : Option Pc}
    (h : UpAt c flags pc) (hslots : c'.slots = c.slots) (hhead : c'.head = c.head)
    (hlen : c'.length ≤ c.length) : UpAt c' flags pc := by
  unfold UpAt at h ⊢
  rw [hslots, hhead]
  split
  · exact h
  · exact ⟨h.1, fun hflags => (Nat.add_le_add_right hlen 1).trans_lt (h.2 hflags)⟩
  · exact ⟨h.1, (Nat.add_le_add_right hlen 1).trans_lt h.2⟩
  · exact ⟨h.1, (Nat.add_le_add_right hlen 1).trans_lt h.2⟩
  · trivial

variable {τ ι B : Type*} [Buffer B] [DecidableEq ι]

/-- The state over the circular buffers that the two memories hold. -/
structure Conveys (io : ι) (setup : Setup τ ι B) (w : World τ ι B)
    (dn up : SharedRing UInt8) : Prop where
  memoryDown : w.down = memory dn.buffer w.down.flags
  memoryUp : w.up = memory up.buffer w.up.flags
  soundDown : dn.Sound
  soundUp : up.Sound
  debugger : w.debugger = ⟨dn.filled, up.copied, dn.sent, up.received⟩
  copied : dn.copied = copied w.handler
  written : up.filled = written w.data w.handler
  downAt : DownAt dn.buffer w.handler
  upAt : UpAt up.buffer w.up.flags w.handler
  received : dn.received =
    (w.ios.rx io).deliveries.map Delivery.byte ++ inHand w.data w.handler
  popped : (w.ios.tx io).taken = w.puts.map Put.byte ++ untested w.data w.handler
  accepted : (w.puts.filter Put.status).map Put.byte = up.sent ++ unsent w.data w.handler
  counted : w.txTransmited + UInt32.ofNat (uncounted w.handler) = UInt32.ofNat w.puts.length
  tested : ∀ p ∈ w.puts, p.status = decide (p.used + 1 < w.up.sizeOfBuffer)
  blocking : w.up.flags = .blockIfFifoFull → ∀ p ∈ w.puts, p.status = true
  size : w.up.sizeOfBuffer = setup.bufferSizeUp
  mode : w.up.flags = setup.mode
  ios : Reception.Accounted setup.bufRx setup.bufTx w.ios
  rxne : (w.ios.rx io).rxne = false

section Ios
variable {io : ι} {bufRx bufTx : ι → Option B} {s t : Reception.State τ ι B}

theorem transmitData_taken (source ctx : Option ι) (data : List UInt8) (tx : ι → TxSide ι B)
    (peer : ι) : ((transmitData source ctx data tx).2 peer).taken = (tx peer).taken := by
  cases ctx with
  | none => rfl
  | some target =>
    change (Function.update tx target _ peer).taken = _
    rcases eq_or_ne peer target with rfl | hne
    · rw [Function.update_self]
      unfold TxSide.transmitData
      split
      · rfl
      · rfl
    · rw [Function.update_of_ne hne]

omit [Buffer B] [DecidableEq ι] in
theorem onByte_eq {r : RxSide ι B} (hrxne : r.rxne = false) (data : UInt8) :
    r.onByte data = { r with rxne := true, rdr := data, arrived := r.arrived ++ [data] } := by
  unfold RxSide.onByte
  rw [hrxne, if_neg Bool.false_ne_true]

omit [DecidableEq ι] in
theorem push_rdr (b rdr : UInt8) (r : RxSide ι B) :
    ({ r with rdr := rdr }).push b = { r.push b with rdr := rdr } := by
  obtain ⟨buf, _, _, _, _, _, _, _, _, _, _, _⟩ := r
  unfold RxSide.push
  cases buf with
  | none => rfl
  | some buf =>
    dsimp only [RxSide.bufferPushIsr]
    split <;> rfl

/-- The handler does with a byte what the handler of a UART does that has just received it. -/
theorem receive_eq (hrxne : (s.rx io).rxne = false) (data : UInt8) :
    receive io data s =
      (s.withTx (tunnelTransmit s.links (s.links.tunnelCtx io) io [data] s.tx).2).withRx io
        { ((s.rx io).onByte data).deliver (delivery s io data) with rdr := (s.rx io).rdr } := by
  have hread : { (((s.rx io).onByte data).receiveData8.2.record (delivery s io data)) with
      rdr := (s.rx io).rdr } = (RxSide.arrive data (s.rx io)).record (delivery s io data) := by
    rw [onByte_eq hrxne]
    simp only [RxSide.receiveData8, RxSide.record, RxSide.arrive, hrxne]
  unfold receive
  simp only [Reception.fail_or_transparent_iff, ne_eq, ite_not]
  split
  · rename_i hok
    have hdeliver : ((s.rx io).onByte data).deliver (delivery s io data) =
        ((s.rx io).onByte data).receiveData8.2.record (delivery s io data) := if_pos hok
    rw [hdeliver, hread]
  · rename_i hok
    have hdeliver : ((s.rx io).onByte data).deliver (delivery s io data) =
        (((s.rx io).onByte data).receiveData8.2.record (delivery s io data)).push data := if_neg hok
    rw [hdeliver, ← hread, push_rdr]

omit [DecidableEq ι] in
theorem accounted_rdr {buf : Option B} {r : RxSide ι B} (h : r.Accounted buf)
    (hrxne : r.rxne = false) (rdr : UInt8) : { r with rdr := rdr }.Accounted buf := by
  have harrived := h.arrived
  rw [hrxne, if_neg Bool.false_ne_true] at harrived
  refine { h with arrived := ?_ }
  change r.arrived = r.deliveries.map Delivery.byte ++ if r.rxne = true then [rdr] else []
  rw [hrxne, if_neg Bool.false_ne_true]
  exact harrived

theorem receive_accounted (h : Reception.Accounted bufRx bufTx s)
    (hrxne : (s.rx io).rxne = false) (data : UInt8) :
    Reception.Accounted bufRx bufTx (receive io data s) := by
  -- the byte comes in as at a UART and is delivered
  set s₁ := s.withRx io ((s.rx io).onByte data) with hs₁
  have hbyte : Reception.Accounted bufRx bufTx s₁ := by
    refine h.withRx ((h.rx io).onByte data) ?_
    rw [onByte_eq hrxne]
  have hrx₁ : s₁.rx io = (s.rx io).onByte data := Function.update_self ..
  have hdelivery : delivery s₁ io data = delivery s io data := by
    unfold delivery
    rw [Reception.bufferPushIsr_fst, Reception.bufferPushIsr_fst, hrx₁, onByte_eq hrxne]
    rfl
  have hrdr : ((s.rx io).onByte data).rdr = data := by rw [onByte_eq hrxne]
  have hrxne₁ : (s₁.rx io).rxne = true := by rw [hrx₁, onByte_eq hrxne]
  have hdeliver := hbyte.deliver hrxne₁
  rw [hrx₁, hrdr, hdelivery, hs₁, Reception.withRx_withTx_withRx] at hdeliver
  -- and the register of the UART is not there
  set s₂ := (s.withTx (tunnelTransmit s.links (s.links.tunnelCtx io) io [data] s.tx).2).withRx io
    (((s.rx io).onByte data).deliver (delivery s io data)) with hs₂
  have hrx₂ : s₂.rx io = ((s.rx io).onByte data).deliver (delivery s io data) :=
    Function.update_self ..
  have hdeliveries := congrArg RxSide.deliveries hrx₂.symm
  have hafter := hdeliver.withRx (accounted_rdr (hrx₂ ▸ hdeliver.rx io) (Reception.deliver_rxne _ _)
    (s.rx io).rdr) hdeliveries
  rw [receive_eq hrxne]
  simpa only [hs₂, Reception.State.withRx, Function.update_idem] using hafter

theorem receive_deliveries (hrxne : (s.rx io).rxne = false) (data : UInt8) :
    ((receive io data s).rx io).deliveries = (s.rx io).deliveries ++ [delivery s io data] := by
  rw [receive_eq hrxne, onByte_eq hrxne]
  change (Function.update s.rx io _ io).deliveries = _
  rw [Function.update_self]
  exact Reception.deliver_deliveries _ _

theorem receive_rxne (hrxne : (s.rx io).rxne = false) (data : UInt8) :
    ((receive io data s).rx io).rxne = false := by
  rw [receive_eq hrxne]
  change (Function.update s.rx io _ io).rxne = _
  rw [Function.update_self]
  exact Reception.deliver_rxne _ _

theorem receive_taken (hrxne : (s.rx io).rxne = false) (data : UInt8) (peer : ι) :
    ((receive io data s).tx peer).taken = (s.tx peer).taken := by
  rw [receive_eq hrxne]
  exact transmitData_taken _ _ _ _ _

end Ios

section Steps
variable {io : ι} {setup : Setup τ ι B} {w : World τ ι B} {dn up : SharedRing UInt8}

theorem conveys_hasData (h : Conveys io setup { w with handler := some .hasData } dn up) :
    Conveys io setup (w.serve io .hasData) dn up := by
  have hwr : w.down.wrOff = dn.buffer.head := congrArg RttBuffer.wrOff h.memoryDown
  refine { h with downAt := ?_ }
  intro hne
  exact length_pos_of_ne _ (hwr ▸ hne)

theorem conveys_hasDataRdOff {v : ℕ}
    (h : Conveys io setup { w with handler := some (.hasDataRdOff v) } dn up) :
    Conveys io setup (w.serve io (.hasDataRdOff v)) dn up := by
  have hrd : w.down.rdOff = dn.buffer.tail := congrArg RttBuffer.rdOff h.memoryDown
  change Conveys io setup (w.goto (if v ≠ w.down.rdOff then .read else .pop)) dn up
  rw [hrd]
  by_cases hne : v ≠ dn.buffer.tail
  · rw [if_pos hne]
    exact { h with downAt := h.downAt hne }
  · rw [if_neg hne]
    exact { h with downAt := trivial }

theorem conveys_read (h : Conveys io setup { w with handler := some .read } dn up) :
    Conveys io setup (w.serve io .read) dn up :=
  { h with downAt := ⟨congrArg RttBuffer.rdOff h.memoryDown, h.downAt⟩ }

theorem conveys_readWrOff {rdOff : ℕ}
    (h : Conveys io setup { w with handler := some (.readWrOff rdOff) } dn up) :
    Conveys io setup (w.serve io (.readWrOff rdOff)) dn up := by
  obtain ⟨rfl, hpos⟩ := h.downAt
  have hsize : w.down.sizeOfBuffer = dn.buffer.slots :=
    congrArg RttBuffer.sizeOfBuffer h.memoryDown
  have hwr : w.down.wrOff = dn.buffer.head := congrArg RttBuffer.wrOff h.memoryDown
  have htail : wrap dn.buffer.slots (dn.buffer.tail + 0) = dn.buffer.tail :=
    if_pos dn.buffer.tail_lt
  have hcopy : RttBuffer.readNoLock w.down.sizeOfBuffer dn.buffer.tail w.down.wrOff 1 =
      ([dn.buffer.tail], wrap dn.buffer.slots (dn.buffer.tail + 1)) := by
    rw [hsize, hwr, readNoLock_eq, Nat.min_eq_left hpos, List.range_one, List.map_singleton, htail]
  change Conveys io setup (w.goto (.readCopy
    (RttBuffer.readNoLock w.down.sizeOfBuffer dn.buffer.tail w.down.wrOff 1).1
    (RttBuffer.readNoLock w.down.sizeOfBuffer dn.buffer.tail w.down.wrOff 1).2 [])) dn up
  rw [hcopy]
  exact { h with downAt := ⟨rfl, hpos, .inl ⟨rfl, rfl⟩⟩ }

theorem items_getElem?_copied (hpos : 0 < dn.buffer.length)
    (hnone : dn.copied = []) :
    dn.buffer.items[dn.copied.length]? = some (dn.buffer.cells dn.buffer.tail) := by
  have htail : wrap dn.buffer.slots (dn.buffer.tail + 0) = dn.buffer.tail :=
    if_pos dn.buffer.tail_lt
  have hlt : 0 < dn.buffer.items.length := by rwa [CircularBuffer.items_length]
  rw [hnone, List.length_nil, List.getElem?_eq_getElem hlt, CircularBuffer.items_getElem, htail]

theorem conveys_readCopy_cons {p rdOff : ℕ} {pSrc : List ℕ} {pData : List UInt8}
    (h : Conveys io setup
      { w with handler := some (.readCopy (p :: pSrc) rdOff pData) } dn up) :
    Conveys io setup (w.serve io (.readCopy (p :: pSrc) rdOff pData))
      (dn.copy (w.down.pBuffer p)) up := by
  obtain ⟨hrd, hpos, ⟨hsrc, hdata⟩ | ⟨hsrc, -⟩⟩ := h.downAt
  · obtain ⟨rfl, rfl⟩ := List.cons_eq_cons.mp hsrc
    subst hdata
    have hcells : w.down.pBuffer = dn.buffer.cells := congrArg RttBuffer.pBuffer h.memoryDown
    have hcopied : dn.copied = [] := h.copied
    have hsound := h.soundDown.copy (items_getElem?_copied hpos hcopied)
    rw [← hcells] at hsound
    exact { h with
      soundDown := hsound
      copied := congrArg (· ++ [w.down.pBuffer dn.buffer.tail]) hcopied
      downAt := ⟨hrd, hpos, .inr ⟨rfl, rfl⟩⟩ }
  · cases hsrc

theorem conveys_readCopy_nil {rdOff : ℕ} {pData : List UInt8}
    (h : Conveys io setup { w with handler := some (.readCopy [] rdOff pData) } dn up) :
    Conveys io setup (w.serve io (.readCopy [] rdOff pData)) (dn.receive 1) up := by
  obtain ⟨rfl, hpos, ⟨hsrc, -⟩ | ⟨-, hdata⟩⟩ := h.downAt
  · cases hsrc
  · obtain ⟨x, rfl⟩ := List.length_eq_one_iff.mp hdata
    have hcopied : dn.copied = [x] := h.copied
    have hsound := h.soundDown.receive (n := 1) (by rw [hcopied, List.length_singleton])
    have hreceived : dn.received = (w.ios.rx io).deliveries.map Delivery.byte :=
      h.received.trans (List.append_nil _)
    refine { h with
      memoryDown := ?_, soundDown := hsound, copied := ?_, downAt := trivial, received := ?_ }
    · change ({ w.down with rdOff := wrap dn.buffer.slots (dn.buffer.tail + 1) } : RttBuffer) =
        memory (dn.buffer.pop 1).2 w.down.flags
      rw [memory_pop _ hpos]
      exact congrArg (fun b : RttBuffer =>
        { b with rdOff := wrap dn.buffer.slots (dn.buffer.tail + 1) }) h.memoryDown
    · exact congrArg (List.drop 1) hcopied
    · change dn.received ++ dn.copied.take 1 = _
      rw [hcopied, hreceived]
      rfl

theorem conveys_tunnel (h : Conveys io setup { w with handler := some .tunnel } dn up) :
    Conveys io setup (w.serve io .tunnel) dn up := by
  have hrxne := h.rxne
  refine { h with
    downAt := trivial, received := ?_, popped := ?_, ios := receive_accounted h.ios hrxne _,
    rxne := receive_rxne hrxne _ }
  · change dn.received = ((receive io w.data w.ios).rx io).deliveries.map Delivery.byte ++ []
    rw [receive_deliveries hrxne, List.map_append, List.append_nil]
    exact h.received
  · change ((receive io w.data w.ios).tx io).taken = _
    rw [receive_taken hrxne]
    exact h.popped

omit [DecidableEq ι] in
theorem popped_length_le (t : TxSide ι B) : (popped t 1).length ≤ 1 := by
  unfold popped
  cases t.buf with
  | none => exact Nat.zero_le 1
  | some buf =>
    change (Buffer.read buf 1 0).1.length ≤ 1
    rw [Buffer.read_fst]
    exact List.length_take_le ..

omit [DecidableEq ι] in
theorem bufferPopIsr_taken (t : TxSide ι B) :
    (t.bufferPopIsr 1).taken = t.taken ++ popped t 1 := by
  unfold TxSide.bufferPopIsr popped
  cases t.buf with
  | none => exact (List.append_nil _).symm
  | some buf => rfl

theorem conveys_pop [DecidableEq τ]
    (h : Conveys io setup { w with handler := some .pop } dn up) :
    Conveys io setup (w.serve io .pop) dn up := by
  have htaken : (w.ios.tx io).taken = w.puts.map Put.byte := h.popped.trans (List.append_nil _)
  have hpop : Reception.step .stm32h7 w.ios (.pop io 1) = some (w.ios.withTx
    (Function.update w.ios.tx io ((w.ios.tx io).bufferPopIsr 1))) := rfl
  have hios := Reception.accounted_step h.ios hpop
  have hafter : ((w.ios.withTx (Function.update w.ios.tx io
      ((w.ios.tx io).bufferPopIsr 1))).tx io).taken =
        w.puts.map Put.byte ++ popped (w.ios.tx io) 1 := by
    change (Function.update w.ios.tx io _ io).taken = _
    rw [Function.update_self, bufferPopIsr_taken, htaken]
  have hle := popped_length_le (w.ios.tx io)
  unfold World.serve
  dsimp only
  cases hdata : popped (w.ios.tx io) 1 with
  | nil =>
    rw [hdata] at hafter
    exact { h with downAt := trivial, upAt := trivial, popped := hafter, ios := hios }
  | cons data rest =>
    rw [hdata, List.length_cons] at hle
    have hrest : rest = [] := List.eq_nil_of_length_eq_zero (by omega)
    rw [hdata, hrest] at hafter
    exact { h with downAt := trivial, upAt := trivial, popped := hafter, ios := hios }

theorem conveys_putChar (h : Conveys io setup { w with handler := some .putChar } dn up) :
    Conveys io setup (w.serve io .putChar) dn up := by
  have hmemory : w.up = memory up.buffer w.up.flags := h.memoryUp
  have hnext : w.up.nextWrOff = wrap up.buffer.slots (up.buffer.head + 1) := by
    rw [hmemory, nextWrOff_memory]
  change Conveys io setup (w.goto (if w.up.flags = .blockIfFifoFull then
    .putCharWait w.up.nextWrOff else .putCharCheck w.up.nextWrOff)) dn up
  by_cases hflags : w.up.flags = .blockIfFifoFull
  · rw [if_pos hflags]
    exact { h with downAt := trivial, upAt := hnext }
  · rw [if_neg hflags]
    exact { h with downAt := trivial, upAt := ⟨hnext, fun hblock => absurd hblock hflags⟩ }

theorem conveys_putCharWait {wrOff : ℕ}
    (h : Conveys io setup { w with handler := some (.putCharWait wrOff) } dn up) :
    Conveys io setup (World.serve io { w with handler := some (.putCharWait wrOff) }
      (.putCharWait wrOff)) dn up := by
  have hnext : wrOff = wrap up.buffer.slots (up.buffer.head + 1) := h.upAt
  have hrd : w.up.rdOff = up.buffer.tail := congrArg RttBuffer.rdOff h.memoryUp
  change Conveys io setup (if wrOff = w.up.rdOff then _ else w.goto _) dn up
  by_cases hfull : wrOff = w.up.rdOff
  · rw [if_pos hfull]
    exact h
  · rw [if_neg hfull]
    rw [hrd, hnext] at hfull
    have hroom := (wrap_head_ne_tail_iff up.buffer).mp hfull
    exact { h with downAt := trivial, upAt := ⟨hnext, fun _ => hroom⟩ }

theorem conveys_putCharCheck {wrOff : ℕ}
    (h : Conveys io setup { w with handler := some (.putCharCheck wrOff) } dn up) :
    Conveys io setup (w.serve io (.putCharCheck wrOff)) dn up := by
  obtain ⟨hnext, hblock⟩ := h.upAt
  have hmemory : w.up = memory up.buffer w.up.flags := h.memoryUp
  have hrd : w.up.rdOff = up.buffer.tail := congrArg RttBuffer.rdOff h.memoryUp
  have hsize : w.up.sizeOfBuffer = up.buffer.slots := congrArg RttBuffer.sizeOfBuffer h.memoryUp
  have hused : w.up.used = up.buffer.length := by rw [hmemory, used_memory]
  have hstatus : (wrOff ≠ w.up.rdOff) ↔ up.buffer.length + 1 < up.buffer.slots := by
    rw [hrd, hnext]
    exact wrap_head_ne_tail_iff up.buffer
  have htested : decide (wrOff ≠ w.up.rdOff) = decide (w.up.used + 1 < w.up.sizeOfBuffer) := by
    rw [hused, hsize]
    exact decide_eq_decide.mpr hstatus
  have hcounted : w.txTransmited + UInt32.ofNat 0 = UInt32.ofNat w.puts.length := h.counted
  rw [show UInt32.ofNat 0 = 0 from rfl, UInt32.add_zero] at hcounted
  have hpopped : (w.ios.tx io).taken = w.puts.map Put.byte ++ [w.data] := h.popped
  have haccepted : (w.puts.filter Put.status).map Put.byte = up.sent :=
    h.accepted.trans (List.append_nil _)
  set p := Put.mk w.data (decide (wrOff ≠ w.up.rdOff)) w.up.used with hp
  have hpuntested : ∀ q ∈ w.puts ++ [p], q.status = decide (q.used + 1 < w.up.sizeOfBuffer) :=
    List.forall_mem_append.mpr ⟨h.tested, List.forall_mem_singleton.mpr htested⟩
  change Conveys io setup ({ w with puts := w.puts ++ [p] }.goto
    (if decide (wrOff ≠ w.up.rdOff) = true then .putCharStore wrOff else .transmited)) dn up
  by_cases hroom : wrOff ≠ w.up.rdOff
  · have hstored : p.status = true := decide_eq_true hroom
    rw [if_pos (decide_eq_true hroom)]
    refine { h with
      downAt := trivial, upAt := ⟨hnext, hstatus.mp hroom⟩, popped := ?_, accepted := ?_,
      counted := ?_, tested := hpuntested, blocking := ?_ }
    · change (w.ios.tx io).taken = (w.puts ++ [p]).map Put.byte ++ []
      rw [List.map_append, List.append_nil]
      exact hpopped
    · change ((w.puts ++ [p]).filter Put.status).map Put.byte = up.sent ++ [w.data]
      rw [List.filter_append, List.map_append, haccepted, List.filter_singleton, hstored]
      rfl
    · change w.txTransmited + 1 = UInt32.ofNat (w.puts ++ [p]).length
      rw [hcounted, List.length_append, List.length_singleton, Reception.ofNat_succ]
    · intro hflags
      exact List.forall_mem_append.mpr ⟨h.blocking hflags, List.forall_mem_singleton.mpr hstored⟩
  · have hrefused : p.status = false := decide_eq_false hroom
    rw [if_neg (by rw [decide_eq_false hroom]; exact Bool.false_ne_true)]
    refine { h with
      downAt := trivial, upAt := trivial, popped := ?_, accepted := ?_,
      counted := ?_, tested := hpuntested, blocking := ?_ }
    · change (w.ios.tx io).taken = (w.puts ++ [p]).map Put.byte ++ []
      rw [List.map_append, List.append_nil]
      exact hpopped
    · change ((w.puts ++ [p]).filter Put.status).map Put.byte = up.sent ++ []
      rw [List.filter_append, List.map_append, haccepted, List.filter_singleton, hrefused]
      rfl
    · change w.txTransmited + 1 = UInt32.ofNat (w.puts ++ [p]).length
      rw [hcounted, List.length_append, List.length_singleton, Reception.ofNat_succ]
    · intro hflags
      exact absurd (hstatus.mpr (hblock hflags)) hroom

theorem conveys_putCharStore {wrOff : ℕ}
    (h : Conveys io setup { w with handler := some (.putCharStore wrOff) } dn up) :
    Conveys io setup (w.serve io (.putCharStore wrOff)) dn (up.fill w.data) := by
  obtain ⟨hnext, hroom⟩ := h.upAt
  have hfilled : up.filled = [] := h.written
  have hsound := h.soundUp.fill (by rwa [hfilled]) w.data
  have hwr : w.up.wrOff = up.buffer.head := congrArg RttBuffer.wrOff h.memoryUp
  have hcells : w.up.pBuffer = up.buffer.cells := congrArg RttBuffer.pBuffer h.memoryUp
  have hhere : wrap up.buffer.slots (up.buffer.head + up.filled.length) = up.buffer.head := by
    rw [hfilled]
    exact if_pos up.buffer.head_lt
  have hstored : Function.update w.up.pBuffer w.up.wrOff w.data =
      (up.buffer.fill up.filled.length w.data).cells := by
    change _ = Function.update up.buffer.cells (wrap up.buffer.slots _) w.data
    rw [hhere, hcells, hwr]
  refine { h with
    memoryUp := ?_, soundUp := hsound, written := congrArg (· ++ [w.data]) hfilled,
    downAt := trivial, upAt := ⟨hnext, hroom⟩ }
  change ({ w.up with pBuffer := Function.update w.up.pBuffer w.up.wrOff w.data } : RttBuffer) =
    memory (up.buffer.fill up.filled.length w.data) w.up.flags
  rw [hstored]
  exact congrArg (fun b : RttBuffer =>
    { b with pBuffer := (up.buffer.fill up.filled.length w.data).cells }) h.memoryUp

theorem conveys_putCharWrOff {wrOff : ℕ}
    (h : Conveys io setup { w with handler := some (.putCharWrOff wrOff) } dn up) :
    Conveys io setup (w.serve io (.putCharWrOff wrOff)) dn (up.send 1) := by
  obtain ⟨hnext, hroom⟩ := h.upAt
  have hfilled : up.filled = [w.data] := h.written
  have hsound := h.soundUp.send (n := 1) (by rw [hfilled, List.length_singleton])
  have haccepted : (w.puts.filter Put.status).map Put.byte = up.sent ++ [w.data] := h.accepted
  refine { h with
    memoryUp := ?_, soundUp := hsound, written := congrArg (List.drop 1) hfilled,
    downAt := trivial, upAt := trivial, accepted := ?_ }
  · change ({ w.up with wrOff := wrOff } : RttBuffer) = memory (up.buffer.advance 1) w.up.flags
    rw [memory_advance _ hroom, hnext]
    exact congrArg (fun b : RttBuffer =>
      { b with wrOff := wrap up.buffer.slots (up.buffer.head + 1) }) h.memoryUp
  · change (w.puts.filter Put.status).map Put.byte = up.sent ++ up.filled.take 1 ++ []
    rw [hfilled, List.append_nil]
    exact haccepted

theorem conveys_transmited
    (h : Conveys io setup { w with handler := some .transmited } dn up) :
    Conveys io setup (w.serve io .transmited) dn up := by
  have hcounted := h.counted
  refine { h with counted := ?_ }
  change w.txTransmited + 1 + UInt32.ofNat 0 = UInt32.ofNat w.puts.length
  exact (UInt32.add_zero _).trans hcounted

theorem conveys_serve [DecidableEq τ] {pc : Pc}
    (h : Conveys io setup { w with handler := some pc } dn up) :
    ∃ dn' up', Conveys io setup (World.serve io { w with handler := some pc } pc) dn' up' := by
  cases pc with
  | hasData => exact ⟨_, _, conveys_hasData h⟩
  | hasDataRdOff v => exact ⟨_, _, conveys_hasDataRdOff h⟩
  | read => exact ⟨_, _, conveys_read h⟩
  | readWrOff rdOff => exact ⟨_, _, conveys_readWrOff h⟩
  | readCopy pSrc rdOff pData =>
    cases pSrc with
    | nil => exact ⟨_, _, conveys_readCopy_nil h⟩
    | cons p pSrc => exact ⟨_, _, conveys_readCopy_cons h⟩
  | tunnel => exact ⟨_, _, conveys_tunnel h⟩
  | pop => exact ⟨_, _, conveys_pop h⟩
  | putChar => exact ⟨_, _, conveys_putChar h⟩
  | putCharWait wrOff => exact ⟨_, _, conveys_putCharWait h⟩
  | putCharCheck wrOff => exact ⟨_, _, conveys_putCharCheck h⟩
  | putCharStore wrOff => exact ⟨_, _, conveys_putCharStore h⟩
  | putCharWrOff wrOff => exact ⟨_, _, conveys_putCharWrOff h⟩
  | transmited => exact ⟨_, _, conveys_transmited h⟩

variable [DecidableEq τ] {d : Reception.Driver} {w' : World τ ι B}

theorem conveys_hostWrite {b : UInt8} (h : Conveys io setup w dn up)
    (hstep : step d io w (.hostWrite b) = some w') :
    Conveys io setup w' (dn.fill b) up := by
  obtain ⟨hspace, ⟨⟩⟩ := Option.ite_none_right_eq_some.mp hstep
  have hwritten : w.debugger.written = dn.filled := congrArg Debugger.written h.debugger
  have hwr : w.down.wrOff = dn.buffer.head := congrArg RttBuffer.wrOff h.memoryDown
  have hcells : w.down.pBuffer = dn.buffer.cells := congrArg RttBuffer.pBuffer h.memoryDown
  have hsize : w.down.sizeOfBuffer = dn.buffer.slots :=
    congrArg RttBuffer.sizeOfBuffer h.memoryDown
  rw [hwritten, h.memoryDown, getAvailWriteSpace_memory] at hspace
  refine { h with
    memoryDown := ?_
    soundDown := h.soundDown.fill (by omega) b
    debugger := ?_
    downAt := h.downAt.mono rfl rfl le_rfl }
  · set pos := wrap dn.buffer.slots (dn.buffer.head + dn.filled.length) with hpos
    have hbehind : w.down.behind w.down.wrOff w.debugger.written.length = pos := by
      rw [RttBuffer.behind, hwritten, hwr, hsize]
    dsimp only
    rw [hbehind, hcells]
    exact congrArg (fun m : RttBuffer =>
      { m with pBuffer := Function.update dn.buffer.cells pos b }) h.memoryDown
  · change Debugger.mk (w.debugger.written ++ [b]) _ _ _ =
      ⟨dn.filled ++ [b], up.copied, dn.sent, up.received⟩
    rw [h.debugger]

theorem conveys_hostWrOff {n : ℕ} (h : Conveys io setup w dn up)
    (hstep : step d io w (.hostWrOff n) = some w') :
    Conveys io setup w' (dn.send n) up := by
  obtain ⟨hn, ⟨⟩⟩ := Option.ite_none_right_eq_some.mp hstep
  have hwr : w.down.wrOff = dn.buffer.head := congrArg RttBuffer.wrOff h.memoryDown
  have hsize : w.down.sizeOfBuffer = dn.buffer.slots :=
    congrArg RttBuffer.sizeOfBuffer h.memoryDown
  rw [h.debugger] at hn
  have hroom := h.soundDown.room
  have hlen : dn.buffer.length + n < dn.buffer.slots := by
    change n ≤ dn.filled.length at hn
    omega
  refine { h with
    memoryDown := ?_
    soundDown := h.soundDown.send hn
    debugger := ?_
    downAt := h.downAt.mono rfl rfl ?_ }
  · change ({ w.down with wrOff := wrap w.down.sizeOfBuffer (w.down.wrOff + n) } : RttBuffer) =
      memory (dn.buffer.advance n) w.down.flags
    rw [hwr, hsize, memory_advance _ hlen]
    exact congrArg (fun m : RttBuffer =>
      { m with wrOff := wrap dn.buffer.slots (dn.buffer.head + n) }) h.memoryDown
  · change Debugger.mk (w.debugger.written.drop n) _ (_ ++ w.debugger.written.take n) _ =
      ⟨dn.filled.drop n, up.copied, dn.sent ++ dn.filled.take n, up.received⟩
    rw [h.debugger]
  · change dn.buffer.length ≤ (dn.buffer.advance n).length
    rw [CircularBuffer.advance_length hlen]
    exact Nat.le_add_right ..

theorem conveys_hostCopy (h : Conveys io setup w dn up)
    (hstep : step d io w .hostCopy = some w') :
    ∃ x, Conveys io setup w' dn (up.copy x) := by
  obtain ⟨hused, ⟨⟩⟩ := Option.ite_none_right_eq_some.mp hstep
  have hcopied : w.debugger.copied = up.copied := congrArg Debugger.copied h.debugger
  have hrd : w.up.rdOff = up.buffer.tail := congrArg RttBuffer.rdOff h.memoryUp
  have hcells : w.up.pBuffer = up.buffer.cells := congrArg RttBuffer.pBuffer h.memoryUp
  have hsize : w.up.sizeOfBuffer = up.buffer.slots := congrArg RttBuffer.sizeOfBuffer h.memoryUp
  rw [hcopied, h.memoryUp, used_memory] at hused
  have hlt : up.copied.length < up.buffer.items.length := by rwa [CircularBuffer.items_length]
  have hitem := List.getElem?_eq_getElem hlt
  refine ⟨up.buffer.items[up.copied.length], { h with
    soundUp := h.soundUp.copy hitem
    debugger := ?_ }⟩
  change Debugger.mk _ (w.debugger.copied ++ [w.up.pBuffer (wrap w.up.sizeOfBuffer
    (w.up.rdOff + w.debugger.copied.length))]) _ _ =
      ⟨dn.filled, up.copied ++ [up.buffer.items[up.copied.length]], dn.sent, up.received⟩
  rw [hrd, hcells, hsize, h.debugger, CircularBuffer.items_getElem]

theorem conveys_hostRdOff {n : ℕ} (h : Conveys io setup w dn up)
    (hstep : step d io w (.hostRdOff n) = some w') :
    Conveys io setup w' dn (up.receive n) := by
  obtain ⟨hn, ⟨⟩⟩ := Option.ite_none_right_eq_some.mp hstep
  have hrd : w.up.rdOff = up.buffer.tail := congrArg RttBuffer.rdOff h.memoryUp
  have hsize : w.up.sizeOfBuffer = up.buffer.slots := congrArg RttBuffer.sizeOfBuffer h.memoryUp
  rw [h.debugger] at hn
  have hle := h.soundUp.copied_le
  refine { h with
    memoryUp := ?_
    soundUp := h.soundUp.receive hn
    debugger := ?_
    upAt := h.upAt.mono rfl rfl ?_ }
  · change ({ w.up with rdOff := wrap w.up.sizeOfBuffer (w.up.rdOff + n) } : RttBuffer) =
      memory (up.buffer.pop n).2 w.up.flags
    rw [hrd, hsize, memory_pop _ (hn.trans hle)]
    exact congrArg (fun m : RttBuffer =>
      { m with rdOff := wrap up.buffer.slots (up.buffer.tail + n) }) h.memoryUp
  · change Debugger.mk _ (w.debugger.copied.drop n) _ (_ ++ w.debugger.copied.take n) =
      ⟨dn.filled, up.copied.drop n, dn.sent, up.received ++ up.copied.take n⟩
    rw [h.debugger]
  · change (up.buffer.pop n).2.length ≤ up.buffer.length
    rw [CircularBuffer.pop_length]
    exact Nat.sub_le ..

omit [Buffer B] [DecidableEq τ] in
theorem withRx_unchanged {s : Reception.State τ ι B} {other : ι} {r : RxSide ι B}
    (h : other ≠ io ∨ r.deliveries = (s.rx other).deliveries ∧ r.rxne = (s.rx other).rxne) :
    ((s.withRx other r).rx io).deliveries = (s.rx io).deliveries ∧
      ((s.withRx other r).rx io).rxne = (s.rx io).rxne := by
  change (Function.update s.rx other r io).deliveries = _ ∧
    (Function.update s.rx other r io).rxne = _
  rcases eq_or_ne io other with rfl | hne
  · rw [Function.update_self]
    exact h.resolve_left fun hne => hne rfl
  · rw [Function.update_of_ne hne]
    exact ⟨rfl, rfl⟩

theorem step_unchanged {s t : Reception.State τ ι B} {a : Reception.Action τ ι}
    (hserved : served io a = true) (ht : Reception.step d s a = some t) :
    ((t.rx io).deliveries = (s.rx io).deliveries ∧ (t.rx io).rxne = (s.rx io).rxne) ∧
      (t.tx io).taken = (s.tx io).taken := by
  cases a with
  | byte other b =>
    cases ht
    exact ⟨withRx_unchanged (.inl (of_decide_eq_true hserved)), rfl⟩
  | irq other =>
    cases ht
    have hne : other ≠ io := of_decide_eq_true hserved
    rw [Reception.Driver.irqHandler_eq]
    unfold Reception.irqHandler
    dsimp only
    split
    · exact ⟨withRx_unchanged (s := s.withTx _) (.inl hne), transmitData_taken _ _ _ s.tx io⟩
    · exact ⟨withRx_unchanged (.inl hne), rfl⟩
  | irqEnable other on =>
    cases ht
    exact ⟨withRx_unchanged (.inl (of_decide_eq_true hserved)), rfl⟩
  | read other dataLen waitMs =>
    cases ht
    refine ⟨withRx_unchanged (.inr ?_), rfl⟩
    unfold RxSide.read
    split
    · exact ⟨rfl, rfl⟩
    · exact ⟨rfl, rfl⟩
  | clear other =>
    cases ht
    refine ⟨withRx_unchanged (.inr ?_), rfl⟩
    unfold RxSide.clear
    split
    · exact ⟨rfl, rfl⟩
    · exact ⟨rfl, rfl⟩
  | pop other dataLen =>
    cases ht
    have hne : other ≠ io := of_decide_eq_true hserved
    exact ⟨⟨rfl, rfl⟩, congrArg TxSide.taken (Function.update_of_ne (Ne.symm hne) ..)⟩
  | transmit other data =>
    cases ht
    exact ⟨⟨rfl, rfl⟩, transmitData_taken none (some other) data s.tx io⟩
  | tunnelInit c =>
    simp only [Reception.step, Option.map_eq_some_iff] at ht
    obtain ⟨links, -, rfl⟩ := ht
    exact ⟨⟨rfl, rfl⟩, rfl⟩

theorem conveys_other {a : Reception.Action τ ι} (h : Conveys io setup w dn up)
    (hstep : step d io w (.other a) = some w') : Conveys io setup w' dn up := by
  obtain ⟨hserved, hios⟩ := Option.ite_none_right_eq_some.mp hstep
  obtain ⟨ios, ht, rfl⟩ := Option.map_eq_some_iff.mp hios
  obtain ⟨⟨hdeliveries, hrxne⟩, htaken⟩ := step_unchanged hserved ht
  exact { h with
    received := h.received.trans (by rw [hdeliveries])
    popped := htaken.trans h.popped
    ios := Reception.accounted_step h.ios ht
    rxne := hrxne.trans h.rxne }

theorem conveys_timer (h : Conveys io setup w dn up)
    (hstep : step d io w .timer = some w') : Conveys io setup w' dn up := by
  obtain ⟨hidle, ⟨⟩⟩ := Option.ite_none_right_eq_some.mp hstep
  have hcopied := h.copied
  have hwritten := h.written
  have hreceived := h.received
  have hpopped := h.popped
  have haccepted := h.accepted
  have hcounted := h.counted
  rw [hidle] at hcopied hwritten hreceived hpopped haccepted hcounted
  exact { h with
    copied := hcopied, written := hwritten, downAt := trivial, upAt := trivial,
    received := hreceived, popped := hpopped, accepted := haccepted, counted := hcounted }

theorem conveys_step {a : Action τ ι} (h : Conveys io setup w dn up)
    (hstep : step d io w a = some w') : ∃ dn' up', Conveys io setup w' dn' up' := by
  cases a with
  | timer => exact ⟨_, _, conveys_timer h hstep⟩
  | serve =>
    obtain ⟨pc, hpc, rfl⟩ := Option.map_eq_some_iff.mp hstep
    have hw : w = { w with handler := some pc } := by
      rw [← hpc]
    rw [hw] at h ⊢
    exact conveys_serve h
  | hostWrite b => exact ⟨_, _, conveys_hostWrite h hstep⟩
  | hostWrOff n => exact ⟨_, _, conveys_hostWrOff h hstep⟩
  | hostCopy =>
    obtain ⟨x, hx⟩ := conveys_hostCopy h hstep
    exact ⟨_, _, hx⟩
  | hostRdOff n => exact ⟨_, _, conveys_hostRdOff h hstep⟩
  | other a => exact ⟨_, _, conveys_other h hstep⟩

end Steps

theorem conveys_start (io : ι) (setup : Setup τ ι B) :
    Conveys io setup (start setup)
      { buffer := .create setup.bufferSizeDown setup.down_pos setup.acDownBuffer }
      { buffer := .create setup.bufferSizeUp setup.up_pos setup.acUpBuffer } where
  memoryDown := rfl
  memoryUp := rfl
  soundDown := SharedRing.sound_empty rfl
  soundUp := SharedRing.sound_empty rfl
  debugger := rfl
  copied := rfl
  written := rfl
  downAt := trivial
  upAt := trivial
  received := rfl
  popped := rfl
  accepted := rfl
  counted := rfl
  tested _ hp := absurd hp List.not_mem_nil
  blocking _ _ hp := absurd hp List.not_mem_nil
  size := rfl
  mode := rfl
  ios := Reception.accounted_start setup.links setup.bufRx setup.bufTx
  rxne := rfl

/-- What the host and the IO have given to each other. -/
structure Conveyed (io : ι) (setup : Setup τ ι B) (w : World τ ι B) : Prop where
  /-- What the host has sent comes to the IO in order. -/
  down : w.debugger.sent =
    (w.ios.rx io).deliveries.map Delivery.byte ++ inHand w.data w.handler ++ w.down.bytes
  popped : (w.ios.tx io).taken = w.puts.map Put.byte ++ untested w.data w.handler
  /-- The bytes that are not refused come to the host in order. -/
  up : (w.puts.filter Put.status).map Put.byte =
    w.debugger.received ++ w.up.bytes ++ unsent w.data w.handler
  /-- `tx_transmited` counts the refused ones too. -/
  counted : w.txTransmited + UInt32.ofNat (uncounted w.handler) = UInt32.ofNat w.puts.length
  refused : ∀ p ∈ w.puts, p.status = decide (p.used + 1 < setup.bufferSizeUp)
  blocking : setup.mode = .blockIfFifoFull → ∀ p ∈ w.puts, p.status = true
  ios : Reception.Accounted setup.bufRx setup.bufTx w.ios

theorem Conveys.conveyed {io : ι} {setup : Setup τ ι B} {w : World τ ι B}
    {dn up : SharedRing UInt8} (h : Conveys io setup w dn up) : Conveyed io setup w := by
  have hdown : w.down.bytes = dn.buffer.items := by rw [h.memoryDown, bytes_memory]
  have hup : w.up.bytes = up.buffer.items := by rw [h.memoryUp, bytes_memory]
  have hsent : w.debugger.sent = dn.sent := congrArg Debugger.sent h.debugger
  have hreceived : w.debugger.received = up.received := congrArg Debugger.received h.debugger
  exact {
    down := by rw [hsent, h.soundDown.conveyed, h.received, hdown]
    popped := h.popped
    up := by rw [h.accepted, h.soundUp.conveyed, hreceived, hup]
    counted := h.counted
    refused := h.size ▸ h.tested
    blocking := fun hmode => h.blocking (h.mode.trans hmode)
    ios := h.ios }

/-- In every order of the accesses of the handler and of the host, whatever else uses the IOs. -/
theorem conveyed_of_run [DecidableEq τ] (d : Reception.Driver) (io : ι) (setup : Setup τ ι B)
    (run : List (Action τ ι)) {w : World τ ι B}
    (hrun : exec (step d io) (start setup) run = some w) : Conveyed io setup w := by
  have hstep (s : World τ ι B) (a : Action τ ι) (t : World τ ι B)
      (hs : ∃ dn up, Conveys io setup s dn up) (ht : step d io s a = some t) :
      ∃ dn up, Conveys io setup t dn up := by
    obtain ⟨dn, up, h⟩ := hs
    exact conveys_step h ht
  have hinv : ∃ dn up, Conveys io setup w dn up :=
    exec_invariant_of_step hstep ⟨_, _, conveys_start io setup⟩ hrun
  obtain ⟨dn, up, h⟩ := hinv
  exact h.conveyed

def oneEach : Setup ℕ ℕ (BoundedQueue UInt8) where
  links := Tunnel.start
  bufRx _ := some (BoundedQueue.empty UInt8 4)
  bufTx _ := some (BoundedQueue.empty UInt8 4)
  acDownBuffer _ := 0
  acUpBuffer _ := 0
  bufferSizeDown := 2
  bufferSizeUp := 2
  down_pos := Nat.two_pos
  up_pos := Nat.two_pos
  mode := .noBlockSkip

/-- The host sends a byte, and of two bytes for the host the second one is refused. -/
def session : List (Action ℕ ℕ) :=
  [.hostWrite 65, .hostWrOff 1, .other (.transmit 0 [1, 2]), .timer] ++
    List.replicate 20 .serve ++ [.hostCopy, .hostRdOff 1]

theorem conveyed_of_run_session : ∃ w,
    exec (step .stm32l4 0) (start oneEach) session = some w ∧ w.handler = none ∧
      w.debugger.sent = [65] ∧ (w.ios.rx 0).stored = [65] ∧ (w.ios.tx 0).taken = [1, 2] ∧
      w.debugger.received = [1] ∧ w.txTransmited = 2 ∧ Conveyed 0 oneEach w :=
  ⟨_, rfl, rfl, rfl, rfl, rfl, rfl, rfl, conveyed_of_run .stm32l4 0 oneEach session rfl⟩

end UniHal.Io.RttStdio
