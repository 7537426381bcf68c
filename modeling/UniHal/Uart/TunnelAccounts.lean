import UniHal.Uart.Reception

/-! # Where received bytes go, and how they are counted

Both handlers do the same with a received byte. Over every run the buffers of all IOs, their
statistics and the deliveries of the handlers agree.
-/

namespace UniHal.Uart.Reception
open Foundations Execution Io
open Io.Tunnel (TransmitResult)

variable {τ ι B : Type*}

def Delivery.own (d : Delivery ι) : Bool := decide (d.result ≠ .ok) && d.room

def Delivery.refused (d : Delivery ι) : Bool := decide (d.result ≠ .ok) && !d.room

def Delivery.goesTo [DecidableEq ι] (peer : ι) (d : Delivery ι) : Bool :=
  decide (d.result ≠ .fail) && decide (d.peer = some peer)

def ownBytes (ds : List (Delivery ι)) : List UInt8 := (ds.filter Delivery.own).map Delivery.byte

def peerBytes [DecidableEq ι] (peer : ι) (ds : List (Delivery ι)) : List UInt8 :=
  (ds.filter (Delivery.goesTo peer)).map Delivery.byte

def receivedOn [DecidableEq ι] (io : ι) (stored : List (Option ι × UInt8)) : List UInt8 :=
  (stored.filter fun b => decide (b.1 = some io)).map Prod.snd

theorem ownBytes_concat (ds : List (Delivery ι)) (d : Delivery ι) :
    ownBytes (ds ++ [d]) = ownBytes ds ++ if d.own then [d.byte] else [] := by
  rw [ownBytes, List.filter_append, List.map_append, ownBytes]
  cases h : d.own with
  | true => simp [h]
  | false => simp [h]

theorem peerBytes_concat [DecidableEq ι] (peer : ι) (ds : List (Delivery ι)) (d : Delivery ι) :
    peerBytes peer (ds ++ [d]) = peerBytes peer ds ++ if d.goesTo peer then [d.byte] else [] := by
  rw [peerBytes, List.filter_append, List.map_append, peerBytes]
  cases h : d.goesTo peer with
  | true => simp [h]
  | false => simp [h]

theorem receivedOn_append [DecidableEq ι] (io : ι) (xs ys : List (Option ι × UInt8)) :
    receivedOn io (xs ++ ys) = receivedOn io xs ++ receivedOn io ys := by
  rw [receivedOn, List.filter_append, List.map_append]
  rfl

theorem receivedOn_source [DecidableEq ι] (io : ι) (source : Option ι) (data : List UInt8) :
    receivedOn io (data.map fun b => (source, b)) = if source = some io then data else [] := by
  rw [receivedOn, List.filter_map, List.map_map]
  split
  · rename_i h
    simp [h, Function.comp_def]
  · rename_i h
    simp [h, Function.comp_def]

/-- The own RX buffer, the statistics and the bytes that came in agree with the deliveries. -/
structure RxSide.Accounted [Buffer B] (buf : Option B) (r : RxSide ι B) : Prop where
  flow : unread buf ++ r.stored = r.taken ++ unread r.buf
  arrived : r.arrived = r.deliveries.map Delivery.byte ++ if r.rxne then [r.rdr] else []
  stored : r.stored = ownBytes r.deliveries
  received : r.rxReceived = UInt32.ofNat (ownBytes r.deliveries).length
  overrun : r.rxOverrun = UInt32.ofNat (r.deliveries.countP Delivery.refused + r.overruns)

/-- Bytes leave a TX buffer in the order in which they came. -/
def TxSide.Accounted [Buffer B] (buf : Option B) (t : TxSide ι B) : Prop :=
  unread buf ++ t.stored.map Prod.snd = t.taken ++ unread t.buf

/-- What one delivery does to the own side: the byte is read, and offered to the RX buffer unless
the tunnel took it for good. -/
def RxSide.deliver [Buffer B] (d : Delivery ι) (r : RxSide ι B) : RxSide ι B :=
  if d.result = .ok then r.receiveData8.2.record d else (r.receiveData8.2.record d).push d.byte

section Sides
variable [Buffer B] {buf : Option B} {r : RxSide ι B} {t : TxSide ι B}

theorem ofNat_succ (n : ℕ) : UInt32.ofNat n + 1 = UInt32.ofNat (n + 1) :=
  (UInt32.ofNat_add n 1).symm

/-- What is pushed goes to the end of the buffer, as far as it fits. -/
theorem bufferPushIsr_flow (data : List UInt8) (r : RxSide ι B) :
    unread (r.bufferPushIsr data).2.buf = unread r.buf ++ data.take (r.bufferPushIsr data).1 := by
  unfold RxSide.bufferPushIsr
  split
  · rename_i hbuf
    simp
  · rename_i b hbuf
    simp [unread, hbuf]

theorem bufferPushIsr_eq (data : List UInt8) (r : RxSide ι B) :
    (r.bufferPushIsr data).2 = { r with
      buf := (r.bufferPushIsr data).2.buf
      stored := r.stored ++ data.take (r.bufferPushIsr data).1 } := by
  unfold RxSide.bufferPushIsr
  split
  · simp
  · rfl

theorem take_singleton (n : ℕ) (b : UInt8) : [b].take n = if n ≠ 0 then [b] else [] := by
  cases n with
  | zero => rfl
  | succ n => simp

theorem bufferPushIsr_fst (data : List UInt8) (r : RxSide ι B) :
    (r.bufferPushIsr data).1 = r.buf.elim 0 fun buf => (Buffer.write buf data).1 := by
  unfold RxSide.bufferPushIsr
  cases r.buf with
  | none => rfl
  | some buf => rfl

theorem push_eq (b : UInt8) (r : RxSide ι B) :
    r.push b = { r with
      buf := (r.bufferPushIsr [b]).2.buf
      stored := r.stored ++ if (r.bufferPushIsr [b]).1 ≠ 0 then [b] else []
      rxReceived := if (r.bufferPushIsr [b]).1 ≠ 0 then r.rxReceived + 1 else r.rxReceived
      rxOverrun := if (r.bufferPushIsr [b]).1 ≠ 0 then r.rxOverrun else r.rxOverrun + 1 } := by
  unfold RxSide.push
  dsimp only
  rw [bufferPushIsr_eq, take_singleton]
  split
  · rfl
  · rfl

theorem RxSide.Accounted.onOverrun (h : r.Accounted buf) : r.overrun.Accounted buf := by
  unfold RxSide.overrun
  split
  · refine { h with overrun := ?_ }
    change r.rxOverrun + 1 = UInt32.ofNat (_ + (r.overruns + 1))
    rw [h.overrun, ofNat_succ, Nat.add_assoc]
  · exact h

theorem RxSide.Accounted.onByte (h : r.Accounted buf) (b : UInt8) :
    (r.onByte b).Accounted buf := by
  unfold RxSide.onByte
  split
  · exact { h with }
  · rename_i hrxne
    have harrived := h.arrived
    rw [if_neg hrxne, List.append_nil] at harrived
    refine { h with arrived := ?_ }
    change r.arrived ++ [b] = r.deliveries.map Delivery.byte ++ [b]
    rw [harrived]

theorem RxSide.Accounted.onRead (h : r.Accounted buf) (dataLen : ℕ) (waitMs : UInt32) :
    (r.read dataLen waitMs).Accounted buf := by
  unfold RxSide.read
  split
  · exact h
  · rename_i b hbuf
    have hflow := h.flow
    rw [hbuf] at hflow
    refine { h with flow := ?_ }
    simp only [unread, Option.elim_some, Buffer.read_fst, Buffer.bytes_read, List.append_assoc,
      List.take_append_drop] at hflow ⊢
    exact hflow

theorem RxSide.Accounted.onClear (h : r.Accounted buf) : r.clear.Accounted buf := by
  unfold RxSide.clear
  split
  · exact h
  · rename_i b hbuf
    have hflow := h.flow
    rw [hbuf] at hflow
    refine { h with flow := ?_ }
    simp only [unread, Option.elim_some, Buffer.bytes_reset, List.append_nil] at hflow ⊢
    exact hflow

theorem RxSide.Accounted.arrived_record (h : r.Accounted buf) (hrxne : r.rxne = true)
    {d : Delivery ι} (hbyte : d.byte = r.rdr) :
    r.arrived = (r.deliveries ++ [d]).map Delivery.byte ++ [] := by
  have harrived := h.arrived
  rw [if_pos hrxne, ← hbyte] at harrived
  rw [List.map_append, List.append_nil, harrived]
  rfl

theorem RxSide.Accounted.tunneled (h : r.Accounted buf) (hrxne : r.rxne = true)
    {d : Delivery ι} (hbyte : d.byte = r.rdr) (hresult : d.result = .ok) :
    (r.receiveData8.2.record d).Accounted buf := by
  have hown : d.own = false := by simp [Delivery.own, hresult]
  have hrefused : d.refused = false := by simp [Delivery.refused, hresult]
  have hbytes : ownBytes (r.deliveries ++ [d]) = ownBytes r.deliveries := by
    rw [ownBytes_concat, hown, if_neg Bool.false_ne_true, List.append_nil]
  constructor
  · exact h.flow
  · exact h.arrived_record hrxne hbyte
  · exact h.stored.trans hbytes.symm
  · change r.rxReceived = UInt32.ofNat (ownBytes (r.deliveries ++ [d])).length
    rw [hbytes, h.received]
  · change r.rxOverrun = UInt32.ofNat ((r.deliveries ++ [d]).countP _ + r.overruns)
    rw [List.countP_append, List.countP_singleton, hrefused, h.overrun]
    rfl

theorem RxSide.Accounted.offered (h : r.Accounted buf) (hrxne : r.rxne = true)
    {d : Delivery ι} (hbyte : d.byte = r.rdr) (hresult : d.result ≠ .ok)
    (hroom : d.room = decide ((r.bufferPushIsr [d.byte]).1 ≠ 0)) :
    ((r.receiveData8.2.record d).push d.byte).Accounted buf := by
  have hfst : ((r.receiveData8.2.record d).bufferPushIsr [d.byte]).1 =
      (r.bufferPushIsr [d.byte]).1 := by
    rw [bufferPushIsr_fst, bufferPushIsr_fst]
    rfl
  have hflow := bufferPushIsr_flow [d.byte] (r.receiveData8.2.record d)
  have harrived := h.arrived_record hrxne hbyte
  rw [hfst, take_singleton] at hflow
  rw [push_eq, hfst]
  by_cases hn : (r.bufferPushIsr [d.byte]).1 ≠ 0
  · have hown : d.own = true := by simp [Delivery.own, hresult, hroom, hn]
    have hrefused : d.refused = false := by simp [Delivery.refused, hresult, hroom, hn]
    have hbytes : ownBytes (r.deliveries ++ [d]) = ownBytes r.deliveries ++ [d.byte] := by
      rw [ownBytes_concat, hown, if_pos rfl]
    simp only [if_pos hn] at hflow ⊢
    constructor
    · change unread buf ++ (r.stored ++ [d.byte]) = r.taken ++ unread _
      rw [hflow, ← List.append_assoc, h.flow, List.append_assoc]
      rfl
    · exact harrived
    · change r.stored ++ [d.byte] = ownBytes (r.deliveries ++ [d])
      rw [hbytes, h.stored]
    · change r.rxReceived + 1 = UInt32.ofNat (ownBytes (r.deliveries ++ [d])).length
      rw [hbytes, List.length_append, h.received, ofNat_succ]
      rfl
    · change r.rxOverrun = UInt32.ofNat ((r.deliveries ++ [d]).countP _ + r.overruns)
      rw [List.countP_append, List.countP_singleton, hrefused, h.overrun]
      rfl
  · have hown : d.own = false := by simp [Delivery.own, hresult, hroom, hn]
    have hrefused : d.refused = true := by simp [Delivery.refused, hresult, hroom, hn]
    have hbytes : ownBytes (r.deliveries ++ [d]) = ownBytes r.deliveries := by
      rw [ownBytes_concat, hown, if_neg Bool.false_ne_true, List.append_nil]
    simp only [if_neg hn, List.append_nil] at hflow ⊢
    constructor
    · change unread buf ++ r.stored = r.taken ++ unread _
      rw [hflow, h.flow]
      rfl
    · exact harrived
    · change r.stored = ownBytes (r.deliveries ++ [d])
      rw [hbytes, h.stored]
    · change r.rxReceived = UInt32.ofNat (ownBytes (r.deliveries ++ [d])).length
      rw [hbytes, h.received]
    · change r.rxOverrun + 1 = UInt32.ofNat ((r.deliveries ++ [d]).countP _ + r.overruns)
      rw [List.countP_append, List.countP_singleton, hrefused, h.overrun, ofNat_succ, if_pos rfl,
        Nat.add_right_comm]

theorem deliver_deliveries (d : Delivery ι) (r : RxSide ι B) :
    (r.deliver d).deliveries = r.deliveries ++ [d] := by
  unfold RxSide.deliver
  split
  · rfl
  · rw [push_eq]
    rfl

theorem deliver_rxne (d : Delivery ι) (r : RxSide ι B) : (r.deliver d).rxne = false := by
  unfold RxSide.deliver
  split
  · rfl
  · rw [push_eq]
    rfl

theorem RxSide.Accounted.onDeliver (h : r.Accounted buf) (hrxne : r.rxne = true) {d : Delivery ι}
    (hbyte : d.byte = r.rdr) (hroom : d.room = decide ((r.bufferPushIsr [d.byte]).1 ≠ 0)) :
    (r.deliver d).Accounted buf := by
  unfold RxSide.deliver
  split
  · rename_i hresult
    exact h.tunneled hrxne hbyte hresult
  · rename_i hresult
    exact h.offered hrxne hbyte hresult hroom

/-- What goes into a TX buffer goes to its end, as far as it fits. -/
theorem TxSide.Accounted.onTransmitData (h : t.Accounted buf) (source : Option ι)
    (data : List UInt8) : (t.transmitData source data).2.Accounted buf := by
  unfold TxSide.transmitData
  split
  · exact h
  · rename_i b hbuf
    unfold TxSide.Accounted at h ⊢
    rw [hbuf] at h
    simp only [unread, Option.elim_some, Buffer.bytes_write, List.map_append, List.map_map,
      Function.comp_def, List.map_id_fun', id_eq] at h ⊢
    rw [← List.append_assoc, h, List.append_assoc]

theorem TxSide.Accounted.onPop (h : t.Accounted buf) (dataLen : ℕ) :
    (t.bufferPopIsr dataLen).Accounted buf := by
  unfold TxSide.bufferPopIsr
  split
  · exact h
  · rename_i b hbuf
    unfold TxSide.Accounted at h ⊢
    rw [hbuf] at h
    simp only [unread, Option.elim_some, Buffer.read_fst, Buffer.bytes_read, List.append_assoc,
      List.take_append_drop] at h ⊢
    exact h

end Sides

section Tunnels
variable [Buffer B] [DecidableEq ι] {s t : State τ ι B} {bufRx bufTx : ι → Option B}

theorem transmitData_receivedOn (io peer : ι) (source ctx : Option ι) (data : List UInt8)
    (tx : ι → TxSide ι B) :
    receivedOn io ((transmitData source ctx data tx).2 peer).stored =
      receivedOn io (tx peer).stored ++
        if source = some io ∧ ctx = some peer then data.take (transmitData source ctx data tx).1
        else [] := by
  cases ctx with
  | none => simp [transmitData]
  | some target =>
    simp only [transmitData, Option.some.injEq]
    by_cases hpeer : target = peer
    · subst hpeer
      rw [Function.update_self]
      unfold TxSide.transmitData
      split
      · simp
      · rw [receivedOn_append, receivedOn_source]
        simp
    · rw [Function.update_of_ne (Ne.symm hpeer), if_neg (fun h => hpeer h.2), List.append_nil]

theorem tunnelTransmit_none (links : Tunnel.State τ ι) (io : ι) (data : List UInt8)
    (tx : ι → TxSide ι B) : tunnelTransmit links none io data tx = (.fail, tx) :=
  rfl

/-- The tunnel fails just when the other IO takes nothing. -/
theorem tunnelTransmit_fail_iff (links : Tunnel.State τ ι) (ctx : Option τ) (io : ι)
    (data : List UInt8) (tx : ι → TxSide ι B) :
    (tunnelTransmit links ctx io data tx).1 = .fail ↔
      (transmitData (some io) (ioTo links ctx io) data tx).1 = 0 := by
  cases ctx with
  | none => simp [tunnelTransmit, Tunnel.transmit, ioTo, transmitData]
  | some t =>
    simp only [tunnelTransmit, Tunnel.transmit, ioTo, Option.elim_some]
    split
    · rename_i hsome
      constructor
      · intro h
        split at h <;> cases h
      · exact fun h => absurd h hsome
    · rename_i hnone
      exact iff_of_true rfl (not_not.mp hnone)

/-- The byte that a handler tunnels goes where its delivery says. -/
theorem tunnelTransmit_receivedOn (s : State τ ι B) (io other peer : ι) (b : UInt8) :
    receivedOn other ((tunnelTransmit s.links (s.links.tunnelCtx io) io [b] s.tx).2 peer).stored =
      receivedOn other (s.tx peer).stored ++
        if io = other ∧ (delivery s io b).goesTo peer = true then [b] else [] := by
  rw [tunnelTransmit, transmitData_receivedOn, take_singleton]
  congr 1
  have hfail := tunnelTransmit_fail_iff s.links (s.links.tunnelCtx io) io [b] s.tx
  simp only [Option.some.injEq, Delivery.goesTo, delivery, ne_eq, hfail, Bool.and_eq_true,
    decide_eq_true_eq]
  rcases eq_or_ne io other with rfl | hne
  · by_cases hpeer : ioTo s.links (s.links.tunnelCtx io) io = some peer
    · simp [hpeer]
    · simp [hpeer]
  · simp [hne]

theorem delivery_routed (s : State τ ι B) (io : ι) (b : UInt8)
    (h : (delivery s io b).result ≠ .fail) : (delivery s io b).peer ≠ none := by
  intro hpeer
  apply h
  apply (tunnelTransmit_fail_iff ..).mpr
  change ioTo s.links (s.links.tunnelCtx io) io = none at hpeer
  rw [hpeer]
  rfl

theorem transmitData_accounted (htx : ∀ io, (s.tx io).Accounted (bufTx io))
    (source ctx : Option ι) (data : List UInt8) (io : ι) :
    ((transmitData source ctx data s.tx).2 io).Accounted (bufTx io) := by
  cases ctx with
  | none => exact htx io
  | some target =>
    change (Function.update s.tx target _ io).Accounted (bufTx io)
    rcases eq_or_ne io target with rfl | hne
    · rw [Function.update_self]
      exact (htx io).onTransmitData source data
    · rw [Function.update_of_ne hne]
      exact htx io

def irqHandler (io : ι) (s : State τ ι B) : State τ ι B :=
  let r := (s.rx io).overrun
  if r.rxneie && r.rxne then
    (s.withTx (tunnelTransmit s.links (s.links.tunnelCtx io) io [r.rdr] s.tx).2).withRx io
      (r.deliver (delivery (s.withRx io r) io r.rdr))
  else s.withRx io r

omit [Buffer B] in
theorem withRx_withTx_withRx (io : ι) (r r' : RxSide ι B) (tx : ι → TxSide ι B)
    (s : State τ ι B) : ((s.withRx io r).withTx tx).withRx io r' = (s.withTx tx).withRx io r' := by
  simp [State.withRx, State.withTx]

theorem fail_or_transparent_iff (r : TransmitResult) :
    r = .fail ∨ r = .transparent ↔ r ≠ .ok := by
  cases r with
  | fail => simp
  | ok => simp
  | transparent => simp

theorem irqHandlerStm32l4_eq (io : ι) (s : State τ ι B) :
    irqHandlerStm32l4 io s = irqHandler io s := by
  have hrx : (s.withRx io (s.rx io).overrun).rx io = (s.rx io).overrun := Function.update_self ..
  unfold irqHandlerStm32l4 irqHandler
  simp only [hrx]
  split
  · simp only [RxSide.deliver, fail_or_transparent_iff, withRx_withTx_withRx, ne_eq, ite_not]
    rw [apply_ite (fun r => State.withRx io r _)]
    rfl
  · rfl

theorem irqHandlerStm32h7_eq (io : ι) (s : State τ ι B) :
    irqHandlerStm32h7 io s = irqHandlerStm32l4 io s := by
  have hlinks : (s.withRx io (s.rx io).overrun).links = s.links := rfl
  unfold irqHandlerStm32h7 irqHandlerStm32l4
  simp only [hlinks, or_comm]
  cases hctx : s.links.tunnelCtx io with
  | none =>
    simp only [Option.isSome_none, Bool.false_eq_true, if_false, tunnelTransmit_none, true_or,
      or_true]
  | some t => rfl

theorem Driver.irqHandler_eq (d : Driver) (io : ι) (s : State τ ι B) :
    d.irqHandler io s = Reception.irqHandler io s := by
  cases d with
  | stm32h7 => exact (irqHandlerStm32h7_eq io s).trans (irqHandlerStm32l4_eq io s)
  | stm32l4 => exact irqHandlerStm32l4_eq io s

/-- The buffers, the statistics and the deliveries of all IOs agree. -/
structure Accounted (bufRx bufTx : ι → Option B) (s : State τ ι B) : Prop where
  rx : ∀ io, (s.rx io).Accounted (bufRx io)
  tx : ∀ io, (s.tx io).Accounted (bufTx io)
  tunneled : ∀ io peer, receivedOn io (s.tx peer).stored = peerBytes peer (s.rx io).deliveries
  routed : ∀ io, ∀ d ∈ (s.rx io).deliveries, d.result ≠ .fail → d.peer ≠ none

theorem accounted_start (links : Tunnel.State τ ι) (bufRx bufTx : ι → Option B) :
    Accounted bufRx bufTx (start links bufRx bufTx) where
  rx _ := ⟨List.append_nil _, rfl, rfl, rfl, rfl⟩
  tx _ := List.append_nil _
  tunneled _ _ := rfl
  routed _ _ hd := absurd hd List.not_mem_nil

theorem Accounted.withRx (h : Accounted bufRx bufTx s) {io : ι} {r : RxSide ι B}
    (hrx : r.Accounted (bufRx io)) (hdeliveries : r.deliveries = (s.rx io).deliveries) :
    Accounted bufRx bufTx (s.withRx io r) := by
  have hsame : ∀ other, ((s.withRx io r).rx other).deliveries = (s.rx other).deliveries := by
    intro other
    change (Function.update s.rx io r other).deliveries = _
    rcases eq_or_ne other io with rfl | hne
    · rw [Function.update_self, hdeliveries]
    · rw [Function.update_of_ne hne]
  constructor
  · intro other
    change (Function.update s.rx io r other).Accounted _
    rcases eq_or_ne other io with rfl | hne
    · rwa [Function.update_self]
    · rw [Function.update_of_ne hne]
      exact h.rx other
  · exact h.tx
  · intro other peer
    rw [hsame]
    exact h.tunneled other peer
  · intro other
    rw [hsame]
    exact h.routed other

theorem Accounted.withTx (h : Accounted bufRx bufTx s) {tx : ι → TxSide ι B}
    (htx : ∀ io, (tx io).Accounted (bufTx io))
    (hreceived : ∀ io peer, receivedOn io (tx peer).stored = receivedOn io (s.tx peer).stored) :
    Accounted bufRx bufTx (s.withTx tx) where
  rx := h.rx
  tx := htx
  tunneled io peer := (hreceived io peer).trans (h.tunneled io peer)
  routed := h.routed

/-- One delivery: the byte goes to the TX buffer and to the RX buffer that its record names. -/
theorem Accounted.deliver (h : Accounted bufRx bufTx s) {io : ι} (hrxne : (s.rx io).rxne = true) :
    Accounted bufRx bufTx ((s.withTx
      (tunnelTransmit s.links (s.links.tunnelCtx io) io [(s.rx io).rdr] s.tx).2).withRx io
        ((s.rx io).deliver (delivery s io (s.rx io).rdr))) := by
  set d := delivery s io (s.rx io).rdr with hd
  have hdeliveries := deliver_deliveries d (s.rx io)
  constructor
  · intro other
    change (Function.update s.rx io _ other).Accounted _
    rcases eq_or_ne other io with rfl | hne
    · rw [Function.update_self]
      exact (h.rx other).onDeliver hrxne rfl rfl
    · rw [Function.update_of_ne hne]
      exact h.rx other
  · exact transmitData_accounted h.tx (some io) _ _
  · intro other peer
    change receivedOn other ((tunnelTransmit _ _ _ _ _).2 peer).stored =
      peerBytes peer (Function.update s.rx io _ other).deliveries
    rw [tunnelTransmit_receivedOn, h.tunneled]
    rcases eq_or_ne other io with rfl | hne
    · rw [Function.update_self, hdeliveries, peerBytes_concat]
      simp [hd, delivery]
    · rw [Function.update_of_ne hne, if_neg fun h => hne h.1.symm, List.append_nil]
  · intro other
    change ∀ e ∈ (Function.update s.rx io _ other).deliveries, _
    rcases eq_or_ne other io with rfl | hne
    · rw [Function.update_self, hdeliveries]
      intro e he
      rcases List.mem_append.mp he with he | he
      · exact h.routed other e he
      · rw [List.mem_singleton.mp he]
        exact delivery_routed s other _
    · rw [Function.update_of_ne hne]
      exact h.routed other

theorem accounted_irqHandler (h : Accounted bufRx bufTx s) (io : ι) :
    Accounted bufRx bufTx (irqHandler io s) := by
  have hoverrun : Accounted bufRx bufTx (s.withRx io (s.rx io).overrun) := by
    refine h.withRx (h.rx io).onOverrun ?_
    unfold RxSide.overrun
    split
    · rfl
    · rfl
  unfold irqHandler
  dsimp only
  split
  · rename_i hserve
    have hrx : (s.withRx io (s.rx io).overrun).rx io = (s.rx io).overrun := Function.update_self ..
    have hrxne : ((s.withRx io (s.rx io).overrun).rx io).rxne = true := by
      rw [hrx]
      exact (Bool.and_eq_true_iff.mp hserve).2
    have hdeliver := hoverrun.deliver hrxne
    rw [hrx, withRx_withTx_withRx] at hdeliver
    exact hdeliver
  · exact hoverrun

omit [Buffer B] [DecidableEq ι] in
theorem overrun_unread (r : RxSide ι B) :
    r.overrun.buf = r.buf ∧ r.overrun.rxneie = r.rxneie ∧ r.overrun.rxne = r.rxne ∧
      r.overrun.rdr = r.rdr ∧ r.overrun.deliveries = r.deliveries := by
  unfold RxSide.overrun
  split
  · exact ⟨rfl, rfl, rfl, rfl, rfl⟩
  · exact ⟨rfl, rfl, rfl, rfl, rfl⟩

/-- A handler whose interrupt is enabled reads the byte that is there and deals with it. -/
theorem Driver.irqHandler_reads (d : Driver) {io : ι} {s : State τ ι B}
    (hrxneie : (s.rx io).rxneie = true) (hrxne : (s.rx io).rxne = true) :
    ((d.irqHandler io s).rx io).rxne = false ∧
      ((d.irqHandler io s).rx io).deliveries =
        (s.rx io).deliveries ++ [delivery s io (s.rx io).rdr] := by
  obtain ⟨hbuf, hrxneie', hrxne', hrdr, hdeliveries⟩ := overrun_unread (s.rx io)
  have hself : (s.withRx io (s.rx io).overrun).rx io = (s.rx io).overrun := Function.update_self ..
  have hdelivery : delivery (s.withRx io (s.rx io).overrun) io (s.rx io).rdr =
      delivery s io (s.rx io).rdr := by
    simp only [delivery, hself, bufferPushIsr_fst, hbuf]
    rfl
  rw [d.irqHandler_eq, Reception.irqHandler]
  simp only [hrxneie', hrxneie, hrxne', hrxne, Bool.and_self, if_true]
  change (Function.update s.rx io _ io).rxne = false ∧ (Function.update s.rx io _ io).deliveries = _
  rw [Function.update_self, deliver_deliveries, hdeliveries, hrdr, hdelivery]
  exact ⟨deliver_rxne _ _, rfl⟩

variable [DecidableEq τ]

theorem accounted_step (h : Accounted bufRx bufTx s) {d : Driver} {a : Action τ ι}
    (ht : step d s a = some t) : Accounted bufRx bufTx t := by
  cases a with
  | byte io b =>
    cases ht
    refine h.withRx ((h.rx io).onByte b) ?_
    unfold RxSide.onByte
    split
    · rfl
    · rfl
  | irq io =>
    cases ht
    rw [Driver.irqHandler_eq]
    exact accounted_irqHandler h io
  | irqEnable io on =>
    cases ht
    exact h.withRx { h.rx io with } rfl
  | read io dataLen waitMs =>
    cases ht
    refine h.withRx ((h.rx io).onRead dataLen waitMs) ?_
    unfold RxSide.read
    split
    · rfl
    · rfl
  | clear io =>
    cases ht
    refine h.withRx (h.rx io).onClear ?_
    unfold RxSide.clear
    split
    · rfl
    · rfl
  | pop io dataLen =>
    cases ht
    apply h.withTx
    · intro other
      rcases eq_or_ne other io with rfl | hne
      · rw [Function.update_self]
        exact (h.tx other).onPop dataLen
      · rw [Function.update_of_ne hne]
        exact h.tx other
    · intro other peer
      rcases eq_or_ne peer io with rfl | hne
      · rw [Function.update_self]
        unfold TxSide.bufferPopIsr
        split
        · rfl
        · rfl
      · rw [Function.update_of_ne hne]
  | transmit io data =>
    cases ht
    apply h.withTx (transmitData_accounted h.tx none (some io) data)
    intro other peer
    rw [transmitData_receivedOn, if_neg (by simp), List.append_nil]
  | tunnelInit c =>
    simp only [step, Option.map_eq_some_iff] at ht
    obtain ⟨links, -, rfl⟩ := ht
    exact ⟨h.rx, h.tx, h.tunneled, h.routed⟩

/-- In every run of either driver the books agree; a handler whose interrupt is enabled empties the
receiver and books its byte; and both handlers do the same. -/
theorem reception_accounted (d : Driver) (links : Tunnel.State τ ι) (bufRx bufTx : ι → Option B)
    (run : List (Action τ ι)) :
    (∀ s, exec (step d) (start links bufRx bufTx) run = some s → Accounted bufRx bufTx s) ∧
      (∀ (io : ι) (s : State τ ι B), (s.rx io).rxneie = true → (s.rx io).rxne = true →
        ((d.irqHandler io s).rx io).rxne = false ∧
          ((d.irqHandler io s).rx io).deliveries =
            (s.rx io).deliveries ++ [delivery s io (s.rx io).rdr]) ∧
      ∀ (io : ι) (s : State τ ι B), irqHandlerStm32h7 io s = irqHandlerStm32l4 io s := by
  refine ⟨fun s hrun => ?_, fun io s hrxneie hrxne => d.irqHandler_reads hrxneie hrxne,
    irqHandlerStm32h7_eq⟩
  exact exec_invariant_of_step (fun _ _ _ h ht => accounted_step h ht)
    (accounted_start links bufRx bufTx) hrun

end Tunnels

section Runs

/-- A transparent tunnel between the IOs 0 and 1, with room for one byte in the RX buffer of the
first and in the TX buffer of the second: the second byte finds both full, and the third is
lost in the receiver. -/
def underLoad : List (Action ℕ ℕ) :=
  [.tunnelInit ⟨0, 0, 1, true⟩, .irqEnable 0 true, .byte 0 10, .irq 0, .byte 0 20, .byte 0 30,
    .irq 0]

def oneByte (io : ℕ) : ℕ → Option (BoundedQueue UInt8) :=
  fun other => if other = io then some (BoundedQueue.empty UInt8 1) else none

/-- What the run leaves at the IO 0 with either driver. -/
def AfterLoad (s : State ℕ ℕ (BoundedQueue UInt8)) : Prop :=
  (s.rx 0).stored = [10] ∧ (s.tx 1).stored = [(some 0, 10)] ∧ (s.rx 0).rxReceived = 1 ∧
    (s.rx 0).rxOverrun = 2

theorem reception_accounted_underLoad : ∃ s t u,
    exec (step .stm32l4) (start Tunnel.start (oneByte 0) (oneByte 1)) underLoad = some s ∧
      exec (step .stm32h7) (start Tunnel.start (oneByte 0) (oneByte 1)) underLoad = some t ∧
      exec (step .stm32l4) (start Tunnel.start (oneByte 0) (oneByte 1)) (underLoad.take 3) =
        some u ∧
      AfterLoad s ∧ AfterLoad t ∧ Accounted (oneByte 0) (oneByte 1) s ∧
      Accounted (oneByte 0) (oneByte 1) t ∧
      ((Driver.stm32l4.irqHandler 0 u).rx 0).rxne = false ∧
      ((Driver.stm32l4.irqHandler 0 u).rx 0).deliveries = [delivery u 0 10] ∧
      irqHandlerStm32h7 0 u = irqHandlerStm32l4 0 u := by
  obtain ⟨hrun, hreads, hsame⟩ :=
    reception_accounted .stm32l4 Tunnel.start (oneByte 0) (oneByte 1) underLoad
  have hrun' := (reception_accounted .stm32h7 Tunnel.start (oneByte 0) (oneByte 1) underLoad).1
  refine ⟨_, _, _, rfl, rfl, rfl, ⟨rfl, rfl, rfl, rfl⟩, ⟨rfl, rfl, rfl, rfl⟩, hrun _ rfl,
    hrun' _ rfl, ?_, ?_, hsame 0 _⟩
  · exact (hreads 0 _ rfl rfl).1
  · exact (hreads 0 _ rfl rfl).2

end Runs

end UniHal.Uart.Reception
