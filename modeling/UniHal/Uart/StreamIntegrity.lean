import UniHal.Uart.Stream

/-! # The bytes that a UART sends

Both drivers write the accepted bytes in the order of the calls, each once and only to an
empty data register.
-/

namespace UniHal.Uart
open Foundations Execution Interleaving Io

/-- What was written is the front of what was accepted; the rest is in the buffer, but for one
byte that the handler may hold. The counter of 32 bits counts the writes, with the last one
added right after it. -/
structure Transmitter.Intact {B : Type*} [Buffer B] (u : Transmitter B) (counting : Prop) :
    Prop where
  prefix_accepted : u.written.map Prod.fst <+: u.accepted
  rest : ∃ held : List UInt8, held.length ≤ 1 ∧
    u.accepted = u.written.map Prod.fst ++ held ++ Buffer.bytes u.bufTx
  txe : ∀ write ∈ u.written, write.2 = true
  counted : ¬counting → u.txTransmited.toNat = u.written.length % 2 ^ 32
  counting : counting → (u.txTransmited + 1).toNat = u.written.length % 2 ^ 32

theorem Flow.intact {B : Type*} [Buffer B] {held : List UInt8} {uncounted : UInt32}
    {u : Transmitter B} (h : Flow held uncounted u) (hheld : held.length ≤ 1) {counting : Prop}
    (hno : ¬counting → uncounted = 0) (hyes : counting → uncounted = 1) : u.Intact counting where
  prefix_accepted := ⟨held ++ Buffer.bytes u.bufTx, by rw [← List.append_assoc, h.stream]⟩
  rest := ⟨held, hheld, h.stream⟩
  txe := h.txe
  counted hc := by
    have hcounted := h.counted
    rw [hno hc, UInt32.add_zero] at hcounted
    rw [hcounted]
    exact UInt32.toNat_ofNat
  counting hc := by
    have hcounted := h.counted
    rw [hyes hc] at hcounted
    rw [hcounted]
    exact UInt32.toNat_ofNat

theorem Stm32h7.held_length_le (h : Option Stm32h7.Irq) : (Stm32h7.held h).length ≤ 1 := by
  unfold Stm32h7.held
  split <;> simp

theorem Stm32l4.held_length_le (h : Option Stm32l4.Irq) : (Stm32l4.held h).length ≤ 1 := by
  unfold Stm32l4.held
  split <;> simp

/-- In every run of either driver, with any calls and interrupts, the stream stays intact. -/
theorem stream_intact {B : Type*} [Buffer B] {buf : B} (hbuf : Buffer.bytes buf = []) (tc : Bool) :
    (∀ run w, exec Stm32h7.step (Stm32h7.start buf tc) run = some w →
      w.shared.Intact (w.handler = some .count)) ∧
    (∀ run w, exec Stm32l4.step (Stm32l4.start buf tc) run = some w →
      w.shared.Intact (w.handler = some .count)) := by
  constructor
  · intro run w hrun
    apply (exec_streams Stm32h7.carrying hbuf tc hrun).flow.intact
    · exact Stm32h7.held_length_le w.handler
    · intro hno
      change Stm32h7.uncounted w.handler = 0
      unfold Stm32h7.uncounted
      split
      · rename_i hcount
        exact absurd hcount hno
      · rfl
    · intro hyes
      rw [hyes]
      rfl
  · intro run w hrun
    apply (exec_streams Stm32l4.carrying hbuf tc hrun).flow.intact
    · exact Stm32l4.held_length_le w.handler
    · intro hno
      change Stm32l4.uncounted w.handler = 0
      unfold Stm32l4.uncounted
      split
      · rename_i hcount
        exact absurd hcount hno
      · rfl
    · intro hyes
      rw [hyes]
      rfl

/-- A call for three bytes of which two fit, and the interrupt for the first one. -/
def twoOfThree : List Stm32h7.Action :=
  [.call (.transmitData [1, 2, 3]), .resume .clearTc, .resume .disableTcie, .resume .enableTxeie,
    .enter, .serve, .serve, .serve, .serve, .serve, .serve, .serve, .serve, .serve]

theorem stream_intact_twoOfThree :
    ∃ w, exec Stm32h7.step (Stm32h7.start (BoundedQueue.empty UInt8 2) true) twoOfThree = some w ∧
      w.shared.written = [(1, true)] ∧ w.shared.accepted = [1, 2] ∧
      w.shared.Intact (w.handler = some .count) :=
  ⟨_, rfl, rfl, rfl,
    (@stream_intact _ _ (BoundedQueue.empty UInt8 2) rfl true).1 twoOfThree _ rfl⟩

namespace Stm32h7

def oneByte : List Action :=
  [.call (.transmitData [0]), .resume .clearTc, .resume .disableTcie, .resume .enableTxeie, .enter,
    .serve, .serve, .serve, .serve, .serve, .serve, .serve, .serve, .hardware .load,
    .hardware .finish]

/-- After `n` bytes that were all sent. -/
def afterBytes (n : ℕ) : World (BoundedQueue UInt8) where
  shared := {
    Transmitter.init (BoundedQueue.empty UInt8 1) true with
    txeie := true
    inTransmission := true
    txTransmited := UInt32.ofNat n
    transmits := List.replicate n ([0], 1)
    written := List.replicate n (0, true)
    wire := List.replicate n 0
    txStarts := 1 }
  calls := []
  handler := none

theorem exec_oneByte (n : ℕ) : exec step (afterBytes n) oneByte = some (afterBytes (n + 1)) := by
  refine congrArg some (?_ : _ = afterBytes (n + 1))
  apply congrArg fun u : Transmitter (BoundedQueue UInt8) =>
    (⟨u, [], none⟩ : World (BoundedQueue UInt8))
  apply (Transmitter.mk.injEq ..).mpr
  refine ⟨rfl, rfl, rfl, rfl, rfl, rfl, rfl, ?_, ?_, ?_, ?_, rfl, rfl, rfl⟩
  · exact (UInt32.ofNat_add n 1).symm
  · exact List.replicate_succ'.symm
  · exact List.replicate_succ'.symm
  · exact List.replicate_succ'.symm

def firstByte : List Action :=
  [.call (.transmitData [0]), .resume .clearTc, .resume .disableTcie, .resume .enableTxeie, .enter,
    .serve, .serve, .serve, .serve, .serve, .serve, .serve, .serve, .serve, .hardware .load,
    .hardware .finish]

theorem exec_firstByte :
    exec step (start (BoundedQueue.empty UInt8 1) true) firstByte = some (afterBytes 1) := by
  refine congrArg some (?_ : _ = afterBytes 1)
  apply congrArg fun u : Transmitter (BoundedQueue UInt8) =>
    (⟨u, [], none⟩ : World (BoundedQueue UInt8))
  exact (Transmitter.mk.injEq ..).mpr
    ⟨rfl, rfl, rfl, rfl, rfl, rfl, rfl, rfl, rfl, rfl, rfl, rfl, rfl, rfl⟩

theorem exec_bytes (n : ℕ) :
    exec step (afterBytes 1) (List.replicate n oneByte).flatten = some (afterBytes (n + 1)) := by
  induction n with
  | zero => rfl
  | succ n ih =>
    rw [List.replicate_succ', List.flatten_append, exec_append, ih, Option.bind_some,
      List.flatten_singleton, exec_oneByte]

theorem afterBytes_counts (n : ℕ) :
    (afterBytes n).shared.txTransmited.toNat = n % 2 ^ 32 ∧
      (afterBytes n).shared.written.length = n :=
  ⟨UInt32.toNat_ofNat, List.length_replicate⟩

/-- After 2^32 bytes the counter is zero again. -/
theorem txTransmited_wraps : ∃ run w,
    exec step (start (BoundedQueue.empty UInt8 1) true) run = some w ∧ w.handler = none ∧
      w.shared.txTransmited.toNat ≠ w.shared.written.length := by
  have hwrap : ∀ n, (n + 1) % 2 ^ 32 = 0 → ∃ run w,
      exec step (start (BoundedQueue.empty UInt8 1) true) run = some w ∧ w.handler = none ∧
        w.shared.txTransmited.toNat ≠ w.shared.written.length := by
    intro n hn
    obtain ⟨hcounter, hwritten⟩ := afterBytes_counts (n + 1)
    refine ⟨firstByte ++ (List.replicate n oneByte).flatten, afterBytes (n + 1), ?_, rfl, ?_⟩
    · rw [exec_append, exec_firstByte, Option.bind_some, exec_bytes]
    · omega
  exact hwrap (2 ^ 32 - 1) (by decide)

end Stm32h7
end UniHal.Uart
