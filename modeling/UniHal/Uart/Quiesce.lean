import UniHal.Uart.Stm32h7.Quiesce
import UniHal.Uart.Stm32l4.Quiesce

/-! # Output across a pause of the interrupts

With either driver everything accepted before or during a pause is sent after it, and the
transmitter stops being busy, when the enabling call finds the output able to go on. Neither
driver makes it so.
-/

namespace UniHal.Uart
open Foundations Execution Interleaving Io

/-- In every run of calls, pauses, interrupts and hardware steps that leaves the output of the
driver undisturbed, as soon as the interrupts are enabled the output is completed without a new
call. -/
theorem completes_of_undisturbed {B : Type*} [Buffer B] {buf : B} (hbuf : Buffer.bytes buf = [])
    (tc : Bool) :
    (∀ run w, Along Stm32h7.step Stm32h7.Undisturbed (Stm32h7.start buf tc) run →
      exec Stm32h7.step (Stm32h7.start buf tc) run = some w → Stm32h7.Running w →
      Completes Stm32h7.step (Productive Stm32h7.txInterrupt) Stm32h7.Undisturbed w) ∧
    (∀ run w, Along Stm32l4.step Stm32l4.Undisturbed (Stm32l4.start buf tc) run →
      exec Stm32l4.step (Stm32l4.start buf tc) run = some w → Stm32l4.Running w →
      Completes Stm32l4.step (Productive Stm32l4.txInterrupt) Stm32l4.Undisturbed w) :=
  ⟨fun _ _ hok hrun hrunning => Stm32h7.completes_of_running hbuf tc hok hrun hrunning,
    fun _ _ hok hrun hrunning => Stm32l4.completes_of_running hbuf tc hok hrun hrunning⟩

namespace Stm32h7

def pause : List Action :=
  [.call (.irqEnable false), .resume .offDisableTxeie, .resume .offDisableTcie,
    .resume .offClearTc, .resume .offInTransmission, .call (.irqEnable true),
    .resume .onDisableTcie, .resume .onDisableTxeie, .resume .onClearTc]

def queueTwo : List Action :=
  [.call (.transmitData [1, 2]), .resume .clearTc, .resume .disableTcie, .resume .enableTxeie]

/-- The only byte is on its way out when the interrupts are disabled. -/
def pauseInShift : List Action :=
  [.call (.transmitData [1]), .resume .clearTc, .resume .disableTcie, .resume .enableTxeie, .enter,
    .serve, .serve, .serve, .serve, .serve, .serve, .serve, .serve, .serve, .hardware .load] ++
    pause

end Stm32h7

namespace Stm32l4

def pause : List Action :=
  [.call (.irqEnable false), .resume .offDisableTxeie, .resume .offDisableTcie,
    .resume .offClearTc, .call (.irqEnable true), .resume .onReturn]

def queueTwo : List Action :=
  [.call (.transmitData [1, 2]), .resume .clearTc, .resume .enableTxeie, .resume .enableTcie]

/-- The interrupts are disabled and enabled between a push and its trigger. -/
def pauseInCall : List Action := .call (.transmitData [1]) :: pause

end Stm32l4

/-- Nothing happens any more with the interrupts enabled, and the bytes are not sent. -/
def Abandoned {B C H : Type*} [Buffer B] (interrupt : Transmitter B → Bool)
    (w : World (Transmitter B) C H) : Prop :=
  AtRest interrupt w ∧ w.shared.busy = true ∧ w.shared.wire ≠ w.shared.accepted

/-- A pause after two bytes have been queued leaves them in the buffer for ever. -/
theorem pause_abandons :
    (∃ w, exec Stm32h7.step (Stm32h7.start (BoundedQueue.empty UInt8 4) true)
        (Stm32h7.queueTwo ++ Stm32h7.pause) = some w ∧
      Stm32h7.Running w ∧ Abandoned Stm32h7.txInterrupt w) ∧
    (∃ w, exec Stm32l4.step (Stm32l4.start (BoundedQueue.empty UInt8 4) true)
        (Stm32l4.queueTwo ++ Stm32l4.pause) = some w ∧
      Stm32l4.Running w ∧ Abandoned Stm32l4.txInterrupt w) :=
  ⟨⟨_, rfl, by decide, ⟨rfl, rfl, ⟨rfl, rfl⟩, rfl⟩, rfl, by decide⟩,
    ⟨_, rfl, by decide, ⟨rfl, rfl, ⟨rfl, rfl⟩, rfl⟩, rfl, by decide⟩⟩

theorem completes_of_undisturbed_pauses :
    (∃ w, exec Stm32h7.step (Stm32h7.start (BoundedQueue.empty UInt8 4) true)
        Stm32h7.pauseInShift = some w ∧
      Completes Stm32h7.step (Productive Stm32h7.txInterrupt) Stm32h7.Undisturbed w) ∧
    (∃ w, exec Stm32l4.step (Stm32l4.start (BoundedQueue.empty UInt8 4) true)
        Stm32l4.pauseInCall = some w ∧
      Completes Stm32l4.step (Productive Stm32l4.txInterrupt) Stm32l4.Undisturbed w) :=
  have hboth := @completes_of_undisturbed _ _ (BoundedQueue.empty UInt8 4) rfl true
  ⟨⟨_, rfl, hboth.1 Stm32h7.pauseInShift _ (by decide) rfl (by decide)⟩,
    ⟨_, rfl, hboth.2 Stm32l4.pauseInCall _ (by decide) rfl (by decide)⟩⟩

end UniHal.Uart
