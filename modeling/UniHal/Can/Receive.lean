import UniHal.Can.Message
import UniHal.Foundations.Execution
import UniHal.Foundations.Queues

/-! # The receive path of both drivers

The receive interrupt moves the elements of the hardware FIFOs to the receive queue, one
register access after the other, and frames arrive between any two of them. The handler is
the same in both drivers, but the FIFOs work in two ways: FDCAN names the element to read and
takes it back on acknowledge, bxCAN shows the oldest element and releases it some time after
the request. The queue is a FreeRTOS queue or a ring buffer.
-/

namespace UniHal.Can
open Foundations Foundations.Execution

/-- A receive queue: a send into a full queue is refused, and `receive` takes the oldest
message. -/
class RxQueue (Q : Type) (M : outParam Type) where
  items : Q → List M
  capacity : Q → ℕ
  send : Q → M → Bool × Q
  receive : Q → Option M × Q
  send_fst (q : Q) (m : M) : (send q m).1 = true ↔ (items q).length ≠ capacity q
  send_items (q : Q) (m : M) :
    items (send q m).2 = items q ++ if (send q m).1 then [m] else []
  send_capacity (q : Q) (m : M) : capacity (send q m).2 = capacity q
  receive_fst (q : Q) : (receive q).1 = (items q).head?
  receive_items (q : Q) : items (receive q).2 = (items q).tail
  receive_capacity (q : Q) : capacity (receive q).2 = capacity q

/-- `xQueueSendFromISR` and `xQueueReceive`. -/
instance {M : Type} : RxQueue (BoundedQueue M) M where
  items := BoundedQueue.items
  capacity := BoundedQueue.capacity
  send q m := ((q.send [m]).1 == 1, (q.send [m]).2)
  receive q := ((q.receive 1).1.head?, (q.receive 1).2)
  send_fst := BoundedQueue.send_one_iff
  send_items := BoundedQueue.send_one_items
  send_capacity _ _ := rfl
  receive_fst := BoundedQueue.receive_one_fst
  receive_items := BoundedQueue.receive_one_items
  receive_capacity _ := rfl

/-- `uni_common_ringbuffer_push` behind the test for a full buffer, and
`uni_common_ringbuffer_pop`. -/
instance {M : Type} : RxQueue (RingBuffer M) M where
  items := RingBuffer.items
  capacity rb := rb.slots - 1
  send rb m :=
    if rb.isFull then (false, rb) else ((rb.push [m]).1 == 1, (rb.push [m]).2)
  receive rb := ((rb.pop 1).1.head?, (rb.pop 1).2)
  send_fst rb m := by
    have := rb.room
    cases hfull : rb.isFull with
    | true =>
      have : rb.items.length + 1 = rb.slots := of_decide_eq_true hfull
      simp only [if_true, Bool.false_eq_true, false_iff]
      omega
    | false =>
      have := RingBuffer.not_isFull_iff.mp hfull
      simp only [Bool.false_eq_true, if_false, RingBuffer.push_fst, List.length_singleton,
        beq_self_eq_true, true_iff]
      omega
  send_items rb m := by
    cases hfull : rb.isFull with
    | true => simp
    | false =>
      have hroom := RingBuffer.not_isFull_iff.mp hfull
      have hpush : (rb.push [m]).2.items = rb.items ++ [m] := RingBuffer.push_items hroom
      simp [hpush]
  send_capacity rb m := by
    by_cases hfull : rb.isFull = true <;> simp [hfull]
  receive_fst rb := by cases h : rb.items <;> simp [h]
  receive_items rb := by simp
  receive_capacity _ := rfl

/-- A hardware receive FIFO. Its `contents` are the messages that the driver would make of the
elements it holds, the oldest first. A release takes the oldest element at once, or leaves the
FIFO unsettled until the hardware has taken it. -/
class HwFifo (F : Type) (Index E M : outParam Type) where
  contents : F → List M
  settled : F → Bool
  filled : F → Bool
  getIndex : F → Index
  read : F → Index → M
  /-- The elements that leave the FIFO, and the FIFO without them. -/
  release : F → Index → List M × F
  progress : F → List M × F
  arrive : F → E → F
  filled_iff (f : F) : filled f = true ↔ contents f ≠ []
  read_getIndex (f : F) : contents f ≠ [] → (contents f).head? = some (read f (getIndex f))
  release_contents (f : F) : contents f ≠ [] →
    (release f (getIndex f)).1 ++ contents (release f (getIndex f)).2 = contents f
  release_length (f : F) : contents f ≠ [] →
    (release f (getIndex f)).1.length = if settled (release f (getIndex f)).2 then 1 else 0
  progress_settled (f : F) : settled f = true → progress f = ([], f)
  progress_unsettled (f : F) : settled f = false → settled (progress f).2 = true
  progress_contents (f : F) : (progress f).1 ++ contents (progress f).2 = contents f
  progress_length (f : F) : (progress f).1.length = if settled f then 0 else 1
  arrive_settled (f : F) (e : E) : settled (arrive f e) = settled f
  arrive_getIndex (f : F) (e : E) : getIndex (arrive f e) = getIndex f
  arrive_head (f : F) (e : E) : contents f ≠ [] →
    contents (arrive f e) ≠ [] ∧ (contents (arrive f e)).head? = (contents f).head?

abbrev FifoNum := Fin 2

/-- Where the receive handler stands: the FIFO it works on, what it has read, and the FIFOs it
still has to look at. -/
inductive Handler (Index M : Type)
  | idle
  | status (fifo : FifoNum) (todo : List FifoNum)
  | index (fifo : FifoNum) (todo : List FifoNum)
  | element (fifo : FifoNum) (getIndex : Index) (todo : List FifoNum)
  | release (fifo : FifoNum) (getIndex : Index) (msg : M) (todo : List FifoNum)
  | wait (fifo : FifoNum) (msg : M) (todo : List FifoNum)
  | store (fifo : FifoNum) (msg : M) (todo : List FifoNum)

/-- The start of `_uni_hal_can_irq_rx` for the next FIFO. -/
def Handler.next {Index M : Type} : List FifoNum → Handler Index M
  | [] => .idle
  | fifo :: todo => .status fifo todo

/-- What became of a message: stored, or dropped while the queue held these messages. -/
inductive Outcome (M : Type)
  | stored
  | dropped (held : List M)

/-- The messages that were stored, out of those that were handled. -/
def stored {M : Type} (handled : List (M × Outcome M)) : List M :=
  handled.filterMap fun entry =>
    match entry.2 with
    | .stored => some entry.1
    | .dropped _ => none

/-- Both hardware FIFOs, the context of the driver and the handler. The last three fields only
record what happened: the messages that the handler was done with, the elements that left the
hardware, and the messages that `uni_hal_can_receive` returned. -/
structure RxState (F Q Index M : Type) where
  fifos : FifoNum → F
  inited : Bool
  queue : Q
  countRx : BitVec 32
  countRxDropped : BitVec 32
  handler : Handler Index M
  handled : List (M × Outcome M)
  released : List M
  returned : List M

inductive RxAction (E : Type)
  | arrive (fifo : FifoNum) (element : E)
  | progress (fifo : FifoNum)
  | interrupt (todo : List FifoNum)
  | handlerStep
  | receive
  | isAvailable

namespace RxState
variable {F Q Index E M : Type}

def initial (fifos : FifoNum → F) (queue : Q) : RxState F Q Index M :=
  { fifos := fifos, inited := true, queue := queue, countRx := 0, countRxDropped := 0,
    handler := .idle, handled := [], released := [], returned := [] }

variable [HwFifo F Index E M] [RxQueue Q M]

def isIdle (s : RxState F Q Index M) : Bool :=
  match s.handler with
  | .idle => true
  | _ => false

def goto (s : RxState F Q Index M) (handler : Handler Index M) : RxState F Q Index M :=
  { s with handler := handler }

def access (s : RxState F Q Index M) (fifo : FifoNum) (outcome : List M × F) :
    RxState F Q Index M :=
  { s with
    fifos := Function.update s.fifos fifo outcome.2
    released := s.released ++ outcome.1 }

def storeMsg (s : RxState F Q Index M) (msg : M) : RxState F Q Index M :=
  if s.inited then
    if (RxQueue.send s.queue msg).1 then
      { s with
        queue := (RxQueue.send s.queue msg).2
        countRx := s.countRx + 1
        handled := s.handled ++ [(msg, .stored)] }
    else
      { s with
        queue := (RxQueue.send s.queue msg).2
        countRxDropped := s.countRxDropped + 1
        handled := s.handled ++ [(msg, .dropped (RxQueue.items s.queue))] }
  else s

/-- `_uni_hal_can_irq_rx`, one access at a time. The loop over the spins ends once the
hardware has released the element. -/
def handlerStep (s : RxState F Q Index M) : Option (RxState F Q Index M) :=
  match s.handler with
  | .idle => none
  | .status fifo todo =>
    if HwFifo.filled (s.fifos fifo) then some (s.goto (.index fifo todo))
    else some (s.goto (.next todo))
  | .index fifo todo => some (s.goto (.element fifo (HwFifo.getIndex (s.fifos fifo)) todo))
  | .element fifo getIndex todo =>
    some (s.goto (.release fifo getIndex (HwFifo.read (s.fifos fifo) getIndex) todo))
  | .release fifo getIndex msg todo =>
    some ((s.access fifo (HwFifo.release (s.fifos fifo) getIndex)).goto (.wait fifo msg todo))
  | .wait fifo msg todo =>
    if HwFifo.settled (s.fifos fifo) then some (s.goto (.store fifo msg todo)) else none
  | .store fifo msg todo => some ((s.storeMsg msg).goto (.status fifo todo))

/-- `uni_hal_can_receive`, once there is a message or the time is over. -/
def receive (s : RxState F Q Index M) : Option M × RxState F Q Index M :=
  if s.inited then
    let taken := RxQueue.receive s.queue
    (taken.1, { s with queue := taken.2, returned := s.returned ++ taken.1.toList })
  else (none, s)

def isAvailable (s : RxState F Q Index M) : ℕ := (RxQueue.items s.queue).length

/-- Frames arrive and the hardware moves on at any time. The task runs while no handler does.
An interrupt is for any list of FIFOs: FDCAN handles both in one interrupt, bxCAN has an
interrupt for each. -/
def step (s : RxState F Q Index M) : RxAction E → Option (RxState F Q Index M)
  | .arrive fifo element =>
    some { s with fifos := Function.update s.fifos fifo (HwFifo.arrive (s.fifos fifo) element) }
  | .progress fifo => some (s.access fifo (HwFifo.progress (s.fifos fifo)))
  | .interrupt todo => if s.isIdle then some (s.goto (.next todo)) else none
  | .handlerStep => s.handlerStep
  | .receive => if s.isIdle then some s.receive.2 else none
  | .isAvailable => if s.isIdle then some s else none

end RxState

end UniHal.Can
