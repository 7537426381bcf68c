import UniHal.Foundations.CircularBuffer
import UniHal.Io.Buffer

/-! # IO buffers on the ring buffer of the common package

Without an RTOS the buffers are ring buffers of another package. The functions here rely on
its interface and on what is assumed about it: one slot stays free, and a push into a full
buffer overwrites the oldest bytes.
-/

namespace UniHal.Io
open Foundations

/-- `uni_common_ringbuffer`, with the ring buffer that its context stands for. A pop is only
relied on for bytes that are there. -/
class CommonRingBuffer (R : Type*) where
  init : ℕ → Option R
  sizeTotal : R → ℕ
  sizeObject : R → ℕ
  length : R → ℕ
  push : R → List UInt8 → ℕ × R
  pop : R → ℕ → List UInt8 × R
  clear : R → Bool × R
  ring : R → RingBuffer UInt8
  ring_init : ∀ size r, init size = some r → (ring r).slots = size ∧ (ring r).items = []
  slots_eq : ∀ r, sizeTotal r / sizeObject r = (ring r).slots
  length_eq : ∀ r, length r = (ring r).length
  push_fst : ∀ r xs, (push r xs).1 = ((ring r).push xs).1
  ring_push : ∀ r xs, ring (push r xs).2 = ((ring r).push xs).2
  pop_fst : ∀ r n, n ≤ (ring r).length → (pop r n).1 = ((ring r).pop n).1
  ring_pop : ∀ r n, n ≤ (ring r).length → ring (pop r n).2 = ((ring r).pop n).2
  ring_clear : ∀ r, ring (clear r).2 = (ring r).clear

/-- The buffer in an array is one. -/
instance : CommonRingBuffer (CircularBuffer UInt8) where
  init size := if h : 0 < size then some (CircularBuffer.create size h fun _ => 0) else none
  sizeTotal := CircularBuffer.slots
  sizeObject _ := 1
  length := CircularBuffer.length
  push c xs := (xs.length, c.push xs)
  pop := CircularBuffer.pop
  clear c := (true, c.clear)
  ring := CircularBuffer.ring
  ring_init size r h := by
    split at h
    · cases h
      exact ⟨rfl, rfl⟩
    · cases h
  slots_eq c := Nat.div_one c.slots
  length_eq c := c.items_length.symm
  push_fst _ _ := rfl
  ring_push := CircularBuffer.ring_push
  pop_fst _ _ _ := rfl
  ring_pop c n _ := c.ring_pop n
  ring_clear := CircularBuffer.ring_clear

/-- `uni_hal_io_buffer_t` -/
structure IoBuffer (R : Type*) where
  handle : R

namespace IoBuffer
variable {R : Type*} [CommonRingBuffer R]
open CommonRingBuffer

def create (size : ℕ) : Option (IoBuffer R) := (CommonRingBuffer.init size).map IoBuffer.mk

def available (buf : IoBuffer R) : ℕ := length buf.handle

def reset (buf : IoBuffer R) : Bool × IoBuffer R :=
  let cleared := clear buf.handle
  (cleared.1, ⟨cleared.2⟩)

/-- The callers poll until their timeout, so the time to sleep is not used. -/
def read (buf : IoBuffer R) (dataLen : ℕ) (_waitMs : UInt32) : List UInt8 × IoBuffer R :=
  let available := length buf.handle
  let popped := pop buf.handle (if available < dataLen then available else dataLen)
  (popped.1, ⟨popped.2⟩)

def write (buf : IoBuffer R) (data : List UInt8) : ℕ × IoBuffer R :=
  let capacity := sizeTotal buf.handle / sizeObject buf.handle - 1
  let used := length buf.handle
  let space := if capacity > used then capacity - used else 0
  let pushed := push buf.handle (data.take (if space < data.length then space else data.length))
  (pushed.1, ⟨pushed.2⟩)

/-- On the ring that its handle stands for, a buffer is read as the ring is. -/
theorem ring_read (buf : IoBuffer R) (dataLen : ℕ) (waitMs : UInt32) :
    (buf.read dataLen waitMs).1 = (bufRead (ring buf.handle) dataLen waitMs).1 ∧
      ring (buf.read dataLen waitMs).2.handle = (bufRead (ring buf.handle) dataLen waitMs).2 := by
  have hle : (if length buf.handle < dataLen then length buf.handle else dataLen) =
      min (ring buf.handle).length dataLen := by
    rw [length_eq]
    split <;> omega
  simp only [read, hle, bufRead_eq]
  exact ⟨pop_fst _ _ (min_le_left _ _), ring_pop _ _ (min_le_left _ _)⟩

/-- And it is written as the ring is: what is pushed has space, whatever would be overwritten. -/
theorem ring_write (buf : IoBuffer R) (data : List UInt8) :
    (buf.write data).1 = (bufWrite (ring buf.handle) data).1 ∧
      ring (buf.write data).2.handle = (bufWrite (ring buf.handle) data).2 := by
  simp only [write, slots_eq, length_eq]
  exact ⟨push_fst _ _, ring_push _ _⟩

theorem queue_fits (buf : IoBuffer R) :
    (ring buf.handle).items.length ≤ (ring buf.handle).slots - 1 :=
  Nat.le_sub_one_of_lt (ring buf.handle).room

/-- The bytes of the buffer as a queue with a capacity of one less than the size. -/
def queue (buf : IoBuffer R) : BoundedQueue UInt8 :=
  ⟨(ring buf.handle).slots - 1, (ring buf.handle).items, buf.queue_fits⟩

theorem queue_create {size : ℕ} {buf : IoBuffer R} (h : create size = some buf) :
    buf.queue = BoundedQueue.empty UInt8 (size - 1) := by
  obtain ⟨r, hr, rfl⟩ := Option.map_eq_some_iff.mp h
  obtain ⟨hslots, hitems⟩ := ring_init size r hr
  apply BoundedQueue.ext
  · exact congrArg (· - 1) hslots
  · exact hitems

theorem queue_reset (buf : IoBuffer R) : buf.reset.2.queue = buf.queue.reset := by
  apply BoundedQueue.ext
  · simp only [queue, reset, ring_clear, RingBuffer.clear, BoundedQueue.reset]
  · simp only [queue, reset, ring_clear, RingBuffer.clear, BoundedQueue.reset]

theorem read_fst (buf : IoBuffer R) (dataLen : ℕ) (waitMs : UInt32) :
    (buf.read dataLen waitMs).1 = (buf.queue.receive dataLen).1 :=
  (buf.ring_read dataLen waitMs).1.trans (Buffer.read_fst (ring buf.handle) dataLen waitMs)

theorem queue_read (buf : IoBuffer R) (dataLen : ℕ) (waitMs : UInt32) :
    (buf.read dataLen waitMs).2.queue = (buf.queue.receive dataLen).2 := by
  have hring := (buf.ring_read dataLen waitMs).2
  apply BoundedQueue.ext
  · simp only [queue, hring, bufRead_slots]
    rfl
  · simp only [queue, hring]
    exact Buffer.bytes_read (ring buf.handle) dataLen waitMs

theorem write_fst (buf : IoBuffer R) (data : List UInt8) :
    (buf.write data).1 = (buf.queue.send data).1 := by
  rw [(buf.ring_write data).1, bufWrite_fst, min_comm]
  rfl

theorem queue_write (buf : IoBuffer R) (data : List UInt8) :
    (buf.write data).2.queue = (buf.queue.send data).2 := by
  have hring := (buf.ring_write data).2
  apply BoundedQueue.ext
  · simp only [queue, hring, bufWrite_slots]
    rfl
  · simp only [queue, hring, bufWrite_items, BoundedQueue.send_items, ← (buf.ring_write data).1,
      write_fst]

end IoBuffer

instance {R : Type*} [CommonRingBuffer R] : Buffer (IoBuffer R) where
  bytes buf := buf.queue.items
  available := IoBuffer.available
  reset buf := buf.reset.2
  read := IoBuffer.read
  write := IoBuffer.write
  available_eq buf := CommonRingBuffer.length_eq buf.handle
  bytes_reset buf := by rw [IoBuffer.queue_reset]; rfl
  read_fst := IoBuffer.read_fst
  bytes_read buf n w := by rw [IoBuffer.queue_read]; rfl
  bytes_write buf data := by
    rw [IoBuffer.queue_write, BoundedQueue.send_items, IoBuffer.write_fst]

end UniHal.Io
