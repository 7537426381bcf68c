import UniHal.Foundations.Queues

/-! # IO buffers

The buffers of an IO are FreeRTOS stream buffers when the library is built on the RTOS
and ring buffers otherwise. The functions above them see the same interface in both
builds, which is the class `Buffer`; its laws are proved here for both.
-/

namespace UniHal.Io
open Foundations

/-- The buffer operations that the IO functions are built on. -/
class Buffer (B : Type*) where
  /-- The unread bytes, the oldest one first. -/
  bytes : B → List UInt8
  available : B → ℕ
  reset : B → B
  read : B → ℕ → UInt32 → List UInt8 × B
  write : B → List UInt8 → ℕ × B
  available_eq : ∀ b, available b = (bytes b).length
  bytes_reset : ∀ b, bytes (reset b) = []
  read_fst : ∀ b n w, (read b n w).1 = (bytes b).take n
  bytes_read : ∀ b n w, bytes (read b n w).2 = (bytes b).drop n
  bytes_write : ∀ b data, bytes (write b data).2 = bytes b ++ data.take (write b data).1

attribute [simp] Buffer.available_eq Buffer.bytes_reset Buffer.read_fst Buffer.bytes_read
  Buffer.bytes_write

def bufAvailable (buf : RingBuffer UInt8) : ℕ := buf.length

def bufReset (buf : RingBuffer UInt8) : RingBuffer UInt8 := buf.clear

def bufRead (buf : RingBuffer UInt8) (dataLen : ℕ) (_waitMs : UInt32) :
    List UInt8 × RingBuffer UInt8 :=
  let available := buf.length
  buf.pop (if available < dataLen then available else dataLen)

def bufWrite (buf : RingBuffer UInt8) (data : List UInt8) : ℕ × RingBuffer UInt8 :=
  let capacity := buf.slots - 1
  let used := buf.length
  let space := if used < capacity then capacity - used else 0
  buf.push (data.take (if space < data.length then space else data.length))

theorem bufRead_eq (buf : RingBuffer UInt8) (dataLen : ℕ) (waitMs : UInt32) :
    bufRead buf dataLen waitMs = buf.pop (min buf.items.length dataLen) := by
  simp only [bufRead, RingBuffer.length]
  congr 1
  split <;> omega

theorem bufRead_slots (buf : RingBuffer UInt8) (dataLen : ℕ) (waitMs : UInt32) :
    (bufRead buf dataLen waitMs).2.slots = buf.slots := rfl

theorem bufWrite_slots (buf : RingBuffer UInt8) (data : List UInt8) :
    (bufWrite buf data).2.slots = buf.slots := rfl

theorem bufWrite_fst (buf : RingBuffer UInt8) (data : List UInt8) :
    (bufWrite buf data).1 = min (buf.slots - 1 - buf.items.length) data.length := by
  simp only [bufWrite, RingBuffer.length, RingBuffer.push_fst, List.length_take]
  split <;> split <;> omega

theorem bufWrite_items (buf : RingBuffer UInt8) (data : List UInt8) :
    (bufWrite buf data).2.items = buf.items ++ data.take (bufWrite buf data).1 := by
  have hroom := buf.room
  have hspace : (if buf.items.length < buf.slots - 1 then buf.slots - 1 - buf.items.length else 0) =
      buf.slots - 1 - buf.items.length := by
    split <;> omega
  rw [bufWrite_fst]
  simp only [bufWrite, RingBuffer.length, hspace]
  rw [RingBuffer.push_items]
  · congr 2
    split <;> omega
  · simp only [List.length_take]
    split <;> omega

instance : Buffer (RingBuffer UInt8) where
  bytes := RingBuffer.items
  available := bufAvailable
  reset := bufReset
  read := bufRead
  write := bufWrite
  available_eq _ := rfl
  bytes_reset _ := rfl
  read_fst b n w := by
    rw [bufRead_eq, RingBuffer.pop_fst, min_comm, ← List.take_take, List.take_length]
  bytes_read b n w := by
    rw [bufRead_eq, RingBuffer.pop_items]
    rcases Nat.le_total b.items.length n with h | h
    · rw [min_eq_left h, List.drop_length, List.drop_of_length_le h]
    · rw [min_eq_right h]
  bytes_write := bufWrite_items

instance : Buffer (BoundedQueue UInt8) where
  bytes := BoundedQueue.items
  available q := q.items.length
  reset := BoundedQueue.reset
  read q n _ := q.receive n
  write := BoundedQueue.send
  available_eq _ := rfl
  bytes_reset _ := rfl
  read_fst _ _ _ := rfl
  bytes_read _ _ _ := rfl
  bytes_write := BoundedQueue.send_items

end UniHal.Io
