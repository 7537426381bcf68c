import UniHal.Io.ReceiveSync
import UniHal.Io.RingBacked

/-! # One IO buffer as a bounded queue

The operations on one buffer as a step system, with `uni_hal_io_receive_data` cut into the
passes of its loop so that other operations come in between. The system runs on any kind of
buffer; on the ring buffer of the common package it does the same as on a queue that refuses
what does not fit.
-/

namespace UniHal.Io.Fifo
open Foundations Execution

/-- A call of `uni_hal_io_receive_data` with its local variables and what it has put at the
front of the array of its caller. -/
structure ReceiveCall where
  dataLen : ℕ
  timeout : UInt32
  tStart : UInt32
  received : ℕ
  data : List UInt8

/-- What an operation returns, next to what it was asked for. -/
inductive Output
  | written (data : List UInt8) (result : ℕ)
  | read (dataLen : ℕ) (data : List UInt8)
  | reset
  | received (dataLen result : ℕ) (data : List UInt8)

/-- One buffer. The last two fields record the history: every byte that was stored and every
byte that left the buffer. -/
structure State (B : Type*) where
  buf : B
  call : Option ReceiveCall
  outputs : List Output
  stored : List UInt8
  removed : List UInt8

inductive Op
  | write (data : List UInt8)
  | pushIsr (data : List UInt8)
  | popIsr (dataLen : ℕ)
  | read (dataLen : ℕ) (waitMs : UInt32)
  | reset
  | receiveData (dataLen : ℕ) (timeout now : UInt32)
  /-- one pass of the loop, with the two readings of the millisecond counter -/
  | poll (now later : UInt32)

variable {B : Type*} [Buffer B]

def bufferPushIsr (buf : B) (data : List UInt8) : ℕ × B := Buffer.write buf data

def bufferPopIsr (buf : B) (dataLen : ℕ) : List UInt8 × B := Buffer.read buf dataLen 0

def start (buf : B) : State B := ⟨buf, none, [], Buffer.bytes buf, []⟩

namespace State

def store (s : State B) (data : List UInt8) (written : ℕ × B) : State B :=
  { s with
    buf := written.2
    outputs := s.outputs ++ [.written data written.1]
    stored := s.stored ++ data.take written.1 }

def take (s : State B) (got : List UInt8 × B) : State B :=
  { s with buf := got.2, removed := s.removed ++ got.1 }

/-- One pass of the loop of `uni_hal_io_receive_data`. -/
def poll (s : State B) (c : ReceiveCall) (now later : UInt32) : State B :=
  let got := Buffer.read s.buf (c.dataLen - c.received) (waitMs c.timeout c.tStart now)
  let data := c.data.take c.received ++ got.1
  let received := c.received + got.1.length
  let s := s.take got
  if received ≥ c.dataLen ∨ later - c.tStart ≥ c.timeout then
    { s with call := none, outputs := s.outputs ++ [.received c.dataLen received data] }
  else { s with call := some { c with received := received, data := data } }

end State

def step (s : State B) : Op → Option (State B)
  | .write data => some (s.store data (Buffer.write s.buf data))
  | .pushIsr data => some (s.store data (bufferPushIsr s.buf data))
  | .popIsr dataLen =>
    let got := bufferPopIsr s.buf dataLen
    some { s.take got with outputs := s.outputs ++ [.read dataLen got.1] }
  | .read dataLen waitMs =>
    let got := Buffer.read s.buf dataLen waitMs
    some { s.take got with outputs := s.outputs ++ [.read dataLen got.1] }
  | .reset =>
    some { s.take (Buffer.bytes s.buf, Buffer.reset s.buf) with outputs := s.outputs ++ [.reset] }
  | .receiveData dataLen timeout now =>
    match s.call with
    | none => some { s with call := some ⟨dataLen, timeout, now, 0, []⟩ }
    | some _ => none
  | .poll now later =>
    match s.call with
    | none => none
    | some c => some (s.poll c now later)

/-- No call returns more than it was asked for, and a receive call returns what it delivered. -/
def Output.Sound : Output → Prop
  | .written _ _ => True
  | .read dataLen data => data.length ≤ dataLen
  | .reset => True
  | .received dataLen result data => result = data.length ∧ data.length ≤ dataLen

/-- Bytes leave in the order in which they came, and none is lost. -/
structure Orderly (s : State B) : Prop where
  flow : s.stored = s.removed ++ Buffer.bytes s.buf
  call : ∀ c, s.call = some c → c.received = c.data.length ∧ c.received ≤ c.dataLen
  outputs : ∀ out ∈ s.outputs, out.Sound

theorem sound_append {outputs : List Output} {out : Output} (h : ∀ o ∈ outputs, o.Sound)
    (hout : out.Sound) : ∀ o ∈ outputs ++ [out], o.Sound := by
  intro o ho
  rcases List.mem_append.mp ho with ho | ho
  · exact h o ho
  · rw [List.mem_singleton] at ho
    exact ho ▸ hout

theorem start_orderly (buf : B) : Orderly (start buf) where
  flow := rfl
  call _ h := nomatch h
  outputs _ h := nomatch h

theorem Orderly.store {s : State B} (hs : Orderly s) (data : List UInt8) :
    Orderly (s.store data (Buffer.write s.buf data)) where
  flow := by
    simp only [State.store, Buffer.bytes_write, hs.flow, List.append_assoc]
  call := hs.call
  outputs := sound_append hs.outputs trivial

theorem flow_read {s : State B} (hs : Orderly s) (dataLen : ℕ) (waitMs : UInt32) :
    (s.take (Buffer.read s.buf dataLen waitMs)).stored =
      (s.take (Buffer.read s.buf dataLen waitMs)).removed ++
        Buffer.bytes (s.take (Buffer.read s.buf dataLen waitMs)).buf := by
  simp only [State.take, Buffer.read_fst, Buffer.bytes_read, List.append_assoc,
    List.take_append_drop]
  exact hs.flow

theorem length_read_le (buf : B) (dataLen : ℕ) (waitMs : UInt32) :
    (Buffer.read buf dataLen waitMs).1.length ≤ dataLen := by
  rw [Buffer.read_fst]
  exact List.length_take_le dataLen _

theorem Orderly.read {s : State B} (hs : Orderly s) (dataLen : ℕ) (waitMs : UInt32) :
    Orderly { s.take (Buffer.read s.buf dataLen waitMs) with
      outputs := s.outputs ++ [.read dataLen (Buffer.read s.buf dataLen waitMs).1] } where
  flow := flow_read hs dataLen waitMs
  call := hs.call
  outputs := sound_append hs.outputs (length_read_le s.buf dataLen waitMs)

theorem Orderly.reset {s : State B} (hs : Orderly s) :
    Orderly { s.take (Buffer.bytes s.buf, Buffer.reset s.buf) with
      outputs := s.outputs ++ [.reset] } where
  flow := by
    simp only [State.take, Buffer.bytes_reset, List.append_nil]
    exact hs.flow
  call := hs.call
  outputs := sound_append hs.outputs trivial

theorem Orderly.poll {s : State B} (hs : Orderly s) {c : ReceiveCall} (hc : s.call = some c)
    (now later : UInt32) : Orderly (s.poll c now later) := by
  obtain ⟨hlen, hle⟩ := hs.call c hc
  have hflow := flow_read hs (c.dataLen - c.received) (waitMs c.timeout c.tStart now)
  have hread := length_read_le s.buf (c.dataLen - c.received) (waitMs c.timeout c.tStart now)
  have htake : c.data.take c.received = c.data := List.take_of_length_le hlen.ge
  simp only [State.poll, htake]
  split
  · constructor
    · exact hflow
    · exact fun _ h => nomatch h
    · apply sound_append hs.outputs
      simp only [Output.Sound, List.length_append]
      omega
  · constructor
    · exact hflow
    · intro c' hc'
      cases hc'
      simp only [List.length_append]
      omega
    · exact hs.outputs

theorem step_orderly (s : State B) (op : Op) (t : State B) (hs : Orderly s)
    (h : step s op = some t) : Orderly t := by
  cases op with
  | write data =>
    cases h
    exact hs.store data
  | pushIsr data =>
    cases h
    exact hs.store data
  | popIsr dataLen =>
    cases h
    exact hs.read dataLen 0
  | read dataLen waitMs =>
    cases h
    exact hs.read dataLen waitMs
  | reset =>
    cases h
    exact hs.reset
  | receiveData dataLen timeout now =>
    simp only [step] at h
    split at h
    · cases h
      constructor
      · exact hs.flow
      · intro c hc
        cases hc
        exact ⟨rfl, Nat.zero_le _⟩
      · exact hs.outputs
    · cases h
  | poll now later =>
    simp only [step] at h
    split at h
    · cases h
    · rename_i c hc
      cases h
      exact hs.poll hc now later

def State.view {R : Type*} [CommonRingBuffer R] (s : State (IoBuffer R)) :
    State (BoundedQueue UInt8) :=
  ⟨s.buf.queue, s.call, s.outputs, s.stored, s.removed⟩

section Refinement
variable {R : Type*} [CommonRingBuffer R] (s : State (IoBuffer R))

theorem write_fst_queue (data : List UInt8) :
    (Buffer.write s.buf data).1 = (Buffer.write s.view.buf data).1 := s.buf.write_fst data

theorem write_snd_queue (data : List UInt8) :
    (Buffer.write s.buf data).2.queue = (Buffer.write s.view.buf data).2 := s.buf.queue_write data

theorem read_fst_queue (dataLen : ℕ) (waitMs : UInt32) :
    (Buffer.read s.buf dataLen waitMs).1 = (Buffer.read s.view.buf dataLen waitMs).1 :=
  s.buf.read_fst dataLen waitMs

theorem read_snd_queue (dataLen : ℕ) (waitMs : UInt32) :
    (Buffer.read s.buf dataLen waitMs).2.queue = (Buffer.read s.view.buf dataLen waitMs).2 :=
  s.buf.queue_read dataLen waitMs

theorem view_store (data : List UInt8) :
    (s.store data (Buffer.write s.buf data)).view =
      s.view.store data (Buffer.write s.view.buf data) := by
  rw [State.store, State.store, ← write_fst_queue, ← write_snd_queue]
  rfl

theorem view_read (dataLen : ℕ) (waitMs : UInt32) :
    State.view { s.take (Buffer.read s.buf dataLen waitMs) with
        outputs := s.outputs ++ [.read dataLen (Buffer.read s.buf dataLen waitMs).1] } =
      { s.view.take (Buffer.read s.view.buf dataLen waitMs) with
        outputs :=
          s.view.outputs ++ [.read dataLen (Buffer.read s.view.buf dataLen waitMs).1] } := by
  simp only [State.take, ← read_fst_queue, ← read_snd_queue]
  rfl

theorem view_reset :
    State.view { s.take (Buffer.bytes s.buf, Buffer.reset s.buf) with
        outputs := s.outputs ++ [.reset] } =
      { s.view.take (Buffer.bytes s.view.buf, Buffer.reset s.view.buf) with
        outputs := s.view.outputs ++ [.reset] } := by
  have hbuf : (Buffer.reset s.buf).queue = Buffer.reset s.view.buf := s.buf.queue_reset
  simp only [State.take, ← hbuf]
  rfl

theorem view_poll (c : ReceiveCall) (now later : UInt32) :
    (s.poll c now later).view = s.view.poll c now later := by
  simp only [State.poll, State.take, ← read_fst_queue, ← read_snd_queue]
  split
  · rfl
  · rfl

/-- An operation on the ring buffer is the same operation on the queue. -/
theorem view_step (op : Op) : (step s op).map State.view = step s.view op := by
  cases op with
  | write data => exact congrArg some (view_store s data)
  | pushIsr data => exact congrArg some (view_store s data)
  | popIsr dataLen => exact congrArg some (view_read s dataLen 0)
  | read dataLen waitMs => exact congrArg some (view_read s dataLen waitMs)
  | reset => exact congrArg some (view_reset s)
  | receiveData dataLen timeout now =>
    change (match s.call with | none => _ | some _ => none : Option _).map State.view =
      match s.call with | none => _ | some _ => none
    cases s.call with
    | none => rfl
    | some c => rfl
  | poll now later =>
    change (match s.call with | none => none | some c => some (s.poll c now later)).map State.view =
      match s.call with | none => none | some c => some (s.view.poll c now later)
    cases s.call with
    | none => rfl
    | some c => exact congrArg some (view_poll s c now later)

end Refinement

/-- On a buffer of the given size every run goes as on a queue that holds one byte less and
refuses what does not fit; bytes leave in the order in which they were accepted. -/
theorem run_refines_queue {R : Type*} [CommonRingBuffer R] {size : ℕ} {buf : IoBuffer R}
    (hbuf : IoBuffer.create size = some buf) (ops : List Op) :
    (exec step (start buf) ops).map State.view =
        exec step (start (BoundedQueue.empty UInt8 (size - 1))) ops ∧
      ∀ s, exec step (start buf) ops = some s → Orderly s := by
  constructor
  · rw [exec_map view_step]
    congr 1
    have hqueue := IoBuffer.queue_create hbuf
    simp only [State.view, start, hqueue]
    rw [show Buffer.bytes buf = buf.queue.items from rfl, hqueue]
    rfl
  · intro s hrun
    exact exec_invariant_of_step step_orderly (start_orderly buf) hrun

/-- Seven bytes for a buffer of four, with the indices going round; a receive call takes two. -/
theorem run_refines_queue_wrapped :
    ((exec step (start (⟨CircularBuffer.create 4 (by decide) fun _ => 0⟩ :
        IoBuffer (CircularBuffer UInt8)))
      [.write [1, 2], .popIsr 1, .pushIsr [3, 4, 5], .receiveData 2 5 7, .poll 7 8,
        .write [6, 7]]).map State.view).map
          (fun s => (s.buf.items, s.stored, s.removed, s.outputs)) =
      some ([4, 6, 7], [1, 2, 3, 4, 6, 7], [1, 2, 3],
        [.written [1, 2] 2, .read 1 [1], .written [3, 4, 5] 2, .received 2 2 [2, 3],
          .written [6, 7] 2]) := by
  rw [(@run_refines_queue _ _ 4 _ rfl _).1]
  rfl

end UniHal.Io.Fifo
