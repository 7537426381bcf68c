import UniHal.Foundations.Execution
import UniHal.Io.Buffer

/-! # Receiving from an IO

The receive side of one IO as a step system. The RX interrupt stores bytes at any time;
one task at a time runs a receive call, and each pass of its loop is one step, so bytes
can arrive and the millisecond counter can move between any two passes. An index outside
the pattern array leads to the state `fault`, from which nothing continues.
-/

namespace UniHal.Io

/-- `memcmp(data, &data[off], n) == 0`, undefined outside the array. -/
def memcmpPattern (data : List UInt8) (off n : ℕ) : Option Bool :=
  if off + n ≤ data.length then some (decide (data.take n = (data.drop off).take n)) else none

/-- The loop over `keep`, from the given value down to zero. -/
def overlapIdx (data : List UInt8) (matchIdx : ℕ) (ch : UInt8) : ℕ → Option ℕ
  | 0 => some 0
  | keep + 1 =>
    match data[keep]? with
    | none => none
    | some d =>
      if ch = d then
        match memcmpPattern data (matchIdx - keep) keep with
        | none => none
        | some true => some (keep + 1)
        | some false => overlapIdx data matchIdx ch keep
      else overlapIdx data matchIdx ch keep

inductive SyncByte
  | fault
  | found
  | next (matchIdx : ℕ)
  deriving DecidableEq, Repr

def syncByte (data : List UInt8) (matchIdx : ℕ) (ch : UInt8) : SyncByte :=
  match data[matchIdx]? with
  | none => .fault
  | some d =>
    if ch = d then
      if matchIdx + 1 = data.length then .found else .next (matchIdx + 1)
    else
      match overlapIdx data matchIdx ch matchIdx with
      | none => .fault
      | some n => .next n

/-- The receive call that the task is in, with its local variables. -/
inductive Call
  | idle
  | sync (data : List UInt8) (timeout tStart : UInt32) (matchIdx : ℕ)
  | receive (dataLen : ℕ) (timeout tStart : UInt32) (received : ℕ)
  | fault
  deriving DecidableEq, Repr

/-- A receive call that has returned, with the number of bytes taken from the buffer so far. -/
inductive Return
  | sync (data : List UInt8) (result : Bool) (count : ℕ)
  | receive (received : ℕ) (count : ℕ)
  deriving DecidableEq, Repr

/-- One IO. The last four fields record the history: every byte that was stored, every byte
taken with its position in that stream, the position of the oldest unread byte, and the
calls that returned. -/
structure Ctx (B : Type*) where
  bufRx : B
  syncIdx : ℕ
  call : Call
  stream : List UInt8
  taken : List (UInt8 × ℕ)
  pos : ℕ
  returns : List Return

inductive Action
  /-- the RX interrupt hands bytes to `uni_hal_io_buffer_push_isr` -/
  | pushIsr (data : List UInt8)
  | receiveSync (data : List UInt8) (timeout now : UInt32)
  | receiveData (dataLen : ℕ) (timeout now : UInt32)
  /-- a stream buffer refuses to be reset while a task waits on it -/
  | receiveClear (accepted : Bool)
  /-- one pass of the loop, with the two readings of the millisecond counter -/
  | poll (now later : UInt32)
  deriving DecidableEq, Repr

variable {B : Type*} [Buffer B]

/-- `uni_hal_io_init` on an empty or a preloaded buffer. -/
def init (b : B) : Ctx B :=
  { bufRx := b, syncIdx := 0, call := .idle, stream := Buffer.bytes b, taken := [], pos := 0,
    returns := [] }

def waitMs (timeout tStart now : UInt32) : UInt32 :=
  let elapsed := now - tStart
  if elapsed < timeout then timeout - elapsed else 0

def Ctx.take (s : Ctx B) (bytes : List UInt8) (buf : B) : Ctx B :=
  { s with bufRx := buf, taken := s.taken ++ bytes.zipIdx s.pos, pos := s.pos + bytes.length }

def Ctx.finish (s : Ctx B) (syncIdx : ℕ) (r : Return) : Ctx B :=
  { s with syncIdx := syncIdx, call := .idle, returns := s.returns ++ [r] }

def Ctx.goto (s : Ctx B) (call : Call) : Ctx B := { s with call := call }

def Ctx.onByte (s : Ctx B) (data : List UInt8) (timeout tStart : UInt32) : SyncByte → Ctx B
  | .fault => s.goto .fault
  | .found => s.finish 0 (.sync data true s.taken.length)
  | .next n => s.goto (.sync data timeout tStart n)

/-- One pass of the loop of `uni_hal_io_receive_sync`. -/
def pollSync (s : Ctx B) (data : List UInt8) (timeout tStart : UInt32) (matchIdx : ℕ)
    (now later : UInt32) : Ctx B :=
  let got := Buffer.read s.bufRx 1 (waitMs timeout tStart now)
  match got.1 with
  | [] =>
    if timeout ≤ later - tStart then s.finish matchIdx (.sync data false s.taken.length) else s
  | ch :: _ => (s.take [ch] got.2).onByte data timeout tStart (syncByte data matchIdx ch)

/-- One pass of the loop of `uni_hal_io_receive_data`. -/
def pollReceive (s : Ctx B) (dataLen : ℕ) (timeout tStart : UInt32) (received : ℕ)
    (now later : UInt32) : Ctx B :=
  let got := Buffer.read s.bufRx (dataLen - received) (waitMs timeout tStart now)
  let s := s.take got.1 got.2
  let received := received + got.1.length
  if dataLen ≤ received ∨ timeout ≤ later - tStart then
    s.finish s.syncIdx (.receive received s.taken.length)
  else s.goto (.receive dataLen timeout tStart received)

def step (s : Ctx B) : Action → Option (Ctx B)
  | .pushIsr data =>
    let stored := Buffer.write s.bufRx data
    some { s with bufRx := stored.2, stream := s.stream ++ data.take stored.1 }
  | .receiveSync data timeout now =>
    match s.call with
    | .idle =>
      if data = [] then some (s.finish s.syncIdx (.sync data false s.taken.length))
      else some (s.goto (.sync data timeout now s.syncIdx))
    | _ => none
  | .receiveData dataLen timeout now =>
    match s.call with
    | .idle => some (s.goto (.receive dataLen timeout now 0))
    | _ => none
  | .receiveClear accepted =>
    match s.call with
    | .idle =>
      if accepted then
        some { s with
          syncIdx := 0, bufRx := Buffer.reset s.bufRx, pos := s.pos + Buffer.available s.bufRx }
      else some { s with syncIdx := 0 }
    | _ => none
  | .poll now later =>
    match s.call with
    | .sync data timeout tStart matchIdx =>
      some (pollSync s data timeout tStart matchIdx now later)
    | .receive dataLen timeout tStart received =>
      some (pollReceive s dataLen timeout tStart received now later)
    | _ => none

def Ctx.consumed (s : Ctx B) : List UInt8 := s.taken.map Prod.fst

section Fields
omit [Buffer B]
variable (s : Ctx B) (syncIdx : ℕ) (r : Return) (call : Call) (bytes : List UInt8) (buf : B)

@[simp] theorem finish_consumed : (s.finish syncIdx r).consumed = s.consumed := rfl
@[simp] theorem finish_returns : (s.finish syncIdx r).returns = s.returns ++ [r] := rfl
@[simp] theorem finish_call : (s.finish syncIdx r).call = .idle := rfl
@[simp] theorem finish_syncIdx : (s.finish syncIdx r).syncIdx = syncIdx := rfl
@[simp] theorem finish_stream : (s.finish syncIdx r).stream = s.stream := rfl
@[simp] theorem finish_bufRx : (s.finish syncIdx r).bufRx = s.bufRx := rfl
@[simp] theorem goto_consumed : (s.goto call).consumed = s.consumed := rfl
@[simp] theorem goto_returns : (s.goto call).returns = s.returns := rfl
@[simp] theorem goto_call : (s.goto call).call = call := rfl
@[simp] theorem goto_stream : (s.goto call).stream = s.stream := rfl
@[simp] theorem goto_bufRx : (s.goto call).bufRx = s.bufRx := rfl
@[simp] theorem take_returns : (s.take bytes buf).returns = s.returns := rfl
@[simp] theorem take_stream : (s.take bytes buf).stream = s.stream := rfl
@[simp] theorem take_bufRx : (s.take bytes buf).bufRx = buf := rfl
@[simp] theorem take_call : (s.take bytes buf).call = s.call := rfl
@[simp] theorem take_pos : (s.take bytes buf).pos = s.pos + bytes.length := rfl
@[simp] theorem take_taken : (s.take bytes buf).taken = s.taken ++ bytes.zipIdx s.pos := rfl
@[simp] theorem finish_taken : (s.finish syncIdx r).taken = s.taken := rfl
@[simp] theorem take_consumed : (s.take bytes buf).consumed = s.consumed ++ bytes := by
  simp [Ctx.take, Ctx.consumed]

theorem taken_length : s.taken.length = s.consumed.length := by
  simp [Ctx.consumed]

end Fields

/-- A pass either finds the buffer empty, and gives up or not, or takes the oldest byte. -/
theorem pollSync_cases (s : Ctx B) (data : List UInt8) (timeout tStart : UInt32) (m : ℕ)
    (now later : UInt32) :
    (Buffer.bytes s.bufRx = [] ∧ pollSync s data timeout tStart m now later =
      if timeout ≤ later - tStart then s.finish m (.sync data false s.taken.length) else s) ∨
    (∃ ch rest buf, Buffer.bytes s.bufRx = ch :: rest ∧ Buffer.bytes buf = rest ∧
      pollSync s data timeout tStart m now later =
        (s.take [ch] buf).onByte data timeout tStart (syncByte data m ch)) := by
  cases h : Buffer.bytes s.bufRx with
  | nil => exact .inl ⟨rfl, by simp [pollSync, h]⟩
  | cons ch rest =>
    refine .inr ⟨ch, rest, (Buffer.read s.bufRx 1 (waitMs timeout tStart now)).2, rfl, ?_, ?_⟩
    · simp [h]
    · simp [pollSync, h]

end UniHal.Io
