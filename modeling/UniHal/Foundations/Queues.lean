import Mathlib.Tactic

/-! # Two bounded queues

A ring buffer keeps one of its slots free to tell full from empty, and pushing into a
full one overwrites the oldest elements. A bounded queue refuses what does not fit. Both
carry the bound on their contents, so a state with too many elements cannot be built.
-/

namespace UniHal.Foundations

variable {α : Type*}

/-- A ring buffer of `slots` slots, one of them always free. -/
@[ext]
structure RingBuffer (α : Type*) where
  slots : ℕ
  items : List α
  room : items.length < slots

namespace RingBuffer

def empty (α : Type*) (capacity : ℕ) : RingBuffer α := ⟨capacity + 1, [], Nat.succ_pos _⟩

abbrev length (rb : RingBuffer α) : ℕ := rb.items.length

def isFull (rb : RingBuffer α) : Bool := decide (rb.items.length + 1 = rb.slots)

def push (rb : RingBuffer α) (xs : List α) : ℕ × RingBuffer α :=
  (xs.length,
    { slots := rb.slots
      items := (rb.items ++ xs).drop ((rb.items ++ xs).length - (rb.slots - 1))
      room := by
        have := rb.room
        simp only [List.length_drop, List.length_append]
        omega })

/-- Take up to `n` of the oldest elements. -/
def pop (rb : RingBuffer α) (n : ℕ) : List α × RingBuffer α :=
  (rb.items.take n,
    { slots := rb.slots
      items := rb.items.drop n
      room := by
        have := rb.room
        simp only [List.length_drop]
        omega })

def clear (rb : RingBuffer α) : RingBuffer α :=
  ⟨rb.slots, [], Nat.zero_lt_of_lt rb.room⟩

@[simp] theorem push_fst (rb : RingBuffer α) (xs : List α) : (rb.push xs).1 = xs.length := rfl
@[simp] theorem push_slots (rb : RingBuffer α) (xs : List α) :
    (rb.push xs).2.slots = rb.slots := rfl
@[simp] theorem pop_fst (rb : RingBuffer α) (n : ℕ) : (rb.pop n).1 = rb.items.take n := rfl
@[simp] theorem pop_items (rb : RingBuffer α) (n : ℕ) : (rb.pop n).2.items = rb.items.drop n := rfl
theorem push_items {rb : RingBuffer α} {xs : List α} (h : rb.items.length + xs.length < rb.slots) :
    (rb.push xs).2.items = rb.items ++ xs := by
  have h0 : (rb.items ++ xs).length - (rb.slots - 1) = 0 := by
    simp only [List.length_append]
    omega
  simp only [push, h0, List.drop_zero]

theorem not_isFull_iff {rb : RingBuffer α} :
    rb.isFull = false ↔ rb.items.length + 1 < rb.slots := by
  have := rb.room
  simp only [isFull, decide_eq_false_iff_not]
  omega

end RingBuffer

/-- A queue that holds at most `capacity` elements and refuses more. -/
@[ext]
structure BoundedQueue (α : Type*) where
  capacity : ℕ
  items : List α
  fits : items.length ≤ capacity

namespace BoundedQueue

def empty (α : Type*) (capacity : ℕ) : BoundedQueue α := ⟨capacity, [], Nat.zero_le _⟩

def send (q : BoundedQueue α) (xs : List α) : ℕ × BoundedQueue α :=
  (min xs.length (q.capacity - q.items.length),
    { capacity := q.capacity
      items := q.items ++ xs.take (q.capacity - q.items.length)
      fits := by
        have := q.fits
        simp only [List.length_append, List.length_take]
        omega })

/-- Take up to `n` of the oldest elements. -/
def receive (q : BoundedQueue α) (n : ℕ) : List α × BoundedQueue α :=
  (q.items.take n,
    { capacity := q.capacity
      items := q.items.drop n
      fits := by
        have := q.fits
        simp only [List.length_drop]
        omega })

def reset (q : BoundedQueue α) : BoundedQueue α := ⟨q.capacity, [], Nat.zero_le _⟩

@[simp] theorem receive_fst (q : BoundedQueue α) (n : ℕ) : (q.receive n).1 = q.items.take n := rfl
@[simp] theorem receive_items (q : BoundedQueue α) (n : ℕ) :
    (q.receive n).2.items = q.items.drop n := rfl
theorem send_items (q : BoundedQueue α) (xs : List α) :
    (q.send xs).2.items = q.items ++ xs.take (q.send xs).1 := by
  simp only [send]
  rw [min_comm, ← List.take_take, List.take_length]

theorem send_one_iff (q : BoundedQueue α) (x : α) :
    ((q.send [x]).1 == 1) = true ↔ q.items.length ≠ q.capacity := by
  have := q.fits
  simp only [send, List.length_singleton, beq_iff_eq]
  omega

theorem send_one_items (q : BoundedQueue α) (x : α) :
    (q.send [x]).2.items = q.items ++ if (q.send [x]).1 == 1 then [x] else [] := by
  have := q.fits
  rw [send_items]
  by_cases hroom : q.items.length = q.capacity
  · simp [send, hroom]
  · have hone : min 1 (q.capacity - q.items.length) = 1 := by omega
    simp [send, hone]

theorem receive_one_fst (q : BoundedQueue α) : (q.receive 1).1.head? = q.items.head? := by
  cases h : q.items <;> simp [h]

theorem receive_one_items (q : BoundedQueue α) : (q.receive 1).2.items = q.items.tail :=
  List.drop_one

end BoundedQueue

end UniHal.Foundations
