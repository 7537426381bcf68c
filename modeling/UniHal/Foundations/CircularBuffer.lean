import UniHal.Foundations.Queues

/-! # A ring buffer in an array

The array is written at `head` and read at `tail`, and both indices go round. Equal indices
mean that the buffer is empty, so one slot stays free, and a push that would close the circle
moves `tail` on. Whatever the position of the indices is, this is a ring buffer.
-/

namespace UniHal.Foundations

variable {α : Type*}

def wrap (slots i : ℕ) : ℕ := if i < slots then i else i - slots

theorem wrap_lt {slots i : ℕ} (hi : i < 2 * slots) : wrap slots i < slots := by
  rw [wrap]
  split <;> omega

theorem wrap_wrap_add {slots i j : ℕ} (h : i + j < 2 * slots) :
    wrap slots (wrap slots i + j) = wrap slots (i + j) := by
  simp only [wrap]
  split_ifs <;> omega

structure CircularBuffer (α : Type*) where
  slots : ℕ
  cells : ℕ → α
  head : ℕ
  tail : ℕ
  head_lt : head < slots
  tail_lt : tail < slots

namespace CircularBuffer

/-- The number of cells from the oldest element to the place of the next one. -/
def length (c : CircularBuffer α) : ℕ :=
  if c.tail ≤ c.head then c.head - c.tail else c.head + c.slots - c.tail

theorem length_lt (c : CircularBuffer α) : c.length < c.slots := by
  have := c.head_lt
  have := c.tail_lt
  rw [length]
  split <;> omega

def items (c : CircularBuffer α) : List α :=
  (List.range c.length).map fun k => c.cells (wrap c.slots (c.tail + k))

@[simp] theorem items_length (c : CircularBuffer α) : c.items.length = c.length := by
  rw [items, List.length_map, List.length_range]

theorem items_getElem (c : CircularBuffer α) {k : ℕ} (hk : k < c.items.length) :
    c.items[k] = c.cells (wrap c.slots (c.tail + k)) := by
  simp [items]

def ring (c : CircularBuffer α) : RingBuffer α :=
  ⟨c.slots, c.items, c.items_length.trans_lt c.length_lt⟩

def create (slots : ℕ) (h : 0 < slots) (cells : ℕ → α) : CircularBuffer α :=
  ⟨slots, cells, 0, 0, h, h⟩

def nextTail (c : CircularBuffer α) : ℕ :=
  if wrap c.slots (c.head + 1) = c.tail then wrap c.slots (c.tail + 1) else c.tail

theorem nextHead_lt (c : CircularBuffer α) : wrap c.slots (c.head + 1) < c.slots := by
  have := c.head_lt
  exact wrap_lt (by omega)

theorem nextTail_lt (c : CircularBuffer α) : c.nextTail < c.slots := by
  have := c.tail_lt
  rw [nextTail]
  split
  · exact wrap_lt (by omega)
  · exact c.tail_lt

def pushOne (c : CircularBuffer α) (x : α) : CircularBuffer α where
  slots := c.slots
  cells := Function.update c.cells c.head x
  head := wrap c.slots (c.head + 1)
  tail := c.nextTail
  head_lt := c.nextHead_lt
  tail_lt := c.nextTail_lt

def push (c : CircularBuffer α) (xs : List α) : CircularBuffer α := xs.foldl pushOne c

theorem popTail_lt (c : CircularBuffer α) (n : ℕ) :
    wrap c.slots (c.tail + min n c.length) < c.slots := by
  have := c.tail_lt
  have := c.length_lt
  exact wrap_lt (by omega)

/-- Take up to `n` of the oldest elements. -/
def pop (c : CircularBuffer α) (n : ℕ) : List α × CircularBuffer α :=
  (c.items.take n,
    { c with tail := wrap c.slots (c.tail + min n c.length), tail_lt := c.popTail_lt n })

def clear (c : CircularBuffer α) : CircularBuffer α :=
  { c with tail := c.head, tail_lt := c.head_lt }

theorem wrap_add_length (c : CircularBuffer α) : wrap c.slots (c.tail + c.length) = c.head := by
  have := c.head_lt
  have := c.tail_lt
  simp only [wrap, length]
  split_ifs <;> omega

theorem wrap_add_ne_head (c : CircularBuffer α) {k : ℕ} (hk : k < c.length) :
    wrap c.slots (c.tail + k) ≠ c.head := by
  have := c.head_lt
  have := c.tail_lt
  simp only [length] at hk
  simp only [wrap]
  split_ifs at * <;> omega

/-- A push moves `tail` on by the one element that there is no room for. -/
theorem nextTail_eq (c : CircularBuffer α) :
    c.nextTail = wrap c.slots (c.tail + (c.length + 1 - (c.slots - 1))) := by
  have := c.head_lt
  have := c.tail_lt
  simp only [nextTail, wrap, length]
  split_ifs <;> omega

theorem pushOne_length (c : CircularBuffer α) (x : α) :
    (c.pushOne x).length = min (c.length + 1) (c.slots - 1) := by
  have := c.head_lt
  have := c.tail_lt
  simp only [length, pushOne, nextTail, wrap]
  split_ifs <;> omega

/-- The last `n` elements of a list. -/
def newest (n : ℕ) (l : List α) : List α := l.drop (l.length - n)

/-- Pushing one element appends it and keeps as many of the newest ones as there is room for. -/
theorem pushOne_items (c : CircularBuffer α) (x : α) :
    (c.pushOne x).items = newest (c.slots - 1) (c.items ++ [x]) := by
  have hhead := c.head_lt
  have htail := c.tail_lt
  have hlt := c.length_lt
  have hlen := c.pushOne_length x
  rw [newest]
  apply List.ext_getElem
  · simp only [items_length, hlen, List.length_drop, List.length_append, List.length_singleton]
    omega
  · intro k hk hk'
    rw [items_length, hlen] at hk
    rw [items_getElem, List.getElem_drop]
    simp only [List.length_append, items_length, List.length_singleton]
    have hpos : wrap (c.pushOne x).slots ((c.pushOne x).tail + k) =
        wrap c.slots (c.tail + (c.length + 1 - (c.slots - 1) + k)) := by
      change wrap c.slots (c.nextTail + k) = _
      rw [nextTail_eq, wrap_wrap_add (by omega), Nat.add_assoc]
    rw [hpos]
    by_cases hlast : c.length + 1 - (c.slots - 1) + k = c.length
    · have hhere : wrap c.slots (c.tail + (c.length + 1 - (c.slots - 1) + k)) = c.head := by
        rw [hlast, wrap_add_length]
      rw [hhere, List.getElem_append_right (by rw [items_length]; omega)]
      simp [pushOne]
    · have hne := c.wrap_add_ne_head (show c.length + 1 - (c.slots - 1) + k < c.length by omega)
      rw [List.getElem_append_left (by rw [items_length]; omega), items_getElem]
      exact Function.update_of_ne hne _ _

/-- What the front of a list loses at first it would have lost at last. -/
theorem newest_append (n : ℕ) (l m : List α) : newest n (newest n l ++ m) = newest n (l ++ m) := by
  have hle : l.length - n ≤ l.length := Nat.sub_le _ _
  rw [newest, newest, newest, ← List.drop_append_of_le_length hle, List.drop_drop]
  congr 1
  simp only [List.length_drop, List.length_append]
  omega

theorem newest_items (c : CircularBuffer α) : newest (c.slots - 1) c.items = c.items := by
  have hlt := c.length_lt
  have hzero : c.items.length - (c.slots - 1) = 0 := by
    rw [items_length]
    omega
  rw [newest, hzero, List.drop_zero]

theorem push_items (c : CircularBuffer α) (xs : List α) :
    (c.push xs).items = newest (c.slots - 1) (c.items ++ xs) := by
  induction xs generalizing c with
  | nil => rw [push, List.foldl_nil, List.append_nil, newest_items]
  | cons x xs ih =>
    calc (c.push (x :: xs)).items = ((c.pushOne x).push xs).items := rfl
      _ = newest (c.slots - 1) ((c.pushOne x).items ++ xs) := ih (c.pushOne x)
      _ = newest (c.slots - 1) (c.items ++ x :: xs) := by
        rw [pushOne_items, newest_append, List.append_assoc, List.singleton_append]

theorem push_slots (c : CircularBuffer α) (xs : List α) : (c.push xs).slots = c.slots := by
  induction xs generalizing c with
  | nil => rfl
  | cons x xs ih => exact ih (c.pushOne x)

theorem pop_length (c : CircularBuffer α) (n : ℕ) : (c.pop n).2.length = c.length - n := by
  have := c.head_lt
  have := c.tail_lt
  simp only [length, pop, wrap]
  split_ifs <;> omega

theorem pop_items (c : CircularBuffer α) (n : ℕ) : (c.pop n).2.items = c.items.drop n := by
  have hhead := c.head_lt
  have htail := c.tail_lt
  apply List.ext_getElem
  · rw [items_length, pop_length, List.length_drop, items_length]
  · intro k hk hk'
    rw [items_length, pop_length] at hk
    rw [items_getElem, List.getElem_drop, items_getElem]
    have hlt := c.length_lt
    have hpos : wrap c.slots ((c.pop n).2.tail + k) = wrap c.slots (c.tail + (n + k)) := by
      change wrap c.slots (wrap c.slots (c.tail + min n c.length) + k) = _
      rw [Nat.min_eq_left (by omega), wrap_wrap_add (by omega), Nat.add_assoc]
    exact congrArg c.cells hpos

theorem clear_items (c : CircularBuffer α) : c.clear.items = [] := by
  apply List.eq_nil_of_length_eq_zero
  simp [length, clear]

/-! The operations as those of the ring buffer. -/

theorem ring_push (c : CircularBuffer α) (xs : List α) :
    (c.push xs).ring = (c.ring.push xs).2 :=
  RingBuffer.ext (c.push_slots xs) (c.push_items xs)

theorem ring_pop (c : CircularBuffer α) (n : ℕ) : (c.pop n).2.ring = (c.ring.pop n).2 :=
  RingBuffer.ext rfl (c.pop_items n)

theorem ring_clear (c : CircularBuffer α) : c.clear.ring = c.ring.clear :=
  RingBuffer.ext rfl c.clear_items

end CircularBuffer
end UniHal.Foundations
