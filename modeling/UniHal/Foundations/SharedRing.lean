import UniHal.Foundations.CircularBuffer

/-! # A circular buffer between two programs

The producer fills free cells one after another and moves `head` over them when it likes; the
consumer copies used cells one after another and moves `tail` over them when it likes. The single
accesses of the two come in any order, and neither ever waits.
-/

namespace UniHal.Foundations

variable {α : Type*}

namespace CircularBuffer
variable {c : CircularBuffer α}

/-- The free cells, counted from `head` on. -/
def free (c : CircularBuffer α) (k : ℕ) : α := c.cells (wrap c.slots (c.head + k))

def fill (c : CircularBuffer α) (k : ℕ) (x : α) : CircularBuffer α :=
  { c with cells := Function.update c.cells (wrap c.slots (c.head + k)) x }

theorem advance_lt (c : CircularBuffer α) (n : ℕ) :
    wrap c.slots (c.head + min n (c.slots - 1 - c.length)) < c.slots := by
  have := c.head_lt
  exact wrap_lt (by omega)

/-- `head` moves over the first `n` free cells. -/
def advance (c : CircularBuffer α) (n : ℕ) : CircularBuffer α :=
  { c with
    head := wrap c.slots (c.head + min n (c.slots - 1 - c.length))
    head_lt := c.advance_lt n }

theorem wrap_tail_ne_wrap_head {j k : ℕ} (hj : j < c.length) (hk : c.length + k < c.slots) :
    wrap c.slots (c.tail + j) ≠ wrap c.slots (c.head + k) := by
  have := c.head_lt
  have := c.tail_lt
  simp only [length] at hj hk
  simp only [wrap]
  split_ifs at * <;> omega

theorem wrap_head_ne_wrap_head {j k : ℕ} (hj : j < c.slots) (hk : k < c.slots) (hne : j ≠ k) :
    wrap c.slots (c.head + j) ≠ wrap c.slots (c.head + k) := by
  have := c.head_lt
  simp only [wrap]
  split_ifs <;> omega

theorem fill_items {k : ℕ} (hk : c.length + k < c.slots) (x : α) :
    (c.fill k x).items = c.items := by
  apply List.map_congr_left
  intro j hj
  exact Function.update_of_ne (wrap_tail_ne_wrap_head (List.mem_range.mp hj) hk) _ _

theorem fill_free {j k : ℕ} (hj : j < c.slots) (hk : k < c.slots) (x : α) :
    (c.fill k x).free j = if j = k then x else c.free j := by
  split
  · rename_i heq
    subst heq
    exact Function.update_self ..
  · rename_i hne
    exact Function.update_of_ne (wrap_head_ne_wrap_head hj hk hne) _ _

theorem advance_length {n : ℕ} (hn : c.length + n < c.slots) :
    (c.advance n).length = c.length + n := by
  have := c.head_lt
  have := c.tail_lt
  simp only [length] at hn
  simp only [length, advance, wrap]
  split_ifs at * <;> omega

theorem advance_free {k n : ℕ} (hn : c.length + (n + k) < c.slots) :
    (c.advance n).free k = c.free (n + k) := by
  have := c.head_lt
  have hpos : wrap c.slots ((c.advance n).head + k) = wrap c.slots (c.head + (n + k)) := by
    change wrap c.slots (wrap c.slots (c.head + min n (c.slots - 1 - c.length)) + k) = _
    rw [Nat.min_eq_left (by omega), wrap_wrap_add (by omega), Nat.add_assoc]
  exact congrArg c.cells hpos

/-- The cells that `head` moves over come behind the used ones. -/
theorem advance_items {n : ℕ} (hn : c.length + n < c.slots) :
    (c.advance n).items = c.items ++ (List.range n).map c.free := by
  have hhead := c.head_lt
  have htail := c.tail_lt
  have hpos (k : ℕ) (hk : k < n) :
      wrap c.slots (c.tail + (c.length + k)) = wrap c.slots (c.head + k) := by
    rw [← Nat.add_assoc, ← c.wrap_add_length, wrap_wrap_add (by omega)]
  rw [items, advance_length hn, List.range_add, List.map_append, List.map_map]
  congr 1
  apply List.map_congr_left
  intro k hk
  exact congrArg c.cells (hpos k (List.mem_range.mp hk))

end CircularBuffer

/-- The buffer with what its producer has filled and not released, what its consumer has copied and
not given back, and what went in and out so far. -/
structure SharedRing (α : Type*) where
  buffer : CircularBuffer α
  filled : List α := []
  copied : List α := []
  sent : List α := []
  received : List α := []

namespace SharedRing

def fill (x : α) (r : SharedRing α) : SharedRing α :=
  { r with buffer := r.buffer.fill r.filled.length x, filled := r.filled ++ [x] }

/-- The producer moves `head` over cells that it has filled. -/
def send (n : ℕ) (r : SharedRing α) : SharedRing α :=
  { r with
    buffer := r.buffer.advance n
    filled := r.filled.drop n
    sent := r.sent ++ r.filled.take n }

def copy (x : α) (r : SharedRing α) : SharedRing α := { r with copied := r.copied ++ [x] }

/-- The consumer moves `tail` over cells that it has copied. -/
def receive (n : ℕ) (r : SharedRing α) : SharedRing α :=
  { r with
    buffer := (r.buffer.pop n).2
    copied := r.copied.drop n
    received := r.received ++ r.copied.take n }

/-- What each program has in hand agrees with the cells, and nothing is lost on the way. -/
structure Sound (r : SharedRing α) : Prop where
  room : r.buffer.length + r.filled.length < r.buffer.slots
  filled : r.filled = (List.range r.filled.length).map r.buffer.free
  copied : r.copied = r.buffer.items.take r.copied.length
  conveyed : r.sent = r.received ++ r.buffer.items

variable {r : SharedRing α}

theorem sound_empty {c : CircularBuffer α} (h : c.items = []) :
    Sound ({ buffer := c } : SharedRing α) where
  room := c.length_lt
  filled := rfl
  copied := rfl
  conveyed := h.symm

theorem Sound.copied_le (h : r.Sound) : r.copied.length ≤ r.buffer.length := by
  have hlen := congrArg List.length h.copied
  rw [List.length_take, CircularBuffer.items_length] at hlen
  omega

theorem Sound.fill (h : r.Sound) (hroom : r.buffer.length + r.filled.length + 1 < r.buffer.slots)
    (x : α) : (r.fill x).Sound := by
  have hitems : (r.buffer.fill r.filled.length x).items = r.buffer.items :=
    CircularBuffer.fill_items (by omega) x
  have hfree (j : ℕ) (hj : j ≤ r.filled.length) :
      (r.buffer.fill r.filled.length x).free j =
        if j = r.filled.length then x else r.buffer.free j :=
    CircularBuffer.fill_free (by omega) (by omega) x
  constructor
  · change r.buffer.length + (r.filled ++ [x]).length < r.buffer.slots
    rw [List.length_append, List.length_singleton]
    exact hroom
  · change r.filled ++ [x] = (List.range (r.filled ++ [x]).length).map
      (r.buffer.fill r.filled.length x).free
    rw [List.length_append, List.length_singleton, List.range_succ, List.map_append,
      List.map_singleton, hfree _ le_rfl, if_pos rfl]
    conv_lhs => rw [h.filled]
    congr 1
    apply List.map_congr_left
    intro j hj
    have hlt := List.mem_range.mp hj
    rw [hfree j hlt.le, if_neg hlt.ne]
  · change r.copied = (r.buffer.fill r.filled.length x).items.take r.copied.length
    rw [hitems]
    exact h.copied
  · change r.sent = r.received ++ (r.buffer.fill r.filled.length x).items
    rw [hitems]
    exact h.conveyed

theorem Sound.send (h : r.Sound) {n : ℕ} (hn : n ≤ r.filled.length) : (r.send n).Sound := by
  have hroom := h.room
  have hsplit : r.filled.length = n + (r.filled.length - n) := by omega
  have hitems := CircularBuffer.advance_items (show r.buffer.length + n < r.buffer.slots by omega)
  have hfilled := h.filled
  rw [hsplit, List.range_add, List.map_append, List.map_map] at hfilled
  have htake : r.filled.take n = (List.range n).map r.buffer.free := by
    rw [hfilled, List.take_append_of_le_length (by simp)]
    exact List.take_of_length_le (by simp)
  constructor
  · change (r.buffer.advance n).length + (r.filled.drop n).length < r.buffer.slots
    rw [CircularBuffer.advance_length (by omega), List.length_drop]
    omega
  · change r.filled.drop n = (List.range (r.filled.drop n).length).map (r.buffer.advance n).free
    rw [List.length_drop]
    conv_lhs => rw [hfilled, List.drop_append_of_le_length (by simp),
      List.drop_of_length_le (by simp), List.nil_append]
    apply List.map_congr_left
    intro k hk
    have hlt := List.mem_range.mp hk
    exact (CircularBuffer.advance_free (by omega)).symm
  · change r.copied = (r.buffer.advance n).items.take r.copied.length
    rw [hitems, List.take_append_of_le_length (by
      rw [CircularBuffer.items_length]
      exact h.copied_le)]
    exact h.copied
  · change r.sent ++ r.filled.take n = r.received ++ (r.buffer.advance n).items
    rw [hitems, h.conveyed, htake, List.append_assoc]

/-- The element that the consumer copies is the next used one. -/
theorem Sound.copy (h : r.Sound) {x : α} (hx : r.buffer.items[r.copied.length]? = some x) :
    (r.copy x).Sound := by
  refine { h with copied := ?_ }
  change r.copied ++ [x] = r.buffer.items.take (r.copied ++ [x]).length
  rw [List.length_append, List.length_singleton, List.take_add_one, ← h.copied, hx]
  rfl

theorem Sound.receive (h : r.Sound) {n : ℕ} (hn : n ≤ r.copied.length) :
    (r.receive n).Sound := by
  have hroom := h.room
  have htake : r.copied.take n = r.buffer.items.take n := by
    rw [h.copied, List.take_take, Nat.min_eq_left hn]
  constructor
  · change (r.buffer.pop n).2.length + r.filled.length < r.buffer.slots
    rw [CircularBuffer.pop_length]
    omega
  · exact h.filled
  · change r.copied.drop n = (r.buffer.pop n).2.items.take (r.copied.drop n).length
    rw [CircularBuffer.pop_items, List.length_drop, ← List.drop_take, ← h.copied]
  · change r.sent = r.received ++ r.copied.take n ++ (r.buffer.pop n).2.items
    rw [CircularBuffer.pop_items, htake, List.append_assoc, List.take_append_drop]
    exact h.conveyed

end SharedRing
end UniHal.Foundations
