import UniHal.Can.Fdcan.MessageRam
import UniHal.Can.Receive

/-! # Receive FIFOs of FDCAN

A receive FIFO is a ring of elements in the message RAM. The status register has the fill
level and the index of the oldest element, and an acknowledge hands back the elements up to
the given one. A frame that finds the FIFO full is lost.
-/

namespace UniHal.Can.Fdcan

/-- The elements of one RX FIFO, and `RXF0S` or `RXF1S`. -/
structure RxFifo (build : Build) where
  elements : Fin rxFifoSize → Element
  getIndex : Fin rxFifoSize
  fillLevel : ℕ
  fits : fillLevel ≤ rxFifoSize

namespace RxFifo
instance : NeZero rxFifoSize := ⟨by decide⟩

variable {build : Build} (fifo : RxFifo build)

def empty (build : Build) : RxFifo build :=
  { elements := fun _ _ => 0, getIndex := 0, fillLevel := 0, fits := Nat.zero_le _ }

def place (offset : ℕ) : Fin rxFifoSize := fifo.getIndex + Fin.ofNat rxFifoSize offset

def contents : List (Msg build.dataSize) :=
  (List.range fifo.fillLevel).map fun offset => decode build (fifo.elements (fifo.place offset))

/-- A write to `RXF0A` or `RXF1A` frees the elements up to the given one. -/
def acknowledge (index : Fin rxFifoSize) : List (Msg build.dataSize) × RxFifo build :=
  let count := (index - fifo.getIndex).val + 1
  (fifo.contents.take count,
    { elements := fifo.elements
      getIndex := index + 1
      fillLevel := fifo.fillLevel - count
      fits := (Nat.sub_le _ _).trans fifo.fits })

def arrive (element : Element) : RxFifo build :=
  if h : fifo.fillLevel < rxFifoSize then
    { elements := Function.update fifo.elements (fifo.place fifo.fillLevel) element
      getIndex := fifo.getIndex
      fillLevel := fifo.fillLevel + 1
      fits := h }
  else fifo

theorem place_zero : fifo.place 0 = fifo.getIndex := by
  simp [place]

theorem place_succ (offset : ℕ) :
    fifo.place (offset + 1) = fifo.getIndex + 1 + Fin.ofNat rxFifoSize offset := by
  apply Fin.ext
  have hone : (1 : Fin rxFifoSize).val = 1 := rfl
  simp only [place, Fin.val_add, Fin.val_ofNat, Nat.add_mod_mod, Nat.mod_add_mod, hone]
  congr 1
  omega

/-- Two places of the FIFO are the same only for the same element. -/
theorem place_injective {i j : ℕ} (hi : i < rxFifoSize) (hj : j < rxFifoSize)
    (h : fifo.place i = fifo.place j) : i = j := by
  have hval := congrArg Fin.val (add_left_cancel h)
  simpa [Nat.mod_eq_of_lt hi, Nat.mod_eq_of_lt hj] using hval

/-- The acknowledge of the oldest element frees it alone. -/
theorem acknowledge_getIndex (hne : fifo.contents ≠ []) :
    (fifo.acknowledge fifo.getIndex).1 ++ (fifo.acknowledge fifo.getIndex).2.contents =
      fifo.contents := by
  obtain ⟨n, hn⟩ : ∃ n, fifo.fillLevel = n + 1 := by
    apply Nat.exists_eq_succ_of_ne_zero
    intro hzero
    simp [contents, hzero] at hne
  have hrest : (fifo.acknowledge fifo.getIndex).2.contents = fifo.contents.drop 1 := by
    simp only [contents, acknowledge, sub_self, hn, place, List.range_succ_eq_map, List.map_cons,
      List.drop_succ_cons, List.drop_zero, List.map_map]
    simp only [Fin.val_zero, Nat.zero_add, Nat.add_sub_cancel]
    apply List.map_congr_left
    intro offset _
    simp only [Function.comp_apply]
    rw [← place, place_succ]
  have hfirst : (fifo.acknowledge fifo.getIndex).1 = fifo.contents.take 1 := by
    simp [acknowledge]
  rw [hfirst, hrest, List.take_append_drop]

theorem contents_arrive (element : Element) (h : fifo.fillLevel < rxFifoSize) :
    (fifo.arrive element).contents = fifo.contents ++ [decode build element] := by
  simp only [arrive, h, dif_pos, contents, List.range_succ, List.map_append, List.map_singleton]
  congr 1
  · apply List.map_congr_left
    intro offset hmem
    have hoff : offset < fifo.fillLevel := List.mem_range.mp hmem
    have hother : fifo.place offset ≠ fifo.place fifo.fillLevel := fun heq =>
      absurd (fifo.place_injective (hoff.trans h) h heq) (by omega)
    simp only [place] at hother ⊢
    rw [Function.update_of_ne hother]
  · simp [place]

theorem arrive_getIndex (element : Element) : (fifo.arrive element).getIndex = fifo.getIndex := by
  by_cases h : fifo.fillLevel < rxFifoSize <;> simp [arrive, h]

/-- The FIFO as `_uni_hal_can_irq_rx` uses it: an acknowledge takes effect at once. -/
instance : HwFifo (RxFifo build) (Fin rxFifoSize) Element (Msg build.dataSize) where
  contents := contents
  settled _ := true
  filled fifo := fifo.fillLevel != 0
  getIndex := getIndex
  read fifo index := decode build (fifo.elements index)
  release := acknowledge
  progress fifo := ([], fifo)
  arrive := arrive
  filled_iff fifo := by simp [contents]
  read_getIndex fifo hne := by
    cases hlevel : fifo.fillLevel with
    | zero => simp [contents, hlevel] at hne
    | succ n => simp [contents, hlevel, List.range_succ_eq_map, place_zero]
  release_contents fifo hne := fifo.acknowledge_getIndex hne
  release_length fifo hne := by
    have hpos := List.length_pos_of_ne_nil hne
    simp [acknowledge]
    omega
  progress_settled _ _ := rfl
  progress_unsettled _ _ := rfl
  progress_contents _ := rfl
  progress_length _ := rfl
  arrive_settled _ _ := rfl
  arrive_getIndex := arrive_getIndex
  arrive_head fifo element hne := by
    by_cases h : fifo.fillLevel < rxFifoSize
    · rw [contents_arrive fifo element h, List.head?_append_of_ne_nil _ hne]
      simp
    · simpa [arrive, h] using hne

end RxFifo

end UniHal.Can.Fdcan
