import UniHal.Can.Bxcan.Mailbox

/-! # Acceptance filters

What `uni_hal_can_set_filter` is for: every slot of an instance holds an identifier and a mask
in the layout of the bxCAN registers, and a frame goes to the FIFO of the lowest slot that it
matches. Both drivers implement this table, each with the means of its peripheral.
-/

namespace UniHal.Can
open Foundations.BitField

/-- The arguments of one `uni_hal_can_set_filter` call. -/
structure FilterCall where
  inst : Instance
  fifoNum : ℕ
  slotIdx : ℕ
  filterId : BitVec 32
  filterMask : BitVec 32
  deriving DecidableEq, Repr

def filterSlots : ℕ := 14

/-- The slots of the second instance are numbered from 14 on bxCAN. -/
def FilterCall.slot (call : FilterCall) : ℕ :=
  if call.inst = .can2 then call.slotIdx - filterSlots else call.slotIdx

/-- The call names a FIFO that exists and a slot of its own instance. -/
def FilterCall.Valid (call : FilterCall) : Prop :=
  call.fifoNum < 2 ∧
  match call.inst with
  | .can1 => call.slotIdx < filterSlots
  | .can2 => filterSlots ≤ call.slotIdx ∧ call.slotIdx < 2 * filterSlots

/-- The reserved bit and the RTR bit are not looked at. -/
def FilterCall.Portable (call : FilterCall) : Prop :=
  call.filterMask.getLsbD 0 = false ∧ call.filterMask.getLsbD 1 = false

theorem FilterCall.Valid.slot_lt {call : FilterCall} (h : call.Valid) :
    call.slot < filterSlots := by
  obtain ⟨-, hslot⟩ := h
  cases hinst : call.inst <;> simp only [hinst] at hslot
  · simpa only [slot, hinst, reduceCtorEq, if_false] using hslot
  · simp only [slot, hinst, if_true]
    omega

structure FilterEntry where
  /-- FIFO 1 instead of FIFO 0 -/
  fifo1 : Bool
  filterId : BitVec 32
  filterMask : BitVec 32
  deriving DecidableEq, Repr

def FilterCall.entry (call : FilterCall) : FilterEntry :=
  { fifo1 := decide (call.fifoNum = 1), filterId := call.filterId, filterMask := call.filterMask }

/-- The frame agrees with the identifier wherever the mask looks. -/
def FilterEntry.accepts (entry : FilterEntry) (identifier : Identifier) (remote : Bool) : Bool :=
  decide ((Bxcan.identifierImage identifier remote ^^^ entry.filterId) &&& entry.filterMask = 0)

def FilterEntry.route (entry : FilterEntry) (identifier : Identifier) (remote : Bool) :
    Option Bool :=
  if entry.accepts identifier remote then some entry.fifo1 else none

abbrev FilterTable := Instance → ℕ → Option FilterEntry

def FilterTable.set (table : FilterTable) (call : FilterCall) : FilterTable :=
  Function.update table call.inst (Function.update (table call.inst) call.slot (some call.entry))

/-- Every mask in the table leaves the reserved bit and the RTR bit alone. -/
def FilterTable.Portable (table : FilterTable) : Prop :=
  ∀ inst slot entry, table inst slot = some entry →
    entry.filterMask.getLsbD 0 = false ∧ entry.filterMask.getLsbD 1 = false

def FilterTable.route (table : FilterTable) (inst : Instance) (identifier : Identifier)
    (remote : Bool) : Option Bool :=
  (List.range filterSlots).findSome? fun slot =>
    (table inst slot).bind fun entry => entry.route identifier remote

theorem FilterTable.set_apply (table : FilterTable) (call : FilterCall) (inst : Instance)
    (slot : ℕ) : table.set call inst slot =
      if inst = call.inst ∧ slot = call.slot then some call.entry else table inst slot := by
  by_cases hinst : inst = call.inst
  · subst hinst
    by_cases hslot : slot = call.slot
    · simp [FilterTable.set, hslot]
    · simp [FilterTable.set, hslot]
  · simp [FilterTable.set, hinst]

/-- Two searches that see the same at every place find the same. -/
theorem findSome?_congr {α β : Type*} {f g : α → Option β} {l : List α}
    (h : ∀ x ∈ l, f x = g x) : l.findSome? f = l.findSome? g := by
  induction l with
  | nil => rfl
  | cons x l ih =>
    rw [List.findSome?_cons, List.findSome?_cons, h x List.mem_cons_self,
      ih fun y hy => h y (List.mem_cons_of_mem x hy)]

theorem FilterEntry.accepts_iff (entry : FilterEntry) (identifier : Identifier) (remote : Bool) :
    entry.accepts identifier remote = true ↔ ∀ i < 32, entry.filterMask.getLsbD i = true →
      (Bxcan.identifierImage identifier remote).getLsbD i = entry.filterId.getLsbD i := by
  rw [FilterEntry.accepts, decide_eq_true_eq, xor_and_eq_zero_iff]

end UniHal.Can
