import UniHal.Can.Filter
import UniHal.Foundations.Execution

/-! # Filter banks of bxCAN

`uni_hal_can_set_filter` on the filter registers, which both instances share, and the frames
that the banks let through. The registers hold the filter table.
-/

namespace UniHal.Can.Bxcan
open Foundations.BitField

/-- `UNI_HAL_CAN_FILTER_BANKS`, `UNI_HAL_CAN_FILTER_CAN2_START`, `UNI_HAL_CAN_RX_FIFOS` -/
def filterBanks : ℕ := 28
def filterCan2Start : ℕ := 14
def rxFifos : ℕ := 2

/-- The filter registers, all of them part of CAN1, and the receive interrupt enables. -/
structure FilterRegs where
  /-- `FMR.FINIT`: while it is set no frame is received -/
  finit : Bool
  /-- `FMR.CAN2SB` -/
  can2sb : ℕ
  fa1r : BitVec 32
  fs1r : BitVec 32
  fm1r : BitVec 32
  ffa1r : BitVec 32
  fr1 : ℕ → BitVec 32
  fr2 : ℕ → BitVec 32
  /-- `IER.FMPIE0` and `IER.FMPIE1` -/
  fmpie0 : Instance → Bool
  fmpie1 : Instance → Bool

def FilterRegs.bankRoute (regs : FilterRegs) (bank : ℕ) (identifier : Identifier) (remote : Bool) :
    Option Bool :=
  if regs.fa1r.getLsbD bank && regs.fs1r.getLsbD bank && !regs.fm1r.getLsbD bank &&
      decide ((identifierImage identifier remote ^^^ regs.fr1 bank) &&& regs.fr2 bank = 0) then
    some (regs.ffa1r.getLsbD bank)
  else none

def FilterRegs.banks (regs : FilterRegs) : Instance → List ℕ
  | .can1 => List.range regs.can2sb
  | .can2 => List.range' regs.can2sb (filterBanks - regs.can2sb)

/-- The FIFO that the peripheral puts a frame into; the lowest bank wins. -/
def FilterRegs.route (regs : FilterRegs) (inst : Instance) (identifier : Identifier)
    (remote : Bool) : Option Bool :=
  if regs.finit then none
  else (regs.banks inst).findSome? fun bank => regs.bankRoute bank identifier remote

/-- `uni_hal_can_set_filter` on an initialised instance; nothing when it returns false. -/
def setFilter (regs : FilterRegs) (call : FilterCall) : Option FilterRegs :=
  if call.fifoNum < rxFifos ∧ call.slotIdx < filterBanks then
    if decide (call.inst = .can2) = decide (filterCan2Start ≤ call.slotIdx) then
      let bank := call.slotIdx
      let regs := { regs with finit := true }
      let regs := { regs with can2sb := filterCan2Start }
      -- a bank is set up while it is inactive
      let regs := { regs with fa1r := clearBit regs.fa1r bank }
      let regs := { regs with fs1r := setBit regs.fs1r bank }
      let regs := { regs with fm1r := clearBit regs.fm1r bank }
      let regs := { regs with fr1 := Function.update regs.fr1 bank call.filterId }
      let regs := { regs with fr2 := Function.update regs.fr2 bank call.filterMask }
      let regs := { regs with
        ffa1r := if call.fifoNum = 1 then setBit regs.ffa1r bank else clearBit regs.ffa1r bank }
      let regs := { regs with fa1r := setBit regs.fa1r bank }
      let regs := { regs with finit := false }
      some (if call.fifoNum = 1 then
          { regs with fmpie1 := Function.update regs.fmpie1 call.inst true }
        else { regs with fmpie0 := Function.update regs.fmpie0 call.inst true })
    else none
  else none

/-- After a reset no bank is active and the banks are split evenly. -/
structure FilterRegs.Reset (regs : FilterRegs) : Prop where
  inactive : ∀ bank < filterBanks, regs.fa1r.getLsbD bank = false
  can2sb : regs.can2sb = filterCan2Start

def bankStart : Instance → ℕ
  | .can1 => 0
  | .can2 => filterCan2Start

def FilterRegs.BankHolds (regs : FilterRegs) (bank : ℕ) : Option FilterEntry → Prop
  | none => regs.fa1r.getLsbD bank = false
  | some entry =>
    regs.finit = false ∧ regs.fa1r.getLsbD bank = true ∧ regs.fs1r.getLsbD bank = true ∧
      regs.fm1r.getLsbD bank = false ∧ regs.ffa1r.getLsbD bank = entry.fifo1 ∧
      regs.fr1 bank = entry.filterId ∧ regs.fr2 bank = entry.filterMask

/-- The registers hold the filter table. -/
structure FilterRegs.Holds (regs : FilterRegs) (table : FilterTable) : Prop where
  can2sb : regs.can2sb = filterCan2Start
  banks : ∀ inst, ∀ slot < filterSlots,
    regs.BankHolds (bankStart inst + slot) (table inst slot)

theorem FilterRegs.Reset.holds {regs : FilterRegs} (h : regs.Reset) :
    regs.Holds fun _ _ => none where
  can2sb := h.can2sb
  banks inst slot hslot := by
    apply h.inactive
    simp only [filterSlots] at hslot
    cases inst <;> simp only [bankStart, filterCan2Start, filterBanks] <;> omega

theorem setFilter_eq_some {regs regs' : FilterRegs} {call : FilterCall}
    (h : setFilter regs call = some regs') :
    call.Valid ∧ call.slotIdx = bankStart call.inst + call.slot ∧ regs'.finit = false ∧
      regs'.can2sb = filterCan2Start ∧
      regs'.fa1r = setBit (clearBit regs.fa1r call.slotIdx) call.slotIdx ∧
      regs'.fs1r = setBit regs.fs1r call.slotIdx ∧
      regs'.fm1r = clearBit regs.fm1r call.slotIdx ∧
      regs'.fr1 = Function.update regs.fr1 call.slotIdx call.filterId ∧
      regs'.fr2 = Function.update regs.fr2 call.slotIdx call.filterMask ∧
      regs'.ffa1r = if call.fifoNum = 1 then setBit regs.ffa1r call.slotIdx
        else clearBit regs.ffa1r call.slotIdx := by
  simp only [setFilter] at h
  split at h
  · next hrange =>
    split at h
    · next howner =>
      simp only [Option.some.injEq] at h
      simp only [rxFifos, filterBanks] at hrange
      have hiff := decide_eq_decide.mp howner
      simp only [filterCan2Start] at hiff
      have hvalid : call.Valid ∧ call.slotIdx = bankStart call.inst + call.slot := by
        cases hinst : call.inst with
        | can1 =>
          have hlow : ¬ 14 ≤ call.slotIdx := by simpa [hinst] using hiff
          simp only [FilterCall.Valid, FilterCall.slot, hinst, bankStart, filterSlots,
            reduceCtorEq, if_false]
          omega
        | can2 =>
          have hhigh : 14 ≤ call.slotIdx := by simpa [hinst] using hiff
          simp only [FilterCall.Valid, FilterCall.slot, hinst, bankStart, filterSlots,
            filterCan2Start, if_true]
          omega
      refine ⟨hvalid.1, hvalid.2, ?_⟩
      subst h
      split <;> exact ⟨rfl, rfl, rfl, rfl, rfl, rfl, rfl, rfl⟩
    · cases h
  · cases h

theorem bankStart_add_injective {inst inst' : Instance} {slot slot' : ℕ} (h : slot < filterSlots)
    (h' : slot' < filterSlots) (heq : bankStart inst + slot = bankStart inst' + slot') :
    inst = inst' ∧ slot = slot' := by
  simp only [filterSlots] at h h'
  cases inst <;> cases inst' <;> simp only [bankStart, filterCan2Start] at heq
  · exact ⟨rfl, by omega⟩
  · omega
  · omega
  · exact ⟨rfl, by omega⟩

/-- An accepted call writes its entry into the table and leaves the other entries alone. -/
theorem setFilter_holds {regs regs' : FilterRegs} {call : FilterCall} {table : FilterTable}
    (h : regs.Holds table) (hcall : setFilter regs call = some regs') :
    regs'.Holds (table.set call) := by
  obtain ⟨hvalid, hbank, hfinit, hcan2sb, hfa1r, hfs1r, hfm1r, hfr1, hfr2, hffa1r⟩ :=
    setFilter_eq_some hcall
  have hslot := hvalid.slot_lt
  have hbank32 : call.slotIdx < 32 := by
    simp only [filterSlots] at hslot
    rw [hbank]
    cases call.inst <;> simp only [bankStart, filterCan2Start] <;> omega
  refine ⟨hcan2sb, fun inst slot hs => ?_⟩
  rw [FilterTable.set_apply]
  by_cases hsame : inst = call.inst ∧ slot = call.slot
  · obtain ⟨rfl, rfl⟩ := hsame
    rw [if_pos ⟨rfl, rfl⟩, ← hbank]
    refine ⟨hfinit, ?_, ?_, ?_, ?_, ?_, ?_⟩
    · rw [hfa1r, getLsbD_setBit _ hbank32, if_pos rfl]
    · rw [hfs1r, getLsbD_setBit _ hbank32, if_pos rfl]
    · rw [hfm1r, getLsbD_clearBit, if_pos rfl]
    · by_cases hfifo : call.fifoNum = 1
      · rw [hffa1r, if_pos hfifo, getLsbD_setBit _ hbank32, if_pos rfl, FilterCall.entry]
        exact (decide_eq_true hfifo).symm
      · rw [hffa1r, if_neg hfifo, getLsbD_clearBit, if_pos rfl, FilterCall.entry]
        exact (decide_eq_false hfifo).symm
    · rw [hfr1, Function.update_self, FilterCall.entry]
    · rw [hfr2, Function.update_self, FilterCall.entry]
  · rw [if_neg hsame]
    have hne : bankStart inst + slot ≠ call.slotIdx := by
      intro heq
      rw [hbank] at heq
      exact hsame (bankStart_add_injective hs hslot heq)
    have hold := h.banks inst slot hs
    have hfa : regs'.fa1r.getLsbD (bankStart inst + slot) =
        regs.fa1r.getLsbD (bankStart inst + slot) := by
      rw [hfa1r, getLsbD_setBit _ hbank32, if_neg hne, getLsbD_clearBit, if_neg hne]
    cases hentry : table inst slot with
    | none =>
      rw [hentry] at hold
      exact hfa.trans hold
    | some entry =>
      rw [hentry] at hold
      obtain ⟨-, hactive, hscale, hmode, hfifo, hid, hmask⟩ := hold
      refine ⟨hfinit, hfa.trans hactive, ?_, ?_, ?_, ?_, ?_⟩
      · rw [hfs1r, getLsbD_setBit _ hbank32, if_neg hne, hscale]
      · rw [hfm1r, getLsbD_clearBit, if_neg hne, hmode]
      · rw [hffa1r]
        split
        · rw [getLsbD_setBit _ hbank32, if_neg hne, hfifo]
        · rw [getLsbD_clearBit, if_neg hne, hfifo]
      · rw [hfr1, Function.update_of_ne hne, hid]
      · rw [hfr2, Function.update_of_ne hne, hmask]

/-- The peripheral routes frames by the table that its registers hold. -/
theorem FilterRegs.Holds.route {regs : FilterRegs} {table : FilterTable} (h : regs.Holds table)
    (inst : Instance) (identifier : Identifier) (remote : Bool) :
    regs.route inst identifier remote = table.route inst identifier remote := by
  have hbank (slot : ℕ) (hslot : slot < filterSlots) :
      (if regs.finit then none
        else regs.bankRoute (bankStart inst + slot) identifier remote) =
      (table inst slot).bind fun entry => entry.route identifier remote := by
    have hold := h.banks inst slot hslot
    cases hentry : table inst slot with
    | none =>
      rw [hentry] at hold
      simp only [FilterRegs.BankHolds] at hold
      simp [FilterRegs.bankRoute, hold]
    | some entry =>
      rw [hentry] at hold
      obtain ⟨hfinit, hactive, hscale, hmode, hfifo, hid, hmask⟩ := hold
      simp [FilterRegs.bankRoute, hfinit, hactive, hscale, hmode, hfifo, hid, hmask,
        FilterEntry.route, FilterEntry.accepts]
  have hbanks : regs.banks inst = (List.range filterSlots).map (bankStart inst + ·) := by
    cases inst with
    | can1 => simp [FilterRegs.banks, h.can2sb, bankStart, filterSlots, filterCan2Start]
    | can2 =>
      simp [FilterRegs.banks, h.can2sb, bankStart, filterSlots, filterCan2Start, filterBanks,
        List.range'_eq_map_range]
  rw [FilterTable.route, FilterRegs.route, hbanks, List.findSome?_map]
  by_cases hfinit : regs.finit = true
  · rw [if_pos hfinit, eq_comm, List.findSome?_eq_none_iff]
    intro slot hslot
    rw [← hbank slot (List.mem_range.mp hslot), if_pos hfinit]
  · rw [if_neg hfinit]
    apply findSome?_congr
    intro slot hslot
    rw [← hbank slot (List.mem_range.mp hslot), if_neg hfinit]
    rfl

end UniHal.Can.Bxcan
