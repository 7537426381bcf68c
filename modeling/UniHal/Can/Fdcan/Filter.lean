import UniHal.Can.Filter
import UniHal.Can.Fdcan.MessageRam

/-! # Filter elements of FDCAN

`uni_hal_can_set_filter` translates an entry of the filter table into an element of the list
for standard identifiers and one of the list for extended identifiers. A filter that no frame
of a kind can match gets no element in the list of this kind.
-/

namespace UniHal.Can.Fdcan
open Foundations.BitField

def filterClassic : BitVec 32 := BitVec.twoPow 32 31
def filterStdFifo0 : BitVec 32 := BitVec.twoPow 32 27
def filterStdFifo1 : BitVec 32 := BitVec.twoPow 32 28
def filterExtFifo0 : BitVec 32 := BitVec.twoPow 32 29
def filterExtFifo1 : BitVec 32 := BitVec.twoPow 32 30

/-- `UNI_HAL_CAN_BXCAN_IDE` and `UNI_HAL_CAN_BXCAN_EXID_LOW` -/
def bxcanIde : BitVec 32 := BitVec.twoPow 32 2
def bxcanExidLow : BitVec 32 := 0x001FFFF8

def rxFifos : ℕ := 2

def MessageRam.set (ram : MessageRam) (address : ℕ) (word : BitVec 32) : MessageRam :=
  Function.update ram address word

def stdFilterAddress (build : Build) (inst : Instance) (slot : ℕ) : ℕ :=
  ramAddress build inst ramStdFilters slot stdFilterWords

def extFilterAddress (build : Build) (inst : Instance) (slot : ℕ) : ℕ :=
  ramAddress build inst ramExtFilters slot extFilterWords

def wantStandard (filterId filterMask : BitVec 32) : Bool :=
  let ideMatters := anySet filterMask bxcanIde
  let ideExtended := anySet filterId bxcanIde
  let lowBitsClear := !anySet (filterId &&& filterMask) bxcanExidLow
  (!ideMatters || !ideExtended) && lowBitsClear

def wantExtended (filterId filterMask : BitVec 32) : Bool :=
  let ideMatters := anySet filterMask bxcanIde
  let ideExtended := anySet filterId bxcanIde
  !ideMatters || ideExtended

def stdFilterWord (fifo1 : Bool) (filterId filterMask : BitVec 32) : BitVec 32 :=
  filterClassic ||| (if fifo1 then filterStdFifo1 else filterStdFifo0) |||
    (((filterId >>> 21) &&& stdIdMask) <<< 16) ||| ((filterMask >>> 21) &&& stdIdMask)

def extFilterWord0 (fifo1 : Bool) (filterId : BitVec 32) : BitVec 32 :=
  (if fifo1 then filterExtFifo1 else filterExtFifo0) ||| ((filterId >>> 3) &&& extIdMask)

def extFilterWord1 (filterMask : BitVec 32) : BitVec 32 :=
  filterClassic ||| ((filterMask >>> 3) &&& extIdMask)

/-- `uni_hal_can_set_filter` on an initialised instance; nothing when it returns false. -/
def setFilter (build : Build) (ram : MessageRam) (call : FilterCall) : Option MessageRam :=
  if call.fifoNum < rxFifos then
    let slotIdx :=
      if call.inst = .can2 ∧ filters ≤ call.slotIdx then call.slotIdx - filters else call.slotIdx
    if slotIdx < filters then
      let fifo1 := decide (call.fifoNum = 1)
      let std := stdFilterAddress build call.inst slotIdx
      let ext := extFilterAddress build call.inst slotIdx
      -- both elements are out of use while they change
      let ram := ram.set std 0
      let ram := ram.set ext 0
      let ram :=
        if wantStandard call.filterId call.filterMask then
          ram.set std (stdFilterWord fifo1 call.filterId call.filterMask)
        else ram
      let ram :=
        if wantExtended call.filterId call.filterMask then
          (ram.set (ext + 1) (extFilterWord1 call.filterMask)).set ext
            (extFilterWord0 fifo1 call.filterId)
        else ram
      some ram
    else none
  else none

/-- The part of `uni_hal_can_init` that disables all filters of an instance. -/
def initRam (build : Build) (inst : Instance) (ram : MessageRam) : MessageRam :=
  ((List.range (ramUsed build)).map fun idx => (ramWords build inst + idx, (0 : BitVec 32))).foldl
    Element.store ram

/-- The FIFO that a standard element routes an identifier to; the driver writes elements of
type 2 only, and a configuration field of 0 disables an element. -/
def stdElementRoute (element : BitVec 32) (id : BitVec 11) : Option Bool :=
  let config := (element >>> 27) &&& 0x7
  if element >>> 30 = 2 ∧ (config = 1 ∨ config = 2) ∧
      (id.setWidth 32 ^^^ ((element >>> 16) &&& stdIdMask)) &&& (element &&& stdIdMask) = 0 then
    some (decide (config = 2))
  else none

def extElementRoute (word0 word1 : BitVec 32) (id : BitVec 29) : Option Bool :=
  let config := word0 >>> 29
  if word1 >>> 30 = 2 ∧ (config = 1 ∨ config = 2) ∧
      (id.setWidth 32 ^^^ (word0 &&& extIdMask)) &&& (word1 &&& extIdMask) = 0 then
    some (decide (config = 2))
  else none

/-- The FIFO that the peripheral puts a frame into: the first element of the list for its kind
that matches. The global filter rejects the rest, and treats remote frames like data frames. -/
def routeFrame (build : Build) (ram : MessageRam) (inst : Instance) : Identifier → Option Bool
  | .std id => (List.range filters).findSome? fun slot =>
      stdElementRoute (ram (stdFilterAddress build inst slot)) id
  | .ext id => (List.range filters).findSome? fun slot =>
      extElementRoute (ram (extFilterAddress build inst slot))
        (ram (extFilterAddress build inst slot + 1)) id

@[simp] theorem getLsbD_bxcanExidLow (i : ℕ) :
    bxcanExidLow.getLsbD i = (decide (3 ≤ i) && decide (i < 21)) := by
  have hmask : bxcanExidLow = lowMask 32 18 <<< 3 := rfl
  rw [hmask, BitVec.getLsbD_shiftLeft, getLsbD_lowMask, Bool.eq_iff_iff]
  simp only [Bool.and_eq_true, Bool.not_eq_true', decide_eq_true_eq,
    decide_eq_false_iff_not]
  omega

section Words
variable (fifo1 : Bool) (filterId filterMask : BitVec 32)

theorem stdFilterWord_type : stdFilterWord fifo1 filterId filterMask >>> 30 = 2 := by
  apply BitVec.eq_of_getLsbD_eq
  intro i hi
  cases fifo1 <;> interval_cases i <;>
    simp [stdFilterWord, filterClassic, filterStdFifo0, filterStdFifo1]

theorem stdFilterWord_id :
    (stdFilterWord fifo1 filterId filterMask >>> 16) &&& stdIdMask =
      (filterId >>> 21) &&& stdIdMask := by
  apply BitVec.eq_of_getLsbD_eq
  intro i hi
  cases fifo1 <;>
    simp [stdFilterWord, filterClassic, filterStdFifo0, filterStdFifo1, hi] <;> grind

theorem stdFilterWord_mask :
    stdFilterWord fifo1 filterId filterMask &&& stdIdMask = (filterMask >>> 21) &&& stdIdMask := by
  apply BitVec.eq_of_getLsbD_eq
  intro i hi
  cases fifo1 <;>
    simp [stdFilterWord, filterClassic, filterStdFifo0, filterStdFifo1, hi] <;> grind

theorem extFilterWord0_id : extFilterWord0 fifo1 filterId &&& extIdMask =
    (filterId >>> 3) &&& extIdMask := by
  apply BitVec.eq_of_getLsbD_eq
  intro i hi
  cases fifo1 <;> simp [extFilterWord0, filterExtFifo0, filterExtFifo1, hi] <;> grind

theorem extFilterWord1_mask : extFilterWord1 filterMask &&& extIdMask =
    (filterMask >>> 3) &&& extIdMask := by
  apply BitVec.eq_of_getLsbD_eq
  intro i hi
  simp [extFilterWord1, filterClassic, hi]
  grind

theorem stdFilterWord_config : (stdFilterWord fifo1 filterId filterMask >>> 27) &&& 0x7 =
    if fifo1 then 2 else 1 := by
  apply BitVec.eq_of_getLsbD_eq
  intro i hi
  cases fifo1 <;> interval_cases i <;>
    simp [stdFilterWord, filterClassic, filterStdFifo0, filterStdFifo1]

theorem extFilterWord0_config : extFilterWord0 fifo1 filterId >>> 29 = if fifo1 then 2 else 1 := by
  apply BitVec.eq_of_getLsbD_eq
  intro i hi
  cases fifo1 <;> interval_cases i <;>
    simp [extFilterWord0, filterExtFifo0, filterExtFifo1]

theorem extFilterWord1_type : extFilterWord1 filterMask >>> 30 = 2 := by
  apply BitVec.eq_of_getLsbD_eq
  intro i hi
  interval_cases i <;> simp [extFilterWord1, filterClassic]

/-- An identifier agrees with the bits of the entry from `pos` on, where the mask looks. -/
def MatchesFrom (pos : ℕ) {n : ℕ} (id : BitVec n) : Prop :=
  ∀ i < n, filterMask.getLsbD (pos + i) = true → id.getLsbD i = filterId.getLsbD (pos + i)

instance (pos : ℕ) {n : ℕ} (id : BitVec n) : Decidable (MatchesFrom filterId filterMask pos id) :=
  Nat.decidableBallLT n _

theorem field_xor_and_eq_zero_iff {pos n : ℕ} (hn : n ≤ 32) {mask : BitVec 32}
    (hmask : ∀ i, mask.getLsbD i = decide (i < n)) (id : BitVec n) :
    (id.setWidth 32 ^^^ ((filterId >>> pos) &&& mask)) &&& ((filterMask >>> pos) &&& mask) = 0 ↔
      MatchesFrom filterId filterMask pos id := by
  rw [xor_and_eq_zero_iff]
  constructor
  · intro h i hi hlook
    have hi32 : i < 32 := by omega
    have hbit := h i hi32 (by
      simp only [BitVec.getLsbD_and, BitVec.getLsbD_ushiftRight, hmask, hlook, decide_eq_true hi,
        Bool.and_self])
    simpa only [BitVec.getLsbD_setWidth, BitVec.getLsbD_and, BitVec.getLsbD_ushiftRight, hmask,
      decide_eq_true hi, decide_eq_true hi32, Bool.true_and, Bool.and_true] using hbit
  · intro h i hi32 hlook
    simp only [BitVec.getLsbD_and, BitVec.getLsbD_ushiftRight, hmask, Bool.and_eq_true,
      decide_eq_true_eq] at hlook
    simpa only [BitVec.getLsbD_setWidth, BitVec.getLsbD_and, BitVec.getLsbD_ushiftRight, hmask,
      decide_eq_true hlook.2, decide_eq_true hi32, Bool.true_and, Bool.and_true] using
      h i hlook.2 hlook.1

/-- A configuration field that the driver writes stands for its FIFO. -/
theorem filterConfig_valid : ((if fifo1 = true then (2 : BitVec 32) else 1) = 1 ∨
    (if fifo1 = true then (2 : BitVec 32) else 1) = 2) ∧
      decide ((if fifo1 = true then (2 : BitVec 32) else 1) = 2) = fifo1 := by
  cases fifo1 <;> decide

/-- A standard element compares the identifier with bits 31:21 of the entry. -/
theorem stdElementRoute_word (id : BitVec 11) :
    stdElementRoute (stdFilterWord fifo1 filterId filterMask) id =
      if MatchesFrom filterId filterMask 21 id then some fifo1 else none := by
  obtain ⟨hconfig, hfifo⟩ := filterConfig_valid fifo1
  simp only [stdElementRoute, stdFilterWord_type, stdFilterWord_config, stdFilterWord_id,
    stdFilterWord_mask, field_xor_and_eq_zero_iff filterId filterMask (show 11 ≤ 32 by omega)
      getLsbD_stdIdMask id, hconfig, hfifo, true_and]

/-- An extended element compares the identifier with bits 31:3 of the entry. -/
theorem extElementRoute_words (id : BitVec 29) :
    extElementRoute (extFilterWord0 fifo1 filterId) (extFilterWord1 filterMask) id =
      if MatchesFrom filterId filterMask 3 id then some fifo1 else none := by
  obtain ⟨hconfig, hfifo⟩ := filterConfig_valid fifo1
  simp only [extElementRoute, extFilterWord0_config, extFilterWord1_type, extFilterWord0_id,
    extFilterWord1_mask, field_xor_and_eq_zero_iff filterId filterMask (show 29 ≤ 32 by omega)
      getLsbD_extIdMask id, hconfig, hfifo, true_and]

theorem stdElementRoute_zero (id : BitVec 11) : stdElementRoute 0 id = none := by
  simp [stdElementRoute]

theorem extElementRoute_zero (word1 : BitVec 32) (id : BitVec 29) :
    extElementRoute 0 word1 id = none := by
  simp [extElementRoute]

end Words

section Entry
variable (entry : FilterEntry)

theorem anySet_ide (x : BitVec 32) : anySet x bxcanIde = x.getLsbD 2 := anySet_twoPow (by omega)

theorem lowBitsClear_iff : anySet (entry.filterId &&& entry.filterMask) bxcanExidLow = false ↔
    ∀ i < 32, 3 ≤ i → i < 21 → entry.filterMask.getLsbD i = true →
      entry.filterId.getLsbD i = false := by
  rw [anySet, decide_eq_false_iff_not, not_not, eq_zero_iff_getLsbD]
  apply forall₂_congr
  intro i _
  simp only [BitVec.getLsbD_and, getLsbD_bxcanExidLow]
  by_cases h3 : 3 ≤ i <;> by_cases h21 : i < 21 <;> cases entry.filterId.getLsbD i <;>
    cases entry.filterMask.getLsbD i <;> simp [h3, h21]

/-- Below the identifier the masks look at the frame format only. -/
theorem lookedAt_low (hreserved : entry.filterMask.getLsbD 0 = false)
    (hrtr : entry.filterMask.getLsbD 1 = false) {i : ℕ} (hi : i < 3)
    (hlook : entry.filterMask.getLsbD i = true) : i = 2 := by
  have hcases : i = 0 ∨ i = 1 ∨ i = 2 := by omega
  rcases hcases with rfl | rfl | rfl
  · rw [hreserved] at hlook
    cases hlook
  · rw [hrtr] at hlook
    cases hlook
  · rfl

/-- The entry accepts a standard identifier exactly when it wants a standard element and the
element matches. -/
theorem accepts_std_iff (hreserved : entry.filterMask.getLsbD 0 = false)
    (hrtr : entry.filterMask.getLsbD 1 = false) (id : BitVec 11) (remote : Bool) :
    entry.accepts (.std id) remote = true ↔
      wantStandard entry.filterId entry.filterMask = true ∧
        MatchesFrom entry.filterId entry.filterMask 21 id := by
  rw [FilterEntry.accepts_iff]
  simp only [wantStandard, anySet_ide, Bool.and_eq_true, Bool.or_eq_true, Bool.not_eq_true',
    lowBitsClear_iff]
  constructor
  · intro h
    refine ⟨⟨?_, fun i hi h3 h21 hlook => ?_⟩, fun i hi hlook => ?_⟩
    · cases hide : entry.filterMask.getLsbD 2 with
      | false => exact .inl rfl
      | true =>
        have hbit := h 2 (by omega) hide
        rw [Bxcan.getLsbD_identifierImage_std remote id (by omega)] at hbit
        exact .inr hbit.symm
    · have hbit := h i hi hlook
      rw [Bxcan.getLsbD_identifierImage_std remote id hi, if_neg (by omega),
        if_neg (by omega)] at hbit
      exact hbit.symm
    · have hbit := h (21 + i) (by omega) hlook
      rwa [Bxcan.getLsbD_identifierImage_std remote id (by omega), if_pos (by omega),
        Nat.add_sub_cancel_left] at hbit
  · rintro ⟨⟨hide, hlow⟩, hmatch⟩ i hi hlook
    rw [Bxcan.getLsbD_identifierImage_std remote id hi]
    by_cases h21 : 21 ≤ i
    · have hbit := hmatch (i - 21) (by omega)
      rw [Nat.add_sub_cancel' h21] at hbit
      rw [if_pos h21]
      exact hbit hlook
    · rw [if_neg h21]
      by_cases h3 : 3 ≤ i
      · rw [if_neg (by omega), hlow i hi h3 (by omega) hlook]
      · obtain rfl := lookedAt_low entry hreserved hrtr (by omega) hlook
        rw [if_neg (by omega)]
        rcases hide with hide | hide
        · rw [hide] at hlook
          cases hlook
        · exact hide.symm

/-- The entry accepts an extended identifier exactly when it wants an extended element and the
element matches. -/
theorem accepts_ext_iff (hreserved : entry.filterMask.getLsbD 0 = false)
    (hrtr : entry.filterMask.getLsbD 1 = false) (id : BitVec 29) (remote : Bool) :
    entry.accepts (.ext id) remote = true ↔
      wantExtended entry.filterId entry.filterMask = true ∧
        MatchesFrom entry.filterId entry.filterMask 3 id := by
  rw [FilterEntry.accepts_iff]
  simp only [wantExtended, anySet_ide, Bool.or_eq_true, Bool.not_eq_true']
  constructor
  · intro h
    refine ⟨?_, fun i hi hlook => ?_⟩
    · cases hide : entry.filterMask.getLsbD 2 with
      | false => exact .inl rfl
      | true =>
        have hbit := h 2 (by omega) hide
        rw [Bxcan.getLsbD_identifierImage_ext remote id (by omega)] at hbit
        exact .inr hbit.symm
    · have hbit := h (3 + i) (by omega) hlook
      rwa [Bxcan.getLsbD_identifierImage_ext remote id (by omega), if_pos (by omega),
        Nat.add_sub_cancel_left] at hbit
  · rintro ⟨hide, hmatch⟩ i hi hlook
    rw [Bxcan.getLsbD_identifierImage_ext remote id hi]
    by_cases h3 : 3 ≤ i
    · have hbit := hmatch (i - 3) (by omega)
      rw [Nat.add_sub_cancel' h3] at hbit
      rw [if_pos h3]
      exact hbit hlook
    · rw [if_neg h3]
      obtain rfl := lookedAt_low entry hreserved hrtr (by omega) hlook
      rw [if_pos rfl]
      rcases hide with hide | hide
      · rw [hide] at hlook
        cases hlook
      · exact hide.symm

def stdWordOf : Option FilterEntry → BitVec 32
  | none => 0
  | some entry =>
    if wantStandard entry.filterId entry.filterMask then
      stdFilterWord entry.fifo1 entry.filterId entry.filterMask
    else 0

def extWordOf : Option FilterEntry → BitVec 32
  | none => 0
  | some entry =>
    if wantExtended entry.filterId entry.filterMask then
      extFilterWord0 entry.fifo1 entry.filterId
    else 0

def ExtMaskOf (word1 : BitVec 32) : Option FilterEntry → Prop
  | none => True
  | some entry =>
    wantExtended entry.filterId entry.filterMask = true → word1 = extFilterWord1 entry.filterMask

end Entry

/-- The filter sections of the message RAM hold the filter table. -/
def MessageRam.Holds (build : Build) (ram : MessageRam) (table : FilterTable) : Prop :=
  ∀ inst, ∀ slot < filterSlots,
    ram (stdFilterAddress build inst slot) = stdWordOf (table inst slot) ∧
    ram (extFilterAddress build inst slot) = extWordOf (table inst slot) ∧
    ExtMaskOf (ram (extFilterAddress build inst slot + 1)) (table inst slot)

/-- The peripheral routes frames by the table that its filter elements hold. -/
theorem MessageRam.Holds.route {build : Build} {ram : MessageRam} {table : FilterTable}
    (h : ram.Holds build table) (hportable : table.Portable) (inst : Instance)
    (identifier : Identifier) (remote : Bool) :
    routeFrame build ram inst identifier = table.route inst identifier remote := by
  cases identifier with
  | std id =>
    apply findSome?_congr
    intro slot hslot
    rw [(h inst slot (List.mem_range.mp hslot)).1]
    cases hentry : table inst slot with
    | none => exact stdElementRoute_zero id
    | some entry =>
      obtain ⟨hreserved, hrtr⟩ := hportable inst slot entry hentry
      have hiff := accepts_std_iff entry hreserved hrtr id remote
      simp only [Option.bind_some, FilterEntry.route, stdWordOf, hiff]
      by_cases hwant : wantStandard entry.filterId entry.filterMask = true
      · simp only [hwant, if_true, stdElementRoute_word, true_and]
      · simp only [hwant, if_false, stdElementRoute_zero, false_and, Bool.false_eq_true]
  | ext id =>
    apply findSome?_congr
    intro slot hslot
    obtain ⟨-, hext, hmask⟩ := h inst slot (List.mem_range.mp hslot)
    rw [hext]
    cases hentry : table inst slot with
    | none => exact extElementRoute_zero _ id
    | some entry =>
      rw [hentry] at hmask
      obtain ⟨hreserved, hrtr⟩ := hportable inst slot entry hentry
      have hiff := accepts_ext_iff entry hreserved hrtr id remote
      simp only [Option.bind_some, FilterEntry.route, extWordOf, hiff]
      by_cases hwant : wantExtended entry.filterId entry.filterMask = true
      · simp only [hwant, if_true, hmask hwant, extElementRoute_words, true_and]
      · simp only [hwant, if_false, extElementRoute_zero, false_and, Bool.false_eq_true]

theorem stdFilterAddress_ne_ext (build : Build) (inst inst' : Instance) {slot slot' : ℕ}
    (h : slot < filterSlots) (h' : slot' < filterSlots) :
    stdFilterAddress build inst slot ≠ extFilterAddress build inst' slot' ∧
      stdFilterAddress build inst slot ≠ extFilterAddress build inst' slot' + 1 := by
  simp only [filterSlots] at h h'
  cases build <;> cases inst <;> cases inst' <;>
    simp only [stdFilterAddress, extFilterAddress, ramAddress, ramWords, ramBlockWords,
      ramStdFilters, ramExtFilters, filters, stdFilterWords, extFilterWords] <;> omega

theorem stdFilterAddress_injective {build : Build} {inst inst' : Instance} {slot slot' : ℕ}
    (h : slot < filterSlots) (h' : slot' < filterSlots)
    (heq : stdFilterAddress build inst slot = stdFilterAddress build inst' slot') :
    inst = inst' ∧ slot = slot' := by
  simp only [filterSlots] at h h'
  cases build <;> cases inst <;> cases inst' <;>
    simp only [stdFilterAddress, ramAddress, ramWords, ramBlockWords, ramStdFilters,
      stdFilterWords, true_and, reduceCtorEq, false_and] at heq ⊢ <;> omega

theorem extFilterAddress_ne_succ (build : Build) (inst inst' : Instance) (slot slot' : ℕ) :
    extFilterAddress build inst slot ≠ extFilterAddress build inst' slot' + 1 := by
  cases build <;> cases inst <;> cases inst' <;>
    simp only [extFilterAddress, ramAddress, ramWords, ramBlockWords, ramStdFilters,
      ramExtFilters, filters, stdFilterWords, extFilterWords] <;> omega

theorem extFilterAddress_injective {build : Build} {inst inst' : Instance} {slot slot' : ℕ}
    (h : slot < filterSlots) (h' : slot' < filterSlots)
    (heq : extFilterAddress build inst slot = extFilterAddress build inst' slot') :
    inst = inst' ∧ slot = slot' := by
  simp only [filterSlots] at h h'
  cases build <;> cases inst <;> cases inst' <;>
    simp only [extFilterAddress, ramAddress, ramWords, ramBlockWords, ramStdFilters,
      ramExtFilters, filters, stdFilterWords, extFilterWords, true_and, reduceCtorEq,
      false_and] at heq ⊢ <;> omega

/-- A valid call is accepted, and writes the elements of its entry and nothing else. -/
theorem setFilter_spec (build : Build) (ram : MessageRam) {call : FilterCall} (h : call.Valid) :
    ∃ ram', setFilter build ram call = some ram' ∧ ∀ address, ram' address =
      if address = stdFilterAddress build call.inst call.slot then stdWordOf (some call.entry)
      else if address = extFilterAddress build call.inst call.slot then extWordOf (some call.entry)
      else if address = extFilterAddress build call.inst call.slot + 1 ∧
          wantExtended call.filterId call.filterMask = true then extFilterWord1 call.filterMask
      else ram address := by
  have hslot := h.slot_lt
  have hfifo : call.fifoNum < rxFifos := h.1
  have hindex : (if call.inst = .can2 ∧ filters ≤ call.slotIdx then call.slotIdx - filters
      else call.slotIdx) = call.slot := by
    obtain ⟨-, hrange⟩ := h
    cases hinst : call.inst with
    | can1 => simp [FilterCall.slot, hinst]
    | can2 =>
      simp only [hinst] at hrange
      simp only [FilterCall.slot, hinst, true_and, if_true]
      exact if_pos hrange.1
  have hin : call.slot < filters := hslot
  obtain ⟨hne, hne1⟩ := stdFilterAddress_ne_ext build call.inst call.inst hslot hslot
  simp only [setFilter, if_pos hfifo, hindex, if_pos hin, Option.some.injEq, exists_eq_left']
  intro address
  cases hs : wantStandard call.filterId call.filterMask <;>
    cases he : wantExtended call.filterId call.filterMask <;>
    simp only [stdWordOf, extWordOf, FilterCall.entry, hs, he, MessageRam.set,
      Function.update_apply, if_true, if_false, Bool.false_eq_true, and_true, and_false] <;>
    grind

/-- A valid call writes its entry into the table and leaves the other entries alone. -/
theorem setFilter_holds {build : Build} {ram : MessageRam} {call : FilterCall}
    {table : FilterTable} (h : ram.Holds build table) (hvalid : call.Valid) :
    ∃ ram', setFilter build ram call = some ram' ∧ ram'.Holds build (table.set call) := by
  obtain ⟨ram', hcall, hram⟩ := setFilter_spec build ram hvalid
  have hcs := hvalid.slot_lt
  refine ⟨ram', hcall, fun inst slot hs => ?_⟩
  obtain ⟨hne, hne1⟩ := stdFilterAddress_ne_ext build inst call.inst hs hcs
  obtain ⟨hne', hne1'⟩ := stdFilterAddress_ne_ext build call.inst inst hcs hs
  have hsucc := extFilterAddress_ne_succ build inst call.inst slot call.slot
  have hsucc' := extFilterAddress_ne_succ build call.inst inst call.slot slot
  rw [FilterTable.set_apply, hram, hram, hram]
  by_cases hsame : inst = call.inst ∧ slot = call.slot
  · obtain ⟨rfl, rfl⟩ := hsame
    simp only [and_self, if_true, hne.symm, if_false, hne1.symm, hsucc.symm, true_and]
    exact fun hwant => if_pos hwant
  · have hstd : stdFilterAddress build inst slot ≠ stdFilterAddress build call.inst call.slot :=
      fun heq => hsame (stdFilterAddress_injective hs hcs heq)
    have hext : extFilterAddress build inst slot ≠ extFilterAddress build call.inst call.slot :=
      fun heq => hsame (extFilterAddress_injective hs hcs heq)
    simp only [if_neg hsame, if_neg hstd, if_neg hne, hne1, hne'.symm, hsucc, hne1'.symm,
      hsucc'.symm, Nat.add_right_cancel_iff, hext, false_and, if_false]
    exact h inst slot hs

theorem initRam_apply (build : Build) (inst : Instance) (ram : MessageRam) (address : ℕ) :
    initRam build inst ram address =
      if ramWords build inst ≤ address ∧ address < ramWords build inst + ramUsed build then 0
      else ram address :=
  stores_range (fun _ => 0) _ _ _ _

/-- After the initialisation of both instances all filters are disabled. -/
theorem initRam_holds (build : Build) (ram : MessageRam) :
    (initRam build .can2 (initRam build .can1 ram)).Holds build fun _ _ => none := by
  intro inst slot hslot
  simp only [filterSlots] at hslot
  have hused : 42 ≤ ramUsed build := by cases build <;> decide
  have hzero (offset : ℕ) (h : offset < 42) :
      initRam build .can2 (initRam build .can1 ram) (ramWords build inst + offset) = 0 := by
    rw [initRam_apply, initRam_apply]
    cases inst with
    | can1 =>
      rw [ite_eq_left_iff]
      intro _
      exact if_pos ⟨by omega, by omega⟩
    | can2 => rw [if_pos (by omega)]
  have hstd := hzero (slot * stdFilterWords) (by simp only [stdFilterWords]; omega)
  have hext := hzero (14 + slot * extFilterWords) (by simp only [extFilterWords]; omega)
  simp only [← Nat.add_assoc] at hext
  exact ⟨hstd, hext, trivial⟩

end UniHal.Can.Fdcan
