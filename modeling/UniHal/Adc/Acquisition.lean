import UniHal.Foundations.FieldBank
import Mathlib.Tactic

/-! # The scan of the ADC drivers

`uni_hal_adc_init` writes the channels of the configuration into the sequence registers and starts
a sequence that repeats; a circular DMA transfer of the same length puts the conversions into the
data array. The registers, the position of the sequence and the position of the transfer stay in
step, so the getters return the conversion of their own channel that was made last. This needs an
ADC that is off and a DMA channel that is not running yet.
-/

namespace UniHal.Adc.Acquisition
open Foundations

inductive Mcu
  | stm32l4
  | stm32h7
  deriving DecidableEq, Repr

def channelsMax : ℕ := 16

/-- The part of `uni_hal_adc_config_t` that describes the sequence; `uni_hal_adc_init` refuses a
sequence without channels. -/
structure Config where
  channels : List ℕ
  pos : 0 < channels.length
  le : channels.length ≤ channelsMax

/-- The number in the `LL_ADC_CHANNEL_x` word that `_uni_hal_adc_get_channel` returns. -/
def getChannel : Mcu → ℕ → ℕ
  | .stm32l4, n =>
    if n ≤ 18 then n
    else match n with
      | 19 => 0
      | 20 => 17
      | 21 => 18
      | _ => 0
  | .stm32h7, n =>
    if n ≤ 19 then n
    else match n with
      | 20 => 19
      | 21 => 18
      | 22 => 17
      | _ => 0

/-- `_uni_hal_adc_get_scan_length`, the value of the field `L` of the first sequence register. -/
def getScanLength (length : ℕ) : ℕ := if length ≤ 16 then length - 1 else 0

/-- `_uni_hal_adc_get_rank` of the rank with the index: the register in the bits from 8 on, and the
position in it. -/
def getRank (i : Fin 16) : ℕ :=
  [0x006, 0x00C, 0x012, 0x018, 0x100, 0x106, 0x10C, 0x112, 0x118, 0x200, 0x206, 0x20C, 0x212,
    0x218, 0x300, 0x306].getD i 0

theorem rank_fits : ∀ i, getRank i % 32 + 5 ≤ 32 := by decide

/-- The field of the sequence registers that `LL_ADC_REG_SetSequencerRanks` writes; `SQR1` is the
register 0. -/
def rankField (i : Fin 16) : BankField ℕ 32 := ⟨getRank i / 256, ⟨getRank i % 32, 5, rank_fits i⟩⟩

theorem length_room : 0 + 4 ≤ 32 := by decide

/-- `ADC_SQR1_L` -/
def lengthField : BankField ℕ 32 := ⟨0, ⟨0, 4, length_room⟩⟩

/-- Off, enabled (`ADEN`), or converting (`ADSTART`), which an ADC that is off never does. -/
inductive Mode
  | disabled
  | enabled
  | converting
  deriving DecidableEq, Repr

/-- The ADC with the DMA channel that serves it. -/
structure Hw where
  mode : Mode
  sqr : Bank ℕ 32
  /-- the channel preselection register of the STM32H7 -/
  pcsel : ℕ → Bool
  /-- the rank that is converted next, from 0 on -/
  rank : ℕ
  /-- the DMA channel is enabled -/
  streaming : Bool
  /-- the data length of the DMA channel -/
  ndtr : ℕ
  /-- the element of the data array that the transfer writes next -/
  slot : ℕ
  /-- conversions since the sequence was started -/
  taken : ℕ
  data : ℕ → UInt16

namespace Hw

def isEnabled (hw : Hw) : Bool := decide (hw.mode ≠ .disabled)

/-- `LL_ADC_REG_SetSequencerLength`. On the STM32H7 `LL_ADC_REG_Init` does it, and refuses to
while the ADC is enabled. -/
def setSequencerLength (m : Mcu) (length : ℕ) (hw : Hw) : Hw :=
  match m with
  | .stm32l4 => { hw with sqr := lengthField.write (BitVec.ofNat 32 (getScanLength length)) hw.sqr }
  | .stm32h7 =>
    if hw.isEnabled then hw
    else { hw with sqr := lengthField.write (BitVec.ofNat 32 (getScanLength length)) hw.sqr }

/-- `_uni_hal_adc_configure_dma` and `uni_hal_dma_enable`: the registers of a channel that is
enabled take no write. -/
def configureDma (length : ℕ) (hw : Hw) : Hw :=
  if hw.streaming then hw else { hw with streaming := true, ndtr := length, slot := 0 }

def enable (hw : Hw) : Hw := if hw.isEnabled then hw else { hw with mode := .enabled }

def trigger (hw : Hw) : Hw :=
  if hw.mode = .converting then hw else { hw with mode := .converting, rank := 0, taken := 0 }

end Hw

namespace Config
variable (c : Config)

def count : ℕ := c.channels.length

def channel (i : Fin c.count) : ℕ := c.channels.get i

def rankIndex (i : Fin c.count) : Fin 16 := i.castLE c.le

/-- The ranks that the loop of `_uni_hal_adc_configure` sets. -/
def ranks (m : Mcu) : List (Fin 16 × BitVec 32) :=
  (List.finRange c.count).map fun i =>
    (c.rankIndex i, BitVec.ofNat 32 (getChannel m (c.channel i)))

/-- `LL_ADC_SetChannelPreSelection` for the first channel; only the STM32H7 has channels to
preselect. -/
def preselect (m : Mcu) (hw : Hw) : Hw :=
  match m with
  | .stm32l4 => hw
  | .stm32h7 =>
    { hw with pcsel := Function.update hw.pcsel (getChannel m (c.channel ⟨0, c.pos⟩)) true }

/-- The loop of `_uni_hal_adc_configure`. -/
def setRanks (m : Mcu) (hw : Hw) : Hw :=
  { hw with sqr := BankField.writes rankField (c.ranks m) hw.sqr }

def configure (m : Mcu) (hw : Hw) : Hw :=
  c.setRanks m (c.preselect m (hw.setSequencerLength m c.count))

/-- `uni_hal_adc_init` with a DMA channel, where the clock, the calibration and the start of the ADC
succeed. -/
def init (m : Mcu) (hw : Hw) : Hw := (c.configure m (hw.configureDma c.count)).enable.trigger

end Config

/-- The inputs: the voltage of each channel at each conversion, in ADC points, and what comes of
a channel that is not preselected. -/
structure Inputs where
  analog : ℕ → ℕ → UInt16
  unconnected : ℕ → UInt16

def Inputs.convert (inputs : Inputs) (m : Mcu) (pcsel : ℕ → Bool) (t channel : ℕ) : UInt16 :=
  match m with
  | .stm32l4 => inputs.analog t channel
  | .stm32h7 => if pcsel channel then inputs.analog t channel else inputs.unconnected t

theorem rank_lt (rank : ℕ) : rank % 16 < 16 := Nat.mod_lt _ (by decide)

def Hw.channelAt (hw : Hw) (rank : ℕ) : ℕ :=
  ((rankField ⟨rank % 16, rank_lt rank⟩).read hw.sqr).toNat

/-- A conversion, which the DMA channel moves into the data array before the next one ends; it
counts `ndtr` elements and then starts again. -/
def Hw.convert (m : Mcu) (inputs : Inputs) (hw : Hw) : Hw :=
  { hw with
    rank := if hw.rank = (lengthField.read hw.sqr).toNat then 0 else hw.rank + 1
    slot := if hw.slot + 1 = hw.ndtr then 0 else hw.slot + 1
    taken := hw.taken + 1
    data := Function.update hw.data hw.slot
      (inputs.convert m hw.pcsel hw.taken (hw.channelAt hw.rank)) }

def Hw.run (m : Mcu) (inputs : Inputs) (hw : Hw) : ℕ → Hw
  | 0 => hw
  | n + 1 => (hw.run m inputs n).convert m inputs

/-- `uni_hal_adc_get_channel_raw` of an initialised ADC. -/
def getChannelRaw (c : Config) (hw : Hw) (channel : ℕ) : UInt16 :=
  match c.channels.findIdx? (· = channel) with
  | some i => hw.data i
  | none => 0xFFFF

/-- `uni_hal_adc_has_channel` of an initialised ADC. -/
def hasChannel (c : Config) (channel : ℕ) : Bool := c.channels.contains channel

theorem getChannel_lt (m : Mcu) (n : ℕ) : getChannel m n < 2 ^ 5 := by
  cases m <;> (simp only [getChannel]; split_ifs <;> [omega; (split <;> norm_num)])

theorem rankField_apart : ∀ i j, i ≠ j → (rankField i).Apart (rankField j) := by decide

theorem rankField_apart_length : ∀ i, (rankField i).Apart lengthField := by decide

theorem rankField_fits (i : Fin 16) (m : Mcu) (n : ℕ) :
    (rankField i).Fits (BitVec.ofNat 32 (getChannel m n)) := by
  have hlt := getChannel_lt m n
  rw [BankField.Fits, BitVec.toNat_ofNat]
  exact lt_of_le_of_lt (Nat.mod_le _ _) hlt

namespace Config
variable (c : Config) (m : Mcu) (hw : Hw)

theorem ranks_fit : ∀ p ∈ c.ranks m, (rankField p.1).Fits p.2 := by
  rintro p hp
  obtain ⟨i, -, rfl⟩ := List.mem_map.mp hp
  exact rankField_fits _ _ _

theorem length_fits : lengthField.Fits (BitVec.ofNat 32 (getScanLength c.count)) := by
  have hle : c.count ≤ 16 := c.le
  rw [BankField.Fits, BitVec.toNat_ofNat, getScanLength, if_pos hle]
  apply lt_of_le_of_lt (Nat.mod_le _ _)
  change c.count - 1 < 2 ^ 4
  omega

theorem ranks_nodup : ((c.ranks m).map Prod.fst).Nodup := by
  rw [ranks, List.map_map]
  apply List.Nodup.map _ (List.nodup_finRange _)
  intro i j hij
  exact Fin.castLE_injective c.le hij

/-- The registers after the initialisation of an ADC that is off, with a DMA channel that is not
running. -/
structure Started (s : Hw) : Prop where
  sqr : s.sqr = BankField.writes rankField (c.ranks m)
    (lengthField.write (BitVec.ofNat 32 (getScanLength c.count)) hw.sqr)
  pcsel : s.pcsel = (c.preselect m hw).pcsel
  rank : s.rank = 0
  ndtr : s.ndtr = c.count
  slot : s.slot = 0
  taken : s.taken = 0
  data : s.data = hw.data

variable {c m hw}

theorem started_init (hoff : hw.mode = .disabled) (hdma : hw.streaming = false) :
    c.Started m hw (c.init m hw) := by
  obtain ⟨mode, sqr, pcsel, rank, streaming, ndtr, slot, taken, data⟩ := hw
  obtain rfl : mode = .disabled := hoff
  obtain rfl : streaming = false := hdma
  cases m <;> exact ⟨rfl, rfl, rfl, rfl, rfl, rfl, rfl⟩

/-- An enabled STM32H7 ADC that is initialised with another configuration keeps the length of its
sequence. -/
theorem lengthField_init_of_enabled (hon : hw.mode ≠ .disabled) :
    lengthField.read (c.init .stm32h7 hw).sqr = lengthField.read hw.sqr := by
  obtain ⟨mode, sqr, pcsel, rank, streaming, ndtr, slot, taken, data⟩ := hw
  have hsqr : (c.init .stm32h7 ⟨mode, sqr, pcsel, rank, streaming, ndtr, slot, taken, data⟩).sqr =
      BankField.writes rankField (c.ranks .stm32h7) sqr := by
    cases mode <;> cases streaming <;> first | exact absurd rfl hon | rfl
  rw [hsqr, BankField.read_writes_of_apart rankField_apart_length (c.ranks_fit .stm32h7)]

variable {s : Hw}

theorem Started.lengthField (h : c.Started m hw s) :
    (lengthField.read s.sqr).toNat = c.count - 1 := by
  have hle : c.count ≤ 16 := c.le
  rw [h.sqr, BankField.read_writes_of_apart rankField_apart_length (c.ranks_fit m),
    BankField.read_write c.length_fits, BitVec.toNat_ofNat, getScanLength, if_pos hle]
  omega

theorem Started.channelAt (h : c.Started m hw s) (i : Fin c.count) :
    s.channelAt i = getChannel m (c.channel i) := by
  have hlt := getChannel_lt m (c.channel i)
  have hi : ⟨i.val % 16, rank_lt i⟩ = c.rankIndex i := by
    apply Fin.ext
    exact Nat.mod_eq_of_lt (lt_of_lt_of_le i.isLt c.le)
  have hmem : (c.rankIndex i, BitVec.ofNat 32 (getChannel m (c.channel i))) ∈ c.ranks m :=
    List.mem_map.mpr ⟨i, List.mem_finRange i, rfl⟩
  rw [Hw.channelAt, h.sqr, hi, BankField.read_writes rankField_apart (c.ranks_fit m),
    BankField.lastOf_of_mem (c.ranks_nodup m) hmem, BitVec.toNat_ofNat]
  omega

end Config

/-- Conversion `t` is the last one of the rank with the index `i` before conversion `n`. -/
structure IsLast (count n i t : ℕ) : Prop where
  lt : t < n
  le : n ≤ t + count
  rank : t % count = i

theorem isLast_self {count n : ℕ} (hpos : 0 < count) : IsLast count (n + 1) (n % count) n where
  lt := Nat.lt_succ_self n
  le := by omega
  rank := rfl

theorem IsLast.succ {count n i t : ℕ} (h : IsLast count n i t) (hne : i ≠ n % count) :
    IsLast count (n + 1) i t where
  lt := Nat.lt_succ_of_lt h.lt
  le := by
    by_contra hlt
    -- a whole sequence after `t` it is the turn of the rank again
    have heq : n = t + count := le_antisymm h.le (by omega)
    rw [heq, Nat.add_mod_right, h.rank] at hne
    exact hne rfl
  rank := h.rank

theorem wrap_succ {count : ℕ} (hpos : 0 < count) (n : ℕ) :
    (if n % count + 1 = count then 0 else n % count + 1) = (n + 1) % count := by
  have hlt := Nat.mod_lt n hpos
  have hmod := Nat.mod_add_mod n count 1
  rw [← hmod]
  split_ifs with hlast
  · rw [hlast, Nat.mod_self]
  · exact (Nat.mod_eq_of_lt (by omega)).symm

/-- The state after the sequence has made a number of conversions: it and the transfer are at the
same position. -/
structure Scanned (c : Config) (m : Mcu) (inputs : Inputs) (hw : Hw) (n : ℕ) (s : Hw) : Prop where
  sqr : s.sqr = hw.sqr
  pcsel : s.pcsel = hw.pcsel
  ndtr : s.ndtr = c.count
  rank : s.rank = n % c.count
  slot : s.slot = n % c.count
  taken : s.taken = n
  untouched : ∀ i, n ≤ i ∨ c.count ≤ i → s.data i = hw.data i
  data : ∀ i : Fin c.count, i < n → ∃ t, IsLast c.count n i t ∧
    s.data i = inputs.convert m hw.pcsel t (getChannel m (c.channel i))

section Run
variable {c : Config} {m : Mcu} {inputs : Inputs} {hw hw' : Hw}

theorem Config.Started.scanned (h : c.Started m hw hw') : Scanned c m inputs hw' 0 hw' where
  sqr := rfl
  pcsel := rfl
  ndtr := h.ndtr
  rank := h.rank.trans (Nat.zero_mod _).symm
  slot := h.slot.trans (Nat.zero_mod _).symm
  taken := h.taken
  untouched _ _ := rfl
  data i h := absurd h (Nat.not_lt_zero i)

theorem Scanned.convert {n : ℕ} {s : Hw} (hstart : c.Started m hw hw')
    (h : Scanned c m inputs hw' n s) : Scanned c m inputs hw' (n + 1) (s.convert m inputs) := by
  have hpos : 0 < c.count := c.pos
  have hlt : n % c.count < c.count := Nat.mod_lt n hpos
  have hlast : n % c.count = c.count - 1 ↔ n % c.count + 1 = c.count := by omega
  have hchannel : s.channelAt s.rank = getChannel m (c.channel ⟨n % c.count, hlt⟩) := by
    rw [← hstart.channelAt ⟨n % c.count, hlt⟩, Hw.channelAt, Hw.channelAt, h.sqr, h.rank]
  refine ⟨h.sqr, h.pcsel, h.ndtr, ?_, ?_, ?_, ?_, ?_⟩
  · simp only [Hw.convert]
    rw [h.sqr, h.rank, hstart.lengthField, ← wrap_succ hpos]
    simp only [hlast]
  · simp only [Hw.convert]
    rw [h.slot, h.ndtr, wrap_succ hpos]
  · simp only [Hw.convert]
    rw [h.taken]
  · intro i hi
    have hle := Nat.mod_le n c.count
    simp only [Hw.convert]
    rw [h.slot, Function.update_of_ne (by omega), h.untouched i (by omega)]
  · intro i hi
    simp only [Hw.convert]
    rw [h.slot, hchannel, h.pcsel, h.taken]
    by_cases hturn : (i : ℕ) = n % c.count
    · have hget : (⟨n % c.count, hlt⟩ : Fin c.count) = i := Fin.ext hturn.symm
      refine ⟨n, hturn ▸ isLast_self hpos, ?_⟩
      rw [← hget, Function.update_self]
    · have hbefore : (i : ℕ) < n := by
        rcases Nat.lt_or_ge i n with hin | hin
        · exact hin
        · have heq : (i : ℕ) = n := by omega
          rw [← heq, Nat.mod_eq_of_lt i.isLt] at hturn
          exact absurd rfl hturn
      obtain ⟨t, ht, hdata⟩ := h.data i hbefore
      refine ⟨t, ht.succ hturn, ?_⟩
      rw [Function.update_of_ne hturn, hdata]

theorem scanned_run (hstart : c.Started m hw hw') (n : ℕ) :
    Scanned c m inputs hw' n (hw'.run m inputs n) := by
  induction n with
  | zero => exact hstart.scanned
  | succ n ih => exact ih.convert hstart

end Run

/-- The channel is one that the driver connects to the converter: all are on the STM32L4, on the
STM32H7 the first one of the sequence and those that were preselected before. -/
def Connected (m : Mcu) (c : Config) (hw : Hw) (channel : ℕ) : Prop :=
  match m with
  | .stm32l4 => True
  | .stm32h7 => getChannel m channel = getChannel m (c.channel ⟨0, c.pos⟩) ∨
      hw.pcsel (getChannel m channel) = true

instance (m : Mcu) (c : Config) (hw : Hw) (channel : ℕ) : Decidable (Connected m c hw channel) :=
  match m with
  | .stm32l4 => inferInstanceAs (Decidable True)
  | .stm32h7 => inferInstanceAs (Decidable (_ ∨ _))

theorem convert_preselect (m : Mcu) (c : Config) (inputs : Inputs) (hw : Hw) (t channel : ℕ) :
    inputs.convert m (c.preselect m hw).pcsel t (getChannel m channel) =
      if Connected m c hw channel then inputs.analog t (getChannel m channel)
      else inputs.unconnected t := by
  cases m with
  | stm32l4 => rfl
  | stm32h7 =>
    simp only [Inputs.convert, Config.preselect, Connected, Function.update_apply]
    by_cases hfirst : getChannel .stm32h7 channel = getChannel .stm32h7 (c.channel ⟨0, c.pos⟩)
    · simp only [hfirst, true_or, if_true]
    · rw [if_neg hfirst]
      simp only [hfirst, false_or]

theorem hasChannel_iff {c : Config} {channel : ℕ} :
    hasChannel c channel = true ↔ ∃ i, c.channels.findIdx? (· = channel) = some i := by
  rw [hasChannel, List.contains_iff_mem, ← Option.isSome_iff_exists, List.findIdx?_isSome]
  simp

/-- What the getter returns after any number of conversions, if the ADC was off and its DMA channel
not running, and whatever the other registers held before: for a channel of the configuration the
last conversion of that channel, which is not older than a sequence, once there is one; and no
voltage for a channel that the configuration does not have. -/
theorem getChannelRaw_run (m : Mcu) (c : Config) (inputs : Inputs) (hw : Hw)
    (hoff : hw.mode = .disabled) (hdma : hw.streaming = false) (n channel : ℕ) :
    (hasChannel c channel = false →
      getChannelRaw c ((c.init m hw).run m inputs n) channel = 0xFFFF) ∧
    (hasChannel c channel = true → ∃ i < c.count, c.channels[i]? = some channel ∧
      (n ≤ i → getChannelRaw c ((c.init m hw).run m inputs n) channel = hw.data i) ∧
      (i < n → ∃ t, IsLast c.count n i t ∧
        getChannelRaw c ((c.init m hw).run m inputs n) channel =
          if Connected m c hw channel then inputs.analog t (getChannel m channel)
          else inputs.unconnected t)) := by
  have hstart := Config.started_init (c := c) (m := m) hoff hdma
  have hrun : Scanned c m inputs (c.init m hw) n ((c.init m hw).run m inputs n) :=
    scanned_run hstart n
  constructor
  · intro hno
    have hnone : c.channels.findIdx? (· = channel) = none := by
      rw [Option.eq_none_iff_forall_ne_some]
      intro i hi
      rw [hasChannel_iff.mpr ⟨i, hi⟩] at hno
      exact absurd hno (by decide)
    rw [getChannelRaw, hnone]
  · intro hyes
    obtain ⟨i, hi⟩ := hasChannel_iff.mp hyes
    obtain ⟨hlt, heq, -⟩ := List.findIdx?_eq_some_iff_getElem.mp hi
    have hget : c.channels[i] = channel := of_decide_eq_true heq
    have hchannel : c.channel ⟨i, hlt⟩ = channel := hget
    have hraw : ∀ s, getChannelRaw c s channel = s.data i := by
      intro s
      rw [getChannelRaw, hi]
    refine ⟨i, hlt, by rw [List.getElem?_eq_getElem hlt, hget], ?_, ?_⟩
    · intro hn
      rw [hraw, hrun.untouched i (Or.inl hn), hstart.data]
    · intro hn
      obtain ⟨t, ht, hdata⟩ := hrun.data ⟨i, hlt⟩ hn
      refine ⟨t, ht, ?_⟩
      rw [hraw, hdata, hchannel, hstart.pcsel, convert_preselect]

def sensorConfig : Config := ⟨[5, 20], by decide, by decide⟩

def offHw : Hw := ⟨.disabled, fun _ => 0xFFFFFFFF, fun _ => false, 7, false, 3, 9, 0, fun _ => 0⟩

def pointInputs : Inputs := ⟨fun t channel => UInt16.ofNat (100 * t + channel), fun _ => 0⟩

theorem getChannelRaw_run_sensor : ∃ t, IsLast 2 3 1 t ∧
    getChannelRaw sensorConfig ((sensorConfig.init .stm32l4 offHw).run .stm32l4 pointInputs 3) 20 =
      pointInputs.analog t 17 := by
  obtain ⟨i, hlt, hget, -, hlast⟩ :=
    (getChannelRaw_run .stm32l4 sensorConfig pointInputs offHw rfl rfl 3 20).2 rfl
  obtain rfl : i = 1 := by
    rcases Nat.lt_succ_iff_lt_or_eq.mp hlt with h0 | h1
    · obtain rfl := Nat.lt_one_iff.mp h0
      cases hget
    · exact h1
  exact hlast (by decide)

end UniHal.Adc.Acquisition
