import UniHal.Foundations.BitField

/-! # CAN messages

The message type that both drivers share, the part of the configuration that decides how
frames are sent and received, and the conversion between numbers of data bytes and the data
length codes of a frame.
-/

namespace UniHal.Can
open Foundations.BitField

/-- The library is built for classic CAN or for CAN FD (`UNI_HAL_CAN_USE_FD`). -/
inductive Build
  | classic
  | fd
  deriving DecidableEq, Repr

def Build.dataSize : Build → ℕ
  | .classic => 8
  | .fd => 64

/-- `uni_hal_can_msg_t` with room for `size` data bytes. -/
structure Msg (size : ℕ) where
  id : BitVec 32
  dlc : BitVec 8
  data : Vector (BitVec 8) size
  standardId : Bool
  remote : Bool
  fd : Bool
  brs : Bool
  esi : Bool
  deriving DecidableEq, Repr

/-- `uni_hal_can_msg_t msg = {0}` -/
def Msg.zero (size : ℕ) : Msg size :=
  { id := 0, dlc := 0, data := Vector.replicate size 0, standardId := false, remote := false,
    fd := false, brs := false, esi := false }

def Msg.byte {size : ℕ} (msg : Msg size) (i : ℕ) : BitVec 8 := msg.data[i]?.getD 0

def stdIdMask : BitVec 32 := 0x7FF

def extIdMask : BitVec 32 := 0x1FFFFFFF

def dlcMask : BitVec 32 := 0xF

@[simp] theorem getLsbD_stdIdMask (i : ℕ) : stdIdMask.getLsbD i = decide (i < 11) :=
  getLsbD_of_eq_lowMask (by omega) (show stdIdMask = lowMask 32 11 from rfl) i

@[simp] theorem getElem_stdIdMask (i : ℕ) (hi : i < 32) : stdIdMask[i] = decide (i < 11) :=
  getElem_of_eq_lowMask (show stdIdMask = lowMask 32 11 from rfl) hi

@[simp] theorem getLsbD_extIdMask (i : ℕ) : extIdMask.getLsbD i = decide (i < 29) :=
  getLsbD_of_eq_lowMask (by omega) (show extIdMask = lowMask 32 29 from rfl) i

@[simp] theorem getElem_extIdMask (i : ℕ) (hi : i < 32) : extIdMask[i] = decide (i < 29) :=
  getElem_of_eq_lowMask (show extIdMask = lowMask 32 29 from rfl) hi

@[simp] theorem getElem_dlcMask (i : ℕ) (hi : i < 32) : dlcMask[i] = decide (i < 4) :=
  getElem_of_eq_lowMask (show dlcMask = lowMask 32 4 from rfl) hi

inductive Instance
  | can1
  | can2
  deriving DecidableEq, Repr

/-- A TX buffer of FDCAN or a TX mailbox of bxCAN; both have three. -/
abbrev Slot := Fin 3

/-- The fields of `uni_hal_can_config_t` that the drivers look at after the initialisation. -/
structure Config where
  inst : Instance
  fd : Bool
  bitrateData : BitVec 32
  autoRetransmission : Bool
  autoBusOff : Bool
  txFifoPriority : Bool
  deriving DecidableEq, Repr

def fdLengths : List ℕ := [12, 16, 20, 24, 32, 48, 64]

/-- `UINT8_MAX` -/
def noDlc : ℕ := 255

def dlcFromLength (length : ℕ) (fd : Bool) : ℕ :=
  if length ≤ 8 then length
  else if fd then
    match fdLengths.idxOf? length with
    | some idx => 9 + idx
    | none => noDlc
  else noDlc

def dlcToLength (dlc : ℕ) (fd : Bool) : ℕ :=
  if dlc ≤ 8 then dlc
  else if fd && decide (dlc ≤ 15) then fdLengths.getD (dlc - 9) 0
  else 8

theorem dlcToLength_classic (dlc : ℕ) : dlcToLength dlc false = min dlc 8 := by
  by_cases h : dlc ≤ 8
  · rw [dlcToLength, if_pos h, min_eq_left h]
  · rw [dlcToLength, if_neg h, Bool.false_and, if_neg Bool.false_ne_true]
    omega

theorem dlcToLength_dlcFromLength {length : ℕ} {fd : Bool} (h : dlcFromLength length fd ≠ noDlc) :
    dlcToLength (dlcFromLength length fd) fd = length := by
  by_cases hshort : length ≤ 8
  · simp [dlcFromLength, dlcToLength, hshort]
  · cases fd with
    | false => simp [dlcFromLength, hshort] at h
    | true =>
      cases hidx : fdLengths.idxOf? length with
      | none => simp [dlcFromLength, hshort, hidx] at h
      | some idx =>
        obtain ⟨hlt, hget, -⟩ := List.idxOf?_eq_some_iff.mp hidx
        have hlen : idx < 7 := hlt
        have hlong : ¬ 9 + idx ≤ 8 := by omega
        have hcode : 9 + idx ≤ 15 := by omega
        simp only [dlcFromLength, hshort, hidx, dlcToLength, hlong, hcode, if_false, if_true,
          decide_true, Bool.and_self, Nat.add_sub_cancel_left]
        simp only [List.getD_eq_getElem?_getD, List.getElem?_eq_getElem hlt, Option.getD_some]
        simpa using hget

theorem dlcFromLength_le {length : ℕ} {fd : Bool} (h : dlcFromLength length fd ≠ noDlc) :
    dlcFromLength length fd ≤ 15 := by
  by_cases hshort : length ≤ 8
  · simp only [dlcFromLength, if_pos hshort]
    omega
  · cases fd with
    | false => simp [dlcFromLength, hshort] at h
    | true =>
      cases hidx : fdLengths.idxOf? length with
      | none => simp [dlcFromLength, hshort, hidx] at h
      | some idx =>
        have hlt : idx < 7 := (List.idxOf?_eq_some_iff.mp hidx).1
        simp only [dlcFromLength, hshort, hidx, if_false, if_true]
        omega

theorem dlcFromLength_fd_ne_iff {length : ℕ} :
    dlcFromLength length true ≠ noDlc ↔ length ≤ 8 ∨ length ∈ fdLengths := by
  by_cases hshort : length ≤ 8
  · rw [dlcFromLength, if_pos hshort, noDlc]
    simp only [hshort, true_or, iff_true]
    omega
  · cases hidx : fdLengths.idxOf? length with
    | none =>
      have hmem := List.idxOf?_eq_none_iff.mp hidx
      simp [dlcFromLength, hshort, hidx, hmem]
    | some idx =>
      obtain ⟨hlt, hget, -⟩ := List.idxOf?_eq_some_iff.mp hidx
      have hmem : length ∈ fdLengths := by
        have heq : fdLengths[idx] = length := by simpa using hget
        exact heq ▸ List.getElem_mem hlt
      have hlen : idx < 7 := hlt
      simp only [dlcFromLength, hshort, hidx, if_false, if_true, noDlc, hmem, or_true, iff_true]
      omega

end UniHal.Can
