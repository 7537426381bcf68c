import UniHal.Crc.Unit

/-! # Feeding data to the CRC unit

`uni_hal_crc_append` of both drivers. The STM32L4 driver writes the data byte by byte. The
STM32H7 driver writes words, which it reads from memory and swaps where the data is aligned and
puts together from bytes where it is not, and then a tail of up to three bytes. Both feed the
same bytes, whatever the alignment and however a message is split.
-/

namespace UniHal.Crc
open Foundations.BitDivision

/-- A block of data in memory. The null pointer is `none`. -/
structure Buffer where
  addr : ℕ
  bytes : List (BitVec 8)

namespace Buffer

/-- `data[idx]` -/
def byte (b : Buffer) (idx : ℕ) : BitVec 8 := b.bytes.getD idx 0

/-- `((const uint32_t *) data)[idx]`: memory is little-endian. -/
def word32 (b : Buffer) (idx : ℕ) : BitVec 32 :=
  word (b.byte (4 * idx + 3)) (b.byte (4 * idx + 2)) (b.byte (4 * idx + 1)) (b.byte (4 * idx))

/-- The first `n` bytes. -/
def upTo (b : Buffer) (n : ℕ) : List (BitVec 8) := (List.range n).map b.byte

@[simp] theorem upTo_zero (b : Buffer) : b.upTo 0 = [] := rfl

@[simp] theorem upTo_succ (b : Buffer) (n : ℕ) : b.upTo (n + 1) = b.upTo n ++ [b.byte n] := by
  rw [upTo, List.range_succ, List.map_append]
  rfl

theorem upTo_length (b : Buffer) : b.upTo b.bytes.length = b.bytes := by
  apply List.ext_getElem
  · simp [upTo]
  · intro i _ hi
    simp [upTo, byte, hi]

end Buffer

def feedWords (P : Platform) (b : Buffer) (count : ℕ) (r : Regs) : Regs :=
  if b.addr % 4 = 0 then
    (List.range count).foldl (fun r idx => r.feedData32 P (P.swap32 (b.word32 idx))) r
  else
    (List.range count).foldl (fun r idx => r.feedData32 P
      (word (b.byte (4 * idx)) (b.byte (4 * idx + 1)) (b.byte (4 * idx + 2))
        (b.byte (4 * idx + 3)))) r

def feedTail (P : Platform) (b : Buffer) (idx : ℕ) (r : Regs) : Regs :=
  match b.bytes.length % 4 with
  | 1 => r.feedData8 P (b.byte (4 * idx))
  | 2 => r.feedData16 P (half (b.byte (4 * idx)) (b.byte (4 * idx + 1)))
  | 3 => (r.feedData16 P (half (b.byte (4 * idx)) (b.byte (4 * idx + 1)))).feedData8 P
      (b.byte (4 * idx + 2))
  | _ => r

/-- `uni_hal_crc_append` of the STM32H7 driver. -/
def Stm32h7.append (P : Platform) (ctx : Option Context) (data : Option Buffer) (r : Regs) :
    Bool × Regs :=
  match data with
  | none => (false, r)
  | some b =>
    if isInited ctx then
      let idx := b.bytes.length / 4
      (true, feedTail P b idx (feedWords P b idx r))
    else (false, r)

/-- `uni_hal_crc_append` of the STM32L4 driver. -/
def Stm32l4.append (P : Platform) (ctx : Option Context) (data : Option Buffer) (r : Regs) :
    Bool × Regs :=
  match data with
  | none => (false, r)
  | some b =>
    if isInited ctx then
      (true, (List.range b.bytes.length).foldl (fun r idx => r.feedData8 P (b.byte idx)) r)
    else (false, r)

/-- The code of `uni_hal_crc_append` of a driver. -/
abbrev Append := Option Context → Option Buffer → Regs → Bool × Regs

/-- `uni_hal_crc_calculate`, the same text in both drivers. -/
def calculate (feed : Append) (ctx : Option Context) (data : Option Buffer) (r : Regs) :
    BitVec 32 × Regs :=
  if isInited ctx ∧ data.isSome then
    let r := (reset ctx r).2
    let r := (feed ctx data r).2
    (getValue ctx r, r)
  else (0, r)

/-- `uni_hal_crc_calculate_ex`, the same text in both drivers. -/
def calculateEx (feed : Append) (ctx : Option Context) (value : BitVec 32)
    (data : Option Buffer) (r : Regs) : BitVec 32 × Regs :=
  if isInited ctx ∧ data.isSome then
    let r := (resetEx ctx value r).2
    let r := (feed ctx data r).2
    (getValue ctx r, r)
  else (0, r)

variable (P : Platform)

theorem foldl_feedData8 (b : Buffer) (n : ℕ) (r : Regs) :
    (List.range n).foldl (fun r idx => r.feedData8 P (b.byte idx)) r = r.feedBytes P (b.upTo n) :=
  (List.foldl_map).symm

/-- Both ways to get a word from memory feed its bytes in the order in which they lie there. -/
theorem feedWords_eq (b : Buffer) (count : ℕ) (r : Regs) :
    feedWords P b count r = r.feedBytes P (b.upTo (4 * count)) := by
  unfold feedWords
  induction count with
  | zero => split <;> rfl
  | succ n ih =>
    have hupTo : b.upTo (4 * (n + 1)) = b.upTo (4 * n) ++
        [b.byte (4 * n), b.byte (4 * n + 1), b.byte (4 * n + 2), b.byte (4 * n + 3)] := by
      rw [show 4 * (n + 1) = 4 * n + 1 + 1 + 1 + 1 by ring]
      simp only [Buffer.upTo_succ, List.append_assoc, List.cons_append, List.nil_append]
    rw [hupTo, Regs.feedBytes_append, ← ih]
    split
    · rw [List.range_succ, List.foldl_append, List.foldl_cons, List.foldl_nil,
        Regs.feedData32_eq]
      obtain ⟨h3, h2, h1, h0⟩ := P.byte_swap32 (b.word32 n)
      obtain ⟨k3, k2, k1, k0⟩ := byte_word (b.byte (4 * n + 3)) (b.byte (4 * n + 2))
        (b.byte (4 * n + 1)) (b.byte (4 * n))
      rw [h3, h2, h1, h0, Buffer.word32, k3, k2, k1, k0]
    · rw [List.range_succ, List.foldl_append, List.foldl_cons, List.foldl_nil,
        Regs.feedData32_eq]
      obtain ⟨k3, k2, k1, k0⟩ := byte_word (b.byte (4 * n)) (b.byte (4 * n + 1))
        (b.byte (4 * n + 2)) (b.byte (4 * n + 3))
      rw [k3, k2, k1, k0]

theorem feedTail_eq (b : Buffer) (r : Regs) :
    feedTail P b (b.bytes.length / 4) (r.feedBytes P (b.upTo (4 * (b.bytes.length / 4)))) =
      r.feedBytes P b.bytes := by
  have hsplit : b.bytes.length = 4 * (b.bytes.length / 4) + b.bytes.length % 4 :=
    (Nat.div_add_mod _ _).symm
  have hhalf := byte_half (b.byte (4 * (b.bytes.length / 4)))
    (b.byte (4 * (b.bytes.length / 4) + 1))
  have hbytes : r.feedBytes P b.bytes = r.feedBytes P
      (b.upTo (4 * (b.bytes.length / 4) + b.bytes.length % 4)) := by
    rw [← hsplit, Buffer.upTo_length]
  rw [hbytes, feedTail]
  have hlt : b.bytes.length % 4 < 4 := Nat.mod_lt _ (by decide)
  generalize b.bytes.length % 4 = tail at hlt
  interval_cases tail
  · rfl
  · rw [Buffer.upTo_succ, Regs.feedBytes_append]
    rfl
  · simp only [Regs.feedData16_eq, hhalf, Buffer.upTo_succ, Regs.feedBytes_append]
    rfl
  · simp only [Regs.feedData16_eq, hhalf, Buffer.upTo_succ, Regs.feedBytes_append]
    rfl

theorem Stm32h7.append_eq {ctx : Option Context} (h : isInited ctx = true) (b : Buffer)
    (r : Regs) : Stm32h7.append P ctx (some b) r = (true, r.feedBytes P b.bytes) := by
  simp only [Stm32h7.append, h, if_true, feedWords_eq, feedTail_eq]

theorem Stm32l4.append_eq {ctx : Option Context} (h : isInited ctx = true) (b : Buffer)
    (r : Regs) : Stm32l4.append P ctx (some b) r = (true, r.feedBytes P b.bytes) := by
  simp only [Stm32l4.append, h, if_true, foldl_feedData8, Buffer.upTo_length]

theorem Stm32h7.append_eq_l4 : Stm32h7.append P = Stm32l4.append P := by
  funext ctx data r
  cases data with
  | none => rfl
  | some b =>
    cases h : isInited ctx with
    | true => rw [Stm32h7.append_eq P h, Stm32l4.append_eq P h]
    | false => simp [Stm32h7.append, Stm32l4.append, h]

/-- Consecutive calls of the STM32H7 driver on the parts of a message. -/
def appendAll (ctx : Option Context) (parts : List Buffer) (r : Regs) : Regs :=
  parts.foldl (fun r b => (Stm32h7.append P ctx (some b) r).2) r

theorem appendAll_eq {ctx : Option Context} (h : isInited ctx = true) (parts : List Buffer)
    (r : Regs) : appendAll P ctx parts r = r.feedBytes P (parts.map Buffer.bytes).flatten := by
  induction parts generalizing r with
  | nil => rfl
  | cons b parts ih =>
    rw [List.map_cons, List.flatten_cons, Regs.feedBytes_append, ← ih]
    exact congrArg (fun x => appendAll P ctx parts x.2) (Stm32h7.append_eq P h b r)

/-- However a message is split and wherever its parts lie, the STM32H7 driver computes what the
STM32L4 driver computes of the whole, for every content of the registers of the unit. -/
theorem appendAll_value_eq (ctx : Option Context) (parts : List Buffer) (addr : ℕ) (r : Regs) :
    getValue ctx (appendAll P ctx parts r) =
      getValue ctx
        (Stm32l4.append P ctx (some ⟨addr, (parts.map Buffer.bytes).flatten⟩) r).2 := by
  cases h : isInited ctx with
  | true => rw [appendAll_eq P h, Stm32l4.append_eq P h]
  | false =>
    have hzero : ∀ r, getValue ctx r = 0 := by
      intro r
      cases ctx with
      | none => rfl
      | some c =>
        have hc : c.initialized = false := h
        simp [getValue, hc]
    rw [hzero, hzero]

end UniHal.Crc
