import UniHal.Foundations.ByteStore

/-! # Address ranges of the STM32H7 flash

`uni_hal_flash_read`, `uni_hal_flash_write` and `uni_hal_flash_erase`, with what the vendor HAL
does below them: every byte they reach, and what the memory holds afterwards.
-/

namespace UniHal.Flash
open Foundations ByteStore

/-- `FLASH_BASE`, which is also `FLASH_BANK1_BASE` -/
def flashBase : BitVec 32 := 0x08000000

def bank2Base : BitVec 32 := 0x08100000

/-- `FLASH_END`, the last byte -/
def flashEnd : BitVec 32 := 0x081FFFFF

/-- `FLASH_SECTOR_TOTAL`, the sectors of one bank -/
def sectorTotal : BitVec 32 := 8

def sectorSize : BitVec 32 := 0x20000

inductive Bank
  | bank1
  | bank2
  deriving DecidableEq, Repr

def Bank.base : Bank → BitVec 32
  | .bank1 => flashBase
  | .bank2 => bank2Base

def sectorStart (bank : Bank) (sector : BitVec 32) : BitVec 32 := bank.base + sector * sectorSize

abbrev Blocks := List (BitVec 32 × ℕ)

/-- The byte belongs to one of the blocks. -/
def Touched (blocks : Blocks) (x : BitVec 32) : Prop := ∃ b ∈ blocks, InBlock b.1 b.2 x

/-- What a call returned, the bytes of the flash that it reached, and what it leaves. -/
structure Outcome (α : Type) where
  result : α
  touched : Blocks
  memory : Store 32

/-- `uni_hal_flash_read`; the bytes it copies come with the result. -/
def read (addr size : BitVec 32) (dst : Bool) (m : Store 32) :
    Outcome (BitVec 32 × List UInt8) :=
  if !dst ∨ size = 0 ∨ addr < flashBase ∨ addr ≥ flashEnd then ⟨(0, []), [], m⟩
  else
    ⟨(size, (List.range size.toNat).map fun i => m (addr + BitVec.ofNat 32 i)),
      [(addr, size.toNat)], m⟩

structure Attempt where
  ok : Bool
  residue : ℕ → UInt8

/-- The statuses that the vendor HAL returns: for unlocking the flash, for the operation before an
erase, and for each programmed word or erased sector. -/
structure Hal where
  unlocked : Bool
  ready : Bool
  attempt : ℕ → Attempt

/-- `HAL_FLASH_Program` of one flash word of 32 bytes. -/
def program (a : Attempt) (addr : BitVec 32) (data : ℕ → UInt8) (m : Store 32) : Store 32 :=
  ByteStore.write m addr 32 (if a.ok then data else a.residue)

/-- The loop of `uni_hal_flash_write` with `words` flash words to go, `i` bytes having been
written. -/
def writeLoop (hal : Hal) (addr : BitVec 32) (data : ℕ → UInt8) :
    (words i : ℕ) → Store 32 → Outcome ℕ
  | 0, i, m => ⟨i, [], m⟩
  | words + 1, i, m =>
    let a := hal.attempt (i / 32)
    let dest := addr + BitVec.ofNat 32 i
    let m := program a dest (fun k => data (i + k)) m
    if a.ok then
      let r := writeLoop hal addr data words (i + 32) m
      ⟨r.result, (dest, 32) :: r.touched, r.memory⟩
    else ⟨i, [(dest, 32)], m⟩

def write (hal : Hal) (addr size : BitVec 32) (dst : Option (ℕ → UInt8)) (m : Store 32) :
    Outcome ℕ :=
  match dst with
  | none => ⟨0, [], m⟩
  | some data =>
    if size = 0 ∨ size % 32 ≠ 0 ∨ addr < flashBase ∨ addr ≥ flashEnd then ⟨0, [], m⟩
    else if addr % 32 ≠ 0 ∨ size > (flashEnd - addr) + 1 then ⟨0, [], m⟩
    else if !hal.unlocked then ⟨0, [], m⟩
    else writeLoop hal addr data (size.toNat / 32) 0 m

/-- `FLASH_Erase_Sector` and the wait for its end. -/
def eraseSector (a : Attempt) (bank : Bank) (sector : BitVec 32) (m : Store 32) : Store 32 :=
  ByteStore.write m (sectorStart bank sector) sectorSize.toNat
    (if a.ok then fun _ => 0xFF else a.residue)

structure Erased where
  ok : Bool
  sectors : List (Bank × BitVec 32)
  memory : Store 32

/-- The loop of `HAL_FLASHEx_Erase`, which stops at the first faulty sector. -/
def eraseLoop (hal : Hal) (bank : Bank) : (nbSectors : ℕ) → (sector : BitVec 32) → Store 32 →
    Erased
  | 0, _, m => ⟨true, [], m⟩
  | n + 1, sector, m =>
    let a := hal.attempt sector.toNat
    let m := eraseSector a bank sector m
    if a.ok then
      let r := eraseLoop hal bank n (sector + 1) m
      ⟨r.ok, (bank, sector) :: r.sectors, r.memory⟩
    else ⟨false, [(bank, sector)], m⟩

/-- The bank that `uni_hal_flash_erase` selects. -/
def eraseBank (addr : BitVec 32) : Bank := if addr < bank2Base then .bank1 else .bank2

def erase (hal : Hal) (addr size : BitVec 32) (m : Store 32) : Erased :=
  if size = 0 ∨ addr < flashBase ∨ addr > flashEnd then ⟨false, [], m⟩
  else
    let offset := addr - (eraseBank addr).base
    if size > sectorTotal * sectorSize - offset then ⟨false, [], m⟩
    else
      let startSector := offset / sectorSize
      let nbSector := (offset + size - 1) / sectorSize - startSector + 1
      if !hal.unlocked then ⟨false, [], m⟩
      else if !hal.ready then ⟨false, [], m⟩
      else eraseLoop hal (eraseBank addr) nbSector.toNat startSector m

theorem toNat_add_ofNat {a : BitVec 32} {i : ℕ} (h : a.toNat + i < 2 ^ 32) :
    (a + BitVec.ofNat 32 i).toNat = a.toNat + i := by
  rw [BitVec.toNat_add, BitVec.toNat_ofNat, Nat.mod_eq_of_lt (show i < 2 ^ 32 by omega),
    Nat.mod_eq_of_lt h]

/-- The memory after the word at offset `i` has been programmed. -/
def programmed (addr : BitVec 32) (data : ℕ → UInt8) (i : ℕ) (m : Store 32) : Store 32 :=
  ByteStore.write m (addr + BitVec.ofNat 32 i) 32 fun k => data (i + k)

section WriteLoop
variable {hal : Hal} {addr : BitVec 32} {data : ℕ → UInt8} {words i : ℕ} {m : Store 32}

theorem writeLoop_succ_ok (h : (hal.attempt (i / 32)).ok = true) :
    writeLoop hal addr data (words + 1) i m =
      let dest := addr + BitVec.ofNat 32 i
      let r := writeLoop hal addr data words (i + 32) (programmed addr data i m)
      ⟨r.result, (dest, 32) :: r.touched, r.memory⟩ := by
  simp only [writeLoop, program, programmed, h, if_true]

theorem writeLoop_succ_fail (h : (hal.attempt (i / 32)).ok = false) :
    writeLoop hal addr data (words + 1) i m =
      let dest := addr + BitVec.ofNat 32 i
      ⟨i, [(dest, 32)], ByteStore.write m dest 32 (hal.attempt (i / 32)).residue⟩ := by
  simp only [writeLoop, program, h, Bool.false_eq_true, if_false]

theorem inBlock_word (h : addr.toNat + i + 32 ≤ 2 ^ 32) (x : BitVec 32) :
    InBlock (addr + BitVec.ofNat 32 i) 32 x ↔
      addr.toNat + i ≤ x.toNat ∧ x.toNat < addr.toNat + i + 32 := by
  have hto : (addr + BitVec.ofNat 32 i).toNat = addr.toNat + i := toNat_add_ofNat (by omega)
  rw [inBlock_iff (by omega), hto]

theorem writeLoop_result (hal : Hal) (addr : BitVec 32) (data : ℕ → UInt8) (words i : ℕ)
    (m : Store 32) :
    i ≤ (writeLoop hal addr data words i m).result ∧
      (writeLoop hal addr data words i m).result ≤ i + 32 * words := by
  induction words generalizing i m with
  | zero => exact ⟨le_refl i, le_refl i⟩
  | succ words ih =>
    cases h : (hal.attempt (i / 32)).ok with
    | false =>
      rw [writeLoop_succ_fail h]
      exact ⟨le_refl i, Nat.le_add_right _ _⟩
    | true =>
      rw [writeLoop_succ_ok h]
      have hrest := ih (i + 32) (programmed addr data i m)
      dsimp only
      omega

/-- The loop reaches no byte outside the words that it was given. -/
theorem writeLoop_touched (h : addr.toNat + i + 32 * words ≤ 2 ^ 32) {x : BitVec 32}
    (hx : Touched (writeLoop hal addr data words i m).touched x) :
    addr.toNat + i ≤ x.toNat ∧ x.toNat < addr.toNat + i + 32 * words := by
  induction words generalizing i m with
  | zero =>
    obtain ⟨b, hb, -⟩ := hx
    cases hb
  | succ words ih =>
    cases hok : (hal.attempt (i / 32)).ok with
    | false =>
      rw [writeLoop_succ_fail hok] at hx
      obtain ⟨b, hb, hin⟩ := hx
      rw [List.mem_singleton.mp hb, inBlock_word (by omega)] at hin
      omega
    | true =>
      rw [writeLoop_succ_ok hok] at hx
      obtain ⟨b, hb, hin⟩ := hx
      rcases List.mem_cons.mp hb with rfl | hb
      · rw [inBlock_word (by omega)] at hin
        omega
      · have hrest := ih (i := i + 32) (by omega) ⟨b, hb, hin⟩
        omega

/-- Behind the bytes that the loop counts, only a word that failed may change. -/
theorem writeLoop_kept (h : addr.toNat + i + 32 * words ≤ 2 ^ 32) {x : BitVec 32}
    (hx : ¬ (addr.toNat + i ≤ x.toNat ∧
      x.toNat < addr.toNat + (writeLoop hal addr data words i m).result)) :
    (writeLoop hal addr data words i m).memory x = m x ∨
      ((writeLoop hal addr data words i m).result < i + 32 * words ∧
        addr.toNat + (writeLoop hal addr data words i m).result ≤ x.toNat ∧
        x.toNat < addr.toNat + (writeLoop hal addr data words i m).result + 32) := by
  induction words generalizing i m with
  | zero => exact .inl rfl
  | succ words ih =>
    cases hok : (hal.attempt (i / 32)).ok with
    | false =>
      rw [writeLoop_succ_fail hok]
      by_cases hin : InBlock (addr + BitVec.ofNat 32 i) 32 x
      · rw [inBlock_word (by omega)] at hin
        exact .inr ⟨by dsimp only; omega, hin⟩
      · exact .inl (write_outside m _ hin)
    | true =>
      rw [writeLoop_succ_ok hok] at hx ⊢
      dsimp only at hx ⊢
      have hresult := (writeLoop_result hal addr data words (i + 32)
        (programmed addr data i m)).1
      have hout : ¬ InBlock (addr + BitVec.ofNat 32 i) 32 x := by
        rw [inBlock_word (by omega)]
        omega
      rcases ih (i := i + 32) (m := programmed addr data i m) (by omega)
        (fun hin => hx (by omega)) with hsame | hfail
      · exact .inl (hsame.trans (write_outside m _ hout))
      · exact .inr (by omega)

theorem writeLoop_written (h : addr.toNat + i + 32 * words ≤ 2 ^ 32) {x : BitVec 32}
    (hx : addr.toNat + i ≤ x.toNat ∧
      x.toNat < addr.toNat + (writeLoop hal addr data words i m).result) :
    (writeLoop hal addr data words i m).memory x = data (x.toNat - addr.toNat) := by
  induction words generalizing i m with
  | zero =>
    have hresult := (writeLoop_result hal addr data 0 i m).2
    omega
  | succ words ih =>
    cases hok : (hal.attempt (i / 32)).ok with
    | false =>
      rw [writeLoop_succ_fail hok] at hx
      dsimp only at hx
      omega
    | true =>
      rw [writeLoop_succ_ok hok] at hx ⊢
      dsimp only at hx ⊢
      by_cases hlater : addr.toNat + (i + 32) ≤ x.toNat
      · exact ih (by omega) ⟨hlater, hx.2⟩
      · have hresult := (writeLoop_result hal addr data words (i + 32)
          (programmed addr data i m)).1
        have hin : InBlock (addr + BitVec.ofNat 32 i) 32 x := by
          rw [inBlock_word (by omega)]
          omega
        have hto : (addr + BitVec.ofNat 32 i).toNat = addr.toNat + i :=
          toNat_add_ofNat (by omega)
        have hsub : (x - (addr + BitVec.ofNat 32 i)).toNat = x.toNat - (addr.toNat + i) := by
          rw [BitVec.toNat_sub_of_le (by rw [BitVec.le_def]; omega), hto]
        have hprogrammed : programmed addr data i m x = data (x.toNat - addr.toNat) := by
          rw [programmed, write_inside m _ hin, hsub]
          congr 1
          omega
        -- the words after this one leave it as it was programmed
        have hbehind : ¬ (addr.toNat + (i + 32) ≤ x.toNat ∧ x.toNat < addr.toNat +
            (writeLoop hal addr data words (i + 32) (programmed addr data i m)).result) :=
          fun hin => hlater hin.1
        rcases writeLoop_kept (by omega) hbehind with hsame | hfail
        · rw [hsame, hprogrammed]
        · omega

end WriteLoop

def InSector (bank : Bank) (sector : BitVec 32) (x : BitVec 32) : Prop :=
  InBlock (sectorStart bank sector) sectorSize.toNat x

instance (bank : Bank) (sector x : BitVec 32) : Decidable (InSector bank sector x) :=
  inferInstanceAs (Decidable (InBlock _ _ _))

theorem base_le (bank : Bank) : bank.base.toNat ≤ 0x08100000 := by
  cases bank <;> decide

theorem inSector_iff {bank : Bank} {sector : BitVec 32} (h : sector.toNat < 8) (x : BitVec 32) :
    InSector bank sector x ↔
      bank.base.toNat + sector.toNat * 0x20000 ≤ x.toNat ∧
        x.toNat < bank.base.toNat + (sector.toNat + 1) * 0x20000 := by
  have hbase := base_le bank
  have hsize : sectorSize.toNat = 0x20000 := rfl
  have hstart : (sectorStart bank sector).toNat =
      bank.base.toNat + sector.toNat * 0x20000 := by
    rw [sectorStart, BitVec.toNat_add, BitVec.toNat_mul, hsize]
    omega
  rw [InSector, inBlock_iff (by rw [hstart, hsize]; omega), hstart, hsize]
  omega

theorem toNat_add_one {a : BitVec 32} (h : a.toNat + 1 < 2 ^ 32) :
    (a + 1).toNat = a.toNat + 1 := by
  rw [BitVec.toNat_add, Nat.mod_eq_of_lt]
  · rfl
  · exact h

section EraseLoop
variable {hal : Hal} {bank : Bank} {n : ℕ} {sector : BitVec 32} {m : Store 32}

theorem eraseLoop_succ_ok (h : (hal.attempt sector.toNat).ok = true) :
    eraseLoop hal bank (n + 1) sector m =
      let r := eraseLoop hal bank n (sector + 1)
        (ByteStore.write m (sectorStart bank sector) sectorSize.toNat fun _ => 0xFF)
      ⟨r.ok, (bank, sector) :: r.sectors, r.memory⟩ := by
  simp only [eraseLoop, eraseSector, h, if_true]

theorem eraseLoop_succ_fail (h : (hal.attempt sector.toNat).ok = false) :
    eraseLoop hal bank (n + 1) sector m =
      ⟨false, [(bank, sector)], ByteStore.write m (sectorStart bank sector) sectorSize.toNat
        (hal.attempt sector.toNat).residue⟩ := by
  simp only [eraseLoop, eraseSector, h, Bool.false_eq_true, if_false]

/-- The sectors of the loop follow each other, all of them in the one bank. -/
theorem mem_eraseLoop (h : sector.toNat + n < 2 ^ 32) {b : Bank} {s : BitVec 32}
    (hs : (b, s) ∈ (eraseLoop hal bank n sector m).sectors) :
    b = bank ∧ sector.toNat ≤ s.toNat ∧ s.toNat < sector.toNat + n := by
  induction n generalizing sector m with
  | zero => cases hs
  | succ n ih =>
    cases hok : (hal.attempt sector.toNat).ok with
    | false =>
      rw [eraseLoop_succ_fail hok, List.mem_singleton, Prod.mk.injEq] at hs
      rw [hs.2]
      exact ⟨hs.1, by omega⟩
    | true =>
      rw [eraseLoop_succ_ok hok] at hs
      rcases List.mem_cons.mp hs with heq | hs
      · rw [Prod.mk.injEq] at heq
        rw [heq.2]
        exact ⟨heq.1, by omega⟩
      · have hnext := toNat_add_one (a := sector) (by omega)
        have hrest := ih (by omega) hs
        exact ⟨hrest.1, by omega⟩

theorem mem_eraseLoop_of_ok (h : sector.toNat + n < 2 ^ 32)
    (hok : (eraseLoop hal bank n sector m).ok = true) {s : BitVec 32}
    (hs : sector.toNat ≤ s.toNat ∧ s.toNat < sector.toNat + n) :
    (bank, s) ∈ (eraseLoop hal bank n sector m).sectors := by
  induction n generalizing sector m with
  | zero => omega
  | succ n ih =>
    cases hattempt : (hal.attempt sector.toNat).ok with
    | false =>
      rw [eraseLoop_succ_fail hattempt] at hok
      cases hok
    | true =>
      rw [eraseLoop_succ_ok hattempt] at hok ⊢
      by_cases heq : s = sector
      · rw [heq]
        exact List.mem_cons_self
      · have hne : s.toNat ≠ sector.toNat := fun h => heq (BitVec.eq_of_toNat_eq h)
        have hnext := toNat_add_one (a := sector) (by omega)
        exact List.mem_cons_of_mem _ (ih (by omega) hok (by omega))

theorem eraseLoop_kept {x : BitVec 32}
    (hx : ∀ s, (bank, s) ∈ (eraseLoop hal bank n sector m).sectors → ¬ InSector bank s x) :
    (eraseLoop hal bank n sector m).memory x = m x := by
  induction n generalizing sector m with
  | zero => rfl
  | succ n ih =>
    cases hattempt : (hal.attempt sector.toNat).ok with
    | false =>
      rw [eraseLoop_succ_fail hattempt] at hx ⊢
      exact write_outside m _ (hx sector (List.mem_singleton.mpr rfl))
    | true =>
      rw [eraseLoop_succ_ok hattempt] at hx ⊢
      have hrest := ih fun s hs => hx s (List.mem_cons_of_mem _ hs)
      exact hrest.trans (write_outside m _ (hx sector List.mem_cons_self))

/-- A loop without a faulty sector leaves all of them erased. -/
theorem eraseLoop_erased (h : sector.toNat + n ≤ 8)
    (hok : (eraseLoop hal bank n sector m).ok = true) {s x : BitVec 32}
    (hs : sector.toNat ≤ s.toNat ∧ s.toNat < sector.toNat + n) (hx : InSector bank s x) :
    (eraseLoop hal bank n sector m).memory x = 0xFF := by
  induction n generalizing sector m with
  | zero => omega
  | succ n ih =>
    cases hattempt : (hal.attempt sector.toNat).ok with
    | false =>
      rw [eraseLoop_succ_fail hattempt] at hok
      cases hok
    | true =>
      rw [eraseLoop_succ_ok hattempt] at hok ⊢
      have hnext := toNat_add_one (a := sector) (by omega)
      by_cases heq : s = sector
      · rw [heq] at hx
        -- the later sectors of the loop do not reach this one
        have hlater : ∀ t, (bank, t) ∈ (eraseLoop hal bank n (sector + 1) (ByteStore.write m
            (sectorStart bank sector) sectorSize.toNat fun _ => 0xFF)).sectors →
            ¬ InSector bank t x := by
          intro t ht hin
          have hbound := (mem_eraseLoop (by omega) ht).2
          rw [inSector_iff (by omega)] at hin hx
          omega
        exact (eraseLoop_kept hlater).trans (write_inside m _ hx)
      · have hne : s.toNat ≠ sector.toNat := fun h => heq (BitVec.eq_of_toNat_eq h)
        exact ih (by omega) hok (by omega)

end EraseLoop

def InFlash (x : BitVec 32) : Prop := flashBase.toNat ≤ x.toNat ∧ x.toNat ≤ flashEnd.toNat

/-- A call that reaches any byte has a range that does not wrap, and reaches bytes of the flash
only. -/
structure StaysInside (addr size : BitVec 32) (touched : Blocks) : Prop where
  noWrap : touched ≠ [] → addr.toNat + size.toNat ≤ 2 ^ 32
  inside : ∀ x, Touched touched x → InFlash x

/-- The memory holds a prefix of the data at the address; behind it, only a word that could not be
programmed may have changed. -/
structure WritesPrefix (addr size : BitVec 32) (data : ℕ → UInt8) (m : Store 32)
    (r : Outcome ℕ) : Prop where
  le : r.result ≤ size.toNat
  written : ∀ x, InBlock addr r.result x → r.memory x = data (x - addr).toNat
  kept : ∀ x, ¬ InBlock addr r.result x → r.memory x = m x ∨
    (r.result < size.toNat ∧ InBlock (addr + BitVec.ofNat 32 r.result) 32 x)

def Intersects (bank : Bank) (sector addr size : BitVec 32) : Prop :=
  ∃ x, InSector bank sector x ∧ InBlock addr size.toNat x

/-- The bank holds the address. -/
def Bank.Holds (bank : Bank) (addr : BitVec 32) : Prop :=
  InBlock bank.base (sectorTotal.toNat * sectorSize.toNat) addr

/-- An erase takes sectors of the range in the bank of the address only, all of them where it
succeeds, and leaves the other bytes. -/
structure ErasesExactly (addr size : BitVec 32) (m : Store 32) (r : Erased) : Prop where
  sound : ∀ bank sector, (bank, sector) ∈ r.sectors →
    bank.Holds addr ∧ sector.toNat < sectorTotal.toNat ∧ Intersects bank sector addr size
  complete : r.ok = true → ∀ bank sector, sector.toNat < sectorTotal.toNat →
    Intersects bank sector addr size → (bank, sector) ∈ r.sectors
  erased : r.ok = true → ∀ bank sector x, (bank, sector) ∈ r.sectors →
    InSector bank sector x → r.memory x = 0xFF
  kept : ∀ x, (∀ bank sector, (bank, sector) ∈ r.sectors → ¬ InSector bank sector x) →
    r.memory x = m x

def Erased.touched (r : Erased) : Blocks :=
  r.sectors.map fun p => (sectorStart p.1 p.2, sectorSize.toNat)

/-- What the three calls owe to the ranges that they accept. -/
structure RangeSafe (addr size : BitVec 32) : Prop where
  read : ∀ dst m, StaysInside addr size (read addr size dst m).touched
  write : ∀ hal dst m, StaysInside addr size (write hal addr size dst m).touched
  writesPrefix : ∀ hal data m,
    WritesPrefix addr size data m (Flash.write hal addr size (some data) m)
  erase : ∀ hal m, StaysInside addr size (erase hal addr size m).touched
  erasesExactly : ∀ hal m, ErasesExactly addr size m (Flash.erase hal addr size m)

/-- The number of bytes from an address to the end of the flash. -/
theorem toNat_left (addr : BitVec 32) (h : addr.toNat < flashEnd.toNat) :
    (flashEnd - addr + 1).toNat = flashEnd.toNat - addr.toNat + 1 := by
  have hsub : (flashEnd - addr).toNat = flashEnd.toNat - addr.toNat :=
    BitVec.toNat_sub_of_le (BitVec.le_def.mpr h.le)
  have hend : flashEnd.toNat < 2 ^ 32 - 1 := by decide
  rw [toNat_add_one (by omega), hsub]

theorem write_cases (hal : Hal) (addr size : BitVec 32) (data : ℕ → UInt8) (m : Store 32) :
    Flash.write hal addr size (some data) m = ⟨0, [], m⟩ ∨
      (flashBase.toNat ≤ addr.toNat ∧ addr.toNat + size.toNat ≤ flashEnd.toNat + 1 ∧
        32 * (size.toNat / 32) = size.toNat ∧
        Flash.write hal addr size (some data) m =
          writeLoop hal addr data (size.toNat / 32) 0 m) := by
  by_cases hrange : size = 0 ∨ size % 32 ≠ 0 ∨ addr < flashBase ∨ addr ≥ flashEnd
  · exact .inl (if_pos hrange)
  · by_cases hend : addr % 32 ≠ 0 ∨ size > (flashEnd - addr) + 1
    · left
      rw [Flash.write, if_neg hrange, if_pos hend]
    · cases hunlocked : hal.unlocked with
      | false =>
        left
        rw [Flash.write, if_neg hrange, if_neg hend, hunlocked]
        rfl
      | true =>
        right
        have hwrite : Flash.write hal addr size (some data) m =
            writeLoop hal addr data (size.toNat / 32) 0 m := by
          rw [Flash.write, if_neg hrange, if_neg hend, hunlocked]
          rfl
        simp only [not_or, not_not, BitVec.not_lt, ge_iff_le, gt_iff_lt, BitVec.not_le]
          at hrange hend
        have hbase : flashBase.toNat ≤ addr.toNat := BitVec.le_def.mp hrange.2.2.1
        have hlast : addr.toNat < flashEnd.toNat := BitVec.lt_def.mp hrange.2.2.2
        have hwords : size.toNat % 32 = 0 := congrArg BitVec.toNat hrange.2.1
        have hsize : size.toNat ≤ (flashEnd - addr + 1).toNat := BitVec.le_def.mp hend.2
        rw [toNat_left addr hlast] at hsize
        exact ⟨hbase, by omega, by omega, hwrite⟩

theorem write_staysInside (hal : Hal) (addr size : BitVec 32) (dst : Option (ℕ → UInt8))
    (m : Store 32) : StaysInside addr size (Flash.write hal addr size dst m).touched := by
  have hempty : StaysInside addr size [] :=
    ⟨fun h => absurd rfl h, fun x ⟨b, hb, _⟩ => absurd hb List.not_mem_nil⟩
  cases dst with
  | none => exact hempty
  | some data =>
    rcases write_cases hal addr size data m with heq | ⟨hbase, hend, hwords, heq⟩
    · rw [heq]
      exact hempty
    · have hlast : flashEnd.toNat = 0x081FFFFF := rfl
      rw [heq]
      refine ⟨fun _ => by omega, fun x hx => ?_⟩
      have hin := writeLoop_touched (by omega) hx
      rw [InFlash]
      omega

theorem write_writesPrefix (hal : Hal) (addr size : BitVec 32) (data : ℕ → UInt8)
    (m : Store 32) : WritesPrefix addr size data m (Flash.write hal addr size (some data) m) := by
  rcases write_cases hal addr size data m with heq | ⟨hbase, hend, hwords, heq⟩
  · rw [heq]
    exact ⟨Nat.zero_le _, fun x hx => absurd hx (Nat.not_lt_zero _), fun x _ => .inl rfl⟩
  · have hlast : flashEnd.toNat = 0x081FFFFF := rfl
    rw [heq]
    have hresult := (writeLoop_result hal addr data (size.toNat / 32) 0 m).2
    constructor
    · omega
    · intro x hx
      rw [inBlock_iff (by omega)] at hx
      rw [writeLoop_written (by omega) (by omega),
        BitVec.toNat_sub_of_le (by rw [BitVec.le_def]; omega)]
    · intro x hx
      rw [inBlock_iff (by omega)] at hx
      have hrange : addr.toNat + 0 + 32 * (size.toNat / 32) ≤ 2 ^ 32 := by omega
      rcases writeLoop_kept hrange (fun hin => hx (by omega)) with hsame | hfail
      · exact .inl hsame
      · refine .inr ⟨by omega, ?_⟩
        exact (inBlock_word (by omega) x).mpr (by omega)

theorem toNat_offset {addr : BitVec 32} (hbase : flashBase.toNat ≤ addr.toNat)
    (hend : addr.toNat ≤ flashEnd.toNat) :
    (eraseBank addr).base.toNat ≤ addr.toNat ∧
      (addr - (eraseBank addr).base).toNat = addr.toNat - (eraseBank addr).base.toNat ∧
      addr.toNat < (eraseBank addr).base.toNat + 0x100000 := by
  have hlast : flashEnd.toNat = 0x081FFFFF := rfl
  have hsecond : bank2Base.toNat = 0x08100000 := rfl
  have hfirst : flashBase.toNat = 0x08000000 := rfl
  have hbank : (eraseBank addr).base.toNat ≤ addr.toNat ∧
      addr.toNat < (eraseBank addr).base.toNat + 0x100000 := by
    unfold eraseBank
    split
    · rename_i h
      have hlt : addr.toNat < bank2Base.toNat := BitVec.lt_def.mp h
      simp only [Bank.base]
      omega
    · rename_i h
      have hge : bank2Base.toNat ≤ addr.toNat := BitVec.le_def.mp (BitVec.not_lt.mp h)
      simp only [Bank.base]
      omega
  exact ⟨hbank.1, BitVec.toNat_sub_of_le (BitVec.le_def.mpr hbank.1), hbank.2⟩

/-- The loop of an erase covers the sectors from that of the first byte to that of the last one,
in a bank that has room for the range. -/
structure ErasePlan (addr size : BitVec 32) (start n : ℕ) : Prop where
  size_pos : 1 ≤ size.toNat
  base_le : (eraseBank addr).base.toNat ≤ addr.toNat
  room : addr.toNat - (eraseBank addr).base.toNat + size.toNat ≤ 0x100000
  start_eq : start = (addr.toNat - (eraseBank addr).base.toNat) / 0x20000
  end_eq : start + n =
    (addr.toNat - (eraseBank addr).base.toNat + size.toNat - 1) / 0x20000 + 1

theorem erasePlan_of_room {addr size : BitVec 32}
    (hrange : ¬ (size = 0 ∨ addr < flashBase ∨ addr > flashEnd))
    (hroom : ¬ size > sectorTotal * sectorSize - (addr - (eraseBank addr).base)) :
    ErasePlan addr size ((addr - (eraseBank addr).base) / sectorSize).toNat
      ((addr - (eraseBank addr).base + size - 1) / sectorSize -
        (addr - (eraseBank addr).base) / sectorSize + 1).toNat := by
  simp only [not_or, BitVec.not_lt, gt_iff_lt] at hrange hroom
  obtain ⟨hbase, hoffset, hlt⟩ :=
    toNat_offset (BitVec.le_def.mp hrange.2.1) (BitVec.le_def.mp hrange.2.2)
  have hpos : size.toNat ≠ 0 := fun h => hrange.1 (BitVec.eq_of_toNat_eq h)
  have hsector : sectorSize.toNat = 0x20000 := rfl
  have htotal : (sectorTotal * sectorSize).toNat = 0x100000 := by decide
  generalize addr - (eraseBank addr).base = offset at hoffset hroom ⊢
  have hleft : (sectorTotal * sectorSize - offset).toNat = 0x100000 - offset.toNat := by
    rw [BitVec.toNat_sub_of_le (BitVec.le_def.mpr (by omega)), htotal]
  have hsize := BitVec.le_def.mp hroom
  rw [hleft] at hsize
  have hlast : (offset + size - 1).toNat = offset.toNat + size.toNat - 1 := by
    have hsum : (offset + size).toNat = offset.toNat + size.toNat := by
      rw [BitVec.toNat_add, Nat.mod_eq_of_lt (by omega)]
    have hone : (1 : BitVec 32).toNat = 1 := rfl
    rw [BitVec.toNat_sub_of_le (BitVec.le_def.mpr (by omega)), hsum, hone]
  have hstart : (offset / sectorSize).toNat = offset.toNat / 0x20000 := by
    rw [BitVec.toNat_udiv, hsector]
  have hfinal : ((offset + size - 1) / sectorSize).toNat =
      (offset.toNat + size.toNat - 1) / 0x20000 := by
    rw [BitVec.toNat_udiv, hlast, hsector]
  have hcount : ((offset + size - 1) / sectorSize - offset / sectorSize + 1).toNat =
      (offset.toNat + size.toNat - 1) / 0x20000 - offset.toNat / 0x20000 + 1 := by
    have hsub : ((offset + size - 1) / sectorSize - offset / sectorSize).toNat =
        (offset.toNat + size.toNat - 1) / 0x20000 - offset.toNat / 0x20000 := by
      rw [BitVec.toNat_sub_of_le (BitVec.le_def.mpr (by omega)), hstart, hfinal]
    rw [toNat_add_one (by omega), hsub]
  constructor
  · omega
  · exact hbase
  · omega
  · rw [hstart, hoffset]
  · rw [hstart, hcount]
    omega

theorem erase_cases (hal : Hal) (addr size : BitVec 32) (m : Store 32) :
    Flash.erase hal addr size m = ⟨false, [], m⟩ ∨
      ∃ (start : BitVec 32) (n : ℕ), ErasePlan addr size start.toNat n ∧
        Flash.erase hal addr size m = eraseLoop hal (eraseBank addr) n start m := by
  by_cases hrange : size = 0 ∨ addr < flashBase ∨ addr > flashEnd
  · exact .inl (if_pos hrange)
  · rw [Flash.erase, if_neg hrange]
    dsimp only
    by_cases hroom : size > sectorTotal * sectorSize - (addr - (eraseBank addr).base)
    · exact .inl (if_pos hroom)
    · rw [if_neg hroom]
      cases hal.unlocked with
      | false => exact .inl rfl
      | true =>
        cases hal.ready with
        | false => exact .inl rfl
        | true => exact .inr ⟨_, _, erasePlan_of_room hrange hroom, rfl⟩

theorem banks_apart (a b : Bank) :
    a = b ∨ a.base.toNat + 0x100000 ≤ b.base.toNat ∨ b.base.toNat + 0x100000 ≤ a.base.toNat := by
  cases a <;> cases b <;> decide

/-- Between the first and the last byte of the range there are exactly the sectors that it
intersects. -/
theorem intersects_iff_of_plan {addr size : BitVec 32} {start n : ℕ}
    (h : ErasePlan addr size start n) {sector : BitVec 32} (hsector : sector.toNat < 8)
    (bank : Bank) :
    Intersects bank sector addr size ↔
      bank = eraseBank addr ∧ start ≤ sector.toNat ∧ sector.toNat < start + n := by
  obtain ⟨hpos, hbase, hroom, hstart, hend⟩ := h
  have hle := base_le (eraseBank addr)
  have hwrap : addr.toNat + size.toNat ≤ 2 ^ 32 := by omega
  constructor
  · rintro ⟨x, hin, hx⟩
    rw [inSector_iff hsector] at hin
    rw [inBlock_iff hwrap] at hx
    rcases banks_apart bank (eraseBank addr) with rfl | hbelow | habove
    · exact ⟨rfl, by omega, by omega⟩
    · omega
    · omega
  · rintro ⟨rfl, hfrom, hto⟩
    -- the first byte of the range in the sector
    have hlt : max addr.toNat ((eraseBank addr).base.toNat + sector.toNat * 0x20000) < 2 ^ 32 := by
      omega
    refine ⟨BitVec.ofNat 32 (max addr.toNat
      ((eraseBank addr).base.toNat + sector.toNat * 0x20000)), ?_, ?_⟩
    · rw [inSector_iff hsector, BitVec.toNat_ofNat, Nat.mod_eq_of_lt hlt]
      omega
    · rw [inBlock_iff hwrap, BitVec.toNat_ofNat, Nat.mod_eq_of_lt hlt]
      omega

theorem holds_of_plan {addr size : BitVec 32} {start n : ℕ} (h : ErasePlan addr size start n) :
    (eraseBank addr).Holds addr := by
  have hle := base_le (eraseBank addr)
  have hlength : sectorTotal.toNat * sectorSize.toNat = 0x100000 := rfl
  have hroom := h.room
  have hpos := h.size_pos
  rw [Bank.Holds, hlength, inBlock_iff (by omega)]
  exact ⟨h.base_le, by omega⟩

theorem erase_erasesExactly (hal : Hal) (addr size : BitVec 32) (m : Store 32) :
    ErasesExactly addr size m (Flash.erase hal addr size m) := by
  rcases erase_cases hal addr size m with heq | ⟨start, n, hplan, heq⟩
  · rw [heq]
    exact ⟨fun _ _ h => absurd h List.not_mem_nil, fun h => absurd h Bool.false_ne_true,
      fun h => absurd h Bool.false_ne_true, fun _ _ => rfl⟩
  · rw [heq]
    have htotal : sectorTotal.toNat = 8 := rfl
    have hbound : start.toNat + n ≤ 8 := by
      have hroom := hplan.room
      have hpos := hplan.size_pos
      have hend := hplan.end_eq
      omega
    constructor
    · intro bank sector hmem
      obtain ⟨rfl, hfrom, hto⟩ := mem_eraseLoop (by omega) hmem
      refine ⟨holds_of_plan hplan, by omega, ?_⟩
      exact (intersects_iff_of_plan hplan (by omega) _).mpr ⟨rfl, hfrom, hto⟩
    · intro hok bank sector hlt hsect
      rw [htotal] at hlt
      obtain ⟨rfl, hfrom, hto⟩ := (intersects_iff_of_plan hplan hlt bank).mp hsect
      exact mem_eraseLoop_of_ok (by omega) hok ⟨hfrom, hto⟩
    · intro hok bank sector x hmem hx
      obtain ⟨rfl, hfrom, hto⟩ := mem_eraseLoop (by omega) hmem
      exact eraseLoop_erased hbound hok ⟨hfrom, hto⟩ hx
    · intro x hx
      exact eraseLoop_kept fun s hs => hx _ s hs

theorem erase_staysInside (hal : Hal) (addr size : BitVec 32) (m : Store 32) :
    StaysInside addr size (Flash.erase hal addr size m).touched := by
  rcases erase_cases hal addr size m with heq | ⟨start, n, hplan, heq⟩
  · rw [heq]
    exact ⟨fun h => absurd rfl h, fun x ⟨b, hb, _⟩ => absurd hb List.not_mem_nil⟩
  · have hle := base_le (eraseBank addr)
    have hroom := hplan.room
    refine ⟨fun _ => by have := hplan.base_le; omega, ?_⟩
    rintro x ⟨b, hb, hx⟩
    obtain ⟨⟨bank, sector⟩, hmem, rfl⟩ := List.mem_map.mp hb
    obtain ⟨-, hlt, -⟩ := (erase_erasesExactly hal addr size m).sound bank sector hmem
    have hin : bank.base.toNat + sector.toNat * 0x20000 ≤ x.toNat ∧
        x.toNat < bank.base.toNat + (sector.toNat + 1) * 0x20000 := (inSector_iff hlt x).mp hx
    have htotal : sectorTotal.toNat = 8 := rfl
    have hlast : flashEnd.toNat = 0x081FFFFF := rfl
    have hfirst : flashBase.toNat = 0x08000000 := rfl
    have hbank : flashBase.toNat ≤ bank.base.toNat := by cases bank <;> decide
    have hbank' := base_le bank
    rw [InFlash]
    omega

/-- A read stays in the flash exactly when its range ends there. -/
theorem read_staysInside_iff (addr size : BitVec 32) :
    (∀ dst m, StaysInside addr size (Flash.read addr size dst m).touched) ↔
      (flashBase ≤ addr → addr < flashEnd → addr.toNat + size.toNat ≤ flashEnd.toNat + 1) := by
  have hlast : flashEnd.toNat = 0x081FFFFF := rfl
  constructor
  · intro h hbase hend
    by_contra hlong
    have hsize : size ≠ 0 := by
      rintro rfl
      have hzero : (0 : BitVec 32).toNat = 0 := rfl
      have hlt := BitVec.lt_def.mp hend
      omega
    have hguard : ¬ ((!true) = true ∨ size = 0 ∨ addr < flashBase ∨ addr ≥ flashEnd) := by
      simp only [Bool.not_true, Bool.false_eq_true, false_or, not_or, BitVec.not_lt, ge_iff_le,
        BitVec.not_le]
      exact ⟨hsize, hbase, hend⟩
    have htouched : (Flash.read addr size true fun _ => 0).touched = [(addr, size.toNat)] := by
      rw [Flash.read, if_neg hguard]
    have hsafe := h true fun _ => 0
    rw [htouched] at hsafe
    have hwrap := hsafe.noWrap (List.cons_ne_nil _ _)
    have hlt := BitVec.lt_def.mp hend
    -- the byte behind the end of the flash is read
    have hbyte := hsafe.inside 0x08200000 ⟨_, List.mem_singleton.mpr rfl,
      (inBlock_iff hwrap _).mpr (by
        have hnext : (0x08200000 : BitVec 32).toNat = 0x08200000 := rfl
        omega)⟩
    exact absurd hbyte.2 (by decide)
  · intro h dst m
    unfold Flash.read
    split
    · exact ⟨fun h => absurd rfl h, fun x ⟨b, hb, _⟩ => absurd hb List.not_mem_nil⟩
    · rename_i hguard
      simp only [not_or, BitVec.not_lt, ge_iff_le, BitVec.not_le] at hguard
      have hrange := h hguard.2.2.1 hguard.2.2.2
      refine ⟨fun _ => by omega, ?_⟩
      rintro x ⟨b, hb, hx⟩
      rw [List.mem_singleton.mp hb, inBlock_iff (by dsimp only; omega)] at hx
      have hbase := BitVec.le_def.mp hguard.2.2.1
      rw [InFlash]
      dsimp only at hx
      omega

/-- The three calls keep to the flash, a write to its prefix and an erase to its sectors, for
exactly the ranges whose end in the flash a read does not have to check. -/
theorem flash_range_safe_iff (addr size : BitVec 32) :
    RangeSafe addr size ↔
      (flashBase ≤ addr → addr < flashEnd → addr.toNat + size.toNat ≤ flashEnd.toNat + 1) := by
  rw [← read_staysInside_iff]
  refine ⟨RangeSafe.read, fun hread => ⟨hread, ?_, ?_, ?_, ?_⟩⟩
  · exact fun hal dst m => write_staysInside hal addr size dst m
  · exact fun hal data m => write_writesPrefix hal addr size data m
  · exact fun hal m => erase_staysInside hal addr size m
  · exact fun hal m => erase_erasesExactly hal addr size m

/-- A read of three bytes from the last but one. -/
theorem read_past_flash_end : ¬ ∀ addr size, RangeSafe addr size := by
  intro h
  have hsafe := (h 0x081FFFFE 3).read true fun _ => 0
  have hbyte := hsafe.inside 0x08200000 ⟨(0x081FFFFE, 3), by decide, by decide⟩
  exact absurd hbyte.2 (by decide)

end UniHal.Flash
