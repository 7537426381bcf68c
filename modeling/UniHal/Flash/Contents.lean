import UniHal.Flash.Ranges
import UniHal.Foundations.Execution

/-! # What the answers of the flash calls tell about its contents

A caller sees the answers of the calls only. From the number that a write returned and the verdict
of an erase it can tell what the flash holds, and from the state of the data cache at those calls
whether a read gets that or an older copy. Both are right after every run of calls, whatever the
hardware makes of the single words and sectors and whatever the cache keeps.
-/

namespace UniHal.Flash
open Foundations ByteStore Execution

/-- What the hardware makes of a call: the outcomes of its operations, and the bytes that
programming leaves in a flash word that was not erased. -/
structure Hardware where
  hal : Hal
  overwritten : Store 32

/-- The flash with the data cache in front of it. The region is write-through: a store updates the
byte that the cache keeps, and an erase does not. -/
structure Device where
  memory : Store 32
  /-- `SCB_CCR_DC` -/
  dcache : Bool
  cached : BitVec 32 → Option UInt8

def Device.view (d : Device) : Store 32 := fun x =>
  if d.dcache then (d.cached x).getD (d.memory x) else d.memory x

def wordStart (x : BitVec 32) : BitVec 32 := x - x % 32

/-- The whole flash word of the byte is erased. -/
def Blank (m : Store 32) (x : BitVec 32) : Prop :=
  ∀ k < 32, m (wordStart x + BitVec.ofNat 32 k) = 0xFF

/-- A call with its arguments. -/
inductive Call
  | write (addr size : BitVec 32) (data : ℕ → UInt8)
  | erase (addr size : BitVec 32)
  | read (addr size : BitVec 32)
  /-- `uni_hal_core_cm7_dcache_set` -/
  | dcacheSet (enable : Bool)

inductive Answer
  | wrote (bytes : ℕ)
  | erased (ok : Bool)
  | copied (bytes : List UInt8)
  | done

open Classical in
noncomputable def Device.call (hw : Hardware) (d : Device) : Call → Answer × Device
  | .write addr size data =>
    let r := Flash.write hw.hal addr size (some data) d.memory
    (.wrote r.result,
      { d with
        memory := fun x =>
          if InBlock addr r.result x ∧ ¬ Blank d.memory x then hw.overwritten x else r.memory x
        cached := fun x =>
          if Touched r.touched x then (d.cached x).map fun _ => data (x - addr).toNat
          else d.cached x })
  | .erase addr size =>
    let r := Flash.erase hw.hal addr size d.memory
    (.erased r.ok, { d with memory := r.memory })
  | .read addr size =>
    let r := Flash.read addr size true d.view
    (.copied r.result.2, d)
  -- the cache is emptied before it is switched on and after it was switched off
  | .dcacheSet enable =>
    (.done, if enable && d.dcache then d else { d with dcache := enable, cached := fun _ => none })

structure Known where
  stored : BitVec 32 → Option UInt8
  fresh : BitVec 32 → Bool

/-- The word of the byte is known to be erased. -/
def Known.Blank (known : Known) (x : BitVec 32) : Prop :=
  ∀ k < 32, known.stored (wordStart x + BitVec.ofNat 32 k) = some 0xFF

def InErased (addr size x : BitVec 32) : Prop :=
  ∃ bank sector, sector.toNat < sectorTotal.toNat ∧ Intersects bank sector addr size ∧
    InSector bank sector x

def Incomplete (addr size : BitVec 32) (n : ℕ) (x : BitVec 32) : Prop :=
  n < size.toNat ∧ InBlock (addr + BitVec.ofNat 32 n) 32 x

open Classical in
/-- What the answer of a call tells, when the data cache was on or off during the call. Nothing is
known of words that were written without an erase, of the word behind an incomplete write and of
the sectors of an erase that failed, and with the cache on their copies are not fresh. -/
noncomputable def Known.learn (dcache : Bool) (known : Known) : Call → Answer → Known
  | .write addr size data, .wrote n =>
    { stored := fun x =>
        if InBlock addr n x then
          if known.Blank x then some (data (x - addr).toNat) else none
        else if Incomplete addr size n x then none
        else known.stored x
      fresh := fun x =>
        if InBlock addr n x then known.Blank x || !dcache
        else if Incomplete addr size n x then !dcache
        else known.fresh x }
  | .erase addr size, .erased ok =>
    { stored := fun x =>
        if InErased addr size x then if ok then some 0xFF else none else known.stored x
      fresh := fun x => if InErased addr size x then !dcache else known.fresh x }
  | .read addr _, .copied bytes =>
    { stored := fun x =>
        match bytes[(x - addr).toNat]? with
        | some b => if known.fresh x then some b else known.stored x
        | none => known.stored x
      fresh := known.fresh }
  | .dcacheSet enable, _ =>
    { stored := known.stored
      fresh := fun x => if enable && dcache then known.fresh x else true }
  | _, _ => known

/-- The device, and what a caller knows of it that sees the answers. -/
structure Session where
  device : Device
  known : Known

/-- The cache takes in a byte or drops it at any time. -/
inductive Event
  | call (hw : Hardware) (call : Call)
  | fill (x : BitVec 32)
  | evict (x : BitVec 32)

noncomputable def Session.step (s : Session) : Event → Option Session
  | .call hw c =>
    let r := s.device.call hw c
    some ⟨r.2, s.known.learn s.device.dcache c r.1⟩
  | .fill x =>
    if s.device.dcache then
      some { s with device.cached := Function.update s.device.cached x (s.device.memory x) }
    else none
  | .evict x => some { s with device.cached := Function.update s.device.cached x none }

theorem touched_cons {b : BitVec 32 × ℕ} {blocks : Blocks} {x : BitVec 32} :
    Touched (b :: blocks) x ↔ InBlock b.1 b.2 x ∨ Touched blocks x := by
  simp [Touched]

theorem not_touched_nil {x : BitVec 32} : ¬ Touched [] x := by
  simp [Touched]

/-- The loop reaches the words that it counts and the one that failed. -/
theorem writeLoop_touched_iff {hal : Hal} {addr : BitVec 32} {data : ℕ → UInt8} {words i : ℕ}
    {m : Store 32} (h : addr.toNat + i + 32 * words ≤ 2 ^ 32) (x : BitVec 32) :
    Touched (writeLoop hal addr data words i m).touched x ↔
      addr.toNat + i ≤ x.toNat ∧
        (x.toNat < addr.toNat + (writeLoop hal addr data words i m).result ∨
          ((writeLoop hal addr data words i m).result < i + 32 * words ∧
            x.toNat < addr.toNat + (writeLoop hal addr data words i m).result + 32)) := by
  induction words generalizing i m with
  | zero =>
    simp only [writeLoop, not_touched_nil, false_iff]
    omega
  | succ words ih =>
    have hword := inBlock_word (show addr.toNat + i + 32 ≤ 2 ^ 32 by omega) x
    cases hok : (hal.attempt (i / 32)).ok with
    | false =>
      rw [writeLoop_succ_fail hok]
      simp only [touched_cons, not_touched_nil, or_false, hword]
      omega
    | true =>
      have hresult := writeLoop_result hal addr data words (i + 32) (programmed addr data i m)
      have hrest := ih (i := i + 32) (m := programmed addr data i m) (by omega)
      rw [writeLoop_succ_ok hok]
      simp only [touched_cons, hword, hrest]
      omega

theorem reached_of_touched {hal : Hal} {addr size : BitVec 32} {data : ℕ → UInt8} {m : Store 32}
    {x : BitVec 32} (hx : Touched (Flash.write hal addr size (some data) m).touched x) :
    InBlock addr (Flash.write hal addr size (some data) m).result x ∨
      Incomplete addr size (Flash.write hal addr size (some data) m).result x := by
  rcases write_cases hal addr size data m with heq | ⟨hbase, hend, hwords, heq⟩
  · rw [heq] at hx
    exact absurd hx not_touched_nil
  · have hlast : flashEnd.toNat = 0x081FFFFF := rfl
    have hresult := (writeLoop_result hal addr data (size.toNat / 32) 0 m).2
    rw [heq, writeLoop_touched_iff (by omega)] at hx
    rw [heq, inBlock_iff (by omega), Incomplete]
    by_cases hlt : (writeLoop hal addr data (size.toNat / 32) 0 m).result < size.toNat
    · rw [inBlock_word (by omega)]
      omega
    · omega

theorem touched_of_written {hal : Hal} {addr size : BitVec 32} {data : ℕ → UInt8} {m : Store 32}
    {x : BitVec 32} (hx : InBlock addr (Flash.write hal addr size (some data) m).result x) :
    Touched (Flash.write hal addr size (some data) m).touched x := by
  rcases write_cases hal addr size data m with heq | ⟨hbase, hend, hwords, heq⟩
  · rw [heq] at hx
    exact absurd hx (Nat.not_lt_zero _)
  · have hlast : flashEnd.toNat = 0x081FFFFF := rfl
    have hresult := (writeLoop_result hal addr data (size.toNat / 32) 0 m).2
    rw [heq, inBlock_iff (by omega)] at hx
    rw [heq, writeLoop_touched_iff (by omega)]
    omega

/-- What the caller knows is so. -/
structure Session.Agrees (s : Session) : Prop where
  stored : ∀ x v, s.known.stored x = some v → s.device.memory x = v
  fresh : s.device.dcache = true → ∀ x, s.known.fresh x = true → ∀ b, s.device.cached x = some b →
    b = s.device.memory x

theorem Session.Agrees.blank {s : Session} (h : s.Agrees) {x : BitVec 32} (hx : s.known.Blank x) :
    Blank s.device.memory x := fun k hk => h.stored _ _ (hx k hk)

theorem Session.Agrees.view {s : Session} (h : s.Agrees) {x : BitVec 32}
    (hx : s.known.fresh x = true) : s.device.view x = s.device.memory x := by
  cases hd : s.device.dcache with
  | false => simp [Device.view, hd]
  | true =>
    cases hc : s.device.cached x with
    | none => simp [Device.view, hd, hc]
    | some b =>
      simp only [Device.view, hd, hc, if_true, Option.getD_some]
      exact h.fresh hd x hx b hc

variable {hw : Hardware} {addr size : BitVec 32} {s : Session}

theorem agrees_write {data : ℕ → UInt8} (h : s.Agrees) :
    Session.Agrees ⟨(s.device.call hw (.write addr size data)).2,
      s.known.learn s.device.dcache (.write addr size data)
        (s.device.call hw (.write addr size data)).1⟩ := by
  have hstart := write_writesPrefix hw.hal addr size data s.device.memory
  have hmemory : ∀ x, ¬ InBlock addr
      (Flash.write hw.hal addr size (some data) s.device.memory).result x →
      ¬ Incomplete addr size
        (Flash.write hw.hal addr size (some data) s.device.memory).result x →
      (Flash.write hw.hal addr size (some data) s.device.memory).memory x = s.device.memory x := by
    intro x hin hbehind
    rcases hstart.kept x hin with hsame | hword
    · exact hsame
    · exact absurd hword hbehind
  constructor
  · intro x v hv
    simp only [Known.learn, Device.call] at hv ⊢
    split_ifs at hv with hin hblank hbehind
    · have hok : ¬ (InBlock addr
          (Flash.write hw.hal addr size (some data) s.device.memory).result x ∧
          ¬ Blank s.device.memory x) := fun hbad => hbad.2 (h.blank hblank)
      rw [if_neg hok]
      exact (hstart.written x hin).trans (Option.some.inj hv)
    · rw [if_neg fun hbad => hin hbad.1, hmemory x hin hbehind]
      exact h.stored x v hv
  · intro hd x hfresh b hb
    simp only [Known.learn, Device.call] at hd hfresh hb ⊢
    split_ifs at hfresh with hin hbehind
    · have hblank : s.known.Blank x := by simpa [hd] using hfresh
      have hok : ¬ (InBlock addr
          (Flash.write hw.hal addr size (some data) s.device.memory).result x ∧
          ¬ Blank s.device.memory x) := fun hbad => hbad.2 (h.blank hblank)
      rw [if_pos (touched_of_written hin), Option.map_eq_some_iff] at hb
      obtain ⟨-, -, hdata⟩ := hb
      rw [if_neg hok, hstart.written x hin, hdata]
    · simp [hd] at hfresh
    · have hno : ¬ Touched (Flash.write hw.hal addr size (some data) s.device.memory).touched x :=
        fun hx => (reached_of_touched hx).elim hin hbehind
      rw [if_neg hno] at hb
      rw [if_neg fun hbad => hin hbad.1, hmemory x hin hbehind]
      exact h.fresh hd x hfresh b hb

theorem agrees_erase (h : s.Agrees) :
    Session.Agrees ⟨(s.device.call hw (.erase addr size)).2,
      s.known.learn s.device.dcache (.erase addr size)
        (s.device.call hw (.erase addr size)).1⟩ := by
  have herases := erase_erasesExactly hw.hal addr size s.device.memory
  have hkept : ∀ x, ¬ InErased addr size x →
      (Flash.erase hw.hal addr size s.device.memory).memory x = s.device.memory x := by
    intro x hin
    apply herases.kept x
    intro bank sector hmem hx
    obtain ⟨-, hlt, hmeets⟩ := herases.sound bank sector hmem
    exact hin ⟨bank, sector, hlt, hmeets, hx⟩
  constructor
  · intro x v hv
    simp only [Known.learn, Device.call] at hv ⊢
    split_ifs at hv with hin hok
    · obtain ⟨bank, sector, hlt, hmeets, hx⟩ := hin
      have hmem := herases.complete hok bank sector hlt hmeets
      exact (herases.erased hok bank sector x hmem hx).trans (Option.some.inj hv)
    · rw [hkept x hin]
      exact h.stored x v hv
  · intro hd x hfresh b hb
    simp only [Known.learn, Device.call] at hd hfresh hb ⊢
    split_ifs at hfresh with hin
    · simp [hd] at hfresh
    · rw [hkept x hin]
      exact h.fresh hd x hfresh b hb

/-- A read that is not refused copies the bytes of its range. -/
theorem read_eq (hsize : size ≠ 0) (hbase : flashBase ≤ addr) (hend : addr < flashEnd)
    (m : Store 32) :
    Flash.read addr size true m =
      ⟨(size, (List.range size.toNat).map fun i => m (addr + BitVec.ofNat 32 i)),
        [(addr, size.toNat)], m⟩ := by
  have hguard : ¬ ((!true) = true ∨ size = 0 ∨ addr < flashBase ∨ addr ≥ flashEnd) := by
    simp only [Bool.not_true, Bool.false_eq_true, false_or, not_or, BitVec.not_lt, ge_iff_le,
      BitVec.not_le]
    exact ⟨hsize, hbase, hend⟩
  rw [Flash.read, if_neg hguard]

theorem read_bytes {x : BitVec 32} {m : Store 32} {b : UInt8}
    (h : (Flash.read addr size true m).result.2[(x - addr).toNat]? = some b) : m x = b := by
  unfold Flash.read at h
  split at h
  · cases h
  · simp only [List.getElem?_map, Option.map_eq_some_iff] at h
    obtain ⟨i, hi, hb⟩ := h
    obtain ⟨hlt, rfl⟩ := List.getElem?_eq_some_iff.mp hi
    have hx : addr + BitVec.ofNat 32 (x - addr).toNat = x := by
      rw [BitVec.ofNat_toNat, BitVec.setWidth_eq]
      bv_omega
    rwa [List.getElem_range, hx] at hb

theorem agrees_read (h : s.Agrees) :
    Session.Agrees ⟨(s.device.call hw (.read addr size)).2,
      s.known.learn s.device.dcache (.read addr size)
        (s.device.call hw (.read addr size)).1⟩ := by
  refine ⟨?_, h.fresh⟩
  intro x v hv
  simp only [Known.learn, Device.call] at hv ⊢
  split at hv
  · next b hb =>
    split_ifs at hv with hfresh
    · rw [← h.view hfresh, read_bytes hb]
      exact Option.some.inj hv
    · exact h.stored x v hv
  · exact h.stored x v hv

theorem agrees_dcacheSet (enable : Bool) (h : s.Agrees) :
    Session.Agrees ⟨(s.device.call hw (.dcacheSet enable)).2,
      s.known.learn s.device.dcache (.dcacheSet enable)
        (s.device.call hw (.dcacheSet enable)).1⟩ := by
  simp only [Known.learn, Device.call]
  by_cases hkeep : (enable && s.device.dcache) = true
  · simp only [if_pos hkeep]
    exact h
  · simp only [if_neg hkeep]
    exact ⟨h.stored, fun _ x _ b hb => nomatch hb⟩

/-- The cache may take in what the flash holds, and drop it. -/
theorem Session.Agrees.update (h : s.Agrees) {x : BitVec 32} {o : Option UInt8}
    (ho : ∀ b, o = some b → b = s.device.memory x) :
    Session.Agrees { s with device.cached := Function.update s.device.cached x o } := by
  refine ⟨h.stored, fun hd y hfresh b hb => ?_⟩
  simp only [Function.update_apply] at hb
  split_ifs at hb with hy
  · rw [hy]
    exact ho b hb
  · exact h.fresh hd y hfresh b hb

theorem Session.Agrees.step {s s' : Session} {e : Event} (h : s.Agrees)
    (hstep : s.step e = some s') : s'.Agrees := by
  cases e with
  | call hw c =>
    rw [Session.step, Option.some.injEq] at hstep
    rw [← hstep]
    cases c with
    | write addr size data => exact agrees_write h
    | erase addr size => exact agrees_erase h
    | read addr size => exact agrees_read h
    | dcacheSet enable => exact agrees_dcacheSet enable h
  | fill x =>
    simp only [Session.step] at hstep
    split_ifs at hstep
    rw [← Option.some.inj hstep]
    exact h.update fun b hb => (Option.some.inj hb).symm
  | evict x =>
    rw [Session.step, Option.some.injEq] at hstep
    rw [← hstep]
    exact h.update fun b hb => nomatch hb

/-- After every run of calls, with any outcomes of the hardware and any bytes in the cache, a read
returns what is known of the fresh bytes. -/
theorem read_returns_known (s s' : Session) (h : s.Agrees) (events : List Event)
    (hrun : exec Session.step s events = some s') (addr size : BitVec 32)
    (hbase : flashBase ≤ addr) (hend : addr < flashEnd) (i : ℕ) (hi : i < size.toNat)
    (hfresh : s'.known.fresh (addr + BitVec.ofNat 32 i) = true) (v : UInt8)
    (hv : s'.known.stored (addr + BitVec.ofNat 32 i) = some v) :
    (Flash.read addr size true s'.device.view).result.2[i]? = some v := by
  have hagrees : s'.Agrees := exec_invariant_of_step (fun _ _ _ => Session.Agrees.step) h hrun
  have hsize : size ≠ 0 := by
    rintro rfl
    exact absurd hi (Nat.not_lt_zero i)
  rw [read_eq hsize hbase hend]
  simp [hi, hagrees.view hfresh, hagrees.stored _ v hv]

def delivered : Session :=
  ⟨⟨fun _ => 0xFF, true, fun _ => none⟩, ⟨fun _ => some 0xFF, fun _ => true⟩⟩

theorem delivered_agrees : delivered.Agrees where
  stored _ _ hv := Option.some.inj hv
  fresh _ _ _ _ hb := nomatch hb

def working : Hardware := ⟨⟨true, true, fun _ => ⟨true, fun _ => 0⟩⟩, fun _ => 0⟩

theorem erased_firstSector (m : Store 32) : (Flash.erase working.hal flashBase 1 m).ok = true := rfl

/-- A word is written and taken into the cache, which is switched off for the erase of its
sector. -/
def rewritten : List Event :=
  [.call working (.write flashBase 32 fun _ => 0xA5), .fill flashBase,
    .call working (.dcacheSet false), .call working (.erase flashBase 1),
    .call working (.dcacheSet true)]

theorem read_returns_known_rewritten :
    ∃ s', exec Session.step delivered rewritten = some s' ∧ s'.device.dcache = true ∧
      (Flash.read flashBase 1 true s'.device.view).result.2[0]? = some 0xFF := by
  have hin : InErased flashBase 1 (flashBase + BitVec.ofNat 32 0) :=
    ⟨.bank1, 0, by decide, ⟨flashBase, by decide, by decide⟩, by decide⟩
  refine ⟨_, rfl, rfl, ?_⟩
  apply read_returns_known delivered _ delivered_agrees rewritten rfl flashBase 1 (by decide)
    (by decide) 0 (by decide)
  · simp [Device.call, Known.learn, delivered]
  · simp only [Device.call, Known.learn, if_pos hin, erased_firstSector, if_true]

/-- A byte that the cache keeps reads as before an erase, whatever the erase returns. -/
theorem view_erase_of_cached {d : Device} {x : BitVec 32} {b : UInt8} (hd : d.dcache = true)
    (hc : d.cached x = some b) : (d.call hw (.erase addr size)).2.view x = b := by
  simp [Device.call, Device.view, hd, hc]

end UniHal.Flash
