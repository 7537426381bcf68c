import UniHal.Crc.Driver
import UniHal.Foundations.Execution
import UniHal.Rcc.Periph

/-! # Several contexts on one CRC unit

Runs of initialisations and calculations on any number of contexts. A calculation loads its own
initial value but not its polynomial and its size: these are what the last initialisation that
reached the unit left there.
-/

namespace UniHal.Crc
open Foundations Execution
open Rcc (Family)

/-- `uni_hal_crc_append` of the driver of a family. -/
def append (P : Platform) : Family → Append
  | .stm32h7 => Stm32h7.append P
  | .stm32l4 => Stm32l4.append P

structure Entry (ι : Type) where
  ctx : ι
  initial : BitVec 32
  data : Option Buffer
  value : BitVec 32

/-- The contexts, the unit that they share, and the calculations so far. -/
structure State (ι : Type) where
  ctxs : ι → Context
  regs : Regs
  results : List (Entry ι)

inductive Action (ι : Type)
  | init (k : ι) (clk : Bool)
  | calculate (k : ι) (data : Option Buffer)
  | calculateEx (k : ι) (value : BitVec 32) (data : Option Buffer)

variable {ι : Type} [DecidableEq ι]

/-- `uni_hal_crc_init` on the context `k`. -/
def State.initCtx (s : State ι) (k : ι) (clk : Bool) : State ι :=
  let r := Crc.init clk (some (s.ctxs k)) s.regs
  { s with ctxs := Function.update s.ctxs k (r.2.1.getD (s.ctxs k)), regs := r.2.2 }

/-- Keep what a calculation on the context `k` returned. -/
def State.record (s : State ι) (k : ι) (initial : BitVec 32) (data : Option Buffer)
    (r : BitVec 32 × Regs) : State ι :=
  { s with
    regs := r.2
    results := if (s.ctxs k).initialized then ⟨k, initial, data, r.1⟩ :: s.results
      else s.results }

def step (feed : Append) (s : State ι) : Action ι → Option (State ι)
  | .init k clk => some (s.initCtx k clk)
  | .calculate k data =>
    some (s.record k (s.ctxs k).initialData data
      (calculate feed (some (s.ctxs k)) data s.regs))
  | .calculateEx k value data =>
    some (s.record k value data (calculateEx feed (some (s.ctxs k)) value data s.regs))

def crcOf (P : Platform) (pol : BitVec 32) (size : PolySize) (c : Context) (initial : BitVec 32) :
    Option Buffer → BitVec 32
  | none => 0
  | some b =>
    getValue (some { c with initialized := true })
      (Regs.feedBytes P ⟨initial, pol, size, initial⟩ b.bytes)

/-- The CRC that a context stands for: a function of its configuration and of the arguments. -/
def ownCrc (P : Platform) (c : Context) (initial : BitVec 32) (data : Option Buffer) : BitVec 32 :=
  crcOf P c.polynomialCoef c.polynomialSize c initial data

theorem append_eq (P : Platform) (f : Family) {ctx : Option Context}
    (h : isInited ctx = true) (b : Buffer) (r : Regs) :
    append P f ctx (some b) r = (true, r.feedBytes P b.bytes) := by
  cases f with
  | stm32h7 => exact Stm32h7.append_eq P h b r
  | stm32l4 => exact Stm32l4.append_eq P h b r

/-- A calculation divides by the polynomial that the unit holds. -/
theorem calculateEx_fst (P : Platform) (f : Family) {c : Context} (hc : c.initialized = true)
    (value : BitVec 32) (data : Option Buffer) (r : Regs) :
    (calculateEx (append P f) (some c) value data r).1 = crcOf P r.pol r.size c value data := by
  have hin : isInited (some c) = true := hc
  have hself : { c with initialized := true } = c := by rw [← hc]
  cases data with
  | none => simp [calculateEx, crcOf]
  | some b =>
    rw [calculateEx, if_pos ⟨hin, rfl⟩, crcOf, hself]
    dsimp only
    rw [append_eq P f hin, resetEx, if_pos hin]
    rfl

/-- The plain calculation is the one with the initial value of the context. -/
theorem calculate_eq_calculateEx (feed : Append) (c : Context) (data : Option Buffer)
    (r : Regs) :
    calculate feed (some c) data r = calculateEx feed (some c) c.initialData data r := by
  unfold calculate calculateEx reset resetEx
  split
  · rename_i h
    have hc : c.initialized = true := h.1
    simp only [isInited, hc, if_true]
  · rfl

theorem ownCrc_initialized (P : Platform) (c : Context) (v : Bool) (initial : BitVec 32)
    (data : Option Buffer) :
    ownCrc P { c with initialized := v } initial data = ownCrc P c initial data := by
  cases data <;> rfl

/-- The unit holds the polynomial and the size of a context. -/
def Holds (r : Regs) (c : Context) : Prop := r.pol = c.polynomialCoef ∧ r.size = c.polynomialSize

instance (r : Regs) (c : Context) : Decidable (Holds r c) := inferInstanceAs (Decidable (_ ∧ _))

/-- An initialised context is calculated on while the unit holds its polynomial and size. -/
def Configured (s : State ι) : Action ι → Prop
  | .init _ _ => True
  | .calculate k _ | .calculateEx k _ _ =>
    (s.ctxs k).initialized = true → Holds s.regs (s.ctxs k)

instance (s : State ι) : (a : Action ι) → Decidable (Configured s a)
  | .init _ _ => .isTrue trivial
  | .calculate _ _ => inferInstanceAs (Decidable (_ → _))
  | .calculateEx _ _ _ => inferInstanceAs (Decidable (_ → _))

/-- The contexts are those of the start up to their flag, and every calculation gave the CRC of
its own context. -/
structure Own (P : Platform) (start : ι → Context) (s : State ι) : Prop where
  ctxs : ∀ k, ∃ v, s.ctxs k = { start k with initialized := v }
  results : ∀ e ∈ s.results, e.value = ownCrc P (start e.ctx) e.initial e.data

theorem Own.initCtx {P : Platform} {start : ι → Context} {s : State ι} (h : Own P start s)
    (k : ι) (clk : Bool) : Own P start (s.initCtx k clk) := by
  refine ⟨?_, h.results⟩
  intro j
  by_cases hj : j = k
  · subst hj
    obtain ⟨v, hv⟩ := h.ctxs j
    cases clk with
    | false => exact ⟨v, by simp [State.initCtx, Crc.init, hv]⟩
    | true => exact ⟨true, by simp [State.initCtx, Crc.init, hv]⟩
  · obtain ⟨v, hv⟩ := h.ctxs j
    exact ⟨v, by simp [State.initCtx, hj, hv]⟩

theorem Own.record {ι : Type} {P : Platform} {start : ι → Context} {s : State ι}
    (h : Own P start s)
    (f : Family) (k : ι) (value : BitVec 32) (data : Option Buffer)
    (hconf : (s.ctxs k).initialized = true → Holds s.regs (s.ctxs k)) :
    Own P start (s.record k value data
      (calculateEx (append P f) (some (s.ctxs k)) value data s.regs)) := by
  refine ⟨h.ctxs, ?_⟩
  intro e he
  unfold State.record at he
  dsimp only at he
  split at he
  · rename_i hin
    cases List.mem_cons.mp he with
    | inl heq =>
      subst heq
      obtain ⟨v, hv⟩ := h.ctxs k
      rw [calculateEx_fst P f hin, (hconf hin).1, (hconf hin).2]
      calc crcOf P (s.ctxs k).polynomialCoef (s.ctxs k).polynomialSize (s.ctxs k) value data
          = ownCrc P (s.ctxs k) value data := rfl
        _ = ownCrc P (start k) value data := by rw [hv, ownCrc_initialized]
    | inr hold => exact h.results e hold
  · exact h.results e he

theorem Own.step {P : Platform} {start : ι → Context} {f : Family} {s t : State ι}
    {a : Action ι} (h : Own P start s) (hok : Configured s a)
    (hstep : Crc.step (append P f) s a = some t) : Own P start t := by
  cases a with
  | init k clk =>
    obtain rfl := Option.some_inj.mp hstep
    exact h.initCtx k clk
  | calculate k data =>
    obtain rfl := Option.some_inj.mp hstep
    rw [calculate_eq_calculateEx]
    exact h.record f k _ data hok
  | calculateEx k value data =>
    obtain rfl := Option.some_inj.mp hstep
    exact h.record f k value data hok

/-- In a run in which the unit holds the polynomial and the size of the context at every
calculation, every result is the CRC of that context, whatever the other contexts did. -/
theorem results_own (P : Platform) (f : Family) {s t : State ι} {as : List (Action ι)}
    (hrun : exec (Crc.step (append P f)) s as = some t)
    (hok : Along (Crc.step (append P f)) Configured s as) (hstart : s.results = []) :
    ∀ e ∈ t.results, e.value = ownCrc P (s.ctxs e.ctx) e.initial e.data := by
  have hinit : Own P s.ctxs s := by
    refine ⟨fun k => ⟨(s.ctxs k).initialized, rfl⟩, ?_⟩
    rw [hstart]
    exact fun e he => absurd he List.not_mem_nil
  exact (exec_invariant (fun _ _ _ h hok hstep => Own.step h hok hstep) hinit hok hrun).results

def crc8 (pol : BitVec 32) : Context := ⟨0, pol, .b8, false⟩

def twoContexts : State ℕ where
  ctxs k := crc8 (if k = 0 then 0x07 else 0x31)
  regs := ⟨0xFFFFFFFF, 0x04C11DB7, .b32, 0xFFFFFFFF⟩
  results := []

def oneByte : Buffer := ⟨0x20000000, [0x01]⟩

/-- Each context is initialised before it is calculated on. -/
theorem results_own_alternating :
    ∃ t, exec (Crc.step (append serialPlatform .stm32h7)) twoContexts
        [.init 0 true, .calculate 0 (some oneByte), .init 1 true, .calculate 1 (some oneByte)] =
          some t ∧
      ∀ e ∈ t.results, e.value = ownCrc serialPlatform (twoContexts.ctxs e.ctx) e.initial e.data :=
  ⟨_, rfl, @results_own ℕ _ serialPlatform .stm32h7 twoContexts _
    [.init 0 true, .calculate 0 (some oneByte), .init 1 true, .calculate 1 (some oneByte)]
    rfl (by decide) rfl⟩

/-- The results of two runs agree where configuration, initial value and data do. -/
def Noninterfering (feed : Append) : Prop :=
  ∀ (s s' t t' : State ℕ) (as as' : List (Action ℕ)),
    s.results = [] → s'.results = [] →
    exec (Crc.step feed) s as = some t → exec (Crc.step feed) s' as' = some t' →
    ∀ e ∈ t.results, ∀ e' ∈ t'.results,
      s.ctxs e.ctx = s'.ctxs e'.ctx → e.initial = e'.initial → e.data = e'.data →
        e.value = e'.value

/-- With context 1 initialised in between, context 0 is given the CRC of context 1. -/
theorem contexts_interfere :
    ¬ ∀ f : Family, Noninterfering (append serialPlatform f) := by
  intro hall
  have heq := hall .stm32h7 twoContexts twoContexts _ _
    [.init 0 true, .calculate 0 (some oneByte)]
    [.init 0 true, .init 1 true, .calculate 0 (some oneByte)] rfl rfl rfl rfl
    _ (List.mem_singleton.mpr rfl) _ (List.mem_singleton.mpr rfl) rfl rfl rfl
  exact absurd heq (by decide)

end UniHal.Crc
