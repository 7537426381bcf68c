import UniHal.Foundations.Polling
import UniHal.Rcc.Stm32l4.FlashLatency

/-! # Whether the clock security path of the STM32L4 ends

The stages of `NMI_Handler` with their wait loops. A loop gives up when the millisecond counter has
advanced by the timeout. SysTick advances the counter, and SysTick does not run in the NMI.
-/

namespace UniHal.Rcc.Stm32l4.NmiTermination
open Foundations Polling Staging Routine FlashLatency
open Pll (Config hsiValue pllInput rccPll rccSysclk)

/-- What the hardware answers to the polls of one run of the handler. -/
structure Hardware where
  pllReady : ℕ → Bool
  /-- The status names the requested source of the system clock. -/
  switched : ℕ → Bool
  /-- The latency register reads back as it was written. -/
  latencyTaken : ℕ → Bool
  latency_taken : ∃ k, latencyTaken k = true
  /-- `uni_hal_systick_get_ms` -/
  now : UInt32

/-- The loop `while (!flag && (ms - ticks) < timeout)`: the poll at which it ends. The counter is
read once before the loop and again in every round. -/
def rccWait (flag : ℕ → Bool) (ms : ℕ → UInt32) (timeout : UInt32) (fuel : ℕ) : Option ℕ :=
  let ticks := ms 0
  spin (fun k => !flag k && decide (ms (k + 1) - ticks < timeout)) fuel 0

section Handler
variable (hse : UInt32) (cfg : Config) (timeout : UInt32) (hw : Hardware)

/-- `_uni_hal_stm_rcc_pll`; the flag is read once more after the loop. -/
def pllStage (s : State) (fuel : ℕ) : Option State :=
  if (pllInput hse s.toState).1 ≠ .none then
    (rccWait hw.pllReady (fun _ => hw.now) timeout fuel).map fun k =>
      s.withClocks (rccPll hse cfg (hw.pllReady (k + 1)) s.toState)
  else some s

/-- The rest of `_uni_hal_stm_rcc_sysclk`; the loop of `_uni_hal_stm_rcc_flash_adjust` has no
timeout. -/
def adjustStage (switched : Bool) (s : State) (fuel : ℕ) : Option State :=
  if switched ∧ s.scale1 then
    (spin (fun k => !hw.latencyTaken k) fuel 0).map fun _ => final (sysclk hse true) s
  else some (final (sysclk hse switched) s)

/-- `_uni_hal_stm_rcc_sysclk`; the status is read once more after the loop. -/
def sysclkStage (s : State) (fuel : ℕ) : Option State :=
  (rccWait hw.switched (fun _ => hw.now) timeout fuel).bind fun k =>
    adjustStage hse hw (hw.switched (k + 1)) s fuel

/-- `NMI_Handler` -/
def nmiHandlerPolls (s : State) (fuel : ℕ) : Option State :=
  if s.cssFlag then
    (pllStage hse cfg timeout hw (s.withClocks (dropHse s.toState)) fuel).bind fun s =>
      sysclkStage hse timeout hw s fuel
  else some s

end Handler

variable {hse : UInt32} {cfg : Config} {timeout : UInt32} {hw : Hardware}

theorem rccWait_stable (flag : ℕ → Bool) (ms : ℕ → UInt32) (timeout : UInt32) :
    Stable (rccWait flag ms timeout) :=
  spin_stable _ 0

theorem returns_rccWait_iff (flag : ℕ → Bool) (ms : ℕ → UInt32) (timeout : UInt32) :
    Returns (rccWait flag ms timeout) ↔ ∃ k, flag k = true ∨ timeout ≤ ms (k + 1) - ms 0 := by
  refine (returns_spin_iff 0).trans (exists_congr fun k => ?_)
  rw [Nat.zero_add, Bool.and_eq_false_iff, Bool.not_eq_false', decide_eq_false_iff_not,
    UInt32.not_lt]

/-- In task context the counter advances, and every wait ends. -/
theorem returns_rccWait_of_advancing {flag : ℕ → Bool} {ms : ℕ → UInt32} {timeout : UInt32}
    (h : ∃ k, timeout ≤ ms (k + 1) - ms 0) : Returns (rccWait flag ms timeout) := by
  obtain ⟨k, hk⟩ := h
  exact (returns_rccWait_iff flag ms timeout).mpr ⟨k, Or.inr hk⟩

/-- With a counter that stands only a timeout of zero ends a wait without the flag. -/
theorem returns_rccWait_frozen_iff (flag : ℕ → Bool) (now timeout : UInt32) :
    Returns (rccWait flag (fun _ => now) timeout) ↔ timeout = 0 ∨ ∃ k, flag k = true := by
  rw [returns_rccWait_iff]
  have hzero : timeout ≤ now - now ↔ timeout = 0 := by
    rw [UInt32.sub_self, UInt32.le_zero_iff]
  simp only [hzero]
  constructor
  · rintro ⟨k, hflag | htime⟩
    · exact Or.inr ⟨k, hflag⟩
    · exact Or.inl htime
  · rintro (htime | ⟨k, hflag⟩)
    · exact ⟨0, Or.inr htime⟩
    · exact ⟨k, Or.inl hflag⟩

theorem pllStage_stable (s : State) : Stable (pllStage hse cfg timeout hw s) := by
  intro m n t hmn h
  simp only [pllStage] at h ⊢
  split_ifs at h ⊢
  · obtain ⟨k, hk, ht⟩ := Option.map_eq_some_iff.mp h
    exact Option.map_eq_some_iff.mpr ⟨k, rccWait_stable _ _ _ m n k hmn hk, ht⟩
  · exact h

theorem adjustStage_stable (switched : Bool) (s : State) :
    Stable (adjustStage hse hw switched s) := by
  intro m n t hmn h
  simp only [adjustStage] at h ⊢
  split_ifs at h ⊢
  · obtain ⟨j, hj, ht⟩ := Option.map_eq_some_iff.mp h
    exact Option.map_eq_some_iff.mpr ⟨j, spin_stable _ 0 m n j hmn hj, ht⟩
  · exact h

theorem sysclkStage_stable (s : State) : Stable (sysclkStage hse timeout hw s) :=
  Stable.bind (rccWait_stable _ _ _) fun _ => adjustStage_stable _ s

theorem returns_map_iff {α β : Type*} {run : ℕ → Option α} (f : α → β) :
    Returns (fun fuel => (run fuel).map f) ↔ Returns run := by
  simp only [Returns, Option.isSome_map]

/-- The PLL stage waits when there is an oscillator to run from. -/
theorem returns_pllStage_iff (s : State) :
    Returns (pllStage hse cfg timeout hw s) ↔
      (s.hseInited = true ∨ s.hsiInited = true → timeout = 0 ∨ ∃ k, hw.pllReady k = true) := by
  have hsource :
      (pllInput hse s.toState).1 ≠ .none ↔ (s.hseInited = true ∨ s.hsiInited = true) := by
    rw [pllInput]
    cases s.hseInited <;> cases s.hsiInited <;> simp
  by_cases hwait : (pllInput hse s.toState).1 ≠ .none
  · have hstage : pllStage hse cfg timeout hw s = fun fuel =>
        (rccWait hw.pllReady (fun _ => hw.now) timeout fuel).map fun k =>
          s.withClocks (rccPll hse cfg (hw.pllReady (k + 1)) s.toState) := by
      funext fuel
      exact if_pos hwait
    rw [hstage, returns_map_iff, returns_rccWait_frozen_iff]
    exact ⟨fun h _ => h, fun h => h (hsource.mp hwait)⟩
  · have hstage : pllStage hse cfg timeout hw s = fun _ => some s := by
      funext fuel
      exact if_neg hwait
    rw [hstage]
    exact ⟨fun _ h => absurd (hsource.mpr h) hwait, fun _ => returns_some s⟩

theorem returns_adjustStage (switched : Bool) (s : State) :
    Returns (adjustStage hse hw switched s) := by
  by_cases hloop : switched = true ∧ s.scale1 = true
  · have hstage : adjustStage hse hw switched s = fun fuel =>
        (spin (fun k => !hw.latencyTaken k) fuel 0).map fun _ => final (sysclk hse true) s := by
      funext fuel
      exact if_pos hloop
    obtain ⟨j, hj⟩ := hw.latency_taken
    rw [hstage, returns_map_iff, returns_spin_iff]
    exact ⟨j, by rw [Nat.zero_add, hj]; rfl⟩
  · have hstage : adjustStage hse hw switched s =
        fun _ => some (final (sysclk hse switched) s) := by
      funext fuel
      exact if_neg hloop
    rw [hstage]
    exact returns_some _

theorem returns_sysclkStage_iff (s : State) :
    Returns (sysclkStage hse timeout hw s) ↔ timeout = 0 ∨ ∃ k, hw.switched k = true := by
  have hrest : ∀ k, Stable (adjustStage hse hw (hw.switched (k + 1)) s) :=
    fun _ => adjustStage_stable _ s
  have hends : ∀ k, Returns (adjustStage hse hw (hw.switched (k + 1)) s) ↔ True :=
    fun _ => iff_true_intro (returns_adjustStage _ s)
  have hwait := rccWait_stable hw.switched (fun _ => hw.now) timeout
  have hboth := returns_bind_iff_and hwait hrest fun k _ => hends k
  rw [and_true, returns_rccWait_frozen_iff] at hboth
  exact hboth

theorem returns_handling_iff {s : State} (hcss : s.cssFlag = true) :
    Returns (nmiHandlerPolls hse cfg timeout hw s) ↔
      (s.hsiInited = true → timeout = 0 ∨ ∃ k, hw.pllReady k = true) ∧
        (timeout = 0 ∨ ∃ k, hw.switched k = true) := by
  have hstages : nmiHandlerPolls hse cfg timeout hw s = fun fuel =>
      (pllStage hse cfg timeout hw (s.withClocks (dropHse s.toState)) fuel).bind fun s =>
        sysclkStage hse timeout hw s fuel := by
    funext fuel
    exact if_pos hcss
  rw [hstages, returns_bind_iff_and (pllStage_stable _) sysclkStage_stable
    fun t _ => returns_sysclkStage_iff t, returns_pllStage_iff]
  have hosc : ((s.withClocks (dropHse s.toState)).hseInited = true ∨
      (s.withClocks (dropHse s.toState)).hsiInited = true) ↔ s.hsiInited = true := by
    simp [dropHse]
  rw [hosc]

/-- The handler ends exactly when there is no failure to handle, no wait at all, or an end of both
waits by the hardware. -/
theorem nmiHandlerPolls_returns_iff (hse : UInt32) (cfg : Config) (timeout : UInt32)
    (hw : Hardware) (s : State) :
    Returns (nmiHandlerPolls hse cfg timeout hw s) ↔
      s.cssFlag = false ∨ timeout = 0 ∨
        ((s.hsiInited = true → ∃ k, hw.pllReady k = true) ∧ ∃ k, hw.switched k = true) := by
  cases hcss : s.cssFlag with
  | true =>
    rw [returns_handling_iff hcss]
    tauto
  | false =>
    have hidle : nmiHandlerPolls hse cfg timeout hw s = fun _ => some s := by
      funext fuel
      exact if_neg (by rw [hcss]; exact Bool.false_ne_true)
    rw [hidle]
    exact ⟨fun _ => Or.inl rfl, fun _ => returns_some s⟩

theorem pllStage_eq_some {fuel : ℕ} {s t : State}
    (h : pllStage hse cfg timeout hw s fuel = some t) :
    ∃ ready, t = final (pll hse cfg ready) s := by
  rw [pllStage] at h
  split_ifs at h with hsource
  · obtain ⟨k, -, rfl⟩ := Option.map_eq_some_iff.mp h
    exact ⟨hw.pllReady (k + 1), rfl⟩
  · obtain rfl := Option.some.inj h
    refine ⟨false, ?_⟩
    simp only [pll, final_change, rccPll, if_neg hsource]
    rfl

theorem sysclkStage_eq_some {fuel : ℕ} {s t : State}
    (h : sysclkStage hse timeout hw s fuel = some t) :
    ∃ switched, t = final (sysclk hse switched) s := by
  obtain ⟨k, -, hadjust⟩ := Option.bind_eq_some_iff.mp h
  rw [adjustStage] at hadjust
  split_ifs at hadjust
  · obtain ⟨_, -, rfl⟩ := Option.map_eq_some_iff.mp hadjust
    exact ⟨true, rfl⟩
  · obtain rfl := Option.some.inj hadjust
    exact ⟨_, rfl⟩

/-- A handler that ends does what its stages do for some answers of the hardware. -/
theorem nmiHandlerPolls_eq_some {fuel : ℕ} {s t : State}
    (h : nmiHandlerPolls hse cfg timeout hw s fuel = some t) :
    ∃ ready switched, t = final (nmiHandler hse cfg ready switched) s := by
  rw [nmiHandlerPolls] at h
  cases hcss : s.cssFlag with
  | false =>
    rw [hcss] at h
    obtain rfl := Option.some.inj h
    exact ⟨false, false, by rw [nmiHandler, final_branch, hcss]; rfl⟩
  | true =>
    rw [hcss, if_pos rfl] at h
    obtain ⟨u, hpll, hsys⟩ := Option.bind_eq_some_iff.mp h
    obtain ⟨ready, rfl⟩ := pllStage_eq_some hpll
    obtain ⟨switched, rfl⟩ := sysclkStage_eq_some hsys
    refine ⟨ready, switched, ?_⟩
    rw [nmiHandler, final_branch, hcss, if_pos rfl, final_andThen, final_change, clocks,
      final_andThen]

def neverLocks : Hardware where
  pllReady _ := false
  switched _ := true
  latencyTaken _ := true
  latency_taken := ⟨0, rfl⟩
  now := 0

/-- The board after a start without a fault and a later failure of the crystal. -/
def crystalFailed : State :=
  final (chain (routine 8000000 ⟨1, 20, 2⟩) [.init ⟨true, true, true, true⟩, .hseFails]) powerOn

theorem nmiHandlerPolls_hangs :
    ¬Returns (nmiHandlerPolls 8000000 ⟨1, 20, 2⟩ 100 neverLocks crystalFailed) := by
  rw [returns_handling_iff (by decide)]
  rintro ⟨hpll, -⟩
  rcases hpll (by decide) with htime | ⟨k, hk⟩
  · exact absurd htime (by decide)
  · exact absurd hk Bool.false_ne_true

end UniHal.Rcc.Stm32l4.NmiTermination
