import UniHal.Rcc.Stm32h7.ClockGates

/-! # The clock gates of the STM32H7 as a store

Ethernet and the UARTs 6 to 8 can be enabled but not read. Their gates are therefore never
seen open: an enable is not confirmed by the getter, and a disable is skipped and reported as
a success.
-/

namespace UniHal.Rcc.Stm32h7
open Foundations Execution ClockControl

/-- The registers with every gate closed. -/
def reset : ClockControl Reg := ⟨fun _ => 0, false⟩

/-- The calls address enable bits that the given peripheral does not have. -/
def OtherBits (p : Periph) (calls : List Call) : Prop :=
  ∀ c ∈ calls, ∀ gate ∈ enableBits p, gate ∉ enableBits c.target

/-- The peripheral holds the value: all its enable bits do, and the getter tells it. -/
def Holds (p : Periph) (value : Bool) (rcc : ClockControl Reg) : Prop :=
  (∀ gate ∈ enableBits p, isEnabledClock gate rcc = value) ∧ clkGet p rcc = value

/-- If the call is for a peripheral that the setter knows and succeeds, its target holds the
value, and keeps it over all later calls that address other enable bits. -/
def Stores (rcc : ClockControl Reg) (c : Call) : Prop :=
  Settable c.target = true → (clkSet c.target c.state rcc).1 = true →
    ∀ later, OtherBits c.target later →
      ∀ rcc', exec callStep (clkSet c.target c.state rcc).2 later = some rcc' →
        Holds c.target c.state rcc'

/-- The getter can confirm the call: an unreadable target is closed and stays so, and the
power controller is not disabled. -/
def Confirmed (rcc : ClockControl Reg) (c : Call) : Prop :=
  if unreadable c.target then
    c.state = false ∧ ∀ gate ∈ enableBits c.target, isEnabledClock gate rcc = false
  else c.target = .pwr → c.state = true

theorem settable_of_unreadable {p : Periph} (h : unreadable p = true) : Settable p = true := by
  cases p <;> first | rfl | cases h

theorem confirmed_of_not_settable {rcc : ClockControl Reg} {c : Call}
    (h : Settable c.target = false) : Confirmed rcc c := by
  have hread : ¬unreadable c.target = true := fun hread => by
    rw [settable_of_unreadable hread] at h
    cases h
  rw [Confirmed, if_neg hread]
  intro hpwr
  rw [hpwr] at h
  cases h

/-- A call for other enable bits keeps what a peripheral holds. -/
theorem Holds.of_call {p : Periph} {value : Bool} {rcc : ClockControl Reg} (h : Holds p value rcc)
    {c : Call} (hc : ∀ gate ∈ enableBits p, gate ∉ enableBits c.target) :
    Holds p value (clkSet c.target c.state rcc).2 := by
  have hframe : ∀ gate ∈ enableBits p,
      isEnabledClock gate (clkSet c.target c.state rcc).2 = isEnabledClock gate rcc :=
    fun gate hgate => clkSet_frame c.target c.state rcc (hc gate hgate)
  constructor
  · intro gate hgate
    rw [hframe gate hgate]
    exact h.1 gate hgate
  · rw [clkGet_congr hframe]
    exact h.2

theorem Holds.of_calls {p : Periph} {value : Bool} {rcc rcc' : ClockControl Reg} {later : List Call}
    (h : Holds p value rcc) (hlater : OtherBits p later)
    (hrun : exec callStep rcc later = some rcc') : Holds p value rcc' := by
  induction later generalizing rcc with
  | nil =>
    simp only [exec_nil, Option.some.injEq] at hrun
    exact hrun ▸ h
  | cons c later ih =>
    exact ih (h.of_call (hlater c List.mem_cons_self))
      (fun d hd => hlater d (List.mem_cons_of_mem c hd)) hrun

theorem holds_clkSet_of_readable {p : Periph} (hp : Settable p = true)
    (hread : unreadable p = false) (hpwr : p ≠ .pwr) (state : Bool) (rcc : ClockControl Reg) :
    Holds p state (clkSet p state rcc).2 := by
  obtain ⟨gate, hbits, hget⟩ := enableBits_of_readable hp hread hpwr
  have hgate : isEnabledClock gate (clkSet p state rcc).2 = state := by
    rw [clkSet_gates hp]
    by_cases hold : clkGet p rcc = state
    · rw [if_neg fun h => h.1 hold, ← hget, hold]
    · rw [if_pos ⟨hold, hbits ▸ List.mem_cons_self⟩]
  refine ⟨fun g hg => ?_, (hget _).trans hgate⟩
  rw [hbits, List.mem_singleton] at hg
  exact hg ▸ hgate

/-- A call for an unreadable peripheral succeeds in both directions, but a disable writes
nothing and an enable cannot be read back. -/
theorem holds_clkSet_of_unreadable {p : Periph} (hp : Settable p = true)
    (hread : unreadable p = true) (state : Bool) (rcc : ClockControl Reg) :
    Holds p state (clkSet p state rcc).2 ↔
      state = false ∧ ∀ gate ∈ enableBits p, isEnabledClock gate rcc = false := by
  rw [Holds, clkGet_of_unreadable hread]
  cases state with
  | true => simp
  | false =>
    have hskip : ¬clkGet p rcc ≠ false := fun h => h (clkGet_of_unreadable hread rcc)
    simp only [clkSet_gates hp, hskip, false_and, if_false, and_true, true_and]

theorem holds_clkSet_pwr (state : Bool) (rcc : ClockControl Reg) :
    Holds .pwr state (clkSet .pwr state rcc).2 ↔ state = true := by
  constructor
  · rintro ⟨-, hget⟩
    exact hget.symm
  · rintro rfl
    exact ⟨fun _ h => absurd h List.not_mem_nil, rfl⟩

theorem holds_clkSet_iff {c : Call} (hp : Settable c.target = true) (rcc : ClockControl Reg) :
    Holds c.target c.state (clkSet c.target c.state rcc).2 ↔ Confirmed rcc c := by
  rw [Confirmed]
  split_ifs with hread
  · exact holds_clkSet_of_unreadable hp hread c.state rcc
  · by_cases hpwr : c.target = .pwr
    · rw [hpwr]
      simp [holds_clkSet_pwr]
    · have hholds := holds_clkSet_of_readable hp (Bool.eq_false_iff.mpr hread) hpwr c.state rcc
      simp [hholds, hpwr]

theorem stores_iff {rcc : ClockControl Reg} {c : Call} : Stores rcc c ↔ Confirmed rcc c := by
  cases hp : Settable c.target with
  | false =>
    have hvacuous : Stores rcc c := fun h => by
      rw [hp] at h
      cases h
    exact iff_of_true hvacuous (confirmed_of_not_settable hp)
  | true =>
    rw [← holds_clkSet_iff hp]
    constructor
    · intro h
      have hnone : OtherBits c.target [] := fun _ hc => absurd hc List.not_mem_nil
      exact h hp (clkSet_fst hp c.state rcc) [] hnone _ rfl
    · intro h _ _ later hlater rcc' hrun
      exact h.of_calls hlater hrun

/-- A sequence of calls stores every value exactly when the getter can confirm each call. -/
theorem gateStore_iff_confirmed (rcc : ClockControl Reg) (calls : List Call) :
    Along callStep Stores rcc calls ↔ Along callStep Confirmed rcc calls := by
  induction calls generalizing rcc with
  | nil => rfl
  | cons c calls ih =>
    have hstep : callStep rcc c = some (clkSet c.target c.state rcc).2 := rfl
    rw [along_cons hstep, along_cons hstep, stores_iff, ih]

/-- UART 6 keeps its clock when it is disabled, although the disable reports success. -/
theorem uart6_disable_not_stored :
    ¬Along callStep Stores reset [⟨.uart6, true⟩, ⟨.uart6, false⟩] ∧
      (exec callStep reset [⟨.uart6, true⟩, ⟨.uart6, false⟩]).map
        (isEnabledClock (apb2Grp1 Apb2Grp1.usart6)) = some true := by
  refine ⟨?_, by decide⟩
  rintro ⟨-, hstores, -⟩
  obtain ⟨hbits, -⟩ := hstores rfl rfl [] (fun _ hc => absurd hc List.not_mem_nil) _ rfl
  have hopen := hbits (apb2Grp1 Apb2Grp1.usart6) (by decide)
  revert hopen
  decide

end UniHal.Rcc.Stm32h7
