import UniHal.Can.Bxcan.Filter
import UniHal.Can.Fdcan.Filter

/-! # The filters of the two drivers agree

Both drivers hold the same filter table after the same calls, whatever slots the calls
rewrite, so both peripherals accept the same frames into the same FIFOs.
-/

namespace UniHal.Can
open Foundations.Execution

theorem FilterTable.Portable.set_portable {table : FilterTable} {call : FilterCall}
    (h : table.Portable) (hcall : call.Portable) : (table.set call).Portable := by
  intro inst slot entry hentry
  rw [FilterTable.set_apply] at hentry
  split at hentry
  · simp only [Option.some.injEq] at hentry
    subst hentry
    exact hcall
  · exact h inst slot entry hentry

theorem FilterTable.foldl_portable {calls : List FilterCall} {table : FilterTable}
    (h : table.Portable) (hcalls : ∀ call ∈ calls, call.Portable) :
    (calls.foldl FilterTable.set table).Portable := by
  induction calls generalizing table with
  | nil => exact h
  | cons call calls ih =>
    apply ih (h.set_portable (hcalls call List.mem_cons_self))
    exact fun c hc => hcalls c (List.mem_cons_of_mem _ hc)

/-- Calls that bxCAN accepts are accepted on FDCAN too, and leave the same table behind. -/
theorem setFilters_hold {build : Build} {calls : List FilterCall} {regs regs' : Bxcan.FilterRegs}
    {ram : Fdcan.MessageRam} {table : FilterTable} (hregs : regs.Holds table)
    (hram : ram.Holds build table) (hrun : exec Bxcan.setFilter regs calls = some regs') :
    ∃ ram', exec (Fdcan.setFilter build) ram calls = some ram' ∧
      regs'.Holds (calls.foldl FilterTable.set table) ∧
      ram'.Holds build (calls.foldl FilterTable.set table) := by
  induction calls generalizing regs ram table with
  | nil =>
    simp only [exec_nil, Option.some.injEq] at hrun
    exact ⟨ram, rfl, hrun ▸ hregs, hram⟩
  | cons call calls ih =>
    obtain ⟨next, hcall, hrest⟩ := exec_cons_eq_some.mp hrun
    have hnext := Bxcan.setFilter_holds hregs hcall
    obtain ⟨ramNext, hramCall, hramNext⟩ :=
      Fdcan.setFilter_holds hram (Bxcan.setFilter_eq_some hcall).1
    obtain ⟨ram', hramRest, hend⟩ := ih hnext hramNext hrest
    exact ⟨ram', exec_cons_eq_some.mpr ⟨ramNext, hramCall, hramRest⟩, hend⟩

/-- After the same accepted calls the two peripherals route every frame alike. -/
theorem filters_agree (build : Build) (regs regs' : Bxcan.FilterRegs) (ram : Fdcan.MessageRam)
    (calls : List FilterCall) (hreset : regs.Reset)
    (hportable : ∀ call ∈ calls, call.Portable)
    (hrun : exec Bxcan.setFilter regs calls = some regs') :
    ∃ ram', exec (Fdcan.setFilter build)
        (Fdcan.initRam build .can2 (Fdcan.initRam build .can1 ram)) calls = some ram' ∧
      ∀ inst identifier remote,
        Fdcan.routeFrame build ram' inst identifier = regs'.route inst identifier remote := by
  obtain ⟨ram', hram, hregs', hram'⟩ :=
    setFilters_hold hreset.holds (Fdcan.initRam_holds build ram) hrun
  have htable : (calls.foldl FilterTable.set fun _ _ => none).Portable :=
    FilterTable.foldl_portable (fun _ _ _ hentry => by cases hentry) hportable
  refine ⟨ram', hram, fun inst identifier remote => ?_⟩
  rw [hram'.route htable inst identifier remote, hregs'.route]

def resetRegs : Bxcan.FilterRegs :=
  { finit := true, can2sb := 14, fa1r := 0, fs1r := 0, fm1r := 0, ffa1r := 0, fr1 := fun _ => 0,
    fr2 := fun _ => 0, fmpie0 := fun _ => false, fmpie1 := fun _ => false }

/-- A slot of the second instance is set for one standard identifier in FIFO 1 and then moved
to both kinds of identifiers in FIFO 0. -/
theorem filters_agree_rewritten : ∃ regs' ram',
    exec Bxcan.setFilter resetRegs [⟨.can2, 1, 14, 0x24600000, 0xFFE00004⟩,
        ⟨.can2, 0, 14, 0x24600000, 0xFFE00000⟩] = some regs' ∧
      exec (Fdcan.setFilter .classic)
        (Fdcan.initRam .classic .can2 (Fdcan.initRam .classic .can1 fun _ => 0))
        [⟨.can2, 1, 14, 0x24600000, 0xFFE00004⟩, ⟨.can2, 0, 14, 0x24600000, 0xFFE00000⟩] =
          some ram' ∧
      ∀ inst identifier remote,
        Fdcan.routeFrame .classic ram' inst identifier = regs'.route inst identifier remote := by
  obtain ⟨ram', hram, hroute⟩ := filters_agree .classic resetRegs _ (fun _ => 0)
    [⟨.can2, 1, 14, 0x24600000, 0xFFE00004⟩, ⟨.can2, 0, 14, 0x24600000, 0xFFE00000⟩]
    ⟨by decide, rfl⟩ (by simp [FilterCall.Portable]) rfl
  exact ⟨_, ram', rfl, hram, hroute⟩

end UniHal.Can
