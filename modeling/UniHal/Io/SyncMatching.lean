import UniHal.Foundations.PatternScan
import UniHal.Io.ReceiveSync

/-! # The matcher of `uni_hal_io_receive_sync` is a left-to-right scan

As long as all calls look for the same pattern, `sync_idx` is the border of the bytes
taken since the last match, so the calls find exactly the occurrences that a scan of the
whole stream finds, wherever the calls and their timeouts cut it.
-/

namespace UniHal.Io
open Foundations Foundations.PatternScan Foundations.Execution

theorem memcmpPattern_eq {data : List UInt8} {m k : ℕ} (hkm : k ≤ m) (hm : m ≤ data.length) :
    memcmpPattern data (m - k) k = some (decide (data.take k <:+ data.take m)) := by
  have hk : (data.take k).length = k := by simp only [List.length_take]; omega
  have hl : (data.take m).length = m := by simp only [List.length_take]; omega
  rw [memcmpPattern, if_pos (by omega)]
  congr 1
  rw [decide_eq_decide, List.suffix_iff_eq_drop, hk, hl, List.drop_take, Nat.sub_sub_self hkm]

/-- The search over `keep` finds the longest prefix of the pattern, up to its start value,
that the matched part and the new byte end with, and stays inside the pattern. -/
theorem overlapIdx_spec {data : List UInt8} {m : ℕ} (ch : UInt8) (hm : m < data.length) :
    ∀ keep ≤ m, ∃ n, overlapIdx data m ch keep = some n ∧ n ≤ keep ∧
      data.take n <:+ data.take m ++ [ch] ∧
      ∀ k ≤ keep, data.take k <:+ data.take m ++ [ch] → k ≤ n := by
  intro keep
  induction keep with
  | zero => exact fun _ => ⟨0, rfl, le_rfl, by simp, fun k hk _ => hk⟩
  | succ keep ih =>
    intro hkeep
    obtain ⟨n, hn, hle, hs, hmax⟩ := ih (by omega)
    have hget : data[keep]? = some data[keep] := List.getElem?_eq_getElem (by omega)
    have hiff := take_succ_suffix_concat (P := data) (w := data.take m) (c := ch)
      (show keep < data.length by omega)
    have hskip (hno : ¬ data.take (keep + 1) <:+ data.take m ++ [ch]) :
        ∀ k ≤ keep + 1, data.take k <:+ data.take m ++ [ch] → k ≤ n := by
      intro k hk hk'
      by_cases he : k = keep + 1
      · exact absurd (he ▸ hk') hno
      · exact hmax k (by omega) hk'
    simp only [overlapIdx, hget, memcmpPattern_eq (show keep ≤ m by omega) hm.le]
    by_cases hch : ch = data[keep]
    · rw [if_pos hch]
      by_cases hcmp : data.take keep <:+ data.take m
      · refine ⟨keep + 1, by simp [hcmp], le_rfl, hiff.mpr ⟨by rw [hget, hch], hcmp⟩, ?_⟩
        exact fun k hk _ => hk
      · refine ⟨n, by simp [hcmp, hn], by omega, hs, hskip fun h => hcmp (hiff.mp h).2⟩
    · rw [if_neg hch]
      refine ⟨n, hn, by omega, hs, hskip fun h => hch ?_⟩
      have := (hiff.mp h).1
      rw [hget, Option.some.injEq] at this
      exact this.symm

/-- A byte either completes the pattern, or leaves an index inside it: one more than before,
or the one that the overlap search finds. -/
theorem syncByte_spec {data : List UInt8} {m : ℕ} (ch : UInt8) (hm : m < data.length) :
    (syncByte data m ch = .found ∧ data[m]? = some ch ∧ m + 1 = data.length) ∨
    (syncByte data m ch = .next (m + 1) ∧ data[m]? = some ch ∧ m + 1 < data.length) ∨
    (∃ n, syncByte data m ch = .next n ∧ data[m]? ≠ some ch ∧ n ≤ m ∧
      data.take n <:+ data.take m ++ [ch] ∧
      ∀ k ≤ m, data.take k <:+ data.take m ++ [ch] → k ≤ n) := by
  have hget : data[m]? = some data[m] := List.getElem?_eq_getElem hm
  by_cases hch : ch = data[m]
  · by_cases hlast : m + 1 = data.length
    · exact .inl ⟨by simp [syncByte, hget, hch, hlast], by rw [hget, hch], hlast⟩
    · exact .inr (.inl ⟨by simp [syncByte, hget, hch, hlast], by rw [hget, hch], by omega⟩)
  · obtain ⟨n, hn, hrest⟩ := overlapIdx_spec ch hm m le_rfl
    refine .inr (.inr ⟨n, by simp [syncByte, hget, hch, hn], ?_, hrest⟩)
    rw [hget, ne_eq, Option.some.injEq]
    exact fun h => hch h.symm

/-- The index moves as the border of the bytes since the last match does. -/
theorem syncByte_border {P : List UInt8} (w : List UInt8) (ch : UInt8) (hP : P ≠ []) :
    (syncByte P (border P w) ch = .found ∧ P <:+ w ++ [ch]) ∨
    (syncByte P (border P w) ch = .next (border P (w ++ [ch])) ∧ ¬ P <:+ w ++ [ch]) := by
  have hlen : 0 < P.length := List.length_pos_of_ne_nil hP
  have hb := border_le P w
  rcases syncByte_spec ch (show border P w < P.length by omega) with
    ⟨hs, hc, hl⟩ | ⟨hs, hc, hl⟩ | ⟨n, hs, hc, hle, hsuf, hmax⟩
  · exact .inl ⟨hs, (suffix_concat_iff_border hP).mpr ⟨hl, hc⟩⟩
  · refine .inr ⟨by rw [hs, border_concat_match hc hl], fun h => ?_⟩
    have := ((suffix_concat_iff_border hP).mp h).1
    omega
  · refine .inr ⟨by rw [hs, border_concat_mismatch hP hc hle hsuf hmax], fun h => ?_⟩
    exact hc ((suffix_concat_iff_border hP).mp h).2

def matchEnds (returns : List Return) : List ℕ :=
  returns.filterMap fun
    | .sync _ true count => some count
    | _ => none

/-- What may happen on an IO while one pattern is looked for: the RX interrupt, calls with
this pattern, and passes of their loop. -/
def SyncOnly (P : List UInt8) : Action → Prop
  | .pushIsr _ => True
  | .receiveSync data _ _ => data = P
  | .poll _ _ => True
  | _ => False

variable {B : Type*} [Buffer B]

/-- The progress of the search: kept in the context between the calls, in a local variable
during a call. -/
def Ctx.progress (s : Ctx B) : Option ℕ :=
  match s.call with
  | .idle => some s.syncIdx
  | .sync _ _ _ matchIdx => some matchIdx
  | _ => none

structure ScanInv (P : List UInt8) (s : Ctx B) : Prop where
  calls : ∀ data timeout tStart m, s.call = .sync data timeout tStart m → data = P
  stream : s.consumed ++ Buffer.bytes s.bufRx = s.stream
  scan : LeftmostScan P s.consumed (matchEnds s.returns)
  border : s.progress = some (border P (s.consumed.drop (lastEnd (matchEnds s.returns))))

theorem init_scanInv {P : List UInt8} (hP : P ≠ []) (b : B) : ScanInv P (init b) where
  calls _ _ _ _ h := by cases h
  stream := by simp [init, Ctx.consumed]
  scan := LeftmostScan.nil hP
  border := by simp [init, Ctx.progress, Ctx.consumed, matchEnds]

@[simp] theorem matchEnds_miss (rs : List Return) (data : List UInt8) (count : ℕ) :
    matchEnds (rs ++ [.sync data false count]) = matchEnds rs := by
  simp [matchEnds]

@[simp] theorem matchEnds_hit (rs : List Return) (data : List UInt8) (count : ℕ) :
    matchEnds (rs ++ [.sync data true count]) = matchEnds rs ++ [count] := by
  simp [matchEnds]

theorem poll_scanInv {P : List UInt8} (hP : P ≠ []) {s : Ctx B} {timeout tStart : UInt32} {m : ℕ}
    (hcall : s.call = .sync P timeout tStart m) (h : ScanInv P s) (now later : UInt32) :
    ScanInv P (pollSync s P timeout tStart m now later) := by
  have hm : m = border P (s.consumed.drop (lastEnd (matchEnds s.returns))) := by
    have hb := h.border
    simpa [Ctx.progress, hcall] using hb
  rcases pollSync_cases s P timeout tStart m now later with
    ⟨hempty, heq⟩ | ⟨ch, rest, buf, hbytes, hbuf, heq⟩
  · rw [heq]
    split
    · -- the time is over: the progress moves from the local variable into the context
      exact {
        calls := fun _ _ _ _ hc => by cases hc
        stream := h.stream
        scan := by simpa using h.scan
        border := by simpa [Ctx.progress] using hm }
    · exact h
  · have hlast := h.scan.lastEnd_le
    have hstream : s.consumed ++ [ch] ++ rest = s.stream := by
      rw [← h.stream, hbytes, List.append_assoc, List.singleton_append]
    rw [heq, hm]
    rcases syncByte_border (s.consumed.drop (lastEnd (matchEnds s.returns))) ch hP with
      ⟨hbyte, hfound⟩ | ⟨hbyte, hno⟩
    · rw [hbyte]
      exact {
        calls := fun _ _ _ _ hc => by cases hc
        stream := by simpa [Ctx.onByte, hbuf] using hstream
        scan := by simpa [Ctx.onByte, taken_length] using h.scan.hit hP hfound
        border := by simp [Ctx.onByte, taken_length, Ctx.progress] }
    · rw [hbyte]
      exact {
        calls := fun data timeout tStart n hc => by
          simp only [Ctx.onByte, goto_call, Call.sync.injEq] at hc
          exact hc.1.symm
        stream := by simpa [Ctx.onByte, hbuf] using hstream
        scan := by simpa [Ctx.onByte] using h.scan.miss hno
        border := by simp [Ctx.onByte, Ctx.progress, List.drop_append_of_le_length hlast] }

theorem step_scanInv {P : List UInt8} (hP : P ≠ []) {s t : Ctx B} {a : Action} (h : ScanInv P s)
    (hok : SyncOnly P a) (hst : step s a = some t) : ScanInv P t := by
  cases a with
  | pushIsr data =>
    simp only [step, Option.some.injEq] at hst
    subst hst
    exact {
      calls := h.calls
      stream := by
        rw [Buffer.bytes_write, ← h.stream, List.append_assoc]
        rfl
      scan := h.scan
      border := h.border }
  | receiveSync data timeout now =>
    cases hok
    cases hcall : s.call with
    | idle =>
      simp only [step, hcall, hP, if_false, Option.some.injEq] at hst
      subst hst
      exact {
        calls := fun data timeout tStart n hc => by
          simp only [goto_call, Call.sync.injEq] at hc
          exact hc.1.symm
        stream := h.stream
        scan := h.scan
        border := by simpa [Ctx.progress, hcall] using h.border }
    | sync data timeout tStart m => simp [step, hcall] at hst
    | receive dataLen timeout tStart received => simp [step, hcall] at hst
    | fault => simp [step, hcall] at hst
  | receiveData dataLen timeout now => cases hok
  | receiveClear accepted => cases hok
  | poll now later =>
    cases hcall : s.call with
    | sync data timeout tStart m =>
      obtain rfl := h.calls data timeout tStart m hcall
      simp only [step, hcall, Option.some.injEq] at hst
      exact hst ▸ poll_scanInv hP hcall h now later
    | receive dataLen timeout tStart received =>
      have hb := h.border
      simp [Ctx.progress, hcall] at hb
    | idle => simp [step, hcall] at hst
    | fault => simp [step, hcall] at hst

/-- Every run of calls with one pattern keeps the scan invariant. -/
theorem run_scanInv {P : List UInt8} (hP : P ≠ []) {b : B} {acts : List Action} {s : Ctx B}
    (hacts : ∀ a ∈ acts, SyncOnly P a) (hrun : exec step (init b) acts = some s) : ScanInv P s :=
  have hok : Along step (fun _ a => SyncOnly P a) (init b) acts := along_of_forall hacts
  exec_invariant (fun _ _ _ h hok hst => step_scanInv hP h hok hst) (init_scanInv hP b) hok hrun

/-- A step that lets a call return false has found the buffer empty. -/
theorem empty_of_miss {P : List UInt8} (hP : P ≠ []) {s t : Ctx B} {a : Action} {count : ℕ}
    (h : ScanInv P s) (hok : SyncOnly P a) (hst : step s a = some t)
    (hret : t.returns = s.returns ++ [.sync P false count]) : Buffer.bytes s.bufRx = [] := by
  cases a with
  | pushIsr data =>
    simp only [step, Option.some.injEq] at hst
    subst hst
    simp at hret
  | receiveSync data timeout now =>
    cases hok
    cases hcall : s.call with
    | idle =>
      simp only [step, hcall, hP, if_false, Option.some.injEq] at hst
      subst hst
      simp at hret
    | sync data timeout tStart m => simp [step, hcall] at hst
    | receive dataLen timeout tStart received => simp [step, hcall] at hst
    | fault => simp [step, hcall] at hst
  | receiveData dataLen timeout now => cases hok
  | receiveClear accepted => cases hok
  | poll now later =>
    cases hcall : s.call with
    | sync data timeout tStart m =>
      obtain rfl := h.calls data timeout tStart m hcall
      simp only [step, hcall, Option.some.injEq] at hst
      subst hst
      rcases pollSync_cases s data timeout tStart m now later with
        ⟨hempty, -⟩ | ⟨ch, rest, buf, -, -, heq⟩
      · exact hempty
      · rw [heq] at hret
        cases hbyte : syncByte data m ch <;> simp [Ctx.onByte, hbyte] at hret
    | receive dataLen timeout tStart received =>
      have hb := h.border
      simp [Ctx.progress, hcall] at hb
    | idle => simp [step, hcall] at hst
    | fault => simp [step, hcall] at hst

/-- Streaming search. Whatever the pattern, the bytes and the way they are spread over calls
and timeouts: the calls return true at the ends of the occurrences that a left-to-right scan
of the bytes taken so far finds, and nowhere else; between the calls `sync_idx` is the longest
proper prefix of the pattern that the bytes since the last match end with; and a call that returns
false has found the buffer empty. -/
theorem receiveSync_scan {P : List UInt8} (hP : P ≠ []) (b : B) (acts : List Action)
    (hacts : ∀ a ∈ acts, SyncOnly P a) (s : Ctx B) (hrun : exec step (init b) acts = some s) :
    s.consumed <+: s.stream ∧
    (∀ ends, LeftmostScan P s.consumed ends ↔ matchEnds s.returns = ends) ∧
    (s.call = .idle →
      s.syncIdx = border P (s.consumed.drop (lastEnd (matchEnds s.returns)))) ∧
    s.call ≠ .fault ∧
    (∀ a t count, SyncOnly P a → step s a = some t →
      t.returns = s.returns ++ [.sync P false count] → Buffer.bytes s.bufRx = []) := by
  have h := run_scanInv hP hacts hrun
  refine ⟨⟨_, h.stream⟩, fun ends => ⟨fun hs => h.scan.unique hP hs, fun he => he ▸ h.scan⟩, ?_, ?_,
    fun _ _ _ => empty_of_miss hP h⟩
  · intro hidle
    simpa [Ctx.progress, hidle] using h.border
  · intro hfault
    have hb := h.border
    simp [Ctx.progress, hfault] at hb

/-- The stream AAAB, cut by a timeout after its second byte, and calls that look for AAB. -/
def splitRun : List Action :=
  [.pushIsr [65, 65], .receiveSync [65, 65, 66] 0 7, .poll 7 7, .poll 7 7, .poll 7 8,
    .pushIsr [65, 66], .receiveSync [65, 65, 66] 5 9, .poll 9 9, .poll 9 9]

theorem receiveSync_scan_split :
    ∃ s, exec step (init (RingBuffer.empty UInt8 16)) splitRun = some s ∧
      LeftmostScan [65, 65, 66] s.consumed [4] ∧
      s.returns = [.sync [65, 65, 66] false 2, .sync [65, 65, 66] true 4] := by
  refine ⟨_, rfl, ?_, by decide⟩
  have h := receiveSync_scan (P := [65, 65, 66]) (by decide) (RingBuffer.empty UInt8 16) splitRun
    (by simp [splitRun, SyncOnly]) _ rfl
  exact (h.2.1 [4]).mpr (by decide)

end UniHal.Io
