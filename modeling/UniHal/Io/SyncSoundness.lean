import UniHal.Io.SyncMatching

/-! # When `uni_hal_io_receive_sync` may be trusted

`sync_idx` stays in the context between the calls, while the pattern is an argument and
other calls take bytes from the same buffer. A call reports only what was received if
the progress it starts from belongs to its own pattern and to the bytes taken last.
-/

namespace UniHal.Io
open Foundations Foundations.PatternScan Foundations.Execution

variable {B : Type*} [Buffer B]

/-- The bytes taken last are these, one after the other in the stream, and the oldest unread
byte is the next one. -/
def Ctx.EndsWith (s : Ctx B) (w : List UInt8) : Prop :=
  w.length ≤ s.pos ∧ w.zipIdx (s.pos - w.length) <:+ s.taken

instance (s : Ctx B) (w : List UInt8) : Decidable (s.EndsWith w) :=
  inferInstanceAs (Decidable (_ ∧ _))

/-- No index outside a pattern was used, and every call that returned true had just taken its
pattern from the buffer, from consecutive positions of the stream. -/
def SyncSound (s : Ctx B) : Prop :=
  s.call ≠ .fault ∧
  ∀ data count, .sync data true count ∈ s.returns →
    ∃ k, data.zipIdx k <:+ s.taken.take count ∧ ∀ i < data.length, s.stream[k + i]? = data[i]?

/-- The recorded progress lies inside the pattern of the call that starts, and is about the
bytes taken last. -/
def ProgressFits (s : Ctx B) : Action → Prop
  | .receiveSync data _ _ =>
    data = [] ∨ s.syncIdx < data.length ∧ s.EndsWith (data.take s.syncIdx)
  | _ => True

instance (s : Ctx B) (a : Action) : Decidable (ProgressFits s a) := by
  cases a <;> unfold ProgressFits <;> infer_instance

theorem zipIdx_suffix {u w : List UInt8} (h : u <:+ w) (k : ℕ) :
    u.zipIdx (k + w.length - u.length) <:+ w.zipIdx k := by
  obtain ⟨t, rfl⟩ := h
  rw [List.zipIdx_append, List.length_append, show k + (t.length + u.length) - u.length =
    k + t.length by omega]
  exact List.suffix_append _ _

omit [Buffer B] in
theorem EndsWith.of_suffix {s : Ctx B} {u w : List UInt8} (h : s.EndsWith w) (hu : u <:+ w) :
    s.EndsWith u := by
  have hlen := hu.length_le
  have hw := h.1
  refine ⟨by omega, ?_⟩
  have hz := zipIdx_suffix hu (s.pos - w.length)
  rw [show s.pos - w.length + w.length - u.length = s.pos - u.length by omega] at hz
  exact hz.trans h.2

omit [Buffer B] in
theorem EndsWith.take_byte {s : Ctx B} {w : List UInt8} (h : s.EndsWith w) (ch : UInt8) (buf : B) :
    (s.take [ch] buf).EndsWith (w ++ [ch]) := by
  have hw := h.1
  obtain ⟨t, ht⟩ := h.2
  refine ⟨by simp; omega, t, ?_⟩
  rw [take_taken, take_pos, ← ht, List.append_assoc, List.zipIdx_append, List.length_append,
    List.length_singleton, show s.pos + 1 - (w.length + 1) = s.pos - w.length by omega,
    show s.pos - w.length + w.length = s.pos by omega]

def CallSound (s : Ctx B) : Prop :=
  match s.call with
  | .sync data _ _ m => m < data.length ∧ s.EndsWith (data.take m)
  | .fault => False
  | _ => True

structure SoundInv (s : Ctx B) : Prop where
  unread : s.stream.drop s.pos = Buffer.bytes s.bufRx
  pos_le : s.pos ≤ s.stream.length
  taken : ∀ p ∈ s.taken, s.stream[p.2]? = some p.1
  returns : ∀ data count, .sync data true count ∈ s.returns →
    count ≤ s.taken.length ∧ ∃ k, data.zipIdx k <:+ s.taken.take count
  call : CallSound s

theorem init_soundInv (b : B) : SoundInv (init b) where
  unread := rfl
  pos_le := Nat.zero_le _
  taken := by simp [init]
  returns := by simp [init]
  call := trivial

/-- Taking bytes keeps everything but the state of the call. -/
theorem SoundInv.take {s : Ctx B} (h : SoundInv s) {bytes rest : List UInt8} {buf : B}
    (hbytes : Buffer.bytes s.bufRx = bytes ++ rest) (hbuf : Buffer.bytes buf = rest)
    (hcall : CallSound (s.take bytes buf)) : SoundInv (s.take bytes buf) := by
  have hdrop : s.stream.drop s.pos = bytes ++ rest := by rw [h.unread, hbytes]
  have hlen := congrArg List.length hdrop
  have hpos := h.pos_le
  simp only [List.length_drop, List.length_append] at hlen
  refine ⟨?_, by simp only [take_pos, take_stream]; omega, ?_, ?_, hcall⟩
  · rw [take_stream, take_pos, take_bufRx, hbuf, ← List.drop_drop, hdrop, List.drop_left]
  · rintro ⟨ch, i⟩ hp
    rw [take_taken] at hp
    rcases List.mem_append.mp hp with hold | hnew
    · exact h.taken _ hold
    · obtain ⟨hge, hch⟩ := List.mk_mem_zipIdx_iff_le_and_getElem?_sub.mp hnew
      obtain ⟨hlt, -⟩ := List.getElem?_eq_some_iff.mp hch
      have hget := congrArg (fun l => l[i - s.pos]?) hdrop
      simp only [List.getElem?_drop] at hget
      rw [Nat.add_sub_cancel' hge, List.getElem?_append_left hlt, hch] at hget
      exact hget
  · intro data count hr
    obtain ⟨hcount, k, hk⟩ := h.returns data count hr
    refine ⟨by simp only [take_taken, List.length_append]; omega, k, ?_⟩
    rwa [take_taken, List.take_append_of_le_length hcount]

theorem SoundInv.goto {s : Ctx B} (h : SoundInv s) {call : Call} (hcall : CallSound (s.goto call)) :
    SoundInv (s.goto call) :=
  ⟨h.unread, h.pos_le, h.taken, h.returns, hcall⟩

/-- A call returns false, or returns true with its pattern as the bytes taken last. -/
theorem SoundInv.finish {s : Ctx B} (h : SoundInv s) (syncIdx : ℕ) {r : Return}
    (hr : ∀ data count, r = .sync data true count → count = s.taken.length ∧ s.EndsWith data) :
    SoundInv (s.finish syncIdx r) := by
  refine ⟨h.unread, h.pos_le, h.taken, fun data count hmem => ?_, trivial⟩
  rw [finish_returns] at hmem
  rcases List.mem_append.mp hmem with hold | hnew
  · exact h.returns data count hold
  · obtain ⟨hcount, hends⟩ := hr data count (List.mem_singleton.mp hnew).symm
    refine ⟨hcount.le, s.pos - data.length, ?_⟩
    rw [hcount, finish_taken, List.take_length]
    exact hends.2

theorem poll_soundInv {s : Ctx B} (h : SoundInv s) {data : List UInt8} {timeout tStart : UInt32}
    {m : ℕ} (hcall : s.call = .sync data timeout tStart m) (now later : UInt32) :
    SoundInv (pollSync s data timeout tStart m now later) := by
  have hc := h.call
  simp only [CallSound, hcall] at hc
  obtain ⟨hm, hends⟩ := hc
  rcases pollSync_cases s data timeout tStart m now later with
    ⟨-, heq⟩ | ⟨ch, rest, buf, hbytes, hbuf, heq⟩
  · rw [heq]
    split
    · exact h.finish m (by simp)
    · exact h
  · have hnext := EndsWith.take_byte hends ch buf
    have hsucc (hget : data[m]? = some ch) : data.take m ++ [ch] = data.take (m + 1) := by
      rw [List.take_add_one, hget, Option.toList_some]
    -- the byte is taken first; what it does to the call is settled case by case
    have hidle : SoundInv (s.goto .idle) := h.goto trivial
    have htake : SoundInv ((s.goto .idle).take [ch] buf) := hidle.take hbytes hbuf trivial
    rw [heq]
    rcases syncByte_spec ch hm with
      ⟨hbyte, hget, hlast⟩ | ⟨hbyte, hget, hlt⟩ | ⟨n, hbyte, -, hle, hsuf, -⟩
    · rw [hbyte]
      have hall : data.take m ++ [ch] = data := by
        rw [hsucc hget, hlast, List.take_length]
      apply htake.finish
      intro data' count hr
      simp only [Return.sync.injEq, true_and] at hr
      obtain ⟨rfl, rfl⟩ := hr
      exact ⟨rfl, hall ▸ hnext⟩
    · rw [hbyte]
      exact htake.goto ⟨hlt, hsucc hget ▸ hnext⟩
    · rw [hbyte]
      exact htake.goto ⟨by omega, EndsWith.of_suffix hnext hsuf⟩

theorem pollReceive_soundInv {s : Ctx B} (h : SoundInv s) {dataLen : ℕ} {timeout tStart : UInt32}
    {received : ℕ} (hcall : s.call = .receive dataLen timeout tStart received)
    (now later : UInt32) :
    SoundInv (pollReceive s dataLen timeout tStart received now later) := by
  have hsplit : Buffer.bytes s.bufRx =
      (Buffer.read s.bufRx (dataLen - received) (waitMs timeout tStart now)).1 ++
        (Buffer.bytes s.bufRx).drop (dataLen - received) := by
    rw [Buffer.read_fst, List.take_append_drop]
  have htake : SoundInv (s.take
      (Buffer.read s.bufRx (dataLen - received) (waitMs timeout tStart now)).1
      (Buffer.read s.bufRx (dataLen - received) (waitMs timeout tStart now)).2) := by
    apply h.take hsplit
    · rw [Buffer.bytes_read]
    · simp only [CallSound, take_call, hcall]
  simp only [pollReceive]
  split
  · exact htake.finish _ (by simp)
  · exact htake.goto trivial

theorem SoundInv.pushIsr {s : Ctx B} (h : SoundInv s) (data : List UInt8) :
    SoundInv { s with
      bufRx := (Buffer.write s.bufRx data).2
      stream := s.stream ++ data.take (Buffer.write s.bufRx data).1 } where
  unread := by
    simp only [List.drop_append_of_le_length h.pos_le, h.unread, Buffer.bytes_write]
  pos_le := by
    have := h.pos_le
    simp only [List.length_append]
    omega
  taken p hp := by
    have hget := h.taken p hp
    have hlt := (List.getElem?_eq_some_iff.mp hget).1
    simp only [List.getElem?_append_left hlt, hget]
  returns := h.returns
  call := h.call

theorem SoundInv.clear {s : Ctx B} (h : SoundInv s) :
    SoundInv { s with
      call := .idle
      syncIdx := 0
      bufRx := Buffer.reset s.bufRx
      pos := s.pos + Buffer.available s.bufRx } where
  unread := by
    simp only [Buffer.available_eq, Buffer.bytes_reset, ← List.drop_drop, h.unread,
      List.drop_length]
  pos_le := by
    have hlen := congrArg List.length h.unread
    have hpos := h.pos_le
    simp only [List.length_drop] at hlen
    simp only [Buffer.available_eq]
    omega
  taken := h.taken
  returns := h.returns
  call := trivial

theorem step_soundInv (s : Ctx B) (a : Action) (t : Ctx B) (h : SoundInv s)
    (hfits : ProgressFits s a)
    (hstep : step s a = some t) : SoundInv t := by
  cases a with
  | pushIsr data =>
    simp only [step, Option.some.injEq] at hstep
    exact hstep ▸ h.pushIsr data
  | receiveSync data timeout now =>
    cases hcall : s.call <;> simp only [step, hcall, reduceCtorEq] at hstep
    by_cases hd : data = []
    · rw [if_pos hd, Option.some.injEq] at hstep
      exact hstep ▸ h.finish s.syncIdx (by simp)
    · rw [if_neg hd, Option.some.injEq] at hstep
      exact hstep ▸ h.goto (hfits.resolve_left hd)
  | receiveData dataLen timeout now =>
    cases hcall : s.call <;> simp only [step, hcall, reduceCtorEq, Option.some.injEq] at hstep
    exact hstep ▸ h.goto trivial
  | receiveClear accepted =>
    cases hcall : s.call <;> simp only [step, hcall, reduceCtorEq] at hstep
    by_cases hacc : accepted = true
    · rw [if_pos hacc, Option.some.injEq] at hstep
      exact hstep ▸ h.clear
    · rw [if_neg hacc, Option.some.injEq] at hstep
      exact hstep ▸ ⟨h.unread, h.pos_le, h.taken, h.returns, trivial⟩
  | poll now later =>
    cases hcall : s.call <;> simp only [step, hcall, reduceCtorEq, Option.some.injEq] at hstep
    case sync data timeout tStart m => exact hstep ▸ poll_soundInv h hcall now later
    case receive dataLen timeout tStart received =>
      exact hstep ▸ pollReceive_soundInv h hcall now later

theorem SoundInv.syncSound {s : Ctx B} (h : SoundInv s) : SyncSound s := by
  constructor
  · intro hfault
    have hcall := h.call
    simp only [CallSound, hfault] at hcall
  · intro data count hret
    obtain ⟨-, k, hk⟩ := h.returns data count hret
    refine ⟨k, hk, fun i hi => ?_⟩
    have hmem : (data[i], k + i) ∈ data.zipIdx k := by
      rw [List.mk_mem_zipIdx_iff_le_and_getElem?_sub]
      exact ⟨by omega, by rw [Nat.add_sub_cancel_left, List.getElem?_eq_getElem hi]⟩
    rw [h.taken _ (List.mem_of_mem_take (hk.subset hmem)), List.getElem?_eq_getElem hi]

/-- When every call starts from progress that belongs to its pattern and to the bytes taken
last, no call leaves its pattern and none returns true for bytes that were not received. -/
theorem receiveSync_sound (b : B) (as : List Action) (s : Ctx B)
    (hfits : Along step ProgressFits (init b) as) (hrun : exec step (init b) as = some s) :
    SyncSound s :=
  (exec_invariant step_soundInv (init_soundInv b) hfits hrun).syncSound

/-- Two calls with the same pattern, cut by a timeout. -/
theorem receiveSync_sound_resumed :
    ∃ s, exec step (init (RingBuffer.empty UInt8 8))
        [.pushIsr [1], .receiveSync [1, 2] 0 0, .poll 0 0, .poll 0 0, .pushIsr [2],
          .receiveSync [1, 2] 0 0, .poll 0 0] = some s ∧
      s.returns = [.sync [1, 2] false 1, .sync [1, 2] true 2] ∧ SyncSound s :=
  ⟨_, rfl, rfl, receiveSync_sound (RingBuffer.empty UInt8 8)
    [.pushIsr [1], .receiveSync [1, 2] 0 0, .poll 0 0, .poll 0 0, .pushIsr [2],
      .receiveSync [1, 2] 0 0, .poll 0 0] _ (by decide) rfl⟩

/-- Progress made with one pattern counts for the next one: a call for `[3, 2]` returns true
after `[1, 2]` was received, and a call for a shorter pattern reads outside of it. -/
theorem receiveSync_unsound :
    (∃ s, exec step (init (RingBuffer.empty UInt8 8))
        [.pushIsr [1], .receiveSync [1, 2] 0 0, .poll 0 0, .poll 0 0, .pushIsr [2],
          .receiveSync [3, 2] 0 0, .poll 0 0] = some s ∧
      s.returns = [.sync [1, 2] false 1, .sync [3, 2] true 2] ∧ s.consumed = [1, 2] ∧
      ¬ SyncSound s) ∧
    (∃ s, exec step (init (RingBuffer.empty UInt8 8))
        [.pushIsr [1, 2], .receiveSync [1, 2, 3] 0 0, .poll 0 0, .poll 0 0, .poll 0 0,
          .pushIsr [7], .receiveSync [7] 0 0, .poll 0 0] = some s ∧ ¬ SyncSound s) := by
  refine ⟨⟨_, rfl, rfl, rfl, fun hsound => ?_⟩, ⟨_, rfl, fun hsound => hsound.1 rfl⟩⟩
  obtain ⟨k, hk, -⟩ := hsound.2 [3, 2] 2 (by decide)
  have hmem := hk.subset (List.mem_cons_self (a := ((3 : UInt8), k)))
  have hbytes : (3 : UInt8) ∈ ([1, 2] : List UInt8) := List.mem_map_of_mem (f := Prod.fst) hmem
  exact absurd hbytes (by decide)

end UniHal.Io
