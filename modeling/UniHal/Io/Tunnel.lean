import UniHal.Foundations.Execution

/-! # IO tunnels

A tunnel names two IOs, and each of them points back to the tunnel. An initialisation takes the
pointer away from the endpoints of the previous one, also from an endpoint that another tunnel
has taken over since.
-/

namespace UniHal.Io.Tunnel
open Foundations Execution

/-- `uni_hal_io_tunnel_context_t` -/
structure Context (ι : Type*) where
  ioFirst : Option ι
  ioSecond : Option ι
  transparent : Bool

/-- The tunnels, and the `handlers.tunnel_ctx` of the IOs. -/
structure State (τ ι : Type*) where
  tunnels : τ → Context ι
  tunnelCtx : ι → Option τ

variable {τ ι : Type*}

def start : State τ ι where
  tunnels _ := ⟨none, none, false⟩
  tunnelCtx _ := none

/-- The IO is an endpoint of the tunnel. -/
def Context.HasEndpoint (c : Context ι) (io : ι) : Prop :=
  c.ioFirst = some io ∨ c.ioSecond = some io

instance [DecidableEq ι] (c : Context ι) (io : ι) : Decidable (c.HasEndpoint io) :=
  inferInstanceAs (Decidable (_ ∨ _))

def Consistent (s : State τ ι) : Prop :=
  ∀ io t, s.tunnelCtx io = some t → (s.tunnels t).HasEndpoint io

theorem start_consistent : Consistent (start : State τ ι) := by
  intro io t h
  cases h

variable [DecidableEq ι]

namespace State

/-- `io->handlers.tunnel_ctx = NULL`, for an endpoint that is not NULL itself -/
def detach (s : State τ ι) : Option ι → State τ ι
  | none => s
  | some io => { s with tunnelCtx := Function.update s.tunnelCtx io none }

/-- `io->handlers.tunnel_ctx = ctx`, which no endpoint survives that is NULL -/
def attach (s : State τ ι) (ctx : τ) : Option ι → Option (State τ ι)
  | none => none
  | some io => some { s with tunnelCtx := Function.update s.tunnelCtx io (some ctx) }

end State

@[simp] theorem detach_tunnels (s : State τ ι) (e : Option ι) :
    (s.detach e).tunnels = s.tunnels := by
  cases e <;> rfl

theorem detach_tunnelCtx (s : State τ ι) (e : Option ι) (io : ι) :
    (s.detach e).tunnelCtx io = if e = some io then none else s.tunnelCtx io := by
  cases e with
  | none => rfl
  | some old =>
    simp only [State.detach, Function.update_apply, Option.some.injEq, eq_comm (a := io)]

variable [DecidableEq τ]

/-- `uni_hal_io_tunnel_init` -/
def init (ctx : Option τ) (ioFirst ioSecond : Option ι) (transparent : Bool) (s : State τ ι) :
    Option (Bool × State τ ι) :=
  match ctx with
  | none => some (false, s)
  | some t =>
    let s := s.detach (s.tunnels t).ioFirst
    let s := s.detach (s.tunnels t).ioSecond
    let s := { s with tunnels := Function.update s.tunnels t ⟨ioFirst, ioSecond, transparent⟩ }
    (s.attach t ioFirst).bind fun s => (s.attach t ioSecond).map fun s => (true, s)

/-- `uni_hal_io_tunnel_transmit_result_t` -/
inductive TransmitResult
  | fail
  | ok
  | transparent
  deriving DecidableEq, Repr

/-- `io_to`, the IO that `uni_hal_io_tunnel_transmit` sends to -/
def Context.ioTo (c : Context ι) (ioFrom : Option ι) : Option ι :=
  if c.ioFirst = ioFrom then c.ioSecond
  else if c.ioSecond = ioFrom then c.ioFirst
  else none

/-- `uni_hal_io_tunnel_transmit`; `transmitData` is the number of bytes that
`uni_hal_io_transmit_data` takes on an IO. -/
def transmit (transmitData : Option ι → ℕ) (ctx : Option τ) (ioFrom : Option ι)
    (s : State τ ι) : TransmitResult :=
  match ctx with
  | none => .fail
  | some t =>
    if transmitData ((s.tunnels t).ioTo ioFrom) ≠ 0 then
      if (s.tunnels t).transparent then .transparent else .ok
    else .fail

/-- An initialisation of a tunnel with two IOs. -/
structure Call (τ ι : Type*) where
  ctx : τ
  ioFirst : ι
  ioSecond : ι
  transparent : Bool

def step (s : State τ ι) (c : Call τ ι) : Option (State τ ι) :=
  (init (some c.ctx) (some c.ioFirst) (some c.ioSecond) c.transparent s).map Prod.snd

/-- The pointers after an initialisation: the new endpoints are linked, the other old ones are
not, and those of the other IOs stay. -/
def State.relink (s : State τ ι) (c : Call τ ι) : State τ ι where
  tunnels := Function.update s.tunnels c.ctx ⟨some c.ioFirst, some c.ioSecond, c.transparent⟩
  tunnelCtx io :=
    if io = c.ioFirst ∨ io = c.ioSecond then some c.ctx
    else if (s.tunnels c.ctx).HasEndpoint io then none
    else s.tunnelCtx io

theorem step_eq_relink (s : State τ ι) (c : Call τ ι) : step s c = some (s.relink c) := by
  simp only [step, init, State.attach, Option.bind_some, Option.map_some, State.relink,
    detach_tunnels]
  congr 2
  funext io
  simp only [Function.update_apply, detach_tunnelCtx, Context.HasEndpoint]
  by_cases hsecond : io = c.ioSecond
  · simp [hsecond]
  · by_cases hfirst : io = c.ioFirst
    · simp [hfirst]
    · by_cases hold : (s.tunnels c.ctx).ioFirst = some io <;> simp [hsecond, hfirst, hold]

theorem relink_consistent {s : State τ ι} (h : Consistent s) (c : Call τ ι) :
    Consistent (s.relink c) := by
  intro io t hio
  simp only [State.relink] at hio ⊢
  by_cases hnew : io = c.ioFirst ∨ io = c.ioSecond
  · rw [if_pos hnew, Option.some.injEq] at hio
    rw [← hio, Function.update_self]
    rcases hnew with rfl | rfl
    · exact .inl rfl
    · exact .inr rfl
  · rw [if_neg hnew] at hio
    by_cases hold : (s.tunnels c.ctx).HasEndpoint io
    · rw [if_pos hold] at hio
      cases hio
    · rw [if_neg hold] at hio
      have hlinked := h io t hio
      -- the IO is an endpoint of its tunnel, so its tunnel is another one
      have hne : t ≠ c.ctx := fun heq => hold (heq ▸ hlinked)
      rwa [Function.update_of_ne hne]

theorem reachable_consistent {s : State τ ι} {calls : List (Call τ ι)}
    (hrun : exec step start calls = some s) : Consistent s := by
  refine exec_invariant_of_step (fun s c t hs hstep => ?_) start_consistent hrun
  rw [step_eq_relink, Option.some.injEq] at hstep
  exact hstep ▸ relink_consistent hs c

/-- What comes in on an IO with a tunnel goes out on the other endpoint of that tunnel. -/
theorem ioTo_of_linked {s : State τ ι} {calls : List (Call τ ι)}
    (hrun : exec step start calls = some s) {io : ι} {t : τ} (hio : s.tunnelCtx io = some t) :
    (s.tunnels t).ioFirst = some io ∧ (s.tunnels t).ioTo (some io) = (s.tunnels t).ioSecond ∨
      (s.tunnels t).ioSecond = some io ∧
        (s.tunnels t).ioTo (some io) = (s.tunnels t).ioFirst := by
  by_cases hfirst : (s.tunnels t).ioFirst = some io
  · exact .inl ⟨hfirst, if_pos hfirst⟩
  · have hsecond := (reachable_consistent hrun io t hio).resolve_left hfirst
    refine .inr ⟨hsecond, ?_⟩
    rw [Context.ioTo, if_neg hfirst, if_pos hsecond]

/-- An initialisation does not take the pointer away from an IO that points to another tunnel,
unless it is one of the new endpoints. -/
def KeepsOthers (s : State τ ι) (c : Call τ ι) (s' : State τ ι) : Prop :=
  ∀ io t, s.tunnelCtx io = some t → t ≠ c.ctx → io ≠ c.ioFirst → io ≠ c.ioSecond →
    s'.tunnelCtx io ≠ none

/-- What an initialisation that leads from `s` to `s'` owes to the links. -/
structure LinksSound (s : State τ ι) (c : Call τ ι) (s' : State τ ι) : Prop where
  consistent : Consistent s'
  first : s'.tunnelCtx c.ioFirst = some c.ctx
  second : s'.tunnelCtx c.ioSecond = some c.ctx
  keepsOthers : KeepsOthers s c s'

/-- No old endpoint of the tunnel that is initialised has gone over to another tunnel, unless it
comes back as a new endpoint. -/
def NotTakenOver (s : State τ ι) (c : Call τ ι) : Prop :=
  ∀ io, (s.tunnels c.ctx).HasEndpoint io → io ≠ c.ioFirst → io ≠ c.ioSecond →
    s.tunnelCtx io = none ∨ s.tunnelCtx io = some c.ctx

theorem keepsOthers_relink_iff (s : State τ ι) (c : Call τ ι) :
    KeepsOthers s c (s.relink c) ↔ NotTakenOver s c := by
  constructor
  · intro hkeep io hold hfirst hsecond
    cases hio : s.tunnelCtx io with
    | none => exact .inl rfl
    | some t =>
      by_cases ht : t = c.ctx
      · exact .inr (by rw [ht])
      · refine absurd ?_ (hkeep io t hio ht hfirst hsecond)
        simp [State.relink, hfirst, hsecond, hold]
  · intro hown io t hio ht hfirst hsecond
    have hold : ¬(s.tunnels c.ctx).HasEndpoint io := by
      intro hold
      rcases hown io hold hfirst hsecond with h | h
      · rw [hio] at h
        cases h
      · rw [hio, Option.some.injEq] at h
        exact ht h
    simp [State.relink, hfirst, hsecond, hold, hio]

theorem linksSound_relink_iff {s : State τ ι} (h : Consistent s) (c : Call τ ι) :
    LinksSound s c (s.relink c) ↔ NotTakenOver s c := by
  rw [← keepsOthers_relink_iff]
  refine ⟨LinksSound.keepsOthers, fun hkeep => ⟨relink_consistent h c, ?_, ?_, hkeep⟩⟩
  · simp [State.relink]
  · simp [State.relink]

/-- Every initialisation of a run from the start does what it owes to the links. -/
def RunSound (calls : List (Call τ ι)) : Prop :=
  ∀ pre c post s s', calls = pre ++ c :: post → exec step start pre = some s →
    step s c = some s' → LinksSound s c s'

/-- The links stay sound in exactly the runs that re-initialise no tunnel after one of its
endpoints has gone over to another tunnel. -/
theorem links_sound_iff (calls : List (Call τ ι)) :
    RunSound calls ↔ Along step NotTakenOver start calls := by
  rw [along_iff_forall_split]
  constructor
  · intro hsound pre c post s heq hrun
    have hstep := step_eq_relink s c
    exact (linksSound_relink_iff (reachable_consistent hrun) c).mp
      (hsound pre c post s _ heq hrun hstep)
  · intro hok pre c post s s' heq hrun hstep
    rw [step_eq_relink, Option.some.injEq] at hstep
    exact hstep ▸ (linksSound_relink_iff (reachable_consistent hrun) c).mpr
      (hok pre c post s heq hrun)

/-- A tunnel between the IOs 0 and 1, another one between 0 and 2, and then the first one again,
between 3 and 4: IO 0 loses its link to the second tunnel. -/
def takeover : List (Call ℕ ℕ) := [⟨0, 0, 1, false⟩, ⟨1, 0, 2, false⟩, ⟨0, 3, 4, false⟩]

theorem takeover_not_sound : ¬ RunSound takeover := by
  intro h
  have hkeep := (h [⟨0, 0, 1, false⟩, ⟨1, 0, 2, false⟩] ⟨0, 3, 4, false⟩ [] _ _
    rfl rfl rfl).keepsOthers
  exact hkeep 0 1 rfl (by decide) (by decide) (by decide) rfl

end UniHal.Io.Tunnel
