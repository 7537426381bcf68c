import UniHal.Foundations.Execution

/-! # Parties on a shared medium

Every party moves on by itself. From time to time the medium takes what one of them offers, and
some of the others take it from there, each in a way of its own. A transfer may end without the
sender being told, so what was offered can go over the medium again.

A contract says what a party owes: an invariant that knows what the party has taken so far, and
what the party vouches for when it offers an item. When every party keeps its contract, all that
any of them has taken was vouched for by another one, and came in the order of the medium.
-/

namespace UniHal.Foundations.Broadcast
open Execution

/-- A party on a medium for items `X`. `R` tells how it takes one. -/
structure Party (X R : Type) where
  State : Type
  Action : Type
  Port : Type
  step : State → Action → Option State
  offer : State → Port → Option X
  /-- The item at this port has gone over the medium. -/
  sent : State → Port → Option State
  take : State → X → R → State

/-- An item that has gone over the medium. -/
structure Transfer (ι X : Type) where
  sender : ι
  item : X

variable {ι X R : Type}

structure World (party : ι → Party X R) where
  states : ∀ n, (party n).State
  log : List (Transfer ι X)

inductive Action (party : ι → Party X R)
  | own (n : ι) (action : (party n).Action)
  | transfer (sender : ι) (port : (party sender).Port) (done : Bool) (takers : ι → Option R)

section Step
variable [DecidableEq ι] {party : ι → Party X R}

/-- One party goes on from `s`. -/
def World.move (w : World party) (n : ι) (s : (party n).State) : World party :=
  { w with states := Function.update w.states n s }

/-- The sender goes on from `s`, and those that take the item from where they are. -/
def World.carry (w : World party) (sender : ι) (s : (party sender).State) (item : X)
    (takers : ι → Option R) : World party :=
  { states := Function.update
      (fun n => (takers n).elim (w.states n) ((party n).take (w.states n) item)) sender s
    log := w.log ++ [⟨sender, item⟩] }

def step (w : World party) : Action party → Option (World party)
  | .own n action =>
    ((party n).step (w.states n) action).map fun s => w.move n s
  | .transfer sender port done takers =>
    ((party sender).offer (w.states sender) port).bind fun item =>
      let next :=
        if done then (party sender).sent (w.states sender) port else some (w.states sender)
      next.map fun s => w.carry sender s item takers

theorem step_own_eq_some {w w' : World party} {n : ι} {action : (party n).Action} :
    step w (.own n action) = some w' ↔ ∃ s, (party n).step (w.states n) action = some s ∧
      w.move n s = w' :=
  Option.map_eq_some_iff

theorem step_transfer_eq_some {w w' : World party} {sender : ι} {port : (party sender).Port}
    {done : Bool} {takers : ι → Option R} :
    step w (.transfer sender port done takers) = some w' ↔
      ∃ item s, (party sender).offer (w.states sender) port = some item ∧
        (if done then (party sender).sent (w.states sender) port else some (w.states sender)) =
          some s ∧
        w.carry sender s item takers = w' := by
  simp only [step, Option.bind_eq_some_iff, Option.map_eq_some_iff, exists_and_left]

theorem move_states_self (w : World party) (n : ι) (s : (party n).State) :
    (w.move n s).states n = s := by
  simp only [World.move, Function.update_self]

theorem move_states_of_ne (w : World party) {n m : ι} (hm : m ≠ n) (s : (party n).State) :
    (w.move n s).states m = w.states m := by
  simp only [World.move, Function.update_of_ne hm]

theorem carry_states_self (w : World party) (sender : ι) (s : (party sender).State) (item : X)
    (takers : ι → Option R) : (w.carry sender s item takers).states sender = s := by
  simp only [World.carry, Function.update_self]

theorem carry_states_of_ne (w : World party) {sender n : ι} (hn : n ≠ sender)
    (s : (party sender).State) (item : X) (takers : ι → Option R) :
    (w.carry sender s item takers).states n =
      (takers n).elim (w.states n) ((party n).take (w.states n) item) := by
  simp only [World.carry, Function.update_of_ne hn]

end Step

abbrev Taken (ι X R : Type) := List (R × Transfer ι X)

/-- What a party keeps to, on actions that are `ok`. It stands by what it has once vouched
for. -/
structure Contract (ι : Type) (p : Party X R) where
  ok : p.State → p.Action → Prop
  inv : p.State → Taken ι X R → Prop
  Vouches : p.State → X → Prop
  step_inv {s t : p.State} {taken : Taken ι X R} {action : p.Action} (h : inv s taken)
    (hok : ok s action) (hs : p.step s action = some t) : inv t taken
  sent_inv {s t : p.State} {taken : Taken ι X R} {port : p.Port} (h : inv s taken)
    (hs : p.sent s port = some t) : inv t taken
  take_inv {s : p.State} {taken : Taken ι X R} (h : inv s taken) (r : R) (t : Transfer ι X) :
    inv (p.take s t.item r) (taken ++ [(r, t)])
  offer_vouches {s : p.State} {taken : Taken ι X R} {port : p.Port} {x : X} (h : inv s taken)
    (hx : p.offer s port = some x) : Vouches s x
  step_vouches {s t : p.State} {action : p.Action} {x : X} (h : Vouches s x)
    (hs : p.step s action = some t) : Vouches t x
  sent_vouches {s t : p.State} {port : p.Port} {x : X} (h : Vouches s x)
    (hs : p.sent s port = some t) : Vouches t x
  take_vouches {s : p.State} {x : X} (h : Vouches s x) (y : X) (r : R) :
    Vouches (p.take s y r) x

/-- Every own action of a run is one on which the party keeps its contract. -/
def Keeps {party : ι → Party X R} (contract : ∀ n, Contract ι (party n)) (w : World party) :
    Action party → Prop
  | .own n action => (contract n).ok (w.states n) action
  | .transfer _ _ _ _ => True

/-- Nobody has taken anything but what others have sent and vouch for, each item once and in
order. -/
structure Sound {party : ι → Party X R} (contract : ∀ n, Contract ι (party n)) (w : World party) :
    Prop where
  taken : ∀ n, ∃ taken, (contract n).inv (w.states n) taken ∧
    (taken.map Prod.snd).Sublist w.log ∧ ∀ y ∈ taken, y.2.sender ≠ n
  vouched : ∀ t ∈ w.log, (contract t.sender).Vouches (w.states t.sender) t.item

section Sound
variable [DecidableEq ι] {party : ι → Party X R} {contract : ∀ n, Contract ι (party n)}

theorem Sound.own {w : World party} (h : Sound contract w) {n : ι} {action : (party n).Action}
    (hok : (contract n).ok (w.states n) action) {s : (party n).State}
    (hs : (party n).step (w.states n) action = some s) :
    Sound contract (w.move n s) where
  taken m := by
    obtain ⟨taken, hinv, hlog, hothers⟩ := h.taken m
    refine ⟨taken, ?_, hlog, hothers⟩
    by_cases hm : m = n
    · subst hm
      rw [move_states_self]
      exact (contract m).step_inv hinv hok hs
    · rwa [move_states_of_ne w hm]
  vouched t ht := by
    have hvouches := h.vouched t ht
    by_cases hm : t.sender = n
    · subst hm
      rw [move_states_self]
      exact (contract t.sender).step_vouches hvouches hs
    · rwa [move_states_of_ne w hm]

theorem Sound.transfer {w : World party} (h : Sound contract w) {sender : ι}
    {port : (party sender).Port} {done : Bool} {item : X} {s : (party sender).State}
    (hoffer : (party sender).offer (w.states sender) port = some item)
    (hs : (if done then (party sender).sent (w.states sender) port
      else some (w.states sender)) = some s) (takers : ι → Option R) :
    Sound contract (w.carry sender s item takers) := by
  have hsender (x : X) (hx : (contract sender).Vouches (w.states sender) x) :
      (contract sender).Vouches s x := by
    cases done with
    | true => exact (contract sender).sent_vouches hx hs
    | false => exact Option.some.inj hs ▸ hx
  constructor
  · intro n
    obtain ⟨taken, hinv, hlog, hothers⟩ := h.taken n
    have hgrows : w.log.Sublist (w.log ++ [⟨sender, item⟩]) := List.sublist_append_left ..
    by_cases hn : n = sender
    · subst hn
      refine ⟨taken, ?_, hlog.trans hgrows, hothers⟩
      rw [carry_states_self]
      cases done with
      | true => exact (contract n).sent_inv hinv hs
      | false => exact Option.some.inj hs ▸ hinv
    · cases htakes : takers n with
      | none =>
        refine ⟨taken, ?_, hlog.trans hgrows, hothers⟩
        rw [carry_states_of_ne w hn, htakes]
        exact hinv
      | some r =>
        refine ⟨taken ++ [(r, ⟨sender, item⟩)], ?_, ?_, ?_⟩
        · rw [carry_states_of_ne w hn, htakes]
          exact (contract n).take_inv hinv r ⟨sender, item⟩
        · rw [List.map_append]
          exact hlog.append (List.Sublist.refl _)
        · intro y hy
          rcases List.mem_append.mp hy with hold | hnew
          · exact hothers y hold
          · rw [List.mem_singleton.mp hnew]
            exact fun heq => hn heq.symm
  · intro t ht
    rcases List.mem_append.mp ht with hold | hnew
    · have hvouches := h.vouched t hold
      by_cases hm : t.sender = sender
      · subst hm
        rw [carry_states_self]
        exact hsender _ hvouches
      · rw [carry_states_of_ne w hm]
        cases takers t.sender with
        | none => exact hvouches
        | some r => exact (contract t.sender).take_vouches hvouches item r
    · rw [List.mem_singleton.mp hnew, carry_states_self]
      obtain ⟨taken, hinv, -, -⟩ := h.taken sender
      exact hsender _ ((contract sender).offer_vouches hinv hoffer)

theorem sound_step {w w' : World party} {action : Action party} (h : Sound contract w)
    (hok : Keeps contract w action) (hs : step w action = some w') : Sound contract w' := by
  cases action with
  | own n action =>
    obtain ⟨s, hstep, rfl⟩ := step_own_eq_some.mp hs
    exact h.own hok hstep
  | transfer sender port done takers =>
    obtain ⟨item, s, hoffer, hnext, rfl⟩ := step_transfer_eq_some.mp hs
    exact h.transfer hoffer hnext takers

omit [DecidableEq ι] in
theorem sound_start {states : ∀ n, (party n).State}
    (h : ∀ n, (contract n).inv (states n) []) : Sound contract ⟨states, []⟩ where
  taken n := ⟨[], h n, List.Sublist.refl _, fun _ hy => absurd hy List.not_mem_nil⟩
  vouched _ ht := absurd ht List.not_mem_nil

/-- Runs in which every party keeps its contract are sound. -/
theorem sound_of_run {states : ∀ n, (party n).State} (h : ∀ n, (contract n).inv (states n) [])
    {run : List (Action party)} {w : World party}
    (hok : Along step (Keeps contract) ⟨states, []⟩ run)
    (hrun : exec step ⟨states, []⟩ run = some w) : Sound contract w :=
  exec_invariant (fun _ _ _ => sound_step) (sound_start h) hok hrun

end Sound

end UniHal.Foundations.Broadcast
