import UniHal.Can.Bxcan.Mailbox
import UniHal.Can.Receive

/-! # Receive FIFOs of bxCAN

A receive FIFO has three mailboxes, of which only the oldest one can be read. Setting `RFOM`
asks the hardware to release it, and the bit stays set until that has happened. A frame that
finds the FIFO full takes the place of the newest one, as `RFLM` is clear.
-/

namespace UniHal.Can.Bxcan

def rxMailboxes : ℕ := 3

/-- One receive FIFO: `FMP` is the number of its messages. -/
structure RxFifo (build : Build) where
  mailboxes : List RxMailbox
  rfom : Bool
  fits : mailboxes.length ≤ rxMailboxes
  releasing : rfom = true → mailboxes ≠ []

namespace RxFifo
variable {build : Build} (fifo : RxFifo build)

def contents : List (Msg build.dataSize) := fifo.mailboxes.map (decode build)

def empty (build : Build) : RxFifo build :=
  { mailboxes := [], rfom := false, fits := Nat.zero_le _, releasing := Bool.noConfusion }

/-- Set `RFOM`; without a message there is nothing to release. -/
def release : RxFifo build :=
  { fifo with
    rfom := !fifo.mailboxes.isEmpty
    releasing := by simp }

/-- The hardware does what `RFOM` asks for. -/
def progress : List (Msg build.dataSize) × RxFifo build :=
  if fifo.rfom then
    (fifo.contents.take 1,
      { mailboxes := fifo.mailboxes.tail
        rfom := false
        fits := by
          have := fifo.fits
          rw [List.length_tail]
          omega
        releasing := Bool.noConfusion })
  else ([], fifo)

def arrive (box : RxMailbox) : RxFifo build :=
  if h : fifo.mailboxes.length < rxMailboxes then
    { mailboxes := fifo.mailboxes ++ [box]
      rfom := fifo.rfom
      fits := by simpa using h
      releasing := by simp }
  else
    { mailboxes := fifo.mailboxes.dropLast ++ [box]
      rfom := fifo.rfom
      fits := by
        have := fifo.fits
        simp only [List.length_append, List.length_dropLast, List.length_singleton, rxMailboxes]
          at this ⊢
        omega
      releasing := by simp }

/-- Only the newest of several messages is ever overwritten. -/
theorem arrive_head (box : RxMailbox) (hne : fifo.contents ≠ []) :
    (fifo.arrive box).contents ≠ [] ∧
      (fifo.arrive box).contents.head? = fifo.contents.head? := by
  have hboxes : fifo.mailboxes ≠ [] := by simpa [contents] using hne
  by_cases h : fifo.mailboxes.length < rxMailboxes
  · have happ : (fifo.arrive box).contents = fifo.contents ++ [decode build box] := by
      simp [arrive, h, contents]
    rw [happ, List.head?_append_of_ne_nil _ hne]
    simp
  · obtain ⟨first, second, rest, hrest⟩ :
        ∃ first second rest, fifo.mailboxes = first :: second :: rest := by
      match hbox : fifo.mailboxes with
      | [] => exact absurd hbox hboxes
      | [_] => simp [hbox, rxMailboxes] at h
      | first :: second :: rest => exact ⟨first, second, rest, rfl⟩
    have hlen : ¬ rest.length + 1 + 1 < rxMailboxes := by simpa [hrest] using h
    simp [arrive, hlen, contents, hrest]

/-- The FIFO as `_uni_hal_can_irq_rx` uses it: there is no index, and a release takes effect
some time after the request. -/
instance : HwFifo (RxFifo build) Unit RxMailbox (Msg build.dataSize) where
  contents := contents
  settled fifo := !fifo.rfom
  filled fifo := fifo.mailboxes.length != 0
  getIndex _ := ()
  read fifo _ := (fifo.contents.head?).getD (Msg.zero build.dataSize)
  release fifo _ := ([], fifo.release)
  progress := progress
  arrive := arrive
  filled_iff fifo := by simp [contents]
  read_getIndex fifo hne := by
    cases h : fifo.contents with
    | nil => exact absurd h hne
    | cons => rfl
  release_contents _ _ := rfl
  release_length fifo hne := by
    have hboxes : fifo.mailboxes ≠ [] := by simpa [contents] using hne
    simp [release, hboxes]
  progress_settled fifo h := by
    have hrfom : fifo.rfom = false := by simpa using h
    simp [progress, hrfom]
  progress_unsettled fifo h := by
    have hrfom : fifo.rfom = true := by simpa using h
    simp [progress, hrfom]
  progress_contents fifo := by
    cases hrfom : fifo.rfom with
    | true =>
      have hne := fifo.releasing hrfom
      cases h : fifo.mailboxes with
      | nil => exact absurd h hne
      | cons => simp [progress, hrfom, contents, h]
    | false => simp [progress, hrfom]
  progress_length fifo := by
    cases hrfom : fifo.rfom with
    | true =>
      have hpos := List.length_pos_of_ne_nil (fifo.releasing hrfom)
      simp [progress, hrfom, contents]
      omega
    | false => simp [progress, hrfom]
  arrive_settled fifo box := by
    by_cases h : fifo.mailboxes.length < rxMailboxes <;> simp [arrive, h]
  arrive_getIndex _ _ := rfl
  arrive_head := arrive_head

end RxFifo

end UniHal.Can.Bxcan
