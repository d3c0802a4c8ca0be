import Riscbox.Machine.Uart

/-!
# The serial port as two queues

Over every run of guest accesses and host calls, what enters the receive FIFO leaves it in
order, once, and the host collects what the guest has sent.
-/

namespace Riscbox
namespace Platform
namespace Uart16550

attribute [local instance] neZeroCapacity

variable {u : Uart16550}

/-! ## The queue in the ring -/

/-- The received bytes that wait, the first to be read first. -/
def contents (u : Uart16550) : List UInt8 :=
  (List.range u.rxCount).map fun i => u.rx (u.rxHead + Fin.ofNat 16 i)

@[simp] theorem length_contents (u : Uart16550) : u.contents.length = u.rxCount := by
  simp [contents]

theorem contents_empty (h : u.rxCount = 0) : u.contents = [] := by
  rw [contents, h]
  rfl

theorem capacity_le (u : Uart16550) : u.capacity ≤ 16 := by
  unfold capacity
  split <;> omega

theorem place_succ (head : Fin 16) (i : ℕ) :
    head + Fin.ofNat 16 (i + 1) = head + 1 + Fin.ofNat 16 i := by
  apply Fin.ext
  simp [Fin.val_add, Fin.ofNat]
  omega

theorem place_ne (head : Fin 16) {i n : ℕ} (hi : i < n) (hn : n < 16) :
    head + Fin.ofNat 16 i ≠ head + Fin.ofNat 16 n := by
  intro h
  have hval := congrArg Fin.val h
  simp [Fin.val_add, Fin.ofNat] at hval
  omega

/-- What the guest reads is the first byte of the queue. -/
theorem contents_pop (h : u.rxCount ≠ 0) :
    u.contents = u.rx u.rxHead ::
      contents { u with rxHead := u.rxHead + 1, rxCount := u.rxCount - 1 } := by
  obtain ⟨n, hn⟩ := Nat.exists_eq_succ_of_ne_zero h
  unfold contents
  rw [hn, List.range_succ_eq_map, List.map_cons, List.map_map]
  congr 1
  · congr 1
    apply Fin.ext
    simp [Fin.ofNat]
  · apply List.map_congr_left
    intro i _
    exact congrArg u.rx (place_succ u.rxHead i)

/-- A byte that finds room goes to the end of the queue. -/
theorem contents_push (h : u.rxCount < u.capacity) (value : UInt8) :
    (u.push value).contents = u.contents ++ [value] := by
  have hlt : u.rxCount < 16 := h.trans_le u.capacity_le
  unfold push contents
  rw [if_neg (not_le.mpr h), List.range_succ, List.map_append, List.map_singleton]
  dsimp only
  rw [Function.update_self]
  congr 1
  apply List.map_congr_left
  intro i hi
  exact Function.update_of_ne (place_ne u.rxHead (List.mem_range.mp hi) hlt) _ _

/-- A guest that does not close the divisor latch means the data register by offset `0`. -/
def AtData (u : Uart16550) (offset : Nat) : Prop := offset = 0 ∧ u.lcr &&& 0x80 = 0

instance (offset : Nat) : Decidable (u.AtData offset) := inferInstanceAs (Decidable (_ ∧ _))

/-- The transmitter is connected to the receiver. -/
def Loops (u : Uart16550) : Prop := u.mcr &&& 0x10 ≠ 0

instance : Decidable u.Loops := inferInstanceAs (Decidable (_ ≠ _))

/-- A write to the FIFO control drops what waits in the receive FIFO. -/
def Clears (u : Uart16550) (value : UInt8) : Prop :=
  (if (u.fcr ^^^ (value &&& 0xc9)) &&& 1 ≠ 0 then value ||| 6 else value) &&& 2 ≠ 0

instance (value : UInt8) : Decidable (u.Clears value) := inferInstanceAs (Decidable (_ ≠ _))

/-! ## What an access does to the queue -/

theorem push_full (h : u.capacity ≤ u.rxCount) (value : UInt8) :
    u.push value = { u with overrun := true } := if_pos h

theorem push_capacity (value : UInt8) : (u.push value).capacity = u.capacity := by
  unfold push
  split <;> rfl

theorem push_fits (h : u.rxCount ≤ u.capacity) (value : UInt8) :
    (u.push value).rxCount ≤ (u.push value).capacity := by
  rw [push_capacity]
  unfold push
  split
  · exact h
  · dsimp only
    omega

/-- Bytes for which there is room. -/
theorem pushes_contents (bytes : List UInt8) :
    ∀ u : Uart16550, u.rxCount + bytes.length ≤ u.capacity →
      (bytes.foldl push u).contents = u.contents ++ bytes ∧
        (bytes.foldl push u).rxCount = u.rxCount + bytes.length ∧
        (bytes.foldl push u).capacity = u.capacity ∧
        (bytes.foldl push u).overrun = u.overrun ∧
        (bytes.foldl push u).transmitted = u.transmitted := by
  induction bytes with
  | nil => exact fun u _ => ⟨(List.append_nil _).symm, rfl, rfl, rfl, rfl⟩
  | cons value bytes ih =>
    intro u h
    rw [List.length_cons] at h
    have hroom : u.rxCount < u.capacity := by omega
    have hpush : u.push value =
        { u with
          rx := Function.update u.rx (u.rxHead + Fin.ofNat 16 u.rxCount) value
          rxCount := u.rxCount + 1 } := if_neg (not_le.mpr hroom)
    have hcapacity := push_capacity (u := u) value
    have hcount : (u.push value).rxCount = u.rxCount + 1 := by rw [hpush]
    have hoverrun : (u.push value).overrun = u.overrun := by rw [hpush]
    have hsent : (u.push value).transmitted = u.transmitted := by rw [hpush]
    obtain ⟨h1, h2, h3, h4, h5⟩ := ih (u.push value) (by rw [hcount, hcapacity]; omega)
    rw [List.foldl_cons, List.length_cons, h1, h2, h3, h4, h5, contents_push hroom, hcount,
      hcapacity, hoverrun, hsent, List.append_assoc]
    exact ⟨rfl, by omega, rfl, rfl, rfl⟩

/-- The host's bytes are taken from the front, as many as there is room for, and none is
lost. -/
structure Received (u : Uart16550) (bytes : List UInt8) (r : Nat × Uart16550) : Prop where
  count : r.1 = min bytes.length u.receiveSpace
  contents : r.2.contents = u.contents ++ bytes.take r.1
  fits : r.2.rxCount ≤ r.2.capacity
  overrun : r.2.overrun = u.overrun
  transmitted : r.2.transmitted = u.transmitted

theorem receive_received (h : u.rxCount ≤ u.capacity) (bytes : List UInt8) :
    Received u bytes (u.receive bytes) := by
  have hspace : u.receiveSpace ≤ u.capacity - u.rxCount := by
    unfold receiveSpace
    split
    · exact Nat.zero_le _
    · exact le_refl _
  have hlength : (bytes.take (min bytes.length u.receiveSpace)).length ≤ u.receiveSpace := by
    rw [List.length_take]
    omega
  obtain ⟨h1, h2, h3, h4, h5⟩ :=
    pushes_contents (bytes.take (min bytes.length u.receiveSpace)) u (by omega)
  exact {
    count := rfl
    contents := h1
    fits := by
      rw [receive]
      dsimp only
      omega
    overrun := h4
    transmitted := h5 }

/-- What a read does: only one of the data register takes a byte, the first. -/
structure HasRead (u : Uart16550) (offset : Nat) (r : UInt8 × Uart16550) : Prop where
  taken : u.AtData offset ∧ u.rxCount ≠ 0 → u.contents = r.1 :: r.2.contents
  kept : ¬ (u.AtData offset ∧ u.rxCount ≠ 0) → r.2.contents = u.contents
  fits : r.2.rxCount ≤ r.2.capacity
  transmitted : r.2.transmitted = u.transmitted

/-- A read that leaves the receive FIFO alone. -/
theorem HasRead.of_kept {offset : Nat} {value : UInt8} {u' : Uart16550}
    (hdata : ¬ (u.AtData offset ∧ u.rxCount ≠ 0)) (hcontents : u'.contents = u.contents)
    (hfits : u'.rxCount ≤ u'.capacity) (hsent : u'.transmitted = u.transmitted) :
    HasRead u offset (value, u') where
  taken := fun h => absurd h hdata
  kept := fun _ => hcontents
  fits := hfits
  transmitted := hsent

theorem read_hasRead (h : u.rxCount ≤ u.capacity) (offset : Nat) :
    HasRead u offset (u.read offset) := by
  have hother : offset ≠ 0 → ¬ (u.AtData offset ∧ u.rxCount ≠ 0) := fun hne hdata =>
    hne hdata.1.1
  unfold read
  split
  case isTrue hlarge => exact HasRead.of_kept (hother (by omega)) rfl h rfl
  case isFalse hsmall =>
    split
    case isTrue hlatch => exact HasRead.of_kept (fun hdata => hlatch.1 hdata.1.2) rfl h rfl
    case isFalse hlatch =>
      split
      · split
        case isTrue hempty => exact HasRead.of_kept (fun hdata => hdata.2 hempty) rfl h rfl
        case isFalse hfull =>
          have hdata : u.AtData 0 := ⟨rfl, not_not.mp fun hne => hlatch ⟨hne, Nat.zero_le 1⟩⟩
          exact {
            taken := fun _ => contents_pop hfull
            kept := fun hnot => absurd ⟨hdata, hfull⟩ hnot
            fits := (Nat.sub_le _ _).trans h
            transmitted := rfl }
      · exact HasRead.of_kept (hother (by omega)) rfl h rfl
      · dsimp only
        by_cases hid : u.pendingId = 2
        · rw [if_pos hid]
          exact HasRead.of_kept (hother (by omega)) rfl h rfl
        · rw [if_neg hid]
          exact HasRead.of_kept (hother (by omega)) rfl h rfl
      · exact HasRead.of_kept (hother (by omega)) rfl h rfl
      · exact HasRead.of_kept (hother (by omega)) rfl h rfl
      · exact HasRead.of_kept (hother (by omega)) rfl h rfl
      · exact HasRead.of_kept (hother (by omega)) rfl h rfl
      · exact HasRead.of_kept (hother (by omega)) rfl h rfl
      next hzero _ _ _ _ _ _ _ => exact HasRead.of_kept (hother hzero) rfl h rfl

/-- What a write does to the receive FIFO and to what the guest has sent. -/
structure HasWritten (u : Uart16550) (offset : Nat) (value : UInt8) (u' : Uart16550) : Prop where
  looped : u.AtData offset → u.Loops → u.rxCount < u.capacity → u'.contents = u.contents ++ [value]
  cleared : offset = 2 → u.Clears value → u'.contents = []
  kept : ¬ (u.AtData offset ∧ u.Loops ∧ u.rxCount < u.capacity) →
    ¬ (offset = 2 ∧ u.Clears value) → u'.contents = u.contents
  sent : u.AtData offset → ¬ u.Loops → u'.transmitted = u.transmitted ++ [value]
  unsent : ¬ (u.AtData offset ∧ ¬ u.Loops) → u'.transmitted = u.transmitted
  fits : u'.rxCount ≤ u'.capacity

/-- A write that is of neither register. -/
theorem HasWritten.of_other {offset : Nat} {value : UInt8} {u' : Uart16550}
    (hdata : ¬ u.AtData offset) (hfcr : offset ≠ 2) (hcontents : u'.contents = u.contents)
    (hsent : u'.transmitted = u.transmitted) (hfits : u'.rxCount ≤ u'.capacity) :
    HasWritten u offset value u' where
  looped := fun h => absurd h hdata
  cleared := fun h => absurd h hfcr
  kept := fun _ _ => hcontents
  sent := fun h => absurd h hdata
  unsent := fun _ => hsent
  fits := hfits

theorem and_of_xor (a b c : UInt8) (h : (a ^^^ b) &&& c = 0) : a &&& c = b &&& c := by
  have hxor : (a &&& c) ^^^ (b &&& c) = (a ^^^ b) &&& c := by
    rw [← UInt8.toBitVec_inj]
    ext i hi
    simp [Bool.and_xor_distrib_right]
  exact UInt8.xor_eq_zero_iff.mp (hxor.trans h)

theorem or_six_clears (value : UInt8) : (value ||| 6) &&& 2 ≠ 0 := by
  have hor : (value ||| 6) &&& 2 = value &&& 2 ||| 2 := by
    rw [← UInt8.toBitVec_inj]
    exact BitVec.and_or_distrib_right
  rw [hor]
  intro h
  exact absurd (UInt8.or_eq_zero_iff.mp h).2 (by decide)

/-- A write that keeps what waits keeps the FIFO mode. -/
theorem capacity_of_keeps {value : UInt8} (h : ¬ u.Clears value) :
    (if (value &&& 0xc9) &&& 1 ≠ 0 then 16 else 1) = u.capacity := by
  have hmode : (u.fcr ^^^ (value &&& 0xc9)) &&& 1 = 0 := by
    by_contra hne
    unfold Clears at h
    rw [if_pos hne] at h
    exact h (or_six_clears value)
  rw [capacity, and_of_xor _ _ _ hmode]

/-- Whether a write to the FIFO control drops what waits or not. -/
theorem writeFcr_cases (u : Uart16550) (value : UInt8) : ∃ pending : Bool,
    (u.Clears value ∧ u.writeFcr value =
      { u with
        fcr := value &&& 0xc9, rxHead := ⟨0, Nat.zero_lt_succ 15⟩, rxCount := 0
        overrun := false, transmitterPending := pending }) ∨
    (¬ u.Clears value ∧ u.writeFcr value =
      { u with fcr := value &&& 0xc9, transmitterPending := pending }) := by
  unfold Clears writeFcr
  dsimp only
  generalize (if (u.fcr ^^^ (value &&& 0xc9)) &&& 1 ≠ 0 then value ||| 6 else value) = clear
  by_cases hreceive : clear &&& 2 ≠ 0
  · rw [if_pos hreceive]
    by_cases hsend : clear &&& 4 ≠ 0
    · rw [if_pos hsend]
      exact ⟨true, Or.inl ⟨hreceive, rfl⟩⟩
    · rw [if_neg hsend]
      exact ⟨u.transmitterPending, Or.inl ⟨hreceive, rfl⟩⟩
  · rw [if_neg hreceive]
    by_cases hsend : clear &&& 4 ≠ 0
    · rw [if_pos hsend]
      exact ⟨true, Or.inr ⟨hreceive, rfl⟩⟩
    · rw [if_neg hsend]
      exact ⟨u.transmitterPending, Or.inr ⟨hreceive, rfl⟩⟩

theorem writeFcr_hasWritten (h : u.rxCount ≤ u.capacity) (value : UInt8) :
    HasWritten u 2 value (u.writeFcr value) := by
  have hdata : ¬ u.AtData 2 := fun hdata => by cases hdata.1
  obtain ⟨pending, ⟨hclears, heq⟩ | ⟨hkeeps, heq⟩⟩ := writeFcr_cases u value
  · rw [heq]
    exact {
      looped := fun h => absurd h hdata
      cleared := fun _ _ => rfl
      kept := fun _ hnot => absurd ⟨rfl, hclears⟩ hnot
      sent := fun h => absurd h hdata
      unsent := fun _ => rfl
      fits := Nat.zero_le _ }
  · rw [heq]
    exact {
      looped := fun h => absurd h hdata
      cleared := fun _ hclears => absurd hclears hkeeps
      kept := fun _ _ => rfl
      sent := fun h => absurd h hdata
      unsent := fun _ => rfl
      fits := h.trans (capacity_of_keeps hkeeps).ge }

theorem write_hasWritten (h : u.rxCount ≤ u.capacity) (offset : Nat) (value : UInt8) :
    HasWritten u offset value (u.write offset value) := by
  have hother : offset ≠ 0 → ¬ u.AtData offset := fun hne hdata => hne hdata.1
  unfold write
  split
  case isTrue hlarge => exact HasWritten.of_other (hother (by omega)) (by omega) rfl rfl h
  case isFalse hsmall =>
    split
    case isTrue hlatch =>
      have hdata : ¬ u.AtData offset := fun hdata => hlatch.1 hdata.2
      split
      · exact HasWritten.of_other hdata (by omega) rfl rfl h
      · exact HasWritten.of_other hdata (by omega) rfl rfl h
    case isFalse hlatch =>
      split
      · have hdata : u.AtData 0 := ⟨rfl, not_not.mp fun hne => hlatch ⟨hne, Nat.zero_le 1⟩⟩
        dsimp only
        split
        case isTrue hloop =>
          have hfits := push_fits h value
          have hsent : (u.push value).transmitted = u.transmitted := by
            unfold push
            split <;> rfl
          exact {
            looped := fun _ _ hroom => contents_push hroom value
            cleared := fun h => by cases h
            kept := by
              intro hnot _
              have hfull : u.capacity ≤ u.rxCount := not_lt.mp fun hlt => hnot ⟨hdata, hloop, hlt⟩
              rw [push_full hfull]
              rfl
            sent := fun _ hnot => absurd hloop hnot
            unsent := fun _ => hsent
            fits := hfits }
        case isFalse hloop =>
          exact {
            looped := fun _ h => absurd h hloop
            cleared := fun h => by cases h
            kept := fun _ _ => rfl
            sent := fun _ _ => rfl
            unsent := fun hnot => absurd ⟨hdata, hloop⟩ hnot
            fits := h }
      · exact HasWritten.of_other (hother (by omega)) (by omega) rfl rfl h
      · exact writeFcr_hasWritten h value
      · exact HasWritten.of_other (hother (by omega)) (by omega) rfl rfl h
      · exact HasWritten.of_other (hother (by omega)) (by omega) rfl rfl h
      · exact HasWritten.of_other (hother (by omega)) (by omega) rfl rfl h
      next hzero _ htwo _ _ _ => exact HasWritten.of_other (hother hzero) htwo rfl rfl h

/-! ## Runs -/

/-- What the guest and the host do. -/
inductive Call
  | read (offset : Nat)
  | write (offset : Nat) (value : UInt8)
  | receive (bytes : List UInt8)
  | takeTransmitted

/-- The port with what has gone through it: the bytes that entered the receive FIFO, those
that left it with whether the guest read them, those that the guest sent, and those that the
host collected. -/
structure Ledger where
  uart : Uart16550
  entered : List UInt8
  left : List (UInt8 × Bool)
  sent : List UInt8
  collected : List UInt8

namespace Ledger

def init : Ledger := ⟨Uart16550.init, [], [], [], []⟩

def step (l : Ledger) : Call → Ledger
  | .read offset =>
    let r := l.uart.read offset
    { l with
      uart := r.2
      left := if l.uart.AtData offset ∧ l.uart.rxCount ≠ 0 then l.left ++ [(r.1, true)] else l.left }
  | .write offset value =>
    { l with
      uart := l.uart.write offset value
      entered :=
        if l.uart.AtData offset ∧ l.uart.Loops ∧ l.uart.rxCount < l.uart.capacity then
          l.entered ++ [value]
        else l.entered
      left :=
        if offset = 2 ∧ l.uart.Clears value then
          l.left ++ l.uart.contents.map fun byte => (byte, false)
        else l.left
      sent := if l.uart.AtData offset ∧ ¬ l.uart.Loops then l.sent ++ [value] else l.sent }
  | .receive bytes =>
    let r := l.uart.receive bytes
    { l with uart := r.2, entered := l.entered ++ bytes.take r.1 }
  | .takeTransmitted =>
    let r := l.uart.takeTransmitted
    { l with uart := r.2, collected := l.collected ++ r.1 }

/-- Nothing is lost, doubled or put out of order. -/
structure Exact (l : Ledger) : Prop where
  fits : l.uart.rxCount ≤ l.uart.capacity
  received : l.entered = l.left.map Prod.fst ++ l.uart.contents
  transmitted : l.sent = l.collected ++ l.uart.transmitted

theorem exact_init : init.Exact where
  fits := Nat.zero_le _
  received := rfl
  transmitted := rfl

theorem Exact.step {l : Ledger} (h : l.Exact) (call : Call) : (l.step call).Exact := by
  cases call with
  | read offset =>
    have hread := read_hasRead h.fits offset
    refine ⟨hread.fits, ?_, h.transmitted.trans (by rw [← hread.transmitted]; rfl)⟩
    unfold Ledger.step
    dsimp only
    by_cases hdata : l.uart.AtData offset ∧ l.uart.rxCount ≠ 0
    · rw [if_pos hdata, h.received, hread.taken hdata, List.map_append, List.append_assoc]
      rfl
    · rw [if_neg hdata, h.received, hread.kept hdata]
  | write offset value =>
    have hwritten := write_hasWritten h.fits offset value
    refine ⟨hwritten.fits, ?_, ?_⟩
    · unfold Ledger.step
      dsimp only
      by_cases hclears : offset = 2 ∧ l.uart.Clears value
      · have hdata : ¬ (l.uart.AtData offset ∧ l.uart.Loops ∧ l.uart.rxCount < l.uart.capacity) := by
          rintro ⟨hdata, -⟩
          have hzero := hdata.1
          omega
        rw [if_neg hdata, if_pos hclears, hwritten.cleared hclears.1 hclears.2, h.received,
          List.map_append, List.map_map, List.append_nil]
        congr 1
        exact (List.map_id _).symm
      · rw [if_neg hclears]
        by_cases hdata : l.uart.AtData offset ∧ l.uart.Loops ∧ l.uart.rxCount < l.uart.capacity
        · rw [if_pos hdata, hwritten.looped hdata.1 hdata.2.1 hdata.2.2, h.received,
            List.append_assoc]
        · rw [if_neg hdata, hwritten.kept hdata hclears, h.received]
    · unfold Ledger.step
      dsimp only
      by_cases hsent : l.uart.AtData offset ∧ ¬ l.uart.Loops
      · rw [if_pos hsent, hwritten.sent hsent.1 hsent.2, h.transmitted, List.append_assoc]
      · rw [if_neg hsent, hwritten.unsent hsent, h.transmitted]
  | receive bytes =>
    have hreceived := receive_received h.fits bytes
    refine ⟨hreceived.fits, ?_, h.transmitted.trans (by rw [← hreceived.transmitted]; rfl)⟩
    unfold Ledger.step
    dsimp only
    rw [hreceived.contents, h.received, List.append_assoc]
  | takeTransmitted =>
    refine ⟨h.fits, h.received, ?_⟩
    unfold Ledger.step takeTransmitted
    dsimp only
    rw [h.transmitted, List.append_nil]

theorem exact_run (calls : List Call) : (calls.foldl step init).Exact := by
  suffices h : ∀ l : Ledger, l.Exact → (calls.foldl step l).Exact from h init exact_init
  induction calls with
  | nil => exact fun l hl => hl
  | cons call calls ih => exact fun l hl => ih _ (hl.step call)

/-- In every run what entered the receive FIFO has left it in order, once, or waits in it, and
what the guest has sent was collected or waits; the FIFO never holds more than its capacity,
and a further delivery of the host takes just what there is room for. -/
theorem serial_exact (calls : List Call) (bytes : List UInt8) :
    (calls.foldl step init).Exact ∧
      Received (calls.foldl step init).uart bytes ((calls.foldl step init).uart.receive bytes) :=
  ⟨exact_run calls, receive_received (exact_run calls).fits bytes⟩

end Ledger

end Uart16550
end Platform
end Riscbox
