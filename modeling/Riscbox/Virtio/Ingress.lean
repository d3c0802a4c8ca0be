import Riscbox.Collections.Ledger
import Riscbox.Virtio.Calm
import Riscbox.Virtio.Frames

/-!
# Frames for the guest

What becomes of the frames that the network device has accepted.  The receipts of a call
are its loop again, with a record of its turns.
-/

namespace Riscbox
namespace Virtio
namespace NetworkDevice

variable {ν : Type}

/-- What became of a frame: it is in a chain, the chain had no room for it, the call that
took it failed, or the device was reset. -/
inductive Fate where
  | given (chain : DescriptorChain)
  | small (chain : DescriptorChain)
  | lost
  | retired
  deriving DecidableEq, Repr

def Fate.isGiven : Fate → Bool
  | given _ => true
  | _ => false

abbrev Receipt : Type := List UInt8 × Fate

def fateIn (chain : DescriptorChain) (frame : List UInt8) : Fate :=
  if headerLen + frame.length > chain.writable then .small chain else .given chain

/-- The receipts of `drainReceive`. -/
def receipts : Nat → Attached (NetworkDevice ν) → List Receipt
  | 0, _ => []
  | fuel + 1, s =>
    match s.device.receive with
    | [] => []
    | frame :: _ =>
      match onBus (nextChain 0) s with
      | (.ok (some chain), t) =>
        match serveReceive chain t with
        | (.ok _, u) => (frame, fateIn chain frame) :: receipts fuel u
        | (.err _, _) => [(frame, .lost)]
        | (.panic, _) => [(frame, .lost)]
      | _ => []

/-! ## Turns -/

def totalBytes (frames : List (List UInt8)) : Nat := (frames.map List.length).sum

/-- The bytes that wait are counted. -/
def Counted (device : NetworkDevice ν) : Prop := device.receiveBytes = totalBytes device.receive

/-- A frame leaves the queue, and its length the count. -/
structure Pops (frame : List UInt8) (d e : NetworkDevice ν) : Prop where
  frames : d.receive = frame :: e.receive
  bytes : d.receiveBytes = e.receiveBytes + frame.length

/-- The header and the frame are written to the chain, which is returned with their length. -/
def Delivers (chain : DescriptorChain) (frame : List UInt8) (b b' : Bus) : Prop :=
  headerLen + frame.length ≤ chain.writable ∧ ∃ b₁ b₂,
    writeChain chain 0 (List.replicate headerLen 0) b = (.ok (), b₁) ∧
    writeChain chain 10 frame b₁ = (.ok (), b₂) ∧
    completeChain 0 chain (headerLen + frame.length) b₂ = (.ok (), b')

/-- The chain is too small, and is returned empty. -/
def Declines (chain : DescriptorChain) (frame : List UInt8) (b b' : Bus) : Prop :=
  chain.writable < headerLen + frame.length ∧ completeChain 0 chain 0 b = (.ok (), b')

/-- Nothing happens to the frames that wait. -/
def SameReceive (d e : NetworkDevice ν) : Prop :=
  e.receive = d.receive ∧ e.receiveBytes = d.receiveBytes

/-- What the receipts of a call say. -/
inductive Drains : Attached (NetworkDevice ν) → List Receipt → Outcome DeviceError Unit →
    Attached (NetworkDevice ν) → Prop
  | idle {s t : Attached (NetworkDevice ν)} {ending : Outcome DeviceError Unit} :
      SameReceive s.device t.device → Drains s [] ending t
  | given {s t u : Attached (NetworkDevice ν)} {chain : DescriptorChain} {bus : Bus}
      {frame : List UInt8} {settled : List Receipt} {ending : Outcome DeviceError Unit} :
      nextChain 0 s.bus = (.ok (some chain), bus) → Pops frame s.device t.device →
      Delivers chain frame bus t.bus → Drains t settled ending u →
      Drains s ((frame, .given chain) :: settled) ending u
  | small {s t u : Attached (NetworkDevice ν)} {chain : DescriptorChain} {bus : Bus}
      {frame : List UInt8} {settled : List Receipt} {ending : Outcome DeviceError Unit} :
      nextChain 0 s.bus = (.ok (some chain), bus) → Pops frame s.device t.device →
      Declines chain frame bus t.bus → Drains t settled ending u →
      Drains s ((frame, .small chain) :: settled) ending u
  | lost {s t : Attached (NetworkDevice ν)} {frame : List UInt8} {e : DeviceError} :
      Pops frame s.device t.device → Drains s [(frame, .lost)] (.err e) t

theorem SameReceive.refl (d : NetworkDevice ν) : SameReceive d d := ⟨rfl, rfl⟩

theorem SameReceive.trans (d e f : NetworkDevice ν) (h : SameReceive d e) (h' : SameReceive e f) :
    SameReceive d f := ⟨h'.1.trans h.1, h'.2.trans h.2⟩

theorem totalBytes_cons (frame : List UInt8) (frames : List (List UInt8)) :
    totalBytes (frame :: frames) = frame.length + totalBytes frames := by
  unfold totalBytes
  rw [List.map_cons, List.sum_cons]

theorem totalBytes_append (frames frames' : List (List UInt8)) :
    totalBytes (frames ++ frames') = totalBytes frames + totalBytes frames' := by
  unfold totalBytes
  rw [List.map_append, List.sum_append]

theorem Counted.of_pops {frame : List UInt8} {d e : NetworkDevice ν} (h : Counted d)
    (hpops : Pops frame d e) : Counted e := by
  have hcount : d.receiveBytes = totalBytes d.receive := h
  rw [hpops.frames, totalBytes_cons, hpops.bytes] at hcount
  show e.receiveBytes = totalBytes e.receive
  omega

/-- The frame at the front never has more bytes than are counted. -/
theorem popPacket_pops {s : Attached (NetworkDevice ν)} {frame : List UInt8}
    {rest : List (List UInt8)} (hcount : Counted s.device)
    (hfront : s.device.receive = frame :: rest) :
    ∃ t, popPacket s = (.ok frame, t) ∧ t.bus = s.bus ∧ Pops frame s.device t.device := by
  have hle : s.device.receiveBytes = frame.length + totalBytes rest := by
    rw [← totalBytes_cons, ← hfront]
    exact hcount
  unfold popPacket
  rw [hfront]
  refine ⟨{ s with device := { s.device with
    receive := rest, receiveBytes := s.device.receiveBytes - frame.length } }, rfl, rfl, hfront, ?_⟩
  show s.device.receiveBytes = s.device.receiveBytes - frame.length + frame.length
  omega

/-- How serving a chain may end. -/
inductive Serves (chain : DescriptorChain) (frame : List UInt8) (s : Attached (NetworkDevice ν)) :
    Outcome DeviceError Bool → Attached (NetworkDevice ν) → Prop
  | declined {t : Attached (NetworkDevice ν)} : Pops frame s.device t.device →
      Declines chain frame s.bus t.bus → Serves chain frame s (.ok true) t
  | delivered {t : Attached (NetworkDevice ν)} : Pops frame s.device t.device →
      Delivers chain frame s.bus t.bus → Serves chain frame s (.ok true) t
  | failed {t : Attached (NetworkDevice ν)} {e : DeviceError} : Pops frame s.device t.device →
      Serves chain frame s (.err e) t

theorem onBus_cases {x : BusOp α} (hcalm : Calm x) (s : Attached (NetworkDevice ν)) :
    ∃ bus, (∃ a, x s.bus = (.ok a, bus) ∧
        (onBus x : DeviceOp (NetworkDevice ν) α) s = (.ok a, { s with bus := bus })) ∨
      ∃ e, (onBus x : DeviceOp (NetworkDevice ν) α) s = (.err e, { s with bus := bus }) := by
  have hs := hcalm s.bus
  unfold onBus
  rcases hcase : x s.bus with ⟨a | e | _, bus⟩
  · exact ⟨bus, .inl ⟨a, rfl, rfl⟩⟩
  · exact ⟨bus, .inr ⟨_, rfl⟩⟩
  · rw [hcase] at hs
    exact hs.elim

theorem serveReceive_serves {chain : DescriptorChain} {s t : Attached (NetworkDevice ν)}
    {frame : List UInt8} {rest : List (List UInt8)} {ending : Outcome DeviceError Bool}
    (hcount : Counted s.device) (hfront : s.device.receive = frame :: rest)
    (h : serveReceive chain s = (ending, t)) : Serves chain frame s ending t := by
  obtain ⟨u, hpop, hbus, hpops⟩ := popPacket_pops hcount hfront
  unfold serveReceive at h
  rw [Op.bind_ok hpop] at h
  by_cases hroom : headerLen + frame.length > chain.writable
  · rw [if_pos hroom] at h
    obtain ⟨bus, ⟨_, hrun, hcomplete⟩ | ⟨e, hcomplete⟩⟩ :=
      onBus_cases (completeChain_calm 0 chain 0) u
    · rw [Op.bind_ok hcomplete] at h
      rw [hbus] at hrun
      cases h
      exact .declined hpops ⟨hroom, hrun⟩
    · rw [Op.bind_err hcomplete] at h
      cases h
      exact .failed hpops
  rw [if_neg hroom] at h
  obtain ⟨bus, ⟨_, hheader, hcall⟩ | ⟨e, hcall⟩⟩ :=
    onBus_cases (writeChain_calm chain 0 (List.replicate headerLen 0)) u
  · rw [Op.bind_ok hcall] at h
    obtain ⟨bus', ⟨_, hframe, hcall⟩ | ⟨e, hcall⟩⟩ :=
      onBus_cases (writeChain_calm chain 10 frame) { u with bus := bus }
    · rw [Op.bind_ok hcall] at h
      obtain ⟨bus'', ⟨_, hcomplete, hcall⟩ | ⟨e, hcall⟩⟩ :=
        onBus_cases (completeChain_calm 0 chain (headerLen + frame.length)) { u with bus := bus' }
      · rw [Op.bind_ok hcall] at h
        rw [hbus] at hheader
        cases h
        exact .delivered hpops ⟨by omega, bus, bus', hheader, hframe, hcomplete⟩
      · rw [Op.bind_err hcall] at h
        cases h
        exact .failed hpops
    · rw [Op.bind_err hcall] at h
      cases h
      exact .failed hpops
  · rw [Op.bind_err hcall] at h
    cases h
    exact .failed hpops

theorem Serves.pops {chain : DescriptorChain} {frame : List UInt8} {s t : Attached (NetworkDevice ν)}
    {ending : Outcome DeviceError Bool} (h : Serves chain frame s ending t) :
    Pops frame s.device t.device := by
  cases h <;> assumption

/-- The receipts tell what the loop did: the step is one turn, and the induction is on the
fuel. -/
theorem receipts_drains {fuel : Nat} {s t : Attached (NetworkDevice ν)}
    {ending : Outcome DeviceError Unit} (hcount : Counted s.device)
    (h : drainReceive fuel s = (some ending, t)) : Drains s (receipts fuel s) ending t := by
  induction fuel generalizing s with
  | zero => cases h
  | succ fuel ih =>
    unfold drainReceive drain at h
    unfold receipts
    cases hfront : s.device.receive with
    | nil =>
      have hidle : (!s.device.receive.isEmpty) = false := by
        rw [hfront]
        rfl
      rw [if_pos hidle] at h
      cases h
      exact .idle (SameReceive.refl _)
    | cons frame rest =>
      have hwork : ¬(!s.device.receive.isEmpty) = false := by
        rw [hfront]
        exact fun h => by cases h
      rw [if_neg hwork] at h
      obtain ⟨bus, ⟨_ | chain, hnext, hcall⟩ | ⟨e, hcall⟩⟩ := onBus_cases (nextChain_calm 0) s
      · rw [hcall] at h ⊢
        cases h
        exact .idle (SameReceive.refl _)
      · rw [hcall] at h ⊢
        simp only [] at h ⊢
        rcases hserve : serveReceive chain { s with bus := bus } with ⟨ending', u⟩
        rw [hserve] at h
        have hserves := serveReceive_serves (s := { s with bus := bus }) hcount hfront hserve
        have hcounted := hcount.of_pops hserves.pops
        cases hserves with
        | declined hpops hdeclines =>
          have hfate : fateIn chain frame = .small chain := if_pos hdeclines.1
          rw [hfate]
          exact .small hnext hpops hdeclines (ih hcounted h)
        | delivered hpops hdelivers =>
          have hfate : fateIn chain frame = .given chain := if_neg (Nat.not_lt.mpr hdelivers.1)
          rw [hfate]
          exact .given hnext hpops hdelivers (ih hcounted h)
        | failed hpops =>
          cases h
          exact .lost hpops
      · rw [hcall] at h ⊢
        cases h
        exact .idle (SameReceive.refl _)

/-- The frames that a call takes are the first ones that wait. -/
theorem Drains.waiting {s t : Attached (NetworkDevice ν)} {settled : List Receipt}
    {ending : Outcome DeviceError Unit} (h : Drains s settled ending t) :
    s.device.receive = settled.map Prod.fst ++ t.device.receive ∧
      s.device.receiveBytes =
        totalBytes (settled.map Prod.fst) + t.device.receiveBytes := by
  have hturn {s t u : Attached (NetworkDevice ν)} {frame : List UInt8} {fate : Fate}
      {settled : List Receipt} (hpops : Pops frame s.device t.device)
      (ih : t.device.receive = settled.map Prod.fst ++ u.device.receive ∧
        t.device.receiveBytes = totalBytes (settled.map Prod.fst) + u.device.receiveBytes) :
      s.device.receive = ((frame, fate) :: settled).map Prod.fst ++ u.device.receive ∧
        s.device.receiveBytes =
          totalBytes (((frame, fate) :: settled).map Prod.fst) + u.device.receiveBytes := by
    constructor
    · rw [hpops.frames, ih.1]
      rfl
    · rw [List.map_cons, totalBytes_cons, hpops.bytes, ih.2]
      dsimp only
      omega
  induction h with
  | idle hsame => exact ⟨hsame.1.symm, by rw [hsame.2]; exact (Nat.zero_add _).symm⟩
  | given _ hpops _ _ ih => exact hturn hpops ih
  | small _ hpops _ _ ih => exact hturn hpops ih
  | @lost s t frame e hpops =>
    have hnone : t.device.receive = ([] : List Receipt).map Prod.fst ++ t.device.receive ∧
        t.device.receiveBytes = totalBytes (([] : List Receipt).map Prod.fst) +
          t.device.receiveBytes := ⟨rfl, (Nat.zero_add _).symm⟩
    exact hturn hpops hnone

/-! ## Runs -/

inductive IngressCall where
  | receive (packet : List UInt8)
  | notify (queue : UInt16)
  | reset
  | carrier (up : Bool)
  deriving DecidableEq, Repr

namespace IngressCall

variable [NetworkBackend ν]

def run (fuel : Nat) (s : Attached (NetworkDevice ν)) : IngressCall → Ending × Attached (NetworkDevice ν)
  | receive packet => receivePacket fuel packet s
  | notify queue => NetworkDevice.notify fuel queue s
  | reset => ended (.ok ()) { s with device := s.device.reset }
  | carrier up => ended (.ok ()) (setCarrier up s)

/-- The frame that the call accepts. -/
def accepts (device : NetworkDevice ν) : IngressCall → List (List UInt8)
  | receive packet => if (pushPacket packet device).1 = .accepted then [packet] else []
  | _ => []

/-- The device before the loop of the call. -/
def entered (device : NetworkDevice ν) : IngressCall → NetworkDevice ν
  | receive packet => (pushPacket packet device).2
  | _ => device

/-- The receipts of the call. -/
def settles (fuel : Nat) (s : Attached (NetworkDevice ν)) : IngressCall → List Receipt
  | receive packet =>
    if (pushPacket packet s.device).1 = .accepted ∧ driverOk s = true then
      receipts fuel { s with device := (pushPacket packet s.device).2 }
    else []
  | notify queue => if queue = 0 then receipts fuel s else []
  | reset => s.device.receive.map fun frame => (frame, .retired)
  | carrier _ => []

/-- The receipts are what happened. -/
def Explains (s : Attached (NetworkDevice ν)) (settled : List Receipt)
    (ending : Outcome DeviceError Unit) (t : Attached (NetworkDevice ν)) : IngressCall → Prop
  | reset => settled = (s.device.receive.map fun frame => (frame, .retired)) ∧
      t.device.receive = [] ∧ t.device.receiveBytes = 0
  | call => Drains { s with device := entered s.device call } settled ending t

end IngressCall

theorem pushPacket_accepted {packet : List UInt8} {device : NetworkDevice ν}
    (h : (pushPacket packet device).1 = .accepted) :
    (pushPacket packet device).2 =
      { device with
        receiveBytes := device.receiveBytes + packet.length
        receive := device.receive ++ [packet] } ∧
    device.receive.length < maxPendingFrames ∧
      device.receiveBytes + packet.length ≤ maxPendingBytes := by
  unfold pushPacket at h ⊢
  split at h
  · cases h
  next hfits =>
    rw [if_neg hfits]
    exact ⟨rfl, by omega, by omega⟩

theorem pushPacket_dropped {packet : List UInt8} {device : NetworkDevice ν}
    (h : (pushPacket packet device).1 ≠ .accepted) : (pushPacket packet device).2 = device := by
  unfold pushPacket at h ⊢
  split at h
  next hfull => rw [if_pos hfull]
  · exact absurd rfl h

theorem pushPacket_counted {packet : List UInt8} {device : NetworkDevice ν}
    (h : Counted device) : Counted (pushPacket packet device).2 := by
  by_cases haccepted : (pushPacket packet device).1 = .accepted
  · rw [(pushPacket_accepted haccepted).1]
    show device.receiveBytes + packet.length = totalBytes (device.receive ++ [packet])
    rw [totalBytes_append, totalBytes_cons]
    have hcount : device.receiveBytes = totalBytes device.receive := h
    have hnil : totalBytes [] = 0 := rfl
    omega
  · rw [pushPacket_dropped haccepted]
    exact h

theorem receivePacket_drains {fuel : Nat} {packet : List UInt8} {s t : Attached (NetworkDevice ν)}
    [NetworkBackend ν] {ending : Outcome DeviceError Unit} (hcount : Counted s.device)
    (h : receivePacket fuel packet s = (some ending, t)) :
    Drains { s with device := (pushPacket packet s.device).2 }
      ((IngressCall.receive packet).settles fuel s) ending t := by
  have hcounted : Counted (pushPacket packet s.device).2 := pushPacket_counted hcount
  unfold receivePacket at h
  show Drains _ (if (pushPacket packet s.device).1 = .accepted ∧ driverOk s = true then
    receipts fuel { s with device := (pushPacket packet s.device).2 } else []) ending t
  rcases hpush : pushPacket packet s.device with ⟨_ | _, device⟩
  · rw [hpush] at h hcounted
    simp only [] at h ⊢
    have hbus : driverOk { s with device := device } = driverOk s := rfl
    by_cases hdriver : driverOk s = true
    · rw [hbus, if_pos hdriver] at h
      rw [if_pos ⟨trivial, hdriver⟩]
      exact receipts_drains hcounted h
    · rw [hbus, if_neg hdriver] at h
      rw [if_neg fun hboth => hdriver hboth.2]
      cases h
      exact .idle (SameReceive.refl _)
  · rw [hpush] at h
    simp only [] at h ⊢
    rw [if_neg fun hboth => by cases hboth.1]
    cases h
    exact .idle (SameReceive.refl _)

theorem notify_sameReceive [NetworkBackend ν] {queue : UInt16} (hqueue : queue ≠ 0) (fuel : Nat)
    (s : Attached (NetworkDevice ν)) : SameReceive s.device (notify fuel queue s).2.device := by
  have htransmit (frame : List UInt8) :
      Keeps SameReceive (transmit frame : DeviceOp (NetworkDevice ν) Unit) := by
    intro s
    unfold transmit
    rcases NetworkBackend.transmit frame s.device.backend with ⟨_ | _, backend⟩ <;>
      exact SameReceive.refl _
  unfold notify
  rw [if_neg hqueue]
  exact drain_keeps SameReceive.refl SameReceive.trans
    (serveTransmit_keeps SameReceive.refl SameReceive.trans htransmit queue) fuel s

/-- Every call is explained by its receipts. -/
theorem IngressCall.explained [NetworkBackend ν] (call : IngressCall) {fuel : Nat}
    {s t : Attached (NetworkDevice ν)} {ending : Outcome DeviceError Unit}
    (hcount : Counted s.device) (h : call.run fuel s = (some ending, t)) :
    call.Explains s (call.settles fuel s) ending t := by
  cases call with
  | receive packet => exact receivePacket_drains hcount h
  | notify queue =>
    show Drains s (if queue = 0 then receipts fuel s else []) ending t
    by_cases hqueue : queue = 0
    · rw [if_pos hqueue]
      have h : NetworkDevice.notify fuel queue s = (some ending, t) := h
      unfold NetworkDevice.notify at h
      rw [if_pos hqueue] at h
      exact receipts_drains hcount h
    · rw [if_neg hqueue]
      have hsame := notify_sameReceive hqueue fuel s
      rw [show NetworkDevice.notify fuel queue s = (some ending, t) from h] at hsame
      exact .idle hsame
  | reset =>
    cases h
    exact ⟨rfl, rfl, rfl⟩
  | carrier up =>
    cases h
    refine .idle ?_
    unfold setCarrier
    split <;> exact SameReceive.refl _

/-- The frames that a run of the device has accepted, with the receipts of its calls.  The
guest has its way with the bus before every call. -/
inductive Ingress [NetworkBackend ν] : NetworkDevice ν → List (List UInt8) → List Receipt → Prop
  | start (backend : ν) (carrierUp : Bool) :
      Ingress { backend := backend, carrierUp := carrierUp, receive := [], receiveBytes := 0 } [] []
  | call {device : NetworkDevice ν} {accepted : List (List UInt8)} {settled : List Receipt}
      {call : IngressCall} {fuel : Nat} {bus : Bus} {ending : Outcome DeviceError Unit}
      {t : Attached (NetworkDevice ν)} : Ingress device accepted settled →
      call.run fuel { device := device, bus := bus } = (some ending, t) →
      Ingress t.device (accepted ++ call.accepts device)
        (settled ++ call.settles fuel { device := device, bus := bus })

/-- The counts are exact and bounded, a packet is refused only for its size or theirs, and
every accepted frame waits or has a receipt. -/
structure Exact [NetworkBackend ν] (device : NetworkDevice ν) (accepted : List (List UInt8))
    (settled : List Receipt) : Prop where
  counted : device.receiveBytes = totalBytes device.receive
  frames_le : device.receive.length ≤ maxPendingFrames
  bytes_le : totalBytes device.receive ≤ maxPendingBytes
  refused : ∀ packet, (pushPacket packet device).1 = .dropped ↔
    packet = [] ∨ maxFrameSize < packet.length ∨ maxPendingFrames < device.receive.length + 1 ∨
      maxPendingBytes < totalBytes device.receive + packet.length
  conserved : Ledger.Conserves accepted settled device.receive
  given : (Ledger.fated Fate.isGiven settled).Sublist accepted
  explained : ∀ (call : IngressCall) (fuel : Nat) (bus : Bus) (ending : Outcome DeviceError Unit)
    (t : Attached (NetworkDevice ν)),
    call.run fuel { device := device, bus := bus } = (some ending, t) →
      call.Explains { device := device, bus := bus }
        (call.settles fuel { device := device, bus := bus }) ending t

theorem pushPacket_refused [NetworkBackend ν] {device : NetworkDevice ν} (h : Counted device)
    (packet : List UInt8) : (pushPacket packet device).1 = .dropped ↔
      packet = [] ∨ maxFrameSize < packet.length ∨ maxPendingFrames < device.receive.length + 1 ∨
        maxPendingBytes < totalBytes device.receive + packet.length := by
  have hcount : device.receiveBytes = totalBytes device.receive := h
  rw [← hcount, ← List.isEmpty_iff, Nat.lt_succ_iff]
  unfold pushPacket
  by_cases hfull : packet.isEmpty ∨ packet.length > maxFrameSize ∨
      device.receive.length ≥ maxPendingFrames ∨
      device.receiveBytes + packet.length > maxPendingBytes
  · rw [if_pos hfull]
    exact iff_of_true rfl hfull
  · rw [if_neg hfull]
    exact iff_of_false (fun h => by cases h) hfull

/-- The counts and the ledger, as they are kept from call to call. -/
structure Kept (device : NetworkDevice ν) (accepted : List (List UInt8))
    (settled : List Receipt) : Prop where
  counted : Counted device
  frames_le : device.receive.length ≤ maxPendingFrames
  bytes_le : device.receiveBytes ≤ maxPendingBytes
  conserved : Ledger.Conserves accepted settled device.receive

theorem Kept.drains {device : NetworkDevice ν} {accepted : List (List UInt8)}
    {settled now : List Receipt} {bus : Bus} {ending : Outcome DeviceError Unit}
    {t : Attached (NetworkDevice ν)} (h : Kept device accepted settled)
    (hdrains : Drains { device := device, bus := bus } now ending t) :
    Kept t.device accepted (settled ++ now) := by
  obtain ⟨hframes, hbytes⟩ := hdrains.waiting
  have hframes : device.receive = now.map Prod.fst ++ t.device.receive := hframes
  have hbytes : device.receiveBytes =
    totalBytes (now.map Prod.fst) + t.device.receiveBytes := hbytes
  have hcount : device.receiveBytes = totalBytes device.receive := h.counted
  have hlength := congrArg List.length hframes
  rw [List.length_append] at hlength
  have hframes_le := h.frames_le
  have hbytes_le := h.bytes_le
  refine ⟨?_, by omega, by omega, h.conserved.settle hframes⟩
  rw [hframes, totalBytes_append] at hcount
  show t.device.receiveBytes = totalBytes t.device.receive
  omega

theorem Kept.entered [NetworkBackend ν] {device : NetworkDevice ν} {accepted : List (List UInt8)}
    {settled : List Receipt} (h : Kept device accepted settled) (call : IngressCall) :
    Kept (call.entered device) (accepted ++ call.accepts device) settled := by
  cases call with
  | receive packet =>
    show Kept (pushPacket packet device).2
      (accepted ++ if (pushPacket packet device).1 = .accepted then [packet] else []) settled
    have hcounted : Counted (pushPacket packet device).2 := pushPacket_counted h.counted
    by_cases haccepted : (pushPacket packet device).1 = .accepted
    · obtain ⟨hpush, hframes, hbytes⟩ := pushPacket_accepted haccepted
      rw [if_pos haccepted]
      rw [hpush] at hcounted ⊢
      refine ⟨hcounted, ?_, hbytes, h.conserved.accept [packet]⟩
      rw [List.length_append]
      exact hframes
    · rw [if_neg haccepted, List.append_nil, pushPacket_dropped haccepted]
      exact h
  | notify queue =>
    show Kept device (accepted ++ []) settled
    rw [List.append_nil]
    exact h
  | reset =>
    show Kept device (accepted ++ []) settled
    rw [List.append_nil]
    exact h
  | carrier up =>
    show Kept device (accepted ++ []) settled
    rw [List.append_nil]
    exact h

theorem Kept.call [NetworkBackend ν] {device : NetworkDevice ν} {accepted : List (List UInt8)}
    {settled : List Receipt} (h : Kept device accepted settled) {call : IngressCall} {fuel : Nat}
    {bus : Bus} {ending : Outcome DeviceError Unit} {t : Attached (NetworkDevice ν)}
    (hrun : call.run fuel { device := device, bus := bus } = (some ending, t)) :
    Kept t.device (accepted ++ call.accepts device)
      (settled ++ call.settles fuel { device := device, bus := bus }) := by
  have hexplained := call.explained (s := { device := device, bus := bus }) h.counted hrun
  have hentered := h.entered call
  cases call with
  | receive packet => exact hentered.drains hexplained
  | notify queue => exact hentered.drains hexplained
  | carrier up => exact hentered.drains hexplained
  | reset =>
    obtain ⟨-, hnone, hzero⟩ := hexplained
    refine ⟨?_, ?_, ?_, ?_⟩
    · show t.device.receiveBytes = totalBytes t.device.receive
      rw [hnone, hzero]
      rfl
    · rw [hnone]
      exact Nat.zero_le _
    · rw [hzero]
      exact Nat.zero_le _
    · rw [hnone]
      apply hentered.conserved.settle
      show device.receive = (device.receive.map fun frame => (frame, Fate.retired)).map Prod.fst ++ []
      rw [List.map_map, List.append_nil]
      exact (List.map_id device.receive).symm

theorem Ingress.kept [NetworkBackend ν] {device : NetworkDevice ν} {accepted : List (List UInt8)}
    {settled : List Receipt} (h : Ingress device accepted settled) :
    Kept device accepted settled := by
  induction h with
  | start backend carrierUp =>
    exact ⟨rfl, Nat.zero_le _, Nat.zero_le _, Ledger.Conserves.nil⟩
  | call _ hrun ih => exact ih.call hrun

theorem Ingress.exact [NetworkBackend ν] {device : NetworkDevice ν}
    {accepted : List (List UInt8)} {settled : List Receipt}
    (h : Ingress device accepted settled) : Exact device accepted settled := by
  have hkept := h.kept
  have hcount : device.receiveBytes = totalBytes device.receive := hkept.counted
  exact
    { counted := hcount
      frames_le := hkept.frames_le
      bytes_le := hcount ▸ hkept.bytes_le
      refused := pushPacket_refused hkept.counted
      conserved := hkept.conserved
      given := hkept.conserved.fated_sublist Fate.isGiven
      explained := fun call fuel bus ending t hrun => call.explained hkept.counted hrun }

end NetworkDevice
end Virtio
end Riscbox
