import Riscbox.Machine.Boot

/-!
# What loading the boot images does

Every check comes before the first copy: a refused load leaves the machine as it was.
What is accepted lies apart in RAM, and each piece of it is there in the end.
-/

namespace Riscbox
namespace Virtio
namespace Boot

open Devicetree (FdtConfig buildCalls buildTree saturatingAdd Call utf8 wide)
open GuestMemory (Piece)
open Framebuffer (RamAccepted registerRam resetRamSize SameRanges)

/-! ## Outcomes of the checks -/

section Checked

variable {α β : Type} {x : Booting α} {f : α → Booting β} {post post' : α → Prop}
  {post₂ : β → Prop}

/-- A value with the property, or an error that the source returns. -/
def Checked (x : Booting α) (post : α → Prop) : Prop :=
  (∃ a, x = .ok a ∧ post a) ∨ ∃ e, x = .err (.error e)

theorem checked_pure {a : α} (h : post a) : Checked (pure a) post := .inl ⟨a, rfl, h⟩

theorem checked_ok {a : α} (hx : x = .ok a) (h : post a) : Checked x post := .inl ⟨a, hx, h⟩

theorem checked_error (e : MachineError) : Checked (.err (.error e) : Booting α) post :=
  .inr ⟨e, rfl⟩

theorem checked_reject (reason : String) : Checked (reject reason : Booting α) post :=
  checked_error _

theorem Checked.bind (hx : Checked x post) (hf : ∀ a, post a → Checked (f a) post₂) :
    Checked (x >>= f) post₂ := by
  rcases hx with ⟨a, rfl, ha⟩ | ⟨e, rfl⟩
  · exact hf a ha
  · exact checked_error e

theorem checked_ite {c : Prop} [Decidable c] {y : Booting α} (hy : c → Checked y post)
    (hx : ¬c → Checked x post) : Checked (if c then y else x) post := by
  by_cases hc : c
  · rw [if_pos hc]
    exact hy hc
  · rw [if_neg hc]
    exact hx hc

theorem checked_okOr (e : MachineError) (o : Option α) (h : ∀ a, o = some a → post a) :
    Checked (Outcome.okOr (.error e) o) post := by
  cases o with
  | none => exact checked_error e
  | some a => exact checked_ok rfl (h a rfl)

theorem checked_sumU64 {a b : Nat} (h : a + b < 2 ^ 64) :
    Checked (sumU64 a b) fun sum => sum = a + b := checked_ok (if_pos h) rfl

theorem checked_differenceU64 {a b : Nat} (h : b ≤ a) :
    Checked (differenceU64 a b) fun difference => difference = a - b := checked_ok (if_pos h) rfl

theorem checkedAdd_eq {a b sum : Nat} (h : checkedAdd a b = some sum) : sum = a + b :=
  (Option.some.inj (Option.ite_none_right_eq_some.mp h).2).symm

end Checked

/-! ## The images -/

/-- What an image is in RAM, with so much space for it. -/
def Decoded (gunzip : List UInt8 → Nat → Option (List UInt8)) (limit : Nat)
    (image bytes : List UInt8) : Prop :=
  if IsGzip image then gunzip image (saturatingAdd limit 1) = some bytes ∧ bytes.length ≤ limit
  else bytes = image

variable {gunzip : List UInt8 → Nat → Option (List UInt8)} {ramEnd : Nat}

theorem checkAddress_checked (name : String) (address : Option Nat) :
    Checked (checkAddress ramEnd name address) fun _ =>
      ∀ a ∈ address, Machine.ramBase ≤ a ∧ a < ramEnd := by
  apply checked_ite
  · exact fun _ => checked_reject _
  · intro hinside
    apply checked_pure
    intro a ha
    by_contra hout
    exact hinside ⟨a, ha, by omega⟩

theorem decodeImage_checked {limit : Booting Nat} {space : Nat}
    (oversized invalid : MachineError) {image : Option (List UInt8)}
    (hlimit : image ≠ none → Checked limit fun n => n = space) :
    Checked (decodeImage gunzip limit oversized invalid image)
      (Option.Rel (Decoded gunzip space) image) := by
  cases image with
  | none => exact checked_pure Option.Rel.none
  | some image =>
    apply checked_ite
    · intro hgzip
      apply (hlimit (by simp)).bind
      intro n hn
      rw [hn]
      have hdecoded : Checked (decodeGzip gunzip image space oversized invalid)
          (Decoded gunzip space image) := by
        apply (checked_okOr invalid _ fun _ => id).bind
        intro decoded hgunzip
        apply checked_ite
        · exact fun _ => checked_error _
        · intro hfits
          apply checked_pure
          rw [Decoded, if_pos hgzip]
          exact ⟨hgunzip, by omega⟩
      exact hdecoded.bind fun decoded h => checked_pure (Option.Rel.some h)
    · intro hraw
      apply checked_pure
      apply Option.Rel.some
      rw [Decoded, if_neg hraw]

/-- Where a region of this name would lie. -/
def Region.of (name : String) (payload : Piece) : Region := ⟨name, payload.1, payload.stop⟩

theorem addRegion_checked (name : String) (payload : Option Piece) (regions : List Region) :
    Checked (addRegion ramEnd name payload regions) fun added =>
      added = regions ++ payload.toList.map (Region.of name) ∧
        ∀ p ∈ payload, p.stop ≤ ramEnd := by
  cases payload with
  | none => exact checked_pure ⟨(List.append_nil _).symm, fun p hp => by cases hp⟩
  | some payload =>
    apply (checked_okOr _ _ fun _ => id).bind
    intro stop hstop
    obtain rfl := checkedAdd_eq hstop
    apply checked_ite
    · exact fun _ => checked_reject _
    · intro hfits
      apply checked_pure
      refine ⟨rfl, fun p hp => ?_⟩
      cases hp
      exact Nat.le_of_not_lt hfits

def Region.extent (region : Region) : Nat × Nat := (region.start, region.stop)

def extent (p : Piece) : Nat × Nat := (p.1, p.stop)

def Region.Clear (left right : Region) : Prop := left.stop ≤ right.start ∨ right.stop ≤ left.start

theorem checkAgainst_checked (left : Region) (regions : List Region) :
    Checked (checkAgainst left regions) fun _ => ∀ right ∈ regions, left.Clear right := by
  induction regions with
  | nil => exact checked_pure fun right hright => absurd hright List.not_mem_nil
  | cons right rest ih =>
    apply checked_ite
    · exact fun _ => checked_reject _
    · intro hclear
      have hhead : left.Clear right := by
        unfold Region.Clear
        omega
      rcases ih with ⟨_, hok, hrest⟩ | herror
      · exact .inl ⟨_, hok, List.forall_mem_cons.mpr ⟨hhead, hrest⟩⟩
      · exact .inr herror

theorem checkOverlaps_checked (regions : List Region) :
    Checked (checkOverlaps regions) fun _ => regions.Pairwise Region.Clear := by
  induction regions with
  | nil => exact checked_pure .nil
  | cons left rest ih =>
    apply (checkAgainst_checked left rest).bind
    intro _ hleft
    rcases ih with ⟨_, hok, hrest⟩ | herror
    · exact .inl ⟨_, hok, List.pairwise_cons.mpr ⟨hleft, hrest⟩⟩
    · exact .inr herror

variable {ramSize : Nat} {images : BootImages} {addresses : BootAddresses}

/-- The payloads at their addresses. -/
def pieces (ramSize : Nat) (images : BootImages) (addresses : BootAddresses)
    (firmware kernel : Option (List UInt8)) : List Piece :=
  (piece (firmwareAddress images addresses) firmware).toList ++
    (piece (kernelAddress images addresses) kernel).toList ++
    (piece (initrdAddress ramSize images addresses) images.initrd).toList

/-- The space in RAM from an address on. -/
def space (ramSize : Nat) (address : Option Nat) : Nat :=
  Machine.ramBase + ramSize - address.getD Machine.ramBase

/-- What the checks establish of the payloads. -/
structure Selected (gunzip : List UInt8 → Nat → Option (List UInt8)) (ramSize : Nat)
    (images : BootImages) (addresses : BootAddresses) (payloads : Payloads) : Prop where
  ramEnd : payloads.ramEnd = Machine.ramBase + ramSize
  firmware : Option.Rel (Decoded gunzip (space ramSize (firmwareAddress images addresses)))
    images.firmware payloads.firmware
  kernel : Option.Rel (Decoded gunzip (space ramSize (kernelAddress images addresses)))
    images.kernel payloads.kernel
  bootable : images.firmware ≠ none ∨ images.kernel ≠ none
  stages : ∀ a, a ∈ firmwareAddress images addresses ∨ a ∈ kernelAddress images addresses →
    a < Machine.ramBase + ramSize
  inside : ∀ p ∈ pieces ramSize images addresses payloads.firmware payloads.kernel,
    Machine.ramBase ≤ p.1 ∧ p.1 < Machine.ramBase + ramSize ∧
      p.stop ≤ Machine.ramBase + ramSize
  regions : payloads.regions.map Region.extent =
    (pieces ramSize images addresses payloads.firmware payloads.kernel).map extent
  apart : (pieces ramSize images addresses payloads.firmware payloads.kernel).Pairwise Piece.Apart

theorem mem_piece {address : Option Nat} {bytes : Option (List UInt8)} {p : Piece} :
    p ∈ piece address bytes ↔ p.1 ∈ address ∧ p.2 ∈ bytes := by
  obtain ⟨start, data⟩ := p
  cases address <;> cases bytes <;> simp [piece]

theorem kernelLimit_checked {kernelAt : Option Nat}
    (hinside : ∀ a ∈ kernelAt, Machine.ramBase ≤ a ∧ a < Machine.ramBase + ramSize) :
    Checked (kernelAt.elim (pure 0) (differenceU64 (Machine.ramBase + ramSize))) fun limit =>
      kernelAt ≠ none → limit = space ramSize kernelAt := by
  cases kernelAt with
  | none => exact checked_pure fun h => absurd rfl h
  | some a => exact checked_ok (if_pos (hinside a rfl).2.le) fun _ => rfl

theorem regions_extents (name : String) (payload : Option Piece) :
    (payload.toList.map (Region.of name)).map Region.extent = payload.toList.map extent := by
  rw [List.map_map]
  rfl

theorem pairwise_apart {regions : List Region} {payloads : List Piece}
    (hextents : regions.map Region.extent = payloads.map extent)
    (hclear : regions.Pairwise Region.Clear) : payloads.Pairwise Piece.Apart := by
  have hpairs : (regions.map Region.extent).Pairwise fun a b => a.2 ≤ b.1 ∨ b.2 ≤ a.1 :=
    List.pairwise_map.mpr hclear
  rw [hextents, List.pairwise_map] at hpairs
  exact hpairs

theorem selectPayloads_checked (haccepted : RamAccepted ramSize) :
    Checked (selectPayloads gunzip ramSize images addresses)
      (Selected gunzip ramSize images addresses) := by
  obtain ⟨-, -, hram⟩ := haccepted
  apply checked_ite
  · exact fun _ => checked_reject _
  intro _
  apply (checked_sumU64 (by omega)).bind
  rintro _ rfl
  apply (checkAddress_checked _ _).bind
  intro _ hfirmwareAt
  apply (checkAddress_checked _ _).bind
  intro _ hkernelAt
  apply (checkAddress_checked _ _).bind
  intro _ hinitrdAt
  have hfirmwareSpace : images.firmware ≠ none →
      Checked (differenceU64 (Machine.ramBase + ramSize)
        ((firmwareAddress images addresses).getD Machine.ramBase))
        fun n => n = space ramSize (firmwareAddress images addresses) := by
    intro hsome
    apply checked_differenceU64
    cases hfirmware : images.firmware with
    | none => exact absurd hfirmware hsome
    | some image =>
      have hat : firmwareAddress images addresses =
          some (addresses.firmware.getD Machine.ramBase) := by
        rw [firmwareAddress, hfirmware]
        rfl
      rw [hat]
      exact (hfirmwareAt _ hat).2.le
  apply (decodeImage_checked _ _ hfirmwareSpace).bind
  intro firmware hfirmware
  apply (kernelLimit_checked hkernelAt).bind
  intro limit hlimit
  have hkernelSpace : images.kernel ≠ none → Checked (pure limit : Booting Nat)
      fun n => n = space ramSize (kernelAddress images addresses) := by
    intro hsome
    apply checked_pure
    apply hlimit
    cases hkernel : images.kernel with
    | none => exact absurd hkernel hsome
    | some image => simp [kernelAddress, hkernel]
  apply (decodeImage_checked _ _ hkernelSpace).bind
  intro kernel hkernel
  apply (addRegion_checked _ _ _).bind
  rintro _ ⟨rfl, hfirmwareFits⟩
  apply (addRegion_checked _ _ _).bind
  rintro _ ⟨rfl, hkernelFits⟩
  apply (addRegion_checked _ _ _).bind
  rintro _ ⟨rfl, hinitrdFits⟩
  apply checked_ite
  · exact fun _ => checked_reject _
  intro hsome
  apply (checkOverlaps_checked _).bind
  intro _ hclear
  apply checked_pure
  have hextents : (([] ++ (piece (firmwareAddress images addresses) firmware).toList.map
      (Region.of "firmware") ++ (piece (kernelAddress images addresses) kernel).toList.map
      (Region.of "kernel") ++ (piece (initrdAddress ramSize images addresses)
        images.initrd).toList.map (Region.of "initrd")).map Region.extent) =
      (pieces ramSize images addresses firmware kernel).map extent := by
    rw [pieces]
    simp only [List.nil_append, List.map_append, regions_extents]
  constructor
  · rfl
  · exact hfirmware
  · exact hkernel
  · by_contra hnone
    rw [not_or, not_not, not_not] at hnone
    rw [hnone.1] at hfirmware
    rw [hnone.2] at hkernel
    cases hfirmware
    cases hkernel
    exact hsome ⟨rfl, rfl⟩
  · rintro a (ha | ha)
    · exact (hfirmwareAt a ha).2
    · exact (hkernelAt a ha).2
  · intro p hp
    simp only [pieces, List.mem_append, Option.mem_toList] at hp
    rcases hp with (hp | hp) | hp
    · exact ⟨(hfirmwareAt _ (mem_piece.mp hp).1).1, (hfirmwareAt _ (mem_piece.mp hp).1).2,
        hfirmwareFits p hp⟩
    · exact ⟨(hkernelAt _ (mem_piece.mp hp).1).1, (hkernelAt _ (mem_piece.mp hp).1).2,
        hkernelFits p hp⟩
    · exact ⟨(hinitrdAt _ (mem_piece.mp hp).1).1, (hinitrdAt _ (mem_piece.mp hp).1).2,
        hinitrdFits p hp⟩
  · exact hextents
  · exact pairwise_apart hextents hclear

/-! ## The tree -/

/-- What the checks establish of the tree. -/
structure TreePlaced (config : FdtConfig) (payloads : Payloads) (tree : PlacedTree) : Prop where
  nonempty : 0 < tree.bytes.length
  length : tree.bytes.length < 2 ^ 32
  reads : Devicetree.read tree.bytes = some (buildTree config)
  inside : Machine.ramBase ≤ tree.address ∧ tree.address + tree.bytes.length ≤ payloads.ramEnd
  aligned : tree.address % 8 = 0
  clear : ∀ region ∈ payloads.regions,
    region.stop ≤ tree.address ∨ tree.address + tree.bytes.length ≤ region.start

theorem placeTree_checked {config : FdtConfig} {payloads : Payloads} (wanted : Option Nat)
    (haccepted : RamAccepted config.ramSize)
    (hsize : Call.totalSize (buildCalls config) < 2 ^ 32) :
    Checked (placeTree config payloads wanted) (TreePlaced config payloads) := by
  obtain ⟨-, -, hram⟩ := haccepted
  obtain ⟨hbuild, hlength, hread⟩ := Devicetree.build_read hsize
  have hbuilt : Checked (ofBuilt (Devicetree.build config)) fun tree =>
      tree = (buildTree config).blob := by
    rw [hbuild]
    exact checked_ok rfl rfl
  apply hbuilt.bind
  rintro _ rfl
  apply checked_ite
  · exact fun _ => checked_error _
  intro hfits
  apply (checked_differenceU64 (Nat.le_of_not_lt hfits)).bind
  intro space hspace
  have hlowest : Machine.ramBase + space / fdtAlignment * fdtAlignment < 2 ^ 64 := by
    have hdiv := Nat.div_mul_le_self space fdtAlignment
    omega
  apply (checked_sumU64 hlowest).bind
  rintro lowest -
  apply (checked_okOr _ _ fun _ => id).bind
  intro stop hstop
  obtain rfl := checkedAdd_eq hstop
  apply checked_ite
  · exact fun _ => checked_error _
  intro hplace
  simp only [not_or, not_exists, not_and, not_not, Nat.not_lt] at hplace
  obtain ⟨hbase, haligned, hend, hclear⟩ := hplace
  apply checked_pure
  constructor
  · rw [hlength]
    exact Nat.lt_of_lt_of_le (by omega) (Devicetree.Node.le_align _)
  · rw [hlength]
    exact hsize
  · exact hread
  · exact ⟨hbase, hend⟩
  · exact haligned
  · intro region hregion
    have hmeets := hclear region hregion
    show region.stop ≤ wanted.getD lowest ∨
      wanted.getD lowest + (buildTree config).blob.length ≤ region.start
    omega

/-! ## The copies -/

/-- The memory of `PlatformBus::new`, with whatever it registers after the first two
ranges. -/
def memoryMap (ramSize : Nat) (rest : GuestMemory) : GuestMemory :=
  registerRam Machine.ramBase ramSize :: registerRam 0 resetRamSize :: rest

theorem memoryMap_framebuffer (fb : Framebuffer) (devices : GuestMemory) :
    fb.memory ramSize devices =
      memoryMap ramSize (registerRam Framebuffer.base fb.size :: devices) := rfl

section Memory

variable {memory rest : GuestMemory}

theorem main_ramAt (hranges : SameRanges (memoryMap ramSize rest) memory) :
    memory.RamAt Machine.ramBase (Machine.ramBase + ramSize) :=
  ⟨[], _, ramSize, hranges, rfl, fun _ hentry => absurd hentry List.not_mem_nil⟩

theorem reset_ramAt (hranges : SameRanges (memoryMap ramSize rest) memory) :
    memory.RamAt 0 resetRamSize := by
  refine ⟨[(Machine.ramBase, ramSize, true, false)], _, resetRamSize, hranges, rfl, ?_⟩
  intro entry hentry
  rw [List.mem_singleton.mp hentry]
  exact .inr (show resetRamSize ≤ Machine.ramBase by decide)

end Memory

section Words

variable (entry fdtAddress : Nat) (next : Option Nat)

theorem length_resetVector : (resetVector entry fdtAddress next).length = 88 := rfl

open Slices in
/-- The entry, the tree and the next stage in the reset vector. -/
theorem resetVector_words :
    slice (resetVector entry fdtAddress next) 24 8 = LittleEndian.encode 8 entry ∧
      slice (resetVector entry fdtAddress next) 32 8 = LittleEndian.encode 8 fdtAddress ∧
      slice (resetVector entry fdtAddress next) 56 8 = LittleEndian.encode 8 (next.getD 0) :=
  ⟨rfl, rfl, rfl⟩

end Words

section Load

variable {ε π : Type}

/-- A machine with the memory of `PlatformBus::new`, and no more slots than `add_virtio`
allows. -/
structure Assembled (rest : GuestMemory) (machine : Machine ε π) : Prop where
  accepted : RamAccepted machine.ramSize
  ranges : SameRanges (memoryMap machine.ramSize rest) machine.memory
  slots : machine.virtio.length ≤ Machine.virtioSlots

variable {machine : Machine ε π} {memory : GuestMemory} {p : Option Piece}

theorem copyToRam_eq {address : Nat} {bytes : List UInt8}
    (h : machine.memory.writeBytes address bytes = some memory) :
    copyToRam address bytes machine = (.ok (), { machine with memory := memory }) := by
  unfold copyToRam Machine.writeRam
  rw [h]

theorem copyPiece_eq (h : machine.memory.writeAll p.toList = some memory) :
    copyPiece p machine = (.ok (), { machine with memory := memory }) := by
  cases p with
  | none =>
    cases h
    rfl
  | some p =>
    obtain ⟨between, hpiece, hrest⟩ := GuestMemory.writeAll_cons h
    cases hrest
    exact copyToRam_eq hpiece

end Load

/-! ## The whole load -/

/-- The payloads and the tree at their addresses. -/
def placed (layout : BootLayout) (firmware kernel initrd : Option (List UInt8))
    (tree : List UInt8) : List Piece :=
  (piece layout.firmwareAddress firmware).toList ++ (piece layout.kernelAddress kernel).toList ++
    (piece layout.initrdAddress initrd).toList ++ [(layout.fdtAddress, tree)]

/-- What a load that succeeded leaves in guest memory. -/
structure Loaded {ε π : Type} (host : BootHost ε) (images : BootImages)
    (addresses : BootAddresses) (machine : Machine ε π) (memory : GuestMemory)
    (layout : BootLayout) (firmware kernel : Option (List UInt8)) (tree : List UInt8) : Prop where
  firmwareAt : layout.firmwareAddress = firmwareAddress images addresses
  kernelAt : layout.kernelAddress = kernelAddress images addresses
  initrdAt : layout.initrdAddress = initrdAddress machine.ramSize images addresses
  fdtSize : layout.fdtSize = tree.length
  firmwareDecoded : Option.Rel (Decoded host.gunzip (space machine.ramSize layout.firmwareAddress))
    images.firmware firmware
  kernelDecoded : Option.Rel (Decoded host.gunzip (space machine.ramSize layout.kernelAddress))
    images.kernel kernel
  inside : ∀ p ∈ placed layout firmware kernel images.initrd tree,
    Machine.ramBase ≤ p.1 ∧ p.stop ≤ Machine.ramBase + machine.ramSize
  apart : (placed layout firmware kernel images.initrd tree).Pairwise Piece.Apart
  held : ∀ p ∈ placed layout firmware kernel images.initrd tree,
    memory.readBytes p.1 p.2.length = some p.2
  aligned : layout.fdtAddress % 8 = 0
  initrd : ∃ root, Devicetree.read tree = some root ∧
    root.chosen "linux,initrd-start" =
      (piece layout.initrdAddress images.initrd).map (fun p => wide p.1) ∧
    root.chosen "linux,initrd-end" =
      (piece layout.initrdAddress images.initrd).map fun p => wide p.stop
  entryWord : ∃ entry, layout.firmwareAddress.or layout.kernelAddress = some entry ∧
    memory.read (resetAddress + 24) 8 = some entry
  treeWord : memory.read (resetAddress + 32) 8 = some layout.fdtAddress
  nextWord : memory.read (resetAddress + 56) 8 = some (layout.kernelAddress.getD 0)
  ranges : memory.ranges = machine.memory.ranges
  unchanged : ∀ address,
    (∀ p ∈ placed layout firmware kernel images.initrd tree, p.Misses address 1) →
    address < resetAddress ∨ resetAddress + 88 ≤ address →
    memory.readBytes address 1 = machine.memory.readBytes address 1

section Whole

variable {ε π : Type} {host : BootHost ε}
  {machine : Machine ε π} {rest : GuestMemory} {payloads : Payloads} {tree : PlacedTree}

/-- The configuration of the tree of a machine. -/
def configOf (host : BootHost ε) (images : BootImages) (addresses : BootAddresses)
    (machine : Machine ε π) (seed : List UInt8) : FdtConfig :=
  fdtConfig machine.ramSize machine.virtio.length host.framebuffer images addresses seed

/-- The entry of the firmware, or else of the kernel. -/
theorem Selected.entry (h : Selected gunzip ramSize images addresses payloads) :
    ∃ entry, (firmwareAddress images addresses).or (kernelAddress images addresses) = some entry ∧
      entry < Machine.ramBase + ramSize := by
  cases hfirmware : firmwareAddress images addresses with
  | some a => exact ⟨a, rfl, h.stages a (.inl hfirmware)⟩
  | none =>
    cases hkernel : kernelAddress images addresses with
    | some a => exact ⟨a, rfl, h.stages a (.inr hkernel)⟩
    | none =>
      rw [firmwareAddress, Option.map_eq_none_iff] at hfirmware
      rw [kernelAddress, Option.map_eq_none_iff] at hkernel
      exact absurd hkernel (h.bootable.resolve_left fun hsome => hsome hfirmware)

/-- The tree lies apart from the payloads. -/
theorem TreePlaced.apart {config : FdtConfig} (h : TreePlaced config payloads tree)
    (hselected : Selected gunzip ramSize images addresses payloads) :
    ∀ p ∈ pieces ramSize images addresses payloads.firmware payloads.kernel,
      p.Apart (tree.address, tree.bytes) := by
  intro p hp
  have hextent : extent p ∈ payloads.regions.map Region.extent := by
    rw [hselected.regions]
    exact List.mem_map_of_mem hp
  obtain ⟨region, hregion, heq⟩ := List.mem_map.mp hextent
  have hclear := h.clear region hregion
  obtain ⟨hstart, hstop⟩ := Prod.mk.inj heq
  rw [hstart, hstop] at hclear
  exact hclear

/-- The payloads, the tree and the reset vector at their addresses. -/
def allPieces (ramSize : Nat) (images : BootImages) (addresses : BootAddresses)
    (payloads : Payloads) (tree : PlacedTree) (entry : Nat) : List Piece :=
  pieces ramSize images addresses payloads.firmware payloads.kernel ++
    [(tree.address, tree.bytes),
      (resetAddress, resetVector entry tree.address (kernelAddress images addresses))]

def layoutOf (ramSize : Nat) (images : BootImages) (addresses : BootAddresses)
    (tree : PlacedTree) : BootLayout where
  firmwareAddress := firmwareAddress images addresses
  kernelAddress := kernelAddress images addresses
  initrdAddress := initrdAddress ramSize images addresses
  fdtAddress := tree.address
  fdtSize := tree.bytes.length

section Placement

variable {config : FdtConfig} {memory : GuestMemory}
  (hselected : Selected gunzip ramSize images addresses payloads)
  (htree : TreePlaced config payloads tree) (entry : Nat)

include hselected htree

theorem fits_allPieces (hmain : memory.RamAt Machine.ramBase (Machine.ramBase + ramSize))
    (hreset : memory.RamAt 0 resetRamSize) :
    ∀ p ∈ allPieces ramSize images addresses payloads tree entry, memory.Fits p := by
  intro p hp
  rcases List.mem_append.mp hp with hp | hp
  · obtain ⟨hbase, hstart, hstop⟩ := hselected.inside p hp
    exact ⟨_, _, hmain, hbase, hstart, hstop⟩
  · rcases List.mem_cons.mp hp with rfl | hp
    · have hnonempty := htree.nonempty
      obtain ⟨hbase, hstop⟩ := htree.inside
      rw [hselected.ramEnd] at hstop
      refine ⟨_, _, hmain, hbase, ?_, hstop⟩
      show tree.address < _
      omega
    · rw [List.mem_singleton.mp hp]
      exact ⟨_, _, hreset, Nat.zero_le _, show resetAddress < resetRamSize by decide,
        show resetAddress + 88 ≤ resetRamSize by decide⟩

theorem apart_allPieces :
    (allPieces ramSize images addresses payloads tree entry).Pairwise Piece.Apart := by
  have hbelow : ∀ p : Piece, Machine.ramBase ≤ p.1 →
      p.Apart (resetAddress, resetVector entry tree.address (kernelAddress images addresses)) :=
    fun p hp => .inr (Nat.le_trans (show resetAddress + 88 ≤ Machine.ramBase by decide) hp)
  apply List.pairwise_append.mpr
  refine ⟨hselected.apart, ?_, ?_⟩
  · exact List.pairwise_pair.mpr (hbelow _ htree.inside.1)
  · intro p hp other hother
    rcases List.mem_cons.mp hother with rfl | hother
    · exact htree.apart hselected p hp
    · rw [List.mem_singleton.mp hother]
      exact hbelow p (hselected.inside p hp).1

end Placement

/-- The copies, in their order. -/
theorem install_eq {entry : Nat} {memory : GuestMemory}
    (hentry : (firmwareAddress images addresses).or (kernelAddress images addresses) = some entry)
    (hlength : tree.bytes.length < 2 ^ 32)
    (hall : machine.memory.writeAll
      (allPieces machine.ramSize images addresses payloads tree entry) = some memory) :
    install images addresses payloads tree machine =
      (.ok (layoutOf machine.ramSize images addresses tree),
        { machine with memory := memory }) := by
  obtain ⟨afterPieces, hpieces, htail⟩ := GuestMemory.writeAll_append hall
  obtain ⟨afterKernel, hpieces, hinitrd⟩ := GuestMemory.writeAll_append hpieces
  obtain ⟨afterFirmware, hfirmware, hkernel⟩ := GuestMemory.writeAll_append hpieces
  obtain ⟨afterTree, htreeCopy, htail⟩ := GuestMemory.writeAll_cons htail
  obtain ⟨_, hresetCopy, htail⟩ := GuestMemory.writeAll_cons htail
  cases htail
  have hsize : checkedU32 tree.bytes.length = some tree.bytes.length := if_pos hlength
  unfold install
  refine (Op.bind_ok (show Op.reading _ machine = (.ok machine.ramSize, machine) from rfl)).trans ?_
  refine (Op.bind_ok (copyPiece_eq hfirmware)).trans ?_
  refine (Op.bind_ok (copyPiece_eq hkernel)).trans ?_
  refine (Op.bind_ok (copyPiece_eq hinitrd)).trans ?_
  refine (Op.bind_ok (copyToRam_eq htreeCopy)).trans ?_
  rw [hentry]
  refine (Op.bind_ok (Op.lift_apply _ _)).trans ?_
  refine (Op.bind_ok (copyToRam_eq hresetCopy)).trans ?_
  rw [hsize]
  rfl

/-- A word of the reset vector, read from the reset RAM. -/
theorem read_resetWord {memory : GuestMemory} {entry fdtAddress offset value : Nat}
    {next : Option Nat} (hreset : memory.RamAt 0 resetRamSize)
    (hread : memory.readBytes resetAddress 88 = some (resetVector entry fdtAddress next))
    (hoffset : offset + 8 ≤ 88) (hvalue : value < 2 ^ 64)
    (hslice : Slices.slice (resetVector entry fdtAddress next) offset 8 =
      LittleEndian.encode 8 value) :
    memory.read (resetAddress + offset) 8 = some value := by
  have hinside := hreset.readBytes_inside (Nat.zero_le _)
    (show resetAddress + 88 ≤ resetRamSize by decide) hread hoffset (by decide)
  rw [GuestMemory.read, hinside, hslice]
  exact congrArg some (LittleEndian.decode_encode hvalue)

/-- The tree names the range of the initrd. -/
theorem initrd_named (hassembled : Assembled rest machine) {seed : List UInt8}
    (hselected : Selected gunzip machine.ramSize images addresses payloads)
    (htree : TreePlaced (configOf host images addresses machine seed) payloads tree) :
    ∃ root, Devicetree.read tree.bytes = some root ∧
      root.chosen "linux,initrd-start" =
        (piece (initrdAddress machine.ramSize images addresses) images.initrd).map
          (fun p => wide p.1) ∧
      root.chosen "linux,initrd-end" =
        (piece (initrdAddress machine.ramSize images addresses) images.initrd).map
          fun p => wide p.stop := by
  obtain ⟨hstart, hstop⟩ := Devicetree.chosen_initrd (configOf host images addresses machine seed)
  refine ⟨_, htree.reads, ?_, ?_⟩
  · rw [hstart, configOf, fdtConfig, Option.map_map]
    rfl
  · rw [hstop, configOf, fdtConfig, Option.map_map]
    apply Option.map_congr
    intro p hp
    have hend := (hselected.inside p (by simp [pieces, hp])).2.2
    show wide (saturatingAdd p.1 p.2.length) = wide (p.1 + p.2.length)
    rw [saturatingAdd, Nat.min_eq_left]
    exact Nat.le_trans hend hassembled.accepted.2.2

theorem loaded_of_writeAll (hassembled : Assembled rest machine) {seed : List UInt8}
    (hselected : Selected host.gunzip machine.ramSize images addresses payloads)
    (htree : TreePlaced (configOf host images addresses machine seed) payloads tree)
    {entry : Nat} {memory : GuestMemory}
    (hentry : (firmwareAddress images addresses).or (kernelAddress images addresses) = some entry)
    (hbelow : entry < Machine.ramBase + machine.ramSize)
    (hall : machine.memory.writeAll
      (allPieces machine.ramSize images addresses payloads tree entry) = some memory) :
    Loaded host images addresses machine memory (layoutOf machine.ramSize images addresses tree)
      payloads.firmware payloads.kernel tree.bytes := by
  have happend : allPieces machine.ramSize images addresses payloads tree entry =
      placed (layoutOf machine.ramSize images addresses tree) payloads.firmware payloads.kernel
          images.initrd tree.bytes ++
        [(resetAddress, resetVector entry tree.address (kernelAddress images addresses))] :=
    List.append_cons _ _ _
  have hapart := apart_allPieces hselected htree entry
  have hheld : ∀ piece ∈ allPieces machine.ramSize images addresses payloads tree entry,
      memory.readBytes piece.1 piece.2.length = some piece.2 := fun piece hpiece =>
    GuestMemory.readBytes_writeAll hall hapart hpiece
  have hmissed : ∀ address, (∀ piece ∈ allPieces machine.ramSize images addresses payloads tree entry,
      piece.Misses address 1) → memory.readBytes address 1 = machine.memory.readBytes address 1 :=
    fun address hmissed => GuestMemory.readBytes_writeAll_of_missed hall hmissed
  rw [happend] at hapart hheld hmissed
  have hreset := (reset_ramAt hassembled.ranges).of_ranges (GuestMemory.ranges_writeAll hall)
  have hvector : memory.readBytes resetAddress 88 =
      some (resetVector entry tree.address (kernelAddress images addresses)) :=
    hheld _ (List.mem_append_right _ List.mem_cons_self)
  obtain ⟨hentrySlice, htreeSlice, hnextSlice⟩ :=
    resetVector_words entry tree.address (kernelAddress images addresses)
  have hram := hassembled.accepted.2.2
  have htreeEnd := htree.inside.2
  rw [hselected.ramEnd] at htreeEnd
  have htreeU64 : tree.address < 2 ^ 64 := by omega
  have hnextU64 : (kernelAddress images addresses).getD 0 < 2 ^ 64 := by
    cases hkernel : kernelAddress images addresses with
    | none => exact Nat.two_pow_pos 64
    | some a =>
      have hstage := hselected.stages a (.inr hkernel)
      show a < 2 ^ 64
      omega
  constructor
  · rfl
  · rfl
  · rfl
  · rfl
  · exact hselected.firmware
  · exact hselected.kernel
  · intro p hp
    rcases List.mem_append.mp hp with hp | hp
    · exact ⟨(hselected.inside p hp).1, (hselected.inside p hp).2.2⟩
    · rw [List.mem_singleton.mp hp]
      exact ⟨htree.inside.1, htreeEnd⟩
  · exact (List.pairwise_append.mp hapart).1
  · exact fun p hp => hheld p (List.mem_append_left _ hp)
  · exact htree.aligned
  · exact initrd_named hassembled hselected htree
  · exact ⟨entry, hentry, read_resetWord hreset hvector (by omega) (by omega) hentrySlice⟩
  · exact read_resetWord hreset hvector (by omega) htreeU64 htreeSlice
  · exact read_resetWord hreset hvector (by omega) hnextU64 hnextSlice
  · exact GuestMemory.ranges_writeAll hall
  · intro address hpieces haddress
    apply hmissed
    intro p hp
    rcases List.mem_append.mp hp with hp | hp
    · exact hpieces p hp
    · rw [List.mem_singleton.mp hp]
      show resetAddress + 88 ≤ address ∨ address + 1 ≤ resetAddress
      omega

variable [EntropySource ε]

/-- The tree is shorter than 2^32 bytes. -/
def TreeFits (host : BootHost ε) (images : BootImages) (addresses : BootAddresses)
    (machine : Machine ε π) : Prop :=
  ∀ seed, rngSeed host = .ok seed →
    Call.totalSize (buildCalls (configOf host images addresses machine seed)) < 2 ^ 32

theorem prepare_checked (hassembled : Assembled rest machine)
    (hsize : TreeFits host images addresses machine) :
    Checked (prepare host images addresses machine) fun prepared =>
      Selected host.gunzip machine.ramSize images addresses prepared.1 ∧
        ∃ seed, TreePlaced (configOf host images addresses machine seed) prepared.1 prepared.2 := by
  apply (selectPayloads_checked hassembled.accepted).bind
  intro payloads hselected
  have hseed : Checked (rngSeed host) fun seed => rngSeed host = .ok seed := by
    unfold rngSeed
    apply checked_okOr
    intro seed hfill
    rw [hfill]
    rfl
  apply hseed.bind
  intro seed hseed
  have hcount : Checked (virtioCount machine) fun count => count = machine.virtio.length := by
    apply checked_ite
    · exact fun _ => checked_pure rfl
    · exact fun _ => checked_error _
  apply hcount.bind
  intro count hcount
  rw [hcount]
  apply (placeTree_checked addresses.fdt hassembled.accepted (hsize seed hseed)).bind
  intro tree htree
  exact checked_pure ⟨hselected, seed, htree⟩

/-- A load that is refused leaves the machine as it was; one that succeeds has placed the
images, the tree and the reset vector, and nothing else. -/
theorem loadBootAt_atomic (hassembled : Assembled rest machine)
    (hsize : TreeFits host images addresses machine) :
    (∃ error, loadBootAt host images addresses machine = (.err (.error error), machine)) ∨
      ∃ layout memory firmware kernel tree,
        loadBootAt host images addresses machine =
            (.ok layout, { machine with memory := memory }) ∧
          Loaded host images addresses machine memory layout firmware kernel tree := by
  rcases prepare_checked hassembled hsize with ⟨prepared, hprepare, hselected, seed, htree⟩ | hfailed
  · right
    obtain ⟨entry, hentry, hbelow⟩ := hselected.entry
    obtain ⟨memory, hall⟩ := GuestMemory.writeAll_of_fits
      (fits_allPieces hselected htree entry (main_ramAt hassembled.ranges)
        (reset_ramAt hassembled.ranges))
    refine ⟨_, memory, _, _, _, ?_,
      loaded_of_writeAll hassembled hselected htree hentry hbelow hall⟩
    exact (Op.bind_ok (Op.reading_ok hprepare)).trans (install_eq hentry htree.length hall)
  · left
    obtain ⟨error, herror⟩ := hfailed
    refine ⟨error, Op.bind_err ?_⟩
    rw [Op.reading_apply, herror]

/-- A machine that its host assembled stays assembled. -/
theorem loadBootAt_assembled (hassembled : Assembled rest machine)
    (hsize : TreeFits host images addresses machine) :
    Assembled rest (loadBootAt host images addresses machine).2 := by
  rcases loadBootAt_atomic hassembled hsize with
    ⟨error, herror⟩ | ⟨layout, memory, firmware, kernel, tree, hok, hloaded⟩
  · rw [herror]
    exact hassembled
  · rw [hok]
    exact ⟨hassembled.accepted, hloaded.ranges.trans hassembled.ranges, hassembled.slots⟩

/-- What the machine of the runtime does with a load is what this load does. -/
theorem loadBootAt_steps (hassembled : Assembled rest machine)
    (hsize : TreeFits host images addresses machine) :
    ∃ load : BootLoad, Machine.loadBootAt load machine =
      ((fun _ => ()) <$> loadBootAt host images addresses) machine := by
  have hmap : ((fun _ => ()) <$> loadBootAt host images addresses : MachineOp ε π Unit) machine =
      (loadBootAt host images addresses >>= fun _ => pure ()) machine := rfl
  rw [hmap]
  rcases loadBootAt_atomic hassembled hsize with
    ⟨error, herror⟩ | ⟨layout, memory, firmware, kernel, tree, hok, -⟩
  · rw [Op.bind_err herror]
    exact ⟨⟨some error, true, none, machine.memory⟩, rfl⟩
  · rw [Op.bind_ok hok]
    exact ⟨⟨none, true, none, memory⟩, rfl⟩

end Whole

/-! ## A machine with a kernel and an initrd -/

/-- An entropy source that replays what was recorded. -/
instance : EntropySource (List UInt8) where
  fill length recorded :=
    if h : length ≤ recorded.length then
      (some ⟨recorded.take length, List.length_take_of_le h⟩, recorded.drop length)
    else (none, recorded)

def smallMachine : Machine (List UInt8) Empty where
  virtio := []
  memory := memoryMap 0x8000 []
  ramSize := 0x8000
  finisher := .running
  guestTimerTicks := 0
  guestRtcNs := 0
  disks := []

def smallHost : BootHost (List UInt8) where
  gunzip := fun image limit => some (image.take limit)
  entropy := List.replicate 32 7
  framebuffer := none

def smallImages : BootImages where
  firmware := none
  kernel := some [0x13, 0, 0, 0]
  initrd := some [1, 2, 3]
  commandLine := Devicetree.utf8 "quiet"

def smallAddresses : BootAddresses where
  firmware := none
  kernel := some 0x80000000
  initrd := some 0x80000004
  fdt := some 0x80001000

theorem smallMachine_assembled : Assembled [] smallMachine := by
  constructor
  · exact ⟨by decide, by decide, by decide⟩
  · rfl
  · exact Nat.zero_le _

theorem smallMachine_treeFits : TreeFits smallHost smallImages smallAddresses smallMachine := by
  intro seed hseed
  have hrecorded : rngSeed smallHost = .ok (List.replicate 32 7) := by decide
  rw [hrecorded] at hseed
  cases hseed
  decide +kernel

theorem loadBootAt_atomic_small :
    (∃ error, loadBootAt smallHost smallImages smallAddresses smallMachine =
        (.err (.error error), smallMachine)) ∨
      ∃ layout memory firmware kernel tree,
        loadBootAt smallHost smallImages smallAddresses smallMachine =
            (.ok layout, { smallMachine with memory := memory }) ∧
          Loaded smallHost smallImages smallAddresses smallMachine memory layout firmware kernel
            tree :=
  loadBootAt_atomic smallMachine_assembled smallMachine_treeFits

end Boot

end Virtio
end Riscbox
