import Riscbox.Devicetree.Platform
import Riscbox.Machine.Framebuffer
import Riscbox.Virtio.Copies

/-!
# Loading the boot images

`load_boot_at` of `src/machine.rs`.  The gzip decoder is given: `gunzip image limit` is
what reading its output up to `limit` bytes gives.  Arithmetic on `u64` that the source
does not check ends in `overflow` where it would leave its range.
-/

namespace Riscbox
namespace Virtio

open Devicetree (FdtConfig FramebufferDescription buildCalls buildTree saturatingAdd)

structure BootImages where
  firmware : Option (List UInt8)
  kernel : Option (List UInt8)
  initrd : Option (List UInt8)
  commandLine : List UInt8
  deriving DecidableEq, Repr

structure BootAddresses where
  firmware : Option Nat
  kernel : Option Nat
  initrd : Option Nat
  fdt : Option Nat
  deriving DecidableEq, Repr

structure BootLayout where
  firmwareAddress : Option Nat
  kernelAddress : Option Nat
  initrdAddress : Option Nat
  fdtAddress : Nat
  fdtSize : Nat
  deriving DecidableEq, Repr

/-- The decoder, the entropy source and the framebuffer of a machine. -/
structure BootHost (ε : Type) where
  gunzip : List UInt8 → Nat → Option (List UInt8)
  entropy : ε
  framebuffer : Option Framebuffer

abbrev Booting (α : Type) : Type := Outcome (Failure MachineError) α

namespace Boot

def kernelOffset : Nat := 0x200000

def fdtAlignment : Nat := 0x200000

def reject {α : Type} (reason : String) : Booting α := .err (.error (.invalidBootLayout reason))

/-- Arithmetic on `u64` without a check of its own. -/
def sumU64 (a b : Nat) : Booting Nat := if a + b < 2 ^ 64 then .ok (a + b) else .err .overflow

def differenceU64 (a b : Nat) : Booting Nat := if b ≤ a then .ok (a - b) else .err .overflow

def checkedAdd (a b : Nat) : Option Nat := if a + b < 2 ^ 64 then some (a + b) else none

/-! ## The images -/

def firmwareAddress (images : BootImages) (addresses : BootAddresses) : Option Nat :=
  images.firmware.map fun _ => addresses.firmware.getD Machine.ramBase

def kernelAddress (images : BootImages) (addresses : BootAddresses) : Option Nat :=
  images.kernel.map fun _ => addresses.kernel.getD (Machine.ramBase + kernelOffset)

def initrdAddress (ramSize : Nat) (images : BootImages) (addresses : BootAddresses) : Option Nat :=
  images.initrd.map fun _ =>
    addresses.initrd.getD
      (saturatingAdd ((kernelAddress images addresses).getD Machine.ramBase)
        (min ((ramSize + 1) / 2) (512 <<< 20)))

def checkAddress (ramEnd : Nat) (name : String) (address : Option Nat) : Booting Unit :=
  if ∃ a ∈ address, a < Machine.ramBase ∨ ramEnd ≤ a then reject (name ++ " address is outside RAM")
  else pure ()

/-- Whether an image starts with the magic number of gzip. -/
def IsGzip (image : List UInt8) : Prop := image.take 2 = [0x1f, 0x8b]

instance (image : List UInt8) : Decidable (IsGzip image) :=
  inferInstanceAs (Decidable (image.take 2 = [0x1f, 0x8b]))

def decodeGzip (gunzip : List UInt8 → Nat → Option (List UInt8)) (image : List UInt8) (limit : Nat)
    (oversized invalid : MachineError) : Booting (List UInt8) := do
  let decoded ← Outcome.okOr (.error invalid) (gunzip image (saturatingAdd limit 1))
  if limit < decoded.length then .err (.error oversized) else pure decoded

/-- What of an image goes to RAM, given the space from its address on. -/
def decodeImage (gunzip : List UInt8 → Nat → Option (List UInt8)) (limit : Booting Nat)
    (oversized invalid : MachineError) : Option (List UInt8) → Booting (Option (List UInt8))
  | none => pure none
  | some image =>
    if IsGzip image then do
      let limit ← limit
      let decoded ← decodeGzip gunzip image limit oversized invalid
      pure (some decoded)
    else pure (some image)

structure Region where
  name : String
  start : Nat
  stop : Nat
  deriving DecidableEq, Repr

/-- An address and the bytes for it, if there are both. -/
def piece (address : Option Nat) (bytes : Option (List UInt8)) : Option GuestMemory.Piece :=
  address.bind fun address => bytes.map fun bytes => (address, bytes)

def addRegion (ramEnd : Nat) (name : String) (payload : Option GuestMemory.Piece)
    (regions : List Region) : Booting (List Region) :=
  match payload with
  | none => pure regions
  | some (address, bytes) => do
    let stop ← Outcome.okOr (.error (.invalidBootLayout (name ++ " address overflows")))
      (checkedAdd address bytes.length)
    if ramEnd < stop then reject (name ++ " does not fit in RAM")
    else pure (regions ++ [⟨name, address, stop⟩])

/-- The turns of the inner loop. -/
def checkAgainst (left : Region) : List Region → Booting Unit
  | [] => pure ()
  | right :: rest =>
    if left.start < right.stop ∧ right.start < left.stop then
      reject (left.name ++ " overlaps " ++ right.name)
    else checkAgainst left rest

def checkOverlaps : List Region → Booting Unit
  | [] => pure ()
  | left :: rest => do
    checkAgainst left rest
    checkOverlaps rest

/-- The images as they go to RAM. -/
structure Payloads where
  firmware : Option (List UInt8)
  kernel : Option (List UInt8)
  regions : List Region
  ramEnd : Nat

/-- The checks of `load_boot_at` on the images. -/
def selectPayloads (gunzip : List UInt8 → Nat → Option (List UInt8)) (ramSize : Nat)
    (images : BootImages) (addresses : BootAddresses) : Booting Payloads :=
  if images.firmware = some [] then reject "firmware is empty"
  else do
    let firmwareAt := firmwareAddress images addresses
    let kernelAt := kernelAddress images addresses
    let initrdAt := initrdAddress ramSize images addresses
    let ramEnd ← sumU64 Machine.ramBase ramSize
    checkAddress ramEnd "firmware" firmwareAt
    checkAddress ramEnd "kernel" kernelAt
    checkAddress ramEnd "initrd" initrdAt
    let firmware ← decodeImage gunzip (differenceU64 ramEnd (firmwareAt.getD Machine.ramBase))
      .firmwareTooLarge .invalidCompressedFirmware images.firmware
    let kernelLimit ← kernelAt.elim (pure 0) (differenceU64 ramEnd)
    let kernel ← decodeImage gunzip (pure kernelLimit) .kernelTooLarge .invalidCompressedKernel
      images.kernel
    let regions ← addRegion ramEnd "firmware" (piece firmwareAt firmware) []
    let regions ← addRegion ramEnd "kernel" (piece kernelAt kernel) regions
    let regions ← addRegion ramEnd "initrd" (piece initrdAt images.initrd) regions
    if firmware = none ∧ kernel = none then reject "boot requires firmware or kernel"
    else do
      checkOverlaps regions
      pure { firmware, kernel, regions, ramEnd }

/-! ## The device tree -/

/-- The configuration of the tree, given the seed. -/
def fdtConfig (ramSize virtioCount : Nat) (framebuffer : Option Framebuffer)
    (images : BootImages) (addresses : BootAddresses) (seed : List UInt8) : FdtConfig where
  ramSize := ramSize
  commandLine := images.commandLine
  initrd := (piece (initrdAddress ramSize images addresses) images.initrd).map fun initrd =>
    (initrd.1, initrd.2.length)
  virtioCount := virtioCount
  rngSeed := some seed
  framebuffer := framebuffer.map fun fb =>
    { size := fb.size, width := fb.width, height := fb.height, stride := fb.stride }

/-- The builder of the tree has no errors of its own. -/
def ofBuilt {α : Type} : Devicetree.Built α → Booting α
  | .ok a => .ok a
  | .err e => nomatch e
  | .panic => .panic

structure PlacedTree where
  address : Nat
  bytes : List UInt8

/-- The tree and its address, clear of the regions. -/
def placeTree (config : FdtConfig) (payloads : Payloads) (wanted : Option Nat) :
    Booting PlacedTree := do
  let tree ← ofBuilt (Devicetree.build config)
  if config.ramSize < tree.length then .err (.error .deviceTreeTooLarge)
  else do
    let space ← differenceU64 config.ramSize tree.length
    let lowest ← sumU64 Machine.ramBase (space / fdtAlignment * fdtAlignment)
    let address := wanted.getD lowest
    let stop ← Outcome.okOr (.error .deviceTreeTooLarge) (checkedAdd address tree.length)
    if address < Machine.ramBase ∨ address % 8 ≠ 0 ∨ payloads.ramEnd < stop ∨
        ∃ region ∈ payloads.regions, address < region.stop ∧ region.start < stop then
      .err (.error .deviceTreeTooLarge)
    else pure ⟨address, tree⟩

/-! ## The copies -/

def resetInstructions : List Nat :=
  [0x00000297, 0x02828613, 0xf1402573, 0x0202b583, 0x0182b283, 0x00028067]

/-- The six instructions of the ROM, its two pointers and the dynamic information for the
firmware. -/
def resetVector (entry fdtAddress : Nat) (next : Option Nat) : List UInt8 :=
  resetInstructions.flatMap (LittleEndian.encode 4) ++
    [entry, fdtAddress, 0x4942534f, 2, next.getD 0, 1, 0, 0].flatMap (LittleEndian.encode 8)

def resetAddress : Nat := 0x1000

variable {ε π : Type} [EntropySource ε]

def copyToRam (address : Nat) (bytes : List UInt8) : MachineOp ε π Unit :=
  Machine.writeRam address bytes

def copyPiece : Option GuestMemory.Piece → MachineOp ε π Unit
  | none => pure ()
  | some (address, bytes) => copyToRam address bytes

def writeResetVector (entry fdtAddress : Nat) (next : Option Nat) : MachineOp ε π Unit :=
  copyToRam resetAddress (resetVector entry fdtAddress next)

/-- `entropy.fill` of the seed. -/
def rngSeed (host : BootHost ε) : Booting (List UInt8) :=
  Outcome.okOr (.error .entropy) ((EntropySource.fill 32 host.entropy).1.map Subtype.val)

/-- The number of the slots, as a `u8`. -/
def virtioCount (machine : Machine ε π) : Booting Nat :=
  if machine.virtio.length < 2 ^ 8 then pure machine.virtio.length
  else .err (.error .virtioSlotLimit)

/-- Everything before the first copy. -/
def prepare (host : BootHost ε) (images : BootImages) (addresses : BootAddresses)
    (machine : Machine ε π) : Booting (Payloads × PlacedTree) := do
  let payloads ← selectPayloads host.gunzip machine.ramSize images addresses
  let seed ← rngSeed host
  let count ← virtioCount machine
  let tree ← placeTree (fdtConfig machine.ramSize count host.framebuffer images addresses seed)
    payloads addresses.fdt
  pure (payloads, tree)

/-- The copies, and the layout that they make. -/
def install (images : BootImages) (addresses : BootAddresses) (payloads : Payloads)
    (tree : PlacedTree) : MachineOp ε π BootLayout := do
  let ramSize ← Op.reading fun machine => .ok machine.ramSize
  let firmwareAt := firmwareAddress images addresses
  let kernelAt := kernelAddress images addresses
  let initrdAt := initrdAddress ramSize images addresses
  copyPiece (piece firmwareAt payloads.firmware)
  copyPiece (piece kernelAt payloads.kernel)
  copyPiece (piece initrdAt images.initrd)
  copyToRam tree.address tree.bytes
  let entry ← Op.lift (Outcome.okOr
    (.error (.invalidBootLayout "boot requires firmware or kernel")) (firmwareAt.or kernelAt))
  writeResetVector entry tree.address kernelAt
  let fdtSize ← Op.lift (Outcome.okOr (.error .deviceTreeTooLarge) (checkedU32 tree.bytes.length))
  pure
    { firmwareAddress := firmwareAt
      kernelAddress := kernelAt
      initrdAddress := initrdAt
      fdtAddress := tree.address
      fdtSize := fdtSize }

def loadBootAt (host : BootHost ε) (images : BootImages) (addresses : BootAddresses) :
    MachineOp ε π BootLayout := do
  let prepared ← Op.reading (prepare host images addresses)
  install images addresses prepared.1 prepared.2

end Boot

end Virtio
end Riscbox
