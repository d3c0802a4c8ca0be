import Riscbox.Machine.Machine

/-!
# The framebuffer

Its registration by `PlatformBus::new`, the rows that a snapshot of its dirty pages asks
to be drawn again, and the bytes behind them.
-/

namespace Riscbox
namespace Virtio

structure Framebuffer where
  width : Nat
  height : Nat
  stride : Nat
  size : Nat
  deriving DecidableEq, Repr

structure RedrawSpan where
  y : Nat
  height : Nat
  deriving DecidableEq, Repr

structure FramebufferUpdate where
  x : Nat
  y : Nat
  width : Nat
  height : Nat
  stride : Nat
  deriving DecidableEq, Repr

/-- A result that has to fit in 32 bits. -/
def checkedU32 (n : Nat) : Option Nat := if n < 2 ^ 32 then some n else none

abbrev Drawn (α : Type) : Type := Outcome (Failure MachineError) α

/-- Arithmetic on `u32` without a check of its own. -/
def sumU32 (n : Nat) : Drawn Nat := if n < 2 ^ 32 then .ok n else .err .overflow

def differenceU32 (a b : Nat) : Drawn Nat := if b ≤ a then .ok (a - b) else .err .overflow

namespace Framebuffer

/-- The dimensions that `PlatformBus::new` accepts. -/
def new (width height : Nat) : Drawn Framebuffer := do
  let stride ← Outcome.okOr (.error .invalidFramebuffer) (checkedU32 (width * 4))
  let used ← Outcome.okOr (.error .invalidFramebuffer) (checkedU32 (height * stride))
  if used = 0 then .err (.error .invalidFramebuffer)
  else do
    let size ← Outcome.okOr (.error .invalidFramebuffer) (checkedU32 (used + 0xffff))
    pure { width, height, stride, size := size / 0x10000 * 0x10000 }

/-- The length of the dirty bitmap in words. -/
def words (fb : Framebuffer) : Nat := (fb.size / 4096 + 31) / 32

/-- The dirty pages of a bitmap from the word `index` on. -/
def pagesFrom (index : Nat) : List (BitVec 32) → List Nat
  | [] => []
  | word :: rest =>
    ((List.range 32).filter fun bit => word.getLsbD bit).map (index * 32 + ·) ++
      pagesFrom (index + 1) rest

/-- The first row with a byte in the page. -/
def firstRow (fb : Framebuffer) (page : Nat) : Nat := page * 4096 / fb.stride

/-- The row behind the last one with a byte in the page, clipped to the height. -/
def endRow (fb : Framebuffer) (page : Nat) : Nat :=
  min (min (page * 4096 + 4095) (fb.size - 1) / fb.stride + 1) fb.height

/-- What the loop does with a dirty page. -/
def addPage (fb : Framebuffer) (result : List RedrawSpan) (page : Nat) : Drawn (List RedrawSpan) :=
  if page * 4096 ≥ fb.size then pure result
  else if fb.firstRow page ≥ 2 ^ 32 then pure result
  else if min (page * 4096 + 4095) (fb.size - 1) / fb.stride + 1 ≥ 2 ^ 32 then pure result
  else
    match result.getLast? with
    | some last => do
      let bound ← sumU32 (last.y + last.height)
      let bound ← sumU32 (bound + 3)
      if fb.firstRow page ≤ bound then do
        let height ← differenceU32 (fb.endRow page) last.y
        pure (result.dropLast ++ [{ last with height := max last.height height }])
      else do
        let height ← differenceU32 (fb.endRow page) (fb.firstRow page)
        pure (result ++ [⟨fb.firstRow page, height⟩])
    | none => do
      let height ← differenceU32 (fb.endRow page) (fb.firstRow page)
      pure (result ++ [⟨fb.firstRow page, height⟩])

def addPages (fb : Framebuffer) : List RedrawSpan → List Nat → Drawn (List RedrawSpan)
  | result, [] => .ok result
  | result, page :: rest => do
    let result ← fb.addPage result page
    fb.addPages result rest

/-- The rows to draw again after a snapshot of the dirty bitmap. -/
def takeRedrawSpans (fb : Framebuffer) (snapshot : List (BitVec 32)) : Drawn (List RedrawSpan) :=
  fb.addPages [] (pagesFrom 0 snapshot)

/-! ## The memory map -/

def base : Nat := 0x4100000

def resetRamSize : Nat := 0x10000

/-- The sizes of main memory that `PlatformBus::new` accepts. -/
def RamAccepted (ramSize : Nat) : Prop :=
  ramSize ≠ 0 ∧ ramSize % 4096 = 0 ∧ Machine.ramBase + ramSize ≤ 2 ^ 64 - 1

/-- RAM as it is registered. -/
def registerRam (addr size : Nat) : PhysMemoryRange where
  addr := addr
  size := size
  isRam := true
  isRom := false
  bytes := List.replicate size 0
  length_eq := fun _ => List.length_replicate

/-- The RAM of `PlatformBus::new`, in the order of its registration, with the devices
after it. -/
def memory (fb : Framebuffer) (ramSize : Nat) (devices : GuestMemory) : GuestMemory :=
  registerRam Machine.ramBase ramSize :: registerRam 0 resetRamSize ::
    registerRam base fb.size :: devices

/-- A memory with the same ranges, whatever it holds. -/
def SameRanges (memory memory' : GuestMemory) : Prop :=
  memory'.map (fun pr => (pr.addr, pr.size, pr.isRam, pr.isRom)) =
    memory.map fun pr => (pr.addr, pr.size, pr.isRam, pr.isRom)

def framebufferUpdate (fb : Framebuffer) (memory : GuestMemory) (span : RedrawSpan) :
    Drawn FramebufferUpdate := do
  let byteOffset ← Outcome.okOr (.error .invalidFramebuffer) (checkedU32 (span.y * fb.stride))
  let len ← Outcome.okOr (.error .invalidFramebuffer) (checkedU32 (span.height * fb.stride))
  let _ ← Outcome.okOr (.error .memory) (memory.readBytes (base + byteOffset) len)
  pure
    { x := 0, y := span.y, width := fb.width, height := span.height, stride := fb.stride }

end Framebuffer

end Virtio
end Riscbox
