import Riscbox.Devicetree.RoundTrip

/-!
# The device tree of the machine

`build` of `src/fdt.rs`: its calls on the builder, and the tree that they make.
-/

namespace Riscbox
namespace Devicetree

open StringTable (Name flat)

def utf8 (value : String) : List UInt8 := value.toUTF8.data.toList

structure FramebufferDescription where
  size : Nat
  width : Nat
  height : Nat
  stride : Nat
  deriving DecidableEq, Repr

structure FdtConfig where
  ramSize : Nat
  commandLine : List UInt8
  initrd : Option (Nat × Nat)
  virtioCount : Nat
  rngSeed : Option (List UInt8)
  framebuffer : Option FramebufferDescription
  deriving DecidableEq, Repr

def highU32 (value : Nat) : Nat := value / 2 ^ 32 % 2 ^ 32

def lowU32 (value : Nat) : Nat := value % 2 ^ 32

def cells (values : List Nat) : List UInt8 := values.flatMap bigEndian

/-- The two cells of a number of 64 bits. -/
def wide (value : Nat) : List UInt8 := cells [highU32 value, lowU32 value]

def terminated (value : String) : List UInt8 := utf8 value ++ [0]

abbrev Property : Type := Name × List UInt8

def propertyU32 (name : String) (value : Nat) : Property := (utf8 name, bigEndian value)

def propertyCells (name : String) (values : List Nat) : Property := (utf8 name, cells values)

def propertyU64Pair (name : String) (first second : Nat) : Property :=
  propertyCells name [highU32 first, lowU32 first, highU32 second, lowU32 second]

def propertyString (name value : String) : Property := (utf8 name, terminated value)

def propertyStrings (name : String) (values : List String) : Property :=
  (utf8 name, values.flatMap terminated)

def flag (name : String) : Property := (utf8 name, [])

namespace Call

def properties (items : List Property) : List Call := items.map fun item => .property item.1 item.2

/-- A node with its properties. -/
def opened (name : String) (items : List Property) : List Call :=
  .node (utf8 name) :: properties items

end Call

open Call (opened properties)

def isa : String :=
  "rv64imafdcb_zicbom_zicbop_zicboz_ziccamoa_ziccif_zicclsm_ziccrse_zicntr_zicond_zicsr_" ++
    "zifencei_zihintntl_zihintpause_zihpm_zimop_za64rs_zawrs_zcb_zcmop_zba_zbb_zbs_ssccptr_" ++
    "sscounterenw_sstc_sstvala_sstvecd_ssu64xl_svadu_svinval_svnapot_svpbmt"

def isaExtensions : List String :=
  ["i", "m", "a", "f", "d", "c", "b", "zicbom", "zicbop", "zicboz", "ziccamoa", "ziccif",
    "zicclsm", "ziccrse", "zicntr", "zicond", "zicsr", "zifencei", "zihintntl", "zihintpause",
    "zihpm", "zimop", "za64rs", "zawrs", "zcb", "zcmop", "zba", "zbb", "zbs", "ssccptr",
    "sscounterenw", "sstc", "sstvala", "sstvecd", "ssu64xl", "svadu", "svinval", "svnapot",
    "svpbmt"]

def cpusProperties : List Property :=
  [propertyU32 "#address-cells" 1, propertyU32 "#size-cells" 0,
    propertyU32 "timebase-frequency" 10000000]

def cpuProperties : List Property :=
  [propertyString "device_type" "cpu", propertyU32 "reg" 0, propertyString "status" "okay",
    propertyString "compatible" "riscv", propertyString "riscv,isa" isa,
    propertyString "riscv,isa-base" "rv64i", propertyStrings "riscv,isa-extensions" isaExtensions,
    propertyU32 "riscv,cbom-block-size" 64, propertyU32 "riscv,cbop-block-size" 64,
    propertyU32 "riscv,cboz-block-size" 64, propertyString "mmu-type" "riscv,sv39",
    propertyU32 "clock-frequency" 2000000000, propertyU32 "phandle" 1]

def cpuIntcProperties : List Property :=
  [propertyU32 "#interrupt-cells" 1, flag "interrupt-controller",
    propertyString "compatible" "riscv,cpu-intc", propertyU32 "phandle" 2]

def addCpuNodes : List Call :=
  opened "cpus" cpusProperties ++ opened "cpu@0" cpuProperties ++
    opened "interrupt-controller" cpuIntcProperties ++ [.endNode, .endNode] ++
    opened "cpu-map" [] ++ opened "cluster0" [] ++ opened "core0" [propertyU32 "cpu" 1] ++
    [.endNode, .endNode, .endNode, .endNode]

def mswiProperties : List Property :=
  [propertyString "compatible" "riscv,aclint-mswi", propertyCells "interrupts-extended" [2, 3],
    propertyU64Pair "reg" 0x2000000 0x4000]

def mtimerProperties : List Property :=
  [propertyString "compatible" "riscv,aclint-mtimer", propertyCells "interrupts-extended" [2, 7],
    propertyCells "reg" [0, 0x2004000, 0, 0x8000, 0, 0x200bff8, 0, 8],
    propertyStrings "reg-names" ["mtimecmp", "mtime"]]

def plicProperties : List Property :=
  [propertyU32 "#interrupt-cells" 1, flag "interrupt-controller",
    propertyStrings "compatible" ["sifive,plic-1.0.0", "riscv,plic0"],
    propertyU32 "riscv,ndev" 31, propertyU64Pair "reg" 0xc000000 0x4000000,
    propertyCells "interrupts-extended" [2, 11, 2, 9], propertyU32 "phandle" 4]

def interruptDeviceProperties (compatible : String) (address size irq : Nat) : List Property :=
  [propertyString "compatible" compatible, propertyU64Pair "reg" address size,
    propertyCells "interrupts-extended" [4, irq]]

def serialProperties : List Property :=
  [propertyString "compatible" "ns16550a", propertyU64Pair "reg" 0x10000000 0x100,
    propertyCells "interrupts-extended" [4, 10], propertyU32 "clock-frequency" 3686400]

def addInterruptDevices : List Call :=
  opened "mswi@2000000" mswiProperties ++ [.endNode] ++
    opened "mtimer@2004000" mtimerProperties ++ [.endNode] ++
    opened "interrupt-controller@c000000" plicProperties ++ [.endNode] ++
    opened "rtc@101000" (interruptDeviceProperties "google,goldfish-rtc" 0x101000 0x1000 11) ++
    [.endNode] ++ opened "serial@10000000" serialProperties ++ [.endNode]

def hexDigit (n : Nat) : UInt8 := UInt8.ofNat (if n < 10 then 48 + n else 87 + n)

/-- `{:x}`. -/
def lowerHex (n : Nat) : List UInt8 :=
  if n < 16 then [hexDigit n] else lowerHex (n / 16) ++ [hexDigit (n % 16)]
termination_by n

def virtioIrq (index : Nat) : Nat := if 1 + index ≥ 10 then 1 + index + 2 else 1 + index

def virtioAddress (index : Nat) : Nat := 0x10001000 + index * 0x1000

def virtioName (index : Nat) : Name := utf8 "virtio@" ++ lowerHex (virtioAddress index)

def virtioProperties (index : Nat) : List Property :=
  [propertyString "compatible" "virtio,mmio",
    propertyU64Pair "reg" (virtioAddress index) 0x1000,
    propertyCells "interrupts-extended" [4, virtioIrq index]]

def virtioCalls (index : Nat) : List Call :=
  .node (virtioName index) :: properties (virtioProperties index) ++ [.endNode]

def framebufferProperties (framebuffer : FramebufferDescription) : List Property :=
  [propertyString "compatible" "simple-framebuffer",
    propertyU64Pair "reg" 0x4100000 framebuffer.size, propertyU32 "width" framebuffer.width,
    propertyU32 "height" framebuffer.height, propertyU32 "stride" framebuffer.stride,
    propertyString "format" "a8r8g8b8"]

def framebufferCalls (framebuffer : FramebufferDescription) : List Call :=
  opened "framebuffer@4100000" (framebufferProperties framebuffer) ++ [.endNode]

def addOptionalDevices (virtioCount : Nat) (framebuffer : Option FramebufferDescription) :
    List Call :=
  (List.range virtioCount).flatMap virtioCalls ++ framebuffer.elim [] framebufferCalls

def rootProperties : List Property :=
  [propertyU32 "#address-cells" 2, propertyU32 "#size-cells" 2,
    propertyString "compatible" "riscv-virtio", propertyString "model" "riscbox"]

def memoryProperties (ramSize : Nat) : List Property :=
  [propertyString "device_type" "memory", propertyU64Pair "reg" 0x80000000 ramSize]

def socProperties : List Property :=
  [propertyU32 "#address-cells" 2, propertyU32 "#size-cells" 2,
    propertyString "compatible" "simple-bus", flag "ranges"]

/-- The properties that `node` writes. -/
def nodeProperties (compatible : List String) (address size : Nat) : List Property :=
  [propertyStrings "compatible" compatible, propertyU64Pair "reg" address size]

def sysconProperties : List Property :=
  nodeProperties ["sifive,test1", "sifive,test0", "syscon"] 0x100000 0x1000 ++
    [propertyU32 "phandle" 3]

def sysconUser (compatible : String) (value : Nat) : List Property :=
  [propertyString "compatible" compatible, propertyU32 "regmap" 3, propertyU32 "offset" 0,
    propertyU32 "value" value]

/-- `saturating_add` of `u64`. -/
def saturatingAdd (a b : Nat) : Nat := min (a + b) (2 ^ 64 - 1)

def initrdProperties (initrd : Nat × Nat) : List Property :=
  [(utf8 "linux,initrd-start", wide initrd.1),
    (utf8 "linux,initrd-end", wide (saturatingAdd initrd.1 initrd.2))]

def chosenProperties (config : FdtConfig) : List Property :=
  [(utf8 "bootargs", config.commandLine ++ [0]),
      propertyString "stdout-path" "/soc/serial@10000000"] ++
    config.initrd.elim [] initrdProperties ++
    config.rngSeed.elim [] fun seed => [(utf8 "rng-seed", seed)]

/-- The calls of `build`. -/
def buildCalls (config : FdtConfig) : List Call :=
  opened "" rootProperties ++ addCpuNodes ++
    opened "memory@80000000" (memoryProperties config.ramSize) ++ [.endNode] ++
    opened "soc" socProperties ++ opened "syscon@100000" sysconProperties ++ [.endNode] ++
    addInterruptDevices ++ addOptionalDevices config.virtioCount config.framebuffer ++
    [.endNode] ++
    opened "poweroff" (sysconUser "syscon-poweroff" 0x5555) ++ [.endNode] ++
    opened "reboot" (sysconUser "syscon-reboot" 0x7777) ++ [.endNode] ++
    opened "chosen" (chosenProperties config) ++ [.endNode] ++ [.endNode]

def build (config : FdtConfig) : Built (List UInt8) := Call.blob (buildCalls config)

/-! ## The tree that the calls make -/

namespace Items

/-- Properties in front of the items. -/
def withProperties (properties : List Property) (rest : Items Name) : Items Name :=
  properties.foldr (fun item rest => .property item.1 item.2 rest) rest

/-- A subnode of properties in front of the items. -/
def leaf (name : String) (properties : List Property) (rest : Items Name) : Items Name :=
  .node (utf8 name) (withProperties properties .nil) rest

theorem calls_withProperties (properties : List Property) (rest : Items Name) :
    (withProperties properties rest).calls = Call.properties properties ++ rest.calls := by
  induction properties with
  | nil => rfl
  | cons item properties ih =>
    show Call.property item.1 item.2 :: (withProperties properties rest).calls = _
    rw [ih]
    rfl

theorem calls_leaf (name : String) (properties : List Property) (rest : Items Name) :
    (leaf name properties rest).calls =
      opened name properties ++ .endNode :: rest.calls := by
  rw [leaf, calls, calls_withProperties]
  simp [opened, calls]

/-- The slots in front of the items. -/
def withVirtio (indices : List Nat) (rest : Items Name) : Items Name :=
  indices.foldr
    (fun index rest =>
      .node (virtioName index) (withProperties (virtioProperties index) .nil) rest) rest

theorem calls_withVirtio (indices : List Nat) (rest : Items Name) :
    (withVirtio indices rest).calls = indices.flatMap virtioCalls ++ rest.calls := by
  induction indices with
  | nil => rfl
  | cons index indices ih =>
    show (Items.node _ _ (withVirtio indices rest)).calls = _
    rw [calls, calls_withProperties, ih]
    simp [virtioCalls, calls]

end Items

open Items (leaf withProperties withVirtio)

def cpusItems : Items Name :=
  withProperties cpusProperties
    (.node (utf8 "cpu@0")
      (withProperties cpuProperties (leaf "interrupt-controller" cpuIntcProperties .nil))
      (.node (utf8 "cpu-map")
        (.node (utf8 "cluster0") (leaf "core0" [propertyU32 "cpu" 1] .nil) .nil) .nil))

def socItems (config : FdtConfig) : Items Name :=
  withProperties socProperties
    (leaf "syscon@100000" sysconProperties
      (leaf "mswi@2000000" mswiProperties
        (leaf "mtimer@2004000" mtimerProperties
          (leaf "interrupt-controller@c000000" plicProperties
            (leaf "rtc@101000" (interruptDeviceProperties "google,goldfish-rtc" 0x101000 0x1000 11)
              (leaf "serial@10000000" serialProperties
                (withVirtio (List.range config.virtioCount)
                  (config.framebuffer.elim .nil fun framebuffer =>
                    leaf "framebuffer@4100000" (framebufferProperties framebuffer) .nil))))))))

def buildTree (config : FdtConfig) : Node Name where
  name := utf8 ""
  items :=
    withProperties rootProperties
      (.node (utf8 "cpus") cpusItems
        (leaf "memory@80000000" (memoryProperties config.ramSize)
          (.node (utf8 "soc") (socItems config)
            (leaf "poweroff" (sysconUser "syscon-poweroff" 0x5555)
              (leaf "reboot" (sysconUser "syscon-reboot" 0x7777)
                (leaf "chosen" (chosenProperties config) .nil))))))

theorem cpusItems_calls (rest : List Call) :
    Call.node (utf8 "cpus") :: (cpusItems.calls ++ .endNode :: rest) = addCpuNodes ++ rest := by
  unfold cpusItems addCpuNodes
  simp only [Items.calls_withProperties, Items.calls, Items.calls_leaf, opened, List.append_assoc,
    List.cons_append, List.nil_append]
  rfl

theorem socItems_calls (config : FdtConfig) (rest : List Call) :
    Call.node (utf8 "soc") :: ((socItems config).calls ++ rest) =
      opened "soc" socProperties ++ opened "syscon@100000" sysconProperties ++ [.endNode] ++
        addInterruptDevices ++ addOptionalDevices config.virtioCount config.framebuffer ++
        rest := by
  have hframebuffer : (config.framebuffer.elim Items.nil fun framebuffer =>
      leaf "framebuffer@4100000" (framebufferProperties framebuffer) .nil).calls =
      config.framebuffer.elim [] framebufferCalls := by
    cases config.framebuffer with
    | none => rfl
    | some framebuffer =>
      show (leaf _ _ _).calls = framebufferCalls framebuffer
      rw [Items.calls_leaf]
      rfl
  unfold socItems addInterruptDevices addOptionalDevices
  simp only [Items.calls_withProperties, Items.calls_leaf, Items.calls_withVirtio, hframebuffer,
    opened, List.append_assoc, List.cons_append, List.nil_append]

theorem buildTree_calls (config : FdtConfig) : (buildTree config).calls = buildCalls config := by
  unfold buildTree buildCalls Node.calls
  simp only [Items.calls_withProperties, Items.calls, Items.calls_leaf, List.append_assoc,
    List.cons_append, List.nil_append]
  rw [cpusItems_calls, socItems_calls]
  simp only [opened, List.append_assoc, List.cons_append, List.nil_append]

/-! ## Names -/

theorem hexDigit_ne_zero {n : Nat} (h : n < 16) : hexDigit n ≠ 0 := by
  have hall : ∀ m < 16, hexDigit m ≠ 0 := by decide
  exact hall n h

theorem lowerHex_terminated (n : Nat) : (0 : UInt8) ∉ lowerHex n := by
  induction n using lowerHex.induct with
  | case1 n h =>
    rw [lowerHex, if_pos h, List.mem_singleton]
    exact (hexDigit_ne_zero h).symm
  | case2 n h ih =>
    rw [lowerHex, if_neg h, List.mem_append, List.mem_singleton]
    rintro (hmem | hzero)
    · exact ih hmem
    · exact hexDigit_ne_zero (Nat.mod_lt _ (by decide)) hzero.symm

theorem virtioName_terminated (index : Nat) : (0 : UInt8) ∉ virtioName index := by
  rw [virtioName, List.mem_append]
  rintro (hmem | hmem)
  · exact absurd hmem (by decide)
  · exact lowerHex_terminated _ hmem

/-- The names of some properties are terminated. -/
def Terminated (items : List Property) : Prop := ∀ item ∈ items, (0 : UInt8) ∉ item.1

instance (items : List Property) : Decidable (Terminated items) :=
  inferInstanceAs (Decidable (∀ item ∈ items, (0 : UInt8) ∉ item.1))

theorem terminated_of_names {items : List Property}
    (h : ∀ name ∈ items.map Prod.fst, (0 : UInt8) ∉ name) : Terminated items :=
  fun item hitem => h item.1 (List.mem_map_of_mem hitem)

theorem named_properties {items : List Property} (h : Terminated items) :
    ∀ call ∈ properties items, call.Named := by
  intro call hcall
  obtain ⟨item, hitem, rfl⟩ := List.mem_map.mp hcall
  exact h item hitem

theorem named_opened {name : String} {items : List Property} (hname : (0 : UInt8) ∉ utf8 name)
    (h : Terminated items) : ∀ call ∈ opened name items, call.Named := by
  intro call hcall
  rcases List.mem_cons.mp hcall with rfl | hcall
  · exact hname
  · exact named_properties h call hcall

theorem named_append {calls more : List Call} (h : ∀ call ∈ calls, call.Named)
    (hmore : ∀ call ∈ more, call.Named) : ∀ call ∈ calls ++ more, call.Named := by
  intro call hcall
  rcases List.mem_append.mp hcall with hcall | hcall
  · exact h call hcall
  · exact hmore call hcall

theorem named_endNode : ∀ call ∈ [Call.endNode], call.Named := by
  intro call hcall
  rw [List.mem_singleton.mp hcall]
  trivial

instance : DecidablePred Call.Named
  | .node name => inferInstanceAs (Decidable ((0 : UInt8) ∉ name))
  | .endNode => isTrue trivial
  | .property name _ => inferInstanceAs (Decidable ((0 : UInt8) ∉ name))

theorem named_addCpuNodes : ∀ call ∈ addCpuNodes, call.Named := by decide +kernel

theorem named_addInterruptDevices : ∀ call ∈ addInterruptDevices, call.Named := by
  decide +kernel

theorem named_addOptionalDevices (virtioCount : Nat)
    (framebuffer : Option FramebufferDescription) :
    ∀ call ∈ addOptionalDevices virtioCount framebuffer, call.Named := by
  apply named_append
  · intro call hcall
    obtain ⟨index, -, hcall⟩ := List.mem_flatMap.mp hcall
    rcases List.mem_append.mp hcall with hcall | hcall
    · rcases List.mem_cons.mp hcall with rfl | hcall
      · exact virtioName_terminated index
      · have hnames : Terminated (virtioProperties index) :=
          terminated_of_names (show ∀ name ∈ [utf8 "compatible", utf8 "reg",
            utf8 "interrupts-extended"], (0 : UInt8) ∉ name by decide)
        exact named_properties hnames call hcall
    · exact named_endNode call hcall
  · cases framebuffer with
    | none => exact fun call hcall => absurd hcall List.not_mem_nil
    | some framebuffer =>
      have hnames : Terminated (framebufferProperties framebuffer) :=
        terminated_of_names (show ∀ name ∈ [utf8 "compatible", utf8 "reg", utf8 "width",
          utf8 "height", utf8 "stride", utf8 "format"], (0 : UInt8) ∉ name by decide)
      exact named_append (named_opened (by decide) hnames) named_endNode

theorem terminated_chosenProperties (config : FdtConfig) :
    Terminated (chosenProperties config) := by
  have hnames : ∀ name ∈ [utf8 "bootargs", utf8 "stdout-path", utf8 "linux,initrd-start",
      utf8 "linux,initrd-end", utf8 "rng-seed"], (0 : UInt8) ∉ name := by decide
  apply terminated_of_names
  intro name hname
  apply hnames name
  unfold chosenProperties at hname
  cases hinitrd : config.initrd <;> cases hseed : config.rngSeed <;>
    simp only [hinitrd, hseed, initrdProperties, propertyString, Option.elim, List.map_cons, List.map_nil, List.append_nil, List.cons_append, List.nil_append] at hname <;>
    simp only [List.mem_cons, List.not_mem_nil, or_false] at hname ⊢ <;> grind

/-- The calls of `build` name their nodes and properties by terminated strings. -/
theorem named_buildCalls (config : FdtConfig) : ∀ call ∈ buildCalls config, call.Named := by
  have hroot : ∀ call ∈ opened "" rootProperties, call.Named := by decide +kernel
  have hmemory : Terminated (memoryProperties config.ramSize) :=
    terminated_of_names (show ∀ name ∈ [utf8 "device_type", utf8 "reg"], (0 : UInt8) ∉ name by
      decide)
  have hsoc : ∀ call ∈ opened "soc" socProperties, call.Named := by decide +kernel
  have hsyscon : ∀ call ∈ opened "syscon@100000" sysconProperties, call.Named := by
    decide +kernel
  have hpoweroff : ∀ call ∈ opened "poweroff" (sysconUser "syscon-poweroff" 0x5555),
      call.Named := by decide +kernel
  have hreboot : ∀ call ∈ opened "reboot" (sysconUser "syscon-reboot" 0x7777), call.Named := by
    decide +kernel
  have hchosen : ∀ call ∈ opened "chosen" (chosenProperties config), call.Named :=
    named_opened (by decide) (terminated_chosenProperties config)
  have hmemoryNode : ∀ call ∈ opened "memory@80000000" (memoryProperties config.ramSize),
      call.Named := named_opened (by decide) hmemory
  have hend := named_endNode
  have hfront := named_append (named_append hroot named_addCpuNodes)
    (named_append hmemoryNode hend)
  have hmiddle := named_append (named_append hsoc (named_append hsyscon hend))
    (named_append named_addInterruptDevices
      (named_append (named_addOptionalDevices config.virtioCount config.framebuffer) hend))
  have hback := named_append (named_append hpoweroff hend) (named_append (named_append hreboot hend)
    (named_append (named_append hchosen hend) hend))
  have hall := named_append hfront (named_append hmiddle hback)
  unfold buildCalls
  simp only [List.append_assoc] at hall ⊢
  exact hall

/-- The blob of `build` is the one of the tree, which reads back. -/
theorem build_read {config : FdtConfig} (hsize : Call.totalSize (buildCalls config) < 2 ^ 32) :
    build config = .ok (buildTree config).blob ∧
      (buildTree config).blob.length = Call.totalSize (buildCalls config) ∧
      read (buildTree config).blob = some (buildTree config) := by
  have hnamed := named_buildCalls config
  rw [← buildTree_calls] at hnamed hsize
  refine ⟨?_, ?_, (Node.read_blob hnamed hsize).2⟩
  · rw [build, ← buildTree_calls]
    exact Node.blob_calls hnamed hsize
  · rw [Node.length_blob, buildTree_calls]

/-! ## The range of the initrd -/

namespace Items

/-- The first property of a name. -/
def property? (wanted : Name) : Items Name → Option (List UInt8)
  | .nil => none
  | .property name value rest => if name = wanted then some value else rest.property? wanted
  | .node _ _ rest => rest.property? wanted

/-- The items of the first subnode of a name. -/
def child? (wanted : Name) : Items Name → Option (Items Name)
  | .nil => none
  | .property _ _ rest => rest.child? wanted
  | .node name children rest => if name = wanted then some children else rest.child? wanted

theorem child?_withProperties (wanted : Name) (properties : List Property) (rest : Items Name) :
    (withProperties properties rest).child? wanted = rest.child? wanted := by
  induction properties with
  | nil => rfl
  | cons item properties ih => exact ih

theorem child?_skip {name wanted : Name} (h : name ≠ wanted) (children rest : Items Name) :
    (Items.node name children rest).child? wanted = rest.child? wanted := if_neg h

theorem child?_self (name : Name) (children rest : Items Name) :
    (Items.node name children rest).child? name = some children := if_pos rfl

end Items

/-- A property of `/chosen`. -/
def Node.chosen (root : Node Name) (name : String) : Option (List UInt8) :=
  (root.items.child? (utf8 "chosen")).bind (Items.property? (utf8 name))

theorem child?_chosen (config : FdtConfig) :
    (buildTree config).items.child? (utf8 "chosen") =
      some (withProperties (chosenProperties config) .nil) := by
  show (withProperties rootProperties _).child? (utf8 "chosen") = _
  rw [Items.child?_withProperties, Items.child?_skip (by decide), leaf,
    Items.child?_skip (by decide), Items.child?_skip (by decide), leaf,
    Items.child?_skip (by decide), leaf, Items.child?_skip (by decide), leaf,
    Items.child?_self]

/-- The tree names the range of the initrd, or none. -/
theorem chosen_initrd (config : FdtConfig) :
    (buildTree config).chosen "linux,initrd-start" =
        config.initrd.map (fun range => wide range.1) ∧
      (buildTree config).chosen "linux,initrd-end" =
        config.initrd.map fun range => wide (saturatingAdd range.1 range.2) := by
  unfold Node.chosen
  rw [child?_chosen]
  cases hinitrd : config.initrd <;> cases hseed : config.rngSeed <;>
    simp only [chosenProperties, hinitrd, hseed] <;> exact ⟨rfl, rfl⟩

end Devicetree
end Riscbox
