import Riscbox.Devicetree.Builder
import Riscbox.Devicetree.Reading

/-!
# The builder and the reader

What a builder makes of a sequence of calls is the encoding of a tree with its string
table, and reads back as that tree.
-/

namespace Riscbox
namespace Devicetree

open StringTable (Name entryAt flat add offset)

/-! ## The calls of one root are a tree -/

namespace Call

theorem closes_items (length : Nat) :
    ∀ (depth : Nat) (calls : List Call), calls.length ≤ length → Closes (depth + 1) calls →
      ∃ (items : Items Name) (rest : List Call),
        calls = items.calls ++ .endNode :: rest ∧ Closes depth rest := by
  induction length with
  | zero =>
    intro depth calls hlength hcloses
    rw [List.length_eq_zero_iff.mp (Nat.le_zero.mp hlength)] at hcloses
    exact hcloses.elim
  | succ length ih =>
    intro depth calls hlength hcloses
    cases calls with
    | nil => exact hcloses.elim
    | cons first more =>
      rw [List.length_cons] at hlength
      cases first with
      | endNode => exact ⟨.nil, more, rfl, hcloses⟩
      | property name value =>
        obtain ⟨items, rest, hmore, hrest⟩ := ih depth more (by omega) hcloses
        exact ⟨.property name value items, rest, by rw [hmore, Items.calls, List.cons_append],
          hrest⟩
      | node name =>
        obtain ⟨children, after, hmore, hafter⟩ := ih (depth + 1) more (by omega) hcloses
        have hshort : after.length ≤ length := by
          rw [hmore, List.length_append, List.length_cons] at hlength
          omega
        obtain ⟨items, rest, hitems, hrest⟩ := ih depth after hshort hafter
        refine ⟨.node name children items, rest, ?_, hrest⟩
        rw [hmore, hitems, Items.calls, List.cons_append, List.append_assoc, List.cons_append]

theorem rooted_tree {calls : List Call} (h : Rooted calls) :
    ∃ root : Node Name, root.calls = calls := by
  cases calls with
  | nil => exact h.elim
  | cons first more =>
    cases first with
    | endNode | property => exact h.elim
    | node name =>
      obtain ⟨items, rest, hmore, hrest⟩ := closes_items more.length 0 more (Nat.le_refl _) h
      unfold Closes at hrest
      exact ⟨⟨name, items⟩, by rw [Node.calls, hmore, hrest]⟩

end Call

/-! ## What is written for a tree -/

namespace Items

variable {ν μ : Type}

/-- The bytes of the items in the structure block. -/
def size : Items ν → Nat
  | nil => 0
  | property _ value rest => 12 + (padded value).length + rest.size
  | node name children rest =>
    4 + (padded (name ++ [0])).length + children.size + 4 + rest.size

theorem length_encode (items : Items Nat) : items.encode.length = items.size := by
  induction items with
  | nil => rfl
  | property offset value rest ih =>
    simp only [encode, size, List.length_append, length_bigEndian, ih]
  | node name children rest ihChildren ihRest =>
    simp only [encode, size, List.length_append, length_bigEndian, ihChildren, ihRest]

theorem size_map (f : ν → μ) (items : Items ν) : (items.map f).size = items.size := by
  induction items with
  | nil => rfl
  | property name value rest ih => rw [map, size, size, ih]
  | node name children rest ihChildren ihRest => rw [map, size, size, ihChildren, ihRest]

theorem size_mod (items : Items ν) : items.size % 4 = 0 := by
  induction items with
  | nil => rfl
  | property name value rest ih =>
    have hpadded := add_padding_mod value.length
    rw [size, length_padded]
    omega
  | node name children rest ihChildren ihRest =>
    have hpadded := add_padding_mod (name ++ [0]).length
    rw [size, length_padded]
    omega

theorem calls_size (items : Items Name) : (items.calls.map Call.size).sum = items.size := by
  induction items with
  | nil => rfl
  | property name value rest ih =>
    rw [calls, List.map_cons, List.sum_cons, ih]
    rfl
  | node name children rest ihChildren ihRest =>
    rw [calls, List.map_cons, List.sum_cons, List.map_append, List.sum_append, List.map_cons,
      List.sum_cons, ihChildren, ihRest]
    show 4 + (padded (name ++ [0])).length + (children.size + (4 + rest.size)) = _
    rw [size]
    omega

theorem calls_names (items : Items Name) :
    items.calls.filterMap Call.propertyName = items.names := by
  induction items with
  | nil => rfl
  | property name value rest ih => rw [calls, List.filterMap_cons, ih]; rfl
  | node name children rest ihChildren ihRest =>
    rw [calls, List.filterMap_cons, List.filterMap_append, List.filterMap_cons, ihChildren,
      ihRest]
    rfl

/-- The items are encodable with any offsets that fit. -/
theorem encodable_map {items : Items Name} {f : Name → Nat} (hf : ∀ name, f name < 2 ^ 32)
    (hsize : items.size < 2 ^ 32) (hnamed : ∀ call ∈ items.calls, call.Named) :
    (items.map f).Encodable := by
  induction items with
  | nil => trivial
  | property name value rest ih =>
    rw [size, length_padded] at hsize
    exact ⟨hf name, by omega,
      ih (by omega) fun call hcall => hnamed call (List.mem_cons_of_mem _ hcall)⟩
  | node name children rest ihChildren ihRest =>
    rw [size, length_padded] at hsize
    rw [calls] at hnamed
    refine ⟨hnamed (.node name) List.mem_cons_self, ihChildren (by omega) ?_, ihRest (by omega) ?_⟩
    · intro call hcall
      exact hnamed call (List.mem_cons_of_mem _ (List.mem_append_left _ hcall))
    · intro call hcall
      exact hnamed call
        (List.mem_cons_of_mem _ (List.mem_append_right _ (List.mem_cons_of_mem _ hcall)))

end Items

/-! ## The string table of the builder -/

section Strings

variable {names : List Name} {name : Name}

/-- The table after some names. -/
def added (names more : List Name) : List Name := more.foldl add names

theorem prefix_added (names more : List Name) : names <+: added names more := by
  induction more generalizing names with
  | nil => exact List.prefix_rfl
  | cons first rest ih => exact (StringTable.prefix_add names first).trans (ih (add names first))

theorem mem_added (names more : List Name) :
    name ∈ added names more ↔ name ∈ names ∨ name ∈ more := by
  induction more generalizing names with
  | nil => simp [added]
  | cons first rest ih =>
    show name ∈ added (add names first) rest ↔ _
    rw [ih (add names first), StringTable.mem_add, List.mem_cons, or_assoc]

theorem nodup_added (h : names.Nodup) (more : List Name) : (added names more).Nodup := by
  induction more generalizing names with
  | nil => exact h
  | cons first rest ih => exact ih (StringTable.nodup_add h)

/-- From the end of some entries the loop finds a name where the table has it. -/
theorem scan_flat (before names : List Name) (hnames : ∀ other ∈ names, (0 : UInt8) ∉ other) :
    Builder.scan (flat (before ++ names)) name (flat before).length =
      if name ∈ names then some ((flat before).length + offset names name) else none := by
  induction names generalizing before with
  | nil =>
    have hend : ¬(flat before).length < (flat (before ++ [])).length := by
      rw [List.append_nil]
      omega
    rw [Builder.scan, if_neg hend]
    rfl
  | cons first rest ih =>
    have hinside : (flat before).length < (flat (before ++ first :: rest)).length := by
      simp only [StringTable.flat_append, StringTable.flat_cons, List.length_append,
        List.length_cons]
      omega
    have hentry : entryAt (flat (before ++ first :: rest)) (flat before).length = first := by
      rw [entryAt, StringTable.flat_append, List.drop_left, StringTable.flat_cons]
      exact StringTable.takeWhile_terminated (hnames first List.mem_cons_self) _
    have hnext : (flat before).length + first.length + 1 = (flat (before ++ [first])).length := by
      simp only [StringTable.flat_append, StringTable.flat_cons, StringTable.flat_nil,
        List.length_append, List.length_cons, List.length_nil]
      omega
    have hsplit : before ++ first :: rest = before ++ [first] ++ rest := by simp
    rw [Builder.scan, if_pos hinside, hentry]
    by_cases hfirst : first = name
    · rw [if_pos hfirst, hfirst, if_pos List.mem_cons_self, offset, if_pos rfl, Nat.add_zero]
    · have hmem : name ∈ first :: rest ↔ name ∈ rest := by
        rw [List.mem_cons]
        exact or_iff_right (Ne.symm hfirst)
      rw [if_neg hfirst, hnext, hsplit,
        ih (before ++ [first]) fun other hother => hnames other (List.mem_cons_of_mem _ hother),
        ← hnext, offset, if_neg hfirst]
      by_cases hrest : name ∈ rest
      · rw [if_pos hrest, if_pos (hmem.mpr hrest)]
        congr 1
        omega
      · rw [if_neg hrest, if_neg fun h => hrest (hmem.mp h)]

theorem toU32_ok {n : Nat} (h : n < 2 ^ 32) : toU32 n = .ok n := if_pos h

/-- The builder finds the name or appends it. -/
theorem stringOffset_eq (b : Builder) (hb : b.strings = flat names)
    (hnames : ∀ other ∈ names, (0 : UInt8) ∉ other)
    (hsize : (flat (add names name)).length < 2 ^ 32) :
    b.stringOffset name =
      .ok (offset (add names name) name, { b with strings := flat (add names name) }) := by
  have hscan : Builder.scan (flat ([] ++ names)) name 0 =
      if name ∈ names then some (0 + offset names name) else none := scan_flat [] names hnames
  rw [List.nil_append] at hscan
  have hoffset : offset (add names name) name < 2 ^ 32 :=
    Nat.lt_of_le_of_lt (StringTable.offset_le _ _) hsize
  rw [StringTable.offset_add] at hoffset ⊢
  unfold Builder.stringOffset
  by_cases hmem : name ∈ names
  · rw [if_pos hmem] at hscan
    have hfound : Builder.scan b.strings name 0 = some (offset names name) := by
      rw [hb, ← Nat.zero_add (offset names name)]
      exact hscan
    rw [hfound]
    dsimp only
    rw [toU32_ok hoffset, Outcome.ok_bind, StringTable.add_of_mem hmem, ← hb]
    rfl
  · rw [if_neg hmem] at hscan
    have hmissing : Builder.scan b.strings name 0 = none := by
      rw [hb]
      exact hscan
    rw [hmissing]
    dsimp only
    rw [StringTable.offset_of_not_mem hmem] at hoffset ⊢
    rw [hb, toU32_ok hoffset, Outcome.ok_bind, StringTable.add_of_not_mem hmem]
    simp

end Strings

/-! ## A run of the builder -/

section Run

variable {names final : List Name}

/-- The data of a block that is aligned. -/
theorem Builder.data_aligned {b : Builder} (hb : b.block.length % 4 = 0) (value : List UInt8) :
    b.data value = { b with block := b.block ++ padded value } := by
  have hpadding : padding (b.block ++ value).length = padding value.length := by
    rw [List.length_append]
    unfold padding
    omega
  unfold Builder.data padded
  dsimp only
  rw [hpadding, List.append_assoc]

theorem Builder.node_eq {b : Builder} (hb : b.block.length % 4 = 0) (name : Name) :
    b.node name =
      { b with
        block := b.block ++ (bigEndian beginNode ++ padded (name ++ [0])), depth := b.depth + 1 } := by
  have hword : (b.word beginNode).block.length % 4 = 0 := by
    show (b.block ++ bigEndian beginNode).length % 4 = 0
    rw [List.length_append, length_bigEndian]
    omega
  unfold Builder.node
  rw [Builder.data_aligned hword]
  show Builder.mk _ _ _ = _
  rw [← List.append_assoc]
  rfl

theorem Builder.property_eq {b : Builder} {name : Name} {value : List UInt8}
    (hb : b.block.length % 4 = 0) (hstrings : b.strings = flat names)
    (hnames : ∀ other ∈ names, (0 : UInt8) ∉ other)
    (hsize : (flat (add names name)).length < 2 ^ 32) (hvalue : value.length < 2 ^ 32) :
    b.property name value =
      .ok
        { b with
          block := b.block ++ (bigEndian prop ++ bigEndian value.length ++
            bigEndian (offset (add names name) name) ++ padded value)
          strings := flat (add names name) } := by
  have hwords : (((b.block ++ bigEndian prop) ++ bigEndian value.length) ++
      bigEndian (offset (add names name) name)).length % 4 = 0 := by
    simp only [List.length_append, length_bigEndian]
    omega
  unfold Builder.property
  rw [stringOffset_eq b hstrings hnames hsize, Outcome.ok_bind]
  dsimp only
  rw [toU32_ok hvalue, Outcome.ok_bind, Outcome.pure_eq, Builder.data_aligned hwords]
  show Outcome.ok (Builder.mk _ _ _) = _
  simp only [Builder.word, List.append_assoc]

theorem flat_length_le (h : names <+: final) : (flat names).length ≤ (flat final).length := by
  obtain ⟨rest, rfl⟩ := h
  rw [StringTable.flat_append, List.length_append]
  exact Nat.le_add_right _ _

theorem named_names {items : Items Name} {name : Name}
    (hnamed : ∀ call ∈ items.calls, call.Named) (hname : name ∈ items.names) :
    (0 : UInt8) ∉ name := by
  rw [← Items.calls_names] at hname
  obtain ⟨call, hcall, hequal⟩ := List.mem_filterMap.mp hname
  have hterminated := hnamed call hcall
  cases call with
  | node | endNode => cases hequal
  | property other value =>
    cases hequal
    exact hterminated

/-- The calls of the items write their encoding and add their names.  `final` is any later
table: the offsets do not change when it grows. -/
theorem applyAll_items (items : Items Name) :
    ∀ (b : Builder) (names : List Name) (more : List Call),
      b.block.length % 4 = 0 → b.strings = flat names → (∀ other ∈ names, (0 : UInt8) ∉ other) →
      (∀ call ∈ items.calls, call.Named) → added names items.names <+: final →
      (flat final).length < 2 ^ 32 → items.size < 2 ^ 32 →
      Call.applyAll (items.calls ++ more) b =
        Call.applyAll more
          { b with
            block := b.block ++ (items.map (offset final)).encode
            strings := flat (added names items.names) } := by
  induction items with
  | nil =>
    intro b names more _ hstrings _ _ _ _ _
    show Call.applyAll more b = Call.applyAll more _
    rw [Items.map, Items.encode, List.append_nil, Items.names]
    show _ = Call.applyAll more { b with block := b.block, strings := flat names }
    rw [← hstrings]
  | property name value rest ih =>
    intro b names more hb hstrings hnames hnamed hfinal hflat hsize
    have hname : (0 : UInt8) ∉ name := hnamed (.property name value) List.mem_cons_self
    have hadd : add names name <+: final :=
      (prefix_added (add names name) rest.names).trans hfinal
    have hnames' : ∀ other ∈ add names name, (0 : UInt8) ∉ other := by
      intro other hother
      rcases StringTable.mem_add.mp hother with hmem | rfl
      · exact hnames other hmem
      · exact hname
    have hoffset : offset (add names name) name = offset final name :=
      (StringTable.offset_of_prefix hadd (StringTable.mem_add.mpr (.inr rfl))).symm
    rw [Items.size, length_padded] at hsize
    have hvalue : value.length < 2 ^ 32 := by omega
    have hstep := Builder.property_eq hb hstrings hnames
      (Nat.lt_of_le_of_lt (flat_length_le hadd) hflat) hvalue
    rw [hoffset] at hstep
    show (b.property name value >>= fun b => Call.applyAll (rest.calls ++ more) b) = _
    rw [hstep, Outcome.ok_bind]
    rw [ih _ (add names name) more ?_ rfl hnames'
      (fun call hcall => hnamed call (List.mem_cons_of_mem _ hcall)) hfinal hflat (by omega)]
    · rw [Items.map, Items.encode]
      dsimp only
      rw [List.append_assoc]
      rfl
    · have hpadding := add_padding_mod value.length
      simp only [List.length_append, length_bigEndian, length_padded]
      omega
  | node name children rest ihChildren ihRest =>
    intro b names more hb hstrings hnames hnamed hfinal hflat hsize
    rw [Items.calls] at hnamed
    rw [Items.names] at hfinal
    have hsplit : added names (children.names ++ rest.names) =
        added (added names children.names) rest.names := List.foldl_append
    rw [hsplit] at hfinal
    have hchildren : ∀ call ∈ children.calls, call.Named := fun call hcall =>
      hnamed call (List.mem_cons_of_mem _ (List.mem_append_left _ hcall))
    have hrest : ∀ call ∈ rest.calls, call.Named := fun call hcall =>
      hnamed call
        (List.mem_cons_of_mem _ (List.mem_append_right _ (List.mem_cons_of_mem _ hcall)))
    have hnames' : ∀ other ∈ added names children.names, (0 : UInt8) ∉ other := by
      intro other hother
      rcases (mem_added names children.names).mp hother with hmem | hmem
      · exact hnames other hmem
      · exact named_names hchildren hmem
    have hopened : (b.block ++ (bigEndian beginNode ++ padded (name ++ [0]))).length % 4 = 0 := by
      have hpadding := add_padding_mod (name ++ [0]).length
      simp only [List.length_append, length_bigEndian, length_padded] at hpadding ⊢
      omega
    rw [Items.size, length_padded] at hsize
    have hcalls : (Items.node name children rest).calls ++ more =
        .node name :: (children.calls ++ .endNode :: (rest.calls ++ more)) := by
      rw [Items.calls, List.cons_append, List.append_assoc, List.cons_append]
    rw [hcalls]
    show Call.applyAll (children.calls ++ _) (b.node name) = _
    have hinner := ihChildren
      { b with
        block := b.block ++ (bigEndian beginNode ++ padded (name ++ [0])), depth := b.depth + 1 }
      names (.endNode :: (rest.calls ++ more)) hopened hstrings hnames hchildren
      ((prefix_added _ rest.names).trans hfinal) hflat (by omega)
    rw [Builder.node_eq hb, hinner]
    show Call.applyAll (rest.calls ++ more) (Builder.mk _ _ _) = _
    rw [ihRest _ (added names children.names) more ?_ rfl hnames' hrest hfinal hflat (by omega),
      Items.names, hsplit]
    · dsimp only
      rw [Items.map, Items.encode]
      simp only [Builder.word, List.append_assoc]
      rfl
    · have hmod := Items.size_mod (children.map (offset final))
      rw [← Items.length_encode] at hmod
      show (_ ++ bigEndian endNode).length % 4 = 0
      simp only [List.length_append, length_bigEndian] at hopened ⊢
      omega

end Run

/-! ## The whole blob -/

namespace Node

/-- The tree over the offsets of its table. -/
def raw (root : Node Name) : Node Nat := root.map (offset (Call.table root.calls))

theorem calls_names (root : Node Name) :
    root.calls.filterMap Call.propertyName = root.items.names := by
  rw [calls, List.filterMap_cons, List.filterMap_append, Items.calls_names]
  exact List.append_nil _

theorem table_calls (root : Node Name) :
    Call.table root.calls = added [] root.items.names := by
  rw [Call.table, calls_names]
  rfl

theorem structLength_calls (root : Node Name) :
    Call.structLength root.calls = root.raw.encode.length := by
  have hitems : ((root.items.map (offset (Call.table root.calls))).encode).length =
      root.items.size := by
    rw [Items.length_encode, Items.size_map]
  rw [Call.structLength, calls, List.map_cons, List.sum_cons, List.map_append, List.sum_append,
    Items.calls_size, raw, encode, map]
  simp only [List.length_append, length_bigEndian, hitems, List.map_cons, List.map_nil,
    List.sum_cons, List.sum_nil, Call.size]
  omega

variable {root : Node Name}

theorem applyAll_calls (hnamed : ∀ call ∈ root.calls, call.Named)
    (hflat : (flat (Call.table root.calls)).length < 2 ^ 32) (hsize : root.items.size < 2 ^ 32) :
    ∃ block, Call.applyAll root.calls .init =
        .ok ⟨block, flat (Call.table root.calls), 0⟩ ∧
      block ++ bigEndian endToken = root.raw.encode := by
  have hitems : ∀ call ∈ root.items.calls, call.Named := fun call hcall =>
    hnamed call (List.mem_cons_of_mem _ (List.mem_append_left _ hcall))
  have hopened : (bigEndian beginNode ++ padded (root.name ++ [0])).length % 4 = 0 := by
    have hpadding := add_padding_mod (root.name ++ [0]).length
    simp only [List.length_append, length_bigEndian, length_padded] at hpadding ⊢
    omega
  have hrun := applyAll_items root.items
    ⟨bigEndian beginNode ++ padded (root.name ++ [0]), [], 1⟩ [] [.endNode] hopened rfl
    (fun other hother => absurd hother List.not_mem_nil) hitems
    (List.prefix_rfl : added [] root.items.names <+: added [] root.items.names)
    (by rw [← table_calls]; exact hflat) hsize
  rw [← table_calls] at hrun
  refine ⟨bigEndian beginNode ++ padded (root.name ++ [0]) ++
    (root.items.map (offset (Call.table root.calls))).encode ++ bigEndian endNode, ?_, rfl⟩
  show Call.applyAll (root.items.calls ++ [.endNode]) (Builder.init.node root.name) = _
  rw [Builder.node_eq rfl]
  exact hrun

/-- The blob of the tree. -/
def blob (root : Node Name) : List UInt8 :=
  (Builder.header root.raw.encode.length (flat (Call.table root.calls)).length
    (Call.totalSize root.calls)).encode ++ (List.replicate 16 0 ++ (root.raw.encode ++
      (flat (Call.table root.calls) ++ List.replicate (Call.totalSize root.calls -
        (56 + root.raw.encode.length + (flat (Call.table root.calls)).length)) 0)))

theorem totalSize_calls (root : Node Name) : Call.totalSize root.calls = Builder.align
    (56 + root.raw.encode.length + (flat (Call.table root.calls)).length) := by
  rw [Call.totalSize, structLength_calls]

theorem le_align (total : Nat) : total ≤ Builder.align total := by
  unfold Builder.align
  omega

theorem length_blob (root : Node Name) : root.blob.length = Call.totalSize root.calls := by
  have hle := le_align (56 + root.raw.encode.length + (flat (Call.table root.calls)).length)
  rw [← totalSize_calls] at hle
  unfold blob
  simp only [List.length_append, List.length_replicate, Header.length_encode]
  omega

theorem size_le (root : Node Name) : root.items.size ≤ root.raw.encode.length := by
  rw [← structLength_calls, Call.structLength, calls, List.map_cons, List.sum_cons,
    List.map_append, List.sum_append, Items.calls_size]
  omega

/-- The calls of the tree make its blob. -/
theorem blob_calls (hnamed : ∀ call ∈ root.calls, call.Named)
    (hsize : Call.totalSize root.calls < 2 ^ 32) : Call.blob root.calls = .ok root.blob := by
  have htotal := le_align (56 + root.raw.encode.length + (flat (Call.table root.calls)).length)
  rw [← totalSize_calls] at htotal
  have hitems := size_le root
  obtain ⟨block, hrun, hblock⟩ := applyAll_calls hnamed (by omega) (by omega)
  have hlength : (block ++ bigEndian endToken).length = root.raw.encode.length := by rw [hblock]
  have hpadding : ∀ h : Header, (h.encode ++ List.replicate 16 0 ++ root.raw.encode ++
      flat (Call.table root.calls)).length =
        56 + root.raw.encode.length + (flat (Call.table root.calls)).length := by
    intro h
    simp only [List.length_append, List.length_replicate, Header.length_encode]
  unfold Call.blob
  rw [hrun, Outcome.ok_bind]
  unfold Builder.finish
  rw [if_neg (not_not_intro rfl)]
  dsimp only [Builder.word]
  rw [hlength, toU32_ok (show root.raw.encode.length < 2 ^ 32 by omega), Outcome.ok_bind,
    toU32_ok (show 56 + root.raw.encode.length < 2 ^ 32 by omega), Outcome.ok_bind,
    ← totalSize_calls, toU32_ok hsize, Outcome.ok_bind,
    toU32_ok (show (flat (Call.table root.calls)).length < 2 ^ 32 by omega), Outcome.ok_bind,
    Outcome.pure_eq, hblock, hpadding]
  unfold blob
  simp only [List.append_assoc]

/-- The header of the blob. -/
def header (root : Node Name) : Header :=
  Builder.header root.raw.encode.length (flat (Call.table root.calls)).length
    (Call.totalSize root.calls)

theorem read_header (hsize : Call.totalSize root.calls < 2 ^ 32) :
    Header.read root.blob = some root.header := by
  have htotal := le_align (56 + root.raw.encode.length + (flat (Call.table root.calls)).length)
  rw [← totalSize_calls] at htotal
  apply Header.read_encode
  simp only [Header.words, Builder.header, List.forall_mem_cons]
  refine ⟨by decide, hsize, by decide, by omega, by decide, by decide, by decide, by decide,
    by omega, by omega, ?_⟩
  exact fun word hword => absurd hword List.not_mem_nil

theorem header_sound (root : Node Name) : root.header.Sound root.blob := by
  have htotal := le_align (56 + root.raw.encode.length + (flat (Call.table root.calls)).length)
  rw [← totalSize_calls] at htotal
  have hlength := length_blob root
  constructor
  · rfl
  · rfl
  · show 16 ≤ 17
    omega
  · exact hlength.ge
  · show 56 + root.raw.encode.length ≤ Call.totalSize root.calls
    omega
  · show 56 + root.raw.encode.length + (flat (Call.table root.calls)).length ≤
      Call.totalSize root.calls
    omega
  · show 40 + 16 ≤ Call.totalSize root.calls
    omega

theorem slice_append (before bytes after : List UInt8) :
    slice (before ++ (bytes ++ after)) before.length bytes.length = bytes := by
  rw [slice, List.drop_left, List.take_left]

theorem slice_rsvmap (root : Node Name) : slice root.blob 40 16 = List.replicate 16 0 := by
  have hbefore : root.header.encode.length = 40 := Header.length_encode _
  have hbytes : (List.replicate 16 (0 : UInt8)).length = 16 := List.length_replicate
  have hslice := slice_append root.header.encode (List.replicate 16 0)
  rw [hbefore, hbytes] at hslice
  exact hslice _

theorem slice_struct (root : Node Name) :
    slice root.blob 56 root.raw.encode.length = root.raw.encode := by
  have hbefore : (root.header.encode ++ List.replicate 16 0).length = 56 := by
    rw [List.length_append, Header.length_encode, List.length_replicate]
  have hslice := slice_append (root.header.encode ++ List.replicate 16 0) root.raw.encode
  rw [hbefore] at hslice
  rw [blob, ← List.append_assoc]
  exact hslice _

theorem slice_strings (root : Node Name) :
    slice root.blob (56 + root.raw.encode.length) (flat (Call.table root.calls)).length =
      flat (Call.table root.calls) := by
  have hbefore : (root.header.encode ++ List.replicate 16 0 ++ root.raw.encode).length =
      56 + root.raw.encode.length := by
    rw [List.length_append, List.length_append, Header.length_encode, List.length_replicate]
  have hslice := slice_append (root.header.encode ++ List.replicate 16 0 ++ root.raw.encode)
    (flat (Call.table root.calls))
  rw [hbefore] at hslice
  rw [blob, ← List.append_assoc, ← List.append_assoc]
  exact hslice _

theorem raw_encodable (hnamed : ∀ call ∈ root.calls, call.Named)
    (hsize : Call.totalSize root.calls < 2 ^ 32) : root.raw.items.Encodable := by
  have htotal := le_align (56 + root.raw.encode.length + (flat (Call.table root.calls)).length)
  rw [← totalSize_calls] at htotal
  have hitems := size_le root
  apply Items.encodable_map
  · intro name
    have hoffset := StringTable.offset_le (Call.table root.calls) name
    omega
  · omega
  · exact fun call hcall =>
      hnamed call (List.mem_cons_of_mem _ (List.mem_append_left _ hcall))

theorem table_names (hnamed : ∀ call ∈ root.calls, call.Named) :
    ∀ name ∈ root.items.names, (0 : UInt8) ∉ name ∧ name ∈ Call.table root.calls := by
  intro name hname
  have hitems : ∀ call ∈ root.items.calls, call.Named := fun call hcall =>
    hnamed call (List.mem_cons_of_mem _ (List.mem_append_left _ hcall))
  refine ⟨named_names hitems hname, ?_⟩
  rw [table_calls, mem_added]
  exact .inr hname

/-- The blob reads back. -/
theorem read_blob (hnamed : ∀ call ∈ root.calls, call.Named)
    (hsize : Call.totalSize root.calls < 2 ^ 32) :
    readStructure root.raw.encode = some root.raw ∧ read root.blob = some root := by
  have hname : (0 : UInt8) ∉ root.name := hnamed (.node root.name) List.mem_cons_self
  have hstructure := readStructure_encode root.raw hname (raw_encodable hnamed hsize)
  refine ⟨hstructure, ?_⟩
  have hsound : root.header.Sound root.blob ∧
      slice root.blob root.header.offMemRsvmap 16 = List.replicate 16 0 :=
    ⟨header_sound root, slice_rsvmap root⟩
  have hstruct : slice root.blob root.header.offDtStruct root.header.sizeDtStruct =
      root.raw.encode := slice_struct root
  have hstrings : slice root.blob root.header.offDtStrings root.header.sizeDtStrings =
      flat (Call.table root.calls) := slice_strings root
  rw [read, read_header hsize, Option.bind_eq_bind, Option.bind_some, if_pos hsound, hstruct,
    hstrings, hstructure, Option.bind_eq_bind, Option.bind_some]
  exact resolve_map root (table_names hnamed)

end Node

/-- A blob that holds the tree: its header describes it, and equal names share an entry of
its string table, where different names have different entries. -/
structure Holds (bytes : List UInt8) (root : Node Name) (h : Header) : Prop where
  header : Header.read bytes = some h
  sound : h.Sound bytes
  totalsize : h.totalsize = bytes.length
  aligned : bytes.length % 8 = 0
  rsvmap : slice bytes h.offMemRsvmap 16 = List.replicate 16 0
  tree : read bytes = some root
  entries : ∃ names : List Name,
    names.Nodup ∧
    slice bytes h.offDtStrings h.sizeDtStrings = flat names ∧
    readStructure (slice bytes h.offDtStruct h.sizeDtStruct) =
      some (root.map (offset names)) ∧
    (∀ name, name ∈ names ↔ name ∈ root.items.names) ∧
    ∀ name ∈ names, ∀ other ∈ names, offset names name = offset names other → name = other

/-- What a builder makes of the calls of one root node reads back as that node. -/
theorem blob_holds {calls : List Call} (hrooted : Call.Rooted calls)
    (hnamed : ∀ call ∈ calls, call.Named) (hsize : Call.totalSize calls < 2 ^ 32) :
    ∃ root bytes header,
      root.calls = calls ∧ Call.blob calls = .ok bytes ∧ Holds bytes root header := by
  obtain ⟨root, rfl⟩ := Call.rooted_tree hrooted
  obtain ⟨hstructure, hread⟩ := Node.read_blob hnamed hsize
  refine ⟨root, root.blob, root.header, rfl, Node.blob_calls hnamed hsize, ?_⟩
  have hmem : ∀ name, name ∈ Call.table root.calls ↔ name ∈ root.items.names := by
    intro name
    rw [Node.table_calls, mem_added]
    exact or_iff_right List.not_mem_nil
  have haligned : root.blob.length % 8 = 0 := by
    rw [Node.length_blob, Node.totalSize_calls]
    unfold Builder.align
    omega
  have hstruct : slice root.blob root.header.offDtStruct root.header.sizeDtStruct =
      root.raw.encode := Node.slice_struct root
  have hterminated : ∀ name ∈ Call.table root.calls, (0 : UInt8) ∉ name := fun name hname =>
    (Node.table_names hnamed name ((hmem name).mp hname)).1
  constructor
  · exact Node.read_header hsize
  · exact Node.header_sound root
  · exact (Node.length_blob root).symm
  · exact haligned
  · exact Node.slice_rsvmap root
  · exact hread
  · refine ⟨Call.table root.calls, ?_, Node.slice_strings root, ?_, hmem, ?_⟩
    · rw [Node.table_calls]
      exact nodup_added List.nodup_nil _
    · rw [hstruct]
      exact hstructure
    · intro name hname other hother
      exact StringTable.offset_inj (hterminated name hname) (hterminated other hother) hname hother

/-- A root with the property `a` and a subnode `n` with the properties `ba` and `a`. -/
theorem blob_holds_shared :
    ∃ root bytes header,
      root.calls =
        [.node [], .property [97] [1], .node [110], .property [98, 97] [], .property [97] [2, 3],
          .endNode, .endNode] ∧
      Call.blob
        [.node [], .property [97] [1], .node [110], .property [98, 97] [], .property [97] [2, 3],
          .endNode, .endNode] = .ok bytes ∧
      Holds bytes root header := by
  apply blob_holds
  · exact rfl
  · intro call hcall
    simp only [List.mem_cons, List.not_mem_nil, or_false] at hcall
    rcases hcall with rfl | rfl | rfl | rfl | rfl | rfl | rfl <;> simp [Call.Named]
  · decide

end Devicetree
end Riscbox
