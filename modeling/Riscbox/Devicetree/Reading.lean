import Riscbox.Devicetree.Format

/-!
# Reading what is encoded

The reader inverts the encoding of a tree, token by token, and finds its names in the
string table.
-/

namespace Riscbox
namespace Devicetree

open StringTable (Name nameAt flat offset)

/-! ## Words and padding -/

@[simp] theorem length_bigEndian (n : Nat) : (bigEndian n).length = 4 := by
  rw [bigEndian, List.length_reverse, LittleEndian.length_encode]

theorem bigEndian_eq (n : Nat) :
    ∃ a b c d, bigEndian n = [a, b, c, d] ∧ LittleEndian.encode 4 n = [d, c, b, a] :=
  ⟨_, _, _, _, rfl, rfl⟩

theorem readWord_bigEndian {n : Nat} (h : n < 2 ^ 32) (rest : List UInt8) :
    readWord (bigEndian n ++ rest) = some (n, rest) := by
  obtain ⟨a, b, c, d, hbig, hlittle⟩ := bigEndian_eq n
  have hvalue : LittleEndian.decode [d, c, b, a] = n := by
    rw [← hlittle]
    exact LittleEndian.decode_encode (by omega)
  rw [hbig]
  show some (LittleEndian.decode [d, c, b, a], rest) = _
  rw [hvalue]

theorem readToken_bigEndian {n : Nat} (h : n < 2 ^ 32) (hnop : n ≠ nop) (rest : List UInt8) :
    readToken (bigEndian n ++ rest) = some (n, rest) := by
  obtain ⟨a, b, c, d, hbig, hlittle⟩ := bigEndian_eq n
  have hvalue : LittleEndian.decode [d, c, b, a] = n := by
    rw [← hlittle]
    exact LittleEndian.decode_encode (by omega)
  rw [hbig]
  show (if LittleEndian.decode [d, c, b, a] = nop then _ else _) = _
  rw [hvalue, if_neg hnop]
  rfl

@[simp] theorem length_padded (value : List UInt8) :
    (padded value).length = value.length + padding value.length := by
  rw [padded, List.length_append, List.length_replicate]

theorem add_padding_mod (length : Nat) : (length + padding length) % 4 = 0 := by
  unfold padding
  omega

theorem readPadded_padded (value rest : List UInt8) :
    readPadded value.length (padded value ++ rest) = some (value, rest) := by
  have hzeros : ((padded value ++ rest).drop value.length).take (padding value.length) =
      List.replicate (padding value.length) 0 := by
    rw [padded, List.append_assoc, List.drop_left]
    exact List.take_left' List.length_replicate
  have hfits : value.length + padding value.length ≤ (padded value ++ rest).length := by
    rw [List.length_append, length_padded]
    omega
  have hvalue : (padded value ++ rest).take value.length = value := by
    rw [padded, List.append_assoc]
    exact List.take_left
  have hrest : (padded value ++ rest).drop (value.length + padding value.length) = rest :=
    List.drop_left' (length_padded value)
  rw [readPadded, if_pos ⟨hfits, hzeros⟩, hvalue, hrest]

theorem readName_padded {name : Name} (hname : (0 : UInt8) ∉ name) (rest : List UInt8) :
    readName (padded (name ++ [0]) ++ rest) = some (name, rest) := by
  have hentry : (padded (name ++ [0]) ++ rest).takeWhile (· ≠ 0) = name := by
    rw [padded, List.append_assoc, List.append_assoc]
    exact StringTable.takeWhile_terminated hname _
  have hlength : name.length + 1 = (name ++ [0]).length := by simp
  unfold readName
  rw [hentry]
  dsimp only
  rw [hlength, readPadded_padded]
  rfl

/-! ## The structure block -/

namespace Items

theorem length_encode_ge (items : Items Nat) : 4 * items.tokens ≤ items.encode.length := by
  induction items with
  | nil => exact Nat.le_refl _
  | property offset value rest ih =>
    simp only [tokens, encode, List.length_append, length_bigEndian]
    omega
  | node name children rest ihChildren ihRest =>
    simp only [tokens, encode, List.length_append, length_bigEndian]
    omega

/-- The reader takes the items and the end of their node. -/
theorem readItems_encode (items : Items Nat) :
    ∀ (fuel : Nat) (rest : List UInt8), items.Encodable → items.tokens < fuel →
      readItems fuel (items.encode ++ (bigEndian endNode ++ rest)) = some (items, rest) := by
  induction items with
  | nil =>
    intro fuel rest _ hfuel
    obtain ⟨fuel, rfl⟩ := Nat.exists_eq_succ_of_ne_zero (Nat.ne_of_gt hfuel)
    have htoken := readToken_bigEndian (n := endNode) (by decide) (by decide) rest
    show readItems (fuel + 1) (bigEndian endNode ++ rest) = _
    simp only [readItems, htoken, Option.bind_eq_bind, Option.bind_some, ↓reduceIte]
    rfl
  | property offset value more ih =>
    intro fuel rest hencodable hfuel
    obtain ⟨hoffset, hlength, hmore⟩ := hencodable
    rw [tokens] at hfuel
    obtain ⟨fuel, rfl⟩ := Nat.exists_eq_succ_of_ne_zero (Nat.ne_of_gt (Nat.lt_of_le_of_lt
      (Nat.zero_le _) hfuel))
    have htoken := fun tail => readToken_bigEndian (n := prop) (by decide) (by decide) tail
    have hne : ¬prop = endNode := by decide
    rw [encode]
    simp only [List.append_assoc]
    simp only [readItems, htoken, hne, readWord_bigEndian hlength, readWord_bigEndian hoffset,
      readPadded_padded, ih fuel rest hmore (by omega), Option.bind_eq_bind, Option.bind_some,
      ↓reduceIte]
    rfl
  | node name children more ihChildren ihMore =>
    intro fuel rest hencodable hfuel
    obtain ⟨hname, hchildren, hmore⟩ := hencodable
    rw [tokens] at hfuel
    obtain ⟨fuel, rfl⟩ := Nat.exists_eq_succ_of_ne_zero (Nat.ne_of_gt (Nat.lt_of_le_of_lt
      (Nat.zero_le _) hfuel))
    have htoken := fun tail => readToken_bigEndian (n := beginNode) (by decide) (by decide) tail
    have hneEnd : ¬beginNode = endNode := by decide
    have hneProp : ¬beginNode = prop := by decide
    rw [encode]
    simp only [List.append_assoc]
    simp only [readItems, htoken, hneEnd, hneProp, readName_padded hname,
      ihChildren fuel _ hchildren (by omega), ihMore fuel rest hmore (by omega),
      Option.bind_eq_bind, Option.bind_some, ↓reduceIte]
    rfl

/-- Offsets of a table that holds the names resolve to them. -/
theorem resolve_map {names : List Name} (items : Items Name)
    (hnames : ∀ name ∈ items.names, (0 : UInt8) ∉ name ∧ name ∈ names) :
    (items.map (offset names)).resolve (flat names) = some items := by
  induction items with
  | nil => rfl
  | property name value rest ih =>
    obtain ⟨hname, hmem⟩ := hnames name List.mem_cons_self
    have hrest := ih fun other hother => hnames other (List.mem_cons_of_mem _ hother)
    rw [map, resolve, StringTable.nameAt_offset hname hmem, Option.bind_eq_bind,
      Option.bind_some, hrest]
    rfl
  | node name children rest ihChildren ihRest =>
    have hchildren := ihChildren fun other hother =>
      hnames other (List.mem_append_left _ hother)
    have hrest := ihRest fun other hother => hnames other (List.mem_append_right _ hother)
    rw [map, resolve, hchildren, Option.bind_eq_bind, Option.bind_some, hrest]
    rfl

end Items

theorem readStructure_encode (root : Node Nat) (hname : (0 : UInt8) ∉ root.name)
    (hitems : root.items.Encodable) : readStructure root.encode = some root := by
  have hbegin := fun tail => readToken_bigEndian (n := beginNode) (by decide) (by decide) tail
  have hend := readToken_bigEndian (n := endToken) (by decide) (by decide) []
  rw [List.append_nil] at hend
  have hfuel : root.items.tokens <
      (root.items.encode ++ (bigEndian endNode ++ bigEndian endToken)).length + 1 := by
    have hge := root.items.length_encode_ge
    rw [List.length_append]
    omega
  rw [Node.encode]
  simp only [List.append_assoc]
  simp only [readStructure, hbegin, readName_padded hname,
    Items.readItems_encode root.items _ (bigEndian endToken) hitems hfuel, hend,
    Option.bind_eq_bind, Option.bind_some, ↓reduceIte, and_self]
  rfl

theorem Node.resolve_map {names : List Name} (root : Node Name)
    (hnames : ∀ name ∈ root.items.names, (0 : UInt8) ∉ name ∧ name ∈ names) :
    (root.map (offset names)).resolve (flat names) = some root := by
  rw [Node.resolve, Node.map, Items.resolve_map root.items hnames]
  rfl

/-! ## The header -/

theorem Header.read_encode (h : Header) (hwords : ∀ word ∈ h.words, word < 2 ^ 32)
    (rest : List UInt8) : Header.read (h.encode ++ rest) = some h := by
  simp only [Header.words, List.forall_mem_cons] at hwords
  obtain ⟨h₁, h₂, h₃, h₄, h₅, h₆, h₇, h₈, h₉, h₁₀, -⟩ := hwords
  simp only [Header.encode, Header.words, List.flatMap_cons, List.flatMap_nil, List.append_assoc,
    List.nil_append]
  simp only [Header.read, readWord_bigEndian, h₁, h₂, h₃, h₄, h₅, h₆, h₇, h₈, h₉, h₁₀,
    Option.bind_eq_bind, Option.bind_some]
  rfl

@[simp] theorem Header.length_encode (h : Header) : h.encode.length = 40 := by
  simp [Header.encode, Header.words]

end Devicetree
end Riscbox
