import Riscbox.Protocol.Request

/-!
# Facts about the wire

Reading does not panic, a parsed request is small, and a writer only appends.
-/

namespace Riscbox

namespace Reader

theorem take_gives (size : Nat) : (take size).Gives (·.length = size) := by
  intro r
  rw [take, Op.bind_ok (Op.get_apply r)]
  cases hadd : checkedAdd usizeMax r.offset size with
  | none => trivial
  | some finish =>
    obtain ⟨-, rfl⟩ := checkedAdd_eq_some.mp hadd
    rw [Outcome.okOr_some, Op.bind_ok (Op.lift_apply _ _)]
    by_cases hle : r.offset + size ≤ r.bytes.length
    · rw [if_pos hle]
      show ((r.bytes.drop r.offset).take size).length = size
      rw [List.length_take, List.length_drop]
      omega
    · rw [if_neg hle]
      trivial

theorem word_gives (size : Nat) : (word size).Gives fun _ => True := by
  refine (take_gives size).bind fun bytes hbytes => ?_
  rw [if_pos hbytes]
  exact Op.gives_pure trivial

theorem u8_gives : u8.Gives fun _ => True := (word_gives 1).map fun _ _ => trivial

theorem u16_gives : u16.Gives fun _ => True := (word_gives 2).map fun _ _ => trivial

theorem u32_gives : u32.Gives fun _ => True := (word_gives 4).map fun _ _ => trivial

theorem u64_gives : u64.Gives fun _ => True := (word_gives 8).map fun _ _ => trivial

theorem string_gives : string.Gives fun _ => True := by
  refine u16_gives.bind fun size _ => ?_
  refine (take_gives _).bind fun bytes _ => ?_
  refine Op.Gives.bind (Op.gives_lift (Outcome.okOr_ne_panic _ _) fun _ _ => trivial) fun value (_ : True) => ?_
  split
  · exact Op.gives_fail _
  · exact Op.gives_pure trivial

theorem strings_gives (count : Nat) : (strings count).Gives (·.length = count) := by
  induction count with
  | zero => exact Op.gives_pure rfl
  | succ count ih =>
    refine string_gives.bind fun value _ => ?_
    refine ih.bind fun rest hrest => ?_
    exact Op.gives_pure (by rw [List.length_cons, hrest])

theorem done_gives : done.Gives fun _ => True := by
  intro r
  rw [done, Op.bind_ok (Op.get_apply r)]
  by_cases hend : r.offset = r.bytes.length
  · rw [if_pos hend]
    trivial
  · rw [if_neg hend]
    trivial

section Then

variable {α : Type} {post : α → Prop}

theorem u8_then {f : UInt8 → ReaderOp α} (h : ∀ v, (f v).Gives post) : (u8 >>= f).Gives post :=
  u8_gives.bind fun v _ => h v

theorem u16_then {f : UInt16 → ReaderOp α} (h : ∀ v, (f v).Gives post) :
    (u16 >>= f).Gives post :=
  u16_gives.bind fun v _ => h v

theorem u32_then {f : UInt32 → ReaderOp α} (h : ∀ v, (f v).Gives post) :
    (u32 >>= f).Gives post :=
  u32_gives.bind fun v _ => h v

theorem u64_then {f : UInt64 → ReaderOp α} (h : ∀ v, (f v).Gives post) :
    (u64 >>= f).Gives post :=
  u64_gives.bind fun v _ => h v

theorem string_then {f : String → ReaderOp α} (h : ∀ v, (f v).Gives post) :
    (string >>= f).Gives post :=
  string_gives.bind fun v _ => h v

end Then

end Reader

namespace Request

/-- The sizes that the type of the source bounds. -/
def Sized : Request → Prop
  | .walk _ _ names => names.length ≤ maxNames
  | .write _ _ data => data.length ≤ u32Max
  | _ => True

open Reader

theorem readLock_gives (flagged : Bool) : (readLock flagged).Gives fun _ => True := by
  refine u32_then fun fid => u8_then fun kind => ?_
  have hrest : ∀ flags : UInt32, (do
      let start ← u64
      let length ← u64
      let process ← u32
      let client ← string
      return { fid := fid, kind := kind, flags := flags, start := start, length := length,
               process := process, client := client } : ReaderOp Lock).Gives fun _ => True := by
    intro flags
    exact u64_then fun _ => u64_then fun _ => u32_then fun _ => string_then fun _ =>
      Op.gives_pure trivial
  cases flagged with
  | true => exact u32_then hrest
  | false => exact hrest 0

theorem readAttributes_gives : readAttributes.Gives fun _ => True :=
  u32_then fun _ => u32_then fun _ => u32_then fun _ => u32_then fun _ => u64_then fun _ =>
    u64_then fun _ => u64_then fun _ => u64_then fun _ => u64_then fun _ => Op.gives_pure trivial

theorem readCreation_gives : readCreation.Gives fun _ => True :=
  string_then fun _ => u32_then fun _ => u32_then fun _ => u32_then fun _ =>
    Op.gives_pure trivial

theorem fields_gives {kind : Nat} {body : ReaderOp Request} (h : fields kind = some body) :
    body.Gives Sized := by
  unfold fields at h
  split at h
  case h_23 => cases h
  all_goals cases h
  · exact u32_then fun _ => string_then fun _ => Op.gives_pure trivial
  · exact u32_then fun _ => u32_then fun _ => string_then fun _ => string_then fun _ =>
      u32_then fun _ => Op.gives_pure trivial
  · exact u16_then fun _ => Op.gives_pure trivial
  · refine u32_then fun fid => u32_then fun newFid => u16_then fun count => ?_
    by_cases hcount : maxNames < count.toNat
    · rw [if_pos hcount]
      exact Op.gives_fail _
    · rw [if_neg hcount]
      refine (strings_gives _).bind fun names hnames => Op.gives_pure ?_
      show names.length ≤ maxNames
      omega
  · exact u32_then fun _ => u32_then fun _ => Op.gives_pure trivial
  · exact u32_then fun _ => readCreation_gives.bind fun _ _ => Op.gives_pure trivial
  · exact u32_then fun _ => u64_then fun _ => u32_then fun _ => Op.gives_pure trivial
  · refine u32_then fun fid => u64_then fun offset => u32_then fun count => ?_
    refine (take_gives _).bind fun data hdata => Op.gives_pure ?_
    have hlt := count.toNat_lt
    show data.length ≤ u32Max
    rw [hdata, u32Max]
    omega
  · exact u32_then fun _ => Op.gives_pure trivial
  · exact u32_then fun _ => Op.gives_pure trivial
  · exact u32_then fun _ => u64_then fun _ => Op.gives_pure trivial
  · exact u32_then fun _ => readAttributes_gives.bind fun _ _ => Op.gives_pure trivial
  · exact u32_then fun _ => u64_then fun _ => u32_then fun _ => Op.gives_pure trivial
  · exact u32_then fun _ => u32_then fun _ => Op.gives_pure trivial
  · exact u32_then fun _ => string_then fun _ => string_then fun _ => u32_then fun _ =>
      Op.gives_pure trivial
  · exact u32_then fun _ => Op.gives_pure trivial
  · exact u32_then fun _ => string_then fun _ => u32_then fun _ => u32_then fun _ =>
      Op.gives_pure trivial
  · exact u32_then fun _ => u32_then fun _ => string_then fun _ => Op.gives_pure trivial
  · exact u32_then fun _ => string_then fun _ => u32_then fun _ => string_then fun _ =>
      Op.gives_pure trivial
  · exact u32_then fun _ => string_then fun _ => u32_then fun _ => Op.gives_pure trivial
  · exact (readLock_gives true).bind fun _ _ => Op.gives_pure trivial
  · exact (readLock_gives false).bind fun _ _ => Op.gives_pure trivial

theorem parse_ne_panic (kind : UInt8) (bytes : List UInt8) : parse kind bytes ≠ .panic := by
  unfold parse
  split
  next => simp
  next body hbody =>
    refine Op.Gives.ne_panic (show Op.Gives _ (fun _ => True) from ?_) _
    exact (fields_gives hbody).bind fun _ _ => done_gives.bind fun _ _ => Op.gives_pure trivial

theorem parse_sized {kind : UInt8} {bytes : List UInt8} {request : Request}
    (h : parse kind bytes = .ok request) : request.Sized := by
  unfold parse at h
  split at h
  next =>
    cases h
    trivial
  next body hbody =>
    refine Op.Gives.of_ok ?_ h
    exact (fields_gives hbody).bind fun request hrequest =>
      done_gives.bind fun _ _ => Op.gives_pure hrequest

theorem minimumReply_pos (request : Request) : 7 ≤ request.minimumReply := by
  cases request <;> simp [minimumReply]

end Request

/-! ## Appending -/

namespace Writer

/-- The second writer is the first with more bytes. -/
structure Extends (w : Writer) (body : List UInt8) (w' : Writer) : Prop where
  capacity : w'.capacity = w.capacity
  bytes : w'.bytes = w.bytes ++ body

/-- The second writer is the first with some more bytes. -/
def Grows (w w' : Writer) : Prop := ∃ body, w.Extends body w'

/-- A computation that appends `body`, or fails for want of room. -/
def Puts (w : Writer) (body : List UInt8) (x : Wire Writer) : Prop :=
  x = .err ENOSPC ∨ ∃ w', x = .ok w' ∧ w.Extends body w'

/-- A computation that appends some bytes, or fails. -/
def Appends (w : Writer) (x : Wire Writer) : Prop :=
  match x with
  | .ok w' => w.Grows w'
  | .err _ => True
  | .panic => False

/-- A computation that has room for the bytes that it appends. -/
def Fits (w : Writer) (body : List UInt8) (x : Wire Writer) : Prop :=
  ∃ w', x = .ok w' ∧ w.Extends body w'

variable {w w' w'' : Writer} {body body' : List UInt8} {x : Wire Writer}

theorem Extends.refl (w : Writer) : w.Extends [] w := ⟨rfl, (List.append_nil _).symm⟩

theorem Extends.trans (h : w.Extends body w') (h' : w'.Extends body' w'') :
    w.Extends (body ++ body') w'' where
  capacity := h'.capacity.trans h.capacity
  bytes := by rw [h'.bytes, h.bytes, List.append_assoc]

theorem Grows.refl (w : Writer) : w.Grows w := ⟨[], .refl w⟩

theorem Grows.trans (h : w.Grows w') (h' : w'.Grows w'') : w.Grows w'' := by
  obtain ⟨body, h⟩ := h
  obtain ⟨body', h'⟩ := h'
  exact ⟨body ++ body', h.trans h'⟩

theorem Extends.length (h : w.Extends body w') :
    w'.bytes.length = w.bytes.length + body.length := by
  rw [h.bytes, List.length_append]

theorem Grows.length_le (h : w.Grows w') : w.bytes.length ≤ w'.bytes.length := by
  obtain ⟨body, h⟩ := h
  rw [h.length]
  exact Nat.le_add_right _ _

theorem Grows.capacity (h : w.Grows w') : w'.capacity = w.capacity := by
  obtain ⟨body, h⟩ := h
  exact h.capacity

theorem append_puts (w : Writer) (body : List UInt8) : w.Puts body (w.append body) := by
  unfold append
  split
  · exact .inl rfl
  · split
    · exact .inl rfl
    · exact .inr ⟨_, rfl, rfl, rfl⟩

theorem append_fits {b : List UInt8} (hcap : w.capacity ≤ usizeMax)
    (hroom : w.bytes.length + b.length ≤ w.capacity) : w.Fits b (w.append b) := by
  have hadd : checkedAdd usizeMax w.bytes.length b.length =
      some (w.bytes.length + b.length) :=
    checkedAdd_eq_some.mpr ⟨hroom.trans hcap, rfl⟩
  unfold append
  rw [hadd]
  dsimp only
  rw [dif_neg (Nat.not_lt.mpr hroom)]
  exact ⟨_, rfl, rfl, rfl⟩

theorem Puts.appends (h : w.Puts body x) : w.Appends x := by
  rcases h with rfl | ⟨w', rfl, h⟩
  · trivial
  · exact ⟨body, h⟩

theorem Puts.bind {f : Writer → Wire Writer} (hx : w.Puts body x)
    (hf : ∀ w', w.Extends body w' → w'.Puts body' (f w')) : w.Puts (body ++ body') (x >>= f) := by
  rcases hx with rfl | ⟨w', rfl, h⟩
  · exact .inl rfl
  · rcases hf w' h with hfail | ⟨w'', hok, h'⟩
    · exact .inl hfail
    · exact .inr ⟨w'', hok, h.trans h'⟩

theorem Fits.bind {f : Writer → Wire Writer} (hx : w.Fits body x)
    (hf : ∀ w', w.Extends body w' → w'.Fits body' (f w')) : w.Fits (body ++ body') (x >>= f) := by
  obtain ⟨w', rfl, h⟩ := hx
  obtain ⟨w'', hok, h'⟩ := hf w' h
  exact ⟨w'', hok, h.trans h'⟩

theorem Puts.of_ok (h : w.Puts body x) (hx : x = .ok w') : w.Extends body w' := by
  rcases h with hfail | ⟨w'', hok, h⟩
  · rw [hfail] at hx
    cases hx
  · rw [hok] at hx
    cases hx
    exact h

theorem Puts.grows (h : w.Puts body x) (hx : x = .ok w') : w.Grows w' := ⟨body, h.of_ok hx⟩

theorem Appends.of_ok (h : w.Appends x) (hx : x = .ok w') : w.Grows w' := by
  rw [hx] at h
  exact h

theorem Puts.ne_panic (h : w.Puts body x) : x ≠ .panic := by
  rcases h with rfl | ⟨w', rfl, -⟩ <;> simp

/-- A writer whose capacity a `usize` counts has room for the bytes it can hold. -/
theorem Puts.fits (h : w.Puts body x) (hok : x ≠ .err ENOSPC) : w.Fits body x := by
  rcases h with rfl | h
  · exact absurd rfl hok
  · exact h

theorem appends_ok : w.Appends (.ok w) := .refl w

theorem appends_err (e : UInt32) : w.Appends (.err e) := trivial

theorem Appends.trans {w₀ : Writer} (h₀ : w₀.Grows w) (h : w.Appends x) : w₀.Appends x := by
  cases x with
  | ok w' => exact Grows.trans h₀ h
  | err e => trivial
  | panic => exact h

theorem Appends.bind {f : Writer → Wire Writer} (hx : w.Appends x)
    (hf : ∀ w', w.Grows w' → w'.Appends (f w')) : w.Appends (x >>= f) := by
  cases x with
  | ok w' => exact (hf w' hx).trans hx
  | err e => trivial
  | panic => exact hx

/-- A value computed on the way, without a panic. -/
theorem appends_lift {α : Type} {r : Wire α} {f : α → Wire Writer} (hr : r ≠ .panic)
    (hf : ∀ a, r = .ok a → w.Appends (f a)) : w.Appends (r >>= f) := by
  cases r with
  | ok a => exact hf a rfl
  | err e => trivial
  | panic => exact absurd rfl hr

theorem Appends.ne_panic (h : w.Appends x) : x ≠ .panic := by
  rintro rfl
  exact h

theorem u8_puts (w : Writer) (value : UInt8) : w.Puts [value] (w.u8 value) := append_puts _ _

theorem u16_puts (w : Writer) (value : UInt16) :
    w.Puts (LittleEndian.encode 2 value.toNat) (w.u16 value) := append_puts _ _

theorem u32_puts (w : Writer) (value : UInt32) :
    w.Puts (LittleEndian.encode 4 value.toNat) (w.u32 value) := append_puts _ _

theorem u64_puts (w : Writer) (value : UInt64) :
    w.Puts (LittleEndian.encode 8 value.toNat) (w.u64 value) := append_puts _ _

theorem string_appends (w : Writer) (value : String) : w.Appends (w.string value) := by
  unfold string
  split
  · trivial
  · exact (u16_puts w _).appends.bind fun w' _ => (append_puts w' _).appends

/-- The thirteen bytes of a qid. -/
def qidBytes (inode : Inode) : List UInt8 :=
  [qidType inode.kind] ++ (LittleEndian.encode 4 inode.version.toNat ++
    LittleEndian.encode 8 (UInt64.ofNat inode.id).toNat)

theorem length_qidBytes (inode : Inode) : (qidBytes inode).length = 13 := by
  simp [qidBytes]

theorem qid_puts (w : Writer) (inode : Inode) : w.Puts (qidBytes inode) (w.qid inode) :=
  (u8_puts w _).bind fun w' _ => (u32_puts w' _).bind fun w'' _ => u64_puts w'' _

theorem qid_fits (inode : Inode) (hcap : w.capacity ≤ usizeMax)
    (hroom : w.bytes.length + 13 ≤ w.capacity) : w.Fits (qidBytes inode) (w.qid inode) := by
  refine Fits.bind (append_fits hcap ?_) fun w' h' => ?_
  · rw [List.length_singleton]
    omega
  have hlength := h'.length
  rw [List.length_singleton] at hlength
  refine Fits.bind (append_fits (h'.capacity ▸ hcap) ?_) fun w'' h'' => ?_
  · rw [LittleEndian.length_encode, h'.capacity]
    omega
  have hlength' := h''.length
  rw [LittleEndian.length_encode] at hlength'
  refine append_fits (h''.capacity ▸ h'.capacity ▸ hcap) ?_
  rw [LittleEndian.length_encode, h''.capacity, h'.capacity]
  omega

/-! ## Whole messages -/

/-- The seven bytes in front of a reply, before its length is known. -/
def headerBytes (kind : UInt8) (tag : UInt16) : List UInt8 :=
  List.replicate 4 0 ++ ([kind] ++ LittleEndian.encode 2 tag.toNat)

theorem length_headerBytes (kind : UInt8) (tag : UInt16) : (headerBytes kind tag).length = 7 := by
  simp [headerBytes]

theorem new_eq {kind : UInt8} {tag : UInt16} {capacity : Nat} (hcap : capacity ≤ usizeMax)
    (h : 7 ≤ capacity) :
    ∃ w, new kind tag capacity = .ok w ∧ w.capacity = capacity ∧ w.bytes = headerBytes kind tag := by
  unfold new
  rw [dif_neg (Nat.not_lt.mpr h)]
  obtain ⟨w₁, hw₁, h₁⟩ := append_fits (w := ⟨List.replicate 4 0, capacity, by simp, by simp; omega⟩)
    (b := [kind]) hcap (by simp; omega)
  have hl₁ := h₁.length
  simp only [List.length_replicate, List.length_singleton] at hl₁
  have hc₁ : w₁.capacity = capacity := h₁.capacity
  obtain ⟨w₂, hw₂, h₂⟩ := append_fits (w := w₁) (b := LittleEndian.encode 2 tag.toNat)
    (hc₁ ▸ hcap) (by rw [LittleEndian.length_encode, hc₁]; omega)
  refine ⟨w₂, ?_, h₂.capacity.trans hc₁, ?_⟩
  · show (append _ [kind] >>= fun w => w.u16 tag) = _
    rw [hw₁]
    exact hw₂
  · rw [h₂.bytes, h₁.bytes, headerBytes, List.append_assoc]

theorem new_err {kind : UInt8} {tag : UInt16} {capacity : Nat} (h : capacity < 7) :
    new kind tag capacity = .err ENOSPC := by
  unfold new
  rw [dif_pos h]

theorem finish_eq {ε : Type} {w : Writer} (h : w.bytes.length ≤ u32Max) :
    (w.finish : Outcome ε (List UInt8)) =
      .ok (LittleEndian.encode 4 w.bytes.length ++ w.bytes.drop 4) := by
  have hlt : w.bytes.length < 2 ^ 32 := by
    rw [u32Max] at h
    omega
  unfold finish expectU32
  rw [if_pos h, Outcome.ok_bind, UInt32.toNat_ofNat_of_lt' hlt]

end Writer

end Riscbox
