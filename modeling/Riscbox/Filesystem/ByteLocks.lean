import Riscbox.Collections.Regions
import Riscbox.Filesystem.Contents

/-!
# Byte-range locks as a map on bytes

What the lock list stands for: a partial map from the bytes of a file, for one owner, to
the kind of the lock and the session that set it.  Every operation on the list is an
operation on this map.
-/

namespace Riscbox.Filesystem

/-- One byte of a file, as one owner sees it. -/
structure LockByte where
  inode : InodeId
  process : UInt32
  client : String
  offset : Nat
  deriving DecidableEq

/-- Does a lock hold this byte for this owner? -/
def covers (lock : ByteRangeLock) (byte : LockByte) : Bool :=
  lock.inode = byte.inode && lock.process = byte.process && lock.client = byte.client &&
    lock.start.toNat ≤ byte.offset && byte.offset < lockEnd lock

/-- The kind and the session of a lock. -/
def lockValue (lock : ByteRangeLock) : LockKind × Nat := (lock.kind, lock.session)

/-- The map on bytes that a lock list stands for. -/
def heldBytes (locks : List ByteRangeLock) (byte : LockByte) : Option (LockKind × Nat) :=
  Regions.valueAt covers lockValue locks byte

/-- The bytes of one owner are disjoint, and no two owners conflict. -/
structure LocksSound (locks : List ByteRangeLock) : Prop where
  disjoint : Regions.Disjoint covers locks
  compatible : ∀ a ∈ locks, ∀ b ∈ locks, conflicts a b = false

/-- Some byte of the request is held by another owner, and one of the two locks is a
write lock. -/
def ConflictingByte (locks : List ByteRangeLock) (requested : ByteRangeLock) : Prop :=
  ∃ byte kind session, byte.inode = requested.inode ∧
    ¬(byte.process = requested.process ∧ byte.client = requested.client) ∧
    requested.start.toNat ≤ byte.offset ∧ byte.offset < lockEnd requested ∧
    heldBytes locks byte = some (kind, session) ∧ (kind = .write ∨ requested.kind = .write)

/-! ## Bytes of a lock -/

theorem covers_iff {lock : ByteRangeLock} {byte : LockByte} :
    covers lock byte = true ↔ lock.inode = byte.inode ∧ lock.process = byte.process ∧
      lock.client = byte.client ∧ lock.start.toNat ≤ byte.offset ∧
      byte.offset < lockEnd lock := by
  simp [covers, and_assoc]

theorem lockEnd_le (lock : ByteRangeLock) : lockEnd lock ≤ offsetLimit := by
  unfold lockEnd
  split
  · exact Nat.le_refl _
  · exact Nat.min_le_right _ _

theorem lockEnd_of_zero {lock : ByteRangeLock} (h : lock.length = 0) :
    lockEnd lock = offsetLimit := by
  rw [lockEnd, if_pos h]

theorem lockEnd_of_ne_zero {lock : ByteRangeLock} (h : lock.length ≠ 0) :
    lockEnd lock = min (lock.start.toNat + lock.length.toNat) offsetLimit := by
  rw [lockEnd, if_neg h]

theorem length_pos {length : UInt64} (h : length ≠ 0) : 0 < length.toNat := by
  rcases Nat.eq_zero_or_pos length.toNat with h0 | hpos
  · exact absurd (UInt64.toNat_inj.mp (by simpa using h0)) h
  · exact hpos

theorem start_lt_lockEnd (lock : ByteRangeLock) : lock.start.toNat < lockEnd lock := by
  have hlt : lock.start.toNat < offsetLimit := lock.start.toNat_lt
  unfold lockEnd
  split
  · exact hlt
  next h =>
    have hpos := length_pos h
    exact Nat.lt_min.mpr ⟨by omega, hlt⟩

/-- Two ranges overlap when they share a byte. -/
theorem rangesOverlap_iff (a b : ByteRangeLock) :
    rangesOverlap a.start a.length b.start b.length = true ↔
      a.start.toNat < lockEnd b ∧ b.start.toNat < lockEnd a := by
  have ha : a.start.toNat < offsetLimit := a.start.toNat_lt
  have hb : b.start.toNat < offsetLimit := b.start.toNat_lt
  have hmax : offsetLimit < u128Max := by decide
  have hend : ∀ (x : ByteRangeLock) (n : Nat), n < offsetLimit →
      (n < (if x.length = 0 then u128Max else x.start.toNat + x.length.toNat) ↔ n < lockEnd x) := by
    intro x n hn
    unfold lockEnd
    split
    · omega
    · rw [Nat.lt_min]
      omega
  unfold rangesOverlap
  simp only [Bool.and_eq_true, decide_eq_true_eq]
  rw [hend b _ ha, hend a _ hb]

theorem sameLockOwner_iff (a b : ByteRangeLock) :
    sameLockOwner a b = true ↔ a.process = b.process ∧ a.client = b.client := by
  simp [sameLockOwner]

theorem conflicts_iff (requested held : ByteRangeLock) :
    conflicts requested held = true ↔ held.inode = requested.inode ∧
      ¬(held.process = requested.process ∧ held.client = requested.client) ∧
      (held.kind = .write ∨ requested.kind = .write) ∧
      held.start.toNat < lockEnd requested ∧ requested.start.toNat < lockEnd held := by
  unfold conflicts
  rw [Bool.and_eq_true, Bool.and_eq_true, Bool.and_eq_true, rangesOverlap_iff,
    Bool.not_eq_true', ← Bool.not_eq_true, sameLockOwner_iff]
  simp only [Bool.or_eq_true, decide_eq_true_eq, and_assoc]

/-! ## What is left of a lock -/

/-- The piece of a held lock before the request. -/
def leftPiece (requested held : ByteRangeLock) : ByteRangeLock :=
  { held with length := requested.start - held.start }

/-- The piece of a held lock after the request. -/
def rightPiece (requested held : ByteRangeLock) : ByteRangeLock :=
  { held with
    start := UInt64.ofNat (lockEnd requested)
    length := if lockEnd held = offsetLimit then 0
      else UInt64.ofNat (lockEnd held - lockEnd requested) }

/-- The pieces of a held lock outside the request, when the two overlap. -/
def remaining (requested held : ByteRangeLock) : List ByteRangeLock :=
  (if held.start < requested.start then [leftPiece requested held] else []) ++
    (if lockEnd requested < lockEnd held then [rightPiece requested held] else [])

/-- What is left of a stored lock after a request. -/
def cut (requested held : ByteRangeLock) : List ByteRangeLock :=
  if held.inode ≠ requested.inode ∨ !sameLockOwner held requested ∨
      !rangesOverlap held.start held.length requested.start requested.length then [held]
  else remaining requested held

theorem expectU64_ok {value : Nat} (h : value < offsetLimit) :
    expectU64 value = .ok (UInt64.ofNat value) := by
  have hle : value ≤ u64Max := by
    have : u64Max + 1 = offsetLimit := by decide
    omega
  rw [expectU64, if_pos hle]

/-- The two `expect`s never fire. -/
theorem remainingPieces_ok (requested held : ByteRangeLock) :
    remainingPieces requested held = .ok (remaining requested held) := by
  have hheld := lockEnd_le held
  unfold remainingPieces remaining
  dsimp only
  by_cases hright : lockEnd requested < lockEnd held
  · rw [if_pos hright, if_pos hright, expectU64_ok (by omega), Outcome.ok_bind]
    by_cases hinf : lockEnd held = offsetLimit
    · rw [if_pos hinf, rightPiece, if_pos hinf]
      rfl
    · rw [if_neg hinf, rightPiece, if_neg hinf, expectU64_ok (by omega)]
      rfl
  · rw [if_neg hright, if_neg hright, List.append_nil]
    rfl

theorem subtractOwned_ok (requested : ByteRangeLock) (locks : List ByteRangeLock) :
    subtractOwned requested locks = .ok (locks.flatMap (cut requested)) := by
  induction locks with
  | nil => rfl
  | cons held rest ih =>
    rw [subtractOwned, List.flatMap_cons, cut]
    split
    · rw [ih]
      rfl
    · rw [remainingPieces_ok, ih]
      rfl

/-- The same file, owner, kind and session. -/
def SameHolder (a b : ByteRangeLock) : Prop :=
  b.inode = a.inode ∧ b.process = a.process ∧ b.client = a.client ∧ b.kind = a.kind ∧
    b.session = a.session

theorem lockEnd_left {requested held : ByteRangeLock} (h : held.start < requested.start) :
    lockEnd (leftPiece requested held) = requested.start.toNat := by
  have hlt := UInt64.lt_iff_toNat_lt.mp h
  have hlength : (requested.start - held.start).toNat =
      requested.start.toNat - held.start.toNat :=
    UInt64.toNat_sub_of_le _ _ (UInt64.le_iff_toNat_le.mpr (Nat.le_of_lt hlt))
  have hne : requested.start - held.start ≠ 0 := by
    intro h0
    rw [h0] at hlength
    simp at hlength
    omega
  have hlimit : requested.start.toNat < offsetLimit := requested.start.toNat_lt
  rw [lockEnd_of_ne_zero (show (leftPiece requested held).length ≠ 0 from hne), leftPiece]
  dsimp only
  rw [hlength]
  omega

theorem toNat_ofNat {n : Nat} (h : n < offsetLimit) : (UInt64.ofNat n).toNat = n :=
  UInt64.toNat_ofNat_of_lt' h

theorem start_right {requested held : ByteRangeLock} (h : lockEnd requested < lockEnd held) :
    (rightPiece requested held).start.toNat = lockEnd requested :=
  toNat_ofNat (Nat.lt_of_lt_of_le h (lockEnd_le held))

theorem lockEnd_right {requested held : ByteRangeLock} (h : lockEnd requested < lockEnd held) :
    lockEnd (rightPiece requested held) = lockEnd held := by
  have hle := lockEnd_le held
  have hstart := start_right h
  by_cases hinf : lockEnd held = offsetLimit
  · rw [lockEnd_of_zero (by rw [rightPiece, if_pos hinf]), hinf]
  · have hlength : (UInt64.ofNat (lockEnd held - lockEnd requested)).toNat =
        lockEnd held - lockEnd requested := toNat_ofNat (by omega)
    have hne : UInt64.ofNat (lockEnd held - lockEnd requested) ≠ 0 := by
      intro h0
      rw [h0] at hlength
      simp at hlength
      omega
    have hpiece : (rightPiece requested held).length =
        UInt64.ofNat (lockEnd held - lockEnd requested) := by rw [rightPiece, if_neg hinf]
    rw [lockEnd_of_ne_zero (by rw [hpiece]; exact hne), hstart, hpiece, hlength]
    omega

/-- A piece lies left of the request or right of it. -/
theorem mem_remaining {requested held piece : ByteRangeLock}
    (h : piece ∈ remaining requested held) : SameHolder held piece ∧
      ((held.start.toNat < requested.start.toNat ∧ piece.start.toNat = held.start.toNat ∧
          lockEnd piece = requested.start.toNat ∧ piece.length ≠ 0) ∨
        (lockEnd requested < lockEnd held ∧ piece.start.toNat = lockEnd requested ∧
          lockEnd piece = lockEnd held ∧
          (piece.length = 0 → lockEnd held = offsetLimit))) := by
  unfold remaining at h
  rcases List.mem_append.mp h with h | h
  · split at h
    next hlt =>
      rw [List.mem_singleton] at h
      subst h
      refine ⟨⟨rfl, rfl, rfl, rfl, rfl⟩, .inl ⟨UInt64.lt_iff_toNat_lt.mp hlt, rfl,
        lockEnd_left hlt, ?_⟩⟩
      intro h0
      have hend := lockEnd_left hlt
      rw [lockEnd_of_zero h0] at hend
      have hlimit : requested.start.toNat < offsetLimit := requested.start.toNat_lt
      omega
    · cases h
  · split at h
    next hlt =>
      rw [List.mem_singleton] at h
      subst h
      have hle := lockEnd_le held
      refine ⟨⟨rfl, rfl, rfl, rfl, rfl⟩, .inr ⟨hlt, start_right hlt, lockEnd_right hlt, ?_⟩⟩
      unfold rightPiece
      dsimp only
      split
      next hinf => exact fun _ => hinf
      next hinf =>
        intro h0
        have hlength : (UInt64.ofNat (lockEnd held - lockEnd requested)).toNat =
            lockEnd held - lockEnd requested := toNat_ofNat (by omega)
        rw [h0] at hlength
        simp at hlength
        omega
    · cases h

/-- The bytes of one piece are covered exactly when they are on its side of the request. -/
theorem exists_remaining_covers {requested held : ByteRangeLock} {byte : LockByte} :
    (∃ piece ∈ remaining requested held, covers piece byte = true) ↔
      held.inode = byte.inode ∧ held.process = byte.process ∧ held.client = byte.client ∧
        ((held.start.toNat ≤ byte.offset ∧ byte.offset < requested.start.toNat) ∨
          (lockEnd requested ≤ byte.offset ∧ byte.offset < lockEnd held)) := by
  constructor
  · rintro ⟨piece, hpiece, hcovers⟩
    obtain ⟨hinode, hprocess, hclient, hlo, hhi⟩ := covers_iff.mp hcovers
    obtain ⟨⟨h₁, h₂, h₃, -, -⟩, hside⟩ := mem_remaining hpiece
    refine ⟨h₁.symm.trans hinode, h₂.symm.trans hprocess, h₃.symm.trans hclient, ?_⟩
    rcases hside with ⟨_, hstart, hend, _⟩ | ⟨_, hstart, hend, _⟩ <;> omega
  · rintro ⟨hinode, hprocess, hclient, ⟨hlo, hhi⟩ | ⟨hlo, hhi⟩⟩
    · have hlt : held.start < requested.start := UInt64.lt_iff_toNat_lt.mpr (by omega)
      refine ⟨leftPiece requested held,
        List.mem_append_left _ (by rw [if_pos hlt]; exact List.mem_singleton_self _), covers_iff.mpr ⟨hinode, hprocess, hclient, hlo, ?_⟩⟩
      rw [lockEnd_left hlt]
      exact hhi
    · have hlt : lockEnd requested < lockEnd held := by omega
      refine ⟨rightPiece requested held,
        List.mem_append_right _ (by rw [if_pos hlt]; exact List.mem_singleton_self _),
        covers_iff.mpr ⟨hinode, hprocess, hclient, ?_, ?_⟩⟩
      · rw [start_right hlt]
        exact hlo
      · rw [lockEnd_right hlt]
        exact hhi

/-- A request cuts its own bytes out of every stored lock. -/
theorem cut_cuts (requested : ByteRangeLock) :
    Regions.Cuts covers lockValue (fun _ byte => !covers requested byte) (cut requested) where
  value_eq := by
    intro held piece hpiece
    unfold cut at hpiece
    split at hpiece
    · rw [List.mem_singleton.mp hpiece]
    · obtain ⟨⟨-, -, -, hkind, hsession⟩, -⟩ := mem_remaining hpiece
      rw [lockValue, lockValue, hkind, hsession]
  covers_iff := by
    intro held byte
    unfold cut
    split
    next hout =>
      -- a byte covered by both would make the ranges of one owner overlap
      have hkeep : covers held byte = true → (!covers requested byte) = true := by
        intro hheld
        rw [Bool.not_eq_true', ← Bool.not_eq_true]
        intro hreq
        obtain ⟨h₁, h₂, h₃, hlo, hhi⟩ := covers_iff.mp hheld
        obtain ⟨h₁', h₂', h₃', hlo', hhi'⟩ := covers_iff.mp hreq
        rcases hout with hinode | howner | hrange
        · exact hinode (h₁.trans h₁'.symm)
        · rw [Bool.not_eq_true', ← Bool.not_eq_true, sameLockOwner_iff] at howner
          exact howner ⟨h₂.trans h₂'.symm, h₃.trans h₃'.symm⟩
        · rw [Bool.not_eq_true', ← Bool.not_eq_true, rangesOverlap_iff] at hrange
          exact hrange ⟨by omega, by omega⟩
      constructor
      · rintro ⟨piece, hpiece, hcovers⟩
        rw [List.mem_singleton.mp hpiece] at hcovers
        exact ⟨hcovers, hkeep hcovers⟩
      · exact fun h => ⟨held, List.mem_singleton_self _, h.1⟩
    next hin =>
      rw [exists_remaining_covers, covers_iff, Bool.not_eq_true', ← Bool.not_eq_true, covers_iff]
      simp only [not_or, not_not, Bool.not_eq_true', Bool.not_eq_false, ne_eq] at hin
      obtain ⟨hinode, howner, hrange⟩ := hin
      obtain ⟨hprocess, hclient⟩ := (sameLockOwner_iff _ _).mp howner
      obtain ⟨hleft, hright⟩ := (rangesOverlap_iff held requested).mp hrange
      rw [← hinode, ← hprocess, ← hclient]
      have := start_lt_lockEnd requested
      constructor
      · rintro ⟨h₁, h₂, h₃, hside⟩
        refine ⟨⟨h₁, h₂, h₃, by omega, by omega⟩, ?_⟩
        rintro ⟨-, -, -, hlo, hhi⟩
        omega
      · rintro ⟨⟨h₁, h₂, h₃, hlo, hhi⟩, hnot⟩
        refine ⟨h₁, h₂, h₃, ?_⟩
        by_contra hneither
        exact hnot ⟨h₁, h₂, h₃, by omega, by omega⟩
  disjoint := by
    intro held
    unfold cut
    split
    · exact List.pairwise_singleton _ _
    · unfold remaining Regions.Disjoint
      rw [List.pairwise_append]
      refine ⟨?_, ?_, ?_⟩
      · split
        · exact List.pairwise_singleton _ _
        · exact List.Pairwise.nil
      · split
        · exact List.pairwise_singleton _ _
        · exact List.Pairwise.nil
      · intro left hleft right hright byte hcovers
        have hsides := start_lt_lockEnd requested
        split at hleft
        next hlt =>
          split at hright
          next hlt' =>
            rw [List.mem_singleton] at hleft hright
            obtain ⟨-, -, -, -, hhi⟩ := covers_iff.mp hcovers
            rw [hleft, lockEnd_left hlt] at hhi
            rw [← Bool.not_eq_true, covers_iff]
            rintro ⟨-, -, -, hlo, -⟩
            rw [hright, start_right hlt'] at hlo
            omega
          · cases hright
        · cases hleft

/-! ## Operations on the map -/

/-- A piece stays inside the lock it was cut from. -/
theorem mem_cut {requested held piece : ByteRangeLock} (h : piece ∈ cut requested held) :
    SameHolder held piece ∧ held.start.toNat ≤ piece.start.toNat ∧
      lockEnd piece ≤ lockEnd held ∧ (piece.length = 0 → lockEnd held = offsetLimit) := by
  unfold cut at h
  split at h
  · rw [List.mem_singleton] at h
    subst h
    exact ⟨⟨rfl, rfl, rfl, rfl, rfl⟩, Nat.le_refl _, Nat.le_refl _, lockEnd_of_zero⟩
  next hin =>
    simp only [not_or, not_not, Bool.not_eq_true', Bool.not_eq_false, ne_eq] at hin
    obtain ⟨hleft, hright⟩ := (rangesOverlap_iff held requested).mp hin.2.2
    obtain ⟨hsame, hside⟩ := mem_remaining h
    refine ⟨hsame, ?_⟩
    have hstart := start_lt_lockEnd requested
    rcases hside with ⟨hlt, hlo, hhi, hne⟩ | ⟨hlt, hlo, hhi, hinf⟩
    · exact ⟨by omega, by omega, fun h0 => absurd h0 hne⟩
    · exact ⟨by omega, by omega, hinf⟩

theorem heldBytes_cut {locks : List ByteRangeLock} (h : LocksSound locks)
    (requested : ByteRangeLock) (byte : LockByte) :
    heldBytes (locks.flatMap (cut requested)) byte =
      if covers requested byte then none else heldBytes locks byte := by
  unfold heldBytes
  rw [(cut_cuts requested).valueAt_flatMap h.disjoint (fun _ _ _ => rfl)]
  cases covers requested byte <;> rfl

theorem heldBytes_grant {locks : List ByteRangeLock} (h : LocksSound locks)
    (requested : ByteRangeLock) (byte : LockByte) :
    heldBytes (locks.flatMap (cut requested) ++ [requested]) byte =
      if covers requested byte then some (requested.kind, requested.session)
      else heldBytes locks byte := by
  have hcut := heldBytes_cut h requested byte
  unfold heldBytes at hcut ⊢
  rw [Regions.valueAt_append, hcut, Regions.valueAt_cons]
  cases covers requested byte with
  | true => rfl
  | false => cases Regions.valueAt covers lockValue locks byte <;> rfl

theorem heldBytes_release {locks : List ByteRangeLock} (h : LocksSound locks) (session : Nat)
    (byte : LockByte) :
    heldBytes (locks.filter (·.session ≠ session)) byte =
      (heldBytes locks byte).filter (·.2 ≠ session) :=
  h.disjoint.valueAt_filter (fun v : LockKind × Nat => decide (v.2 ≠ session)) byte

/-- A conflict between two locks is a conflict on a byte. -/
theorem conflictingByte_iff {locks : List ByteRangeLock} (h : LocksSound locks)
    (requested : ByteRangeLock) :
    ConflictingByte locks requested ↔ ∃ held ∈ locks, conflicts requested held = true := by
  constructor
  · rintro ⟨byte, kind, session, hinode, howner, hlo, hhi, hheld, hwrite⟩
    obtain ⟨held, hmem, hcovers, hvalue⟩ := Regions.exists_of_valueAt hheld
    cases hvalue
    obtain ⟨h₁, h₂, h₃, hlo', hhi'⟩ := covers_iff.mp hcovers
    refine ⟨held, hmem, (conflicts_iff requested held).mpr ⟨h₁.trans hinode, ?_, hwrite, ?_, ?_⟩⟩
    · rw [h₂, h₃]
      exact howner
    · omega
    · omega
  · rintro ⟨held, hmem, hconflict⟩
    obtain ⟨hinode, howner, hwrite, hleft, hright⟩ := (conflicts_iff requested held).mp hconflict
    have h₁ := start_lt_lockEnd requested
    have h₂ := start_lt_lockEnd held
    let byte : LockByte :=
      { inode := held.inode, process := held.process, client := held.client
        offset := max held.start.toNat requested.start.toNat }
    have hcovers : covers held byte = true :=
      covers_iff.mpr ⟨rfl, rfl, rfl, Nat.le_max_left _ _, Nat.max_lt.mpr ⟨h₂, hright⟩⟩
    exact ⟨byte, held.kind, held.session, hinode, howner, Nat.le_max_right _ _,
      Nat.max_lt.mpr ⟨hleft, h₁⟩, h.disjoint.valueAt_of_mem hmem hcovers, hwrite⟩

theorem conflicts_symm {a b : ByteRangeLock} (h : conflicts a b = true) :
    conflicts b a = true := by
  obtain ⟨hinode, howner, hwrite, hleft, hright⟩ := (conflicts_iff a b).mp h
  refine (conflicts_iff b a).mpr ⟨hinode.symm, ?_, hwrite.symm, hright, hleft⟩
  rintro ⟨hprocess, hclient⟩
  exact howner ⟨hprocess.symm, hclient.symm⟩

/-- Pieces conflict only if the locks that they were cut from do. -/
theorem conflicts_of_pieces {a a' b b' : ByteRangeLock} (ha : SameHolder a a')
    (hb : SameHolder b b') (ha' : a.start.toNat ≤ a'.start.toNat ∧ lockEnd a' ≤ lockEnd a)
    (hb' : b.start.toNat ≤ b'.start.toNat ∧ lockEnd b' ≤ lockEnd b)
    (h : conflicts a' b' = true) : conflicts a b = true := by
  obtain ⟨hinode, howner, hwrite, hleft, hright⟩ := (conflicts_iff a' b').mp h
  obtain ⟨a₁, a₂, a₃, a₄, -⟩ := ha
  obtain ⟨b₁, b₂, b₃, b₄, -⟩ := hb
  rw [a₁, b₁] at hinode
  rw [a₂, a₃, b₂, b₃] at howner
  rw [a₄, b₄] at hwrite
  exact (conflicts_iff a b).mpr ⟨hinode, howner, hwrite, by omega, by omega⟩

theorem SameHolder.refl (a : ByteRangeLock) : SameHolder a a := ⟨rfl, rfl, rfl, rfl, rfl⟩

namespace LocksSound

variable {locks : List ByteRangeLock}

theorem nil : LocksSound [] := ⟨.nil, by simp⟩

theorem filter (h : LocksSound locks) (keep : ByteRangeLock → Bool) :
    LocksSound (locks.filter keep) where
  disjoint := h.disjoint.filter keep
  compatible := fun a ha b hb =>
    h.compatible a (List.mem_of_mem_filter ha) b (List.mem_of_mem_filter hb)

theorem cut (h : LocksSound locks) (requested : ByteRangeLock) :
    LocksSound (locks.flatMap (cut requested)) where
  disjoint := (cut_cuts requested).disjoint_flatMap h.disjoint
  compatible := by
    intro a' ha' b' hb'
    obtain ⟨a, ha, hpiece⟩ := List.mem_flatMap.mp ha'
    obtain ⟨b, hb, hpiece'⟩ := List.mem_flatMap.mp hb'
    obtain ⟨hsame, hlo, hhi, -⟩ := mem_cut hpiece
    obtain ⟨hsame', hlo', hhi', -⟩ := mem_cut hpiece'
    rw [← Bool.not_eq_true]
    intro hconflict
    have hab := conflicts_of_pieces hsame hsame' ⟨hlo, hhi⟩ ⟨hlo', hhi'⟩ hconflict
    rw [h.compatible a ha b hb] at hab
    cases hab

theorem grant (h : LocksSound locks) {requested : ByteRangeLock}
    (hfree : ∀ held ∈ locks, conflicts requested held = false) :
    LocksSound (locks.flatMap (Filesystem.cut requested) ++ [requested]) where
  disjoint := by
    refine (h.cut requested).disjoint.append_singleton fun piece hpiece byte hcovers => ?_
    obtain ⟨held, -, hpiece⟩ := List.mem_flatMap.mp hpiece
    simpa using ((cut_cuts requested).covers_of_mem hpiece hcovers).2
  compatible := by
    have hnew : ∀ piece ∈ locks.flatMap (Filesystem.cut requested),
        conflicts requested piece = false := by
      intro piece hpiece
      obtain ⟨held, hheld, hpiece⟩ := List.mem_flatMap.mp hpiece
      obtain ⟨hsame, hlo, hhi, -⟩ := mem_cut hpiece
      rw [← Bool.not_eq_true]
      intro hconflict
      have hab := conflicts_of_pieces (.refl requested) hsame ⟨Nat.le_refl _, Nat.le_refl _⟩
        ⟨hlo, hhi⟩ hconflict
      rw [hfree held hheld] at hab
      cases hab
    have hself : conflicts requested requested = false := by
      rw [← Bool.not_eq_true, conflicts_iff]
      rintro ⟨-, howner, -⟩
      exact howner ⟨rfl, rfl⟩
    intro a ha b hb
    rcases List.mem_append.mp ha with ha | ha <;> rcases List.mem_append.mp hb with hb | hb
    · exact (h.cut requested).compatible a ha b hb
    · rw [List.mem_singleton.mp hb, ← Bool.not_eq_true]
      intro hconflict
      have hab := conflicts_symm hconflict
      rw [hnew a ha] at hab
      cases hab
    · rw [List.mem_singleton.mp ha]
      exact hnew b hb
    · rw [List.mem_singleton.mp ha, List.mem_singleton.mp hb]
      exact hself

end LocksSound

/-! ## The calls -/

theorem checkFileInode_ne_panic (fs : Filesystem) (id : InodeId) :
    fs.checkFileInode id ≠ .panic := by
  refine Outcome.bind_ne_panic (inodeOf_ne_panic fs id) fun n _ => ?_
  split <;> simp

theorem conflictingLock_ne_panic (fs : Filesystem) (requested : ByteRangeLock) :
    fs.conflictingLock requested ≠ .panic :=
  Outcome.bind_ne_panic (checkFileInode_ne_panic fs _) fun _ _ => by simp

theorem subtractOwnedRange_eq (requested : ByteRangeLock) (fs : Filesystem) :
    subtractOwnedRange requested fs =
      (.ok (), { fs with locks := fs.locks.flatMap (cut requested) }) := by
  unfold subtractOwnedRange
  rw [Op.bind_ok (Op.get_apply _), Op.bind_ok (Op.lift_ok (subtractOwned_ok _ _) _)]
  rfl

theorem conflictingLock_eq {fs : Filesystem} {requested : ByteRangeLock}
    (hfile : fs.checkFileInode requested.inode = .ok ()) :
    fs.conflictingLock requested = .ok (fs.locks.find? (conflicts requested)) := by
  rw [conflictingLock, hfile]
  rfl

theorem reading_conflictingLock {fs : Filesystem} {requested : ByteRangeLock}
    (hfile : fs.checkFileInode requested.inode = .ok ()) :
    Op.reading (·.conflictingLock requested) fs =
      (.ok (fs.locks.find? (conflicts requested)), fs) :=
  Op.reading_ok (conflictingLock_eq hfile)

theorem tryLock_refused {fs : Filesystem} {requested held : ByteRangeLock}
    (hfile : fs.checkFileInode requested.inode = .ok ()) (hmem : held ∈ fs.locks)
    (hconflict : conflicts requested held = true) :
    tryLock requested fs = (.ok false, fs) := by
  have hsome : (fs.locks.find? (conflicts requested)).isSome = true :=
    List.find?_isSome.mpr ⟨held, hmem, hconflict⟩
  unfold tryLock
  rw [Op.bind_ok (reading_conflictingLock hfile), if_pos hsome]
  rfl

/-- A granted lock is cut out of the owner's locks and added. -/
theorem tryLock_granted {fs : Filesystem} {requested : ByteRangeLock}
    (hfile : fs.checkFileInode requested.inode = .ok ())
    (hfree : ∀ held ∈ fs.locks, conflicts requested held = false) :
    tryLock requested fs =
      (.ok true, { fs with locks := fs.locks.flatMap (cut requested) ++ [requested] }) := by
  have hnone : ¬(fs.locks.find? (conflicts requested)).isSome = true := by
    rw [List.find?_isSome]
    rintro ⟨held, hmem, hconflict⟩
    rw [hfree held hmem] at hconflict
    cases hconflict
  unfold tryLock
  rw [Op.bind_ok (reading_conflictingLock hfile), if_neg hnone,
    Op.bind_ok (subtractOwnedRange_eq requested fs)]
  rfl

theorem tryLock_ends (fs : Filesystem) (requested : ByteRangeLock) :
    (tryLock requested).Ends fs fun granted fs' =>
      fs.checkFileInode requested.inode = .ok () ∧
      ((granted = false ∧ fs' = fs) ∨
        (granted = true ∧ (∀ held ∈ fs.locks, conflicts requested held = false) ∧
          fs' = { fs with locks := fs.locks.flatMap (cut requested) ++ [requested] })) := by
  cases hfile : fs.checkFileInode requested.inode with
  | err e =>
    have hread : Op.reading (·.conflictingLock requested) fs = (.err e, fs) := by
      rw [Op.reading_apply, conflictingLock, hfile]
      rfl
    exact Op.ends_of_err (Op.bind_err hread)
  | panic => exact absurd hfile (checkFileInode_ne_panic fs _)
  | ok _ =>
    by_cases hconflict : ∃ held ∈ fs.locks, conflicts requested held = true
    · obtain ⟨held, hmem, hconflict⟩ := hconflict
      exact Op.Yields.ends ⟨false, fs, tryLock_refused hfile hmem hconflict, rfl, .inl ⟨rfl, rfl⟩⟩
    · have hfree : ∀ held ∈ fs.locks, conflicts requested held = false := by
        intro held hmem
        rw [← Bool.not_eq_true]
        exact fun h => hconflict ⟨held, hmem, h⟩
      exact Op.Yields.ends ⟨true, _, tryLock_granted hfile hfree, rfl, .inr ⟨rfl, hfree, rfl⟩⟩

/-- The request that an unlock cuts out. -/
def unlockRange (inode : InodeId) (session : Nat) (process : UInt32) (client : String)
    (start length : UInt64) : ByteRangeLock :=
  { inode := inode, session := session, process := process, client := client, kind := .read,
    start := start, length := length }

theorem unlock_eq {fs : Filesystem} {inode : InodeId} (hfile : fs.checkFileInode inode = .ok ())
    (session : Nat) (process : UInt32) (client : String) (start length : UInt64) :
    unlock inode session process client start length fs = (.ok (), { fs with
      locks := fs.locks.flatMap
        (cut (unlockRange inode session process client start length)) }) := by
  have hread : Op.reading (·.checkFileInode inode) fs = (.ok (), fs) := Op.reading_ok hfile
  unfold unlock
  rw [Op.bind_ok hread]
  exact subtractOwnedRange_eq _ fs

theorem unlock_ends (fs : Filesystem) (inode : InodeId) (session : Nat) (process : UInt32)
    (client : String) (start length : UInt64) :
    (unlock inode session process client start length).Ends fs fun _ fs' =>
      fs.checkFileInode inode = .ok () ∧ fs' = { fs with
        locks := fs.locks.flatMap
          (cut (unlockRange inode session process client start length)) } := by
  unfold unlock
  refine Op.ends_reading (checkFileInode_ne_panic fs inode) fun _ hfile => ?_
  exact Op.Yields.ends ⟨(), _, subtractOwnedRange_eq _ fs, hfile, rfl⟩

end Riscbox.Filesystem
