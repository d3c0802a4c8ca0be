import Riscbox.Protocol.Changing

/-!
# Requests that read the namespace

What they append, they append to a header with nothing after it, and no conversion or
subtraction on the way fails.
-/

namespace Riscbox

open NinePSession
open Filesystem (WellFormed Accounted)
open Writer (Appends appends_lift)

variable {a : Activation} {reply : Writer}

theorem words_appends (reply : Writer) (values : List UInt64) :
    reply.Appends (words reply values) := by
  induction values generalizing reply with
  | nil => exact Writer.appends_ok
  | cons value rest ih =>
    unfold words
    exact (reply.u64_puts value).appends.bind fun w _ => ih w

theorem expectU64_ne_panic {value : Nat} (h : value ≤ u64Max) : expectU64 value ≠ .panic := by
  unfold expectU64
  rw [if_pos h]
  exact fun h => by cases h

theorem statfs_appends (hw : WellFormed a.fs) (number : UInt32) :
    reply.Appends (statfs number reply a) := by
  have hused : a.fs.logicalBytes ≤ a.fs.limits.maxTreeBytes := hw.account.logicalBytes_le
  have hbytes := a.fs.limits.maxTreeBytes_le
  have hinodes := a.fs.limits.maxInodes_le
  have husize : usizeMax ≤ u64Max := by decide
  have hquarter : a.fs.limits.maxTreeBytes / 4096 ≤ a.fs.limits.maxTreeBytes := Nat.div_le_self _ _
  have hfree : (a.fs.limits.maxTreeBytes - a.fs.logicalBytes) / 4096 ≤
      a.fs.limits.maxTreeBytes - a.fs.logicalBytes := Nat.div_le_self _ _
  unfold statfs
  refine appends_lift (fid_ne_panic number a) fun _ _ => ?_
  refine (reply.u32_puts _).appends.bind fun w _ => ?_
  refine (w.u32_puts _).appends.bind fun w _ => ?_
  refine appends_lift (expectU64_ne_panic ?_) fun maximum _ => ?_
  · show a.fs.limits.maxTreeBytes / 4096 ≤ u64Max
    omega
  refine (w.u64_puts _).appends.bind fun w _ => ?_
  have hunused : (Outcome.sub a.fs.spaceUsage.maximumBytes a.fs.spaceUsage.usedBytes :
      Wire Nat) = .ok (a.fs.limits.maxTreeBytes - a.fs.logicalBytes) := Outcome.sub_eq hused
  rw [hunused, Outcome.ok_bind]
  refine appends_lift (expectU64_ne_panic (by omega)) fun free _ => ?_
  refine (words_appends w _).bind fun w _ => ?_
  refine appends_lift (expectU64_ne_panic ?_) fun maximumInodes _ => ?_
  · show a.fs.limits.maxInodes ≤ u64Max
    omega
  refine (w.u64_puts _).appends.bind fun w _ => ?_
  refine appends_lift (expectU64_ne_panic ?_) fun freeInodes _ => ?_
  · show a.fs.limits.maxInodes - a.fs.inodes.size ≤ u64Max
    omega
  exact (words_appends w _).bind fun w _ => (w.u32_puts 255).appends

/-- The entries of a directory are within the quota. -/
theorem linkCountOf_ne_panic (hw : WellFormed a.fs) {id : InodeId} {n : Inode}
    (hn : a.fs.inodes[id]? = some n) : linkCountOf a.fs n ≠ .panic := by
  have husize : usizeMax + 2 ≤ u64Max := by decide
  have hmax := a.fs.limits.maxDirectoryEntries_le
  have hentries : n.kind.entries.size ≤ a.fs.directoryEntries :=
    hw.account.entries_le_directoryEntries hn
  have hquota := hw.account.directoryEntries_le
  unfold linkCountOf
  cases hkind : n.kind with
  | file body => exact fun h => by cases h
  | symlink target => exact fun h => by cases h
  | directory entries nextCookie =>
    rw [hkind] at hentries
    have hcount : entries.toList.countP (fun p => isSubdirectory a.fs p.2) ≤ entries.size :=
      List.countP_le_length.trans (Nat.le_of_eq entries.length_toList)
    have hentries : entries.size ≤ a.fs.directoryEntries := hentries
    simp only []
    by_cases hlinked : n.linkCount ≠ 0
    · rw [if_pos hlinked]
      have hsmall : entries.toList.countP (fun p => isSubdirectory a.fs p.2) ≤ u64Max := by omega
      have hword : (UInt64.ofNat (entries.toList.countP fun p =>
          isSubdirectory a.fs p.2)).toNat = entries.toList.countP fun p => isSubdirectory a.fs p.2 :=
        UInt64.toNat_ofNat_of_lt' (Nat.lt_succ_of_le hsmall)
      have hadd : checkedAdd u64Max 2 (entries.toList.countP fun p => isSubdirectory a.fs p.2) =
          some (2 + entries.toList.countP fun p => isSubdirectory a.fs p.2) :=
        checkedAdd_eq_some.mpr ⟨by omega, rfl⟩
      rw [expectU64_eq hsmall, Outcome.ok_bind, hword, hadd, Outcome.expect_some, Outcome.ok_bind]
      exact fun h => by cases h
    · rw [if_neg hlinked]
      exact fun h => by cases h

/-- Bodies and targets are within the quotas. -/
theorem size_le (hw : WellFormed a.fs) {id : InodeId} {n : Inode}
    (hn : a.fs.inodes[id]? = some n) : n.size ≤ u64Max := by
  have husize : usizeMax ≤ u64Max := by decide
  have htarget : maxTargetBytes ≤ u64Max := by decide
  have hmax := a.fs.limits.maxFileBytes_le
  have hbody := hw.account.body_le hn
  have htarget_le := hw.account.target_le hn
  unfold Inode.size
  cases hkind : n.kind with
  | file body =>
    rw [hkind] at hbody
    have hbody : body.length ≤ a.fs.limits.maxFileBytes := hbody
    show body.length ≤ u64Max
    omega
  | symlink target =>
    rw [hkind] at htarget_le
    have htarget_le : target.utf8ByteSize ≤ maxTargetBytes := htarget_le
    show target.utf8ByteSize ≤ u64Max
    omega
  | directory entries nextCookie => exact Nat.zero_le _

theorem getattr_appends (hw : WellFormed a.fs) (id : InodeId) (mask : UInt64) :
    reply.Appends (getattr id mask reply a) := by
  unfold getattr
  refine appends_lift (inode_ne_panic id a) fun n hn => ?_
  have hn := inode_eq_ok hn
  refine (reply.u64_puts _).appends.bind fun w _ => ?_
  refine (w.qid_puts n).appends.bind fun w _ => ?_
  refine (w.u32_puts _).appends.bind fun w _ => ?_
  refine (w.u32_puts _).appends.bind fun w _ => ?_
  refine (w.u32_puts _).appends.bind fun w _ => ?_
  refine appends_lift (linkCountOf_ne_panic hw hn) fun links _ => ?_
  refine appends_lift (expectU64_ne_panic (size_le hw hn)) fun size _ => ?_
  exact words_appends w _

theorem readlink_appends (number : UInt32) : reply.Appends (readlink number reply a) := by
  unfold readlink
  refine appends_lift (fid_ne_panic number a) fun f _ => ?_
  refine appends_lift (inode_ne_panic f.inode a) fun n _ => ?_
  cases hkind : n.kind with
  | symlink target => exact reply.string_appends target
  | file body => exact Writer.appends_err _
  | directory entries nextCookie => exact Writer.appends_err _

/-- What stands before the entries stays where it is. -/
theorem listEntries_appends (fs : Filesystem) {start : Nat} (maximum : Nat) (offset : UInt64)
    (entries : List ListedEntry) (hstart : start ≤ reply.bytes.length) :
    reply.Appends (listEntries fs start maximum offset entries reply) := by
  induction entries generalizing reply with
  | nil => exact Writer.appends_ok
  | cons entry rest ih =>
    unfold listEntries
    by_cases hpassed : entry.cookie ≤ offset.toNat
    · rw [if_pos hpassed]
      exact ih hstart
    rw [if_neg hpassed, Outcome.sub_eq hstart, Outcome.ok_bind]
    by_cases hfull : maximum < reply.bytes.length - start + entrySize entry
    · rw [if_pos hfull]
      exact Writer.appends_ok
    rw [if_neg hfull]
    refine appends_lift (Outcome.okOr_ne_panic _ _) fun n _ => ?_
    refine (reply.qid_puts n).appends.bind fun w₁ hw₁ => ?_
    refine (w₁.u64_puts _).appends.bind fun w₂ hw₂ => ?_
    refine (w₂.u8_puts _).appends.bind fun w₃ hw₃ => ?_
    refine (w₃.string_appends entry.name).bind fun w₄ hw₄ => ?_
    have hgrown := ((hw₁.trans hw₂).trans hw₃).trans hw₄
    exact ih (hstart.trans hgrown.length_le)

theorem directoryEntriesOf_ne_panic (fs : Filesystem) (id : InodeId) :
    fs.directoryEntriesOf id ≠ .panic := by
  unfold Filesystem.directoryEntriesOf
  refine Outcome.bind_ne_panic (Filesystem.inodeOf_ne_panic fs id) fun n _ => ?_
  cases n.kind <;> exact fun h => by cases h

/-- The length in front of the entries is filled in afterwards. -/
theorem patch_grows {w : Writer} (hheader : reply.bytes.length = 7) (hgrows : reply.Grows w)
    (hlength : 11 ≤ w.bytes.length) (word : UInt32) :
    ∃ w', patch w word = .ok w' ∧ reply.Grows w' := by
  unfold patch
  rw [dif_pos hlength]
  obtain ⟨body, hbody⟩ := hgrows
  refine ⟨_, rfl, LittleEndian.encode 4 word.toNat ++ w.bytes.drop 11, hbody.capacity, ?_⟩
  have htake : w.bytes.take 7 = reply.bytes := by
    rw [hbody.bytes, ← hheader, List.take_left]
  show w.bytes.take 7 ++ LittleEndian.encode 4 word.toNat ++ w.bytes.drop 11 = _
  rw [htake, List.append_assoc]

theorem readdir_appends (hheader : reply.bytes.length = 7)
    (hcapacity : reply.capacity ≤ maxMessageSize) (number : UInt32) (offset : UInt64)
    (count : UInt32) : reply.Appends (readdir number offset count reply a) := by
  unfold readdir
  refine appends_lift (opened_ne_panic number a) fun p _ => ?_
  obtain ⟨f, flags⟩ := p
  dsimp only
  by_cases hreadable : (!flags.readable) = true
  · rw [if_pos hreadable]
    exact Writer.appends_err _
  rw [if_neg hreadable]
  cases hword : reply.u32 0 with
  | err e => exact Writer.appends_err _
  | panic => exact absurd hword (reply.u32_puts 0).ne_panic
  | ok w =>
    have hextends := (reply.u32_puts 0).of_ok hword
    have hlength := hextends.length
    rw [LittleEndian.length_encode, hheader] at hlength
    rw [Outcome.ok_bind]
    refine appends_lift (mapErr_ne_panic (directoryEntriesOf_ne_panic a.fs _)) fun entries _ => ?_
    have hlist := listEntries_appends a.fs (min count.toNat (reply.remaining - 4)) offset entries
      (Nat.le_refl w.bytes.length)
    cases hlisted : listEntries a.fs w.bytes.length (min count.toNat (reply.remaining - 4)) offset
        entries w with
    | err e => exact Writer.appends_err _
    | panic => exact absurd hlisted hlist.ne_panic
    | ok w' =>
      have hgrown : w.Grows w' := hlist.of_ok hlisted
      have hle := hgrown.length_le
      have hwhole : reply.Grows w' := Writer.Grows.trans ⟨_, hextends⟩ hgrown
      have hbounded := w'.bounded
      have hcap : w'.capacity = reply.capacity := hwhole.capacity
      have hmax : maxMessageSize ≤ u32Max := by decide
      rw [Outcome.ok_bind, Outcome.sub_eq hle, Outcome.ok_bind,
        expectU32_eq (by omega), Outcome.ok_bind]
      obtain ⟨w'', hpatch, hgrows⟩ := patch_grows hheader hwhole (by omega)
        (UInt32.ofNat (w'.bytes.length - w.bytes.length))
      rw [hpatch]
      exact hgrows

theorem getlock_appends (raw : Lock) : reply.Appends (getlock raw reply a) := by
  unfold getlock
  by_cases hkind : raw.kind = 2
  · rw [if_pos hkind]
    exact Writer.appends_err _
  rw [if_neg hkind]
  refine appends_lift (lockRequest_ne_panic raw false a) fun requested _ => ?_
  refine appends_lift (mapErr_ne_panic (Filesystem.conflictingLock_ne_panic a.fs requested))
    fun conflict _ => ?_
  have hfields (kind : UInt8) (start length : UInt64) (process : UInt32) (client : String) :
      reply.Appends (do
        let reply ← reply.u8 kind
        let reply ← reply.u64 start
        let reply ← reply.u64 length
        let reply ← reply.u32 process
        reply.string client) := by
    refine (reply.u8_puts _).appends.bind fun w _ => ?_
    refine (w.u64_puts _).appends.bind fun w _ => ?_
    refine (w.u64_puts _).appends.bind fun w _ => ?_
    exact (w.u32_puts _).appends.bind fun w _ => w.string_appends client
  cases conflict with
  | none => exact hfields _ _ _ _ _
  | some held => exact hfields _ _ _ _ _

theorem fsync_ne_panic (number dataOnly : UInt32) (a : Activation) :
    fsync number dataOnly a ≠ .panic := by
  refine Outcome.bind_ne_panic (opened_ne_panic number a) fun p _ => ?_
  by_cases hflag : 1 < dataOnly
  · rw [if_pos hflag]
    exact fun h => by cases h
  · rw [if_neg hflag]
    exact fun h => by cases h

end Riscbox
