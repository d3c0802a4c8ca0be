import Riscbox.Protocol.Reading

/-!
# A whole request

Every request is answered or refused, from the header of its reply on.
-/

namespace Riscbox

open NinePSession
open Filesystem (WellFormed Call)

variable {a : Activation} {reply : Writer}

theorem Roomy.mono {size size' : Nat} (h : Roomy reply size) (hle : size' ≤ size) :
    Roomy reply size' where
  header := h.header
  room := hle.trans h.room
  capacity := h.capacity

theorem filesystemOperation_answers (hw : WellFormed a.fs) (request : Request)
    (hroom : Roomy reply request.minimumReply) :
    Answers a reply (filesystemOperation request reply) := by
  cases request with
  | statfs number => exact reading_answers (statfs_appends hw number)
  | getattr number mask =>
    refine Op.settles_reading (fid_ne_panic number a) fun f _ => ?_
    exact reading_answers (getattr_appends hw f.inode mask)
  | readdir number offset count =>
    exact reading_answers (readdir_appends hroom.header hroom.capacity number offset count)
  | fsync number dataOnly =>
    refine answering_answers ?_
    unfold Op.Settles
    rw [Op.reading_apply]
    cases hf : fsync number dataOnly a with
    | ok _ => exact .refl a
    | err e => exact .inl rfl
    | panic => exact fsync_ne_panic number dataOnly a hf
  | readlink number => exact reading_answers (readlink_appends number)
  | symlink number name target gid => exact makeSymlink_answers hw number name target gid hroom
  | mkdir number name mode gid => exact makeDirectory_answers hw number name mode gid hroom
  | link directory number name => exact answering_answers (link_settles hw directory number name)
  | rename oldDirectory oldName newDirectory newName =>
    exact answering_answers (rename_settles hw oldDirectory oldName newDirectory newName)
  | unlink directory name flags => exact answering_answers (unlink_settles hw directory name flags)
  | lock raw => exact lock_answers hw raw hroom
  | getlock raw => exact reading_answers (getlock_appends raw)
  | version => exact answers_fail _
  | attach => exact answers_fail _
  | flush => exact answers_fail _
  | walk => exact answers_fail _
  | lopen => exact answers_fail _
  | create => exact answers_fail _
  | read => exact answers_fail _
  | write => exact answers_fail _
  | clunk => exact answers_fail _
  | setattr => exact answers_fail _
  | unsupported => exact answers_fail _

theorem timeOf_ne_panic (mask bit explicit : UInt32) (seconds ns : UInt64) :
    timeOf mask bit explicit seconds ns ≠ .panic := by
  unfold timeOf
  split_ifs
  · simp
  · simp
  · refine Outcome.bind_ne_panic (mapErr_ne_panic ?_) fun time _ => by simp
    unfold FileTime.new
    split_ifs <;> simp

theorem attributes_ne_panic (raw : Attributes) : attributes raw ≠ .panic := by
  unfold attributes
  split
  · simp
  · refine Outcome.bind_ne_panic (timeOf_ne_panic _ _ _ _ _) fun atime _ => ?_
    exact Outcome.bind_ne_panic (timeOf_ne_panic _ _ _ _ _) fun mtime _ => by simp

theorem execute_answers (hw : WellFormed a.fs) (hsized : a.session.Sized) {request : Request}
    (hrequest : request.Sized) (tag : UInt16) (hroom : Roomy reply request.minimumReply) :
    Answers a reply (execute request tag reply.capacity reply) := by
  have hoperation := filesystemOperation_answers hw request hroom
  cases request with
  | version size name => exact version_answers hw tag size name reply
  | attach number afid uid => exact attach_answers hw number afid uid reply
  | walk number newFid names => exact walk_answers hw number newFid hrequest reply
  | lopen number flags => exact lopen_answers hw hsized number flags hroom
  | create number file => exact create_answers hw hsized number file hroom
  | read number offset count =>
    refine Op.settles_reading (opened_ne_panic number a) fun p _ => ?_
    obtain ⟨f, flags⟩ := p
    dsimp only
    by_cases hreadable : (!flags.readable) = true
    · rw [if_pos hreadable]
      exact answers_fail _
    rw [if_neg hreadable]
    refine Op.settles_step (Op.checkedSub_apply hroom.room a) ?_
    exact finishIo_answers hw _ ⟨hroom, Nat.min_le_right _ _⟩
  | write number offset data =>
    refine Op.settles_reading (opened_ne_panic number a) fun p _ => ?_
    obtain ⟨f, flags⟩ := p
    dsimp only
    by_cases hwritable : (!flags.writable) = true
    · rw [if_pos hwritable]
      exact answers_fail _
    rw [if_neg hwritable]
    exact finishIo_answers hw _ ⟨hroom, hrequest⟩
  | setattr number raw =>
    refine Op.settles_reading (fid_ne_panic number a) fun f _ => ?_
    refine Op.settles_lift (attributes_ne_panic raw) fun update _ => ?_
    exact finishIo_answers hw _ trivial
  | clunk number => exact answering_answers (clunk_settles hw number)
  | statfs => exact hoperation
  | getattr => exact hoperation
  | readdir => exact hoperation
  | fsync => exact hoperation
  | readlink => exact hoperation
  | symlink => exact hoperation
  | mkdir => exact hoperation
  | link => exact hoperation
  | rename => exact hoperation
  | unlink => exact hoperation
  | lock => exact hoperation
  | getlock => exact hoperation
  | flush => exact hoperation
  | unsupported => exact hoperation

end Riscbox
