import Riscbox.Filesystem.Moving

/-!
# When a rename succeeds

The checks of `renameAt` as one condition on the namespace, and its effect on paths.
-/

namespace Riscbox.Filesystem

/-! ## The checks -/

/-- A valid name in a linked directory. -/
def ValidPlace (fs : Filesystem) (parent : InodeId) (name : String) : Prop :=
  checkName name = .ok () ∧
    ∃ d, fs.inodes[parent]? = some d ∧ d.kind.isDirectory = true ∧ 0 < d.linkCount

theorem ValidPlace.entryPath {fs : Filesystem} (h : Linked fs) {parent : InodeId} {name : String}
    (v : ValidPlace fs parent name) : ∃ path, fs.entryPath parent name = .ok path := by
  obtain ⟨hname, d, hd, hdir, hpos⟩ := v
  exact entryPath_of_live h hname hd hdir hpos

end Riscbox.Filesystem
