import Riscbox.Filesystem.Renaming

/-!
# Clearing the tree

`clear` lists every entry below the root, a directory's entry before the entries inside
it, and unlinks the list from its end.  Each unlink finds an empty inode, so none fails.
-/

namespace Riscbox.Filesystem

/-! ## The list of entries -/

/-- The state of the search: popped directories, the stack, and the entries of the
directory at hand that are still to be listed. -/
structure Gathered (fs : Filesystem) (visited stack : List InodeId)
    (removals pending : List (InodeId × String)) : Prop where
  nodup : (visited ++ stack).Nodup
  directory : ∀ x ∈ visited ++ stack, ∃ n, fs.inodes[x]? = some n ∧ n.kind.isDirectory = true
  found : ∀ x ∈ visited ++ stack, x = fs.root ∨
    ∃ r ∈ removals, ∃ e, fs.entry r.1 r.2 = some e ∧ e.inode = x
  listed_nodup : (removals ++ pending).Nodup
  listed : ∀ r ∈ removals ++ pending, r.1 ∈ visited ∧ ∃ e, fs.entry r.1 r.2 = some e
  below : ∀ above r below e n, removals = above ++ r :: below → fs.entry r.1 r.2 = some e →
    fs.inodes[e.inode]? = some n → n.kind.isDirectory = true →
    e.inode ∈ stack ∨ ∀ m e', fs.entry e.inode m = some e' →
      (e.inode, m) ∈ below ++ pending
  root_reached : fs.root ∈ visited ++ stack
  complete : ∀ x ∈ visited, ∀ m e, fs.entry x m = some e → (x, m) ∈ removals ++ pending
  reached : ∀ r ∈ removals, ∀ e n, fs.entry r.1 r.2 = some e → fs.inodes[e.inode]? = some n →
    n.kind.isDirectory = true → e.inode ∈ visited ++ stack

namespace Gathered

variable {fs : Filesystem} {visited stack : List InodeId} {parent : InodeId}
  {removals pending : List (InodeId × String)}

theorem start (h : Linked fs) : Gathered fs [] [fs.root] [] [] where
  nodup := by simp
  directory := by
    intro x hx
    obtain ⟨n, hn, hdir, _⟩ := h.root_stored
    rw [List.nil_append, List.mem_singleton] at hx
    exact ⟨n, by rw [hx, hn], hdir⟩
  found := by
    intro x hx
    rw [List.nil_append, List.mem_singleton] at hx
    exact .inl hx
  listed_nodup := by simp
  listed := by simp
  below := by
    intro above r below e n hsplit
    simp at hsplit
  root_reached := by simp
  complete := by simp
  reached := by simp

/-- A directory is popped, and its entries are to be listed. -/
theorem pop (g : Gathered fs visited (parent :: stack) removals []) {d : Inode}
    (hd : fs.inodes[parent]? = some d) :
    Gathered fs (parent :: visited) stack removals
      (d.kind.entries.toList.map fun p => (parent, p.1)) := by
  have hperm : (visited ++ parent :: stack).Perm ((parent :: visited) ++ stack) :=
    List.perm_middle
  have hfresh : ∀ m, (parent, m) ∉ removals := by
    intro m hm
    have hvisited := (g.listed _ (List.mem_append_left _ hm)).1
    have hnd := g.nodup
    rw [List.nodup_append] at hnd
    exact hnd.2.2 parent hvisited parent List.mem_cons_self rfl
  constructor
  case nodup => exact hperm.nodup_iff.mp g.nodup
  case directory => exact fun x hx => g.directory x (hperm.mem_iff.mpr hx)
  case found => exact fun x hx => g.found x (hperm.mem_iff.mpr hx)
  case listed_nodup =>
    have hnd := g.listed_nodup
    rw [List.append_nil] at hnd
    rw [List.nodup_append]
    refine ⟨hnd, ?_, ?_⟩
    · have hkeys := BTreeMap.nodup_keys d.kind.entries
      have hinj : Function.Injective fun m : String => (parent, m) := fun a b hab => by
        cases hab
        rfl
      have hmap := hkeys.map hinj
      rw [List.map_map] at hmap
      exact hmap
    · rintro r hr _ hr' rfl
      obtain ⟨p, _, rfl⟩ := List.mem_map.mp hr'
      exact hfresh _ hr
  case listed =>
    intro r hr
    rcases List.mem_append.mp hr with hr | hr
    · obtain ⟨hv, he⟩ := g.listed r (List.mem_append_left _ hr)
      exact ⟨List.mem_cons_of_mem _ hv, he⟩
    · obtain ⟨⟨m, e⟩, hp, rfl⟩ := List.mem_map.mp hr
      exact ⟨List.mem_cons_self, e, by rw [entry_of_get hd, BTreeMap.mem_toList.mp hp]⟩
  case below =>
    intro above r below e n hsplit he hn hdir
    rcases g.below above r below e n hsplit he hn hdir with hmem | hall
    · rcases List.mem_cons.mp hmem with heq | hmem
      · right
        intro m e' he'
        rw [heq, entry_of_get hd] at he'
        rw [heq]
        refine List.mem_append_right _ (List.mem_map.mpr ⟨(m, e'), ?_, rfl⟩)
        exact BTreeMap.mem_toList.mpr he'
      · exact .inl hmem
    · right
      intro m e' he'
      have hmem := hall m e' he'
      rw [List.append_nil] at hmem
      exact List.mem_append_left _ hmem
  case root_reached => exact hperm.mem_iff.mp g.root_reached
  case complete =>
    intro x hx m e he
    rcases List.mem_cons.mp hx with rfl | hx
    · rw [entry_of_get hd] at he
      exact List.mem_append_right _ (List.mem_map.mpr ⟨(m, e), BTreeMap.mem_toList.mpr he, rfl⟩)
    · have hmem := g.complete x hx m e he
      rw [List.append_nil] at hmem
      exact List.mem_append_left _ hmem
  case reached => exact fun r hr e n he hn hdir => hperm.mem_iff.mp (g.reached r hr e n he hn hdir)

/-- One more entry is listed; a directory goes on the stack. -/
theorem list (g : Gathered fs visited stack removals ((parent, name) :: pending))
    (h : Linked fs) {e : DirectoryEntry} {n : Inode} (he : fs.entry parent name = some e)
    (hn : fs.inodes[e.inode]? = some n) :
    Gathered fs visited (if n.kind.isDirectory then e.inode :: stack else stack)
      (removals ++ [(parent, name)]) pending := by
  have hsub : ∀ x ∈ stack, x ∈ (if n.kind.isDirectory then e.inode :: stack else stack) := by
    intro x hx
    split
    · exact List.mem_cons_of_mem _ hx
    · exact hx
  have hfresh : n.kind.isDirectory = true → e.inode ∉ visited ++ stack := by
    intro hdir hmem
    rcases g.found _ hmem with hroot | ⟨r, hr, e', he', hinode⟩
    · exact h.entry_ne_root he hroot
    · obtain ⟨_, _, hone⟩ := h.directory_entry he hn hdir
      have hlink := h.entry_linked he'
      rw [hinode] at hlink
      have heq := BTreeSet.eq_of_size_one hone hlink (h.entry_linked he)
      have hnd := g.listed_nodup
      rw [List.nodup_append] at hnd
      exact hnd.2.2 r hr (parent, name) List.mem_cons_self heq
  have hsub' : ∀ x ∈ visited ++ stack,
      x ∈ visited ++ (if n.kind.isDirectory then e.inode :: stack else stack) := by
    intro x hx
    rcases List.mem_append.mp hx with hx | hx
    · exact List.mem_append_left _ hx
    · exact List.mem_append_right _ (hsub x hx)
  have hmem : ∀ x, x ∈ visited ++ (if n.kind.isDirectory then e.inode :: stack else stack) →
      x ∈ visited ++ stack ∨ (x = e.inode ∧ n.kind.isDirectory = true) := by
    intro x hx
    split at hx
    next hdir =>
      rcases List.mem_append.mp hx with hx | hx
      · exact .inl (List.mem_append_left _ hx)
      · rcases List.mem_cons.mp hx with rfl | hx
        · exact .inr ⟨rfl, hdir⟩
        · exact .inl (List.mem_append_right _ hx)
    · exact .inl hx
  constructor
  case nodup =>
    split
    next hdir =>
      refine (List.perm_middle.nodup_iff).mpr (List.nodup_cons.mpr ⟨hfresh hdir, g.nodup⟩)
    · exact g.nodup
  case directory =>
    intro x hx
    rcases hmem x hx with hx | ⟨rfl, hdir⟩
    · exact g.directory x hx
    · exact ⟨n, hn, hdir⟩
  case found =>
    intro x hx
    rcases hmem x hx with hx | ⟨rfl, _⟩
    · rcases g.found x hx with hroot | ⟨r, hr, he⟩
      · exact .inl hroot
      · exact .inr ⟨r, List.mem_append_left _ hr, he⟩
    · exact .inr ⟨(parent, name), by simp, e, he, rfl⟩
  case listed_nodup =>
    rw [List.append_assoc]
    exact g.listed_nodup
  case listed =>
    intro r hr
    rw [List.append_assoc] at hr
    exact g.listed r hr
  case below =>
    intro above r below e' n' hsplit he' hn' hdir'
    rcases List.eq_nil_or_concat below with rfl | ⟨below, last, rfl⟩
    · obtain ⟨rfl, hr⟩ := List.append_inj' hsplit rfl
      cases hr
      rw [he] at he'
      cases he'
      rw [hn] at hn'
      cases hn'
      left
      rw [if_pos hdir']
      exact List.mem_cons_self
    · rw [List.concat_eq_append, ← List.cons_append, ← List.append_assoc] at hsplit
      obtain ⟨hbefore, hlast⟩ := List.append_inj' hsplit rfl
      cases hlast
      rcases g.below above r below e' n' hbefore he' hn' hdir' with hstack | hall
      · exact .inl (hsub _ hstack)
      · right
        intro m e'' he''
        have hm := hall m e'' he''
        rw [List.concat_eq_append, List.append_assoc]
        exact hm
  case root_reached => exact hsub' _ g.root_reached
  case complete =>
    intro x hx m e' he'
    rw [List.append_assoc]
    exact g.complete x hx m e' he'
  case reached =>
    intro r hr e' n' he' hn' hdir'
    rcases List.mem_append.mp hr with hr | hr
    · exact hsub' _ (g.reached r hr e' n' he' hn' hdir')
    · rw [List.mem_singleton] at hr
      subst hr
      rw [he] at he'
      cases he'
      rw [hn] at hn'
      cases hn'
      rw [if_pos hdir']
      exact List.mem_append_right _ List.mem_cons_self

/-- A finished search visited every directory below the root. -/
theorem visited_of_climb (g : Gathered fs visited [] removals []) (h : Linked fs)
    {x : InodeId} {l : List InodeId} (hl : Climb fs.parentInode fs.root x l) : x ∈ visited := by
  induction hl with
  | root => simpa using g.root_reached
  | @up x p l _ hp _ ih =>
    obtain ⟨m, e, he, rfl⟩ := h.entry_of_parent hp
    have hlisted := g.complete p ih m e he
    rw [List.append_nil] at hlisted
    obtain ⟨n, hn⟩ := h.entry_stored he
    have hdir : n.kind.isDirectory = true := by
      by_contra hleaf
      rw [parentInode_of_get hn, h.leaf_parent hn (by simpa using hleaf)] at hp
      cases hp
    simpa using g.reached (p, m) hlisted e n he hn hdir

theorem all_listed (g : Gathered fs visited [] removals []) (h : Linked fs) {name : String}
    {e : DirectoryEntry} (he : fs.entry parent name = some e) : (parent, name) ∈ removals := by
  obtain ⟨d, hd, hdir, hlive, _⟩ := h.parent_linked he
  obtain ⟨l, hl⟩ := h.climbs hd hdir hlive
  simpa using g.complete parent (g.visited_of_climb h hl) name e he

end Gathered

theorem gatherEntries_gathered {fs : Filesystem} (h : Linked fs) {visited : List InodeId}
    {parent : InodeId} {d : Inode} (hd : fs.inodes[parent]? = some d) :
    ∀ (entries : List (String × DirectoryEntry)) (stack : List InodeId)
      (removals : List (InodeId × String)), (∀ p ∈ entries, d.kind.entries[p.1]? = some p.2) →
      Gathered fs visited stack removals (entries.map fun p => (parent, p.1)) →
      ∃ stack' removals', fs.gatherEntries parent entries stack removals =
        .ok (stack', removals') ∧ Gathered fs visited stack' removals' [] := by
  intro entries
  induction entries with
  | nil => exact fun stack removals _ g => ⟨stack, removals, rfl, g⟩
  | cons p entries ih =>
    obtain ⟨name, e⟩ := p
    intro stack removals hstored g
    have he : fs.entry parent name = some e := by
      rw [entry_of_get hd]
      exact hstored (name, e) List.mem_cons_self
    obtain ⟨n, hn⟩ := h.entry_stored he
    obtain ⟨stack', removals', hok, g'⟩ := ih _ _
      (fun p hp => hstored p (List.mem_cons_of_mem _ hp)) (g.list h he hn)
    refine ⟨stack', removals', ?_, g'⟩
    rw [gatherEntries, inodeOf_of_get hn]
    exact hok

/-- The search ends: every round visits another stored directory. -/
theorem gatherRemovals_gathered {fs : Filesystem} (h : Linked fs) :
    ∀ (fuel : Nat) (visited stack : List InodeId) (removals : List (InodeId × String)),
      fs.inodes.size ≤ visited.length + fuel → Gathered fs visited stack removals [] →
      ∃ removals' visited', fs.gatherRemovals fuel stack removals = .ok removals' ∧
        Gathered fs visited' [] removals' [] := by
  intro fuel
  induction fuel with
  | zero =>
    intro visited stack removals hfuel g
    cases stack with
    | nil => exact ⟨removals, visited, rfl, g⟩
    | cons parent stack =>
      have hle := BTreeMap.length_le_size g.nodup fun x hx => by
        obtain ⟨n, hn, _⟩ := g.directory x hx
        rw [hn]
        simp
      rw [List.length_append, List.length_cons] at hle
      omega
  | succ fuel ih =>
    intro visited stack removals hfuel g
    cases stack with
    | nil => exact ⟨removals, visited, rfl, g⟩
    | cons parent stack =>
      obtain ⟨d, hd, hdir⟩ := g.directory parent (List.mem_append_right _ List.mem_cons_self)
      obtain ⟨stack', removals', hok, g'⟩ := gatherEntries_gathered h hd d.kind.entries.toList
        stack removals (fun p hp => BTreeMap.mem_toList.mp hp) (g.pop hd)
      obtain ⟨removals'', visited'', hok', g''⟩ := ih (parent :: visited) stack' removals'
        (by rw [List.length_cons]; omega) g'
      refine ⟨removals'', visited'', ?_, g''⟩
      rw [gatherRemovals, inodeOf_of_get hd, Outcome.ok_bind]
      rw [kind_eq_directory hdir]
      dsimp only
      rw [hok]
      exact hok'

/-! ## Unlinking from the end -/

/-- Distinct entries, in which a directory comes before what it contains. -/
structure Prunable (fs : Filesystem) (removals : List (InodeId × String)) : Prop where
  nodup : removals.Nodup
  listed : ∀ r ∈ removals, ∃ e, fs.entry r.1 r.2 = some e
  below : ∀ above r below e m e', removals = above ++ r :: below → fs.entry r.1 r.2 = some e →
    fs.entry e.inode m = some e' → (e.inode, m) ∈ below

theorem Gathered.prunable {fs : Filesystem} {visited : List InodeId}
    {removals : List (InodeId × String)} (g : Gathered fs visited [] removals [])
    (h : Linked fs) : Prunable fs removals where
  nodup := by simpa using g.listed_nodup
  listed := fun r hr => (g.listed r (List.mem_append_left _ hr)).2
  below := by
    intro above r below e m e' hsplit he he'
    obtain ⟨n, hn, hdir, _⟩ := h.parent_linked he'
    rcases g.below above r below e n hsplit he hn hdir with hnil | hall
    · cases hnil
    · simpa using hall m e' he'

/-- A chain of reported unlinks. -/
inductive Clears : Filesystem → List (InodeId × String) → Filesystem → Prop
  | done (fs : Filesystem) : Clears fs [] fs
  | next {fs t s fs' : Filesystem} {parent : InodeId} {name : String} {e : DirectoryEntry}
      {rest : List (InodeId × String)} (removed : Removed fs parent name e t)
      (reported : Emits .remove (some e.inode) t s) (more : Clears s rest fs') :
      Clears fs ((parent, name) :: rest) fs'

theorem Prunable.removed {fs fs' : Filesystem} {removals : List (InodeId × String)}
    {parent : InodeId} {name : String} (p : Prunable fs (removals ++ [(parent, name)]))
    (hentry : ∀ q m, fs'.entry q m =
      if q = parent ∧ m = name then none else fs.entry q m) : Prunable fs' removals where
  nodup := (List.nodup_append.mp p.nodup).1
  listed := by
    intro r hr
    obtain ⟨e, he⟩ := p.listed r (List.mem_append_left _ hr)
    refine ⟨e, ?_⟩
    rw [hentry, if_neg, he]
    rintro ⟨hparent, hname⟩
    exact (List.nodup_append.mp p.nodup).2.2 r hr (parent, name) (List.mem_singleton_self _)
      (Prod.ext hparent hname)
  below := by
    intro above r below e m e' hsplit he he'
    rw [hentry] at he he'
    split at he
    · cases he
    split at he'
    · cases he'
    next hother =>
      have hmem := p.below above r (below ++ [(parent, name)]) e m e' (by rw [hsplit]; simp) he he'
      rcases List.mem_append.mp hmem with hmem | hmem
      · exact hmem
      · rw [List.mem_singleton] at hmem
        cases hmem
        exact absurd ⟨rfl, rfl⟩ hother

theorem removeAll_yields (removals : List (InodeId × String)) :
    ∀ {fs : Filesystem}, WellFormed fs → Prunable fs removals →
      (removeAll removals.reverse).Yields fs fun _ fs' => Clears fs removals.reverse fs' := by
  induction removals using List.reverseRecOn with
  | nil =>
    intro fs _ _
    exact ⟨(), fs, rfl, .done fs⟩
  | append_singleton removals r ih =>
    intro fs h p
    obtain ⟨parent, name⟩ := r
    obtain ⟨e, he⟩ := p.listed (parent, name) (by simp)
    obtain ⟨n, hn⟩ := h.linked.entry_stored he
    obtain ⟨d, hd, hdir, hlive, _⟩ := h.linked.parent_linked he
    obtain ⟨path, hpath⟩ := entryPath_of_live h.linked (h.linked.entry_name he) hd hdir hlive
    have hempty : n.kind.isDirectory = true → n.kind.entries = ∅ := by
      intro _
      refine BTreeMap.ext fun m => ?_
      cases hm : n.kind.entries[m]? with
      | none => simp
      | some e' =>
        have hentry : fs.entry e.inode m = some e' := by rw [entry_of_get hn, hm]
        have hmem := p.below removals (parent, name) [] e m e' rfl he hentry
        simp at hmem
    rw [List.reverse_append, List.reverse_singleton, List.singleton_append]
    refine (removeAt_yields h hpath he hn hempty).bind fun _ s hs => ?_
    obtain ⟨t, hr, hemit⟩ := hs
    have hwf : WellFormed s := hemit.write.wellFormed (hr.write.wellFormed h)
    have hp : Prunable s removals := p.removed fun q m => by
      rw [hemit.sameTree.entry, hr.entry_eq h.linked]
    exact (ih hwf hp).mono fun _ fs' hc => .next hr hemit hc

/-- `clear` does not fail, and lists every entry. -/
theorem clear_yields {fs : Filesystem} (h : WellFormed fs) :
    clear.Yields fs fun _ fs' => ∃ removals,
      fs.gatherRemovals fs.inodes.size [fs.root] [] = .ok removals ∧ Prunable fs removals ∧
      (∀ parent name e, fs.entry parent name = some e → (parent, name) ∈ removals) ∧
      Clears fs removals.reverse fs' := by
  obtain ⟨removals, visited, hok, g⟩ := gatherRemovals_gathered h.linked fs.inodes.size []
    [fs.root] [] (by simp) (.start h.linked)
  unfold clear
  refine Op.yields_step (Op.reading_ok hok) ?_
  refine (removeAll_yields removals h (g.prunable h.linked)).mono fun _ fs' hc => ?_
  exact ⟨removals, hok, g.prunable h.linked, fun parent name e he => g.all_listed h.linked he, hc⟩

theorem Clears.writes {fs fs' : Filesystem} {removals : List (InodeId × String)}
    (c : Clears fs removals fs') : Writes fs fs' := by
  induction c with
  | done fs => exact .refl
  | next hr he _ ih => exact .head hr.write (.head he.write ih)

end Riscbox.Filesystem
