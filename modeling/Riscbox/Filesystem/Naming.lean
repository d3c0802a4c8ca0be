import Riscbox.Filesystem.Call

/-!
# Paths and lookups

`lookup` follows the entries of a path down from the root and `pathsOf` follows the
reverse links up.  In a linked tree the two are inverse: a directory has one path, and
every other inode one for each link.
-/

namespace Riscbox.Filesystem

/-! ## Spelling a path -/

/-- The string of a list of names. -/
def spell : List String → String
  | [] => ""
  | name :: names => joinSuffix name (spell names)

def ValidNames (names : List String) : Prop := ∀ name ∈ names, checkName name = .ok ()

theorem ValidNames.cons {name : String} {names : List String} :
    ValidNames (name :: names) ↔ checkName name = .ok () ∧ ValidNames names :=
  List.forall_mem_cons

theorem ValidNames.append {names names' : List String} :
    ValidNames (names ++ names') ↔ ValidNames names ∧ ValidNames names' :=
  List.forall_mem_append

/-- What the check on a literal name excludes. -/
theorem checkName_eq_ok {name : String} (h : checkName name = .ok ()) :
    (name ≠ "" ∧ name ≠ "." ∧ name ≠ "..") ∧ '/' ∉ name.toList ∧ '\x00' ∉ name.toList ∧
      ¬maxNameBytes < name.utf8ByteSize := by
  unfold checkName at h
  split at h
  · cases h
  next hliteral =>
    split at h
    · cases h
    next hshort =>
      simp only [not_or] at hliteral
      exact ⟨⟨hliteral.1, hliteral.2.1, hliteral.2.2.1⟩, hliteral.2.2.2.1, hliteral.2.2.2.2,
        hshort⟩

theorem spell_eq_empty {names : List String} (h : ValidNames names) :
    spell names = "" ↔ names = [] := by
  cases names with
  | nil => simp [spell]
  | cons name names =>
    have hname := (checkName_eq_ok (ValidNames.cons.mp h).1).1.1
    rw [spell, joinSuffix]
    split <;> simp [hname]

theorem spell_cons_cons {first second : String} {names : List String}
    (h : ValidNames (second :: names)) :
    spell (first :: second :: names) = first ++ "/" ++ spell (second :: names) := by
  rw [spell, joinSuffix, if_neg]
  rw [spell_eq_empty h]
  simp

theorem spell_singleton (name : String) : spell [name] = name := by
  rw [spell, spell, joinSuffix, if_pos rfl]

theorem splitSlash_of_not_mem {part : List Char} (h : '/' ∉ part) : splitSlash part = [part] := by
  induction part with
  | nil => rfl
  | cons c part ih =>
    rw [List.mem_cons, not_or] at h
    rw [splitSlash, if_neg (Ne.symm h.1), ih h.2]

theorem splitSlash_append {part : List Char} (h : '/' ∉ part) (rest : List Char) :
    splitSlash (part ++ '/' :: rest) = part :: splitSlash rest := by
  induction part with
  | nil => rfl
  | cons c part ih =>
    rw [List.mem_cons, not_or] at h
    rw [List.cons_append, splitSlash, if_neg (Ne.symm h.1), ih h.2]

theorem splitSlash_spell {names : List String} (h : ValidNames names) (hne : names ≠ []) :
    splitSlash (spell names).toList = names.map String.toList := by
  induction names with
  | nil => exact absurd rfl hne
  | cons first names ih =>
    obtain ⟨hfirst, hrest⟩ := ValidNames.cons.mp h
    have hslash := (checkName_eq_ok hfirst).2.1
    cases names with
    | nil => rw [spell_singleton, splitSlash_of_not_mem hslash]; rfl
    | cons second names =>
      rw [spell_cons_cons hrest, String.toList_append, String.toList_append, List.append_assoc,
        show "/".toList = ['/'] from rfl, List.singleton_append, splitSlash_append hslash,
        ih hrest (by simp)]
      rfl

/-- The characters of a path are those of its names, and slashes. -/
theorem mem_spell {names : List String} {c : Char} (hc : c ∈ (spell names).toList) :
    c = '/' ∨ ∃ name ∈ names, c ∈ name.toList := by
  induction names with
  | nil => simp [spell] at hc
  | cons name names ih =>
    rw [spell, joinSuffix] at hc
    split at hc
    · exact .inr ⟨name, List.mem_cons_self, hc⟩
    · rw [String.toList_append, String.toList_append, List.mem_append, List.mem_append,
        show "/".toList = ['/'] from rfl, List.mem_singleton] at hc
      rcases hc with (hc | hc) | hc
      · exact .inr ⟨name, List.mem_cons_self, hc⟩
      · exact .inl hc
      · rcases ih hc with hslash | ⟨other, hother, hc⟩
        · exact .inl hslash
        · exact .inr ⟨other, List.mem_cons_of_mem _ hother, hc⟩

/-- A spelled path has no leading slash. -/
theorem head_spell {names : List String} (h : ValidNames names) :
    (spell names).toList.head? ≠ some '/' := by
  cases names with
  | nil => simp [spell]
  | cons name names =>
    obtain ⟨⟨hne, -⟩, hslash, -⟩ := checkName_eq_ok (ValidNames.cons.mp h).1
    have hchars : name.toList ≠ [] := by
      intro hnil
      exact hne (String.toList_eq_nil_iff.mp hnil)
    obtain ⟨c, cs, hcs⟩ := List.exists_cons_of_ne_nil hchars
    have hc : c ≠ '/' := by
      rintro rfl
      exact hslash (by rw [hcs]; exact List.mem_cons_self)
    rw [spell, joinSuffix]
    split
    · rw [hcs]
      simpa using hc
    · rw [String.toList_append, String.toList_append, hcs]
      simpa using hc

/-- Splitting undoes spelling. -/
theorem parts_spell {names : List String} (h : ValidNames names) : parts (spell names) = .ok names := by
  have hnul : '\x00' ∉ (spell names).toList := by
    intro hc
    rcases mem_spell hc with hslash | ⟨name, hname, hc⟩
    · exact absurd hslash (by decide)
    · exact (checkName_eq_ok (h name hname)).2.2.1 hc
  unfold parts
  rw [if_neg hnul, if_neg (head_spell h)]
  dsimp only
  by_cases hnil : names = []
  · subst hnil
    rfl
  have hchars : (spell names).toList ≠ [] := by
    intro he
    exact hnil ((spell_eq_empty h).mp (String.toList_eq_nil_iff.mp he))
  have hnames : (splitSlash (spell names).toList).map String.ofList = names := by
    rw [splitSlash_spell h hnil, List.map_map]
    have hid : (String.ofList ∘ String.toList) = id := by
      funext s
      exact String.ofList_toList
    rw [hid, List.map_id]
  rw [if_neg hchars, hnames, if_neg, if_neg]
  · intro hany
    obtain ⟨name, hname, hlong⟩ := List.any_eq_true.mp hany
    exact (checkName_eq_ok (h name hname)).2.2.2 (by simpa using hlong)
  · intro hany
    obtain ⟨name, hname, hbad⟩ := List.any_eq_true.mp hany
    obtain ⟨⟨h₁, h₂, h₃⟩, -⟩ := checkName_eq_ok (h name hname)
    simp [h₁, h₂, h₃] at hbad

theorem spell_injective {names names' : List String} (h : ValidNames names)
    (h' : ValidNames names') (heq : spell names = spell names') : names = names' := by
  have hparts := parts_spell h
  rw [heq, parts_spell h'] at hparts
  cases hparts
  rfl

/-- A path is one name, or a name and what follows its slash. -/
theorem splitSlash_cases (path : List Char) :
    ('/' ∉ path ∧ splitSlash path = [path]) ∨
      ∃ part rest, path = part ++ '/' :: rest ∧ splitSlash path = part :: splitSlash rest := by
  by_cases hmem : '/' ∈ path
  · right
    obtain ⟨part, rest, hpath, hnot⟩ := List.eq_append_cons_of_mem hmem
    exact ⟨part, rest, hpath, by rw [hpath, splitSlash_append hnot]⟩
  · exact .inl ⟨hmem, splitSlash_of_not_mem hmem⟩

/-- Spelling undoes splitting, when no name is empty. -/
theorem spell_splitSlash (path : List Char)
    (h : ∀ part ∈ (splitSlash path).map String.ofList, part ≠ "") :
    spell ((splitSlash path).map String.ofList) = String.ofList path := by
  rcases splitSlash_cases path with ⟨-, hsplit⟩ | ⟨part, rest, hpath, hsplit⟩
  · rw [hsplit, List.map_singleton, spell_singleton]
  · have hlt : rest.length < path.length := by
      rw [hpath, List.length_append, List.length_cons]
      omega
    rw [hsplit, List.map_cons] at h ⊢
    have ih := spell_splitSlash rest fun part hp => h part (List.mem_cons_of_mem _ hp)
    have hne : String.ofList rest ≠ "" := by
      intro he
      have hnil : rest = [] := by
        have := congrArg String.toList he
        simpa using this
      refine h "" (List.mem_cons_of_mem _ ?_) rfl
      rw [hnil]
      simp [splitSlash]
    rw [spell, ih, joinSuffix, if_neg hne, hpath]
    rw [← String.toList_inj]
    simp
termination_by path.length

/-- The path without its leading slash. -/
def relative (path : String) : List Char :=
  if path.toList.head? = some '/' then path.toList.tail else path.toList

/-- The names of a path spell it. -/
theorem spell_of_parts {path : String} {names : List String} (h : parts path = .ok names) :
    spell names = String.ofList (relative path) := by
  unfold parts at h
  split at h
  · cases h
  dsimp only at h
  rw [← relative] at h
  split at h
  next hnil =>
    cases h
    rw [hnil]
    rfl
  split at h
  · cases h
  next hliteral =>
    split at h
    · cases h
    · cases h
      refine spell_splitSlash _ fun part hpart he => hliteral ?_
      exact List.any_eq_true.mpr ⟨part, hpart, by simp [he]⟩

theorem validNames_of_parts {path : String} {names : List String} (h : parts path = .ok names) :
    ValidNames names := fun _ hname => checkName_of_parts h hname

/-! ## Following entries -/

theorem lookupParts_nil {fs : Filesystem} {current id : InodeId} :
    fs.lookupParts current [] = .ok id ↔ current = id := by
  rw [lookupParts]
  constructor
  · intro h
    cases h
    rfl
  · rintro rfl
    rfl

theorem lookupParts_cons {fs : Filesystem} {current id : InodeId} {name : String}
    {names : List String} : fs.lookupParts current (name :: names) = .ok id ↔
      ∃ e, fs.entry current name = some e ∧ fs.lookupParts e.inode names = .ok id := by
  rw [lookupParts]
  constructor
  · intro h
    obtain ⟨n, hn, h⟩ := Outcome.bind_eq_ok.mp h
    have hget := get_of_inodeOf hn
    cases hkind : n.kind with
    | directory entries nextCookie =>
      rw [hkind] at h
      obtain ⟨e, he, h⟩ := Outcome.bind_eq_ok.mp h
      refine ⟨e, ?_, h⟩
      rw [entry_of_get hget, hkind]
      exact Outcome.okOr_eq_ok.mp he
    | file body => rw [hkind] at h; cases h
    | symlink target => rw [hkind] at h; cases h
  · rintro ⟨e, he, h⟩
    obtain ⟨d, hd, hname⟩ := get_of_entry he
    rw [inodeOf_of_get hd, Outcome.ok_bind, kind_eq_directory (isDirectory_of_entries hname)]
    dsimp only
    rw [hname]
    exact h

theorem lookupParts_append {fs : Filesystem} {id : InodeId} {names names' : List String} :
    ∀ {current : InodeId}, fs.lookupParts current (names ++ names') = .ok id ↔
      ∃ d, fs.lookupParts current names = .ok d ∧ fs.lookupParts d names' = .ok id := by
  induction names with
  | nil =>
    intro current
    rw [List.nil_append]
    constructor
    · exact fun h => ⟨current, lookupParts_nil.mpr rfl, h⟩
    · rintro ⟨d, hd, h⟩
      rw [lookupParts_nil.mp hd]
      exact h
  | cons name names ih =>
    intro current
    rw [List.cons_append, lookupParts_cons]
    constructor
    · rintro ⟨e, he, h⟩
      obtain ⟨d, hd, h⟩ := ih.mp h
      exact ⟨d, lookupParts_cons.mpr ⟨e, he, hd⟩, h⟩
    · rintro ⟨d, hd, h⟩
      obtain ⟨e, he, hd⟩ := lookupParts_cons.mp hd
      exact ⟨e, he, ih.mpr ⟨d, hd, h⟩⟩

theorem lookupParts_concat {fs : Filesystem} {current id : InodeId} {names : List String}
    {name : String} : fs.lookupParts current (names ++ [name]) = .ok id ↔
      ∃ d e, fs.lookupParts current names = .ok d ∧ fs.entry d name = some e ∧ e.inode = id := by
  rw [lookupParts_append]
  constructor
  · rintro ⟨d, hd, h⟩
    obtain ⟨e, he, h⟩ := lookupParts_cons.mp h
    exact ⟨d, e, hd, he, lookupParts_nil.mp h⟩
  · rintro ⟨d, e, hd, he, hi⟩
    exact ⟨d, hd, lookupParts_cons.mpr ⟨e, he, lookupParts_nil.mpr hi⟩⟩

theorem lookup_spell {fs : Filesystem} {names : List String} (h : ValidNames names) :
    fs.lookup (spell names) = fs.lookupParts fs.root names := by
  unfold lookup
  rw [parts_spell h]
  rfl

namespace Linked

variable {fs : Filesystem} {x c id : InodeId} {l : List InodeId} {names names' : List String}

theorem names_valid (h : Linked fs) (hx : fs.lookupParts c names = .ok x) : ValidNames names := by
  induction names generalizing c with
  | nil => exact List.forall_mem_nil _
  | cons name names ih =>
    obtain ⟨e, he, hx⟩ := lookupParts_cons.mp hx
    exact ValidNames.cons.mpr ⟨h.entry_name he, ih hx⟩

/-- No entry leads to the root. -/
theorem names_of_root (h : Linked fs) (hx : fs.lookupParts c names = .ok fs.root) :
    names = [] ∧ c = fs.root := by
  rcases List.eq_nil_or_concat names with rfl | ⟨names, name, rfl⟩
  · exact ⟨rfl, lookupParts_nil.mp hx⟩
  · rw [List.concat_eq_append, lookupParts_concat] at hx
    obtain ⟨d, e, -, he, hroot⟩ := hx
    exact absurd hroot (h.entry_ne_root he)

/-- The last entry of a path to a node of a climb is its parent's. -/
theorem names_up (h : Linked fs) {p : InodeId} (hx : x ≠ fs.root) (hp : fs.parentInode x = some p)
    (hpath : fs.lookupParts c names = .ok x) : (names = [] ∧ c = x) ∨
      ∃ init name, (fs.linksOf x).toList = [(p, name)] ∧ names = init ++ [name] ∧
        fs.lookupParts c init = .ok p := by
  rcases List.eq_nil_or_concat names with rfl | ⟨init, name, rfl⟩
  · exact .inl ⟨rfl, lookupParts_nil.mp hpath⟩
  right
  rw [List.concat_eq_append, lookupParts_concat] at hpath
  obtain ⟨d, e, hd, he, rfl⟩ := hpath
  obtain ⟨name', hlinks⟩ := h.linksOf_directory hx hp
  have hmem := Std.ExtTreeSet.mem_toList.mpr (h.entry_linked he)
  rw [hlinks, List.mem_singleton] at hmem
  cases hmem
  exact ⟨init, name, hlinks, List.concat_eq_append, hd⟩

/-- A directory lies on the climb of everything below it. -/
theorem mem_climb (h : Linked fs) (hl : Climb fs.parentInode fs.root x l) :
    ∀ {names : List String}, fs.lookupParts c names = .ok x → c ∈ l := by
  induction hl with
  | root =>
    intro names hpath
    rw [(h.names_of_root hpath).2]
    exact List.mem_singleton_self _
  | up hx hp _ ih =>
    intro names hpath
    rcases h.names_up hx hp hpath with ⟨-, rfl⟩ | ⟨init, name, -, -, hinit⟩
    · exact List.mem_cons_self
    · exact List.mem_cons_of_mem _ (ih hinit)

/-- The nodes of a climb have a path. -/
theorem climb_names (h : Linked fs) (hl : Climb fs.parentInode fs.root x l) :
    ∃ names, fs.lookupParts fs.root names = .ok x := by
  induction hl with
  | root => exact ⟨[], lookupParts_nil.mpr rfl⟩
  | up hx hp _ ih =>
    obtain ⟨names, hnames⟩ := ih
    obtain ⟨name, e, he, hi⟩ := h.entry_of_parent hp
    exact ⟨names ++ [name], lookupParts_concat.mpr ⟨_, e, hnames, he, hi⟩⟩

/-- A node of a climb has only one path. -/
theorem names_unique (h : Linked fs) (hl : Climb fs.parentInode fs.root x l) :
    ∀ {names names' : List String}, fs.lookupParts fs.root names = .ok x →
      fs.lookupParts fs.root names' = .ok x → names = names' := by
  induction hl with
  | root =>
    intro names names' hpath hpath'
    rw [(h.names_of_root hpath).1, (h.names_of_root hpath').1]
  | up hx hp _ ih =>
    intro names names' hpath hpath'
    rcases h.names_up hx hp hpath with ⟨-, hroot⟩ | ⟨init, name, hlinks, rfl, hinit⟩
    · exact absurd hroot.symm hx
    rcases h.names_up hx hp hpath' with ⟨-, hroot⟩ | ⟨init', name', hlinks', rfl, hinit'⟩
    · exact absurd hroot.symm hx
    rw [hlinks] at hlinks'
    cases hlinks'
    rw [ih hinit hinit']

theorem climb_of_entry (h : Linked fs) {p : InodeId} {name : String} {e : DirectoryEntry}
    (he : fs.entry p name = some e) :
    ∃ l, Climb fs.parentInode fs.root p l ∧ l.length ≤ fs.inodes.size := by
  obtain ⟨d, hd, hdir, hpos, -⟩ := h.parent_linked he
  obtain ⟨l, hl⟩ := h.climbs hd hdir hpos
  exact ⟨l, hl, h.climb_length hl⟩

end Linked

/-! ## Following links -/

/-- The loop spells the path of a node of a climb in front of the suffix. -/
theorem climbLinks_names {fs : Filesystem} (h : Linked fs) {x : InodeId} {l : List InodeId}
    (hl : Climb fs.parentInode fs.root x l) :
    ∀ {names : List String}, fs.lookupParts fs.root names = .ok x →
      ∀ (suffix : List String) (fuel : Nat) (rest : List (InodeId × String))
        (result : List String),
        fs.climbLinks (l.length + fuel) ((x, spell suffix) :: rest) result =
          fs.climbLinks fuel rest (result ++ [spell (names ++ suffix)]) := by
  induction hl with
  | root =>
    intro names hpath suffix fuel rest result
    rw [(h.names_of_root hpath).1, List.length_singleton, Nat.add_comm, climbLinks, if_pos rfl,
      List.nil_append]
  | @up x p l hx hp _ ih =>
    intro names hpath suffix fuel rest result
    rcases h.names_up hx hp hpath with ⟨-, hroot⟩ | ⟨init, name, hlinks, rfl, hinit⟩
    · exact absurd hroot.symm hx
    · rw [List.length_cons, Nat.add_right_comm, climbLinks, if_neg hx, hlinks, List.append_assoc]
      exact ih hinit (name :: suffix) fuel rest result

/-- The path of a link: that of its directory, and its name. -/
def LinkPath (fs : Filesystem) (link : InodeId × String) (path : String) : Prop :=
  ∃ names, fs.lookupParts fs.root names = .ok link.1 ∧ path = spell (names ++ [link.2])

theorem climbLinks_links {fs : Filesystem} (h : Linked fs) (bound : Nat)
    (path : InodeId × String → String) :
    ∀ (links : List (InodeId × String)) (fuel : Nat) (result : List String),
      (∀ link ∈ links, LinkPath fs link (path link)) →
      (∀ link ∈ links, ∃ l, Climb fs.parentInode fs.root link.1 l ∧ l.length ≤ bound) →
      links.length * bound ≤ fuel →
      fs.climbLinks fuel (links.map fun link => (link.1, joinSuffix link.2 "")) result =
        some (result ++ links.map path) := by
  intro links
  induction links with
  | nil =>
    intro fuel result _ _ _
    rw [List.map_nil, climbLinks, List.map_nil, List.append_nil]
  | cons link links ih =>
    intro fuel result hpath hclimb hfuel
    obtain ⟨l, hl, hlen⟩ := hclimb link List.mem_cons_self
    obtain ⟨names, hnames, hthis⟩ := hpath link List.mem_cons_self
    have hmul : (link :: links).length * bound = links.length * bound + bound := by
      rw [List.length_cons, Nat.succ_mul]
    have hsplit : fuel = l.length + (fuel - l.length) := by omega
    have hstep := climbLinks_names h hl hnames [link.2] (fuel - l.length)
      (links.map fun link => (link.1, joinSuffix link.2 "")) result
    rw [← hthis] at hstep
    rw [List.map_cons, hsplit]
    refine hstep.trans ?_
    rw [ih (fuel - l.length) (result ++ [path link])
      (fun i hi => hpath i (List.mem_cons_of_mem _ hi))
      (fun i hi => hclimb i (List.mem_cons_of_mem _ hi)) (by omega),
      List.append_assoc, List.singleton_append, List.map_cons]

/-- The paths of an inode below the root, one for each of its links. -/
theorem pathsOf_links {fs : Filesystem} (h : Linked fs) {id : InodeId} (hid : id ≠ fs.root) :
    ∃ path : InodeId × String → String, (∀ link ∈ fs.linksOf id, LinkPath fs link (path link)) ∧
      fs.pathsOf id =
        some (((fs.linksOf id).toList.reverse.map path).insertionSort (· ≤ ·)) := by
  have hmem : ∀ link, link ∈ (fs.linksOf id).toList.reverse ↔ link ∈ fs.linksOf id :=
    fun link => by rw [List.mem_reverse, Std.ExtTreeSet.mem_toList]
  have hclimb : ∀ link ∈ fs.linksOf id,
      ∃ l, Climb fs.parentInode fs.root link.1 l ∧ l.length ≤ fs.inodes.size := by
    rintro ⟨p, name⟩ hlink
    obtain ⟨e, he, -⟩ := h.mem_linksOf.mp hlink
    exact h.climb_of_entry he
  have hpath : ∀ link, ∃ path, link ∈ fs.linksOf id → LinkPath fs link path := by
    intro link
    by_cases hlink : link ∈ fs.linksOf id
    · obtain ⟨l, hl, -⟩ := hclimb link hlink
      obtain ⟨names, hnames⟩ := h.climb_names hl
      exact ⟨_, fun _ => ⟨names, hnames, rfl⟩⟩
    · exact ⟨"", fun hin => absurd hin hlink⟩
  choose path hpath using hpath
  refine ⟨path, hpath, ?_⟩
  rw [pathsOf, if_neg hid, climbFuel, Nat.add_comm, climbLinks, if_neg hid]
  dsimp only
  rw [← List.map_reverse, List.append_nil, climbLinks_links h fs.inodes.size path
    (fs.linksOf id).toList.reverse ((fs.linksOf id).size * fs.inodes.size) []
    (fun link hlink => hpath link ((hmem link).mp hlink))
    (fun link hlink => hclimb link ((hmem link).mp hlink))
    (by rw [List.length_reverse, Std.ExtTreeSet.length_toList])]
  rfl

/-- The paths of an inode are the spellings of its lookups. -/
theorem mem_pathsOf {fs : Filesystem} (h : Linked fs) {id : InodeId} {paths : List String}
    (hpaths : fs.pathsOf id = some paths) (path : String) :
    path ∈ paths ↔ ∃ names, fs.lookupParts fs.root names = .ok id ∧ path = spell names := by
  by_cases hid : id = fs.root
  · subst hid
    rw [pathsOf, if_pos rfl] at hpaths
    cases hpaths
    rw [List.mem_singleton]
    constructor
    · rintro rfl
      exact ⟨[], lookupParts_nil.mpr rfl, rfl⟩
    · rintro ⟨names, hnames, rfl⟩
      rw [(h.names_of_root hnames).1]
      rfl
  obtain ⟨spelled, hspelled, hsorted⟩ := pathsOf_links h hid
  rw [hpaths] at hsorted
  cases hsorted
  rw [List.mem_insertionSort, List.mem_map]
  constructor
  · rintro ⟨⟨p, name⟩, hlink, rfl⟩
    rw [List.mem_reverse, Std.ExtTreeSet.mem_toList] at hlink
    obtain ⟨names, hnames, hpath⟩ := hspelled _ hlink
    obtain ⟨e, he, hi⟩ := h.mem_linksOf.mp hlink
    exact ⟨names ++ [name], lookupParts_concat.mpr ⟨p, e, hnames, he, hi⟩, hpath⟩
  · rintro ⟨names, hnames, rfl⟩
    rcases List.eq_nil_or_concat names with rfl | ⟨init, name, rfl⟩
    · exact absurd (lookupParts_nil.mp hnames).symm hid
    rw [List.concat_eq_append] at hnames ⊢
    obtain ⟨p, e, hinit, he, rfl⟩ := lookupParts_concat.mp hnames
    have hlink := h.entry_linked he
    obtain ⟨names', hnames', hpath⟩ := hspelled _ hlink
    obtain ⟨l, hl, -⟩ := h.climb_of_entry he
    refine ⟨(p, name), by rw [List.mem_reverse, Std.ExtTreeSet.mem_toList]; exact hlink, ?_⟩
    rw [hpath, h.names_unique hl hinit hnames']

/-- The paths of an inode ascend strictly, one for each link. -/
theorem pathsOf_sorted {fs : Filesystem} (h : Linked fs) {id : InodeId} {paths : List String}
    (hpaths : fs.pathsOf id = some paths) :
    paths.Pairwise (· < ·) ∧ (id ≠ fs.root → paths.length = (fs.linksOf id).size) := by
  by_cases hid : id = fs.root
  · rw [pathsOf, if_pos hid] at hpaths
    cases hpaths
    exact ⟨List.pairwise_singleton _ _, fun hne => absurd hid hne⟩
  obtain ⟨spelled, hspelled, hsorted⟩ := pathsOf_links h hid
  rw [hpaths] at hsorted
  cases hsorted
  have hinj : ∀ link ∈ (fs.linksOf id).toList.reverse, ∀ link' ∈ (fs.linksOf id).toList.reverse,
      spelled link = spelled link' → link = link' := by
    rintro ⟨p, name⟩ hlink ⟨p', name'⟩ hlink' heq
    rw [List.mem_reverse, Std.ExtTreeSet.mem_toList] at hlink hlink'
    obtain ⟨names, hnames, hpath⟩ := hspelled _ hlink
    obtain ⟨names', hnames', hpath'⟩ := hspelled _ hlink'
    obtain ⟨e, he, -⟩ := h.mem_linksOf.mp hlink
    obtain ⟨e', he', -⟩ := h.mem_linksOf.mp hlink'
    rw [hpath, hpath'] at heq
    have hsame := spell_injective
      (ValidNames.append.mpr ⟨h.names_valid hnames, by simpa [ValidNames] using h.entry_name he⟩)
      (ValidNames.append.mpr ⟨h.names_valid hnames', by simpa [ValidNames] using h.entry_name he'⟩)
      heq
    obtain ⟨rfl, hname⟩ := List.append_inj' hsame rfl
    cases hname
    rw [hnames] at hnames'
    cases hnames'
    rfl
  have hdistinct : (fs.linksOf id).toList.Nodup :=
    Std.ExtTreeSet.distinct_toList.imp fun {a b} hne hab => by
      rw [hab] at hne
      exact hne Std.ReflCmp.compare_self
  have hnodup : ((fs.linksOf id).toList.reverse.map spelled).Nodup :=
    List.Nodup.map_on hinj (List.nodup_reverse.mpr hdistinct)
  constructor
  · exact (List.sortedLE_insertionSort.pairwise.and
      ((List.perm_insertionSort _ _).nodup_iff.mpr hnodup)).imp
        fun hab => lt_of_le_of_ne hab.1 hab.2
  · intro _
    rw [List.length_insertionSort, List.length_map, List.length_reverse,
      Std.ExtTreeSet.length_toList]

/-- A path without a leading slash is one of the paths of what it leads to. -/
theorem mem_pathsOf_iff_lookup {fs : Filesystem} (h : Linked fs) {id : InodeId}
    {paths : List String} (hpaths : fs.pathsOf id = some paths) (path : String) :
    path ∈ paths ↔ path.toList.head? ≠ some '/' ∧ fs.lookup path = .ok id := by
  rw [mem_pathsOf h hpaths]
  constructor
  · rintro ⟨names, hnames, rfl⟩
    have hvalid := h.names_valid hnames
    exact ⟨head_spell hvalid, by rw [lookup_spell hvalid, hnames]⟩
  · rintro ⟨hhead, hlookup⟩
    obtain ⟨names, hparts, hnames⟩ := Outcome.bind_eq_ok.mp hlookup
    refine ⟨names, hnames, ?_⟩
    rw [spell_of_parts hparts, relative, if_neg hhead, String.ofList_toList]

end Riscbox.Filesystem
