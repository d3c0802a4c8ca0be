import Riscbox.Protocol.Grammar
import Riscbox.Protocol.Request

/-!
# The grammar of requests

The bytes of each request of 9P2000.L, and that `parse` accepts these and no others.
-/

namespace Riscbox

open Reader (Text textCode byteCode halfCode wordCode longCode Reads any)

def Attributes.code (attributes : Attributes) : List UInt8 :=
  wordCode attributes.mask ++ (wordCode attributes.mode ++ (wordCode attributes.uid ++
    (wordCode attributes.gid ++ (longCode attributes.size ++ (longCode attributes.atime ++
    (longCode attributes.atimeNs ++ (longCode attributes.mtime ++
      longCode attributes.mtimeNs)))))))

def Creation.code (file : Creation) : List UInt8 :=
  textCode file.name ++ (wordCode file.flags ++ (wordCode file.mode ++ wordCode file.gid))

/-- The code of a lock after its flags. -/
def Lock.rangeCode (lock : Lock) : List UInt8 :=
  longCode lock.start ++ (longCode lock.length ++ (wordCode lock.process ++ textCode lock.client))

namespace Request

/-- The bodies of the requests, by their type.  `Tattach` has two strings and `Tflush` a tag
that the request does not keep. -/
inductive Encodes : Nat → List UInt8 → Request → Prop
  | version {size : UInt32} {version : String} : Text version →
      Encodes 100 (wordCode size ++ textCode version) (.version size version)
  | attach {fid afid uid : UInt32} {uname aname : String} : Text uname → Text aname →
      Encodes 104 (wordCode fid ++ (wordCode afid ++ (textCode uname ++
        (textCode aname ++ wordCode uid)))) (.attach fid afid uid)
  | flush {oldTag : UInt16} : Encodes 108 (halfCode oldTag) .flush
  | walk {fid newFid : UInt32} {names : List String} : (∀ name ∈ names, Text name) →
      names.length ≤ maxNames →
      Encodes 110 (wordCode fid ++ (wordCode newFid ++
        (LittleEndian.encode 2 names.length ++ names.flatMap textCode))) (.walk fid newFid names)
  | lopen {fid flags : UInt32} : Encodes 12 (wordCode fid ++ wordCode flags) (.lopen fid flags)
  | create {fid : UInt32} {file : Creation} : Text file.name →
      Encodes 14 (wordCode fid ++ file.code) (.create fid file)
  | read {fid : UInt32} {offset : UInt64} {count : UInt32} :
      Encodes 116 (wordCode fid ++ (longCode offset ++ wordCode count)) (.read fid offset count)
  | write {fid : UInt32} {offset : UInt64} {data : List UInt8} : data.length ≤ u32Max →
      Encodes 118 (wordCode fid ++ (longCode offset ++
        (LittleEndian.encode 4 data.length ++ data))) (.write fid offset data)
  | clunk {fid : UInt32} : Encodes 120 (wordCode fid) (.clunk fid)
  | statfs {fid : UInt32} : Encodes 8 (wordCode fid) (.statfs fid)
  | getattr {fid : UInt32} {mask : UInt64} :
      Encodes 24 (wordCode fid ++ longCode mask) (.getattr fid mask)
  | setattr {fid : UInt32} {attributes : Attributes} :
      Encodes 26 (wordCode fid ++ attributes.code) (.setattr fid attributes)
  | readdir {fid : UInt32} {offset : UInt64} {count : UInt32} :
      Encodes 40 (wordCode fid ++ (longCode offset ++ wordCode count)) (.readdir fid offset count)
  | fsync {fid dataOnly : UInt32} :
      Encodes 50 (wordCode fid ++ wordCode dataOnly) (.fsync fid dataOnly)
  | symlink {fid gid : UInt32} {name target : String} : Text name → Text target →
      Encodes 16 (wordCode fid ++ (textCode name ++ (textCode target ++ wordCode gid)))
        (.symlink fid name target gid)
  | readlink {fid : UInt32} : Encodes 22 (wordCode fid) (.readlink fid)
  | mkdir {fid mode gid : UInt32} {name : String} : Text name →
      Encodes 72 (wordCode fid ++ (textCode name ++ (wordCode mode ++ wordCode gid)))
        (.mkdir fid name mode gid)
  | link {directory fid : UInt32} {name : String} : Text name →
      Encodes 70 (wordCode directory ++ (wordCode fid ++ textCode name)) (.link directory fid name)
  | rename {oldDirectory newDirectory : UInt32} {oldName newName : String} :
      Text oldName → Text newName →
      Encodes 74 (wordCode oldDirectory ++ (textCode oldName ++
        (wordCode newDirectory ++ textCode newName)))
        (.rename oldDirectory oldName newDirectory newName)
  | unlink {directory flags : UInt32} {name : String} : Text name →
      Encodes 76 (wordCode directory ++ (textCode name ++ wordCode flags))
        (.unlink directory name flags)
  | lock {lock : Lock} : Text lock.client →
      Encodes 52 (wordCode lock.fid ++ (byteCode lock.kind ++ (wordCode lock.flags ++
        lock.rangeCode))) (.lock lock)
  | getlock {lock : Lock} : Text lock.client → lock.flags = 0 →
      Encodes 54 (wordCode lock.fid ++ (byteCode lock.kind ++ lock.rangeCode)) (.getlock lock)

/-! ## Compound fields -/

open Reader

theorem reads_creation : Reads readCreation (Grammar.field (fun file => Text file.name)
    Creation.code) := by
  refine (reads_string.bind fun name => reads_u32.bind fun flags => reads_u32.bind fun mode =>
    reads_u32.last fun gid => Creation.mk name flags mode gid).congr fun code file => ?_
  simp only [Grammar.andThen_field, Grammar.map_field, any, true_and]
  constructor
  · rintro ⟨name, hname, _, ⟨flags, _, ⟨mode, _, ⟨gid, rfl, rfl⟩, rfl⟩, rfl⟩, rfl⟩
    exact ⟨hname, rfl⟩
  · rintro ⟨hname, rfl⟩
    exact ⟨_, hname, _, ⟨_, _, ⟨_, _, ⟨_, rfl, rfl⟩, rfl⟩, rfl⟩, rfl⟩

theorem reads_attributes : Reads readAttributes (Grammar.field any Attributes.code) := by
  refine (reads_u32.bind fun mask => reads_u32.bind fun mode => reads_u32.bind fun uid =>
    reads_u32.bind fun gid => reads_u64.bind fun size => reads_u64.bind fun atime =>
    reads_u64.bind fun atimeNs => reads_u64.bind fun mtime => reads_u64.last fun mtimeNs =>
      Attributes.mk mask mode uid gid size atime atimeNs mtime mtimeNs).congr
    fun code attributes => ?_
  simp only [Grammar.andThen_field, Grammar.map_field, any, true_and]
  constructor
  · rintro ⟨mask, _, ⟨mode, _, ⟨uid, _, ⟨gid, _, ⟨size, _, ⟨atime, _, ⟨atimeNs, _, ⟨mtime, _,
      ⟨mtimeNs, rfl, rfl⟩, rfl⟩, rfl⟩, rfl⟩, rfl⟩, rfl⟩, rfl⟩, rfl⟩, rfl⟩
    exact ⟨trivial, rfl⟩
  · rintro ⟨-, rfl⟩
    exact ⟨_, _, ⟨_, _, ⟨_, _, ⟨_, _, ⟨_, _, ⟨_, _, ⟨_, _, ⟨_, _, ⟨_, rfl, rfl⟩, rfl⟩, rfl⟩,
      rfl⟩, rfl⟩, rfl⟩, rfl⟩, rfl⟩, rfl⟩

/-- The code of a lock with its flags. -/
def lockCode (lock : Lock) : List UInt8 :=
  wordCode lock.fid ++ (byteCode lock.kind ++ (wordCode lock.flags ++ lock.rangeCode))

def getlockCode (lock : Lock) : List UInt8 :=
  wordCode lock.fid ++ (byteCode lock.kind ++ lock.rangeCode)

theorem reads_lock : Reads (readLock true) (Grammar.field (fun lock => Text lock.client)
    lockCode) := by
  refine (reads_u32.bind fun fid => reads_u8.bind fun kind => reads_u32.bind fun flags =>
    reads_u64.bind fun start => reads_u64.bind fun length => reads_u32.bind fun process =>
    reads_string.last fun client => Lock.mk fid kind flags start length process client).congr
    fun code lock => ?_
  simp only [Grammar.andThen_field, Grammar.map_field, any, true_and]
  constructor
  · rintro ⟨fid, _, ⟨kind, _, ⟨flags, _, ⟨start, _, ⟨length, _, ⟨process, _,
      ⟨client, hclient, rfl, rfl⟩, rfl⟩, rfl⟩, rfl⟩, rfl⟩, rfl⟩, rfl⟩
    exact ⟨hclient, rfl⟩
  · rintro ⟨hclient, rfl⟩
    exact ⟨_, _, ⟨_, _, ⟨_, _, ⟨_, _, ⟨_, _, ⟨_, _, ⟨_, hclient, rfl, rfl⟩, rfl⟩, rfl⟩, rfl⟩,
      rfl⟩, rfl⟩, rfl⟩

theorem reads_getlock : Reads (readLock false)
    (Grammar.field (fun lock => Text lock.client ∧ lock.flags = 0) getlockCode) := by
  refine (reads_u32.bind fun fid => reads_u8.bind fun kind =>
    reads_u64.bind fun start => reads_u64.bind fun length => reads_u32.bind fun process =>
    reads_string.last fun client => Lock.mk fid kind 0 start length process client).congr
    fun code lock => ?_
  simp only [Grammar.andThen_field, Grammar.map_field, any, true_and]
  constructor
  · rintro ⟨fid, _, ⟨kind, _, ⟨start, _, ⟨length, _, ⟨process, _,
      ⟨client, hclient, rfl, rfl⟩, rfl⟩, rfl⟩, rfl⟩, rfl⟩, rfl⟩
    exact ⟨⟨hclient, rfl⟩, rfl⟩
  · rintro ⟨⟨hclient, hflags⟩, rfl⟩
    refine ⟨lock.fid, _, ⟨lock.kind, _, ⟨lock.start, _, ⟨lock.length, _, ⟨lock.process, _,
      ⟨lock.client, hclient, rfl, ?_⟩, rfl⟩, rfl⟩, rfl⟩, rfl⟩, rfl⟩
    rw [← hflags]

/-! ## Bodies -/

theorem reads_version : Reads (do return .version (← u32) (← string)) (Encodes 100) := by
  refine (reads_u32.bind fun size => reads_string.last fun version => Request.version size
    version).congr fun code request => ?_
  simp only [Grammar.andThen_field, Grammar.map_field, any, true_and]
  constructor
  · rintro ⟨size, _, ⟨version, hversion, rfl, rfl⟩, rfl⟩
    exact .version hversion
  · intro h
    cases h with
    | version hversion =>
      exact ⟨_, _, ⟨_, hversion, rfl, rfl⟩, rfl⟩

theorem reads_attach :
    Reads (do
      let fid ← u32
      let afid ← u32
      let _ ← string
      let _ ← string
      return .attach fid afid (← u32)) (Encodes 104) := by
  refine (reads_u32.bind fun fid => reads_u32.bind fun afid => reads_string.bind fun _ =>
    reads_string.bind fun _ => reads_u32.last fun uid => Request.attach fid afid uid).congr fun
    code request => ?_
  simp only [Grammar.andThen_field, Grammar.map_field, any, true_and]
  constructor
  · rintro ⟨fid, _, ⟨afid, _, ⟨uname, huname, _, ⟨aname, haname, _, ⟨uid, rfl, rfl⟩, rfl⟩, rfl⟩,
      rfl⟩, rfl⟩
    exact .attach huname haname
  · intro h
    cases h with
    | attach huname haname =>
      exact ⟨_, _, ⟨_, _, ⟨_, huname, _, ⟨_, haname, _, ⟨_, rfl, rfl⟩, rfl⟩, rfl⟩, rfl⟩, rfl⟩

theorem reads_lopen : Reads (do return .lopen (← u32) (← u32)) (Encodes 12) := by
  refine (reads_u32.bind fun fid => reads_u32.last fun flags => Request.lopen fid flags).congr fun
    code request => ?_
  simp only [Grammar.andThen_field, Grammar.map_field, any, true_and]
  constructor
  · rintro ⟨fid, _, ⟨flags, rfl, rfl⟩, rfl⟩
    exact .lopen
  · intro h
    cases h
    exact ⟨_, _, ⟨_, rfl, rfl⟩, rfl⟩

theorem reads_create : Reads (do return .create (← u32) (← readCreation)) (Encodes 14) := by
  refine (reads_u32.bind fun fid => reads_creation.last fun file => Request.create fid file).congr
    fun code request => ?_
  simp only [Grammar.andThen_field, Grammar.map_field, any, true_and]
  constructor
  · rintro ⟨fid, _, ⟨file, hname, rfl, rfl⟩, rfl⟩
    exact .create hname
  · intro h
    cases h with
    | create hname =>
      exact ⟨_, _, ⟨_, hname, rfl, rfl⟩, rfl⟩

theorem reads_read : Reads (do return .read (← u32) (← u64) (← u32)) (Encodes 116) := by
  refine (reads_u32.bind fun fid => reads_u64.bind fun offset => reads_u32.last fun count =>
    Request.read fid offset count).congr fun code request => ?_
  simp only [Grammar.andThen_field, Grammar.map_field, any, true_and]
  constructor
  · rintro ⟨fid, _, ⟨offset, _, ⟨count, rfl, rfl⟩, rfl⟩, rfl⟩
    exact .read
  · intro h
    cases h
    exact ⟨_, _, ⟨_, _, ⟨_, rfl, rfl⟩, rfl⟩, rfl⟩

theorem reads_clunk : Reads (do return .clunk (← u32)) (Encodes 120) := by
  refine (reads_u32.last fun fid => Request.clunk fid).congr fun code request => ?_
  simp only [Grammar.map_field, any, true_and]
  constructor
  · rintro ⟨fid, rfl, rfl⟩
    exact .clunk
  · intro h
    cases h
    exact ⟨_, rfl, rfl⟩

theorem reads_statfs : Reads (do return .statfs (← u32)) (Encodes 8) := by
  refine (reads_u32.last fun fid => Request.statfs fid).congr fun code request => ?_
  simp only [Grammar.map_field, any, true_and]
  constructor
  · rintro ⟨fid, rfl, rfl⟩
    exact .statfs
  · intro h
    cases h
    exact ⟨_, rfl, rfl⟩

theorem reads_getattr : Reads (do return .getattr (← u32) (← u64)) (Encodes 24) := by
  refine (reads_u32.bind fun fid => reads_u64.last fun mask => Request.getattr fid mask).congr fun
    code request => ?_
  simp only [Grammar.andThen_field, Grammar.map_field, any, true_and]
  constructor
  · rintro ⟨fid, _, ⟨mask, rfl, rfl⟩, rfl⟩
    exact .getattr
  · intro h
    cases h
    exact ⟨_, _, ⟨_, rfl, rfl⟩, rfl⟩

theorem reads_setattr : Reads (do return .setattr (← u32) (← readAttributes)) (Encodes 26) := by
  refine (reads_u32.bind fun fid => reads_attributes.last fun attributes => Request.setattr fid
    attributes).congr fun code request => ?_
  simp only [Grammar.andThen_field, Grammar.map_field, any, true_and]
  constructor
  · rintro ⟨fid, _, ⟨attributes, rfl, rfl⟩, rfl⟩
    exact .setattr
  · intro h
    cases h
    exact ⟨_, _, ⟨_, rfl, rfl⟩, rfl⟩

theorem reads_readdir : Reads (do return .readdir (← u32) (← u64) (← u32)) (Encodes 40) := by
  refine (reads_u32.bind fun fid => reads_u64.bind fun offset => reads_u32.last fun count =>
    Request.readdir fid offset count).congr fun code request => ?_
  simp only [Grammar.andThen_field, Grammar.map_field, any, true_and]
  constructor
  · rintro ⟨fid, _, ⟨offset, _, ⟨count, rfl, rfl⟩, rfl⟩, rfl⟩
    exact .readdir
  · intro h
    cases h
    exact ⟨_, _, ⟨_, _, ⟨_, rfl, rfl⟩, rfl⟩, rfl⟩

theorem reads_fsync : Reads (do return .fsync (← u32) (← u32)) (Encodes 50) := by
  refine (reads_u32.bind fun fid => reads_u32.last fun dataOnly => Request.fsync fid dataOnly).congr
    fun code request => ?_
  simp only [Grammar.andThen_field, Grammar.map_field, any, true_and]
  constructor
  · rintro ⟨fid, _, ⟨dataOnly, rfl, rfl⟩, rfl⟩
    exact .fsync
  · intro h
    cases h
    exact ⟨_, _, ⟨_, rfl, rfl⟩, rfl⟩

theorem reads_symlink :
    Reads (do return .symlink (← u32) (← string) (← string) (← u32)) (Encodes 16) := by
  refine (reads_u32.bind fun fid => reads_string.bind fun name => reads_string.bind fun target =>
    reads_u32.last fun gid => Request.symlink fid name target gid).congr fun code request => ?_
  simp only [Grammar.andThen_field, Grammar.map_field, any, true_and]
  constructor
  · rintro ⟨fid, _, ⟨name, hname, _, ⟨target, htarget, _, ⟨gid, rfl, rfl⟩, rfl⟩, rfl⟩, rfl⟩
    exact .symlink hname htarget
  · intro h
    cases h with
    | symlink hname htarget =>
      exact ⟨_, _, ⟨_, hname, _, ⟨_, htarget, _, ⟨_, rfl, rfl⟩, rfl⟩, rfl⟩, rfl⟩

theorem reads_readlink : Reads (do return .readlink (← u32)) (Encodes 22) := by
  refine (reads_u32.last fun fid => Request.readlink fid).congr fun code request => ?_
  simp only [Grammar.map_field, any, true_and]
  constructor
  · rintro ⟨fid, rfl, rfl⟩
    exact .readlink
  · intro h
    cases h
    exact ⟨_, rfl, rfl⟩

theorem reads_mkdir : Reads (do return .mkdir (← u32) (← string) (← u32) (← u32)) (Encodes 72) := by
  refine (reads_u32.bind fun fid => reads_string.bind fun name => reads_u32.bind fun mode =>
    reads_u32.last fun gid => Request.mkdir fid name mode gid).congr fun code request => ?_
  simp only [Grammar.andThen_field, Grammar.map_field, any, true_and]
  constructor
  · rintro ⟨fid, _, ⟨name, hname, _, ⟨mode, _, ⟨gid, rfl, rfl⟩, rfl⟩, rfl⟩, rfl⟩
    exact .mkdir hname
  · intro h
    cases h with
    | mkdir hname =>
      exact ⟨_, _, ⟨_, hname, _, ⟨_, _, ⟨_, rfl, rfl⟩, rfl⟩, rfl⟩, rfl⟩

theorem reads_link : Reads (do return .link (← u32) (← u32) (← string)) (Encodes 70) := by
  refine (reads_u32.bind fun directory => reads_u32.bind fun fid => reads_string.last fun name =>
    Request.link directory fid name).congr fun code request => ?_
  simp only [Grammar.andThen_field, Grammar.map_field, any, true_and]
  constructor
  · rintro ⟨directory, _, ⟨fid, _, ⟨name, hname, rfl, rfl⟩, rfl⟩, rfl⟩
    exact .link hname
  · intro h
    cases h with
    | link hname =>
      exact ⟨_, _, ⟨_, _, ⟨_, hname, rfl, rfl⟩, rfl⟩, rfl⟩

theorem reads_rename :
    Reads (do return .rename (← u32) (← string) (← u32) (← string)) (Encodes 74) := by
  refine (reads_u32.bind fun oldDirectory => reads_string.bind fun oldName => reads_u32.bind fun
    newDirectory => reads_string.last fun newName => Request.rename oldDirectory oldName
    newDirectory newName).congr fun code request => ?_
  simp only [Grammar.andThen_field, Grammar.map_field, any, true_and]
  constructor
  · rintro ⟨oldDirectory, _, ⟨oldName, hold, _, ⟨newDirectory, _, ⟨newName, hnew, rfl, rfl⟩, rfl⟩,
      rfl⟩, rfl⟩
    exact .rename hold hnew
  · intro h
    cases h with
    | rename hold hnew =>
      exact ⟨_, _, ⟨_, hold, _, ⟨_, _, ⟨_, hnew, rfl, rfl⟩, rfl⟩, rfl⟩, rfl⟩

theorem reads_unlink : Reads (do return .unlink (← u32) (← string) (← u32)) (Encodes 76) := by
  refine (reads_u32.bind fun directory => reads_string.bind fun name => reads_u32.last fun flags =>
    Request.unlink directory name flags).congr fun code request => ?_
  simp only [Grammar.andThen_field, Grammar.map_field, any, true_and]
  constructor
  · rintro ⟨directory, _, ⟨name, hname, _, ⟨flags, rfl, rfl⟩, rfl⟩, rfl⟩
    exact .unlink hname
  · intro h
    cases h with
    | unlink hname =>
      exact ⟨_, _, ⟨_, hname, _, ⟨_, rfl, rfl⟩, rfl⟩, rfl⟩

theorem reads_tlock : Reads (do return .lock (← readLock true)) (Encodes 52) := by
  refine (reads_lock.last fun lock => Request.lock lock).congr fun code request => ?_
  simp only [Grammar.map_field]
  constructor
  · rintro ⟨lock, hclient, rfl, rfl⟩
    exact .lock hclient
  · intro h
    cases h with
    | lock hclient =>
      exact ⟨_, hclient, rfl, rfl⟩

theorem reads_tgetlock : Reads (do return .getlock (← readLock false)) (Encodes 54) := by
  refine (reads_getlock.last fun lock => Request.getlock lock).congr fun code request => ?_
  simp only [Grammar.map_field]
  constructor
  · rintro ⟨lock, hlock, rfl, rfl⟩
    exact .getlock hlock.1 hlock.2
  · intro h
    cases h with
    | getlock hclient hflags =>
      exact ⟨_, ⟨hclient, hflags⟩, rfl, rfl⟩

theorem reads_flush : Reads (do
      let _ ← u16
      return .flush) (Encodes 108) := by
  refine (reads_u16.last fun _ => Request.flush).congr fun code request => ?_
  simp only [Grammar.map_field, any, true_and]
  constructor
  · rintro ⟨oldTag, rfl, rfl⟩
    exact .flush
  · intro h
    cases h
    exact ⟨_, rfl, rfl⟩

/-- A check between two fields takes no bytes. -/
theorem reads_unless {α : Type} {c : Prop} [Decidable c] {e : UInt32} {x : ReaderOp α}
    {g : Grammar α} (hx : Reads x g) :
    Reads (if c then Op.fail e else x) (fun code a => ¬c ∧ g code a) where
  complete := by
    rintro code a ⟨hc, hcode⟩ before after hlength
    rw [if_neg hc]
    exact hx.complete hcode before after hlength
  sound := by
    intro before rest a r h
    by_cases hc : c
    · rw [if_pos hc] at h
      cases h
    · rw [if_neg hc] at h
      obtain ⟨code, after, hcode, hrest⟩ := hx.sound h
      exact ⟨code, after, ⟨hc, hcode⟩, hrest⟩

theorem halfCode_ofNat {n : Nat} (h : n < 2 ^ 16) :
    halfCode (UInt16.ofNat n) = LittleEndian.encode 2 n :=
  congrArg (LittleEndian.encode 2) (UInt16.toNat_ofNat_of_lt' h)

theorem wordCode_ofNat {n : Nat} (h : n < 2 ^ 32) :
    wordCode (UInt32.ofNat n) = LittleEndian.encode 4 n :=
  congrArg (LittleEndian.encode 4) (UInt32.toNat_ofNat_of_lt' h)

theorem reads_walk :
    Reads (do
      let fid ← u32
      let newFid ← u32
      let count ← u16
      if maxNames < count.toNat then Op.fail EINVAL
      else return .walk fid newFid (← strings count.toNat)) (Encodes 110) := by
  refine (reads_u32.bind fun fid => reads_u32.bind fun newFid => reads_u16.bind fun count =>
    reads_unless ((reads_strings count.toNat).last fun names =>
      Request.walk fid newFid names)).congr fun code request => ?_
  simp only [Grammar.andThen_field, Grammar.map_field, any, true_and]
  constructor
  · rintro ⟨fid, _, ⟨newFid, _, ⟨count, _, ⟨hcount, names, ⟨hnames, hlength⟩, rfl, rfl⟩, rfl⟩,
      rfl⟩, rfl⟩
    have hcode : halfCode count = LittleEndian.encode 2 names.length :=
      congrArg (LittleEndian.encode 2) hlength.symm
    rw [hcode]
    exact .walk hnames (by omega)
  · intro h
    obtain ⟨fid, newFid, names, rfl, hnames, hlength, rfl⟩ : ∃ fid newFid names,
        request = .walk fid newFid names ∧ (∀ name ∈ names, Text name) ∧
          names.length ≤ maxNames ∧ code = wordCode fid ++ (wordCode newFid ++
            (LittleEndian.encode 2 names.length ++ names.flatMap textCode)) := by
      cases h with
      | walk hnames hlength => exact ⟨_, _, _, rfl, hnames, hlength, rfl⟩
    have hmax : maxNames = 16 := rfl
    have hsmall : names.length < 2 ^ 16 := by omega
    have hcount : (UInt16.ofNat names.length).toNat = names.length :=
      UInt16.toNat_ofNat_of_lt' hsmall
    rw [← halfCode_ofNat hsmall]
    exact ⟨_, _, ⟨_, _, ⟨UInt16.ofNat names.length, _, ⟨by omega, names,
      ⟨hnames, hcount.symm⟩, rfl, rfl⟩, rfl⟩, rfl⟩, rfl⟩

theorem reads_write :
    Reads (do
      let fid ← u32
      let offset ← u64
      let count ← u32
      return .write fid offset (← take count.toNat)) (Encodes 118) := by
  refine (reads_u32.bind fun fid => reads_u64.bind fun offset => reads_u32.bind fun count =>
    (reads_take count.toNat).last fun data =>
      Request.write fid offset data).congr fun code request => ?_
  simp only [Grammar.andThen_field, any, true_and]
  constructor
  · rintro ⟨fid, _, ⟨offset, _, ⟨count, _, ⟨data, ⟨rfl, hlength⟩, rfl⟩, rfl⟩, rfl⟩, rfl⟩
    rename_i data
    have hcode : wordCode count = LittleEndian.encode 4 data.length :=
      congrArg (LittleEndian.encode 4) hlength.symm
    have hlt := count.toNat_lt
    have hmax : u32Max = 2 ^ 32 - 1 := rfl
    rw [hcode]
    exact .write (by omega)
  · intro h
    obtain ⟨fid, offset, data, rfl, hlength, rfl⟩ : ∃ fid offset data,
        request = .write fid offset data ∧ data.length ≤ u32Max ∧
          code = wordCode fid ++ (longCode offset ++
            (LittleEndian.encode 4 data.length ++ data)) := by
      cases h with
      | write hlength => exact ⟨_, _, _, rfl, hlength, rfl⟩
    have hmax : u32Max = 2 ^ 32 - 1 := rfl
    have hsmall : data.length < 2 ^ 32 := by omega
    have hcount : (UInt32.ofNat data.length).toNat = data.length :=
      UInt32.toNat_ofNat_of_lt' hsmall
    rw [← wordCode_ofNat hsmall]
    exact ⟨_, _, ⟨_, _, ⟨UInt32.ofNat data.length, _, ⟨data, ⟨rfl, hcount.symm⟩, rfl⟩, rfl⟩, rfl⟩,
      rfl⟩

/-- The body of each known type reads its grammar. -/
theorem fields_reads {kind : Nat} {body : ReaderOp Request} (h : fields kind = some body) :
    Reads body (Encodes kind) := by
  unfold fields at h
  split at h
  · cases h; exact reads_version
  · cases h; exact reads_attach
  · cases h; exact reads_flush
  · cases h; exact reads_walk
  · cases h; exact reads_lopen
  · cases h; exact reads_create
  · cases h; exact reads_read
  · cases h; exact reads_write
  · cases h; exact reads_clunk
  · cases h; exact reads_statfs
  · cases h; exact reads_getattr
  · cases h; exact reads_setattr
  · cases h; exact reads_readdir
  · cases h; exact reads_fsync
  · cases h; exact reads_symlink
  · cases h; exact reads_readlink
  · cases h; exact reads_mkdir
  · cases h; exact reads_link
  · cases h; exact reads_rename
  · cases h; exact reads_unlink
  · cases h; exact reads_tlock
  · cases h; exact reads_tgetlock
  · cases h

theorem Encodes.known {kind : Nat} {bytes : List UInt8} {request : Request}
    (h : Encodes kind bytes request) : ∃ body, fields kind = some body := by
  cases h <;> exact ⟨_, rfl⟩

theorem parse_body {kind : UInt8} {body : ReaderOp Request} (h : fields kind.toNat = some body)
    (bytes : List UInt8) : parse kind bytes =
      ((body >>= fun request => done >>= fun _ => pure request : ReaderOp Request)
        (Reader.new bytes)).1 := by
  unfold parse
  rw [h]

theorem done_end (bytes : List UInt8) :
    done (between bytes []) = (.ok (), between bytes []) := by
  have hend : (between bytes []).offset = (between bytes []).bytes.length := by
    show bytes.length = (bytes ++ []).length
    rw [List.append_nil]
  unfold done
  rw [Op.bind_ok (Op.get_apply _), if_pos hend]
  rfl

theorem done_ok {before rest : List UInt8} {r : Reader}
    (h : done (between before rest) = (.ok (), r)) : rest = [] := by
  unfold done at h
  rw [Op.bind_ok (Op.get_apply _)] at h
  by_cases hend : (between before rest).offset = (between before rest).bytes.length
  · have hlength : before.length = (before ++ rest).length := hend
    rw [List.length_append] at hlength
    exact List.length_eq_zero_iff.mp (by omega)
  · rw [if_neg hend] at h
    cases h

/-- `parse` inverts the grammar: it returns the request of every body, and the body of every
request that it returns is the whole message. -/
theorem parse_encodes :
    (∀ (kind : UInt8) (bytes : List UInt8) (request : Request),
      Encodes kind.toNat bytes request → bytes.length ≤ usizeMax →
        parse kind bytes = .ok request) ∧
    ∀ (kind : UInt8) (bytes : List UInt8) (request : Request),
      parse kind bytes = .ok request → request ≠ .unsupported →
        Encodes kind.toNat bytes request := by
  constructor
  · intro kind bytes request h hlength
    obtain ⟨body, hbody⟩ := h.known
    have hwhole : ([] ++ bytes ++ []).length ≤ usizeMax := by
      rw [List.append_nil]
      exact hlength
    have hread : body (Reader.new bytes) = (.ok request, between bytes []) := by
      have hcomplete := (fields_reads hbody).complete h [] [] hwhole
      rw [List.append_nil] at hcomplete
      exact hcomplete
    rw [parse_body hbody, Op.bind_ok hread, Op.bind_ok (done_end bytes)]
    rfl
  · intro kind bytes request h hknown
    cases hbody : fields kind.toNat with
    | none =>
      unfold parse at h
      rw [hbody] at h
      cases h
      exact absurd rfl hknown
    | some body =>
      rw [parse_body hbody] at h
      rcases hrun : (body >>= fun request => done >>= fun _ => pure request : ReaderOp Request)
        (Reader.new bytes) with ⟨result, t⟩
      rw [hrun] at h
      have h : result = .ok request := h
      rw [h] at hrun
      obtain ⟨parsed, r, hread, hrun⟩ := Op.bind_eq_ok hrun
      have hread : body (between [] bytes) = (.ok parsed, r) := hread
      obtain ⟨code, after, hcode, hbytes, rfl⟩ := (fields_reads hbody).sound hread
      obtain ⟨_, r, hdone, hrun⟩ := Op.bind_eq_ok hrun
      cases hrun
      rw [done_ok hdone, List.append_nil] at hbytes
      rw [hbytes]
      exact hcode

end Request
end Riscbox
