import Mathlib.Algebra.Group.Int.Defs
import Mathlib.Algebra.Group.Nat.Defs
import Idylla.Lib.Memory
import Idylla.Vfs.VnodeGet

namespace Idylla.Ramfs

open Idylla.Lib Idylla.Vfs

/-!
# Directories of ramfs

The operations of `ramfs.c` on the inodes of one mount, whose data are read as
directory entries.  Nothing here writes to a file, so that every size is a
number of entries; `kalloc` and `krealloc` are assumed to succeed.
-/

/-- `struct ramfs_dentry` -/
structure RamfsDentry where
  name : List Char
  inode : Nat
  deriving Repr, DecidableEq

/-- `struct ramfs_inode`, with the size as a number of entries. -/
structure RamfsInode where
  mode : Nat
  uid : Nat
  gid : Nat
  nlink : Nat
  size : Nat
  rdev : Nat
  data : Memory RamfsDentry

/-- `inode->nlink++` and `vnode->nlink--` count in a `nlink_t`. -/
def nlinkMod : Nat := 2 ^ 16

/-- A regular file. -/
def S_IFREG : Nat := 0o100000

/-- `RAMFS_ROOT_INODE` -/
def RAMFS_ROOT_INODE : Nat := 1

namespace RamfsInode

/-- An inode as `kalloc` and the assignments behind it leave it. -/
def new (mode rdev : Nat) : RamfsInode where
  mode := mode
  uid := 0
  gid := 0
  nlink := 0
  size := 0
  rdev := rdev
  data := fun _ => { name := [], inode := 0 }

/-- `S_ISDIR` -/
def IsDir (inode : RamfsInode) : Prop :=
  inode.mode &&& S_IFMT = S_IFDIR

/-- The entry at a position replaced. -/
def setEntry (inode : RamfsInode) (pos : Nat)
    (entry : RamfsDentry) : RamfsInode :=
  { inode with data := inode.data.fill pos entry 1 }

/-- The loops over a directory stop at the first entry that they look for. -/
def search (inode : RamfsInode) (wanted : RamfsDentry → Bool) : Option Nat :=
  (List.range inode.size).find? fun pos => wanted (inode.data pos)

/-- `ramfs_put_entry`, as far as it changes the parent. -/
def putEntry (parent : RamfsInode) (entry : RamfsDentry) : RamfsInode :=
  match parent.search fun dentry => dentry.inode == 0 with
  | some pos => parent.setEntry pos entry
  | none =>
    { parent.setEntry parent.size entry with size := parent.size + 1 }

/-- `ramfs_lookup`; nothing where it returns 0. -/
def lookup (inode : RamfsInode) (name : List Char) : Option Nat :=
  (inode.search fun dentry => dentry.name == name && dentry.inode != 0).map
    fun pos => (inode.data pos).inode

/-- `ramfs_unlink`; nothing where it returns `-ENOENT`. -/
def unlink (inode : RamfsInode) (name : List Char) : Option RamfsInode :=
  (inode.search fun dentry => dentry.name == name).map fun pos =>
    inode.setEntry pos { name := (inode.data pos).name, inode := 0 }

end RamfsInode

namespace RamfsInode

/-- A position of the directory refers to an inode under a name. -/
structure Has
    (inode : RamfsInode) (name : List Char)
    (ino pos : Nat) : Prop where
  inside : pos < inode.size
  isEntry : inode.data pos = { name := name, inode := ino }
  alive : ino ≠ 0

/-- The name refers to the inode number, and to no other one. -/
structure Binds
    (inode : RamfsInode) (name : List Char)
    (ino : Nat) : Prop where
  present : ∃ pos, inode.Has name ino pos
  unique : ∀ other pos, inode.Has name other pos → other = ino

variable {inode : RamfsInode} {wanted : RamfsDentry → Bool}
  {name : List Char} {ino pos : Nat}

theorem search_some (isFound : inode.search wanted = some pos) :
    pos < inode.size ∧ wanted (inode.data pos) = true := by
  have isWanted := @List.find?_some _ (fun pos => wanted (inode.data pos))
    pos _ isFound
  exact ⟨List.mem_range.mp (List.mem_of_find?_eq_some isFound), isWanted⟩

theorem search_none (missing : inode.search wanted = none)
    (inside : pos < inode.size) : wanted (inode.data pos) = false := by
  have refused := List.find?_eq_none.mp missing pos (List.mem_range.mpr inside)
  simpa using refused

theorem has_of_lookup (isFound : inode.lookup name = some ino) :
    ∃ pos, inode.Has name ino pos := by
  obtain ⟨pos, stops, isIno⟩ := Option.map_eq_some_iff.mp isFound
  obtain ⟨inside, isWanted⟩ := search_some stops
  simp only [Bool.and_eq_true, beq_iff_eq, bne_iff_ne] at isWanted
  subst isIno
  refine ⟨pos, inside, ?_, isWanted.2⟩
  rw [← isWanted.1]

theorem lookup_of_has (has : inode.Has name ino pos) :
    inode.lookup name ≠ none := by
  intro missing
  have refused := search_none (Option.map_eq_none_iff.mp missing) has.inside
  simp [has.isEntry, has.alive] at refused

theorem lookup_of_binds (binds : inode.Binds name ino) :
    inode.lookup name = some ino := by
  obtain ⟨pos, has⟩ := binds.present
  obtain ⟨other, isFound⟩ := Option.ne_none_iff_exists'.mp (lookup_of_has has)
  obtain ⟨at_, isOther⟩ := has_of_lookup isFound
  rw [isFound, binds.unique other at_ isOther]

theorem Binds.congr {other : RamfsInode} (binds : inode.Binds name ino)
    (agrees : ∀ ino pos, other.Has name ino pos ↔ inode.Has name ino pos) :
    other.Binds name ino := by
  obtain ⟨pos, has⟩ := binds.present
  exact ⟨⟨pos, (agrees ino pos).mpr has⟩,
    fun another at_ has => binds.unique another at_ ((agrees _ _).mp has)⟩

theorem data_setEntry (slot : Nat) (entry : RamfsDentry) (pos : Nat) :
    (inode.setEntry slot entry).data pos =
      if pos = slot then entry else inode.data pos := by
  show inode.data.fill slot entry 1 pos = _
  rw [Memory.fill_eq]
  by_cases isSlot : pos = slot
  · rw [if_pos isSlot, if_pos (by omega)]
  · rw [if_neg isSlot, if_neg (by omega)]

@[simp] theorem mode_putEntry (entry : RamfsDentry) :
    (inode.putEntry entry).mode = inode.mode := by
  unfold putEntry
  split <;> rfl

theorem size_le_putEntry (entry : RamfsDentry) :
    inode.size ≤ (inode.putEntry entry).size := by
  unfold putEntry
  split
  · exact Nat.le_refl inode.size
  · exact Nat.le_succ inode.size

theorem has_putEntry {entry : RamfsDentry} (alive : entry.inode ≠ 0) :
    ∃ slot,
      (∀ name ino, ¬ inode.Has name ino slot) ∧
        ∀ name ino pos,
          (inode.putEntry entry).Has name ino pos ↔
            inode.Has name ino pos ∨
              pos = slot ∧ entry = { name := name, inode := ino } := by
  unfold putEntry
  cases stops : inode.search fun dentry => dentry.inode == 0 with
  | some slot =>
    obtain ⟨inside, isDead⟩ := search_some stops
    rw [beq_iff_eq] at isDead
    have dead (name : List Char) (ino : Nat) : ¬ inode.Has name ino slot := by
      intro has
      rw [has.isEntry] at isDead
      exact has.alive isDead
    refine ⟨slot, dead, fun name ino pos => ?_⟩
    constructor
    · rintro ⟨below, isEntry, notZero⟩
      rw [data_setEntry] at isEntry
      split at isEntry
      next isSlot => exact .inr ⟨isSlot, isEntry⟩
      · exact .inl ⟨below, isEntry, notZero⟩
    · rintro (has | ⟨rfl, rfl⟩)
      · have isOther : pos ≠ slot := by
          rintro rfl
          exact dead name ino has
        refine ⟨has.inside, ?_, has.alive⟩
        rw [data_setEntry, if_neg isOther]
        exact has.isEntry
      · refine ⟨inside, ?_, alive⟩
        rw [data_setEntry, if_pos rfl]
  | none =>
    have dead (name : List Char) (ino : Nat) :
        ¬ inode.Has name ino inode.size :=
      fun has => Nat.lt_irrefl _ has.inside
    refine ⟨inode.size, dead, fun name ino pos => ?_⟩
    constructor
    · rintro ⟨below, isEntry, notZero⟩
      have below : pos < inode.size + 1 := below
      rw [data_setEntry] at isEntry
      split at isEntry
      next isSlot => exact .inr ⟨isSlot, isEntry⟩
      · exact .inl ⟨by omega, isEntry, notZero⟩
    · rintro (has | ⟨rfl, rfl⟩)
      · have isOther : pos ≠ inode.size := Nat.ne_of_lt has.inside
        refine ⟨Nat.lt_succ_of_lt has.inside, ?_, has.alive⟩
        rw [data_setEntry, if_neg isOther]
        exact has.isEntry
      · refine ⟨Nat.lt_succ_self inode.size, ?_, alive⟩
        rw [data_setEntry, if_pos rfl]

theorem lookup_putEntry_none {entry : RamfsDentry} (alive : entry.inode ≠ 0)
    (missing : inode.lookup name = none) (differs : name ≠ entry.name) :
    (inode.putEntry entry).lookup name = none := by
  obtain ⟨slot, -, hasPut⟩ := @has_putEntry inode entry alive
  cases isFound : (inode.putEntry entry).lookup name with
  | none =>
    rfl
  | some ino =>
    obtain ⟨pos, has⟩ := has_of_lookup isFound
    rcases (hasPut _ _ _).mp has with has | ⟨-, isEntry⟩
    · exact absurd missing (lookup_of_has has)
    · rw [isEntry] at differs
      exact absurd rfl differs

theorem binds_putEntry {entry : RamfsDentry} (alive : entry.inode ≠ 0)
    (missing : inode.lookup entry.name = none) :
    (inode.putEntry entry).Binds entry.name entry.inode := by
  obtain ⟨slot, -, hasPut⟩ := @has_putEntry inode entry alive
  constructor
  · exact ⟨slot, (hasPut _ _ _).mpr (.inr ⟨rfl, rfl⟩)⟩
  · intro other pos has
    rcases (hasPut _ _ _).mp has with has | ⟨-, isEntry⟩
    · exact absurd missing (lookup_of_has has)
    · rw [isEntry]

theorem Binds.putEntry {entry : RamfsDentry} (binds : inode.Binds name ino)
    (alive : entry.inode ≠ 0) (differs : name ≠ entry.name) :
    (inode.putEntry entry).Binds name ino := by
  obtain ⟨slot, -, hasPut⟩ := @has_putEntry inode entry alive
  refine binds.congr fun other pos => ?_
  rw [hasPut]
  constructor
  · rintro (has | ⟨-, isEntry⟩)
    · exact has
    · rw [isEntry] at differs
      exact absurd rfl differs
  · exact .inl

variable {after : RamfsInode}

theorem unlink_keeps (unlinks : inode.unlink name = some after) :
    after.mode = inode.mode ∧ after.size = inode.size := by
  obtain ⟨slot, -, rfl⟩ := Option.map_eq_some_iff.mp unlinks
  exact ⟨rfl, rfl⟩

theorem Binds.unlink {removed : List Char} (binds : inode.Binds name ino)
    (unlinks : inode.unlink removed = some after) (differs : name ≠ removed) :
    after.Binds name ino := by
  obtain ⟨slot, stops, rfl⟩ := Option.map_eq_some_iff.mp unlinks
  obtain ⟨inside, isRemoved⟩ := search_some stops
  rw [beq_iff_eq] at isRemoved
  refine binds.congr fun other pos => ?_
  constructor
  · rintro ⟨below, isEntry, alive⟩
    rw [data_setEntry] at isEntry
    split at isEntry
    · exact absurd (congrArg RamfsDentry.inode isEntry).symm alive
    · exact ⟨below, isEntry, alive⟩
  · rintro ⟨below, isEntry, alive⟩
    have isOther : pos ≠ slot := by
      rintro rfl
      rw [isEntry] at isRemoved
      exact differs isRemoved
    refine ⟨below, ?_, alive⟩
    rw [data_setEntry, if_neg isOther]
    exact isEntry

/-- No entry that is alive lies behind a size. -/
def EndsBefore (inode : RamfsInode) (size : Nat) : Prop :=
  ∀ name ino pos, inode.Has name ino pos → pos < size

theorem Binds.resize (binds : inode.Binds name ino)
    (isData : after.data = inode.data) (notLonger : after.size ≤ inode.size)
    (endsBefore : inode.EndsBefore after.size) : after.Binds name ino := by
  refine binds.congr fun other pos => ?_
  constructor
  · rintro ⟨below, isEntry, alive⟩
    rw [isData] at isEntry
    exact ⟨Nat.lt_of_lt_of_le below notLonger, isEntry, alive⟩
  · intro has
    refine ⟨endsBefore _ _ _ has, ?_, has.alive⟩
    rw [isData]
    exact has.isEntry

end RamfsInode

end Idylla.Ramfs
