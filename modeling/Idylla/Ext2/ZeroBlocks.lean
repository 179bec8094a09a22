import Idylla.Ext2.Superblock
import Idylla.Lib.Memory
import Idylla.Lib.Run

namespace Idylla.Ext2

open Idylla.Lib

/-!
# Zeroing new blocks

`inode_do_alloc_block` zeroes a block from a buffer that all mounts share.  The
filesystem that needs it first decides how long it is; it is never freed and
nothing else writes to it.  `ext2_umount` does nothing, so the mounts stay.
-/

/-- Where `kalloc` has put the zero buffer, and of how many bytes it is. -/
structure ZeroBuffer where
  address : Nat
  size : Nat

/-- A mountpoint of ext2: `device` and `data`. -/
structure ZeroMount where
  device : Nat
  data : MountedData

/-- `vnode->block_size` -/
def ZeroMount.blockSize (mount : ZeroMount) : Nat :=
  mount.data.blkSize.toNat

/-- The static `zero`, the kernel's memory, the mounts and the devices. -/
structure ZeroWorld where
  zero : Option ZeroBuffer
  memory : Memory UInt8
  mounts : List ZeroMount
  disks : Nat → Memory UInt8

/-- A call of `inode_do_alloc_block`, and what the functions in it answer. -/
structure ZeroCall where
  /-- `vnode->mp`, the place among the mounts. -/
  mp : Nat
  /-- `i_blocks` of the inode. -/
  iBlocks : BitVec 32
  zeroblock : Bool
  /-- What `block_alloc` returns, and the device that it leaves. -/
  blockAlloc : Except Errno (BitVec 32)
  disk : Memory UInt8
  kalloc : Nat
  /-- How many sectors `bdev_write` transfers, and its error. -/
  sent : Nat
  writeErr : Option Errno

/-- The bytes that `bdev_write` takes from memory. -/
structure ReadRange where
  address : Nat
  count : Nat

/-- How a call ends, and the block that it has allocated. -/
structure ZeroResult where
  err : Option Errno
  block : Option (BitVec 32)
  iBlocks : BitVec 32
  read : Option ReadRange
  world : ZeroWorld

namespace ZeroWorld

/-- The kernel before ext2 has been used. -/
def booted (memory : Memory UInt8)
    (disks : Nat → Memory UInt8) : ZeroWorld where
  zero := none
  memory := memory
  mounts := []
  disks := disks

/-- One device changed. -/
def setDisk (world : ZeroWorld) (device : Nat)
    (disk : Memory UInt8) : ZeroWorld :=
  { world with
    disks := fun other => if other = device then disk else world.disks other }

/-- `bdev_write` of so many sectors from memory. -/
def bdevWrite (world : ZeroWorld)
    (device address offset sectors : Nat) : ZeroWorld :=
  world.setDisk device
    ((world.disks device).copy (512 * offset) world.memory address
      (512 * sectors))

/-- The zero buffer, allocated and cleared where there is none. -/
def takeZero (world : ZeroWorld)
    (kalloc blockSize : Nat) : ZeroBuffer × ZeroWorld :=
  match world.zero with
  | some buffer => (buffer, world)
  | none =>
    (⟨kalloc, blockSize⟩,
      { world with
        zero := some ⟨kalloc, blockSize⟩
        memory := world.memory.fill kalloc 0 blockSize })

/-- `inode_do_alloc_block` for a vnode of this mount. -/
def inodeDoAllocBlock (world : ZeroWorld) (mount : ZeroMount)
    (call : ZeroCall) : ZeroResult :=
  let searched := world.setDisk mount.device call.disk
  match call.blockAlloc with
  | .error err =>
    { err := some err
      block := none
      iBlocks := call.iBlocks
      read := none
      world := searched }
  | .ok block =>
    if call.zeroblock then
      let (buffer, ready) := searched.takeZero call.kalloc mount.blockSize
      let sectors := min call.sent mount.data.spb.toNat
      -- Only a negative result is looked at; the block stays allocated.
      { err := call.writeErr
        block := some block
        iBlocks := call.iBlocks + 1
        read := some ⟨buffer.address, 512 * sectors⟩
        world :=
          ready.bdevWrite mount.device buffer.address
            (mount.data.sectorNum block).toNat sectors }
    else
      { err := none
        block := some block
        iBlocks := call.iBlocks + 1
        read := none
        world := searched }

end ZeroWorld

/-- What happens to the mounts of ext2 and to the zero buffer. -/
inductive ZeroLabel where
  | mount (device : Nat) (io : MountIo) (flagged : Bool) (sb : DiskSuperblock)
      (groups : Nat → DiskGroupDesc)
  | alloc (call : ZeroCall)
  /-- Everything else leaves the bytes of the buffer alone. -/
  | elsewhere (memory : Memory UInt8) (disks : Nat → Memory UInt8)

/-- The world after a step. -/
def ZeroWorld.step (world : ZeroWorld) : ZeroLabel → ZeroWorld
  | .mount device io flagged sb groups =>
    match ext2Mount io flagged sb groups with
    | .mounted data =>
      { world with mounts := world.mounts ++ [⟨device, data⟩] }
    | .failed _ | .panicked | .divideError => world
  | .alloc call =>
    match world.mounts[call.mp]? with
    | some mount => (world.inodeDoAllocBlock mount call).world
    | none => world
  | .elsewhere memory disks =>
    { world with
      memory := match world.zero with
        | some buffer =>
          memory.copy buffer.address world.memory buffer.address buffer.size
        | none => memory
      disks := disks }

/-- The steps, as a relation. -/
def ZeroStep (world : ZeroWorld) (label : ZeroLabel)
    (next : ZeroWorld) : Prop :=
  next = world.step label

/--
The new block holds zeros after the call, and `bdev_write` has read inside the
zero buffer only.
-/
def ZeroCall.Zeroes (call : ZeroCall) (world : ZeroWorld) (mount : ZeroMount)
    (block : BitVec 32) : Prop :=
  let result := world.inodeDoAllocBlock mount call
  (∀ index < mount.blockSize,
    result.world.disks mount.device
      (block.toNat * mount.blockSize + index) = 0) ∧
  ∀ read, result.read = some read →
    ∃ buffer, result.world.zero = some buffer ∧ buffer.address ≤ read.address ∧
      read.address + read.count ≤ buffer.address + buffer.size

/-- The size of the zero buffer that a call on this mount uses. -/
def ZeroWorld.zeroSize (world : ZeroWorld) (mount : ZeroMount) : Nat :=
  match world.zero with
  | some buffer => buffer.size
  | none => mount.blockSize

/-- The write reaches this byte of the device. -/
def ZeroCall.Overwrites
    (call : ZeroCall) (mount : ZeroMount) (block : BitVec 32)
    (address : Nat) : Prop :=
  let sector := (mount.data.sectorNum block).toNat
  512 * sector ≤ address ∧
    address < 512 * sector + 512 * min call.sent mount.data.spb.toNat

/--
The buffer is as long as the write, and what the write does not reach of the
block is zero already.
-/
def ZeroCall.Suits (call : ZeroCall) (world : ZeroWorld) (mount : ZeroMount)
    (block : BitVec 32) : Prop :=
  512 * min call.sent mount.data.spb.toNat ≤ world.zeroSize mount ∧
    ∀ index < mount.blockSize,
      call.Overwrites mount block (block.toNat * mount.blockSize + index) ∨
        call.disk (block.toNat * mount.blockSize + index) = 0

/-- A property of every call that zeroes the block that it allocates. -/
def OfZeroing (property : ZeroCall → ZeroWorld → ZeroMount → BitVec 32 → Prop)
    (world : ZeroWorld) : ZeroLabel → Prop
  | .alloc call =>
    call.zeroblock = true → ∀ mount block, world.mounts[call.mp]? = some mount →
      call.blockAlloc = .ok block →
      property call world mount block
  | .mount _ _ _ _ _ | .elsewhere _ _ => True

/-- The zero buffer holds zeros. -/
def ZeroWorld.Sound (world : ZeroWorld) : Prop :=
  ∀ buffer, world.zero = some buffer →
    ∀ index < buffer.size, world.memory (buffer.address + index) = 0

namespace ZeroWorld

variable {world next : ZeroWorld} {mount : ZeroMount} {call : ZeroCall}
  {block : BitVec 32}

theorem takeZero_spec (sound : world.Sound) (kalloc : Nat) (mount : ZeroMount) :
    (world.takeZero kalloc mount.blockSize).2.Sound ∧
      (world.takeZero kalloc mount.blockSize).2.zero =
        some (world.takeZero kalloc mount.blockSize).1 ∧
      (world.takeZero kalloc mount.blockSize).1.size = world.zeroSize mount ∧
      (world.takeZero kalloc mount.blockSize).2.disks = world.disks := by
  unfold takeZero zeroSize
  cases isZero : world.zero with
  | some buffer =>
    exact ⟨sound, isZero, rfl, rfl⟩
  | none =>
    refine ⟨?_, rfl, rfl, rfl⟩
    rintro buffer ⟨⟩ index inside
    exact if_pos ⟨Nat.le_add_right _ _, Nat.add_lt_add_left inside _⟩

@[simp] theorem setDisk_same (device : Nat) (disk : Memory UInt8) :
    (world.setDisk device disk).disks device = disk :=
  if_pos rfl

theorem inodeDoAllocBlock_zeroing (sound : world.Sound) (mount : ZeroMount)
    (zeroing : call.zeroblock = true)
    (allocated : call.blockAlloc = .ok block) :
    ∃ (buffer : ZeroBuffer) (ready : ZeroWorld),
      ready.Sound ∧ ready.zero = some buffer ∧
        buffer.size = world.zeroSize mount ∧
        ready.disks mount.device = call.disk ∧
        world.inodeDoAllocBlock mount call =
          { err := call.writeErr
            block := some block
            iBlocks := call.iBlocks + 1
            read :=
              some ⟨buffer.address, 512 * min call.sent mount.data.spb.toNat⟩
            world :=
              ready.bdevWrite mount.device buffer.address
                (mount.data.sectorNum block).toNat
                (min call.sent mount.data.spb.toNat) } := by
  have searched : (world.setDisk mount.device call.disk).Sound := sound
  obtain ⟨ready, taken, size, disks⟩ := takeZero_spec searched call.kalloc mount
  refine ⟨_, _, ready, taken, size, ?_, ?_⟩
  · rw [disks, setDisk_same]
  · unfold inodeDoAllocBlock
    rw [allocated]
    exact if_pos zeroing

theorem inodeDoAllocBlock_sound (sound : world.Sound) (mount : ZeroMount)
    (call : ZeroCall) : (world.inodeDoAllocBlock mount call).world.Sound := by
  cases allocated : call.blockAlloc with
  | error err =>
    unfold inodeDoAllocBlock
    rw [allocated]
    exact sound
  | ok block =>
    cases zeroing : call.zeroblock with
    | false =>
      unfold inodeDoAllocBlock
      rw [allocated, zeroing]
      exact sound
    | true =>
      obtain ⟨buffer, ready, isSound, -, -, -, ends⟩ :=
        inodeDoAllocBlock_zeroing sound mount zeroing allocated
      rw [ends]
      exact isSound

theorem step_sound (sound : world.Sound) (label : ZeroLabel) :
    (world.step label).Sound := by
  cases label with
  | mount device io flagged sb groups =>
    unfold step
    dsimp only
    split <;> exact sound
  | alloc call =>
    unfold step
    dsimp only
    split
    · exact inodeDoAllocBlock_sound sound _ call
    · exact sound
  | elsewhere memory disks =>
    intro buffer isBuffer index inside
    have isZero : world.zero = some buffer := isBuffer
    unfold step
    rw [isZero]
    dsimp only
    rw [Memory.copy_inside (Nat.le_add_right _ _) (by omega),
      Nat.add_sub_cancel_left]
    exact sound buffer isZero index inside

end ZeroWorld

theorem bdevWrite_zeros {world : ZeroWorld} {buffer : ZeroBuffer}
    {device offset sectors address : Nat} (sound : world.Sound)
    (isBuffer : world.zero = some buffer) (fits : 512 * sectors ≤ buffer.size) :
    (world.bdevWrite device buffer.address offset sectors).disks device
        address = 0 ↔
      (512 * offset ≤ address ∧ address < 512 * offset + 512 * sectors) ∨
        world.disks device address = 0 := by
  unfold ZeroWorld.bdevWrite
  rw [ZeroWorld.setDisk_same]
  by_cases inside :
      512 * offset ≤ address ∧ address < 512 * offset + 512 * sectors
  · rw [Memory.copy_inside inside.1 inside.2]
    exact iff_of_true (sound buffer isBuffer _ (by omega)) (.inl inside)
  · rw [Memory.copy_outside (by omega)]
    exact (or_iff_right inside).symm

theorem ZeroCall.zeroes_iff
    {call : ZeroCall} {world : ZeroWorld} {block : BitVec 32}
    (sound : world.Sound) (mount : ZeroMount) (zeroing : call.zeroblock = true)
    (allocated : call.blockAlloc = .ok block) :
    call.Zeroes world mount block ↔ call.Suits world mount block := by
  obtain ⟨buffer, ready, isSound, isBuffer, size, disk, ends⟩ :=
    ZeroWorld.inodeDoAllocBlock_zeroing sound mount zeroing allocated
  unfold Zeroes Suits Overwrites
  rw [ends, ← size, ← disk, and_comm]
  have inside :
      (∀ read,
        some (ReadRange.mk buffer.address
          (512 * min call.sent mount.data.spb.toNat)) = some read →
        ∃ other : ZeroBuffer,
          (ready.bdevWrite mount.device buffer.address
            (mount.data.sectorNum block).toNat
            (min call.sent mount.data.spb.toNat)).zero = some other ∧
          other.address ≤ read.address ∧
          read.address + read.count ≤ other.address + other.size) ↔
        512 * min call.sent mount.data.spb.toNat ≤ buffer.size := by
    constructor
    · intro reads
      obtain ⟨other, isOther, lower, upper⟩ := reads _ rfl
      obtain rfl := Option.some.inj (isBuffer.symm.trans isOther)
      exact Nat.le_of_add_le_add_left upper
    · rintro fits read ⟨⟩
      exact ⟨buffer, isBuffer, Nat.le_refl _, Nat.add_le_add_left fits _⟩
  rw [inside]
  exact and_congr_right fun fits =>
    forall₂_congr fun index _ => bdevWrite_zeros isSound isBuffer fits

/--
The runs in which every block that is allocated to be zeroed holds zeros, read
from inside the zero buffer, are those in which every write fits the buffer and
leaves no other bytes in its block.
-/
theorem zeroBlocks_iff (memory : Memory UInt8) (disks : Nat → Memory UInt8)
    (labels : List ZeroLabel) (last : ZeroWorld) :
    Run (Guarded (OfZeroing ZeroCall.Zeroes) ZeroStep)
        (.booted memory disks) labels last ↔
      Run (Guarded (OfZeroing ZeroCall.Suits) ZeroStep)
        (.booted memory disks) labels last := by
  refine Run.iff_of_invariant ZeroWorld.Sound ?_ ?_ ?_
  · rintro buffer ⟨⟩
  · rintro world label next sound ⟨-, rfl⟩
    exact ZeroWorld.step_sound sound label
  · intro world label next sound
    refine and_congr_left fun _ => ?_
    cases label with
    | alloc call =>
      exact forall_congr' fun zeroing => forall₂_congr fun mount block =>
        forall₂_congr fun _ allocated =>
          ZeroCall.zeroes_iff sound mount zeroing allocated
    | mount device io flagged sb groups =>
      exact Iff.rfl
    | elsewhere memory disks =>
      exact Iff.rfl

/-- The superblock of a volume with blocks of `1024 << shift` bytes. -/
def shiftedSuperblock (shift : BitVec 32) : DiskSuperblock where
  sInodesCount := 16
  sBlocksCount := 64
  sFreeBlocksCount := 32
  sFreeInodesCount := 8
  sFirstDataBlock := 1
  sLogBlockSize := shift
  sBlocksPerGroup := 64
  sInodesPerGroup := 16
  sMntCount := 0
  sMagic := 0xEF53
  sState := 1
  sErrors := 1
  sInodeSize := 128

/-- A mount of such a volume, on a device that works. -/
def shiftedMount (device : Nat) (shift : BitVec 32) : ZeroLabel :=
  .mount device ⟨none, true, true, true⟩ false (shiftedSuperblock shift)
    fun _ => ⟨3, 4, 5, 32, 8⟩

/-- A call that is to zero block 20, all of whose sectors are transferred. -/
def zeroTwenty (mp kalloc : Nat) : ZeroCall where
  mp := mp
  iBlocks := 0
  zeroblock := true
  blockAlloc := .ok 20
  disk := fun _ => 7
  kalloc := kalloc
  sent := 8
  writeErr := none

/-- Blocks of 1024 bytes are zeroed before there are blocks of 4096 bytes. -/
def mixedSizes : List ZeroLabel :=
  [shiftedMount 0 0, shiftedMount 1 2, .alloc (zeroTwenty 0 4096)]

/--
With a buffer of 1024 bytes, the call on the filesystem with blocks of 4096
bytes reads what is behind it and leaves it in the block.
-/
theorem mixedSizes_not_zeroed :
    ∃ world mount,
      Run ZeroStep (.booted (fun _ => 7) fun _ _ => 7) mixedSizes world ∧
        world.mounts[1]? = some mount ∧ mount.blockSize = 4096 ∧
        ¬ (zeroTwenty 1 8192).Zeroes world mount 20 ∧
        (world.inodeDoAllocBlock mount (zeroTwenty 1 8192)).world.disks 1
          (20 * 4096 + 1024) = 7 := by
  refine ⟨_, _, .cons rfl (.cons rfl (.single rfl)), rfl, rfl, ?_, ?_⟩
  · intro zeroes
    have isZero := zeroes.1 1024 (by decide)
    revert isZero
    decide
  · rfl

end Idylla.Ext2
