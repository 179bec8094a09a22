import Idylla.Mm.VmMmap

namespace Idylla.Exec

open Idylla.Lib Idylla.Mm

/-!
# Loading a 32-bit ELF file

`elf32_execve` and `elf32_ph_load`, over whatever `vm_mmap` and `memset` do to
the address space that is built.  All sums of the headers wrap around.
-/

/-- `PT_LOAD`. -/
def PT_LOAD : BitVec 32 := 1

/-- `PT_INTERP`. -/
def PT_INTERP : BitVec 32 := 3

/-- `PF_X`. -/
def PF_X : BitVec 32 := 0x1

/-- `PF_W`. -/
def PF_W : BitVec 32 := 0x2

/-- `PF_R`. -/
def PF_R : BitVec 32 := 0x4

/-- `Elf32_Phdr`, less what nothing reads. -/
structure Elf32Phdr where
  pType : BitVec 32
  pOffset : BitVec 32
  pVaddr : BitVec 32
  pFilesz : BitVec 32
  pMemsz : BitVec 32
  pFlags : BitVec 32
  deriving Repr, DecidableEq

/-- The part of `Elf32_Ehdr` that `elf32_execve` reads. -/
structure Elf32Ehdr where
  eEntry : BitVec 32
  ePhoff : BitVec 32
  ePhentsize : BitVec 16
  ePhnum : BitVec 16
  deriving Repr, DecidableEq

namespace Elf32Phdr

variable (seg : Elf32Phdr)

/-- `prot` in `elf32_ph_load`. -/
def prot : BitVec 16 :=
  protWrite ||| (if seg.pFlags &&& PF_X ≠ 0 then protExec else 0) |||
    (if seg.pFlags &&& PF_W ≠ 0 then protWrite else 0) |||
    (if seg.pFlags &&& PF_R ≠ 0 then protRead else 0)

/-- `addr` in `elf32_ph_load`. -/
def addr : BitVec 32 := pageRoundDown seg.pVaddr

/-- `seg->p_vaddr - addr`. -/
def delta : BitVec 32 := seg.pVaddr - seg.addr

/-- `off` in `elf32_ph_load`. -/
def off : BitVec 32 := seg.pOffset - seg.delta

/-- `lenfile` in `elf32_ph_load`. -/
def lenfile : BitVec 32 := pageRoundUp (seg.delta + seg.pFilesz)

/-- `lenmem` in `elf32_ph_load`. -/
def lenmem : BitVec 32 := pageRoundUp seg.pMemsz - seg.lenfile

/-- Where the `memset` of `elf32_ph_load` starts. -/
def zeroStart : BitVec 32 := seg.pVaddr + seg.pFilesz

/-- How many bytes the `memset` of `elf32_ph_load` clears. -/
def zeroLength : BitVec 32 := seg.lenfile - seg.pFilesz - seg.delta

/-- The mapping of the file part. -/
def fileRequest (fd : Int) : MmapRequest 32 where
  start := seg.addr
  length := seg.lenfile
  flags := seg.prot ||| mapFixed ||| mapPrivate
  fd := fd
  offset := seg.off.toNat

/-- The mapping of the anonymous part. -/
def anonRequest : MmapRequest 32 where
  start := seg.addr + seg.lenfile
  length := seg.lenmem
  flags := seg.prot ||| mapFixed ||| mapAnonymous
  fd := -1
  offset := 0

end Elf32Phdr

/--
The end of a call of the loader: it returns, a page fault that cannot be
served ends in a panic, or C leaves undefined what happens.
-/
inductive LoadResult (Value : Type) where
  | returns (result : Except Errno Value)
  | panics
  | undefined

/-- What a call returns, replaced. -/
def LoadResult.map {Value Other : Type}
    (replace : Value → Other) : LoadResult Value → LoadResult Other
  | .returns result => .returns (result.map replace)
  | .panics => .panics
  | .undefined => .undefined

/--
What the loader does to the address space: `vm_mmap`, whose result it ignores,
and `memset` with zeros.
-/
structure Loader (State : Type) where
  mmap : MmapRequest 32 → State → State
  zero : BitVec 32 → BitVec 32 → State → State × LoadResult Unit

variable {State : Type}

/-- `elf32_ph_load`. -/
def elf32PhLoad (loader : Loader State) (fd : Int) (seg : Elf32Phdr)
    (state : State) : State × LoadResult Unit :=
  if seg.pMemsz = 0 then
    (state, .returns (.ok ()))
  else if seg.pOffset < seg.delta then
    (state, .returns (.error .EFAULT))
  else
    let filed :=
      if 0 < seg.lenfile then loader.mmap (seg.fileRequest fd) state
      else state
    let zeroed :=
      if seg.pFilesz < seg.lenfile then
        loader.zero seg.zeroStart seg.zeroLength filed
      else
        (filed, .returns (.ok ()))
    match zeroed.2 with
    | .returns _ =>
      if 0 < seg.lenmem then
        (loader.mmap seg.anonRequest zeroed.1, .returns (.ok ()))
      else
        (zeroed.1, .returns (.ok ()))
    | fails => (zeroed.1, fails)

/-- The loop of `elf32_execve` over the headers that are left. -/
def elf32PhLoads (loader : Loader State) (fd : Int) :
    List Elf32Phdr → State → State × LoadResult Unit
  | [], state => (state, .returns (.ok ()))
  | seg :: rest, state =>
    if seg.pType = PT_LOAD then
      match elf32PhLoad loader fd seg state with
      | (loaded, .returns (.ok ())) => elf32PhLoads loader fd rest loaded
      | failed => failed
    else if seg.pType = PT_INTERP then
      -- `elf32_ph_interp` is not implemented
      (state, .returns (.error .ENOSYS))
    else
      -- `PT_DYNAMIC`, `PT_PHDR` and what is only reported
      elf32PhLoads loader fd rest state

/-- Four bytes of memory, the lowest first. -/
def littleEndian (memory : Nat → BitVec 8) (offset : Nat) : BitVec 32 :=
  memory (offset + 3) ++ memory (offset + 2) ++ memory (offset + 1) ++
    memory offset

/-- The program header at an offset of the buffer. -/
def phdrAt (buf : Nat → BitVec 8) (offset : Nat) : Elf32Phdr where
  pType := littleEndian buf offset
  pOffset := littleEndian buf (offset + 4)
  pVaddr := littleEndian buf (offset + 8)
  pFilesz := littleEndian buf (offset + 16)
  pMemsz := littleEndian buf (offset + 20)
  pFlags := littleEndian buf (offset + 24)

/-- The headers `elf32_execve` looks at, one every `e_phentsize` bytes. -/
def phdrs (hdr : Elf32Ehdr) (buf : Nat → BitVec 8) : List Elf32Phdr :=
  (List.range hdr.ePhnum.toNat).map fun index =>
    phdrAt buf (index * hdr.ePhentsize.toNat)

/--
`elf32_execve`.  `read` is the outcome of `sys_read`: an error, or how much
it has read and what the memory from `buf` on holds then.
-/
def elf32Execve (loader : Loader State) (fd : Int) (hdr : Elf32Ehdr)
    (read : Except Errno (Nat × (Nat → BitVec 8)))
    (state : State) : State × LoadResult (BitVec 32) :=
  match read with
  | .error errno => (state, .returns (.error errno))
  | .ok (count, buf) =>
    if count ≠ hdr.ePhentsize.toNat * hdr.ePhnum.toNat then
      (state, .returns (.error .ENOEXEC))
    else
      let loaded := elf32PhLoads loader fd (phdrs hdr buf) state
      (loaded.1, loaded.2.map fun () => hdr.eEntry)

end Idylla.Exec
