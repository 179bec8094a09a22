import Idylla.Exec.Elf32
import Idylla.Mm.VmSound

namespace Idylla.Exec

open Idylla.Lib Idylla.Mm

/-!
# The pages of a segment

What the roundings of `elf32_ph_load` compute from a program header, and the
checks its two mappings pass.
-/

theorem pageRoundUp_toNat32 (size : BitVec 32) :
    (pageRoundUp size).toNat =
      (size.toNat + 0xFFF) / 0x1000 * 0x1000 % 2 ^ 32 := by
  have isMod : (size % pageSize 32).toNat = size.toNat % 0x1000 := rfl
  have isPage : (pageSize 32).toNat = 0x1000 := rfl
  unfold pageRoundUp
  by_cases aligned : size % pageSize 32 = 0
  · rw [if_pos aligned]
    rw [aligned] at isMod
    have isZero : size.toNat % 0x1000 = 0 := isMod.symm
    omega
  · rw [if_neg aligned]
    have notZero : size.toNat % 0x1000 ≠ 0 := by
      intro isZero
      exact aligned (BitVec.eq_of_toNat_eq (isMod.trans isZero))
    have small : (size % pageSize 32) ≤ pageSize 32 := by
      rw [BitVec.le_def, isMod, isPage]
      omega
    rw [BitVec.toNat_add, BitVec.toNat_sub_of_le small, isMod, isPage]
    omega

namespace Elf32Phdr

variable {seg : Elf32Phdr}

theorem addr_delta (seg : Elf32Phdr) :
    seg.addr.toNat = seg.pVaddr.toNat / 0x1000 * 0x1000 ∧
      seg.delta.toNat = seg.pVaddr.toNat % 0x1000 := by
  have isAddr : seg.addr.toNat = seg.pVaddr.toNat / 0x1000 * 0x1000 :=
    pageRoundDown_toNat (Nat.le_refl _) seg.pVaddr
  rw [delta, BitVec.toNat_sub_of_le]
  · omega
  · rw [BitVec.le_def]
    omega

theorem lenfile_toNat (seg : Elf32Phdr) :
    seg.lenfile.toNat =
      ((seg.delta.toNat + seg.pFilesz.toNat) % 2 ^ 32 + 0xFFF) / 0x1000 *
        0x1000 % 2 ^ 32 := by
  rw [lenfile, pageRoundUp_toNat32, BitVec.toNat_add]

theorem lenmem_toNat (seg : Elf32Phdr) :
    seg.lenmem.toNat =
      (2 ^ 32 - seg.lenfile.toNat +
        (seg.pMemsz.toNat + 0xFFF) / 0x1000 * 0x1000 % 2 ^ 32) % 2 ^ 32 := by
  rw [lenmem, BitVec.toNat_sub, pageRoundUp_toNat32]

theorem addr_aligned (seg : Elf32Phdr) : seg.addr % pageSize 32 = 0 := by
  have isAddr := seg.addr_delta.1
  apply BitVec.eq_of_toNat_eq
  show seg.addr.toNat % 0x1000 = 0
  omega

theorem lenfile_aligned (seg : Elf32Phdr) :
    seg.lenfile % pageSize 32 = 0 := by
  have isLenfile := seg.lenfile_toNat
  apply BitVec.eq_of_toNat_eq
  show seg.lenfile.toNat % 0x1000 = 0
  omega

theorem lenmem_aligned (seg : Elf32Phdr) :
    seg.lenmem % pageSize 32 = 0 := by
  have isLenfile := seg.lenfile_toNat
  have isLenmem := seg.lenmem_toNat
  apply BitVec.eq_of_toNat_eq
  show seg.lenmem.toNat % 0x1000 = 0
  omega

theorem anonStart_aligned (seg : Elf32Phdr) :
    (seg.addr + seg.lenfile) % pageSize 32 = 0 := by
  have isAddr := seg.addr_delta.1
  have isLenfile := seg.lenfile_toNat
  have isStart : (seg.addr + seg.lenfile).toNat =
      (seg.addr.toNat + seg.lenfile.toNat) % 2 ^ 32 :=
    BitVec.toNat_add ..
  apply BitVec.eq_of_toNat_eq
  show (seg.addr + seg.lenfile).toNat % 0x1000 = 0
  omega

/-- Whole pages that hold the file part, unless a sum wraps around. -/
structure FilePages (seg : Elf32Phdr) : Prop where
  addr_aligned : seg.addr.toNat % 0x1000 = 0
  delta_small : seg.delta.toNat < 0x1000
  lenfile_aligned : seg.lenfile.toNat % 0x1000 = 0
  covers : seg.delta.toNat + seg.pFilesz.toNat ≤ seg.lenfile.toNat
  tight : seg.lenfile.toNat < seg.delta.toNat + seg.pFilesz.toNat + 0x1000
  length : seg.zeroLength.toNat =
      seg.lenfile.toNat - (seg.delta.toNat + seg.pFilesz.toNat)
  start : seg.zeroStart.toNat =
      (seg.addr.toNat + (seg.delta.toNat + seg.pFilesz.toNat)) % 2 ^ 32

theorem filePages (more : seg.pFilesz < seg.lenfile) : FilePages seg := by
  obtain ⟨isAddr, isDelta⟩ := seg.addr_delta
  have isLenfile := seg.lenfile_toNat
  have more : seg.pFilesz.toNat < seg.lenfile.toNat := more
  have isLength : seg.zeroLength.toNat =
      seg.lenfile.toNat - (seg.delta.toNat + seg.pFilesz.toNat) := by
    have first : (seg.lenfile - seg.pFilesz).toNat =
        seg.lenfile.toNat - seg.pFilesz.toNat :=
      BitVec.toNat_sub_of_le (by rw [BitVec.le_def]; omega)
    rw [zeroLength, BitVec.toNat_sub_of_le, first]
    · omega
    · rw [BitVec.le_def, first]
      omega
  have isStart : seg.zeroStart.toNat =
      (seg.pVaddr.toNat + seg.pFilesz.toNat) % 2 ^ 32 :=
    BitVec.toNat_add ..
  refine ⟨?_, ?_, ?_, ?_, ?_, isLength, ?_⟩ <;> omega

theorem FilePages.samePage (pages : FilePages seg) {index : Nat}
    (inRange : index < seg.zeroLength.toNat) :
    (seg.zeroStart + BitVec.ofNat 32 index).toNat / 0x1000 =
      seg.zeroStart.toNat / 0x1000 := by
  obtain ⟨addrAligned, -, lenfileAligned, covers, tight, length, start⟩ := pages
  have small : (BitVec.ofNat 32 index).toNat = index := by
    rw [BitVec.toNat_ofNat]
    omega
  rw [BitVec.toNat_add, small, start]
  omega

variable {Vnode : Type}

theorem fileRequest_fixed (seg : Elf32Phdr) (fd : Int) :
    (seg.fileRequest fd).flags &&& mapFixed ≠ 0 := by
  unfold fileRequest prot
  dsimp only
  split <;> split <;> split <;> decide

theorem anonRequest_fixed (seg : Elf32Phdr) :
    seg.anonRequest.flags &&& mapFixed ≠ 0 := by
  unfold anonRequest prot
  dsimp only
  split <;> split <;> split <;> decide

theorem mmapFile_fileRequest (nonempty : seg.lenfile ≠ 0) (fd : Int)
    (filedes : Int → Option (File Vnode)) :
    mmapFile filedes (seg.fileRequest fd) =
      if fd < 0 ∨ openMax ≤ fd then .error .EBADF
      else
        match filedes fd with
        | none => .error .EBADF
        | some file => .ok (some file) := by
  have flags : ((seg.fileRequest fd).flags &&& protNone = 0) ∧
        (seg.fileRequest fd).flags &&& mapAnonymous ≠ mapAnonymous := by
    unfold fileRequest prot
    dsimp only
    split <;> split <;> split <;> decide
  unfold mmapFile
  rw [if_neg (by
      rintro (unaligned | isEmpty | unaligned)
      · exact unaligned seg.addr_aligned
      · exact nonempty isEmpty
      · exact unaligned seg.lenfile_aligned),
    if_neg (fun both => both.1 flags.1), if_pos flags.2]
  rfl

theorem mmapFile_fileRequest_ok_iff
    {fd : Int} {filedes : Int → Option (File Vnode)}
    (nonempty : seg.lenfile ≠ 0) :
    (∃ file, mmapFile filedes (seg.fileRequest fd) = .ok file) ↔
      0 ≤ fd ∧ fd < openMax ∧ filedes fd ≠ none := by
  rw [mmapFile_fileRequest nonempty]
  by_cases inTable : fd < 0 ∨ openMax ≤ fd
  · rw [if_pos inTable]
    constructor
    · rintro ⟨file, isFile⟩
      cases isFile
    · rintro ⟨lower, upper, -⟩
      omega
  · rw [if_neg inTable]
    cases isOpen : filedes fd with
    | none =>
      constructor
      · rintro ⟨file, isFile⟩
        cases isFile
      · rintro ⟨-, -, isOpen⟩
        exact absurd rfl isOpen
    | some file =>
      exact ⟨fun _ => ⟨by omega, by omega, by simp⟩, fun _ => ⟨some file, rfl⟩⟩

theorem mmapFile_anonRequest (nonempty : seg.lenmem ≠ 0)
    (filedes : Int → Option (File Vnode)) :
    mmapFile filedes seg.anonRequest = .ok none := by
  have flags : (seg.anonRequest.flags &&& protNone = 0) ∧
        seg.anonRequest.flags &&& mapAnonymous = mapAnonymous := by
    unfold anonRequest prot
    dsimp only
    split <;> split <;> split <;> decide
  unfold mmapFile
  rw [if_neg (by
      rintro (unaligned | isEmpty | unaligned)
      · exact unaligned seg.anonStart_aligned
      · exact nonempty isEmpty
      · exact unaligned seg.lenmem_aligned),
    if_neg (fun both => both.1 flags.1),
    if_neg (fun notAnonymous => notAnonymous flags.2)]

end Elf32Phdr

end Idylla.Exec
