import Idylla.Ext2.CreatLink
import Idylla.Ext2.EntryAdded

namespace Idylla.Ext2

open Idylla.Lib

/-!
# Whether a file is created as a whole or not at all

`ext2_creat` is to return 0 only if every block has been written completely,
and to leave neither an entry nor a bit of the inode bitmap behind otherwise.
Which short writes it gets wrong follows from the calls that they hit.
-/

/-- The entry of a new file whose inode has a bit in a group. -/
def createdEntry (name : CString) (data : Ext2Data)
    (group bit : Nat) : NewEntry where
  name := name
  ino := inodeNumber data group bit
  fileType := 1

/--
What `ext2_creat` is to do: it returns 0 and every block has been written as a
whole, or it returns an error and leaves neither the name nor a bit behind.
-/
def WholeOrNothing
    (world : Surroundings) (vnode : DirectoryVnode) (name : CString)
    (device : Ext2Device) (result : Except Errno Nat)
    (after : Ext2Device) : Prop :=
  match result with
  | .ok returned =>
    returned = 0 ∧
      ∀ call, device.calls ≤ call → call < after.calls →
        world.transfers call = world.spb
  | .error _ =>
    NameAbsent (vnode.contents world after) vnode.size.toNat name ∧
      NoNewBit device.data after.data

/-- A well-formed directory without the name, and valid inode bitmaps. -/
structure CreatReady
    (world : Surroundings) (vnode : DirectoryVnode) (name : CString)
    (device : Ext2Device) : Prop where
  blkSize : device.data.blkSize = 512 * world.spb
  directory : WellFormedDirectory world.bpi (vnode.on device.volume)
  named : name.chars ≠ []
  absent :
    NameAbsent ((vnode.on device.volume).bytes world.bpi) vnode.size.toNat name
  bits : ValidBits world device.data

/-- The inode that is taken for a file in a directory. -/
abbrev TakesFor (vnode : DirectoryVnode) (device : Ext2Device)
    (group bit : Nat) : Prop :=
  TakesInode device.data (groupOf .inode device.data vnode.ino) group bit

/-- The record that the entry of a new file goes into. -/
abbrev PlaceFor (world : Surroundings) (vnode : DirectoryVnode) (name : CString)
    (device : Ext2Device) (group bit pos : Nat) : Prop :=
  EntryPlace ((vnode.on device.volume).bytes world.bpi) vnode.size.toNat
    (createdEntry name device.data group bit) pos

/-- When `ext2_creat` does what it is to do. -/
inductive Harmless
    (world : Surroundings) (vnode : DirectoryVnode) (name : CString)
    (device : Ext2Device) : Prop where
  /-- There is no free inode. -/
  | noInode (none : ∀ group bit, ¬ TakesFor vnode device group bit)
  /-- The bitmap is cut off in front of the sector with the new bit. -/
  | unsent (group bit : Nat) (takes : TakesFor vnode device group bit)
      (isUnsent : ¬ world.SendsBit device.calls bit)
  /-- No record has room, and the bit is given back. -/
  | refused (group bit : Nat) (takes : TakesFor vnode device group bit)
      (whole : world.transfers device.calls = world.spb)
      (noPlace : ∀ pos, ¬ PlaceFor world vnode name device group bit pos)
      (gives : GivenBack world device.data group bit (device.calls + 1))
  /-- The directory is cut off so that the name is not in it. -/
  | cut (group bit pos : Nat) (takes : TakesFor vnode device group bit)
      (whole : world.transfers device.calls = world.spb)
      (place : PlaceFor world vnode name device group bit pos)
      (stops : (world.sendsBody vnode (device.calls + 1)).finished = false)
      (absent :
        NameAbsent
          (upTo vnode.size.toNat
            (cutBytes world vnode ((vnode.on device.volume).bytes world.bpi)
              pos (createdEntry name device.data group bit)
              (device.calls + 1)))
          vnode.size.toNat name)
      (gives :
        GivenBack world device.data group bit
          (world.sendsBody vnode (device.calls + 1)).calls)
  /-- No write is short. -/
  | complete (group bit pos : Nat) (takes : TakesFor vnode device group bit)
      (place : PlaceFor world vnode name device group bit pos)
      (found : Short.NeedsIndex world vnode.iBlock (vnode.count world) →
        ∃ block, world.blockAlloc device.volume.allocated = .ok block)
      (whole :
        ∀ index ≤ world.linkCalls vnode,
          world.transfers (device.calls + index) = world.spb)

namespace Short

/-- What the bitmaps say of an inode that is taken. -/
structure TakenBit
    (world : Surroundings) (data : Ext2Data)
    (group bit : Nat) : Prop where
  inGroup : bit < data.sb.perGroup .inode
  small : group * data.sb.perGroup .inode + bit + 1 < 2 ^ 32
  counted :
    group * data.sb.perGroup .inode + bit + 1 ≤ world.tables.sInodesCount
  isClear : data.bit .inode group bit = false

/-- How `ext2_creat` ends. -/
inductive CreatEnds
    (world : Surroundings) (vnode : DirectoryVnode) (name : CString)
    (device : Ext2Device) : Except Errno Nat → Ext2Device → Prop where
  | noInode
      (none : ∀ group bit, ¬ TakesFor vnode device group bit) :
      CreatEnds world vnode name device (.error .ENOSPC) device
  | bitmapShort {group bit : Nat} (takes : TakesFor vnode device group bit)
      (short : world.transfers device.calls ≠ world.spb) :
      CreatEnds world vnode name device (.error Errno.EIO)
        (takenDevice world device group bit)
  | undone {group bit : Nat} {err : Errno} {middle after : Ext2Device}
      (takes : TakesFor vnode device group bit)
      (taken : TakenBit world device.data group bit)
      (whole : world.transfers device.calls = world.spb)
      (link :
        LinkEnds world vnode (createdEntry name device.data group bit)
          (takenDevice world device group bit) (.error err) middle)
      (freed :
        FreeEnds world middle (inodeNumber device.data group bit) group after) :
      CreatEnds world vnode name device (.error err) after
  | ended {group bit returned : Nat} {middle after : Ext2Device}
      (takes : TakesFor vnode device group bit)
      (whole : world.transfers device.calls = world.spb)
      (link :
        LinkEnds world vnode (createdEntry name device.data group bit)
          (takenDevice world device group bit) (.ok returned) middle)
      (same : returned = 0 → after = middle) :
      CreatEnds world vnode name device (.ok returned) after

section Ends

variable {world : Surroundings} {vnode : DirectoryVnode} {name : CString}
  {turns : Nat} {device middle after : Ext2Device} {group bit : Nat}

theorem takenBit_of_finds (bits : ValidBits world device.data)
    (inside : group < device.data.groupsCount)
    (finds : FindsInode device.data group bit) :
    TakenBit world device.data group bit := by
  obtain ⟨-, first⟩ := finds
  obtain ⟨inGroup, counted, small⟩ :=
    bits group bit inside first.inside first.isClear
  exact ⟨inGroup, by omega, counted, first.isClear⟩

/-- How an inode is taken. -/
inductive TakeEnds
    (world : Surroundings) (vnode : DirectoryVnode)
    (device : Ext2Device) : Except Errno (BitVec 32) → Ext2Device → Prop where
  | none
      (none : ∀ group bit, ¬ TakesFor vnode device group bit) :
      TakeEnds world vnode device (.error .ENOSPC) device
  | taken {group bit : Nat} (takes : TakesFor vnode device group bit)
      (inside : group < device.data.groupsCount) :
      TakeEnds world vnode device
        (bitmapResult world device.calls (inodeNumber device.data group bit))
        (takenDevice world device group bit)

/-- The two calls of `inode_alloc`. -/
theorem takeInode_ends {result : Except Errno (BitVec 32)}
    (ends : Ends (takeInode world vnode) device result after) :
    TakeEnds world vnode device result after := by
  obtain ⟨_, _, first, ends⟩ :=
    (ends_bind_iff.mp ends).resolve_left fun ⟨_, first, _⟩ => by cases first
  cases first
  obtain ⟨taken, middle, first, ends⟩ :=
    (ends_bind_iff.mp ends).resolve_left fun ⟨_, first, _⟩ => by
      obtain ⟨_, _, isValue⟩ := outcome_ends_iff.mp first
      cases isValue
  obtain ⟨allocated, endsFirst, same⟩ := outcome_ends_iff.mp first
  cases same
  obtain ⟨parent, isParent, inside, alloc⟩ := inodeAlloc_group endsFirst
  have sameParent : groupOf .inode device.data vnode.ino = parent := by
    exact Int.ofNat.inj isParent
  cases alloc with
  | taken bit finds =>
    have takes : TakesFor vnode device parent bit :=
      .inl ⟨sameParent.symm, finds⟩
    have passes : result =
            bitmapResult world device.calls
              (inodeNumber device.data parent bit) ∧
          after = takenDevice world device parent bit := by
      unfold bitmapResult at ends ⊢
      by_cases isWhole : world.transfers device.calls = world.spb
      · rw [if_pos isWhole] at ends ⊢
        cases ends
        exact ⟨rfl, rfl⟩
      · rw [if_neg isWhole] at ends ⊢
        cases ends
        exact ⟨rfl, rfl⟩
    obtain ⟨rfl, rfl⟩ := passes
    exact .taken takes inside
  | none none =>
    obtain ⟨group, isGroup, insideGroup, alloc⟩ := inodeAlloc_group ends
    have isMost : mostFree .inode device.data (-1) = group := isGroup
    have noParent : ∀ other, ¬ FindsInode device.data
          (groupOf .inode device.data vnode.ino) other := by
      rw [sameParent]
      exact none
    cases alloc with
    | taken bit finds =>
      exact .taken (.inr ⟨noParent, isMost, finds⟩) insideGroup
    | none noneThere =>
      refine .none fun other bit takes => ?_
      rcases takes with ⟨rfl, finds⟩ | ⟨-, isOther, finds⟩
      · exact noParent bit finds
      · rw [isMost] at isOther
        cases isOther
        exact noneThere bit finds

theorem FreeEnds.volume {ino : BitVec 32}
    (freed : FreeEnds world device ino group after) :
    after.volume = device.volume := by
  cases freed with
  | unset | written =>
    rfl

theorem finds_of_takes {parent : Nat}
    (takes : TakesInode device.data parent group bit) :
    FindsInode device.data group bit := by
  rcases takes with ⟨-, finds⟩ | ⟨-, -, finds⟩ <;> exact finds

theorem sendsBit_of_whole {call : Nat}
    (ready : CreatReady world vnode name device)
    (takes : TakesFor vnode device group bit)
    (whole : world.transfers call = world.spb) : world.SendsBit call bit := by
  have inside : bit < 32 * (device.data.blkSize / 4) :=
    (finds_of_takes takes).2.inside
  rw [ready.blkSize] at inside
  unfold Surroundings.SendsBit
  omega

theorem takenDevice_data (ready : CreatReady world vnode name device)
    (takes : TakesFor vnode device group bit)
    (whole : world.transfers device.calls = world.spb) :
    (takenDevice world device group bit).data =
      device.data.taken .inode group bit :=
  if_pos (sendsBit_of_whole ready takes whole)

theorem inodeSlot_taken (data : Ext2Data)
    (taken : TakenBit world device.data group bit) :
    ∃ place,
      inodeSlot world data (inodeNumber device.data group bit) =
        some place := by
  have isNumber : (inodeNumber device.data group bit).toNat =
        group * device.data.sb.perGroup .inode + bit + 1 := by
    exact Nat.mod_eq_of_lt taken.small
  have valid :
      ¬ ((inodeNumber device.data group bit).toNat < 1 ∨
        world.tables.sInodesCount <
          (inodeNumber device.data group bit).toNat) := by
    have counted := taken.counted
    omega
  exact ⟨_, if_neg valid⟩

theorem LinkEnds.data {entry : NewEntry} {result : Except Errno Nat}
    (link : LinkEnds world vnode entry device result after) :
    after.data = device.data := by
  cases link with
  | refused => rfl
  | stopped _ _ data => exact data
  | noBlock _ _ _ _ data => exact data
  | written _ _ _ _ data => exact data

theorem inodeFree_taken {result : Except Errno Unit}
    (inside : group < device.data.groupsCount)
    (isData : middle.data = device.data.taken .inode group bit)
    (taken : TakenBit world device.data group bit)
    (ends :
      Ends (inodeFree world (inodeNumber device.data group bit)) middle
        result after) :
    FreeEnds world middle (inodeNumber device.data group bit) group after := by
  have keeps := sameLayout_taken device.data .inode group bit
  have isGroup :
      groupOf .inode middle.data (inodeNumber device.data group bit) =
        group := by
    have inGroup := taken.inGroup
    unfold groupOf
    rw [isData, inodeNumber_toNat taken.small, keeps.perGroup,
      Nat.add_comm, Nat.add_mul_div_right _ _ (by omega),
      Nat.div_eq_of_lt inGroup, Nat.zero_add]
  have sameCount : middle.data.groupsCount = device.data.groupsCount :=
    (congrArg Ext2Data.groupsCount isData).trans keeps.groupsCount
  have insideMiddle : group < middle.data.groupsCount :=
    Nat.lt_of_lt_of_eq inside sameCount.symm
  obtain ⟨other, last, endsOther, freed⟩ :=
    @inodeFree_ends world middle (inodeNumber device.data group bit) group
      isGroup insideMiddle
  obtain ⟨-, rfl⟩ := ends_unique ends endsOther
  exact freed

/-- `ext2_creat` on a directory whose blocks are there. -/
theorem ext2Creat_ends {attributes : FileAttributes} {result : Except Errno Nat}
    (ready : CreatReady world vnode name device)
    (ends :
      Ends (ext2Creat world turns vnode name attributes) device result after) :
    CreatEnds world vnode name device result after := by
  rcases ends_bind_iff.mp ends with
    ⟨err, first, rfl⟩ | ⟨ino, middle, first, rest⟩
  · generalize isResult : Except.error err = taken at first
    cases takeInode_ends first with
    | none none =>
      cases isResult
      exact .noInode none
    | taken takes inside =>
      unfold bitmapResult at isResult
      split at isResult
      · cases isResult
      next short =>
        cases isResult
        exact .bitmapShort takes short
  · generalize isResult : Except.ok ino = taken at first
    cases takeInode_ends first with
    | none none =>
      cases isResult
    | @taken group bit takes inside =>
      unfold bitmapResult at isResult
      split at isResult
      next whole =>
        cases isResult
        have taken := takenBit_of_finds ready.bits inside (finds_of_takes takes)
        have isData := takenDevice_data ready takes whole
        obtain ⟨place, hasSlot⟩ := inodeSlot_taken _ taken
        obtain ⟨seen, last, first, rest⟩ :=
          (ends_bind_iff.mp rest).resolve_left fun ⟨_, first, _⟩ => by
            obtain ⟨_, _, isValue⟩ := outcome_ends_iff.mp first
            cases isValue
        obtain ⟨linked, endsLink, same⟩ := outcome_ends_iff.mp first
        cases same
        have link :
            LinkEnds world vnode (createdEntry name device.data group bit)
              (takenDevice world device group bit) seen last :=
          inodeLink_ends ready.directory hasSlot endsLink
        have isLast := link.data.trans isData
        cases seen with
        | error err =>
          obtain ⟨_, final, first, rest⟩ :=
            (ends_bind_iff.mp rest).resolve_left fun ⟨_, first, _⟩ => by
              obtain ⟨_, _, isValue⟩ := outcome_ends_iff.mp first
              cases isValue
          obtain ⟨_, endsFree, -⟩ := outcome_ends_iff.mp first
          cases rest
          exact .undone takes taken whole link
            (inodeFree_taken inside isLast taken endsFree)
        | ok returned =>
          cases returned with
          | zero =>
            cases rest
            exact .ended takes whole link fun _ => rfl
          | succ more =>
            obtain ⟨_, final, first, rest⟩ :=
              (ends_bind_iff.mp rest).resolve_left
                fun ⟨_, first, _⟩ => by
                  obtain ⟨_, _, isValue⟩ := outcome_ends_iff.mp first
                  cases isValue
            cases rest
            exact .ended takes whole link fun isZero => by
              cases isZero
      · cases isResult

theorem harmless_taken (ready : CreatReady world vnode name device)
    (takes : TakesFor vnode device group bit)
    (whole : world.transfers device.calls = world.spb)
    (harmless : Harmless world vnode name device) :
    ((∀ pos, ¬ PlaceFor world vnode name device group bit pos) ∧
        GivenBack world device.data group bit (device.calls + 1)) ∨
      (∃ pos, PlaceFor world vnode name device group bit pos ∧
        (world.sendsBody vnode (device.calls + 1)).finished = false ∧
        NameAbsent
          (upTo vnode.size.toNat
            (cutBytes world vnode ((vnode.on device.volume).bytes world.bpi)
              pos (createdEntry name device.data group bit)
              (device.calls + 1)))
          vnode.size.toNat name ∧
        GivenBack world device.data group bit
          (world.sendsBody vnode (device.calls + 1)).calls) ∨
      ∃ pos, PlaceFor world vnode name device group bit pos ∧
        (NeedsIndex world vnode.iBlock (vnode.count world) →
          ∃ block, world.blockAlloc device.volume.allocated = .ok block) ∧
        ∀ index ≤ world.linkCalls vnode,
          world.transfers (device.calls + index) = world.spb := by
  cases harmless with
  | noInode none =>
    exact absurd takes (none group bit)
  | unsent other otherBit takesOther isUnsent =>
    exact absurd (sendsBit_of_whole ready takesOther whole) isUnsent
  | refused other otherBit takesOther _ noPlace gives =>
    obtain ⟨rfl, rfl⟩ := takes.unique takesOther
    exact .inl ⟨noPlace, gives⟩
  | cut other otherBit pos takesOther _ place stops absent gives =>
    obtain ⟨rfl, rfl⟩ := takes.unique takesOther
    exact .inr (.inl ⟨pos, place, stops, absent, gives⟩)
  | complete other otherBit pos takesOther place found wholes =>
    obtain ⟨rfl, rfl⟩ := takes.unique takesOther
    exact .inr (.inr ⟨pos, place, found, wholes⟩)

theorem bitmapShort_iff (takes : TakesFor vnode device group bit)
    (short : world.transfers device.calls ≠ world.spb) :
    NoNewBit device.data (takenDevice world device group bit).data ↔
      Harmless world vnode name device := by
  have isClear : device.data.bit .inode group bit = false :=
    (finds_of_takes takes).2.isClear
  have isBitmap :=
    (sameLayout_taken device.data .inode group bit).bitmaps group .inode
  have isSet := @bit_taken_self .inode device.data group bit
  unfold takenDevice
  constructor
  · intro noNew
    refine .unsent group bit takes fun sends => ?_
    rw [if_pos sends] at noNew
    have wasSet := noNew _ _ isSet
    rw [isBitmap] at wasSet
    rw [show (device.data.disk _).bit bit = false from isClear] at wasSet
    cases wasSet
  · intro harmless
    have isUnsent : ¬ world.SendsBit device.calls bit := by
      cases harmless with
      | noInode none =>
        exact absurd takes (none group bit)
      | unsent other otherBit takesOther isUnsent =>
        obtain ⟨rfl, rfl⟩ := takes.unique takesOther
        exact isUnsent
      | refused _ _ _ whole | cut _ _ _ _ whole =>
        exact absurd whole short
      | complete _ _ _ _ _ _ whole =>
        exact absurd (whole 0 (Nat.zero_le _)) short
    rw [if_neg isUnsent]
    exact fun _ _ => id

theorem absent_contents (ready : CreatReady world vnode name device) :
    NameAbsent (vnode.contents world device) vnode.size.toNat name :=
  ((upTo_agrees _ _).absent_iff ready.directory.records).mpr ready.absent

theorem present_contents {pos : Nat}
    (ready : CreatReady world vnode name device)
    (taken : TakenBit world device.data group bit)
    (place : PlaceFor world vnode name device group bit pos) :
    ¬ NameAbsent
      (upTo vnode.size.toNat
        (linkedBytes ((vnode.on device.volume).bytes world.bpi) pos
          (createdEntry name device.data group bit)))
      vnode.size.toNat name := by
  have small := taken.small
  refine @linked_present _ _ _ (4 * world.bpi) _
    (createdEntry name device.data group bit) ready.directory.records
    ready.absent ready.named (fun isZero => ?_) place (upTo_agrees _ _)
  have isNumber : (inodeNumber device.data group bit).toNat = 0 :=
    congrArg BitVec.toNat isZero
  unfold inodeNumber at isNumber
  rw [BitVec.toNat_ofNat] at isNumber
  have same : device.data.sb.sInodesPerGroup =
      device.data.sb.perGroup .inode := rfl
  rw [same, Nat.mod_eq_of_lt small] at isNumber
  omega

/-- A device on which an inode has been taken, and nothing else. -/
structure StartsLink
    (device start : Ext2Device)
    (group bit : Nat) : Prop where
  data : start.data = device.data.taken .inode group bit
  volume : start.volume = device.volume
  calls : start.calls = device.calls + 1

theorem undone_iff {start : Ext2Device} {err : Errno}
    (ready : CreatReady world vnode name device)
    (takes : TakesFor vnode device group bit)
    (taken : TakenBit world device.data group bit)
    (whole : world.transfers device.calls = world.spb)
    (starts : StartsLink device start group bit)
    (link :
      LinkEnds world vnode (createdEntry name device.data group bit) start
        (.error err) middle)
    (freed :
      FreeEnds world middle (inodeNumber device.data group bit) group after) :
    NameAbsent (vnode.contents world after) vnode.size.toNat name ∧
        NoNewBit device.data after.data ↔
      Harmless world vnode name device := by
  have isData := link.data.trans starts.data
  have sameVolume := starts.volume
  have isCall := starts.calls
  have sameContents :
      vnode.contents world after = vnode.contents world middle := by
    unfold DirectoryVnode.contents
    rw [freed.volume]
  rw [sameContents,
    noNewBit_iff isData taken.inGroup taken.small taken.isClear freed]
  constructor
  · rintro ⟨absent, gives⟩
    cases link with
    | refused refused =>
      rw [sameVolume] at refused
      rw [isCall] at gives
      exact .refused group bit takes whole refused gives
    | stopped place stops data calls contents =>
      rw [sameVolume] at place contents
      rw [contents, isCall] at absent
      rw [calls, isCall] at gives
      rw [isCall] at stops
      exact .cut group bit _ takes whole place stops absent gives
    | noBlock place finished needs fails data contents =>
      rw [sameVolume] at place contents
      rw [contents] at absent
      exact absurd absent (present_contents ready taken place)
  · intro harmless
    have asked := harmless_taken ready takes whole harmless
    cases link with
    | refused refused =>
      rw [sameVolume] at refused
      rcases asked with
        ⟨-, gives⟩ | ⟨pos, place, -⟩ | ⟨pos, place, -⟩
      · rw [isCall]
        unfold DirectoryVnode.contents
        rw [sameVolume]
        exact ⟨absent_contents ready, gives⟩
      · exact absurd place (refused pos)
      · exact absurd place (refused pos)
    | stopped place stops data calls contents =>
      rw [sameVolume] at place contents
      rw [isCall] at stops
      rcases asked with
        ⟨noPlace, -⟩ | ⟨pos, placeOther, -, absent, gives⟩ |
          ⟨pos, placeOther, -, wholes⟩
      · exact absurd place (noPlace _)
      · obtain rfl := place.unique placeOther
        rw [contents, calls, isCall]
        exact ⟨absent, gives⟩
      · have finished :
            (world.sendsBody vnode (device.calls + 1)).finished = true :=
          finished_of_whole fun index below => by
            have isWhole :=
              wholes (1 + index) (by
                unfold Surroundings.linkCalls
                omega)
            rwa [← Nat.add_assoc] at isWhole
        rw [stops] at finished
        cases finished
    | noBlock place finished needs fails data contents =>
      rw [sameVolume] at place fails
      rw [isCall] at finished
      rcases asked with
        ⟨noPlace, -⟩ | ⟨pos, -, stops, -⟩ | ⟨pos, -, found, -⟩
      · exact absurd place (noPlace _)
      · rw [stops] at finished
        cases finished
      · obtain ⟨block, isFound⟩ := found needs
        rw [isFound] at fails
        cases fails

theorem ended_iff {start : Ext2Device} {returned : Nat}
    (ready : CreatReady world vnode name device)
    (takes : TakesFor vnode device group bit)
    (whole : world.transfers device.calls = world.spb)
    (starts : StartsLink device start group bit)
    (link :
      LinkEnds world vnode (createdEntry name device.data group bit) start
        (.ok returned) middle) (same : returned = 0 → after = middle) :
    (returned = 0 ∧
        ∀ call, device.calls ≤ call → call < after.calls →
          world.transfers call = world.spb) ↔
      Harmless world vnode name device := by
  cases link with
  | written place finished found calls data =>
    rw [starts.volume] at place found
    rw [starts.calls] at finished calls
    constructor
    · rintro ⟨isZero, wholes⟩
      rw [same isZero, calls] at wholes
      exact .complete group bit _ takes place found fun index within =>
        wholes _ (Nat.le_add_right _ _) (by omega)
    · intro harmless
      rcases harmless_taken ready takes whole harmless with
        ⟨noPlace, -⟩ | ⟨pos, -, stops, -⟩ | ⟨pos, -, -, wholes⟩
      · exact absurd place (noPlace _)
      · rw [stops] at finished
        cases finished
      · have isLast :
            middle.calls - 1 = device.calls + world.linkCalls vnode := by
          omega
        have isWhole : world.transfers (middle.calls - 1) = world.spb := by
          rw [isLast]
          exact wholes _ (Nat.le_refl _)
        rw [if_pos isWhole] at same ⊢
        rw [same rfl]
        refine ⟨rfl, fun call lower upper => ?_⟩
        obtain ⟨index, rfl⟩ := Nat.exists_eq_add_of_le lower
        exact wholes index (by omega)

end Ends

end Short

/--
`ext2_creat` creates a file as a whole or not at all exactly if there is no
inode, the bit of the bitmap is not sent, what has been done is undone and the
bit given back, or no write is short.
-/
theorem ext2Creat_wholeOrNothing_iff
    {world : Surroundings} {turns : Nat} {vnode : DirectoryVnode}
    {name : CString} {attributes : Short.FileAttributes}
    {device after : Ext2Device} {result : Except Errno Nat}
    (ready : CreatReady world vnode name device)
    (returns :
      Ends (Short.ext2Creat world turns vnode name attributes) device result
        after) :
    WholeOrNothing world vnode name device result after ↔
      Harmless world vnode name device := by
  cases Short.ext2Creat_ends ready returns with
  | noInode none =>
    exact ⟨fun _ => .noInode none, fun _ =>
      ⟨Short.absent_contents ready, fun _ _ => id⟩⟩
  | bitmapShort takes short =>
    have absent := Short.absent_contents ready
    rw [← Short.bitmapShort_iff takes short]
    exact ⟨And.right, fun noNew => ⟨absent, noNew⟩⟩
  | undone takes taken whole link freed =>
    exact Short.undone_iff ready takes taken whole
      ⟨Short.takenDevice_data ready takes whole, rfl, rfl⟩ link freed
  | ended takes whole link same =>
    exact Short.ended_iff ready takes whole
      ⟨Short.takenDevice_data ready takes whole, rfl, rfl⟩ link same

/-- Blocks of two sectors; the calls of `bdev_write` transfer so many. -/
def twoSectors (sent : Nat → Nat) : Surroundings where
  spb := 2
  sent := sent
  blockAlloc := fun _ => .error .ENOSPC
  kalloc := wholeHeap
  heap := fun _ => zeroBlock
  heapAgain := fun _ => zeroBlock
  tables :=
    { sInodesCount := 32
      bgInodeTable := fun _ => 1 }
  below := 0

/-- One group of 32 inodes of which 13 are used. -/
def thirteenInodes : Ext2Data where
  sb :=
    { sFirstDataBlock := 1
      sBlocksPerGroup := 8192
      sInodesPerGroup := 32
      sFreeBlocksCount := 0
      sFreeInodesCount := 19 }
  groupsCount := 1
  blkSize := 1024
  groups := fun _ =>
    { bgBlockBitmap := 10
      bgInodeBitmap := 11
      bgFreeBlocksCount := 0
      bgFreeInodesCount := 19 }
  disk := fun _ cell => if cell = 0 then 0x1fff else BitVec.allOnes 32

/-- The device with the directory and the bitmaps. -/
def twoEntriesDevice : Ext2Device where
  data := thirteenInodes
  volume := twoEntries.volume
  calls := 0

/-- The vnode of the directory with two entries. -/
def twoEntriesVnode : DirectoryVnode where
  ino := 2
  iBlock := twoEntries.iBlock
  size := twoEntries.size
  blocks := twoEntries.blocks

theorem twoEntries_creatReady (sent : Nat → Nat) :
    CreatReady (twoSectors sent) twoEntriesVnode nameXyz twoEntriesDevice where
  blkSize := rfl
  directory := twoEntries_wellFormed
  named := by decide
  absent := twoEntries_absent (by decide) (by decide)
  bits := fun group bit inside _ isClear => by
    obtain rfl : group = 0 := Nat.lt_one_iff.mp inside
    have small : bit < 32 := by
      refine Nat.not_le.mp fun large => ?_
      have isOnes :
          thirteenInodes.words .inode 0 (bit / 32) = BitVec.allOnes 32 :=
        if_neg (by omega)
      unfold Ext2Data.bit Bitmap.bit at isClear
      rw [show twoEntriesDevice.data.words .inode 0 (bit / 32) = _
        from isOnes, BitVec.getLsbD_allOnes] at isClear
      exact of_decide_eq_false isClear (Nat.mod_lt _ (by decide))
    refine ⟨small, ?_, (by decide : 32 < 2 ^ 32)⟩
    show 0 * 32 + bit + 1 ≤ 32
    omega

theorem thirteenInodes_takes :
    TakesFor twoEntriesVnode twoEntriesDevice 0 13 :=
  .inl ⟨by decide, by decide, by decide, by decide, by decide⟩

theorem twoEntries_place (sent : Nat → Nat) :
    PlaceFor (twoSectors sent) twoEntriesVnode nameXyz twoEntriesDevice 0 13
      0 where
  short := by decide
  chain := .start
  below := by decide
  hasRoom := by
    show HasRoom (twoEntries.bytes 256) 12 0
    decide

/-- Whole writes create the file. -/
theorem twoSectors_whole :
    ∃ after,
      Ends
        (Short.ext2Creat (twoSectors fun _ => 2) 2 twoEntriesVnode nameXyz
          ⟨0, 0, 0⟩)
        twoEntriesDevice (.ok 0) after ∧
      WholeOrNothing (twoSectors fun _ => 2) twoEntriesVnode nameXyz
        twoEntriesDevice (.ok 0) after := by
  have harmless : Harmless (twoSectors fun _ => 2) twoEntriesVnode nameXyz
        twoEntriesDevice :=
    .complete 0 13 0 thirteenInodes_takes (twoEntries_place _)
      (fun needs => absurd needs.1 (by decide)) fun _ _ => rfl
  have ends : ∃ after,
        Ends
          (Short.ext2Creat (twoSectors fun _ => 2) 2 twoEntriesVnode nameXyz
            ⟨0, 0, 0⟩)
          twoEntriesDevice (.ok 0) after :=
    ⟨_, rfl⟩
  obtain ⟨after, returns⟩ := ends
  exact ⟨after, returns,
    (ext2Creat_wholeOrNothing_iff (twoEntries_creatReady _) returns).mpr
      harmless⟩

/--
No sector of the inode's block is sent, and `ext2_creat` returns 0 all the
same.
-/
theorem noSector_not_whole :
    CreatReady (twoSectors fun call => if call = 2 then 0 else 2)
        twoEntriesVnode nameXyz twoEntriesDevice ∧
      ∃ after,
        Ends
          (Short.ext2Creat (twoSectors fun call => if call = 2 then 0 else 2) 2
            twoEntriesVnode nameXyz ⟨0, 0, 0⟩)
          twoEntriesDevice (.ok 0) after ∧
        ¬ WholeOrNothing (twoSectors fun call => if call = 2 then 0 else 2)
          twoEntriesVnode nameXyz twoEntriesDevice (.ok 0) after := by
  refine ⟨twoEntries_creatReady _, _, rfl, fun whole => ?_⟩
  have isWhole := whole.2 2 (by decide) (by decide)
  exact absurd isWhole (by decide)

end Idylla.Ext2
