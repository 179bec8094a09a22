import Idylla.Ext2.Creat
import Idylla.Ext2.DirectoryLink
import Idylla.Lib.ShortWrites

namespace Idylla.Ext2

open Idylla.Lib

/-!
# The writes of a directory

`inode_rw_content` writes the blocks of a directory in a fixed order.  It stops
at the first short write that it notices: that of a block named by `i_block` or
the single-indirect block, or of an index block named by the double-indirect
one.  What is on the device then follows from the sectors sent so far.
-/

/-- Whether a short write of the block at an address is noticed. -/
def Surroundings.notices (world : Surroundings) : BlockAddress → Bool
  | .data block => decide (block < 12 + world.bpi)
  | .single => false
  | .double => false
  | .table _ => true

/-- So many blocks of data, from some block on. -/
def dataOrder (first count : Nat) : List BlockAddress :=
  (List.range' first count).map .data

/-- The writes behind the double-indirect block, of at most so many tables. -/
def tableOrder (bpi : Nat) : Nat → Nat → Nat → List BlockAddress
  | 0, _, _ => []
  | turns + 1, index, blocks =>
    if 0 < blocks then
      dataOrder (12 + bpi + index * bpi) (min blocks bpi) ++
        .table index :: tableOrder bpi turns (index + 1) (blocks - bpi)
    else
      []

/--
The blocks of a directory in the order in which they are written, but for the
double-indirect block, which is the last one.
-/
def bodyOrder (bpi count : Nat) : List BlockAddress :=
  dataOrder 0 (min count 12) ++
    if count ≤ 12 then
      []
    else
      dataOrder 12 (min (count - 12) bpi) ++
        .single :: tableOrder bpi bpi 0 (count - 12 - bpi)

/-- The double-indirect block, if the directory gets to it. -/
def doubleOrder (bpi count : Nat) : List BlockAddress :=
  if 12 + bpi ≤ count then [.double] else []

/-- What becomes of the writes of a directory, from a call on. -/
abbrev Surroundings.sends (world : Surroundings) (order : List BlockAddress)
    (call : Nat) : Sending BlockAddress :=
  sending world.spb world.transfers world.notices order call

namespace Short

section Sends

variable {world : Surroundings} {file : FileMap} {Value Next : Type}
  {order rest : List BlockAddress} {device middle after : Ext2Device}

/-- The device after the writes of some blocks. -/
structure Sent
    (world : Surroundings) (file : FileMap) (order : List BlockAddress)
    (device after : Ext2Device) : Prop where
  data : after.data = device.data
  calls : after.calls = (world.sends order device.calls).calls
  allocated : after.volume.allocated = device.volume.allocated
  blocks : after.volume.blocks =
      sendBlocks world.spb world.transfers world.notices 128 file.number
        file.content order device.calls device.volume.blocks

/-- A call writes some blocks and returns a value if nothing is noticed. -/
def Performs (world : Surroundings) (file : FileMap) (call : Ext2Io Value)
    (order : List BlockAddress) (device : Ext2Device) (value : Value) : Prop :=
  ∃ after,
    Ends call device
      (if (world.sends order device.calls).finished then .ok value
        else .error Errno.EIO)
      after ∧
    Sent world file order device after

theorem performs_pure (device : Ext2Device) (value : Value) :
    Performs world file (pure value) [] device value :=
  ⟨device, rfl, rfl, rfl, rfl, rfl⟩

theorem Sent.append
    (finished : (world.sends order device.calls).finished = true)
    (first : Sent world file order device middle)
    (second : Sent world file rest middle after) :
    Sent world file (order ++ rest) device after where
  data := second.data.trans first.data
  calls := by
    rw [second.calls, first.calls, calls_of_finished finished]
    exact (sending_append finished).2.symm
  allocated := second.allocated.trans first.allocated
  blocks := by
    rw [second.blocks, first.blocks, first.calls, calls_of_finished finished]
    exact (sendBlocks_append finished).symm

theorem Performs.bind
    {call : Ext2Io Value} {next : Value → Ext2Io Next} {value : Value}
    {last : Next} (first : Performs world file call order device value)
    (second : ∀ middle, Sent world file order device middle →
      (world.sends order device.calls).finished = true →
        Performs world file (next value) rest middle last) :
    Performs world file (call >>= next) (order ++ rest) device last := by
  obtain ⟨middle, ends, sent⟩ := first
  cases finished : (world.sends order device.calls).finished with
  | false =>
    have same : world.sends (order ++ rest) device.calls =
          world.sends order device.calls :=
      sending_append_stopped finished
    rw [finished] at ends
    refine ⟨middle, ?_, ?_⟩
    · rw [same, finished]
      exact ends_bind_error ends
    · refine ⟨sent.data, ?_, sent.allocated, ?_⟩
      · rw [same]
        exact sent.calls
      · rw [sendBlocks_append_stopped finished]
        exact sent.blocks
  | true =>
    rw [finished] at ends
    obtain ⟨after, endsNext, sentNext⟩ := second middle sent finished
    refine ⟨after, ?_, sent.append finished sentNext⟩
    have isCall : middle.calls = device.calls + order.length :=
      sent.calls.trans (calls_of_finished finished)
    have both : (world.sends (order ++ rest) device.calls).finished =
          (world.sends rest middle.calls).finished := by
      rw [isCall]
      exact (sending_append finished).1
    rw [both]
    exact ends_bind ends endsNext

/-- The device after one call of `bdev_write`. -/
def afterWrite (world : Surroundings) (device : Ext2Device) (block : Nat)
    (content : Block) : Ext2Device :=
  { device with
    calls := device.calls + 1
    volume :=
      device.volume.bdevWrite block
        ((device.volume.blocks block).copy 0 content 0
          (128 * world.transfers device.calls)) }

theorem bdevWrite_ends (device : Ext2Device) (block : Nat) (content : Block) :
    Ends (bdevWrite world block content) device
      (.ok (world.transfers device.calls))
      (afterWrite world device block content) :=
  rfl

theorem performs_write
    {address : BlockAddress} {number : Nat} {content : Block} {noticed : Bool}
    {next : Ext2Io Next} {last : Next} (isNumber : file.number address = number)
    (isContent : file.content address = content)
    (isNoticed : world.notices address = noticed)
    (following : ∀ middle, Sent world file [address] device middle →
      Performs world file next rest middle last) :
    Performs world file
      (bdevWrite world number content >>= fun err =>
        complete world noticed err >>= fun _ => next)
      (address :: rest) device last := by
  subst isNumber isContent isNoticed
  have once : Performs world file
        (bdevWrite world (file.number address) (file.content address) >>=
          complete world (world.notices address))
        [address] device () := by
    have isLooked :=
      @complete_ends world (world.notices address)
        (world.transfers device.calls)
        (afterWrite world device (file.number address) (file.content address))
    refine
      ⟨afterWrite world device (file.number address) (file.content address),
        ends_bind (bdevWrite_ends _ _ _) ?_, ?_⟩
    · unfold Surroundings.sends
      by_cases stops : world.notices address = true ∧
            world.transfers device.calls ≠ world.spb
      · rw [if_pos stops] at isLooked
        rw [sending_stops stops]
        exact isLooked
      · rw [if_neg stops] at isLooked
        rw [sending_goes_on stops]
        exact isLooked
    · refine ⟨rfl, ?_, rfl, ?_⟩
      · unfold Surroundings.sends sending
        split <;> rfl
      · unfold sendBlocks
        split <;> rfl
  have both : Performs world file
        ((bdevWrite world (file.number address) (file.content address) >>=
            complete world (world.notices address)) >>= fun _ => next)
        ([address] ++ rest) device last :=
    once.bind fun middle sent _ => following middle sent
  exact both

end Sends

section Content

variable {world : Surroundings} {file : FileMap} {buf : Memory Block}
  {noticed : Bool} {order : List BlockAddress} {table : Block}
  {device middle : Ext2Device} {pos ptr count bound blocks : Nat}

/-- The index blocks of a file are on the device. -/
def IndexStored (file : FileMap) (device : Ext2Device) : Prop :=
  ∀ address, 2 ≤ file.number address →
    (∀ block, address ≠ .data block) →
      device.volume.blocks (file.number address) = file.content address

theorem Sent.block (addresses : OneAddressEach file)
    (sent : Sent world file order device middle) {address : BlockAddress}
    (isMapped : 2 ≤ file.number address) :
    middle.volume.blocks (file.number address) =
      (device.volume.blocks (file.number address)).copy 0
        (file.content address) 0
        (128 * (world.sends order device.calls).sectors address) := by
  rw [sent.blocks]
  exact sendBlocks_eq fun other _ same =>
    (addresses address other isMapped same.symm).symm

theorem Sent.indexStored (addresses : OneAddressEach file)
    (sent : Sent world file order device middle)
    (stored : IndexStored file device) : IndexStored file middle := by
  intro address isMapped isIndex
  rw [sent.block addresses isMapped, stored address isMapped isIndex]
  funext cell
  by_cases below : cell < 128 * (world.sends order device.calls).sectors address
  · rw [Memory.copy_inside (Nat.zero_le _) (by omega), Nat.sub_zero,
      Nat.zero_add]
  · exact Memory.copy_outside (by omega)

/-- Entries of a table name blocks of the file. -/
structure NamesBlocks
    (world : Surroundings) (file : FileMap) (buf : Memory Block)
    (noticed : Bool) (table : Block)
    (pos ptr count : Nat) : Prop where
  mapped : ∀ index < count, 2 ≤ table (pos + index)
  number :
    ∀ index < count, file.number (.data (ptr + index)) = table (pos + index)
  content :
    ∀ index < count, file.content (.data (ptr + index)) = buf (ptr + index)
  notices : ∀ index < count, world.notices (.data (ptr + index)) = noticed

theorem NamesBlocks.rest
    (names : NamesBlocks world file buf noticed table pos ptr (count + 1)) :
    NamesBlocks world file buf noticed table (pos + 1) (ptr + 1) count := by
  have shift (base index : Nat) : base + 1 + index = base + (index + 1) := by
    omega
  refine ⟨fun index below => ?_, fun index below => ?_,
    fun index below => ?_, fun index below => ?_⟩
  · rw [shift]
    exact names.mapped _ (Nat.succ_lt_succ below)
  · rw [shift, shift]
    exact names.number _ (Nat.succ_lt_succ below)
  · rw [shift]
    exact names.content _ (Nat.succ_lt_succ below)
  · rw [shift]
    exact names.notices _ (Nat.succ_lt_succ below)

/-- A loop over entries that are there writes their blocks. -/
theorem sendEntries_performs (slot : Nat → Nat)
    (names :
      NamesBlocks world file buf noticed table pos ptr
        (min blocks (bound - pos))) (device : Ext2Device) :
    Performs world file
      (sendEntries world buf noticed slot bound table pos ptr blocks)
      (dataOrder ptr (min blocks (bound - pos))) device
      { table := table
        pos := pos + min blocks (bound - pos)
        ptr := ptr + min blocks (bound - pos)
        blocks := blocks - min blocks (bound - pos) } := by
  induction blocks generalizing pos ptr device with
  | zero =>
    exact performs_pure device _
  | succ blocks ih =>
    unfold sendEntries
    by_cases inside : pos < bound
    · have isCount : min (blocks + 1) (bound - pos) =
            min blocks (bound - (pos + 1)) + 1 := by
        omega
      rw [isCount] at names ⊢
      have isMapped := names.mapped 0 (Nat.succ_pos _)
      rw [Nat.add_zero] at isMapped
      rw [if_pos inside, if_neg (Nat.not_lt.mpr isMapped)]
      have following := ih names.rest
      refine performs_write (names.number 0 (Nat.succ_pos _))
        (names.content 0 (Nat.succ_pos _))
        (names.notices 0 (Nat.succ_pos _)) fun middle _ => ?_
      have same := following middle
      rw [show pos + 1 + min blocks (bound - (pos + 1)) =
          pos + (min blocks (bound - (pos + 1)) + 1) by omega,
        show ptr + 1 + min blocks (bound - (pos + 1)) =
          ptr + (min blocks (bound - (pos + 1)) + 1) by omega,
        show blocks - min blocks (bound - (pos + 1)) =
          blocks + 1 - (min blocks (bound - (pos + 1)) + 1) by omega]
        at same
      exact same
    · have noCount : min (blocks + 1) (bound - pos) = 0 := by
        omega
      rw [noCount, if_neg inside]
      exact performs_pure device _

theorem loadIndex_performs {number : Nat} (isMapped : 2 ≤ number)
    (device : Ext2Device) :
    Performs world file (loadIndex world number) [] device
      (number, device.volume.blocks number) := by
  unfold loadIndex
  rw [if_neg (Nat.not_lt.mpr isMapped)]
  exact ⟨device, rfl, rfl, rfl, rfl, rfl⟩

end Content

/-- The blocks of an inode, with the contents that are to be written. -/
def writtenFile (bpi : Nat) (volume : Ext2Volume) (iBlock : Block)
    (buf : Memory Block) : FileMap where
  number := numberAt bpi volume.blocks iBlock
  content
    | .data block => buf block
    | address => volume.blocks (numberAt bpi volume.blocks iBlock address)

section Levels

variable {world : Surroundings} {volume : Ext2Volume} {iBlock : Block}
  {buf : Memory Block} {device : Ext2Device} {count : Nat}

/-- The blocks of data from the first one on are there. -/
def DataMapped (world : Surroundings) (volume : Ext2Volume) (iBlock : Block)
    (count : Nat) : Prop :=
  ∀ block < count, 2 ≤ numberAt world.bpi volume.blocks iBlock (.data block)

theorem mapped_of_entry {blocks : Memory Block} {index pos : Nat}
    (isMapped : 2 ≤ entryAt blocks index pos) :
    2 ≤ index ∧ entryAt blocks index pos = blocks index pos := by
  by_cases isThere : 2 ≤ index
  · exact ⟨isThere, entryAt_of_mapped isThere pos⟩
  · rw [entryAt_of_unmapped (Nat.not_le.mp isThere)] at isMapped
    omega

theorem direct_names (mapped : DataMapped world volume iBlock count) :
    NamesBlocks world (writtenFile world.bpi volume iBlock buf) buf true
      iBlock 0 0 (min count (12 - 0)) := by
  have isEntry (index : Nat)
      (below : index < min count (12 - 0)) :
      numberAt world.bpi volume.blocks iBlock (.data (0 + index)) =
        iBlock (0 + index) :=
    if_pos (by omega)
  refine ⟨fun index below => ?_, isEntry, fun _ _ => rfl,
    fun index below => decide_eq_true (by omega)⟩
  rw [← isEntry index below]
  exact mapped _ (by omega)

theorem single_names (someEntries : 0 < world.bpi)
    (mapped : DataMapped world volume iBlock count) (many : 12 < count) :
    2 ≤ iBlock 12 ∧
      NamesBlocks world (writtenFile world.bpi volume iBlock buf) buf true
        (volume.blocks (iBlock 12)) 0 12
        (min (count - 12) (world.bpi - 0)) := by
  have isEntry (index : Nat) (inside : index < world.bpi)
      (below : 12 + index < count) :
      2 ≤ iBlock 12 ∧
        numberAt world.bpi volume.blocks iBlock (.data (12 + index)) =
          volume.blocks (iBlock 12) (0 + index) := by
    have isMapped := mapped _ below
    rw [numberAt_single inside] at isMapped ⊢
    rw [Nat.zero_add]
    exact mapped_of_entry isMapped
  have number (index : Nat)
      (below : index < min (count - 12) (world.bpi - 0)) :=
    (isEntry index (by omega) (by omega)).2
  refine ⟨(isEntry 0 someEntries many).1, fun index below => ?_, number,
    fun _ _ => rfl, fun index below => decide_eq_true (by omega)⟩
  rw [← number index below]
  exact mapped _ (by omega)

theorem table_names {index left : Nat} (isTable : index < world.bpi)
    (mapped : DataMapped world volume iBlock count)
    (isCount : 12 + world.bpi + index * world.bpi + left = count)
    (someLeft : 0 < left) :
    2 ≤ volume.blocks (iBlock 13) index ∧
      numberAt world.bpi volume.blocks iBlock (.table index) =
        volume.blocks (iBlock 13) index ∧
      NamesBlocks world (writtenFile world.bpi volume iBlock buf) buf false
        (volume.blocks (volume.blocks (iBlock 13) index)) 0
        (12 + world.bpi + index * world.bpi)
        (min left (world.bpi - 0)) := by
  have isEntry (pos : Nat) (inside : pos < world.bpi)
      (below : pos < left) :
      2 ≤ volume.blocks (iBlock 13) index ∧
        entryAt volume.blocks (iBlock 13) index =
          volume.blocks (iBlock 13) index ∧
        numberAt world.bpi volume.blocks iBlock
            (.data (12 + world.bpi + index * world.bpi + pos)) =
          volume.blocks (volume.blocks (iBlock 13) index) (0 + pos) := by
    have isMapped :=
      mapped (12 + world.bpi + index * world.bpi + pos) (by omega)
    rw [numberAt_table isTable inside] at isMapped ⊢
    obtain ⟨hasTable, isNumber⟩ := mapped_of_entry isMapped
    have isTableOf := (mapped_of_entry hasTable).2
    rw [isNumber, Nat.zero_add]
    rw [isTableOf] at hasTable ⊢
    exact ⟨hasTable, rfl, rfl⟩
  have number (pos : Nat) (below : pos < min left (world.bpi - 0)) :=
    (isEntry pos (by omega) (by omega)).2.2
  obtain ⟨hasTable, isTableOf, -⟩ := isEntry 0 (by omega) someLeft
  refine ⟨hasTable, (if_pos isTable).trans isTableOf, fun pos below => ?_,
    number, fun _ _ => rfl, fun pos below => decide_eq_false (by omega)⟩
  rw [← number pos below]
  exact mapped _ (by omega)

theorem IndexStored.content {address : BlockAddress} {number : Nat}
    (stored : IndexStored (writtenFile world.bpi volume iBlock buf) device)
    (isNumber : numberAt world.bpi volume.blocks iBlock address = number)
    (isMapped : 2 ≤ number) (isIndex : ∀ block, address ≠ .data block) :
    device.volume.blocks number = volume.blocks number ∧
      (writtenFile world.bpi volume iBlock buf).content address =
        volume.blocks number := by
  subst isNumber
  have isContent : (writtenFile world.bpi volume iBlock buf).content address =
        volume.blocks (numberAt world.bpi volume.blocks iBlock address) := by
    cases address with
    | data block =>
      exact absurd rfl (isIndex block)
    | single | double | table index =>
      rfl
  exact ⟨(stored address isMapped isIndex).trans isContent, isContent⟩

/-- One turn of the loop over the double-indirect block. -/
theorem sendTable_performs {index left : Nat} (isTable : index < world.bpi)
    (mapped : DataMapped world volume iBlock count)
    (isCount : 12 + world.bpi + index * world.bpi + left = count)
    (someLeft : 0 < left)
    (stored : IndexStored (writtenFile world.bpi volume iBlock buf) device) :
    Performs world (writtenFile world.bpi volume iBlock buf)
      (sendTable world buf
        { table := volume.blocks (iBlock 13)
          pos := index * world.bpi
          ptr := 12 + world.bpi + index * world.bpi
          blocks := left })
      (dataOrder (12 + world.bpi + index * world.bpi)
          (min left world.bpi) ++ [.table index])
      device
      { table := volume.blocks (iBlock 13)
        pos := index * world.bpi + min left world.bpi
        ptr := 12 + world.bpi + index * world.bpi + min left world.bpi
        blocks := left - min left world.bpi } := by
  obtain ⟨hasTable, isNumber, names⟩ :=
    @table_names world volume iBlock buf count index left isTable mapped
      isCount someLeft
  have someEntries : 0 < world.bpi := by omega
  have isTmp : index * world.bpi / world.bpi = index :=
    Nat.mul_div_cancel _ someEntries
  have isFirst : index * world.bpi % world.bpi = 0 := Nat.mul_mod_left _ _
  obtain ⟨isBlock, isContent⟩ :
      device.volume.blocks (volume.blocks (iBlock 13) index) =
          volume.blocks (volume.blocks (iBlock 13) index) ∧
        (writtenFile world.bpi volume iBlock buf).content (.table index) =
          volume.blocks (volume.blocks (iBlock 13) index) :=
    stored.content isNumber hasTable fun _ => BlockAddress.noConfusion
  unfold sendTable
  rw [isTmp, isFirst]
  refine (loadIndex_performs hasTable device).bind fun middle _ _ => ?_
  rw [isBlock]
  have inner :=
    @sendEntries_performs world _ buf false _ 0
      (12 + world.bpi + index * world.bpi) world.bpi left id names middle
  refine inner.bind fun last _ _ => ?_
  refine performs_write isNumber isContent rfl fun final _ => ?_
  rw [Memory.set_self, Nat.add_sub_cancel_left]
  exact performs_pure final _

/-- The loop over the double-indirect block. -/
theorem sendTables_performs {turns index left pos ptr : Nat}
    (isTurns : index + turns = world.bpi) (enough : left ≤ turns * world.bpi)
    (mapped : DataMapped world volume iBlock count)
    (starts : 0 < left →
      12 + world.bpi + index * world.bpi + left = count ∧
        pos = index * world.bpi ∧ ptr = 12 + world.bpi + index * world.bpi)
    (addresses : OneAddressEach (writtenFile world.bpi volume iBlock buf))
    (stored : IndexStored (writtenFile world.bpi volume iBlock buf) device) :
    Performs world (writtenFile world.bpi volume iBlock buf)
      (sendTables world buf turns
        { table := volume.blocks (iBlock 13)
          pos := pos
          ptr := ptr
          blocks := left })
      (tableOrder world.bpi turns index left) device
      { table := volume.blocks (iBlock 13)
        pos := pos + left
        ptr := ptr + left
        blocks := 0 } := by
  induction turns generalizing index left pos ptr device with
  | zero =>
    obtain rfl : left = 0 := by omega
    exact performs_pure device _
  | succ turns ih =>
    unfold sendTables tableOrder
    by_cases someLeft : 0 < left
    · obtain ⟨isCount, rfl, rfl⟩ := starts someLeft
      have isTable : index < world.bpi := by omega
      have inside : index * world.bpi < world.bpi * world.bpi :=
        Nat.mul_lt_mul_of_pos_right isTable (by omega)
      have isBound : (turns + 1) * world.bpi = turns * world.bpi + world.bpi :=
        Nat.succ_mul turns world.bpi
      have isNext : (index + 1) * world.bpi = index * world.bpi + world.bpi :=
        Nat.succ_mul index world.bpi
      have isLeft : left - world.bpi = left - min left world.bpi := by
        omega
      rw [if_pos ⟨inside, someLeft⟩, if_pos someLeft, isLeft]
      have once :=
        @sendTable_performs world volume iBlock buf device count index left
          isTable mapped isCount someLeft stored
      have both :=
        once.bind fun middle sent _ =>
          @ih middle (index + 1) (left - min left world.bpi)
            (index * world.bpi + min left world.bpi)
            (12 + world.bpi + index * world.bpi + min left world.bpi)
            (by omega) (by omega) (by omega)
            (sent.indexStored addresses stored)
      rw [List.append_assoc] at both
      have isEnd (base : Nat) :
          base + min left world.bpi + (left - min left world.bpi) =
            base + left := by
        omega
      rw [isEnd, isEnd] at both
      exact both
    · obtain rfl : left = 0 := by omega
      rw [if_neg fun both => someLeft both.2, if_neg someLeft]
      exact performs_pure device _

theorem sendSingle_performs (someEntries : 0 < world.bpi)
    (mapped : DataMapped world volume iBlock count) (many : 12 < count)
    (stored : IndexStored (writtenFile world.bpi volume iBlock buf) device) :
    Performs world (writtenFile world.bpi volume iBlock buf)
      (sendSingle world buf iBlock 12 (count - 12))
      (dataOrder 12 (min (count - 12) world.bpi) ++ [.single]) device
      { table := iBlock
        pos := min (count - 12) world.bpi
        ptr := 12 + min (count - 12) world.bpi
        blocks := count - 12 - min (count - 12) world.bpi } := by
  obtain ⟨hasIndex, names⟩ :=
    @single_names world volume iBlock buf count someEntries mapped many
  obtain ⟨isBlock, isContent⟩ :
      device.volume.blocks (iBlock 12) = volume.blocks (iBlock 12) ∧
        (writtenFile world.bpi volume iBlock buf).content .single =
          volume.blocks (iBlock 12) :=
    stored.content rfl hasIndex fun _ => BlockAddress.noConfusion
  refine (loadIndex_performs hasIndex device).bind fun middle _ _ => ?_
  rw [isBlock]
  have inner :=
    @sendEntries_performs world _ buf true _ 0 12 world.bpi (count - 12)
      (fun _ => 0) names middle
  rw [Nat.sub_zero, Nat.zero_add] at inner
  refine inner.bind fun last _ _ => ?_
  refine performs_write rfl isContent rfl fun final _ => ?_
  rw [Memory.set_self]
  exact performs_pure final _

theorem sendDouble_performs (mapped : DataMapped world volume iBlock count)
    (enough : 12 + world.bpi ≤ count)
    (inRange : count ≤ 12 + world.bpi + world.bpi * world.bpi)
    (hasIndex : 2 ≤ iBlock 13)
    (addresses : OneAddressEach (writtenFile world.bpi volume iBlock buf))
    (stored : IndexStored (writtenFile world.bpi volume iBlock buf) device) :
    Performs world (writtenFile world.bpi volume iBlock buf)
      (sendDouble world buf iBlock (12 + world.bpi) (count - 12 - world.bpi))
      (tableOrder world.bpi world.bpi 0 (count - 12 - world.bpi) ++ [.double])
      device
      { table := iBlock
        pos := count - 12 - world.bpi
        ptr := 12 + world.bpi + (count - 12 - world.bpi)
        blocks := 0 } := by
  obtain ⟨isBlock, isContent⟩ :
      device.volume.blocks (iBlock 13) = volume.blocks (iBlock 13) ∧
        (writtenFile world.bpi volume iBlock buf).content .double =
          volume.blocks (iBlock 13) :=
    stored.content rfl hasIndex fun _ => BlockAddress.noConfusion
  refine (loadIndex_performs hasIndex device).bind fun middle sent _ => ?_
  rw [isBlock]
  have inner :=
    @sendTables_performs world volume iBlock buf middle count world.bpi 0
      (count - 12 - world.bpi) 0 (12 + world.bpi) (by omega) (by omega)
      mapped (by omega) addresses (sent.indexStored addresses stored)
  rw [Nat.zero_add] at inner
  refine inner.bind fun last _ _ => ?_
  refine performs_write rfl isContent rfl fun final _ => ?_
  rw [Memory.set_self]
  exact performs_pure final _

end Levels

/--
A directory of just as many blocks as the single-indirect block can name is
given a double-indirect block that it does not need.
-/
def NeedsIndex (world : Surroundings) (iBlock : Block) (count : Nat) : Prop :=
  12 + world.bpi ≤ count ∧ iBlock 13 < 2

/-- How `inode_rw_content` ends on a directory whose blocks are there. -/
inductive ContentEnds
    (world : Surroundings) (iBlock : Block) (buf : Memory Block) (count : Nat)
    (device : Ext2Device) :
    Except Errno (Block × Nat) → Ext2Device → Prop where
  | stopped {after : Ext2Device}
      (stops :
        (world.sends (bodyOrder world.bpi count) device.calls).finished = false)
      (sent :
        Sent world (writtenFile world.bpi device.volume iBlock buf)
          (bodyOrder world.bpi count) device after) :
      ContentEnds world iBlock buf count device (.error Errno.EIO) after
  | noBlock {middle : Ext2Device} {err : Errno}
      (finished :
        (world.sends (bodyOrder world.bpi count) device.calls).finished = true)
      (needs : NeedsIndex world iBlock count)
      (fails : world.blockAlloc device.volume.allocated = .error err)
      (sent :
        Sent world (writtenFile world.bpi device.volume iBlock buf)
          (bodyOrder world.bpi count) device middle) :
      ContentEnds world iBlock buf count device (.error err)
        { middle with
          volume :=
            { middle.volume with allocated := middle.volume.allocated + 1 } }
  | whole {after : Ext2Device} {returned : Block × Nat}
      (finished :
        (world.sends (bodyOrder world.bpi count) device.calls).finished = true)
      (found : NeedsIndex world iBlock count →
        ∃ block, world.blockAlloc device.volume.allocated = .ok block)
      (data : after.data = device.data)
      (calls :
        after.calls =
          device.calls + (bodyOrder world.bpi count).length +
            (doubleOrder world.bpi count).length) :
      ContentEnds world iBlock buf count device (.ok returned) after

section Whole

variable {world : Surroundings} {iBlock : Block} {buf : Memory Block}
  {device : Ext2Device} {count : Nat}

theorem tableOrder_zero (bpi turns index : Nat) :
    tableOrder bpi turns index 0 = [] := by
  cases turns with
  | zero =>
    rfl
  | succ turns =>
    exact if_neg (Nat.lt_irrefl 0)

theorem contentEnds_of_performs
    {call : Ext2Io (Block × Nat)} {returned : Block × Nat}
    (performs :
      Performs world (writtenFile world.bpi device.volume iBlock buf) call
        (bodyOrder world.bpi count ++ doubleOrder world.bpi count) device
        returned)
    (found : NeedsIndex world iBlock count →
      ∃ block, world.blockAlloc device.volume.allocated = .ok block) :
    ∃ result after, Ends call device result after ∧
      ContentEnds world iBlock buf count device result after := by
  obtain ⟨after, ends, sent⟩ := performs
  cases finished :
      (world.sends (bodyOrder world.bpi count) device.calls).finished with
  | false =>
    have same :
        world.sends (bodyOrder world.bpi count ++ doubleOrder world.bpi count)
            device.calls =
          world.sends (bodyOrder world.bpi count) device.calls :=
      sending_append_stopped finished
    rw [same, finished] at ends
    refine ⟨_, after, ends, .stopped finished ⟨sent.data, ?_,
      sent.allocated, ?_⟩⟩
    · rw [← same]
      exact sent.calls
    · rw [← sendBlocks_append_stopped finished]
      exact sent.blocks
  | true =>
    -- A short write of the double-indirect block is not noticed.
    have last (calls : Nat) :
        (world.sends (doubleOrder world.bpi count) calls).finished = true := by
      unfold doubleOrder
      split
      · exact congrArg Sending.finished
          (sending_goes_on fun stops => Bool.noConfusion stops.1)
      · rfl
    have all :
        (world.sends (bodyOrder world.bpi count ++ doubleOrder world.bpi count)
            device.calls).finished = true :=
      (sending_append finished).1.trans (last _)
    rw [all] at ends
    refine ⟨_, after, ends, .whole finished found sent.data ?_⟩
    rw [sent.calls, calls_of_finished all, List.length_append, Nat.add_assoc]

theorem indexStored_start
    (world : Surroundings) (iBlock : Block) (buf : Memory Block)
    (device : Ext2Device) :
    IndexStored (writtenFile world.bpi device.volume iBlock buf) device := by
  intro address _ isIndex
  cases address with
  | data block =>
    exact absurd rfl (isIndex block)
  | single | double | table index =>
    rfl

theorem direct_performs (mapped : DataMapped world device.volume iBlock count) :
    Performs world (writtenFile world.bpi device.volume iBlock buf)
      (sendEntries world buf true id 12 iBlock 0 0 count)
      (dataOrder 0 (min count 12)) device
      { table := iBlock
        pos := min count 12
        ptr := min count 12
        blocks := count - min count 12 } := by
  have direct :=
    @sendEntries_performs world _ buf true _ 0 0 12 count id
      (direct_names mapped) device
  rw [Nat.sub_zero, Nat.zero_add] at direct
  exact direct

theorem single_performs {middle : Ext2Device} (someEntries : 0 < world.bpi)
    (mapped : DataMapped world device.volume iBlock count)
    (addresses :
      OneAddressEach (writtenFile world.bpi device.volume iBlock buf))
    (many : 12 < count)
    (sent :
      Sent world (writtenFile world.bpi device.volume iBlock buf)
        (dataOrder 0 (min count 12)) device middle) :
    Performs world (writtenFile world.bpi device.volume iBlock buf)
      (sendSingle world buf iBlock (min count 12) (count - min count 12))
      (dataOrder 12 (min (count - 12) world.bpi) ++ [.single]) middle
      { table := iBlock
        pos := min (count - 12) world.bpi
        ptr := 12 + min (count - 12) world.bpi
        blocks := count - 12 - min (count - 12) world.bpi } := by
  have isTwelve : min count 12 = 12 := by omega
  rw [isTwelve]
  exact sendSingle_performs someEntries mapped many
    (sent.indexStored addresses (indexStored_start world iBlock buf device))

theorem order_eq (bpi count : Nat) :
    (count ≤ 12 → bodyOrder bpi count = dataOrder 0 (min count 12)) ∧
      (12 < count → bodyOrder bpi count =
        dataOrder 0 (min count 12) ++
          (dataOrder 12 (min (count - 12) bpi) ++ [.single] ++
            tableOrder bpi bpi 0 (count - 12 - bpi))) := by
  unfold bodyOrder
  refine ⟨fun few => ?_, fun many => ?_⟩
  · rw [if_pos few, List.append_nil]
  · rw [if_neg (Nat.not_le.mpr many), List.append_assoc]
    rfl

/-- A directory whose blocks, and index blocks, are there. -/
theorem inodeRwContent_performs (someEntries : 0 < world.bpi)
    (mapped : DataMapped world device.volume iBlock count)
    (inRange : count ≤ 12 + world.bpi + world.bpi * world.bpi)
    (hasDouble : 12 + world.bpi ≤ count → 2 ≤ iBlock 13)
    (addresses :
      OneAddressEach (writtenFile world.bpi device.volume iBlock buf)) :
    ∃ returned,
      Performs world (writtenFile world.bpi device.volume iBlock buf)
        (inodeRwContent world buf iBlock count)
        (bodyOrder world.bpi count ++ doubleOrder world.bpi count) device
        returned := by
  have direct := @direct_performs world iBlock buf device count mapped
  by_cases few : count ≤ 12
  · have isOrder : bodyOrder world.bpi count ++ doubleOrder world.bpi count =
          dataOrder 0 (min count 12) ++ [] := by
      rw [(order_eq world.bpi count).1 few, doubleOrder, if_neg (by omega)]
    rw [isOrder]
    refine ⟨(iBlock, min count 12), direct.bind fun middle _ _ => ?_⟩
    dsimp only
    rw [if_pos (by omega)]
    exact performs_pure middle _
  have many : 12 < count := Nat.not_le.mp few
  have notFew : count - min count 12 ≠ 0 := by omega
  rw [(order_eq world.bpi count).2 many, List.append_assoc]
  by_cases enough : 12 + world.bpi ≤ count
  · have isPos : min (count - 12) world.bpi = world.bpi := by omega
    have inside : world.bpi ≤ world.bpi ∧
        world.bpi - world.bpi < world.bpi * world.bpi := by
      refine ⟨Nat.le_refl _, ?_⟩
      rw [Nat.sub_self]
      exact Nat.mul_pos someEntries someEntries
    refine ⟨(iBlock, 12 + world.bpi + (count - 12 - world.bpi)),
      direct.bind fun middle sent _ => ?_⟩
    rw [if_neg notFew, List.append_assoc]
    refine (single_performs someEntries mapped addresses many sent).bind
      fun last sentSingle _ => ?_
    rw [isPos, if_pos inside, doubleOrder, if_pos enough]
    have storedLast :=
      sentSingle.indexStored addresses
        (sent.indexStored addresses (indexStored_start world iBlock buf device))
    have double :=
      sendDouble_performs mapped enough inRange (hasDouble enough) addresses
        storedLast
    rw [← List.append_nil (_ ++ [_])]
    refine double.bind fun final _ _ => ?_
    exact performs_pure final _
  · have isPos : min (count - 12) world.bpi = count - 12 := by omega
    have noTables : count - 12 - world.bpi = 0 := by omega
    refine ⟨(iBlock, 12 + (count - 12)), direct.bind fun middle sent _ => ?_⟩
    rw [if_neg notFew, doubleOrder, if_neg enough, noTables,
      tableOrder_zero, List.append_nil]
    refine (single_performs someEntries mapped addresses many sent).bind
      fun last _ _ => ?_
    dsimp only
    rw [isPos, if_neg fun inside => by omega]
    exact performs_pure last _

theorem Performs.cases {file : FileMap} {Value : Type} {call : Ext2Io Value}
    {order : List BlockAddress} {value : Value}
    (performs : Performs world file call order device value) :
    ∃ after, Sent world file order device after ∧
      ((world.sends order device.calls).finished = true ∧
          Ends call device (.ok value) after ∨
        (world.sends order device.calls).finished = false ∧
          Ends call device (.error Errno.EIO) after) := by
  obtain ⟨after, ends, sent⟩ := performs
  refine ⟨after, sent, ?_⟩
  cases finished : (world.sends order device.calls).finished with
  | true =>
    rw [finished] at ends
    exact .inl ⟨rfl, ends⟩
  | false =>
    rw [finished] at ends
    exact .inr ⟨rfl, ends⟩

theorem loadIndex_fails {number : Nat} {err : Errno} (missing : number < 2)
    (fails : world.blockAlloc device.volume.allocated = .error err) :
    Ends (loadIndex world number) device (.error err)
      { device with
        volume :=
          { device.volume with
            allocated := device.volume.allocated + 1 } } := by
  unfold loadIndex inodeDoAllocBlock
  rw [if_pos missing]
  refine ends_bind_error (ends_bind rfl (ends_bind rfl ?_))
  rw [fails]
  rfl

theorem loadIndex_found {number block : Nat} (missing : number < 2)
    (finds : world.blockAlloc device.volume.allocated = .ok block) :
    Ends (loadIndex world number) device (.ok (block, zeroBlock))
      { device with
        volume :=
          { device.volume with
            allocated := device.volume.allocated + 1
            iBlocks := device.volume.iBlocks + 1 } } := by
  unfold loadIndex inodeDoAllocBlock
  rw [if_pos missing]
  refine ends_bind (ends_bind rfl (ends_bind rfl ?_)) rfl
  rw [finds]
  rfl

theorem sendDouble_needed {ptr block : Nat} (missing : iBlock 13 < 2)
    (finds : world.blockAlloc device.volume.allocated = .ok block) :
    ∃ loop after,
      Ends (sendDouble world buf iBlock ptr 0) device (.ok loop) after ∧
        loop.blocks = 0 ∧ after.data = device.data ∧
          after.calls = device.calls + 1 := by
  have noTurn (turns : Nat) (table : Block)
      (middle : Ext2Device) :
      Ends (sendTables world buf turns ⟨table, 0, ptr, 0⟩) middle
        (.ok ⟨table, 0, ptr, 0⟩) middle := by
    cases turns with
    | zero =>
      rfl
    | succ turns =>
      unfold sendTables
      rw [if_neg fun both => Nat.lt_irrefl 0 both.2]
      rfl
  refine
    ⟨⟨iBlock.set 13 block, 0, ptr, 0⟩,
      afterWrite world
        { device with
          volume :=
            { device.volume with
              allocated := device.volume.allocated + 1
              iBlocks := device.volume.iBlocks + 1 } }
        block zeroBlock,
      ?_, rfl, rfl, rfl⟩
  refine ends_bind (loadIndex_found missing finds)
    (ends_bind (noTurn _ _ _) (ends_bind (bdevWrite_ends _ _ _)
      (ends_bind (complete_ends false _ _) rfl)))

theorem NeedsIndex.count_eq (someEntries : 0 < world.bpi)
    (mapped : DataMapped world device.volume iBlock count)
    (needs : NeedsIndex world iBlock count) : count = 12 + world.bpi := by
  obtain ⟨enough, missing⟩ := needs
  refine Nat.le_antisymm (Nat.not_lt.mp fun more => ?_) enough
  have isMapped := mapped (12 + world.bpi + 0 * world.bpi + 0) (by omega)
  rw [numberAt_table someEntries someEntries] at isMapped
  have hasTable := (mapped_of_entry isMapped).1
  have hasDouble := (mapped_of_entry hasTable).1
  omega

/-- A directory that is given a double-indirect block. -/
theorem inodeRwContent_needed (someEntries : 0 < world.bpi)
    (mapped : DataMapped world device.volume iBlock count)
    (addresses :
      OneAddressEach (writtenFile world.bpi device.volume iBlock buf))
    (needs : NeedsIndex world iBlock count) :
    ∃ result after,
      Ends (inodeRwContent world buf iBlock count) device result after ∧
        ContentEnds world iBlock buf count device result after := by
  have isCount := needs.count_eq someEntries mapped
  obtain ⟨enough, missing⟩ := needs
  have many : 12 < count := by omega
  have notFew : count - min count 12 ≠ 0 := by omega
  have isPos : min (count - 12) world.bpi = world.bpi := by omega
  have noLeft : count - 12 - world.bpi = 0 := by omega
  have inside : world.bpi ≤ world.bpi ∧
      world.bpi - world.bpi < world.bpi * world.bpi := by
    refine ⟨Nat.le_refl _, ?_⟩
    rw [Nat.sub_self]
    exact Nat.mul_pos someEntries someEntries
  have isOrder : bodyOrder world.bpi count =
        dataOrder 0 (min count 12) ++
          (dataOrder 12 (min (count - 12) world.bpi) ++ [.single]) := by
    rw [(order_eq world.bpi count).2 many, noLeft, tableOrder_zero,
      List.append_nil]
  have isDouble : doubleOrder world.bpi count = [.double] := if_pos enough
  obtain ⟨middle, sent, hasDirect⟩ :=
    (@direct_performs world iBlock buf device count mapped).cases
  rcases hasDirect with ⟨finishedDirect, direct⟩ | ⟨stops, direct⟩
  · obtain ⟨last, sentSingle, hasSingle⟩ :=
      (single_performs someEntries mapped addresses many sent).cases
    have sentBody := sent.append finishedDirect sentSingle
    have isCall :
        middle.calls = device.calls + (dataOrder 0 (min count 12)).length :=
      sent.calls.trans (calls_of_finished finishedDirect)
    have sameFinished :
        (world.sends (bodyOrder world.bpi count) device.calls).finished =
          (world.sends (dataOrder 12 (min (count - 12) world.bpi) ++ [.single])
            middle.calls).finished := by
      rw [isOrder, isCall]
      exact (sending_append finishedDirect).1
    rw [← isOrder] at sentBody
    rw [← sameFinished] at hasSingle
    rcases hasSingle with ⟨finished, single⟩ | ⟨stops, single⟩
    · have sameAllocated : last.volume.allocated = device.volume.allocated :=
        sentBody.allocated
      cases found : world.blockAlloc device.volume.allocated with
      | error err =>
        rw [← sameAllocated] at found
        refine ⟨.error err, _, ends_bind direct ?_,
          .noBlock finished ⟨enough, missing⟩ (sameAllocated ▸ found) sentBody⟩
        rw [if_neg notFew]
        refine ends_bind single ?_
        rw [isPos, if_pos inside]
        exact ends_bind_error (ends_bind_error (loadIndex_fails missing found))
      | ok block =>
        have finds := found
        rw [← sameAllocated] at found
        obtain ⟨loop, after, double, noBlocks, isData, isCalls⟩ :=
          @sendDouble_needed world iBlock buf last
            (12 + world.bpi) block missing found
        refine ⟨.ok (loop.table, loop.ptr), after, ends_bind direct ?_,
          .whole finished (fun _ => ⟨block, finds⟩)
            (isData.trans sentBody.data) ?_⟩
        · rw [if_neg notFew]
          refine ends_bind single ?_
          rw [isPos, if_pos inside, noLeft]
          refine ends_bind double ?_
          rw [noBlocks]
          rfl
        · rw [isCalls, sentBody.calls, calls_of_finished finished, isDouble]
          rfl
    · refine ⟨_, last, ends_bind direct ?_, .stopped stops sentBody⟩
      rw [if_neg notFew]
      exact ends_bind_error single
  · have same : world.sends (bodyOrder world.bpi count) device.calls =
          world.sends (dataOrder 0 (min count 12)) device.calls := by
      exact sending_append_stopped stops
    refine ⟨_, middle, ends_bind_error direct, .stopped (same ▸ stops)
      ⟨sent.data, same ▸ sent.calls, sent.allocated, ?_⟩⟩
    rw [isOrder, sendBlocks_append_stopped stops]
    exact sent.blocks

theorem inodeRwContent_ends (someEntries : 0 < world.bpi)
    (mapped : DataMapped world device.volume iBlock count)
    (inRange : count ≤ 12 + world.bpi + world.bpi * world.bpi)
    (addresses :
      OneAddressEach (writtenFile world.bpi device.volume iBlock buf)) :
    ∃ result after,
      Ends (inodeRwContent world buf iBlock count) device result after ∧
        ContentEnds world iBlock buf count device result after := by
  by_cases needs : NeedsIndex world iBlock count
  · exact inodeRwContent_needed someEntries mapped addresses needs
  · have hasDouble : 12 + world.bpi ≤ count → 2 ≤ iBlock 13 :=
      fun enough => Nat.not_lt.mp fun needed => needs ⟨enough, needed⟩
    obtain ⟨returned, performs⟩ :=
      @inodeRwContent_performs world iBlock buf device count someEntries
        mapped inRange hasDouble addresses
    exact contentEnds_of_performs performs fun needed => absurd needed needs

end Whole

end Short

end Idylla.Ext2
