import Mathlib.Algebra.GroupWithZero.Nat
import Idylla.Lib.Tiling
import Idylla.Vfs.ReadOnly

namespace Idylla.Vfs

open Idylla.Lib

/-!
# One file and many callers

The calls `sys_read` and `sys_write` of any number of threads that share the
`struct file` of a regular file.  The operation of the vnode at `file->pos` is
one step, the new position under `file->mutex` another, and the seek of a write
in append mode a third.
-/

/-- The operations of the vnode. -/
inductive RwOperation where
  | read
  | write
  deriving DecidableEq

/-- The `struct file` with its vnode's size and the flags of its mount. -/
structure SharedFile where
  mode : Nat
  readOnly : Bool
  pos : Nat
  size : Nat

/-- Where a call is. -/
inductive RwPhase where
  | seeking (len : Nat)
  | transferring (operation : RwOperation) (len : Nat)
  | updating (length : Nat)
  deriving DecidableEq

/-- The bytes that a call has transferred. -/
structure Transfer where
  operation : RwOperation
  offset : Nat
  length : Nat

/-- A byte of the file is one of those transferred. -/
def Transfer.Covers (transfer : Transfer) (byte : Nat) : Prop :=
  transfer.offset ≤ byte ∧ byte < transfer.offset + transfer.length

instance (transfer : Transfer) (byte : Nat) :
    Decidable (transfer.Covers byte) :=
  inferInstanceAs (Decidable (_ ∧ _))

/-- The file, the calls by thread and what has been transferred. -/
structure RwSystem where
  file : SharedFile
  calls : Nat → Option RwPhase
  transfers : List Transfer

/--
A call begins, or goes on with one of its steps; the operation of the vnode
returns an error or the number of bytes that it has transferred.
-/
inductive RwLabel where
  | sysRead (thread len : Nat)
  | sysWrite (thread len : Nat)
  | seek (thread : Nat)
  | transfer (thread : Nat) (result : Option Nat)
  | update (thread : Nat)

/-- How many bytes the operation of a vnode may transfer. -/
def SharedFile.Transfers (file : SharedFile) (operation : RwOperation)
    (len length : Nat) : Prop :=
  length ≤ len ∧ match operation with
    | .read => length = 0 ∨ file.pos + length ≤ file.size
    | .write => file.readOnly = false

namespace RwSystem

/-- No thread has called. -/
def opened (file : SharedFile) : RwSystem where
  file := file
  calls := fun _ => none
  transfers := []

/-- A thread's call replaced. -/
def setCall (system : RwSystem) (thread : Nat)
    (call : Option RwPhase) : RwSystem :=
  { system with
    calls := fun other =>
      if other = thread then call else system.calls other }

/-- The bytes that a call has transferred at `file->pos`. -/
def transfer (system : RwSystem) (operation : RwOperation)
    (length : Nat) : RwSystem :=
  { system with
    file :=
      { system.file with
        size := match operation with
          | .read => system.file.size
          | .write => max system.file.size (system.file.pos + length) }
    transfers :=
      system.transfers ++
        [{ operation := operation
           offset := system.file.pos
           length := length }] }

/-- `file->pos` replaced. -/
def setPos (system : RwSystem) (pos : Nat) : RwSystem :=
  { system with file := { system.file with pos := pos } }

/-- The sum of the lengths that have been transferred. -/
def transferred (system : RwSystem) : Nat :=
  (system.transfers.map Transfer.length).sum

end RwSystem

/-- One step as a transition. -/
inductive RwStep : RwSystem → RwLabel → RwSystem → Prop where
  | sysRead {system : RwSystem} {thread len : Nat}
      (idle : system.calls thread = none) :
      RwStep system (.sysRead thread len)
        (if (system.file.mode + 1) &&& _FREAD ≠ _FREAD then
          system
        else
          system.setCall thread (some (.transferring .read len)))
  | sysWrite {system : RwSystem} {thread len : Nat}
      (idle : system.calls thread = none) :
      RwStep system (.sysWrite thread len)
        (if (system.file.mode + 1) &&& _FWRITE ≠ _FWRITE then
          system
        else if system.file.mode &&& _FAPPEND ≠ 0 then
          system.setCall thread (some (.seeking len))
        else
          system.setCall thread (some (.transferring .write len)))
  | seek {system : RwSystem} {thread len : Nat}
      (isCall : system.calls thread = some (.seeking len)) :
      RwStep system (.seek thread)
        ((system.setPos system.file.size).setCall thread
          (some (.transferring .write len)))
  | fail {system : RwSystem} {thread len : Nat} {operation : RwOperation}
      (isCall : system.calls thread = some (.transferring operation len)) :
      RwStep system (.transfer thread none) (system.setCall thread none)
  | transfer
      {system : RwSystem} {thread len length : Nat} {operation : RwOperation}
      (isCall : system.calls thread = some (.transferring operation len))
      (transfers : system.file.Transfers operation len length) :
      RwStep system (.transfer thread (some length))
        (if length = 0 then
          system.setCall thread none
        else
          (system.transfer operation length).setCall thread
            (some (.updating length)))
  | update {system : RwSystem} {thread length : Nat}
      (isCall : system.calls thread = some (.updating length)) :
      RwStep system (.update thread)
        ((system.setPos (system.file.pos + length)).setCall thread none)

/--
The ranges are disjoint and together one interval, so that no write overwrites
another's bytes either, and the position at rest is behind all of them.
-/
structure RwSystem.Unmixed (initial : Nat) (system : RwSystem) : Prop where
  interval : ∃ first last,
      Tiles Transfer.Covers (fun byte => first ≤ byte ∧ byte < last)
        system.transfers
  atRest : (∀ thread, system.calls thread = none) →
      system.file.pos = initial + system.transferred

/-- No thread is between its transfer and the update of the position. -/
def RwSystem.UpToDate (system : RwSystem) : Prop :=
  ∀ thread length, system.calls thread ≠ some (.updating length)

/--
Bytes are transferred while no other call has still to update the position, and
the seek of a write in append mode does not move it.
-/
def TakesTurns (system : RwSystem) : RwLabel → Prop
  | .transfer _ (some length) => 0 < length → system.UpToDate
  | .seek _ => system.file.pos = system.file.size
  | _ => True

/-- What the steps keep. -/
structure RwSound (initial : Nat) (system : RwSystem) : Prop where
  tiles : Tiles Transfer.Covers
      (fun byte => initial ≤ byte ∧ byte < initial + system.transferred)
      system.transfers
  position :
    (system.UpToDate ∧ system.file.pos = initial + system.transferred) ∨
      ∃ thread length, system.calls thread = some (.updating length) ∧
        (0 < length ∧ initial ≤ system.file.pos ∧
          system.file.pos + length = initial + system.transferred) ∧
        ∀ other another,
          system.calls other = some (.updating another) → other = thread

namespace RwSound

variable {initial : Nat} {system : RwSystem} {thread length : Nat}

theorem opened (file : SharedFile) : RwSound file.pos (.opened file) where
  tiles := by
    refine ⟨List.Pairwise.nil, fun byte => ?_⟩
    unfold RwSystem.opened RwSystem.transferred
    simp
  position := by
    refine .inl ⟨fun thread length isCall => ?_, rfl⟩
    cases isCall

theorem setCall (sound : RwSound initial system)
    (nothing : ∀ length, system.calls thread ≠ some (.updating length))
    {call : Option RwPhase} (still : ∀ length, call ≠ some (.updating length)) :
    RwSound initial (system.setCall thread call) := by
  refine ⟨sound.tiles, ?_⟩
  have same (other length : Nat)
      (isCall :
        (system.setCall thread call).calls other = some (.updating length)) :
      system.calls other = some (.updating length) := by
    unfold RwSystem.setCall at isCall
    dsimp only at isCall
    split at isCall
    · exact absurd isCall (still length)
    · exact isCall
  rcases sound.position with ⟨upToDate, atEnd⟩ | ⟨other, length, isOther,
    behind, only⟩
  · exact .inl ⟨fun other length isCall =>
      upToDate other length (same other length isCall), atEnd⟩
  · refine .inr ⟨other, length, ?_, behind, fun another length isCall =>
      only another length (same another length isCall)⟩
    unfold RwSystem.setCall
    dsimp only
    rw [if_neg]
    · exact isOther
    · rintro rfl
      exact nothing length isOther

theorem transferred_transfer (operation : RwOperation) :
    (system.transfer operation length).transferred =
      system.transferred + length := by
  unfold RwSystem.transfer RwSystem.transferred
  simp

theorem transfer (sound : RwSound initial system) (upToDate : system.UpToDate)
    (positive : 0 < length) (operation : RwOperation) :
    RwSound initial
      ((system.transfer operation length).setCall thread
        (some (.updating length))) := by
  have atEnd : system.file.pos = initial + system.transferred := by
    rcases sound.position with ⟨-, atEnd⟩ | ⟨other, length, isOther, -⟩
    · exact atEnd
    · exact absurd isOther (upToDate other length)
  have sum := @transferred_transfer system length operation
  constructor
  · refine sound.tiles.append (fun byte covers inside => ?_) fun byte => ?_
    · have start := covers.1
      dsimp only at start
      omega
    · have sumAfter :
          ((system.transfer operation length).setCall thread
            (some (.updating length))).transferred =
            system.transferred + length := sum
      unfold Transfer.Covers
      dsimp only
      omega
  · refine .inr ⟨thread, length, if_pos rfl, ⟨positive, ?_, ?_⟩,
      fun other another isCall => ?_⟩
    · exact Nat.le.intro atEnd.symm
    · refine Eq.trans ?_ (congrArg (initial + ·) sum.symm)
      show system.file.pos + length = initial + (system.transferred + length)
      omega
    · refine Classical.byContradiction fun different => ?_
      unfold RwSystem.setCall at isCall
      dsimp only at isCall
      rw [if_neg different] at isCall
      exact upToDate other another isCall

theorem update (sound : RwSound initial system)
    (isCall : system.calls thread = some (.updating length)) :
    RwSound initial
      ((system.setPos (system.file.pos + length)).setCall thread none) := by
  refine ⟨sound.tiles, .inl ?_⟩
  rcases sound.position with ⟨upToDate, -⟩ | ⟨other, behind, isOther, atEnd,
    only⟩
  · exact absurd isCall (upToDate thread length)
  · obtain rfl := only thread length isCall
    rw [isCall, Option.some.injEq, RwPhase.updating.injEq] at isOther
    subst isOther
    refine ⟨fun other another isUpdating => ?_, atEnd.2.2⟩
    unfold RwSystem.setCall at isUpdating
    dsimp only at isUpdating
    split at isUpdating
    · cases isUpdating
    next different => exact different (only other another isUpdating)

theorem step (sound : RwSound initial system)
    {label : RwLabel} {after : RwSystem} (turn : TakesTurns system label)
    (stepped : RwStep system label after) : RwSound initial after := by
  cases stepped with
  | sysRead idle =>
    split
    · exact sound
    · exact sound.setCall (fun length => by simp [idle]) (by simp)
  | sysWrite idle =>
    split
    · exact sound
    · split
      · exact sound.setCall (fun length => by simp [idle]) (by simp)
      · exact sound.setCall (fun length => by simp [idle]) (by simp)
  | seek isCall =>
    have stays : system.setPos system.file.size = system := by
      have same : system.file.pos = system.file.size := turn
      unfold RwSystem.setPos
      rw [← same]
    rw [stays]
    exact sound.setCall (fun length => by simp [isCall]) (by simp)
  | fail isCall =>
    exact sound.setCall (fun length => by simp [isCall]) (by simp)
  | @transfer _ len length operation isCall transfers =>
    split
    · exact sound.setCall (fun length => by simp [isCall]) (by simp)
    next some =>
      have positive := Nat.pos_of_ne_zero some
      exact sound.transfer (turn positive) positive operation
  | update isCall =>
    exact sound.update isCall

theorem unmixed (sound : RwSound initial system) : system.Unmixed initial := by
  refine ⟨⟨initial, initial + system.transferred, sound.tiles⟩,
    fun atRest => ?_⟩
  rcases sound.position with ⟨-, atEnd⟩ | ⟨other, length, isOther, -⟩
  · exact atEnd
  · rw [atRest] at isOther
    cases isOther

theorem upToDate_of_unmixed (sound : RwSound initial system)
    {operation : RwOperation} (positive : 0 < length) {call : Option RwPhase}
    (unmixed :
      ((system.transfer operation length).setCall thread call).Unmixed
        initial) : system.UpToDate := by
  rcases sound.position with ⟨upToDate, -⟩ | ⟨other, pending, -,
    ⟨some, start, behind⟩, -⟩
  · exact upToDate
  · obtain ⟨earlier, isEarlier, covers⟩ :=
      (sound.tiles.exact system.file.pos).mpr ⟨start, by omega⟩
    obtain ⟨⟨first, last, tiles⟩, -⟩ := unmixed
    obtain ⟨-, -, across⟩ := List.pairwise_append.mp tiles.disjoint
    refine absurd ⟨covers, Nat.le_refl _, ?_⟩
      (across earlier isEarlier _ (List.mem_singleton.mpr rfl) system.file.pos)
    exact Nat.lt_add_of_pos_right positive

end RwSound

/--
In every interleaving in which no call transfers bytes before another one has
updated the position, and no seek moves it, the ranges are not mixed; bytes
that are transferred before such an update are mixed with others.
-/
theorem sharedFile_unmixed
    {file : SharedFile} {labels : List RwLabel} {system : RwSystem}
    (ran : Run (Guarded TakesTurns RwStep) (.opened file) labels system) :
    system.Unmixed file.pos ∧
      ∀ thread length after, 0 < length →
        RwStep system (.transfer thread (some length)) after →
        (after.Unmixed file.pos ↔ system.UpToDate) := by
  have sound :=
    ran.invariant (fun _ system => RwSound file.pos system) (.opened file)
      fun sound stepped => sound.step stepped.1 stepped.2
  refine ⟨sound.unmixed, fun thread length after positive stepped => ?_⟩
  constructor
  · intro unmixed
    cases stepped with
    | transfer isCall transfers =>
      rw [if_neg (Nat.ne_of_gt positive)] at unmixed
      exact sound.upToDate_of_unmixed positive unmixed
  · intro upToDate
    have turn : TakesTurns system (.transfer thread (some length)) :=
      fun _ => upToDate
    exact (sound.step turn stepped).unmixed

/-- Ten bytes, opened for reading. -/
def tenBytes : SharedFile where
  mode := 0
  readOnly := false
  pos := 0
  size := 10

/-- A thread's call to `sys_read` has begun. -/
def RwSystem.reading (system : RwSystem) (thread len : Nat) : RwSystem :=
  system.setCall thread (some (.transferring .read len))

/-- A thread has transferred bytes and has to update the position. -/
def RwSystem.hasRead (system : RwSystem) (thread length : Nat) : RwSystem :=
  (system.transfer .read length).setCall thread (some (.updating length))

/-- A thread reads behind the one that has updated the position. -/
theorem secondRead_unmixed :
    ∃ system : RwSystem,
      system.transfers.map
          (fun transfer => (transfer.offset, transfer.length)) =
            [(0, 4), (4, 4)] ∧
        system.Unmixed 0 := by
  have called (system : RwSystem) (thread : Nat)
      (idle : system.calls thread = none)
      (mode : system.file.mode = 0) :
      Guarded TakesTurns RwStep system (.sysRead thread 4)
        (system.reading thread 4) := by
    have stepped := @RwStep.sysRead system thread 4 idle
    rw [mode] at stepped
    exact ⟨trivial, stepped⟩
  have transferred (system : RwSystem) (thread : Nat)
      (upToDate : system.UpToDate)
      (isCall : system.calls thread = some (.transferring .read 4))
      (enough : system.file.pos + 4 ≤ system.file.size) :
      Guarded TakesTurns RwStep system (.transfer thread (some 4))
        (system.hasRead thread 4) :=
    ⟨fun _ => upToDate, .transfer isCall ⟨Nat.le_refl 4, .inr enough⟩⟩
  have updated (system : RwSystem) (thread : Nat)
      (isCall : system.calls thread = some (.updating 4)) :
      Guarded TakesTurns RwStep system (.update thread)
        ((system.setPos (system.file.pos + 4)).setCall thread none) :=
    ⟨trivial, .update isCall⟩
  have ran :=
    (((((Run.single (called (.opened tenBytes) 0 rfl rfl)).append
      (.single (transferred _ 0 ?_ rfl (by decide)))).append
      (.single (updated _ 0 rfl))).append
      (.single (called _ 1 rfl rfl))).append
      (.single (transferred _ 1 ?_ rfl (by decide))))
  · exact ⟨_, rfl, (sharedFile_unmixed ran).1⟩
  · intro other length isCall
    unfold RwSystem.reading RwSystem.setCall RwSystem.opened at isCall
    dsimp only at isCall
    split at isCall <;> cases isCall
  · intro other length isCall
    unfold RwSystem.reading RwSystem.hasRead RwSystem.setCall RwSystem.setPos
      RwSystem.transfer RwSystem.opened at isCall
    dsimp only at isCall
    split at isCall
    · cases isCall
    · split at isCall <;> cases isCall

/-- Two threads read the same bytes. -/
theorem sameBytes_mixed :
    ¬ ∀ (file : SharedFile) (labels : List RwLabel) (system : RwSystem),
        Run RwStep (.opened file) labels system → system.Unmixed file.pos := by
  intro unmixed
  have called (system : RwSystem) (thread : Nat)
      (idle : system.calls thread = none)
      (mode : system.file.mode = 0) :
      RwStep system (.sysRead thread 4) (system.reading thread 4) := by
    have stepped := @RwStep.sysRead system thread 4 idle
    rw [mode] at stepped
    exact stepped
  have transferred (system : RwSystem) (thread : Nat)
      (isCall : system.calls thread = some (.transferring .read 4))
      (enough : system.file.pos + 4 ≤ system.file.size) :
      RwStep system (.transfer thread (some 4)) (system.hasRead thread 4) :=
    .transfer isCall ⟨Nat.le_refl 4, .inr enough⟩
  have ran :=
    (((Run.single (called (.opened tenBytes) 0 rfl rfl)).append
      (.single (called _ 1 rfl rfl))).append
      (.single (transferred _ 0 rfl (by decide)))).append
      (.single (transferred _ 1 rfl (by decide)))
  obtain ⟨⟨first, last, tiles⟩, -⟩ := unmixed _ _ _ ran
  have disjoint := tiles.disjoint
  exact List.rel_of_pairwise_cons disjoint List.mem_cons_self 0
    ⟨by decide, by decide⟩

end Idylla.Vfs
