import Idylla.Lib.Run
import Idylla.Ramfs.DirectoryMap

namespace Idylla.Ramfs

open Idylla.Lib Idylla.Vfs

/-!
# Directories over whole runs

Removed entries keep their names, and new entries take their places.  Whatever
the order of the calls, a directory stays the map from names to numbers that
the calls describe, since an entry is always put in front of the removed ones.
-/

/-- A call of `ramfs_put_entry` or of `ramfs_unlink` on one directory. -/
inductive DirectoryCall where
  | put (name : List Char) (num : Nat)
  | unlink (name : List Char)
  deriving Repr, DecidableEq

/-- The name that the call is about. -/
def DirectoryCall.name : DirectoryCall → List Char
  | .put name _ => name
  | .unlink name => name

/-- The directory after a call; `-ENOENT` leaves it as it was. -/
def DirectoryCall.run (inode : RamfsInode) : DirectoryCall → RamfsInode
  | .put name num => inode.putEntry { name := name, inode := num }
  | .unlink name => (inode.unlink name).getD inode

/-- The name is that of an entry that is alive. -/
def RamfsInode.Present (inode : RamfsInode) (name : List Char) : Prop :=
  ∃ ino pos, inode.Has name ino pos

/--
The name fits an entry.  It is not there if an inode is put under it, whose
number is not 0, and it is there if it is unlinked.
-/
def DirectoryCall.Suits (inode : RamfsInode) (call : DirectoryCall) : Prop :=
  call.name.length ≤ NAME_MAX ∧ match call with
    | .put name num => num ≠ 0 ∧ ¬ inode.Present name
    | .unlink name => inode.Present name

/-- A call that suits the directory. -/
def DirectoryStep (inode : RamfsInode) (call : DirectoryCall)
    (after : RamfsInode) : Prop :=
  call.Suits inode ∧ after = call.run inode

/-- The last call on a name has put an inode under it. -/
def BoundBy (calls : List DirectoryCall) (name : List Char)
    (num : Nat) : Prop :=
  ∃ earlier later, calls = earlier ++ .put name num :: later ∧
    ∀ call ∈ later, call.name ≠ name

/-- What `ramfs_lookup` returns. -/
def RamfsInode.lookupNumber (inode : RamfsInode) (name : List Char) : Nat :=
  (inode.lookup name).getD 0

section Runs

variable {calls : List DirectoryCall} {call : DirectoryCall} {name : List Char}
  {num : Nat}

theorem boundBy_append_of_ne (differs : call.name ≠ name) :
    BoundBy (calls ++ [call]) name num ↔ BoundBy calls name num := by
  constructor
  · rintro ⟨earlier, later, isCalls, others⟩
    rcases List.eq_nil_or_concat later with rfl | ⟨front, last, rfl⟩
    · obtain ⟨-, isCall⟩ := List.append_inj' isCalls rfl
      cases isCall
      exact absurd rfl differs
    · rw [List.concat_eq_append, ← List.cons_append,
        ← List.append_assoc] at isCalls
      obtain ⟨isEarlier, -⟩ := List.append_inj' isCalls rfl
      exact ⟨earlier, front, isEarlier,
        fun other isMember => others other (by simp [isMember])⟩
  · rintro ⟨earlier, later, rfl, others⟩
    refine ⟨earlier, later ++ [call], by simp, fun other isMember => ?_⟩
    rcases List.mem_append.mp isMember with isLater | isLast
    · exact others other isLater
    · rw [List.mem_singleton.mp isLast]
      exact differs

theorem boundBy_append_self :
    BoundBy (calls ++ [call]) call.name num ↔ call = .put call.name num := by
  constructor
  · rintro ⟨earlier, later, isCalls, others⟩
    rcases List.eq_nil_or_concat later with rfl | ⟨front, last, rfl⟩
    · obtain ⟨-, isCall⟩ := List.append_inj' isCalls rfl
      exact List.head_eq_of_cons_eq isCall
    · rw [List.concat_eq_append, ← List.cons_append,
        ← List.append_assoc] at isCalls
      obtain ⟨-, isLast⟩ := List.append_inj' isCalls rfl
      have isCall := List.head_eq_of_cons_eq isLast
      exact absurd (congrArg DirectoryCall.name isCall.symm)
        (others last (by simp))
  · intro isPut
    exact ⟨calls, [], by rw [← isPut],
      fun _ isMember => absurd isMember List.not_mem_nil⟩

end Runs

/-- The directory is the map that the calls describe. -/
structure DirectorySound
    (calls : List DirectoryCall)
    (inode : RamfsInode) : Prop where
  distinct : inode.Distinct
  bound : ∀ name num, inode.lookup name = some num ↔ BoundBy calls name num

namespace DirectorySound

variable {calls : List DirectoryCall} {inode after : RamfsInode}
  {call : DirectoryCall}

theorem start (isEmpty : inode.size = 0) : DirectorySound [] inode where
  distinct := fun name ino pos has => by
    have inside := has.inside
    omega
  bound := fun name num => by
    refine iff_of_false (fun isFound => ?_) ?_
    · obtain ⟨pos, has⟩ := RamfsInode.has_of_lookup isFound
      have inside := has.inside
      omega
    · rintro ⟨earlier, later, isNil, -⟩
      simp at isNil

theorem present_iff (sound : DirectorySound calls inode) (name : List Char) :
    inode.Present name ↔ ∃ num, inode.lookup name = some num :=
  exists_congr fun _ => sound.distinct.lookup_eq_some.symm

theorem step (sound : DirectorySound calls inode)
    (step : DirectoryStep inode call after) :
    DirectorySound (calls ++ [call]) after := by
  obtain ⟨⟨-, suits⟩, rfl⟩ := step
  cases call with
  | put name num =>
    obtain ⟨alive, absent⟩ := suits
    have missing : inode.lookup name = none :=
      Option.eq_none_iff_forall_ne_some.mpr fun other isFound =>
        absent ((sound.present_iff name).mpr ⟨other, isFound⟩)
    refine ⟨sound.distinct.putEntry missing, fun asked other => ?_⟩
    unfold DirectoryCall.run
    rw [sound.distinct.lookup_putEntry alive missing]
    by_cases same : asked = name
    · subst same
      refine
        Iff.trans ?_ (@boundBy_append_self calls (.put asked num) other).symm
      simp [DirectoryCall.name]
    · rw [if_neg same, boundBy_append_of_ne fun isName => same isName.symm]
      exact sound.bound asked other
  | unlink name =>
    obtain ⟨num, isFound⟩ := (sound.present_iff name).mp suits
    obtain ⟨unlinked, isUnlinked, distinct, lookup⟩ :=
      sound.distinct.unlink isFound
    dsimp only [DirectoryCall.run]
    rw [isUnlinked, Option.getD_some]
    refine ⟨distinct, fun asked other => ?_⟩
    rw [lookup]
    by_cases same : asked = name
    · subst same
      refine
        Iff.trans ?_ (@boundBy_append_self calls (.unlink asked) other).symm
      simp
    · rw [if_neg same, boundBy_append_of_ne fun isName => same isName.symm]
      exact sound.bound asked other

end DirectorySound

/--
Over every run from a directory without entries `ramfs_lookup` returns the
number that was put last under the name and not unlinked since, and 0 for every
other name; and no name has two entries that are alive.
-/
theorem directoryRun_isMap
    {inode after : RamfsInode} {calls : List DirectoryCall}
    (isEmpty : inode.size = 0) (run : Run DirectoryStep inode calls after) :
    (∀ name num, BoundBy calls name num → after.lookupNumber name = num) ∧
      (∀ name, (∀ num, ¬ BoundBy calls name num) →
        after.lookupNumber name = 0) ∧
      ∀ name ino other pos also,
        after.Has name ino pos → after.Has name other also → pos = also := by
  have sound :=
    run.invariant DirectorySound (.start isEmpty) fun sound next =>
      sound.step next
  refine ⟨fun name num bound => ?_, fun name unbound => ?_, ?_⟩
  · unfold RamfsInode.lookupNumber
    rw [(sound.bound name num).mpr bound]
    rfl
  · have missing : after.lookup name = none :=
      Option.eq_none_iff_forall_ne_some.mpr fun num isFound =>
        unbound num ((sound.bound name num).mp isFound)
    unfold RamfsInode.lookupNumber
    rw [missing]
    rfl
  · intro name ino other pos also has hasOther
    exact (sound.distinct.unique has hasOther).1

/-- A name is put, unlinked and put again. -/
def putAgain : List DirectoryCall :=
  [.put ['a'] 5, .put ['b'] 6, .unlink ['a'], .put ['a'] 7]

/-- The new number is found. -/
theorem putAgain_isMap :
    ∃ after,
      Run DirectoryStep (.new 0o040755 0) putAgain after ∧
        after.lookupNumber ['a'] = 7 := by
  have present (inode : RamfsInode) (name : List Char)
      (isFound : inode.lookup name ≠ none) : inode.Present name := by
    obtain ⟨num, isNum⟩ := Option.ne_none_iff_exists'.mp isFound
    exact ⟨num, RamfsInode.has_of_lookup isNum⟩
  have absent (inode : RamfsInode) (name : List Char)
      (missing : inode.lookup name = none) : ¬ inode.Present name :=
    fun ⟨_, _, has⟩ => RamfsInode.lookup_of_has has missing
  have run : Run DirectoryStep (.new 0o040755 0) putAgain
        (putAgain.foldl DirectoryCall.run (.new 0o040755 0)) :=
    .cons ⟨⟨by decide, by decide, absent _ _ rfl⟩, rfl⟩
      (.cons ⟨⟨by decide, by decide, absent _ _ rfl⟩, rfl⟩
        (.cons ⟨⟨by decide, present _ _ (by decide)⟩, rfl⟩
          (.single ⟨⟨by decide, by decide, absent _ _ rfl⟩, rfl⟩)))
  exact ⟨_, run,
    (directoryRun_isMap rfl run).1 ['a'] 7
      ⟨[.put ['a'] 5, .put ['b'] 6, .unlink ['a']], [], rfl,
        fun _ isMember => absurd isMember List.not_mem_nil⟩⟩

end Idylla.Ramfs
