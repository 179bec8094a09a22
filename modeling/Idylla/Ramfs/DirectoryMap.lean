import Idylla.Ramfs.Inode

namespace Idylla.Ramfs

/-!
# Directories as maps

In a directory in which no entry has the name of one that is alive behind it, a
lookup, a new entry and a removal are those of a map from names to numbers.
The removal stops at the first entry of a name, whether it is alive or not.
-/

namespace RamfsInode

/-- No entry has the name of one behind it that is alive. -/
def Distinct (inode : RamfsInode) : Prop :=
  ∀ name ino pos, inode.Has name ino pos →
    ∀ before, before < pos → (inode.data before).name ≠ name

theorem putEntry_at (inode : RamfsInode) (entry : RamfsDentry) :
    ∃ slot, slot ≤ inode.size ∧
      (∀ before, before < slot → (inode.data before).inode ≠ 0) ∧
      (inode.putEntry entry).size = max inode.size (slot + 1) ∧
      ∀ pos,
        (inode.putEntry entry).data pos =
          if pos = slot then entry else inode.data pos := by
  unfold putEntry
  cases stops : inode.search fun dentry => dentry.inode == 0 with
  | some slot =>
    obtain ⟨-, inside, front⟩ := List.find?_range_eq_some.mp stops
    rw [List.mem_range] at inside
    refine ⟨slot, Nat.le_of_lt inside, fun before less => ?_,
      (Nat.max_eq_left inside).symm, data_setEntry slot entry⟩
    simpa using front before less
  | none =>
    refine ⟨inode.size, Nat.le_refl _, fun before less => ?_,
      (Nat.max_eq_right (Nat.le_succ _)).symm,
      data_setEntry inode.size entry⟩
    simpa using search_none stops less

namespace Distinct

variable {inode after : RamfsInode} {name : List Char} {ino : Nat}

theorem unique (distinct : inode.Distinct) {other pos also : Nat}
    (has : inode.Has name ino pos) (hasOther : inode.Has name other also) :
    pos = also ∧ ino = other := by
  have samePos : pos = also := by
    rcases Nat.lt_trichotomy pos also with before | same | behind
    · have differs := distinct name other also hasOther pos before
      rw [has.isEntry] at differs
      exact absurd rfl differs
    · exact same
    · have differs := distinct name ino pos has also behind
      rw [hasOther.isEntry] at differs
      exact absurd rfl differs
  subst samePos
  have sameEntry := has.isEntry.symm.trans hasOther.isEntry
  exact ⟨rfl, (RamfsDentry.mk.inj sameEntry).2⟩

theorem lookup_eq_some (distinct : inode.Distinct) :
    inode.lookup name = some ino ↔ ∃ pos, inode.Has name ino pos := by
  constructor
  · exact has_of_lookup
  · rintro ⟨pos, has⟩
    exact lookup_of_binds
      ⟨⟨pos, has⟩, fun other also hasOther => (distinct.unique hasOther has).2⟩

theorem lookup_congr
    (distinct : inode.Distinct) (distinctAfter : after.Distinct)
    {asked : List Char}
    (same :
      ∀ ino, (∃ pos, after.Has asked ino pos) ↔
        ∃ pos, inode.Has asked ino pos) :
    after.lookup asked = inode.lookup asked := by
  refine Option.ext fun ino => ?_
  rw [distinct.lookup_eq_some, distinctAfter.lookup_eq_some]
  exact same ino

theorem congr (distinct : inode.Distinct) (size : after.size = inode.size)
    (data : after.data = inode.data) : after.Distinct := by
  rintro name ino pos ⟨inside, isEntry, isAlive⟩
  rw [size] at inside
  rw [data] at isEntry ⊢
  exact distinct name ino pos ⟨inside, isEntry, isAlive⟩

theorem putEntry (distinct : inode.Distinct)
    (missing : inode.lookup name = none) :
    (inode.putEntry { name := name, inode := ino }).Distinct := by
  have absent (other pos : Nat) : ¬ inode.Has name other pos :=
    fun has => lookup_of_has has missing
  obtain ⟨slot, atMost, front, size, data⟩ :=
    putEntry_at inode { name := name, inode := ino }
  rintro other number pos ⟨inside, isEntry, isAlive⟩ before less
  rw [data] at isEntry ⊢
  by_cases isSlot : pos = slot
  · rw [if_pos isSlot] at isEntry
    cases isEntry
    rw [if_neg (by omega)]
    intro sameName
    refine absent (inode.data before).inode before
      ⟨by omega, ?_, front before (by omega)⟩
    rw [← sameName]
  · rw [if_neg isSlot] at isEntry
    have has : inode.Has other number pos := ⟨by omega, isEntry, isAlive⟩
    split
    · rintro rfl
      exact absent number pos has
    · exact distinct other number pos has before less

theorem lookup_putEntry (distinct : inode.Distinct) (alive : ino ≠ 0)
    (missing : inode.lookup name = none) (asked : List Char) :
    (inode.putEntry { name := name, inode := ino }).lookup asked =
      if asked = name then some ino else inode.lookup asked := by
  obtain ⟨slot, -, hasPut⟩ :=
    @has_putEntry inode { name := name, inode := ino } alive
  have distinctAfter := @putEntry inode name ino distinct missing
  split
  next same =>
    rw [distinctAfter.lookup_eq_some]
    exact ⟨slot, (hasPut asked ino slot).mpr (.inr ⟨rfl, by rw [same]⟩)⟩
  next differs =>
    refine distinct.lookup_congr distinctAfter fun number =>
      exists_congr fun pos => ?_
    rw [hasPut]
    refine ⟨fun has => has.resolve_right fun isNew => ?_, .inl⟩
    exact differs (RamfsDentry.mk.inj isNew.2).1.symm

theorem dotEntries {self up : Nat} (isEmpty : inode.size = 0)
    (selfAlive : self ≠ 0) (upAlive : up ≠ 0) :
    ((inode.putEntry { name := ['.'], inode := self }).putEntry
      { name := ['.', '.'], inode := up }).Distinct ∧
    ∀ asked other,
      ((inode.putEntry { name := ['.'], inode := self }).putEntry
        { name := ['.', '.'], inode := up }).lookup asked = some other →
      other = self ∨ other = up := by
  have nothing (asked : List Char) : inode.lookup asked = none := by
    unfold lookup search
    rw [isEmpty]
    rfl
  have distinct : inode.Distinct := by
    intro name ino pos has
    have inside := has.inside
    omega
  have distinctSelf := @Distinct.putEntry inode ['.'] self distinct (nothing _)
  have lookupSelf :=
    @Distinct.lookup_putEntry inode ['.'] self distinct selfAlive (nothing _)
  have missing :
      (inode.putEntry { name := ['.'], inode := self }).lookup ['.', '.'] =
        none := by
    rw [lookupSelf, if_neg (by decide)]
    exact nothing _
  refine ⟨distinctSelf.putEntry missing, fun asked other isFound => ?_⟩
  rw [distinctSelf.lookup_putEntry upAlive missing, lookupSelf,
    nothing] at isFound
  split at isFound
  · cases isFound
    exact .inr rfl
  · split at isFound
    · cases isFound
      exact .inl rfl
    · cases isFound

/-- A removal finds what a lookup finds, and keeps the directory as a map. -/
theorem unlink (distinct : inode.Distinct)
    (isFound : inode.lookup name = some ino) :
    ∃ after, inode.unlink name = some after ∧ after.Distinct ∧
      ∀ asked,
        after.lookup asked =
          if asked = name then none else inode.lookup asked := by
  obtain ⟨pos, has⟩ := has_of_lookup isFound
  have stops : (inode.search fun dentry => dentry.name == name) = some pos := by
    refine List.find?_range_eq_some.mpr
      ⟨?_, List.mem_range.mpr has.inside, fun before less => ?_⟩
    · rw [has.isEntry]
      exact beq_self_eq_true name
    · simpa using distinct name ino pos has before less
  generalize isAfter :
    inode.setEntry pos { name := (inode.data pos).name, inode := 0 } = after
  have data (index : Nat) :
      after.data index = if index = pos then { name := name, inode := 0 }
        else inode.data index := by
    rw [← isAfter, data_setEntry, has.isEntry]
  have size : after.size = inode.size := by
    rw [← isAfter]
    rfl
  have hasAfter (other : List Char) (number index : Nat) :
      after.Has other number index ↔
        inode.Has other number index ∧ index ≠ pos := by
    constructor
    · rintro ⟨inside, isEntry, isAlive⟩
      rw [data] at isEntry
      split at isEntry
      · cases isEntry
        exact absurd rfl isAlive
      next differs =>
        rw [size] at inside
        exact ⟨⟨inside, isEntry, isAlive⟩, differs⟩
    · rintro ⟨hasOther, differs⟩
      refine ⟨?_, ?_, hasOther.alive⟩
      · rw [size]
        exact hasOther.inside
      · rw [data, if_neg differs]
        exact hasOther.isEntry
  have distinctAfter : after.Distinct := by
    intro other number index hasOther before less
    have hasBefore := ((hasAfter other number index).mp hasOther).1
    have differs := distinct other number index hasBefore before less
    rw [data]
    split
    next same =>
      rw [same, has.isEntry] at differs
      exact differs
    · exact differs
  refine ⟨after, ?_, distinctAfter, fun asked => ?_⟩
  · unfold RamfsInode.unlink
    rw [stops, Option.map_some, isAfter]
  · split
    next same =>
      refine Option.eq_none_iff_forall_ne_some.mpr fun number isStill => ?_
      obtain ⟨index, hasStill⟩ := has_of_lookup isStill
      obtain ⟨hasBefore, differs⟩ := (hasAfter _ _ _).mp hasStill
      rw [same] at hasBefore
      exact differs (distinct.unique hasBefore has).1
    next differs =>
      refine distinct.lookup_congr distinctAfter fun number =>
        exists_congr fun index => ?_
      rw [hasAfter]
      refine ⟨And.left, fun hasOther => ⟨hasOther, ?_⟩⟩
      rintro rfl
      have sameEntry := hasOther.isEntry.symm.trans has.isEntry
      exact differs (RamfsDentry.mk.inj sameEntry).1

end Distinct

end RamfsInode

end Idylla.Ramfs
