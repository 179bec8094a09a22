import Mathlib.Data.List.Nodup
import Idylla.Vfs.VnodeSections

namespace Idylla.Vfs

open Idylla.Lib

/-!
# One cached vnode for an inode

Whether the list of a mountpoint holds an inode twice depends on the sections
that put a vnode into it: between the lookup that misses an inode and the
section of `vnode_new`, and between the two sections of `vnode_free`, another
process may have cached the inode.
-/

namespace VnodeSystem

variable (system : VnodeSystem)

/-- The inode number of a vnode. -/
def inode (vnode : Nat) : Option Nat :=
  (system.vnodes.cells vnode).map fun cell => cell.vnode.ino

/-- The inode numbers of the cached vnodes. -/
def cachedInodes : List (Option Nat) :=
  system.vnodeList.map system.inode

/-- The list holds at most one vnode for an inode number. -/
def CachedOnce : Prop :=
  system.cachedInodes.Nodup

end VnodeSystem

/-- A section adds a vnode only while its inode is not cached. -/
def AddsUncached (system : VnodeSystem) (label : VnodeLabel) : Prop :=
  label.action.Adds →
    ∀ vnode, (system.phases label.process).adds = some vnode →
      system.inode vnode ∉ system.cachedInodes

/-- A step that keeps, or restores, one vnode for an inode. -/
def StepToCachedOnce
    (use : MountUse) (system : VnodeSystem) (label : VnodeLabel)
    (after : VnodeSystem) : Prop :=
  VnodeStep use system label after ∧ after.CachedOnce

/-- A step after which the inode is cached. -/
def StepToCached
    (use : MountUse) (ino : Nat) (system : VnodeSystem) (label : VnodeLabel)
    (after : VnodeSystem) : Prop :=
  VnodeStep use system label after ∧ some ino ∈ after.cachedInodes

/-- With the step the walk of its process has obtained a vnode. -/
def Obtains (label : VnodeLabel) (vnode : Nat) (after : VnodeSystem) : Prop :=
  (label.action = .search ∨ label.action = .insert) ∧
    ∃ call directory, after.phases label.process = .found call directory vnode

section Steps

variable {use : MountUse} {system after : VnodeSystem} {label : VnodeLabel}
  {process vnode ino : Nat}

/-- A vnode keeps its inode number until it is freed. -/
theorem VnodeStep.inode
    (step : VnodeStep use system label after) (isLive : system.Live vnode)
    (staysLive : after.Live vnode) :
    after.inode vnode = system.inode vnode := by
  by_cases isQuiet : label.action.Quiet
  · obtain ⟨change, quiet⟩ := step.quiet isQuiet
    obtain ⟨edit, edited, same⟩ := quiet.cells vnode
    unfold VnodeSystem.inode
    rw [edited, Option.map_map]
    congr 1
    funext cell
    exact congrArg Vnode.ino (same cell).2.2
  · obtain ⟨before, isBefore⟩ := isLive
    obtain ⟨cell, isCell⟩ := staysLive
    have same (unchanged : cell.vnode = before.vnode) :
        after.inode vnode = system.inode vnode := by
      unfold VnodeSystem.inode
      rw [isCell, isBefore]
      exact congrArg (fun vnode : Vnode => some vnode.ino) unchanged
    have unchanged (isOld : system.vnodes.cells vnode = some cell) :
        after.inode vnode = system.inode vnode := by
      rw [isBefore] at isOld
      exact same (congrArg _ (Option.some.inj isOld).symm)
    cases step with
    | openNew nlink isProcess isPhase defined =>
      exact unchanged <|
        isBefore.trans ((Heap.cells_alloc_of_some isBefore).symm.trans isCell)
    | insert isProcess isPhase defined => exact unchanged isCell
    | take isProcess isPhase defined isVnode unlocked unused =>
      obtain ⟨old, isOld, -, sameVnode, -⟩ := cells_of_setLocked isCell
      have sameCell : old = before :=
        Option.some.inj (isOld.symm.trans isBefore)
      exact same (sameVnode.trans (congrArg _ sameCell))
    | reinsert isProcess isPhase defined =>
      obtain ⟨old, isOld, -, sameVnode, -⟩ := cells_of_setLocked isCell
      have sameCell : old = before :=
        Option.some.inj (isOld.symm.trans isBefore)
      exact same (sameVnode.trans (congrArg _ sameCell))
    | @destroy process freed rest isProcess isPhase defined =>
      have differs : vnode ≠ freed := by
        rintro rfl
        cases Heap.cells_free_same.symm.trans isCell
      exact unchanged ((Heap.cells_free_of_ne differs).symm.trans isCell)
    | _ => exact absurd trivial isQuiet

theorem VnodeStep.inode_of_listed
    (step : VnodeStep use system label after) (sound : VnodeSound use system)
    (inList : vnode ∈ system.vnodeList)
    (staysInList : vnode ∈ after.vnodeList) :
    after.inode vnode = system.inode vnode := by
  obtain ⟨before, isBefore, -⟩ := sound.listed vnode inList
  obtain ⟨cell, isCell, -⟩ := (sound.step step).listed vnode staysInList
  exact step.inode ⟨before, isBefore⟩ ⟨cell, isCell⟩

/--
After a step the list holds an inode twice exactly when the step has added a
vnode of a cached inode.
-/
theorem VnodeStep.cachedOnce_iff
    (step : VnodeStep use system label after) (sound : VnodeSound use system)
    (once : system.CachedOnce) :
    after.CachedOnce ↔ AddsUncached system label := by
  have keeps : ∀ other ∈ system.vnodeList, other ∈ after.vnodeList →
      after.inode other = system.inode other :=
    fun other => step.inode_of_listed sound
  unfold VnodeSystem.CachedOnce VnodeSystem.cachedInodes
  cases step.list with
  | same notAdds list =>
    have kept : system.vnodeList.map after.inode = system.cachedInodes :=
      List.map_congr_left fun other inList => keeps other inList (list ▸ inList)
    rw [list, kept]
    exact ⟨fun _ isAdd => absurd isAdd notAdds, fun _ => once⟩
  | add vnode isAdd adds isLive list =>
    have kept : (vnode :: system.vnodeList).map after.inode =
        system.inode vnode :: system.cachedInodes := by
      have isListed : vnode ∈ after.vnodeList := list ▸ List.mem_cons_self
      obtain ⟨cell, isCell, -⟩ := (sound.step step).listed vnode isListed
      refine congrArg₂ List.cons (step.inode isLive ⟨cell, isCell⟩)
        (List.map_congr_left fun other inList => keeps other inList ?_)
      rw [list]
      exact List.mem_cons_of_mem _ inList
    rw [list, kept, List.nodup_cons]
    constructor
    · rintro ⟨notCached, -⟩ - other isAdded
      rw [adds] at isAdded
      rw [← Option.some.inj isAdded]
      exact notCached
    · intro uncached
      exact ⟨uncached isAdd vnode adds, once⟩
  | remove vnode isTake isPhase list =>
    have kept : after.vnodeList.map after.inode =
        after.vnodeList.map system.inode := by
      refine List.map_congr_left fun other inList => keeps other ?_ inList
      rw [list] at inList
      exact (List.mem_filter.mp inList).1
    rw [kept, list]
    refine ⟨fun _ isAdd => ?_,
      fun _ => (List.filter_sublist.map system.inode).nodup once⟩
    rw [isTake] at isAdd
    cases isAdd

theorem Obtains.listed (obtains : Obtains label vnode after)
    (step : VnodeStep use system label after) : vnode ∈ after.vnodeList := by
  obtain ⟨isAction, call, directory, isPhase⟩ := obtains
  cases step with
  | miss =>
    rw [phases_setPhase_same] at isPhase
    cases isPhase
  | hit isProcess wasPhase defined searched =>
    rw [phases_setPhase_same] at isPhase
    cases isPhase
    exact (cachedVnode_isCached searched).1
  | insert isProcess wasPhase defined =>
    rw [phases_setPhase_same] at isPhase
    cases isPhase
    exact List.mem_cons_self
  | _ => simp at isAction

theorem VnodeStep.keeps_cached
    (step : VnodeStep use system label after) (sound : VnodeSound use system)
    (once : system.CachedOnce) (inList : vnode ∈ system.vnodeList)
    (isInode : system.inode vnode = some ino)
    (isCached : some ino ∈ after.cachedInodes) :
    vnode ∈ after.vnodeList ∧ after.inode vnode = some ino := by
  have stays : vnode ∈ after.vnodeList := by
    cases step.list with
    | same notAdds list => exact list ▸ inList
    | add added isAdd adds isLive list =>
      rw [list]
      exact List.mem_cons_of_mem _ inList
    | remove removed isTake isPhase list =>
      -- The list still holds a vnode of the inode, and it held one only.
      obtain ⟨other, otherInList, isOther⟩ := List.mem_map.mp isCached
      have wasInList : other ∈ system.vnodeList := by
        rw [list] at otherInList
        exact (List.mem_filter.mp otherInList).1
      have wasInode : system.inode other = system.inode vnode := by
        rw [isInode, ← isOther]
        exact (step.inode_of_listed sound wasInList otherInList).symm
      rw [← List.inj_on_of_nodup_map once wasInList inList wasInode]
      exact otherInList
  exact ⟨stays, (step.inode_of_listed sound inList stays).trans isInode⟩

theorem VnodeStep.keeps_once
    (step : Guarded AddsUncached (VnodeStep use) system label after)
    (kept : VnodeSound use system ∧ system.CachedOnce) :
    VnodeSound use after ∧ after.CachedOnce :=
  ⟨kept.1.step step.2, (step.2.cachedOnce_iff kept.1 kept.2).mpr step.1⟩

theorem kept_while_cached {labels : List VnodeLabel} {last : VnodeSystem}
    (run : Run (Guarded AddsUncached (StepToCached use ino)) system labels last)
    (kept : VnodeSound use system ∧ system.CachedOnce)
    (inList : vnode ∈ system.vnodeList)
    (isInode : system.inode vnode = some ino) :
    (VnodeSound use last ∧ last.CachedOnce) ∧
      vnode ∈ last.vnodeList ∧ last.inode vnode = some ino := by
  refine run.invariant
    (fun _ system => (VnodeSound use system ∧ system.CachedOnce) ∧
      vnode ∈ system.vnodeList ∧ system.inode vnode = some ino)
    ⟨kept, inList, isInode⟩ ?_
  rintro past source label target ⟨kept, inList, isInode⟩ ⟨adds, step, isCached⟩
  exact ⟨VnodeStep.keeps_once ⟨adds, step⟩ kept,
    step.keeps_cached kept.1 kept.2 inList isInode isCached⟩

end Steps

/--
The list of a mountpoint holds every inode at most once in all states of a run
exactly when every section of the run adds a vnode only while its inode is not
cached.  In such a run two walks that reach one inode get the same vnode while
the inode stays cached.
-/
theorem vnodeList_once_iff {use : MountUse} {first : VnodeSystem}
    (quiescent : Quiescent use first) (once : first.CachedOnce) :
    (∀ labels last,
      Run (Guarded AddsUncached (VnodeStep use)) first labels last ↔
        Run (StepToCachedOnce use) first labels last) ∧
      ∀ {past between : List VnodeLabel}
        {before obtained middle last : VnodeSystem}
        {earlier later : VnodeLabel} {vnode other ino : Nat},
        Run (Guarded AddsUncached (VnodeStep use)) first past before →
        Guarded AddsUncached (VnodeStep use) before earlier obtained →
        Obtains earlier vnode obtained →
        obtained.inode vnode = some ino →
        Run (Guarded AddsUncached (StepToCached use ino)) obtained between
          middle →
        Guarded AddsUncached (VnodeStep use) middle later last →
        Obtains later other last →
        last.inode other = some ino →
        other = vnode := by
  constructor
  · intro labels last
    refine Run.iff_of_invariant
      (fun system => VnodeSound use system ∧ system.CachedOnce)
      ⟨quiescent.sound, once⟩
      (fun kept step => VnodeStep.keeps_once step kept) fun kept => ?_
    constructor
    · rintro ⟨adds, step⟩
      exact ⟨step, (step.cachedOnce_iff kept.1 kept.2).mpr adds⟩
    · rintro ⟨step, isOnce⟩
      exact ⟨(step.cachedOnce_iff kept.1 kept.2).mp isOnce, step⟩
  · intro past between before obtained middle last earlier later vnode other
      ino run obtaining obtains isInode keeping next obtainsOther isOther
    have atStart : VnodeSound use before ∧ before.CachedOnce :=
      run.invariant (fun _ system => VnodeSound use system ∧ system.CachedOnce)
        ⟨quiescent.sound, once⟩
        fun kept step => VnodeStep.keeps_once step kept
    obtain ⟨atMiddle, inMiddle, isInMiddle⟩ :=
      kept_while_cached keeping (VnodeStep.keeps_once obtaining atStart)
        (obtains.listed obtaining.2) isInode
    have otherInList : other ∈ last.vnodeList := obtainsOther.listed next.2
    have isCached : some ino ∈ last.cachedInodes :=
      List.mem_map.mpr ⟨other, otherInList, isOther⟩
    obtain ⟨inList, isInLast⟩ :=
      next.2.keeps_cached atMiddle.1 atMiddle.2 inMiddle isInMiddle isCached
    exact List.inj_on_of_nodup_map (VnodeStep.keeps_once next atMiddle).2
      otherInList inList (isOther.trans isInLast.symm)

/-- `sys_stat` of a process up to the search of the list. -/
def statUntilSearch (process : Nat) : List VnodeLabel :=
  [⟨process, .call .sysStat true⟩, ⟨process, .go⟩, ⟨process, .go⟩,
    ⟨process, .search⟩]

/-- `vnode_new` in a walk. -/
def makesVnode (process : Nat) : List VnodeLabel :=
  [⟨process, .openNew 1⟩, ⟨process, .insert⟩]

/--
Both processes search the list for inode 12 before one of them has added a
vnode, and then they add two.
-/
theorem vnodeList_holds_twice :
    Quiescent twoProcesses onlyRoot ∧ onlyRoot.CachedOnce ∧
      ∃ last,
        Run (VnodeStep twoProcesses) onlyRoot
          (statUntilSearch 0 ++ statUntilSearch 1 ++ makesVnode 0 ++
            makesVnode 1) last ∧
          ¬ last.CachedOnce ∧
          last.inode 1 = some 12 ∧ last.inode 2 = some 12 ∧
          last.phases 0 = .found .sysStat 0 1 ∧
          last.phases 1 = .found .sysStat 0 2 := by
  refine ⟨onlyRoot_quiescent, List.nodup_singleton _, _,
    .cons (.call .sysStat true (by decide) rfl (.inl rfl)) <|
    .cons (.go (by decide) rfl (by decide) (.hold _ _)) <|
    .cons (.go (by decide) rfl (by decide) (.lookup _ _ 12)) <|
    .cons (.miss (by decide) rfl (by decide) rfl) <|
    .cons (.call .sysStat true (by decide) rfl (.inl rfl)) <|
    .cons (.go (by decide) rfl (by decide) (.hold _ _)) <|
    .cons (.go (by decide) rfl (by decide) (.lookup _ _ 12)) <|
    .cons (.miss (by decide) rfl (by decide) rfl) <|
    .cons (.openNew _ (by decide) rfl (by decide)) <|
    .cons (.insert (by decide) rfl (by decide)) <|
    .cons (.openNew _ (by decide) rfl (by decide)) <|
    .cons (.insert (by decide) rfl (by decide)) .start,
    ?_, rfl, rfl, rfl, rfl⟩
  intro isOnce
  exact absurd List.mem_cons_self (List.nodup_cons.mp isOnce).1

/-- One walk after the other: the second gets the vnode of the first. -/
theorem vnodeList_once_iff_oneAfterTheOther :
    ∃ last,
      Run (StepToCachedOnce twoProcesses) onlyRoot
        (statUntilSearch 0 ++ makesVnode 0 ++ statUntilSearch 1) last ∧
        last.phases 0 = .found .sysStat 0 1 ∧
        last.phases 1 = .found .sysStat 0 1 := by
  have idle : ∀ {system label}, ¬ label.action.Adds →
      AddsUncached system label :=
    fun notAdds isAdd => absurd isAdd notAdds
  refine ⟨_,
    ((vnodeList_once_iff onlyRoot_quiescent
      (List.nodup_singleton _)).1 _ _).mp <|
    .cons ⟨idle id, .call .sysStat true (by decide) rfl (.inl rfl)⟩ <|
    .cons ⟨idle id, .go (by decide) rfl (by decide) (.hold _ _)⟩ <|
    .cons ⟨idle id, .go (by decide) rfl (by decide) (.lookup _ _ 12)⟩ <|
    .cons ⟨idle id, .miss (by decide) rfl (by decide) rfl⟩ <|
    .cons ⟨idle id, .openNew _ (by decide) rfl (by decide)⟩ <|
    .cons ⟨?_, .insert (by decide) rfl (by decide)⟩ <|
    .cons ⟨idle id, .call .sysStat true (by decide) rfl (.inl rfl)⟩ <|
    .cons ⟨idle id, .go (by decide) rfl (by decide) (.hold _ _)⟩ <|
    .cons ⟨idle id, .go (by decide) rfl (by decide) (.lookup _ _ 12)⟩ <|
    .cons ⟨idle id, .hit (by decide) rfl (by decide) rfl⟩ .start,
    rfl, rfl⟩
  intro _ vnode adds
  cases adds
  decide

end Idylla.Vfs
