import Idylla.Vfs.VnodeHolders

namespace Idylla.Vfs

open Idylla.Lib

/-!
# Making, listing, taking out and freeing a vnode

The steps of `vnode_new` and `vnode_free` keep the account of the references,
and with the other steps so does every run.
-/

section Loud

variable {use : MountUse} {system : VnodeSystem} {process vnode other : Nat}
  {phase after : VnodePhase}

theorem refs_setPhase (isProcess : process < use.processes)
    (isPhase : system.phases process = phase) :
    (system.setPhase process after).refs use vnode + phase.held.count vnode =
      system.refs use vnode + after.held.count vnode := by
  have changed := @refs_change use system (system.setPhase process after)
    process vnode isProcess fun other differs => by
      unfold VnodeSystem.owned VnodeSystem.fileRefs VnodeSystem.setPhase
      dsimp only
      rw [if_neg differs]
  have own := @owned_setPhase system process vnode phase after isPhase
  omega

theorem refs_setPhase_same (isProcess : process < use.processes)
    (isPhase : system.phases process = phase) (held : after.held = phase.held) :
    (system.setPhase process after).refs use vnode = system.refs use vnode := by
  have changed := @refs_setPhase use system process vnode phase after
    isProcess isPhase
  rw [held] at changed
  omega

theorem phases_setPhase_same :
    (system.setPhase process after).phases process = after :=
  if_pos rfl

theorem phases_setPhase_of_ne (differs : other ≠ process) :
    (system.setPhase process after).phases other = system.phases other :=
  if_neg differs

theorem cells_of_setLocked {locked : Bool} {cell : VnodeCell}
    (isCell : (system.setLocked vnode locked).vnodes.cells other = some cell) :
    ∃ before, system.vnodes.cells other = some before ∧
      cell.refcount = before.refcount ∧ cell.vnode = before.vnode ∧
      cell.locked = if other = vnode then locked else before.locked := by
  by_cases same : other = vnode
  · subst same
    have changed := Heap.cells_modify_same.symm.trans isCell
    obtain ⟨before, isBefore, rfl⟩ := Option.map_eq_some_iff.mp changed
    exact ⟨before, isBefore, rfl, rfl, (if_pos rfl).symm⟩
  · have unchanged := (Heap.cells_modify_of_ne same).symm.trans isCell
    exact ⟨cell, unchanged, rfl, rfl, (if_neg same).symm⟩

theorem cells_setLocked {locked : Bool} {before : VnodeCell}
    (isBefore : system.vnodes.cells other = some before) :
    ∃ cell,
      (system.setLocked vnode locked).vnodes.cells other = some cell ∧
        cell.locked = if other = vnode then locked else before.locked := by
  by_cases same : other = vnode
  · subst same
    exact ⟨_, Heap.cells_modify_same.trans (congrArg _ isBefore),
      (if_pos rfl).symm⟩
  · exact ⟨before, (Heap.cells_modify_of_ne same).trans isBefore,
      (if_neg same).symm⟩

/-- What `VnodeSound` says of one vnode. -/
structure VnodeSoundAt
    (use : MountUse) (system : VnodeSystem) (vnode : Nat) : Prop where
  counts : ∀ cell, system.vnodes.cells vnode = some cell →
      cell.refcount = system.refs use vnode
  referenced : 0 < system.refs use vnode →
      ∃ cell, system.vnodes.cells vnode = some cell ∧ cell.locked = false
  placed : ∀ cell, system.vnodes.cells vnode = some cell → cell.locked = false →
      vnode ∈ system.vnodeList ∨ ∃ process, (system.phases process).Opens vnode
  listed : vnode ∈ system.vnodeList →
      ∃ cell, system.vnodes.cells vnode = some cell ∧ cell.locked = false
  opens : ∀ process, (system.phases process).Opens vnode →
      vnode ∉ system.vnodeList ∧ system.refs use vnode = 1
  frees : ∀ process, (system.phases process).Frees vnode →
      vnode ∉ system.vnodeList ∧ system.refs use vnode = 0 ∧
        ∃ cell, system.vnodes.cells vnode = some cell ∧ cell.locked = true
  freesOnce : ∀ process other, (system.phases process).Frees vnode →
      (system.phases other).Frees vnode → process = other

theorem VnodeSound.of_all (everywhere : ∀ vnode, VnodeSoundAt use system vnode)
    (nodup : system.vnodeList.Nodup)
    (active :
      ∀ process, use.processes ≤ process →
        system.phases process = .point .idle) :
    VnodeSound use system where
  counts := fun vnode => (everywhere vnode).counts
  referenced := fun vnode => (everywhere vnode).referenced
  placed := fun vnode => (everywhere vnode).placed
  listed := fun vnode => (everywhere vnode).listed
  nodup := nodup
  opens := fun process vnode => (everywhere vnode).opens process
  frees := fun process vnode => (everywhere vnode).frees process
  freesOnce := fun process other vnode =>
    (everywhere vnode).freesOnce process other
  active := active

theorem VnodeSound.frame {next : VnodeSystem} (sound : VnodeSound use system)
    (cells : next.vnodes.cells vnode = system.vnodes.cells vnode)
    (refs : next.refs use vnode = system.refs use vnode)
    (list : vnode ∈ next.vnodeList ↔ vnode ∈ system.vnodeList)
    (opens :
      ∀ process, (next.phases process).Opens vnode ↔
        (system.phases process).Opens vnode)
    (frees :
      ∀ process, (next.phases process).Frees vnode ↔
        (system.phases process).Frees vnode) :
    VnodeSoundAt use next vnode where
  counts := by
    rw [cells, refs]
    exact sound.counts vnode
  referenced := by
    rw [cells, refs]
    exact sound.referenced vnode
  placed := by
    simp only [cells, list, opens]
    exact sound.placed vnode
  listed := by
    rw [cells, list]
    exact sound.listed vnode
  opens := by
    simp only [refs, list, opens]
    exact fun process => sound.opens process vnode
  frees := by
    simp only [cells, refs, list, frees]
    exact fun process => sound.frees process vnode
  freesOnce := by
    simp only [frees]
    exact fun process other => sound.freesOnce process other vnode

theorem VnodeSoundAt.of_listed {cell : VnodeCell}
    (isCell : system.vnodes.cells vnode = some cell)
    (unlocked : cell.locked = false)
    (counted : cell.refcount = system.refs use vnode)
    (inList : vnode ∈ system.vnodeList)
    (opens : ∀ process, ¬ (system.phases process).Opens vnode)
    (frees : ∀ process, ¬ (system.phases process).Frees vnode) :
    VnodeSoundAt use system vnode where
  counts := by
    intro other isOther
    rw [← Option.some.inj (isCell.symm.trans isOther)]
    exact counted
  referenced := fun _ => ⟨cell, isCell, unlocked⟩
  placed := fun _ _ _ => .inl inList
  listed := fun _ => ⟨cell, isCell, unlocked⟩
  opens := fun process isOpened => absurd isOpened (opens process)
  frees := fun process isFreed => absurd isFreed (frees process)
  freesOnce := fun process _ isFreed => absurd isFreed (frees process)

theorem VnodeSoundAt.of_opened {cell : VnodeCell}
    (isCell : system.vnodes.cells vnode = some cell)
    (unlocked : cell.locked = false) (counted : cell.refcount = 1)
    (one : system.refs use vnode = 1) (notListed : vnode ∉ system.vnodeList)
    (opens : (system.phases process).Opens vnode)
    (frees : ∀ process, ¬ (system.phases process).Frees vnode) :
    VnodeSoundAt use system vnode where
  counts := by
    intro other isOther
    rw [← Option.some.inj (isCell.symm.trans isOther), counted, one]
    rfl
  referenced := fun _ => ⟨cell, isCell, unlocked⟩
  placed := fun _ _ _ => .inr ⟨process, opens⟩
  listed := fun inList => absurd inList notListed
  opens := fun _ _ => ⟨notListed, one⟩
  frees := fun process isFreed => absurd isFreed (frees process)
  freesOnce := fun process _ isFreed => absurd isFreed (frees process)

theorem VnodeSoundAt.of_freed {cell : VnodeCell}
    (isCell : system.vnodes.cells vnode = some cell)
    (locked : cell.locked = true)
    (counted : cell.refcount = system.refs use vnode)
    (zero : system.refs use vnode = 0) (notListed : vnode ∉ system.vnodeList)
    (opens : ∀ process, ¬ (system.phases process).Opens vnode)
    (frees : ∀ other, (system.phases other).Frees vnode → other = process) :
    VnodeSoundAt use system vnode where
  counts := by
    intro other isOther
    rw [← Option.some.inj (isCell.symm.trans isOther)]
    exact counted
  referenced := fun positive => by omega
  placed := by
    intro other isOther isUnlocked
    rw [← Option.some.inj (isCell.symm.trans isOther), locked] at isUnlocked
    cases isUnlocked
  listed := fun inList => absurd inList notListed
  opens := fun process isOpened => absurd isOpened (opens process)
  frees := fun _ _ => ⟨notListed, zero, cell, isCell, locked⟩
  freesOnce := fun first second isFirst isSecond =>
    (frees first isFirst).trans (frees second isSecond).symm

theorem VnodeSoundAt.of_gone (notCell : system.vnodes.cells vnode = none)
    (zero : system.refs use vnode = 0) (notListed : vnode ∉ system.vnodeList)
    (opens : ∀ process, ¬ (system.phases process).Opens vnode)
    (frees : ∀ process, ¬ (system.phases process).Frees vnode) :
    VnodeSoundAt use system vnode where
  counts := by
    intro cell isCell
    rw [notCell] at isCell
    cases isCell
  referenced := fun positive => by omega
  placed := by
    intro cell isCell
    rw [notCell] at isCell
    cases isCell
  listed := fun inList => absurd inList notListed
  opens := fun process isOpened => absurd isOpened (opens process)
  frees := fun process isFreed => absurd isFreed (frees process)
  freesOnce := fun process _ isFreed => absurd isFreed (frees process)

theorem opens_setPhase_iff (isPhase : system.phases process = phase)
    (same : after.Opens vnode ↔ phase.Opens vnode) (other : Nat) :
    ((system.setPhase process after).phases other).Opens vnode ↔
      (system.phases other).Opens vnode := by
  by_cases isProcess : other = process
  · rw [isProcess, phases_setPhase_same, isPhase]
    exact same
  · rw [phases_setPhase_of_ne isProcess]

theorem frees_setPhase_iff (isPhase : system.phases process = phase)
    (same : after.Frees vnode ↔ phase.Frees vnode) (other : Nat) :
    ((system.setPhase process after).phases other).Frees vnode ↔
      (system.phases other).Frees vnode := by
  by_cases isProcess : other = process
  · rw [isProcess, phases_setPhase_same, isPhase]
    exact same
  · rw [phases_setPhase_of_ne isProcess]

theorem not_opens_setPhase (opensNot : ¬ after.Opens vnode)
    (others : ∀ other, other ≠ process → ¬ (system.phases other).Opens vnode)
    (other : Nat) :
    ¬ ((system.setPhase process after).phases other).Opens vnode := by
  by_cases isProcess : other = process
  · rw [isProcess, phases_setPhase_same]
    exact opensNot
  · rw [phases_setPhase_of_ne isProcess]
    exact others other isProcess

theorem not_frees_setPhase (freesNot : ¬ after.Frees vnode)
    (others : ∀ other, other ≠ process → ¬ (system.phases other).Frees vnode)
    (other : Nat) :
    ¬ ((system.setPhase process after).phases other).Frees vnode := by
  by_cases isProcess : other = process
  · rw [isProcess, phases_setPhase_same]
    exact freesNot
  · rw [phases_setPhase_of_ne isProcess]
    exact others other isProcess

namespace VnodeSound

theorem active_setPhase (sound : VnodeSound use system)
    (isProcess : process < use.processes)
    (other : Nat) (beyond : use.processes ≤ other) :
    (system.setPhase process after).phases other = .point .idle := by
  have differs : other ≠ process := by omega
  exact (if_neg differs).trans (sound.active other beyond)

theorem refs_next (sound : VnodeSound use system) :
    system.refs use system.vnodes.next = 0 := by
  apply Decidable.byContradiction
  intro notZero
  obtain ⟨cell, isCell, -⟩ := sound.referenced system.vnodes.next (by omega)
  exact absurd (Heap.lt_next isCell) (Nat.lt_irrefl _)

theorem opener_unique (sound : VnodeSound use system)
    (opens : (system.phases process).Opens vnode)
    (otherOpens : (system.phases other).Opens vnode) : other = process := by
  apply Decidable.byContradiction
  intro differs
  have isOther : other < use.processes := by
    refine sound.isProcess fun isIdle => ?_
    rw [isIdle] at otherOpens
    exact otherOpens
  have none := (sound.only_opener opens).2 other isOther differs
  have holds : 0 < system.owned vnode other :=
    owned_pos_of_held (held_of_opens otherOpens)
  omega

theorem not_opens_of_frees (sound : VnodeSound use system)
    (frees : (system.phases process).Frees vnode) :
    ¬ (system.phases other).Opens vnode := by
  intro opens
  have one := (sound.opens other vnode opens).2
  have zero := (sound.frees process vnode frees).2.1
  omega

theorem insert (sound : VnodeSound use system)
    {call : PathCall} {directory newVnode : Nat}
    (isPhase : system.phases process = .opened call directory newVnode) :
    VnodeSound use
      ((system.setList (newVnode :: system.vnodeList)).setPhase process
        (.found call directory newVnode)) := by
  have opens : (system.phases process).Opens newVnode := by
    rw [isPhase]
    exact rfl
  have isProcess : process < use.processes :=
    sound.isProcess (by simp [isPhase])
  obtain ⟨notListed, one⟩ := sound.opens process newVnode opens
  have refs (vnode : Nat) :
      ((system.setList (newVnode :: system.vnodeList)).setPhase process
        (.found call directory newVnode)).refs use vnode =
          system.refs use vnode :=
    @refs_setPhase_same use
      (system.setList (newVnode :: system.vnodeList)) process vnode _ _
      isProcess isPhase rfl
  refine .of_all (fun vnode => ?_)
    (List.nodup_cons.mpr ⟨notListed, sound.nodup⟩)
    fun other => sound.active_setPhase isProcess other
  by_cases isNew : vnode = newVnode
  · subst isNew
    obtain ⟨cell, isCell, unlocked⟩ := sound.referenced vnode (by omega)
    refine .of_listed isCell unlocked ?_ List.mem_cons_self
      (not_opens_setPhase id fun other differs otherOpens => ?_)
      (not_frees_setPhase id fun other _ frees => ?_)
    · rw [refs]
      exact sound.counts vnode cell isCell
    · exact differs (sound.opener_unique opens otherOpens)
    · exact sound.not_opens_of_frees frees opens
  · refine sound.frame rfl (refs vnode) ?_
      (opens_setPhase_iff isPhase ⟨False.elim, fun same => ?_⟩)
      (frees_setPhase_iff isPhase Iff.rfl)
    · exact List.mem_cons.trans (or_iff_right isNew)
    · exact isNew (Eq.symm same)

/-- `vnode_new` up to the answer of the driver. -/
theorem openNew (sound : VnodeSound use system)
    {call : PathCall} {directory ino : Nat} (nlink : BitVec 16)
    (isPhase : system.phases process = .missed call directory ino) :
    VnodeSound use
      ((system.setVnodes
          (system.vnodes.alloc
            (.new { mp := use.mp, ino := ino } nlink))).setPhase process
        (.opened call directory system.vnodes.next)) := by
  have isProcess : process < use.processes :=
    sound.isProcess (by simp [isPhase])
  have notLive (cell : VnodeCell) :
      system.vnodes.cells system.vnodes.next ≠ some cell :=
    fun isCell => absurd (Heap.lt_next isCell) (Nat.lt_irrefl _)
  have notFreed (other : Nat) :
      ¬ (system.phases other).Frees system.vnodes.next := by
    intro frees
    obtain ⟨-, -, cell, isCell, -⟩ := sound.frees other _ frees
    exact notLive cell isCell
  have refs (vnode : Nat) :
      ((system.setVnodes (system.vnodes.alloc
        (.new { mp := use.mp, ino := ino } nlink))).setPhase process
          (.opened call directory system.vnodes.next)).refs use vnode =
        system.refs use vnode +
          if vnode = system.vnodes.next then 1 else 0 := by
    have changed := @refs_setPhase use
      (system.setVnodes (system.vnodes.alloc
        (.new { mp := use.mp, ino := ino } nlink)))
      process vnode _ (.opened call directory system.vnodes.next)
      isProcess isPhase
    have unchanged :
        (system.setVnodes (system.vnodes.alloc
          (.new { mp := use.mp, ino := ino } nlink))).refs use vnode =
          system.refs use vnode :=
      rfl
    simp only [VnodePhase.held, List.count_cons, beq_iff_eq,
      @eq_comm Nat system.vnodes.next vnode] at changed unchanged ⊢
    omega
  refine .of_all (fun vnode => ?_) sound.nodup
    fun other => sound.active_setPhase isProcess other
  by_cases isNext : vnode = system.vnodes.next
  · subst isNext
    refine @VnodeSoundAt.of_opened use _ process _ _ Heap.cells_alloc_next
      rfl rfl ?_ (fun inList => ?_) ?_
      (not_frees_setPhase id fun other _ => notFreed other)
    · rw [refs, if_pos rfl, sound.refs_next]
    · obtain ⟨cell, isCell, -⟩ := sound.listed _ inList
      exact notLive cell isCell
    · rw [phases_setPhase_same]
      exact rfl
  · refine sound.frame (if_neg isNext) ?_ Iff.rfl
      (opens_setPhase_iff isPhase ⟨fun same => ?_, False.elim⟩)
      (frees_setPhase_iff isPhase Iff.rfl)
    · rw [refs, if_neg isNext]
      rfl
    · exact isNext (Eq.symm same)

theorem refs_of_unused (sound : VnodeSound use system) {cell : VnodeCell}
    (isCell : system.vnodes.cells vnode = some cell)
    (unused : ¬ 0 < cell.refcount) : system.refs use vnode = 0 := by
  have counted := sound.counts vnode cell isCell
  omega

theorem not_frees_of_unlocked (sound : VnodeSound use system) {cell : VnodeCell}
    (isCell : system.vnodes.cells vnode = some cell)
    (unlocked : cell.locked = false) :
    ¬ (system.phases process).Frees vnode := by
  intro frees
  obtain ⟨-, -, other, isOther, isLocked⟩ := sound.frees process vnode frees
  rw [isCell] at isOther
  rw [← Option.some.inj isOther, unlocked] at isLocked
  cases isLocked

theorem take (sound : VnodeSound use system)
    {rest : List Nat} {cell : VnodeCell}
    (isPhase : system.phases process = .freeing vnode rest)
    (isCell : system.vnodes.cells vnode = some cell)
    (unlocked : cell.locked = false) (unused : ¬ 0 < cell.refcount) :
    VnodeSound use
      ((system.takeOut vnode).setPhase process
        (.driverClosing vnode rest)) := by
  have isProcess : process < use.processes :=
    sound.isProcess (by simp [isPhase])
  have zero := sound.refs_of_unused isCell unused
  have refs (other : Nat) :
      ((system.takeOut vnode).setPhase process
        (.driverClosing vnode rest)).refs use other = system.refs use other :=
    @refs_setPhase_same use (system.takeOut vnode) process other _ _
      isProcess isPhase rfl
  refine .of_all (fun other => ?_) (sound.nodup.filter _)
    fun other => sound.active_setPhase isProcess other
  by_cases isTaken : other = vnode
  · subst isTaken
    refine @VnodeSoundAt.of_freed use _ process _ _
      (Heap.cells_modify_same.trans (congrArg _ isCell)) rfl ?_ ?_
      (fun inList => ?_)
      (not_opens_setPhase id fun opener _ opens => ?_)
      (fun freer frees => ?_)
    · rw [refs]
      exact sound.counts other cell isCell
    · rw [refs]
      exact zero
    · simpa using (List.mem_filter.mp inList).2
    · have one := (sound.opens opener other opens).2
      omega
    · apply Decidable.byContradiction
      intro differs
      rw [phases_setPhase_of_ne differs] at frees
      exact sound.not_frees_of_unlocked isCell unlocked frees
  · refine sound.frame (Heap.cells_modify_of_ne isTaken) (refs other) ?_
      (opens_setPhase_iff isPhase Iff.rfl)
      (frees_setPhase_iff isPhase ⟨fun same => ?_, False.elim⟩)
    · simp [VnodeSystem.takeOut, VnodeSystem.setLocked,
        VnodeSystem.setVnodes, VnodeSystem.setList, VnodeSystem.setPhase,
        isTaken]
    · exact isTaken (Eq.symm same)

theorem reinsert (sound : VnodeSound use system) {rest : List Nat}
    (isPhase : system.phases process = .reinserting vnode rest) :
    VnodeSound use
      ((system.putBack vnode).setPhase process (.releasing rest .idle)) := by
  have frees : (system.phases process).Frees vnode := by
    rw [isPhase]
    exact rfl
  have isProcess : process < use.processes :=
    sound.isProcess (by simp [isPhase])
  obtain ⟨notListed, zero, cell, isCell, -⟩ := sound.frees process vnode frees
  have refs (other : Nat) :
      ((system.putBack vnode).setPhase process
        (.releasing rest .idle)).refs use other = system.refs use other :=
    @refs_setPhase_same use (system.putBack vnode) process other _ _
      isProcess isPhase (List.append_nil rest)
  refine .of_all (fun other => ?_)
    (List.nodup_cons.mpr ⟨notListed, sound.nodup⟩)
    fun other => sound.active_setPhase isProcess other
  by_cases isVnode : other = vnode
  · subst isVnode
    refine .of_listed (Heap.cells_modify_same.trans (congrArg _ isCell)) rfl
      ?_ List.mem_cons_self
      (not_opens_setPhase id fun opener _ => sound.not_opens_of_frees frees)
      (not_frees_setPhase id fun freer differs otherFrees => ?_)
    · rw [refs]
      exact sound.counts other cell isCell
    · exact differs (sound.freesOnce freer process other otherFrees frees)
  · refine sound.frame (Heap.cells_modify_of_ne isVnode) (refs other) ?_
      (opens_setPhase_iff isPhase Iff.rfl)
      (frees_setPhase_iff isPhase ⟨False.elim, fun same => ?_⟩)
    · exact List.mem_cons.trans (or_iff_right isVnode)
    · exact isVnode (Eq.symm same)

theorem destroy (sound : VnodeSound use system) {rest : List Nat}
    (isPhase : system.phases process = .destroying vnode rest) :
    VnodeSound use
      ((system.setVnodes (system.vnodes.free vnode)).setPhase process
        (.releasing rest .idle)) := by
  have frees : (system.phases process).Frees vnode := by
    rw [isPhase]
    exact rfl
  have isProcess : process < use.processes :=
    sound.isProcess (by simp [isPhase])
  obtain ⟨notListed, zero, -⟩ := sound.frees process vnode frees
  have refs (other : Nat) :
      ((system.setVnodes (system.vnodes.free vnode)).setPhase process
        (.releasing rest .idle)).refs use other = system.refs use other :=
    @refs_setPhase_same use
      (system.setVnodes (system.vnodes.free vnode)) process other _ _
      isProcess isPhase (List.append_nil rest)
  refine .of_all (fun other => ?_) sound.nodup
    fun other => sound.active_setPhase isProcess other
  by_cases isFreed : other = vnode
  · subst isFreed
    refine .of_gone Heap.cells_free_same ((refs other).trans zero) notListed
      (not_opens_setPhase id fun opener _ => sound.not_opens_of_frees frees)
      (not_frees_setPhase id fun freer differs otherFrees => ?_)
    exact differs (sound.freesOnce freer process other otherFrees frees)
  · refine sound.frame (Heap.cells_free_of_ne isFreed) (refs other) Iff.rfl
      (opens_setPhase_iff isPhase Iff.rfl)
      (frees_setPhase_iff isPhase ⟨False.elim, fun same => ?_⟩)
    exact isFreed (Eq.symm same)

theorem step (sound : VnodeSound use system)
    {label : VnodeLabel} {next : VnodeSystem}
    (step : VnodeStep use system label next) : VnodeSound use next := by
  by_cases isQuiet : label.action.Quiet
  · obtain ⟨change, quiet⟩ := step.quiet isQuiet
    exact quiet.sound sound
  · cases step with
    | openNew nlink isProcess isPhase defined =>
      exact sound.openNew nlink isPhase
    | insert isProcess isPhase defined => exact sound.insert isPhase
    | take isProcess isPhase defined isCell unlocked unused =>
      exact sound.take isPhase isCell unlocked unused
    | reinsert isProcess isPhase defined => exact sound.reinsert isPhase
    | destroy isProcess isPhase defined => exact sound.destroy isPhase
    | _ => exact absurd trivial isQuiet

/-- No interleaving miscounts the references. -/
theorem vnodeSound_of_run (sound : VnodeSound use system)
    {labels : List VnodeLabel} {last : VnodeSystem}
    (run : Run (VnodeStep use) system labels last) : VnodeSound use last :=
  run.invariant (fun _ system => VnodeSound use system) sound
    fun sound step => sound.step step

/-- Two processes resolve a path, one of them up to the root directory. -/
theorem twoWalks_sound :
    ∃ last,
      Run (VnodeStep twoProcesses) onlyRoot
          [⟨0, .call .sysStat true⟩, ⟨1, .call .sysUnlink true⟩, ⟨0, .go⟩]
          last ∧
        VnodeSound twoProcesses last := by
  have walks : ∃ last, Run (VnodeStep twoProcesses) onlyRoot
      [⟨0, .call .sysStat true⟩, ⟨1, .call .sysUnlink true⟩, ⟨0, .go⟩] last :=
    ⟨_, .cons (.call .sysStat true (by decide) rfl (.inl rfl)) <|
      .cons (.call .sysUnlink true (by decide) rfl (.inr (.inr rfl))) <|
      .cons (.go (by decide) rfl (by decide) (.hold _ _)) .start⟩
  obtain ⟨last, walk⟩ := walks
  exact ⟨last, walk, vnodeSound_of_run onlyRoot_quiescent.sound walk⟩

end VnodeSound

end Loud

/-- The vnode that the next section of a process puts into the list. -/
def VnodePhase.adds : VnodePhase → Option Nat
  | .opened _ _ newVnode => some newVnode
  | .reinserting vnode _ => some vnode
  | _ => none

/-- The sections that add a vnode. -/
def VnodeAction.Adds : VnodeAction → Prop
  | .insert | .reinsert => True
  | _ => False

/-- What a step does with the list. -/
inductive ListStep
    (system : VnodeSystem) (label : VnodeLabel) (after : VnodeSystem) :
    Prop where
  | same (notAdds : ¬ label.action.Adds)
      (list : after.vnodeList = system.vnodeList)
  | add (vnode : Nat) (isAdd : label.action.Adds)
      (adds : (system.phases label.process).adds = some vnode)
      (isLive : system.Live vnode)
      (list : after.vnodeList = vnode :: system.vnodeList)
  | remove (vnode : Nat) (isTake : label.action = .take)
      (isPhase : ∃ rest, system.phases label.process = .freeing vnode rest)
      (list :
        after.vnodeList = system.vnodeList.filter fun other => other ≠ vnode)

theorem VnodeStep.list
    {use : MountUse} {system after : VnodeSystem} {label : VnodeLabel}
    (step : VnodeStep use system label after) :
    ListStep system label after := by
  cases step with
  | insert isProcess isPhase defined | reinsert isProcess isPhase defined =>
    refine .add _ trivial (congrArg VnodePhase.adds isPhase) (defined _ ?_) rfl
    rw [isPhase]
    exact List.mem_cons_self
  | take isProcess isPhase => exact .remove _ rfl ⟨_, isPhase⟩ rfl
  | _ => exact .same id rfl

theorem VnodeStep.phases_of_ne
    {use : MountUse} {system after : VnodeSystem} {label : VnodeLabel}
    {other : Nat} (step : VnodeStep use system label after)
    (differs : other ≠ label.process) :
    after.phases other = system.phases other := by
  cases step <;> exact if_neg differs

end Idylla.Vfs
