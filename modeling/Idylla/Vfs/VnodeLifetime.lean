import Idylla.Vfs.VnodeSections

namespace Idylla.Vfs

open Idylla.Lib

/-!
# The lifetime of a vnode

`sys_close` and `sys_unlink` give up their reference first and look at the
vnode again afterwards.  Where no section of `vnode_free` takes out a vnode
that another process is about to look at, every vnode that is looked at is in
the list, and no step touches a freed one.
-/

/-- A vnode is taken out while no other process is about to look at it. -/
def TakesUnexamined (system : VnodeSystem) (label : VnodeLabel) : Prop :=
  label.action = .take →
    ∀ vnode rest, system.phases label.process = .freeing vnode rest →
      ∀ other, other ≠ label.process → ¬ (system.phases other).Examines vnode

/-- The vnodes that processes are about to look at are in the list. -/
def ExaminedListed (system : VnodeSystem) : Prop :=
  ∀ process vnode, (system.phases process).Examines vnode →
    vnode ∈ system.vnodeList

theorem VnodePhase.touched_cases
    {use : MountUse} {process vnode : Nat} {list : List Nat}
    {phase : VnodePhase} (isTouched : vnode ∈ phase.touched use process list) :
    0 < use.pinned vnode ∨ vnode ∈ phase.held ∨ phase.Examines vnode ∨
      phase.Frees vnode ∨ vnode ∈ list := by
  cases phase with
  | point place =>
    cases place with
    | idle => cases isTouched
    | starting call absolute =>
      rw [List.mem_singleton.mp isTouched]
      left
      cases absolute with
      | true => exact use.root_pinned process
      | false => exact use.current_pinned process
    | walking call directory =>
      rw [List.mem_singleton.mp isTouched]
      exact .inr (.inl List.mem_cons_self)
    | got call found => exact .inr (.inl isTouched)
  | _ =>
    simp [touched, held, Examines, Frees] at isTouched ⊢
    grind

theorem VnodePhase.touched_of_examines
    {use : MountUse} {process vnode : Nat} {list : List Nat}
    {phase : VnodePhase} (examines : phase.Examines vnode) :
    vnode ∈ phase.touched use process list := by
  cases phase with
  | examining other parent | flushing other parent | freeing other rest =>
    rw [show other = vnode from examines]
    exact List.mem_cons_self
  | _ => exact absurd examines id

section Steps

variable {use : MountUse} {system after : VnodeSystem} {label : VnodeLabel}
  {process vnode : Nat}

theorem VnodeSound.unlocked_of_held (sound : VnodeSound use system)
    (isHeld : vnode ∈ (system.phases process).held) :
    ∃ cell, system.vnodes.cells vnode = some cell ∧ cell.locked = false := by
  have isProcess : process < use.processes := by
    refine sound.isProcess fun isIdle => ?_
    rw [isIdle] at isHeld
    cases isHeld
  have holds : 0 < system.owned vnode process := owned_pos_of_held isHeld
  have least := @owned_le_refs use system process vnode isProcess
  exact sound.referenced vnode (by omega)

theorem VnodeSound.listed_of_held (sound : VnodeSound use system)
    (isHeld : vnode ∈ (system.phases process).held)
    (notOpens : ¬ (system.phases process).Opens vnode) :
    vnode ∈ system.vnodeList := by
  have isProcess : process < use.processes := by
    refine sound.isProcess fun isIdle => ?_
    rw [isIdle] at isHeld
    cases isHeld
  obtain ⟨cell, isCell, unlocked⟩ := sound.unlocked_of_held isHeld
  rcases sound.placed vnode cell isCell unlocked with
    inList | ⟨opener, opens⟩
  · exact inList
  · have differs : process ≠ opener := by
      rintro rfl
      exact notOpens opens
    have none := (sound.only_opener opens).2 process isProcess differs
    have holds : 0 < system.owned vnode process := owned_pos_of_held isHeld
    omega

theorem VnodeSound.defined
    (sound : VnodeSound use system) (listed : ExaminedListed system)
    (process : Nat) : system.Defined use process := by
  intro vnode isTouched
  have live_of_listed (inList : vnode ∈ system.vnodeList) :
      system.Live vnode := by
    obtain ⟨cell, isCell, -⟩ := sound.listed vnode inList
    exact ⟨cell, isCell⟩
  rcases VnodePhase.touched_cases isTouched with
    isPinned | isHeld | examines | frees | inList
  · have referenced : 0 < system.refs use vnode :=
      Nat.lt_of_lt_of_le isPinned (Nat.le_add_right _ _)
    obtain ⟨cell, isCell, -⟩ := sound.referenced vnode referenced
    exact ⟨cell, isCell⟩
  · obtain ⟨cell, isCell, -⟩ := sound.unlocked_of_held isHeld
    exact ⟨cell, isCell⟩
  · exact live_of_listed (listed process vnode examines)
  · obtain ⟨-, -, cell, isCell, -⟩ := sound.frees process vnode frees
    exact ⟨cell, isCell⟩
  · exact live_of_listed inList

theorem VnodeStep.examines (step : VnodeStep use system label after)
    (examines : (after.phases label.process).Examines vnode) :
    label.action = .go ∧
      ((system.phases label.process).Examines vnode ∨
        vnode ∈ (system.phases label.process).held ∧
          ¬ (system.phases label.process).Opens vnode) := by
  cases step with
  | go isProcess isPhase defined goes =>
    rw [phases_setPhase_same] at examines
    rw [isPhase]
    refine ⟨rfl, ?_⟩
    rcases goes.examines examines with before | isHeld
    · exact .inl before
    · exact .inr ⟨isHeld, (goes.notOpens vnode).1⟩
  | _ =>
    rw [phases_setPhase_same] at examines
    exact absurd examines id

theorem VnodeStep.keeps_examinedListed (step : VnodeStep use system label after)
    (guarded : TakesUnexamined system label) (sound : VnodeSound use system)
    (listed : ExaminedListed system) : ExaminedListed after := by
  intro process vnode examines
  by_cases same : process = label.process
  · rw [same] at examines
    obtain ⟨isGo, before⟩ := step.examines examines
    have wasListed : vnode ∈ system.vnodeList := by
      rcases before with wasExamined | ⟨isHeld, notOpens⟩
      · exact listed label.process vnode wasExamined
      · exact sound.listed_of_held isHeld notOpens
    cases step.list with
    | same notAdds list => exact list ▸ wasListed
    | add added isAdd adds isLive list =>
      rw [list]
      exact List.mem_cons_of_mem _ wasListed
    | remove taken isTake isPhase list =>
      rw [isGo] at isTake
      cases isTake
  · rw [step.phases_of_ne same] at examines
    have wasListed := listed process vnode examines
    cases step.list with
    | same notAdds list => exact list ▸ wasListed
    | add added isAdd adds isLive list =>
      rw [list]
      exact List.mem_cons_of_mem _ wasListed
    | remove taken isTake isPhase list =>
      obtain ⟨rest, isFreeing⟩ := isPhase
      have differs : vnode ≠ taken := by
        rintro rfl
        exact guarded isTake vnode rest isFreeing process same examines
      rw [list]
      exact List.mem_filter.mpr ⟨wasListed, decide_eq_true differs⟩

theorem examinedListed_of_run {labels : List VnodeLabel}
    (quiescent : Quiescent use system)
    (run : Run (Guarded TakesUnexamined (VnodeStep use)) system labels after) :
    VnodeSound use after ∧ ExaminedListed after := by
  refine run.invariant
    (fun _ system => VnodeSound use system ∧ ExaminedListed system)
    ⟨quiescent.sound, ?_⟩ ?_
  · intro process vnode examines
    rw [quiescent.idle process] at examines
    exact absurd examines id
  · rintro past source label target ⟨sound, listed⟩ ⟨guarded, step⟩
    exact ⟨sound.step step, step.keeps_examinedListed guarded sound listed⟩

theorem VnodeStep.stays_freed (step : VnodeStep use system label after)
    (below : vnode < system.vnodes.next)
    (freed : system.vnodes.cells vnode = none) :
    vnode < after.vnodes.next ∧ after.vnodes.cells vnode = none := by
  cases step with
  | @go process phase next effect isProcess isPhase defined goes =>
    cases effect with
    | look => exact ⟨below, freed⟩
    | hold | rel | unlink => exact ⟨below, Heap.cells_modify_none freed⟩
  | hit | take | reinsert => exact ⟨below, Heap.cells_modify_none freed⟩
  | openNew =>
    exact ⟨Nat.lt_succ_of_lt below, (Heap.cells_alloc_of_lt below).trans freed⟩
  | @destroy process other rest isProcess isPhase defined =>
    refine ⟨below, ?_⟩
    by_cases same : vnode = other
    · rw [same]
      exact Heap.cells_free_same
    · exact (Heap.cells_free_of_ne same).trans freed
  | _ => exact ⟨below, freed⟩

theorem not_frees_of_destroyed
    {rest : List Nat} {labels : List VnodeLabel} {last : VnodeSystem}
    (sound : VnodeSound use system)
    (isPhase : system.phases process = .destroying vnode rest)
    (step : VnodeStep use system ⟨process, .destroy⟩ after)
    (run : Run (VnodeStep use) after labels last) (other : Nat) :
    ¬ (last.phases other).Frees vnode := by
  have isFreed : vnode < after.vnodes.next ∧
      after.vnodes.cells vnode = none := by
    cases step with
    | destroy isProcess isPhase' defined =>
      rw [isPhase] at isPhase'
      cases isPhase'
      have frees : (system.phases process).Frees vnode := by
        rw [isPhase]
        exact rfl
      obtain ⟨-, -, cell, isCell, -⟩ := sound.frees process vnode frees
      have below : vnode < system.vnodes.next := Heap.lt_next isCell
      exact ⟨below, Heap.cells_free_same⟩
  obtain ⟨lastSound, -, isFreed⟩ := run.invariant
    (fun _ system => VnodeSound use system ∧
      vnode < system.vnodes.next ∧ system.vnodes.cells vnode = none)
    ⟨sound.step step, isFreed⟩
    fun ⟨sound, below, freed⟩ step =>
      ⟨sound.step step, step.stays_freed below freed⟩
  intro frees
  obtain ⟨-, -, cell, isCell, -⟩ := lastSound.frees other vnode frees
  rw [isFreed] at isCell
  cases isCell

theorem VnodeStep.freed_before_examined
    (step : VnodeStep use system label after)
    (unguarded : ¬ TakesUnexamined system label) :
    ∃ labels last process,
      Run (VnodeStep use) after labels last ∧ ¬ last.Defined use process := by
  simp only [TakesUnexamined, Classical.not_forall,
    Classical.not_not] at unguarded
  obtain ⟨isTake, vnode, rest, isFreeing, other, differs, examines⟩ := unguarded
  cases step with
  | @take process taken rest' cell isProcess isPhase defined isCell unlocked
      unused =>
      rw [isFreeing] at isPhase
      cases isPhase
      obtain ⟨now, isNow, -⟩ :=
        @cells_setLocked (system.setList _) vnode vnode true cell isCell
      refine ⟨_, _, other,
        .cons (.go isProcess phases_setPhase_same ?_
          (.driverCloses vnode rest)) <|
        .cons (.destroy isProcess phases_setPhase_same ?_) .start, ?_⟩
      · intro touched isTouched
        rw [phases_setPhase_same] at isTouched
        rw [List.mem_singleton.mp isTouched]
        exact ⟨now, isNow⟩
      · intro touched isTouched
        rw [phases_setPhase_same] at isTouched
        rw [List.mem_singleton.mp isTouched]
        exact ⟨now, isNow⟩
      · intro defined
        have isTouched : vnode ∈ (system.phases other).touched use other
            (system.vnodeList.filter fun other => other ≠ vnode) :=
          VnodePhase.touched_of_examines examines
        obtain ⟨freed, isFreed⟩ := defined vnode <| by
          simpa [VnodeSystem.setPhase, VnodeSystem.setVnodes,
            VnodeSystem.takeOut, VnodeSystem.setLocked,
            VnodeSystem.setList, differs] using isTouched
        cases Heap.cells_free_same.symm.trans isFreed
  | _ => cases isTake

end Steps

/--
A run that takes a vnode out only while no other process is about to look at
it touches no freed vnode, and destroys a vnode at most once and only while
nobody holds it or is about to look at it.  Where a section breaks the
condition, some process can come to touch a freed vnode.
-/
theorem vnodeFree_safe_iff {use : MountUse} {first : VnodeSystem}
    (quiescent : Quiescent use first) :
    (∀ {labels last},
      Run (Guarded TakesUnexamined (VnodeStep use)) first labels last →
        (∀ process, last.Defined use process) ∧
          ∀ {process vnode rest},
            last.phases process = .destroying vnode rest →
              last.refs use vnode = 0 ∧
                (∀ other, ¬ (last.phases other).Examines vnode) ∧
                ∀ {after later final},
                  VnodeStep use last ⟨process, .destroy⟩ after →
                  Run (VnodeStep use) after later final →
                  ∀ other, ¬ (final.phases other).Frees vnode) ∧
      ∀ {system label after}, VnodeStep use system label after →
        ¬ TakesUnexamined system label →
        ∃ later last process,
          Run (VnodeStep use) after later last ∧
            ¬ last.Defined use process := by
  constructor
  · intro labels last run
    obtain ⟨sound, listed⟩ := examinedListed_of_run quiescent run
    refine ⟨sound.defined listed, fun {process vnode rest} isPhase => ?_⟩
    have frees : (last.phases process).Frees vnode := by
      rw [isPhase]
      exact rfl
    obtain ⟨notListed, zero, -⟩ := sound.frees process vnode frees
    exact ⟨zero, fun other examines => notListed (listed other vnode examines),
      not_frees_of_destroyed sound isPhase⟩
  · intro system label after step unguarded
    exact step.freed_before_examined unguarded

/-- `sys_open` of a file that the list holds, or does not hold yet. -/
def opensFile (process : Nat) (search : List VnodeAction) :
    List VnodeLabel :=
  let actions : List VnodeAction :=
    [.call (.sysOpen false) true, .go, .go] ++ search ++
      [.go, .go, .go, .install 3]
  actions.map fun action => ⟨process, action⟩

/-- `sys_close` up to the section of `vnode_free`. -/
def closesFile (process : Nat) : List VnodeLabel :=
  [⟨process, .sysClose 3⟩, ⟨process, .go⟩]

/-- `vnode_free` of a vnode without references. -/
def freesVnode (process : Nat) : List VnodeLabel :=
  [⟨process, .take⟩, ⟨process, .go⟩, ⟨process, .destroy⟩]

/--
Two processes close the file that both have open; both give up their reference
before one of them frees the vnode, and the other looks at it afterwards.
-/
theorem vnodeFree_before_other :
    Quiescent twoProcesses onlyRoot ∧
      ∃ last,
        Run (VnodeStep twoProcesses) onlyRoot
          (opensFile 0 [.search, .openNew 1, .insert] ++
            opensFile 1 [.search] ++ closesFile 0 ++ closesFile 1 ++
            freesVnode 0) last ∧
          last.phases 1 = .freeing 1 [] ∧
          ¬ last.Live 1 ∧ ¬ last.Defined twoProcesses 1 := by
  refine ⟨onlyRoot_quiescent, _,
    .cons (.call (.sysOpen false) true (by decide) rfl (.inr (.inl rfl))) <|
    .cons (.go (by decide) rfl (by decide) (.hold _ _)) <|
    .cons (.go (by decide) rfl (by decide) (.lookup _ _ 12)) <|
    .cons (.miss (by decide) rfl (by decide) rfl) <|
    .cons (.openNew _ (by decide) rfl (by decide)) <|
    .cons (.insert (by decide) rfl (by decide)) <|
    .cons (.go (by decide) rfl (by decide) (.last _ _ _)) <|
    .cons (.go (by decide) rfl (by decide) (.release _ _ _)) <|
    .cons (.go (by decide) rfl (by decide) (.released _)) <|
    .cons (.install (by decide) rfl (by decide) (by decide) rfl) <|
    .cons (.call (.sysOpen false) true (by decide) rfl (.inr (.inl rfl))) <|
    .cons (.go (by decide) rfl (by decide) (.hold _ _)) <|
    .cons (.go (by decide) rfl (by decide) (.lookup _ _ 12)) <|
    .cons (.hit (by decide) rfl (by decide) rfl) <|
    .cons (.go (by decide) rfl (by decide) (.last _ _ _)) <|
    .cons (.go (by decide) rfl (by decide) (.release _ _ _)) <|
    .cons (.go (by decide) rfl (by decide) (.released _)) <|
    .cons (.install (by decide) rfl (by decide) (by decide) rfl) <|
    .cons (.sysClose (by decide) rfl (by decide) rfl) <|
    .cons (.go (by decide) rfl (by decide) (.closeRel _)) <|
    .cons (.sysClose (by decide) rfl (by decide) rfl) <|
    .cons (.go (by decide) rfl (by decide) (.closeRel _)) <|
    .cons (.take (by decide) rfl (by decide) rfl rfl (by decide)) <|
    .cons (.go (by decide) rfl (by decide) (.driverCloses _ _)) <|
    .cons (.destroy (by decide) rfl (by decide)) .start,
    rfl, by decide, by decide⟩

/-- One process opens the file, closes it and destroys the vnode. -/
theorem vnodeFree_safe_iff_oneCloser :
    ∃ last,
      Run (Guarded TakesUnexamined (VnodeStep twoProcesses)) onlyRoot
        (opensFile 0 [.search, .openNew 1, .insert] ++ closesFile 0 ++
          (freesVnode 0).take 2) last ∧
        last.phases 0 = .destroying 1 [] ∧
        (∀ process, last.Defined twoProcesses process) ∧
        last.refs twoProcesses 1 = 0 := by
  have idle {system : VnodeSystem} {label : VnodeLabel}
      (notTake : label.action ≠ .take) :
      TakesUnexamined system label :=
    fun isTake => absurd isTake notTake
  have run : ∃ last,
      Run (Guarded TakesUnexamined (VnodeStep twoProcesses)) onlyRoot
        (opensFile 0 [.search, .openNew 1, .insert] ++ closesFile 0 ++
          (freesVnode 0).take 2) last ∧
        last.phases 0 = .destroying 1 [] := by
    refine ⟨_,
      .cons ⟨idle ?_, .call (.sysOpen false) true (by decide) rfl
        (.inr (.inl rfl))⟩ <|
      .cons ⟨idle ?_, .go (by decide) rfl (by decide) (.hold _ _)⟩ <|
      .cons ⟨idle ?_, .go (by decide) rfl (by decide) (.lookup _ _ 12)⟩ <|
      .cons ⟨idle ?_, .miss (by decide) rfl (by decide) rfl⟩ <|
      .cons ⟨idle ?_, .openNew _ (by decide) rfl (by decide)⟩ <|
      .cons ⟨idle ?_, .insert (by decide) rfl (by decide)⟩ <|
      .cons ⟨idle ?_, .go (by decide) rfl (by decide) (.last _ _ _)⟩ <|
      .cons ⟨idle ?_, .go (by decide) rfl (by decide) (.release _ _ _)⟩ <|
      .cons ⟨idle ?_, .go (by decide) rfl (by decide) (.released _)⟩ <|
      .cons ⟨idle ?_, .install (by decide) rfl (by decide) (by decide) rfl⟩ <|
      .cons ⟨idle ?_, .sysClose (by decide) rfl (by decide) rfl⟩ <|
      .cons ⟨idle ?_, .go (by decide) rfl (by decide) (.closeRel _)⟩ <|
      .cons ⟨?_, .take (by decide) rfl (by decide) rfl rfl (by decide)⟩ <|
      .cons ⟨idle ?_, .go (by decide) rfl (by decide) (.driverCloses _ _)⟩
        .start,
      rfl⟩
    case refine_13 =>
      intro _ vnode rest _ other differs examines
      simp [VnodeSystem.setPhase, VnodeSystem.setFiledes,
        VnodeSystem.setVnodes, VnodeSystem.setList, differs] at examines
      exact examines
    all_goals intro same; cases same
  obtain ⟨last, run, isPhase⟩ := run
  obtain ⟨defined, destroys⟩ := (vnodeFree_safe_iff onlyRoot_quiescent).1 run
  exact ⟨last, run, isPhase, defined, (destroys isPhase).1⟩

end Idylla.Vfs
