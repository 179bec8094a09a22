import Idylla.Lib.Run
import Idylla.Vfs.VnodeGet

namespace Idylla.Vfs

open Idylla.Lib

/-!
# What a path walk checks

`vnode_get` as a machine that takes one component at a time.  It looks a name
up before it tests the directory, and it tests neither where the walk starts
nor where it ends.
-/

/--
Where a walk stands: the links it may still follow, the vnode, the components
left, and whether `do_sys_access` has let the process into the vnode.
-/
structure Position where
  tries : Nat
  vnode : Vnode
  table : List (List Char)
  entered : Bool

/-- A walk goes on at a position or has found its vnode. -/
inductive Stage where
  | walking (position : Position)
  | arrived (vnode : Vnode)

/-- Where `vnode_get` starts. -/
def Stage.start (process : Process) (path : List Char) : Stage :=
  .walking
    { tries := SYMLOOP_MAX - 1
      vnode := startVnode process path
      table := strExplode path '/'
      entered := false }

/-- One round of the loops of `vnode_get`, with the lookup it performs. -/
inductive WalkStep
    (ns : Namespace) (process : Process)
    (followlink : Bool) : Stage → Option Lookup → Stage → Prop where
  | arrive {tries : Nat} {vnode : Vnode}
      {entered : Bool} :
      WalkStep ns process followlink
        (.walking ⟨tries, vnode, [], entered⟩) none (.arrived vnode)
  | pass {tries : Nat} {vnode : Vnode} {name : List Char}
      {rest : List (List Char)}
      {entered : Bool}
      (guarded : name = dotDot ∧ leaveMount ns vnode name = process.vnodeRoot) :
      WalkStep ns process followlink
        (.walking ⟨tries, vnode, name :: rest, entered⟩) none
        (.walking
          { tries := tries
            vnode := leaveMount ns vnode name
            table := rest
            entered := entered && leaveMount ns vnode name == vnode })
  | find {tries : Nat} {vnode newVnode : Vnode} {name : List Char}
      {rest : List (List Char)}
      {entered : Bool}
      (unguarded :
        ¬ (name = dotDot ∧ leaveMount ns vnode name = process.vnodeRoot))
      (finds :
        visit ns process followlink (leaveMount ns vnode name) name
          rest.isEmpty = .stop (.ok newVnode)) :
      WalkStep ns process followlink
        (.walking ⟨tries, vnode, name :: rest, entered⟩)
        (some ⟨leaveMount ns vnode name, name, rest⟩) (.arrived newVnode)
  | enter {tries : Nat} {vnode newVnode : Vnode} {name : List Char}
      {rest : List (List Char)}
      {entered : Bool}
      (unguarded :
        ¬ (name = dotDot ∧ leaveMount ns vnode name = process.vnodeRoot))
      (enters :
        visit ns process followlink (leaveMount ns vnode name) name
          rest.isEmpty = .enter newVnode) :
      WalkStep ns process followlink
        (.walking ⟨tries, vnode, name :: rest, entered⟩)
        (some ⟨leaveMount ns vnode name, name, rest⟩)
        (.walking ⟨tries, newVnode, rest, true⟩)
  | follow {tries : Nat} {vnode target : Vnode} {name path : List Char}
      {rest : List (List Char)}
      {entered : Bool}
      (unguarded :
        ¬ (name = dotDot ∧ leaveMount ns vnode name = process.vnodeRoot))
      (follows :
        visit ns process followlink (leaveMount ns vnode name) name
          rest.isEmpty = .link target path) :
      WalkStep ns process followlink
        (.walking ⟨tries + 1, vnode, name :: rest, entered⟩)
        (some ⟨leaveMount ns vnode name, name, rest⟩)
        (.walking ⟨tries, target, strExplode path '/', false⟩)

/-- What `vnode_get` returns from a stage on. -/
def Stage.finish (ns : Namespace) (process : Process)
    (followlink : Bool) : Stage → Resolution
  | .arrived vnode => { result := .ok vnode, lookups := [] }
  | .walking position =>
    let walk :=
      walkTable ns process followlink position.table position.vnode
    match walk.outcome with
    | .done result => { result := result, lookups := walk.lookups }
    | .link start target =>
      let later :=
        followLinks ns process followlink position.tries start target
      { later with lookups := walk.lookups ++ later.lookups }

section Machine

variable {ns : Namespace} {process : Process} {followlink : Bool}

theorem resolve_eq_finish (path : List Char) :
    resolve ns process followlink path =
      (Stage.start process path).finish ns process followlink :=
  rfl

variable {before after : Stage}

theorem WalkStep.finish {lookup : Option Lookup}
    (step : WalkStep ns process followlink before lookup after) :
    before.finish ns process followlink =
      { after.finish ns process followlink with
        lookups :=
          lookup.toList ++ (after.finish ns process followlink).lookups } := by
  cases step with
  | arrive =>
    rfl
  | pass guarded =>
    simp only [Stage.finish, walkTable_guarded guarded, guarded.2,
      Option.toList_none, List.nil_append]
  | find unguarded finds =>
    simp only [Stage.finish, walkTable_visits unguarded, finds,
      Option.toList_some, List.append_nil]
  | @enter tries vnode newVnode name rest entered unguarded enters =>
    cases ends : (walkTable ns process followlink rest newVnode).outcome with
    | done result | link start target =>
      simp only [Stage.finish, walkTable_visits unguarded, enters, ends,
        Option.toList_some, List.cons_append, List.nil_append]
  | @follow tries vnode target name path rest entered unguarded follows =>
    cases ends : (walkTable ns process followlink (strExplode path '/')
        target).outcome with
    | done result | link start next =>
      simp only [Stage.finish, walkTable_visits unguarded, follows, ends,
        followLinks, Option.toList_some, List.cons_append,
        List.nil_append]

theorem finish_of_run {first last : Stage} {passed : List (Option Lookup)}
    (ran : Run (WalkStep ns process followlink) first passed last) :
    first.finish ns process followlink =
      { last.finish ns process followlink with
        lookups :=
          passed.filterMap id ++
            (last.finish ns process followlink).lookups } := by
  refine ran.invariant
    (fun passed stage =>
      first.finish ns process followlink =
        { stage.finish ns process followlink with
          lookups :=
            passed.filterMap id ++
              (stage.finish ns process followlink).lookups })
    rfl ?_
  intro past before lookup after earlier step
  rw [earlier, step.finish]
  cases lookup <;> simp

variable {start vnode : Vnode}

theorem run_of_walkTable {table : List (List Char)}
    (found :
      (walkTable ns process followlink table start).outcome = .done (.ok vnode))
    (tries : Nat) (entered : Bool) :
    ∃ passed,
      Run (WalkStep ns process followlink)
        (.walking ⟨tries, start, table, entered⟩) passed
        (.arrived vnode) := by
  induction table generalizing start entered with
  | nil =>
    cases found
    exact ⟨_, .single .arrive⟩
  | cons name rest ih =>
    by_cases guarded :
        name = dotDot ∧ leaveMount ns start name = process.vnodeRoot
    · rw [walkTable_guarded guarded, ← guarded.2] at found
      obtain ⟨passed, later⟩ := ih found _
      exact ⟨_, (Run.single (.pass guarded)).append later⟩
    · rw [walkTable_visits guarded] at found
      dsimp only at found
      cases visited :
          visit ns process followlink (leaveMount ns start name) name
            rest.isEmpty with
      | stop result =>
        rw [visited] at found
        cases found
        exact ⟨_, .single (.find guarded visited)⟩
      | link target path =>
        rw [visited] at found
        cases found
      | enter newVnode =>
        rw [visited] at found
        obtain ⟨passed, later⟩ := ih found true
        exact ⟨_, (Run.single (.enter guarded visited)).append later⟩

variable {path : List Char}

theorem run_of_link {table : List (List Char)} {target : Vnode}
    (meets :
      (walkTable ns process followlink table start).outcome = .link target path)
    (tries : Nat) (entered : Bool) :
    ∃ passed,
      Run (WalkStep ns process followlink)
        (.walking ⟨tries + 1, start, table, entered⟩) passed
        (.walking ⟨tries, target, strExplode path '/', false⟩) := by
  induction table generalizing start entered with
  | nil =>
    cases meets
  | cons name rest ih =>
    by_cases guarded :
        name = dotDot ∧ leaveMount ns start name = process.vnodeRoot
    · rw [walkTable_guarded guarded, ← guarded.2] at meets
      obtain ⟨passed, later⟩ := ih meets _
      exact ⟨_, (Run.single (.pass guarded)).append later⟩
    · rw [walkTable_visits guarded] at meets
      dsimp only at meets
      cases visited :
          visit ns process followlink (leaveMount ns start name) name
            rest.isEmpty with
      | stop result =>
        rw [visited] at meets
        cases meets
      | link target path =>
        rw [visited] at meets
        cases meets
        exact ⟨_, .single (.follow guarded visited)⟩
      | enter newVnode =>
        rw [visited] at meets
        obtain ⟨passed, later⟩ := ih meets true
        exact ⟨_, (Run.single (.enter guarded visited)).append later⟩

theorem run_of_followLinks {tries : Nat}
    (found :
      (followLinks ns process followlink (tries + 1) start path).result =
        .ok vnode) (entered : Bool) :
    ∃ passed,
      Run (WalkStep ns process followlink)
        (.walking ⟨tries, start, strExplode path '/', entered⟩) passed
        (.arrived vnode) := by
  induction tries generalizing start path entered with
  | zero =>
    rw [followLinks] at found
    cases ends : (walkTable ns process followlink
        (strExplode path '/') start).outcome with
    | done result =>
      rw [ends] at found
      cases found
      exact run_of_walkTable ends 0 entered
    | link target next =>
      rw [ends] at found
      cases found
  | succ tries ih =>
    rw [followLinks] at found
    cases ends : (walkTable ns process followlink
        (strExplode path '/') start).outcome with
    | done result =>
      rw [ends] at found
      cases found
      exact run_of_walkTable ends (tries + 1) entered
    | link target next =>
      rw [ends] at found
      obtain ⟨earlier, toLink⟩ := run_of_link ends tries entered
      obtain ⟨passed, later⟩ := ih found false
      exact ⟨_, toLink.append later⟩

theorem vnodeGet_iff_run :
    vnodeGet ns process followlink path = .ok vnode ↔
      ∃ passed,
        Run (WalkStep ns process followlink) (.start process path) passed
          (.arrived vnode) := by
  constructor
  · intro found
    exact run_of_followLinks found false
  · rintro ⟨passed, ran⟩
    have finished := finish_of_run ran
    rw [← resolve_eq_finish] at finished
    rw [vnodeGet, finished]
    rfl

/-- A directory that the process may search. -/
structure Searchable
    (ns : Namespace) (process : Process)
    (vnode : Vnode) : Prop where
  directory : ns.isDir vnode = true
  permission : doSysAccess ns vnode 1 process = true

/-- The name found stands for a symbolic link that the walk follows. -/
def MeetsLink (ns : Namespace) (followlink : Bool) (lookup : Lookup) : Prop :=
  ∃ newVnode,
    findVnode ns lookup.directory lookup.name = .ok newVnode ∧
      ns.isLnk newVnode = true ∧ followlink = true

/--
What the next lookup needs and `vnode_get` does not test.  `S_ISDIR` is left
out for the last component and for a link, `do_sys_access` for the vnode in
which a walk starts or to which `..` leaves a mounted filesystem.
-/
def InOrder (ns : Namespace) (process : Process)
    (followlink : Bool) : Stage → Option Lookup → Prop
  | .walking position, some lookup =>
    (lookup.rest = [] ∨ MeetsLink ns followlink lookup →
      ns.isDir lookup.directory = true) ∧
    (position.entered = false ∨ lookup.directory ≠ position.vnode →
      doSysAccess ns lookup.directory 1 process = true)
  | _, _ => True

/-- The vnode a walk has entered grants search permission. -/
def Stage.Granted (ns : Namespace) (process : Process) : Stage → Prop
  | .walking position =>
    position.entered = true → doSysAccess ns position.vnode 1 process = true
  | .arrived _ => True

variable {isLast : Bool}

variable {name : List Char}

theorem visit_enter {newVnode : Vnode}
    (enters : visit ns process followlink vnode name isLast = .enter newVnode) :
    ns.isDir vnode = true ∧ doSysAccess ns newVnode 1 process = true := by
  unfold visit at enters
  split at enters
  · cases enters
  split at enters
  · split at enters <;> cases enters
  split at enters
  · cases enters
  split at enters
  · cases enters
  next isDirectory =>
    split at enters
    · cases enters
    next isGranted =>
      cases enters
      exact ⟨Decidable.not_not.mp isDirectory, Decidable.not_not.mp isGranted⟩

theorem visit_link {target : Vnode} {path : List Char}
    (follows :
      visit ns process followlink vnode name isLast = .link target path)
    (rest : List (List Char)) :
    MeetsLink ns followlink ⟨vnode, name, rest⟩ := by
  unfold visit at follows
  split at follows
  · cases follows
  next newVnode found =>
    split at follows
    next isLink => exact ⟨newVnode, found, isLink⟩
    · split at follows
      · cases follows
      split at follows
      · cases follows
      split at follows <;> cases follows

theorem visit_find {newVnode : Vnode}
    (finds :
      visit ns process followlink vnode name isLast = .stop (.ok newVnode)) :
    isLast = true := by
  unfold visit at finds
  split at finds
  · cases finds
  split at finds
  · split at finds <;> cases finds
  split at finds
  next isLast => exact isLast
  · split at finds
    · cases finds
    split at finds <;> cases finds

theorem WalkStep.granted {lookup : Option Lookup}
    (step : WalkStep ns process followlink before lookup after)
    (granted : before.Granted ns process) : after.Granted ns process := by
  cases step with
  | arrive =>
    trivial
  | @pass tries vnode name rest entered guarded =>
    intro stillEntered
    rw [Bool.and_eq_true, beq_iff_eq] at stillEntered
    rw [stillEntered.2]
    exact granted stillEntered.1
  | find unguarded finds =>
    trivial
  | enter unguarded enters =>
    exact fun _ => (visit_enter enters).2
  | follow unguarded follows =>
    exact nofun

theorem WalkStep.inOrder_iff {lookup : Lookup}
    (step : WalkStep ns process followlink before (some lookup) after)
    (granted : before.Granted ns process) :
    InOrder ns process followlink before (some lookup) ↔
      Searchable ns process lookup.directory := by
  have permits {position : Position} (isBefore : before = .walking position)
      (unchecked :
        position.entered = false ∨ lookup.directory ≠ position.vnode →
          doSysAccess ns lookup.directory 1 process = true) :
      doSysAccess ns lookup.directory 1 process = true := by
    subst isBefore
    by_cases same : lookup.directory = position.vnode
    · cases isEntered : position.entered with
      | false =>
        exact unchecked (.inl isEntered)
      | true =>
        rw [same]
        exact granted isEntered
    · exact unchecked (.inr same)
  cases step with
  | find unguarded finds =>
    constructor
    · rintro ⟨directory, permission⟩
      have isLast := visit_find finds
      exact ⟨directory (.inl (List.isEmpty_iff.mp isLast)),
        permits rfl permission⟩
    · rintro ⟨directory, permission⟩
      exact ⟨fun _ => directory, fun _ => permission⟩
  | enter unguarded enters =>
    constructor
    · rintro ⟨-, permission⟩
      exact ⟨(visit_enter enters).1, permits rfl permission⟩
    · rintro ⟨directory, permission⟩
      exact ⟨fun _ => directory, fun _ => permission⟩
  | follow unguarded follows =>
    constructor
    · rintro ⟨directory, permission⟩
      exact ⟨directory (.inr (visit_link follows _)), permits rfl permission⟩
    · rintro ⟨directory, permission⟩
      exact ⟨fun _ => directory, fun _ => permission⟩

/-- All lookups of a run are in order exactly when all may be performed. -/
theorem run_searchable_iff {first last : Stage} {passed : List (Option Lookup)}
    (granted : first.Granted ns process)
    (ran : Run (WalkStep ns process followlink) first passed last) :
    (∀ lookup, some lookup ∈ passed → Searchable ns process lookup.directory) ↔
      Run
        (Guarded (InOrder ns process followlink)
          (WalkStep ns process followlink))
        first passed last := by
  constructor
  · refine fun searchable => (ran.invariant
      (fun passed stage =>
        stage.Granted ns process ∧
          ((∀ lookup, some lookup ∈ passed →
              Searchable ns process lookup.directory) →
            Run
              (Guarded (InOrder ns process followlink)
                (WalkStep ns process followlink))
              first passed stage))
      ⟨granted, fun _ => .start⟩ ?_).2 searchable
    rintro past before label after ⟨granted, guarded⟩ step
    refine ⟨step.granted granted, fun searchable => ?_⟩
    refine .extend
      (guarded fun lookup member =>
        searchable lookup (List.mem_append_left _ member))
      ⟨?_, step⟩
    cases label with
    | none =>
      cases before <;> trivial
    | some lookup =>
      exact (step.inOrder_iff granted).mpr
        (searchable lookup (List.mem_append_right _ List.mem_cons_self))
  · refine fun guarded => (guarded.invariant
      (fun passed stage =>
        stage.Granted ns process ∧
          ∀ lookup, some lookup ∈ passed →
            Searchable ns process lookup.directory)
      ⟨granted, nofun⟩ ?_).2
    rintro past before label after ⟨granted, searchable⟩ ⟨inOrder, step⟩
    refine ⟨step.granted granted, fun lookup member => ?_⟩
    rcases List.mem_append.mp member with earlier | isLabel
    · exact searchable lookup earlier
    · obtain rfl := List.mem_singleton.mp isLabel
      exact (step.inOrder_iff granted).mp inOrder

end Machine

/-- Where `vnode_get` returns 0 it has only searched what it may search. -/
def SearchesAllowed (ns : Namespace) (process : Process) (followlink : Bool)
    (path : List Char) : Prop :=
  ∀ vnode, vnodeGet ns process followlink path = .ok vnode →
    ∀ lookup ∈ (resolve ns process followlink path).lookups,
      Searchable ns process lookup.directory

/--
`vnode_get` goes through searchable directories exactly where all lookups that
it does not check are in order.
-/
theorem searchesAllowed_iff
    (ns : Namespace) (process : Process) (followlink : Bool)
    (path : List Char) :
    SearchesAllowed ns process followlink path ↔
      ∀ passed vnode,
        Run (WalkStep ns process followlink) (.start process path) passed
          (.arrived vnode) →
        Run
          (Guarded (InOrder ns process followlink)
            (WalkStep ns process followlink))
          (.start process path) passed (.arrived vnode) := by
  have granted : (Stage.start process path).Granted ns process := nofun
  have isLookups {passed : List (Option Lookup)} {vnode : Vnode}
      (ran :
        Run (WalkStep ns process followlink) (.start process path) passed
          (.arrived vnode)) :
      (resolve ns process followlink path).lookups = passed.filterMap id := by
    rw [resolve_eq_finish, finish_of_run ran]
    exact List.append_nil _
  constructor
  · intro allowed passed vnode ran
    refine (run_searchable_iff granted ran).mp fun lookup member => ?_
    refine allowed vnode (vnodeGet_iff_run.mpr ⟨passed, ran⟩) lookup ?_
    rw [isLookups ran]
    exact List.mem_filterMap.mpr ⟨some lookup, member, rfl⟩
  · intro inOrder vnode found lookup member
    obtain ⟨passed, ran⟩ := vnodeGet_iff_run.mp found
    rw [isLookups ran] at member
    obtain ⟨label, isPassed, rfl⟩ := List.mem_filterMap.mp member
    exact (run_searchable_iff granted ran).mpr (inOrder passed vnode ran)
      lookup isPassed

/--
A filesystem with an executable file `f` in its root.  The bytes of the file
read as a directory entry `d` for the root.
-/
def entryInFile : Namespace where
  mountpoint := fun _ =>
    { rootVnode := ⟨0, 1⟩
      parentVnode := none
      flags := 0
      ops := ⟨true, true, true, true⟩ }
  vfsmountedhere := fun _ => none
  attributes := fun vnode =>
    { mode := if vnode.ino = 1 then 0o040755 else 0o100755
      uid := 0
      gid := 0 }
  opens := fun _ => true
  lookup := fun vnode name =>
    if vnode.ino = 1 ∧ name = ['f'] then some 2
    else if vnode.ino = 2 ∧ name = ['d'] then some 1
    else none
  readlink := fun _ => none

/-- A process without privileges that stands in the root. -/
def plainProcess : Process where
  uid := 1000
  euid := 1000
  gid := 1000
  egid := 1000
  umask := 0
  vnodeRoot := ⟨0, 1⟩
  vnodeCurrent := ⟨0, 1⟩

/-- The last component of `/f/d` is looked up in the file `f`. -/
theorem entryInFile_searched :
    ¬ ∀ (ns : Namespace) (process : Process) (followlink : Bool)
        (path : List Char), SearchesAllowed ns process followlink path := by
  intro always
  have searched := always entryInFile plainProcess true
    ['/', 'f', '/', 'd'] ⟨0, 1⟩ rfl ⟨⟨0, 2⟩, ['d'], []⟩
  have notDirectory : entryInFile.isDir ⟨0, 2⟩ = false := rfl
  have isDirectory := (searched (.tail _ (.head _))).directory
  exact Bool.false_ne_true (notDirectory.symm.trans isDirectory)

end Idylla.Vfs
