import Idylla.Vfs.FileCalls
import Idylla.Vfs.ReadOnly

namespace Idylla.Vfs

/-!
# Access to files that are open

`sys_open` asks `do_sys_access` for the access that its flags name and notes
the flags in the `struct file`; `sys_read` and `sys_write` ask these flags.
The descriptors that share a file come from `dup`, `dup2`, `F_DUPFD` and a
fork.
-/

/-- `do_sys_access` lets the process read and write whatever it likes. -/
def RootRights (process : Process) : Prop :=
  process.euid = 0 ∨ process.uid = 0

instance (process : Process) : Decidable (RootRights process) :=
  inferInstanceAs (Decidable (_ ∨ _))

/-- The permissions of the class that a process falls in. -/
def classBits (attributes : VnodeAttributes) (process : Process) : Nat :=
  (if process.euid = attributes.uid then attributes.mode >>> 6
    else if process.egid = attributes.gid then attributes.mode >>> 3
    else attributes.mode) &&& 0o007

/-- Some permissions contain the access that is asked for. -/
def Contain (permissions asked : Nat) : Prop :=
  permissions &&& asked = asked

instance (permissions asked : Nat) : Decidable (Contain permissions asked) :=
  inferInstanceAs (Decidable (_ = _))

/-- The class rule. -/
def ClassPermits (attributes : VnodeAttributes) (process : Process)
    (asked : Nat) : Prop :=
  RootRights process ∨ Contain (classBits attributes process) asked

/--
What the owner may do of what is asked for the group may do as well, or the
process is not judged as a member of the group.
-/
def GroupAsOwner (attributes : VnodeAttributes) (process : Process)
    (asked : Nat) : Prop :=
  RootRights process ∨ process.euid = attributes.uid ∨
    process.egid ≠ attributes.gid ∨
      (Contain (attributes.mode >>> 6 &&& 0o007) asked →
        Contain (attributes.mode >>> 3 &&& 0o007) asked)

/--
The arguments of `sys_open`, the filesystems at the call and, where it creates
the file, what comes of that: the filesystems and the vnode of the file.
-/
structure OpenRequest where
  ns : Namespace
  process : Process
  path : List Char
  flags : Nat
  mode : Nat
  created : Except Errno (Namespace × Vnode)

namespace OpenRequest

variable (request : OpenRequest)

/-- The access that the flags ask for, as `do_sys_access` gets it. -/
def asked : Nat :=
  (if (request.flags + 1) &&& _FREAD ≠ 0 then 4 else 0) |||
    (if (request.flags + 1) &&& _FWRITE ≠ 0 then 2 else 0)

/-- The vnode of the path; nothing where `vfs_path_split` overruns. -/
def found : Option (Except Errno (Namespace × Vnode)) :=
  match
    sysOpen request.ns request.process request.path request.flags
      request.mode with
  | .overrun => none
  | .refused err => some (.error err)
  | .opens vnode => some (.ok (request.ns, vnode))
  | .performs _ _ _ => some request.created

/-- The vnode that is opened and its mode, behind the check of the access. -/
def target : Option (Except Errno (Vnode × Nat)) :=
  request.found.map fun found =>
    match found with
    | .error err => .error err
    | .ok (ns, vnode) =>
      if doSysAccess ns vnode request.asked request.process then
        .ok (vnode, (ns.attributes vnode).mode)
      else
        .error .EACCES

/-- The class rule permits the call. -/
def Permitted : Prop :=
  ∀ ns vnode, request.found = some (.ok (ns, vnode)) →
    ClassPermits (ns.attributes vnode) request.process request.asked

/-- No member of the group gets the owner's rights by the call. -/
def Fair : Prop :=
  ∀ ns vnode, request.found = some (.ok (ns, vnode)) →
    GroupAsOwner (ns.attributes vnode) request.process request.asked

end OpenRequest

/-- What has made a `struct file`. -/
inductive Opening where
  | open (request : OpenRequest)
  | pipe

/-- The open files, `file->mode` and what has made each file. -/
structure AccessState where
  tables : FileTables
  mode : Nat → Nat
  opening : Nat → Option Opening

namespace AccessState

variable (state : AccessState)

/-- A `struct file` is filled in. -/
def note (file mode : Nat) (opening : Opening) : AccessState :=
  { state with
    mode := fun other => if other = file then mode else state.mode other
    opening := fun other =>
      if other = file then some opening else state.opening other }

/-- `sys_open` -/
def sysOpen (proc : Nat) (request : OpenRequest) (device : Except Errno Unit) :
    Option (AccessState × Except Errno Nat) :=
  request.target.map fun target =>
    let noted :=
      match target with
      | .error _ => state
      | .ok _ =>
        state.note state.tables.files.next request.flags (.open request)
    let opened := sysOpenFile state.tables proc target device
    ({ noted with tables := opened.1 }, opened.2)

/-- `sys_pipe` -/
def sysPipe (proc : Nat) : AccessState :=
  let fdr := state.tables.files.next
  { (state.note fdr 0 .pipe).note (fdr + 1) 1 .pipe with
    tables := (Vfs.sysPipe state.tables proc).1 }

/-- The files behind the descriptors of a process, at some positions. -/
def filesOf (pos : Nat → Int) (proc fd : Nat) : Option WritableFile :=
  (state.tables.filedes proc fd).bind fun filedes =>
    (state.tables.files.cells filedes.file).map fun file =>
      { mode := state.mode filedes.file
        type := file.type
        pos := pos filedes.file
        vnode := file.vnode }

end AccessState

/-- How `sys_read` ends, or what it reads from. -/
inductive ReadOutcome where
  | refused (err : Errno)
  | pipe
  | device
  | vnode (vnode : Vnode)

/-- `sys_read`; `reads` tells which mountpoints have the operation. -/
def sysRead (reads : Nat → Bool) (filedes : Nat → Option WritableFile)
    (fd : Int) : ReadOutcome :=
  if fd < 0 ∨ OPEN_MAX ≤ fd then
    .refused .EBADF
  else
    match filedes fd.toNat with
    | none => .refused .EBADF
    | some file =>
      if (file.mode + 1) &&& _FREAD ≠ _FREAD then
        .refused .EACCES
      else if file.type &&& S_IFMT = S_IFIFO then
        .pipe
      else if file.type &&& S_IFMT = S_IFCHR then
        .device
      else if file.type &&& S_IFMT = S_IFBLK then
        .refused .ENOSYS
      else if file.type &&& S_IFMT = S_IFDIR then
        .refused .EISDIR
      else
        match file.vnode with
        | none => .refused .ENOTSUP
        | some vnode =>
          if reads vnode.mp then .vnode vnode else .refused .ENOTSUP

/-- The call has got behind its checks. -/
def ReadOutcome.Reaches : ReadOutcome → Prop
  | .refused _ => False
  | .pipe => True
  | .device => True
  | .vnode _ => True

/-- The call has got behind its checks. -/
def CallOutcome.Reaches : CallOutcome → Prop
  | .transfers => True
  | .performs _ _ => True
  | _ => False

/-- The calls that make, copy and close descriptors. -/
inductive AccessCall where
  | opens (proc : Nat) (request : OpenRequest) (device : Except Errno Unit)
  | pipe (proc : Nat)
  | close (proc : Nat) (fd : Int)
  | dup (proc : Nat) (fd : Int)
  | dupfd (proc : Nat) (fd : Int) (start : Nat)
  | dup2 (proc : Nat) (oldfd newfd : Int)
  | clone (child parent : Nat)
  | free (proc : Nat)

/-- The state after a call that returns. -/
def AccessCall.run (state : AccessState) : AccessCall → Option AccessState
  | .opens proc request device =>
    (state.sysOpen proc request device).map Prod.fst
  | .pipe proc => some (state.sysPipe proc)
  | .close proc fd => copied (.close proc fd)
  | .dup proc fd => copied (.dup proc fd)
  | .dupfd proc fd start => copied (.dupfd proc fd start)
  | .dup2 proc oldfd newfd => copied (.dup2 proc oldfd newfd)
  | .clone child parent => copied (.clone child parent)
  | .free proc => copied (.free proc)
where
  copied (call : FileCall) : Option AccessState :=
    (call.run state.tables).map fun tables => { state with tables := tables }

/-- A call that returns. -/
def AccessStep (state : AccessState) (call : AccessCall)
    (after : AccessState) : Prop :=
  call.run state = some after

/-- A call opens a file by the class rule. -/
def AccessCall.Fair : AccessCall → Prop
  | .opens _ request _ => request.Fair
  | _ => True

/-- No file is open. -/
def AccessState.boot : AccessState where
  tables := .boot
  mode := fun _ => 0
  opening := fun _ => none

/--
Every descriptor leads to a pipe or to a file that has been opened by the
class rule, and the file is read and written only as its opening has asked.
-/
def AccessState.FollowsClass (state : AccessState) : Prop :=
  ∀ proc fd filedes, state.tables.filedes proc fd = some filedes →
    state.opening filedes.file = some .pipe ∨
      ∃ request,
        state.opening filedes.file = some (.open request) ∧ request.Permitted ∧
          (∀ reads pos,
            (sysRead reads (state.filesOf pos proc) fd).Reaches →
              (request.flags + 1) &&& _FREAD ≠ 0) ∧
          ∀ fs process pos len,
            (sysWrite fs ⟨process, state.filesOf pos proc⟩ fd len).Reaches →
              (request.flags + 1) &&& _FWRITE ≠ 0

section Access

variable {ns : Namespace} {vnode : Vnode} {process : Process}
  {request : OpenRequest}

theorem asked_cases (request : OpenRequest) :
    request.asked = 0 ∨ request.asked = 4 ∨ request.asked = 2 ∨
      request.asked = 6 := by
  unfold OpenRequest.asked
  split <;> split <;> decide

/-- The permissions that `do_sys_access` takes: the group has the owner's. -/
theorem doSysAccess_iff :
    doSysAccess ns vnode request.asked process = true ↔
      RootRights process ∨
        Contain
          ((if process.euid = (ns.attributes vnode).uid ∨
                process.egid = (ns.attributes vnode).gid then
              (ns.attributes vnode).mode >>> 6
            else (ns.attributes vnode).mode) &&& 0o007)
          request.asked := by
  have noMore : request.asked &&& 0o007 = request.asked := by
    rcases asked_cases request with asks | asks | asks | asks <;>
      rw [asks] <;> rfl
  unfold doSysAccess
  rw [noMore, beq_iff_eq]
  by_cases isRoot : RootRights process
  · have notUser : ¬ (process.euid ≠ 0 ∧ process.uid ≠ 0) := by
      unfold RootRights at isRoot
      omega
    refine iff_of_true ?_ (.inl isRoot)
    rcases asked_cases request with asks | asks | asks | asks <;>
      rw [asks] <;> split <;> split <;> (try split) <;> rfl
  · have isUser : process.euid ≠ 0 ∧ process.uid ≠ 0 := by
      unfold RootRights at isRoot
      omega
    rw [if_pos isUser, or_iff_right isRoot]
    have owner (mode : Nat) :
        (mode &&& 0o777) >>> 6 &&& 0o007 = mode >>> 6 &&& 0o007 := by
      rw [Nat.shiftRight_and_distrib, Nat.and_assoc]
      rfl
    have other (mode : Nat) : mode &&& 0o777 &&& 0o007 = mode &&& 0o007 := by
      rw [Nat.and_assoc]
      rfl
    unfold Contain
    by_cases isOwner : process.euid = (ns.attributes vnode).uid
    · rw [if_pos isOwner, if_pos (.inl isOwner), owner]
    · rw [if_neg isOwner]
      by_cases isGroup : process.egid = (ns.attributes vnode).gid
      · rw [if_pos isGroup, if_pos (.inr isGroup), owner]
      · have isOther :
            ¬ (process.euid = (ns.attributes vnode).uid ∨
              process.egid = (ns.attributes vnode).gid) :=
          not_or.mpr ⟨isOwner, isGroup⟩
        rw [if_neg isGroup, if_neg isOther, other]

theorem granted_classPermits_iff :
    (doSysAccess ns vnode request.asked process = true →
        ClassPermits (ns.attributes vnode) process request.asked) ↔
      GroupAsOwner (ns.attributes vnode) process request.asked := by
  rw [doSysAccess_iff]
  unfold ClassPermits GroupAsOwner classBits
  by_cases isRoot : RootRights process
  · simp [isRoot]
  · by_cases isOwner : process.euid = (ns.attributes vnode).uid
    · simp [isRoot, isOwner]
    · by_cases isGroup : process.egid = (ns.attributes vnode).gid
      · simp [isRoot, isOwner, isGroup]
      · simp [isRoot, isOwner, isGroup]

theorem OpenRequest.target_ok {mode : Nat}
    (opens : request.target = some (.ok (vnode, mode))) :
    ∃ ns, request.found = some (.ok (ns, vnode)) ∧
      doSysAccess ns vnode request.asked request.process = true := by
  obtain ⟨found, isFound, isTarget⟩ := Option.map_eq_some_iff.mp opens
  cases found with
  | error err =>
    cases isTarget
  | ok pair =>
    obtain ⟨ns, other⟩ := pair
    dsimp only at isTarget
    split at isTarget
    next granted =>
      cases isTarget
      exact ⟨ns, isFound, granted⟩
    next => cases isTarget

theorem OpenRequest.Fair.permitted {mode : Nat} (fair : request.Fair)
    (opens : request.target = some (.ok (vnode, mode))) :
    request.Permitted := by
  obtain ⟨ns, isFound, granted⟩ := OpenRequest.target_ok opens
  intro otherNs other isOther
  rw [isFound] at isOther
  cases isOther
  exact granted_classPermits_iff.mpr (fair ns vnode isFound) granted

theorem OpenRequest.fair_iff :
    (∀ (state after : AccessState) proc device fd,
        state.sysOpen proc request device = some (after, .ok fd) →
          request.Permitted) ↔
      request.Fair := by
  constructor
  · intro permitted ns vnode isFound
    refine granted_classPermits_iff.mp fun granted => ?_
    have isTarget :
        request.target = some (.ok (vnode, (ns.attributes vnode).mode)) := by
      unfold OpenRequest.target
      rw [isFound]
      exact congrArg some (if_pos granted)
    have isFirst :
        (sysOpenFile .boot 1 (.ok (vnode, (ns.attributes vnode).mode))
          (.ok ())).2 = .ok 0 := by
      unfold sysOpenFile
      dsimp only
      rw [ite_self]
      rfl
    have opens : ∃ after,
          AccessState.boot.sysOpen 1 request (.ok ()) =
            some (after, .ok 0) := by
      unfold AccessState.sysOpen
      rw [isTarget]
      exact ⟨_, congrArg some (Prod.ext rfl isFirst)⟩
    obtain ⟨after, isOpen⟩ := opens
    exact permitted _ after 1 (.ok ()) 0 isOpen ns vnode isFound
  · intro fair state after proc device fd isOpen
    obtain ⟨target, isTarget, opened⟩ := Option.map_eq_some_iff.mp isOpen
    cases target with
    | error err =>
      cases opened
    | ok pair =>
      exact fair.permitted isTarget

end Access

end Idylla.Vfs
