import Idylla.Errno
import Idylla.Vfs.Path

namespace Idylla.Vfs

/-!
# Resolving a path

`vnode_get` of `kernel/vfs.c` over a fixed view of the mounted filesystems.
Holding and releasing vnodes leaves no trace here: the view is that of one
call that nothing interrupts.
-/

/--
A vnode, named by its mountpoint and its inode number: the cache of a
mountpoint keeps one vnode for an inode.
-/
structure Vnode where
  mp : Nat
  ino : Nat
  deriving Repr, DecidableEq

/-- The attributes of a vnode that path resolution reads. -/
structure VnodeAttributes where
  mode : Nat
  uid : Nat
  gid : Nat
  deriving Repr, DecidableEq

/-- Which optional operations a filesystem's `struct vnode_ops` provides. -/
structure VnodeOps where
  creat : Bool
  mknod : Bool
  mkdir : Bool
  unlink : Bool
  deriving Repr, DecidableEq

/-- A mountpoint; only the root filesystem has no parent vnode. -/
structure Mountpoint where
  rootVnode : Vnode
  parentVnode : Option Vnode
  flags : Nat
  ops : VnodeOps

/--
The mounted filesystems.  `lookup` yields nothing where the driver returns
inode 0, `opens` tells whether a vnode is cached or can be opened, and
`readlink` is absent where the driver has no such operation.
-/
structure Namespace where
  mountpoint : Nat → Mountpoint
  vfsmountedhere : Vnode → Option Nat
  attributes : Vnode → VnodeAttributes
  opens : Vnode → Bool
  lookup : Vnode → List Char → Option Nat
  readlink : Vnode → Option (Except Errno (List Char))

/-- The part of a process that these calls read. -/
structure Process where
  uid : Nat
  euid : Nat
  gid : Nat
  egid : Nat
  umask : Nat
  vnodeRoot : Vnode
  vnodeCurrent : Vnode

/-- The file type bits of a mode. -/
def S_IFMT : Nat := 0o170000

/-- A symbolic link. -/
def S_IFLNK : Nat := 0o120000

/-- A directory. -/
def S_IFDIR : Nat := 0o040000

/-- A block device. -/
def S_IFBLK : Nat := 0o060000

/-- A character device. -/
def S_IFCHR : Nat := 0o020000

/-- Read-only mounts. -/
def MS_RDONLY : Nat := 0x01

/-- How many symbolic links one call follows. -/
def SYMLOOP_MAX : Nat := 32

namespace Namespace

/-- The file type bits of a vnode. -/
def fileType (ns : Namespace) (vnode : Vnode) : Nat :=
  (ns.attributes vnode).mode &&& S_IFMT

/-- `S_ISDIR` of the vnode's mode. -/
def isDir (ns : Namespace) (vnode : Vnode) : Bool :=
  ns.fileType vnode == S_IFDIR

/-- `S_ISLNK` of the vnode's mode. -/
def isLnk (ns : Namespace) (vnode : Vnode) : Bool :=
  ns.fileType vnode == S_IFLNK

/-- `MS_RDONLY` of the vnode's mountpoint. -/
def readOnly (ns : Namespace) (vnode : Vnode) : Bool :=
  (ns.mountpoint vnode.mp).flags &&& MS_RDONLY != 0

end Namespace

/-- `do_sys_access`: true where it returns 0, false where `-EACCES`. -/
def doSysAccess (ns : Namespace) (vnode : Vnode) (mode : Nat)
    (process : Process) : Bool :=
  let attributes := ns.attributes vnode
  let wanted := mode &&& 0o007
  let permissions := attributes.mode &&& 0o777
  let granted :=
    if process.euid ≠ 0 ∧ process.uid ≠ 0 then permissions
    else if permissions &&& 0o111 ≠ 0 then 0o777
    else 0o666
  let forCaller :=
    if process.euid = attributes.uid then granted >>> 6
    else if process.egid = attributes.gid then granted >>> 6
    else granted
  forCaller &&& 0o007 &&& wanted == wanted

/-- From the root of a mounted filesystem `..` leaves to the parent vnode. -/
def leaveMount (ns : Namespace) (vnode : Vnode) (name : List Char) : Vnode :=
  let mountpoint := ns.mountpoint vnode.mp
  if name = dotDot ∧ vnode = mountpoint.rootVnode then
    mountpoint.parentVnode.getD vnode
  else
    vnode

/-- A covered directory stands for the root of what is mounted on it. -/
def enterMount (ns : Namespace) (vnode : Vnode) : Vnode :=
  match ns.vfsmountedhere vnode with
  | some mp => (ns.mountpoint mp).rootVnode
  | none => vnode

/-- Looks a name up, opens its vnode and enters what is mounted on it. -/
def findVnode (ns : Namespace) (vnode : Vnode)
    (name : List Char) : Except Errno Vnode :=
  match ns.lookup vnode name with
  | none => .error .ENOENT
  | some ino =>
    let newVnode : Vnode := { mp := vnode.mp, ino := ino }
    if ns.opens newVnode then
      .ok (enterMount ns newVnode)
    else
      .error Errno.EIO

/-- How one component of a path ends. -/
inductive Component where
  | stop (result : Except Errno Vnode)
  | link (start : Vnode) (path : List Char)
  | enter (newVnode : Vnode)

/-- The body of the walk from the lookup on. -/
def visit
    (ns : Namespace) (process : Process) (followlink : Bool) (vnode : Vnode)
    (name : List Char) (isLast : Bool) : Component :=
  match findVnode ns vnode name with
  | .error err => .stop (.error err)
  | .ok newVnode =>
    if ns.isLnk newVnode ∧ followlink then
      match ns.readlink newVnode with
      | none => .stop (.error .ENOTSUP)
      | some (.error err) => .stop (.error err)
      | some (.ok path) =>
        .link (if path[0]? = some '/' then process.vnodeRoot else vnode) path
    else if isLast then
      .stop (.ok newVnode)
    else if ¬ ns.isDir vnode then
      -- The test names the directory just searched, not the vnode found.
      .stop (.error .ENOTDIR)
    else if ¬ doSysAccess ns newVnode 1 process then
      .stop (.error .EACCES)
    else
      .enter newVnode

/-- A lookup a walk performed, with the components still behind it. -/
structure Lookup where
  directory : Vnode
  name : List Char
  rest : List (List Char)

/-- How a walk over one component table ends. -/
inductive Outcome where
  | done (result : Except Errno Vnode)
  | link (start : Vnode) (path : List Char)

/-- The end of a walk and the lookups performed on the way. -/
structure Walk where
  outcome : Outcome
  lookups : List Lookup

/--
The inner loop of `vnode_get`.  At the root of the process `..` is passed
over; with nothing behind it the walk ends there.
-/
def walkTable (ns : Namespace) (process : Process) (followlink : Bool) :
    List (List Char) → Vnode → Walk
  | [], vnode => { outcome := .done (.ok vnode), lookups := [] }
  | name :: rest, start =>
    let vnode := leaveMount ns start name
    if name = dotDot ∧ vnode = process.vnodeRoot then
      walkTable ns process followlink rest vnode
    else
      let lookup := { directory := vnode, name := name, rest := rest }
      match visit ns process followlink vnode name rest.isEmpty with
      | .stop result =>
        { outcome := .done result, lookups := [lookup] }
      | .link target path =>
        { outcome := .link target path, lookups := [lookup] }
      | .enter newVnode =>
        let later := walkTable ns process followlink rest newVnode
        { later with lookups := lookup :: later.lookups }

/-- A resolved path and the lookups performed on the way. -/
structure Resolution where
  result : Except Errno Vnode
  lookups : List Lookup

/-- The outer loop of `vnode_get`, which restarts at every link. -/
def followLinks (ns : Namespace) (process : Process) (followlink : Bool) :
    Nat → Vnode → List Char → Resolution
  | 0, _, _ => { result := .error .ELOOP, lookups := [] }
  | tries + 1, vnode, path =>
    let walk :=
      walkTable ns process followlink (strExplode path '/') vnode
    match walk.outcome with
    | .done result => { result := result, lookups := walk.lookups }
    | .link start target =>
      let later :=
        followLinks ns process followlink tries start target
      { later with lookups := walk.lookups ++ later.lookups }

/-- Where the walk over a path starts. -/
def startVnode (process : Process) (path : List Char) : Vnode :=
  if path[0]? = some '/' then process.vnodeRoot
  else process.vnodeCurrent

/-- `vnode_get` with the lookups it performs. -/
def resolve (ns : Namespace) (process : Process) (followlink : Bool)
    (path : List Char) : Resolution :=
  followLinks ns process followlink SYMLOOP_MAX (startVnode process path) path

/-- `vnode_get`: the vnode of a path, or the error it returns. -/
def vnodeGet (ns : Namespace) (process : Process) (followlink : Bool)
    (path : List Char) : Except Errno Vnode :=
  (resolve ns process followlink path).result

section Equations

variable (ns : Namespace) (process : Process) (followlink : Bool)

variable {name : List Char}

theorem leaveMount_of_ne (notDotDot : name ≠ dotDot) (vnode : Vnode) :
    leaveMount ns vnode name = vnode := by
  simp [leaveMount, notDotDot]

theorem findVnode_ok {vnode newVnode : Vnode}
    (found : findVnode ns vnode name = .ok newVnode) :
    ∃ ino,
      ns.lookup vnode name = some ino ∧
        newVnode = enterMount ns { mp := vnode.mp, ino := ino } := by
  unfold findVnode at found
  cases looked : ns.lookup vnode name with
  | none =>
    simp [looked] at found
  | some ino =>
    simp only [looked] at found
    split at found
    · exact ⟨ino, rfl, (Except.ok.inj found).symm⟩
    · simp at found

@[simp] theorem walkTable_nil (vnode : Vnode) :
    walkTable ns process followlink [] vnode =
      { outcome := .done (.ok vnode), lookups := [] } :=
  rfl

variable {ns process followlink}

theorem walkTable_guarded {rest : List (List Char)} {start : Vnode}
    (guarded : name = dotDot ∧ leaveMount ns start name = process.vnodeRoot) :
    walkTable ns process followlink (name :: rest) start =
      walkTable ns process followlink rest process.vnodeRoot := by
  rw [walkTable]
  rw [if_pos guarded, guarded.2]

theorem walkTable_visits {rest : List (List Char)} {start : Vnode}
    (unguarded :
      ¬ (name = dotDot ∧ leaveMount ns start name = process.vnodeRoot)) :
    walkTable ns process followlink (name :: rest) start =
      let vnode := leaveMount ns start name
      let lookup := { directory := vnode, name := name, rest := rest }
      match visit ns process followlink vnode name rest.isEmpty with
      | .stop result =>
        { outcome := .done result, lookups := [lookup] }
      | .link target path =>
        { outcome := .link target path, lookups := [lookup] }
      | .enter newVnode =>
        let later := walkTable ns process followlink rest newVnode
        { later with lookups := lookup :: later.lookups } := by
  rw [walkTable]
  rw [if_neg unguarded]

theorem visit_last_of_enter {vnode newVnode : Vnode}
    (enters : visit ns process followlink vnode name false = .enter newVnode) :
    visit ns process followlink vnode name true = .stop (.ok newVnode) := by
  unfold visit at enters ⊢
  cases found : findVnode ns vnode name with
  | error err =>
    simp [found] at enters
  | ok other =>
    by_cases follows : ns.isLnk other ∧ followlink
    · simp only [found, follows, and_self, ↓reduceIte] at enters
      split at enters <;> simp at enters
    · by_cases directory : ns.isDir vnode = true
      · by_cases granted : doSysAccess ns other 1 process = true
        · simp only [found, follows, ↓reduceIte, directory, granted,
            not_true_eq_false, Bool.false_eq_true,
            Component.enter.injEq] at enters
          subst enters
          simp only [follows, ↓reduceIte]
        · simp [found, follows, directory, granted] at enters
      · simp [found, follows, directory] at enters

theorem visit_ne_link (symlinkFree : ∀ vnode, ns.isLnk vnode = false)
    {vnode start : Vnode} {name path : List Char} {isLast : Bool} :
    visit ns process followlink vnode name isLast ≠ .link start path := by
  unfold visit
  cases findVnode ns vnode name with
  | error err =>
    simp
  | ok newVnode =>
    simp only [symlinkFree newVnode, Bool.false_eq_true, false_and, ↓reduceIte]
    repeat' split
    all_goals simp

theorem walkTable_done (symlinkFree : ∀ vnode, ns.isLnk vnode = false)
    (table : List (List Char)) (start : Vnode) :
    ∃ result,
      (walkTable ns process followlink table start).outcome = .done result := by
  induction table generalizing start with
  | nil =>
    exact ⟨.ok start, rfl⟩
  | cons name rest ih =>
    by_cases guarded :
        name = dotDot ∧ leaveMount ns start name = process.vnodeRoot
    · rw [walkTable_guarded guarded]
      exact ih process.vnodeRoot
    · rw [walkTable_visits guarded]
      dsimp only
      cases visited :
          visit ns process followlink (leaveMount ns start name) name
            rest.isEmpty with
      | stop result =>
        exact ⟨result, rfl⟩
      | link target path =>
        exact absurd visited (visit_ne_link symlinkFree)
      | enter newVnode =>
        exact ih newVnode

theorem resolve_of_done {path : List Char} {result : Except Errno Vnode}
    (ends :
      (walkTable ns process followlink (strExplode path '/')
        (startVnode process path)).outcome = .done result) :
    resolve ns process followlink path =
      { result := result
        lookups :=
          (walkTable ns process followlink (strExplode path '/')
            (startVnode process path)).lookups } := by
  simp [resolve, SYMLOOP_MAX, followLinks, ends]

end Equations

/-- Every vnode an outcome carries meets a property. -/
def Outcome.All (Holds : Vnode → Prop) : Outcome → Prop
  | .done (.ok vnode) => Holds vnode
  | .done (.error _) => True
  | .link start _ => Holds start

section Closed

variable {ns : Namespace} {process : Process} {followlink : Bool}
  {Holds : Vnode → Prop}

/-- What a visit yields meets a property that found vnodes meet. -/
theorem visit_closed {vnode : Vnode} {name : List Char}
    (atRoot : Holds process.vnodeRoot) (atVnode : Holds vnode)
    (finds :
      ∀ newVnode, findVnode ns vnode name = .ok newVnode → Holds newVnode)
    (isLast : Bool) :
    match visit ns process followlink vnode name isLast with
    | .stop result => (Outcome.done result).All Holds
    | .link start _ => Holds start
    | .enter newVnode => Holds newVnode := by
  unfold visit
  cases found : findVnode ns vnode name with
  | error err =>
    trivial
  | ok newVnode =>
    have atNew := finds newVnode found
    dsimp only
    by_cases follows : ns.isLnk newVnode ∧ followlink
    · rw [if_pos follows]
      cases ns.readlink newVnode with
      | none =>
        trivial
      | some target =>
        cases target with
        | error err =>
          trivial
        | ok path =>
          dsimp only
          split
          · exact atRoot
          · exact atVnode
    · rw [if_neg follows]
      cases isLast with
      | true =>
        exact atNew
      | false =>
        by_cases directory : ns.isDir vnode = true
        · by_cases granted : doSysAccess ns newVnode 1 process = true
          · simpa [directory, granted] using atNew
          · simp [directory, granted, Outcome.All]
        · simp [directory, Outcome.All]

theorem walkTable_closed (atRoot : Holds process.vnodeRoot)
    (leaves : ∀ vnode name, Holds vnode → Holds (leaveMount ns vnode name))
    (finds :
      ∀ vnode name newVnode, Holds vnode →
        ¬ (name = dotDot ∧ leaveMount ns vnode name = process.vnodeRoot) →
        findVnode ns (leaveMount ns vnode name) name = .ok newVnode →
        Holds newVnode) (table : List (List Char)) {start : Vnode}
    (atStart : Holds start) :
    (walkTable ns process followlink table start).outcome.All Holds := by
  induction table generalizing start with
  | nil =>
    exact atStart
  | cons name rest ih =>
    by_cases guarded :
        name = dotDot ∧ leaveMount ns start name = process.vnodeRoot
    · rw [walkTable_guarded guarded]
      exact ih atRoot
    · rw [walkTable_visits guarded]
      dsimp only
      have closed := @visit_closed ns process followlink Holds
        (leaveMount ns start name) name atRoot
        (leaves start name atStart)
        (fun newVnode => finds start name newVnode atStart guarded)
        rest.isEmpty
      cases visited :
          visit ns process followlink (leaveMount ns start name) name
            rest.isEmpty with
      | stop result | link target path =>
        rw [visited] at closed
        exact closed
      | enter newVnode =>
        rw [visited] at closed
        exact ih closed

theorem vnodeGet_closed
    (atRoot : Holds process.vnodeRoot) (atCurrent : Holds process.vnodeCurrent)
    (leaves : ∀ vnode name, Holds vnode → Holds (leaveMount ns vnode name))
    (finds :
      ∀ vnode name newVnode, Holds vnode →
        ¬ (name = dotDot ∧ leaveMount ns vnode name = process.vnodeRoot) →
        findVnode ns (leaveMount ns vnode name) name = .ok newVnode →
        Holds newVnode) {path : List Char} {vnode : Vnode}
    (resolved : vnodeGet ns process followlink path = .ok vnode) :
    Holds vnode := by
  have follows : ∀ tries start path, Holds start →
        (Outcome.done
          (followLinks ns process followlink tries start path).result).All
          Holds := by
    intro tries
    induction tries with
    | zero =>
      intro start path atStart
      trivial
    | succ tries ih =>
      intro start path atStart
      have closed : (walkTable ns process followlink
          (strExplode path '/') start).outcome.All Holds :=
        walkTable_closed atRoot leaves finds _ atStart
      rw [followLinks]
      cases ends : (walkTable ns process followlink
          (strExplode path '/') start).outcome with
      | done result =>
        rw [ends] at closed
        exact closed
      | link target next =>
        rw [ends] at closed
        exact ih target next closed
  have atStart : Holds (startVnode process path) := by
    unfold startVnode
    split
    · exact atRoot
    · exact atCurrent
  have closed := follows SYMLOOP_MAX _ path atStart
  rw [vnodeGet, resolve] at resolved
  rw [resolved] at closed
  exact closed

end Closed

end Idylla.Vfs
