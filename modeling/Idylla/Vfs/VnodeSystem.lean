import Idylla.Lib.Counting
import Idylla.Vfs.FileTable
import Idylla.Vfs.VnodeTable

namespace Idylla.Vfs

open Idylla.Lib

/-!
# Many processes and the vnodes of a mountpoint

The calls `sys_open`, `sys_close`, `sys_stat` and `sys_unlink` of any number of
processes on the files of one mountpoint.  A section under `mp->mutex` is one
step, and so is every `VNODE_HOLD` and `VNODE_REL`; what the driver answers and
what a call decides on the attributes of a vnode is left open.  A step that
would touch a freed vnode is undefined, so that the process takes no more.

Sockets and FIFOs, whose descriptors do not lead to `vnode_free`, are left out,
and no call here shares a `struct file`.
-/

/-- What the processes and the mountpoints keep during all calls. -/
structure MountUse where
  mp : Nat
  processes : Nat
  vnodeRoot : Nat → Nat
  vnodeCurrent : Nat → Nat
  /-- The references that no call here gives up. -/
  pinned : Nat → Nat
  root_pinned : ∀ process, 0 < pinned (vnodeRoot process)
  current_pinned : ∀ process, 0 < pinned (vnodeCurrent process)

/-- Where an absolute or a relative path of a process starts. -/
def MountUse.start (use : MountUse) (process : Nat) (absolute : Bool) : Nat :=
  if absolute then use.vnodeRoot process else use.vnodeCurrent process

/-- The call of `vnode_get` that a process is in. -/
inductive PathCall where
  | sysStat
  | sysOpen (created : Bool)
  /-- `sys_open` resolves the directory of a file that it creates. -/
  | openParent
  | sysUnlink
  /-- `sys_unlink` resolves the directory of a vnode that it holds. -/
  | unlinkParent (vnode : Nat)
  deriving DecidableEq

/-- Where a call is between two parts of it. -/
inductive CallPoint where
  | idle
  /-- In front of the first `VNODE_HOLD` of `vnode_get`. -/
  | starting (call : PathCall) (absolute : Bool)
  /-- In front of the next component. -/
  | walking (call : PathCall) (vnode : Nat)
  /-- `vnode_get` has returned a vnode. -/
  | got (call : PathCall) (vnode : Nat)
  deriving DecidableEq

/-- Where a process is. -/
inductive VnodePhase where
  | point (place : CallPoint)
  /-- In front of `vnode_lookup`. -/
  | searching (call : PathCall) (vnode ino : Nat)
  /-- In front of `vnode_new`. -/
  | missed (call : PathCall) (vnode ino : Nat)
  /-- In front of the section of `vnode_new`. -/
  | opened (call : PathCall) (vnode newVnode : Nat)
  | found (call : PathCall) (vnode newVnode : Nat)
  /-- In front of one `VNODE_REL` after the other. -/
  | releasing (vnodes : List Nat) (next : CallPoint)
  /-- `sys_close` in front of `VNODE_REL`. -/
  | closing (vnode : Nat)
  /-- `sys_unlink` in front of `VNODE_REL`, then in front of its test. -/
  | unlinked (vnode parent : Nat)
  | examining (vnode parent : Nat)
  | flushing (vnode parent : Nat)
  /-- In front of the section of `vnode_free`. -/
  | freeing (vnode : Nat) (rest : List Nat)
  /-- Behind it, in front of `ops->close`. -/
  | driverClosing (vnode : Nat) (rest : List Nat)
  | reinserting (vnode : Nat) (rest : List Nat)
  /-- In front of `kfree`. -/
  | destroying (vnode : Nat) (rest : List Nat)
  deriving DecidableEq

/-- The vnodes of the mountpoint, its list, and the processes. -/
structure VnodeSystem where
  vnodes : Heap VnodeCell
  vnodeList : List Nat
  phases : Nat → VnodePhase
  filedes : Nat → Nat → Option Nat

/-- The references that a call holds besides those of `vnode_get`. -/
def PathCall.held : PathCall → List Nat
  | .unlinkParent vnode => [vnode]
  | _ => []

def CallPoint.held : CallPoint → List Nat
  | .idle => []
  | .starting call _ => call.held
  | .walking call vnode => vnode :: call.held
  | .got call vnode => vnode :: call.held

/-- The references that a process holds in its call. -/
def VnodePhase.held : VnodePhase → List Nat
  | .point place => place.held
  | .searching call vnode _ => vnode :: call.held
  | .missed call vnode _ => vnode :: call.held
  | .opened call vnode newVnode => newVnode :: vnode :: call.held
  | .found call vnode newVnode => newVnode :: vnode :: call.held
  | .releasing vnodes next => vnodes ++ next.held
  | .closing vnode => [vnode]
  | .unlinked vnode parent => [vnode, parent]
  | .examining _ parent => [parent]
  | .flushing _ parent => [parent]
  | .freeing _ rest => rest
  | .driverClosing _ rest => rest
  | .reinserting _ rest => rest
  | .destroying _ rest => rest

/-- The process looks at the vnode again without a reference to it. -/
def VnodePhase.Examines (vnode : Nat) : VnodePhase → Prop
  | .examining other _ => other = vnode
  | .flushing other _ => other = vnode
  | .freeing other _ => other = vnode
  | _ => False

/-- The process has made the vnode and not put it into the list yet. -/
def VnodePhase.Opens (vnode : Nat) : VnodePhase → Prop
  | .opened _ _ newVnode => newVnode = vnode
  | _ => False

/-- The process has taken the vnode out of the list. -/
def VnodePhase.Frees (vnode : Nat) : VnodePhase → Prop
  | .driverClosing other _ => other = vnode
  | .reinserting other _ => other = vnode
  | .destroying other _ => other = vnode
  | _ => False

/-- The vnodes that the next step of a process reads or writes. -/
def VnodePhase.touched (use : MountUse) (process : Nat) (list : List Nat) :
    VnodePhase → List Nat
  | .point .idle => []
  | .point (.starting _ absolute) => [use.start process absolute]
  | .point (.walking _ vnode) => [vnode]
  | .point (.got call vnode) => vnode :: call.held
  | .searching _ vnode _ => vnode :: list
  | .missed _ vnode _ => [vnode]
  | .opened _ _ newVnode => newVnode :: list
  | .found _ vnode newVnode => [vnode, newVnode]
  | .releasing vnodes _ => vnodes.take 1
  | .closing vnode => [vnode]
  | .unlinked vnode _ => [vnode]
  | .examining vnode _ => [vnode]
  | .flushing vnode _ => [vnode]
  | .freeing vnode _ => vnode :: list
  | .driverClosing vnode _ => [vnode]
  | .reinserting vnode _ => vnode :: list
  | .destroying vnode _ => [vnode]

/-- What a step between two sections does with the vnodes. -/
inductive Effect where
  | look
  | hold (vnode : Nat)
  | rel (vnode : Nat)
  /-- `vnode->nlink--`. -/
  | unlink (vnode : Nat)

/-- The vnodes after a step. -/
def Effect.apply (vnodes : Heap VnodeCell) : Effect → Heap VnodeCell
  | .look => vnodes
  | .hold vnode => addRef vnodes vnode 1
  | .rel vnode => addRef vnodes vnode (-1)
  | .unlink vnode =>
    vnodes.modify vnode fun cell => { cell with nlink := cell.nlink - 1 }

/-- `!vnode->nlink && !vnode->refcount` in `sys_unlink`. -/
def Unneeded (vnodes : Heap VnodeCell) (vnode : Nat) : Prop :=
  ∃ cell, vnodes.cells vnode = some cell ∧ cell.nlink = 0 ∧ cell.refcount = 0

/-- How a call goes on between its sections. -/
inductive Goes
    (use : MountUse) (process : Nat) (vnodes : Heap VnodeCell) :
    VnodePhase → Effect → VnodePhase → Prop where
  | hold (call : PathCall) (absolute : Bool) :
      Goes use process vnodes (.point (.starting call absolute))
        (.hold (use.start process absolute))
        (.point (.walking call (use.start process absolute)))
  /-- No component is left, or `..` at the root is the last one. -/
  | arrive (call : PathCall) (vnode : Nat) :
      Goes use process vnodes (.point (.walking call vnode)) .look
        (.point (.got call vnode))
  | lookup (call : PathCall) (vnode ino : Nat) :
      Goes use process vnodes (.point (.walking call vnode)) .look
        (.searching call vnode ino)
  /-- `vnode_get` fails, before a lookup of the cache or with `-ELOOP`. -/
  | abandon (call : PathCall) (vnode : Nat) :
      Goes use process vnodes (.point (.walking call vnode)) .look
        (.releasing (vnode :: call.held) .idle)
  /-- `sys_open` creates a file that is missing. -/
  | create (vnode : Nat) (absolute : Bool) :
      Goes use process vnodes (.point (.walking (.sysOpen false) vnode))
        .look (.releasing [vnode] (.starting .openParent absolute))
  /-- The driver cannot open the inode. -/
  | cannotOpen (call : PathCall) (vnode ino : Nat) :
      Goes use process vnodes (.missed call vnode ino) .look
        (.releasing (vnode :: call.held) .idle)
  | last (call : PathCall) (vnode newVnode : Nat) :
      Goes use process vnodes (.found call vnode newVnode) .look
        (.releasing [vnode] (.got call newVnode))
  | enter (call : PathCall) (vnode newVnode : Nat) :
      Goes use process vnodes (.found call vnode newVnode) .look
        (.releasing [vnode] (.walking call newVnode))
  | refuse (call : PathCall) (vnode newVnode : Nat) :
      Goes use process vnodes (.found call vnode newVnode) .look
        (.releasing (vnode :: newVnode :: call.held) .idle)
  | follow (call : PathCall) (vnode newVnode : Nat) :
      Goes use process vnodes (.found call vnode newVnode) .look
        (.releasing [newVnode] (.walking call vnode))
  | followAbsolute (call : PathCall) (vnode newVnode : Nat) :
      Goes use process vnodes (.found call vnode newVnode) .look
        (.releasing [newVnode, vnode] (.starting call true))
  | release (vnode : Nat) (vnodes' : List Nat) (next : CallPoint) :
      Goes use process vnodes (.releasing (vnode :: vnodes') next)
        (.rel vnode) (.releasing vnodes' next)
  | released (next : CallPoint) :
      Goes use process vnodes (.releasing [] next) .look (.point next)
  /-- `sys_stat` has copied the attributes. -/
  | stat (vnode : Nat) :
      Goes use process vnodes (.point (.got .sysStat vnode)) .look
        (.releasing [vnode] .idle)
  | openRefused (created : Bool) (vnode : Nat) :
      Goes use process vnodes (.point (.got (.sysOpen created) vnode)) .look
        (.releasing [vnode] .idle)
  | created (vnode : Nat) (absolute : Bool) :
      Goes use process vnodes (.point (.got .openParent vnode)) .look
        (.releasing [vnode] (.starting (.sysOpen true) absolute))
  | createRefused (vnode : Nat) :
      Goes use process vnodes (.point (.got .openParent vnode)) .look
        (.releasing [vnode] .idle)
  | unlinkRefused (vnode : Nat) :
      Goes use process vnodes (.point (.got .sysUnlink vnode)) .look
        (.releasing [vnode] .idle)
  | unlinkParent (vnode : Nat) (absolute : Bool) :
      Goes use process vnodes (.point (.got .sysUnlink vnode)) .look
        (.point (.starting (.unlinkParent vnode) absolute))
  | unlinkFails (vnode parent : Nat) :
      Goes use process vnodes (.point (.got (.unlinkParent vnode) parent))
        .look (.releasing [vnode, parent] .idle)
  | unlink (vnode parent : Nat) :
      Goes use process vnodes (.point (.got (.unlinkParent vnode) parent))
        (.unlink vnode) (.unlinked vnode parent)
  | unlinkRel (vnode parent : Nat) :
      Goes use process vnodes (.unlinked vnode parent) (.rel vnode)
        (.examining vnode parent)
  | unneeded (vnode parent : Nat) (isUnneeded : Unneeded vnodes vnode) :
      Goes use process vnodes (.examining vnode parent) .look
        (.freeing vnode [parent])
  | needed (vnode parent : Nat) (isNeeded : ¬ Unneeded vnodes vnode) :
      Goes use process vnodes (.examining vnode parent) .look
        (.flushing vnode parent)
  | flush (vnode parent : Nat) :
      Goes use process vnodes (.flushing vnode parent) .look
        (.releasing [parent] .idle)
  | closeRel (vnode : Nat) :
      Goes use process vnodes (.closing vnode) (.rel vnode) (.freeing vnode [])
  | driverCloses (vnode : Nat) (rest : List Nat) :
      Goes use process vnodes (.driverClosing vnode rest) .look
        (.destroying vnode rest)
  | driverFails (vnode : Nat) (rest : List Nat) :
      Goes use process vnodes (.driverClosing vnode rest) .look
        (.reinserting vnode rest)

/-- What a process does next. -/
inductive VnodeAction where
  | call (call : PathCall) (absolute : Bool)
  | sysClose (fd : Nat)
  | go
  | search
  | openNew (nlink : BitVec 16)
  | insert
  | take
  | busy
  | reinsert
  | destroy
  | install (fd : Nat)

/-- A step of a process. -/
structure VnodeLabel where
  process : Nat
  action : VnodeAction

/-- A call of one of the processes may begin with a path. -/
def PathCall.Begins (call : PathCall) : Prop :=
  call = .sysStat ∨ call = .sysOpen false ∨ call = .sysUnlink

namespace VnodeSystem

variable (system : VnodeSystem)

/-- A vnode that has not been freed. -/
def Live (vnode : Nat) : Prop :=
  ∃ cell, system.vnodes.cells vnode = some cell

instance (vnode : Nat) : Decidable (system.Live vnode) :=
  decidable_of_iff ((system.vnodes.cells vnode).isSome = true)
    Option.isSome_iff_exists

/-- The phase of a process replaced. -/
def setPhase (process : Nat) (phase : VnodePhase) : VnodeSystem :=
  { system with
    phases := fun other =>
      if other = process then phase else system.phases other }

/-- A descriptor of a process replaced. -/
def setFiledes (process fd : Nat) (vnode : Option Nat) : VnodeSystem :=
  { system with
    filedes := fun other otherFd =>
      if other = process ∧ otherFd = fd then vnode
      else system.filedes other otherFd }

/-- The vnodes replaced. -/
def setVnodes (vnodes : Heap VnodeCell) : VnodeSystem :=
  { system with vnodes := vnodes }

/-- The list replaced. -/
def setList (list : List Nat) : VnodeSystem :=
  { system with vnodeList := list }

/-- `vnode->mutex` taken or given back. -/
def setLocked (vnode : Nat) (locked : Bool) : VnodeSystem :=
  system.setVnodes
    (system.vnodes.modify vnode fun cell => { cell with locked := locked })

/-- `vnode_free` takes a vnode out of the list and keeps its mutex. -/
def takeOut (vnode : Nat) : VnodeSystem :=
  (system.setList
    (system.vnodeList.filter fun other => other ≠ vnode)).setLocked vnode true

/-- `vnode_free` puts it back. -/
def putBack (vnode : Nat) : VnodeSystem :=
  (system.setList (vnode :: system.vnodeList)).setLocked vnode false

/-- The next step of a process touches no freed vnode. -/
def Defined (use : MountUse) (process : Nat) : Prop :=
  ∀ vnode ∈ (system.phases process).touched use process system.vnodeList,
    system.Live vnode

instance (use : MountUse) (process : Nat) :
    Decidable (system.Defined use process) :=
  inferInstanceAs <| Decidable <|
    ∀ vnode ∈ (system.phases process).touched use process system.vnodeList,
      system.Live vnode

end VnodeSystem

/-- The steps of the processes. -/
inductive VnodeStep (use : MountUse) :
    VnodeSystem → VnodeLabel → VnodeSystem → Prop where
  | call {system : VnodeSystem} {process : Nat}
      (call : PathCall) (absolute : Bool)
      (isProcess : process < use.processes)
      (isIdle : system.phases process = .point .idle)
      (begins : call.Begins) :
      VnodeStep use system ⟨process, .call call absolute⟩
        (system.setPhase process (.point (.starting call absolute)))
  | sysClose {system : VnodeSystem} {process fd vnode : Nat}
      (isProcess : process < use.processes)
      (isIdle : system.phases process = .point .idle)
      (isFd : fd < OPEN_MAX)
      (isOpen : system.filedes process fd = some vnode) :
      VnodeStep use system ⟨process, .sysClose fd⟩
        ((system.setFiledes process fd none).setPhase process (.closing vnode))
  | go {system : VnodeSystem} {process : Nat} {phase after : VnodePhase}
      {effect : Effect}
      (isProcess : process < use.processes)
      (isPhase : system.phases process = phase)
      (defined : system.Defined use process)
      (goes : Goes use process system.vnodes phase effect after) :
      VnodeStep use system ⟨process, .go⟩
        ((system.setVnodes (effect.apply system.vnodes)).setPhase process after)
  | miss {system : VnodeSystem} {process vnode ino : Nat} {call : PathCall}
      (isProcess : process < use.processes)
      (isPhase : system.phases process = .searching call vnode ino)
      (defined : system.Defined use process)
      (searched : cachedVnode system.vnodes ino system.vnodeList = some none) :
      VnodeStep use system ⟨process, .search⟩
        (system.setPhase process (.missed call vnode ino))
  | hit {system : VnodeSystem} {process vnode ino found : Nat} {call : PathCall}
      (isProcess : process < use.processes)
      (isPhase : system.phases process = .searching call vnode ino)
      (defined : system.Defined use process)
      (searched :
        cachedVnode system.vnodes ino system.vnodeList = some (some found)) :
      VnodeStep use system ⟨process, .search⟩
        ((system.setVnodes (addRef system.vnodes found 1)).setPhase process
          (.found call vnode found))
  | openNew {system : VnodeSystem} {process vnode ino : Nat} {call : PathCall}
      (nlink : BitVec 16)
      (isProcess : process < use.processes)
      (isPhase : system.phases process = .missed call vnode ino)
      (defined : system.Defined use process) :
      VnodeStep use system ⟨process, .openNew nlink⟩
        ((system.setVnodes
            (system.vnodes.alloc
              (.new { mp := use.mp, ino := ino } nlink))).setPhase process
          (.opened call vnode system.vnodes.next))
  | insert {system : VnodeSystem} {process vnode newVnode : Nat}
      {call : PathCall}
      (isProcess : process < use.processes)
      (isPhase : system.phases process = .opened call vnode newVnode)
      (defined : system.Defined use process) :
      VnodeStep use system ⟨process, .insert⟩
        ((system.setList (newVnode :: system.vnodeList)).setPhase process
          (.found call vnode newVnode))
  | take {system : VnodeSystem} {process vnode : Nat} {rest : List Nat}
      {cell : VnodeCell}
      (isProcess : process < use.processes)
      (isPhase : system.phases process = .freeing vnode rest)
      (defined : system.Defined use process)
      (isCell : system.vnodes.cells vnode = some cell)
      (unlocked : cell.locked = false)
      (unused : ¬ 0 < cell.refcount) :
      VnodeStep use system ⟨process, .take⟩
        ((system.takeOut vnode).setPhase process (.driverClosing vnode rest))
  | busy {system : VnodeSystem} {process vnode : Nat} {rest : List Nat}
      {cell : VnodeCell}
      (isProcess : process < use.processes)
      (isPhase : system.phases process = .freeing vnode rest)
      (defined : system.Defined use process)
      (isCell : system.vnodes.cells vnode = some cell)
      (unlocked : cell.locked = false)
      (used : 0 < cell.refcount) :
      VnodeStep use system ⟨process, .busy⟩
        (system.setPhase process (.releasing rest .idle))
  | reinsert {system : VnodeSystem} {process vnode : Nat} {rest : List Nat}
      (isProcess : process < use.processes)
      (isPhase : system.phases process = .reinserting vnode rest)
      (defined : system.Defined use process) :
      VnodeStep use system ⟨process, .reinsert⟩
        ((system.putBack vnode).setPhase process (.releasing rest .idle))
  | destroy {system : VnodeSystem} {process vnode : Nat} {rest : List Nat}
      (isProcess : process < use.processes)
      (isPhase : system.phases process = .destroying vnode rest)
      (defined : system.Defined use process) :
      VnodeStep use system ⟨process, .destroy⟩
        ((system.setVnodes (system.vnodes.free vnode)).setPhase process
          (.releasing rest .idle))
  | install {system : VnodeSystem} {process vnode fd : Nat} {created : Bool}
      (isProcess : process < use.processes)
      (isPhase : system.phases process = .point (.got (.sysOpen created) vnode))
      (defined : system.Defined use process)
      (isFd : fd < OPEN_MAX)
      (isFree : system.filedes process fd = none) :
      VnodeStep use system ⟨process, .install fd⟩
        ((system.setFiledes process fd (some vnode)).setPhase process
          (.point .idle))

end Idylla.Vfs
