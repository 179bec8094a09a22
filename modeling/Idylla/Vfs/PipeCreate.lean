import Idylla.Kernel.Pipe
import Idylla.Vfs.DescriptorDup

namespace Idylla.Vfs

open Idylla.Lib

/-!
# Creating a pipe

`sys_pipe` makes a pipe and a file for each end, and then looks for two free
descriptors.  Where there are not two, it takes back what it has done.  The
files are modelled with all that `sys_pipe` stores in them.
-/

/-- `O_RDONLY` -/
def O_RDONLY : Nat := 0

/-- `O_WRONLY` -/
def O_WRONLY : Nat := 1

/-- `struct file`, less its mutex. -/
structure KernelFile where
  refs : Int
  flags : Nat
  mode : Nat
  pos : Nat
  type : Nat
  vnode : Option Vnode
  dataptr : Option Nat

/-- The pipes, the files and the descriptors of all processes. -/
structure KernelFiles where
  pipes : Heap Kernel.Pipe
  files : Heap KernelFile
  filedes : Nat → Nat → Option FileDes

/-- `proc->filedes[fd] = filedes` -/
def KernelFiles.setFiledes (kernel : KernelFiles) (proc fd : Nat)
    (entry : Option FileDes) : KernelFiles :=
  { kernel with
    filedes := fun otherProc other =>
      if otherProc = proc ∧ other = fd then entry
      else kernel.filedes otherProc other }

/-- A pipe with nothing in it and two ends. -/
def emptyPipe : Kernel.Pipe where
  inPtr := 0
  outPtr := 0
  buf := fun _ => 0
  refs := 2
  rdWait := []
  wrWait := []

/-- The file of one end of a pipe. -/
def pipeFile (pipe mode : Nat) : KernelFile where
  refs := 1
  flags := 0
  mode := mode
  pos := 0
  type := S_IFIFO
  vnode := none
  dataptr := some pipe

/-- `sys_pipe`; the result is `fds`. -/
def KernelFiles.sysPipe (kernel : KernelFiles)
    (proc : Nat) : KernelFiles × Except Errno (Nat × Nat) :=
  let pipe := kernel.pipes.next
  let fdr := kernel.files.next
  let fdw := fdr + 1
  let created : KernelFiles :=
    { kernel with
      pipes := kernel.pipes.alloc emptyPipe
      files :=
        (kernel.files.alloc (pipeFile pipe O_RDONLY)).alloc
          (pipeFile pipe O_WRONLY) }
  let freed (kernel : KernelFiles) : KernelFiles :=
    { kernel with
      pipes := kernel.pipes.free pipe
      files := (kernel.files.free fdr).free fdw }
  match firstFree (created.filedes proc) 0 with
  | none => (freed created, .error .EMFILE)
  | some first =>
    let placed :=
      created.setFiledes proc first (some { file := fdr, flags := 0 })
    -- The second loop goes on where the first one has stopped.
    match firstFree (placed.filedes proc) first with
    | none => (freed (placed.setFiledes proc first none), .error .EMFILE)
    | some second =>
      (placed.setFiledes proc second (some { file := fdw, flags := 0 }),
        .ok (first, second))

section Made

variable {kernel : KernelFiles} {proc first second : Nat}

variable {Cell : Type}

end Made

end Idylla.Vfs
