namespace Idylla

/-!
# Error numbers

The error codes of `lib/errno.h` that the modelled functions return.
-/

/-- A negative return value of the kernel, without its sign. -/
inductive Errno where
  | EPERM
  | EAGAIN
  | ENOENT
  | EIO
  | ENOEXEC
  | EBADF
  | ENOMEM
  | EACCES
  | EFAULT
  | EBUSY
  | EEXIST
  | ENODEV
  | ENOTDIR
  | EISDIR
  | EINVAL
  | EMFILE
  | ENOSPC
  | EROFS
  | ENOSYS
  | ELOOP
  | ENOTSUP
  deriving Repr, DecidableEq

end Idylla
