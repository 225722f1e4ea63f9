/-!
# Error numbers

The values of `errno` that the modelled calls set.
-/

namespace CoActionOS

inductive Errno
  | einval | enomem | edeadlk | ebusy | eacces | eagain | etimedout
  | enoent | enotdir | eexist | enospc | efbig | eperm
  | ebadf | emsgsize | eio | emfile | enametoolong | enoexec | enotsup
  | eintr | enodata | enxio | esrch | echild | erofs
  deriving DecidableEq, Repr

end CoActionOS
