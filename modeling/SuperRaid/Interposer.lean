import SuperRaid.FileFlags
import SuperRaid.Transition

namespace SuperRaid.Interposer

open FileFlags

abbrev CInt := BitVec 32
abbrev Word := BitVec 64

def rwfDsync : CInt := 0x2
def rwfSync : CInt := 0x4
def fDupfd : CInt := 0
def fGetfd : CInt := 1
def fGetfl : CInt := 3
def fSetfl : CInt := 4
def fDupfdCloexec : CInt := 1030

def syncMask : CInt := oDirect ||| oSync ||| oDsync

structure OpenHow where
  flags : Word
  mode : Word
  resolve : Word

/-- The calls of an app. A variadic argument is what its register holds, whether the app set it or not, and a null
pointer to struct open_how is none. -/
inductive Call
  | openFile (pathname : Word) (flags : CInt) (mode : CInt)
  | openat (dirfd : CInt) (pathname : Word) (flags : CInt) (mode : CInt)
  | openat2 (dirfd : CInt) (pathname : Word) (how : Option OpenHow) (size : Word)
  | creat (pathname : Word) (mode : CInt)
  | fcntl (fd cmd : CInt) (arg : Word)
  | pwritev2 (fd : CInt) (iov : Word) (iovcnt : CInt) (offset : Word) (flags : CInt)
  | pwritev64v2 (fd : CInt) (iov : Word) (iovcnt : CInt) (offset : Word) (flags : CInt)
  | fsync (fd : CInt)
  | fdatasync (fd : CInt)
  | sync
  | syncfs (fd : CInt)
  | msync (addr length : Word) (flags : CInt)
  | syncFileRange (fd : CInt) (offset nbytes : Word) (flags : CInt)

/-- What reaches libc, or the kernel for openat2. A variadic argument that is not passed is none. -/
inductive Libc
  | openFile (pathname : Word) (flags : CInt) (mode : Option CInt)
  | openat (dirfd : CInt) (pathname : Word) (flags : CInt) (mode : Option CInt)
  | openat2 (dirfd : CInt) (pathname : Word) (how : OpenHow) (size : Word)
  | creat (pathname : Word) (mode : CInt)
  | fcntl (fd cmd : CInt) (arg : Option Word)
  | pwritev2 (fd : CInt) (iov : Word) (iovcnt : CInt) (offset : Word) (flags : CInt)
  | pwritev64v2 (fd : CInt) (iov : Word) (iovcnt : CInt) (offset : Word) (flags : CInt)
  | fsync (fd : CInt)
  | fdatasync (fd : CInt)
  | sync
  | syncfs (fd : CInt)
  | msync (addr length : Word) (flags : CInt)
  | syncFileRange (fd : CInt) (offset nbytes : Word) (flags : CInt)

inductive Errno
  | eopnotsupp | einval
  | other (code : Nat)
deriving DecidableEq

section Functions

variable (forcePagecache : Bool)

def unlessForced (forward : Libc) : Except Errno Libc :=
  if forcePagecache then .error .eopnotsupp else .ok forward

def fsync (fd : CInt) : Except Errno Libc := unlessForced forcePagecache (.fsync fd)

def sync : Except Errno Libc := unlessForced forcePagecache .sync

def fdatasync (fd : CInt) : Except Errno Libc := unlessForced forcePagecache (.fdatasync fd)

def msync (addr length : Word) (flags : CInt) : Except Errno Libc :=
  unlessForced forcePagecache (.msync addr length flags)

def syncFileRange (fd : CInt) (offset nbytes : Word) (flags : CInt) : Except Errno Libc :=
  unlessForced forcePagecache (.syncFileRange fd offset nbytes flags)

def syncfs (fd : CInt) : Except Errno Libc := unlessForced forcePagecache (.syncfs fd)

def needsMode (flags : CInt) : Bool := flags &&& oCreat ≠ 0 ∨ flags &&& oTmpfile = oTmpfile

def checkedOpen (flags mode : CInt) (forward : Option CInt → Libc) : Except Errno Libc :=
  if forcePagecache ∧ flags &&& syncMask ≠ 0 then .error .eopnotsupp
  else if needsMode flags then .ok (forward (some mode))
  else .ok (forward none)

def openFile (pathname : Word) (flags mode : CInt) : Except Errno Libc :=
  checkedOpen forcePagecache flags mode (.openFile pathname flags)

def openat (dirfd : CInt) (pathname : Word) (flags mode : CInt) : Except Errno Libc :=
  checkedOpen forcePagecache flags mode (.openat dirfd pathname flags)

def howSize : Word := 24

def openat2 (dirfd : CInt) (pathname : Word) (how : Option OpenHow) (size : Word) : Except Errno Libc :=
  match how with
  | none => .error .einval
  | some sanitized =>
      if size ≠ howSize then .error .einval
      else if forcePagecache ∧ sanitized.flags &&& syncMask.setWidth 64 ≠ 0 then .error .eopnotsupp
      else .ok (.openat2 dirfd pathname sanitized size)

def creat (pathname : Word) (mode : CInt) : Except Errno Libc := .ok (.creat pathname mode)

def fcntl (fd cmd : CInt) (arg : Word) : Except Errno Libc :=
  if cmd = fGetfd ∨ cmd = fGetfl then .ok (.fcntl fd cmd none)
  else if cmd = fSetfl then
    let fl : CInt := arg.setWidth 32
    if forcePagecache ∧ fl &&& syncMask ≠ 0 then .error .eopnotsupp
    else .ok (.fcntl fd cmd (some (fl.signExtend 64)))
  else .ok (.fcntl fd cmd (some arg))

def rejectPwritev2Flags (flags : CInt) : Bool := forcePagecache ∧ flags &&& (rwfSync ||| rwfDsync) ≠ 0

def checkedPwritev2 (flags : CInt) (forward : Libc) : Except Errno Libc :=
  if rejectPwritev2Flags forcePagecache flags then .error .eopnotsupp else .ok forward

def pwritev2 (fd : CInt) (iov : Word) (iovcnt : CInt) (offset : Word) (flags : CInt) : Except Errno Libc :=
  checkedPwritev2 forcePagecache flags (.pwritev2 fd iov iovcnt offset flags)

def pwritev64v2 (fd : CInt) (iov : Word) (iovcnt : CInt) (offset : Word) (flags : CInt) : Except Errno Libc :=
  checkedPwritev2 forcePagecache flags (.pwritev64v2 fd iov iovcnt offset flags)

def intercept : Call → Except Errno Libc
  | .openFile pathname flags mode => openFile forcePagecache pathname flags mode
  | .openat dirfd pathname flags mode => openat forcePagecache dirfd pathname flags mode
  | .openat2 dirfd pathname how size => openat2 forcePagecache dirfd pathname how size
  | .creat pathname mode => creat pathname mode
  | .fcntl fd cmd arg => fcntl forcePagecache fd cmd arg
  | .pwritev2 fd iov iovcnt offset flags => pwritev2 forcePagecache fd iov iovcnt offset flags
  | .pwritev64v2 fd iov iovcnt offset flags => pwritev64v2 forcePagecache fd iov iovcnt offset flags
  | .fsync fd => fsync forcePagecache fd
  | .fdatasync fd => fdatasync forcePagecache fd
  | .sync => sync forcePagecache
  | .syncfs fd => syncfs forcePagecache fd
  | .msync addr length flags => msync forcePagecache addr length flags
  | .syncFileRange fd offset nbytes flags => syncFileRange forcePagecache fd offset nbytes flags

end Functions

/-- A process: the gate, the status flags of the open files, and the file each descriptor refers to. -/
structure Process where
  forcePagecache : Bool
  files : List CInt
  fds : CInt → Option Nat

/-- The outcome of a call that reached libc: an error, or a value, and for a new file the flags it gets besides those
that the gate is about. -/
structure Reply where
  result : Except Errno CInt
  extra : CInt

namespace Process

def install (p : Process) (fd flags : CInt) : Process :=
  { p with files := p.files ++ [flags], fds := Function.update p.fds fd (some p.files.length) }

def openedFlags (requested extra : CInt) : CInt := mix syncMask extra requested

def setFlags (p : Process) (fd : CInt) (arg : CInt) : Process :=
  match p.fds fd with
  | none => p
  | some i => { p with files := p.files.modify i (setfl · arg) }

def perform (p : Process) (value extra : CInt) : Libc → Process
  | .openFile _ flags _ | .openat _ _ flags _ => p.install value (openedFlags flags extra)
  | .openat2 _ _ how _ => p.install value (openedFlags (how.flags.setWidth 32) extra)
  | .creat _ _ => p.install value (openedFlags (oWronly ||| oCreat ||| oTrunc) extra)
  | .fcntl fd cmd arg =>
      if cmd = fSetfl then p.setFlags fd ((arg.getD 0).setWidth 32)
      else if cmd = fDupfd ∨ cmd = fDupfdCloexec then { p with fds := Function.update p.fds value (p.fds fd) }
      else p
  | _ => p

def status (p : Process) (fd : CInt) : Option CInt := (p.fds fd).bind (p.files[·]?)

end Process

structure Outcome where
  forwarded : Option Libc
  result : Except Errno CInt

def call (p : Process) (c : Call) (reply : Reply) : Process × Outcome :=
  match intercept p.forcePagecache c with
  | .error errno => (p, ⟨none, .error errno⟩)
  | .ok forward => match reply.result with
      | .error errno => (p, ⟨some forward, .error errno⟩)
      | .ok value => (p.perform value reply.extra forward, ⟨some forward, .ok value⟩)

def disableForcePagecache (p : Process) : Process := { p with forcePagecache := false }

inductive Action
  | call (c : Call) (reply : Reply)
  | sigusr2

def step (p : Process) : Action → Option Process
  | .call c reply => some (call p c reply).1
  | .sigusr2 => some (disableForcePagecache p)

def initial : Process := ⟨true, [], fun _ => none⟩

end SuperRaid.Interposer
