import SuperRaid.Locks

namespace SuperRaid.FatGate

open Locks

/-- write_gate, s_umount and s_lock of one superblock, and the inode locks by inode number. -/
inductive Lock
  | gate
  | sUmount
  | sLock
  | inode (i : Nat)
  deriving DecidableEq, Repr

inductive Event
  | quiet
  | entered
  | began
  | refused
  | left
  | ended
  | mutate
  | blocked
  | unblocked
  | sync
  | flush
  | committed
  | upWrite
  deriving DecidableEq, Repr

abbrev FatCode := Code Lock Event

def lock (l : Lock) (k : FatCode) : FatCode := .acquire .write l .quiet k

def unlock (l : Lock) (k : FatCode) : FatCode := .release .write l .quiet k

/-- fat_begin_write, with what its caller does when it is refused and when it returns 0. -/
def fatBeginWrite (refused ok : FatCode) : FatCode :=
  .acquire .read .gate .entered
    (.test .refused (.release .read .gate .left refused) .began ok)

def fatEndWrite (k : FatCode) : FatCode := .release .read .gate .ended k

/-- fat_disable_write. The sync may write the FSINFO inode, which takes s_lock. -/
def fatDisableWrite : FatCode :=
  let failed := unlock .sUmount (.set false .unblocked (.release .write .gate .upWrite (.ret false)))
  let committed := .release .write .sUmount .committed (.release .write .gate .upWrite (.ret true))
  let flush := .choose (.act .flush (.choose committed failed)) failed
  .acquire .write .gate .quiet (.set true .blocked (lock .sUmount (.act .sync
    (.choose (lock .sLock (unlock .sLock flush)) flush))))

/-- Up to n changes of pages, buffers or inodes. -/
def mutates : Nat → FatCode → FatCode
  | 0, k => k
  | n + 1, k => .choose (.act .mutate (mutates n k)) k

def fallible (n : Nat) (ok err : FatCode) : FatCode := mutates n (.choose ok err)

/-- The wrapper most entry points are: return the error of fat_begin_write, or run the body inside the gate. -/
def gated (body : (Bool → FatCode) → FatCode) (k : Bool → FatCode) : FatCode :=
  fatBeginWrite (k false) (body (fun ok => fatEndWrite (k ok)))

section Operations

variable (n : Nat) (k : Bool → FatCode)

def unlocked : FatCode := fallible n (k true) (k false)

def underInodeLock (i : Nat) : FatCode :=
  lock (.inode i) (fallible n (unlock (.inode i) (k true)) (unlock (.inode i) (k false)))

def genericFileWriteIter (i : Nat) : FatCode := underInodeLock n k i

def fatFileWriteIter (i : Nat) : FatCode := gated (fun k => genericFileWriteIter n k i) k

def fatPageMkwrite : FatCode := gated (unlocked n) k

/-- The loop of iter_file_splice_write over the pipe's buffers: each batch goes through write_iter again. -/
def spliceLoop (i : Nat) : Nat → FatCode
  | 0 => k true
  | m + 1 => .choose (fatFileWriteIter n (fun ok => if ok then spliceLoop i m else k false) i) (k true)

def fatFileSpliceWrite (i : Nat) : FatCode := gated (fun k => spliceLoop n k i n) k

def fatFallocate (i : Nat) : FatCode := .choose (underInodeLock n k i) (k false)

def fatFileFallocate (i : Nat) : FatCode := gated (fun k => fatFallocate n k i) k

def fatIoctlSetAttributes (i : Nat) : FatCode :=
  let out ok := fatEndWrite (k ok)
  let outUnlockInode ok := unlock (.inode i) (out ok)
  let setattr := fallible n (mutates n (outUnlockInode true)) (outUnlockInode false)
  let checks := .choose (.choose setattr (outUnlockInode false)) (outUnlockInode false)
  fatBeginWrite (k false) (.choose (.choose (lock (.inode i) checks) (out false)) (out false))

def fatIoctlFitrim : FatCode := gated (unlocked n) k

def fatSetattr : FatCode := gated (unlocked n) k

def vfatCreate : FatCode :=
  let out ok := unlock .sLock (fatEndWrite (k ok))
  let buildInode := .choose (out true) (out false)
  fatBeginWrite (k false) (lock .sLock (fallible n buildInode (out false)))

def vfatUnlink : FatCode :=
  let out ok := unlock .sLock (fatEndWrite (k ok))
  let removeEntries := fallible n (mutates n (out true)) (out false)
  fatBeginWrite (k false) (lock .sLock (.choose removeEntries (out false)))

def vfatRmdir : FatCode :=
  let out ok := unlock .sLock (fatEndWrite (k ok))
  let removeEntries := fallible n (mutates n (out true)) (out false)
  fatBeginWrite (k false) (lock .sLock (.choose (.choose removeEntries (out false)) (out false)))

def vfatMkdir : FatCode :=
  let out ok := unlock .sLock (fatEndWrite (k ok))
  let outFree := mutates n (out false)
  let buildInode := .choose (mutates n (out true)) (out false)
  let addEntry := fallible n (mutates n buildInode) outFree
  fatBeginWrite (k false) (lock .sLock (fallible n addEntry (out false)))

/-- vfat_rename and vfat_rename_exchange: lookups that may fail, the change, and its undo on a later error. -/
def vfatRenameLocked : FatCode :=
  let out ok := unlock .sLock (k ok)
  lock .sLock (.choose (fallible n (fallible n (out true) (mutates n (out false))) (out false)) (out false))

def vfatRename2 : FatCode :=
  let out ok := fatEndWrite (k ok)
  let rename := vfatRenameLocked n out
  fatBeginWrite (k false) (.choose (.choose rename rename) (out false))

end Operations

/-- The inodes the VFS has locked when it calls an operation, in the order it locks them. -/
structure VfsLocks where
  inodes : List Nat
  sorted : inodes.Pairwise (· < ·)
  deriving DecidableEq

inductive Op
  | fileWriteIter (i : Nat)
  | pageMkwrite
  | fileSpliceWrite (i : Nat)
  | fileFallocate (i : Nat)
  | ioctlSetAttributes (i : Nat)
  | ioctlFitrim
  | setattr (v : VfsLocks)
  | create (v : VfsLocks)
  | rmdir (v : VfsLocks)
  | unlink (v : VfsLocks)
  | mkdir (v : VfsLocks)
  | rename2 (v : VfsLocks)
  deriving DecidableEq

def lockAll : List Nat → FatCode → FatCode
  | [], k => k
  | i :: is, k => lock (.inode i) (lockAll is k)

def unlockAll : List Nat → FatCode → FatCode
  | [], k => k
  | i :: is, k => unlock (.inode i) (unlockAll is k)

def underVfs (v : VfsLocks) (op : (Bool → FatCode) → FatCode) : FatCode :=
  lockAll v.inodes (op (fun ok => unlockAll v.inodes.reverse (.ret ok)))

/-- What a thread running the operation executes, each helper making at most n changes. -/
def Op.code (n : Nat) : Op → FatCode
  | .fileWriteIter i => fatFileWriteIter n .ret i
  | .pageMkwrite => fatPageMkwrite n .ret
  | .fileSpliceWrite i => fatFileSpliceWrite n .ret i
  | .fileFallocate i => fatFileFallocate n .ret i
  | .ioctlSetAttributes i => fatIoctlSetAttributes n .ret i
  | .ioctlFitrim => fatIoctlFitrim n .ret
  | .setattr v => underVfs v (fatSetattr n)
  | .create v => underVfs v (vfatCreate n)
  | .rmdir v => underVfs v (vfatRmdir n)
  | .unlink v => underVfs v (vfatUnlink n)
  | .mkdir v => underVfs v (vfatMkdir n)
  | .rename2 v => underVfs v (vfatRename2 n)

inductive Call
  | op (o : Op)
  | disableWrite
  deriving DecidableEq

def Call.code (n : Nat) : Call → FatCode
  | .op o => o.code n
  | .disableWrite => fatDisableWrite

def threads {ι : Type} (n : Nat) (calls : ι → Call) (t : ι) : FatCode := (calls t).code n

end SuperRaid.FatGate
