import SuperRaid.FatEntry
import SuperRaid.Transition

namespace SuperRaid.FatCache

open FatEntry

def maxCache : Nat := 8

/-- struct fat_cache: clusters of a file that follow each other on the disk as well. -/
structure Extent where
  nrContig : Nat
  fcluster : Nat
  dcluster : Nat
  deriving DecidableEq

structure CacheId where
  id : BitVec 32
  nrContig : Nat
  fcluster : Int
  dcluster : Int
  deriving DecidableEq

/-- The cache of an inode, the most recently used extent first. -/
structure Cache where
  lru : List Extent
  nrCaches : Nat
  validId : BitVec 32
  deriving DecidableEq

def cacheValid : BitVec 32 := 0

def cacheInit (fclus dclus : Int) : CacheId := ⟨cacheValid, 0, fclus, dclus⟩

def cacheContiguous (cid : CacheId) (dclus : Nat) : CacheId × Bool :=
  let cid := { cid with nrContig := cid.nrContig + 1 }
  (cid, cid.dcluster + cid.nrContig = dclus)

def CacheId.extent (cid : CacheId) : Extent := ⟨cid.nrContig, cid.fcluster.toNat, cid.dcluster.toNat⟩

def lookupLoop (fclus : Nat) : List Extent → Nat → Option (Nat × Extent × Nat) → Option (Nat × Extent × Nat)
  | [], _, hit => hit
  | p :: rest, i, hit =>
      if p.fcluster ≤ fclus ∧ (hit.elim 0 (fun h => h.2.1.fcluster)) < p.fcluster then
        if p.fcluster + p.nrContig < fclus then lookupLoop fclus rest (i + 1) (some (i, p, p.nrContig))
        else some (i, p, fclus - p.fcluster)
      else lookupLoop fclus rest (i + 1) hit

def fatCacheLookup (c : Cache) (fclus : Nat) : Option (CacheId × Nat × Nat) × Cache :=
  match lookupLoop fclus c.lru 0 none with
  | none => (none, c)
  | some (i, hit, offset) =>
      (some (⟨c.validId, hit.nrContig, hit.fcluster, hit.dcluster⟩, hit.fcluster + offset, hit.dcluster + offset),
        { c with lru := hit :: c.lru.eraseIdx i })

inductive Merge
  | absent
  | merged (lru : List Extent)
  | bug

def fatCacheMerge (lru : List Extent) (new : CacheId) : Merge :=
  match lru.find? (fun p => p.fcluster = new.fcluster) with
  | none => .absent
  | some p =>
      if p.dcluster ≠ new.dcluster then .bug
      else .merged
        ({ p with nrContig := max p.nrContig new.nrContig } :: lru.eraseP (fun p => p.fcluster = new.fcluster))

/-- How a part of fat_cache_add under the lock ends. It is broken if it hits a BUG_ON, or takes the last extent of an
empty list. -/
inductive AddEnd
  | ended (c : Cache)
  | reserved (c : Cache)
  | broken

def fatCacheAdd (c : Cache) (new : CacheId) : AddEnd :=
  if new.fcluster = -1 then .ended c
  else if new.id ≠ cacheValid ∧ new.id ≠ c.validId then .ended c
  else
    match fatCacheMerge c.lru new with
    | .bug => .broken
    | .merged lru => .ended { c with lru := lru }
    | .absent =>
        if c.nrCaches < maxCache then .reserved { c with nrCaches := c.nrCaches + 1 }
        else if c.lru = [] then .broken
        else .ended { c with lru := new.extent :: c.lru.dropLast }

def fatCacheInsert (c : Cache) (new : CacheId) (memory : Bool) : AddEnd :=
  if memory then
    match fatCacheMerge c.lru new with
    | .bug => .broken
    | .merged lru => .ended { c with lru := lru, nrCaches := c.nrCaches - 1 }
    | .absent => .ended { c with lru := new.extent :: c.lru }
  else .ended { c with nrCaches := c.nrCaches - 1 }

def fatCacheInvalInode (c : Cache) : Cache where
  lru := []
  nrCaches := c.nrCaches - c.lru.length
  validId := if c.validId + 1 = cacheValid then c.validId + 1 + 1 else c.validId + 1

inductive Result
  | found (fclus dclus : Nat)
  | eof (fclus dclus : Nat)
  | error
  deriving DecidableEq

inductive Pc
  | idle
  | looking (cluster : Nat)
  | walking (cluster fclus dclus : Nat) (cid : CacheId)
  | adding (cluster : Nat) (cid : CacheId) (res : Result)
  | allocating (cluster : Nat) (cid : CacheId) (res : Result)
  | done (cluster : Nat) (res : Result)
  | oops
  deriving DecidableEq

section Step

variable (valid : Nat → Bool) (limit : Nat)

/-- One section of fat_get_cluster that nothing can come between: a lookup in the cache, a read of an entry of the FAT,
a part of fat_cache_add. Whether the read or the allocation succeeds is up to the environment. -/
def getStep (next : Nat → Nat) (iStart : Nat) (ok : Bool) (c : Cache) : Pc → Option (Pc × Cache)
  | .looking cluster =>
      if iStart = 0 then some (.oops, c)
      else if valid iStart = false then some (.done cluster .error, c)
      else if cluster = 0 then some (.done cluster (.found 0 iStart), c)
      else
        match fatCacheLookup c cluster with
        | (some (cid, fclus, dclus), c) => some (.walking cluster fclus dclus cid, c)
        | (none, c) => some (.walking cluster 0 iStart (cacheInit (-1) (-1)), c)
  | .walking cluster fclus dclus cid =>
      if fclus < cluster then
        if limit < fclus ∨ ok = false ∨ valid dclus = false ∨ next dclus = entFree then
          some (.done cluster .error, c)
        else if next dclus = entEof then some (.adding cluster cid (.eof fclus dclus), c)
        else
          let (cid, contiguous) := cacheContiguous cid (next dclus)
          let cid := if contiguous then cid else cacheInit (fclus + 1 : Nat) (next dclus)
          some (.walking cluster (fclus + 1) (next dclus) cid, c)
      else some (.adding cluster cid (.found fclus dclus), c)
  | .adding cluster cid res =>
      match fatCacheAdd c cid with
      | .ended c => some (.done cluster res, c)
      | .reserved c => some (.allocating cluster cid res, c)
      | .broken => some (.oops, c)
  | .allocating cluster cid res =>
      match fatCacheInsert c cid ok with
      | .ended c => some (.done cluster res, c)
      | .reserved c => some (.allocating cluster cid res, c)
      | .broken => some (.oops, c)
  | .idle => none
  | .done _ _ => none
  | .oops => none

structure World (ι : Type) where
  next : Nat → Nat
  chain : List Nat
  iStart : Nat
  cache : Cache
  pc : ι → Pc

inductive Action (ι : Type)
  | call (i : ι) (cluster : Nat)
  | step (i : ι) (ok : Bool)
  | ret (i : ι)
  | inval
  | append (c : Nat)
  | truncate (k : Nat)
  | other (e v : Nat)

def Pc.below (k : Nat) : Pc → Bool
  | .idle => true
  | .looking cluster => cluster < k
  | .walking cluster _ _ _ => cluster < k
  | .adding cluster _ _ => cluster < k
  | .allocating cluster _ _ => cluster < k
  | .done cluster _ => cluster < k
  | .oops => false

variable {ι : Type} [Fintype ι] [DecidableEq ι]

/-- The file may grow at any time, and shrink while nobody looks for what is cut off. The number of the cache does not
come round. -/
def step (w : World ι) : Action ι → Option (World ι)
  | .call i cluster =>
      if w.pc i = .idle ∧ w.iStart ≠ 0 then
        some { w with pc := Function.update w.pc i (.looking cluster) }
      else none
  | .step i ok =>
      (getStep valid limit w.next w.iStart ok w.cache (w.pc i)).map (fun r =>
        { w with pc := Function.update w.pc i r.1, cache := r.2 })
  | .ret i =>
      match w.pc i with
      | .done _ _ => some { w with pc := Function.update w.pc i .idle }
      | _ => none
  | .inval =>
      if w.cache.validId.toNat + 1 < 2 ^ 32 then some { w with cache := fatCacheInvalInode w.cache } else none
  | .append c =>
      if c ∉ w.chain ∧ valid c then
        match w.chain.getLast? with
        | none => some { w with next := Function.update w.next c entEof, chain := [c], iStart := c }
        | some last => some { w with
            next := Function.update (Function.update w.next c entEof) last c, chain := w.chain ++ [c] }
      else none
  | .truncate k =>
      if k < w.chain.length ∧ (∀ i, (w.pc i).below k = true) ∧ w.cache.validId.toNat + 1 < 2 ^ 32 then
        some { w with
          next := fun e => if e ∈ w.chain.drop k then entFree else if (w.chain.take k).getLast? = some e then entEof
            else w.next e
          chain := w.chain.take k
          iStart := if k = 0 then 0 else w.iStart
          cache := fatCacheInvalInode w.cache }
      else none
  | .other e v => if e ∉ w.chain then some { w with next := Function.update w.next e v } else none

end Step

end SuperRaid.FatCache
