import Mathlib.Algebra.Order.BigOperators.Group.Finset
import SuperRaid.FatCache
import SuperRaid.FatFree

namespace SuperRaid.FatCache

open FatEntry FatTable Transition LinkTable

variable {chain chain' : List Nat} {valid : Nat → Bool} {limit : Nat} {c : Cache} {cid : CacheId} {p : Extent}
  {cluster : Nat} {validId : BitVec 32}

section Extents

theorem getElem?_of_prefix (hpre : chain <+: chain') {i d : Nat} (h : chain[i]? = some d) : chain'[i]? = some d := by
  obtain ⟨rest, rfl⟩ := hpre
  obtain ⟨hlt, -⟩ := List.getElem?_eq_some_iff.mp h
  rw [List.getElem?_append_left hlt, h]

def Extent.Ok (chain : List Nat) (p : Extent) : Prop :=
  1 ≤ p.fcluster ∧ ∀ j ≤ p.nrContig, chain[p.fcluster + j]? = some (p.dcluster + j)

theorem Extent.Ok.mono (h : p.Ok chain) (hpre : chain <+: chain') : p.Ok chain' :=
  ⟨h.1, fun j hj => getElem?_of_prefix hpre (h.2 j hj)⟩

theorem lookupLoop_spec {fclus i : Nat} {lru : List Extent} {hit : Option (Nat × Extent × Nat)}
    {r : Nat × Extent × Nat} (h : lookupLoop fclus lru i hit = some r) :
    hit = some r ∨ (i ≤ r.1 ∧ r.1 < i + lru.length) ∧ r.2.1 ∈ lru ∧ r.2.1.fcluster ≤ fclus ∧
      (r.2.2 = r.2.1.nrContig ∧ r.2.1.fcluster + r.2.1.nrContig < fclus ∨
        r.2.1.fcluster + r.2.2 = fclus ∧ r.2.2 ≤ r.2.1.nrContig) := by
  induction lru generalizing i hit with
  | nil => exact .inl h
  | cons p rest ih =>
      rw [lookupLoop] at h
      rw [List.length_cons]
      have hlater : (i + 1 ≤ r.1 ∧ r.1 < i + 1 + rest.length) → i ≤ r.1 ∧
          r.1 < i + (rest.length + 1) := by omega
      split_ifs at h with hnear hshort
      · rcases ih h with heq | ⟨hi, hmem, hr⟩
        · cases heq
          exact .inr ⟨by dsimp only; omega, List.mem_cons_self, hnear.1, .inl ⟨rfl, hshort⟩⟩
        · exact .inr ⟨hlater hi, List.mem_cons_of_mem _ hmem, hr⟩
      · cases h
        exact .inr ⟨by dsimp only; omega, List.mem_cons_self, hnear.1, .inr (by dsimp only; omega)⟩
      · rcases ih h with heq | ⟨hi, hmem, hr⟩
        · exact .inl heq
        · exact .inr ⟨hlater hi, List.mem_cons_of_mem _ hmem, hr⟩

/-- What a call is about to add to the cache, when it looks for the given cluster: right as far as that cluster, and as
a whole if it has not become stale. -/
inductive CacheId.Ok (chain : List Nat) (validId : BitVec 32) (cluster : Nat) : CacheId → Prop
  | dummy : Ok chain validId cluster (cacheInit (-1) (-1))
  | extent {f d n : Nat} {id : BitVec 32} (hf : 1 ≤ f) (hle : f ≤ cluster)
      (near : ∀ j ≤ n, f + j ≤ cluster → chain[f + j]? = some (d + j))
      (own : id = cacheValid → f + n ≤ cluster)
      (fresh : id = validId → ∀ j ≤ n, chain[f + j]? = some (d + j))
      (old : id.toNat ≤ validId.toNat) : Ok chain validId cluster ⟨id, n, f, d⟩

def CacheId.Whole (chain : List Nat) (cid : CacheId) : Prop :=
  ∃ f d : Nat, cid.fcluster = f ∧ cid.dcluster = d ∧ Extent.Ok chain ⟨cid.nrContig, f, d⟩

theorem CacheId.Whole.extent_ok (h : cid.Whole chain) : cid.extent.Ok chain := by
  obtain ⟨f, d, hf, hd, hok⟩ := h
  simpa [CacheId.extent, hf, hd] using hok

theorem CacheId.Ok.whole (h : cid.Ok chain validId cluster) (hreal : cid.fcluster ≠ -1)
    (hid : ¬ (cid.id ≠ cacheValid ∧ cid.id ≠ validId)) : cid.Whole chain := by
  cases h with
  | dummy => exact absurd rfl hreal
  | @extent f d n id hf hle near own fresh old =>
      refine ⟨f, d, rfl, rfl, hf, fun j hj => ?_⟩
      by_cases hvalid : id = validId
      · exact fresh hvalid j hj
      · have hzero : id = cacheValid := not_not.mp (fun hne => hid ⟨hne, hvalid⟩)
        exact near j hj ((Nat.add_le_add_left hj f).trans (own hzero))

theorem fatCacheLookup_spec (hlru : ∀ p ∈ c.lru, p.Ok chain) (hid : c.validId ≠ cacheValid)
    {hit : Option (CacheId × Nat × Nat)} {c' : Cache} (h : fatCacheLookup c cluster = (hit, c')) :
    ((∀ p ∈ c'.lru, p.Ok chain) ∧ c'.lru.length = c.lru.length ∧ c'.nrCaches = c.nrCaches ∧
      c'.validId = c.validId) ∧
      ∀ cid fclus dclus, hit = some (cid, fclus, dclus) → cid.Ok chain c.validId cluster ∧ fclus ≤ cluster ∧
        chain[fclus]? = some dclus ∧ (fclus < cluster → cid.fcluster + cid.nrContig = fclus) := by
  unfold fatCacheLookup at h
  cases hloop : lookupLoop cluster c.lru 0 none with
  | none =>
      rw [hloop] at h
      cases h
      exact ⟨⟨hlru, rfl, rfl, rfl⟩, by simp⟩
  | some r =>
      obtain ⟨i, p, offset⟩ := r
      rw [hloop] at h
      cases h
      rcases lookupLoop_spec hloop with hnone | ⟨hi, hmem, hle, hoffset⟩
      · cases hnone
      dsimp only at hi hmem hle hoffset ⊢
      have hp := hlru p hmem
      have hin : offset ≤ p.nrContig := by omega
      refine ⟨⟨fun q hq => ?_, ?_, rfl, rfl⟩, ?_⟩
      · rcases List.mem_cons.mp hq with rfl | hq
        · exact hp
        · exact hlru q (List.mem_of_mem_eraseIdx hq)
      · rw [List.length_cons, List.length_eraseIdx_of_lt (by omega)]
        omega
      · rintro cid fclus dclus heq
        cases heq
        refine ⟨.extent hp.1 hle (fun j hj _ => hp.2 j hj) (fun hzero => absurd hzero hid) (fun _ => hp.2) le_rfl,
          by omega, hp.2 _ hin, fun hlt => ?_⟩
        dsimp only
        omega

theorem fatCacheMerge_spec {lru : List Extent} (hlru : ∀ p ∈ lru, p.Ok chain) (hnew : cid.Whole chain) :
    fatCacheMerge lru cid ≠ .bug ∧ ∀ lru', fatCacheMerge lru cid = .merged lru' →
      (∀ p ∈ lru', p.Ok chain) ∧ lru'.length = lru.length := by
  obtain ⟨f, d, hf, hd, hok⟩ := hnew
  unfold fatCacheMerge
  cases hfind : lru.find? (fun p => p.fcluster = cid.fcluster) with
  | none => simp
  | some q =>
      have hmem : q ∈ lru := List.mem_of_find?_eq_some hfind
      have hq : q.Ok chain := hlru q hmem
      have hfound := List.find?_some hfind
      have hsame : q.fcluster = f := by
        simp only [hf, decide_eq_true_eq] at hfound
        exact_mod_cast hfound
      have hdclus : q.dcluster = d := by
        have h₁ := hq.2 0 (Nat.zero_le _)
        have h₂ := hok.2 0 (Nat.zero_le _)
        rw [hsame] at h₁
        exact Option.some.inj (h₁.symm.trans h₂)
      dsimp only
      rw [if_neg (by simp [hdclus, hd])]
      refine ⟨by simp, ?_⟩
      rintro lru' heq
      cases heq
      refine ⟨fun p hp => ?_, ?_⟩
      · rcases List.mem_cons.mp hp with rfl | hp
        · refine ⟨hq.1, fun j hj => ?_⟩
          rcases le_max_iff.mp hj with hj | hj
          · exact hq.2 j hj
          · dsimp only
            rw [hsame, hdclus]
            exact hok.2 j hj
        · exact hlru p (List.mem_of_mem_eraseP hp)
      · rw [List.length_cons, List.length_eraseP_of_mem hmem hfound]
        have := List.length_pos_of_mem hmem
        omega

/-- The extents are right, and the calls that have reserved one are r. -/
structure Cache.Ok (chain : List Nat) (r : Nat) (c : Cache) : Prop where
  lru : ∀ p ∈ c.lru, p.Ok chain
  count : c.nrCaches = c.lru.length + r
  room : c.nrCaches ≤ maxCache
  validId : c.validId ≠ cacheValid

variable {r : Nat}

theorem fatCacheAdd_spec (h : c.Ok chain r) (hr : r < maxCache) (hcid : cid.Ok chain c.validId cluster) :
    (∃ c', fatCacheAdd c cid = .ended c' ∧ c'.Ok chain r ∧ c'.validId = c.validId) ∨
      (∃ c', fatCacheAdd c cid = .reserved c' ∧ c'.Ok chain (r + 1) ∧ c'.validId = c.validId ∧
        cid.Whole chain) := by
  unfold fatCacheAdd
  by_cases hdummy : cid.fcluster = -1
  · rw [if_pos hdummy]
    exact .inl ⟨c, rfl, h, rfl⟩
  rw [if_neg hdummy]
  by_cases hstale : cid.id ≠ cacheValid ∧ cid.id ≠ c.validId
  · rw [if_pos hstale]
    exact .inl ⟨c, rfl, h, rfl⟩
  · rw [if_neg hstale]
    have hwhole := hcid.whole hdummy hstale
    obtain ⟨hbug, hmerged⟩ := fatCacheMerge_spec h.lru hwhole
    cases hmerge : fatCacheMerge c.lru cid with
    | bug => exact absurd hmerge hbug
    | merged lru =>
        obtain ⟨hlru, hlen⟩ := hmerged lru hmerge
        exact .inl ⟨_, rfl, ⟨hlru, by rw [h.count, hlen], h.room, h.validId⟩, rfl⟩
    | absent =>
        have hcount := h.count
        dsimp only
        split_ifs with hroom hempty
        · exact .inr ⟨_, rfl, ⟨h.lru, by dsimp only; omega, hroom, h.validId⟩, rfl, hwhole⟩
        · -- all extents are reserved, but not by that many calls
          rw [hempty, List.length_nil] at hcount
          omega
        · have hpos := List.length_pos_of_ne_nil hempty
          refine .inl ⟨_, rfl, ⟨fun p hp => ?_, ?_, h.room, h.validId⟩, rfl⟩
          · rcases List.mem_cons.mp hp with rfl | hp
            · exact hwhole.extent_ok
            · exact h.lru p (List.mem_of_mem_dropLast hp)
          · rw [List.length_cons, List.length_dropLast]
            dsimp only
            omega

theorem fatCacheInsert_spec (h : c.Ok chain (r + 1)) (hcid : cid.Whole chain) (memory : Bool) :
    ∃ c', fatCacheInsert c cid memory = .ended c' ∧ c'.Ok chain r ∧ c'.validId = c.validId := by
  have hcount := h.count
  have hroom := h.room
  unfold fatCacheInsert
  split_ifs with hmemory
  · obtain ⟨hbug, hmerged⟩ := fatCacheMerge_spec h.lru hcid
    cases hmerge : fatCacheMerge c.lru cid with
    | bug => exact absurd hmerge hbug
    | merged lru =>
        obtain ⟨hlru, hlen⟩ := hmerged lru hmerge
        exact ⟨_, rfl, ⟨hlru, by dsimp only; omega, by dsimp only; omega, h.validId⟩, rfl⟩
    | absent =>
        refine ⟨_, rfl, ⟨fun p hp => ?_, by dsimp only [List.length_cons]; omega, hroom, h.validId⟩, rfl⟩
        rcases List.mem_cons.mp hp with rfl | hp
        · exact hcid.extent_ok
        · exact h.lru p hp
  · exact ⟨_, rfl, ⟨h.lru, by dsimp only; omega, by dsimp only; omega, h.validId⟩, rfl⟩

theorem fatCacheInvalInode_spec (h : c.Ok chain r) (hid : c.validId.toNat + 1 < 2 ^ 32) :
    (fatCacheInvalInode c).Ok chain' r ∧ (fatCacheInvalInode c).validId.toNat = c.validId.toNat + 1 := by
  have hcount := h.count
  have hroom := h.room
  have hsum : (c.validId + 1).toNat = c.validId.toNat + 1 := by
    rw [BitVec.toNat_add]
    exact Nat.mod_eq_of_lt hid
  have hne : c.validId + 1 ≠ cacheValid := fun heq => by
    rw [heq] at hsum
    exact absurd hsum (by simp [cacheValid])
  have hnext : (fatCacheInvalInode c).validId = c.validId + 1 := if_neg hne
  refine ⟨⟨by simp [fatCacheInvalInode], ?_, ?_, by rwa [hnext]⟩, by rw [hnext, hsum]⟩
  · simp only [fatCacheInvalInode, List.length_nil]
    omega
  · simp only [fatCacheInvalInode]
    omega

end Extents

section Calls

def Result.Ok (chain : List Nat) (cluster : Nat) : Result → Prop
  | .found fclus dclus => fclus = cluster ∧ chain[fclus]? = some dclus
  | .eof fclus dclus => fclus < cluster ∧ chain[fclus]? = some dclus
  | .error => True

def Pc.Ok (chain : List Nat) (validId : BitVec 32) : Pc → Prop
  | .idle => True
  | .looking _ => chain ≠ []
  | .walking cluster fclus dclus cid => cid.Ok chain validId cluster ∧ fclus ≤ cluster ∧
    chain[fclus]? = some dclus ∧
      (fclus < cluster → cid = cacheInit (-1) (-1) ∨ cid.fcluster + cid.nrContig = fclus)
  | .adding cluster cid res => cid.Ok chain validId cluster ∧ res.Ok chain cluster
  | .allocating cluster cid res => cid.Whole chain ∧ res.Ok chain cluster
  | .done cluster res => res.Ok chain cluster
  | .oops => False

def Pc.reserves : Pc → Nat
  | .allocating _ _ _ => 1
  | _ => 0

structure Links (valid : Nat → Bool) (next : Nat → Nat) (chain : List Nat) : Prop where
  segment : Segment next (chain.headD entEof) chain entEof
  valid : ∀ d ∈ chain, valid d = true
  nodup : chain.Nodup

variable {next : Nat → Nat} {iStart : Nat} {ok : Bool} {pc pc' : Pc} {c' : Cache} {r : Nat}

theorem cacheContiguous_dummy {dclus : Nat} (h : dclus ≠ entFree) :
    (cacheContiguous (cacheInit (-1) (-1)) dclus).2 = false := by
  refine decide_eq_false (fun heq => h ?_)
  simpa [cacheInit, entFree] using heq.symm

theorem cacheContiguous_extent {id : BitVec 32} {n d dclus : Nat} {f : Int}
    (h : (cacheContiguous ⟨id, n, f, d⟩ dclus).2 = true) : dclus = d + (n + 1) := by
  simp only [cacheContiguous, decide_eq_true_eq] at h
  exact_mod_cast h.symm

theorem walk_ok {fclus dclus : Nat} (hlinks : Links valid next chain) (hcid : cid.Ok chain validId cluster)
    (hlt : fclus < cluster) (hd : chain[fclus]? = some dclus)
    (hat : cid = cacheInit (-1) (-1) ∨ cid.fcluster + cid.nrContig = fclus) (hfree : next dclus ≠ entFree)
    (heof : next dclus ≠ entEof) :
    Pc.Ok chain validId (.walking cluster (fclus + 1) (next dclus)
      (if (cacheContiguous cid (next dclus)).2 then (cacheContiguous cid (next dclus)).1
        else cacheInit (fclus + 1 : Nat) (next dclus))) := by
  have hnext : chain[fclus + 1]? = some (next dclus) := by
    have hlink := hlinks.segment.getElem? hd
    cases h : chain[fclus + 1]? with
    | none =>
        rw [h] at hlink
        exact absurd hlink heof
    | some d =>
        rw [h] at hlink
        rw [hlink, Option.getD_some]
  have hinit : (cacheInit (fclus + 1 : Nat) (next dclus)).Ok chain validId cluster := by
    refine .extent (Nat.le_add_left 1 fclus) hlt (fun j hj _ => ?_) (fun _ => hlt) (fun _ j hj => ?_) (Nat.zero_le _)
    all_goals
      obtain rfl := Nat.le_zero.mp hj
      exact hnext
  have hfresh :
      Pc.Ok chain validId (.walking cluster (fclus + 1) (next dclus) (cacheInit (fclus + 1 : Nat) (next dclus))) :=
    ⟨hinit, hlt, hnext, fun _ => .inr (by simp [cacheInit])⟩
  split_ifs with hcontiguous
  · cases hcid with
    | dummy => simp [cacheContiguous_dummy hfree] at hcontiguous
    | @extent f d n id hf hle near own fresh old =>
        have hn : f + n = fclus := by
          rcases hat with hat | hat
          · simp [cacheInit] at hat
          · dsimp only at hat
            exact_mod_cast hat
        have hsum := cacheContiguous_extent hcontiguous
        have hlast : chain[f + (n + 1)]? = some (d + (n + 1)) := by rw [← hsum, ← hnext, ← hn, Nat.add_assoc]
        refine ⟨.extent hf hle (fun j hj hjle => ?_) (fun _ => ?_) (fun hid j hj => ?_) old, hlt, hnext,
          fun _ => .inr ?_⟩
        · rcases Nat.le_succ_iff.mp hj with hj | rfl
          · exact near j hj hjle
          · exact hlast
        · dsimp only
          omega
        · rcases Nat.le_succ_iff.mp hj with hj | rfl
          · exact fresh hid j hj
          · exact hlast
        · dsimp only [cacheContiguous]
          push_cast
          omega
  · exact hfresh

theorem getStep_ok (hlinks : Links valid next chain) (hstart : iStart = chain.headD 0) (hzero : valid 0 = false)
    (hc : c.Ok chain (r + pc.reserves)) (hr : r < maxCache) (hpc : pc.Ok chain c.validId)
    (h : getStep valid limit next iStart ok c pc = some (pc', c')) :
    pc'.Ok chain c'.validId ∧ c'.Ok chain (r + pc'.reserves) ∧ c'.validId = c.validId := by
  cases pc with
  | idle | done | oops => cases h
  | looking cluster =>
      obtain ⟨d, rest, rfl⟩ := List.exists_cons_of_ne_nil hpc
      obtain rfl : iStart = d := hstart
      have hvalid : valid iStart = true := hlinks.valid iStart List.mem_cons_self
      have hne : iStart ≠ 0 := by
        rintro rfl
        simp [hzero] at hvalid
      rw [getStep, if_neg hne, if_neg (by simp [hvalid])] at h
      by_cases hcluster : cluster = 0
      · rw [if_pos hcluster] at h
        cases h
        exact ⟨⟨hcluster.symm, rfl⟩, hc, rfl⟩
      · rw [if_neg hcluster] at h
        obtain ⟨⟨hit, c₁⟩, hlook⟩ : ∃ r, fatCacheLookup c cluster = r := ⟨_, rfl⟩
        obtain ⟨⟨hlru, hlen, hnr, hid⟩, hhit⟩ := fatCacheLookup_spec hc.lru hc.validId hlook
        rw [hlook] at h
        have hc₁ : c₁.Ok (iStart :: rest) r :=
          ⟨hlru, by rw [hnr, hlen]; exact hc.count, hnr ▸ hc.room, hid ▸ hc.validId⟩
        cases hit with
        | none =>
            cases h
            exact ⟨⟨.dummy, Nat.zero_le _, rfl, fun _ => .inl rfl⟩, hc₁, hid⟩
        | some hit =>
            obtain ⟨cid, fclus, dclus⟩ := hit
            cases h
            obtain ⟨hcid, hle, hd, hat⟩ := hhit cid fclus dclus rfl
            exact ⟨⟨hid ▸ hcid, hle, hd, fun hlt => .inr (hat hlt)⟩, hc₁, hid⟩
  | walking cluster fclus dclus cid =>
      obtain ⟨hcid, hle, hd, hat⟩ := hpc
      rw [getStep] at h
      by_cases hlt : fclus < cluster
      · rw [if_pos hlt] at h
        split_ifs at h with herror heof
        · cases h
          exact ⟨trivial, hc, rfl⟩
        · cases h
          exact ⟨⟨hcid, hlt, hd⟩, hc, rfl⟩
        · cases h
          simp only [not_or] at herror
          exact ⟨walk_ok hlinks hcid hlt hd (hat hlt) herror.2.2.2 heof, hc, rfl⟩
      · rw [if_neg hlt] at h
        cases h
        exact ⟨⟨hcid, by omega, hd⟩, hc, rfl⟩
  | adding cluster cid res =>
      obtain ⟨hcid, hres⟩ := hpc
      rcases fatCacheAdd_spec hc hr hcid with ⟨c₁, hadd, hc₁, hid⟩ | ⟨c₁, hadd, hc₁, hid, hwhole⟩
      · simp only [getStep, hadd] at h
        cases h
        exact ⟨hres, hc₁, hid⟩
      · simp only [getStep, hadd] at h
        cases h
        exact ⟨⟨hwhole, hres⟩, hc₁, hid⟩
  | allocating cluster cid res =>
      obtain ⟨hcid, hres⟩ := hpc
      obtain ⟨c₁, hinsert, hc₁, hid⟩ := fatCacheInsert_spec hc hcid ok
      simp only [getStep, hinsert] at h
      cases h
      exact ⟨hres, hc₁, hid⟩

def Pc.reads : Pc → Bool
  | .walking cluster fclus _ _ => fclus < cluster
  | _ => false

def Pc.Clean : Pc → Prop
  | .adding _ _ res => res ≠ .error
  | .allocating _ _ res => res ≠ .error
  | .done _ res => res ≠ .error
  | _ => True

theorem Links.next_ne_free (h : Links valid next chain) (hzero : valid 0 = false) {i d : Nat}
    (hd : chain[i]? = some d) :
    next d ≠ entFree := by
  have hlink := h.segment.getElem? hd
  cases hafter : chain[i + 1]? with
  | none =>
      rw [hlink, hafter]
      decide
  | some x =>
      rw [hlink, hafter, Option.getD_some]
      rintro rfl
      have hvalid := h.valid entFree (List.mem_of_getElem? hafter)
      rw [entFree, hzero] at hvalid
      cases hvalid

def Pc.left : Pc → Nat
  | .looking cluster => cluster + 4
  | .walking cluster fclus _ _ => cluster - fclus + 3
  | .adding _ _ _ => 2
  | .allocating _ _ _ => 1
  | _ => 0

end Calls

section World

variable {ι : Type} [Fintype ι] [DecidableEq ι] {w w' : World ι} {next : Nat → Nat} {pc : ι → Pc} {k : Nat}

def reserved (pc : ι → Pc) : Nat := ∑ i, (pc i).reserves

def others (pc : ι → Pc) (i : ι) : Nat := ∑ j ∈ Finset.univ.erase i, (pc j).reserves

theorem reserved_eq (pc : ι → Pc) (i : ι) : reserved pc = others pc i + (pc i).reserves := by
  rw [reserved, others, add_comm]
  exact (Finset.add_sum_erase Finset.univ (fun j => (pc j).reserves) (Finset.mem_univ i)).symm

theorem reserved_update (pc : ι → Pc) (i : ι) (p : Pc) :
    reserved (Function.update pc i p) = others pc i + p.reserves := by
  rw [reserved_eq _ i, Function.update_self]
  congr 1
  refine Finset.sum_congr rfl (fun j hj => ?_)
  rw [Function.update_of_ne (Finset.ne_of_mem_erase hj)]

theorem others_lt (pc : ι → Pc) (i : ι) : others pc i < Fintype.card ι := by
  have hone : ∀ j ∈ Finset.univ.erase i, (pc j).reserves ≤ 1 := fun j _ => by
    cases pc j <;> simp [Pc.reserves]
  have hsum := Finset.sum_le_card_nsmul _ _ 1 hone
  rw [Finset.card_erase_of_mem (Finset.mem_univ i), smul_eq_mul, mul_one, Finset.card_univ] at hsum
  have hpos : 0 < Fintype.card ι := Fintype.card_pos_iff.mpr ⟨i⟩
  exact Nat.lt_of_le_of_lt hsum (Nat.sub_lt hpos Nat.one_pos)

structure World.Ok (valid : Nat → Bool) (w : World ι) : Prop where
  links : Links valid w.next w.chain
  start : w.iStart = w.chain.headD 0
  cache : w.cache.Ok w.chain (reserved w.pc)
  pcs : ∀ i, (w.pc i).Ok w.chain w.cache.validId

theorem Result.Ok.mono {res : Result} (h : res.Ok chain cluster)
    (hsub : ∀ i d, i ≤ cluster → chain[i]? = some d → chain'[i]? = some d) : res.Ok chain' cluster := by
  cases res with
  | found f d => exact ⟨h.1, hsub f d h.1.le h.2⟩
  | eof f d => exact ⟨h.1, hsub f d h.1.le h.2⟩
  | error => trivial

theorem CacheId.Ok.mono (h : cid.Ok chain validId cluster) (hpre : chain <+: chain') :
    cid.Ok chain' validId cluster := by
  cases h with
  | dummy => exact .dummy
  | extent hf hle near own fresh old =>
      exact .extent hf hle (fun j hj hjle => getElem?_of_prefix hpre (near j hj hjle)) own
        (fun hid j hj => getElem?_of_prefix hpre (fresh hid j hj)) old

theorem Pc.Ok.mono {p : Pc} (h : p.Ok chain validId) (hpre : chain <+: chain') : p.Ok chain' validId := by
  have hsub : ∀ cluster i d, i ≤ cluster → chain[i]? = some d → chain'[i]? = some d := fun _ _ _ _ =>
    getElem?_of_prefix hpre
  cases p with
  | idle => trivial
  | oops => exact h
  | looking cluster => exact fun hnil => h (List.prefix_nil.mp (hnil ▸ hpre))
  | walking cluster f d cid => exact ⟨h.1.mono hpre, h.2.1, getElem?_of_prefix hpre h.2.2.1, h.2.2.2⟩
  | adding cluster cid res => exact ⟨h.1.mono hpre, h.2.mono (hsub cluster)⟩
  | allocating cluster cid res =>
      obtain ⟨f, d, hf, hd, hok⟩ := h.1
      exact ⟨⟨f, d, hf, hd, hok.mono hpre⟩, h.2.mono (hsub cluster)⟩
  | done cluster res => exact Result.Ok.mono h (hsub cluster)

/-- The clusters of the file that the call depends on. -/
def Pc.Needs (i : Nat) : Pc → Prop
  | .idle => False
  | .looking cluster => i ≤ cluster
  | .walking cluster _ _ _ => i ≤ cluster
  | .adding cluster _ _ => i ≤ cluster
  | .allocating cluster cid _ => i ≤ cluster ∨ i ≤ cid.fcluster + cid.nrContig
  | .done cluster _ => i ≤ cluster
  | .oops => False

theorem CacheId.Ok.stale {validId' : BitVec 32} (h : cid.Ok chain validId cluster)
    (hid : validId.toNat < validId'.toNat)
    (hsub : ∀ i d, i ≤ cluster → chain[i]? = some d → chain'[i]? = some d) :
    cid.Ok chain' validId' cluster := by
  cases h with
  | dummy => exact .dummy
  | extent hf hle near own fresh old =>
      refine .extent hf hle (fun j hj hjle => hsub _ _ hjle (near j hj hjle)) own (fun heq => ?_) (by omega)
      rw [heq] at old
      omega

theorem Pc.Ok.stale {p : Pc} {validId' : BitVec 32} (h : p.Ok chain validId) (hid : validId.toNat < validId'.toNat)
    (hsub : ∀ i d, p.Needs i → chain[i]? = some d → chain'[i]? = some d) : p.Ok chain' validId' := by
  cases p with
  | idle => trivial
  | oops => exact h
  | looking cluster =>
      rintro rfl
      obtain ⟨d, rest, rfl⟩ := List.exists_cons_of_ne_nil h
      simpa using hsub 0 d (Nat.zero_le _) rfl
  | walking cluster f d cid => exact ⟨h.1.stale hid hsub, h.2.1, hsub f d h.2.1 h.2.2.1, h.2.2.2⟩
  | adding cluster cid res => exact ⟨h.1.stale hid hsub, h.2.mono hsub⟩
  | allocating cluster cid res =>
      obtain ⟨⟨f, d, hf, hd, hok⟩, hres⟩ := h
      refine ⟨⟨f, d, hf, hd, hok.1, fun j hj => hsub _ _ (.inr ?_) (hok.2 j hj)⟩,
        hres.mono (fun i d hi => hsub i d (.inl hi))⟩
      dsimp only at hj
      rw [hf]
      push_cast
      omega
  | done cluster res => exact Result.Ok.mono h hsub

def Pc.reach : Pc → Int
  | .allocating _ cid _ => cid.fcluster + cid.nrContig
  | _ => -1

theorem Pc.lt_of_below {p : Pc} {i : Nat} (h : p.below k = true) (hreach : p.reach < k) (hneeds : p.Needs i) :
    i < k := by
  cases p with
  | idle | oops => exact hneeds.elim
  | looking cluster | walking cluster f d cid | adding cluster cid res | done cluster res =>
      exact Nat.lt_of_le_of_lt hneeds (of_decide_eq_true h)
  | allocating cluster cid res =>
      rcases hneeds with hle | hle
      · exact Nat.lt_of_le_of_lt hle (of_decide_eq_true h)
      · simp only [Pc.reach] at hreach
        omega

section Links

theorem Links.append_nil {new : Nat} (hvalid : valid new = true) :
    Links valid (Function.update next new entEof) [new] :=
  ⟨segment_cons.mpr ⟨rfl, segment_nil.mpr (Function.update_self ..)⟩, by simpa using hvalid,
    List.nodup_singleton new⟩

theorem Links.append {last new : Nat} (h : Links valid next chain) (hlast : chain.getLast? = some last)
    (hnew : new ∉ chain) (hvalid : valid new = true) :
    Links valid (Function.update (Function.update next new entEof) last new) (chain ++ [new]) := by
  obtain ⟨cs, rfl⟩ := List.getLast?_eq_some_iff.mp hlast
  have hne : new ≠ last := fun heq => hnew (by simp [heq])
  have hlast : last ∉ cs := fun hmem => (List.nodup_append.mp h.nodup).2.2 last hmem last (by simp) rfl
  have hcs : ∀ x ∈ cs, Function.update (Function.update next new entEof) last new x = next x := fun x hx => by
    have hxlast : x ≠ last := fun heq => hlast (heq ▸ hx)
    have hxnew : x ≠ new := fun heq => hnew (by simp [← heq, hx])
    rw [Function.update_of_ne hxlast, Function.update_of_ne hxnew]
  refine ⟨?_, ?_, ?_⟩
  · have hhead : (cs ++ [last] ++ [new]).headD entEof = (cs ++ [last]).headD entEof := by cases cs <;> rfl
    rw [hhead, segment_snoc]
    refine ⟨h.segment.retarget hcs (Function.update_self ..), ?_⟩
    rw [Function.update_of_ne hne, Function.update_self]
  · intro d hd
    rcases List.mem_append.mp hd with hd | hd
    · exact h.valid d hd
    · exact List.mem_singleton.mp hd ▸ hvalid
  · rw [List.nodup_append_comm]
    exact List.nodup_cons.mpr ⟨hnew, h.nodup⟩

theorem Links.truncate {l₁ l₂ : List Nat} (h : Links valid next (l₁ ++ l₂)) :
    Links valid (fun e => if e ∈ l₂ then entFree else if l₁.getLast? = some e then entEof else next e) l₁ := by
  have hdisjoint := List.disjoint_of_nodup_append h.nodup
  refine ⟨?_, fun d hd => h.valid d (List.mem_append_left _ hd), h.nodup.of_append_left⟩
  rcases List.eq_nil_or_concat' l₁ with rfl | ⟨cs, x, rfl⟩
  · rfl
  · obtain ⟨b, hb, -⟩ := segment_append.mp h.segment
    have hhead : (cs ++ [x] ++ l₂).headD entEof = (cs ++ [x]).headD entEof := by cases cs <;> rfl
    have hx : x ∉ cs := fun hmem => (List.nodup_append.mp h.nodup.of_append_left).2.2 x hmem x (by simp) rfl
    rw [hhead] at hb
    refine hb.retarget (fun y hy => ?_) ?_
    · rw [if_neg (fun hmem => hdisjoint (List.mem_append_left _ hy) hmem), if_neg]
      rw [List.getLast?_concat]
      exact fun heq => hx (Option.some.inj heq ▸ hy)
    · rw [if_neg (fun hmem => hdisjoint (by simp) hmem), if_pos List.getLast?_concat]

theorem Links.other {e v : Nat} (h : Links valid next chain) (he : e ∉ chain) :
    Links valid (Function.update next e v) chain :=
  ⟨h.segment.frame (fun x hx => Function.update_of_ne (fun heq => he (by rwa [← heq])) v next), h.valid, h.nodup⟩

end Links

theorem World.Ok.goto {i : ι} {p : Pc} (h : w.Ok valid) (hp : p.Ok w.chain c.validId)
    (hc : c.Ok w.chain (others w.pc i + p.reserves)) (hid : c.validId = w.cache.validId) :
    World.Ok valid { w with pc := Function.update w.pc i p, cache := c } := by
  refine ⟨h.links, h.start, ?_, fun j => ?_⟩
  · show c.Ok w.chain (reserved (Function.update w.pc i p))
    rwa [reserved_update]
  · show Pc.Ok w.chain c.validId (Function.update w.pc i p j)
    by_cases hj : j = i
    · subst hj
      rwa [Function.update_self]
    · rw [Function.update_of_ne hj, hid]
      exact h.pcs j

omit [DecidableEq ι] in
theorem World.Ok.inval (h : w.Ok valid) (hid : w.cache.validId.toNat + 1 < 2 ^ 32) :
    World.Ok valid { w with cache := fatCacheInvalInode w.cache } := by
  obtain ⟨hcache, hnext⟩ := fatCacheInvalInode_spec h.cache hid
  exact ⟨h.links, h.start, hcache, fun i => (h.pcs i).stale (by rw [hnext]; omega) (fun _ _ _ hd => hd)⟩

omit [DecidableEq ι] in
theorem World.Ok.grow {next : Nat → Nat} {iStart : Nat} (h : w.Ok valid) (hpre : w.chain <+: chain)
    (hlinks : Links valid next chain) (hstart : iStart = chain.headD 0) :
    World.Ok valid { w with next := next, chain := chain, iStart := iStart } :=
  ⟨hlinks, hstart, ⟨fun p hp => (h.cache.lru p hp).mono hpre, h.cache.count, h.cache.room, h.cache.validId⟩,
    fun i => (h.pcs i).mono hpre⟩

omit [DecidableEq ι] in
theorem World.Ok.truncate (h : w.Ok valid) (hbelow : ∀ i, (w.pc i).below k = true)
    (hreach : ∀ i, (w.pc i).reach < k) (hid : w.cache.validId.toNat + 1 < 2 ^ 32) :
    World.Ok valid { w with
      next := fun e => if e ∈ w.chain.drop k then entFree else if (w.chain.take k).getLast? = some e then entEof
        else w.next e
      chain := w.chain.take k
      iStart := if k = 0 then 0 else w.iStart
      cache := fatCacheInvalInode w.cache } := by
  have hspec : (fatCacheInvalInode w.cache).Ok (w.chain.take k) _ ∧ _ := fatCacheInvalInode_spec h.cache hid
  obtain ⟨hcache, hnext⟩ := hspec
  refine ⟨Links.truncate (by rw [List.take_append_drop]; exact h.links), ?_, hcache, fun i => ?_⟩
  · show (if k = 0 then 0 else w.iStart) = (w.chain.take k).headD 0
    rw [h.start]
    cases k with
    | zero => rfl
    | succ k => cases w.chain <;> rfl
  · refine (h.pcs i).stale (by rw [hnext]; omega) (fun j d hneeds hd => ?_)
    rw [List.getElem?_take_of_lt (Pc.lt_of_below (hbelow i) (hreach i) hneeds)]
    exact hd

/-- Where the file is cut, nothing that waits for memory reaches beyond. After the allocation fat_cache_add does not
look at the number of the cache again. -/
def Spares (w : World ι) : Action ι → Prop
  | .truncate k => ∀ i, (w.pc i).reach < k
  | _ => True

instance (w : World ι) (a : Action ι) : Decidable (Spares w a) := by
  cases a <;> simp only [Spares] <;> infer_instance

theorem World.Ok.step {a : Action ι} (h : w.Ok valid) (hspares : Spares w a) (hzero : valid 0 = false)
    (hι : Fintype.card ι ≤ maxCache) (hstep : step valid limit w a = some w') : w'.Ok valid := by
  cases a with
  | call i cluster =>
      rw [FatCache.step] at hstep
      split_ifs at hstep with hidle
      cases hstep
      have hcache := h.cache
      rw [reserved_eq w.pc i, hidle.1] at hcache
      refine h.goto (fun hnil => hidle.2 ?_) hcache rfl
      rw [h.start, hnil]
      rfl
  | step i ok =>
      obtain ⟨⟨pc', c'⟩, hget, rfl⟩ := Option.map_eq_some_iff.mp hstep
      have hcache := h.cache
      rw [reserved_eq w.pc i] at hcache
      obtain ⟨hpc, hc', hid⟩ := getStep_ok h.links h.start hzero hcache ((others_lt w.pc i).trans_le hι)
        (h.pcs i) hget
      exact h.goto hpc hc' hid
  | ret i =>
      cases hpc : w.pc i with
      | done cluster res =>
          simp only [FatCache.step, hpc] at hstep
          cases hstep
          have hcache := h.cache
          rw [reserved_eq w.pc i, hpc] at hcache
          exact h.goto trivial hcache rfl
      | idle | looking | walking | adding | allocating | oops => simp [FatCache.step, hpc] at hstep
  | inval =>
      rw [FatCache.step] at hstep
      split_ifs at hstep with hid
      cases hstep
      exact h.inval hid
  | append new =>
      rw [FatCache.step] at hstep
      split_ifs at hstep with hnew
      cases hlast : w.chain.getLast? with
      | none =>
          rw [hlast] at hstep
          cases hstep
          have hnil : w.chain = [] := List.getLast?_eq_none_iff.mp hlast
          exact h.grow (hnil ▸ List.nil_prefix) (Links.append_nil hnew.2) rfl
      | some last =>
          rw [hlast] at hstep
          cases hstep
          refine h.grow (List.prefix_append _ _) (h.links.append hlast hnew.1 hnew.2) ?_
          obtain ⟨cs, heq⟩ := List.getLast?_eq_some_iff.mp hlast
          rw [h.start, heq]
          cases cs <;> rfl
  | truncate k =>
      rw [FatCache.step] at hstep
      by_cases hk : k < w.chain.length ∧ (∀ i, (w.pc i).below k = true) ∧ w.cache.validId.toNat + 1 < 2 ^ 32
      · rw [if_pos hk] at hstep
        cases hstep
        exact h.truncate hk.2.1 hspares hk.2.2
      · rw [if_neg hk] at hstep
        cases hstep
  | other e v =>
      rw [FatCache.step] at hstep
      split_ifs at hstep with he
      cases hstep
      exact ⟨h.links.other he, h.start, h.cache, h.pcs⟩

structure World.Fresh (valid : Nat → Bool) (w : World ι) : Prop where
  links : Links valid w.next w.chain
  start : w.iStart = w.chain.headD 0
  cache : w.cache = ⟨[], 0, cacheValid + 1⟩
  pcs : ∀ i, w.pc i = .idle

omit [DecidableEq ι] in
theorem World.Fresh.ok (h : w.Fresh valid) : w.Ok valid := by
  have hnone : reserved w.pc = 0 := Finset.sum_eq_zero (fun i _ => by rw [h.pcs i]; rfl)
  refine ⟨h.links, h.start, ?_, fun i => by rw [h.pcs i]; trivial⟩
  rw [h.cache, hnone]
  exact ⟨by simp, rfl, by decide, by decide⟩

theorem World.Ok.run {as : List (Action ι)} (h : w.Ok valid) (hzero : valid 0 = false)
    (hι : Fintype.card ι ≤ maxCache) (hspares : Every (FatCache.step valid limit) Spares w as)
    (hrun : run (FatCache.step valid limit) w as = some w') : w'.Ok valid :=
  run_every h (fun _ _ _ hu ha hv => hu.step ha hzero hι hv) hspares hrun

omit [DecidableEq ι] in
theorem World.Ok.last {i : ι} {cluster fclus dclus : Nat} (h : w.Ok valid) (heof : valid entEof = false)
    (hpc : w.pc i = .walking cluster fclus dclus cid) (hnext : w.next dclus = entEof) : fclus + 1 = w.chain.length := by
  obtain ⟨-, -, hd, -⟩ : Pc.Ok w.chain w.cache.validId (.walking cluster fclus dclus cid) := hpc ▸ h.pcs i
  have hlt : fclus < w.chain.length := (List.getElem?_eq_some_iff.mp hd).1
  have hlink := h.links.segment.getElem? hd
  cases hafter : w.chain[fclus + 1]? with
  | none => exact le_antisymm hlt (List.getElem?_eq_none_iff.mp hafter)
  | some x =>
      rw [hnext, hafter, Option.getD_some] at hlink
      have hvalid := h.links.valid x (List.mem_of_getElem? hafter)
      simp [← hlink, heof] at hvalid

/-- No read of the call fails, and the file is not longer than a file can be. -/
def Readable (limit : Nat) (i : ι) (w : World ι) (a : Action ι) : Prop :=
  w.chain.length ≤ limit + 1 ∧ (a = .step i false → (w.pc i).reads = false)

/-- Without that condition an extent that is no longer right gets into the cache. -/
theorem stale_extent_cached {i : ι} {res : Result} (h : w.Ok valid) (hpc : w.pc i = .allocating cluster cid res)
    (hreach : (k : Int) ≤ cid.fcluster + cid.nrContig) (hbelow : ∀ j, (w.pc j).below k = true)
    (hid : w.cache.validId.toNat + 1 < 2 ^ 32) :
    ∃ w₁ w₂, FatCache.step valid limit w (.truncate k) = some w₁ ∧
      FatCache.step valid limit w₁ (.step i true) = some w₂ ∧
      ∃ p ∈ w₂.cache.lru, ¬ p.Ok w₂.chain := by
  have hok := h.pcs i
  rw [hpc] at hok
  obtain ⟨⟨f, d, hf, hd, hextent⟩, -⟩ := hok
  have hend := hextent.2 cid.nrContig le_rfl
  have hlen : f + cid.nrContig < w.chain.length := (List.getElem?_eq_some_iff.mp hend).1
  have hk : k ≤ f + cid.nrContig := by
    rw [hf] at hreach
    exact_mod_cast hreach
  obtain ⟨w₁, hcut, hpc₁, hchain, hcache⟩ : ∃ w₁, FatCache.step valid limit w (.truncate k) = some w₁ ∧
      w₁.pc = w.pc ∧
      w₁.chain = w.chain.take k ∧ w₁.cache = fatCacheInvalInode w.cache :=
    ⟨_, if_pos ⟨by omega, hbelow, hid⟩, rfl, rfl, rfl⟩
  have hstep : FatCache.step valid limit w₁ (.step i true) = some { w₁ with
      pc := Function.update w₁.pc i (.done cluster res)
      cache := { fatCacheInvalInode w.cache with lru := [cid.extent] } } := by
    simp only [FatCache.step, hpc₁, hpc, hcache]
    rfl
  refine ⟨w₁, _, hcut, hstep, cid.extent, List.mem_cons_self, fun hp => ?_⟩
  have hgone := hp.2 cid.nrContig le_rfl
  simp only [CacheId.extent, hf, Int.toNat_natCast, hchain] at hgone
  rw [List.getElem?_take, if_neg (by omega)] at hgone
  cases hgone

/-- One call waits for memory while the file grows and is cut again; then the other one fills the cache. -/
def schedule : List (Action (Fin 2)) :=
  [.call 0 2, .step 0 true, .step 0 true, .step 0 true, .step 0 true, .step 0 true, .append 7, .truncate 3, .append 7,
    .call 1 3, .step 1 true, .step 1 true, .step 0 true, .step 1 true, .step 1 true, .step 1 true, .step 1 true]

end World

end SuperRaid.FatCache
