import SuperRaid.FatAlloc

namespace SuperRaid.FatTable

open Image Sys FatEntry LinkTable

variable {vol : Volume} {opt : Options} {G : Answer → Prop} {s₀ s s' : Fat} {f : Fatent} {l cs : List Nat} {e : Nat}

def freeBelow (vol : Volume) (s : Fat) (n : Nat) : Finset Nat :=
  (Finset.Ico startEnt n).filter (fun e => s.next vol e = entFree)

def freeCount (vol : Volume) (s : Fat) : Nat := (freeBelow vol s vol.maxCluster).card

/-- The count of free clusters is right, if it claims to be. -/
def Exact (vol : Volume) (s : Fat) : Prop :=
  s.freeClusValid = true → s.freeClusters ≠ unknown → s.freeClusters.toNat = freeCount vol s

theorem mem_freeBelow {n : Nat} :
    e ∈ freeBelow vol s n ↔ (startEnt ≤ e ∧ e < n) ∧ s.next vol e = entFree := by
  simp [freeBelow]

theorem freeBelow_congr {n : Nat} (h : ∀ e < n, s'.next vol e = s.next vol e) :
    freeBelow vol s' n = freeBelow vol s n := by
  ext e
  rw [mem_freeBelow, mem_freeBelow]
  refine and_congr_right (fun he => ?_)
  rw [h e he.2]

theorem freeCount_lt (vol : Volume) (s : Fat) : freeCount vol s + 2 < 2 ^ 32 - 1 := by
  have hcard : freeCount vol s ≤ vol.maxCluster - startEnt := by
    refine (Finset.card_filter_le _ _).trans ?_
    rw [Nat.card_Ico]
  have hmax := maxCluster_lt_eof vol
  rw [entEof] at hmax
  omega

section Counter

variable {n : BitVec 32} {k : Nat}

theorem lt_of_ne_unknown (h : n ≠ unknown) : n.toNat < 2 ^ 32 - 1 := by
  have hlt := n.isLt
  refine Nat.lt_of_le_of_ne (Nat.le_sub_one_of_lt hlt) (fun heq => h (BitVec.eq_of_toNat_eq ?_))
  rw [heq]
  rfl

theorem ne_unknown_of_lt (h : n.toNat < 2 ^ 32 - 1) : n ≠ unknown := by
  rintro rfl
  exact absurd h (by decide)

theorem toNat_one : (1 : BitVec 32).toNat = 1 := rfl

theorem inc_iterate (hn : n ≠ unknown) (hk : n.toNat + k < 2 ^ 32 - 1) :
    inc^[k] n ≠ unknown ∧ (inc^[k] n).toNat = n.toNat + k := by
  induction k with
  | zero => exact ⟨hn, rfl⟩
  | succ k ih =>
      obtain ⟨hne, htoNat⟩ := ih (by omega)
      have hval : (inc^[k + 1] n).toNat = n.toNat + (k + 1) := by
        rw [Function.iterate_succ_apply', inc, if_pos hne, BitVec.toNat_add, htoNat, toNat_one]
        omega
      exact ⟨ne_unknown_of_lt (by omega), hval⟩

theorem dec_iterate (hn : n ≠ unknown) (hk : k ≤ n.toNat) :
    dec^[k] n ≠ unknown ∧ (dec^[k] n).toNat = n.toNat - k := by
  induction k with
  | zero => exact ⟨hn, rfl⟩
  | succ k ih =>
      obtain ⟨hne, htoNat⟩ := ih (by omega)
      have hlt := lt_of_ne_unknown hn
      have hval : (dec^[k + 1] n).toNat = n.toNat - (k + 1) := by
        rw [Function.iterate_succ_apply', dec, if_pos hne, BitVec.toNat_sub, htoNat, toNat_one]
        omega
      exact ⟨ne_unknown_of_lt (by omega), hval⟩

theorem inc_iterate_unknown (k : Nat) : inc^[k] unknown = unknown := Function.iterate_fixed rfl k

theorem dec_iterate_unknown (k : Nat) : dec^[k] unknown = unknown := Function.iterate_fixed rfl k

end Counter

section Exact

theorem freeCount_of_eq (h : ∀ e < vol.maxCluster, s'.next vol e = s.next vol e) :
    freeCount vol s' = freeCount vol s := by
  rw [freeCount, freeBelow_congr h, freeCount]

theorem Freed.freeCount_eq (h : Freed vol s l s') (hnodup : l.Nodup)
    (hused : ∀ e ∈ l, (startEnt ≤ e ∧ e < vol.maxCluster) ∧ s.next vol e ≠ entFree) :
    freeCount vol s' = freeCount vol s + l.length := by
  have hset : freeBelow vol s' vol.maxCluster = freeBelow vol s vol.maxCluster ∪ l.toFinset := by
    ext e
    rw [Finset.mem_union, mem_freeBelow, mem_freeBelow, List.mem_toFinset]
    constructor
    · rintro ⟨he, hfree⟩
      rw [h.next e he.2] at hfree
      split_ifs at hfree with hmem
      · exact .inr hmem
      · exact .inl ⟨he, hfree⟩
    · rintro (⟨he, hfree⟩ | hmem)
      · refine ⟨he, ?_⟩
        rw [h.next e he.2, if_neg (fun hmem => (hused e hmem).2 hfree), hfree]
      · exact ⟨(hused e hmem).1, by rw [h.next e (hused e hmem).1.2, if_pos hmem]⟩
  have hdisjoint : Disjoint (freeBelow vol s vol.maxCluster) l.toFinset :=
    Finset.disjoint_left.mpr (fun e he hmem => (hused e (List.mem_toFinset.mp hmem)).2 (mem_freeBelow.mp he).2)
  rw [freeCount, hset, Finset.card_union_of_disjoint hdisjoint, List.toFinset_card_of_nodup hnodup, freeCount]

theorem Freed.exact (h : Freed vol s l s') (hnodup : l.Nodup)
    (hused : ∀ e ∈ l, (startEnt ≤ e ∧ e < vol.maxCluster) ∧ s.next vol e ≠ entFree) (hexact : Exact vol s) :
    Exact vol s' := by
  intro hvalid hknown
  rw [h.freeClusValid] at hvalid
  rw [h.count] at hknown ⊢
  have hne : s.freeClusters ≠ unknown := fun heq => hknown (by rw [heq, inc_iterate_unknown])
  have hlt := freeCount_lt vol s'
  rw [h.freeCount_eq hnodup hused, ← hexact hvalid hne] at hlt ⊢
  exact (inc_iterate hne (by omega)).2

theorem Took.freeCount_eq (h : Took vol s cs s') : freeCount vol s = freeCount vol s' + cs.length := by
  have hset : freeBelow vol s vol.maxCluster = freeBelow vol s' vol.maxCluster ∪ cs.toFinset := by
    ext e
    rw [Finset.mem_union, mem_freeBelow, mem_freeBelow, List.mem_toFinset]
    constructor
    · rintro ⟨he, hfree⟩
      by_cases hmem : e ∈ cs
      · exact .inr hmem
      · exact .inl ⟨he, (h.others e he.2 hmem).trans hfree⟩
    · rintro (⟨he, hfree⟩ | hmem)
      · have hmem : e ∉ cs := fun hmem => h.isChain.next_ne_free hmem hfree
        exact ⟨he, (h.others e he.2 hmem).symm.trans hfree⟩
      · exact h.free e hmem
  have hdisjoint : Disjoint (freeBelow vol s' vol.maxCluster) cs.toFinset :=
    Finset.disjoint_left.mpr (fun e he hmem =>
      h.isChain.next_ne_free (List.mem_toFinset.mp hmem) (mem_freeBelow.mp he).2)
  rw [freeCount, hset, Finset.card_union_of_disjoint hdisjoint, List.toFinset_card_of_nodup h.nodup, freeCount]

theorem Took.exact (h : Took vol s cs s') (hcount : s'.freeClusters = dec^[cs.length] s.freeClusters)
    (hvalid : s'.freeClusValid = s.freeClusValid) (hexact : Exact vol s) : Exact vol s' := by
  intro hv hknown
  rw [hvalid] at hv
  rw [hcount] at hknown ⊢
  have hne : s.freeClusters ≠ unknown := fun heq => hknown (by rw [heq, dec_iterate_unknown])
  have hsum := h.freeCount_eq
  rw [← hexact hv hne] at hsum
  rw [(dec_iterate hne (by omega)).2]
  omega

end Exact

section Alloc

theorem Written.exact {new : Nat} {err : Option Errno} (h : Written G vol e new s err s')
    (he : s.next vol e ≠ entFree) (hnew : new ≠ entFree) (hexact : Exact vol s) : Exact vol s' := by
  have hcount : freeCount vol s' = freeCount vol s := by
    unfold freeCount freeBelow
    refine congrArg _ (Finset.filter_congr (fun x hx => ?_))
    rw [h.next x (Finset.mem_Ico.mp hx).2]
    split_ifs with hx
    · subst hx
      simp [hnew, he]
    · rfl
  intro hvalid hknown
  obtain ⟨hfree, hflag, -⟩ := h.known
  rw [hfree, hcount]
  exact hexact (hflag ▸ hvalid) (hfree ▸ hknown)

def Mirrored (vol : Volume) (s : Fat) : Prop := MirroredBut vol (fun _ => False) s

structure Allocated (vol : Volume) (s : Fat) (nr : Nat) (cs : List Nat) (s' : Fat) : Prop where
  length : cs.length = nr
  took : Took vol s cs s'
  count : s'.freeClusters = dec^[nr] s.freeClusters
  freeClusValid : s'.freeClusValid = s.freeClusValid
  exact : Exact vol s → Exact vol s'
  mirrored : Mirrored vol s → Mirrored vol s'

/-- What a failed allocation leaves: no entry that was in use is touched, the count of free clusters stays right, and
unless a call has failed nothing has changed. -/
structure AllocFails (G : Answer → Prop) (vol : Volume) (s : Fat) (nr : Nat) (e : Errno) (s' : Fat) : Prop where
  spared : ∀ x < vol.maxCluster, s.next vol x ≠ entFree → s'.next vol x = s.next vol x
  outside : ∀ q : Ptr, Outside vol q.1 → s'.bufs q = s.bufs q
  prevFree : startEnt ≤ s'.prevFree
  exact : Exact vol s → Exact vol s'
  truthful : e = .enospc → Exact vol s → freeCount vol s < nr
  healthy : ¬ Faulty G → e = .enospc ∧ (∀ x < vol.maxCluster, s'.next vol x = s.next vol x) ∧
    (Mirrored vol s → Mirrored vol s')

theorem Searched.exact {nr : Nat} {err : Option Errno} {st : Search} (h : Searched G vol s nr err st s')
    (hexact : Exact vol s) : Exact vol s' := by
  by_cases herr : err = some .enospc
  · obtain ⟨hzero, -, hfull⟩ := h.full herr
    intro _ _
    have hnone : freeBelow vol s' vol.maxCluster = ∅ := by
      refine Finset.eq_empty_of_forall_notMem (fun e he => ?_)
      obtain ⟨⟨hstart, hmax⟩, hfree⟩ := mem_freeBelow.mp he
      exact hfull e hstart hmax hfree
    rw [hzero, freeCount, hnone]
    rfl
  · obtain ⟨hcount, hvalid⟩ := h.known herr
    exact h.took.exact hcount hvalid hexact

theorem Searched.freeCount_lt {nr : Nat} {st : Search} (h : Searched G vol s nr (some .enospc) st s') :
    freeCount vol s < nr := by
  obtain ⟨-, -, hfull⟩ := h.full rfl
  have hnone : freeCount vol s' = 0 := Finset.card_eq_zero.mpr (Finset.eq_empty_of_forall_notMem (fun e he => by
    obtain ⟨⟨hstart, hmax⟩, hfree⟩ := mem_freeBelow.mp he
    exact hfull e hstart hmax hfree))
  rw [h.took.freeCount_eq, hnone, Nat.zero_add]
  rcases h.result with ⟨hnot, -⟩ | ⟨-, hlt⟩ | ⟨hnot, -⟩
  · cases hnot
  · exact hlt
  · cases hnot

theorem Took.startEnt_le_prevFree (h : Took vol s cs s') (hprev : startEnt ≤ s.prevFree) :
    startEnt ≤ s'.prevFree := by
  rw [h.prevFree]
  rcases List.eq_nil_or_concat' cs with rfl | ⟨cs', c, rfl⟩
  · exact hprev
  · rw [List.getLastD_concat]
    exact (h.free c (by simp)).1.1

theorem Quiet.exact (h : Quiet vol s s') (hexact : Exact vol s) : Exact vol s' := by
  intro hvalid hknown
  rw [h.freeClusters, freeCount_of_eq (fun e he => h.next he)]
  exact hexact (h.freeClusValid ▸ hvalid) (h.freeClusters ▸ hknown)

theorem Took.undo {nr : Nat} {e : Errno} {s₁ s₂ : Fat} {r : Option (Option Errno)} (h : Took vol s cs s₁)
    (hcs : cs ≠ []) (hprev : startEnt ≤ s.prevFree) (hexact : Exact vol s → Exact vol s₁)
    (htruth : e = .enospc → Exact vol s → freeCount vol s < nr) (hcause : ¬ Faulty G → e = .enospc)
    (hmirror : Mirrored vol s → MirroredBut vol (fun b => ∃ e ∈ cs, b ∈ held vol e) s₁)
    (hfree : FreesMirrored G vol opt s₁ (cs.headD entEof) r s₂) :
    r.isSome = true ∧ AllocFails G vol s nr e s₂ := by
  obtain ⟨err, l, stop, rfl, hfrees, hmirrored⟩ := id hfree
  have hl : ∀ e ∈ l, startEnt ≤ e ∧ e < vol.maxCluster := fun e he => (hfrees.used e he).1
  have hsub : ∀ x ∈ l, x ∈ cs := fun x hx =>
    (h.chain.comparable hfrees.chain (h.chain.length_le hfrees.chain (eof_not_mem hl))).subset hx
  refine ⟨rfl, fun x hx hne => ?_, fun q hq => ?_, ?_, fun hexact₀ => ?_, htruth,
    fun hfault => ⟨hcause hfault, ?_, ?_⟩⟩
  · have hx' : x ∉ cs := fun hmem => hne (h.free x hmem).2
    rw [hfrees.freed.next x hx, if_neg (fun hmem => hx' (hsub x hmem)), h.others x hx hx']
  · exact (hfrees.freed.outside q hq).trans (h.outside q hq)
  · rw [hfrees.freed.prevFree]
    exact h.startEnt_le_prevFree hprev
  · exact hfrees.freed.exact hfrees.nodup hfrees.used (hexact hexact₀)
  · obtain ⟨-, hfreed, -⟩ := hfree.whole hfault h.isChain hcs
    intro x hx
    rw [hfreed.next x hx]
    split_ifs with hmem
    · exact (h.free x hmem).2.symm
    · exact h.others x hx hmem
  · obtain ⟨-, -, hwhole⟩ := hfree.whole hfault h.isChain hcs
    refine fun hs => (hwhole _ (hmirror hs)).mono ?_
    rintro b ⟨⟨x, hx, hb⟩, hnot⟩
    exact hnot x hx hb

theorem Took.fails {nr : Nat} {e : Errno} (h : Took vol s [] s') (hprev : startEnt ≤ s.prevFree)
    (hexact : Exact vol s → Exact vol s') (htruth : e = .enospc → Exact vol s → freeCount vol s < nr)
    (hcause : ¬ Faulty G → e = .enospc) (hmirror : Mirrored vol s → Mirrored vol s') :
    AllocFails G vol s nr e s' where
  spared x hx _ := h.others x hx (by simp)
  outside := h.outside
  prevFree := h.startEnt_le_prevFree hprev
  exact := hexact
  truthful := htruth
  healthy hfault := ⟨hcause hfault, fun x hx => h.others x hx (by simp), hmirror⟩

def Allocs (G : Answer → Prop) (vol : Volume) (s : Fat) (nr : Nat) (r : Option (Except Errno (List Nat))) (s' : Fat) :
    Prop :=
  (∃ cs, r = some (.ok cs) ∧ Allocated vol s nr cs s') ∨
    (∃ e, r = some (.error e) ∧ AllocFails G vol s nr e s')

theorem returns_allocEnd {nr : Nat} {err : Option Errno} (h : Took vol s cs s') (hprev : startEnt ≤ s.prevFree)
    (hexact : Exact vol s → Exact vol s')
    (hmirror : Mirrored vol s → MirroredBut vol (fun b => ∃ e ∈ cs, b ∈ held vol e) s')
    (hok : err = none → Allocated vol s nr cs s')
    (htruth : ∀ e, err = some e →
      (e = .enospc → Exact vol s → freeCount vol s < nr) ∧ (¬ Faulty G → e = .enospc)) :
    Returns G s' (allocEnd vol opt err cs) (Allocs G vol s nr) := by
  cases err with
  | none => exact Returns.ret (.inl ⟨cs, rfl, hok rfl⟩)
  | some e =>
      obtain ⟨htruth, hcause⟩ := htruth e rfl
      cases cs with
      | nil =>
          refine Returns.ret (.inr ⟨e, rfl, h.fails hprev hexact htruth hcause (fun hs => (hmirror hs).mono ?_)⟩)
          rintro b ⟨x, hx, -⟩
          cases hx
      | cons c cs =>
          refine Returns.bind (returns_fatFreeClusters.mono (fun r s₂ hfree => Returns.ret ?_))
          obtain ⟨hsome, hfails⟩ := h.undo (List.cons_ne_nil _ _) hprev hexact htruth hcause hmirror hfree
          obtain ⟨err, rfl⟩ := Option.isSome_iff_exists.mp hsome
          exact .inr ⟨e, rfl, hfails⟩

theorem returns_fatAllocClusters {needsSync : Bool} {nr : Nat} (hnr : 1 ≤ nr ∧ nr ≤ maxBufPerPage / 2)
    (hprev : startEnt ≤ s.prevFree) :
    Returns G s (fatAllocClusters vol opt needsSync nr) (Allocs G vol s nr) := by
  refine Returns.bind ((returns_allocLocked hnr hprev).mono ?_)
  rintro r s₁ (⟨rfl, rfl, hknown, hvalid, hlt⟩ | ⟨err, st, rfl, hsearch⟩)
  · refine Returns.ret
      (.inr ⟨.enospc, rfl, fun _ _ _ => rfl, fun _ _ => rfl, hprev, id, fun _ hexact => ?_, fun _ => ?_⟩)
    · rwa [← hexact hvalid hknown]
    · exact ⟨rfl, fun _ _ => rfl, id⟩
  · refine Returns.bind (returns_markFsinfoDirty (fun dirty => ?_))
    replace hsearch := hsearch.fsinfo dirty
    have hmirror : Mirrored vol s → MirroredBut vol (fun b => ∃ e ∈ st.clusters, b ∈ held vol e)
        { s₁ with fsinfoDirty := dirty } := fun hs =>
      (hsearch.mirrored _ hs).mono (fun b hb => (hsearch.collected b).mp (hb.resolve_left id))
    by_cases herr : err = none
    · have hin : ∀ b ∈ st.bhs, InFirst vol b := fun b hb => by
        obtain ⟨x, hx, hb⟩ := (hsearch.collected b).mp hb
        exact mem_fat_of_held (hsearch.took.free x hx).1.2 hb
      obtain ⟨hcount, hvalid⟩ := hsearch.known (by simp [herr])
      have hlen : st.clusters.length = nr := by
        rcases hsearch.result with ⟨-, hlen⟩ | ⟨hnot, -⟩ | ⟨hnot, -⟩
        · exact hlen
        · simp [herr] at hnot
        · simp [herr] at hnot
      rw [if_pos herr]
      refine Returns.bind ((returns_syncAndMirror hin).mono (fun err s₂ hsync => ?_))
      refine returns_allocEnd (hsearch.took.quiet hsync.quiet) hprev
        (fun h => hsync.quiet.exact (hsearch.exact h)) ?_ ?_ ?_
      · exact fun hs => (hsync.mirrored _ (hmirror hs)).mono (fun b hb => hb.1)
      · refine fun hnone => ⟨hlen, hsearch.took.quiet hsync.quiet, ?_, ?_,
          fun h => hsync.quiet.exact (hsearch.exact h), fun hs => ?_⟩
        · rw [hsync.quiet.freeClusters, hcount, hlen]
        · rw [hsync.quiet.freeClusValid, hvalid]
        · refine (hsync.mirrored _ (hmirror hs)).mono ?_
          rintro b ⟨hheld, hnot⟩
          exact hnot hnone ((hsearch.collected b).mpr hheld)
      · rintro e rfl
        obtain ⟨hunwritable, hne⟩ := hsync.faulty (by simp)
        exact ⟨fun he => absurd (congrArg some he) hne, fun hfault => absurd hunwritable.faulty hfault⟩
    · rw [if_neg herr]
      refine Returns.bind (Returns.ret ?_)
      refine returns_allocEnd hsearch.took hprev hsearch.exact hmirror (fun hnone => absurd hnone herr) ?_
      rintro e rfl
      refine ⟨?_, fun hfault => ?_⟩
      · rintro rfl -
        exact hsearch.freeCount_lt
      · rcases hsearch.result with ⟨hnot, -⟩ | ⟨heq, -⟩ | ⟨-, -, hfaulty⟩
        · cases hnot
        · exact Option.some.inj heq
        · exact absurd hfaulty hfault

/-- fat_alloc_clusters returns a chain of clusters that were free, or fails and leaves every file as it was. -/
theorem fatAllocClusters_ends {needsSync : Bool} {nr : Nat} (hnr : 1 ≤ nr ∧ nr ≤ maxBufPerPage / 2)
    (hprev : startEnt ≤ s.prevFree) : Ends G s (fatAllocClusters vol opt needsSync nr) (Allocs G vol s nr) :=
  (returns_fatAllocClusters hnr hprev).ends (halts_fatAllocClusters needsSync nr)

theorem fatAllocClusters_ends_floppy : startEnt ≤ filed.prevFree ∧
    Ends (fun _ => True) filed (fatAllocClusters floppy ⟨false, false, false⟩ true 4)
      (Allocs (fun _ => True) floppy filed 4) :=
  ⟨by decide, fatAllocClusters_ends (by decide) (by decide)⟩

end Alloc

section Count

theorem card_freeBelow_succ {n : Nat} (hn : startEnt ≤ n) :
    (freeBelow vol s (n + 1)).card = if s.next vol n = entFree then (freeBelow vol s n).card + 1
      else (freeBelow vol s n).card := by
  have hout : n ∉ freeBelow vol s n := fun hmem => lt_irrefl n (mem_freeBelow.mp hmem).1.2
  rw [freeBelow, ← Order.succ_eq_add_one, ← Finset.insert_Ico_right_eq_Ico_succ hn, Finset.filter_insert]
  split_ifs
  · exact Finset.card_insert_of_notMem hout
  · rfl

theorem returns_countLoop {left free : Nat} {mapped : Bool} (hentry : startEnt ≤ f.entry)
    (hleft : f.entry + left = vol.maxCluster) (hmapped : mapped = true → f.Points vol)
    (hfree : free = (freeBelow vol s f.entry).card) :
    Returns G s (countLoop vol left mapped f free) (fun r s' => s' = s ∧
      (r = some (freeCount vol s) ∨ r = none ∧ Unreadable G)) := by
  induction left generalizing f mapped free with
  | zero =>
      refine Returns.ret ⟨rfl, .inl ?_⟩
      rw [hfree, freeCount, ← hleft, Nat.add_zero]
  | succ left ih =>
      refine Returns.bind (returns_entAt hmapped (fun hfault => ?_) (fun f' he hf' => ?_))
      · exact Returns.ret ⟨rfl, .inr ⟨rfl, hfault⟩⟩
      · have hnext : (entNext vol f').1.entry = f.entry + 1 := (entNext_entry f').trans (by rw [he])
        refine Returns.bind (Returns.read (ih ?_ ?_ (fun hmore => ?_) ?_))
        · exact hnext ▸ hentry.trans (Nat.le_succ _)
        · show (entNext vol f').1.entry + left = vol.maxCluster
          omega
        · exact hf'.entNext (Bool.and_eq_true_iff.mp hmore).1
        · show _ = (freeBelow vol s (entNext vol f').1.entry).card
          rw [hnext, card_freeBelow_succ hentry, hf'.entGet_eq, he, hfree]
          rfl

/-- What fat_count_free_clusters leaves: nothing but the count has changed, and that is right if it was, or was not
known to be. -/
structure Counted (G : Answer → Prop) (vol : Volume) (s : Fat) (err : Option Errno) (s' : Fat) : Prop where
  eq : s' = { s with
    freeClusters := s'.freeClusters, freeClusValid := s'.freeClusValid, fsinfoDirty := s'.fsinfoDirty }
  exact : Exact vol s → Exact vol s'
  known : err = none → s'.freeClusValid = true ∧ s'.freeClusters ≠ unknown
  failed : ∀ e, err = some e → e = .eio ∧ Unreadable G ∧ s' = s

theorem returns_fatCountFreeClusters : Returns G s (fatCountFreeClusters vol) (Counted G vol s) := by
  refine Returns.bind (Returns.read ?_)
  dsimp only [id]
  split_ifs with hknown
  · exact Returns.ret ⟨rfl, id, fun _ => ⟨hknown.2, hknown.1⟩, by simp⟩
  · have hstart : startEnt + (vol.maxCluster - startEnt) = vol.maxCluster := Nat.add_sub_cancel' vol.start_le
    refine Returns.bind ((returns_countLoop le_rfl hstart (by simp) ?_).mono ?_)
    · simp [freeBelow, Fatent.setEntry]
    · rintro r s₁ ⟨rfl, rfl | ⟨rfl, hfault⟩⟩
      · have hlt := freeCount_lt vol s₁
        have htoNat : (BitVec.ofNat 32 (freeCount vol s₁)).toNat = freeCount vol s₁ := by
          rw [BitVec.toNat_ofNat]
          exact Nat.mod_eq_of_lt (by omega)
        refine Returns.bind (Returns.modify (Returns.bind (returns_markFsinfoDirty (fun dirty => Returns.ret ?_))))
        exact ⟨rfl, fun _ _ _ => htoNat, fun _ => ⟨rfl, ne_unknown_of_lt (by rw [htoNat]; omega)⟩, by simp⟩
      · refine Returns.ret ⟨rfl, id, by simp, fun e he => ?_⟩
        cases he
        exact ⟨rfl, hfault, rfl⟩

theorem Counted.toNat_eq (h : Counted G vol s none s') (hexact : Exact vol s) :
    s'.freeClusters.toNat = freeCount vol s := by
  obtain ⟨hvalid, hknown⟩ := h.known rfl
  rw [h.exact hexact hvalid hknown]
  refine freeCount_of_eq (fun e _ => ?_)
  rw [h.eq]
  rfl

structure Reports (G : Answer → Prop) (vol : Volume) (s : Fat) (r : Except Errno (Nat × BitVec 32)) (s' : Fat) :
    Prop where
  cached : s.freeClusters ≠ unknown → s.freeClusValid = true →
    r = .ok (vol.maxCluster - startEnt, s.freeClusters) ∧ s' = s
  reported : ∀ total free, r = .ok (total, free) → total = vol.maxCluster - startEnt ∧ s'.freeClusters = free ∧
    (Exact vol s → free.toNat = freeCount vol s ∧ Exact vol s')
  failed : ∀ e, r = .error e → e = .eio ∧ Unreadable G ∧ s' = s

theorem returns_fatStatfs : Returns G s (fatStatfs vol) (Reports G vol s) := by
  refine Returns.bind (Returns.read ?_)
  dsimp only [id]
  split_ifs with hunknown
  · have hnot : s.freeClusters ≠ unknown → s.freeClusValid ≠ true :=
      fun hknown hvalid => by simp [hknown, hvalid] at hunknown
    refine Returns.bind (returns_fatCountFreeClusters.mono (fun err s₁ h => ?_))
    cases err with
    | some e =>
        refine Returns.ret ⟨fun hknown hvalid => absurd hvalid (hnot hknown), by simp, fun e' he' => ?_⟩
        cases he'
        exact h.failed e rfl
    | none =>
        refine Returns.bind
          (Returns.read (Returns.ret ⟨fun hknown hvalid => absurd hvalid (hnot hknown), ?_, by simp⟩))
        rintro total free ⟨⟩
        exact ⟨rfl, rfl, fun hexact => ⟨h.toNat_eq hexact, h.exact hexact⟩⟩
  · rw [not_or, Bool.not_eq_false] at hunknown
    refine Returns.bind
      (Returns.ret (Returns.bind (Returns.read (Returns.ret ⟨fun _ _ => ⟨rfl, rfl⟩, ?_, by simp⟩))))
    rintro total free ⟨⟩
    exact ⟨rfl, rfl, fun hexact => ⟨hexact hunknown.2 hunknown.1, hexact⟩⟩

theorem halts_countLoop (left : Nat) (mapped : Bool) (f : Fatent) (free : Nat) :
    Halts (countLoop vol left mapped f free) := by
  induction left generalizing mapped f free with
  | zero => exact Halts.ret
  | succ left ih =>
      refine Halts.bind (halts_entAt _ _) (fun r => ?_)
      cases r with
      | none => exact Halts.ret
      | some f => exact Halts.bind Halts.read (fun _ => ih _ _ _)

theorem halts_fatStatfs : Halts (fatStatfs vol) := by
  have hcount : Halts (fatCountFreeClusters vol) := by
    refine Halts.bind Halts.read (fun s => halts_ite Halts.ret (Halts.bind (halts_countLoop _ _ _ _) (fun r => ?_)))
    cases r with
    | none => exact Halts.ret
    | some free => exact Halts.bind Halts.modify (fun _ => Halts.bind Halts.modify (fun _ => Halts.ret))
  refine Halts.bind Halts.read
    (fun s => halts_ite (Halts.bind hcount (fun err => ?_)) (Halts.bind Halts.ret (fun err => ?_)))
  all_goals
    cases err with
    | none => exact Halts.bind Halts.read (fun _ => Halts.ret)
    | some e => exact Halts.ret

/-- fat_statfs reports the number of clusters that are free, whether it counts them or not, unless the count it relies
on is wrong. -/
theorem fatStatfs_ends (G : Answer → Prop) (vol : Volume) (s : Fat) : Ends G s (fatStatfs vol) (Reports G vol s) :=
  returns_fatStatfs.ends halts_fatStatfs

theorem freeCount_filed : freeCount floppy filed = 2845 := by
  have hfree : freeBelow floppy filed floppy.maxCluster = Finset.Ico 4 2849 := by
    ext x
    rw [mem_freeBelow, next_filed, Finset.mem_Ico]
    simp only [floppy, startEnt]
    split_ifs with h₂ h₃
    · simp only [entFree, OfNat.ofNat_ne_zero, and_false, false_iff]
      omega
    · simp only [entFree, entEof, OfNat.ofNat_ne_zero, and_false, false_iff]
      omega
    · simp only [and_true]
      omega
  rw [freeCount, hfree, Nat.card_Ico]

def counted : Fat := { filed with freeClusters := 2845 }

theorem exact_counted : Exact floppy counted := fun _ _ => freeCount_filed.symm

theorem fatStatfs_ends_floppy :
    Ends (fun _ => True) counted (fatStatfs floppy) (fun r s' => r = .ok (2847, 2845) ∧ s' = counted) ∧
    Ends (fun a => a.read = true) { counted with freeClusValid := false } (fatStatfs floppy)
      (fun r s' => ∃ free, r = .ok (2847, free) ∧ free.toNat = 2845 ∧ Exact floppy s') := by
  constructor
  · exact Ends.mono (fatStatfs_ends (fun _ => True) floppy counted) (fun r s' h => h.cached (by decide) rfl)
  · refine Ends.mono (fatStatfs_ends _ floppy _) (fun r s' h => ?_)
    cases r with
    | error e =>
        obtain ⟨-, ⟨a, ha, hfalse⟩, -⟩ := h.failed e rfl
        simp [ha] at hfalse
    | ok result =>
        obtain ⟨total, free⟩ := result
        obtain ⟨rfl, -, hright⟩ := h.reported total free rfl
        obtain ⟨hfree, hexact⟩ := hright (fun hvalid => by cases hvalid)
        exact ⟨free, rfl, hfree.trans freeCount_filed, hexact⟩

end Count

end SuperRaid.FatTable
