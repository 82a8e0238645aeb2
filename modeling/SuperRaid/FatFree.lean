import SuperRaid.FatTableSpec

namespace SuperRaid.FatTable

open Image Sys FatEntry LinkTable

variable {vol : Volume} {opt : Options} {G : Answer → Prop} {s₀ s s' : Fat} {f : Fatent} {l : List Nat}
  {c next : Nat}
  {st : Freeing}

def inc (n : BitVec 32) : BitVec 32 := if n ≠ unknown then n + 1 else n

def Outside (vol : Volume) (b : Nat) : Prop := b < vol.fatStart ∨ vol.fatStart + vol.fatLength * vol.fats ≤ b

theorem Outside.not_inFirst {b : Nat} (h : Outside vol b) : ¬ InFirst vol b := by
  have := Nat.mul_le_mul_left vol.fatLength vol.fats_pos
  rintro ⟨hstart, hend⟩
  rcases h with h | h <;> omega

theorem Outside.spared {b : Nat} (h : Outside vol b) : Spared vol b :=
  h.imp_left (fun h => h.trans_le (Nat.le_add_right _ _))

/-- The entries in l have become free, and nothing else has happened to the links. -/
structure Freed (vol : Volume) (s : Fat) (l : List Nat) (s' : Fat) : Prop where
  next : ∀ e < vol.maxCluster, s'.next vol e = if e ∈ l then entFree else s.next vol e
  count : s'.freeClusters = inc^[l.length] s.freeClusters
  freeClusValid : s'.freeClusValid = s.freeClusValid
  prevFree : s'.prevFree = s.prevFree
  outside : ∀ q : Ptr, Outside vol q.1 → s'.bufs q = s.bufs q

theorem Freed.refl (s : Fat) : Freed vol s [] s := ⟨fun _ _ => rfl, rfl, rfl, rfl, fun _ _ => rfl⟩

theorem Freed.frame (h : Freed vol s₀ l s) (dirty ro : Bool) (ds : List (Nat × Nat)) :
    Freed vol s₀ l { s with fsinfoDirty := dirty, rdonly := ro, discards := ds } :=
  ⟨h.next, h.count, h.freeClusValid, h.prevFree, h.outside⟩

theorem Freed.quiet (h : Freed vol s₀ l s) (hquiet : Quiet vol s s') : Freed vol s₀ l s' where
  next e he := (hquiet.next he).trans (h.next e he)
  count := hquiet.freeClusters.trans h.count
  freeClusValid := hquiet.freeClusValid.trans h.freeClusValid
  prevFree := hquiet.prevFree.trans h.prevFree
  outside q hq := (hquiet.spared q hq.spared).trans (h.outside q hq)

theorem Freed.snoc (h : Freed vol s₀ l s) (hc : c < vol.maxCluster) :
    Freed vol s₀ (l ++ [c]) { s.put vol c entFree with freeClusters := inc s.freeClusters } where
  next e he := by
    refine (next_put storable_free e).trans ?_
    rw [h.next e he]
    simp only [List.mem_append, List.mem_singleton]
    split_ifs <;> tauto
  count := by
    rw [List.length_append, List.length_singleton, Function.iterate_succ_apply', ← h.count]
  freeClusValid := h.freeClusValid
  prevFree := h.prevFree
  outside q hq := (put_of_not_inFirst hc hq.not_inFirst).trans (h.outside q hq)

def runs (ds : List (Nat × Nat)) : List Nat := ds.reverse.flatMap (fun d => List.range' d.1 d.2)

theorem runs_cons (d : Nat × Nat) (ds : List (Nat × Nat)) : runs (d :: ds) = runs ds ++ List.range' d.1 d.2 := by
  simp [runs]

/-- What was freed is discarded, up to the run of clusters that starts at first_cl. -/
def Discards (opt : Options) (s₀ s : Fat) (firstCl cluster : Nat) (l : List Nat) : Prop :=
  ∃ ds, s.discards = ds ++ s₀.discards ∧
    if opt.discard then ∃ k, cluster = firstCl + k ∧ runs ds ++ List.range' firstCl k = l else ds = []

theorem returns_freeDiscard (h : Discards opt s₀ s st.firstCl c l) :
    Returns G s (freeDiscard opt st next c) (fun st' s' => st'.bhs = st.bhs ∧
      s' = { s with discards := s'.discards } ∧ Discards opt s₀ s' st'.firstCl next (l ++ [c])) := by
  obtain ⟨ds, hds, h⟩ := h
  unfold freeDiscard
  cases hopt : opt.discard with
  | false =>
      simp only [hopt, Bool.false_eq_true, if_false] at h
      simp only [Bool.false_eq_true, false_and, if_false]
      exact Returns.ret ⟨rfl, rfl, ds, hds, by simpa [hopt] using h⟩
  | true =>
      simp only [hopt, if_true] at h
      obtain ⟨k, rfl, h⟩ := h
      have hrun : runs ds ++ List.range' st.firstCl (k + 1) = l ++ [st.firstCl + k] := by
        rw [List.range'_concat, ← List.append_assoc, h, Nat.one_mul]
      simp only [true_and]
      split_ifs with hnext
      · refine Returns.bind (Returns.call (fun r _ => Returns.ret ⟨rfl, rfl, ?_⟩))
        refine ⟨(st.firstCl, st.firstCl + k - st.firstCl + 1) :: ds, by simp [hds], ?_⟩
        simp only [hopt, if_true]
        refine ⟨0, rfl, ?_⟩
        rw [runs_cons, Nat.add_sub_cancel_left, hrun, List.range'_zero, List.append_nil]
      · refine Returns.ret ⟨rfl, rfl, ds, hds, ?_⟩
        simp only [hopt, if_true]
        exact ⟨k + 1, not_not.mp hnext, hrun⟩

theorem returns_freeEntry (hf : f.Points vol) :
    Returns G s (freeEntry f st) (fun st' s' => (st'.bhs = st.bhs ∧ st'.firstCl = st.firstCl) ∧
      s' = { s.put vol f.entry entFree with freeClusters := inc s.freeClusters }) := by
  refine Returns.bind (returns_entStore hf (Returns.bind (Returns.read ?_)))
  split_ifs with hknown
  · refine Returns.bind (Returns.modify (Returns.ret ⟨⟨rfl, rfl⟩, ?_⟩))
    have hinc : inc s.freeClusters = s.freeClusters + 1 := if_pos (of_decide_eq_true hknown)
    rw [hinc]
    rfl
  · refine Returns.ret ⟨⟨rfl, rfl⟩, ?_⟩
    have hinc : inc s.freeClusters = s.freeClusters := if_neg (fun h => hknown (decide_eq_true h))
    rw [hinc]
    rfl

structure Flushed (G : Answer → Prop) (vol : Volume) (f : Fatent) (st : Freeing) (s : Fat) (err : Option Errno)
    (st' : Freeing) (s' : Fat) : Prop where
  quiet : Quiet vol s s'
  firstCl : st'.firstCl = st.firstCl
  mem : ∀ b ∈ st'.bhs, b ∈ st.bhs
  room : err = none → st'.bhs.length + f.bhs.length ≤ maxBufPerPage
  mirrored : err = none → ∀ B : Nat → Prop,
    MirroredBut vol (fun b => (B b ∨ b ∈ st.bhs) ∨ b ∈ f.bhs) s →
    MirroredBut vol (fun b => (B b ∨ b ∈ st'.bhs) ∨ b ∈ f.bhs) s'
  faulty : err ≠ none → Faulty G

theorem returns_freeFlush (hf : f.bhs.length ≤ maxBufPerPage) (hst : ∀ b ∈ st.bhs, InFirst vol b) :
    Returns G s (freeFlush vol opt f st) (fun r s' => Flushed G vol f st s r.1 r.2 s') := by
  unfold freeFlush
  split_ifs with hroom
  · refine Returns.bind ((returns_syncAndMirror hst).mono (fun err s' h => Returns.ret ?_))
    split_ifs with herr
    · refine ⟨h.quiet, rfl, by simp, fun _ => by simpa using hf, fun _ B hB => (h.mirrored _ hB).mono ?_,
        fun herr => (h.faulty herr).1.faulty⟩
      rintro b ⟨(hb | hb) | hb, hnot⟩
      exacts [.inl (.inl hb), absurd hb (hnot herr), .inr hb]
    · exact ⟨h.quiet, rfl, fun b hb => hb, fun hnone => absurd hnone herr, fun hnone => absurd hnone herr,
        fun herr => (h.faulty herr).1.faulty⟩
  · exact Returns.ret ⟨Quiet.refl s, rfl, fun b hb => hb, fun _ => Nat.le_of_not_lt hroom, fun _ _ h => h, by simp⟩

/-- The invariant of the loop of fat_free_clusters, when the entries in l have been freed. -/
structure FreeInv (vol : Volume) (opt : Options) (s₀ : Fat) (start : Nat) (l : List Nat) (st : Freeing) (s : Fat) :
    Prop where
  chain : Segment (s₀.next vol) start l st.cluster
  nodup : l.Nodup
  used : ∀ e ∈ l, (startEnt ≤ e ∧ e < vol.maxCluster) ∧ s₀.next vol e ≠ entFree
  freed : Freed vol s₀ l s
  discards : Discards opt s₀ s st.firstCl st.cluster l
  holds : Holds vol st.fatent.bhs
  inFirst : ∀ b ∈ st.bhs, InFirst vol b
  room : st.bhs.length ≤ maxBufPerPage
  mirrored : ∀ B, MirroredBut vol B s₀ →
    MirroredBut vol (fun b => (B b ∧ ∀ e ∈ l, b ∉ held vol e) ∨ b ∈ st.bhs) s

/-- The chain does not end at stop, and cannot be followed from there. -/
def Broken (vol : Volume) (s : Fat) (l : List Nat) (stop : Nat) : Prop :=
  (l = [] ∨ stop ≠ entEof) ∧
    (¬ (startEnt ≤ stop ∧ stop < vol.maxCluster) ∨ s.next vol stop = entFree ∨ stop ∈ l)

structure Frees (G : Answer → Prop) (vol : Volume) (opt : Options) (s : Fat) (start : Nat) (l : List Nat) (stop : Nat)
    (err : Option Errno) (s' : Fat) : Prop where
  chain : Segment (s.next vol) start l stop
  nodup : l.Nodup
  used : ∀ e ∈ l, (startEnt ≤ e ∧ e < vol.maxCluster) ∧ s.next vol e ≠ entFree
  freed : Freed vol s l s'
  discarded : ∃ ds, s'.discards = ds ++ s.discards ∧ runs ds <+: l ∧ (opt.discard → err = none → runs ds = l)
  ended : err = none → l ≠ [] ∧ stop = entEof
  cause : err ≠ none → Faulty G ∨ Broken vol s l stop

theorem length_le_of_used (hnodup : l.Nodup) (hused : ∀ e ∈ l, e < vol.maxCluster) :
    l.length ≤ vol.maxCluster := by
  have hsub : l ⊆ List.range vol.maxCluster := fun e he => List.mem_range.mpr (hused e he)
  simpa using (hnodup.subperm hsub).length_le

theorem Discards.prefix_runs {firstCl : Nat} (h : Discards opt s₀ s firstCl c l) :
    ∃ ds, s.discards = ds ++ s₀.discards ∧ runs ds <+: l := by
  obtain ⟨ds, hds, h⟩ := h
  refine ⟨ds, hds, ?_⟩
  split_ifs at h
  · obtain ⟨k, -, rfl⟩ := h
    exact List.prefix_append _ _
  · rw [h]
    exact List.nil_prefix

theorem maxCluster_lt_eof (vol : Volume) : vol.maxCluster + 1 < entEof := by
  have hbad := vol.lt_bad
  have : vol.variant.bad ≤ 0x0ffffff7 := by cases vol.variant <;> simp [Variant.bad]
  rw [entEof]
  omega

theorem Discards.runs_eq {firstCl : Nat} (h : Discards opt s₀ s firstCl entEof l)
    (hused : ∀ e ∈ l, e < vol.maxCluster) :
    ∃ ds, s.discards = ds ++ s₀.discards ∧ runs ds <+: l ∧ (opt.discard → runs ds = l) := by
  obtain ⟨ds, hds, h⟩ := h
  refine ⟨ds, hds, ?_⟩
  split_ifs at h with hopt
  · obtain ⟨k, hk, rfl⟩ := h
    refine ⟨List.prefix_append _ _, fun _ => ?_⟩
    cases k with
    | zero => rw [List.range'_zero, List.append_nil]
    | succ k =>
        have hlast := hused (firstCl + k) (List.mem_append_right _ (List.mem_range'_1.mpr (by omega)))
        have := maxCluster_lt_eof vol
        omega
  · rw [h]
    exact ⟨List.nil_prefix, fun h => absurd h hopt⟩

theorem FreeInv.frees {start : Nat} {err : Option Errno} (h : FreeInv vol opt s₀ start l st s) (herr : err ≠ none)
    (hcause : Faulty G ∨ Broken vol s₀ l st.cluster) :
    Frees G vol opt s₀ start l st.cluster err s where
  chain := h.chain
  nodup := h.nodup
  used := h.used
  freed := h.freed
  discarded := by
    obtain ⟨ds, hds, hruns⟩ := h.discards.prefix_runs
    exact ⟨ds, hds, hruns, fun _ hnone => absurd hnone herr⟩
  ended hnone := absurd hnone herr
  cause _ := hcause

theorem FreeInv.rdonly {start : Nat} (h : FreeInv vol opt s₀ start l st s) (ro : Bool) :
    FreeInv vol opt s₀ start l st { s with rdonly := ro } :=
  ⟨h.chain, h.nodup, h.used, h.freed.frame s.fsinfoDirty ro s.discards, h.discards, h.holds, h.inFirst, h.room,
    h.mirrored⟩

theorem length_held_le (vol : Volume) (e : Nat) : (held vol e).length ≤ 2 := by
  show List.length (if _ then _ else _) ≤ 2
  split_ifs <;> simp

def LoopEnds (G : Answer → Prop) (vol : Volume) (opt : Options) (s : Fat) (start : Nat) (r : FreeEnd) (s' : Fat) :
    Prop :=
  ∃ err st l stop, r = .ended err st ∧ Frees G vol opt s start l stop err s' ∧ (err = none →
    (∀ b ∈ st.bhs, InFirst vol b) ∧ ∀ B, MirroredBut vol B s →
      MirroredBut vol (fun b => (B b ∧ ∀ e ∈ l, b ∉ held vol e) ∨ b ∈ st.bhs) s')

theorem FreeInv.loopEnds {start : Nat} {e : Errno} (h : FreeInv vol opt s₀ start l st s)
    (hcause : Faulty G ∨ Broken vol s₀ l st.cluster) :
    LoopEnds G vol opt s₀ start (.ended (some e) st) s :=
  ⟨some e, st, l, st.cluster, rfl, h.frees (by simp) hcause, by simp⟩

theorem FreeInv.returns_freeRound {start : Nat} (h : FreeInv vol opt s₀ start l st s) (hf : f.Points vol)
    (hentry : f.entry = st.cluster) (hvalid : startEnt ≤ st.cluster ∧ st.cluster < vol.maxCluster)
    (hmem : st.cluster ∉ l) (hnext : s₀.next vol st.cluster = next) (hused : next ≠ entFree) :
    Returns G s (freeRound vol opt f next st) (fun r s' =>
      (r.1 = none → FreeInv vol opt s₀ start (l ++ [st.cluster]) r.2 s' ∧ r.2.cluster = next) ∧
      (r.1 ≠ none → Frees G vol opt s₀ start (l ++ [st.cluster]) next r.1 s')) := by
  have hnodup : (l ++ [st.cluster]).Nodup := by
    rw [List.nodup_append_comm]
    exact List.nodup_cons.mpr ⟨hmem, h.nodup⟩
  have hchain : Segment (s₀.next vol) start (l ++ [st.cluster]) next := segment_snoc.mpr ⟨h.chain, hnext⟩
  have hall : ∀ e ∈ l ++ [st.cluster], (startEnt ≤ e ∧ e < vol.maxCluster) ∧ s₀.next vol e ≠ entFree := by
    intro e he
    rcases List.mem_append.mp he with he | he
    · exact h.used e he
    · obtain rfl := List.mem_singleton.mp he
      exact ⟨hvalid, hnext ▸ hused⟩
  have hbhs : ∀ b ∈ f.bhs, InFirst vol b := fun b hb => mem_fat_of_held hvalid.2 (hentry ▸ hf.bhs ▸ hb)
  have hlen : f.bhs.length ≤ maxBufPerPage := by
    rw [hf.bhs]
    exact (length_held_le vol f.entry).trans (by decide)
  refine Returns.bind ((returns_freeDiscard (hentry ▸ h.discards)).mono ?_)
  rintro st₁ s₁ ⟨hbhs₁, hs₁, hdiscards⟩
  refine Returns.bind ((returns_freeEntry hf).mono ?_)
  rintro st₂ s₂ ⟨⟨hbhs₂, hfirst₂⟩, hs₂⟩
  have hsame : st₂.bhs = st.bhs := hbhs₂.trans hbhs₁
  refine Returns.bind ((returns_freeFlush hlen (hsame ▸ h.inFirst)).mono ?_)
  rintro ⟨err, st₃⟩ s₃ hflush
  dsimp only at hflush ⊢
  have hfreed : Freed vol s₀ (l ++ [st.cluster]) s₃ := by
    refine Freed.quiet ?_ hflush.quiet
    rw [hs₂, hs₁, hentry]
    exact (h.freed.frame s.fsinfoDirty s.rdonly s₁.discards).snoc hvalid.2
  have hds : Discards opt s₀ s₃ st₃.firstCl next (l ++ [st.cluster]) := by
    obtain ⟨ds, hds, hruns⟩ := hdiscards
    refine ⟨ds, ?_, ?_⟩
    · rw [hflush.quiet.discards, hs₂]
      exact hds
    · rw [hflush.firstCl, hfirst₂, ← hentry]
      exact hruns
  refine Returns.ret ⟨fun hnone => ?_, fun herr => ?_⟩
  · rw [if_pos hnone]
    refine ⟨⟨hchain, hnodup, hall, hfreed, hds, Fatent.Points.holds hf, fun b hb => ?_, ?_, fun B hB => ?_⟩,
      rfl⟩
    · rcases mem_fatCollectBhs.mp hb with hb | hb
      · exact h.inFirst b (hsame ▸ hflush.mem b hb)
      · exact hbhs b hb
    · exact (length_fatCollectBhs _ _).trans (hflush.room hnone)
    · have hput :
          MirroredBut vol (fun b => ((B b ∧ ∀ e ∈ l, b ∉ held vol e) ∨ b ∈ st₂.bhs) ∨
            b ∈ f.bhs) s₂ := by
        rw [hs₂, hs₁, hsame, hf.bhs]
        exact (h.mirrored B hB).put (hentry ▸ hvalid.2)
      refine (hflush.mirrored hnone _ hput).mono ?_
      rintro b ((⟨hb, hfreed⟩ | hb) | hb)
      · by_cases hheld : b ∈ f.bhs
        · exact .inr (mem_fatCollectBhs.mpr (.inr hheld))
        · refine .inl ⟨hb, fun e he => ?_⟩
          rcases List.mem_append.mp he with he | he
          · exact hfreed e he
          · rwa [List.mem_singleton.mp he, ← hentry, ← hf.bhs]
      · exact .inr (mem_fatCollectBhs.mpr (.inl hb))
      · exact .inr (mem_fatCollectBhs.mpr (.inr hb))
  · obtain ⟨ds, hds, hruns⟩ := hds.prefix_runs
    exact ⟨hchain, hnodup, hall, hfreed, ⟨ds, hds, hruns, fun _ hnone => absurd hnone herr⟩,
      fun hnone => absurd hnone herr, fun _ => .inl (hflush.faulty herr)⟩

/-- The loop has fewer rounds than there are entries, since it never comes back to one that it has freed. -/
theorem returns_freeLoop {start n : Nat} (h : FreeInv vol opt s₀ start l st s)
    (hgo : l = [] ∨ st.cluster ≠ entEof) (hn : vol.maxCluster < l.length + n) :
    Returns G s (freeLoop vol opt n st) (LoopEnds G vol opt s₀ start) := by
  induction n generalizing l st s with
  | zero =>
      have := length_le_of_used h.nodup (fun e he => (h.used e he).1.2)
      omega
  | succ n ih =>
      refine Returns.bind (returns_fatEntRead h.holds ?_ ?_)
      · intro f ro _ hcause
        exact Returns.ret
          ((h.rdonly ro).loopEnds (hcause.imp Unreadable.faulty (fun hinvalid => ⟨hgo, .inl hinvalid⟩)))
      · intro f hstart hmax hentry hf
        have hlink := h.freed.next st.cluster hmax
        dsimp only
        by_cases hfree : s.next vol st.cluster = entFree
        · rw [if_pos hfree]
          have hcause : s₀.next vol st.cluster = entFree ∨ st.cluster ∈ l := by
            rw [hlink] at hfree
            split_ifs at hfree with hmem
            · exact .inr hmem
            · exact .inl hfree
          refine Returns.bind (Returns.modify (Returns.ret ?_))
          split_ifs
          · exact (h.rdonly true).loopEnds (.inr ⟨hgo, .inr hcause⟩)
          · exact h.loopEnds (.inr ⟨hgo, .inr hcause⟩)
        · have hmem : st.cluster ∉ l := fun hmem => hfree (by rw [hlink, if_pos hmem])
          rw [if_neg hmem] at hlink
          rw [if_neg hfree]
          refine Returns.bind ((h.returns_freeRound hf hentry ⟨hstart, hmax⟩ hmem hlink.symm hfree).mono ?_)
          rintro ⟨err, st'⟩ s' ⟨hround, hfailed⟩
          dsimp only at hround hfailed ⊢
          split_ifs with herr hroom heof
          · exact Returns.ret ⟨err, st', _, _, rfl, hfailed herr, fun hnone => absurd hnone herr⟩
          · exact absurd (hround (not_not.mp herr)).1.room (Nat.not_le.mpr hroom)
          · obtain ⟨hinv, hcluster⟩ := hround (not_not.mp herr)
            refine Returns.ret ⟨none, st', l ++ [st.cluster], st'.cluster, rfl, ?_,
              fun _ => ⟨hinv.inFirst, hinv.mirrored⟩⟩
            have hds := hinv.discards
            rw [hcluster, heof] at hds
            obtain ⟨ds, hds, hruns, hall⟩ := hds.runs_eq (fun e he => (hinv.used e he).1.2)
            exact ⟨hinv.chain, hinv.nodup, hinv.used, hinv.freed, ⟨ds, hds, hruns, fun hopt _ => hall hopt⟩,
              fun _ => ⟨by simp, hcluster.trans heof⟩, by simp⟩
          · obtain ⟨hinv, hcluster⟩ := hround (not_not.mp herr)
            refine ih hinv (.inr (hcluster ▸ heof)) ?_
            rw [List.length_append, List.length_singleton]
            omega

theorem Frees.quiet {start stop : Nat} {err : Option Errno} (h : Frees G vol opt s₀ start l stop err s)
    (hquiet : Quiet vol s s') : Frees G vol opt s₀ start l stop err s' :=
  ⟨h.chain, h.nodup, h.used, h.freed.quiet hquiet, hquiet.discards ▸ h.discarded, h.ended, h.cause⟩

theorem Frees.fail {start stop : Nat} {err : Option Errno} (h : Frees G vol opt s₀ start l stop none s)
    (herr : err ≠ none) (hfault : Faulty G) : Frees G vol opt s₀ start l stop err s := by
  obtain ⟨ds, hds, hruns, -⟩ := h.discarded
  exact ⟨h.chain, h.nodup, h.used, h.freed, ⟨ds, hds, hruns, fun _ hnone => absurd hnone herr⟩,
    fun hnone => absurd hnone herr, fun _ => .inl hfault⟩

theorem Frees.fsinfo {start stop : Nat} {err : Option Errno} (h : Frees G vol opt s₀ start l stop err s)
    (dirty : Bool) :
    Frees G vol opt s₀ start l stop err { s with fsinfoDirty := dirty } :=
  ⟨h.chain, h.nodup, h.used, h.freed.frame dirty s.rdonly s.discards, h.discarded, h.ended, h.cause⟩

theorem returns_markFsinfoDirty {Q : Unit → Fat → Prop} (h : ∀ dirty, Q () { s with fsinfoDirty := dirty }) :
    Returns G s (markFsinfoDirty vol) Q := by
  refine Returns.modify ?_
  split_ifs
  · exact h s.fsinfoDirty
  · exact h true

def FreesMirrored (G : Answer → Prop) (vol : Volume) (opt : Options) (s : Fat) (start : Nat)
    (r : Option (Option Errno)) (s' : Fat) : Prop :=
  ∃ err l stop, r = some err ∧ Frees G vol opt s start l stop err s' ∧
    (err = none → ∀ B, MirroredBut vol B s → MirroredBut vol (fun b => B b ∧ ∀ e ∈ l, b ∉ held vol e) s')

theorem returns_fatFreeClusters : Returns G s (fatFreeClusters vol opt c) (FreesMirrored G vol opt s c) := by
  have hinit : FreeInv vol opt s c [] ⟨c, fatentInit, c, [], false⟩ s := by
    refine ⟨rfl, List.nodup_nil, by simp, Freed.refl s, ⟨[], rfl, ?_⟩, .inl rfl, by simp, by simp,
      fun B h => ?_⟩
    · split_ifs
      · exact ⟨0, rfl, rfl⟩
      · rfl
    · exact h.mono (fun b hb => .inl ⟨hb, by simp⟩)
  have hfsinfo : ∀ {err : Option Errno} {st : Freeing} {l : List Nat} {stop : Nat} {s' : Fat},
      Frees G vol opt s c l stop err s' →
      (err = none → ∀ B, MirroredBut vol B s →
        MirroredBut vol (fun b => B b ∧ ∀ e ∈ l, b ∉ held vol e) s') →
      Returns G s' (do
        if st.dirtyFsinfo then markFsinfoDirty vol
        pure (some err)) (FreesMirrored G vol opt s c) := by
    intro err st l stop s' hfrees hmirrored
    split_ifs
    · refine Returns.bind (returns_markFsinfoDirty (fun dirty => Returns.ret ?_))
      exact ⟨err, l, stop, rfl, hfrees.fsinfo dirty, hmirrored⟩
    · exact Returns.ret ⟨err, l, stop, rfl, hfrees, hmirrored⟩
  refine Returns.bind ((returns_freeLoop hinit (.inl rfl) (by simp)).mono ?_)
  rintro r s₁ ⟨err, st, l, stop, rfl, hfrees, hbhs⟩
  dsimp only
  by_cases herr : err = none
  · subst herr
    rw [if_pos rfl]
    obtain ⟨hin, hmirrored⟩ := hbhs rfl
    refine Returns.bind ((returns_syncAndMirror hin).mono (fun err s₂ h => ?_))
    have hfrees' : Frees G vol opt s c l stop err s₂ := by
      by_cases herr : err = none
      · rw [herr]
        exact hfrees.quiet h.quiet
      · exact (hfrees.quiet h.quiet).fail herr (h.faulty herr).1.faulty
    refine hfsinfo hfrees' (fun hnone B hB => (h.mirrored _ (hmirrored B hB)).mono ?_)
    rintro b ⟨hb | hb, hnot⟩
    exacts [hb, absurd hb (hnot hnone)]
  · rw [if_neg herr]
    exact Returns.bind (Returns.ret (hfsinfo hfrees (fun hnone => absurd hnone herr)))

structure Chain (vol : Volume) (s : Fat) (start : Nat) (l : List Nat) : Prop where
  segment : Segment (s.next vol) start l entEof
  valid : ∀ e ∈ l, startEnt ≤ e ∧ e < vol.maxCluster

theorem eof_not_mem (hl : ∀ e ∈ l, startEnt ≤ e ∧ e < vol.maxCluster) : entEof ∉ l := fun hmem => by
  have := (hl _ hmem).2
  have := maxCluster_lt_eof vol
  omega

theorem Chain.nodup (h : Chain vol s c l) : l.Nodup := h.segment.nodup (eof_not_mem h.valid)

theorem Chain.next_ne_free (h : Chain vol s c l) {e : Nat} (he : e ∈ l) : s.next vol e ≠ entFree := by
  obtain ⟨l₁, l₂, rfl⟩ := List.append_of_mem he
  obtain ⟨b, -, rfl, hrest⟩ := segment_append.mp h.segment
  cases l₂ with
  | nil =>
      rw [segment_nil.mp hrest]
      decide
  | cons x l₂ =>
      have hx := (h.valid x (by simp)).1
      rw [hrest.1]
      rintro rfl
      exact absurd hx (by decide)

theorem Chain.not_broken (h : Chain vol s c l) (hl : l ≠ []) {l' : List Nat} {stop : Nat}
    (hseg : Segment (s.next vol) c l' stop) (hl' : ∀ e ∈ l', startEnt ≤ e ∧ e < vol.maxCluster) :
    ¬ Broken vol s l' stop := by
  rintro ⟨hgo, hbroken⟩
  obtain ⟨m, rfl⟩ := h.segment.comparable hseg (h.segment.length_le hseg (eof_not_mem hl'))
  obtain ⟨b, hb, hrest⟩ := segment_append.mp h.segment
  obtain rfl := hseg.functional hb
  cases m with
  | nil =>
      rcases hgo with rfl | hne
      · exact hl rfl
      · exact hne hrest
  | cons x m =>
      obtain ⟨rfl, -⟩ := hrest
      have hmem : stop ∈ l' ++ stop :: m := by simp
      rcases hbroken with hinvalid | hfree | hback
      · exact hinvalid (h.valid stop hmem)
      · exact h.next_ne_free hmem hfree
      · have hdisjoint := List.disjoint_of_nodup_append h.nodup
        exact hdisjoint hback List.mem_cons_self

theorem FreesMirrored.whole {r : Option (Option Errno)} (h : FreesMirrored G vol opt s c r s') (hfault : ¬ Faulty G)
    (hchain : Chain vol s c l) (hl : l ≠ []) :
    r = some none ∧ Freed vol s l s' ∧
      ∀ B, MirroredBut vol B s → MirroredBut vol (fun b => B b ∧ ∀ e ∈ l, b ∉ held vol e) s' := by
  obtain ⟨err, l', stop, rfl, hfrees, hmirrored⟩ := h
  have hvalid : ∀ e ∈ l', startEnt ≤ e ∧ e < vol.maxCluster := fun e he => (hfrees.used e he).1
  have hnone : err = none := by
    by_contra herr
    rcases hfrees.cause herr with hfaulty | hbroken
    · exact hfault hfaulty
    · exact hchain.not_broken hl hfrees.chain hvalid hbroken
  obtain rfl : l' = l := by
    refine Segment.unique ?_ hchain.segment (eof_not_mem hvalid) (eof_not_mem hchain.valid)
    rw [← (hfrees.ended hnone).2]
    exact hfrees.chain
  exact ⟨by rw [hnone], hfrees.freed, hmirrored hnone⟩

section Halts

theorem halts_freeRound (f : Fatent) (next : Nat) (st : Freeing) : Halts (freeRound vol opt f next st) := by
  refine Halts.bind (halts_ite (Halts.bind Halts.call (fun _ => Halts.ret)) Halts.ret) (fun st => ?_)
  refine Halts.bind (Halts.bind Halts.modify (fun _ => Halts.bind Halts.read (fun _ => ?_))) (fun st => ?_)
  · exact halts_ite (Halts.bind Halts.modify (fun _ => Halts.ret)) Halts.ret
  · exact Halts.bind (halts_ite (Halts.bind (halts_syncAndMirror _ _) (fun _ => Halts.ret)) Halts.ret)
      (fun _ => Halts.ret)

theorem halts_freeLoop (n : Nat) (st : Freeing) : Halts (freeLoop vol opt n st) := by
  induction n generalizing st with
  | zero => exact Halts.ret
  | succ n ih =>
      refine Halts.bind (halts_fatEntRead _) (fun r => ?_)
      obtain ⟨r, f⟩ := r
      cases r with
      | error e => exact Halts.ret
      | ok next =>
          refine halts_ite (Halts.bind Halts.modify (fun _ => Halts.ret)) (Halts.bind (halts_freeRound f next st) ?_)
          exact fun r => halts_ite Halts.ret (halts_ite Halts.ret (halts_ite Halts.ret (ih r.2)))

theorem halts_fatFreeClusters (c : Nat) : Halts (fatFreeClusters vol opt c) := by
  refine Halts.bind (halts_freeLoop _ _) (fun r => ?_)
  cases r with
  | astray => exact Halts.ret
  | ended err st =>
      have hfsinfo : ∀ err : Option Errno, Halts (do
          if st.dirtyFsinfo then markFsinfoDirty vol
          pure (some err) : Io _) := fun err =>
        halts_ite (Halts.bind Halts.modify (fun _ => Halts.ret)) Halts.ret
      exact halts_ite (Halts.bind (halts_syncAndMirror _ _) hfsinfo) (Halts.bind Halts.ret hfsinfo)

end Halts

/-- fat_free_clusters returns on any FAT, also where links lead in a circle, and frees what it comes across. -/
theorem fatFreeClusters_ends (G : Answer → Prop) (vol : Volume) (opt : Options) (s : Fat) (c : Nat) :
    Ends G s (fatFreeClusters vol opt c) (FreesMirrored G vol opt s c) :=
  returns_fatFreeClusters.ends (halts_fatFreeClusters c)

/-- A chain that ends is freed as a whole, in all copies of the FAT, if no call fails. -/
theorem fatFreeClusters_chain (hfault : ¬ Faulty G) (hchain : Chain vol s c l) (hl : l ≠ []) :
    Ends G s (fatFreeClusters vol opt c) (fun r s' => r = some none ∧ Freed vol s l s' ∧
      ∀ B, MirroredBut vol B s → MirroredBut vol (fun b => B b ∧ ∀ e ∈ l, b ∉ held vol e) s') :=
  (returns_fatFreeClusters.mono (fun _ _ h => h.whole hfault hchain hl)).ends (halts_fatFreeClusters c)

def filedOn (vol : Volume) : Fat := (blank.put vol 3 entEof).put vol 2 3

theorem next_filedOn (hvar : vol.variant = .fat12) (hvol : 4 ≤ vol.maxCluster) (x : Nat) :
    (filedOn vol).next vol x = if x = 2 then 3 else if x = 3 then entEof else entFree := by
  rw [filedOn, next_put (storable_entry hvol), next_put storable_eof, next_blank hvar]

theorem chain_filedOn (hvar : vol.variant = .fat12) (hvol : 4 ≤ vol.maxCluster) :
    Chain vol (filedOn vol) 2 [2, 3] := by
  refine ⟨⟨rfl, ?_, ?_⟩, ?_⟩
  · exact next_filedOn hvar hvol 2
  · rw [next_filedOn hvar hvol 2]
    exact next_filedOn hvar hvol 3
  · simp only [List.mem_cons, List.not_mem_nil, or_false, startEnt]
    omega

def filed : Fat := filedOn floppy

theorem next_filed (x : Nat) : filed.next floppy x = if x = 2 then 3 else if x = 3 then entEof else entFree :=
  next_filedOn rfl (by decide) x

theorem chain_filed : Chain floppy filed 2 [2, 3] := chain_filedOn rfl (by decide)

theorem fatFreeClusters_chain_floppy :
    Ends (fun a => a.read = true ∧ a.memory = true ∧ a.sync = true) filed
      (fatFreeClusters floppy ⟨false, true, true⟩ 2) (fun r s' => r = some none ∧ Freed floppy filed [2, 3] s' ∧
        ∀ B, MirroredBut floppy B filed →
          MirroredBut floppy (fun b => B b ∧ ∀ e ∈ [2, 3], b ∉ held floppy e) s') :=
  fatFreeClusters_chain (by rintro ⟨a, ⟨h₁, h₂, h₃⟩, h | h | h⟩ <;> simp_all) chain_filed (by decide)

end SuperRaid.FatTable
