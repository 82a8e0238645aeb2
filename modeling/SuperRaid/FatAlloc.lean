import SuperRaid.FatFree

namespace SuperRaid.FatTable

open Image Sys FatEntry LinkTable

variable {vol : Volume} {opt : Options} {G : Answer → Prop} {s₀ s s' : Fat} {f : Fatent} {cs : List Nat} {e : Nat}
  {st : Search}

def dec (n : BitVec 32) : BitVec 32 := if n ≠ unknown then n - 1 else n

/-- The entries cs, which were free, have become a chain, and nothing else has happened to the links. -/
structure Took (vol : Volume) (s : Fat) (cs : List Nat) (s' : Fat) : Prop where
  nodup : cs.Nodup
  free : ∀ e ∈ cs, (startEnt ≤ e ∧ e < vol.maxCluster) ∧ s.next vol e = entFree
  chain : Segment (s'.next vol) (cs.headD entEof) cs entEof
  others : ∀ e < vol.maxCluster, e ∉ cs → s'.next vol e = s.next vol e
  prevFree : s'.prevFree = cs.getLastD s.prevFree
  discards : s'.discards = s.discards
  outside : ∀ q : Ptr, Outside vol q.1 → s'.bufs q = s.bufs q

theorem Took.refl (s : Fat) : Took vol s [] s :=
  ⟨List.nodup_nil, by simp, rfl, fun _ _ _ => rfl, rfl, rfl, fun _ _ => rfl⟩

theorem Took.isChain (h : Took vol s₀ cs s) :
    Chain vol s (cs.headD entEof) cs := ⟨h.chain, fun e he => (h.free e he).1⟩

theorem Took.frame (h : Took vol s₀ cs s) (n : BitVec 32) (valid dirty : Bool) :
    Took vol s₀ cs { s with freeClusters := n, freeClusValid := valid, fsinfoDirty := dirty } :=
  ⟨h.nodup, h.free, h.chain, h.others, h.prevFree, h.discards, h.outside⟩

theorem Took.quiet (h : Took vol s₀ cs s) (hquiet : Quiet vol s s') : Took vol s₀ cs s' where
  nodup := h.nodup
  free := h.free
  chain := h.chain.frame (fun e he => hquiet.next (h.free e he).1.2)
  others e he hmem := (hquiet.next he).trans (h.others e he hmem)
  prevFree := hquiet.prevFree.trans h.prevFree
  discards := hquiet.discards.trans h.discards
  outside q hq := (hquiet.spared q hq.spared).trans (h.outside q hq)

def Fat.link (vol : Volume) (s : Fat) (cs : List Nat) (e : Nat) : Fat :=
  match cs.getLast? with
  | none => s.put vol e entEof
  | some p => (s.put vol e entEof).put vol p e

theorem next_link (he : e < vol.maxCluster) (hmem : e ∉ cs) (x : Nat) :
    (s.link vol cs e).next vol x = if x = e then entEof else if cs.getLast? = some x then e else s.next vol x := by
  unfold Fat.link
  cases hlast : cs.getLast? with
  | none => simp [next_put storable_eof]
  | some p =>
      have hne : e ≠ p := fun h => hmem (h ▸ List.mem_of_getLast? hlast)
      simp only [next_put (storable_entry he), next_put storable_eof, Option.some.injEq]
      grind

theorem link_bufs (he : e < vol.maxCluster) (hcs : ∀ x ∈ cs, x < vol.maxCluster) {q : Ptr}
    (hq : ¬ InFirst vol q.1) :
    (s.link vol cs e).bufs q = s.bufs q := by
  unfold Fat.link
  cases hlast : cs.getLast? with
  | none => exact put_of_not_inFirst he hq
  | some p =>
      have hp := hcs p (List.mem_of_getLast? hlast)
      exact (put_of_not_inFirst hp hq).trans (put_of_not_inFirst he hq)

theorem link_fields (vol : Volume) (s : Fat) (cs : List Nat) (e : Nat) :
    s.link vol cs e = { s with bufs := (s.link vol cs e).bufs } := by
  unfold Fat.link
  split <;> rfl

theorem MirroredBut.link {B : Nat → Prop} (h : MirroredBut vol B s) (he : e < vol.maxCluster)
    (hcs : ∀ x ∈ cs, x < vol.maxCluster) (hlast : ∀ p, cs.getLast? = some p → ∀ b ∈ held vol p, B b) :
    MirroredBut vol (fun b => B b ∨ b ∈ held vol e) (s.link vol cs e) := by
  unfold Fat.link
  cases hp : cs.getLast? with
  | none => exact h.put he
  | some p =>
      refine ((h.put he).put (hcs p (List.mem_of_getLast? hp))).mono (fun b hb => ?_)
      rcases hb with hb | hb
      · exact hb
      · exact .inl (hlast p hp b hb)

theorem Took.snoc (h : Took vol s₀ cs s) (he : startEnt ≤ e ∧ e < vol.maxCluster) (hfree : s.next vol e = entFree)
    (n : BitVec 32) : Took vol s₀ (cs ++ [e]) { s.link vol cs e with prevFree := e, freeClusters := n } := by
  have hmem : e ∉ cs := fun hmem => h.isChain.next_ne_free hmem hfree
  have hnext : ∀ x, Fat.next vol { s.link vol cs e with prevFree := e, freeClusters := n } x =
      if x = e then entEof else if cs.getLast? = some x then e else s.next vol x := next_link he.2 hmem
  have hnodup : (cs ++ [e]).Nodup := by
    rw [List.nodup_append_comm]
    exact List.nodup_cons.mpr ⟨hmem, h.nodup⟩
  refine ⟨hnodup, ?_, ?_, ?_, by simp, ?_, ?_⟩
  · intro x hx
    rcases List.mem_append.mp hx with hx | hx
    · exact h.free x hx
    · obtain rfl := List.mem_singleton.mp hx
      exact ⟨he, (h.others x he.2 hmem).symm.trans hfree⟩
  · rw [segment_snoc]
    refine ⟨?_, by simp [hnext]⟩
    rcases List.eq_nil_or_concat' cs with rfl | ⟨cs', p, rfl⟩
    · rfl
    · have hhead : (cs' ++ [p] ++ [e]).headD entEof = (cs' ++ [p]).headD entEof := by
        cases cs' <;> rfl
      have hlast : (cs' ++ [p]).getLast? = some p := by simp
      have hp : ∀ x ∈ cs', x ≠ p := fun x hx => (List.nodup_append.mp h.nodup).2.2 x hx p (by simp)
      rw [hhead]
      refine h.chain.retarget (fun x hx => ?_) ?_
      · have hxe : x ≠ e := fun heq => hmem (heq ▸ List.mem_append_left _ hx)
        rw [hnext, hlast, if_neg hxe, if_neg (fun heq => hp x hx (Option.some.inj heq).symm)]
      · rw [hnext, hlast, if_pos rfl, if_neg (fun heq => hmem (by simp [← heq]))]
  · intro x hx hout
    rw [List.mem_append, List.mem_singleton, not_or] at hout
    rw [hnext, if_neg hout.2, if_neg (fun hlast => hout.1 (List.mem_of_getLast? hlast))]
    exact h.others x hx hout.1
  · rw [link_fields]
    exact h.discards
  · intro q hq
    exact (link_bufs he.2 (fun x hx => (h.free x hx).1.2) hq.not_inFirst).trans (h.outside q hq)

def Prev (vol : Volume) (cs : List Nat) (f : Fatent) : Prop :=
  match cs.getLast? with
  | none => f.bhs = []
  | some p => f.entry = p ∧ f.Points vol

structure AllocInv (vol : Volume) (s₀ : Fat) (st : Search) (s : Fat) : Prop where
  took : Took vol s₀ st.clusters s
  count : s.freeClusters = dec^[st.clusters.length] s₀.freeClusters
  freeClusValid : s.freeClusValid = s₀.freeClusValid
  prev : Prev vol st.clusters st.prevEnt
  collected : ∀ b, b ∈ st.bhs ↔ ∃ e ∈ st.clusters, b ∈ held vol e
  room : st.bhs.length ≤ 2 * st.clusters.length
  mirrored : ∀ B, MirroredBut vol B s₀ → MirroredBut vol (fun b => B b ∨ b ∈ st.bhs) s

theorem held_ne_nil (vol : Volume) (e : Nat) : held vol e ≠ [] := List.ne_nil_of_mem (pos_mem_held vol e)

theorem returns_link {α : Type} {Q : α → Fat → Prop} {p : Fatent} {m : Io α} (hf : f.Points vol)
    (hp : Prev vol cs p) (h : Returns G (s.link vol cs f.entry) m Q) :
    Returns G s (do
      entStore f entEof
      if p.bhs ≠ [] then entStore p f.entry
      m) Q := by
  refine Returns.bind (returns_entStore hf ?_)
  unfold Fat.link at h
  unfold Prev at hp
  cases hlast : cs.getLast? with
  | none =>
      rw [hlast] at h hp
      rw [if_neg (not_not.mpr hp)]
      exact h
  | some e =>
      rw [hlast] at h hp
      obtain ⟨rfl, hpoints⟩ := hp
      rw [if_pos (hpoints.bhs ▸ held_ne_nil vol p.entry)]
      exact Returns.bind (returns_entStore hpoints h)

theorem AllocInv.returns_takeEntry (h : AllocInv vol s₀ st s) (hf : f.Points vol)
    (he : startEnt ≤ f.entry ∧ f.entry < vol.maxCluster) (hfree : s.next vol f.entry = entFree) :
    Returns G s (takeEntry f st) (fun st' s' => AllocInv vol s₀ st' s' ∧
      st'.clusters = st.clusters ++ [f.entry] ∧ ∀ x, s.next vol x ≠ entFree ∨ x = f.entry →
      s'.next vol x ≠ entFree) := by
  have hmem : f.entry ∉ st.clusters := fun hmem => h.took.isChain.next_ne_free hmem hfree
  have hvalid : ∀ x ∈ st.clusters, x < vol.maxCluster := fun x hx => (h.took.free x hx).1.2
  refine returns_link hf h.prev (Returns.bind (Returns.modify (Returns.ret ⟨?_, rfl, fun x hx => ?_⟩)))
  · refine ⟨h.took.snoc he hfree _, ?_, ?_, ?_, fun b => ?_, ?_, fun B hB => ?_⟩
    · simp only [List.length_append, List.length_singleton]
      rw [Function.iterate_succ_apply', ← h.count, link_fields]
      rfl
    · rw [link_fields]
      exact h.freeClusValid
    · simp [Prev, hf]
    · rw [mem_fatCollectBhs, h.collected, hf.bhs]
      constructor
      · rintro (⟨x, hx, hb⟩ | hb)
        · exact ⟨x, List.mem_append_left _ hx, hb⟩
        · exact ⟨f.entry, List.mem_append_right _ (List.mem_singleton_self _), hb⟩
      · rintro ⟨x, hx, hb⟩
        rcases List.mem_append.mp hx with hx | hx
        · exact .inl ⟨x, hx, hb⟩
        · exact .inr (List.mem_singleton.mp hx ▸ hb)
    · have hcollect := length_fatCollectBhs st.bhs f
      have hheld := length_held_le vol f.entry
      have hroom := h.room
      rw [← hf.bhs] at hheld
      simp only [List.length_append, List.length_singleton]
      omega
    · have hlast : ∀ p, st.clusters.getLast? = some p → ∀ b ∈ held vol p, B b ∨ b ∈ st.bhs :=
        fun p hp b hb =>
        .inr ((h.collected b).mpr ⟨p, List.mem_of_getLast? hp, hb⟩)
      refine ((h.mirrored B hB).link he.2 hvalid hlast).mono (fun b hb => ?_)
      rw [mem_fatCollectBhs, hf.bhs]
      rwa [or_assoc] at hb
  · show (s.link vol st.clusters f.entry).next vol x ≠ entFree
    rw [next_link he.2 hmem]
    split_ifs with hxe hlast
    · decide
    · rintro heq
      rw [heq] at he
      exact absurd he.1 (by decide)
    · exact hx.resolve_right hxe

theorem AllocInv.returns_lookAt (h : AllocInv vol s₀ st s) (hf : f.Points vol)
    (he : startEnt ≤ f.entry ∧ f.entry < vol.maxCluster) :
    Returns G s (lookAt f st) (fun r s' => AllocInv vol s₀ r.2 s' ∧
      r.2.clusters.length = st.clusters.length + r.1.toNat ∧
      ∀ x, s.next vol x ≠ entFree ∨ x = f.entry → s'.next vol x ≠ entFree) := by
  refine Returns.bind (Returns.read ?_)
  rw [hf.entGet_eq]
  split_ifs with hfree
  · refine Returns.bind ((h.returns_takeEntry hf he hfree).mono ?_)
    rintro st' s' ⟨hinv, hclusters, hkeep⟩
    exact Returns.ret ⟨hinv, by simp [hclusters], hkeep⟩
  · refine Returns.ret ⟨h, by simp, fun x hx => ?_⟩
    rcases hx with hx | rfl
    · exact hx
    · exact hfree

/-- The entries that have been looked at, from e₀ on and then from the first one, are not free. -/
structure Scan (vol : Volume) (e₀ left : Nat) (mapped : Bool) (f : Fatent) (s : Fat) : Prop where
  points : mapped = true → f.Points vol ∧ f.entry < vol.maxCluster
  seen : (e₀ ≤ min f.entry vol.maxCluster ∧
    left + startEnt + min f.entry vol.maxCluster = vol.maxCluster + e₀ ∧
      ∀ e, e₀ ≤ e → e < min f.entry vol.maxCluster → s.next vol e ≠ entFree) ∨
    (startEnt ≤ f.entry ∧ left + f.entry = e₀ ∧
      ∀ e, e₀ ≤ e ∧ e < vol.maxCluster ∨ startEnt ≤ e ∧ e < f.entry → s.next vol e ≠ entFree)

theorem Scan.full {e₀ : Nat} {mapped : Bool} (h : Scan vol e₀ 0 mapped f s) (h₀ : startEnt ≤ e₀)
    (he : startEnt ≤ e) (hmax : e < vol.maxCluster) : s.next vol e ≠ entFree := by
  rcases h.seen with ⟨hle, hleft, hseen⟩ | ⟨hstart, hleft, hseen⟩
  · have : min f.entry vol.maxCluster ≤ vol.maxCluster := Nat.min_le_right _ _
    exact hseen e (by omega) (by omega)
  · refine hseen e ?_
    omega

def Scan.entry (vol : Volume) (mapped : Bool) (f : Fatent) : Fatent :=
  if mapped ∨ f.entry < vol.maxCluster then f else f.setEntry startEnt

theorem Scan.entry_entry (vol : Volume) (mapped : Bool) (f : Fatent) :
    (Scan.entry vol mapped f).entry = if mapped ∨ f.entry < vol.maxCluster then f.entry else startEnt := by
  unfold Scan.entry
  split_ifs <;> rfl

theorem Scan.valid {e₀ left : Nat} {mapped : Bool} (h : Scan vol e₀ (left + 1) mapped f s)
    (h₀ : startEnt ≤ e₀) (hmax : e₀ ≤ vol.maxCluster) :
    startEnt ≤ (Scan.entry vol mapped f).entry ∧ (Scan.entry vol mapped f).entry < vol.maxCluster := by
  rw [Scan.entry_entry]
  have hstart : startEnt = 2 := rfl
  split_ifs with hin
  · have hlt : f.entry < vol.maxCluster := hin.elim (fun hm => (h.points hm).2) id
    refine ⟨?_, hlt⟩
    rcases h.seen with ⟨hle, -, -⟩ | ⟨hle, -, -⟩
    · omega
    · exact hle
  · have hge : vol.maxCluster ≤ f.entry := Nat.le_of_not_lt (fun hlt => hin (.inr hlt))
    rcases h.seen with ⟨-, hleft, -⟩ | ⟨-, hleft, -⟩
    · rw [Nat.min_eq_right hge] at hleft
      omega
    · omega

theorem Scan.points_entry {e₀ left : Nat} {mapped : Bool} (h : Scan vol e₀ left mapped f s)
    (hmapped : mapped = true) :
    (Scan.entry vol mapped f).Points vol := by
  rw [Scan.entry, if_pos (.inl hmapped)]
  exact (h.points hmapped).1

theorem Scan.next {e₀ left : Nat} {mapped mapped' : Bool} {f' : Fatent} (h : Scan vol e₀ (left + 1) mapped f s)
    (h₀ : startEnt ≤ e₀) (hmax : e₀ ≤ vol.maxCluster)
    (hentry : f'.entry = (Scan.entry vol mapped f).entry + 1)
    (hpoints : mapped' = true → f'.Points vol ∧ f'.entry < vol.maxCluster)
    (hkeep : ∀ x, s.next vol x ≠ entFree ∨ x = (Scan.entry vol mapped f).entry → s'.next vol x ≠ entFree) :
    Scan vol e₀ left mapped' f' s' := by
  refine ⟨hpoints, ?_⟩
  have hstart : startEnt = 2 := rfl
  have hvalid := (h.valid h₀ hmax).2
  simp only [Scan.entry_entry] at hentry hkeep hvalid
  split_ifs at hentry hkeep hvalid with hin
  · rcases h.seen with ⟨hle, hleft, hseen⟩ | ⟨hle, hleft, hseen⟩
    · rw [Nat.min_eq_left hvalid.le] at hle hleft hseen
      rw [hentry, Nat.min_eq_left hvalid]
      refine .inl ⟨by omega, by omega, fun e h₁ h₂ => hkeep e ?_⟩
      rcases Nat.lt_succ_iff_lt_or_eq.mp h₂ with hlt | heq
      · exact .inl (hseen e h₁ hlt)
      · exact .inr heq
    · rw [hentry]
      refine .inr ⟨by omega, by omega, fun e he => hkeep e ?_⟩
      rcases he with he | ⟨h₁, h₂⟩
      · exact .inl (hseen e (.inl he))
      · rcases Nat.lt_succ_iff_lt_or_eq.mp h₂ with hlt | heq
        · exact .inl (hseen e (.inr ⟨h₁, hlt⟩))
        · exact .inr heq
  · have hge : vol.maxCluster ≤ f.entry := Nat.le_of_not_lt (fun hlt => hin (.inr hlt))
    rcases h.seen with ⟨hle, hleft, hseen⟩ | ⟨hle, hleft, hseen⟩
    · rw [Nat.min_eq_right hge] at hle hleft hseen
      rw [hentry]
      refine .inr ⟨by omega, by omega, fun e he => hkeep e ?_⟩
      rcases he with ⟨h₁, h₂⟩ | ⟨h₁, h₂⟩
      · exact .inl (hseen e h₁ h₂)
      · exact .inr (by omega)
    · omega

structure Searched (G : Answer → Prop) (vol : Volume) (s : Fat) (nr : Nat) (err : Option Errno) (st : Search)
    (s' : Fat) :
    Prop where
  took : Took vol s st.clusters s'
  collected : ∀ b, b ∈ st.bhs ↔ ∃ e ∈ st.clusters, b ∈ held vol e
  mirrored : ∀ B, MirroredBut vol B s → MirroredBut vol (fun b => B b ∨ b ∈ st.bhs) s'
  result : err = none ∧ st.clusters.length = nr ∨ err = some .enospc ∧ st.clusters.length < nr ∨
    err = some .eio ∧ st.clusters.length < nr ∧ Faulty G
  known : err ≠ some .enospc →
    s'.freeClusters = dec^[st.clusters.length] s.freeClusters ∧ s'.freeClusValid = s.freeClusValid
  full : err = some .enospc → s'.freeClusters = 0 ∧ s'.freeClusValid = true ∧
    ∀ e, startEnt ≤ e → e < vol.maxCluster → s'.next vol e ≠ entFree

theorem Searched.fsinfo {nr : Nat} {err : Option Errno} (h : Searched G vol s nr err st s') (dirty : Bool) :
    Searched G vol s nr err st { s' with fsinfoDirty := dirty } :=
  ⟨h.took.frame s'.freeClusters s'.freeClusValid dirty, h.collected, h.mirrored, h.result, h.known, h.full⟩

def SearchEnds (G : Answer → Prop) (vol : Volume) (s : Fat) (nr : Nat) (r : AllocEnd) (s' : Fat) : Prop :=
  ∃ err st, r = .ended err st ∧ Searched G vol s nr err st s'

theorem returns_allocLoop {e₀ nr left : Nat} {mapped : Bool} (hnr : nr ≤ maxBufPerPage / 2)
    (h₀ : startEnt ≤ e₀)
    (hmax : e₀ ≤ vol.maxCluster) (h : AllocInv vol s₀ st s) (hlen : st.clusters.length < nr)
    (hscan : Scan vol e₀ left mapped st.fatent s) :
    Returns G s (allocLoop vol nr left mapped st) (SearchEnds G vol s₀ nr) := by
  induction left generalizing mapped st s with
  | zero =>
      refine Returns.bind (Returns.modify (Returns.ret ⟨_, st, rfl, ?_⟩))
      refine ⟨h.took.frame 0 true s.fsinfoDirty, h.collected, h.mirrored, .inr (.inl ⟨rfl, hlen⟩),
        fun hne => absurd rfl hne, fun _ => ⟨rfl, rfl, ?_⟩⟩
      exact fun e he hlt => hscan.full h₀ he hlt
  | succ left ih =>
      have hvalid := hscan.valid h₀ hmax
      refine Returns.bind (returns_entAt hscan.points_entry (fun hfault => ?_)
        (fun f (hentry : f.entry = (Scan.entry vol mapped st.fatent).entry) hf => ?_))
      · refine Returns.ret ⟨_, st, rfl, h.took, h.collected, h.mirrored, .inr (.inr ⟨rfl, hlen, hfault.faulty⟩),
          ?_, by simp⟩
        exact fun _ => ⟨h.count, h.freeClusValid⟩
      · refine Returns.bind ((h.returns_lookAt hf (hentry ▸ hvalid)).mono ?_)
        rintro ⟨taken, st'⟩ s' ⟨hinv, hlength, hkeep⟩
        dsimp only at hinv hlength hkeep ⊢
        have hone : taken.toNat ≤ 1 := Bool.toNat_le taken
        split_ifs with hroom hdone
        · have := hinv.room
          simp only [maxBufPerPage] at hnr hroom
          omega
        · refine Returns.ret ⟨none, st', rfl, hinv.took, hinv.collected, hinv.mirrored, .inl ⟨rfl, hdone.2⟩,
            fun _ => ?_, ?_⟩
          · exact ⟨hinv.count, hinv.freeClusValid⟩
          · simp
        · have hlen' : st'.clusters.length < nr := by
            cases taken with
            | true =>
                have : st'.clusters.length ≠ nr := fun heq => hdone ⟨rfl, heq⟩
                simp only [Bool.toNat_true] at hlength
                omega
            | false =>
                simp only [Bool.toNat_false] at hlength
                omega
          have hinv' : AllocInv vol s₀ { st' with fatent := (fatEntNext vol f).1 } s' :=
            ⟨hinv.took, hinv.count, hinv.freeClusValid, hinv.prev, hinv.collected, hinv.room, hinv.mirrored⟩
          refine ih hinv' hlen' (hscan.next h₀ hmax ((entNext_entry f).trans (by rw [hentry])) (fun hmore => ?_) ?_)
          · obtain ⟨hmapped, hlt⟩ := Bool.and_eq_true_iff.mp hmore
            exact ⟨hf.entNext hmapped, of_decide_eq_true hlt⟩
          · exact hentry ▸ hkeep

theorem returns_allocLocked {nr : Nat} (hnr : 1 ≤ nr ∧ nr ≤ maxBufPerPage / 2) (hprev : startEnt ≤ s.prevFree) :
    Returns G s (allocLocked vol nr) (fun r s' =>
      (r = .full ∧ s' = s ∧ s.freeClusters ≠ unknown ∧ s.freeClusValid = true ∧ s.freeClusters.toNat < nr) ∨
      SearchEnds G vol s nr r s') := by
  refine Returns.bind (Returns.read ?_)
  dsimp only [id]
  split_ifs with hfull
  · exact Returns.ret (.inl ⟨rfl, rfl, hfull⟩)
  · have hstart := vol.start_le
    have hinit : AllocInv vol s ⟨fatentInit.setEntry (s.prevFree + 1), fatentInit, [], []⟩ s :=
      ⟨Took.refl s, rfl, rfl, rfl, by simp, by simp, fun B hB => hB.mono (fun b hb => .inl hb)⟩
    have hfirst : startEnt ≤ min (s.prevFree + 1) vol.maxCluster := le_min (hprev.trans (Nat.le_succ _)) hstart
    refine (returns_allocLoop hnr.2 hfirst (Nat.min_le_right _ _) hinit hnr.1
      ⟨by simp, .inl ⟨le_rfl, ?_, fun e h₁ h₂ => ?_⟩⟩).mono (fun r s' h => .inr h)
    · simp only [Fatent.setEntry, startEnt]
      omega
    · exact absurd (h₁.trans_lt h₂) (lt_irrefl _)

theorem halts_allocLoop (nr left : Nat) (mapped : Bool) (st : Search) : Halts (allocLoop vol nr left mapped st) := by
  induction left generalizing mapped st with
  | zero => exact Halts.bind Halts.modify (fun _ => Halts.ret)
  | succ left ih =>
      have htake : ∀ f st, Halts (takeEntry f st) := fun f st =>
        Halts.bind Halts.modify (fun _ => halts_ite (Halts.bind Halts.modify (fun _ =>
          Halts.bind Halts.modify (fun _ => Halts.ret))) (Halts.bind Halts.modify (fun _ => Halts.ret)))
      have hlook : ∀ f st, Halts (lookAt f st) := fun f st =>
        Halts.bind Halts.read (fun _ => halts_ite (Halts.bind (htake f st) (fun _ => Halts.ret)) Halts.ret)
      refine Halts.bind (halts_entAt _ _) (fun r => ?_)
      cases r with
      | none => exact Halts.ret
      | some f => exact Halts.bind (hlook f st) (fun r => halts_ite Halts.ret (halts_ite Halts.ret (ih _ _)))

theorem halts_fatAllocClusters (needsSync : Bool) (nr : Nat) : Halts (fatAllocClusters vol opt needsSync nr) := by
  refine Halts.bind (Halts.bind Halts.read (fun _ => halts_ite Halts.ret (halts_allocLoop _ _ _ _))) (fun r => ?_)
  cases r with
  | astray => exact Halts.ret
  | full => exact Halts.ret
  | ended err st =>
      have hend : ∀ err : Option Errno, Halts (allocEnd vol opt err st.clusters) := by
        intro err
        unfold allocEnd
        split
        · exact Halts.ret
        · exact Halts.ret
        · exact Halts.bind (halts_fatFreeClusters _) (fun _ => Halts.ret)
      refine Halts.bind Halts.modify (fun _ => ?_)
      exact halts_ite (Halts.bind (halts_syncAndMirror _ _) hend) (Halts.bind Halts.ret hend)

end SuperRaid.FatTable
