import SuperRaid.FatFiles
import SuperRaid.FatAccount
import SuperRaid.FatCacheSpec

namespace SuperRaid.FatFiles

open Sys FatEntry FatTable LinkTable Transition

variable {vol : Volume} {opt : Options} {limit : Nat} {G : Answer → Prop} {s s' : Fat} {n : Node}
  {chain rest l : List Nat}
  {new fclus dclus newFclus last skip start : Nat}

section Own

/-- What belongs to a file: its clusters, and those that are not in it yet or no longer. -/
structure Own (vol : Volume) (s : Fat) (chain rest : List Nat) : Prop where
  disjoint : chain.Disjoint rest
  chain : Chain vol s (chain.headD entEof) chain
  rest : Chain vol s (rest.headD entEof) rest

theorem chain_nil : Chain vol s (([] : List Nat).headD entEof) [] := ⟨rfl, by simp⟩

theorem chain_frame (h : Chain vol s (l.headD entEof) l) (heq : ∀ e ∈ l, s'.next vol e = s.next vol e) :
    Chain vol s' (l.headD entEof) l := ⟨h.segment.frame heq, h.valid⟩

theorem Own.frame (h : Own vol s chain rest) (heq : ∀ e ∈ chain ++ rest, s'.next vol e = s.next vol e) :
    Own vol s' chain rest :=
  ⟨h.disjoint, chain_frame h.chain (fun e he => heq e (List.mem_append_left _ he)),
    chain_frame h.rest (fun e he => heq e (List.mem_append_right _ he))⟩

theorem Own.valid (h : Own vol s chain rest) {e : Nat} (he : e ∈ chain ++ rest) :
    startEnt ≤ e ∧ e < vol.maxCluster :=
  (List.mem_append.mp he).elim (h.chain.valid e) (h.rest.valid e)

theorem Own.used (h : Own vol s chain rest) {e : Nat} (he : e ∈ chain ++ rest) : s.next vol e ≠ entFree :=
  (List.mem_append.mp he).elim h.chain.next_ne_free h.rest.next_ne_free

def Pc.Ok (n : Node) (chain rest : List Nat) : Pc → Prop
  | .idle | .allocating | .cutting _ => rest = [] ∧ n.clusters = chain.length
  | .starting new => chain = [] ∧ rest = [new] ∧ n.clusters = 0
  | .finding new fclus dclus => rest = [new] ∧ chain[fclus]? = some dclus ∧ n.clusters = chain.length
  | .linking new newFclus last =>
      rest = [new] ∧ chain.getLast? = some last ∧ newFclus = chain.length ∧ n.clusters = chain.length
  | .counting newFclus => rest = [] ∧ chain.length = newFclus + 1 ∧ n.clusters = newFclus
  | .undoing new => rest = [new] ∧ n.clusters = chain.length
  | .seeking skip fclus dclus =>
      rest = [] ∧ chain[fclus]? = some dclus ∧ fclus + 1 ≤ skip ∧ n.clusters = chain.length
  | .ending skip dclus => rest = [] ∧ 0 < skip ∧ chain[skip - 1]? = some dclus ∧ n.clusters = chain.length
  | .freeing skip start => rest.head? = some start ∧ chain.length = skip

/-- What a section does to the FAT, on behalf of a file whose clusters are in own before and in own' after it. -/
structure Effect (G : Answer → Prop) (vol : Volume) (s : Fat) (own own' : List Nat) (s' : Fat) : Prop where
  spared : ∀ e < vol.maxCluster, s.next vol e ≠ entFree → e ∉ own → s'.next vol e = s.next vol e
  fresh : ∀ e ∈ own', e ∈ own ∨ s.next vol e = entFree
  kept : ¬ Faulty G → ∀ e, startEnt ≤ e → e < vol.maxCluster → s'.next vol e ≠ entFree →
    e ∈ own' ∨ s.next vol e ≠ entFree ∧ e ∉ own
  exact : Exact vol s → Exact vol s'
  prevFree : startEnt ≤ s.prevFree → startEnt ≤ s'.prevFree

theorem Effect.same {own own' : List Nat} (hown : ∀ e, e ∈ own' ↔ e ∈ own) (ro : Bool) :
    Effect G vol s own own' { s with rdonly := ro } where
  spared _ _ _ _ := rfl
  fresh e he := .inl ((hown e).mp he)
  kept _ e _ _ he := by
    by_cases hmem : e ∈ own
    · exact .inl ((hown e).mpr hmem)
    · exact .inr ⟨he, hmem⟩
  exact h := h
  prevFree h := h

structure Proceeds (G : Answer → Prop) (vol : Volume) (s : Fat) (own : List Nat) (r : Pc × Node) (s' : Fat)
    (chain rest : List Nat) : Prop where
  owns : Own vol s' chain rest
  start : r.2.iStart = chain.headD 0
  pc : r.1.Ok r.2 chain rest
  effect : Effect G vol s own (chain ++ rest) s'

def Advances (G : Answer → Prop) (vol : Volume) (s : Fat) (own : List Nat) (r : Pc × Node) (s' : Fat) : Prop :=
  ∃ chain rest, Proceeds G vol s own r s' chain rest

theorem Own.look {pc : Pc} (h : Own vol s chain rest) (hstart : n.iStart = chain.headD 0) (hpc : pc.Ok n chain rest)
    (ro : Bool) : Advances G vol s (chain ++ rest) (pc, n) { s with rdonly := ro } :=
  ⟨chain, rest, h.frame (fun _ _ => rfl), hstart, hpc, Effect.same (fun _ => Iff.rfl) ro⟩

theorem returns_fatFsError {Q : Unit → Fat → Prop} (h : ∀ ro, Q () { s with rdonly := ro }) :
    Returns G s (fatFsError opt) Q := by
  refine Returns.modify ?_
  split_ifs
  · exact h true
  · exact h s.rdonly

end Own

section Add

theorem headD_ne_zero (h : Chain vol s (chain.headD entEof) chain) (hne : chain ≠ []) : chain.headD 0 ≠ 0 := by
  obtain ⟨c, cs, rfl⟩ := List.exists_cons_of_ne_nil hne
  have hvalid := (h.valid c List.mem_cons_self).1
  rintro rfl
  exact absurd hvalid (by decide)

theorem eq_nil_iff (h : Chain vol s (chain.headD entEof) chain) (hstart : n.iStart = chain.headD 0) :
    n.iStart = 0 ↔ chain = [] := by
  constructor
  · intro hzero
    by_contra hne
    exact headD_ne_zero h hne (hstart ▸ hzero)
  · rintro rfl
    exact hstart

theorem returns_allocate (hown : Own vol s chain rest) (hstart : n.iStart = chain.headD 0)
    (hpc : Pc.allocating.Ok n chain rest) (hprev : startEnt ≤ s.prevFree) :
    Returns G s (allocate vol opt n) (Advances G vol s (chain ++ rest)) := by
  obtain ⟨rfl, hclusters⟩ := hpc
  refine Returns.bind ((returns_fatAllocClusters (by decide) hprev).mono ?_)
  rintro r s' (⟨cs, rfl, halloc⟩ | ⟨e, rfl, hfails⟩)
  · obtain ⟨new, rfl⟩ := List.length_eq_one_iff.mp halloc.length
    have hfree := halloc.took.free new List.mem_cons_self
    have hnew : new ∉ chain ++ [] := fun hmem => hown.used hmem hfree.2
    have hframe : ∀ e ∈ chain, s'.next vol e = s.next vol e := fun e he =>
      halloc.took.others e (hown.chain.valid e he).2
      (fun hmem => hnew (by simpa [← List.mem_singleton.mp hmem] using he))
    have hown' : Own vol s' chain [new] := by
      refine ⟨fun e he hmem => ?_, chain_frame hown.chain hframe, halloc.took.chain,
        fun e he => (halloc.took.free e he).1⟩
      exact hnew (by simpa [← List.mem_singleton.mp hmem] using he)
    have heffect : Effect G vol s (chain ++ []) (chain ++ [new]) s' := by
      refine ⟨fun e he hused _ => ?_, fun e he => ?_, fun _ e h₁ h₂ hused => ?_, ?_,
        halloc.took.startEnt_le_prevFree⟩
      · exact halloc.took.others e he (fun hmem => hused (List.mem_singleton.mp hmem ▸ hfree.2))
      · rcases List.mem_append.mp he with he | he
        · exact .inl (List.mem_append_left _ he)
        · exact .inr (List.mem_singleton.mp he ▸ hfree.2)
      · by_cases hmem : e ∈ chain ++ [new]
        · exact .inl hmem
        · rw [List.mem_append, not_or] at hmem
          rw [halloc.took.others e h₂ hmem.2] at hused
          exact .inr ⟨hused, by simpa using hmem.1⟩
      · exact halloc.took.exact halloc.count halloc.freeClusValid
    dsimp only
    split_ifs with hzero
    · have hnil : chain = [] := (eq_nil_iff hown.chain hstart).mp hzero
      exact Returns.ret ⟨chain, [new], hown', hstart, ⟨hnil, rfl, by rw [hclusters, hnil]; rfl⟩, heffect⟩
    · have hne : chain ≠ [] := fun hnil => hzero ((eq_nil_iff hown.chain hstart).mpr hnil)
      obtain ⟨c, cs, rfl⟩ := List.exists_cons_of_ne_nil hne
      exact Returns.ret ⟨c :: cs, [new], hown', hstart, ⟨rfl, by rw [hstart]; rfl, hclusters⟩, heffect⟩
  · refine Returns.ret ⟨chain, [], hown.frame (fun e he => hfails.spared e (hown.valid he).2 (hown.used he)), hstart,
      ⟨rfl, hclusters⟩, fun e he hused _ => hfails.spared e he hused, fun e he => .inl he,
      fun hfault e h₁ h₂ hused => ?_,
      hfails.exact, fun _ => hfails.prevFree⟩
    rw [(hfails.healthy hfault).2.1 e h₂] at hused
    by_cases hmem : e ∈ chain ++ []
    · exact .inl hmem
    · exact .inr ⟨hused, hmem⟩

theorem returns_syncBhs_ok {β : Type} {Q : β → Fat → Prop} {k : Bool → Io β} (hwritable : ¬ Unwritable G)
    (h : Returns G s (k true) Q) : Returns G s (syncBhs >>= k) Q :=
  returns_syncBhs h (fun hfail => absurd hfail hwritable)

theorem returns_chainStart (hwritable : ¬ Unwritable G) (hown : Own vol s chain rest)
    (hpc : (Pc.starting new).Ok n chain rest) :
    Returns G s (chainStart new n) (Advances G vol s (chain ++ rest)) := by
  obtain ⟨rfl, rfl, hclusters⟩ := hpc
  have hend : Advances G vol s ([] ++ [new]) (.counting 0, { n with iStart := new }) { s with rdonly := s.rdonly } := by
    refine ⟨[new], [], ⟨List.disjoint_nil_right _, hown.rest, chain_nil⟩, rfl, ⟨rfl, rfl, hclusters⟩, ?_⟩
    exact Effect.same (by simp) s.rdonly
  unfold chainStart
  split_ifs
  · exact returns_syncBhs_ok hwritable (Returns.ret hend)
  · exact Returns.ret hend

theorem Own.next_cases (h : Own vol s chain rest) {i d : Nat} (hi : chain[i]? = some d) :
    s.next vol d ≠ entFree ∧ (s.next vol d = entEof ∧ chain.getLast? = some d ∧ i + 1 = chain.length ∨
      s.next vol d ≠ entEof ∧ chain[i + 1]? = some (s.next vol d)) := by
  have hmem := List.mem_of_getElem? hi
  have hlink := h.chain.segment.getElem? hi
  refine ⟨h.chain.next_ne_free hmem, ?_⟩
  cases hafter : chain[i + 1]? with
  | none =>
      rw [hafter, Option.getD_none] at hlink
      have hlen : i + 1 = chain.length :=
        le_antisymm (List.getElem?_eq_some_iff.mp hi).1 (List.getElem?_eq_none_iff.mp hafter)
      refine .inl ⟨hlink, ?_, hlen⟩
      rw [List.getLast?_eq_getElem?, ← hlen, Nat.add_sub_cancel, hi]
  | some x =>
      rw [hafter, Option.getD_some] at hlink
      refine .inr ⟨fun heof => ?_, by rw [hlink]⟩
      exact eof_not_mem h.chain.valid (heof ▸ hlink ▸ List.mem_of_getElem? hafter)

theorem returns_chainFind (hown : Own vol s chain rest) (hstart : n.iStart = chain.headD 0)
    (hpc : (Pc.finding new fclus dclus).Ok n chain rest) :
    Returns G s (chainFind vol opt limit new fclus dclus n) (Advances G vol s (chain ++ rest)) := by
  obtain ⟨rfl, hat, hclusters⟩ := hpc
  have hundo : ∀ ro, Advances G vol s (chain ++ [new]) (.undoing new, n) { s with rdonly := ro } :=
    hown.look hstart ⟨rfl, hclusters⟩
  unfold chainFind
  split_ifs
  · exact Returns.bind (returns_fatFsError (fun ro => Returns.ret (hundo ro)))
  · refine Returns.bind (returns_fatEntRead (.inl rfl) (fun f ro _ _ => Returns.ret (hundo ro)) (fun f _ _ _ _ => ?_))
    obtain ⟨hfree, ⟨heof, hlast, hlen⟩ | ⟨hne, hnext⟩⟩ := hown.next_cases hat
    · dsimp only
      rw [if_neg hfree, if_pos heof]
      refine Returns.ret (hown.look hstart ?_ s.rdonly)
      exact ⟨rfl, hlast, hlen, hclusters⟩
    · dsimp only
      rw [if_neg hfree, if_neg hne]
      refine Returns.ret (hown.look hstart ?_ s.rdonly)
      exact ⟨rfl, hnext, hclusters⟩

theorem Own.link {err : Option Errno} (h : Own vol s chain [new]) (hlast : chain.getLast? = some last)
    (hwritten : Written G vol last new s err s') : Own vol s' (chain ++ [new]) [] := by
  obtain ⟨cs, rfl⟩ := List.getLast?_eq_some_iff.mp hlast
  have hlastcs : last ∉ cs := fun hmem =>
    (List.nodup_append.mp h.chain.nodup).2.2 last hmem last (List.mem_singleton_self last) rfl
  have hne : new ≠ last := fun heq => h.disjoint (by simp) (List.mem_singleton.mpr heq.symm)
  have hnext : ∀ e ∈ cs, s'.next vol e = s.next vol e := fun e he => by
    refine hwritten.next_of_ne (h.chain.valid e (by simp [he])).2 ?_
    rintro rfl
    exact hlastcs he
  have hnew : s'.next vol new = entEof := by
    rw [hwritten.next_of_ne (h.rest.valid new List.mem_cons_self).2 hne]
    exact h.rest.segment.2
  have hlink : s'.next vol last = new := by
    rw [hwritten.next last (h.chain.valid last (by simp)).2, if_pos rfl]
  have hhead : (cs ++ [last] ++ [new]).headD entEof = (cs ++ [last]).headD entEof := by cases cs <;> rfl
  refine ⟨List.disjoint_nil_right _, ⟨?_, fun e he => ?_⟩, chain_nil⟩
  · rw [hhead, segment_snoc]
    exact ⟨h.chain.segment.retarget hnext hlink, hnew⟩
  · exact h.valid he

theorem Effect.written {e : Nat} {err : Option Errno} {own own' : List Nat} (h : Written G vol e new s err s')
    (he : e ∈ own) (hused : s.next vol e ≠ entFree) (hnew : new ≠ entFree)
    (hown : ∀ x, x ∈ own' ↔ x ∈ own) :
    Effect G vol s own own' s' := by
  have hkeep : ∀ x < vol.maxCluster, x ∉ own → s'.next vol x = s.next vol x := fun x hx hout =>
    h.next_of_ne hx (fun heq => hout (by rwa [heq]))
  refine ⟨fun x hx _ hout => hkeep x hx hout, fun x hx => .inl ((hown x).mp hx), fun _ x _ hx hused' => ?_,
    h.exact hused hnew, fun hprev => by rwa [h.known.2.2.1]⟩
  by_cases hmem : x ∈ own
  · exact .inl ((hown x).mpr hmem)
  · rw [hkeep x hx hmem] at hused'
    exact .inr ⟨hused', hmem⟩

theorem returns_chainLink (hwritable : ¬ Unwritable G) (hown : Own vol s chain rest)
    (hstart : n.iStart = chain.headD 0) (hpc : (Pc.linking new newFclus last).Ok n chain rest) :
    Returns G s (chainLink vol opt new newFclus last n) (Advances G vol s (chain ++ rest)) := by
  obtain ⟨rfl, hlast, hlen, hclusters⟩ := hpc
  have hmem : last ∈ chain := List.mem_of_getLast? hlast
  have hvalid := hown.rest.valid new List.mem_cons_self
  have hundo : ∀ ro, Advances G vol s (chain ++ [new]) (.undoing new, n) { s with rdonly := ro } :=
    hown.look hstart ⟨rfl, hclusters⟩
  refine Returns.bind (returns_fatEntRead (.inl rfl) (fun f ro _ _ => Returns.ret ?_) (fun f _ hmax hentry hf => ?_))
  · exact hundo ro
  · refine Returns.bind
      ((returns_fatEntWrite hf (hentry ▸ hmax) (storable_entry hvalid.2)).mono (fun err s' hwritten => ?_))
    rw [hentry] at hwritten
    cases err with
    | some e => exact absurd (hwritten.faulty (by simp)) hwritable
    | none =>
        have hnew : new ≠ entFree := fun heq => absurd (heq ▸ hvalid.1) (by decide)
        refine Returns.ret ⟨chain ++ [new], [], hown.link hlast hwritten, ?_, ⟨rfl, ?_, ?_⟩, ?_⟩
        · obtain ⟨cs, rfl⟩ := List.getLast?_eq_some_iff.mp hlast
          rw [hstart]
          cases cs <;> rfl
        · rw [List.length_append, hlen, List.length_singleton]
        · rw [hclusters, hlen]
        · exact Effect.written hwritten (List.mem_append_left _ hmem) (hown.chain.next_ne_free hmem) hnew (by simp)

theorem returns_chainCount (hown : Own vol s chain rest) (hstart : n.iStart = chain.headD 0)
    (hpc : (Pc.counting newFclus).Ok n chain rest) :
    Returns G s (chainCount opt newFclus n) (Advances G vol s (chain ++ rest)) := by
  obtain ⟨rfl, hlen, hclusters⟩ := hpc
  have hdone : Advances G vol s (chain ++ []) (.idle, { n with clusters := n.clusters + 1 })
      { s with rdonly := s.rdonly } :=
    ⟨chain, [], hown, hstart, ⟨rfl, by rw [hlen, hclusters]⟩, Effect.same (fun _ => Iff.rfl) s.rdonly⟩
  unfold chainCount
  rw [if_neg (not_not.mpr hclusters.symm)]
  exact Returns.ret hdone

theorem Own.release {r : Option (Option Errno)} (h : Own vol s chain rest) (hhead : rest.head? = some start)
    (hfrees : FreesMirrored G vol opt s start r s') :
    Own vol s' chain [] ∧ Effect G vol s (chain ++ rest) (chain ++ []) s' := by
  obtain ⟨cs, rfl⟩ : ∃ cs, rest = start :: cs := List.head?_eq_some_iff.mp hhead
  obtain ⟨err, l, stop, hr, hl, -⟩ := id hfrees
  have hlvalid : ∀ e ∈ l, startEnt ≤ e ∧ e < vol.maxCluster := fun e he => (hl.used e he).1
  have hsub : ∀ e ∈ l, e ∈ start :: cs := fun e he =>
    (h.rest.segment.comparable hl.chain (h.rest.segment.length_le hl.chain (eof_not_mem hlvalid))).subset he
  have hkeep : ∀ e < vol.maxCluster, e ∉ start :: cs → s'.next vol e = s.next vol e := fun e he hout => by
    rw [hl.freed.next e he, if_neg (fun hmem => hout (hsub e hmem))]
  refine ⟨⟨List.disjoint_nil_right _, chain_frame h.chain (fun e he => ?_), chain_nil⟩, fun e he _ hout => ?_,
    fun e he => ?_,
    fun hfault e h₁ h₂ hused => ?_, hl.freed.exact hl.nodup hl.used, fun hprev => by rwa [hl.freed.prevFree]⟩
  · exact hkeep e (h.chain.valid e he).2 (fun hmem => h.disjoint he hmem)
  · exact hkeep e he (fun hmem => hout (List.mem_append_right _ hmem))
  · exact .inl (List.mem_append_left _ (by simpa using he))
  · obtain ⟨-, hfreed, -⟩ := hfrees.whole hfault h.rest (List.cons_ne_nil _ _)
    rw [hfreed.next e h₂] at hused
    split_ifs at hused with hmem
    · exact absurd rfl hused
    · by_cases hin : e ∈ chain
      · exact .inl (List.mem_append_left _ hin)
      · exact .inr ⟨hused, fun hown => (List.mem_append.mp hown).elim hin hmem⟩

theorem returns_chainUndo (hown : Own vol s chain rest) (hstart : n.iStart = chain.headD 0)
    (hpc : (Pc.undoing new).Ok n chain rest) :
    Returns G s (chainUndo vol opt new n) (Advances G vol s (chain ++ rest)) := by
  obtain ⟨rfl, hclusters⟩ := hpc
  refine Returns.bind (returns_fatFreeClusters.mono (fun r s' hfrees => Returns.ret ?_))
  obtain ⟨hown', heffect⟩ := hown.release rfl hfrees
  exact ⟨chain, [], hown', hstart, ⟨rfl, hclusters⟩, heffect⟩

end Add

section Free

theorem Own.freeBegin (hown : Own vol s chain []) (hstart : n.iStart = chain.headD 0) (hne : chain ≠ [])
    (hclusters : n.clusters = chain.length) (synced : Bool) :
    Advances G vol s (chain ++ []) (FatFiles.freeBegin skip n synced) s := by
  obtain ⟨c, cs, rfl⟩ := List.exists_cons_of_ne_nil hne
  unfold FatFiles.freeBegin
  split_ifs with hsynced hskip
  · refine hown.look hstart ?_ s.rdonly
    exact ⟨rfl, hclusters⟩
  · refine ⟨[], c :: cs, ⟨List.disjoint_nil_left _, chain_nil, hown.chain⟩, rfl, ⟨?_, rfl⟩, ?_⟩
    · rw [hstart]
      rfl
    · exact Effect.same (by simp) s.rdonly
  · refine hown.look hstart ?_ s.rdonly
    exact ⟨rfl, by rw [hstart]; rfl, Nat.pos_of_ne_zero hskip, hclusters⟩

theorem returns_freeStart (hown : Own vol s chain rest) (hstart : n.iStart = chain.headD 0)
    (hpc : (Pc.cutting skip).Ok n chain rest) :
    Returns G s (freeStart skip n) (Advances G vol s (chain ++ rest)) := by
  obtain ⟨rfl, hclusters⟩ := hpc
  unfold freeStart
  by_cases hzero : n.iStart = 0
  · rw [if_pos hzero]
    refine Returns.ret (hown.look hstart ?_ s.rdonly)
    exact ⟨rfl, hclusters⟩
  · rw [if_neg hzero]
    have hne : chain ≠ [] := fun hnil => hzero ((eq_nil_iff hown.chain hstart).mpr hnil)
    split_ifs
    · exact Returns.bind (Returns.call (fun r _ => Returns.ret (hown.freeBegin hstart hne hclusters r.sync)))
    · exact Returns.ret (hown.freeBegin hstart hne hclusters true)

theorem returns_freeSeek (hown : Own vol s chain rest) (hstart : n.iStart = chain.headD 0)
    (hpc : (Pc.seeking skip fclus dclus).Ok n chain rest) :
    Returns G s (freeSeek vol opt limit skip fclus dclus n) (Advances G vol s (chain ++ rest)) := by
  obtain ⟨rfl, hat, hle, hclusters⟩ := hpc
  have hidle : ∀ ro, Advances G vol s (chain ++ []) (.idle, n) { s with rdonly := ro } :=
    hown.look hstart ⟨rfl, hclusters⟩
  unfold freeSeek
  by_cases hlt : fclus < skip - 1
  · rw [if_pos hlt]
    by_cases hlimit : limit < fclus
    · rw [if_pos hlimit]
      exact Returns.bind (returns_fatFsError (fun ro => Returns.ret (hidle ro)))
    · rw [if_neg hlimit]
      refine Returns.bind (returns_fatEntRead (.inl rfl) (fun f ro _ _ => Returns.ret (hidle ro)) (fun f _ _ _ _ => ?_))
      obtain ⟨hfree, ⟨heof, -, -⟩ | ⟨hne, hnext⟩⟩ := hown.next_cases hat
      · dsimp only
        rw [if_neg hfree, if_pos heof]
        exact Returns.ret (hidle s.rdonly)
      · dsimp only
        rw [if_neg hfree, if_neg hne]
        refine Returns.ret (hown.look hstart ?_ s.rdonly)
        exact ⟨rfl, hnext, by omega, hclusters⟩
  · rw [if_neg hlt]
    refine Returns.ret (hown.look hstart ?_ s.rdonly)
    obtain rfl : fclus = skip - 1 := by omega
    exact ⟨rfl, by omega, hat, hclusters⟩

theorem Own.cut {kept gone : List Nat} {err : Option Errno} (h : Own vol s (kept ++ [dclus] ++ gone) [])
    (hwritten : Written G vol dclus entEof s err s') : Own vol s' (kept ++ [dclus]) gone := by
  have hdisjoint := List.disjoint_of_nodup_append h.chain.nodup
  have hlast : dclus ∉ kept := fun hmem =>
    (List.nodup_append.mp h.chain.nodup.of_append_left).2.2 dclus hmem dclus (List.mem_singleton_self dclus) rfl
  have hvalid : ∀ e ∈ kept ++ [dclus] ++ gone, startEnt ≤ e ∧ e < vol.maxCluster := h.chain.valid
  have hkeep : ∀ e ∈ kept ++ [dclus] ++ gone, e ≠ dclus → s'.next vol e = s.next vol e := fun e he hne =>
    hwritten.next_of_ne (hvalid e he).2 hne
  obtain ⟨b, hfirst, hrest⟩ := segment_append.mp h.chain.segment
  have hhead : (kept ++ [dclus] ++ gone).headD entEof = (kept ++ [dclus]).headD entEof := by cases kept <;> rfl
  rw [hhead] at hfirst
  refine ⟨hdisjoint, ⟨hfirst.retarget (fun e he => ?_) ?_, fun e he => ?_⟩, ?_, fun e he => ?_⟩
  · refine hkeep e (by simp [he]) ?_
    rintro rfl
    exact hlast he
  · rw [hwritten.next dclus (hvalid dclus (by simp)).2, if_pos rfl]
  · exact hvalid e (List.mem_append_left _ he)
  · have hframe : Segment (s'.next vol) b gone entEof := hrest.frame (fun e he => hkeep e (by simp [he]) (by
      rintro rfl
      exact hdisjoint (by simp) he))
    cases gone with
    | nil => rfl
    | cons c cs =>
        obtain ⟨rfl, hframe⟩ := hframe
        exact ⟨rfl, hframe⟩
  · exact hvalid e (List.mem_append_right _ he)

theorem returns_freeMark (hwritable : ¬ Unwritable G) (hown : Own vol s chain rest) (hstart : n.iStart = chain.headD 0)
    (hpc : (Pc.ending skip dclus).Ok n chain rest) :
    Returns G s (freeMark vol opt skip dclus n) (Advances G vol s (chain ++ rest)) := by
  obtain ⟨rfl, hskip, hat, hclusters⟩ := hpc
  have hidle : ∀ ro, Advances G vol s (chain ++ []) (.idle, n) { s with rdonly := ro } :=
    hown.look hstart ⟨rfl, hclusters⟩
  have hmem : dclus ∈ chain := List.mem_of_getElem? hat
  refine Returns.bind
    (returns_fatEntRead (.inl rfl) (fun f ro _ _ => Returns.ret (hidle ro)) (fun f _ hmax hentry hf => ?_))
  obtain ⟨hfree, ⟨heof, -, -⟩ | ⟨hne, hnext⟩⟩ := hown.next_cases hat
  · dsimp only
    rw [if_pos heof]
    exact Returns.ret (hidle s.rdonly)
  · dsimp only
    rw [if_neg hne, if_neg hfree]
    refine Returns.bind ((returns_fatEntWrite hf (hentry ▸ hmax) storable_eof).mono (fun err s' hwritten => ?_))
    rw [hentry] at hwritten
    cases err with
    | some e => exact absurd (hwritten.faulty (by simp)) hwritable
    | none =>
        rw [Nat.sub_add_cancel hskip] at hnext
        obtain ⟨kept, gone, rfl, hlen⟩ :
            ∃ kept gone, chain = kept ++ [dclus] ++ gone ∧ kept.length + 1 = skip := by
          have hlt := (List.getElem?_eq_some_iff.mp hat).1
          refine ⟨chain.take (skip - 1), chain.drop skip, ?_, by rw [List.length_take]; omega⟩
          have htake : chain.take (skip - 1 + 1) = chain.take (skip - 1) ++ [dclus] := by
            rw [List.take_add_one, hat]
            rfl
          rw [← htake, Nat.sub_add_cancel hskip, List.take_append_drop]
        refine Returns.ret ⟨kept ++ [dclus], gone, hown.cut hwritten, ?_, ⟨?_, by simpa using hlen⟩, ?_⟩
        · rw [hstart]
          cases kept <;> rfl
        · rw [List.getElem?_append_right (by simp [hlen])] at hnext
          rw [List.head?_eq_getElem?, ← hnext]
          simp [hlen]
        · exact Effect.written hwritten (List.mem_append_left _ hmem) hfree (by decide) (by simp)

theorem returns_freeRest (hown : Own vol s chain rest) (hstart : n.iStart = chain.headD 0)
    (hpc : (Pc.freeing skip start).Ok n chain rest) :
    Returns G s (freeRest vol opt skip start n) (Advances G vol s (chain ++ rest)) := by
  obtain ⟨hhead, hlen⟩ := hpc
  refine Returns.bind (returns_fatFreeClusters.mono (fun r s' hfrees => Returns.ret ?_))
  obtain ⟨hown', heffect⟩ := hown.release hhead hfrees
  exact ⟨chain, [], hown', hstart, ⟨rfl, hlen.symm⟩, heffect⟩

end Free

/-- Every section keeps what belongs to the file in order, and leaves alone what belongs to others. -/
theorem returns_proceed {pc : Pc} (hwritable : ¬ Unwritable G) (hown : Own vol s chain rest)
    (hstart : n.iStart = chain.headD 0) (hpc : pc.Ok n chain rest) (hprev : startEnt ≤ s.prevFree) :
    Returns G s (proceed vol opt limit n pc) (Advances G vol s (chain ++ rest)) := by
  cases pc with
  | idle => exact Returns.ret (hown.look hstart hpc s.rdonly)
  | allocating => exact returns_allocate hown hstart hpc hprev
  | starting new => exact returns_chainStart hwritable hown hpc
  | finding new fclus dclus => exact returns_chainFind hown hstart hpc
  | linking new newFclus last => exact returns_chainLink hwritable hown hstart hpc
  | counting newFclus => exact returns_chainCount hown hstart hpc
  | undoing new => exact returns_chainUndo hown hstart hpc
  | cutting skip => exact returns_freeStart hown hstart hpc
  | seeking skip fclus dclus => exact returns_freeSeek hown hstart hpc
  | ending skip dclus => exact returns_freeMark hwritable hown hstart hpc
  | freeing skip start => exact returns_freeRest hown hstart hpc

section World

variable {ι : Type} [DecidableEq ι] {w w' : World ι} {chains rests : ι → List Nat} {lost : Nat → Prop}

/-- No cluster belongs to two files, and no cluster that belongs to a file is free. If no call fails, the clusters that
are in use belong to files, but for those that were lost from the start. -/
structure World.Ok (G : Answer → Prop) (vol : Volume) (lost : Nat → Prop) (w : World ι)
    (chains rests : ι → List Nat) :
    Prop where
  own : ∀ i, Own vol w.fat (chains i) (rests i)
  start : ∀ i, (w.node i).iStart = (chains i).headD 0
  pcs : ∀ i, (w.pc i).Ok (w.node i) (chains i) (rests i)
  apart : ∀ i j, i ≠ j → (chains i ++ rests i).Disjoint (chains j ++ rests j)
  kept : ¬ Faulty G → ∀ e, startEnt ≤ e → e < vol.maxCluster → w.fat.next vol e ≠ entFree →
    lost e ∨ ∃ i, e ∈ chains i ++ rests i
  exact : Exact vol w.fat
  prevFree : startEnt ≤ w.fat.prevFree

theorem World.Ok.advance {i : ι} {pc : Pc} {n : Node} {fat : Fat} (h : w.Ok G vol lost chains rests)
    (hi : Proceeds G vol w.fat (chains i ++ rests i) (pc, n) fat chain rest) :
    World.Ok G vol lost ⟨fat, Function.update w.node i n, Function.update w.pc i pc⟩
      (Function.update chains i chain) (Function.update rests i rest) := by
  have hother : ∀ j, j ≠ i → ∀ e ∈ chains j ++ rests j, fat.next vol e = w.fat.next vol e := fun j hj e he =>
    hi.effect.spared e ((h.own j).valid he).2 ((h.own j).used he) (fun hmem => h.apart j i hj he hmem)
  have happart : ∀ j, j ≠ i → (chain ++ rest).Disjoint (chains j ++ rests j) := by
    intro j hj e he hmem
    rcases hi.effect.fresh e he with hin | hfree
    · exact h.apart j i hj hmem hin
    · exact (h.own j).used hmem hfree
  have hall : ∀ {p : Node → Pc → List Nat → List Nat → Prop}, p n pc chain rest →
      (∀ j, j ≠ i → p (w.node j) (w.pc j) (chains j) (rests j)) →
      ∀ j, p (Function.update w.node i n j) (Function.update w.pc i pc j) (Function.update chains i chain j)
        (Function.update rests i rest j) := by
    intro p hself hothers j
    by_cases hj : j = i
    · subst hj
      simpa only [Function.update_self] using hself
    · simpa only [Function.update_of_ne hj] using hothers j hj
  refine ⟨?_, ?_, ?_, ?_, ?_, hi.effect.exact h.exact, hi.effect.prevFree h.prevFree⟩
  · exact hall (p := fun _ _ c r => Own vol fat c r) hi.owns (fun j hj => (h.own j).frame (hother j hj))
  · exact hall (p := fun n _ c _ => n.iStart = c.headD 0) hi.start (fun j _ => h.start j)
  · exact hall (p := fun n pc c r => pc.Ok n c r) hi.pc (fun j _ => h.pcs j)
  · intro j k hjk
    by_cases hj : j = i
    · subst hj
      have hk : k ≠ j := fun heq => hjk heq.symm
      simpa only [Function.update_self, Function.update_of_ne hk] using happart k hk
    · by_cases hk : k = i
      · subst hk
        simpa only [Function.update_self, Function.update_of_ne hj] using (happart j hj).symm
      · simpa only [Function.update_of_ne hj, Function.update_of_ne hk] using h.apart j k hjk
  · intro hfault e h₁ h₂ hused
    rcases hi.effect.kept hfault e h₁ h₂ hused with hmem | ⟨hbefore, hout⟩
    · exact .inr ⟨i, by simpa only [Function.update_self] using hmem⟩
    · rcases h.kept hfault e h₁ h₂ hbefore with hlost | ⟨j, hj⟩
      · exact .inl hlost
      · have hne : j ≠ i := fun heq => hout (heq ▸ hj)
        exact .inr ⟨j, by simpa only [Function.update_of_ne hne] using hj⟩

theorem World.Ok.call {i : ι} {pc : Pc} (h : w.Ok G vol lost chains rests)
    (hpc : pc.Ok (w.node i) (chains i) (rests i)) :
    World.Ok G vol lost { w with pc := Function.update w.pc i pc } chains rests := by
  refine ⟨h.own, h.start, fun j => ?_, h.apart, h.kept, h.exact, h.prevFree⟩
  by_cases hj : j = i
  · subst hj
    simpa only [Function.update_self] using hpc
  · simpa only [Function.update_of_ne hj] using h.pcs j

def Action.Within (G : Answer → Prop) : Action ι → Prop
  | .add _ => True
  | .cut _ _ => True
  | .go _ answers => ∀ r ∈ answers, G r

theorem World.Ok.step {a : Action ι} (hwritable : ¬ Unwritable G) (h : w.Ok G vol lost chains rests) (ha : a.Within G)
    (hstep : FatFiles.step vol opt limit w a = some w') : ∃ chains rests, w'.Ok G vol lost chains rests := by
  cases a with
  | add i =>
      simp only [FatFiles.step] at hstep
      split_ifs at hstep with hidle
      cases hstep
      have hpc := h.pcs i
      rw [hidle] at hpc
      exact ⟨chains, rests, h.call hpc⟩
  | cut i skip =>
      simp only [FatFiles.step] at hstep
      split_ifs at hstep with hidle
      cases hstep
      have hpc := h.pcs i
      rw [hidle] at hpc
      exact ⟨chains, rests, h.call hpc⟩
  | go i answers =>
      have hproceed : Returns G w.fat (proceed vol opt limit (w.node i) (w.pc i)) _ :=
        returns_proceed hwritable (h.own i) (h.start i) (h.pcs i) h.prevFree
      simp only [FatFiles.step] at hstep
      cases hrun : proceed vol opt limit (w.node i) (w.pc i) answers w.fat with
      | stopped fat => simp [hrun] at hstep
      | done r left fat =>
          obtain ⟨pc, n⟩ := r
          rw [hrun] at hstep
          cases hstep
          obtain ⟨chain, rest, hi⟩ := (hproceed answers (pc, n) left fat ha hrun).1
          exact ⟨_, _, h.advance hi⟩

theorem World.Ok.run {as : List (Action ι)} (hwritable : ¬ Unwritable G) (h : w.Ok G vol lost chains rests)
    (has : ∀ a ∈ as, a.Within G) (hrun : run (FatFiles.step vol opt limit) w as = some w') :
    ∃ chains rests, w'.Ok G vol lost chains rests := by
  refine run_history (I := fun bs u => (∀ b ∈ bs, b.Within G) → ∃ chains rests, u.Ok G vol lost chains rests)
    (fun _ => ⟨chains, rests, h⟩) (fun bs u a v _ hu hv hbs => ?_) hrun has
  obtain ⟨chains, rests, hok⟩ := hu (fun b hb => hbs b (List.mem_append_left _ hb))
  exact hok.step hwritable (hbs a (by simp)) hv

structure World.Rests (vol : Volume) (w : World ι) (chains : ι → List Nat) : Prop where
  chain : ∀ i, Chain vol w.fat ((chains i).headD entEof) (chains i)
  start : ∀ i, (w.node i).iStart = (chains i).headD 0
  clusters : ∀ i, (w.node i).clusters = (chains i).length
  apart : ∀ i j, i ≠ j → (chains i).Disjoint (chains j)
  idle : ∀ i, w.pc i = .idle
  exact : Exact vol w.fat
  prevFree : startEnt ≤ w.fat.prevFree

omit [DecidableEq ι] in
theorem World.Rests.ok (h : w.Rests vol chains) :
    w.Ok G vol (fun e => w.fat.next vol e ≠ entFree ∧ ∀ i, e ∉ chains i) chains (fun _ => []) := by
  refine ⟨fun i => ⟨List.disjoint_nil_right _, h.chain i, chain_nil⟩, h.start, fun i => ?_, fun i j hij => ?_,
    fun _ e _ _ hused => ?_, h.exact, h.prevFree⟩
  · rw [h.idle i]
    exact ⟨rfl, h.clusters i⟩
  · simpa only [List.append_nil] using h.apart i j hij
  · by_cases hmem : ∃ i, e ∈ chains i
    · obtain ⟨i, hi⟩ := hmem
      exact .inr ⟨i, by simpa using hi⟩
    · exact .inl ⟨hused, fun i hi => hmem ⟨i, hi⟩⟩

/-- However calls of fat_add_cluster and fat_free on different files come between each other, the files stay in order,
no two of them share a cluster, and the count of free clusters stays right, even if reads fail, as long as writes do
not. If nothing fails, no cluster is lost either. -/
theorem files_stay_apart {as : List (Action ι)} (hwritable : ¬ Unwritable G) (h : w.Rests vol chains)
    (has : ∀ a ∈ as, a.Within G) (hrun : run (FatFiles.step vol opt limit) w as = some w') :
    ∃ chains' : ι → List Nat, (∀ i, Chain vol w'.fat ((chains' i).headD entEof) (chains' i)) ∧
      (∀ i, (w'.node i).iStart = (chains' i).headD 0) ∧
      (∀ i, w'.pc i = .idle → (w'.node i).clusters = (chains' i).length) ∧
      (∀ i j, i ≠ j → (chains' i).Disjoint (chains' j)) ∧ Exact vol w'.fat ∧
      (¬ Faulty G → (∀ i, w'.pc i = .idle) → ∀ e, startEnt ≤ e → e < vol.maxCluster →
        w'.fat.next vol e ≠ entFree →
        (∃ i, e ∈ chains' i) ∨ w.fat.next vol e ≠ entFree ∧ ∀ i, e ∉ chains i) := by
  obtain ⟨chains', rests', hok⟩ := (World.Rests.ok h).run hwritable has hrun
  have hidle : ∀ i, w'.pc i = .idle → rests' i = [] ∧ (w'.node i).clusters = (chains' i).length := fun i hi => by
    have hpc := hok.pcs i
    rwa [hi] at hpc
  refine ⟨chains', fun i => (hok.own i).chain, hok.start, fun i hi => (hidle i hi).2, fun i j hij e hi hj => ?_,
    hok.exact,
    fun hfault hall e h₁ h₂ hused => ?_⟩
  · exact hok.apart i j hij (List.mem_append_left _ hi) (List.mem_append_left _ hj)
  · rcases hok.kept hfault e h₁ h₂ hused with hlost | ⟨i, hi⟩
    · exact .inr hlost
    · rw [(hidle i (hall i)).1, List.append_nil] at hi
      exact .inl ⟨i, hi⟩

omit [DecidableEq ι] in
theorem World.Ok.links (h : w.Ok G vol lost chains rests) (i : ι) :
    FatCache.Links (fatValidEntry vol) (w.fat.next vol) (chains i) :=
  ⟨(h.own i).chain.segment, fun d hd => decide_eq_true ((h.own i).chain.valid d hd), (h.own i).chain.nodup⟩

omit [DecidableEq ι] in
/-- The walks of fat_chain_add and fat_free from the start of the file end where fat_get_cluster ends with its cache. -/
theorem World.Ok.walks_agree {κ : Type} [Fintype κ] {c : FatCache.World κ} {i : ι}
    (h : w.Ok G vol lost chains rests) (hc : c.Ok (fatValidEntry vol)) (hchain : c.chain = chains i) :
    (∀ new newFclus last, w.pc i = .linking new newFclus last → ∀ j cluster fclus dclus cid,
      c.pc j = .walking cluster fclus dclus cid → c.next dclus = entEof → newFclus = fclus + 1 ∧ last = dclus) ∧
    ∀ skip dclus, w.pc i = .ending skip dclus → ∀ j fclus d, c.pc j = .done (skip - 1) (.found fclus d) →
      d = dclus := by
  constructor
  · intro new newFclus last hpc j cluster fclus dclus cid hwalk heof
    have hlinking := h.pcs i
    rw [hpc] at hlinking
    obtain ⟨-, hlast, hlen, -⟩ := hlinking
    have hend : fclus + 1 = c.chain.length := by
      refine hc.last ?_ hwalk heof
      have := maxCluster_lt_eof vol
      exact decide_eq_false (fun hvalid => by omega)
    have hwalking := hc.pcs j
    rw [hwalk] at hwalking
    have hd := hwalking.2.2.1
    rw [hchain] at hend hd
    rw [List.getLast?_eq_getElem?, ← hend, Nat.add_sub_cancel, hd] at hlast
    exact ⟨hlen.trans hend.symm, (Option.some.inj hlast).symm⟩
  · intro skip dclus hpc j fclus d hdone
    have hending := h.pcs i
    rw [hpc] at hending
    have hfound := hc.pcs j
    rw [hdone] at hfound
    obtain ⟨rfl, hd⟩ := hfound
    rw [hchain, hending.2.2.1] at hd
    exact (Option.some.inj hd).symm

def twoFiles : World Bool where
  fat := counted
  node := fun i => if i then ⟨0, 0, false, false, false⟩ else ⟨2, 2, false, false, false⟩
  pc := fun _ => .idle

theorem rests_twoFiles : twoFiles.Rests floppy (fun i => if i then [] else [2, 3]) := by
  refine ⟨fun i => ?_, by decide, by decide, fun i j hij => ?_, fun _ => rfl, exact_counted, by decide⟩
  · cases i with
    | false => exact ⟨chain_filed.segment, chain_filed.valid⟩
    | true => exact chain_nil
  · cases i with
    | false =>
      rw [Bool.eq_not_of_ne hij.symm]
      simp
    | true => simp

def fine : List Answer := List.replicate 8 ⟨true, true, true, none, false, none⟩

/-- Both files get a cluster, one while the other looks for its last one. -/
def schedule : List (Action Bool) :=
  [.add false, .go false fine, .cut true 0, .go false fine, .go true [], .go false fine, .add true, .go false fine,
    .go true fine, .go false fine, .go true [], .go true []]

theorem files_stay_apart_twoFiles :
    ∃ w', run (FatFiles.step floppy ⟨false, false, false⟩ 2849) twoFiles schedule = some w' ∧
      (w'.node false).clusters = 3 ∧ (w'.node true).iStart = 5 ∧ freeCount floppy w'.fat = 2843 ∧
      ∃ chains' : Bool → List Nat, (chains' false).Disjoint (chains' true) ∧ (chains' false).length = 3 := by
  have hends : (run (FatFiles.step floppy ⟨false, false, false⟩ 2849) twoFiles schedule).map (fun w =>
      (w.pc false, (w.node false).clusters, (w.node true).iStart, w.fat.freeClusValid, w.fat.freeClusters)) =
        some (.idle, 3, 5, true, 2843) := by decide +kernel
  obtain ⟨w', hrun, heq⟩ := Option.map_eq_some_iff.mp hends
  simp only [Prod.mk.injEq] at heq
  obtain ⟨hidle, hclusters, hstart, hvalid, hcount⟩ := heq
  have hfine : ∀ a ∈ schedule, a.Within (fun r => r.memory = true ∧ r.sync = true) := by
    simp [schedule, Action.Within, fine]
  obtain ⟨chains', -, -, hlen, hapart, hexact, -⟩ := files_stay_apart
    (by rintro ⟨r, ⟨h₁, h₂⟩, h | h⟩ <;> simp_all) rests_twoFiles hfine hrun
  have hfree : freeCount floppy w'.fat = 2843 := by
    rw [← hexact hvalid (by rw [hcount]; decide), hcount]
    rfl
  exact ⟨w', hrun, hclusters, hstart, hfree, chains',
    hapart false true (by decide), by rw [← hlen false hidle, hclusters]⟩

end World

section Dangling

variable {ι : Type} [DecidableEq ι] {w w₁ w₂ : World ι} {chains rests : ι → List Nat} {lost : Nat → Prop}
  {i : ι}

theorem returns_chainLink_stored (hlast : startEnt ≤ last ∧ last < vol.maxCluster) (hnew : new < vol.maxCluster)
    (hreadable : ¬ Unreadable G) :
    Returns G s (chainLink vol opt new newFclus last n) (fun _ s' => ∃ err, Written G vol last new s err s') := by
  refine Returns.bind (returns_fatEntRead (.inl rfl) (fun f ro _ hcause => ?_) (fun f _ hmax hentry hf => ?_))
  · exact absurd hcause (not_or.mpr ⟨hreadable, not_not.mpr hlast⟩)
  · refine Returns.bind
      ((returns_fatEntWrite hf (hentry ▸ hmax) (storable_entry hnew)).mono (fun err s' hwritten => ?_))
    rw [hentry] at hwritten
    cases err with
    | some e => exact Returns.ret ⟨some e, hwritten⟩
    | none => exact Returns.ret ⟨none, hwritten⟩

theorem step_go {answers : List Answer} (h : FatFiles.step vol opt limit w (.go i answers) = some w₁) :
    ∃ left, proceed vol opt limit (w.node i) (w.pc i) answers w.fat =
      .done (w₁.pc i, w₁.node i) left w₁.fat := by
  simp only [FatFiles.step] at h
  cases hrun : proceed vol opt limit (w.node i) (w.pc i) answers w.fat with
  | stopped fat => simp [hrun] at h
  | done r left fat =>
      rw [hrun] at h
      cases h
      exact ⟨left, by simp only [Function.update_self]⟩

def Healthy (r : Answer) : Prop := r.read = true ∧ r.memory = true ∧ r.sync = true

theorem not_faulty_healthy : ¬ Faulty Healthy := by
  rintro ⟨r, ⟨h₁, h₂, h₃⟩, hfail | hfail | hfail⟩ <;> simp_all

theorem returns_fatAllocClusters_only {needsSync : Bool} (hexact : Exact vol s) (hprev : startEnt ≤ s.prevFree)
    (hvalid : startEnt ≤ new ∧ new < vol.maxCluster) (hfree : s.next vol new = entFree)
    (honly : ∀ e, startEnt ≤ e → e < vol.maxCluster → s.next vol e = entFree → e = new) :
    Returns Healthy s (fatAllocClusters vol opt needsSync 1) (fun r s' => r = some (.ok [new]) ∧
      ∀ e < vol.maxCluster, e ≠ new → s'.next vol e = s.next vol e) := by
  refine (returns_fatAllocClusters (by decide) hprev).mono ?_
  rintro r s' (⟨cs, rfl, halloc⟩ | ⟨e, rfl, hfails⟩)
  · obtain ⟨c, rfl⟩ := List.length_eq_one_iff.mp halloc.length
    obtain ⟨⟨hstart, hmax⟩, hc⟩ := halloc.took.free c List.mem_cons_self
    obtain rfl := honly c hstart hmax hc
    exact ⟨rfl, fun e he hne => halloc.took.others e he (by simpa using hne)⟩
  · have hlt := hfails.truthful (hfails.healthy not_faulty_healthy).1 hexact
    have hempty : freeBelow vol s vol.maxCluster = ∅ := Finset.card_eq_zero.mp (Nat.lt_one_iff.mp hlt)
    have hmem : new ∈ freeBelow vol s vol.maxCluster := mem_freeBelow.mpr ⟨hvalid, hfree⟩
    rw [hempty] at hmem
    cases hmem

theorem returns_chainUndo_freed (hchain : Chain vol s new [new]) (node : Node) :
    Returns Healthy s (chainUndo vol opt new node) (fun r s' => r.1 = .idle ∧ Freed vol s [new] s') :=
  Returns.bind (returns_fatFreeClusters.mono (fun _ _ hfrees => Returns.ret
    ⟨rfl, (hfrees.whole not_faulty_healthy hchain (List.cons_ne_nil _ _)).2.1⟩))

/-- If the write of the link to a new cluster fails, fat_add_cluster frees the cluster, and leaves the link to it: the
last cluster of the file is followed by one that is free. If no other cluster is free, the next file that grows gets
it. -/
theorem failed_link_dangles {rs₁ rs₂ : List Answer} (h : w.Ok G vol lost chains rests)
    (hpc : w.pc i = .linking new newFclus last)
    (hlink : FatFiles.step vol opt limit w (.go i rs₁) = some w₁) (hread : ∀ r ∈ rs₁, r.read = true)
    (herror : w₁.pc i = .undoing new) (hundo : FatFiles.step vol opt limit w₁ (.go i rs₂) = some w₂)
    (hfine : ∀ r ∈ rs₂, Healthy r) :
    (chains i).getLast? = some last ∧ w₂.pc i = .idle ∧ w₂.fat.next vol last = new ∧
    w₂.fat.next vol new = entFree ∧
      ((∀ e, startEnt ≤ e → e < vol.maxCluster → w₂.fat.next vol e = entFree → e = new) → ∀ needsSync,
        Ends Healthy w₂.fat (fatAllocClusters vol opt needsSync 1)
          (fun r s' => r = some (.ok [new]) ∧ s'.next vol last = new)) := by
  have hok := h.pcs i
  rw [hpc] at hok
  obtain ⟨hrest, hlast, -, -⟩ := hok
  have hown := h.own i
  rw [hrest] at hown
  have hlastmem : last ∈ chains i := List.mem_of_getLast? hlast
  have hlastvalid := hown.chain.valid last hlastmem
  have hnewvalid := hown.rest.valid new List.mem_cons_self
  have hne : new ≠ last := fun heq => hown.disjoint hlastmem (List.mem_singleton.mpr heq.symm)
  obtain ⟨left, hrun⟩ := step_go hlink
  rw [hpc] at hrun
  obtain ⟨⟨err, hwritten⟩, -⟩ := returns_chainLink_stored hlastvalid hnewvalid.2
    (fun ⟨r, hr, hfalse⟩ => by simp [hr] at hfalse) rs₁ _ left w₁.fat hread hrun
  have hchain : Chain vol w₁.fat new [new] := by
    refine ⟨⟨rfl, ?_⟩, hown.rest.valid⟩
    rw [hwritten.next_of_ne hnewvalid.2 hne]
    exact hown.rest.segment.2
  obtain ⟨left', hrun'⟩ := step_go hundo
  rw [herror] at hrun'
  obtain ⟨⟨hidle, hfreed⟩, -⟩ := returns_chainUndo_freed hchain (w₁.node i) rs₂ _ left' w₂.fat hfine hrun'
  have hlink₂ : w₂.fat.next vol last = new := by
    rw [hfreed.next last hlastvalid.2, if_neg (by simpa using hne.symm), hwritten.next last hlastvalid.2, if_pos rfl]
  have hfree₂ : w₂.fat.next vol new = entFree := by rw [hfreed.next new hnewvalid.2, if_pos List.mem_cons_self]
  have hexact : Exact vol w₂.fat := by
    have hlastused := hown.used (List.mem_append_left _ hlastmem)
    have hnewused : new ≠ entFree := fun heq => by
      rw [heq] at hnewvalid
      exact absurd hnewvalid.1 (by decide)
    refine hfreed.exact (List.nodup_singleton new) (fun e he => ?_) (hwritten.exact hlastused hnewused h.exact)
    rw [List.mem_singleton.mp he]
    exact ⟨hnewvalid, hchain.next_ne_free List.mem_cons_self⟩
  have hprev : startEnt ≤ w₂.fat.prevFree := by
    rw [hfreed.prevFree, hwritten.known.2.2.1]
    exact h.prevFree
  refine ⟨hlast, hidle, hlink₂, hfree₂, fun honly needsSync => ?_⟩
  refine ((returns_fatAllocClusters_only hexact hprev hnewvalid hfree₂ honly).mono ?_).ends
    (halts_fatAllocClusters needsSync 1)
  rintro r s' ⟨hr, hothers⟩
  exact ⟨hr, (hothers last hlastvalid.2 hne.symm).trans hlink₂⟩

def small : Volume := { floppy with
  fatLength := 1
  maxCluster := 5
  start_le := by decide
  fits := by decide
  lt_bad := by decide }

def oneFree : World Bool := { twoFiles with fat := { filedOn small with freeClusters := 1 } }

theorem free_oneFree {e : Nat} : oneFree.fat.next small e = entFree ↔ e ≠ 2 ∧ e ≠ 3 := by
  have hnext : oneFree.fat.next small e = _ := next_filedOn rfl (by decide) e
  rw [hnext]
  split_ifs <;> simp_all [entFree, entEof]

theorem exact_oneFree : Exact small oneFree.fat := by
  intro _ _
  have hfree : freeBelow small oneFree.fat small.maxCluster = {4} := by
    ext e
    rw [mem_freeBelow, free_oneFree, Finset.mem_singleton]
    simp only [small, startEnt]
    omega
  rw [freeCount, hfree]
  rfl

theorem rests_oneFree : oneFree.Rests small (fun i => if i then [] else [2, 3]) := by
  have hchain : Chain small (filedOn small) 2 [2, 3] := chain_filedOn rfl (by decide)
  refine ⟨fun i => ?_, rests_twoFiles.start, rests_twoFiles.clusters, rests_twoFiles.apart, fun _ => rfl,
    exact_oneFree,
    by decide⟩
  cases i with
  | false => exact ⟨hchain.segment, hchain.valid⟩
  | true => exact chain_nil

def linkingSchedule : List (Action Bool) := [.add false, .go false fine, .go false fine, .go false fine]

def noBuffer : List Answer := List.replicate 8 ⟨true, false, true, none, false, none⟩

def smallStep : World Bool → Action Bool → Option (World Bool) := FatFiles.step small ⟨false, false, false⟩ 5

theorem failed_link_dangles_oneFree : ∃ w,
    run smallStep oneFree (linkingSchedule ++ [.go false noBuffer] ++ [.go false fine]) = some w ∧
    w.fat.next small 3 = 4 ∧ w.fat.next small 4 = entFree ∧
    Ends Healthy w.fat (fatAllocClusters small ⟨false, false, false⟩ false 1)
      (fun r s' => r = some (.ok [4]) ∧ s'.next small 3 = 4) := by
  have hends : (run smallStep oneFree (linkingSchedule ++ [.go false noBuffer] ++ [.go false fine])).map
      (fun w => (w.fat.next small 2, w.fat.next small 3)) = some (3, 4) := by decide +kernel
  have hlinking : (run smallStep oneFree linkingSchedule).map (fun w => w.pc false) = some (.linking 4 2 3) := by
    decide +kernel
  have hundoing : (run smallStep oneFree (linkingSchedule ++ [.go false noBuffer])).map (fun w => w.pc false) =
      some (.undoing 4) := by decide +kernel
  obtain ⟨w₂, hrun, hused⟩ := Option.map_eq_some_iff.mp hends
  obtain ⟨w₁, hrun₁, hundo⟩ := run_snoc_some hrun
  obtain ⟨w, hrun₀, hlink⟩ := run_snoc_some hrun₁
  rw [hrun₀] at hlinking
  rw [hrun₁] at hundoing
  have hok : oneFree.Ok (fun r => r.memory = true ∧ r.sync = true) small _ _ _ := rests_oneFree.ok
  obtain ⟨chains, rests, hw⟩ := hok.run (by rintro ⟨r, ⟨h₁, h₂⟩, h | h⟩ <;> simp_all)
    (by simp [linkingSchedule, Action.Within, fine]) hrun₀
  obtain ⟨-, -, hlast, hnew, halloc⟩ := failed_link_dangles hw (Option.some.inj hlinking) hlink (by simp [noBuffer])
    (Option.some.inj hundoing) hundo (by simp [fine, Healthy])
  refine ⟨w₂, hrun, hlast, hnew, halloc (fun e h₁ h₂ hfree => ?_) false⟩
  obtain ⟨htwo, hthree⟩ := Prod.mk.inj hused
  have h₂ : e < 5 := h₂
  have h₁ : 2 ≤ e := h₁
  interval_cases e
  · rw [htwo] at hfree
    cases hfree
  · rw [hthree] at hfree
    cases hfree
  · rfl

end Dangling

end SuperRaid.FatFiles
