import SuperRaid.FatGateBalance

namespace SuperRaid.FatGate

open Locks Transition

variable {ι : Type} [DecidableEq ι]

def Committed (c : Config ι Lock Event) : Prop := ∃ t, (t, Event.committed) ∈ c.log

/-- The next instruction is the store of false on the failure path of fat_disable_write. -/
def clearsBlocked : FatCode → Bool
  | .set false _ _ => true
  | _ => false

/-- The thread does not clear write_blocked once some call has committed. -/
def keepsBlocked (c : Config ι Lock Event) (a : ι × Bool) : Prop :=
  clearsBlocked (c.thread a.1).code = true → ¬ Committed c

instance [Fintype ι] (c : Config ι Lock Event) : Decidable (Committed c) :=
  inferInstanceAs (Decidable (∃ t, (t, Event.committed) ∈ c.log))

instance [Fintype ι] (c : Config ι Lock Event) (a : ι × Bool) : Decidable (keepsBlocked c a) :=
  inferInstanceAs (Decidable (_ → ¬ Committed c))

section Latch

variable [Fintype ι] {calls : ι → Call} {c c' : Config ι Lock Event} {grip : ι → Grip}

/-- write_blocked holds while a call blocks, and from its commit on, when all bodies have ended. -/
structure Latched (calls : ι → Call) (c : Config ι Lock Event) (grip : ι → Grip) : Prop where
  grips : Grips calls c grip
  blocking : ∀ t, grip t = .blocking → c.flag = true
  logged : ∀ t, grip t = .committed ∨ grip t = .disabled → (t, Event.committed) ∈ c.log
  latched : Committed c → c.flag = true ∧ ∀ u, (grip u).depth = 0

theorem latched_start (n : Nat) (calls : ι → Call) :
    Latched calls (start (threads n calls)) (fun t => (calls t).grip) where
  grips := grips_start n calls
  blocking t h := by cases hcall : calls t <;> simp [hcall, Call.grip] at h
  logged t h := by cases hcall : calls t <;> simp [hcall, Call.grip] at h
  latched h := by obtain ⟨t, ht⟩ := h; simp [start] at ht

theorem Grips.writer_unique (hc : Grips calls c grip) {t u : ι} (ht : (grip t).writers = 1)
    (hu : (grip u).writers = 1) : t = u := by
  by_contra hne
  have hpair : ∑ v ∈ {t, u}, (grip v).writers ≤ ∑ v, (grip v).writers :=
    Finset.sum_le_sum_of_subset_of_nonneg (Finset.subset_univ _) (fun v _ _ => (grip v).writers_nonneg)
  rw [Finset.sum_pair hne, ht, hu, ← hc.writers] at hpair
  cases hw : c.writer .gate <;> simp [hw] at hpair

theorem Grip.depth_nonneg (g : Grip) : 0 ≤ g.depth := by
  cases g <;> simp [Grip.depth]

theorem Grip.depth_le_readers (g : Grip) : g.depth ≤ g.readers := by
  cases g <;> simp [Grip.depth, Grip.readers]

theorem gripNext_blocking {g : Grip} {head : Head Lock Event} (h : gripNext g head = some .blocking) :
    head = .set true .blocked ∨ g = .blocking ∧ ∀ b e, head ≠ .set b e := by
  unfold gripNext at h
  split at h <;> simp_all

theorem gripNext_committed {g g' : Grip} {head : Head Lock Event} (h : gripNext g head = some g')
    (hg' : g' = .committed ∨ g' = .disabled) :
    event head = .committed ∨ g = .committed ∨ g = .disabled := by
  unfold gripNext at h
  split at h <;> simp_all [event]
  all_goals grind

theorem gripNext_commits {g g' : Grip} {head : Head Lock Event} (h : gripNext g head = some g')
    (he : event head = .committed) : g = .blocking ∧ ∀ b e, head ≠ .set b e := by
  unfold gripNext at h
  split at h <;> simp_all [event]

theorem gripNext_set {g g' : Grip} {b : Bool} {e : Event} (h : gripNext g (.set b e) = some g') :
    g.writers = 1 ∧ (b = true ∨ g = .blocking) := by
  unfold gripNext at h
  split at h <;> simp_all [Grip.writers]

theorem gripNext_began {g g' : Grip} {head : Head Lock Event} (h : gripNext g head = some g')
    (he : event head = .began) : head = .test false .began := by
  unfold gripNext at h
  split at h <;> simp_all [event]

omit [Fintype ι] in
theorem effect_flag {t : ι} {head : Head Lock Event} (h : Effect c t head c') (hset : ∀ b e, head ≠ .set b e) :
    c'.flag = c.flag := by
  cases h with
  | set => exact absurd rfl (hset _ _)
  | acquire _ _ _ hf _ | release _ _ hf _ | test _ _ _ hf _ | act _ _ hf _ => exact hf

omit [Fintype ι] in
/-- Of all instructions only a store of false by a call that blocks lowers write_blocked. -/
theorem flag_or_clears {t : ι} {head : Head Lock Event} {g : Grip}
    (hnext : gripNext (grip t) head = some g) (heff : Effect c t head c') (hflag : c.flag = true) :
    c'.flag = true ∨ grip t = .blocking ∧ clearsBlocked (c.thread t).code = true := by
  by_cases hset : ∃ b e, head = .set b e
  · obtain ⟨b, e, rfl⟩ := hset
    cases heff with
    | set hcode _ _ hf _ =>
        cases b with
        | true => exact .inl hf
        | false =>
            obtain hb | hg := (gripNext_set hnext).2
            · exact absurd hb (by decide)
            · exact .inr ⟨hg, by simp [hcode, clearsBlocked]⟩
  · push Not at hset
    rw [effect_flag heff hset]
    exact .inl hflag

theorem Latched.step_blocking (hc : Latched calls c grip) {t : ι} {head : Head Lock Event} {g : Grip}
    (hnext : gripNext (grip t) head = some g) (heff : Effect c t head c') (u : ι)
    (hu : Function.update grip t g u = .blocking) : c'.flag = true := by
  by_cases hut : u = t
  · subst hut
    rw [Function.update_self] at hu
    subst hu
    obtain rfl | ⟨hg, hset⟩ := gripNext_blocking hnext
    · cases heff with
      | set _ _ _ hf _ => exact hf
    · rw [effect_flag heff hset]
      exact hc.blocking u hg
  · rw [Function.update_of_ne hut] at hu
    obtain hflag | ⟨ht, -⟩ := flag_or_clears hnext heff (hc.blocking u hu)
    · exact hflag
    · exact absurd (hc.grips.writer_unique (by simp [hu, Grip.writers]) (by simp [ht, Grip.writers])) hut

theorem Latched.not_began (hc : Latched calls c grip) (hcom : Committed c) {t : ι} {head : Head Lock Event}
    {g : Grip} (hnext : gripNext (grip t) head = some g) (heff : Effect c t head c') : event head ≠ .began := by
  intro he
  obtain rfl := gripNext_began hnext he
  cases heff with
  | test hb => exact absurd (hc.latched hcom).1 (by simp [hb])

theorem Latched.step_latched (hc : Latched calls c grip) {a : ι × Bool} {head : Head Lock Event} {g : Grip}
    (hok : keepsBlocked c a) (hnext : gripNext (grip a.1) head = some g) (heff : Effect c a.1 head c')
    (hcom : Committed c') : c'.flag = true ∧ ∀ u, (Function.update grip a.1 g u).depth = 0 := by
  have hacc := (gripNext_accounts hnext).depth
  have hg := g.depth_nonneg
  by_cases hnew : event head = .committed
  · -- The call commits: it holds the gate, so every body has ended.
    obtain ⟨hblock, hset⟩ := gripNext_commits hnext hnew
    have hzero : ∀ u, (grip u).depth = 0 := fun u => by
      have := hc.grips.readers_zero (t := a.1) (by simp [hblock, Grip.writers]) u
      have := (grip u).depth_le_readers
      have := (grip u).depth_nonneg
      omega
    refine ⟨by rw [effect_flag heff hset]; exact hc.blocking a.1 hblock, fun u => ?_⟩
    by_cases hu : u = a.1
    · subst hu
      rw [Function.update_self]
      simp only [hnew, once, hzero] at hacc
      simpa using hacc.symm
    · rw [Function.update_of_ne hu, hzero]
  · -- Some call had committed before.
    have hold : Committed c := by
      obtain ⟨t, ht⟩ := hcom
      rw [effect_log heff] at ht
      rcases List.mem_cons.mp ht with heq | ht
      · exact absurd (Prod.mk.inj heq).2.symm hnew
      · exact ⟨t, ht⟩
    obtain ⟨hflag, hzero⟩ := hc.latched hold
    refine ⟨?_, fun u => ?_⟩
    · obtain hflag' | ⟨-, hclears⟩ := flag_or_clears hnext heff hflag
      · exact hflag'
      · exact absurd hold (hok hclears)
    · by_cases hu : u = a.1
      · subst hu
        rw [Function.update_self]
        have hbegan : once (event head) .began = 0 := if_neg (hc.not_began hold hnext heff)
        have hended : 0 ≤ once (event head) .ended := by unfold once; split <;> decide
        rw [hzero, hbegan] at hacc
        omega
      · rw [Function.update_of_ne hu, hzero]

theorem Latched.step (hc : Latched calls c grip) {a : ι × Bool} (hok : keepsBlocked c a)
    (h : Locks.step c a = some c') : ∃ grip', Latched calls c' grip' := by
  obtain ⟨hs, hg⟩ | ⟨head, g, hnext, heff, hg⟩ := hc.grips.step_cases h
  · refine ⟨grip, hg, ?_, ?_, ?_⟩
    · rw [hs.flag]; exact hc.blocking
    · rw [hs.log]; exact hc.logged
    · unfold Committed; rw [hs.flag, hs.log]; exact hc.latched
  · refine ⟨_, hg, hc.step_blocking hnext heff, ?_, hc.step_latched hok hnext heff⟩
    intro u hu
    rw [effect_log heff]
    by_cases hua : u = a.1
    · subst hua
      rw [Function.update_self] at hu
      obtain he | hold := gripNext_committed hnext hu
      · rw [he]; exact List.mem_cons_self
      · exact List.mem_cons_of_mem _ (hc.logged _ hold)
    · rw [Function.update_of_ne hua] at hu
      exact List.mem_cons_of_mem _ (hc.logged u hu)

theorem latched_run {n : Nat} {as : List (ι × Bool)}
    (hok : Every Locks.step keepsBlocked (start (threads n calls)) as)
    (hrun : run Locks.step (start (threads n calls)) as = some c) : ∃ grip, Latched calls c grip :=
  run_every (I := fun c => ∃ grip, Latched calls c grip) ⟨_, latched_start n calls⟩
    (fun _ _ _ ⟨_, hu⟩ hok hv => hu.step hok hv) hok hrun

theorem Latched.committed_of_ret (hc : Latched calls c grip) {t : ι} (hcall : calls t = .disableWrite)
    (hret : (c.thread t).code = .ret true) : Committed c := by
  have hf := hc.grips.follows t
  have hrole := (hc.grips.role t).mpr hcall
  rw [hret] at hf
  simp only [Follows, gripDiscipline, decide_eq_true_eq] at hf
  rcases hf with hg | ⟨hg, -⟩ | ⟨-, hfalse⟩
  · simp [hg, Grip.disabler] at hrole
  · exact ⟨t, hc.logged t (.inr hg)⟩
  · exact absurd hfalse (by decide)

theorem Latched.not_mutate (hc : Latched calls c grip) (hcom : Committed c) {t : ι} {head : Head Lock Event}
    {g : Grip} (hnext : gripNext (grip t) head = some g) : event head ≠ .mutate := by
  intro he
  obtain ⟨d, hd⟩ := gripNext_mutate hnext he
  have hzero := (hc.latched hcom).2 t
  rw [hd] at hzero
  simp only [Grip.depth] at hzero
  omega

theorem Latched.step_quiet (hc : Latched calls c grip) (hcom : Committed c) {a : ι × Bool}
    (h : Locks.step c a = some c') :
    Committed c' ∧ ∀ u, times c' u .began = times c u .began ∧ times c' u .mutate = times c u .mutate := by
  obtain ⟨hs, -⟩ | ⟨head, g, hnext, heff, -⟩ := hc.grips.step_cases h
  · unfold Committed times
    rw [hs.log]
    exact ⟨hcom, fun _ => ⟨rfl, rfl⟩⟩
  · have hlog := effect_log heff
    obtain ⟨t, ht⟩ := hcom
    refine ⟨⟨t, hlog ▸ List.mem_cons_of_mem _ ht⟩, fun u => ?_⟩
    have hbegan := hc.not_began ⟨t, ht⟩ hnext heff
    have hmutate := hc.not_mutate ⟨t, ht⟩ hnext
    simp [times_cons hlog, once, hbegan, hmutate]

/-- Once a disable-write call has returned 0, and as long as no call clears write_blocked after a commit, no begin
succeeds any more, nothing is changed and no body is running. -/
theorem disable_write_permanent (n : Nat) (calls : ι → Call) (as bs : List (ι × Bool))
    (c c' : Config ι Lock Event) (t : ι) (hok : Every Locks.step keepsBlocked (start (threads n calls)) (as ++ bs))
    (hrun : run Locks.step (start (threads n calls)) as = some c) (hcall : calls t = .disableWrite)
    (hret : (c.thread t).code = .ret true) (hlater : run Locks.step c bs = some c') :
    c'.flag = true ∧ ∀ u, times c' u .began = times c u .began ∧ times c' u .mutate = times c u .mutate ∧
      unmatched c' u = 0 := by
  obtain ⟨hfirst, hrest⟩ := (every_append _ _ _).mp hok
  obtain ⟨grip, hc⟩ := latched_run hfirst hrun
  have hcom := hc.committed_of_ret hcall hret
  obtain ⟨⟨grip', hc'⟩, hcom', hsame⟩ := run_every
    (I := fun v => (∃ grip, Latched calls v grip) ∧ Committed v ∧
      ∀ u, times v u .began = times c u .began ∧ times v u .mutate = times c u .mutate)
    ⟨⟨grip, hc⟩, hcom, fun _ => ⟨rfl, rfl⟩⟩
    (fun v a w ⟨⟨_, hv⟩, hvcom, hvsame⟩ hva hw =>
      have hquiet := hv.step_quiet hvcom hw
      ⟨hv.step hva hw, hquiet.1, fun u =>
        ⟨(hquiet.2 u).1.trans (hvsame u).1, (hquiet.2 u).2.trans (hvsame u).2⟩⟩)
    (hrest c hrun) hlater
  obtain ⟨hflag, hzero⟩ := hc'.latched hcom'
  refine ⟨hflag, fun u => ⟨(hsame u).1, (hsame u).2, ?_⟩⟩
  rw [hc'.grips.unmatched_eq, hzero]

end Latch

def twoDisables : Fin 3 → Call
  | 2 => .op .pageMkwrite
  | _ => .disableWrite

def firstDisable : List (Fin 3 × Bool) :=
  [(0, true), (0, true), (0, true), (0, true), (0, true), (0, true), (0, false), (0, true), (0, true), (0, true),
    (0, true), (0, true)]

def failingDisable : List (Fin 3 × Bool) :=
  [(1, true), (1, true), (1, true), (1, true), (1, true), (1, true), (1, false), (1, false), (1, true), (1, true),
    (1, true)]

def laterFault : List (Fin 3 × Bool) := List.replicate 4 (2, true)

theorem disable_write_permanent_refuses :
    ∃ c c', run Locks.step (start (threads 1 twoDisables)) (failingDisable ++ firstDisable) = some c ∧
      (c.thread 1).code = .ret false ∧ (c.thread 0).code = .ret true ∧ run Locks.step c laterFault = some c' ∧
      (c'.thread 2).code = .ret false ∧ c'.flag = true ∧ times c' 2 .began = times c 2 .began := by
  refine ⟨_, _, rfl, rfl, rfl, rfl, rfl, ?_⟩
  have h := disable_write_permanent 1 twoDisables (failingDisable ++ firstDisable) laterFault _ _ 0 (by decide) rfl rfl
    rfl rfl
  exact ⟨h.1, (h.2 2).1⟩

theorem failing_disable_reopens :
    ∃ c c', run Locks.step (start (threads 1 twoDisables)) firstDisable = some c ∧
      (c.thread 0).code = .ret true ∧ run Locks.step c (failingDisable ++ laterFault ++ [(2, true)]) = some c' ∧
      c'.flag = false ∧
      times c' 2 .began = 1 ∧ times c' 2 .mutate = 1 :=
  ⟨_, _, rfl, rfl, rfl, rfl, by decide, by decide⟩

end SuperRaid.FatGate
