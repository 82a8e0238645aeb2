import SuperRaid.HashRingConsumer

namespace SuperRaid.HashRing

open Image

variable {evp : Evp} {dev : Bytes} {total : Nat} {k : Counts} {s : State evp}

def MainPc.stage : MainPc → Nat
  | .start => 0
  | .createConsumer => 1
  | .consumerError => 2
  | .consumerDone => 3
  | .createProducer => 4
  | .producerError => 5
  | .producerDone => 6
  | .joinProducer => 7
  | .producerJoinError => 8
  | .joinConsumer => 9
  | .consumerJoinError => 10
  | .loadError => 11
  | .returned _ => 12

/-- What the flags done and error say about the two threads, and what the
calling thread knows at each of its own points. -/
structure Status (evp : Evp) (total : Nat) (s : State evp) : Prop where
  noConsumer : s.main.pc.stage ≤ 3 → s.main.consumerCreated = false
  consumerIdle : s.main.consumerCreated = false → s.consumer.pc = .idle
  noProducer : s.main.pc.stage ≤ 6 → s.main.producerCreated = false
  producerIdle : s.main.producerCreated = false → s.producer.pc = .idle
  createFailed : s.main.pc = .consumerDone ∨ s.main.pc = .producerDone → s.ring.error = true
  consumerMissing : 4 ≤ s.main.pc.stage → s.main.pc.stage ≤ 11 → s.main.consumerCreated = false →
    s.main.pc = .producerError ∨ s.ring.error = true
  producerMissing : 7 ≤ s.main.pc.stage → s.main.pc.stage ≤ 11 → s.main.producerCreated = false →
    s.ring.error = true
  complete : s.producer.pc = .storeDone → total ≤ s.producer.offset
  readFailed : s.producer.pc = .storeErrorDone → s.ring.error = true
  producerExit : s.producer.pc = .exited → s.ring.error = true ∨ total ≤ s.producer.offset
  updateFailed : s.consumer.pc = .storeErrorDone → s.ring.error = true
  updateError : s.consumer.pc = .storeError ∨ s.consumer.pc = .storeErrorDone → s.consumer.error = true
  doneMeans : s.ring.done = true → s.ring.error = true ∨ total ≤ s.producer.offset
  finishing : s.consumer.pc = .loadError ∨ s.consumer.pc = .final → s.ring.done = true
  consumerExit : s.consumer.pc = .exited →
    s.consumer.error = true ∨ s.ring.error = true ∨
    (s.ring.done = true ∧ s.consumer.digest = evp.final s.consumer.ctx)
  producerJoined : 9 ≤ s.main.pc.stage → s.main.pc.stage ≤ 11 → s.ring.error = true ∨ s.producer.pc = .exited
  consumerJoined : s.main.pc = .loadError → s.ring.error = true ∨ s.consumer.pc = .exited
  returned : s.main.pc = .returned 0 → total = 0 ∨ (s.ring.error = false ∧ s.consumer.error = false ∧
    s.producer.pc = .exited ∧ s.consumer.pc = .exited ∧ s.main.digest = s.consumer.digest)

theorem Status.of_producer (h : Status evp total s) (hidle : s.producer.pc ≠ .idle)
    (hexited : s.producer.pc ≠ .exited) {r : Ring} {p : Producer}
    (herror : s.ring.error = true → r.error = true) (hdone : s.ring.done = true → r.done = true)
    (hoffset : s.producer.offset ≤ p.offset) (hcomplete : p.pc = .storeDone → total ≤ p.offset)
    (hfailed : p.pc = .storeErrorDone → r.error = true)
    (hexit : p.pc = .exited → r.error = true ∨ total ≤ p.offset)
    (hraised : r.done = true → s.ring.done = true ∨ r.error = true ∨ total ≤ p.offset) :
    Status evp total { s with ring := r, producer := p } where
  noConsumer := h.noConsumer
  consumerIdle := h.consumerIdle
  noProducer := h.noProducer
  producerIdle := fun hc => absurd (h.producerIdle hc) hidle
  createFailed := fun hm => herror (h.createFailed hm)
  consumerMissing := fun h4 h11 hc => (h.consumerMissing h4 h11 hc).imp_right herror
  producerMissing := fun h7 h11 hc => herror (h.producerMissing h7 h11 hc)
  complete := hcomplete
  readFailed := hfailed
  producerExit := hexit
  updateFailed := fun hc => herror (h.updateFailed hc)
  updateError := h.updateError
  doneMeans := fun hd => by
    rcases hraised hd with hs | hr
    · exact (h.doneMeans hs).imp herror (fun ht => ht.trans hoffset)
    · exact hr
  finishing := fun hc => hdone (h.finishing hc)
  consumerExit := fun hc => by
    rcases h.consumerExit hc with he | he | ⟨hd, hg⟩
    · exact Or.inl he
    · exact Or.inr (Or.inl (herror he))
    · exact Or.inr (Or.inr ⟨hdone hd, hg⟩)
  producerJoined := fun h9 h11 => Or.inl (herror ((h.producerJoined h9 h11).resolve_right hexited))
  consumerJoined := fun hm => (h.consumerJoined hm).imp_left herror
  returned := fun hm => (h.returned hm).imp_right (fun hr => absurd hr.2.2.1 hexited)

theorem Status.producer (h : Status evp total s) {count : Option Nat} {r : Ring} {p : Producer}
    (hstep : producerStep dev total s.ring s.producer count = some (r, p)) :
    Status evp total { s with ring := r, producer := p } := by
  cases hpc : s.producer.pc with
  | idle | exited => simp [producerStep, hpc] at hstep
  | loadHead | setLen | storeError | storeErrorDone | storeDone =>
      have hcomplete := h.complete
      have hfailed := h.readFailed
      simp only [producerStep, hpc, Option.some.injEq, Prod.mk.injEq] at hstep
      obtain ⟨rfl, rfl⟩ := hstep
      apply h.of_producer <;> simp_all
  | loadError =>
      simp only [producerStep, hpc] at hstep
      split at hstep
      · cases hstep; apply h.of_producer <;> simp_all
      · split at hstep <;> cases hstep <;> apply h.of_producer <;> simp_all
  | read =>
      simp only [producerStep, hpc] at hstep
      cases count with
      | none => cases hstep; apply h.of_producer <;> simp_all
      | some n =>
          dsimp only at hstep
          split at hstep
          · split at hstep <;> cases hstep <;> apply h.of_producer <;> simp_all
          · cases hstep
  | storeTail =>
      simp only [producerStep, hpc, Option.some.injEq, Prod.mk.injEq] at hstep
      obtain ⟨rfl, rfl⟩ := hstep
      have hloop := producerLoop_eq total (s.producer.offset + want total s.producer.offset)
      apply h.of_producer <;> rcases hloop with ⟨_, e⟩ | ⟨hle, e⟩ <;> simp_all

theorem Status.of_consumer (h : Status evp total s) (hidle : s.consumer.pc ≠ .idle)
    (hexited : s.consumer.pc ≠ .exited) {r : Ring} {c : Consumer evp.Ctx}
    (herror : s.ring.error = true → r.error = true) (hfailed : c.pc = .storeErrorDone → r.error = true)
    (hupdate : c.pc = .storeError ∨ c.pc = .storeErrorDone → c.error = true)
    (hraised : r.done = true → s.ring.done = true ∨ r.error = true)
    (hfinish : c.pc = .loadError ∨ c.pc = .final → r.done = true)
    (hexit : c.pc = .exited → c.error = true ∨ r.error = true ∨ (r.done = true ∧ c.digest = evp.final c.ctx)) :
    Status evp total { s with ring := r, consumer := c } where
  noConsumer := h.noConsumer
  consumerIdle := fun hc => absurd (h.consumerIdle hc) hidle
  noProducer := h.noProducer
  producerIdle := h.producerIdle
  createFailed := fun hm => herror (h.createFailed hm)
  consumerMissing := fun h4 h11 hc => (h.consumerMissing h4 h11 hc).imp_right herror
  producerMissing := fun h7 h11 hc => herror (h.producerMissing h7 h11 hc)
  complete := h.complete
  readFailed := fun hp => herror (h.readFailed hp)
  producerExit := fun hp => (h.producerExit hp).imp_left herror
  updateFailed := hfailed
  updateError := hupdate
  doneMeans := fun hd => by
    rcases hraised hd with hs | hr
    · exact (h.doneMeans hs).imp_left herror
    · exact Or.inl hr
  finishing := hfinish
  consumerExit := hexit
  producerJoined := fun h9 h11 => (h.producerJoined h9 h11).imp_left herror
  consumerJoined := fun hm => Or.inl (herror ((h.consumerJoined hm).resolve_right hexited))
  returned := fun hm => (h.returned hm).imp_right (fun hr => absurd hr.2.2.2.1 hexited)

theorem Status.consumer (h : Status evp total s) {ok : Bool} {r : Ring} {c : Consumer evp.Ctx}
    (hstep : consumerStep evp s.ring s.consumer ok = some (r, c)) :
    Status evp total { s with ring := r, consumer := c } := by
  cases hpc : s.consumer.pc with
  | idle | exited => simp [consumerStep, hpc] at hstep
  | init | update =>
      simp only [consumerStep, hpc] at hstep
      split at hstep <;> cases hstep <;> apply h.of_consumer <;> simp_all
  | loadTail | storeHead =>
      simp only [consumerStep, hpc, Option.some.injEq, Prod.mk.injEq] at hstep
      obtain ⟨rfl, rfl⟩ := hstep
      apply h.of_consumer <;> simp_all <;> split <;> simp_all
  | loadDone =>
      simp only [consumerStep, hpc, Option.some.injEq, Prod.mk.injEq] at hstep
      obtain ⟨rfl, rfl⟩ := hstep
      split <;> apply h.of_consumer <;> simp_all
  | storeError | storeErrorDone =>
      have hfailed := h.updateFailed
      have herror := h.updateError
      simp only [consumerStep, hpc, Option.some.injEq, Prod.mk.injEq] at hstep
      obtain ⟨rfl, rfl⟩ := hstep
      apply h.of_consumer <;> simp_all
  | loadError =>
      have hfinish := h.finishing
      simp only [consumerStep, hpc, Option.some.injEq, Prod.mk.injEq] at hstep
      obtain ⟨rfl, rfl⟩ := hstep
      split <;> apply h.of_consumer <;> simp_all
  | final =>
      have hfinish := h.finishing
      simp only [consumerStep, hpc] at hstep
      split at hstep <;> cases hstep <;> apply h.of_consumer <;> simp_all

theorem Status.of_main (h : Status evp total s) {r : Ring} {m : Main}
    (hconsumer : m.consumerCreated = s.main.consumerCreated) (hproducer : m.producerCreated = s.main.producerCreated)
    (herror : s.ring.error = true → r.error = true) (hdone : s.ring.done = true → r.done = true)
    (hraised : r.done = true → s.ring.done = true ∨ r.error = true)
    (hnoConsumer : m.pc.stage ≤ 3 → s.main.pc.stage ≤ 3)
    (hnoProducer : m.pc.stage ≤ 6 → s.main.pc.stage ≤ 6)
    (hfailed : m.pc = .consumerDone ∨ m.pc = .producerDone → r.error = true)
    (hmissing : 4 ≤ m.pc.stage → m.pc.stage ≤ 11 → s.main.consumerCreated = false →
      m.pc = .producerError ∨ r.error = true)
    (hmissing' : 7 ≤ m.pc.stage → m.pc.stage ≤ 11 → s.main.producerCreated = false → r.error = true)
    (hjoined : 9 ≤ m.pc.stage → m.pc.stage ≤ 11 → r.error = true ∨ s.producer.pc = .exited)
    (hjoined' : m.pc = .loadError → r.error = true ∨ s.consumer.pc = .exited)
    (hreturned : m.pc = .returned 0 → total = 0 ∨ (r.error = false ∧ s.consumer.error = false ∧
      s.producer.pc = .exited ∧ s.consumer.pc = .exited ∧ m.digest = s.consumer.digest)) :
    Status evp total { s with ring := r, main := m } where
  noConsumer := fun hs => hconsumer.trans (h.noConsumer (hnoConsumer hs))
  consumerIdle := fun hc => h.consumerIdle (hconsumer.symm.trans hc)
  noProducer := fun hs => hproducer.trans (h.noProducer (hnoProducer hs))
  producerIdle := fun hc => h.producerIdle (hproducer.symm.trans hc)
  createFailed := hfailed
  consumerMissing := fun h4 h11 hc => hmissing h4 h11 (hconsumer.symm.trans hc)
  producerMissing := fun h7 h11 hc => hmissing' h7 h11 (hproducer.symm.trans hc)
  complete := h.complete
  readFailed := fun hp => herror (h.readFailed hp)
  producerExit := fun hp => (h.producerExit hp).imp_left herror
  updateFailed := fun hc => herror (h.updateFailed hc)
  updateError := h.updateError
  doneMeans := fun hd => by
    rcases hraised hd with hs | hr
    · exact (h.doneMeans hs).imp_left herror
    · exact Or.inl hr
  finishing := fun hc => hdone (h.finishing hc)
  consumerExit := fun hc => by
    rcases h.consumerExit hc with he | he | ⟨hd, hg⟩
    · exact Or.inl he
    · exact Or.inr (Or.inl (herror he))
    · exact Or.inr (Or.inr ⟨hdone hd, hg⟩)
  producerJoined := hjoined
  consumerJoined := hjoined'
  returned := hreturned

theorem Status.mainThread (h : Status evp total s) {ok : Bool} {t : State evp}
    (hstep : mainStep evp total s ok = some t) : Status evp total t := by
  cases hpc : s.main.pc with
  | returned code => simp [mainStep, hpc] at hstep
  | start =>
      have hc := h.noConsumer (by rw [hpc]; decide)
      simp only [mainStep, hpc] at hstep
      split at hstep <;> split at hstep <;> cases hstep <;> apply h.of_main <;>
        simp +contextual [MainPc.stage, *]
  | createConsumer =>
      have hp := h.noProducer (by rw [hpc]; decide)
      have hc := h.consumerIdle (h.noConsumer (by rw [hpc]; decide))
      simp only [mainStep, hpc] at hstep
      split at hstep
      · cases hstep
        exact { h with
          noConsumer := by simp [MainPc.stage]
          consumerIdle := by simp
          noProducer := fun _ => hp
          createFailed := by simp
          consumerMissing := by simp [MainPc.stage]
          producerMissing := by simp [MainPc.stage]
          updateFailed := by simp
          updateError := by simp
          finishing := by simp
          consumerExit := by simp
          producerJoined := by simp [MainPc.stage]
          consumerJoined := by simp
          returned := by simp }
      · cases hstep
        apply h.of_main <;> simp +contextual [hpc, MainPc.stage]
  | createProducer =>
      have hp := h.producerIdle (h.noProducer (by rw [hpc]; decide))
      have hmissing := h.consumerMissing (by rw [hpc]; decide) (by rw [hpc]; decide)
      have hloop := producerLoop_eq total 0
      simp only [mainStep, hpc] at hstep
      split at hstep
      · cases hstep
        refine { h with
          noConsumer := by simp [MainPc.stage]
          noProducer := by simp [MainPc.stage]
          producerIdle := by simp
          createFailed := by simp
          consumerMissing := fun _ _ hc => ?_
          producerMissing := by simp [MainPc.stage]
          complete := ?_
          readFailed := ?_
          producerExit := ?_
          producerJoined := by simp [MainPc.stage]
          consumerJoined := by simp
          returned := by simp }
        · have he := hmissing hc
          rw [hpc] at he
          exact he.imp_left nofun
        · intro hdone
          rcases hloop with ⟨_, e⟩ | ⟨hle, _⟩
          · rw [e] at hdone
            cases hdone
          · exact hle.trans (Nat.zero_le _)
        all_goals rcases hloop with ⟨_, e⟩ | ⟨_, e⟩ <;> simp [e]
      · cases hstep
        apply h.of_main <;> simp +contextual [hpc, MainPc.stage]
  | consumerError | producerError =>
      simp only [mainStep, hpc, Option.some.injEq] at hstep
      subst hstep
      apply h.of_main <;> simp +contextual [hpc, MainPc.stage]
  | consumerDone | producerDone =>
      have hfailed := h.createFailed (by simp [hpc])
      simp only [mainStep, hpc, Option.some.injEq] at hstep
      subst hstep
      apply h.of_main <;> simp [hpc, hfailed, MainPc.stage]
  | producerJoinError | consumerJoinError =>
      simp only [mainStep, hpc, Option.some.injEq] at hstep
      subst hstep
      apply h.of_main <;> simp +contextual [hpc, MainPc.stage]
  | joinProducer | joinConsumer =>
      have hmissing : s.main.consumerCreated = false → s.ring.error = true := fun hc =>
        (h.consumerMissing (by rw [hpc]; decide) (by rw [hpc]; decide) hc).resolve_left (by rw [hpc]; decide)
      have hmissing' := h.producerMissing (by rw [hpc]; decide) (by rw [hpc]; decide)
      have hjoined := h.producerJoined
      simp only [hpc, MainPc.stage] at hjoined
      simp only [mainStep, hpc] at hstep
      split at hstep
      · split at hstep
        · split at hstep
          · cases hstep
            apply h.of_main <;> simp +contextual [MainPc.stage, *]
          · cases hstep
        · cases hstep
          apply h.of_main <;> simp +contextual [MainPc.stage, *]
      · cases hstep
        apply h.of_main <;> simp_all [MainPc.stage]
  | loadError =>
      have hjoined := h.producerJoined (by rw [hpc]; decide) (by rw [hpc]; decide)
      have hjoined' := h.consumerJoined hpc
      simp only [mainStep, hpc] at hstep
      split at hstep <;> cases hstep <;> apply h.of_main <;> simp_all [MainPc.stage]

theorem Window.mainThread (h : Window evp dev total k s) (hs : Status evp total s) {ok : Bool} {t : State evp}
    (hstep : mainStep evp total s ok = some t) : Window evp dev total k t := by
  cases hpc : s.main.pc with
  | returned code => simp [mainStep, hpc] at hstep
  | start | loadError =>
      simp only [mainStep, hpc] at hstep
      repeat' split at hstep
      all_goals cases hstep; exact { h with }
  | createConsumer =>
      have hc := hs.consumerIdle (hs.noConsumer (by rw [hpc]; decide))
      have hlag := h.lag
      rw [hc] at hlag
      simp only [mainStep, hpc] at hstep
      split at hstep <;> cases hstep
      · exact { h with
          lag := hlag, staleTail := by simp, available := by simp, fresh := fun _ => h.fresh (Or.inl hc) }
      · exact { h with }
  | createProducer =>
      have hp := hs.producerIdle (hs.noProducer (by rw [hpc]; decide))
      have hzero := h.unstarted hp
      have hloop := producerLoop_eq total 0
      simp only [mainStep, hpc] at hstep
      split at hstep <;> cases hstep
      · refine { h with
          loaded := ?_, room := ?_, more := ?_, filled := ?_, sized := ?_, unstarted := fun _ => hzero }
        all_goals rcases hloop with ⟨_, e⟩ | ⟨_, e⟩ <;> simp_all [ProducerPc.owning, ProducerPc.working]
      · exact { h with }
  | consumerError | consumerDone | producerError | producerDone | producerJoinError | consumerJoinError =>
      simp only [mainStep, hpc, Option.some.injEq] at hstep
      subst hstep
      exact { h with }
  | joinProducer | joinConsumer =>
      simp only [mainStep, hpc] at hstep
      repeat' split at hstep
      all_goals cases hstep
      all_goals exact { h with }

def Safe (evp : Evp) (dev : Bytes) (total : Nat) (s : State evp) : Prop :=
  Status evp total s ∧ ∃ k, Window evp dev total k s

theorem Safe.step (h : Safe evp dev total s) {a : Action} {t : State evp}
    (hstep : step evp dev total s a = some t) : Safe evp dev total t := by
  obtain ⟨hs, k, hk⟩ := h
  cases a with
  | main ok => exact ⟨hs.mainThread hstep, k, hk.mainThread hs hstep⟩
  | producer count =>
      simp only [HashRing.step, Option.map_eq_some_iff] at hstep
      obtain ⟨⟨r, p⟩, hp, rfl⟩ := hstep
      exact ⟨hs.producer hp, hk.producer hp⟩
  | consumer ok =>
      simp only [HashRing.step, Option.map_eq_some_iff] at hstep
      obtain ⟨⟨r, c⟩, hc, rfl⟩ := hstep
      exact ⟨hs.consumer hc, hk.consumer hc⟩

theorem safe_initial (evp : Evp) (dev : Bytes) (total : Nat) (digest : Bytes) :
    Safe evp dev total (initial evp digest) := by
  refine ⟨?_, ⟨0, 0, 0, 0⟩, ?_⟩
  · constructor <;> simp [initial, MainPc.stage]
  · constructor <;> simp [initial, ConsumerPc.lag, ProducerPc.owning, ProducerPc.working]

/-- Every reachable state of hash_sha256_fd is safe, for every outcome of
every call and every interleaving. -/
theorem safe_run {digest : Bytes} {as : List Action}
    (hrun : Transition.run (step evp dev total) (initial evp digest) as = some s) : Safe evp dev total s :=
  Transition.run_invariant (safe_initial evp dev total digest) (fun _ _ _ hu hv => hu.step hv) hrun

end SuperRaid.HashRing
