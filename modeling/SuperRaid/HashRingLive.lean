import SuperRaid.HashRingStatus

namespace SuperRaid.HashRing

open Image Transition

variable {evp : Evp} {dev : Bytes} {total : Nat} {k : Counts} {s : State evp}

/-- The joins succeed, and if the digest context of the consumer cannot be set up, the ring holds the whole input. -/
def Admitted (total : Nat) (s : State evp) : Action → Prop
  | .main ok => s.main.pc = .joinProducer ∨ s.main.pc = .joinConsumer → ok = true
  | .consumer ok => s.consumer.pc = .init → ok = true ∨ total ≤ ringSlots * chunkSize
  | .producer _ => True

/-- Whoever returns has left the flags so that the other thread returns too. -/
structure Alive (evp : Evp) (total : Nat) (s : State evp) : Prop where
  blame : s.ring.error = true → s.producer.pc.working = true →
    s.consumer.pc = .storeErrorDone ∨ s.consumer.pc = .exited
  early : s.ring.error = true → s.main.pc.stage ≤ 1 ∨ s.main.pc = .createProducer →
    s.consumer.pc = .storeErrorDone ∨ s.consumer.pc = .exited
  producerExit : s.producer.pc = .exited →
    s.ring.done = true ∨ s.consumer.pc = .storeErrorDone ∨ s.consumer.pc = .exited
  consumerExit : s.consumer.pc = .exited →
    s.ring.error = true ∨ s.ring.done = true ∨ total ≤ ringSlots * chunkSize
  missing : s.main.consumerCreated = true → 7 ≤ s.main.pc.stage → s.main.producerCreated = false →
    s.ring.done = true
  consumerCreated : s.main.consumerCreated = true → s.consumer.pc ≠ .idle
  producerCreated : s.main.producerCreated = true → s.producer.pc ≠ .idle
  producerJoined : 8 ≤ s.main.pc.stage → s.main.producerCreated = true → s.producer.pc = .exited
  consumerJoined : 10 ≤ s.main.pc.stage → s.main.consumerCreated = true → s.consumer.pc = .exited
  joining : s.main.pc ≠ .producerJoinError ∧ s.main.pc ≠ .consumerJoinError

theorem Alive.of_producer (h : Alive evp total s) (hexited : s.producer.pc ≠ .exited) (hstage : 7 ≤ s.main.pc.stage)
    {r : Ring} {p : Producer} (hidle : p.pc ≠ .idle) (hdone : s.ring.done = true → r.done = true)
    (hraised : s.ring.error = true → r.error = true)
    (herror : r.error = true → p.pc.working = true → s.ring.error = true ∧ s.producer.pc.working = true)
    (hexit : p.pc = .exited → r.done = true ∨ s.ring.error = true ∧ s.producer.pc.working = true) :
    Alive evp total { s with ring := r, producer := p } where
  blame he hw := h.blame (herror he hw).1 (herror he hw).2
  early _ hm := by
    rcases hm with hle | hcreate
    · have hle : s.main.pc.stage ≤ 1 := hle
      omega
    · rw [show s.main.pc = .createProducer from hcreate] at hstage
      exact absurd hstage (by decide)
  producerExit hp := by
    rcases hexit hp with hd | ⟨he, hw⟩
    · exact .inl hd
    · exact .inr (h.blame he hw)
  consumerExit hc := (h.consumerExit hc).imp hraised (Or.imp_left hdone)
  missing hc h7 hp := hdone (h.missing hc h7 hp)
  consumerCreated := h.consumerCreated
  producerCreated _ := hidle
  producerJoined h8 hp := absurd (h.producerJoined h8 hp) hexited
  consumerJoined := h.consumerJoined
  joining := h.joining

theorem Status.created_of_running (hs : Status evp total s) (hidle : s.producer.pc ≠ .idle) :
    7 ≤ s.main.pc.stage := by
  by_contra hlow
  exact hidle (hs.producerIdle (hs.noProducer (by omega)))

theorem Alive.producer (h : Alive evp total s) (hs : Status evp total s) {count : Option Nat} {r : Ring} {p : Producer}
    (hstep : producerStep dev total s.ring s.producer count = some (r, p)) :
    Alive evp total { s with ring := r, producer := p } := by
  have hidle : s.producer.pc ≠ .idle := fun hpc => by simp [producerStep, hpc] at hstep
  have hstage := hs.created_of_running hidle
  cases hpc : s.producer.pc with
  | idle | exited => simp [producerStep, hpc] at hstep
  | loadHead | setLen | storeError | storeErrorDone | storeDone =>
      simp only [producerStep, hpc, Option.some.injEq, Prod.mk.injEq] at hstep
      obtain ⟨rfl, rfl⟩ := hstep
      apply h.of_producer <;> simp [hstage, hpc, ProducerPc.working]
  | loadError =>
      simp only [producerStep, hpc] at hstep
      split at hstep
      · rename_i he
        cases hstep
        apply h.of_producer <;> simp [hstage, hpc, he, ProducerPc.working]
      · split at hstep <;> cases hstep <;> apply h.of_producer <;> simp [hstage, hpc, ProducerPc.working]
  | read =>
      simp only [producerStep, hpc] at hstep
      cases count with
      | none => cases hstep; apply h.of_producer <;> simp [hstage, hpc, ProducerPc.working]
      | some n =>
          dsimp only at hstep
          split at hstep
          · split at hstep <;> cases hstep <;> apply h.of_producer <;> simp [hstage, hpc, ProducerPc.working]
          · cases hstep
  | storeTail =>
      simp only [producerStep, hpc, Option.some.injEq, Prod.mk.injEq] at hstep
      obtain ⟨rfl, rfl⟩ := hstep
      have hloop := producerLoop_eq total (s.producer.offset + want total s.producer.offset)
      apply h.of_producer <;> rcases hloop with ⟨-, e⟩ | ⟨-, e⟩ <;> simp [hstage, hpc, e, ProducerPc.working]

theorem Alive.of_consumer (h : Alive evp total s) (hexited : s.consumer.pc ≠ .exited) {r : Ring}
    {c : Consumer evp.Ctx} (hidle : c.pc ≠ .idle) (hdone : s.ring.done = true → r.done = true)
    (herror : r.error = true → s.ring.error = true ∨ c.pc = .storeErrorDone)
    (hleave : s.consumer.pc = .storeErrorDone → c.pc = .exited)
    (hexit : c.pc = .exited → r.error = true ∨ r.done = true ∨ total ≤ ringSlots * chunkSize) :
    Alive evp total { s with ring := r, consumer := c } where
  blame he hw := by
    rcases herror he with hs | hc
    · exact .inr (hleave ((h.blame hs hw).resolve_right hexited))
    · exact .inl hc
  early he hm := by
    rcases herror he with hs | hc
    · exact .inr (hleave ((h.early hs hm).resolve_right hexited))
    · exact .inl hc
  producerExit hp := by
    rcases h.producerExit hp with hd | hc | hc
    · exact .inl (hdone hd)
    · exact .inr (.inr (hleave hc))
    · exact absurd hc hexited
  consumerExit := hexit
  missing hc h7 hp := hdone (h.missing hc h7 hp)
  consumerCreated _ := hidle
  producerCreated := h.producerCreated
  producerJoined := h.producerJoined
  consumerJoined h10 hc := absurd (h.consumerJoined h10 hc) hexited
  joining := h.joining

theorem Alive.consumer (h : Alive evp total s) (hs : Status evp total s) {ok : Bool}
    (hok : Admitted total s (.consumer ok)) {r : Ring} {c : Consumer evp.Ctx}
    (hstep : consumerStep evp s.ring s.consumer ok = some (r, c)) :
    Alive evp total { s with ring := r, consumer := c } := by
  cases hpc : s.consumer.pc with
  | idle | exited => simp [consumerStep, hpc] at hstep
  | init =>
      have hsmall := hok hpc
      simp only [consumerStep, hpc] at hstep
      split at hstep <;> cases hstep <;> apply h.of_consumer <;> simp_all
  | update =>
      simp only [consumerStep, hpc] at hstep
      split at hstep <;> cases hstep <;> apply h.of_consumer <;> simp [hpc]
  | storeHead | storeError | storeErrorDone =>
      have hfailed := hs.updateFailed
      simp only [consumerStep, hpc, Option.some.injEq, Prod.mk.injEq] at hstep
      obtain ⟨rfl, rfl⟩ := hstep
      apply h.of_consumer <;> simp_all
  | loadTail | loadDone =>
      simp only [consumerStep, hpc, Option.some.injEq, Prod.mk.injEq] at hstep
      obtain ⟨rfl, rfl⟩ := hstep
      apply h.of_consumer <;> simp [hpc] <;> split <;> simp_all
  | loadError | final =>
      have hdone : s.ring.done = true := hs.finishing (by simp [hpc])
      simp only [consumerStep, hpc] at hstep
      split at hstep <;> cases hstep <;> apply h.of_consumer <;> simp [hpc, hdone]

theorem Alive.of_main (h : Alive evp total s) {r : Ring} {m : Main}
    (hconsumer : m.consumerCreated = s.main.consumerCreated) (hproducer : m.producerCreated = s.main.producerCreated)
    (hdone : s.ring.done = true → r.done = true) (hraised : s.ring.error = true → r.error = true)
    (herror : r.error = true → s.producer.pc.working = true → s.ring.error = true)
    (hearly : r.error = true → m.pc.stage ≤ 1 ∨ m.pc = .createProducer →
      s.consumer.pc = .storeErrorDone ∨ s.consumer.pc = .exited)
    (hmissing : s.main.consumerCreated = true → 7 ≤ m.pc.stage → s.main.producerCreated = false → r.done = true)
    (hjoined : 8 ≤ m.pc.stage → s.main.producerCreated = true → s.producer.pc = .exited)
    (hjoined' : 10 ≤ m.pc.stage → s.main.consumerCreated = true → s.consumer.pc = .exited)
    (hjoining : m.pc ≠ .producerJoinError ∧ m.pc ≠ .consumerJoinError) :
    Alive evp total { s with ring := r, main := m } where
  blame he hw := h.blame (herror he hw) hw
  early := hearly
  producerExit hp := (h.producerExit hp).imp_left hdone
  consumerExit hc := (h.consumerExit hc).imp hraised (Or.imp_left hdone)
  missing hc h7 hp := hmissing (hconsumer ▸ hc) h7 (hproducer ▸ hp)
  consumerCreated hc := h.consumerCreated (hconsumer ▸ hc)
  producerCreated hp := h.producerCreated (hproducer ▸ hp)
  producerJoined h8 hp := hjoined h8 (hproducer ▸ hp)
  consumerJoined h10 hc := hjoined' h10 (hconsumer ▸ hc)
  joining := hjoining

theorem Alive.mainThread (h : Alive evp total s) (hs : Status evp total s) {ok : Bool}
    (hok : Admitted total s (.main ok)) {t : State evp} (hstep : mainStep evp total s ok = some t) :
    Alive evp total t := by
  have hearly := h.early
  cases hpc : s.main.pc with
  | returned code => simp [mainStep, hpc] at hstep
  | producerJoinError => exact absurd hpc h.joining.1
  | consumerJoinError => exact absurd hpc h.joining.2
  | start =>
      have hc := hs.noConsumer (by rw [hpc]; decide)
      have hp := hs.noProducer (by rw [hpc]; decide)
      simp only [hpc] at hearly
      simp only [mainStep, hpc] at hstep
      split at hstep <;> split at hstep <;> cases hstep <;> apply h.of_main <;> simp_all [MainPc.stage]
  | createConsumer =>
      have hp := hs.noProducer (by rw [hpc]; decide)
      have hidle := hs.producerIdle hp
      have hidle' := hs.consumerIdle (hs.noConsumer (by rw [hpc]; decide))
      have hclean : s.ring.error ≠ true := fun he => by
        simpa [hidle'] using h.early he (by rw [hpc]; decide)
      simp only [mainStep, hpc] at hstep
      split at hstep
      · cases hstep
        exact { h with
          blame := fun he _ => absurd he hclean
          early := fun he _ => absurd he hclean
          producerExit := fun he => by simp [hidle] at he
          consumerExit := by simp
          missing := by simp [MainPc.stage]
          consumerCreated := by simp
          producerJoined := by simp [MainPc.stage]
          consumerJoined := by simp [MainPc.stage]
          joining := by simp }
      · cases hstep
        apply h.of_main <;> simp [hclean, MainPc.stage]
  | createProducer =>
      have hloop := producerLoop_eq total 0
      simp only [mainStep, hpc] at hstep
      split at hstep
      · cases hstep
        refine { h with
          blame := fun he _ => h.early he (.inr hpc)
          early := by simp [MainPc.stage]
          producerExit := ?_
          missing := by simp [MainPc.stage]
          producerCreated := ?_
          producerJoined := by simp [MainPc.stage]
          consumerJoined := by simp [MainPc.stage]
          joining := by simp }
        all_goals rcases hloop with ⟨-, e⟩ | ⟨-, e⟩ <;> simp [e]
      · cases hstep
        apply h.of_main <;> simp +contextual [MainPc.stage]
  | consumerError | consumerDone | producerError | producerDone =>
      have hidle := hs.producerIdle (hs.noProducer (by rw [hpc]; decide))
      simp only [mainStep, hpc, Option.some.injEq] at hstep
      subst hstep
      apply h.of_main <;> simp [hidle, ProducerPc.working, MainPc.stage]
  | joinProducer | joinConsumer =>
      have htrue := hok (by simp [hpc])
      have hmissing := h.missing
      have hjoined := h.producerJoined
      simp only [mainStep, hpc] at hstep
      subst htrue
      split at hstep
      · simp only [if_true] at hstep
        split at hstep
        · cases hstep
          apply h.of_main <;> simp_all [MainPc.stage]
        · cases hstep
      · cases hstep
        apply h.of_main <;> simp_all [MainPc.stage]
  | loadError =>
      have hmissing := h.missing
      have hjoined := h.producerJoined
      have hjoined' := h.consumerJoined
      simp only [mainStep, hpc] at hstep
      split at hstep <;> cases hstep <;> apply h.of_main <;> simp_all [MainPc.stage]

def Ready (evp : Evp) (dev : Bytes) (total : Nat) (s : State evp) : Prop :=
  Safe evp dev total s ∧ Alive evp total s

theorem Ready.step (h : Ready evp dev total s) {a : Action} (hok : Admitted total s a) {t : State evp}
    (hstep : step evp dev total s a = some t) : Ready evp dev total t := by
  refine ⟨h.1.step hstep, ?_⟩
  cases a with
  | main ok => exact h.2.mainThread h.1.1 hok hstep
  | producer count =>
      obtain ⟨⟨r, p⟩, hp, rfl⟩ := Option.map_eq_some_iff.mp hstep
      exact h.2.producer h.1.1 hp
  | consumer ok =>
      obtain ⟨⟨r, c⟩, hc, rfl⟩ := Option.map_eq_some_iff.mp hstep
      exact h.2.consumer h.1.1 hok hc

theorem ready_initial (evp : Evp) (dev : Bytes) (total : Nat) (digest : Bytes) :
    Ready evp dev total (initial evp digest) := by
  refine ⟨safe_initial evp dev total digest, ?_⟩
  constructor <;> simp [initial, MainPc.stage]

end SuperRaid.HashRing
