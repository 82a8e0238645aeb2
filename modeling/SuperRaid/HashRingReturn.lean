import SuperRaid.HashRingDigest
import SuperRaid.HashRingLive

namespace SuperRaid.HashRing

open Image Transition

variable {evp : Evp} {dev : Bytes} {total : Nat} {k : Counts} {s : State evp}

inductive Thread
  | main | producer | consumer

structure Outcomes (evp : Evp) where
  main : State evp → Bool
  producer : State evp → Option Nat
  consumer : State evp → Bool

def Outcomes.act (o : Outcomes evp) (s : State evp) : Thread → Action
  | .main => .main (o.main s)
  | .producer => .producer (o.producer s)
  | .consumer => .consumer (o.consumer s)

/-- A read returns no more than it is asked for and than there is. -/
structure Outcomes.Possible (o : Outcomes evp) (dev : Bytes) (total : Nat) : Prop where
  admitted : ∀ s t, Admitted total s (o.act s t)
  read : ∀ s n, o.producer s = some n →
    n ≤ alignedWant total s.producer.offset ∧ n ≤ dev.length - s.producer.offset

def stepWith (o : Outcomes evp) (dev : Bytes) (total : Nat) (s : State evp) (t : Thread) : Option (State evp) :=
  step evp dev total s (o.act s t)

/-- hash_sha256_fd has returned, and so has every thread it has created. -/
def Returned (s : State evp) : Prop :=
  s.main.pc.stage = 12 ∧ (s.main.consumerCreated = true → s.consumer.pc = .exited) ∧
    (s.main.producerCreated = true → s.producer.pc = .exited)

def ProducerPc.rest : ProducerPc → Nat
  | .loadHead => 9
  | .loadError => 8
  | .read => 7
  | .setLen => 6
  | .storeTail => 5
  | .storeError => 2
  | .storeErrorDone | .storeDone => 1
  | .idle | .exited => 0

def ConsumerPc.rest : ConsumerPc → Nat
  | .init | .storeHead => 10
  | .loadTail => 9
  | .loadDone => 8
  | .update => 7
  | .storeError | .loadError => 2
  | .storeErrorDone | .final => 1
  | .idle | .exited => 0

/-- What is left to do. Only the spinning steps of the two threads do not lower it. -/
def remaining (total : Nat) (s : State evp) : Nat :=
  20 * (12 - s.main.pc.stage) + 20 * (total - s.producer.offset) + 20 * (total - s.consumer.fed.length) +
    s.producer.pc.rest + s.consumer.pc.rest

theorem published_le_total (h : Window evp dev total k s) : k.published ≤ total := by
  rcases h.counted with hzero | hlt
  · omega
  · have hpos : 0 < chunkSize := by decide
    have := Nat.le_mul_of_pos_right (k.published - 1) hpos
    omega

def Leads (o : Outcomes evp) (dev : Bytes) (total : Nat) (s t : State evp) : Prop :=
  ∃ ts, run (stepWith o dev total) s ts = some t

def CanAdvance (o : Outcomes evp) (dev : Bytes) (total : Nat) (s : State evp) : Prop :=
  ∃ t, Leads o dev total s t ∧ remaining total t < remaining total s

theorem Leads.refl (o : Outcomes evp) (s : State evp) : Leads o dev total s s := ⟨[], rfl⟩

theorem Leads.head {o : Outcomes evp} {t : Thread} {u v : State evp} (hstep : stepWith o dev total s t = some u)
    (h : Leads o dev total u v) : Leads o dev total s v := by
  obtain ⟨ts, hrun⟩ := h
  exact ⟨t :: ts, by rw [run, hstep]; exact hrun⟩

structure ProducerBlocked (s : State evp) : Prop where
  pc : s.producer.pc = .loadError
  error : s.ring.error = false
  full : ¬ s.producer.tail - s.ring.head < 8

structure ConsumerBlocked (s : State evp) : Prop where
  pc : s.consumer.pc = .loadDone
  done : s.ring.done = false
  empty : ¬ s.consumer.head < s.ring.tail

section Producer

variable {o : Outcomes evp}

theorem Leads.producer {r : Ring} {p : Producer} {v : State evp}
    (hstep : producerStep dev total s.ring s.producer (o.producer s) = some (r, p))
    (h : Leads o dev total { s with ring := r, producer := p } v) : Leads o dev total s v :=
  h.head (t := .producer) (by simp [stepWith, Outcomes.act, step, hstep])

theorem remaining_producer {r : Ring} {p : Producer}
    (h : 20 * (total - p.offset) + p.pc.rest < 20 * (total - s.producer.offset) + s.producer.pc.rest) :
    remaining total { s with ring := r, producer := p } < remaining total s := by
  simp only [remaining]
  omega

theorem canAdvance_producer {r : Ring} {p : Producer}
    (hstep : producerStep dev total s.ring s.producer (o.producer s) = some (r, p))
    (h : 20 * (total - p.offset) + p.pc.rest < 20 * (total - s.producer.offset) + s.producer.pc.rest) :
    CanAdvance o dev total s :=
  ⟨_, Leads.producer hstep (Leads.refl o _), remaining_producer h⟩

theorem producer_advances (hs : Ready evp dev total s) (ho : o.Possible dev total) (hidle : s.producer.pc ≠ .idle)
    (hexited : s.producer.pc ≠ .exited) : CanAdvance o dev total s ∨ ProducerBlocked s := by
  cases hpc : s.producer.pc with
  | idle => exact absurd hpc hidle
  | exited => exact absurd hpc hexited
  | loadHead | setLen | storeError | storeErrorDone | storeDone =>
      refine .inl (canAdvance_producer (by simp only [producerStep, hpc]; rfl) ?_)
      simp [hpc, ProducerPc.rest]
  | storeTail =>
      obtain ⟨k, hk⟩ := hs.1.2
      have hoffset := hk.offset_eq (by rw [hpc]; rfl)
      have hmore := hk.more (by rw [hpc]; rfl)
      have hwant : 0 < want total s.producer.offset := want_pos (hoffset ▸ hmore)
      refine .inl (canAdvance_producer (by simp only [producerStep, hpc]; rfl) ?_)
      rcases producerLoop_eq total (s.producer.offset + want total s.producer.offset) with ⟨-, e⟩ | ⟨-, e⟩ <;>
        simp only [hpc, e, ProducerPc.rest] <;> omega
  | read =>
      cases hcount : o.producer s with
      | none =>
          refine .inl (canAdvance_producer (by simp only [producerStep, hpc, hcount]; rfl) ?_)
          simp [hpc, ProducerPc.rest]
      | some n =>
          have hn := ho.read s n hcount
          by_cases hshort : n = 0 ∨ n < want total s.producer.offset
          · refine .inl (canAdvance_producer
              (by simp only [producerStep, hpc, hcount, if_pos hn, if_pos hshort]; rfl) ?_)
            simp [hpc, ProducerPc.rest]
          · refine .inl (canAdvance_producer
              (by simp only [producerStep, hpc, hcount, if_pos hn, if_neg hshort]; rfl) ?_)
            simp [hpc, ProducerPc.rest]
  | loadError =>
      by_cases herror : s.ring.error = true
      · refine .inl (canAdvance_producer (by simp only [producerStep, hpc, if_pos herror]; rfl) ?_)
        simp [hpc, ProducerPc.rest]
      · by_cases hview : s.producer.tail - s.producer.head < 8
        · refine .inl (canAdvance_producer (by simp only [producerStep, hpc, if_neg herror, if_pos hview]; rfl) ?_)
          simp [hpc, ProducerPc.rest]
        · by_cases hroom : s.producer.tail - s.ring.head < 8
          · -- the view is stale: once around the wait loop
            refine .inl ⟨{ s with producer := { s.producer with head := s.ring.head, pc := .read } }, ?_,
              remaining_producer (by simp [hpc, ProducerPc.rest])⟩
            apply Leads.producer (by simp only [producerStep, hpc, if_neg herror, if_neg hview]; rfl)
            apply Leads.producer rfl
            apply Leads.producer (by simp only [producerStep, if_neg herror, if_pos hroom]; rfl)
            exact Leads.refl o _
          · exact .inr ⟨hpc, by simpa using herror, hroom⟩

end Producer

section Consumer

variable {o : Outcomes evp}

theorem Leads.consumer {r : Ring} {c : Consumer evp.Ctx} {v : State evp}
    (hstep : consumerStep evp s.ring s.consumer (o.consumer s) = some (r, c))
    (h : Leads o dev total { s with ring := r, consumer := c } v) : Leads o dev total s v :=
  h.head (t := .consumer) (by simp [stepWith, Outcomes.act, step, hstep])

theorem remaining_consumer {r : Ring} {c : Consumer evp.Ctx}
    (h : 20 * (total - c.fed.length) + c.pc.rest < 20 * (total - s.consumer.fed.length) + s.consumer.pc.rest) :
    remaining total { s with ring := r, consumer := c } < remaining total s := by
  simp only [remaining]
  omega

theorem canAdvance_consumer {r : Ring} {c : Consumer evp.Ctx}
    (hstep : consumerStep evp s.ring s.consumer (o.consumer s) = some (r, c))
    (h : 20 * (total - c.fed.length) + c.pc.rest < 20 * (total - s.consumer.fed.length) + s.consumer.pc.rest) :
    CanAdvance o dev total s :=
  ⟨_, Leads.consumer hstep (Leads.refl o _), remaining_consumer h⟩

theorem consumer_advances (hs : Ready evp dev total s) (hidle : s.consumer.pc ≠ .idle)
    (hexited : s.consumer.pc ≠ .exited) : CanAdvance o dev total s ∨ ConsumerBlocked s := by
  cases hpc : s.consumer.pc with
  | idle => exact absurd hpc hidle
  | exited => exact absurd hpc hexited
  | storeHead | storeError | storeErrorDone =>
      refine .inl (canAdvance_consumer (by simp only [consumerStep, hpc]; rfl) ?_)
      simp [hpc, ConsumerPc.rest]
  | init | final =>
      cases hok : o.consumer s with
      | true =>
          refine .inl (canAdvance_consumer (by simp only [consumerStep, hpc, hok, if_true]; rfl) ?_)
          simp [hpc, ConsumerPc.rest]
      | false =>
          refine .inl (canAdvance_consumer (by simp only [consumerStep, hpc, hok]; rfl) ?_)
          simp [hpc, ConsumerPc.rest]
  | update =>
      obtain ⟨k, hk⟩ := hs.1.2
      have hfed := hk.available hpc
      have hpublished := published_le_total hk
      cases hok : o.consumer s with
      | true =>
          refine .inl (canAdvance_consumer (by simp only [consumerStep, hpc, hok, if_true]; rfl) ?_)
          simp only [hpc, ConsumerPc.rest, List.length_append, List.length_singleton]
          omega
      | false =>
          refine .inl (canAdvance_consumer (by simp only [consumerStep, hpc, hok]; rfl) ?_)
          simp [hpc, ConsumerPc.rest]
  | loadError =>
      refine .inl (canAdvance_consumer (by simp only [consumerStep, hpc]; rfl) ?_)
      simp only [hpc]
      split <;> simp [ConsumerPc.rest]
  | loadTail =>
      refine .inl (canAdvance_consumer (by simp only [consumerStep, hpc]; rfl) ?_)
      simp only [hpc]
      split <;> simp [ConsumerPc.rest]
  | loadDone =>
      by_cases hleave : s.ring.done = true ∧ s.consumer.tail ≤ s.consumer.head
      · refine .inl (canAdvance_consumer (by simp only [consumerStep, hpc, if_pos hleave]; rfl) ?_)
        simp [hpc, ConsumerPc.rest]
      · by_cases hnext : s.consumer.head < s.ring.tail
        · -- once around the wait loop, to the next chunk
          refine .inl ⟨{ s with consumer := { s.consumer with tail := s.ring.tail, pc := .update } }, ?_,
            remaining_consumer (by simp [hpc, ConsumerPc.rest])⟩
          apply Leads.consumer (by simp only [consumerStep, hpc, if_neg hleave]; rfl)
          apply Leads.consumer (by simp only [consumerStep, if_pos hnext]; rfl)
          exact Leads.refl o _
        · by_cases hdone : s.ring.done = true
          · -- or to the end of the input
            have hend : s.ring.done = true ∧ s.ring.tail ≤ s.consumer.head := ⟨hdone, BitVec.not_lt.mp hnext⟩
            refine .inl ⟨{ s with consumer := { s.consumer with tail := s.ring.tail, pc := .loadError } }, ?_,
              remaining_consumer (by simp [hpc, ConsumerPc.rest])⟩
            apply Leads.consumer (by simp only [consumerStep, hpc, if_neg hleave]; rfl)
            apply Leads.consumer (by simp only [consumerStep, if_neg hnext]; rfl)
            apply Leads.consumer (by simp only [consumerStep, if_pos hend]; rfl)
            exact Leads.refl o _
          · exact .inr ⟨hpc, by simpa using hdone, hnext⟩

end Consumer

section Main

variable {o : Outcomes evp}

theorem canAdvance_main {t : State evp} (hstep : mainStep evp total s (o.main s) = some t)
    (h : remaining total t < remaining total s) : CanAdvance o dev total s :=
  ⟨t, (Leads.refl o t).head (t := .main) hstep, h⟩

theorem main_advances (hs : Ready evp dev total s) (ho : o.Possible dev total) (hstage : s.main.pc.stage < 12)
    (hproducer : 7 ≤ s.main.pc.stage → s.main.producerCreated = true → s.producer.pc = .exited)
    (hconsumer : 7 ≤ s.main.pc.stage → s.main.consumerCreated = true → s.consumer.pc = .exited) :
    CanAdvance o dev total s := by
  cases hpc : s.main.pc with
  | returned code => simp [hpc, MainPc.stage] at hstage
  | producerJoinError => exact absurd hpc hs.2.joining.1
  | consumerJoinError => exact absurd hpc hs.2.joining.2
  | start =>
      by_cases hzero : total = 0
      · cases hok : o.main s <;>
          (refine canAdvance_main (by simp only [mainStep, hpc, if_pos hzero, hok]; rfl) ?_
           simp [remaining, hpc, MainPc.stage])
      · cases hok : o.main s <;>
          (refine canAdvance_main (by simp only [mainStep, hpc, if_neg hzero, hok]; rfl) ?_
           simp [remaining, hpc, MainPc.stage])
  | createConsumer =>
      cases hok : o.main s <;>
        (refine canAdvance_main (by simp only [mainStep, hpc, hok]; rfl) ?_
         simp only [remaining, hpc, MainPc.stage, ConsumerPc.rest]
         omega)
  | createProducer =>
      cases hok : o.main s with
      | false =>
          refine canAdvance_main (by simp only [mainStep, hpc, hok]; rfl) ?_
          simp only [remaining, hpc, MainPc.stage]
          omega
      | true =>
          refine canAdvance_main (by simp only [mainStep, hpc, hok]; rfl) ?_
          rcases producerLoop_eq total 0 with ⟨-, e⟩ | ⟨-, e⟩ <;>
            simp only [remaining, hpc, e, MainPc.stage, ProducerPc.rest] <;> omega
  | consumerError | consumerDone | producerError | producerDone =>
      refine canAdvance_main (by simp only [mainStep, hpc]; rfl) ?_
      simp only [remaining, hpc, MainPc.stage]
      omega
  | joinProducer =>
      have hok : o.main s = true := ho.admitted s .main (.inl hpc)
      have hexited := hproducer (by rw [hpc]; decide)
      by_cases hcreated : s.main.producerCreated = true
      · refine canAdvance_main (by simp only [mainStep, hpc, hok, hcreated, hexited hcreated]; rfl) ?_
        simp only [remaining, hpc, MainPc.stage]
        omega
      · refine canAdvance_main (by simp only [mainStep, hpc, if_neg hcreated]; rfl) ?_
        simp only [remaining, hpc, MainPc.stage]
        omega
  | joinConsumer =>
      have hok : o.main s = true := ho.admitted s .main (.inr hpc)
      have hexited := hconsumer (by rw [hpc]; decide)
      by_cases hcreated : s.main.consumerCreated = true
      · refine canAdvance_main (by simp only [mainStep, hpc, hok, hcreated, hexited hcreated]; rfl) ?_
        simp only [remaining, hpc, MainPc.stage]
        omega
      · refine canAdvance_main (by simp only [mainStep, hpc, if_neg hcreated]; rfl) ?_
        simp only [remaining, hpc, MainPc.stage]
        omega
  | loadError =>
      by_cases herror : s.ring.error = true ∨ s.consumer.error = true
      · refine canAdvance_main (by simp only [mainStep, hpc, if_pos herror]; rfl) ?_
        simp only [remaining, hpc, MainPc.stage]
        omega
      · refine canAdvance_main (by simp only [mainStep, hpc, if_neg herror]; rfl) ?_
        simp only [remaining, hpc, MainPc.stage]
        omega

end Main

theorem Window.full_eq (h : Window evp dev total k s) (hfull : ¬ s.producer.tail - s.ring.head < 8) :
    k.published = k.ringHead + ringSlots := by
  have hle := h.full
  have hlag := h.lag
  have hconsumed := h.consumed
  by_contra hne
  apply hfull
  rw [h.producerTail, h.ringHead]
  show (BitVec.ofNat 32 k.published - BitVec.ofNat 32 k.ringHead).toNat < 8
  simp only [BitVec.toNat_sub, BitVec.toNat_ofNat, ringSlots] at hle hne ⊢
  omega

namespace ProducerBlocked

theorem working (h : ProducerBlocked s) : s.producer.pc.working = true := by
  rw [h.pc]
  rfl

theorem consumer_created (h : ProducerBlocked s) (hs : Ready evp dev total s) : s.consumer.pc ≠ .idle := by
  intro hidle
  obtain ⟨⟨hstatus, -⟩, halive⟩ := hs
  have hrunning : s.producer.pc ≠ .idle := by simp [h.pc]
  have hstage := hstatus.created_of_running hrunning
  have hcreated : s.main.producerCreated = true := by
    by_contra hmissing
    exact hrunning (hstatus.producerIdle (by simpa using hmissing))
  have hjoining : s.main.pc.stage < 8 := by
    by_contra hlate
    have hexited := halive.producerJoined (by omega) hcreated
    rw [h.pc] at hexited
    cases hexited
  have hmissing : s.main.consumerCreated = false := by
    by_contra hcreated
    exact halive.consumerCreated (by simpa using hcreated) hidle
  rcases hstatus.consumerMissing (by omega) (by omega) hmissing with hpc | herror
  · rw [hpc] at hstage
    exact absurd hstage (by decide)
  · rw [h.error] at herror
    cases herror

/-- A consumer that has returned has stored an error, or the ring has room for the rest. -/
theorem consumer_running (h : ProducerBlocked s) (hs : Ready evp dev total s) : s.consumer.pc ≠ .exited := by
  intro hexited
  obtain ⟨⟨hstatus, k, hk⟩, halive⟩ := hs
  have hmore := hk.more h.working
  rcases halive.consumerExit hexited with herror | hdone | hsmall
  · rw [h.error] at herror
    cases herror
  · rcases hstatus.doneMeans hdone with herror | hall
    · rw [h.error] at herror
      cases herror
    · rw [hk.offset_eq h.working] at hall
      exact absurd hmore (Nat.not_lt.mpr hall)
  · have hfew : k.published < ringSlots := Nat.lt_of_mul_lt_mul_right (hmore.trans_le hsmall)
    have heq := hk.full_eq h.full
    omega

theorem consumer_sees (h : ProducerBlocked s) (hs : Ready evp dev total s) (hlen : total ≤ 2 ^ 32 * chunkSize) :
    ¬ ConsumerBlocked s := by
  intro hc
  obtain ⟨⟨-, k, hk⟩, -⟩ := hs
  have hpublished : k.published < 2 ^ 32 := Nat.lt_of_mul_lt_mul_right ((hk.more h.working).trans_le hlen)
  have heq := hk.full_eq h.full
  have hlag := hk.lag
  rw [hc.pc] at hlag
  simp only [ConsumerPc.lag, ringSlots] at hlag heq
  apply hc.empty
  rw [hk.consumerHead, hk.ringTail]
  show (BitVec.ofNat 32 s.consumer.fed.length).toNat < (BitVec.ofNat 32 k.published).toNat
  rw [BitVec.toNat_ofNat, BitVec.toNat_ofNat, Nat.mod_eq_of_lt hpublished, Nat.mod_eq_of_lt (by omega)]
  omega

end ProducerBlocked

/-- As long as the call has not returned, some thread is not blocked. -/
theorem ready_advances {o : Outcomes evp} (hs : Ready evp dev total s) (ho : o.Possible dev total)
    (hlen : total ≤ 2 ^ 32 * chunkSize) (hopen : ¬ Returned s) : CanAdvance o dev total s := by
  obtain ⟨⟨hstatus, -⟩, halive⟩ := id hs
  by_cases hproducer : s.producer.pc = .idle ∨ s.producer.pc = .exited
  · have hjoin : s.main.producerCreated = true → s.producer.pc = .exited := fun hcreated =>
      hproducer.resolve_left (halive.producerCreated hcreated)
    by_cases hconsumer : s.consumer.pc = .idle ∨ s.consumer.pc = .exited
    · have hjoin' : s.main.consumerCreated = true → s.consumer.pc = .exited := fun hcreated =>
        hconsumer.resolve_left (halive.consumerCreated hcreated)
      refine main_advances hs ho ?_ (fun _ => hjoin) (fun _ => hjoin')
      have hle : s.main.pc.stage ≤ 12 := by cases s.main.pc <;> simp [MainPc.stage]
      exact lt_of_le_of_ne hle (fun hend => hopen ⟨hend, hjoin', hjoin⟩)
    · push Not at hconsumer
      rcases consumer_advances hs hconsumer.1 hconsumer.2 with hadvance | hblocked
      · exact hadvance
      · -- the consumer waits for a producer that does not run: it is still to be created
        have hstage : s.main.pc.stage < 7 := by
          by_contra hlate
          have hcreated : s.main.consumerCreated = true := by
            by_contra hmissing
            exact hconsumer.1 (hstatus.consumerIdle (by simpa using hmissing))
          have hdone : s.ring.done = true := by
            rcases hproducer with hidle | hexited
            · exact halive.missing hcreated (by omega) (by
                by_contra hproducer
                exact halive.producerCreated (by simpa using hproducer) hidle)
            · rcases halive.producerExit hexited with hdone | hpc | hpc
              · exact hdone
              · rw [hblocked.pc] at hpc
                cases hpc
              · rw [hblocked.pc] at hpc
                cases hpc
          rw [hblocked.done] at hdone
          cases hdone
        exact main_advances hs ho (by omega) (by omega) (by omega)
  · push Not at hproducer
    rcases producer_advances hs ho hproducer.1 hproducer.2 with hadvance | hblocked
    · exact hadvance
    · rcases consumer_advances hs (hblocked.consumer_created hs) (hblocked.consumer_running hs) with hadvance | hwaits
      · exact hadvance
      · exact absurd hwaits (hblocked.consumer_sees hs hlen)

/-- From every reachable state, whatever the calls still to be made return, the threads can be scheduled so that all of
them return, if the digest context is set up or the ring holds the whole input, and the tail does not wrap. -/
theorem threads_can_return (evp : Evp) (dev : Bytes) (total : Nat) (digest : Bytes) (as : List Action) (s : State evp)
    (hlen : total ≤ 2 ^ 32 * chunkSize)
    (hevery : Every (step evp dev total) (Admitted total) (initial evp digest) as)
    (hrun : run (step evp dev total) (initial evp digest) as = some s) (o : Outcomes evp)
    (ho : o.Possible dev total) : ∃ ts t, run (stepWith o dev total) s ts = some t ∧ Returned t := by
  have hs : Ready evp dev total s :=
    run_every (ready_initial evp dev total digest) (fun _ _ _ hu hok hv => hu.step hok hv) hevery hrun
  apply run_reaches (I := Ready evp dev total) (remaining total)
    (fun u t v hu hv => hu.step (ho.admitted u t) hv) _ hs
  intro u hu hopen
  obtain ⟨v, ⟨ts, hv⟩, hlt⟩ := ready_advances hu ho hlen hopen
  exact ⟨ts, v, hv, hlt⟩

def oneByteOutcomes : Outcomes sampleEvp :=
  ⟨fun _ => true, fun s => some (min (alignedWant 1 s.producer.offset) (1 - s.producer.offset)), fun _ => true⟩

theorem threads_can_return_created : ∃ s,
    run (step sampleEvp [0] 1) (initial sampleEvp []) [.main true, .main true, .main true] = some s ∧
      s.producer.pc = .loadHead ∧ ∃ ts t, run (stepWith oneByteOutcomes [0] 1) s ts = some t ∧ Returned t := by
  have hpossible : oneByteOutcomes.Possible [0] 1 := by
    refine ⟨fun s t => ?_, fun s n hn => ?_⟩
    · cases t with
      | main => exact fun _ => rfl
      | producer => trivial
      | consumer => exact fun _ => .inl rfl
    · cases hn
      exact ⟨min_le_left _ _, min_le_right _ _⟩
  refine ⟨_, rfl, rfl, threads_can_return sampleEvp [0] 1 [] [.main true, .main true, .main true] _ (by decide) ?_ rfl
    oneByteOutcomes hpossible⟩
  exact ⟨fun _ => rfl, fun _ _ => ⟨fun _ => rfl, fun _ _ => ⟨fun _ => rfl, fun _ _ => trivial⟩⟩⟩

end SuperRaid.HashRing
