import SuperRaid.HashRingReturn

namespace SuperRaid.HashRing

open Image Transition

variable {evp : Evp} {dev : Bytes} {total : Nat} {s t : State evp}

def JoinsSucceed (s : State evp) : Action → Prop
  | .main ok => s.main.pc = .joinProducer ∨ s.main.pc = .joinConsumer → ok = true
  | _ => True

/-- The consumer has returned before its first chunk, and the producer has published the given number of chunks. -/
structure Filling (published : Nat) (s : State evp) : Prop where
  head : s.ring.head = 0
  error : s.ring.error = false
  pc : s.producer.pc = .loadHead
  tail : s.producer.tail = BitVec.ofNat 32 published
  offset : s.producer.offset = published * chunkSize
  consumer : s.consumer.pc = .exited
  main : s.main.pc = .joinProducer
  created : s.main.producerCreated = true

theorem run_producer {count : Option Nat} {r : Ring} {p : Producer} {as : List Action}
    (hstep : producerStep dev total s.ring s.producer count = some (r, p))
    (h : run (step evp dev total) { s with ring := r, producer := p } as = some t) :
    run (step evp dev total) s (.producer count :: as) = some t := by
  simp only [run, step, hstep, Option.map_some, Option.bind_some]
  exact h

theorem want_whole {offset : Nat} (h : offset + chunkSize ≤ total) : want total offset = chunkSize := by
  rw [want, if_neg (by omega)]

theorem le_alignedWant (total offset : Nat) : want total offset ≤ alignedWant total offset := by
  unfold alignedWant
  omega

theorem Filling.next {published : Nat} (h : Filling published s) (hroom : published < ringSlots)
    (hmore : (published + 1) * chunkSize < total) (hdev : total ≤ dev.length) :
    ∃ as t, run (step evp dev total) s as = some t ∧ Filling (published + 1) t := by
  have hnext : s.producer.offset + chunkSize = (published + 1) * chunkSize := by
    rw [h.offset, Nat.add_mul, Nat.one_mul]
  have hwant : want total s.producer.offset = chunkSize := want_whole (by omega)
  have hcount : chunkSize ≤ alignedWant total s.producer.offset ∧ chunkSize ≤ dev.length - s.producer.offset := by
    refine ⟨?_, by omega⟩
    have := le_alignedWant total s.producer.offset
    rwa [hwant] at this
  have hlong : ¬ (chunkSize = 0 ∨ chunkSize < want total s.producer.offset) := by
    rw [hwant]
    exact not_or.mpr ⟨by decide, lt_irrefl _⟩
  have hfree : s.producer.tail - s.ring.head < 8 := by
    rw [h.tail, h.head]
    show (BitVec.ofNat 32 published - BitVec.ofNat 32 0).toNat < 8
    simp only [BitVec.toNat_sub, BitVec.toNat_ofNat, ringSlots] at hroom ⊢
    omega
  have hloop : producerLoop total (s.producer.offset + chunkSize) = .loadHead := by
    rw [producerLoop, if_pos (hnext ▸ hmore)]
  refine ⟨[.producer none, .producer none, .producer (some chunkSize), .producer none, .producer none], ?_⟩
  apply Exists.intro
  constructor
  · apply run_producer (by simp only [producerStep, h.pc]; rfl)
    apply run_producer (by simp only [producerStep, h.error, if_pos hfree]; rfl)
    apply run_producer (by simp only [producerStep, if_pos hcount, if_neg hlong]; rfl)
    apply run_producer (by simp only [producerStep]; rfl)
    apply run_producer (by simp only [producerStep, hwant, hloop]; rfl)
    rfl
  · exact {
      head := h.head
      error := h.error
      pc := rfl
      tail := by
        show s.producer.tail + 1 = _
        rw [h.tail, BitVec.ofNat_add]
        rfl
      offset := hnext
      consumer := h.consumer
      main := h.main
      created := h.created }

theorem Filling.fill {n : Nat} (h : Filling 0 s) (hn : n ≤ ringSlots) (hmore : n * chunkSize < total)
    (hdev : total ≤ dev.length) : ∃ as t, run (step evp dev total) s as = some t ∧ Filling n t := by
  induction n with
  | zero => exact ⟨[], s, rfl, h⟩
  | succ n ih =>
      have hless : n * chunkSize < total := lt_of_le_of_lt (Nat.mul_le_mul_right _ (Nat.le_succ n)) hmore
      obtain ⟨as, u, hu, hfill⟩ := ih (Nat.le_of_succ_le hn) hless
      obtain ⟨bs, t, ht, hnext⟩ := hfill.next hn hmore hdev
      exact ⟨as ++ bs, t, by rw [run_append, hu]; exact ht, hnext⟩

/-- The producer waits on a full ring, and nobody is left to empty it or to store an error. -/
structure Abandoned (s : State evp) : Prop where
  error : s.ring.error = false
  consumer : s.consumer.pc = .exited
  pc : s.producer.pc = .loadHead ∨ s.producer.pc = .loadError
  full : ¬ s.producer.tail - s.ring.head < 8
  seen : s.producer.pc = .loadError → ¬ s.producer.tail - s.producer.head < 8
  main : s.main.pc = .joinProducer
  created : s.main.producerCreated = true

theorem Abandoned.step (h : Abandoned s) {a : Action} (hok : JoinsSucceed s a)
    (hstep : HashRing.step evp dev total s a = some t) : Abandoned t := by
  cases a with
  | main ok =>
      obtain rfl : ok = true := hok (.inl h.main)
      have hrunning : s.producer.pc ≠ .exited := by
        rcases h.pc with hpc | hpc <;> simp [hpc]
      simp [HashRing.step, mainStep, h.main, h.created, hrunning] at hstep
  | consumer ok => simp [HashRing.step, consumerStep, h.consumer] at hstep
  | producer count =>
      obtain ⟨⟨r, p⟩, hp, rfl⟩ := Option.map_eq_some_iff.mp hstep
      rcases h.pc with hpc | hpc
      · simp only [producerStep, hpc, Option.some.injEq, Prod.mk.injEq] at hp
        obtain ⟨rfl, rfl⟩ := hp
        exact { h with pc := .inr rfl, seen := fun _ => h.full }
      · have herror : ¬ s.ring.error = true := by simp [h.error]
        simp only [producerStep, hpc, if_neg herror, if_neg (h.seen hpc), Option.some.injEq, Prod.mk.injEq] at hp
        obtain ⟨rfl, rfl⟩ := hp
        exact { h with pc := .inl rfl, seen := by simp }

def failInit : List Action := [.main true, .main true, .consumer false, .main true]

/-- If the input is longer than the ring and the digest context cannot be set up, the producer can be left waiting on
the full ring for good. -/
theorem init_failure_abandons (evp : Evp) (dev : Bytes) (total : Nat) (hlong : ringSlots * chunkSize < total)
    (hdev : total ≤ dev.length) :
    ∃ as s, run (step evp dev total) (initial evp []) as = some s ∧ Abandoned s := by
  have hpos : 0 < total := Nat.zero_lt_of_lt hlong
  have hne : total ≠ 0 := hpos.ne'
  obtain ⟨s, hs, hfill⟩ : ∃ s, run (step evp dev total) (initial evp []) failInit = some s ∧ Filling 0 s := by
    refine ⟨_, by simp only [failInit, run, step, mainStep, consumerStep, initial, if_neg hne]; rfl, ?_⟩
    constructor <;> simp [producerLoop, hpos]
  obtain ⟨as, t, ht, hfull⟩ := hfill.fill (le_refl ringSlots) hlong hdev
  refine ⟨failInit ++ as, t, by rw [run_append, hs]; exact ht, ?_⟩
  exact {
    error := hfull.error
    consumer := hfull.consumer
    pc := .inl hfull.pc
    full := by
      rw [hfull.tail, hfull.head]
      decide
    seen := fun hpc => by
      rw [hfull.pc] at hpc
      cases hpc
    main := hfull.main
    created := hfull.created }

/-- 64 MiB and one byte, every call but the set-up of the digest context succeeding: from some state on, the producer
never returns. -/
theorem producer_never_returns : ∃ as s,
    run (step sampleEvp (List.replicate (8 * chunkSize + 1) 0) (8 * chunkSize + 1)) (initial sampleEvp []) as =
      some s ∧
    s.main.producerCreated = true ∧ s.consumer.pc = .exited ∧ s.ring.error = false ∧
    ∀ bs t, Every (step sampleEvp (List.replicate (8 * chunkSize + 1) 0) (8 * chunkSize + 1)) JoinsSucceed s bs →
      run (step sampleEvp (List.replicate (8 * chunkSize + 1) 0) (8 * chunkSize + 1)) s bs = some t →
      t.producer.pc ≠ .exited := by
  obtain ⟨as, s, hrun, hs⟩ := init_failure_abandons sampleEvp (List.replicate (8 * chunkSize + 1) 0) _
    (Nat.lt_succ_self (8 * chunkSize)) (by rw [List.length_replicate])
  refine ⟨as, s, hrun, hs.created, hs.consumer, hs.error, fun bs t hevery ht => ?_⟩
  have hend := run_every (I := Abandoned) hs (fun _ _ _ hu hok hv => hu.step hok hv) hevery ht
  rcases hend.pc with hpc | hpc <;> simp [hpc]

end SuperRaid.HashRing
