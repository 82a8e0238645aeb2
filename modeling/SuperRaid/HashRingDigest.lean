import SuperRaid.HashRingStatus

namespace SuperRaid.HashRing

open Image Transition

variable {evp : Evp} {dev : Bytes} {total : Nat} {digest : Bytes} {s : State evp} {as : List Action}

/-- The consumer leaves its loop only when no published chunk is unread: at
a load of done that returns nonzero, the ring's tail is the consumer's head. -/
def exitFresh (s : State evp) : Action → Prop
  | .consumer _ => s.consumer.pc = .loadDone → s.ring.done = true → s.ring.tail = s.consumer.head
  | _ => True

def ConsumerPc.leaving : ConsumerPc → Bool
  | .loadError | .final | .exited => true
  | _ => false

/-- What the consumer has digested once it left the loop tells whether the
run so far met the exit condition. -/
structure History (evp : Evp) (dev : Bytes) (total : Nat) (digest : Bytes) (as : List Action) (s : State evp) :
    Prop where
  tested : s.consumer.pc = .loadDone → s.consumer.tail ≤ s.consumer.head
  looping : s.consumer.pc.leaving = false → Every (step evp dev total) exitFresh (initial evp digest) as
  left : s.consumer.pc.leaving = true → s.ring.error = true ∨ s.consumer.error = true ∨
    (Every (step evp dev total) exitFresh (initial evp digest) as ↔ total ≤ s.consumer.fed.length * chunkSize)

theorem Window.drained_iff {k : Counts} (h : Window evp dev total k s) (hp : total ≤ s.producer.offset) :
    s.ring.tail = s.consumer.head ↔ total ≤ s.consumer.fed.length * chunkSize := by
  rw [h.ringTail, h.consumerHead, eq_comm,
    ofNat_eq_iff h.consumed (by have := h.full; have := h.lag; omega)]
  constructor
  · intro he
    have := h.offset
    rw [he]; omega
  · intro ht
    rcases h.counted with hz | hc
    · have := h.consumed; omega
    · by_contra hne
      have hle : s.consumer.fed.length ≤ k.published - 1 := by have := h.consumed; omega
      have := Nat.mul_le_mul_right chunkSize hle
      omega

theorem producerStep_mono {r r' : Ring} {p p' : Producer} {count : Option Nat}
    (h : producerStep dev total r p count = some (r', p')) : r.error = true → r'.error = true := by
  intro he
  cases hpc : p.pc <;> simp only [producerStep, hpc] at h <;> grind

theorem mainStep_consumer {ok : Bool} {t : State evp} (h : mainStep evp total s ok = some t) :
    (t.consumer = s.consumer ∨ (s.main.pc = .createConsumer ∧ t.consumer = { s.consumer with pc := .init })) ∧
      (s.ring.error = true → t.ring.error = true) := by
  cases hpc : s.main.pc <;> simp only [mainStep, hpc] at h <;> grind

theorem every_snoc_of_fresh {a : Action}
    (hrun : run (step evp dev total) (initial evp digest) as = some s) (hfresh : exitFresh s a) :
    Every (step evp dev total) exitFresh (initial evp digest) (as ++ [a]) ↔
      Every (step evp dev total) exitFresh (initial evp digest) as := by
  rw [every_snoc]
  refine ⟨And.left, fun h => ⟨h, fun t ht => ?_⟩⟩
  rw [hrun] at ht
  cases ht
  exact hfresh

theorem History.of_consumer_eq {a : Action} {t : State evp} (h : History evp dev total digest as s)
    (hrun : run (step evp dev total) (initial evp digest) as = some s) (hfresh : exitFresh s a)
    (hc : t.consumer = s.consumer) (herror : s.ring.error = true → t.ring.error = true) :
    History evp dev total digest (as ++ [a]) t where
  tested := by rw [hc]; exact h.tested
  looping := by rw [hc, every_snoc_of_fresh hrun hfresh]; exact h.looping
  left := by
    rw [hc, every_snoc_of_fresh hrun hfresh]
    exact fun hl => (h.left hl).imp_left herror

theorem History.consumer {ok : Bool} {r : Ring} {c : Consumer evp.Ctx} (h : History evp dev total digest as s)
    (hrun : run (step evp dev total) (initial evp digest) as = some s) (hsafe : Safe evp dev total s)
    (hstep : consumerStep evp s.ring s.consumer ok = some (r, c)) :
    History evp dev total digest (as ++ [.consumer ok]) { s with ring := r, consumer := c } := by
  obtain ⟨hs, k, hk⟩ := hsafe
  have stays (hpc : s.consumer.pc ≠ .loadDone) : exitFresh s (.consumer ok) := fun hd => absurd hd hpc
  cases hpc : s.consumer.pc with
  | idle | exited => simp [consumerStep, hpc] at hstep
  | init | update =>
      have hall := h.looping (by rw [hpc]; rfl)
      simp only [consumerStep, hpc] at hstep
      split at hstep <;> cases hstep <;>
        exact ⟨by simp, fun _ => (every_snoc_of_fresh hrun (stays (by simp [hpc]))).mpr hall,
          by simp [ConsumerPc.leaving]⟩
  | loadTail =>
      have hall := h.looping (by rw [hpc]; rfl)
      simp only [consumerStep, hpc, Option.some.injEq, Prod.mk.injEq] at hstep
      obtain ⟨rfl, rfl⟩ := hstep
      refine ⟨?_, fun _ => (every_snoc_of_fresh hrun (stays (by simp [hpc]))).mpr hall, ?_⟩
      · intro hd
        by_contra hlt
        simp_all
      · dsimp only; split <;> simp [ConsumerPc.leaving]
  | storeHead | storeError =>
      have hall := h.looping (by rw [hpc]; rfl)
      simp only [consumerStep, hpc, Option.some.injEq, Prod.mk.injEq] at hstep
      obtain ⟨rfl, rfl⟩ := hstep
      exact ⟨by simp, fun _ => (every_snoc_of_fresh hrun (stays (by simp [hpc]))).mpr hall,
        by simp [ConsumerPc.leaving]⟩
  | storeErrorDone =>
      have herror := hs.updateError (Or.inr hpc)
      simp only [consumerStep, hpc, Option.some.injEq, Prod.mk.injEq] at hstep
      obtain ⟨rfl, rfl⟩ := hstep
      exact ⟨by simp, by simp [ConsumerPc.leaving], fun _ => Or.inr (Or.inl herror)⟩
  | loadDone =>
      have hall := h.looping (by rw [hpc]; rfl)
      have htest := h.tested hpc
      simp only [consumerStep, hpc, htest, and_true, Option.some.injEq, Prod.mk.injEq] at hstep
      obtain ⟨rfl, rfl⟩ := hstep
      cases hdone : s.ring.done with
      | false =>
          have hfresh : exitFresh s (.consumer ok) := fun _ hd => by simp [hdone] at hd
          exact ⟨by simp, fun _ => (every_snoc_of_fresh hrun hfresh).mpr hall, by simp [ConsumerPc.leaving]⟩
      | true =>
          refine ⟨by simp, by simp [ConsumerPc.leaving], fun _ => ?_⟩
          rcases hs.doneMeans hdone with he | hoff
          · exact Or.inl he
          · refine Or.inr (Or.inr ?_)
            rw [every_snoc, ← hk.drained_iff hoff]
            constructor
            · intro hev
              exact hev.2 s hrun hpc hdone
            · intro hd
              refine ⟨hall, fun t ht => ?_⟩
              rw [hrun] at ht
              cases ht
              exact fun _ _ => hd
  | loadError =>
      have hleft := h.left (by rw [hpc]; rfl)
      rw [← every_snoc_of_fresh hrun (stays (by simp [hpc]))] at hleft
      simp only [consumerStep, hpc, Option.some.injEq, Prod.mk.injEq] at hstep
      obtain ⟨rfl, rfl⟩ := hstep
      split <;> exact ⟨by simp, by simp [ConsumerPc.leaving], fun _ => hleft⟩
  | final =>
      have hleft := h.left (by rw [hpc]; rfl)
      rw [← every_snoc_of_fresh hrun (stays (by simp [hpc]))] at hleft
      simp only [consumerStep, hpc] at hstep
      split at hstep <;> cases hstep
      · exact ⟨by simp, by simp [ConsumerPc.leaving], fun _ => hleft⟩
      · exact ⟨by simp, by simp [ConsumerPc.leaving], fun _ => Or.inr (Or.inl rfl)⟩

theorem history_run (hrun : run (step evp dev total) (initial evp digest) as = some s) :
    History evp dev total digest as s := by
  have h0 : History evp dev total digest [] (initial evp digest) :=
    ⟨by simp [initial], fun _ => trivial, by simp [initial, ConsumerPc.leaving]⟩
  refine run_history (I := History evp dev total digest) h0 ?_ hrun
  intro bs u a v hu h hstep
  cases a with
  | main ok =>
      obtain ⟨hc | ⟨hpc, hc⟩, herror⟩ := mainStep_consumer hstep
      · exact h.of_consumer_eq hu trivial hc herror
      · have hs := (safe_run hu).1
        have hidle := hs.consumerIdle (hs.noConsumer (by rw [hpc]; decide))
        refine ⟨by simp [hc], fun _ => ?_, by simp [hc, ConsumerPc.leaving]⟩
        exact (every_snoc_of_fresh (a := .main ok) hu trivial).mpr (h.looping (by rw [hidle]; rfl))
  | producer count =>
      simp only [step, Option.map_eq_some_iff] at hstep
      obtain ⟨⟨r, p⟩, hp, rfl⟩ := hstep
      exact h.of_consumer_eq hu trivial rfl (producerStep_mono hp)
  | consumer ok =>
      simp only [step, Option.map_eq_some_iff] at hstep
      obtain ⟨⟨r, c⟩, hc, rfl⟩ := hstep
      exact h.consumer hu (safe_run hu) hc

theorem chunks_flatten (dev : Bytes) (total n : Nat) :
    ((List.range n).map (chunkAt dev total)).flatten = dev.take (min (n * chunkSize) total) := by
  induction n with
  | zero => simp
  | succ n ih =>
      rw [List.range_succ, List.map_append, List.flatten_append, ih, List.map_singleton, List.flatten_singleton]
      rcases Nat.lt_or_ge (n * chunkSize) total with hlt | hge
      · rw [← advance hlt, Nat.min_eq_left hlt.le, List.take_add, chunkAt, slice]
      · have hw : want total (n * chunkSize) = 0 := by unfold want; split <;> omega
        have hle : total ≤ (n + 1) * chunkSize := hge.trans (Nat.mul_le_mul_right _ (Nat.le_succ n))
        rw [chunkAt, hw, slice, List.take_zero, List.append_nil, Nat.min_eq_right hge, Nat.min_eq_right hle]

/-- When hash_sha256_fd returns 0, the digest it stores is that of what was
fed, which is some of the first chunks of the device. -/
theorem digest_of_fed (hlen : 0 < total) (hrun : run (step evp dev total) (initial evp digest) as = some s)
    (hret : s.main.pc = .returned 0) :
    s.main.digest = evp.sha256 s.consumer.fed.flatten ∧
      s.consumer.fed.flatten = dev.take (min (s.consumer.fed.length * chunkSize) total) := by
  obtain ⟨hs, k, hk⟩ := safe_run hrun
  obtain ⟨he, hce, hp, hc, hd⟩ := (hs.returned hret).resolve_left (by omega)
  constructor
  · have hx := hs.consumerExit hc
    simp only [he, hce, Bool.false_eq_true, false_or] at hx
    rw [hd, hx.2, hk.ctx, evp.final_updates]
  · conv_lhs => rw [hk.fed]
    exact chunks_flatten dev total _

theorem exitFresh_iff_all_fed (hlen : 0 < total)
    (hrun : run (step evp dev total) (initial evp digest) as = some s) (hret : s.main.pc = .returned 0) :
    Every (step evp dev total) exitFresh (initial evp digest) as ↔ total ≤ s.consumer.fed.length * chunkSize := by
  obtain ⟨he, hce, -, hc, -⟩ := ((safe_run hrun).1.returned hret).resolve_left (by omega)
  have hleft := (history_run hrun).left (by rw [hc]; rfl)
  simpa only [he, hce, Bool.false_eq_true, false_or] using hleft

/-- When hash_sha256_fd returns 0, the digest it stores is that of exactly
the first bytes of the device, each fed once and in order, if and only if
the consumer never left its loop with a published chunk unread. -/
theorem digest_exact_iff_exitFresh (evp : Evp) (dev : Bytes) (total : Nat) (hlen : 0 < total) (digest : Bytes)
    (as : List Action) (s : State evp)
    (hrun : run (step evp dev total) (initial evp digest) as = some s) (hret : s.main.pc = .returned 0) :
    (s.main.digest = evp.sha256 (dev.take total) ∧ s.consumer.fed.flatten = dev.take total) ↔
      Every (step evp dev total) exitFresh (initial evp digest) as := by
  obtain ⟨hs, k, hk⟩ := safe_run hrun
  obtain ⟨he, -, hp, -⟩ := (hs.returned hret).resolve_left (by omega)
  have hoff : total ≤ s.producer.offset := by simpa [he] using hs.producerExit hp
  obtain ⟨hdig, hfed⟩ := digest_of_fed hlen hrun hret
  have hdev := hk.device
  rw [exitFresh_iff_all_fed hlen hrun hret]
  constructor
  · rintro ⟨-, hall⟩
    have hl := congrArg List.length (hfed.symm.trans hall)
    simp only [List.length_take] at hl
    omega
  · intro hall
    rw [hdig, hfed, Nat.min_eq_right hall]
    exact ⟨rfl, rfl⟩

def collecting (hash : Bytes → Bytes) : Evp where
  Ctx := Bytes
  init := []
  update := fun ctx bs => ctx ++ bs
  final := hash
  sha256 := hash
  final_updates := fun chunks => by
    have h (acc : Bytes) : chunks.foldl (fun ctx bs => ctx ++ bs) acc = acc ++ chunks.flatten := by
      induction chunks generalizing acc with
      | nil => simp
      | cons c cs ih => simp [ih, List.append_assoc]
    rw [h, List.nil_append]

def digestBytes (n : Nat) : Bytes := (List.range 32).map (fun i => BitVec.ofNat 8 (n >>> (8 * (31 - i))))

def sampleSha256 (bs : Bytes) : Bytes :=
  if bs = [] then digestBytes 0xe3b0c44298fc1c149afbf4c8996fb92427ae41e4649b934ca495991b7852b855
  else if bs = [0] then digestBytes 0x6e340b9cffb37a989ca544e6bb780a2c78901d3fb33738768511a30617afa01d
  else []

def sampleEvp : Evp := collecting sampleSha256

def publishOne : List Action := List.replicate 6 (.producer (some 1))

def freshSchedule : List Action :=
  [.main true, .main true, .main true] ++ publishOne ++ List.replicate 8 (.consumer true) ++
    List.replicate 3 (.main true)

/-- The consumer loads tail before the publish and done after it. -/
def staleSchedule : List Action :=
  [.main true, .main true, .main true, .consumer true, .consumer true] ++ publishOne ++
    List.replicate 3 (.consumer true) ++ List.replicate 3 (.main true)

def outcome (as : List Action) : Option (MainPc × Bytes) :=
  (run (step sampleEvp [0] 1) (initial sampleEvp []) as).map (fun s => (s.main.pc, s.main.digest))

theorem digest_exact_one_byte : ∃ s, run (step sampleEvp [0] 1) (initial sampleEvp []) freshSchedule = some s ∧
    s.main.pc = .returned 0 ∧
    ((s.main.digest = sampleEvp.sha256 (List.take 1 [0]) ∧ s.consumer.fed.flatten = List.take 1 [0]) ↔
      Every (step sampleEvp [0] 1) exitFresh (initial sampleEvp []) freshSchedule) := by
  have ho : outcome freshSchedule = some (.returned 0, sampleSha256 [0]) := by rfl
  obtain ⟨s, hs, he⟩ := Option.map_eq_some_iff.mp ho
  have hret : s.main.pc = .returned 0 := congrArg Prod.fst he
  exact ⟨s, hs, hret, digest_exact_iff_exitFresh sampleEvp [0] 1 (by decide) [] freshSchedule s hs hret⟩

/-- One byte to digest, every call succeeding: hash_sha256_fd returns 0 with
the digest of the empty string. -/
theorem stale_tail_loses_chunk : ∃ s, run (step sampleEvp [0] 1) (initial sampleEvp []) staleSchedule = some s ∧
    s.main.pc = .returned 0 ∧ s.main.digest = sampleEvp.sha256 [] ∧
    s.main.digest ≠ sampleEvp.sha256 (List.take 1 [0]) := by
  have ho : outcome staleSchedule = some (.returned 0, sampleSha256 []) := by rfl
  obtain ⟨s, hs, he⟩ := Option.map_eq_some_iff.mp ho
  have hd : s.main.digest = sampleSha256 [] := congrArg Prod.snd he
  refine ⟨s, hs, congrArg Prod.fst he, hd, ?_⟩
  rw [hd]
  decide

end SuperRaid.HashRing
