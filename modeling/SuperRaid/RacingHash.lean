import SuperRaid.BootSpec
import SuperRaid.HashRingDigest

namespace SuperRaid.RacingHash

open Image Footer Machine BootSpec Transition HashRing

/-- Nothing but the program changes the devices. The threads of hash_sha256_fd digest all bytes, or the given number of
chunks. -/
def racing : Env where
  Choice := Option Nat
  act _ _ disk := disk
  digested c len := match c with
    | none => len
    | some n => min (n * chunkSize) len

theorem still_racing : Still racing := fun _ _ _ => rfl

theorem exact_none : racing.Exact none := fun _ => rfl

section Threads

variable {evp : Evp} {dev digest : Bytes} {len : Nat} {as : List Action} {s : HashRing.State evp}

/-- Whatever the threads do, the digest of a successful hash_sha256_fd is one that racing allows, and the exact one if
the consumer never left its loop with a chunk unread. -/
theorem racing_covers (hlen : 0 < len)
    (hrun : run (HashRing.step evp dev len) (HashRing.initial evp digest) as = some s)
    (hret : s.main.pc = .returned 0) :
    ∃ c : racing.Choice, s.main.digest = evp.sha256 (slice dev 0 (racing.digested c len)) ∧
      (Every (HashRing.step evp dev len) exitFresh (HashRing.initial evp digest) as → c = none) := by
  obtain ⟨hdigest, hfed⟩ := digest_of_fed hlen hrun hret
  rw [exitFresh_iff_all_fed hlen hrun hret, hdigest, hfed]
  by_cases hall : len ≤ s.consumer.fed.length * chunkSize
  · exact ⟨none, by rw [Nat.min_eq_right hall, slice_zero_eq_take]; rfl, fun _ => rfl⟩
  · exact ⟨some s.consumer.fed.length, by rw [slice_zero_eq_take]; rfl, fun h => absurd h hall⟩

def joining (evp : Evp) (digest : Bytes) (ring : Ring) (producer : Producer) (pc : ConsumerPc) : HashRing.State evp :=
  ⟨ring, producer, ⟨pc, 0, 0, evp.init, [], List.replicate 32 0, false⟩,
    ⟨.joinProducer, true, true, digest⟩⟩

theorem created_run (evp : Evp) (dev digest : Bytes) (hlen : 0 < len) :
    run (HashRing.step evp dev len) (HashRing.initial evp digest)
      [.main true, .main true, .main true, .consumer true, .consumer true] =
        some (joining evp digest (HashRing.initial evp digest).ring ⟨.loadHead, 0, 0, 0⟩ .loadDone) := by
  have hstart : HashRing.step evp dev len (HashRing.initial evp digest) (.main true) =
      some { HashRing.initial evp digest with main := ⟨.createConsumer, false, false, digest⟩ } :=
    if_neg hlen.ne'
  have hloop : producerLoop len 0 = .loadHead := if_pos hlen
  rw [run, hstart, Option.bind_some, ← hloop]
  rfl

theorem published_run (evp : Evp) (digest : Bytes) (pc : ConsumerPc) (hlen : 0 < len) (hchunk : len ≤ chunkSize)
    (hdev : len ≤ dev.length) :
    ∃ ring' offset', ring'.done = true ∧ ring'.error = false ∧
      run (HashRing.step evp dev len)
        (joining evp digest (HashRing.initial evp digest).ring ⟨.loadHead, 0, 0, 0⟩ pc)
        (List.replicate 6 (.producer (some len))) =
          some (joining evp digest ring' ⟨.exited, offset', 1, 0⟩ pc) := by
  have hwant : want len 0 = len := by
    unfold want
    split <;> omega
  have hcount : len ≤ alignedWant len 0 ∧ len ≤ dev.length - 0 := by
    rw [alignedWant, hwant]
    omega
  have hfull : ¬(len = 0 ∨ len < want len 0) := by omega
  have hloop : producerLoop len (0 + want len 0) = .storeDone := if_neg (by omega)
  obtain ⟨ring, hread, herror⟩ : ∃ ring : Ring,
      producerStep dev len (HashRing.initial evp digest).ring ⟨.read, 0, 0, 0⟩ (some len) =
        some (ring, ⟨.setLen, 0, 0, 0⟩) ∧ ring.error = false :=
    ⟨_, (if_pos hcount).trans (if_neg hfull), rfl⟩
  have hread' : HashRing.step evp dev len
      (joining evp digest (HashRing.initial evp digest).ring ⟨.read, 0, 0, 0⟩ pc) (.producer (some len)) =
        some (joining evp digest ring ⟨.setLen, 0, 0, 0⟩ pc) := congrArg (Option.map _) hread
  obtain ⟨ring', hsized, herror'⟩ : ∃ ring' : Ring,
      run (HashRing.step evp dev len) (joining evp digest ring ⟨.setLen, 0, 0, 0⟩ pc)
        (List.replicate 2 (.producer (some len))) =
          some (joining evp digest ring' ⟨producerLoop len (0 + want len 0), 0 + want len 0, 1, 0⟩ pc) ∧
        ring'.error = ring.error := ⟨_, rfl, rfl⟩
  rw [hloop] at hsized
  refine ⟨{ ring' with done := true }, 0 + want len 0, rfl, herror'.trans herror, ?_⟩
  have hload : run (HashRing.step evp dev len)
      (joining evp digest (HashRing.initial evp digest).ring ⟨.loadHead, 0, 0, 0⟩ pc)
      (List.replicate 2 (.producer (some len))) =
        some (joining evp digest (HashRing.initial evp digest).ring ⟨.read, 0, 0, 0⟩ pc) := by
    simp [run, HashRing.step, joining, producerStep, HashRing.initial, List.replicate_succ, -List.reduceReplicate]
  have hactions : List.replicate 6 (Action.producer (some len)) = List.replicate 2 (.producer (some len)) ++
      (.producer (some len) :: (List.replicate 2 (.producer (some len)) ++ [.producer (some len)])) := rfl
  rw [hactions, run_append, hload, Option.bind_some, run, hread', Option.bind_some, run_append, hsized]
  rfl

theorem left_run (evp : Evp) (dev : Bytes) (len : Nat) (digest : Bytes) (offset : Nat) {ring : Ring}
    (hdone : ring.done = true) (herror : ring.error = false) :
    ∃ s, run (HashRing.step evp dev len) (joining evp digest ring ⟨.exited, offset, 1, 0⟩ .loadDone)
        (List.replicate 3 (.consumer true) ++ List.replicate 3 (.main true)) = some s ∧
      s.main.pc = .returned 0 ∧ s.main.digest = evp.sha256 [] := by
  obtain ⟨slots, head, tail, done, error⟩ := ring
  cases hdone
  cases herror
  exact ⟨_, rfl, rfl, evp.final_updates []⟩

def missEverything (len : Nat) : List Action :=
  [.main true, .main true, .main true, .consumer true, .consumer true] ++
    (List.replicate 6 (.producer (some len)) ++ (List.replicate 3 (.consumer true) ++ List.replicate 3 (.main true)))

/-- Of a device that fits into a chunk the threads may miss everything. -/
theorem missEverything_run (evp : Evp) (digest : Bytes) (hlen : 0 < len) (hchunk : len ≤ chunkSize)
    (hdev : len ≤ dev.length) :
    ∃ s, run (HashRing.step evp dev len) (HashRing.initial evp digest) (missEverything len) = some s ∧
      s.main.pc = .returned 0 ∧ s.main.digest = evp.sha256 (slice dev 0 (racing.digested (some 0) len)) := by
  obtain ⟨ring, offset, hdone, herror, hpublished⟩ := published_run evp digest .loadDone hlen hchunk hdev
  obtain ⟨s, hleft, hret, hdigest⟩ := left_run evp dev len digest offset hdone herror
  refine ⟨s, ?_, hret, ?_⟩
  · rw [missEverything, run_append, created_run evp dev digest hlen, Option.bind_some, run_append, hpublished,
      Option.bind_some, hleft]
  · simp [hdigest, racing, slice]

end Threads

end SuperRaid.RacingHash
