import SuperRaid.HashRingDigest

namespace SuperRaid.HashRing

open Image Transition

variable {evp : Evp} {dev : Bytes} {total : Nat} {digest : Bytes} {k : Counts} {s t : State evp} {as : List Action}

def publishes (s : State evp) : Action → Bool
  | .producer _ => s.producer.pc = .storeTail
  | _ => false

def releases (s : State evp) : Action → Bool
  | .consumer _ => s.consumer.pc = .storeHead
  | _ => false

/-- The slot that a step of the producer writes: the read stores the data, and the length is set after it. -/
def writtenSlot (s : State evp) : Action → Option (Fin ringSlots)
  | .producer _ => if s.producer.pc = .read ∨ s.producer.pc = .setLen then some (slotOf s.producer.tail) else none
  | _ => none

def readSlot (s : State evp) : Action → Option (Fin ringSlots)
  | .consumer _ => if s.consumer.pc = .update then some (slotOf s.consumer.head) else none
  | _ => none

theorem producerStep_slots {r r' : Ring} {p p' : Producer} {count : Option Nat}
    (h : producerStep dev total r p count = some (r', p')) :
    r'.slots = r.slots ∨
      (p.pc = .read ∨ p.pc = .setLen) ∧ ∃ d, r'.slots = Function.update r.slots (slotOf p.tail) d := by
  cases hpc : p.pc with
  | read =>
      simp only [producerStep, hpc] at h
      cases count with
      | none => cases h; exact .inl rfl
      | some n =>
          dsimp only at h
          split at h
          · split at h <;> cases h <;> exact .inr ⟨.inl rfl, _, rfl⟩
          · cases h
  | setLen =>
      simp only [producerStep, hpc] at h
      cases h
      exact .inr ⟨.inr rfl, _, rfl⟩
  | loadError =>
      simp only [producerStep, hpc] at h
      left
      split at h
      · cases h; rfl
      · split at h <;> cases h <;> rfl
  | idle | exited => simp [producerStep, hpc] at h
  | loadHead | storeTail | storeError | storeErrorDone | storeDone =>
      simp only [producerStep, hpc] at h
      cases h
      exact .inl rfl

theorem mainStep_ring {ok : Bool} (h : mainStep evp total s ok = some t) :
    t.ring.slots = s.ring.slots ∧ t.producer.offset = s.producer.offset := by
  cases hpc : s.main.pc <;> simp only [mainStep, hpc] at h <;> grind

theorem consumerStep_slots {r r' : Ring} {c c' : Consumer evp.Ctx} {ok : Bool}
    (h : consumerStep evp r c ok = some (r', c')) : r'.slots = r.slots := by
  cases hpc : c.pc <;> simp only [consumerStep, hpc] at h <;> grind

theorem slots_of_not_written {a : Action} (hstep : step evp dev total s a = some t) {j : Fin ringSlots}
    (hj : writtenSlot s a ≠ some j) : t.ring.slots j = s.ring.slots j := by
  cases a with
  | main ok => rw [(mainStep_ring hstep).1]
  | producer count =>
      simp only [step, Option.map_eq_some_iff] at hstep
      obtain ⟨⟨r, p⟩, hp, rfl⟩ := hstep
      rcases producerStep_slots hp with hsame | ⟨hpc, d, hput⟩
      · rw [hsame]
      · have hne : j ≠ slotOf s.producer.tail := by
          rintro rfl
          exact hj (if_pos hpc)
        rw [hput, Function.update_of_ne hne]
  | consumer ok =>
      simp only [step, Option.map_eq_some_iff] at hstep
      obtain ⟨⟨r, c⟩, hc, rfl⟩ := hstep
      rw [consumerStep_slots hc]

theorem consumerStep_congr {slots : Fin ringSlots → Slot} {ok : Bool}
    (h : ∀ j, readSlot s (.consumer ok) = some j → slots j = s.ring.slots j) :
    (consumerStep evp { s.ring with slots := slots } s.consumer ok).map Prod.snd =
      (consumerStep evp s.ring s.consumer ok).map Prod.snd := by
  cases hpc : s.consumer.pc with
  | update =>
      have hslot := h (slotOf s.consumer.head) (by simp [readSlot, hpc])
      cases ok <;> simp [consumerStep, hpc, hslot]
  | idle | init | loadTail | loadDone | storeHead | storeError | storeErrorDone | loadError | final | exited =>
      cases ok <;> simp [consumerStep, hpc]

structure Progress (total offset n : ℕ) : Prop where
  offset : offset = min (n * chunkSize) total
  counted : n = 0 ∨ (n - 1) * chunkSize < total

theorem Progress.not_lt {offset m n : ℕ} (hm : Progress total offset m) (hn : Progress total offset n) :
    ¬ m < n := by
  intro hlt
  have hpos : 0 < chunkSize := by decide
  have hnext : m * chunkSize < n * chunkSize := Nat.mul_lt_mul_of_pos_right hlt hpos
  have hbelow : m * chunkSize < total :=
    (Nat.mul_le_mul_right chunkSize (by omega)).trans_lt (hn.counted.resolve_left (by omega))
  have hoffset := hm.offset.symm.trans hn.offset
  omega

theorem Progress.unique {offset m n : ℕ} (hm : Progress total offset m) (hn : Progress total offset n) : m = n :=
  Nat.le_antisymm (Nat.le_of_not_lt (hn.not_lt hm)) (Nat.le_of_not_lt (hm.not_lt hn))

theorem Window.progress (h : Window evp dev total k s) : Progress total s.producer.offset k.published :=
  ⟨h.offset, h.counted⟩

theorem producerStep_offset {r r' : Ring} {p p' : Producer} {count : Option Nat}
    (h : producerStep dev total r p count = some (r', p')) :
    p'.offset = if p.pc = .storeTail then p.offset + want total p.offset else p.offset := by
  cases hpc : p.pc <;> simp only [producerStep, hpc] at h <;> grind

theorem consumerStep_fed {r r' : Ring} {c c' : Consumer evp.Ctx} {ok : Bool}
    (h : consumerStep evp r c ok = some (r', c')) : c'.fed.length = c.fed.length + c'.pc.lag := by
  cases hpc : c.pc <;> simp only [consumerStep, hpc] at h <;> grind [ConsumerPc.lag]

def publishedCount (evp : Evp) (dev : Bytes) (total : Nat) (digest : Bytes) (as : List Action) : ℕ :=
  occurrences (step evp dev total) publishes (initial evp digest) as

def releasedCount (evp : Evp) (dev : Bytes) (total : Nat) (digest : Bytes) (as : List Action) : ℕ :=
  occurrences (step evp dev total) releases (initial evp digest) as

theorem progress_run (hrun : run (step evp dev total) (initial evp digest) as = some s) :
    Progress total s.producer.offset (publishedCount evp dev total digest as) := by
  have h0 : Progress total (initial evp digest).producer.offset (publishedCount evp dev total digest []) :=
    ⟨by simp [initial, publishedCount, occurrences], .inl rfl⟩
  refine run_history (I := fun as s => Progress total s.producer.offset (publishedCount evp dev total digest as))
    h0 ?_ hrun
  intro bs u a v hu ih hstep
  rw [publishedCount, occurrences_snoc hu, ← publishedCount]
  cases a with
  | main ok =>
      rw [(mainStep_ring hstep).2]
      exact ih
  | consumer ok =>
      simp only [step, Option.map_eq_some_iff] at hstep
      obtain ⟨⟨r, c⟩, hc, rfl⟩ := hstep
      exact ih
  | producer count =>
      simp only [step, Option.map_eq_some_iff] at hstep
      obtain ⟨⟨r, p⟩, hp, rfl⟩ := hstep
      have hoffset := producerStep_offset hp
      by_cases hpc : u.producer.pc = .storeTail
      · -- The chunks before one that is published are whole.
        obtain ⟨-, k, hk⟩ := safe_run hu
        have hmore := hk.more (by rw [hpc]; rfl)
        rw [hk.progress.unique ih] at hmore
        have hwhole : u.producer.offset = publishedCount evp dev total digest bs * chunkSize := by
          rw [ih.offset, Nat.min_eq_left hmore.le]
        rw [if_pos hpc, hwhole, advance hmore] at hoffset
        simp only [publishes, hpc, decide_true, Bool.toNat_true]
        exact ⟨hoffset, .inr hmore⟩
      · rw [if_neg hpc] at hoffset
        simp only [publishes, hpc, decide_false, Bool.toNat_false, Nat.add_zero, hoffset]
        exact ih

theorem releasedCount_eq (hrun : run (step evp dev total) (initial evp digest) as = some s) :
    releasedCount evp dev total digest as + s.consumer.pc.lag = s.consumer.fed.length := by
  refine run_history (I := fun as s => releasedCount evp dev total digest as + s.consumer.pc.lag =
    s.consumer.fed.length) rfl ?_ hrun
  intro bs u a v hu ih hstep
  rw [releasedCount, occurrences_snoc hu, ← releasedCount]
  cases a with
  | main ok =>
      obtain ⟨hc | ⟨hpc, hc⟩, -⟩ := mainStep_consumer hstep
      · rw [hc]
        exact ih
      · have hs := (safe_run hu).1
        have hidle := hs.consumerIdle (hs.noConsumer (by rw [hpc]; decide))
        rw [hidle] at ih
        rw [hc]
        exact ih
  | producer count =>
      simp only [step, Option.map_eq_some_iff] at hstep
      obtain ⟨⟨r, p⟩, hp, rfl⟩ := hstep
      exact ih
  | consumer ok =>
      simp only [step, Option.map_eq_some_iff] at hstep
      obtain ⟨⟨r, c⟩, hc, rfl⟩ := hstep
      have hlag : (releases u (.consumer ok)).toNat = u.consumer.pc.lag := by
        cases hpc : u.consumer.pc <;> simp [releases, hpc, ConsumerPc.lag]
      rw [hlag, ih, consumerStep_fed hc]

/-- The counts of the stores to head and tail are the unreduced counters. -/
theorem counted_run (hrun : run (step evp dev total) (initial evp digest) as = some s) :
    ∃ k, Window evp dev total k s ∧ k.published = publishedCount evp dev total digest as ∧
      k.ringHead = releasedCount evp dev total digest as := by
  obtain ⟨-, k, hk⟩ := safe_run hrun
  refine ⟨k, hk, hk.progress.unique (progress_run hrun), ?_⟩
  have hlag := hk.lag
  have hreleased := releasedCount_eq hrun
  omega

/-- What is known of a state when so many chunks have been published and so many released. -/
structure Kept (evp : Evp) (dev : Bytes) (total published released : ℕ) (s : State evp) : Prop where
  fed : s.consumer.fed = (List.range s.consumer.fed.length).map (chunkAt dev total)
  bytes : s.consumer.fed.flatten <+: dev.take total
  sizes : ∀ i < s.consumer.fed.length, 0 < (chunkAt dev total i).length ∧
    (chunkAt dev total i).length = min chunkSize (total - i * chunkSize)
  head : s.ring.head = BitVec.ofNat 32 released
  tail : s.ring.tail = BitVec.ofNat 32 published
  window : released ≤ s.consumer.fed.length ∧ s.consumer.fed.length ≤ published ∧
    published ≤ released + ringSlots
  writes : ∀ a j, writtenSlot s a = some j → ∀ i, released ≤ i → i < published → i % ringSlots ≠ j.val
  untouched : ∀ a t, step evp dev total s a = some t → ∀ i, released ≤ i → i < published →
    t.ring.slots (slotOf (BitVec.ofNat 32 i)) = s.ring.slots (slotOf (BitVec.ofNat 32 i))
  reads : ∀ a j, readSlot s a = some j → s.consumer.fed.length < published ∧
    s.consumer.fed.length % ringSlots = j.val
  unread : ∀ slots : Fin ringSlots → Slot,
    (∀ i, released ≤ i → i < published →
      slots (slotOf (BitVec.ofNat 32 i)) = s.ring.slots (slotOf (BitVec.ofNat 32 i))) →
    ∀ ok, (consumerStep evp { s.ring with slots := slots } s.consumer ok).map Prod.snd =
      (consumerStep evp s.ring s.consumer ok).map Prod.snd

theorem want_eq_min (total offset : ℕ) : want total offset = min chunkSize (total - offset) := by
  unfold want
  -- omega would compute with the size itself
  generalize chunkSize = c
  split <;> omega

theorem Window.chunk_length (h : Window evp dev total k s) {i : ℕ} (hi : i < k.published) :
    0 < (chunkAt dev total i).length ∧ (chunkAt dev total i).length = min chunkSize (total - i * chunkSize) := by
  have hbelow : i * chunkSize < total :=
    (Nat.mul_le_mul_right chunkSize (by omega)).trans_lt (h.counted.resolve_left (by omega))
  have hend : (i + 1) * chunkSize ≤ k.published * chunkSize := Nat.mul_le_mul_right chunkSize hi
  have hnext := advance hbelow
  have hdevice := h.device
  rw [h.offset] at hdevice
  have hlen : (chunkAt dev total i).length = want total (i * chunkSize) := slice_length (by omega)
  rw [hlen]
  exact ⟨want_pos hbelow, want_eq_min _ _⟩

theorem Window.written_apart (h : Window evp dev total k s) {a : Action} {j : Fin ringSlots}
    (hj : writtenSlot s a = some j) {i : ℕ} (hlo : k.ringHead ≤ i) (hhi : i < k.published) :
    i % ringSlots ≠ j.val := by
  cases a with
  | main ok => cases hj
  | consumer ok => cases hj
  | producer count =>
      simp only [writtenSlot, Option.ite_none_right_eq_some, Option.some.injEq] at hj
      obtain ⟨hpc, rfl⟩ := hj
      have hroom := h.room (by rcases hpc with hpc | hpc <;> rw [hpc] <;> rfl)
      have hstale := h.staleHead
      rw [h.producerTail, slotOf_ofNat]
      simp only [ringSlots] at hroom ⊢
      omega

theorem Window.read_published (h : Window evp dev total k s) {a : Action} {j : Fin ringSlots}
    (hj : readSlot s a = some j) :
    s.consumer.fed.length < k.published ∧ s.consumer.fed.length % ringSlots = j.val := by
  cases a with
  | main ok => cases hj
  | producer count => cases hj
  | consumer ok =>
      simp only [readSlot, Option.ite_none_right_eq_some, Option.some.injEq] at hj
      obtain ⟨hpc, rfl⟩ := hj
      exact ⟨h.available hpc, by rw [h.consumerHead, slotOf_ofNat]⟩

/-- Whatever the calls return and however the threads are interleaved: the consumer has been fed consecutive chunks from
the start of the device, at most eight slots are published and not released, the producer writes none of them, and the
consumer reads no other. -/
theorem ring_kept (evp : Evp) (dev : Bytes) (total : ℕ) (digest : Bytes) (as : List Action) (s : State evp)
    (hrun : run (step evp dev total) (initial evp digest) as = some s) :
    Kept evp dev total (publishedCount evp dev total digest as) (releasedCount evp dev total digest as) s := by
  obtain ⟨k, hk, hpublished, hreleased⟩ := counted_run hrun
  rw [← hpublished, ← hreleased]
  have hlag := hk.lag
  have hconsumed := hk.consumed
  have hslot (i : ℕ) {j : Fin ringSlots} (hj : i % ringSlots ≠ j.val) : slotOf (BitVec.ofNat 32 i) ≠ j := by
    rintro rfl
    exact hj (slotOf_ofNat i).symm
  exact {
    fed := hk.fed
    bytes := by
      rw [hk.fed, chunks_flatten]
      exact List.take_prefix_take_left (Nat.min_le_right _ _)
    sizes := fun i hi => hk.chunk_length (by omega)
    head := hk.ringHead
    tail := hk.ringTail
    window := ⟨by omega, hconsumed, hk.full⟩
    writes := fun a j hj i hlo hhi => hk.written_apart hj hlo hhi
    untouched := fun a t hstep i hlo hhi => by
      apply slots_of_not_written hstep
      intro hj
      exact hslot i (hk.written_apart hj hlo hhi) rfl
    reads := fun a j hj => hk.read_published hj
    unread := fun slots hslots ok => by
      apply consumerStep_congr
      intro j hj
      obtain ⟨hav, hval⟩ := hk.read_published hj
      have hread : slotOf (BitVec.ofNat 32 s.consumer.fed.length) = j := Fin.ext ((slotOf_ofNat _).trans hval)
      rw [← hread]
      exact hslots s.consumer.fed.length (by omega) hav }

def availableSchedule : List Action :=
  [.main true, .main true, .main true] ++ publishOne ++ List.replicate 2 (.consumer true)

theorem ring_kept_one_byte : ∃ s, run (step sampleEvp [0] 1) (initial sampleEvp []) availableSchedule = some s ∧
    readSlot s (.consumer true) = some (slotOf 0) ∧ Kept sampleEvp [0] 1 1 0 s := by
  have ho : (run (step sampleEvp [0] 1) (initial sampleEvp []) availableSchedule).map
      (fun s => readSlot s (.consumer true)) = some (some (slotOf 0)) := by rfl
  obtain ⟨s, hs, hread⟩ := Option.map_eq_some_iff.mp ho
  have hpublished : publishedCount sampleEvp [0] 1 [] availableSchedule = 1 := by rfl
  have hreleased : releasedCount sampleEvp [0] 1 [] availableSchedule = 0 := by rfl
  have h := ring_kept sampleEvp [0] 1 [] availableSchedule s hs
  rw [hpublished, hreleased] at h
  exact ⟨s, hs, hread, h⟩

end SuperRaid.HashRing
