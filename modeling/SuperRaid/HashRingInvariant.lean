import SuperRaid.HashRing

namespace SuperRaid.HashRing

open Image

def chunkAt (dev : Bytes) (total i : Nat) : Bytes := slice dev (i * chunkSize) (want total (i * chunkSize))

/-- The counters before reduction modulo 2^32, with the two views that one
thread holds of the other's counter. -/
structure Counts where
  published : Nat
  ringHead : Nat
  producerHead : Nat
  consumerTail : Nat

def ProducerPc.working : ProducerPc → Bool
  | .loadHead | .loadError | .read | .setLen | .storeTail => true
  | _ => false

def ProducerPc.owning : ProducerPc → Bool
  | .read | .setLen | .storeTail => true
  | _ => false

def ConsumerPc.lag : ConsumerPc → Nat
  | .storeHead => 1
  | _ => 0

/-- The representation invariant of the ring: a window of at most eight
published slots, each holding its chunk of the device. -/
structure Window (evp : Evp) (dev : Bytes) (total : Nat) (k : Counts) (s : State evp) : Prop where
  offset : s.producer.offset = min (k.published * chunkSize) total
  device : s.producer.offset ≤ dev.length
  producerTail : s.producer.tail = BitVec.ofNat 32 k.published
  ringTail : s.ring.tail = BitVec.ofNat 32 k.published
  ringHead : s.ring.head = BitVec.ofNat 32 k.ringHead
  producerHead : s.producer.head = BitVec.ofNat 32 k.producerHead
  consumerHead : s.consumer.head = BitVec.ofNat 32 s.consumer.fed.length
  consumerTail : s.consumer.tail = BitVec.ofNat 32 k.consumerTail
  lag : k.ringHead + s.consumer.pc.lag = s.consumer.fed.length
  consumed : s.consumer.fed.length ≤ k.published
  full : k.published ≤ k.ringHead + ringSlots
  staleHead : k.producerHead ≤ k.ringHead
  loaded : s.producer.pc = .loadError → k.published ≤ k.producerHead + ringSlots
  room : s.producer.pc.owning → k.published < k.producerHead + ringSlots
  more : s.producer.pc.working → k.published * chunkSize < total
  counted : k.published = 0 ∨ (k.published - 1) * chunkSize < total
  staleTail : s.consumer.pc = .loadDone → s.consumer.fed.length ≤ k.consumerTail ∧ k.consumerTail ≤ k.published
  available : s.consumer.pc = .update → s.consumer.fed.length < k.published
  fed : s.consumer.fed = (List.range s.consumer.fed.length).map (chunkAt dev total)
  ctx : s.consumer.ctx = s.consumer.fed.foldl evp.update evp.init
  slots : ∀ i, s.consumer.fed.length ≤ i → i < k.published →
    (s.ring.slots (slotOf (BitVec.ofNat 32 i))).data.take (s.ring.slots (slotOf (BitVec.ofNat 32 i))).len =
      chunkAt dev total i
  filled : s.producer.pc = .setLen → s.producer.offset + want total s.producer.offset ≤ dev.length ∧
    (s.ring.slots (slotOf s.producer.tail)).data.take (want total s.producer.offset) = chunkAt dev total k.published
  sized : s.producer.pc = .storeTail → s.producer.offset + want total s.producer.offset ≤ dev.length ∧
    (s.ring.slots (slotOf s.producer.tail)).data.take (s.ring.slots (slotOf s.producer.tail)).len =
      chunkAt dev total k.published
  fresh : s.consumer.pc = .idle ∨ s.consumer.pc = .init → s.consumer.fed = []
  unstarted : s.producer.pc = .idle → k.published = 0

theorem slotOf_ofNat (i : Nat) : (slotOf (BitVec.ofNat 32 i)).val = i % ringSlots := by
  simp only [slotOf, BitVec.toNat_ofNat, ringSlots]
  omega

theorem slotOf_ne {i j : Nat} (hij : i < j) (hj : j < i + ringSlots) :
    slotOf (BitVec.ofNat 32 i) ≠ slotOf (BitVec.ofNat 32 j) := by
  intro h
  have hv := congrArg Fin.val h
  rw [slotOf_ofNat, slotOf_ofNat] at hv
  simp only [ringSlots] at hv hj
  omega

theorem ofNat_eq_iff {i j : Nat} (hij : i ≤ j) (hj : j ≤ i + ringSlots) :
    BitVec.ofNat 32 i = BitVec.ofNat 32 j ↔ i = j := by
  constructor
  · intro h
    have hn := congrArg BitVec.toNat h
    simp only [BitVec.toNat_ofNat, ringSlots] at hn hj
    omega
  · rintro rfl; rfl

theorem sub_lt_slots {i j : Nat} (hij : i ≤ j) (hj : j ≤ i + ringSlots)
    (h : BitVec.ofNat 32 j - BitVec.ofNat 32 i < 8) : j < i + ringSlots := by
  have hn : (BitVec.ofNat 32 j - BitVec.ofNat 32 i).toNat < 8 := h
  simp only [BitVec.toNat_sub, BitVec.toNat_ofNat, ringSlots] at hn hj ⊢
  omega

theorem want_pos {total offset : Nat} (h : offset < total) : 0 < want total offset := by
  unfold want chunkSize
  split <;> omega

theorem advance {total n : Nat} (h : n * chunkSize < total) :
    n * chunkSize + want total (n * chunkSize) = min ((n + 1) * chunkSize) total := by
  unfold want
  rw [Nat.add_mul]
  split <;> omega

theorem overwrite_take (data bs : Bytes) (n : Nat) (h : n ≤ bs.length) :
    (overwrite data 0 bs).take n = bs.take n := by
  simp [overwrite, List.take_append_of_le_length, h]

theorem slice_take (dev : Bytes) (off n m : Nat) (h : m ≤ n) : (slice dev off n).take m = slice dev off m := by
  simp [slice, List.take_take, Nat.min_eq_left h]

variable {evp : Evp} {dev : Bytes} {total : Nat} {k : Counts} {s : State evp}

theorem Window.offset_eq (h : Window evp dev total k s) (hw : s.producer.pc.working) :
    s.producer.offset = k.published * chunkSize := by
  rw [h.offset, Nat.min_eq_left (h.more hw).le]

theorem Window.other_slot (h : Window evp dev total k s) (ho : s.producer.pc.owning) (d : Slot) {i : Nat}
    (hi : s.consumer.fed.length ≤ i) (hik : i < k.published) :
    Function.update s.ring.slots (slotOf s.producer.tail) d (slotOf (BitVec.ofNat 32 i)) =
      s.ring.slots (slotOf (BitVec.ofNat 32 i)) := by
  have hroom := h.room ho
  apply Function.update_of_ne
  rw [h.producerTail]
  exact slotOf_ne hik (by have := h.lag; have := h.staleHead; omega)

theorem producerLoop_eq (total offset : Nat) :
    (offset < total ∧ producerLoop total offset = .loadHead) ∨
      (total ≤ offset ∧ producerLoop total offset = .storeDone) := by
  unfold producerLoop
  split <;> simp_all

theorem Window.leaves (h : Window evp dev total k s) {pc : ProducerPc} (hworking : pc.working = false)
    (hidle : pc ≠ .idle) (done error : Bool) :
    Window evp dev total k
      { s with ring := { s.ring with done := done, error := error }, producer := { s.producer with pc := pc } } where
  __ := h
  loaded := by rintro rfl; cases hworking
  room := by cases pc <;> simp_all [ProducerPc.owning, ProducerPc.working]
  more := by simp [hworking]
  filled := by rintro rfl; cases hworking
  sized := by rintro rfl; cases hworking
  unstarted := fun he => absurd he hidle

theorem Window.producer (h : Window evp dev total k s) {count : Option Nat} {r : Ring} {p : Producer}
    (hstep : producerStep dev total s.ring s.producer count = some (r, p)) :
    ∃ k', Window evp dev total k' { s with ring := r, producer := p } := by
  cases hpc : s.producer.pc with
  | idle | exited => simp [producerStep, hpc] at hstep
  | loadHead =>
      simp only [producerStep, hpc, Option.some.injEq, Prod.mk.injEq] at hstep
      obtain ⟨rfl, rfl⟩ := hstep
      exact ⟨{ k with producerHead := k.ringHead }, { h with
        producerHead := h.ringHead
        staleHead := le_rfl
        loaded := fun _ => h.full
        room := by simp [ProducerPc.owning]
        more := fun _ => h.more (by rw [hpc]; rfl)
        filled := by simp
        sized := by simp
        unstarted := by simp }⟩
  | loadError =>
      have hmore := h.more (by rw [hpc]; rfl)
      simp only [producerStep, hpc] at hstep
      split at hstep
      · cases hstep
        exact ⟨k, h.leaves (by rfl) (by decide) s.ring.done s.ring.error⟩
      · split at hstep
        · rename_i hlt
          cases hstep
          rw [h.producerTail, h.producerHead] at hlt
          have hroom := sub_lt_slots (by have := h.lag; have := h.consumed; have := h.staleHead; omega)
            (h.loaded hpc) hlt
          exact ⟨k, { h with
            loaded := by simp, room := fun _ => hroom, more := fun _ => hmore, filled := by simp, sized := by simp,
            unstarted := by simp }⟩
        · cases hstep
          exact ⟨k, { h with
            loaded := by simp, room := by simp [ProducerPc.owning], more := fun _ => hmore, filled := by simp,
            sized := by simp,
            unstarted := by simp }⟩
  | read =>
      have ho : s.producer.pc.owning := by rw [hpc]; rfl
      have hmore := h.more (by rw [hpc]; rfl)
      have hoff := h.offset_eq (by rw [hpc]; rfl)
      simp only [producerStep, hpc] at hstep
      cases count with
      | none =>
          cases hstep
          exact ⟨k, h.leaves (by rfl) (by decide) s.ring.done s.ring.error⟩
      | some n =>
          dsimp only at hstep
          split at hstep
          · rename_i hn
            split at hstep
            · cases hstep
              exact ⟨k, { h with
                loaded := by simp, room := by simp [ProducerPc.owning], more := by simp [ProducerPc.working],
                filled := by simp, sized := by simp, unstarted := by simp
                slots := fun i hi hik => by simpa only [h.other_slot ho _ hi hik] using h.slots i hi hik }⟩
            · rename_i hw
              cases hstep
              have hdev := h.device
              have hlen : (slice dev s.producer.offset n).length = n := by
                simp only [slice, List.length_take, List.length_drop]; omega
              have hdata : (overwrite (s.ring.slots (slotOf s.producer.tail)).data 0
                  (slice dev s.producer.offset n)).take (want total s.producer.offset) =
                  chunkAt dev total k.published := by
                rw [overwrite_take _ _ _ (by omega), slice_take _ _ _ _ (by omega), chunkAt, hoff]
              exact ⟨k, { h with
                loaded := by simp
                room := fun _ => h.room ho
                more := fun _ => hmore
                filled := fun _ => ⟨by dsimp only; omega, by simpa only [Function.update_self] using hdata⟩
                sized := by simp
                unstarted := by simp
                slots := fun i hi hik => by simpa only [h.other_slot ho _ hi hik] using h.slots i hi hik }⟩
          · cases hstep
  | setLen =>
      have ho : s.producer.pc.owning := by rw [hpc]; rfl
      have hmore := h.more (by rw [hpc]; rfl)
      obtain ⟨hdev, hdata⟩ := h.filled hpc
      simp only [producerStep, hpc, Option.some.injEq, Prod.mk.injEq] at hstep
      obtain ⟨rfl, rfl⟩ := hstep
      exact ⟨k, { h with
        loaded := by simp
        room := fun _ => h.room ho
        more := fun _ => hmore
        filled := by simp
        unstarted := by simp
        sized := fun _ => ⟨hdev, by simp only [Function.update_self]; exact hdata⟩
        slots := fun i hi hik => by simpa only [h.other_slot ho _ hi hik] using h.slots i hi hik }⟩
  | storeTail =>
      have hroom := h.room (by rw [hpc]; rfl)
      have hmore := h.more (by rw [hpc]; rfl)
      have hoff := h.offset_eq (by rw [hpc]; rfl)
      obtain ⟨hdev, hdata⟩ := h.sized hpc
      simp only [producerStep, hpc, Option.some.injEq, Prod.mk.injEq] at hstep
      obtain ⟨rfl, rfl⟩ := hstep
      have htail : s.producer.tail + 1 = BitVec.ofNat 32 (k.published + 1) := by
        rw [h.producerTail, BitVec.ofNat_add]
        rfl
      have hnext : s.producer.offset + want total s.producer.offset = min ((k.published + 1) * chunkSize) total := by
        rw [hoff, advance hmore]
      have hloop := producerLoop_eq total (s.producer.offset + want total s.producer.offset)
      have hslots : ∀ i, s.consumer.fed.length ≤ i → i < k.published + 1 →
          (s.ring.slots (slotOf (BitVec.ofNat 32 i))).data.take (s.ring.slots (slotOf (BitVec.ofNat 32 i))).len =
            chunkAt dev total i := by
        intro i hi hik
        rcases Nat.lt_succ_iff_lt_or_eq.mp hik with hlt | rfl
        · exact h.slots i hi hlt
        · rw [← h.producerTail]; exact hdata
      exact ⟨{ k with published := k.published + 1 }, { h with
        offset := hnext
        device := hdev
        producerTail := htail
        ringTail := htail
        consumed := Nat.le_succ_of_le h.consumed
        full := by have := h.staleHead; dsimp only; omega
        loaded := by rcases hloop with ⟨_, e⟩ | ⟨_, e⟩ <;> simp [e]
        room := by rcases hloop with ⟨_, e⟩ | ⟨_, e⟩ <;> simp [e, ProducerPc.owning]
        more := by rcases hloop with ⟨_, e⟩ | ⟨_, e⟩ <;> simp [e, ProducerPc.working]; omega
        counted := Or.inr hmore
        staleTail := fun hc => ⟨(h.staleTail hc).1, Nat.le_succ_of_le (h.staleTail hc).2⟩
        available := fun hc => Nat.lt_succ_of_lt (h.available hc)
        filled := by rcases hloop with ⟨_, e⟩ | ⟨_, e⟩ <;> simp [e]
        sized := by rcases hloop with ⟨_, e⟩ | ⟨_, e⟩ <;> simp [e]
        unstarted := by rcases hloop with ⟨_, e⟩ | ⟨_, e⟩ <;> simp [e]
        slots := hslots }⟩
  | storeError | storeErrorDone | storeDone =>
      simp only [producerStep, hpc, Option.some.injEq, Prod.mk.injEq] at hstep
      obtain ⟨rfl, rfl⟩ := hstep
      exact ⟨k, h.leaves (by rfl) (by decide) _ _⟩

end SuperRaid.HashRing
