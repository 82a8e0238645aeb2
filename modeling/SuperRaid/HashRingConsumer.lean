import SuperRaid.HashRingInvariant

namespace SuperRaid.HashRing

open Image

variable {evp : Evp} {dev : Bytes} {total : Nat} {k : Counts} {s : State evp}

def ConsumerPc.quiet : ConsumerPc → Bool
  | .loadTail | .storeError | .storeErrorDone | .loadError | .final | .exited => true
  | _ => false

theorem Window.rests (h : Window evp dev total k s) (hlag : s.consumer.pc.lag = 0) {pc : ConsumerPc}
    (hquiet : pc.quiet = true) (done error failed : Bool) (digest : Bytes) :
    Window evp dev total k
      { s with
        ring := { s.ring with done := done, error := error }
        consumer := { s.consumer with pc := pc, error := failed, digest := digest } } where
  __ := h
  lag := by
    have hnone : pc.lag = 0 := by cases pc <;> first | rfl | cases hquiet
    rw [hnone, ← hlag]
    exact h.lag
  staleTail := by rintro rfl; cases hquiet
  available := by rintro rfl; cases hquiet
  fresh := by rintro (rfl | rfl) <;> cases hquiet

theorem Window.consumer (h : Window evp dev total k s) {ok : Bool} {r : Ring} {c : Consumer evp.Ctx}
    (hstep : consumerStep evp s.ring s.consumer ok = some (r, c)) :
    ∃ k', Window evp dev total k' { s with ring := r, consumer := c } := by
  have hlag := h.lag
  cases hpc : s.consumer.pc with
  | idle | exited => simp [consumerStep, hpc] at hstep
  | init =>
      have hfed := h.fresh (Or.inr hpc)
      rw [hpc] at hlag
      simp only [consumerStep, hpc] at hstep
      split at hstep <;> cases hstep
      · exact ⟨k, { h with
          lag := hlag
          staleTail := by simp
          available := by simp
          ctx := by dsimp only; rw [hfed]; rfl
          fresh := fun _ => hfed }⟩
      · exact ⟨k, h.rests (by rw [hpc]; rfl) (by rfl) _ _ _ _⟩
  | loadTail =>
      rw [hpc] at hlag
      simp only [consumerStep, hpc, Option.some.injEq, Prod.mk.injEq] at hstep
      obtain ⟨rfl, rfl⟩ := hstep
      by_cases hlt : s.consumer.head < s.ring.tail
      · have hne : s.consumer.fed.length ≠ k.published := by
          intro he
          rw [h.consumerHead, h.ringTail, he] at hlt
          exact absurd hlt (BitVec.lt_irrefl _)
        have hav := lt_of_le_of_ne h.consumed hne
        simp only [hlt, if_true]
        exact ⟨{ k with consumerTail := k.published }, { h with
          consumerTail := h.ringTail
          lag := hlag
          staleTail := by simp
          available := fun _ => hav
          fresh := by simp }⟩
      · simp only [hlt, if_false]
        exact ⟨{ k with consumerTail := k.published }, { h with
          consumerTail := h.ringTail
          lag := hlag
          staleTail := fun _ => ⟨h.consumed, le_rfl⟩
          available := by simp
          fresh := by simp }⟩
  | loadDone =>
      simp only [consumerStep, hpc, Option.some.injEq, Prod.mk.injEq] at hstep
      obtain ⟨rfl, rfl⟩ := hstep
      split <;> exact ⟨k, h.rests (by rw [hpc]; rfl) (by rfl) _ _ _ _⟩
  | update =>
      rw [hpc] at hlag
      have hav := h.available hpc
      have hbytes := h.slots _ le_rfl hav
      rw [← h.consumerHead] at hbytes
      simp only [consumerStep, hpc] at hstep
      split at hstep <;> cases hstep
      · exact ⟨k, { h with
          consumerHead := by
            simp only [List.length_append, List.length_singleton]
            rw [h.consumerHead, BitVec.ofNat_add]
            rfl
          lag := by simp only [List.length_append, List.length_singleton]; rw [← hlag]; rfl
          consumed := by simp only [List.length_append, List.length_singleton]; exact hav
          staleTail := by simp
          available := by simp
          fed := by
            simp only [List.length_append, List.length_singleton, List.range_succ, List.map_append,
              List.map_singleton]
            rw [← h.fed, hbytes]
          ctx := by simp only [List.foldl_append, List.foldl_cons, List.foldl_nil]; rw [h.ctx]
          slots := fun i hi hik => h.slots i (by
            simp only [List.length_append, List.length_singleton] at hi; omega) hik
          fresh := by simp }⟩
      · exact ⟨k, h.rests (by rw [hpc]; rfl) (by rfl) _ _ _ _⟩
  | storeHead =>
      rw [hpc] at hlag
      simp only [ConsumerPc.lag] at hlag
      simp only [consumerStep, hpc, Option.some.injEq, Prod.mk.injEq] at hstep
      obtain ⟨rfl, rfl⟩ := hstep
      exact ⟨{ k with ringHead := s.consumer.fed.length }, { h with
        ringHead := h.consumerHead
        lag := rfl
        full := by have := h.full; dsimp only; omega
        staleHead := by have := h.staleHead; dsimp only; omega
        staleTail := by simp
        available := by simp
        fresh := by simp }⟩
  | storeError | storeErrorDone =>
      simp only [consumerStep, hpc, Option.some.injEq, Prod.mk.injEq] at hstep
      obtain ⟨rfl, rfl⟩ := hstep
      exact ⟨k, h.rests (by rw [hpc]; rfl) (by rfl) _ _ _ _⟩
  | loadError =>
      simp only [consumerStep, hpc, Option.some.injEq, Prod.mk.injEq] at hstep
      obtain ⟨rfl, rfl⟩ := hstep
      split <;> exact ⟨k, h.rests (by rw [hpc]; rfl) (by rfl) _ _ _ _⟩
  | final =>
      simp only [consumerStep, hpc] at hstep
      split at hstep <;> cases hstep <;>
        exact ⟨k, h.rests (by rw [hpc]; rfl) (by rfl) _ _ _ _⟩

end SuperRaid.HashRing
