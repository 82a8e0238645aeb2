import SuperRaid.Transfer

namespace SuperRaid.TransferSpec

open Image Footer Sys Transfer

/-- Interrupted calls are made again and weigh nothing. -/
def wt : Reply → Nat
  | .interrupted => 0
  | _ => 1

theorem wt_le_one (r : Reply) : wt r ≤ 1 := by cases r <;> simp [wt]

variable {α : Type} {n : ℕ∞} {P C : State → Prop} {F : Op → Prop}

abbrev Does (n : ℕ∞) (P : State → Prop) (m : Io α) (Q : α → State → Prop) (C : State → Prop) : Prop :=
  Spec (fun _ => True) wt n P m Q C

theorem Does.mono {m : Io α} {Q : α → State → Prop} {k : ℕ∞} (h : Does k P m Q C) (hk : k ≤ n) :
    Does n P m Q C :=
  Spec.conseq h (fun _ h => h) (fun _ _ h => h) (fun _ h => h) hk

theorem Does.ret {a : α} {Q : α → State → Prop} (h : ∀ s, P s → Q a s) : Does n P (pure a) Q C :=
  (Spec.ret h).conseq (fun _ h => h) (fun _ _ h => h) (fun _ h => h) zero_le

theorem Does.pull {A : Prop} {m : Io α} {Q : α → State → Prop} (h : A → Does n P m Q C) :
    Does n (fun s => P s ∧ A) m Q C :=
  fun rs s hG hs => h hs.2 rs s hG hs.1

theorem does_succeeds (hC : ∀ s, P s → C s) : Does 1 P succeeds (fun _ => P) C :=
  Spec.call (fun r _ => wt_le_one r) hC (fun r s _ hs => by cases r <;> exact hs)

theorem does_allSucceed (hC : ∀ s, P s → C s) (k : Nat) : Does k P (allSucceed k) (fun _ => P) C := by
  induction k with
  | zero => exact Does.ret (fun _ h => h)
  | succ k ih =>
      have hcost : ((k + 1 : Nat) : ℕ∞) = 1 + k := by rw [Nat.cast_add, Nat.cast_one, add_comm]
      rw [hcost]
      refine Spec.bind (does_succeeds hC) (fun ok => ?_)
      cases ok with
      | false => exact Does.ret (fun _ h => h)
      | true => exact ih

theorem does_closeTarget (hC : ∀ s, P s → C s) : Does 1 P closeTarget (fun _ => P) C := by
  have h : Does (1 + 0) P closeTarget (fun _ => P) C := Spec.bind (does_succeeds hC) (fun _ => Spec.ret (fun _ h => h))
  rwa [add_zero] at h

def Notes (F : Op → Prop) (P : State → Prop) : Prop := ∀ s op, P s → F op → P (s.note op)

theorem does_sum64 {a b : Nat} (hnote : Notes F P) (hsum : F (.sum a b)) (hsmall : a + b < 2 ^ 64) :
    Does 0 P (sum64 a b) (fun c s => P s ∧ c = a + b) C := by
  have h : Does (0 + 0) P (sum64 a b) (fun c s => P s ∧ c = a + b) C :=
    Spec.bind (Spec.modify (Q := fun _ => P) (fun s hs => hnote s _ hs hsum))
      (fun _ => Spec.ret (fun s hs => ⟨hs, Nat.mod_eq_of_lt hsmall⟩))
  rwa [add_zero] at h

variable {set : Setting} {fd : Fd} {address off : Nat} {b : Bool}

theorem State.flags_put (set : Setting) (s : State) (fd : Fd) (pos : Nat) (bs : Bytes) :
    (s.put set fd pos bs).flags = s.flags := by
  unfold State.put
  split
  · rfl
  · rfl

section Read

variable {len : Nat} {X : Bytes}

theorem does_preadFull (hnote : Notes F P) (hb : ∀ s, P s → s.direct fd = b)
    (hX : ∀ s, P s → slice (s.content fd) off len = X) (hlen : X.length = len) (hsmall : off + len < 2 ^ 64)
    (hsum : ∀ k < len, F (.sum off k))
    (hreq : ∀ k < len, (b = true → set.granule fd ∣ k) →
      F (.request ⟨.pread, fd, address + k, len - k, off + k, b⟩)) :
    Does len P (preadFull set fd address len off) (fun res s => P s ∧ ∀ bs, res = some bs → bs = X) P := by
  unfold preadFull
  split_ifs with hzero
  · refine Does.ret (fun s hs => ⟨hs, fun bs h => ?_⟩)
    rw [← Option.some.inj h]
    exact (List.length_eq_zero_iff.mp (hlen.trans hzero)).symm
  refine Spec.conseq (Spec.loopCall (c := fun acc : Bytes => ((len - acc.length : Nat) : ℕ∞))
    (I := fun acc s => P s ∧ acc = X.take acc.length ∧ acc.length < len ∧
      (b = true → set.granule fd ∣ acc.length))
    (fun r _ => wt_le_one r) (fun _ s h => h.1) (fun acc s h => ?_) ?_ []) (fun s hs => ?_) (fun _ _ h => h)
    (fun _ h => h) le_rfl
  · exact_mod_cast (by omega : 1 ≤ len - acc.length)
  · rintro acc r s - ⟨hs, hacc, hlt, hdvd⟩
    have hpos : (off + acc.length) % 2 ^ 64 = off + acc.length := Nat.mod_eq_of_lt (by omega)
    have hs' : P ((s.note (.sum off acc.length)).note
        (.request ⟨.pread, fd, address + acc.length, len - acc.length, off + acc.length, s.direct fd⟩)) := by
      refine hnote _ _ (hnote _ _ hs (hsum _ hlt)) ?_
      rw [hb s hs]
      exact hreq _ hlt hdvd
    unfold preadStep
    simp only [hpos]
    cases r with
    | interrupted => exact ⟨⟨hs', hacc, hlt, hdvd⟩, by simp [wt]⟩
    | failed => exact ⟨hs', by simp⟩
    | moved count =>
        have hle : acc.length + min (moves set s fd count) (len - acc.length) ≤ len := by omega
        have hgot : slice (s.content fd) (off + acc.length) (min (moves set s fd count) (len - acc.length)) =
            slice X acc.length (min (moves set s fd count) (len - acc.length)) := by
          rw [← hX s hs, slice_slice hle]
        have hgotlen : (slice X acc.length (min (moves set s fd count) (len - acc.length))).length =
            min (moves set s fd count) (len - acc.length) := slice_length (by omega)
        have hjoin : acc ++ slice X acc.length (min (moves set s fd count) (len - acc.length)) =
            X.take (acc.length + min (moves set s fd count) (len - acc.length)) := by
          have h := take_append_slice X acc.length (min (moves set s fd count) (len - acc.length))
          rwa [← hacc] at h
        dsimp only
        rw [hgot]
        split_ifs with hnil hmore
        · exact ⟨hs', by simp⟩
        · rw [hgotlen] at hmore
          have hpos : 0 < min (moves set s fd count) (len - acc.length) := by
            rw [← hgotlen]
            exact List.length_pos_iff.mpr hnil
          refine ⟨⟨hs', ?_, ?_, fun ht => ?_⟩, ?_⟩
          · rw [List.length_append, hgotlen]
            exact hjoin
          · rw [List.length_append, hgotlen]
            exact hmore
          · have hmoves : min (moves set s fd count) (len - acc.length) = count * set.granule fd := by
              have : moves set s fd count = count * set.granule fd := by simp [moves, hb s hs, ht]
              omega
            rw [List.length_append, hgotlen, hmoves]
            exact (hdvd ht).add (Dvd.intro_left count rfl)
          · rw [List.length_append, hgotlen]
            exact_mod_cast (by simp only [wt]; omega :
              len - (acc.length + min (moves set s fd count) (len - acc.length)) + wt (.moved count) ≤
                len - acc.length)
        · rw [hgotlen] at hmore
          refine ⟨hs', fun bs h => ?_⟩
          rw [← Option.some.inj h, hjoin, List.take_of_length_le (by omega)]
  · exact ⟨hs, by simp, by simpa using Nat.pos_of_ne_zero hzero, by simp⟩

end Read

section Write

variable {I : Nat → State → Prop} {bs : Bytes}

theorem does_pwriteFull (hnote : ∀ k, Notes F (I k)) (hb : ∀ k s, I k s → s.direct fd = b)
    (hfit : ∀ k < bs.length, ∀ s, I k s → off + bs.length ≤ (s.content fd).length)
    (hsmall : off + bs.length < 2 ^ 64) (hsum : ∀ k < bs.length, F (.sum off k))
    (hreq : ∀ k < bs.length, (b = true → set.granule fd ∣ k) →
      F (.request ⟨.pwrite, fd, address + k, bs.length - k, off + k, b⟩))
    (hput : ∀ k i s, I k s → 0 < i → k + i ≤ bs.length → I (k + i) (s.put set fd (off + k) (slice bs k i))) :
    Does bs.length (I 0) (pwriteFull set fd address bs off)
      (fun ok s => (ok = true → I bs.length s) ∧ ∃ k ≤ bs.length, I k s)
      (fun s => ∃ k ≤ bs.length, I k s) := by
  unfold pwriteFull
  split_ifs with hnil
  · refine Does.ret (fun s hs => ⟨fun _ => ?_, 0, Nat.zero_le _, hs⟩)
    rwa [hnil]
  refine Spec.conseq (Spec.loopCall (c := fun k : Nat => ((bs.length - k : Nat) : ℕ∞))
    (I := fun k s => I k s ∧ k < bs.length ∧ (b = true → set.granule fd ∣ k))
    (fun r _ => wt_le_one r) (fun k s h => ⟨k, h.2.1.le, h.1⟩) (fun k s h => ?_) ?_ 0) (fun s hs => ?_)
    (fun _ _ h => h) (fun _ h => h) le_rfl
  · exact_mod_cast (by omega : 1 ≤ bs.length - k)
  · rintro k r s - ⟨hs, hlt, hdvd⟩
    have hpos : (off + k) % 2 ^ 64 = off + k := Nat.mod_eq_of_lt (by omega)
    have hs' : I k ((s.note (.sum off k)).note
        (.request ⟨.pwrite, fd, address + k, bs.length - k, off + k, s.direct fd⟩)) := by
      refine hnote k _ _ (hnote k _ _ hs (hsum k hlt)) ?_
      rw [hb k s hs]
      exact hreq k hlt hdvd
    unfold pwriteStep
    simp only [hpos]
    cases r with
    | interrupted => exact ⟨⟨hs', hlt, hdvd⟩, by simp [wt]⟩
    | failed => exact ⟨by simp, k, hlt.le, hs'⟩
    | moved count =>
        have hroom := hfit k hlt s hs
        have hlen : (slice bs k (min (moves set s fd count) ((s.content fd).length - (off + k)))).length =
            min (min (moves set s fd count) ((s.content fd).length - (off + k))) (bs.length - k) := by simp [slice]
        dsimp only
        split_ifs with hempty hmore
        · exact ⟨by simp, k, hlt.le, hs'⟩
        · have hi := List.length_pos_iff.mpr hempty
          have hnext := hput k _ _ hs' hi (by omega)
          rw [slice_length_self] at hnext
          refine ⟨⟨hnext, hmore, fun ht => ?_⟩, ?_⟩
          · have hmoves : moves set s fd count = count * set.granule fd := by simp [moves, hb k s hs, ht]
            have hall : (slice bs k (min (moves set s fd count) ((s.content fd).length - (off + k)))).length =
                count * set.granule fd := by omega
            rw [hall]
            exact (hdvd ht).add (Dvd.intro_left count rfl)
          · have hstep : bs.length - (k + (slice bs k (min (moves set s fd count)
                ((s.content fd).length - (off + k)))).length) + wt (.moved count) ≤ bs.length - k := by
              simp only [wt]
              omega
            exact_mod_cast hstep
        · have hi := List.length_pos_iff.mpr hempty
          have hnext := hput k _ _ hs' hi (by omega)
          rw [slice_length_self] at hnext
          have hall : k + (slice bs k (min (moves set s fd count) ((s.content fd).length - (off + k)))).length =
              bs.length := by omega
          rw [hall] at hnext
          exact ⟨fun _ => hnext, bs.length, le_rfl, hnext⟩
  · exact ⟨hs, List.length_pos_iff.mpr hnil, by simp⟩

end Write

end SuperRaid.TransferSpec
