import SuperRaid.Calls

namespace SuperRaid.StorageSpec

open Image Sys Machine Storage Calls

variable {env : Env} {L : Layout} {t : Bool} {P : World → Prop} {C : World → Prop}

section Open

variable {path : Path} {access : Access} {node : Node}

def Opened (L : Layout) (path : Path) (access : Access) (tg : Target) : Prop :=
  ∃ node, tg = L.target node ∧ L.node path = some node ∧ supported tg = true ∧
    (access ≠ .read → node ≠ .parent)

structure Openable (L : Layout) (P : World → Prop) (path : Path) (access : Access) (node : Node) : Prop where
  named : L.node path = some node
  supported : supported (L.target node) = true
  idle : access = .exclusive → ∀ w, P w → w.busy node = false
  writable : access ≠ .read → node ≠ .parent

theorem meets_openNode (hP : Stable env P) (hC : ∀ w, P w → C w) :
    Meets t 1 P (openNode node access : Run env Bool)
      (fun b w => P w ∧ (b = true → access ≠ .read → node ≠ .parent) ∧
        (t = true → (access = .exclusive → ∀ w, P w → w.busy node = false) →
          (access ≠ .read → node ≠ .parent) →
          b = true)) C := by
  refine Meets.call hP hC (fun r w hr hw => ⟨hw, fun h hne => ?_, fun ht hidle hwritable => ?_⟩)
  · simp only [Bool.and_eq_true, Bool.or_eq_true, bne_iff_ne, beq_iff_eq] at h
    exact h.2.resolve_left hne
  · have hok := (hr ht).1
    have hexcl : access ≠ .exclusive ∨ w.busy node = false := by
      by_cases h : access = .exclusive
      · exact .inr (hidle h w hw)
      · exact .inl h
    have hread : access = .read ∨ node ≠ .parent := by
      by_cases h : access = .read
      · exact .inl h
      · exact .inr (hwritable h)
    simp [hok, hexcl, hread]

theorem meets_openTarget (hP : Stable env P) (hC : ∀ w, P w → C w) :
    Meets t 4 P (openTarget L path access : Run env (Option Target))
      (fun res w => P w ∧ (∀ tg, res = some tg → Opened L path access tg) ∧
        (t = true → ∀ node, Openable L P path access node → res = some (L.target node))) C := by
  have hnone {n : Nat} (h : ∀ node, Openable L P path access node → t = false) :
      Meets t n P (pure none : Run env (Option Target))
        (fun res w => P w ∧ (∀ tg, res = some tg → Opened L path access tg) ∧
          (t = true → ∀ node, Openable L P path access node → res = some (L.target node))) C := by
    refine Meets.ret (fun w hw => ⟨hw, by simp, fun ht node ho => ?_⟩)
    rw [h node ho] at ht
    exact absurd ht (by decide)
  refine Meets.branch (n := 3) hP hC ?_ (fun ht => hnone (fun _ _ => ht))
  cases hnode : L.node path with
  | none => exact hnone (fun node ho => absurd (hnode.symm.trans ho.named) (by simp))
  | some node =>
      have hunique : ∀ node', Openable L P path access node' → node' = node := fun node' ho =>
        Option.some.inj (ho.named.symm.trans hnode)
      refine Meets.bind (m := 1) (n := 2) (K := fun _ => P) (meets_openNode hP hC) (fun b hb => ?_)
      cases b with
      | false =>
          refine hnone (fun node' ho => ?_)
          rw [hunique node' ho] at ho
          cases t
          · rfl
          · exact absurd (hb.2 rfl ho.idle ho.writable) (by decide)
      | true =>
          refine Meets.branch (n := 1) hP hC ?_ (fun ht => Meets.close (n := 0) hP hC (hnone (fun _ _ => ht)))
          cases hs : supported (L.target node) with
          | true =>
              refine Meets.ret (fun w hw => ⟨hw, fun tg h => ?_, fun _ node' ho => ?_⟩)
              · cases h
                exact ⟨node, rfl, hnode, hs, hb.1 rfl⟩
              · rw [hunique node' ho]
          | false =>
              refine Meets.close (n := 0) hP hC (hnone (fun node' ho => ?_))
              have hs' := ho.supported
              rw [hunique node' ho, hs] at hs'
              exact absurd hs' (by decide)

theorem splitSpec_devices (L : Layout) : splitSpec L.devices = some (L.name .a, L.name .b) := by
  have hplain : ∀ c ∈ L.name .a, decide (c ≠ ':') = true := fun c hc => by
    have : c ≠ ':' := fun h => L.name_plain (h ▸ hc)
    simpa using this
  have hspan : L.devices.span (· ≠ ':') = (L.name .a, ':' :: L.name .b) := by
    rw [Layout.devices, List.span_eq_takeWhile_dropWhile, List.takeWhile_append_of_pos hplain,
      List.dropWhile_append_of_pos hplain]
    simp
  rw [splitSpec, hspan]
  simp [L.name_ne_nil]

theorem meets_splitDevices {spec : Path} (hP : Stable env P) (hC : ∀ w, P w → C w) :
    Meets t 1 P (splitDevices spec : Run env (Option (Path × Path)))
      (fun res w => P w ∧ (∀ pair, res = some pair → splitSpec spec = some pair) ∧
        (t = true → res = splitSpec spec)) C := by
  unfold splitDevices
  cases splitSpec spec with
  | none => exact Meets.ret (fun w hw => ⟨hw, by simp, fun _ => rfl⟩)
  | some pair =>
      refine Meets.branch (n := 0) hP hC (Meets.ret (fun w hw => ⟨hw, by simp, fun _ => rfl⟩))
        (fun ht => Meets.ret (fun w hw => ⟨hw, by simp, by simp [ht]⟩))

end Open

section Transfer

variable {node : Node} {off len : Nat}

/-- The device holds X in this range as long as P does. -/
def Reads (L : Layout) (P : World → Prop) (node : Node) (off len : Nat) (X : Bytes) : Prop :=
  ∀ w, P w → slice (w.content L node) off len = X

theorem Reads.length_le {X : Bytes} (h : Reads L P node off len X) {w : World} (hw : P w) : X.length ≤ len := by
  rw [← h w hw]
  simp [slice]

theorem Reads.extends {X acc : Bytes} {w : World} (h : Reads L P node off len X) (hw : P w)
    (hacc : acc = X.take acc.length) {i : Nat} (hi : acc.length + i ≤ len) :
    acc ++ slice (w.content L node) (off + acc.length) i = X.take (acc.length + i) := by
  calc acc ++ slice (w.content L node) (off + acc.length) i = acc ++ slice X acc.length i := by
        rw [← h w hw, slice_slice hi]
    _ = X.take acc.length ++ slice X acc.length i := congrArg (· ++ slice X acc.length i) hacc
    _ = X.take (acc.length + i) := take_append_slice X acc.length i

/-- pread_full returns what the device holds, if that does not change meanwhile. -/
theorem meets_preadFull (hP : Stable env P) (hC : ∀ w, P w → C w) :
    Meets t len P (preadFull L node off len : Run env (Option Bytes))
      (fun res w => P w ∧ (∀ bs, res = some bs → bs.length = len) ∧ ∀ X, Reads L P node off len X →
        (∀ bs, res = some bs → bs = X) ∧ (t = true → X.length = len → res = some X)) C := by
  unfold preadFull
  split_ifs with hlen
  · refine Meets.ret (fun w hw => ⟨hw, by simp [hlen], fun X hX => ?_⟩)
    have hnil : X = [] := List.length_eq_zero_iff.mp (Nat.le_zero.mp (hlen ▸ hX.length_le hw))
    simp [hnil]
  refine Meets.pre (K := fun w => P w ∧ ([] : Bytes).length < len ∧
    ∀ X, Reads L P node off len X → ([] : Bytes) = X.take ([] : Bytes).length) ?_
    (fun w hw => ⟨hw, by simpa using Nat.pos_of_ne_zero hlen, by simp⟩)
  refine Meets.loopCall (I := fun acc w => P w ∧ acc.length < len ∧
    ∀ X, Reads L P node off len X → acc = X.take acc.length) (c := fun acc => len - acc.length)
    (fun _ w h => hC w h.1) (fun acc w h => by omega) ?_ []
  rintro acc r w hr ⟨hw, hlt, hacc⟩
  have hw' := hP w r hw
  have hle : acc.length + min r.count (len - acc.length) ≤ len := by omega
  unfold preadStep
  dsimp only
  split_ifs with hok hnil hmore hintr
  · refine ⟨hw', by simp, fun X hX => ⟨by simp, fun ht hX' => absurd (congrArg List.length hnil) ?_⟩⟩
    have hcount := (hr ht).2.1
    rw [← slice_slice hle, hX _ hw', slice_length (by omega)]
    simp only [List.length_nil]
    omega
  · have hpos := List.length_pos_iff.mpr hnil
    refine ⟨⟨hw', by rwa [List.length_append], fun X hX => eq_take_length (hX.extends hw' (hacc X hX) hle)⟩, ?_⟩
    rw [List.length_append]
    exact cost_step (by omega)
  · have hgot : (slice ((w.act env r).content L node) (off + acc.length) (min r.count (len - acc.length))).length ≤
        min r.count (len - acc.length) := by simp [slice]
    refine ⟨hw', fun bs h => ?_, fun X hX => ?_⟩
    · rw [← Option.some.inj h, List.length_append]
      omega
    · have hX' := hX.length_le hw'
      have hfull := hX.extends hw' (hacc X hX) hle
      have hcut := congrArg List.length hfull
      rw [List.length_append, List.length_take] at hcut
      rw [hfull, List.take_of_length_le (by omega)]
      exact ⟨fun bs h => (Option.some.inj h).symm, fun _ _ => rfl⟩
  · obtain rfl := hr.not_failed hok
    exact ⟨⟨hw', hlt, hacc⟩, le_top⟩
  · obtain rfl := hr.not_failed hok
    exact ⟨hw', by simp, fun X _ => ⟨by simp, by simp⟩⟩

theorem meets_pwriteFull {I : Nat → World → Prop} {d : Dev} {bs : Bytes} (hI : ∀ k, Stable env (I k))
    (hC : ∀ k w, I k w → C w)
    (hwrite : ∀ k i w, I k w → 0 < i → k + i ≤ bs.length → off + k + i ≤ L.size d →
      I (k + i) (w.write d (off + k) (slice bs k i))) :
    Meets t bs.length (I 0) (pwriteFull L (.part d) off bs : Run env Bool)
      (fun b w => ((b = true → I bs.length w) ∧ ∃ k, I k w) ∧
        (t = true → off + bs.length ≤ L.size d → b = true)) C := by
  unfold pwriteFull
  dsimp only
  split_ifs with hnil
  · refine Meets.ret (fun w hw => ⟨⟨fun _ => ?_, 0, hw⟩, fun _ _ => rfl⟩)
    rwa [hnil]
  have hpos := List.length_pos_iff.mpr hnil
  refine Meets.pre (K := fun w => I 0 w ∧ 0 < bs.length) ?_ (fun w hw => ⟨hw, hpos⟩)
  refine Meets.loopCall (I := fun k w => I k w ∧ k < bs.length) (c := fun k => bs.length - k)
    (fun k w h => hC k w h.1) (fun k w h => by omega) ?_ 0
  rintro k r w hr ⟨hw, hlt⟩
  have hw' := hI k w r hw
  have hmoves : ∀ i, i ≤ L.size d - (off + k) → slice bs k i ≠ [] →
      I (k + (slice bs k i).length) ((w.act env r).write d (off + k) (slice bs k i)) := by
    intro i hi hne
    have hlen := List.length_pos_iff.mpr hne
    have hcut : (slice bs k i).length = min i (bs.length - k) := by simp [slice]
    have h := hwrite k (slice bs k i).length _ hw' hlen (by omega) (by omega)
    rwa [slice_length_self] at h
  unfold pwriteStep
  dsimp only
  have hi : min r.count (L.size d - (off + k)) ≤ L.size d - (off + k) := min_le_right _ _
  split_ifs with hok hempty hmore hintr
  · refine ⟨⟨by simp, k, hw'⟩, fun ht hfit => absurd (congrArg List.length hempty) ?_⟩
    have hcount := (hr ht).2.1
    simp only [slice, List.length_take, List.length_drop, List.length_nil]
    omega
  · have hlen := List.length_pos_iff.mpr hempty
    exact ⟨⟨hmoves _ hi hempty, hmore⟩, cost_step (by omega)⟩
  · have hdone := hmoves _ hi hempty
    have hcut : (slice bs k (min r.count (L.size d - (off + k)))).length ≤ bs.length - k := by simp [slice]
    rw [show k + (slice bs k (min r.count (L.size d - (off + k)))).length = bs.length by omega] at hdone
    exact ⟨⟨fun _ => hdone, _, hdone⟩, fun _ _ => rfl⟩
  · obtain rfl := hr.not_failed hok
    exact ⟨⟨hw', hlt⟩, le_top⟩
  · obtain rfl := hr.not_failed hok
    refine ⟨⟨by simp, ?_⟩, by simp⟩
    by_cases hempty : slice bs k (min r.count (L.size d - (off + k))) = []
    · rw [hempty]
      exact ⟨k, hw'⟩
    · exact ⟨_, hmoves _ hi hempty⟩

end Transfer

end SuperRaid.StorageSpec
