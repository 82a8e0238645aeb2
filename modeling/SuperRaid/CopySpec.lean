import SuperRaid.StorageSpec

namespace SuperRaid.CopySpec

open Image Footer Volatile Sys Machine Storage Calls StorageSpec

variable {env : Env} {L : Layout} {t : Bool} {P : World → Prop} {C : World → Prop}
variable {source destination : Target} {sourceOffset length : Nat}

theorem meets_fsync {d : Dev} {Q : Bool → World → Prop} (hP : Stable env P) (hC : ∀ w, P w → C w)
    (hok : ∀ w, P w → Q true (w.sync d)) (hfail : t = false → ∀ w, P w → Q false w) :
    Meets t 1 P (fsync (.part d) : Run env Bool) Q C := by
  unfold fsync
  refine Meets.call hP hC (fun r w hr hw => ?_)
  cases h : r.ok with
  | true => exact hok w hw
  | false => exact hfail (hr.not_failed (by simp [h])) w hw

def Copied (L : Layout) (P : World → Prop) (node : Node) (off : Nat) (buffer : Bytes) : Prop :=
  ∀ X, Reads L P node off buffer.length X → buffer = X

/-- What holds while a copy runs, I, and after it, S, can be relied on between its calls. -/
structure CopyFrame (env : Env) (I : Nat → World → Prop) (S C : World → Prop) : Prop where
  stable : ∀ k, Stable env (I k)
  safe : ∀ k w, I k w → C w
  stable_done : Stable env S
  safe_done : ∀ w, S w → C w

/-- A copy to d moves I on as its bytes arrive, and its flush ends in S. -/
structure Copies (L : Layout) (node : Node) (sourceOffset length : Nat) (d : Dev) (I : Nat → World → Prop)
    (S : World → Prop) : Prop where
  write : ∀ k buffer, k + buffer.length ≤ length → Copied L (I k) node (sourceOffset + k) buffer →
    ∀ j i w, I (k + j) w → 0 < i → j + i ≤ buffer.length →
      I (k + (j + i)) (w.write d (k + j) (slice buffer j i))
  done : ∀ w, I length w → S (w.sync d)

structure CopyReady (L : Layout) (I : Nat → World → Prop) (source : Target) (sourceOffset length : Nat) (d : Dev) :
    Prop where
  pos : 0 < length
  range : sourceOffset + length ≤ source.size
  size : L.size d = length
  aligned : sourceOffset % source.logicalSize = 0 ∧ length % source.logicalSize = 0 ∧ length % L.logical d = 0
  supported : supported (L.target (.part d)) = true
  idle : ∀ w, I 0 w → w.busy (.part d) = false
  reads : ∀ k i, k + i ≤ length → ∃ X, Reads L (I k) source.node (sourceOffset + k) i X ∧ X.length = i

variable {d : Dev} {I : Nat → World → Prop} {S : World → Prop}

theorem CopyFrame.copied (h : CopyFrame env I S C) : CopyFrame env I (fun w => ∃ _ : Bytes, S w) C where
  stable := h.stable
  safe := h.safe
  stable_done w r hw := ⟨[], h.stable_done w r hw.choose_spec⟩
  safe_done w hw := h.safe_done w hw.choose_spec

theorem Copies.copied {node : Node} (h : Copies L node sourceOffset length d I S) :
    Copies L node sourceOffset length d I (fun w => ∃ _ : Bytes, S w) where
  write := h.write
  done w hw := ⟨[], h.done w hw⟩

def CopyEnds (I : Nat → World → Prop) (S : World → Prop) (b : Bool) (w : World) : Prop :=
  if b = true then S w else ∃ k, I k w

theorem CopyFrame.stable_ends (h : CopyFrame env I S C) (b : Bool) : Stable env (CopyEnds I S b) := by
  cases b with
  | true => exact h.stable_done
  | false => exact fun w r ⟨k, hk⟩ => ⟨k, h.stable k w r hk⟩

theorem CopyFrame.safe_ends (h : CopyFrame env I S C) (b : Bool) (w : World) (hw : CopyEnds I S b w) : C w := by
  cases b with
  | true => exact h.safe_done w hw
  | false =>
      obtain ⟨k, hk⟩ := hw
      exact h.safe k w hk

theorem meets_copyLoop (hframe : CopyFrame env I S C) (h : Copies L source.node sourceOffset length d I S)
    (hd : destination.node = .part d) (hlen : length = L.size d)
    (hready : t = true → CopyReady L I source sourceOffset length d)
    (fuel offset : Nat) (hfuel : length ≤ offset + fuel) (hle : offset ≤ length) :
    Meets t (2 * (length - offset)) (I offset)
      (copyLoop L source sourceOffset length destination fuel offset : Run env Bool)
      (fun b w => ((b = true → I length w) ∧ ∃ k, I k w) ∧ (t = true → b = true)) C := by
  induction fuel generalizing offset with
  | zero =>
      obtain rfl : offset = length := by omega
      exact Meets.ret (fun w hw => ⟨⟨fun _ => hw, _, hw⟩, fun _ => rfl⟩)
  | succ fuel ih =>
      unfold copyLoop
      split_ifs with hmore
      · have hbuffer : 0 < bufferSize := by decide
        have hcount : offset + min bufferSize (length - offset) ≤ length := by omega
        have hsplit : 2 * (length - offset) = min bufferSize (length - offset) + (min bufferSize (length - offset) +
          2 * (length - (offset + min bufferSize (length - offset)))) := by omega
        rw [hsplit]
        refine Meets.bind (K := fun _ => I offset) (meets_preadFull (hframe.stable offset) (hframe.safe offset))
          (fun res hres => ?_)
        rcases res with _ | buffer
        · refine Meets.ret (fun w hw => ⟨⟨by simp, _, hw⟩, fun ht => ?_⟩)
          obtain ⟨X, hX, hXlen⟩ := (hready ht).reads offset _ hcount
          exact absurd ((hres.2 X hX).2 ht hXlen) (by simp)
        · have hbuf := hres.1 buffer rfl
          have hcopied : Copied L (I offset) source.node (sourceOffset + offset) buffer := fun X hX =>
            (hres.2 X (by rwa [hbuf] at hX)).1 buffer rfl
          have hput : Meets t buffer.length (I (offset + 0)) (pwriteFull L (.part d) offset buffer : Run env Bool)
              (fun b w => ((b = true → I (offset + buffer.length) w) ∧ ∃ k, I (offset + k) w) ∧
                (t = true → offset + buffer.length ≤ L.size d → b = true)) C :=
            meets_pwriteFull (I := fun j => I (offset + j)) (fun j => hframe.stable _) (fun j => hframe.safe _)
              (fun j i w hw hi hfit _ => h.write offset buffer (by omega) hcopied j i w hw hi hfit)
          rw [hbuf] at hput
          dsimp only
          rw [hd]
          refine Meets.bind hput (fun b hb => ?_)
          cases b with
          | true =>
              exact (ih (offset + min bufferSize (length - offset)) (by omega) hcount).pre (fun w hw => hw.1 rfl)
          | false =>
              exact Meets.ret (fun w ⟨_, k, hk⟩ => ⟨⟨by simp, _, hk⟩, fun ht => hb ht (by omega)⟩)
      · obtain rfl : offset = length := by omega
        exact Meets.ret (fun w hw => ⟨⟨fun _ => hw, _, hw⟩, fun _ => rfl⟩)

theorem meets_copyToTarget (hframe : CopyFrame env I S C)
    (hcopies : length = L.size d → Copies L source.node sourceOffset length d I S)
    (hready : t = true → CopyReady L I source sourceOffset length d) :
    Meets t (2 * length + 2) (I 0) (copyToTarget L source sourceOffset length (L.target (.part d)) : Run env Bool)
      (fun b w => CopyEnds I S b w ∧ (t = true → b = true)) C := by
  have hfalse {n : Nat} (hf : t = false) : Meets t n (fun w => ∃ k, I k w) (pure false : Run env Bool)
      (fun b w => CopyEnds I S b w ∧ (t = true → b = true)) C :=
    Meets.ret (fun w hw => ⟨hw, by simp [hf]⟩)
  unfold copyToTarget
  split_ifs with hlayout
  · refine (hfalse ?_).pre (fun w hw => ⟨0, hw⟩)
    cases t with
    | false => rfl
    | true =>
        have := hready rfl
        simp [Layout.target, this.size, this.aligned] at hlayout
  have hsize : length = L.size d := by
    by_contra hne
    exact hlayout (.inl (fun heq => hne heq.symm))
  have h := hcopies hsize
  refine (Meets.branch (n := 2 * length + 1) (hframe.stable 0) (hframe.safe 0) ?_
    (fun ht => (hfalse ht).pre (fun w hw => ⟨0, hw⟩))).mono (by omega)
  refine Meets.bind (meets_copyLoop hframe h rfl hsize hready length 0 (by omega) (Nat.zero_le _)) (fun b hb => ?_)
  cases b with
  | false => exact (hfalse (by cases t <;> simp_all)).pre (fun w hw => hw.2)
  | true =>
      exact (meets_fsync (hframe.stable length) (hframe.safe length) (fun w hw => ⟨h.done w hw, fun _ => rfl⟩)
        (fun ht w hw => ⟨⟨length, hw⟩, by simp [ht]⟩)).pre (fun w hw => hw.1 rfl)

theorem meets_copyBlockRangeFromTarget {path : Path} (hframe : CopyFrame env I S C)
    (h : ∀ d, L.node path = some (.part d) → length = L.size d → Copies L source.node sourceOffset length d I S)
    (hready : t = true → ∃ d, path = L.name d ∧ CopyReady L I source sourceOffset length d) :
    Meets t (2 * length + 7) (I 0) (copyBlockRangeFromTarget L source sourceOffset length path : Run env Bool)
      (fun b w => CopyEnds I S b w ∧ (t = true → b = true)) C := by
  have hfalse {n : Nat} (hf : t = false) : Meets t n (I 0) (pure false : Run env Bool)
      (fun b w => CopyEnds I S b w ∧ (t = true → b = true)) C :=
    Meets.ret (fun w hw => ⟨⟨0, hw⟩, by simp [hf]⟩)
  unfold copyBlockRangeFromTarget
  split_ifs with hrange
  · refine hfalse ?_
    cases t with
    | false => rfl
    | true =>
        obtain ⟨d, -, hd⟩ := hready rfl
        have := hd.pos
        have := hd.range
        omega
  refine (Meets.bind (n := 2 * length + 3) (K := fun _ => I 0)
    (meets_openTarget (hframe.stable 0) (hframe.safe 0)) (fun opened hopened => ?_)).mono (by omega)
  rcases opened with _ | tg
  · refine hfalse ?_
    cases t with
    | false => rfl
    | true =>
        obtain ⟨d, hpath, hd⟩ := hready rfl
        have hopen : Openable L (I 0) path .exclusive (.part d) :=
          ⟨hpath ▸ L.node_name d, hd.supported, fun _ => hd.idle, by simp⟩
        exact absurd (hopened.2 rfl _ hopen) (by simp)
  obtain ⟨node, rfl, hnode, -, hpart⟩ := hopened.1 tg rfl
  cases node with
  | parent => exact absurd rfl (hpart (by decide))
  | part d =>
      have hthis : t = true → CopyReady L I source sourceOffset length d := fun ht => by
        obtain ⟨d', rfl, hd⟩ := hready ht
        obtain rfl : d' = d := Node.part.inj (Option.some.inj ((L.node_name d').symm.trans hnode))
        exact hd
      refine Meets.bind (n := 1) (meets_copyToTarget hframe (h d hnode) hthis) (fun b hb => ?_)
      exact Meets.close (n := 0) (hframe.stable_ends b) (hframe.safe_ends b) (Meets.ret (fun w hw => ⟨hw, hb⟩))

theorem meets_copyFrom {origin path : Path} {range : Target → Nat × Nat} {n : Nat} (hframe : CopyFrame env I S C)
    (h : ∀ node d, L.node origin = some node → L.node path = some (.part d) →
      (range (L.target node)).2 = L.size d →
      Copies L (L.target node).node (range (L.target node)).1 (range (L.target node)).2 d I S)
    (hn : ∀ node, L.node origin = some node → 2 * (range (L.target node)).2 ≤ n)
    (hready : t = true → origin ≠ path ∧ ∃ node d, path = L.name d ∧ Openable L (I 0) origin .read node ∧
      CopyReady L I (L.target node) (range (L.target node)).1 (range (L.target node)).2 d) :
    Meets t (n + 12) (I 0) (copyFrom L origin range path : Run env Bool)
      (fun b w => CopyEnds I S b w ∧ (t = true → b = true)) C := by
  have hfalse {n : Nat} (hf : t = false) : Meets t n (I 0) (pure false : Run env Bool)
      (fun b w => CopyEnds I S b w ∧ (t = true → b = true)) C :=
    Meets.ret (fun w hw => ⟨⟨0, hw⟩, by simp [hf]⟩)
  unfold copyFrom
  split_ifs with hsame
  · exact hfalse (by cases t <;> simp_all)
  refine (Meets.bind (m := 4) (n := n + 8) (K := fun _ => I 0)
    (meets_openTarget (hframe.stable 0) (hframe.safe 0)) (fun opened hopened => ?_)).mono (by omega)
  rcases opened with _ | tg
  · refine hfalse ?_
    cases t with
    | false => rfl
    | true =>
        obtain ⟨-, node, d, -, hopen, -⟩ := hready rfl
        exact absurd (hopened.2 rfl node hopen) (by simp)
  obtain ⟨node, rfl, hnode, -⟩ := hopened.1 tg rfl
  have hlen := hn node hnode
  have hthis : t = true → ∃ d, path = L.name d ∧
      CopyReady L I (L.target node) (range (L.target node)).1 (range (L.target node)).2 d := fun ht => by
    obtain ⟨-, node', d, hpath, hopen, hd⟩ := hready ht
    obtain rfl : node' = node := Option.some.inj (hopen.named.symm.trans hnode)
    exact ⟨d, hpath, hd⟩
  refine (Meets.bind (n := 1) (meets_copyBlockRangeFromTarget hframe (fun d hd => h node d hnode hd) hthis)
    (fun b hb => ?_)).mono (by omega)
  exact Meets.close (n := 0) (hframe.stable_ends b) (hframe.safe_ends b) (Meets.ret (fun w hw => ⟨hw, hb⟩))

end SuperRaid.CopySpec
