import SuperRaid.HashRingDigest
import SuperRaid.TransferRange

namespace SuperRaid.DirectIo

open Image Footer Sys FileFlags Transfer TransferSpec TransferCopy TransferRange

section Hash

open HashRing

def slotStride : Nat := (chunkSize + 511) / 512 * 512

/-- The pread of the producer thread, into the buffer at an address. -/
def producerRequest (buffer total : Nat) (p : Producer) : Request :=
  ⟨.pread, .source, buffer + (slotOf p.tail).val * slotStride, alignedWant total p.offset, p.offset, true⟩

theorem alignedWant_eq {total offset : Nat} (h : 512 ∣ want total offset) :
    alignedWant total offset = want total offset := by
  unfold alignedWant
  omega

theorem dvd_want {block total offset : Nat} (hchunk : block ∣ chunkSize) (htotal : block ∣ total)
    (hoffset : block ∣ offset) : block ∣ want total offset := by
  unfold want
  split_ifs
  · exact Nat.dvd_sub htotal hoffset
  · exact hchunk

variable {evp : Evp} {dev : Bytes} {total : Nat} {s : HashRing.State evp}

theorem producerRequest_aligned {set : Setting} {buffer : Nat} (hblock : 512 ≤ set.logical .source)
    (hdivides : set.logical .source ∣ 4096) (htotal : set.logical .source ∣ total) (hdev : total ≤ dev.length)
    (hbuffer : 512 ∣ buffer) (h : Safe evp dev total s) (hpc : s.producer.pc = .read) :
    Aligned set (producerRequest buffer total s.producer) ∧
      s.producer.offset + alignedWant total s.producer.offset ≤ dev.length := by
  obtain ⟨-, k, hk⟩ := h
  have hoffset : s.producer.offset = k.published * chunkSize := hk.offset_eq (by rw [hpc]; rfl)
  have hmore : k.published * chunkSize < total := hk.more (by rw [hpc]; rfl)
  have hchunk : set.logical .source ∣ chunkSize := hdivides.trans (by decide)
  have hstart : set.logical .source ∣ s.producer.offset := by
    rw [hoffset]
    exact hchunk.mul_left _
  have hwant : set.logical .source ∣ want total s.producer.offset := dvd_want hchunk htotal hstart
  have hexact := alignedWant_eq ((dvd_of_dvd_4096 hdivides hblock).trans hwant)
  have hstride : 512 ∣ slotStride := by decide
  refine ⟨⟨hstart, ?_, hbuffer.add (hstride.mul_left _)⟩, ?_⟩
  · show set.logical .source ∣ alignedWant total s.producer.offset
    rw [hexact]
    exact hwant
  · rw [hexact, hoffset, advance hmore]
    exact (min_le_right _ _).trans hdev

end Hash

section Copy

def sourceTarget (set : Setting) (s : State) : Target := ⟨(s.content .source).length, set.logical .source⟩

def rangeJob (set : Setting) (range : Target → Nat × Nat) (s : State) : Job :=
  ⟨set, (range (sourceTarget set s)).1, (range (sourceTarget set s)).2, s⟩

theorem does_copyFrom {set : Setting} (range : Target → Nat × Nat) {s₀ : State} (hinside : Inside set s₀) :
    Does ⊤ (Copying (rangeJob set range s₀) 0) (copyFrom set range) (fun _ => Partly (rangeJob set range s₀))
      (Partly (rangeJob set range s₀)) := by
  have hopen := does_openTarget set .source (oRdonly ||| oDirect) (s₀.content .source).length
    (P := Copying (rangeJob set range s₀) 0) (C := Partly (rangeJob set range s₀))
    (O := fun s => Copying (rangeJob set range s₀) 0 s ∧ s.direct .source = true)
    (fun s hs => ⟨0, Nat.zero_le _, hs⟩) (fun s hs => ⟨0, Nat.zero_le _, hs.1⟩)
    (fun s hs => ⟨hs.same rfl rfl, direct_opened s .source oRdonly⟩) (fun s hs => hs.1.sizes .source)
  have hcost : (6 : ℕ∞) + (((2 * (rangeJob set range s₀).length + 9 : Nat) : ℕ∞) + (1 + 0)) ≤ ⊤ := le_top
  unfold copyFrom
  refine Does.mono (Spec.bind hopen (fun res => ?_)) hcost
  cases res with
  | none => exact Does.ret (fun s hs => hs)
  | some target =>
      refine Spec.conseq (Does.pull (fun ht => ?_)) (fun s hs => ⟨hs.1, hs.2⟩) (fun _ _ hs => hs) (fun _ hs => hs)
        le_rfl
      obtain rfl : target = sourceTarget set s₀ := ht.1
      refine Spec.bind (does_copyBlockRangeFromTarget true ht.1 ht.2 hinside) (fun ok => ?_)
      exact Spec.bind (does_closeTarget (fun s hs => hs.2)) (fun _ => Spec.ret (fun s hs => hs.2))

end Copy

section Descriptor

/-- Since before, transfers were asked for in buffered mode only. -/
def Buffered (before : State) (s : State) : Prop :=
  ∃ new, s.trace = new ++ before.trace ∧ ∀ q, Op.request q ∈ new → q.direct = false

/-- On a return, the flags are as they were or the call to restore them failed. -/
def Settled (before : State) (fd : Fd) (s : State) : Prop :=
  ∃ new, s.trace = new ++ before.trace ∧ (∀ q, Op.request q ∈ new → q.direct = false) ∧
    (s.flags = before.flags ∨ Op.setFlags (before.flags fd) false ∈ new)

structure Careful (before : State) (fd : Fd) (flags : Fd → BitVec 32) (s : State) : Prop where
  flags : s.flags = flags
  size : (s.content fd).length = (before.content fd).length
  trace : Buffered before s

variable {set : Setting} {before : State} {fd : Fd} {flags : Fd → BitVec 32} {s : State}

theorem Buffered.note {op : Op} (h : Buffered before s) (hop : ∀ q, op = .request q → q.direct = false) :
    Buffered before (s.note op) := by
  obtain ⟨new, htrace, hnew⟩ := h
  refine ⟨op :: new, ?_, fun q hq => ?_⟩
  · rw [List.cons_append, ← htrace]
    rfl
  · rcases List.mem_cons.mp hq with heq | hmem
    · exact hop q heq.symm
    · exact hnew q hmem

theorem Careful.note {op : Op} (h : Careful before fd flags s) (hop : ∀ q, op = .request q → q.direct = false) :
    Careful before fd flags (s.note op) :=
  ⟨h.flags, h.size, h.trace.note hop⟩

theorem Careful.setFlags {f : BitVec 32} {flags' : Fd → BitVec 32} (h : Careful before fd flags s)
    (hset : Function.update flags fd (setfl (flags fd) f) = flags') :
    Careful before fd flags' (s.setFlags fd f) := by
  refine ⟨?_, h.size, h.trace⟩
  rw [← hset, ← h.flags]
  rfl

theorem setFlags_buffered (f : BitVec 32) (ok : Bool) : ∀ q, Op.setFlags f ok = .request q → q.direct = false := by
  simp

theorem Careful.settled (h : Careful before fd before.flags s) : Settled before fd s := by
  obtain ⟨new, htrace, hnew⟩ := h.trace
  exact ⟨new, htrace, hnew, .inl h.flags⟩

theorem Settled.buffered (h : Settled before fd s) : Buffered before s := by
  obtain ⟨new, htrace, hnew, -⟩ := h
  exact ⟨new, htrace, hnew⟩

def cleared (before : State) (fd : Fd) : Fd → BitVec 32 :=
  Function.update before.flags fd (before.flags fd &&& ~~~oDirect)

theorem does_fcntlSetfl {P C : State → Prop} {fd : Fd} {f : BitVec 32} {Q : Bool → State → Prop}
    (hC : ∀ s, P s → C s) (hok : ∀ s, P s → Q true ((s.setFlags fd f).note (.setFlags f true)))
    (hfail : ∀ s, P s → Q false (s.note (.setFlags f false))) : Does 1 P (fcntlSetfl fd f) Q C := by
  refine Spec.call (fun r _ => wt_le_one r) hC (fun r s _ hs => ?_)
  cases r with
  | moved count => exact hok s hs
  | interrupted => exact hfail s hs
  | failed => exact hfail s hs

theorem does_setBufferedIo :
    Does 2 (Careful before fd before.flags) (setBufferedIo fd) (fun res s => match res with
      | none => Careful before fd before.flags s
      | some saved => Careful before fd (cleared before fd) s ∧ saved = before.flags fd) (Buffered before) := by
  have hcost : (1 : ℕ∞) + 1 ≤ 2 := by norm_num
  have hC : ∀ s, Careful before fd before.flags s → Buffered before s := fun s hs => hs.trace
  have hget : Does 1 (Careful before fd before.flags) (fcntlGetfl fd)
      (fun saved s => Careful before fd before.flags s ∧ (saved = before.flags fd ∨ saved = -1))
      (Buffered before) := by
    refine Spec.call (fun r _ => wt_le_one r) hC (fun r s _ hs => ⟨hs, ?_⟩)
    cases r with
    | moved count => exact .inl (congrFun hs.flags fd)
    | interrupted => exact .inr rfl
    | failed => exact .inr rfl
  unfold setBufferedIo
  refine Does.mono (Spec.bind hget (fun saved => Does.pull (fun hsaved => ?_))) hcost
  by_cases hneg : saved.slt 0 = true
  · rw [if_pos hneg]
    exact Does.ret (fun s hs => hs)
  rw [if_neg hneg]
  have hsaved : saved = before.flags fd := hsaved.resolve_right (fun h => hneg (by rw [h]; decide))
  subst hsaved
  split_ifs with hdirect
  · have hset : Does 1 (Careful before fd before.flags) (fcntlSetfl fd (before.flags fd &&& ~~~oDirect))
        (fun ok s => Careful before fd (if ok = true then cleared before fd else before.flags) s)
        (Buffered before) := by
      refine does_fcntlSetfl hC (fun s hs => (hs.setFlags ?_).note (setFlags_buffered _ _))
        (fun s hs => hs.note (setFlags_buffered _ _))
      rw [setfl, mix_clear oDirect_and_setflMask]
      rfl
    rw [← add_zero (1 : ℕ∞)]
    refine Spec.bind hset (fun ok => ?_)
    cases ok with
    | true => exact Spec.ret (fun s hs => ⟨hs, rfl⟩)
    | false => exact Spec.ret (fun s hs => hs)
  · refine Does.ret (fun s hs => ⟨?_, rfl⟩)
    rw [cleared, and_not_of_and_eq_zero (not_not.mp hdirect), Function.update_eq_self]
    exact hs

theorem does_restoreIoFlags :
    Does 1 (Careful before fd (cleared before fd)) (restoreIoFlags fd (before.flags fd)) (fun _ => Settled before fd)
      (Buffered before) := by
  unfold restoreIoFlags
  split_ifs with hdirect
  · refine Does.ret (fun s hs => Careful.settled ?_)
    rwa [cleared, and_not_of_and_eq_zero hdirect, Function.update_eq_self] at hs
  · refine does_fcntlSetfl (fun s hs => hs.trace) (fun s hs => ?_) (fun s hs => ?_)
    · refine ((hs.setFlags ?_).note (setFlags_buffered _ _)).settled
      rw [cleared, Function.update_self, setfl, mix_restore oDirect_and_setflMask, Function.update_idem,
        Function.update_eq_self]
    · obtain ⟨new, htrace, hnew⟩ := hs.trace
      refine ⟨.setFlags (before.flags fd) false :: new, ?_, fun q hq => hnew q (by simpa using hq),
        .inr List.mem_cons_self⟩
      rw [List.cons_append, ← htrace]
      rfl

def Plain : Op → Prop
  | .request q => q.direct = false
  | _ => True

theorem careful_notes : Notes Plain (Careful before fd flags) := by
  intro s op hs hop
  refine hs.note (fun q hq => ?_)
  subst hq
  exact hop

theorem Careful.direct_eq (h : Careful before fd (cleared before fd) s) : s.direct fd = false := by
  unfold State.direct
  rw [h.flags, cleared, Function.update_self, and_not_and]
  rfl

theorem Careful.put {pos : Nat} {bs : Bytes} (h : Careful before fd flags s)
    (hfit : pos + bs.length ≤ (before.content fd).length) : Careful before fd flags (s.put set fd pos bs) := by
  have hlen : (overwrite (s.content fd) pos bs).length = (before.content fd).length := by
    have := h.size
    rw [overwrite_length (by omega), h.size]
  refine ⟨(State.flags_put set s fd pos bs).trans h.flags, ?_, ?_⟩
  · cases fd with
    | source =>
        show (Function.update s.content .source _ .source).length = _
        rwa [Function.update_self]
    | destination =>
        unfold State.put
        cases set.place with
        | none =>
            show (Function.update s.content .destination _ .destination).length = _
            rwa [Function.update_self]
        | some start => exact hlen
  · obtain ⟨new, htrace, hnew⟩ := h.trace
    refine ⟨new, ?_, hnew⟩
    rw [← htrace]
    unfold State.put
    split
    · rfl
    · rfl

variable {address : Nat}

theorem does_between {α β : Type} {k : ℕ∞} {transfer : Io α} {failure : β} {finish : α → Bool → Io β}
    (htransfer : Does k (Careful before fd (cleared before fd)) transfer
      (fun _ => Careful before fd (cleared before fd)) (Buffered before))
    (hfinish : ∀ a ok, Does 1 (Settled before fd) (finish a ok) (fun _ => Settled before fd) (Buffered before)) :
    Does (2 + (k + (1 + 1))) (Careful before fd before.flags) (do
      match ← setBufferedIo fd with
      | none => pure failure
      | some saved =>
          let a ← transfer
          let restored ← restoreIoFlags fd saved
          finish a restored) (fun _ => Settled before fd) (Buffered before) := by
  refine Spec.bind does_setBufferedIo (fun res => ?_)
  cases res with
  | none => exact Does.ret (fun s hs => hs.settled)
  | some saved =>
      refine Does.pull (fun hsaved => ?_)
      subst hsaved
      exact Spec.bind htransfer (fun a => Spec.bind does_restoreIoFlags (fun ok => hfinish a ok))

theorem does_sized {β : Type} {k : ℕ∞} {failure : β} {rest : Nat → Io β}
    (hrest : footerAreaSize < (before.content fd).length → Does k (Careful before fd before.flags)
      (rest (before.content fd).length) (fun _ => Settled before fd) (Buffered before)) :
    Does (0 + (((2 : Nat) : ℕ∞) + k)) (Careful before fd before.flags) (do
      let size ← readSize fd
      if (← allSucceed 2) && decide (footerAreaSize < size) then rest size
      else pure failure) (fun _ => Settled before fd) (Buffered before) := by
  refine Spec.bind (does_readSize (P := Careful before fd before.flags) fd) (fun size => ?_)
  refine Spec.conseq (Does.pull (A := size = (before.content fd).length) (fun hsize => ?_))
    (fun s hs => ⟨hs.1, hs.2.trans hs.1.size⟩) (fun _ _ hs => hs) (fun _ hs => hs) le_rfl
  subst hsize
  refine Spec.bind (does_allSucceed (fun s hs => hs.trace) 2) (fun ok => ?_)
  split_ifs with hgood
  · rw [Bool.and_eq_true, decide_eq_true_eq] at hgood
    exact hrest hgood.2
  · exact Does.ret (fun s hs => hs.settled)

theorem does_readDescriptor (hsmall : (before.content fd).length < 2 ^ 64) :
    Does ⊤ (Careful before fd before.flags) (readDescriptor set fd address) (fun _ => Settled before fd)
      (Buffered before) := by
  refine Does.mono (does_sized (fun hsize => does_between (k := descriptorSize) ?_ (fun a ok => ?_))) le_top
  · have hfits : (before.content fd).length - descriptorSize + descriptorSize = (before.content fd).length :=
      Nat.sub_add_cancel (le_trans (by decide) hsize.le)
    intro rs s hG hs
    have hlen : (slice (s.content fd) ((before.content fd).length - descriptorSize) descriptorSize).length =
        descriptorSize := slice_length (by rw [hs.size, hfits])
    have hread : Does descriptorSize (fun t => Careful before fd (cleared before fd) t ∧
        slice (t.content fd) ((before.content fd).length - descriptorSize) descriptorSize =
          slice (s.content fd) ((before.content fd).length - descriptorSize) descriptorSize)
        (preadFull set fd address descriptorSize ((before.content fd).length - descriptorSize)) _ _ :=
      does_preadFull (fun t op ht hop => ⟨careful_notes t op ht.1 hop, ht.2⟩) (fun t ht => ht.1.direct_eq)
        (fun t ht => ht.2) hlen (by omega) (fun _ _ => trivial) (fun _ _ _ => rfl)
    exact hread.conseq (fun t ht => ht) (fun _ t ht => ht.1.1) (fun t ht => ht.1.trace) le_rfl rs s hG ⟨hs, rfl⟩
  · split_ifs
    · exact Does.ret (fun s hs => hs)
    · exact Does.ret (fun s hs => hs)

theorem does_writeDescriptor {digest : Bytes} (hdigest : digest.length = digestSize)
    (hsmall : (before.content fd).length < 2 ^ 64) :
    Does ⊤ (Careful before fd before.flags) (writeDescriptor set fd address digest) (fun _ => Settled before fd)
      (Buffered before) := by
  refine Does.mono (does_sized (fun hsize => does_between (k := descriptorSize) ?_ (fun a ok => ?_))) le_top
  · have hfits : (before.content fd).length - descriptorSize + descriptorSize = (before.content fd).length :=
      Nat.sub_add_cancel (le_trans (by decide) hsize.le)
    have hlen : (encodeDescriptor ((before.content fd).length - footerAreaSize) digest).length = descriptorSize :=
      encodeDescriptor_length hdigest
    have hwrite : Does _ _ (pwriteFull set fd address
        (encodeDescriptor ((before.content fd).length - footerAreaSize) digest)
        ((before.content fd).length - descriptorSize)) _ _ :=
      does_pwriteFull (F := Plain) (I := fun _ => Careful before fd (cleared before fd)) (fun _ => careful_notes)
        (fun _ t ht => ht.direct_eq) (fun _ _ t ht => by rw [hlen, hfits, ht.size]) (by omega) (fun _ _ => trivial)
        (fun _ _ _ => rfl) (fun k i t ht _ hki => ht.put (by rw [slice_length hki]; omega))
    rw [hlen] at hwrite
    exact hwrite.conseq (fun t ht => ht) (fun _ t ⟨_, _, _, ht⟩ => ht) (fun t ⟨_, _, ht⟩ => ht.trace) le_rfl
  · split_ifs
    · exact does_succeeds (fun s hs => hs.buffered)
    · exact Does.ret (fun s hs => hs)

end Descriptor

def BufferedTransfer {α : Type} (fd : Fd) (m : Io α) (rs : List Reply) (s : State) : Prop :=
  Buffered s (m rs s).state ∧ ∀ a rs' s', m rs s = .done a rs' s' → Settled s fd s'

theorem bufferedTransfer_of_does {α : Type} {fd : Fd} {m : Io α} {s : State}
    (h : Does ⊤ (Careful s fd s.flags) m (fun _ => Settled s fd) (Buffered s)) (rs : List Reply) :
    BufferedTransfer fd m rs s := by
  have hs : Careful s fd s.flags s := ⟨rfl, rfl, [], rfl, by simp⟩
  exact ⟨h.reached (fun _ _ => trivial) hs (fun _ _ h => h.buffered),
    fun a rs' s' hrun => h.done (fun _ _ => trivial) hs hrun⟩

/-- The transfers of a hash and of a copy are aligned and inside the devices; those of the descriptor, which are not
aligned, are made in buffered mode. -/
theorem direct_transfers_aligned (set : Setting) (hwhole : WholeBlocks set) :
    (∀ (evp : HashRing.Evp) (dev digest : Bytes) (as : List HashRing.Action) (s : HashRing.State evp) (buffer : Nat),
      admitted ⟨dev.length, set.logical .source⟩ = true → 512 ∣ buffer →
      Transition.run (HashRing.step evp dev (dev.length - footerAreaSize)) (HashRing.initial evp digest) as = some s →
      s.producer.pc = .read →
        let q := producerRequest buffer (dev.length - footerAreaSize) s.producer
        Aligned set q ∧ q.offset + q.length ≤ dev.length) ∧
    (∀ (range : Target → Nat × Nat) (s : State) (rs : List Reply), Inside set s →
      ∃ new, (copyFrom set range rs s).state.trace = new ++ s.trace ∧ ∀ q, .request q ∈ new →
        q.offset + q.length ≤ (s.content q.fd).length ∧ (q.direct = true → Aligned set q)) ∧
    ∀ (fd : Fd) (address : Nat) (digest : Bytes) (s : State) (rs : List Reply), digest.length = digestSize →
      admitted ⟨(s.content fd).length, set.logical fd⟩ = true →
        BufferedTransfer fd (readDescriptor set fd address) rs s ∧
        BufferedTransfer fd (writeDescriptor set fd address digest) rs s := by
  refine ⟨?_, ?_, ?_⟩
  · intro evp dev digest as s buffer hadmitted hbuffer hrun hpc
    obtain ⟨hdivides, -⟩ := divides_of_admitted hadmitted
    have hsize : set.logical .source ∣ dev.length := by
      simp only [admitted, decide_eq_true_eq] at hadmitted
      exact Nat.dvd_of_mod_eq_zero hadmitted.2.2.2.2
    exact producerRequest_aligned (hwhole .source).1 hdivides (Nat.dvd_sub hsize hdivides) (Nat.sub_le _ _) hbuffer
      (HashRing.safe_run hrun) hpc
  · intro range s rs hinside
    have hreached : Partly (rangeJob set range s) (copyFrom set range rs s).state :=
      (does_copyFrom range hinside).reached (fun _ _ => trivial) (Copying.refl (rangeJob set range s)) (fun _ _ h => h)
    obtain ⟨k, -, hk⟩ := hreached
    obtain ⟨new, htrace, hnew⟩ := hk.trace
    refine ⟨new, htrace, fun q hq => ?_⟩
    obtain ⟨hin, -, haligned⟩ := hnew _ hq
    exact ⟨hin, haligned hwhole⟩
  · intro fd address digest s rs hdigest hadmitted
    have hsmall : (s.content fd).length < 2 ^ 64 := by
      have := (divides_of_admitted hadmitted).2
      dsimp only at this
      omega
    exact ⟨bufferedTransfer_of_does (does_readDescriptor hsmall) rs,
      bufferedTransfer_of_does (does_writeDescriptor hdigest hsmall) rs⟩

def transfers (trace : List Op) : List (Kind × Nat × Nat × Bool) :=
  trace.filterMap fun
    | .request q => some (q.kind, q.offset, q.length, q.direct)
    | _ => none

theorem halfWritten_transfers :
    transfers (copyFrom pages (fun _ => (0, 8192)) (List.replicate 5 (.moved 1) ++ partialAnswers)
      halfWritten).state.trace =
        [(.pwrite, 4096, 4096, true), (.pwrite, 0, 8192, true), (.pread, 1536, 6656, true), (.pread, 0, 8192, true),
          (.pread, 0, 8192, true)] := by
  decide +kernel

theorem direct_transfers_aligned_halves :
    WholeBlocks pages ∧
      (let run := copyFrom pages (fun _ => (0, 8192)) (List.replicate 5 (.moved 1) ++ partialAnswers) halfWritten
      transfers run.state.trace = [(.pwrite, 4096, 4096, true), (.pwrite, 0, 8192, true), (.pread, 1536, 6656, true),
        (.pread, 0, 8192, true), (.pread, 0, 8192, true)] ∧
      ∀ q, .request q ∈ run.state.trace → q.offset + q.length ≤ (halfWritten.content q.fd).length ∧
        (q.direct = true → Aligned pages q)) ∧
      (∃ s, Transition.run (HashRing.step (HashRing.collecting id) (List.replicate 8192 1) 4096)
          (HashRing.initial (HashRing.collecting id) [])
          [.main true, .main true, .main true, .producer none, .producer none] = some s ∧
        s.producer.pc = .read ∧ Aligned pages (producerRequest 8192 4096 s.producer)) ∧
      BufferedTransfer .source (writeDescriptor pages .source 0 (List.replicate 32 7)) (List.replicate 8 (.moved 1))
        halfWritten := by
  have hwhole : WholeBlocks pages := by rintro (_ | _) <;> decide
  have hinside : Inside pages halfWritten := by
    rintro _ ⟨⟩
    simp only [halfWritten, List.length_append, List.length_replicate, Nat.le_refl]
  have hsize : (List.replicate 8192 (1 : Byte)).length - footerAreaSize = 4096 := by
    rw [List.length_replicate]
    rfl
  have hadmitted : admitted ⟨(halfWritten.content .source).length, pages.logical .source⟩ = true := by
    simp only [halfWritten, List.length_append, List.length_replicate]
    decide
  obtain ⟨hhash, hcopy, hdescriptor⟩ := direct_transfers_aligned pages hwhole
  refine ⟨hwhole, ⟨halfWritten_transfers, ?_⟩, ?_, (hdescriptor .source 0 _ halfWritten _ rfl hadmitted).2⟩
  · obtain ⟨new, htrace, hnew⟩ := hcopy (fun _ => (0, 8192)) halfWritten
      (List.replicate 5 (.moved 1) ++ partialAnswers) hinside
    have hstart : halfWritten.trace = [] := rfl
    rw [htrace, hstart, List.append_nil]
    exact hnew
  · have h := hhash (HashRing.collecting id) (List.replicate 8192 1) []
      [.main true, .main true, .main true, .producer none, .producer none]
    rw [hsize] at h
    exact ⟨_, rfl, rfl, (h _ 8192 (by rw [List.length_replicate]; decide) (by decide) rfl rfl).1⟩

end SuperRaid.DirectIo
