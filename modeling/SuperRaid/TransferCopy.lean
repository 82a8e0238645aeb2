import SuperRaid.TransferSpec

namespace SuperRaid.TransferCopy

open Image Footer Sys Transfer TransferSpec

def WholeBlocks (set : Setting) : Prop := ∀ fd, 512 ≤ set.logical fd ∧ set.logical fd ∣ set.granule fd

def Aligned (set : Setting) (q : Request) : Prop :=
  set.logical q.fd ∣ q.offset ∧ set.logical q.fd ∣ q.length ∧ 512 ∣ q.address

/-- What a copy may do: it adds without overflow, stays inside the devices and writes to the destination only, and
what it asks of a descriptor in O_DIRECT mode is aligned. -/
def Fine (set : Setting) (size : Fd → Nat) : Op → Prop
  | .sum a b => a + b < 2 ^ 63
  | .request q => q.offset + q.length ≤ size q.fd ∧ (q.kind = .pwrite → q.fd = .destination) ∧
      (WholeBlocks set → q.direct = true → Aligned set q)
  | .setFlags _ _ => False

def Inside (set : Setting) (s : State) : Prop :=
  ∀ start, set.place = some start → start + (s.content .destination).length ≤ (s.content .source).length

def Apart (set : Setting) (sourceOffset length : Nat) (s : State) : Prop :=
  ∀ start, set.place = some start →
    start + (s.content .destination).length ≤ sourceOffset ∨ sourceOffset + length ≤ start

/-- The byte at i of the source device is not one of the n bytes of the destination. -/
def Outside (set : Setting) (n i : Nat) : Prop := ∀ start, set.place = some start → i < start ∨ start + n ≤ i

structure Job where
  set : Setting
  sourceOffset : Nat
  length : Nat
  before : State

namespace Job

def size (j : Job) (fd : Fd) : Nat := (j.before.content fd).length

def range (j : Job) : Bytes := slice (j.before.content .source) j.sourceOffset j.length

def Apart (j : Job) : Prop := TransferCopy.Apart j.set j.sourceOffset j.length j.before

structure Accepted (j : Job) : Prop where
  inRange : j.sourceOffset + j.length ≤ j.size .source
  small : j.size .source < 2 ^ 63
  fits : j.size .destination = j.length
  inside : Inside j.set j.before
  divides : ∀ fd, j.set.logical fd ∣ 4096
  start : j.set.logical .source ∣ j.sourceOffset
  whole : ∀ fd, j.set.logical fd ∣ j.length

end Job

/-- The first k bytes of the range are on the destination. If it lies apart from the range, they are all that has
changed. -/
structure Copying (j : Job) (k : Nat) (s : State) : Prop where
  sizes : ∀ fd, (s.content fd).length = j.size fd
  trace : ∃ new, s.trace = new ++ j.before.trace ∧ ∀ op ∈ new, Fine j.set j.size op
  destination : j.Apart → s.content .destination = j.range.take k ++ (j.before.content .destination).drop k
  source : j.Apart → ∀ i, Outside j.set (j.size .destination) i →
    (s.content .source)[i]? = (j.before.content .source)[i]?

variable {j : Job}

theorem dvd_of_dvd_4096 {n : Nat} (h : n ∣ 4096) (hn : 512 ≤ n) : 512 ∣ n := by
  obtain ⟨e, he, rfl⟩ := (Nat.dvd_prime_pow Nat.prime_two).mp (show n ∣ 2 ^ 12 from h)
  have hge : 9 ≤ e := by
    by_contra hlt
    have := Nat.pow_le_pow_right (n := 2) (by omega) (by omega : e ≤ 8)
    omega
  exact pow_dvd_pow 2 hge

theorem fine_request {set : Setting} {size : Fd → Nat} {kind : Kind} {fd : Fd} {address base len k : Nat} {b : Bool}
    (hin : base + len ≤ size fd) (hkind : kind = .pwrite → fd = .destination) (hk : k < len)
    (hdivides : set.logical fd ∣ 4096) (hbase : set.logical fd ∣ base) (hlen : set.logical fd ∣ len)
    (haddress : 4096 ∣ address) (hgranule : b = true → set.granule fd ∣ k) :
    Fine set size (.request ⟨kind, fd, address + k, len - k, base + k, b⟩) := by
  refine ⟨?_, hkind, fun hwhole hdirect => ?_⟩
  · show base + k + (len - k) ≤ size fd
    omega
  · have hmoved : set.logical fd ∣ k := (hwhole fd).2.trans (hgranule hdirect)
    have hsector : 512 ∣ set.logical fd := dvd_of_dvd_4096 hdivides (hwhole fd).1
    have hpage : 512 ∣ address := (by decide : 512 ∣ 4096).trans haddress
    exact ⟨hbase.add hmoved, Nat.dvd_sub hlen hmoved, hpage.add (hsector.trans hmoved)⟩

namespace Copying

variable {k : Nat} {s : State}

theorem refl (j : Job) : Copying j 0 j.before :=
  ⟨fun _ => rfl, ⟨[], rfl, by simp⟩, fun _ => by simp, fun _ _ _ => rfl⟩

theorem same {s' : State} (h : Copying j k s) (hc : s'.content = s.content) (ht : s'.trace = s.trace) :
    Copying j k s' := by
  constructor
  · rw [hc]; exact h.sizes
  · rw [ht]; exact h.trace
  · rw [hc]; exact h.destination
  · rw [hc]; exact h.source

theorem note {op : Op} (h : Copying j k s) (hop : Fine j.set j.size op) : Copying j k (s.note op) := by
  obtain ⟨new, htrace, hnew⟩ := h.trace
  refine ⟨h.sizes, ⟨op :: new, ?_, ?_⟩, h.destination, h.source⟩
  · rw [List.cons_append, ← htrace]
    rfl
  · intro op' hmem
    rcases List.mem_cons.mp hmem with rfl | hmem
    · exact hop
    · exact hnew op' hmem

end Copying

section Loop

variable (h : j.Accepted)

include h

theorem Job.Accepted.range_length : j.range.length = j.length := slice_length h.inRange

theorem Copying.complete {s : State} (hs : Copying j j.length s) (hapart : j.Apart) :
    s.content .destination = j.range := by
  rw [hs.destination hapart, List.take_of_length_le h.range_length.le, List.drop_eq_nil_of_le h.fits.le,
    List.append_nil]

omit h in
theorem Copying.slice_source {k a n : Nat} {s : State} (hs : Copying j k s) (hapart : j.Apart)
    (ha : a + n ≤ j.length) :
    slice (s.content .source) (j.sourceOffset + a) n = slice j.range a n := by
  rw [Job.range, slice_slice ha]
  refine slice_congr (fun i hlow hhigh => hs.source hapart i (fun start hstart => ?_))
  have hdisjoint : start + j.size .destination ≤ j.sourceOffset ∨ j.sourceOffset + j.length ≤ start :=
    hapart start hstart
  omega

theorem overwrite_copied {k i : Nat} (hk : k + i ≤ j.length) :
    overwrite (j.range.take k ++ (j.before.content .destination).drop k) k (slice j.range k i) =
      j.range.take (k + i) ++ (j.before.content .destination).drop (k + i) := by
  have hrange := h.range_length
  have hi : (slice j.range k i).length = i := slice_length (by omega)
  have hlen : (j.range.take k).length = k := by
    rw [List.length_take]
    omega
  unfold overwrite
  rw [hi, List.take_left' hlen, take_append_slice, List.drop_append, hlen, List.drop_eq_nil_of_le (by omega),
    List.nil_append, List.drop_drop]
  congr 2
  omega

theorem Copying.put {k : Nat} {bs : Bytes} {s : State} (hs : Copying j k s) (hk : k + bs.length ≤ j.length)
    (hbs : j.Apart → bs = slice j.range k bs.length) :
    Copying j (k + bs.length) (s.put j.set .destination k bs) := by
  have hD : (s.content .destination).length = j.length := (hs.sizes .destination).trans h.fits
  have hS : (s.content .source).length = j.size .source := hs.sizes .source
  have hcopied : j.Apart → overwrite (s.content .destination) k bs =
      j.range.take (k + bs.length) ++ (j.before.content .destination).drop (k + bs.length) := by
    intro hapart
    rw [← overwrite_copied h hk, ← hbs hapart, hs.destination hapart]
  have hlen : (overwrite (s.content .destination) k bs).length = j.size .destination := by
    rw [overwrite_length (by omega), hs.sizes]
  unfold State.put
  cases hplace : j.set.place with
  | none =>
      refine ⟨?_, hs.trace, hcopied, hs.source⟩
      rintro (_ | _)
      · exact hS
      · exact hlen
  | some start =>
      have hfit : start + j.size .destination ≤ j.size .source := h.inside start hplace
      have hfits := h.fits
      refine ⟨?_, hs.trace, hcopied, fun hapart i hi => ?_⟩
      · rintro (_ | _)
        · show (overwrite (s.content .source) (start + k) bs).length = _
          rw [overwrite_length (by omega), hS]
        · exact hlen
      · have hout := hi start hplace
        show (overwrite (s.content .source) (start + k) bs)[i]? = _
        rw [overwrite_getElem? (by omega), if_neg (by omega)]
        exact hs.source hapart i hi

theorem fine_sum {a b : Nat} (hab : a + b ≤ j.sourceOffset + j.length) : Fine j.set j.size (.sum a b) := by
  show a + b < 2 ^ 63
  have := h.inRange
  have := h.small
  omega

theorem Job.Accepted.chunk {offset count : Nat} (hchunk : bufferSize ∣ offset)
    (hcount : count = bufferSize ∨ offset + count = j.length) (fd : Fd) :
    j.set.logical fd ∣ offset ∧ j.set.logical fd ∣ count := by
  have hbuffer : j.set.logical fd ∣ bufferSize := (h.divides fd).trans (by decide)
  have hoffset : j.set.logical fd ∣ offset := hbuffer.trans hchunk
  rcases hcount with rfl | hend
  · exact ⟨hoffset, hbuffer⟩
  · refine ⟨hoffset, (Nat.dvd_add_right hoffset).mp ?_⟩
    rw [hend]
    exact h.whole fd

omit h in
def Moded (j : Job) (b : Fd → Bool) (k : Nat) (s : State) : Prop := Copying j k s ∧ ∀ fd, s.direct fd = b fd

omit h in
def Partly (j : Job) (s : State) : Prop := ∃ k ≤ j.length, Copying j k s

omit h in
theorem moded_notes (b : Fd → Bool) (k : Nat) : Notes (Fine j.set j.size) (Moded j b k) :=
  fun _ _ hs hop => ⟨hs.1.note hop, hs.2⟩

variable {address : Nat} {b : Fd → Bool} {offset count : Nat}

theorem does_readChunk (haddress : 4096 ∣ address) (hle : offset + count ≤ j.length)
    (hchunk : bufferSize ∣ offset) (hcount : count = bufferSize ∨ offset + count = j.length) :
    Does count (Moded j b offset) (preadFull j.set .source address count (j.sourceOffset + offset))
      (fun res s => Moded j b offset s ∧
        ∀ bs, res = some bs → bs.length = count ∧ (j.Apart → bs = slice j.range offset count))
      (Moded j b offset) := by
  have hrange := h.inRange
  have hsmall := h.small
  have halign := h.chunk hchunk hcount .source
  have hrequest : ∀ k < count, (b .source = true → j.set.granule .source ∣ k) → Fine j.set j.size
      (.request ⟨.pread, .source, address + k, count - k, j.sourceOffset + offset + k, b .source⟩) :=
    fun k hk hg => fine_request (by omega) (by simp) hk (h.divides .source) (h.start.add halign.1) halign.2 haddress hg
  intro rs s hG hs
  -- nothing is written while the chunk is read, so all of it is what the source holds now
  have hlen : (slice (s.content .source) (j.sourceOffset + offset) count).length = count := by
    refine slice_length ?_
    rw [hs.1.sizes]
    omega
  have hread := does_preadFull (P := fun t => Moded j b offset t ∧
      slice (t.content .source) (j.sourceOffset + offset) count =
        slice (s.content .source) (j.sourceOffset + offset) count)
    (fun t op ht hop => ⟨moded_notes b offset t op ht.1 hop, ht.2⟩) (fun t ht => ht.1.2 .source)
    (fun t ht => ht.2) hlen
    (by omega) (fun k hk => fine_sum h (by omega)) hrequest
  refine hread.conseq (fun t ht => ht) (fun res t ht => ⟨ht.1.1, fun bs hbs => ?_⟩)
    (fun t ht => ht.1) le_rfl rs s hG
    ⟨hs, rfl⟩
  rw [ht.2 bs hbs]
  exact ⟨hlen, fun hapart => hs.1.slice_source hapart hle⟩

theorem does_writeChunk (haddress : 4096 ∣ address) (hle : offset + count ≤ j.length)
    (hchunk : bufferSize ∣ offset)
    (hcount : count = bufferSize ∨ offset + count = j.length) {bs : Bytes} (hlen : bs.length = count)
    (hbs : j.Apart → bs = slice j.range offset count) :
    Does count (Moded j b offset) (pwriteFull j.set .destination address bs offset)
      (fun ok s => (ok = true → Moded j b (offset + count) s) ∧ Partly j s) (Partly j) := by
  have hrange := h.inRange
  have hsmall := h.small
  have halign := h.chunk hchunk hcount .destination
  subst hlen
  have hrequest : ∀ k < bs.length, (b .destination = true → j.set.granule .destination ∣ k) → Fine j.set j.size
      (.request ⟨.pwrite, .destination, address + k, bs.length - k, offset + k, b .destination⟩) :=
    fun k hk hg =>
      fine_request (hle.trans h.fits.ge) (by simp) hk (h.divides .destination) halign.1 halign.2 haddress hg
  have hput : ∀ k i s, Moded j b (offset + k) s → 0 < i → k + i ≤ bs.length →
      Moded j b (offset + (k + i)) (s.put j.set .destination (offset + k) (slice bs k i)) := by
    intro k i s hs _ hki
    have hi : (slice bs k i).length = i := slice_length hki
    have hpart : j.Apart → slice bs k i = slice j.range (offset + k) (slice bs k i).length := by
      intro hapart
      rw [hi, ← slice_slice hki, ← hbs hapart]
    have hput := hs.1.put h (by omega) hpart
    rw [hi, Nat.add_assoc] at hput
    refine ⟨hput, fun fd => ?_⟩
    unfold State.direct
    rw [State.flags_put]
    exact hs.2 fd
  have hfit : ∀ k < bs.length, ∀ s, Moded j b (offset + k) s →
      offset + bs.length ≤ (s.content .destination).length := by
    intro k _ s hs
    rw [hs.1.sizes, h.fits]
    exact hle
  have hwrite := does_pwriteFull (I := fun k => Moded j b (offset + k)) (fun k => moded_notes b (offset + k))
    (fun k s hs => hs.2 .destination) hfit (by omega) (fun k hk => fine_sum h (by omega)) hrequest hput
  have hpartly : ∀ s, (∃ k ≤ bs.length, Moded j b (offset + k) s) → Partly j s :=
    fun s ⟨k, hk, hs⟩ => ⟨offset + k, by omega, hs.1⟩
  exact hwrite.conseq (fun s hs => hs) (fun ok s hs => ⟨hs.1, hpartly s hs.2⟩) hpartly le_rfl

theorem does_copyLoop (haddress : 4096 ∣ address) (fuel offset : Nat) (hle : offset ≤ j.length)
    (hfuel : j.length - offset ≤ fuel) (hchunk : offset < j.length → bufferSize ∣ offset) :
    Does ((2 * (j.length - offset) : Nat) : ℕ∞) (Moded j b offset)
      (copyLoop j.set address j.sourceOffset j.length fuel offset)
      (fun ok s => (ok = true → Copying j j.length s) ∧ Partly j s) (Partly j) := by
  have hdone : offset = j.length → ∀ s, Moded j b offset s → (true = true → Copying j j.length s) ∧
      Partly j s := by
    rintro rfl s hs
    exact ⟨fun _ => hs.1, j.length, le_rfl, hs.1⟩
  induction fuel generalizing offset with
  | zero => exact Does.ret (hdone (by omega))
  | succ fuel ih =>
      rw [copyLoop]
      by_cases hlt : offset < j.length
      · rw [if_pos hlt]
        obtain ⟨count, hdef⟩ : ∃ count,
            (if j.length - offset < bufferSize then j.length - offset else bufferSize) = count := ⟨_, rfl⟩
        obtain ⟨hends, hpos, hfits⟩ : (count = bufferSize ∨ offset + count = j.length) ∧ 0 < count ∧
            offset + count ≤ j.length := by
          have : 0 < bufferSize := by decide
          split_ifs at hdef <;> omega
        have hrange := h.inRange
        have hsmall := h.small
        have hcost : 0 + ((count : ℕ∞) + (count + (0 + ((2 * (j.length - (offset + count)) : Nat) : ℕ∞)))) ≤
            ((2 * (j.length - offset) : Nat) : ℕ∞) := by
          rw [zero_add, zero_add]
          exact_mod_cast (by omega : count + (count + 2 * (j.length - (offset + count))) ≤ 2 * (j.length - offset))
        dsimp only
        rw [hdef]
        refine Does.mono
          (Spec.bind (does_sum64 (moded_notes b offset) (fine_sum h (by omega)) (by omega)) (fun pos => ?_))
          hcost
        refine Does.pull (fun hposition => ?_)
        subst hposition
        have hread := does_readChunk (b := b) h haddress hfits (hchunk hlt) hends
        refine Spec.bind (hread.conseq (fun _ hs => hs) (fun _ _ hs => hs) (fun s hs => ⟨offset, hle, hs.1⟩) le_rfl)
          (fun res => ?_)
        cases res with
        | none => exact Does.ret (fun s hs => ⟨by simp, offset, hle, hs.1.1⟩)
        | some buffer =>
            refine Spec.conseq (Does.pull (fun hbuffer => ?_)) (fun s hs => ⟨hs.1, hs.2 buffer rfl⟩)
              (fun _ _ hs => hs)
              (fun _ hs => hs) le_rfl
            refine Spec.bind (does_writeChunk h haddress hfits (hchunk hlt) hends hbuffer.1 hbuffer.2) (fun ok => ?_)
            cases ok with
            | false => exact Does.ret (fun s hs => ⟨by simp, hs.2⟩)
            | true =>
                have hsum := does_sum64 (P := Moded j b (offset + count)) (C := Partly j)
                  (moded_notes b (offset + count))
                  (fine_sum h (by omega : offset + count ≤ j.sourceOffset + j.length)) (by omega)
                refine Spec.conseq (Spec.bind hsum (fun next => Does.pull (fun hnext => ?_))) (fun s hs => hs.1 rfl)
                  (fun _ _ hs => hs) (fun _ hs => hs) le_rfl
                subst hnext
                refine ih (offset + count) hfits (by omega) (fun hmore => ?_) ?_
                · have hfull : count = bufferSize := by omega
                  rw [hfull]
                  exact (hchunk hlt).add dvd_rfl
                · rintro hend s hs
                  rw [hend] at hs
                  exact ⟨fun _ => hs.1, j.length, le_rfl, hs.1⟩
      · rw [if_neg hlt]
        exact Does.ret (hdone (by omega))

end Loop

end SuperRaid.TransferCopy
