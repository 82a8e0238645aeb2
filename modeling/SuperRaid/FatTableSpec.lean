import SuperRaid.FatTable
import SuperRaid.FatEntryCodec
import SuperRaid.LinkTable

namespace SuperRaid.FatTable

open Image Sys FatEntry

variable {vol : Volume} {opt : Options} {G : Answer → Prop} {s : Fat} {f : Fatent} {α β : Type}

def Fat.next (vol : Volume) (s : Fat) : Nat → Nat := table vol s.bufs

def Faulty (G : Answer → Prop) : Prop := ∃ r, G r ∧ (r.read = false ∨ r.memory = false ∨ r.sync = false)

/-- Among the answers are some to reads that fail. -/
def Unreadable (G : Answer → Prop) : Prop := ∃ r, G r ∧ r.read = false

theorem Unreadable.faulty (h : Unreadable G) : Faulty G := by
  obtain ⟨r, hr, hfail⟩ := h
  exact ⟨r, hr, .inl hfail⟩

/-- Among the answers are some to calls that write that fail. -/
def Unwritable (G : Answer → Prop) : Prop := ∃ r, G r ∧ (r.memory = false ∨ r.sync = false)

theorem Unwritable.faulty (h : Unwritable G) : Faulty G := by
  obtain ⟨r, hr, hfail⟩ := h
  exact ⟨r, hr, .inr hfail⟩

section Calls

variable {Q : β → Fat → Prop} {k : Bool → Io β}

theorem returns_sbBread (hok : Returns G s (k true) Q) (hfail : Unreadable G → Returns G s (k false) Q) :
    Returns G s (sbBread >>= k) Q := by
  refine Returns.bind (Returns.call (fun r hr => ?_))
  cases hread : r.read with
  | true => exact hok
  | false => exact hfail ⟨r, hr, hread⟩

theorem returns_sbGetblk (hok : Returns G s (k true) Q) (hfail : Unwritable G → Returns G s (k false) Q) :
    Returns G s (sbGetblk >>= k) Q := by
  refine Returns.bind (Returns.call (fun r hr => ?_))
  cases hmemory : r.memory with
  | true => exact hok
  | false => exact hfail ⟨r, hr, .inl hmemory⟩

theorem returns_syncBhs (hok : Returns G s (k true) Q) (hfail : Unwritable G → Returns G s (k false) Q) :
    Returns G s (syncBhs >>= k) Q := by
  refine Returns.bind (Returns.call (fun r hr => ?_))
  cases hsync : r.sync with
  | true => exact hok
  | false => exact hfail ⟨r, hr, .inr hsync⟩

end Calls

section Read

theorem entSetPtr_entry (vol : Volume) (f : Fatent) (offset : Nat) : (entSetPtr vol f offset).entry = f.entry := by
  unfold entSetPtr
  split <;> rfl

theorem held_eq_of_inside {e : Nat} (h : vol.variant ≠ .fat12 ∨ (entBlocknr vol e).1 + 1 < vol.blockSize) :
    held vol e = [(entBlocknr vol e).2] := by
  refine if_neg ?_
  rintro ⟨hvar, hle⟩
  rcases h with h | h
  · exact h hvar
  · exact Nat.not_le.mpr h hle

theorem held_eq_of_span {e : Nat} (h : ¬ (vol.variant ≠ .fat12 ∨ (entBlocknr vol e).1 + 1 < vol.blockSize)) :
    held vol e = [(entBlocknr vol e).2, (entBlocknr vol e).2 + 1] := by
  rw [not_or, not_not] at h
  exact if_pos ⟨h.1, Nat.le_of_not_lt h.2⟩

theorem points_of_held {e : Nat} {bhs : List Nat} {p : EntPtr} (h : bhs = held vol e) :
    (entSetPtr vol ⟨e, p, bhs⟩ (entBlocknr vol e).1).Points vol :=
  points_entSetPtr (f := ⟨e, p, bhs⟩) h

theorem returns_entBread {Q : Option Fatent → Fat → Prop} (hnone : Unreadable G → Q none s)
    (hsome : ∀ f', f'.entry = f.entry → f'.Points vol → Q (some f') s) :
    Returns G s (entBread vol f (entBlocknr vol f.entry).1 (entBlocknr vol f.entry).2) Q := by
  refine returns_sbBread ?_ (fun hfault => Returns.ret (hnone hfault))
  rw [if_pos rfl]
  split_ifs with hin
  · exact Returns.ret (hsome _ (entSetPtr_entry _ _ _) (points_of_held (held_eq_of_inside hin).symm))
  · refine returns_sbBread ?_ (fun hfault => Returns.ret (hnone hfault))
    exact Returns.ret (hsome _ (entSetPtr_entry _ _ _) (points_of_held (held_eq_of_span hin).symm))

theorem returns_entAt {Q : Option Fatent → Fat → Prop} {mapped : Bool} (hmapped : mapped = true → f.Points vol)
    (hnone : Unreadable G → Q none s) (hsome : ∀ f', f'.entry = f.entry → f'.Points vol → Q (some f') s) :
    Returns G s (entAt vol mapped f) Q := by
  unfold entAt
  split_ifs with h
  · exact Returns.ret (hsome f rfl (hmapped h))
  · exact returns_entBread (f := f.brelse) hnone hsome

def Holds (vol : Volume) (bhs : List Nat) : Prop := bhs = [] ∨ ∃ e, bhs = held vol e

theorem Fatent.Points.holds (h : f.Points vol) : Holds vol f.bhs := .inr ⟨f.entry, h.bhs⟩

theorem Holds.shape {bhs : List Nat} (h : Holds vol bhs) :
    bhs = [] ∨ (∃ b, bhs = [b]) ∨ vol.variant = .fat12 ∧ ∃ b b', bhs = [b, b'] := by
  rcases h with h | ⟨e, rfl⟩
  · exact .inl h
  · by_cases hin : vol.variant ≠ .fat12 ∨ (entBlocknr vol e).1 + 1 < vol.blockSize
    · exact .inr (.inl ⟨_, held_eq_of_inside hin⟩)
    · exact .inr (.inr ⟨not_not.mp (not_or.mp hin).1, _, _, held_eq_of_span hin⟩)

theorem points_of_fatEntUpdatePtr {f' : Fatent} (hf : Holds vol f.bhs)
    (h : fatEntUpdatePtr vol f (entBlocknr vol f.entry).1 (entBlocknr vol f.entry).2 = some f') :
    f'.entry = f.entry ∧ f'.Points vol := by
  obtain ⟨e, p, bhs⟩ := f
  rcases hf.shape with rfl | ⟨b, rfl⟩ | ⟨hvar, b, b', rfl⟩ <;> simp only [fatEntUpdatePtr] at h
  · cases h
  · split_ifs at h with hb hvar hin
    · cases h
      exact ⟨entSetPtr_entry _ _ _, points_of_held (by rw [held_eq_of_inside (.inl hvar), not_not.mp hb])⟩
    · cases h
      exact ⟨entSetPtr_entry _ _ _, points_of_held (by rw [held_eq_of_inside (.inr hin), not_not.mp hb])⟩
  · split_ifs at h with hb hv hin hb'
    · exact absurd hvar hv
    · cases h
      exact ⟨entSetPtr_entry _ _ _, points_of_held (by rw [held_eq_of_inside (.inr hin), not_not.mp hb])⟩
    · cases h
      have hspan : ¬ (vol.variant ≠ .fat12 ∨ (entBlocknr vol e).1 + 1 < vol.blockSize) := not_or.mpr ⟨hv, hin⟩
      exact ⟨entSetPtr_entry _ _ _, points_of_held (by rw [held_eq_of_span hspan, not_not.mp hb, not_not.mp hb'])⟩

theorem fatValidEntry_iff {e : Nat} : fatValidEntry vol e = true ↔ startEnt ≤ e ∧ e < vol.maxCluster := by
  simp [fatValidEntry]

theorem returns_fatEntRead {Q : Except Errno Nat × Fatent → Fat → Prop} {e : Nat} (hf : Holds vol f.bhs)
    (hfail : ∀ f' ro, Holds vol f'.bhs → (Unreadable G ∨ ¬ (startEnt ≤ e ∧ e < vol.maxCluster)) →
      Q (.error .eio, f') { s with rdonly := ro })
    (hok : ∀ f', startEnt ≤ e → e < vol.maxCluster → f'.entry = e → f'.Points vol →
      Q (.ok (s.next vol e), f') s) :
    Returns G s (fatEntRead vol opt f e) Q := by
  have hread : ∀ f' : Fatent, fatValidEntry vol e = true → f'.entry = e → f'.Points vol →
      Returns G s ((Prog.read fun s => entGet s.bufs f') >>= fun next => pure (Except.ok next, f')) Q := by
    intro f' hvalid he hp
    obtain ⟨hstart, hmax⟩ := fatValidEntry_iff.mp hvalid
    refine Returns.bind (Returns.read (Returns.ret ?_))
    rw [hp.entGet_eq, he]
    exact hok f' hstart hmax he hp
  unfold fatEntRead
  split_ifs with hvalid
  · dsimp only
    cases hup : fatEntUpdatePtr vol (f.setEntry e) (entBlocknr vol e).1 (entBlocknr vol e).2 with
    | some f' =>
        obtain ⟨he, hp⟩ := points_of_fatEntUpdatePtr (f := f.setEntry e) hf hup
        exact hread f' hvalid he hp
    | none =>
        refine Returns.bind (returns_entBread (f := (f.setEntry e).brelse) (fun hfault => ?_) (fun f' he hp => ?_))
        · exact Returns.ret (hfail _ s.rdonly (.inl rfl) (.inl hfault))
        · exact hread f' hvalid he hp
  · have hinvalid := fun h => hvalid (fatValidEntry_iff.mpr h)
    refine Returns.bind (Returns.modify (Returns.ret ?_))
    split_ifs
    · exact hfail _ true (.inl rfl) (.inr hinvalid)
    · exact hfail _ s.rdonly (.inl rfl) (.inr hinvalid)

end Read

section Mirror

def Spared (vol : Volume) (b : Nat) : Prop :=
  b < vol.fatStart + vol.fatLength ∨ vol.fatStart + vol.fatLength * vol.fats ≤ b

/-- Nothing has happened but to the further copies of the FAT. -/
structure Quiet (vol : Volume) (s s' : Fat) : Prop where
  spared : ∀ q : Ptr, Spared vol q.1 → s'.bufs q = s.bufs q
  freeClusters : s'.freeClusters = s.freeClusters
  freeClusValid : s'.freeClusValid = s.freeClusValid
  prevFree : s'.prevFree = s.prevFree
  discards : s'.discards = s.discards

theorem Quiet.refl (s : Fat) : Quiet vol s s := ⟨fun _ _ => rfl, rfl, rfl, rfl, rfl⟩

theorem Quiet.trans {s s' s'' : Fat} (h : Quiet vol s s') (h' : Quiet vol s' s'') : Quiet vol s s'' where
  spared q hq := (h'.spared q hq).trans (h.spared q hq)
  freeClusters := h'.freeClusters.trans h.freeClusters
  freeClusValid := h'.freeClusValid.trans h.freeClusValid
  prevFree := h'.prevFree.trans h.prevFree
  discards := h'.discards.trans h.discards

theorem Quiet.next {s s' : Fat} (h : Quiet vol s s') {e : Nat} (he : e < vol.maxCluster) :
    s'.next vol e = s.next vol e :=
  table_congr (fun q hq => h.spared q (.inl (mem_fat_of_held he hq).2))

def InFirst (vol : Volume) (b : Nat) : Prop := vol.fatStart ≤ b ∧ b < vol.fatStart + vol.fatLength

def Copied (vol : Volume) (s : Fat) (copy b : Nat) : Prop := ∀ o, s.bufs (vol.fatLength * copy + b, o) = s.bufs (b, o)

/-- All copies of the FAT agree, but perhaps for the blocks in B. -/
def MirroredBut (vol : Volume) (B : Nat → Prop) (s : Fat) : Prop :=
  ∀ copy b, copy < vol.fats → InFirst vol b → ¬ B b → Copied vol s copy b

theorem MirroredBut.mono {B B' : Nat → Prop} (h : MirroredBut vol B s) (hB : ∀ b, B b → B' b) :
    MirroredBut vol B' s :=
  fun copy b hcopy hb hout => h copy b hcopy hb (fun hin => hout (hB b hin))

theorem not_spared_copy_block {copy b : Nat} (hcopy : 1 ≤ copy ∧ copy < vol.fats) (hb : InFirst vol b) :
    ¬ Spared vol (vol.fatLength * copy + b) := by
  have hfirst := Nat.mul_le_mul_left vol.fatLength hcopy.1
  have hlast := Nat.mul_le_mul_left vol.fatLength (Nat.succ_le_of_lt hcopy.2)
  rw [Nat.mul_succ] at hlast
  obtain ⟨hstart, hend⟩ := hb
  rintro (h | h) <;> omega

theorem copy_block_inj {copy copy' b b' : Nat} (hb : InFirst vol b) (hb' : InFirst vol b')
    (h : vol.fatLength * copy + b = vol.fatLength * copy' + b') : copy = copy' ∧ b = b' := by
  obtain ⟨h₁, h₂⟩ := hb
  obtain ⟨h₁', h₂'⟩ := hb'
  have hcopy : copy = copy' := by
    rcases Nat.lt_trichotomy copy copy' with hlt | heq | hlt
    · have := Nat.mul_le_mul_left vol.fatLength hlt
      rw [Nat.mul_succ] at this
      omega
    · exact heq
    · have := Nat.mul_le_mul_left vol.fatLength hlt
      rw [Nat.mul_succ] at this
      omega
  subst hcopy
  exact ⟨rfl, by omega⟩

theorem quiet_copyBlock {copy b : Nat} (hcopy : 1 ≤ copy ∧ copy < vol.fats) (hb : InFirst vol b) :
    Quiet vol s { s with bufs := copyBlock s.bufs b (vol.fatLength * copy + b) } where
  spared q hq := if_neg (fun h => not_spared_copy_block hcopy hb (by rwa [← h]))
  freeClusters := rfl
  freeClusValid := rfl
  prevFree := rfl
  discards := rfl

theorem copied_copyBlock {copy b copy' b' : Nat} (hcopy : 1 ≤ copy ∧ copy < vol.fats) (hb : InFirst vol b)
    (hb' : InFirst vol b') (h : Copied vol s copy' b' ∨ (copy', b') = (copy, b)) :
    Copied vol { s with bufs := copyBlock s.bufs b (vol.fatLength * copy + b) } copy' b' := by
  intro o
  have hsrc : b' ≠ vol.fatLength * copy + b := fun h => not_spared_copy_block hcopy hb (.inl (h ▸ hb'.2))
  simp only [copyBlock, if_neg hsrc]
  split_ifs with heq
  · obtain ⟨-, rfl⟩ := copy_block_inj hb' hb heq
    rfl
  · rcases h with h | h
    · exact h o
    · cases h
      exact absurd rfl heq

/-- The first copy is left alone, and so is what agrees with it; on success the listed blocks agree too. -/
structure Mirrors (G : Answer → Prop) (vol : Volume) (l : List (Nat × Nat)) (s : Fat) (err : Option Errno)
    (s' : Fat) :
    Prop where
  quiet : Quiet vol s s'
  copied : ∀ copy b, InFirst vol b → Copied vol s copy b ∨ err = none ∧ (copy, b) ∈ l → Copied vol s' copy b
  faulty : err ≠ none → Unwritable G ∧ err ≠ some .enospc

theorem Mirrors.stop {l : List (Nat × Nat)} {e : Errno} (he : e ≠ .enospc) (hfault : Unwritable G) :
    Mirrors G vol l s (some e) s :=
  ⟨Quiet.refl s, fun _ _ _ h => h.resolve_right (by simp), fun _ => ⟨hfault, by simpa using he⟩⟩

theorem Mirrors.cons {l : List (Nat × Nat)} {err : Option Errno} {copy b : Nat} {s' : Fat}
    (hcopy : 1 ≤ copy ∧ copy < vol.fats) (hb : InFirst vol b)
    (h : Mirrors G vol l { s with bufs := copyBlock s.bufs b (vol.fatLength * copy + b) } err s') :
    Mirrors G vol ((copy, b) :: l) s err s' := by
  refine ⟨(quiet_copyBlock hcopy hb).trans h.quiet, fun copy' b' hb' hor => h.copied copy' b' hb' ?_, h.faulty⟩
  rcases hor with hor | ⟨herr, hmem⟩
  · exact .inl (copied_copyBlock hcopy hb hb' (.inl hor))
  · rcases List.mem_cons.mp hmem with heq | hmem
    · exact .inl (copied_copyBlock hcopy hb hb' (.inr heq))
    · exact .inr ⟨herr, hmem⟩

theorem returns_mirrorLoop {l : List (Nat × Nat)}
    (hl : ∀ p ∈ l, (1 ≤ p.1 ∧ p.1 < vol.fats) ∧ InFirst vol p.2) :
    Returns G s (mirrorLoop vol opt l) (Mirrors G vol l s) := by
  induction l generalizing s with
  | nil => exact Returns.ret ⟨Quiet.refl s, fun copy b _ h => h.resolve_right (fun h => by simp at h), by simp⟩
  | cons p rest ih =>
      obtain ⟨copy, b⟩ := p
      obtain ⟨hcopy, hb⟩ := hl (copy, b) List.mem_cons_self
      have hnext := (ih (s := { s with bufs := copyBlock s.bufs b (vol.fatLength * copy + b) })
        (fun p hp => hl p (List.mem_cons_of_mem _ hp))).mono (fun err s' h => h.cons hcopy hb)
      refine returns_sbGetblk ?_ (fun hfault => Returns.ret (Mirrors.stop (by decide) hfault))
      refine Returns.bind (Returns.modify ?_)
      by_cases hsynchronous : opt.synchronous = true
      · rw [if_pos hsynchronous]
        refine returns_syncBhs hnext (fun hfault => ?_)
        exact Returns.ret (Mirrors.cons hcopy hb (Mirrors.stop (by decide) hfault))
      · rw [if_neg hsynchronous]
        exact hnext

structure Synced (G : Answer → Prop) (vol : Volume) (bhs : List Nat) (s : Fat) (err : Option Errno) (s' : Fat) :
    Prop where
  quiet : Quiet vol s s'
  mirrored : ∀ B, MirroredBut vol B s → MirroredBut vol (fun b => B b ∧ (err = none → b ∉ bhs)) s'
  faulty : err ≠ none → Unwritable G ∧ err ≠ some .enospc

theorem Synced.stop {bhs : List Nat} {e : Errno} (he : e ≠ .enospc) (hfault : Unwritable G) :
    Synced G vol bhs s (some e) s :=
  ⟨Quiet.refl s, fun _ h => h.mono (fun _ hb => ⟨hb, by simp⟩), fun _ => ⟨hfault, by simpa using he⟩⟩

theorem returns_fatMirrorBhs {bhs : List Nat} (hbhs : ∀ b ∈ bhs, InFirst vol b) :
    Returns G s (fatMirrorBhs vol opt bhs) (Synced G vol bhs s) := by
  have hpairs : ∀ copy b, (copy, b) ∈ (List.range' 1 (vol.fats - 1)).flatMap
      (fun copy => bhs.map (fun b => (copy, b))) ↔
      (1 ≤ copy ∧ copy < vol.fats) ∧ b ∈ bhs := by
    intro copy b
    simp only [List.mem_flatMap, List.mem_range'_1, List.mem_map, Prod.mk.injEq]
    constructor
    · rintro ⟨copy', hcopy, b', hb, rfl, rfl⟩
      exact ⟨by omega, hb⟩
    · rintro ⟨hcopy, hb⟩
      exact ⟨copy, by omega, b, hb, rfl, rfl⟩
  refine (returns_mirrorLoop ?_).mono (fun err s' h => ⟨h.quiet, fun B hB => ?_, h.faulty⟩)
  · rintro ⟨copy, b⟩ hp
    obtain ⟨hcopy, hb⟩ := (hpairs copy b).mp hp
    exact ⟨hcopy, hbhs b hb⟩
  · intro copy b hcopy hb hout
    by_cases hin : B b
    · obtain ⟨herr, hmem⟩ := Classical.not_imp.mp (fun h => hout ⟨hin, h⟩)
      rcases Nat.eq_zero_or_pos copy with rfl | hpos
      · intro o
        rw [Nat.mul_zero, Nat.zero_add]
      · exact h.copied copy b hb (.inr ⟨herr, (hpairs copy b).mpr ⟨⟨hpos, hcopy⟩, not_not.mp hmem⟩⟩)
    · exact h.copied copy b hb (.inl (hB copy b hcopy hb hin))

theorem returns_syncAndMirror {bhs : List Nat} {wait : Bool} (hbhs : ∀ b ∈ bhs, InFirst vol b) :
    Returns G s (syncAndMirror vol opt wait bhs) (Synced G vol bhs s) := by
  unfold syncAndMirror
  split_ifs
  · exact returns_syncBhs (returns_fatMirrorBhs hbhs) (fun hfault => Returns.ret (Synced.stop (by decide) hfault))
  · exact returns_fatMirrorBhs hbhs

end Mirror

section Store

variable {e new : Nat}

def Fat.put (vol : Volume) (s : Fat) (e new : Nat) : Fat := { s with bufs := FatEntry.put vol s.bufs e new }

theorem returns_entStore {Q : Unit → Fat → Prop} (hf : f.Points vol) (h : Q () (s.put vol f.entry new)) :
    Returns G s (entStore f new) Q := by
  refine Returns.modify ?_
  rw [hf.entPut_eq]
  exact h

theorem next_put (hnew : Storable vol new) (e' : Nat) :
    (s.put vol e new).next vol e' = if e' = e then new else s.next vol e' := table_put hnew e'

theorem put_of_not_inFirst (he : e < vol.maxCluster) {q : Ptr} (hq : ¬ InFirst vol q.1) :
    (s.put vol e new).bufs q = s.bufs q :=
  put_of_not_held (fun hmem => hq (mem_fat_of_held he hmem))

theorem MirroredBut.put {B : Nat → Prop} (he : e < vol.maxCluster) (h : MirroredBut vol B s) :
    MirroredBut vol (fun b => B b ∨ b ∈ held vol e) (s.put vol e new) := by
  intro copy b hcopy hb hout o
  rw [not_or] at hout
  have hsame : (s.put vol e new).bufs (b, o) = s.bufs (b, o) := put_of_not_held hout.2
  rcases Nat.eq_zero_or_pos copy with rfl | hpos
  · rw [Nat.mul_zero, Nat.zero_add]
  · have hfar : ¬ InFirst vol (vol.fatLength * copy + b) := fun hin =>
      not_spared_copy_block ⟨hpos, hcopy⟩ hb (.inl hin.2)
    rw [put_of_not_inFirst he hfar, hsame]
    exact h copy b hcopy hb hout.1 o

theorem storable_free : Storable vol entFree := .inl (by cases h : vol.variant <;> simp [Variant.bad, entFree])

theorem storable_eof : Storable vol entEof := .inr rfl

theorem storable_entry (he : e < vol.maxCluster) : Storable vol e := .inl (he.trans_le vol.lt_bad)

structure Written (G : Answer → Prop) (vol : Volume) (e new : Nat) (s : Fat) (err : Option Errno) (s' : Fat) :
    Prop where
  next : ∀ x < vol.maxCluster, s'.next vol x = if x = e then new else s.next vol x
  known : s'.freeClusters = s.freeClusters ∧ s'.freeClusValid = s.freeClusValid ∧ s'.prevFree = s.prevFree ∧
    s'.discards = s.discards
  spared : ∀ q : Ptr, Spared vol q.1 → q.1 ∉ held vol e → s'.bufs q = s.bufs q
  mirrored : err = none → ∀ B, MirroredBut vol B s → MirroredBut vol (fun b => B b ∧ b ∉ held vol e) s'
  faulty : err ≠ none → Unwritable G

theorem Written.next_of_ne {x : Nat} {err : Option Errno} {s' : Fat} (h : Written G vol e new s err s')
    (hx : x < vol.maxCluster) (hne : x ≠ e) : s'.next vol x = s.next vol x := by
  rw [h.next x hx, if_neg hne]

theorem returns_fatEntWrite {wait : Bool} (hf : f.Points vol) (he : f.entry < vol.maxCluster)
    (hnew : Storable vol new) :
    Returns G s (fatEntWrite vol opt f new wait) (Written G vol f.entry new s) := by
  have hin : ∀ b ∈ f.bhs, InFirst vol b := fun b hb => mem_fat_of_held he (hf.bhs ▸ hb)
  refine Returns.bind (returns_entStore hf ((returns_syncAndMirror hin).mono (fun err s' h => ?_)))
  refine ⟨fun x hx => (h.quiet.next hx).trans (next_put hnew x), ?_, fun q hq hout => ?_, fun hnone B hB => ?_, ?_⟩
  · exact ⟨h.quiet.freeClusters, h.quiet.freeClusValid, h.quiet.prevFree, h.quiet.discards⟩
  · exact (h.quiet.spared q hq).trans (put_of_not_held hout)
  · refine (h.mirrored _ (hB.put he)).mono ?_
    rintro b ⟨hb | hb, hnot⟩
    · exact ⟨hb, hf.bhs ▸ hnot hnone⟩
    · exact absurd (hf.bhs ▸ hb) (hnot hnone)
  · exact fun herr => (h.faulty herr).1

theorem mem_fatCollectBhs {bhs : List Nat} {b : Nat} : b ∈ fatCollectBhs bhs f ↔ b ∈ bhs ∨ b ∈ f.bhs := by
  unfold fatCollectBhs
  induction f.bhs generalizing bhs with
  | nil => simp
  | cons c rest ih =>
      rw [List.foldl_cons, ih, List.mem_cons]
      split_ifs with hc
      · constructor
        · exact fun h => h.imp_right .inr
        · rintro (h | rfl | h)
          exacts [.inl h, .inl hc, .inr h]
      · rw [List.mem_append, List.mem_singleton, or_assoc]

theorem length_fatCollectBhs (bhs : List Nat) (f : Fatent) :
    (fatCollectBhs bhs f).length ≤ bhs.length + f.bhs.length := by
  unfold fatCollectBhs
  induction f.bhs generalizing bhs with
  | nil => simp
  | cons c rest ih =>
      rw [List.foldl_cons, List.length_cons]
      refine (ih _).trans ?_
      split_ifs
      · omega
      · rw [List.length_append, List.length_singleton]
        omega

end Store

section Halts

theorem halts_ite {p : Prop} [Decidable p] {m m' : Io α} (hm : Halts m) (hm' : Halts m') :
    Halts (if p then m else m') := by
  split_ifs
  exacts [hm, hm']

theorem halts_entBread (offset blocknr : Nat) : Halts (entBread vol f offset blocknr) :=
  Halts.bind Halts.call (fun _ =>
    halts_ite (halts_ite Halts.ret (Halts.bind Halts.call (fun _ => halts_ite Halts.ret Halts.ret))) Halts.ret)

theorem halts_entAt (mapped : Bool) (f : Fatent) : Halts (entAt vol mapped f) :=
  halts_ite Halts.ret (halts_entBread _ _)

theorem halts_fatEntRead (e : Nat) : Halts (fatEntRead vol opt f e) := by
  refine halts_ite ?_ (Halts.bind Halts.modify (fun _ => Halts.ret))
  dsimp only
  split
  · exact Halts.bind Halts.read (fun _ => Halts.ret)
  · refine Halts.bind (halts_entBread _ _) (fun r => ?_)
    cases r with
    | none => exact Halts.ret
    | some f => exact Halts.bind Halts.read (fun _ => Halts.ret)

theorem halts_mirrorLoop (l : List (Nat × Nat)) : Halts (mirrorLoop vol opt l) := by
  induction l with
  | nil => exact Halts.ret
  | cons p rest ih =>
      exact Halts.bind Halts.call (fun _ => halts_ite (Halts.bind Halts.modify (fun _ =>
        halts_ite (Halts.bind Halts.call (fun _ => halts_ite ih Halts.ret)) ih)) Halts.ret)

theorem halts_syncAndMirror (wait : Bool) (bhs : List Nat) : Halts (syncAndMirror vol opt wait bhs) :=
  halts_ite (Halts.bind Halts.call (fun _ => halts_ite (halts_mirrorLoop _) Halts.ret)) (halts_mirrorLoop _)

theorem halts_fatEntWrite (f : Fatent) (new : Nat) (wait : Bool) : Halts (fatEntWrite vol opt f new wait) :=
  Halts.bind Halts.modify (fun _ => halts_syncAndMirror _ _)

end Halts

/-- fat_ent_write changes one entry of the FAT, and does so in all copies if it succeeds. -/
theorem fatEntWrite_ends {new : Nat} (hf : f.Points vol) (he : f.entry < vol.maxCluster) (hnew : Storable vol new)
    (wait : Bool) : Ends G s (fatEntWrite vol opt f new wait) (Written G vol f.entry new s) :=
  (returns_fatEntWrite hf he hnew).ends (halts_fatEntWrite f new wait)

def blank : Fat := ⟨fun _ => 0, 2847, true, startEnt, false, false, []⟩

theorem next_blank (hvar : vol.variant = .fat12) (x : Nat) : blank.next vol x = entFree := by
  simp [Fat.next, table, entGet, pointed, hvar, fat12EntGet, blank, ending, Variant.bad, entFree]

theorem fatEntWrite_ends_floppy : (entryOf floppy 341).bhs.length = 2 ∧
    Ends (fun _ => True) blank (fatEntWrite floppy ⟨true, false, false⟩ (entryOf floppy 341) 0xabc true)
      (Written (fun _ => True) floppy 341 0xabc blank) :=
  ⟨by decide, fatEntWrite_ends (points_entryOf floppy 341) (by decide) (.inl (by decide)) true⟩

end SuperRaid.FatTable
