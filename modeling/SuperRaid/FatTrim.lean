import SuperRaid.FatFree

namespace SuperRaid.FatTable

open Image Sys FatEntry

section Model

variable (vol : Volume)

structure Trim where
  fatent : Fatent
  free : Nat
  trimmed : Nat

end Model

variable {vol : Volume} {G : Answer → Prop} {s₀ s s' : Fat} {f : Fatent} {first e minlen : Nat}
  {ds : List (Nat × Nat)}
  {os : List ((Nat × Nat) × Option Errno)} {st : Trim}

/-- A run of free entries between two bounds that cannot be made longer. -/
structure Maximal (t : Nat → Nat) (first stop c k : Nat) : Prop where
  bounds : first ≤ c ∧ c + k ≤ stop ∧ 0 < k
  free : ∀ x, c ≤ x → x < c + k → t x = entFree
  left : c = first ∨ t (c - 1) ≠ entFree
  right : c + k = stop ∨ t (c + k) ≠ entFree

def Sound (t : Nat → Nat) (minlen first stop : Nat) (ds : List (Nat × Nat)) : Prop :=
  ∀ d ∈ ds, (first ≤ d.1 ∧ d.1 + d.2 ≤ stop) ∧ minlen ≤ d.2 ∧ ∀ x, d.1 ≤ x → x < d.1 + d.2 →
    t x = entFree

def Complete (t : Nat → Nat) (minlen first stop e : Nat) (ds : List (Nat × Nat)) : Prop :=
  ∀ x, first ≤ x → x < e → t x = entFree →
    ∃ c k, (c ≤ x ∧ x < c + k) ∧ Maximal t first stop c k ∧ (k < minlen ∨ (c, k) ∈ ds)

abbrev Discard := (Nat × Nat) × Option Errno

def succeeded (os : List Discard) : List (Nat × Nat) := (os.filter (fun o => o.2.isNone)).map Prod.fst

/-- The discards that were issued so far, newest first: free entries only. What is reported are those that the device
has made. -/
structure Issued (G : Answer → Prop) (vol : Volume) (s₀ : Fat) (minlen first stop : Nat) (os : List Discard)
    (trimmed : Nat) (s : Fat) : Prop where
  discards : s.discards = os.map Prod.fst ++ s₀.discards
  answers : ∀ o ∈ os, ∃ r, G r ∧ r.discard = o.2
  sound : Sound (s.next vol) minlen first stop (os.map Prod.fst)
  trimmed : trimmed = (runs (succeeded os)).length

def Passed (os : List Discard) : Prop := ∀ o ∈ os, o.2 = none ∨ o.2 = some .eopnotsupp

/-- What ends fat_trim_fs before the end of the range: a block that cannot be read, a signal, or a discard. -/
def Stopped (G : Answer → Prop) (os : List Discard) (e : Errno) : Prop :=
  e = .eio ∧ Unreadable G ∨ e = .erestartsys ∧ (∃ r, G r ∧ r.signal = true) ∨
    e ≠ .eopnotsupp ∧ ∃ d, (d, some e) ∈ os

structure Trimmed (G : Answer → Prop) (vol : Volume) (s₀ : Fat) (minlen first stop e : Nat) (os : List Discard)
    (trimmed : Nat) (s : Fat) : Prop where
  issued : Issued G vol s₀ minlen first e os trimmed s
  passed : Passed os
  complete : (∀ r, G r → r.others = none) →
    s.bufs = s₀.bufs ∧ Complete (s.next vol) minlen first stop e (os.map Prod.fst)

/-- The invariant of the loops of fat_trim_fs, before entry e: the entries that are counted are dealt with later. -/
structure TrimInv (G : Answer → Prop) (vol : Volume) (s₀ : Fat) (minlen first stop e : Nat) (os : List Discard)
    (st : Trim) (s : Fat) : Prop where
  before : Trimmed G vol s₀ minlen first stop (e - st.free) os st.trimmed s
  free_le : first + st.free ≤ e
  run : ∀ x, e - st.free ≤ x → x < e → s.next vol x = entFree
  left : (∀ r, G r → r.others = none) → e - st.free = first ∨ s.next vol (e - st.free - 1) ≠ entFree

def Fails (G : Answer → Prop) (vol : Volume) (s₀ : Fat) (minlen first stop : Nat) (e : Errno) (trimmed : Nat)
    (s : Fat) : Prop :=
  ∃ os, Issued G vol s₀ minlen first stop os trimmed s ∧ Stopped G os e

theorem Sound.mono {t : Nat → Nat} {stop stop' : Nat} (h : Sound t minlen first stop ds) (hle : stop ≤ stop') :
    Sound t minlen first stop' ds := fun d hd =>
  ⟨⟨(h d hd).1.1, (h d hd).1.2.trans hle⟩, (h d hd).2⟩

variable {stop stop' trimmed : Nat} {o : Discard}

theorem Issued.mono (h : Issued G vol s₀ minlen first stop os trimmed s) (hle : stop ≤ stop') :
    Issued G vol s₀ minlen first stop' os trimmed s :=
  ⟨h.discards, h.answers, h.sound.mono hle, h.trimmed⟩

theorem Fails.mono {err : Errno} (h : Fails G vol s₀ minlen first stop err trimmed s) (hle : stop ≤ stop') :
    Fails G vol s₀ minlen first stop' err trimmed s := by
  obtain ⟨os, hissued, hstopped⟩ := h
  exact ⟨os, hissued.mono hle, hstopped⟩

theorem length_runs_succeeded (o : Discard) (os : List Discard) :
    (runs (succeeded (o :: os))).length = (runs (succeeded os)).length + if o.2 = none then o.1.2 else 0 := by
  obtain ⟨d, answer⟩ := o
  cases answer with
  | none => simp [succeeded, runs_cons]
  | some e => simp [succeeded]

theorem Issued.cons {r : Answer} {d : Nat × Nat} (h : Issued G vol s₀ minlen first e os trimmed s) (hr : G r)
    (hd : Sound (s.next vol) minlen first stop [d]) (hle : e ≤ stop) :
    Issued G vol s₀ minlen first stop ((d, r.discard) :: os)
      (trimmed + if r.discard = none then d.2 else 0) { s with discards := d :: s.discards } where
  discards := by rw [h.discards, List.map_cons, List.cons_append]
  answers o ho := by
    rcases List.mem_cons.mp ho with rfl | ho
    · exact ⟨r, hr, rfl⟩
    · exact h.answers o ho
  sound d' hd' := by
    rcases List.mem_cons.mp hd' with rfl | hd'
    · exact hd d' List.mem_cons_self
    · exact h.sound.mono hle d' hd'
  trimmed := by rw [length_runs_succeeded, h.trimmed]

theorem TrimInv.maximal (h : TrimInv G vol s₀ minlen first stop e os st s) (hfree : st.free ≠ 0)
    (hright : e = stop ∨ e < stop ∧ s.next vol e ≠ entFree) (hquiet : ∀ r, G r → r.others = none) :
    Maximal (s.next vol) first stop (e - st.free) st.free := by
  have hle := h.free_le
  have hsum : e - st.free + st.free = e := by omega
  refine ⟨by omega, fun x h₁ h₂ => h.run x h₁ (by omega), h.left hquiet, ?_⟩
  rw [hsum]
  exact hright.imp_right And.right

theorem TrimInv.complete (h : TrimInv G vol s₀ minlen first stop e os st s)
    (hright : e = stop ∨ e < stop ∧ s.next vol e ≠ entFree) (hquiet : ∀ r, G r → r.others = none)
    (hsub : os.map Prod.fst ⊆ ds) (hrun : st.free ≠ 0 → st.free < minlen ∨ (e - st.free, st.free) ∈ ds) :
    s.bufs = s₀.bufs ∧ Complete (s.next vol) minlen first stop e ds := by
  have hle := h.free_le
  obtain ⟨hbufs, hbefore⟩ := h.before.complete hquiet
  refine ⟨hbufs, fun x h₁ h₂ hx => ?_⟩
  by_cases hin : x < e - st.free
  · obtain ⟨c, k, hmem, hmax, hd⟩ := hbefore x h₁ hin hx
    exact ⟨c, k, hmem, hmax, hd.imp_right (fun hd => hsub hd)⟩
  · have hfree : st.free ≠ 0 := by omega
    exact ⟨e - st.free, st.free, by omega, h.maximal hfree hright hquiet, hrun hfree⟩

theorem TrimInv.fails {err : Errno} (h : TrimInv G vol s₀ minlen first stop e os st s) (hle : e ≤ stop)
    (hstopped : Stopped G os err) : Fails G vol s₀ minlen first stop err st.trimmed s :=
  ⟨os, h.before.issued.mono ((Nat.sub_le _ _).trans hle), hstopped⟩

section Halts

end Halts

end SuperRaid.FatTable
