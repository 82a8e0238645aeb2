import SuperRaid.BootSpec
import SuperRaid.SysSimulation
import SuperRaid.TransferSpec

namespace SuperRaid.TransferStorage

open Image Footer Volatile Sys Machine BootSpec PartitionSpec TransferSpec

variable {env : Env} {L : Layout} {set : Transfer.Setting} {src : Node} {d : Dev} {α β : Type}

def nodeOf (src : Node) (d : Dev) : Transfer.Fd → Node
  | .source => src
  | .destination => .part d

/-- The descriptors show the devices of the board. -/
structure Agree (L : Layout) (src : Node) (d : Dev) (s : Transfer.State) (w : World) : Prop where
  content : ∀ fd, s.content fd = w.content L (nodeOf src d fd)
  sizes : ∀ e, (w.disk e).cur.length = L.size e
  idle : w.busy (.part d) = false

/-- The setting describes the board, and nothing but the program changes the devices. -/
structure Setup (env : Env) (L : Layout) (set : Transfer.Setting) (src : Node) (d : Dev) : Prop where
  choice : Nonempty env.Choice
  still : Still env
  geometry : Geometry L
  logical : ∀ fd, set.logical fd = (L.target (nodeOf src d fd)).logicalSize
  place : set.place = if src = .parent then some (512 * L.startSector d) else none
  apart : src ≠ .part d

section Bytes

variable {img bs bs' : Bytes} {off off' : Nat}

theorem overwrite_inner (hfit : off' + bs'.length ≤ bs.length) (himg : off + bs.length ≤ img.length) :
    overwrite (overwrite img off bs) (off + off') bs' = overwrite img off (overwrite bs off' bs') := by
  have hlen : (overwrite bs off' bs').length = bs.length := overwrite_length hfit
  refine List.ext_getElem? (fun i => ?_)
  rw [overwrite_getElem? (by rw [overwrite_length himg]; omega), overwrite_getElem? (by omega),
    overwrite_getElem? (by omega), overwrite_getElem? (by omega), hlen]
  split_ifs <;> first | rfl | omega | (congr 1; omega)

theorem overwrite_comm (hbs : off + bs.length ≤ img.length) (hbs' : off' + bs'.length ≤ img.length)
    (hapart : off + bs.length ≤ off' ∨ off' + bs'.length ≤ off) :
    overwrite (overwrite img off bs) off' bs' = overwrite (overwrite img off' bs') off bs := by
  refine List.ext_getElem? (fun i => ?_)
  rw [overwrite_getElem? (by rw [overwrite_length hbs]; omega), overwrite_getElem? (by omega),
    overwrite_getElem? (by rw [overwrite_length hbs']; omega), overwrite_getElem? (by omega)]
  split_ifs <;> first | rfl | omega

end Bytes

section Devices

variable {w : World} {e : Dev} {pos : Nat} {bs : Bytes}

theorem content_write_self (hne : bs ≠ []) :
    (w.write e pos bs).content L (.part e) = overwrite (w.content L (.part e)) pos bs := by
  rw [World.content, World.write_disk_self _ _ _ _ hne]
  rfl

theorem content_write_of_ne {e' : Dev} (h : e' ≠ e) :
    (w.write e pos bs).content L (.part e') = w.content L (.part e') := by
  rw [World.content, World.write_disk_of_ne _ _ _ _ _ h]
  rfl

variable (hgeom : Geometry L) (hsizes : ∀ e, (w.disk e).cur.length = L.size e)

include hsizes

theorem write_sizes (hne : bs ≠ []) (hfit : pos + bs.length ≤ L.size e) (e' : Dev) :
    ((w.write e pos bs).disk e').cur.length = L.size e' := by
  by_cases he : e' = e
  · subst he
    have hlen : ((w.write e' pos bs).disk e').cur.length = (overwrite (w.disk e').cur pos bs).length :=
      congrArg List.length (content_write_self (L := L) hne)
    rw [hlen, overwrite_length (by rw [hsizes]; exact hfit)]
    exact hsizes e'
  · rw [World.write_disk_of_ne _ _ _ _ _ he]
    exact hsizes e'

include hgeom

theorem content_length (node : Node) : (w.content L node).length = (L.target node).size := by
  cases node with
  | part e => exact hsizes e
  | parent =>
      have ha := hgeom.fits .a
      have hb := hgeom.fits .b
      have hlen : (overwrite L.parentRest (512 * L.startSector .a) (w.disk .a).cur).length = L.parentRest.length :=
        overwrite_length (by rw [hsizes]; exact ha)
      exact (overwrite_length (by rw [hlen, hsizes]; exact hb)).trans hlen

theorem content_parent_write (hne : bs ≠ []) (hfit : pos + bs.length ≤ L.size e) :
    (w.write e pos bs).content L .parent = overwrite (w.content L .parent) (512 * L.startSector e + pos) bs := by
  have ha := hgeom.fits .a
  have hb := hgeom.fits .b
  have hsa := hsizes .a
  have hsb := hsizes .b
  have hcur : ((w.write e pos bs).disk e).cur = overwrite (w.disk e).cur pos bs := content_write_self (L := L) hne
  have hlen : (overwrite L.parentRest (512 * L.startSector .a) (w.disk .a).cur).length = L.parentRest.length :=
    overwrite_length (by omega)
  have hdisjoint := hgeom.disjoint
  unfold World.content
  cases e with
  | b =>
      have hother : (w.write .b pos bs).disk .a = w.disk .a := World.write_disk_of_ne w .b .a pos bs (by decide)
      rw [hcur, hother, overwrite_inner (by omega) (by omega)]
  | a =>
      have hother : (w.write .a pos bs).disk .b = w.disk .b := World.write_disk_of_ne w .a .b pos bs (by decide)
      rw [hcur, hother, ← overwrite_inner (by omega) (by omega), overwrite_comm (by omega) (by omega) (by omega)]

end Devices

namespace Agree

variable {s s' : Transfer.State} {w : World}

theorem same (h : Agree L src d s w) (hs : s'.content = s.content) : Agree L src d s' w :=
  ⟨hs ▸ h.content, h.sizes, h.idle⟩

theorem act (h : Agree L src d s w) (hstill : Still env) (r : Answer env.Choice) : Agree L src d s (w.act env r) := by
  have hdisk : (w.act env r).disk = w.disk := hstill.disk w r
  refine ⟨fun fd => ?_, by rw [hdisk]; exact h.sizes, h.idle⟩
  rw [h.content fd]
  cases nodeOf src d fd with
  | part e => rw [World.content, World.content, hdisk]
  | parent => rw [World.content, World.content, hdisk]

theorem sync (h : Agree L src d s w) (e : Dev) : Agree L src d s (w.sync e) := by
  have hcur : ∀ e', ((w.sync e).disk e').cur = (w.disk e').cur := fun e' => by
    by_cases heq : e' = e
    · subst heq
      rw [World.sync_disk_self]
      rfl
    · rw [World.sync_disk_of_ne _ _ _ heq]
  refine ⟨fun fd => ?_, fun e' => by rw [hcur]; exact h.sizes e', h.idle⟩
  rw [h.content fd]
  cases nodeOf src d fd with
  | part e => exact (hcur e).symm
  | parent => rw [World.content, World.content, hcur, hcur]

section Put

variable (hset : Setup env L set src d) (h : Agree L src d s w) {fd : Transfer.Fd} {e : Dev} {pos : Nat} {bs : Bytes}
  (hnode : nodeOf src d fd = .part e) (hne : bs ≠ []) (hfit : pos + bs.length ≤ L.size e)

include hset h hnode hne hfit

theorem put_content (fd' : Transfer.Fd) :
    (s.put set fd pos bs).content fd' = (w.write e pos bs).content L (nodeOf src d fd') := by
  have hplace := hset.place
  have hcontent := h.content
  cases src with
  | parent =>
      -- the destination is a part of the source, which changes with it
      cases fd with
      | source => cases hnode
      | destination =>
        obtain rfl : d = e := Node.part.inj hnode
        rw [if_pos rfl] at hplace
        simp only [Transfer.State.put, hplace]
        cases fd' with
        | source =>
            rw [nodeOf, content_parent_write hset.geometry h.sizes hne hfit]
            exact congrArg (overwrite · _ bs) (hcontent .source)
        | destination =>
            rw [nodeOf, content_write_self hne]
            exact congrArg (overwrite · pos bs) (hcontent .destination)
  | part e₀ =>
      have hapart : e₀ ≠ d := fun heq => hset.apart (heq ▸ rfl)
      rw [if_neg (by simp)] at hplace
      have hput : (s.put set fd pos bs).content = Function.update s.content fd (overwrite (s.content fd) pos bs) := by
        cases fd <;> simp only [Transfer.State.put, hplace]
      rw [hput]
      by_cases hfd : fd' = fd
      · rw [hfd, Function.update_self, hnode, content_write_self hne, hcontent, hnode]
      · rw [Function.update_of_ne hfd, hcontent]
        cases fd with
        | source =>
            obtain rfl : e₀ = e := Node.part.inj hnode
            cases fd' with
            | source => exact absurd rfl hfd
            | destination => exact (content_write_of_ne hapart.symm).symm
        | destination =>
            obtain rfl : d = e := Node.part.inj hnode
            cases fd' with
            | source => exact (content_write_of_ne hapart).symm
            | destination => exact absurd rfl hfd

theorem put : Agree L src d (s.put set fd pos bs) (w.write e pos bs) where
  content := put_content hset h hnode hne hfit
  sizes := write_sizes h.sizes hne hfit
  idle := by
    unfold World.busy
    rw [World.write_ctl]
    exact h.idle

end Put

end Agree

section Programs

variable (hset : Setup env L set src d)

def Keeps (m : Transfer.Io α) : Prop :=
  ∀ X, Does ⊤ (fun s => s.content = X) m (fun _ s => s.content = X) (fun s => s.content = X)

theorem Keeps.ret (a : α) : Keeps (pure a) := fun _ => Does.ret (fun _ hs => hs)

theorem Keeps.bind {m : Transfer.Io α} {f : α → Transfer.Io β} (hm : Keeps m) (hf : ∀ a, Keeps (f a)) :
    Keeps (m >>= f) := fun X => Does.mono (Spec.bind (hm X) (fun a => hf a X)) le_top

theorem Keeps.call {f : Transfer.Reply → Transfer.State → α × Transfer.State}
    (h : ∀ r s, (f r s).2.content = s.content) : Keeps (Prog.call f) := fun _ =>
  Does.mono (Spec.call (fun r _ => wt_le_one r) (fun _ hs => hs) (fun r s _ hs => (h r s).trans hs)) le_top

theorem keeps_succeeds : Keeps Transfer.succeeds := Keeps.call (fun r s => by cases r <;> rfl)

theorem keeps_closeTarget : Keeps Transfer.closeTarget := Keeps.bind keeps_succeeds (fun _ => Keeps.ret ())

theorem keeps_allSucceed (n : Nat) : Keeps (Transfer.allSucceed n) := fun _ =>
  Does.mono (does_allSucceed (fun _ hs => hs) n) le_top

theorem keeps_fcntlSetfl (fd : Transfer.Fd) (flags : BitVec 32) : Keeps (Transfer.fcntlSetfl fd flags) :=
  Keeps.call (fun r s => by cases r <;> rfl)

theorem keeps_setBufferedIo (fd : Transfer.Fd) : Keeps (Transfer.setBufferedIo fd) := by
  refine Keeps.bind (Keeps.call (fun r s => by cases r <;> rfl)) (fun saved => ?_)
  split_ifs
  · exact Keeps.ret none
  · refine Keeps.bind (keeps_fcntlSetfl fd _) (fun ok => ?_)
    cases ok with
    | true => exact Keeps.ret (some saved)
    | false => exact Keeps.ret none
  · exact Keeps.ret (some saved)

theorem keeps_restoreIoFlags (fd : Transfer.Fd) (saved : BitVec 32) : Keeps (Transfer.restoreIoFlags fd saved) := by
  unfold Transfer.restoreIoFlags
  split_ifs
  · exact Keeps.ret true
  · exact keeps_fcntlSetfl fd saved

theorem sim_call {m : Transfer.Io α} (hm : Keeps m) {g : Answer env.Choice → World → β × World}
    {V : α → β → Prop}
    (h : ∀ a s w, Agree L src d s w → ∃ r, V a (g r (w.act env r)).1 ∧ Agree L src d s (g r (w.act env r)).2) :
    Simulated (Agree L src d) m (sys g) V := by
  have hspec (w : World) : Does ⊤ (Agree L src d · w) m
      (fun a s => ∃ r, V a (g r (w.act env r)).1 ∧ Agree L src d s (g r (w.act env r)).2) (Agree L src d · w) := by
    intro rs s hG hs
    exact (hm s.content).conseq (fun _ ht => ht) (fun a t ht => h a t w (hs.same ht)) (fun t ht => hs.same ht) le_rfl
      rs s hG rfl
  exact Simulated.call (fun _ => trivial) hspec

def replied (c : env.Choice) (ok intr : Bool) (count : Nat) : Answer env.Choice :=
  ⟨c, ok, intr, count, .inactive, 0⟩

include hset

theorem sim_ask {m : Transfer.Io α} (hm : Keeps m) {g : Answer env.Choice → β} {V : α → β → Prop}
    (h : ∀ a, ∃ r, V a (g r)) : Simulated (Agree L src d) m (ask g) V := by
  refine sim_call hm (fun a s w hs => ?_)
  obtain ⟨r, hr⟩ := h a
  exact ⟨r, hr, hs.act hset.still r⟩

theorem sim_succeeds {m : Transfer.Io α} (hm : Keeps m) (ok : α → Bool) :
    Simulated (Agree L src d) m (succeeds : Run env Bool) (fun a b => ok a = b) := by
  obtain ⟨c⟩ := hset.choice
  exact sim_ask hset hm (fun a => ⟨replied c (ok a) false 0, rfl⟩)

theorem sim_preadFull {fd : Transfer.Fd} {address off len : Nat} (hsmall : off + len < 2 ^ 64) :
    Simulated (Agree L src d) (Transfer.preadFull set fd address len off)
      (Storage.preadFull L (nodeOf src d fd) off len : Run env (Option Bytes))
      (fun a b => a = b ∧ ∀ bs, a = some bs → bs.length ≤ len) := by
  unfold Transfer.preadFull Storage.preadFull
  split_ifs with hlen
  · exact Simulated.ret ⟨rfl, by simp⟩
  refine Simulated.loopCall (J := fun acc acc' => acc = acc' ∧ acc.length < len) ?_ [] []
    ⟨rfl, Nat.pos_of_ne_zero hlen⟩
  rintro acc _ r s w ⟨rfl, hlt⟩ hs
  have hpos : (off + acc.length) % 2 ^ 64 = off + acc.length := Nat.mod_eq_of_lt (by omega)
  obtain ⟨c⟩ := hset.choice
  unfold Transfer.preadStep Storage.preadStep
  cases r with
  | interrupted => exact ⟨replied c false true 0, .inl ⟨rfl, hlt⟩, (hs.act hset.still _).same rfl⟩
  | failed => exact ⟨replied c false false 0, .inr ⟨rfl, by simp⟩, (hs.act hset.still _).same rfl⟩
  | moved count =>
      have hact := hs.act hset.still (replied c true false (Transfer.moves set s fd count))
      refine ⟨replied c true false (Transfer.moves set s fd count), ?_⟩
      generalize w.act env (replied c true false (Transfer.moves set s fd count)) = w' at hact ⊢
      have hgot : (slice (s.content fd) (off + acc.length)
          (min (Transfer.moves set s fd count) (len - acc.length))).length ≤ len - acc.length := by
        rw [slice, List.length_take]
        omega
      simp only [hpos, replied, if_true, ← hact.content fd]
      generalize slice (s.content fd) (off + acc.length) (min (Transfer.moves set s fd count) (len - acc.length)) = got
        at hgot ⊢
      by_cases hnil : got = []
      · rw [if_pos hnil, if_pos hnil]
        exact ⟨.inr ⟨rfl, by simp⟩, hact.same rfl⟩
      rw [if_neg hnil, if_neg hnil]
      by_cases hmore : acc.length + got.length < len
      · rw [if_pos hmore, if_pos hmore]
        exact ⟨.inl ⟨rfl, by rw [List.length_append]; exact hmore⟩, hact.same rfl⟩
      · rw [if_neg hmore, if_neg hmore]
        refine ⟨.inr ⟨rfl, fun bs hbs => ?_⟩, hact.same rfl⟩
        rw [← Option.some.inj hbs, List.length_append]
        omega

theorem sim_pwriteFull {fd : Transfer.Fd} {e : Dev} {address off : Nat} {bs : Bytes} (hnode : nodeOf src d fd = .part e)
    (hsmall : off + bs.length < 2 ^ 64) :
    Simulated (Agree L src d) (Transfer.pwriteFull set fd address bs off)
      (Storage.pwriteFull L (.part e) off bs : Run env Bool) (fun a b => a = b) := by
  unfold Transfer.pwriteFull Storage.pwriteFull
  dsimp only
  split_ifs with hnil
  · exact Simulated.ret rfl
  refine Simulated.loopCall (J := fun k k' => k = k' ∧ k < bs.length) ?_ 0 0 ⟨rfl, List.length_pos_iff.mpr hnil⟩
  rintro k _ r s w ⟨rfl, hlt⟩ hs
  have hpos : (off + k) % 2 ^ 64 = off + k := Nat.mod_eq_of_lt (by omega)
  have hsize : (s.content fd).length = L.size e := by
    rw [hs.content fd, hnode]
    exact hs.sizes e
  obtain ⟨c⟩ := hset.choice
  unfold Transfer.pwriteStep Storage.pwriteStep
  cases r with
  | interrupted => exact ⟨replied c false true 0, .inl ⟨rfl, hlt⟩, (hs.act hset.still _).same rfl⟩
  | failed =>
      have hempty : slice bs k (min 0 (L.size e - (off + k))) = [] := by simp [slice]
      refine ⟨replied c false false 0, .inr rfl, ?_⟩
      show Agree L src d _ ((w.act env (replied c false false 0)).write e (off + k)
        (slice bs k (min 0 (L.size e - (off + k)))))
      rw [hempty]
      exact (hs.act hset.still _).same rfl
  | moved count =>
      have hact := hs.act hset.still (replied c true false (Transfer.moves set s fd count))
      refine ⟨replied c true false (Transfer.moves set s fd count), ?_⟩
      generalize w.act env (replied c true false (Transfer.moves set s fd count)) = w' at hact ⊢
      have hchunk : (slice bs k (min (Transfer.moves set s fd count) (L.size e - (off + k)))).length ≤
          L.size e - (off + k) := by
        rw [slice, List.length_take]
        omega
      by_cases hempty : slice bs k (min (Transfer.moves set s fd count) (L.size e - (off + k))) = []
      · simp only [hpos, hsize, replied, hempty, if_true]
        exact ⟨.inr rfl, hact.same rfl⟩
      have hroom := List.length_pos_iff.mpr hempty
      have hfit : off + k + (slice bs k (min (Transfer.moves set s fd count) (L.size e - (off + k)))).length ≤
          L.size e := by omega
      have hnoted (op op' : Transfer.Op) : Agree L src d ((s.note op).note op') w' := hact.same rfl
      by_cases hmore : k + (slice bs k (min (Transfer.moves set s fd count) (L.size e - (off + k)))).length < bs.length
      · simp only [hpos, hsize, replied, hempty, hmore, if_true, if_false]
        exact ⟨.inl ⟨rfl, hmore⟩, Agree.put hset (hnoted _ _) hnode hempty hfit⟩
      · simp only [hpos, hsize, replied, hempty, hmore, if_true, if_false]
        exact ⟨.inr rfl, Agree.put hset (hnoted _ _) hnode hempty hfit⟩

omit hset in
theorem sim_sum64 {a b : Nat} (hsmall : a + b < 2 ^ 64) {f : Nat → Transfer.Io α} {p : Run env β}
    {V : α → β → Prop}
    (hf : Simulated (Agree L src d) (f (a + b)) p V) :
    Simulated (Agree L src d) (Transfer.sum64 a b >>= f) p V := by
  refine Simulated.silent (a + b) (fun rs s w hs => ⟨s.note (.sum a b), ?_, hs.same rfl⟩) hf
  show Result.done ((a + b) % 2 ^ 64) rs (s.note (.sum a b)) = _
  rw [Nat.mod_eq_of_lt hsmall]

theorem sim_copyLoop {source destination : Target} {address sourceOffset length : Nat} (hsource : source.node = src)
    (hdestination : destination.node = .part d) (hsmall : sourceOffset + length < 2 ^ 64) (fuel offset : Nat)
    (hle : offset ≤ length) :
    Simulated (Agree L src d) (Transfer.copyLoop set address sourceOffset length fuel offset)
      (Storage.copyLoop L source sourceOffset length destination fuel offset : Run env Bool) (fun a b => a = b) := by
  induction fuel generalizing offset with
  | zero => exact Simulated.ret rfl
  | succ fuel ih =>
      rw [Transfer.copyLoop, Storage.copyLoop]
      by_cases hmore : offset < length
      · rw [if_pos hmore, if_pos hmore]
        have hcount : (if length - offset < Transfer.bufferSize then length - offset else Transfer.bufferSize) =
            min Storage.bufferSize (length - offset) := by
          have hsame : Transfer.bufferSize = Storage.bufferSize := rfl
          rw [hsame]
          split_ifs with hlast
          · omega
          · omega
        dsimp only
        rw [hcount]
        refine sim_sum64 (by omega) ?_
        rw [hsource, hdestination]
        refine Simulated.bind (sim_preadFull hset (by omega)) (fun buffer buffer' hbuffer => ?_)
        obtain ⟨rfl, hlen⟩ := hbuffer
        rcases buffer with _ | buffer
        · exact Simulated.ret rfl
        have hfits := hlen buffer rfl
        exact Simulated.ite (sim_pwriteFull hset rfl (by omega)) (sim_sum64 (by omega) (ih _ (by omega)))
          (Simulated.ret rfl)
      · rw [if_neg hmore, if_neg hmore]
        exact Simulated.ret rfl

omit hset in
theorem target_node (L : Layout) (node : Node) : (L.target node).node = node := by cases node <;> rfl

theorem Setup.size {s : Transfer.State} {w : World} (h : Agree L src d s w) (fd : Transfer.Fd) :
    (s.content fd).length = (L.target (nodeOf src d fd)).size := by
  rw [h.content fd, content_length hset.geometry h.sizes]

theorem sim_readSize (fd : Transfer.Fd) {f : Nat → Transfer.Io α} {p : Run env β} {V : α → β → Prop}
    (hf : Simulated (Agree L src d) (f (L.target (nodeOf src d fd)).size) p V) :
    Simulated (Agree L src d) (Transfer.readSize fd >>= f) p V :=
  Simulated.silent _ (fun rs s w hs => ⟨s, by rw [← hset.size hs fd]; rfl, hs⟩) hf

def Opened (L : Layout) (node : Node) : Option Transfer.Target → Option Target → Prop
  | none, none => True
  | some t, some t' => t = ⟨t'.size, t'.logicalSize⟩ ∧ t' = L.target node ∧ Storage.supported t' = true
  | _, _ => False

omit hset in
theorem Opened.cases {node : Node} {t : Option Transfer.Target} {t' : Option Target} (h : Opened L node t t') :
    t = none ∧ t' = none ∨ ∃ a b, t = some a ∧ t' = some b := by
  rcases t with _ | a <;> rcases t' with _ | b
  · exact .inl ⟨rfl, rfl⟩
  · cases h
  · cases h
  · exact .inr ⟨a, b, rfl, rfl⟩

theorem sim_closeTarget :
    Simulated (Agree L src d) Transfer.closeTarget (Storage.closeTarget : Run env Unit) (fun _ _ => True) := by
  obtain ⟨c⟩ := hset.choice
  exact sim_ask hset keeps_closeTarget (fun _ => ⟨replied c true false 0, trivial⟩)

theorem sim_openNode {m : Transfer.Io Bool} (hm : Keeps m) {fd : Transfer.Fd} {access : Storage.Access}
    (haccess : access = .read ∨ fd = .destination) :
    Simulated (Agree L src d) m (Storage.openNode (nodeOf src d fd) access : Run env Bool) (fun a b => a = b) := by
  obtain ⟨c⟩ := hset.choice
  refine sim_call hm (fun ok s w hs => ⟨replied c ok false 0, ?_, hs.act hset.still _⟩)
  rcases haccess with rfl | rfl
  · simp [replied]
  · show ok = (ok && (access != .exclusive || !w.busy (.part d)) && (access == .read || Node.part d != .parent))
    have hpart : (Node.part d != .parent) = true := rfl
    simp [hs.idle, hpart]

theorem sim_openTarget {fd : Transfer.Fd} {flags : BitVec 32} {path : Path} {access : Storage.Access}
    (hpath : L.node path = some (nodeOf src d fd)) (haccess : access = .read ∨ fd = .destination) :
    Simulated (Agree L src d) (Transfer.openTarget set fd flags)
      (Storage.openTarget L path access : Run env (Option Target)) (Opened L (nodeOf src d fd)) := by
  have hopen : Keeps (Transfer.openFd fd flags) := Keeps.call (fun r s => by cases r <;> rfl)
  have hrefused : Simulated (Agree L src d) (Transfer.closeTarget >>= fun _ => pure none)
      (Storage.closeTarget >>= fun _ => pure none : Run env (Option Target)) (Opened L (nodeOf src d fd)) :=
    Simulated.bind (sim_closeTarget hset) (fun _ _ _ => Simulated.ret trivial)
  unfold Transfer.openTarget Storage.openTarget
  rw [hpath]
  refine Simulated.ite (sim_succeeds hset keeps_succeeds id) ?_ (Simulated.ret trivial)
  refine Simulated.ite (sim_openNode hset hopen haccess) (sim_readSize hset fd ?_) (Simulated.ret trivial)
  refine Simulated.bind (sim_succeeds hset (keeps_allSucceed 3) id) (fun ok ok' hok => ?_)
  subst hok
  cases ok with
  | false => exact hrefused
  | true =>
      have hsame : Transfer.admitted ⟨(L.target (nodeOf src d fd)).size, set.logical fd⟩ =
          Storage.supported (L.target (nodeOf src d fd)) := by
        rw [hset.logical fd]
        simp only [Transfer.admitted, Storage.supported, Nat.lt_iff_le_pred (by decide : 0 < 2 ^ 63)]
      dsimp only [id]
      rw [if_pos rfl, Bool.true_and, hsame]
      by_cases hsupported : Storage.supported (L.target (nodeOf src d fd)) = true
      · rw [if_pos hsupported, if_pos hsupported]
        exact Simulated.ret ⟨by rw [hset.logical fd], rfl, hsupported⟩
      · rw [if_neg hsupported, if_neg hsupported]
        exact hrefused

theorem sim_fsync (e : Dev) :
    Simulated (Agree L src d) Transfer.succeeds (Storage.fsync (.part e) : Run env Bool) (fun a b => a = b) := by
  obtain ⟨c⟩ := hset.choice
  unfold Storage.fsync
  refine sim_call keeps_succeeds (fun ok s w hs => ⟨replied c ok false 0, rfl, ?_⟩)
  have hact := hs.act hset.still (replied c ok false 0)
  cases ok with
  | false => exact hact
  | true => exact hact.sync e

theorem sim_copyToTarget {source destination : Transfer.Target} {source' destination' : Target}
    {sourceOffset length : Nat} (hsource : Opened L src (some source) (some source'))
    (hdestination : Opened L (.part d) (some destination) (some destination'))
    (hsmall : sourceOffset + length < 2 ^ 64) :
    Simulated (Agree L src d) (Transfer.copyToTarget set source sourceOffset length destination)
      (Storage.copyToTarget L source' sourceOffset length destination' : Run env Bool) (fun a b => a = b) := by
  obtain ⟨rfl, rfl, -⟩ := hsource
  obtain ⟨rfl, rfl, -⟩ := hdestination
  have hmemory (n : Nat) : Keeps (Transfer.posixMemalign n) := Keeps.call (fun r s => by cases r <;> rfl)
  unfold Transfer.copyToTarget Storage.copyToTarget
  by_cases hbad : (L.target (.part d)).size ≠ length ∨ sourceOffset % (L.target src).logicalSize ≠ 0 ∨
      length % (L.target src).logicalSize ≠ 0 ∨ length % (L.target (.part d)).logicalSize ≠ 0
  · rw [if_pos hbad, if_pos hbad]
    exact Simulated.ret rfl
  rw [if_neg hbad, if_neg hbad]
  refine Simulated.bind (sim_succeeds hset (hmemory _) Option.isSome) (fun memory ok hok => ?_)
  subst hok
  rcases memory with _ | address
  · exact Simulated.ret rfl
  exact Simulated.ite (sim_copyLoop hset (target_node L src) rfl hsmall length 0 (Nat.zero_le _)) (sim_fsync hset d)
    (Simulated.ret rfl)

theorem sim_copyBlockRangeFromTarget {source : Transfer.Target} {source' : Target} {sourceOffset length : Nat}
    {path : Path} (hsource : Opened L src (some source) (some source')) (hpath : L.node path = some (.part d)) :
    Simulated (Agree L src d) (Transfer.copyBlockRangeFromTarget set source sourceOffset length)
      (Storage.copyBlockRangeFromTarget L source' sourceOffset length path : Run env Bool) (fun a b => a = b) := by
  have hopened := hsource
  obtain ⟨rfl, rfl, hsupported⟩ := hsource
  simp only [Storage.supported, decide_eq_true_eq] at hsupported
  unfold Transfer.copyBlockRangeFromTarget Storage.copyBlockRangeFromTarget
  by_cases hbad : length = 0 ∨ (L.target src).size < sourceOffset ∨ (L.target src).size - sourceOffset < length
  · rw [if_pos hbad, if_pos hbad]
    exact Simulated.ret rfl
  rw [if_neg hbad, if_neg hbad]
  refine Simulated.bind (sim_openTarget hset hpath (.inr rfl)) (fun destination destination' hdestination => ?_)
  obtain ⟨rfl, rfl⟩ | ⟨destination, destination', rfl, rfl⟩ := hdestination.cases
  · exact Simulated.ret rfl
  refine Simulated.bind (sim_copyToTarget hset hopened hdestination (by omega)) (fun ok ok' hok => ?_)
  exact Simulated.bind (sim_closeTarget hset) (fun _ _ _ => Simulated.ret hok)

/-- The copies of the two models have the same outcome, and leave the same on the devices. -/
theorem sim_copyFrom {origin path : Path} {range : Transfer.Target → Nat × Nat} {range' : Target → Nat × Nat}
    (hrange : ∀ t, range ⟨t.size, t.logicalSize⟩ = range' t) (horigin : L.node origin = some src)
    (hpath : L.node path = some (.part d)) :
    Simulated (Agree L src d) (Transfer.copyFrom set range) (Storage.copyFrom L origin range' path : Run env Bool)
      (fun a b => a = b) := by
  have hne : origin ≠ path := fun heq => hset.apart (Option.some.inj (horigin.symm.trans (heq ▸ hpath)))
  have hsource : L.node origin = some (nodeOf src d .source) := horigin
  unfold Transfer.copyFrom Storage.copyFrom
  rw [if_neg hne]
  refine Simulated.bind (sim_openTarget hset hsource (.inl rfl)) (fun source source' hsource => ?_)
  obtain ⟨rfl, rfl⟩ | ⟨source, source', rfl, rfl⟩ := hsource.cases
  · exact Simulated.ret rfl
  have hsame : range source = range' source' := by
    rw [hsource.1]
    exact hrange source'
  dsimp only
  rw [hsame]
  refine Simulated.bind (sim_copyBlockRangeFromTarget hset hsource hpath) (fun ok ok' hok => ?_)
  exact Simulated.bind (sim_closeTarget hset) (fun _ _ _ => Simulated.ret hok)

theorem sim_copyBlockRange {origin path : Path} {sourceOffset length : Nat} (horigin : L.node origin = some src)
    (hpath : L.node path = some (.part d)) :
    Simulated (Agree L src d) (Transfer.copyBlockRange set sourceOffset length)
      (Storage.copyBlockRange L origin sourceOffset length path : Run env Bool) (fun a b => a = b) :=
  sim_copyFrom hset (fun _ => rfl) horigin hpath

theorem sim_copyBlockDevice {origin path : Path} (horigin : L.node origin = some src)
    (hpath : L.node path = some (.part d)) :
    Simulated (Agree L src d) (Transfer.copyBlockDevice set)
      (Storage.copyBlockDevice L origin path : Run env Bool) (fun a b => a = b) :=
  sim_copyFrom hset (fun _ => rfl) horigin hpath

section Descriptor

variable {fd : Transfer.Fd} {address : Nat}

theorem sim_descriptor {γ δ : Type} {V : α → β → Prop} {W : γ → δ → Prop} {transfer : Transfer.Io α}
    {transfer' : Run env β} {finish : α → Bool → Transfer.Io γ} {finish' : β → Bool → Run env δ}
    {failure : γ} {failure' : δ} (hfailure : W failure failure')
    (htransfer : footerAreaSize < (L.target (nodeOf src d fd)).size → Simulated (Agree L src d) transfer transfer' V)
    (hfinish : ∀ a b ok, V a b → Simulated (Agree L src d) (finish a ok) (finish' b ok) W) :
    Simulated (Agree L src d) (do
      if (← Transfer.allSucceed 2) && decide (footerAreaSize < (L.target (nodeOf src d fd)).size) then
        match ← Transfer.setBufferedIo fd with
        | none => pure failure
        | some saved =>
            let a ← transfer
            let restored ← Transfer.restoreIoFlags fd saved
            finish a restored
      else pure failure)
      (do
        if ← succeeds then
          if (L.target (nodeOf src d fd)).size ≤ footerAreaSize then pure failure'
          else if ← succeeds then
            let b ← transfer'
            let restored ← succeeds
            finish' b restored
          else pure failure'
        else pure failure' : Run env δ) W := by
  refine Simulated.bind (sim_succeeds hset (keeps_allSucceed 2) id) (fun ok ok' hok => ?_)
  subst hok
  cases ok with
  | false => exact Simulated.ret hfailure
  | true =>
      dsimp only [id]
      rw [if_pos rfl, Bool.true_and]
      by_cases hsize : footerAreaSize < (L.target (nodeOf src d fd)).size
      · rw [if_pos (decide_eq_true hsize), if_neg (Nat.not_le.mpr hsize)]
        refine Simulated.bind (sim_succeeds hset (keeps_setBufferedIo fd) Option.isSome) (fun saved ok hok => ?_)
        subst hok
        rcases saved with _ | saved
        · exact Simulated.ret hfailure
        refine Simulated.bind (htransfer hsize) (fun a b hab => ?_)
        refine Simulated.bind (sim_succeeds hset (keeps_restoreIoFlags fd saved) id) (fun ok ok' hok => ?_)
        subst hok
        exact hfinish a b ok hab
      · rw [if_neg (by simpa using hsize), if_pos (Nat.not_lt.mp hsize)]
        exact Simulated.ret hfailure

theorem sim_readDescriptor (hsmall : (L.target (nodeOf src d fd)).size < 2 ^ 64) :
    Simulated (Agree L src d) (Transfer.readDescriptor set fd address)
      (Storage.readDescriptor L (L.target (nodeOf src d fd)) : Run env (Except Failure Bytes))
      (fun a b => a = b.toOption) := by
  unfold Transfer.readDescriptor Storage.readDescriptor
  rw [target_node]
  refine sim_readSize hset fd (sim_descriptor hset rfl (fun hsize => sim_preadFull hset ?_) ?_)
  · have hlen : descriptorSize ≤ footerAreaSize := by decide
    omega
  · rintro raw raw' ok ⟨rfl, -⟩
    cases ok with
    | false => cases raw <;> exact Simulated.ret rfl
    | true =>
        cases raw with
        | none => exact Simulated.ret rfl
        | some raw =>
            dsimp only
            rw [if_pos rfl, Option.bind_some]
            cases validateDescriptor raw ((L.target (nodeOf src d fd)).size - footerAreaSize) with
            | none => exact Simulated.ret rfl
            | some digest => exact Simulated.ret rfl

theorem sim_writeDescriptor {e : Dev} {digest : Bytes} (hnode : nodeOf src d fd = .part e)
    (hdigest : digest.length = digestSize) (hsmall : L.size e < 2 ^ 64) :
    Simulated (Agree L src d) (Transfer.writeDescriptor set fd address digest)
      (Storage.writeDescriptor L (L.target (.part e)) digest : Run env Bool) (fun a b => a = b) := by
  unfold Transfer.writeDescriptor Storage.writeDescriptor
  rw [← hnode, target_node]
  refine sim_readSize hset fd (sim_descriptor hset (V := fun a b => a = b) rfl (fun hsize => ?_) ?_)
  · rw [hnode]
    rw [hnode] at hsize
    refine sim_pwriteFull hset hnode ?_
    have hlen : (encodeDescriptor ((L.target (.part e)).size - footerAreaSize) digest).length = descriptorSize :=
      encodeDescriptor_length hdigest
    have hle : descriptorSize ≤ footerAreaSize := by decide
    have htarget : (L.target (.part e)).size = L.size e := rfl
    omega
  · rintro written _ restored rfl
    by_cases hboth : (written && restored) = true
    · rw [if_pos hboth, if_pos hboth, hnode]
      exact sim_fsync hset e
    · rw [if_neg hboth, if_neg hboth]
      exact Simulated.ret rfl

end Descriptor

end Programs

end SuperRaid.TransferStorage
