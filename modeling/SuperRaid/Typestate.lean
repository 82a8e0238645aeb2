import SuperRaid.Locks

namespace SuperRaid.Locks

variable {ι L E S : Type} [DecidableEq ι] [DecidableEq L]

inductive Head (L E : Type)
  | acquire (m : Mode) (l : L) (e : E)
  | release (m : Mode) (l : L) (e : E)
  | test (b : Bool) (e : E)
  | set (b : Bool) (e : E)
  | act (e : E)

/-- A discipline for one thread: the instructions it may execute in each state, and what it may return there. -/
structure Automaton (S L E : Type) where
  next : S → Head L E → Option S
  final : S → Bool → Bool

variable {M : Automaton S L E}

/-- Every path through the code is accepted from the given state. -/
def Follows (M : Automaton S L E) : S → Code L E → Prop
  | s, .ret ok => M.final s ok = true
  | s, .acquire m l e k => ∃ s', M.next s (.acquire m l e) = some s' ∧ Follows M s' k
  | s, .release m l e k => ∃ s', M.next s (.release m l e) = some s' ∧ Follows M s' k
  | s, .test e₁ yes e₂ no =>
      (∃ s', M.next s (.test true e₁) = some s' ∧ Follows M s' yes) ∧
        ∃ s', M.next s (.test false e₂) = some s' ∧ Follows M s' no
  | s, .set b e k => ∃ s', M.next s (.set b e) = some s' ∧ Follows M s' k
  | s, .act e k => ∃ s', M.next s (.act e) = some s' ∧ Follows M s' k
  | s, .choose p q => Follows M s p ∧ Follows M s q

omit [DecidableEq L] in
theorem follows_choose {s : S} {p q : Code L E} (hp : Follows M s p) (hq : Follows M s q) :
    Follows M s (.choose p q) :=
  ⟨hp, hq⟩

structure Silent (c c' : Config ι L E) : Prop where
  readers : c'.readers = c.readers
  writer : c'.writer = c.writer
  flag : c'.flag = c.flag
  log : c'.log = c.log

inductive Effect (c : Config ι L E) (t : ι) : Head L E → Config ι L E → Prop
  | acquire {c' m l e} (hg : grantable c t m l = true) (hr : c'.readers = (c.take m l).readers)
      (hw : c'.writer = (c.take m l).writer) (hf : c'.flag = c.flag) (hlog : c'.log = (t, e) :: c.log) :
      Effect c t (.acquire m l e) c'
  | release {c' m l e} (hr : c'.readers = (c.drop m l).readers) (hw : c'.writer = (c.drop m l).writer)
      (hf : c'.flag = c.flag) (hlog : c'.log = (t, e) :: c.log) : Effect c t (.release m l e) c'
  | test {c' b e} (hb : c.flag = b) (hr : c'.readers = c.readers) (hw : c'.writer = c.writer)
      (hf : c'.flag = c.flag) (hlog : c'.log = (t, e) :: c.log) : Effect c t (.test b e) c'
  | set {c' b e k} (hcode : (c.thread t).code = .set b e k) (hr : c'.readers = c.readers) (hw : c'.writer = c.writer)
      (hf : c'.flag = b) (hlog : c'.log = (t, e) :: c.log) : Effect c t (.set b e) c'
  | act {c' e} (hr : c'.readers = c.readers) (hw : c'.writer = c.writer) (hf : c'.flag = c.flag)
      (hlog : c'.log = (t, e) :: c.log) : Effect c t (.act e) c'

section Step

variable {c c' : Config ι L E} {st : ι → S}

omit [DecidableEq L] in
theorem follows_update {t : ι} {k : Code L E} {s : S} (hf : ∀ u, Follows M (st u) (c.thread u).code)
    (hthread : c'.thread = Function.update c.thread t ⟨k, false⟩) (hk : Follows M s k) (u : ι) :
    Follows M (Function.update st t s u) (c'.thread u).code := by
  by_cases hu : u = t
  · subst hu; simpa [hthread] using hk
  · simpa [hthread, hu] using hf u

/-- A step of a disciplined system is silent, or one instruction that its automaton accepts. -/
theorem follows_step {a : ι × Bool} (hf : ∀ u, Follows M (st u) (c.thread u).code) (h : step c a = some c') :
    (Silent c c' ∧ ∀ u, Follows M (st u) (c'.thread u).code) ∨
      ∃ head s', M.next (st a.1) head = some s' ∧ Effect c a.1 head c' ∧
        ∀ u, Follows M (Function.update st a.1 s' u) (c'.thread u).code := by
  obtain ⟨t, pick⟩ := a
  have ht := hf t
  cases hcode : (c.thread t).code with
  | ret ok => simp [step, hcode] at h
  | acquire m l e k =>
      rw [hcode] at ht
      simp only [step, hcode] at h
      split_ifs at h with hwait hg
      · obtain ⟨s', hs', hk⟩ := ht
        cases h
        exact .inr ⟨_, s', hs', .acquire hg (by cases m <;> rfl) (by cases m <;> rfl) (by cases m <;> rfl)
          (by cases m <;> rfl), follows_update hf (by cases m <;> rfl) hk⟩
      · cases h
        refine .inl ⟨⟨rfl, rfl, rfl, rfl⟩, fun u => ?_⟩
        by_cases hu : u = t
        · subst hu; simpa [Config.enqueue] using hf u
        · simpa [Config.enqueue, hu] using hf u
  | release m l e k =>
      rw [hcode] at ht
      simp only [step, hcode, Option.some.injEq] at h
      obtain ⟨s', hs', hk⟩ := ht
      subst h
      exact .inr ⟨_, s', hs', .release (by cases m <;> rfl) (by cases m <;> rfl) (by cases m <;> rfl)
        (by cases m <;> rfl), follows_update hf (by cases m <;> rfl) hk⟩
  | test e₁ yes e₂ no =>
      rw [hcode] at ht
      simp only [step, hcode, Option.some.injEq] at h
      obtain ⟨⟨s₁, hs₁, hyes⟩, s₂, hs₂, hno⟩ := ht
      cases hflag : c.flag with
      | true =>
          rw [hflag, if_pos rfl] at h
          subst h
          exact .inr ⟨.test true e₁, s₁, hs₁, .test hflag rfl rfl rfl rfl, follows_update hf rfl hyes⟩
      | false =>
          rw [hflag, if_neg (by decide)] at h
          subst h
          exact .inr ⟨.test false e₂, s₂, hs₂, .test hflag rfl rfl rfl rfl, follows_update hf rfl hno⟩
  | set b e k =>
      rw [hcode] at ht
      simp only [step, hcode, Option.some.injEq] at h
      obtain ⟨s', hs', hk⟩ := ht
      subst h
      exact .inr ⟨_, s', hs', .set hcode rfl rfl rfl rfl, follows_update hf rfl hk⟩
  | act e k =>
      rw [hcode] at ht
      simp only [step, hcode, Option.some.injEq] at h
      obtain ⟨s', hs', hk⟩ := ht
      subst h
      exact .inr ⟨_, s', hs', .act rfl rfl rfl rfl, follows_update hf rfl hk⟩
  | choose p q =>
      rw [hcode] at ht
      simp only [step, hcode, Option.some.injEq] at h
      subst h
      refine .inl ⟨⟨rfl, rfl, rfl, rfl⟩, fun u => ?_⟩
      have hk : Follows M (st t) (if pick then p else q) := by
        cases pick with
        | true => exact ht.1
        | false => exact ht.2
      have hnew : ∀ u, Follows M (Function.update st t (st t) u)
          ((c.goto t (if pick then p else q)).thread u).code := follows_update hf rfl hk
      simpa using hnew u

end Step

end SuperRaid.Locks
