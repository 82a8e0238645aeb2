import SuperRaid.Calls
import SuperRaid.Recovery

namespace SuperRaid.ReleaseSpec

open Sys Machine Storage Recovery Calls

variable {env : Env} {t : Bool} {R C : World → Prop}

theorem elapsed_eq {start now : Nat} (h : start ≤ now) : elapsed start now = (now - start) / 10 ^ 3 := by
  unfold elapsed
  dsimp only
  split_ifs <;> omega

def tick (w : World) (n : Nat) : World := { w with ctl := { w.ctl with now := w.ctl.now + n } }

def Since (R : World → Prop) (start : Nat) (w : World) : Prop := R w ∧ start ≤ w.ctl.now

theorem stable_since (hR : Stable env R) (start : Nat) : Stable env (Since R start) :=
  fun w r hw => ⟨hR w r hw.1, hw.2.trans (Nat.le_add_right _ _)⟩

theorem meets_clockGettime (hR : Stable env R) (hC : ∀ w, R w → C w) :
    Meets t 1 R (clockGettime : Run env (Option Nat))
      (fun res w => (R w ∧ ∀ now, res = some now → now = w.ctl.now) ∧ (t = true → res.isSome = true)) C := by
  refine Meets.call hR hC (fun r w hr hw => ⟨⟨hw, fun now h => ?_⟩, fun ht => ?_⟩)
  · dsimp only at h
    split_ifs at h
    exact (Option.some.inj h).symm
  · simp [(hr ht).1]

section Poll

variable (hR : Stable env R) (hC : ∀ w, R w → C w) (hkill : ∀ w s, R w → R (w.note (.killed s)))

include hR hC hkill

theorem meets_pollService (s : Service) :
    Meets t 2 R (pollService s : Run env (Option Bool)) (fun res w => R w ∧ (t = true → res.isSome = true)) C := by
  refine Meets.bind (m := 1) (n := 1) (K := fun _ => R) (F := fun _ => True) (Meets.ask hR hC (fun _ _ => trivial))
    (fun state _ => ?_)
  have hknown {b : Bool} : Meets t 1 R (pure (some b) : Run env (Option Bool))
      (fun res w => R w ∧ (t = true → res.isSome = true)) C := Meets.ret (fun w hw => ⟨hw, fun _ => rfl⟩)
  rcases state with _ | state
  · exact hknown
  cases state with
  | failed | inactive | other => exact hknown
  | active =>
      refine Meets.bind (m := 1) (n := 0) (K := fun _ => R) (F := fun b => t = true → b = true)
        (Meets.call hR hC (fun r w hr hw => ⟨hkill w s hw, fun ht => (hr ht).1⟩)) (fun killed hkilled => ?_)
      cases killed with
      | true => exact Meets.ret (fun w hw => ⟨hw, fun _ => rfl⟩)
      | false => exact Meets.ret (fun w hw => ⟨hw, fun ht => absurd (hkilled ht) (by decide)⟩)

theorem meets_pollServices (rest : List Service) (completed : Service → Bool) (finished : Bool) :
    Meets t (2 * rest.length) R (pollServices rest completed finished : Run env (Option ((Service → Bool) × Bool)))
      (fun res w => R w ∧ (t = true → res.isSome = true)) C := by
  induction rest generalizing completed finished with
  | nil => exact Meets.ret (fun w hw => ⟨hw, fun _ => rfl⟩)
  | cons s rest ih =>
      unfold pollServices
      split_ifs with hdone
      · exact (ih completed finished).mono (by rw [List.length_cons]; omega)
      · refine (Meets.bind (m := 2) (n := 2 * rest.length) (K := fun _ => R) (meets_pollService hR hC hkill s)
          (fun res hres => ?_)).mono (by rw [List.length_cons]; omega)
        rcases res with _ | done
        · exact Meets.ret (fun w hw => ⟨hw, fun ht => absurd (hres ht) (by decide)⟩)
        · exact ih _ _

end Poll

/-- The pauses that are left until the timeout; without a bound on the calls there is none on these. -/
def PausesLeft : Bool → ℕ∞ → Nat → Prop
  | false, k, _ => k = ⊤
  | true, k, passed => ∃ j : Nat, k = j ∧ 60 * 10 ^ 9 ≤ passed + j * 10 ^ 8

theorem PausesLeft.next {k : ℕ∞} {passed passed' : Nat} (h : PausesLeft t k passed)
    (hmore : passed / 10 ^ 3 < readyTimeoutUsec) (hpause : t = true → passed + 10 ^ 8 ≤ passed') :
    ∃ k', k' + 1 ≤ k ∧ PausesLeft t k' passed' := by
  cases t with
  | false =>
      obtain rfl : k = ⊤ := h
      exact ⟨⊤, le_top, rfl⟩
  | true =>
      obtain ⟨j, rfl, hj⟩ := h
      have hp := hpause rfl
      simp only [readyTimeoutUsec] at hmore
      obtain ⟨i, rfl⟩ : ∃ i, j = i + 1 := ⟨j - 1, by omega⟩
      exact ⟨i, by norm_cast, i, rfl, by omega⟩

theorem PausesLeft.mono {k : ℕ∞} {passed passed' : Nat} (h : PausesLeft t k passed) (hle : passed ≤ passed') :
    PausesLeft t k passed' := by
  cases t with
  | false => exact h
  | true =>
      obtain ⟨j, hk, hj⟩ := h
      exact ⟨j, hk, hj.trans (Nat.add_le_add_right hle _)⟩

theorem pause_now_le (r : Answer env.Choice) (w : World) : w.ctl.now ≤ (pause r w).ctl.now := by
  unfold pause
  dsimp only
  split_ifs
  · exact (Nat.le_add_right _ _).trans (Nat.le_add_right _ _)
  · exact Nat.le_add_right _ _

theorem pause_sleeps {r : Answer env.Choice} {w : World} {start : Nat} (hstart : start ≤ w.ctl.now)
    (hok : r.ok = true) :
    w.ctl.now - start + 10 ^ 8 ≤ (pause r w).ctl.now - start := by
  have hnow : (pause r w).ctl.now = w.ctl.now + r.delay + 10 ^ 8 := by simp [pause, hok, World.act]
  omega

/-- Where a round of a loop with a timeout has got to: it may only go on before it. -/
def RoundEnds {α β : Type} (R : World → Prop) (start s : Nat) (Q : α → World → Prop) :
    β ⊕ α → World → Prop
  | .inl _, w => Since R s w ∧ elapsed start w.ctl.now < readyTimeoutUsec
  | .inr a, w => Q a w

theorem meets_timedLoop {α β : Type} {body : β → Run env (β ⊕ α)} {Q : α → World → Prop} {m start : Nat}
    (hR : Stable env R) (hC : ∀ w, R w → C w) (htick : ∀ w n, R w → R (tick w n))
    (hbody : ∀ b s, start ≤ s → Meets t m (Since R s) (body b) (RoundEnds R start s Q) C) (b : β) :
    Meets t (601 * (m + 1)) (Since R start) (Prog.loop body pause b) Q C := by
  have hspec (k : ℕ∞) : Spec (Within t) (fun _ => 1) ((k + 1) * (cost t m + 1))
      (fun w => ∃ s, (start ≤ s ∧ PausesLeft t k (s - start)) ∧ Since R s w) (Prog.loop body pause b) Q C := by
    refine Spec.loop (I := fun k (_ : β) w => ∃ s, (start ≤ s ∧ PausesLeft t k (s - start)) ∧ Since R s w)
      (J := fun k (_ : β) w => ∃ s, (start ≤ s ∧ PausesLeft t k (s - start)) ∧ Since R s w ∧
        elapsed start w.ctl.now < readyTimeoutUsec) (fun _ _ => le_rfl) (fun k b => ?_) ?_ ?_ k b
    · refine Meets.exists (fun s => Meets.of_pre (fun hs => (hbody b s hs.1).post (fun res w hw => ?_)))
      cases res with
      | inl b' => exact ⟨s, hs, hw⟩
      | inr a => exact hw
    · rintro k b w ⟨s, -, hw, -⟩
      exact hC w hw.1
    · rintro k b r w hr ⟨s, ⟨hs, hleft⟩, hw, hmore⟩
      have hstart : start ≤ w.ctl.now := hs.trans hw.2
      rw [elapsed_eq hstart] at hmore
      obtain ⟨k', hk, hleft'⟩ := (hleft.mono (Nat.sub_le_sub_right hw.2 start)).next hmore
        (fun ht => pause_sleeps hstart (hr ht).1)
      refine ⟨k', hk, (pause r w).ctl.now, ⟨hstart.trans (pause_now_le r w), hleft'⟩, ?_, le_rfl⟩
      have hact := hR w r hw.1
      unfold pause
      dsimp only
      split_ifs
      · exact htick _ _ hact
      · exact hact
  cases t with
  | false =>
      exact Spec.conseq (hspec ⊤) (fun w hw => ⟨start, ⟨le_rfl, rfl⟩, hw⟩) (fun _ _ h => h)
        (fun _ h => h) le_top
  | true =>
      refine Spec.conseq (hspec 600) (fun w hw => ⟨start, ⟨le_rfl, 600, rfl, ?_⟩, hw⟩) (fun _ _ h => h)
        (fun _ h => h) ?_
      · norm_num
      · exact le_of_eq (by simp only [cost, if_true]; norm_cast)

section Release

variable (hR : Stable env R) (hC : ∀ w, R w → C w) (htick : ∀ w n, R w → R (tick w n))
  (hkill : ∀ w s, R w → R (w.note (.killed s)))

include hR hC hkill

theorem meets_releaseRound (start s : Nat) (completed : Service → Bool) :
    Meets t 5 (Since R s) (releaseRound start completed : Run env ((Service → Bool) ⊕ Bool))
      (RoundEnds R start s (fun b w => R w ∧ (t = true → b = true))) C := by
  have hS : Stable env (Since R s) := stable_since hR s
  have hSC : ∀ w, Since R s w → C w := fun w hw => hC w hw.1
  refine Meets.bind (m := 4) (n := 1) (K := fun _ => Since R s)
    (meets_pollServices hS hSC (fun w s hw => ⟨hkill w s hw.1, hw.2⟩) services completed true) (fun res hres => ?_)
  rcases res with _ | ⟨completed, finished⟩
  · exact Meets.ret (fun w hw => ⟨hw.1, fun ht => absurd (hres ht) (by decide)⟩)
  cases finished with
  | true => exact Meets.ret (fun w hw => ⟨hw.1, fun _ => rfl⟩)
  | false =>
      refine Meets.bind (m := 1) (n := 0) (meets_clockGettime hS hSC) (fun res hres => ?_)
      rcases res with _ | now
      · exact Meets.ret (fun w hw => ⟨hw.1.1, fun ht => absurd (hres ht) (by decide)⟩)
      dsimp only
      split_ifs with hlate
      · exact Meets.ret (fun w hw => ⟨hw.1.1, fun _ => rfl⟩)
      · exact Meets.ret (fun w hw => ⟨hw.1, hw.2 now rfl ▸ Nat.not_le.mp hlate⟩)

include htick

/-- Once all calls succeed release_app_services returns, at the latest when its time is over. -/
theorem meets_releaseLoop :
    Meets t 3608 R (releaseLoop : Run env Bool) (fun b w => R w ∧ (t = true → b = true)) C := by
  refine Meets.branch (n := 3607) hR hC ?_ (fun ht => Meets.ret (fun w hw => ⟨hw, by simp [ht]⟩))
  refine Meets.bind (m := 1) (n := 3606) (meets_clockGettime hR hC) (fun res hres => ?_)
  rcases res with _ | start
  · exact Meets.ret (fun w hw => ⟨hw.1, fun ht => absurd (hres ht) (by decide)⟩)
  have hloop : Meets t (601 * (5 + 1)) (Since R start)
      (Prog.loop (releaseRound start) pause (fun _ => false) : Run env Bool)
      (fun b w => R w ∧ (t = true → b = true)) C :=
    meets_timedLoop hR hC htick (fun completed s _ => meets_releaseRound hR hC hkill start s completed) _
  exact hloop.pre (fun w hw => ⟨hw.1, (hw.2 start rfl).le⟩)

end Release

end SuperRaid.ReleaseSpec
