import NostrQ.Foundation.Transition

/-!
# Simulations

A concrete system is simulated by an abstract one where each of its steps is
matched by a run of the other, from a related state to a related state.  What
holds in every state that the abstract system reaches then holds, seen through
the relation, in every state that the concrete one reaches.

Where the matching step can be computed, the abstract system can be run beside
the concrete one and be asked about: it watches the run and never holds it up.
-/

namespace NostrQ.Foundation.System

variable {σ α τ β υ γ : Type*}

structure Simulates (C : System σ α) (A : System τ β) (P : σ → α → Prop)
    (Q : τ → β → Prop) (R : σ → τ → Prop) : Prop where
  init : ∀ s, C.init s → ∃ t, A.init t ∧ R s t
  step : ∀ s a s' t, C.Reach P s → A.Reach Q t → R s t → P s a →
    C.step s a = some s' →
    ∃ t', (A.startingIn fun start => start = t).Reach Q t' ∧ R s' t'

variable {C : System σ α} {A : System τ β} {B : System υ γ}
  {P : σ → α → Prop} {Q : τ → β → Prop} {S : υ → γ → Prop}
  {R : σ → τ → Prop} {R' : τ → υ → Prop}

theorem Simulates.reach (h : C.Simulates A P Q R) {s : σ}
    (hs : C.Reach P s) : ∃ t, A.Reach Q t ∧ R s t := by
  induction hs with
  | init h₀ =>
      obtain ⟨t, ht, hrel⟩ := h.init _ h₀
      exact ⟨t, .init ht, hrel⟩
  | step hr hp hstep ih =>
      obtain ⟨t, ht, hrel⟩ := ih
      obtain ⟨t', hrun, hrel'⟩ := h.step _ _ _ t hr ht hrel hp hstep
      exact ⟨t', ht.after hrun, hrel'⟩

/-- Each step is matched by one step, or by none. -/
theorem Simulates.of_steps
    (init : ∀ s, C.init s → ∃ t, A.init t ∧ R s t)
    (step : ∀ s a s' t, C.Reach P s → A.Reach Q t → R s t → P s a →
      C.step s a = some s' →
      R s' t ∨ ∃ b t', Q t b ∧ A.step t b = some t' ∧ R s' t') :
    C.Simulates A P Q R where
  init := init
  step s a s' t hs ht hrel hp hstep := by
    rcases step s a s' t hs ht hrel hp hstep with
      hstay | ⟨b, t', hq, hb, hrel'⟩
    · exact ⟨t, .init rfl, hstay⟩
    · exact ⟨t', .step (.init rfl) hq hb, hrel'⟩

/-- What every reachable abstract state satisfies, concrete states inherit. -/
theorem Simulates.invariant (h : C.Simulates A P Q R) {I : τ → Prop}
    {J : σ → Prop} {s : σ} (hs : C.Reach P s)
    (hI : ∀ t, A.Reach Q t → I t) (hJ : ∀ s t, R s t → I t → J s) : J s := by
  obtain ⟨t, ht, hrel⟩ := h.reach hs
  exact hJ s t hrel (hI t ht)

/-! ## Watching -/

/-- `A` is moved along with `C`, by the step that `follow` finds, if any. -/
def watchedBy (C : System σ α) (A : System τ β) (start : σ → τ)
    (follow : σ → α → Option β) : System (σ × τ) α where
  init s := C.init s.1 ∧ s.2 = start s.1
  step s a := (C.step s.1 a).map fun c =>
    (c, ((follow s.1 a).bind (A.step s.2)).getD s.2)

variable {start : σ → τ} {follow : σ → α → Option β}

theorem Reach.unwatched {P' : σ × τ → α → Prop} {s : σ × τ}
    (h : (C.watchedBy A start follow).Reach P' s)
    (hP : ∀ s a, P' s a → P s.1 a) : C.Reach P s.1 := by
  induction h with
  | init h₀ => exact .init h₀.1
  | step _ hp hstep ih =>
      obtain ⟨c, hc, rfl⟩ := Option.map_eq_some_iff.mp hstep
      exact .step ih (hP _ _ hp) hc

/-- The states are related, once the abstract system has taken the step `b?`. -/
def Matches (A : System τ β) (R : σ → τ → Prop) (s : σ) (t : τ) :
    Option β → Prop
  | none => R s t
  | some b => ∃ t', A.step t b = some t' ∧ R s t'

theorem Simulates.of_matches {R : σ → τ → Prop} (start : σ → τ)
    (follow : σ → α → Option β)
    (init : ∀ c, C.init c → A.init (start c) ∧ R c (start c))
    (step : ∀ c a c' t, C.Reach P c → A.Reach Free t → R c t → P c a →
      C.step c a = some c' → A.Matches R c' t (follow c a)) :
    C.Simulates A P Free R := by
  refine .of_steps (fun c hc => ⟨start c, init c hc⟩) ?_
  intro c a c' t hc ht hrel hp hstep
  have hmatches := step c a c' t hc ht hrel hp hstep
  cases hfollow : follow c a with
  | none =>
      rw [hfollow] at hmatches
      exact Or.inl hmatches
  | some b =>
      rw [hfollow] at hmatches
      obtain ⟨t', ht', hrel'⟩ := hmatches
      exact Or.inr ⟨b, t', trivial, ht', hrel'⟩

theorem watchedBy_simulates {R : σ → τ → Prop}
    (init : ∀ c, C.init c → A.init (start c) ∧ R c (start c))
    (step : ∀ c a c' t, C.Reach P c → A.Reach Q t → R c t → P c a →
      C.step c a = some c' → A.Matches R c' t (follow c a)) :
    (C.watchedBy A start follow).Simulates A
      (fun s a => P s.1 a ∧ ∀ b ∈ follow s.1 a, Q s.2 b) Q
      (fun s t => s.2 = t ∧ R s.1 t) := by
  refine .of_steps ?_ ?_
  · rintro ⟨c, t⟩ ⟨hc, ht⟩
    obtain ⟨hinit, hrel⟩ := init c hc
    exact ⟨start c, hinit, ht, hrel⟩
  · rintro ⟨c, t⟩ a s' _ hs ht ⟨rfl, hrel⟩ ⟨hp, hq⟩ hstep
    obtain ⟨c', hc', rfl⟩ := Option.map_eq_some_iff.mp hstep
    have hreach : C.Reach P c := hs.unwatched fun _ _ h => h.1
    have hmatches := step c a c' t hreach ht hrel hp hc'
    cases hfollow : follow c a with
    | none =>
        rw [hfollow] at hmatches
        exact Or.inl ⟨by simp, hmatches⟩
    | some b =>
        rw [hfollow] at hmatches
        obtain ⟨t', ht', hrel'⟩ := hmatches
        exact Or.inr ⟨b, t', hq b hfollow, ht', by simp [ht'], hrel'⟩

end NostrQ.Foundation.System
