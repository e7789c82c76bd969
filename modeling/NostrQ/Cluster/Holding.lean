import NostrQ.Cluster.Grounding

/-!
# Who holds a win

From the answer that decides a call until the settling event is accepted, the
worker holds the win it was decided for.
-/

namespace NostrQ.Cluster

open NostrQ.Foundation NostrQ.Core NostrQ.Database NostrQ.Sdk NostrQ.Worker

variable {W : Type}

def Holding : JobPhase → Prop
  | .claiming (.during _ (.recognised _)) => True
  | .claiming (.during _ (.contendWon _)) => True
  | .claiming (.returned (.ok true)) => True
  | .handling _ _ => True
  | .settling (.acking _) => True
  | .settling (.nacking _ _) => True
  | .settling (.during _ .ackPublishing) => True
  | .settling (.during _ (.configuring _)) => True
  | .settling (.during _ (.counting _ _)) => True
  | .settling (.during _ (.nackPublishing _ _ _)) => True
  | _ => False

structure Holds (net : Net W) (w : W) (win : Win W) : Prop where
  held : (net.nodes w).history.held = some win
  worker : win.worker = w
  unsettled : win ∈ net.unsettled

/-- `try_claim` has returned true to `w`, which has not gone on yet. -/
def ReturnedTrue (net : Net W) (w : W) : Prop :=
  (net.nodes w).job.map Job.phase = some (.claiming (.returned (.ok true)))

instance (net : Net W) (w : W) : Decidable (ReturnedTrue net w) :=
  inferInstanceAs (Decidable (_ = _))

/-! ## One step -/

private theorem Holding.finish {key : PublicKey} {s s' : Store} {now : Int}
    {call : ClaimCall} {stage : ClaimStage} {result : Except SdkError Bool}
    (hf : ClaimPhase.finish key s now call stage = some (s', result))
    (h : Holding (.claiming (.returned result))) :
    Holding (.claiming (.during call stage)) := by
  have hresult : result = .ok true := by
    cases result with
    | error e => exact h.elim
    | ok value =>
        cases value with
        | true => rfl
        | false => exact h.elim
  subst hresult
  cases stage <;>
    simp only [ClaimPhase.finish, Option.some.injEq, reduceCtorEq] at hf
  · exact absurd (returning_ok (congrArg Prod.snd hf)).1 (by simp)
  · exact absurd (returning_ok (congrArg Prod.snd hf)).1 (by simp)
  · trivial
  · trivial

private theorem Holding.proceeds {key : PublicKey} {s s' : Store}
    {time : Nat} {job : Job} {phase next : JobPhase}
    (hp : Job.Proceeds key s time job phase s' next) (h : Holding next) :
    Holding phase := by
  cases hp with
  | @claimed result =>
      unfold Job.afterClaim at h
      split at h
      · trivial
      · exact h.elim
  | claim hp =>
      cases hp with
      | @enter record lease settle =>
          unfold ClaimPhase.enter at h
          split at h
          · exact h.elim
          · split at h <;> exact h.elim
      | expire => exact h.elim
      | wake _ => exact h.elim
      | finish hf => exact Holding.finish hf h
  | timeout _ => trivial
  | settled => exact h.elim
  | settle hp =>
      cases hp with
      | ack => trivial
      | nack => trivial
      | configure => trivial
      | count => trivial
      | finish _ => exact h.elim

private theorem Holding.answers {key : PublicKey} {events : List Event}
    {phase next : ClaimPhase} (ha : ClaimPhase.Answers key events phase next)
    (h : Holding (.claiming next)) :
    ∃ claim, phase.elected? key events = some claim := by
  cases ha with
  | @terminal call =>
      rcases call.afterTerminal_cases events with
        ⟨heq, -⟩ | ⟨heq, -⟩ | ⟨heq, -⟩ <;> rw [heq] at h <;> exact h.elim
  | nacks => exact h.elim
  | @claims call observed =>
      rcases call.afterSurvey_cases key observed
        (parseClaims events) with
        ⟨winner, hwinner, hkey, -⟩ | ⟨_, -, -, heq⟩ | ⟨-, heq⟩
      · exact ⟨winner, by simp [ClaimPhase.elected?, hwinner, hkey]⟩
      · rw [heq] at h
        exact h.elim
      · rw [heq] at h
        exact h.elim
  | recheckClaims => exact h.elim
  | @recheckNacks call observed claims =>
      rcases call.afterRecheck_cases key observed
        claims events with
        ⟨winner, hwinner, hkey, -⟩ | ⟨-, heq⟩
      · exact ⟨winner, by simp [ClaimPhase.elected?, hwinner, hkey]⟩
      · rw [heq] at h
        exact h.elim

private theorem Holding.publishes {D : Deployment W} {w : W} {createdAt : U64}
    {id : EventId} {time : Nat} {job : Job} {event : Event} {next : JobPhase}
    (hp : D.Publishes w createdAt id time job event next) :
    ¬ Holding next := by
  intro h
  cases hp with
  | claim => exact h
  | settle _ _ haccepts =>
      cases haccepts with
      | ack => exact h
      | nack =>
          unfold SettleCall.afterNack at h
          split at h <;> exact h
      | dlq => exact h

private theorem Holding.settle {record : MessageRecord}
    (outcome : HandlerOutcome) :
    Holding (.settling (Job.settle record outcome)) := by
  cases outcome <;> trivial

section Steps

variable [DecidableEq W] {D : Deployment W} {net net' : Net W}

theorem Deployment.Step.holding {a : Action W} {w : W}
    (h : D.Step net a net') (ha : a.actor = some w) {job : Job}
    (hjob : (net'.nodes w).job = some job) (hh : Holding job.phase) :
    (∃ before, (net.nodes w).job = some before ∧ Holding before.phase ∧
      (net'.nodes w).history.held = (net.nodes w).history.held ∧
      net'.unsettled = net.unsettled) ∨
    ∃ win, (net'.nodes w).history.held = some win ∧ win.worker = w ∧
      net'.unsettled = net.unsettled ++ [win] := by
  cases h with
  | advance => contradiction
  | other => contradiction
  | fetch =>
      cases ha
      simp only [Net.setNode_self, Option.some.injEq] at hjob
      subst hjob
      exact hh.elim
  | @proceed v old store phase hold hproceeds =>
      cases ha
      simp only [Net.setNode_self, Option.some.injEq] at hjob
      subst hjob
      refine Or.inl ⟨old, hold, Holding.proceeds hproceeds hh, ?_, rfl⟩
      simp only [Net.setNode_self, History.afterProceed]
      split <;> rfl
  | @query v old phase after filter hold hphase hquery hanswers =>
      cases ha
      rw [D.answered_self] at hjob
      simp only [Option.some.injEq] at hjob
      subst hjob
      obtain ⟨claim, hclaim⟩ := Holding.answers hanswers hh
      obtain ⟨win, hwin, hworker⟩ : ∃ win, D.newWin? net w
          (net.relay.query filter) old { old with phase := .claiming after } =
          some win ∧ win.worker = w := by
        rw [Deployment.newWin?, elected?, hphase]
        dsimp only
        rw [hclaim]
        exact ⟨_, rfl, rfl⟩
      refine Or.inr ⟨win, ?_, hworker, by rw [D.answered_unsettled, hwin]; rfl⟩
      rw [D.answered_self]
      exact D.newHistory_held _ _ _ _ hwin
  | @publish v createdAt id old event phase hold hpublishes hfresh =>
      cases ha
      rw [Net.published_self] at hjob
      simp only [Option.some.injEq] at hjob
      subst hjob
      exact absurd hh (Holding.publishes hpublishes)
  | handle hold hphase =>
      cases ha
      simp only [Net.setNode_self, Option.some.injEq] at hjob
      subst hjob
      refine Or.inl ⟨_, hold, by rw [hphase]; trivial, ?_, rfl⟩
      simp only [Net.setNode_self, History.afterProceed]
      split <;> rfl
  | failClaim | failSettle =>
      cases ha
      simp only [Net.setNode_self, Option.some.injEq] at hjob
      subst hjob
      exact hh.elim
  | lose _ hloses _ =>
      cases ha
      rw [Net.published_self] at hjob
      simp only [Option.some.injEq] at hjob
      subst hjob
      cases hloses <;> exact hh.elim
  | drop =>
      cases ha
      simp at hjob
  | sweep | retry =>
      cases ha
      rw [Net.setNode_self] at hjob
      exact Or.inl ⟨job, hjob, hh, by simp, rfl⟩

theorem Deployment.Step.wins {a : Action W} (h : D.Step net a net') :
    net'.wins = net.wins ∨
      ∃ w job phase after filter win, a = .query w ∧
        (net.nodes w).job = some job ∧ job.phase = .claiming phase ∧
        phase.query? = some filter ∧
        ClaimPhase.Answers (D.key w) (net.relay.query filter) phase after ∧
        net' = D.answered net w (net.relay.query filter) job
          (net.nodes w).store { job with phase := .claiming after } ∧
        D.newWin? net w (net.relay.query filter) job
          { job with phase := .claiming after } = some win ∧
        net'.wins = net.wins ++ [win] := by
  cases h with
  | @query w job phase after filter hjob hphase hquery hanswers =>
      cases hwin : D.newWin? net w (net.relay.query filter) job
          { job with phase := .claiming after } with
      | none => exact Or.inl (by rw [D.answered_wins, hwin]; simp)
      | some win =>
          exact Or.inr ⟨w, job, phase, after, filter, win, rfl, hjob, hphase,
            hquery, hanswers, rfl, hwin, by rw [D.answered_wins, hwin]; rfl⟩
  | publish | lose => exact Or.inl (by simp)
  | advance | other | fetch | proceed | handle | failClaim | failSettle
  | drop | sweep | retry => exact Or.inl rfl

structure HoldingInv (net : Net W) : Prop where
  holds : ∀ w job, (net.nodes w).job = some job → Holding job.phase →
    ∃ win, Holds net w win
  unsettled : ∀ win ∈ net.unsettled, win ∈ net.wins

theorem Deployment.Step.unsettled {a : Action W} (h : D.Step net a net')
    {win : Win W} (hwin : win ∈ net'.unsettled) :
    win ∈ net.unsettled ∨ net'.wins = net.wins ++ [win] := by
  cases h with
  | @query w job phase after filter =>
      rw [D.answered_unsettled] at hwin
      rcases List.mem_append.mp hwin with hold | hnew
      · exact Or.inl hold
      · rw [Option.mem_toList] at hnew
        exact Or.inr (by rw [D.answered_wins, hnew]; rfl)
  | publish | lose =>
      rw [Net.published_unsettled] at hwin
      split at hwin
      · exact Or.inl (List.mem_filter.mp hwin).1
      · exact Or.inl hwin
  | advance | other | fetch | proceed | handle | failClaim | failSettle
  | drop | sweep | retry => exact Or.inl hwin

theorem Deployment.Step.wins_mono {a : Action W} (h : D.Step net a net')
    {win : Win W} (hwin : win ∈ net.wins) : win ∈ net'.wins := by
  cases h with
  | query =>
      rw [D.answered_wins]
      exact List.mem_append_left _ hwin
  | publish | lose => simpa using hwin
  | advance | other | fetch | proceed | handle | failClaim | failSettle
  | drop | sweep | retry => exact hwin

theorem HoldingInv.step {a : Action W} (hi : HoldingInv net)
    (h : D.Step net a net') : HoldingInv net' where
  holds w job hjob hh := by
    by_cases ha : a.actor = some w
    · rcases h.holding ha hjob hh with
        ⟨before, hbefore, hheld, hsame, hunsettled⟩ |
        ⟨win, hwin, hworker, hunsettled⟩
      · obtain ⟨win, hwin⟩ := hi.holds w before hbefore hheld
        exact ⟨win, hsame.trans hwin.held, hwin.worker,
          hunsettled ▸ hwin.unsettled⟩
      · exact ⟨win, hwin, hworker, by rw [hunsettled]; simp⟩
    · have hf := h.frame ha
      rw [hf.node] at hjob
      obtain ⟨win, hwin⟩ := hi.holds w job hjob hh
      exact ⟨win, hf.node ▸ hwin.held, hwin.worker,
        hf.unsettled win hwin.unsettled hwin.worker⟩
  unsettled win hwin := by
    rcases h.unsettled hwin with hold | hnew
    · exact h.wins_mono (hi.unsettled win hold)
    · rw [hnew]
      simp

theorem holding {P : Net W → Action W → Prop} (h : D.system.Reach P net) :
    HoldingInv net :=
  h.invariant
    (fun net h₀ => {
      holds := fun w job hjob => by simp [h₀.idle w] at hjob
      unsettled := by simp [h₀.unsettled] })
    fun _ _ _ _ hi _ hs => hi.step (Deployment.step_cases hs)

theorem win_of_returnedTrue {P : Net W → Action W → Prop}
    (h : D.system.Reach P net) {w : W} (hw : ReturnedTrue net w) :
    ∃ win, Holds net w win ∧ win ∈ net.wins := by
  obtain ⟨job, hjob, hphase⟩ := Option.map_eq_some_iff.mp hw
  obtain ⟨win, hwin⟩ := (holding h).holds w job hjob (by rw [hphase]; trivial)
  exact ⟨win, hwin, (holding h).unsettled win hwin.unsettled⟩

end Steps

end NostrQ.Cluster
