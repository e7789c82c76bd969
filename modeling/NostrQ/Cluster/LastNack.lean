import NostrQ.Cluster.Grounding

/-!
# The last nack

A nack is dead-lettered by the `max_attempts` that its call found for the queue
and by the floor of the record it read first.  Where all workers allow the same
number of attempts and no row has a floor, that number decides every nack.

Between the acceptance of the last nack and that of its dead letter there is a
window, and so there is between a call's terminal check and its nack survey.
-/

namespace NostrQ.Cluster

open NostrQ.Foundation NostrQ.Core NostrQ.Database NostrQ.Sdk NostrQ.Worker

variable {W : Type}

/-! ## The attempts that are allowed -/

/-- The attempts that a store allows on a queue. -/
def maxAttempts (s : Store) (queue : String) : U32 :=
  ((s.getQueue queue).getD (QueueConfig.workQueue queue)).maxAttempts

section Allowance

variable (D : Deployment W) (limit : U32)

def Allows (s : Store) : Prop :=
  ∀ row, s.row? D.mid = some row →
    row.attemptFloor = 0 ∧ maxAttempts s row.queue = limit

def SettleAllows (s : Store) : SettlePhase → Prop
  | .during call (.configuring _) =>
      call.record.attemptFloor = 0 ∧ maxAttempts s call.record.queue = limit
  | .during call (.counting _ config) =>
      call.record.attemptFloor = 0 ∧ config.maxAttempts = limit
  | .during call (.nackPublishing _ config _) =>
      call.record.attemptFloor = 0 ∧ config.maxAttempts = limit
  | _ => True

def PhaseAllows (s : Store) : JobPhase → Prop
  | .settling phase => SettleAllows limit s phase
  | _ => True

structure NodeAllows (node : Node W) : Prop where
  row : Allows D limit node.store
  job : ∀ job, node.job = some job → PhaseAllows limit node.store job.phase

variable {D limit} {s s' : Store}

theorem maxAttempts_congr (h : s'.queues = s.queues) (queue : String) :
    maxAttempts s' queue = maxAttempts s queue := by
  rw [maxAttempts, maxAttempts, Store.getQueue, Store.getQueue, h]

theorem Allows.rewrites (h : Allows D limit s) (hrewrites : s.Rewrites s')
    (hraises : s.Raises s') (hqueues : s'.queues = s.queues) :
    Allows D limit s' := by
  intro row' hrow'
  obtain ⟨row, progress, hrow, rfl⟩ := hrewrites.row hrow'
  obtain ⟨same, hsame, -, hfloor⟩ := hraises _ _ hrow'
  cases hrow.symm.trans hsame
  rw [hfloor, maxAttempts_congr hqueues]
  exact h row hrow

theorem SettleAllows.congr {phase : SettlePhase}
    (h : SettleAllows limit s phase) (hqueues : s'.queues = s.queues) :
    SettleAllows limit s' phase := by
  unfold SettleAllows at h ⊢
  split
  · rw [maxAttempts_congr hqueues]
    exact h
  · exact h
  · exact h
  · trivial

theorem PhaseAllows.congr {phase : JobPhase} (h : PhaseAllows limit s phase)
    (hqueues : s'.queues = s.queues) : PhaseAllows limit s' phase := by
  unfold PhaseAllows at h ⊢
  split
  · exact SettleAllows.congr h hqueues
  · trivial

theorem SettleAllows.proceeds {time : Nat} {phase next : SettlePhase}
    (hrow : Allows D limit s) (hconcerns : SettleConcerns D phase)
    (h : SettleAllows limit s phase)
    (hp : SettlePhase.Proceeds s time phase s' next) :
    SettleAllows limit s' next := by
  cases hp with
  | ack =>
      unfold SettlePhase.start
      split <;> trivial
  | @nack mid reason =>
      unfold SettlePhase.start
      split
      · trivial
      · next call hcall =>
          obtain ⟨row, hread, hshows, -⟩ := messageRef_ok hcall
          have hmid : mid = D.mid := hconcerns
          rw [hmid] at hread
          obtain ⟨hfloor, hmax⟩ := hrow row hread
          refine ⟨Fin.ext (hshows.attemptFloor.trans hfloor), ?_⟩
          rw [hshows.queue]
          exact hmax
  | configure => exact h
  | @count call reason config =>
      rcases SettlePhase.count_snd (s := s) call reason config with
        ⟨attempts, row, -, -, hnext⟩ | ⟨e, hnext, -⟩ <;> rw [hnext]
      · exact h
      · trivial
  | finish => trivial

theorem PhaseAllows.proceeds {key : PublicKey} {time : Nat} {job : Job}
    {next : JobPhase} (hrow : Allows D limit s) (hc : JobConcerns D job)
    (h : PhaseAllows limit s job.phase)
    (hp : Job.Proceeds key s time job job.phase s' next) :
    PhaseAllows limit s' next := by
  have hconcerns := hc.phase
  generalize job.phase = phase at h hp hconcerns
  cases hp with
  | claimed =>
      unfold Job.afterClaim
      split <;> trivial
  | claim => trivial
  | timeout => trivial
  | settled => trivial
  | settle hp => exact SettleAllows.proceeds hrow hconcerns h hp

theorem NodeAllows.node {store : Store} {job : Job} {history : History W}
    (hrow : Allows D limit store) (hphase : PhaseAllows limit store job.phase) :
    NodeAllows D limit ⟨store, some job, history⟩ :=
  ⟨hrow, fun _ heq => Option.some.inj heq ▸ hphase⟩

variable [DecidableEq W] {net net' : Net W}

theorem NodeAllows.step {a : Action W} {w : W} (hg : Grounded D net)
    (h : NodeAllows D limit (net.nodes w)) (hretry : ∀ v, a ≠ .retry v)
    (hstep : D.Step net a net') : NodeAllows D limit (net'.nodes w) := by
  by_cases ha : a.actor = some w
  · cases hstep with
    | advance | other => contradiction
    | fetch =>
        cases ha
        rw [Net.setNode_self]
        exact .node h.row trivial
    | proceed hjob hp =>
        cases ha
        rw [Net.setNode_self]
        exact .node (h.row.rewrites hp.rewrites hp.raises hp.queues)
          ((h.job _ hjob).proceeds h.row (hg.jobs _ _ hjob) hp)
    | query =>
        cases ha
        rw [Deployment.answered_self]
        exact .node h.row trivial
    | publish hjob hp =>
        cases ha
        rw [Net.published_self]
        refine .node h.row ?_
        cases hp with
        | claim => trivial
        | settle _ _ haccepts =>
            cases haccepts with
            | ack | dlq => trivial
            | nack =>
                unfold SettleCall.afterNack
                split <;> trivial
    | @handle _ outcome =>
        cases ha
        rw [Net.setNode_self]
        refine .node h.row ?_
        cases outcome <;> trivial
    | failClaim | failSettle =>
        cases ha
        rw [Net.setNode_self]
        exact .node h.row trivial
    | lose hjob hp =>
        cases ha
        rw [Net.published_self]
        refine .node h.row ?_
        cases hp <;> trivial
    | drop =>
        cases ha
        rw [Net.setNode_self]
        exact ⟨h.row, fun job hjob => by contradiction⟩
    | sweep =>
        cases ha
        rw [Net.setNode_self]
        exact ⟨h.row.rewrites (Store.expireDue_rewrites _ _)
          (Store.expireDue_raises _ _) rfl,
          fun job hjob => (h.job job hjob).congr rfl⟩
    | retry => exact absurd rfl (hretry _)
  · rw [(hstep.frame ha).node]
    exact h

theorem nodeAllows {init : Net W → Prop} {P : Net W → Action W → Prop}
    (h : (D.system.startingIn init).Reach P net)
    (hinit : ∀ start, init start →
      D.Initial start ∧ ∀ w, Allows D limit (start.nodes w).store)
    (hretry : ∀ net w, ¬ P net (.retry w)) :
    ∀ w, NodeAllows D limit (net.nodes w) := by
  refine h.invariant (I := fun net => ∀ w, NodeAllows D limit (net.nodes w))
    (fun net h₀ w => ?_) ?_
  · obtain ⟨hstart, hallows⟩ := hinit net h₀
    refine ⟨hallows w, fun job hjob => ?_⟩
    simp [hstart.idle w] at hjob
  · intro net a net' hreach hi hp hs w
    have hg := grounded (hreach.restart fun _ h₀ => (hinit _ h₀).1)
    refine (hi w).step hg ?_ (Deployment.step_cases hs)
    rintro v rfl
    exact hretry _ _ hp

end Allowance

/-! ## The two windows -/

/-- The call has passed its terminal check and waits for its nack survey. -/
def Surveying : JobPhase → Prop
  | .claiming (.during _ .surveyNacks) => True
  | _ => False

/-- The nack that spent the last attempt is accepted, its dead letter is not. -/
def Burying : JobPhase → Prop
  | .settling (.during _ (.dlqPublishing _ _)) => True
  | _ => False

instance : DecidablePred Surveying := fun phase => by
  unfold Surveying
  split <;> infer_instance

instance : DecidablePred Burying := fun phase => by
  unfold Burying
  split <;> infer_instance

def Surveys (net : Net W) (w : W) : Prop :=
  ∃ job ∈ (net.nodes w).job, Surveying job.phase

def Buries (net : Net W) (w : W) : Prop :=
  ∃ job ∈ (net.nodes w).job, Burying job.phase

instance (net : Net W) (w : W) : Decidable (Surveys net w) :=
  inferInstanceAs (Decidable (∃ _ ∈ _, _))

instance (net : Net W) (w : W) : Decidable (Buries net w) :=
  inferInstanceAs (Decidable (∃ _ ∈ _, _))

def DeadLettered (D : Deployment W) (relay : Relay) : Prop :=
  ∃ accepted ∈ relay,
    (terminalFilter D.message).matchEvent accepted.event = true ∧
      accepted.event.kind = KIND_DLQ

section Windows

variable {D : Deployment W} {net net' : Net W} {w : W}

theorem DeadLettered.mono {relay : Relay} (h : DeadLettered D relay)
    (more : Relay) : DeadLettered D (relay ++ more) := by
  obtain ⟨accepted, hmem, hmatch⟩ := h
  exact ⟨accepted, List.mem_append_left _ hmem, hmatch⟩

theorem Burying.not_proceeds {key : PublicKey} {s s' : Store} {time : Nat}
    {job : Job} {phase next : JobPhase} (h : Burying phase) :
    ¬ Job.Proceeds key s time job phase s' next := by
  intro hp
  cases hp with
  | claimed | claim | timeout | settled => exact h
  | settle hp =>
      cases hp with
      | ack | nack | configure | count => exact h
      | @finish call stage _ result hf =>
          cases stage <;> first | exact h | contradiction

/-- Only an answer to the terminal check brings a call to its nack survey. -/
theorem surveying_of_proceeds {key : PublicKey} {s s' : Store} {time : Nat}
    {job : Job} {phase next : JobPhase}
    (hp : Job.Proceeds key s time job phase s' next) : ¬ Surveying next := by
  intro h
  cases hp with
  | claimed =>
      unfold Job.afterClaim at h
      split at h <;> exact h
  | claim hp =>
      cases hp with
      | enter =>
          unfold ClaimPhase.enter at h
          split at h
          · exact h
          · split at h <;> exact h
      | expire | wake | finish => exact h
  | timeout | settled | settle => exact h

theorem terminalCheck_of_answers {key : PublicKey} {events : List Event}
    {phase after : ClaimPhase} (ha : ClaimPhase.Answers key events phase after)
    (h : Surveying (.claiming after)) :
    ∃ call, phase = .during call .terminalCheck ∧
      after = .during call .surveyNacks := by
  cases ha with
  | @terminal call =>
      rcases call.afterTerminal_cases events with
        ⟨heq, -⟩ | ⟨heq, -⟩ | ⟨heq, -⟩ <;> rw [heq] at h ⊢
      · exact h.elim
      · exact h.elim
      · exact ⟨call, rfl, rfl⟩
  | nacks => exact h.elim
  | @claims call observed =>
      rcases call.afterSurvey_cases key observed (parseClaims events) with
        ⟨_, -, -, heq⟩ | ⟨_, -, -, heq⟩ | ⟨-, heq⟩ <;> rw [heq] at h <;>
        exact h.elim
  | recheckClaims => exact h.elim
  | @recheckNacks call observed claims =>
      rcases call.afterRecheck_cases key observed claims events with
        ⟨_, -, -, heq⟩ | ⟨-, heq⟩ <;> rw [heq] at h <;> exact h.elim

variable [DecidableEq W]

/-- The dead letter of a nack that is not cut off is accepted some time. -/
theorem Deployment.Step.buries {a : Action W} (h : D.Step net a net')
    (hg : Grounded D net) (hb : Buries net w) (hfail : a ≠ .fail w)
    (hdrop : a ≠ .drop w) (hlose : ∀ createdAt id, a ≠ .lose w createdAt id) :
    Buries net' w ∨
      (∃ createdAt id, a = .publish w createdAt id) ∧
        DeadLettered D net'.relay := by
  by_cases ha : a.actor = some w
  · obtain ⟨job, hjob, hburying⟩ := hb
    cases h with
    | advance | other => contradiction
    | fetch hidle =>
        cases ha
        rw [hidle] at hjob
        contradiction
    | proceed hold hp =>
        cases ha
        cases hold.symm.trans hjob
        exact absurd hp hburying.not_proceeds
    | query hold hphase =>
        cases ha
        cases hold.symm.trans hjob
        rw [hphase] at hburying
        exact hburying.elim
    | @publish _ createdAt id _ event phase hold hp =>
        cases ha
        cases hold.symm.trans hjob
        cases hp with
        | claim hphase =>
            rw [hphase] at hburying
            exact hburying.elim
        | settle hphase hdraft haccepts =>
            rw [hphase] at hburying
            cases haccepts with
            | ack | nack => exact hburying.elim
            | @dlq call reason attempts =>
                cases hdraft
                have hconcerns := (hg.jobs _ _ hjob).phase
                rw [hphase] at hconcerns
                have hmessage : call.ref.eventId = D.message := hconcerns.1
                refine Or.inr ⟨⟨createdAt, id, rfl⟩, ?_⟩
                rw [Net.published_relay]
                refine ⟨_, List.mem_append_right _ (List.mem_singleton_self _),
                  ?_, rfl⟩
                rw [← hmessage]
                exact terminalFilter_dlq ..
    | handle hold hphase =>
        cases ha
        cases hold.symm.trans hjob
        rw [hphase] at hburying
        exact hburying.elim
    | failClaim | failSettle =>
        cases ha
        exact absurd rfl hfail
    | lose =>
        cases ha
        exact absurd rfl (hlose _ _)
    | drop =>
        cases ha
        exact absurd rfl hdrop
    | sweep | retry =>
        cases ha
        exact Or.inl ⟨job, by rwa [Net.setNode_self], hburying⟩
  · obtain ⟨job, hjob, hburying⟩ := hb
    exact Or.inl ⟨job, by rwa [(h.frame ha).node], hburying⟩

/-- A call comes to its nack survey with what the relay held at that moment. -/
theorem Deployment.Step.surveys {a : Action W} (h : D.Step net a net')
    (hs : Surveys net' w) :
    (Surveys net w ∧ (net'.nodes w).history.checking =
      (net.nodes w).history.checking) ∨
    net'.relay = net.relay ∧
      (net'.nodes w).history.checking = net.relay.length ∧
      a.actor = some w ∧ ¬ Buries net w := by
  by_cases ha : a.actor = some w
  · obtain ⟨job, hjob, hsurveying⟩ := hs
    cases h with
    | advance | other => contradiction
    | fetch =>
        cases ha
        rw [Net.setNode_self] at hjob
        cases hjob
        exact hsurveying.elim
    | proceed hold hp =>
        cases ha
        rw [Net.setNode_self] at hjob
        cases hjob
        exact absurd hsurveying (surveying_of_proceeds hp)
    | query hold hphase hquery hanswers =>
        cases ha
        rw [D.answered_self] at hjob
        cases hjob
        obtain ⟨call, rfl, rfl⟩ := terminalCheck_of_answers hanswers hsurveying
        refine Or.inr ⟨D.answered_relay .., ?_, rfl, ?_⟩
        · rw [D.answered_self, D.newHistory_checking]
          simp only [History.afterQuery, hphase]
        · rintro ⟨same, hsame, hburying⟩
          cases hold.symm.trans hsame
          rw [hphase] at hburying
          exact hburying
    | publish hold hp =>
        cases ha
        rw [Net.published_self] at hjob
        cases hjob
        cases hp with
        | claim => exact hsurveying.elim
        | settle => exact hsurveying.elim
    | handle | failClaim | failSettle =>
        cases ha
        rw [Net.setNode_self] at hjob
        cases hjob
        exact hsurveying.elim
    | lose hold hp =>
        cases ha
        rw [Net.published_self] at hjob
        cases hjob
        cases hp <;> exact hsurveying.elim
    | drop =>
        cases ha
        rw [Net.setNode_self] at hjob
        contradiction
    | sweep | retry =>
        cases ha
        rw [Net.setNode_self] at hjob ⊢
        exact Or.inl ⟨⟨job, hjob, hsurveying⟩, rfl⟩
  · have hnode := (h.frame ha).node
    obtain ⟨job, hjob, hsurveying⟩ := hs
    rw [hnode] at hjob ⊢
    exact Or.inl ⟨⟨job, hjob, hsurveying⟩, rfl⟩

end Windows

end NostrQ.Cluster
