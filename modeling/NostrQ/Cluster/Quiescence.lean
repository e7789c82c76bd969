import NostrQ.Cluster.Finality
import NostrQ.Cluster.Work

/-!
# After the ack

Once an ack of the message is on the relay, a job that has yet to ask for final
events will find it and send nothing.  Only the jobs that asked before are left,
and each of them sends at most a claim, a nack and a dlq event: the traffic about
a finished message dies out, however often workers fetch it again.
-/

namespace NostrQ.Cluster

open NostrQ.Foundation NostrQ.Core NostrQ.Database NostrQ.Sdk NostrQ.Worker

variable {W : Type}

def Acked (D : Deployment W) (relay : Relay) : Prop :=
  ∃ accepted ∈ relay,
    (terminalFilter D.message).matchEvent accepted.event = true ∧
      accepted.event.kind = KIND_ACK

instance (D : Deployment W) (relay : Relay) : Decidable (Acked D relay) :=
  inferInstanceAs (Decidable (∃ _ ∈ _, _))

theorem Acked.grow {D : Deployment W} {relay more : Relay}
    (h : Acked D relay) : Acked D (relay ++ more) := by
  obtain ⟨accepted, hmem, hack⟩ := h
  exact ⟨accepted, List.mem_append_left more hmem, hack⟩

/-! ## How many events a job has left -/

/-- The events left to a claiming call that has yet to find the ack: none. -/
def claimEventsLeft : ClaimPhase → Nat
  | .during _ .surveyNacks | .during _ (.surveyClaims _)
  | .during _ (.contending _) => 3
  | .during _ (.settling _ _) | .during _ (.recheckClaims _)
  | .during _ (.recheckNacks _ _) | .during _ (.recognised _)
  | .during _ (.contendWon _) | .returned (.ok true) => 2
  | _ => 0

def settleEventsLeft : SettlePhase → Nat
  | .nacking _ _ | .during _ (.configuring _) | .during _ (.counting _ _)
  | .during _ (.nackPublishing _ _ _) => 2
  | .acking _ | .during _ .ackPublishing | .during _ (.dlqPublishing _ _) => 1
  | _ => 0

def eventsLeft : JobPhase → Nat
  | .claiming phase => claimEventsLeft phase
  | .handling _ _ => 2
  | .settling phase => settleEventsLeft phase
  | .finished => 0

def Node.eventsLeft (node : Node W) : Nat :=
  (node.job.map fun job => Cluster.eventsLeft job.phase).getD 0

theorem claimEventsLeft_le (phase : ClaimPhase) : claimEventsLeft phase ≤ 3 := by
  unfold claimEventsLeft
  split <;> omega

theorem settleEventsLeft_le (phase : SettlePhase) :
    settleEventsLeft phase ≤ 2 := by
  unfold settleEventsLeft
  split <;> omega

theorem Node.eventsLeft_le (node : Node W) : node.eventsLeft ≤ 3 := by
  unfold Node.eventsLeft
  cases node.job with
  | none => exact Nat.zero_le 3
  | some job =>
      simp only [Option.map_some, Option.getD_some]
      cases job.phase with
      | claiming phase => exact claimEventsLeft_le phase
      | handling current deadline => exact Nat.le_succ 2
      | settling phase => exact (settleEventsLeft_le phase).trans (Nat.le_succ 2)
      | finished => exact Nat.zero_le 3

theorem Node.eventsLeft_job {node : Node W} {job : Job}
    (h : node.job = some job) :
    node.eventsLeft = Cluster.eventsLeft job.phase := by
  rw [Node.eventsLeft, h]
  rfl

theorem Node.eventsLeft_idle {node : Node W} (h : node.job = none) :
    node.eventsLeft = 0 := by
  rw [Node.eventsLeft, h]
  rfl

section Phases

variable {key : PublicKey} {s s' : Store} {time : Nat}

theorem claimEventsLeft_returned (result : Except SdkError Bool) :
    claimEventsLeft (.returned result) ≤ 2 ∧
      (result ≠ .ok true → claimEventsLeft (.returned result) = 0) := by
  cases result with
  | error e => exact ⟨Nat.zero_le 2, fun _ => rfl⟩
  | ok value =>
      cases value with
      | true => exact ⟨le_rfl, fun h => absurd rfl h⟩
      | false => exact ⟨Nat.zero_le 2, fun _ => rfl⟩

theorem claimEventsLeft_proceeds {phase next : ClaimPhase}
    (h : ClaimPhase.Proceeds key s time phase s' next) :
    claimEventsLeft next ≤ claimEventsLeft phase := by
  cases h with
  | @enter record leaseSeconds settleMs =>
      unfold ClaimPhase.enter
      split
      · exact le_rfl
      · split <;> exact le_rfl
  | expire | wake => exact le_rfl
  | @finish call stage _ result h =>
      obtain ⟨hle, hzero⟩ := claimEventsLeft_returned result
      cases ClaimPhase.finishes h with
      | acked _ hlost | buried _ hlost =>
          rw [hzero hlost]
          exact Nat.zero_le _
      | recognised | contendWon => exact hle

theorem claimEventsLeft_answers {phase next : ClaimPhase} {events : List Event}
    (hack : ∀ call, phase = .during call .terminalCheck →
      ∃ event ∈ events, event.kind = KIND_ACK)
    (h : ClaimPhase.Answers key events phase next) :
    claimEventsLeft next ≤ claimEventsLeft phase := by
  cases h with
  | @terminal call =>
      obtain ⟨event, hmem, hkind⟩ := hack call rfl
      rcases call.afterTerminal_cases events with
        ⟨heq, -⟩ | ⟨-, hnone, -⟩ | ⟨-, hnone, -⟩
      · rw [heq]
        exact le_rfl
      · exact absurd hkind (hnone event hmem)
      · exact absurd hkind (hnone event hmem)
  | nacks | recheckClaims => exact le_rfl
  | @claims call observed =>
      rcases call.afterSurvey_cases key observed (parseClaims events) with
        ⟨_, -, -, heq⟩ | ⟨_, -, -, heq⟩ | ⟨-, heq⟩ <;> rw [heq] <;>
        simp [claimEventsLeft]
  | @recheckNacks call observed claims =>
      rcases call.afterRecheck_cases key observed claims events with
        ⟨_, -, -, heq⟩ | ⟨-, heq⟩ <;> rw [heq] <;> simp [claimEventsLeft]

theorem settleEventsLeft_proceeds {phase next : SettlePhase}
    (h : SettlePhase.Proceeds s time phase s' next) :
    settleEventsLeft next ≤ settleEventsLeft phase := by
  cases h with
  | ack | nack =>
      unfold SettlePhase.start
      split <;> simp [settleEventsLeft]
  | configure => exact le_rfl
  | @count call reason config =>
      rcases SettlePhase.count_snd (s := s) call reason config with
        ⟨_, _, -, -, heq⟩ | ⟨_, heq, -⟩ <;> rw [heq] <;>
        simp [settleEventsLeft]
  | finish => exact Nat.zero_le _

theorem settleEventsLeft_accepts {phase next : SettlePhase}
    (h : SettlePhase.Accepts phase next) :
    settleEventsLeft next + 1 ≤ settleEventsLeft phase := by
  cases h with
  | ack | dlq => exact le_rfl
  | nack =>
      unfold SettleCall.afterNack
      split <;> simp [settleEventsLeft]

theorem eventsLeft_proceeds {job : Job} {phase next : JobPhase}
    (h : Job.Proceeds key s time job phase s' next) :
    eventsLeft next ≤ eventsLeft phase := by
  cases h with
  | @claimed result =>
      unfold Job.afterClaim
      split
      · exact le_rfl
      · exact Nat.zero_le _
  | claim h => exact claimEventsLeft_proceeds h
  | timeout => exact le_rfl
  | settled => exact le_rfl
  | settle h => exact settleEventsLeft_proceeds h

end Phases

/-! ## Every step -/

section Steps

variable [DecidableEq W] {D : Deployment W} {net net' : Net W} {w : W}

theorem Acked.step {a : Action W} (h : Acked D net.relay)
    (hstep : D.Step net a net') : Acked D net'.relay := by
  obtain ⟨-, hsame | ⟨event, hrelay, -⟩⟩ := hstep.relay
  · rw [hsame]
    exact h
  · rw [hrelay]
    exact h.grow

omit [DecidableEq W] in
private theorem ack_found {job : Job} {phase : ClaimPhase} {filter : Filter}
    (hg : Grounded D net) (hack : Acked D net.relay)
    (hjob : (net.nodes w).job = some job) (hphase : job.phase = .claiming phase)
    (hquery : phase.query? = some filter) :
    ∀ call, phase = .during call .terminalCheck →
      ∃ event ∈ net.relay.query filter, event.kind = KIND_ACK := by
  rintro call rfl
  have hconcerns := (hg.jobs w job hjob).phase
  rw [hphase] at hconcerns
  obtain ⟨accepted, hmem, hmatch, hkind⟩ := hack
  cases hquery
  rw [← hconcerns.2.1] at hmatch
  exact ⟨accepted.event,
    Relay.mem_query.mpr ⟨hmatch, accepted, hmem, rfl⟩, hkind⟩

omit [DecidableEq W] in
private theorem eventsLeft_send {event : Event} {job : Job}
    (kinds : List Nat) (hjob : (net.nodes w).job = some job)
    (hrelay : net'.relay = net.relay ++ [⟨net.time, event⟩])
    (hnext : (net'.nodes w).eventsLeft + 1 ≤ eventsLeft job.phase) :
    D.sent kinds w net'.relay + (net'.nodes w).eventsLeft ≤
      D.sent kinds w net.relay + (net.nodes w).eventsLeft := by
  have hone := D.sent_one kinds w ⟨net.time, event⟩
  rw [hrelay, D.sent_append, Node.eventsLeft_job hjob]
  omega

omit [DecidableEq W] in
private theorem eventsLeft_publishes {createdAt : U64} {id : EventId}
    {job : Job} {event : Event} {phase : JobPhase}
    (h : D.Publishes w createdAt id net.time job event phase) :
    eventsLeft phase + 1 ≤ eventsLeft job.phase := by
  cases h with
  | claim hphase =>
      rw [hphase]
      exact le_rfl
  | settle hphase _ haccepts =>
      rw [hphase]
      exact settleEventsLeft_accepts haccepts

omit [DecidableEq W] in
private theorem eventsLeft_loses {createdAt : U64} {id : EventId} {job : Job}
    {event : Event} {phase : JobPhase}
    (h : D.Loses w createdAt id job event phase) :
    eventsLeft phase + 1 ≤ eventsLeft job.phase := by
  cases h with
  | claim hphase =>
      rw [hphase]
      simp [eventsLeft, claimEventsLeft]
  | @settle phase _ hphase hdraft =>
      rw [hphase]
      unfold SettlePhase.publish? at hdraft
      split at hdraft <;> first
        | contradiction
        | simp [eventsLeft, settleEventsLeft]

/-- What a worker has sent and what its job has left never grows together. -/
theorem Deployment.Step.eventsLeft {a : Action W} (h : D.Step net a net')
    (hg : Grounded D net) (hack : Acked D net.relay) (w : W)
    (kinds : List Nat) :
    D.sent kinds w net'.relay + (net'.nodes w).eventsLeft ≤
      D.sent kinds w net.relay + (net.nodes w).eventsLeft := by
  by_cases ha : a.actor = some w
  · cases h with
    | advance | other => contradiction
    | fetch | failClaim | failSettle | drop =>
        cases ha
        refine Nat.add_le_add_left ?_ _
        rw [Net.setNode_self]
        exact Nat.zero_le _
    | proceed hjob hproceeds =>
        cases ha
        refine Nat.add_le_add_left ?_ _
        rw [Net.setNode_self, Node.eventsLeft_job hjob]
        exact eventsLeft_proceeds hproceeds
    | query hjob hphase hquery hanswers =>
        cases ha
        rw [D.answered_relay, D.answered_self, Node.eventsLeft_job hjob, hphase]
        refine Nat.add_le_add_left ?_ _
        exact claimEventsLeft_answers
          (ack_found hg hack hjob hphase hquery) hanswers
    | publish hjob hpublishes =>
        cases ha
        refine eventsLeft_send kinds hjob (Net.published_relay _ _ _ _ _) ?_
        rw [Net.published_self]
        exact eventsLeft_publishes hpublishes
    | @handle _ outcome _ _ _ hjob hphase =>
        cases ha
        refine Nat.add_le_add_left ?_ _
        rw [Net.setNode_self, Node.eventsLeft_job hjob, hphase]
        cases outcome <;> simp [Node.eventsLeft, Job.settle,
          Cluster.eventsLeft, settleEventsLeft]
    | lose hjob hloses =>
        cases ha
        refine eventsLeft_send kinds hjob (Net.published_relay _ _ _ _ _) ?_
        rw [Net.published_self]
        exact eventsLeft_loses hloses
    | sweep | retry =>
        cases ha
        refine Nat.add_le_add_left ?_ _
        rw [Net.setNode_self]
        exact le_rfl
  · have hf := h.frame ha
    obtain ⟨more, hrelay, hmore⟩ := hf.relay
    rw [hf.node, hrelay, D.sent_append,
      D.sent_others fun accepted hmem => (hmore accepted hmem).2, Nat.add_zero]

/--
From the moment an ack is on the relay, each worker adds at most three events
about the message, and none if it had no job then.
-/
theorem quiescent_after_ack {P Q : Net W → Action W → Prop}
    (h : D.system.Reach P net) (hack : Acked D net.relay)
    (hlater : (D.system.startingIn fun start => start = net).Reach Q net')
    (w : W) (kinds : List Nat) :
    D.sent kinds w net'.relay ≤ D.sent kinds w net.relay + 3 ∧
      ((net.nodes w).job = none →
        D.sent kinds w net'.relay = D.sent kinds w net.relay) := by
  replace hlater : (D.system.startingIn fun start => start = net).Reach
      System.Free net' := hlater.mono fun _ _ _ => trivial
  have hrun : Acked D net'.relay ∧
      D.sent kinds w net.relay ≤ D.sent kinds w net'.relay ∧
      D.sent kinds w net'.relay + (net'.nodes w).eventsLeft ≤
        D.sent kinds w net.relay + (net.nodes w).eventsLeft := by
    induction hlater with
    | init h₀ =>
        cases h₀
        exact ⟨hack, le_rfl, le_rfl⟩
    | step hr _ hs ih =>
        obtain ⟨hacked, hgrown, hpaid⟩ := ih
        have hstep := Deployment.step_cases hs
        have hreach := (h.mono fun _ _ _ => trivial).after hr
        obtain ⟨more, hrelay⟩ := hstep.relay_grows
        refine ⟨hacked.step hstep, hgrown.trans ?_,
          (hstep.eventsLeft (grounded hreach) hacked w kinds).trans hpaid⟩
        rw [hrelay, D.sent_append]
        exact Nat.le_add_right _ _
  obtain ⟨-, hgrown, hpaid⟩ := hrun
  constructor
  · have := (net.nodes w).eventsLeft_le
    omega
  · intro hidle
    rw [Node.eventsLeft_idle hidle] at hpaid
    omega

theorem quiescent_after_ack_winning :
    ∃ net net', pair.system.Reach System.Free net ∧ Acked pair net.relay ∧
      (net.nodes .second).job = none ∧
      (pair.system.startingIn fun start => start = net).Reach System.Free
        net' ∧
      pair.sent [KIND_CLAIM] .second net'.relay =
        pair.sent [KIND_CLAIM] .second net.relay := by
  obtain ⟨net, hreach, htest⟩ :=
    (System.Reach.init (pairStart_initial 5)).of_run_check
      (S := pair.system) (P := System.Free)
      (winningRun ++ [.proceed .first, .handle .first .success, .proceed .first,
        .publish .first 0 (hexOf 'b')])
      (fun net => decide (Acked pair net.relay) &&
        ((net.nodes .second).job.isNone &&
          ((pair.system.startingIn fun start => start = net).run System.Free
            net [.fetch .second 60, .proceed .second, .query .second,
              .proceed .second]).isSome))
      (by decide)
  simp only [Bool.and_eq_true, decide_eq_true_eq, Option.isNone_iff_eq_none]
    at htest
  obtain ⟨hack, hidle, hrun⟩ := htest
  obtain ⟨net', hrun⟩ := Option.isSome_iff_exists.mp hrun
  have hlater := (System.Reach.init
    (S := pair.system.startingIn fun start => start = net) rfl).of_run hrun
  exact ⟨net, net', hreach, hack, hidle, hlater,
    (quiescent_after_ack hreach hack hlater .second [KIND_CLAIM]).2 hidle⟩

end Steps

end NostrQ.Cluster
