import NostrQ.Cluster.Holding

/-!
# Finished messages

A call asks once, before anything else, whether the message is finished.  So a
true return says that it was not when that question was answered; it says
nothing about what was accepted since, and a holder that settles after its lease
has run out may finish the message while another call is on its way to a win.
-/

namespace NostrQ.Cluster

open NostrQ.Foundation NostrQ.Core NostrQ.Database NostrQ.Sdk NostrQ.Worker

variable {W : Type}

/-- No ack, and no dlq event above the floor, is among these events. -/
def Unfinished (D : Deployment W) (relay : Relay) (floor : U32) : Prop :=
  ∀ accepted ∈ relay,
    (terminalFilter D.message).matchEvent accepted.event = true →
    accepted.event.kind = KIND_DLQ ∧ eventAttempt accepted.event ≤ floor

instance (D : Deployment W) (relay : Relay) (floor : U32) :
    Decidable (Unfinished D relay floor) :=
  inferInstanceAs (Decidable (∀ _ ∈ _, _))

theorem unfinished_of_terminalCheck {D : Deployment W} {relay : Relay}
    {call : ClaimCall} {events : List Event}
    (hevents : events = relay.query (terminalFilter D.message))
    (hack : ∀ event ∈ events, event.kind ≠ KIND_ACK)
    (hdlq : ClaimCall.dlqAttempt events ≤ call.record.attemptFloor) :
    Unfinished D relay call.record.attemptFloor := by
  intro accepted haccepted hmatch
  have hmem : accepted.event ∈ events := by
    rw [hevents]
    exact Relay.mem_query.mpr ⟨hmatch, accepted, haccepted, rfl⟩
  have hkind : accepted.event.kind = KIND_DLQ := by
    simp only [Filter.matchEvent, terminalFilter, Bool.and_eq_true,
      Bool.or_eq_true] at hmatch
    obtain ⟨⟨hempty | hkinds, -⟩, -⟩ := hmatch
    · simp at hempty
    · have hcases : accepted.event.kind = KIND_ACK ∨
          accepted.event.kind = KIND_DLQ := by simpa using hkinds
      exact hcases.resolve_left (hack _ hmem)
  exact ⟨hkind, (ClaimCall.le_dlqAttempt hmem hkind).trans hdlq⟩

def PastCheck : JobPhase → Prop
  | .claiming (.during _ .terminalCheck) => False
  | .claiming (.during _ .ackObserved) => False
  | .claiming (.during _ (.dlqObserved _)) => False
  | .claiming (.during _ _) => True
  | _ => False

/-! ## The invariant -/

section Invariant

variable (D : Deployment W)

structure UnfinishedUpTo (net : Net W) (n : Nat) (floor : U32) : Prop where
  le : n ≤ net.relay.length
  unfinished : Unfinished D (net.relay.take n) floor

structure FinalityInv (net : Net W) : Prop where
  jobs : ∀ w job, (net.nodes w).job = some job → PastCheck job.phase →
    UnfinishedUpTo D net (net.nodes w).history.checking
      job.record.attemptFloor
  wins : ∀ win ∈ net.wins, UnfinishedUpTo D net win.checked win.floor

variable {D} {net net' : Net W}

theorem UnfinishedUpTo.grow {n : Nat} {floor : U32}
    (h : UnfinishedUpTo D net n floor)
    (hrelay : ∃ more, net'.relay = net.relay ++ more) :
    UnfinishedUpTo D net' n floor := by
  obtain ⟨more, hrelay⟩ := hrelay
  refine ⟨by rw [hrelay, List.length_append]; exact h.le.trans (by omega), ?_⟩
  rw [hrelay, List.take_append_of_le_length h.le]
  exact h.unfinished

private theorem PastCheck.proceeds {key : PublicKey} {s s' : Store}
    {time : Nat} {job : Job} {phase next : JobPhase}
    (hp : Job.Proceeds key s time job phase s' next) (h : PastCheck next) :
    PastCheck phase := by
  cases hp with
  | claimed =>
      unfold Job.afterClaim at h
      split at h <;> exact h.elim
  | claim hp =>
      cases hp with
      | enter =>
          unfold ClaimPhase.enter at h
          split at h
          · exact h.elim
          · split at h <;> exact h.elim
      | expire => exact h.elim
      | wake _ => trivial
      | finish _ => exact h.elim
  | timeout _ => exact h.elim
  | settled => exact h.elim
  | settle _ => exact h.elim

private theorem FinalityInv.answers {w : W} {job next : Job}
    {call : ClaimCall} {stage : ClaimStage} {after : ClaimPhase}
    {filter : Filter} (hi : FinalityInv D net)
    (hjob : (net.nodes w).job = some job)
    (hphase : job.phase = .claiming (.during call stage))
    (hrecord : call.record = job.record)
    (hmessage : call.message = D.message)
    (hquery : (ClaimPhase.during call stage).query? = some filter)
    (ha : ClaimPhase.Answers (D.key w) (net.relay.query filter)
      (.during call stage) after)
    (hnext : next.phase = .claiming after)
    (h : PastCheck (.claiming after)) :
    UnfinishedUpTo D net ((net.nodes w).history.afterQuery net.time
      net.relay.length job next).checking job.record.attemptFloor := by
  have past : PastCheck job.phase → ∀ after' : Job,
      stage ≠ .terminalCheck →
      UnfinishedUpTo D net ((net.nodes w).history.afterQuery net.time
        net.relay.length job after').checking job.record.attemptFloor := by
    intro hpast after' hstage
    have := hi.jobs w job hjob hpast
    simp only [History.afterQuery, hphase]
    cases stage <;> first | exact absurd rfl hstage | exact this
  cases ha with
  | terminal =>
      cases hquery
      rcases call.afterTerminal_cases
        (net.relay.query (terminalFilter call.message)) with
        ⟨heq, -⟩ | ⟨heq, -⟩ | ⟨heq, hack, hdlq⟩ <;> rw [heq] at h hnext
      · exact h.elim
      · exact h.elim
      · simp only [History.afterQuery, hphase, hnext]
        refine ⟨le_rfl, ?_⟩
        rw [List.take_length, ← hrecord]
        exact unfinished_of_terminalCheck (by rw [hmessage]) hack hdlq
  | nacks => exact past (by rw [hphase]; trivial) _ (by simp)
  | claims => exact past (by rw [hphase]; trivial) _ (by simp)
  | recheckClaims => exact past (by rw [hphase]; trivial) _ (by simp)
  | recheckNacks => exact past (by rw [hphase]; trivial) _ (by simp)

private theorem pastCheck_of_newWin {w : W} {events : List Event}
    {job next : Job} {win : Win W}
    (h : D.newWin? net w events job next = some win) :
    PastCheck job.phase ∧ win.floor = job.record.attemptFloor ∧
      win.checked = (net.nodes w).history.checking := by
  obtain ⟨call, claim, rfl, -, ⟨observed, hphase, -⟩ | ⟨observed, claims, hphase,
    -⟩⟩ := D.newWin?_cases h
  · refine ⟨by rw [hphase]; trivial, rfl, ?_⟩
    simp [Net.winOf, History.afterQuery, hphase]
  · refine ⟨by rw [hphase]; trivial, rfl, ?_⟩
    simp [Net.winOf, History.afterQuery, hphase]

variable [DecidableEq W]

theorem Deployment.Step.relay_grows {a : Action W} (h : D.Step net a net') :
    ∃ more, net'.relay = net.relay ++ more := by
  obtain ⟨-, hsame | ⟨event, hrelay, -⟩⟩ := h.relay
  · exact ⟨[], by simp [hsame]⟩
  · exact ⟨_, hrelay⟩

private theorem FinalityInv.own {a : Action W} {w : W} {job : Job}
    (hg : Grounded D net) (hi : FinalityInv D net) (h : D.Step net a net')
    (ha : a.actor = some w) (hjob : (net'.nodes w).job = some job)
    (hpast : PastCheck job.phase) :
    UnfinishedUpTo D net (net'.nodes w).history.checking
      job.record.attemptFloor := by
  cases h with
  | advance | other => contradiction
  | fetch =>
      cases ha
      simp only [Net.setNode_self, Option.some.injEq] at hjob
      subst hjob
      exact hpast.elim
  | proceed hold hproceeds =>
      cases ha
      simp only [Net.setNode_self, Option.some.injEq] at hjob
      subst hjob
      have hbefore := hi.jobs _ _ hold (hpast.proceeds hproceeds)
      simp only [Net.setNode_self, History.afterProceed]
      split <;> exact hbefore
  | query hold hphase hquery hanswers =>
      cases ha
      rw [D.answered_self] at hjob ⊢
      simp only [Option.some.injEq] at hjob
      subst hjob
      obtain ⟨call, stage, rfl⟩ := hanswers.during
      have hconcerns := (hg.jobs _ _ hold).phase
      rw [hphase] at hconcerns
      rw [D.newHistory_checking]
      exact hi.answers hold hphase hconcerns.1 hconcerns.2.1 hquery hanswers
        rfl hpast
  | publish hold hpublishes _ =>
      cases ha
      rw [Net.published_self] at hjob ⊢
      simp only [Option.some.injEq] at hjob
      subst hjob
      cases hpublishes with
      | claim hphase =>
          have hbefore := hi.jobs _ _ hold (by rw [hphase]; trivial)
          dsimp only
          split <;> exact hbefore
      | settle => exact hpast.elim
  | handle | failClaim | failSettle =>
      cases ha
      simp only [Net.setNode_self, Option.some.injEq] at hjob
      subst hjob
      exact hpast.elim
  | lose _ hloses _ =>
      cases ha
      rw [Net.published_self] at hjob
      simp only [Option.some.injEq] at hjob
      subst hjob
      cases hloses <;> exact hpast.elim
  | drop =>
      cases ha
      simp at hjob
  | sweep | retry =>
      cases ha
      rw [Net.setNode_self] at hjob ⊢
      exact hi.jobs _ _ hjob hpast

theorem FinalityInv.step {a : Action W} (hg : Grounded D net)
    (hi : FinalityInv D net) (h : D.Step net a net') :
    FinalityInv D net' where
  jobs w job hjob hpast := by
    by_cases ha : a.actor = some w
    · exact (hi.own hg h ha hjob hpast).grow h.relay_grows
    · have hf := h.frame ha
      rw [hf.node] at hjob ⊢
      exact (hi.jobs w job hjob hpast).grow h.relay_grows
  wins win hwin := by
    rcases h.wins with hsame | ⟨w, job, phase, after, filter, new, -, hjob, -,
      -, -, -, hnew, hwins⟩
    · exact (hi.wins win (hsame ▸ hwin)).grow h.relay_grows
    · rw [hwins] at hwin
      rcases List.mem_append.mp hwin with hold | hmem
      · exact (hi.wins win hold).grow h.relay_grows
      · obtain ⟨hpast, hfloor, hchecked⟩ := pastCheck_of_newWin hnew
        rw [List.mem_singleton.mp hmem, hfloor, hchecked]
        exact (hi.jobs w job hjob hpast).grow h.relay_grows

theorem finalityInv {P : Net W → Action W → Prop}
    (h : D.system.Reach P net) : FinalityInv D net :=
  h.invariant
    (fun net h₀ => {
      jobs := fun w job hjob => by simp [h₀.idle w] at hjob
      wins := by simp [h₀.wins] })
    fun _ _ _ hr hi _ hs => hi.step (grounded hr) (Deployment.step_cases hs)

/--
In every run: a true return was decided on a message that was not finished when
the call's first query, the terminal check, was answered.
-/
theorem true_return_unfinished (h : D.system.Reach System.Free net) :
    ∀ w, ReturnedTrue net w → ∃ win, Holds net w win ∧
      Unfinished D (net.relay.take win.checked) win.floor := by
  intro w hw
  obtain ⟨win, hholds, hwin⟩ := win_of_returnedTrue h hw
  exact ⟨win, hholds, ((finalityInv h).wins win hwin).unfinished⟩

theorem true_return_unfinished_winning :
    ∃ net : Net Peer, ReturnedTrue net .first ∧ ∀ w, ReturnedTrue net w →
      ∃ win, Holds net w win ∧
        Unfinished pair (net.relay.take win.checked) win.floor := by
  obtain ⟨net, hreach, htest⟩ :=
    (System.Reach.init (pairStart_initial 5)).of_run_check
      (S := pair.system) (P := System.Free) winningRun
      (fun net => decide (ReturnedTrue net .first)) (by decide)
  exact ⟨net, of_decide_eq_true htest, true_return_unfinished hreach⟩

end Invariant

/-! ## A late ack -/

/--
The first worker wins and its lease runs out.  The second asks for final events
and gets none; now the first acks; the second surveys, contends and wins.
-/
def lateAckRun : List (Action Peer) :=
  winningRun ++
    [.proceed .first, .advance 59700, .fetch .second 60, .proceed .second, .query .second,
      .handle .first .success, .proceed .first, .publish .first 60 (hexOf 'b'), .query .second,
      .query .second, .publish .second 60 (hexOf 'c'), .advance 400, .proceed .second,
      .query .second, .query .second, .proceed .second]

theorem late_ack_wins_finished :
    ∃ net : Net Peer, pair.system.Reach System.Free net ∧
      ReturnedTrue net .second ∧
      ∀ win, Holds net .second win →
        ¬ Unfinished pair (net.relay.take win.seen) win.floor := by
  obtain ⟨net, hreach, htest⟩ :=
    (System.Reach.init (pairStart_initial 5)).of_run_check
      (S := pair.system) (P := System.Free) lateAckRun
      (fun net => decide (ReturnedTrue net .second) &&
        (net.nodes .second).history.held.all fun win =>
          !decide (Unfinished pair (net.relay.take win.seen) win.floor))
      (by decide)
  simp only [Bool.and_eq_true, decide_eq_true_eq] at htest
  refine ⟨net, hreach, htest.1, fun win hholds => ?_⟩
  have := htest.2
  rw [hholds.held] at this
  simpa using this

end NostrQ.Cluster
