import NostrQ.Cluster.Net

/-!
# What holds in every run

Whatever the workers do, fail to do or lose: each job is about the message, the
stored rows keep naming its event, and the relay's history is ordered in time.
-/

namespace NostrQ.Cluster

open NostrQ.Foundation NostrQ.Core NostrQ.Database NostrQ.Sdk NostrQ.Worker

variable {W : Type}

/-! ## Who acts and what others see of it -/

def Action.actor : Action W → Option W
  | .advance _ => none
  | .other _ => none
  | .fetch w _ => some w
  | .proceed w => some w
  | .query w => some w
  | .publish w _ _ => some w
  | .handle w _ => some w
  | .fail w => some w
  | .lose w _ _ => some w
  | .drop w => some w
  | .sweep w _ => some w
  | .retry w => some w

/-- The event that a job in this phase sends. -/
inductive Outgoing (D : Deployment W) (w : W) (job : Job) : Event → Prop where
  | claim {call : ClaimCall} {observed : U32} {createdAt : U64}
      {id : EventId} :
      job.phase = .claiming (.during call (.contending observed)) →
      Outgoing D w job
        ((buildClaimEvent D.hashtag call.messageRef call.leaseExpiresAt
          (call.claimAttempt observed)).sign (D.key w) createdAt id)
  | ack {call : SettleCall} {createdAt : U64} {id : EventId} :
      job.phase = .settling (.during call .ackPublishing) →
      Outgoing D w job
        ((buildAckEvent D.hashtag call.ref).sign (D.key w) createdAt id)
  | nack {call : SettleCall} {reason : String} {config : QueueConfig}
      {attempts : U32} {createdAt : U64} {id : EventId} :
      job.phase =
        .settling (.during call (.nackPublishing reason config attempts)) →
      Outgoing D w job
        ((buildNackEvent D.hashtag call.ref attempts reason).sign (D.key w)
          createdAt id)
  | dlq {call : SettleCall} {reason : String} {attempts : U32}
      {createdAt : U64} {id : EventId} :
      job.phase = .settling (.during call (.dlqPublishing reason attempts)) →
      Outgoing D w job
        ((buildDlqEvent D.hashtag call.ref attempts reason).sign (D.key w)
          createdAt id)

private theorem outgoing_settle {D : Deployment W} {w : W} {job : Job}
    {phase : SettlePhase} {draft : Draft} (createdAt : U64) (id : EventId)
    (hphase : job.phase = .settling phase)
    (hdraft : phase.publish? D.hashtag = some draft) :
    Outgoing D w job (draft.sign (D.key w) createdAt id) := by
  unfold SettlePhase.publish? at hdraft
  split at hdraft <;> cases hdraft
  · exact .ack hphase
  · exact .nack hphase
  · exact .dlq hphase

theorem Deployment.Publishes.outgoing {D : Deployment W} {w : W}
    {createdAt : U64} {id : EventId} {time : Nat} {job : Job} {event : Event}
    {phase : JobPhase} (h : D.Publishes w createdAt id time job event phase) :
    Outgoing D w job event := by
  cases h with
  | claim hphase => exact .claim hphase
  | settle hphase hdraft _ => exact outgoing_settle _ _ hphase hdraft

theorem Deployment.Loses.outgoing {D : Deployment W} {w : W}
    {createdAt : U64} {id : EventId} {job : Job} {event : Event}
    {phase : JobPhase} (h : D.Loses w createdAt id job event phase) :
    Outgoing D w job event := by
  cases h with
  | claim hphase => exact .claim hphase
  | settle hphase hdraft => exact outgoing_settle _ _ hphase hdraft

theorem Outgoing.pubkey {D : Deployment W} {w : W} {job : Job} {event : Event}
    (h : Outgoing D w job event) : event.pubkey = D.key w := by
  cases h <;> rfl

section Frame

variable [DecidableEq W] {D : Deployment W} {net net' : Net W}

@[simp] theorem Net.setNode_nodes (w : W) (node : Node W) (w' : W) :
    (net.setNode w node).nodes w' = if w' = w then node else net.nodes w' := by
  simp [Net.setNode, Function.update_apply]

theorem Net.setNode_self (w : W) (node : Node W) :
    (net.setNode w node).nodes w = node := by
  simp

@[simp] theorem Net.setNode_time (w : W) (node : Node W) :
    (net.setNode w node).time = net.time := rfl

@[simp] theorem Net.setNode_relay (w : W) (node : Node W) :
    (net.setNode w node).relay = net.relay := rfl

@[simp] theorem Net.setNode_unsettled (w : W) (node : Node W) :
    (net.setNode w node).unsettled = net.unsettled := rfl

@[simp] theorem Net.setNode_wins (w : W) (node : Node W) :
    (net.setNode w node).wins = net.wins := rfl

section Published

variable (w : W) (event : Event) (job : Job) (store : Store) (next : Job)

@[simp] theorem Net.published_time :
    (net.published w event job store next).time = net.time := by
  unfold Net.published
  dsimp only
  split <;> rfl

@[simp] theorem Net.published_relay :
    (net.published w event job store next).relay =
      net.relay ++ [⟨net.time, event⟩] := by
  unfold Net.published
  dsimp only
  split <;> rfl

@[simp] theorem Net.published_wins :
    (net.published w event job store next).wins = net.wins := by
  unfold Net.published
  dsimp only
  split <;> rfl

theorem Net.published_unsettled :
    (net.published w event job store next).unsettled =
      if settling job then
        net.unsettled.filter fun win => win.worker ≠ w
      else net.unsettled := by
  unfold Net.published
  dsimp only
  split <;> rfl

theorem Net.published_other {w' : W} (h : w' ≠ w) :
    (net.published w event job store next).nodes w' = net.nodes w' := by
  unfold Net.published
  dsimp only
  split <;> simp [h, Net.accept, Net.settleWins]

theorem Net.published_self :
    (net.published w event job store next).nodes w =
      ⟨store, some next, if settling job then
        { (net.nodes w).history with held := none }
        else (net.nodes w).history⟩ := by
  unfold Net.published
  dsimp only
  split <;> simp [*]

end Published

section Answered

variable (w : W) (events : List Event) (job : Job) (store : Store)
  (next : Job)

@[simp] theorem Deployment.answered_time :
    (D.answered net w events job store next).time = net.time := by
  unfold Deployment.answered
  dsimp only
  split <;> rfl

@[simp] theorem Deployment.answered_relay :
    (D.answered net w events job store next).relay = net.relay := by
  unfold Deployment.answered
  dsimp only
  split <;> rfl

theorem Deployment.answered_other {w' : W} (h : w' ≠ w) :
    (D.answered net w events job store next).nodes w' = net.nodes w' := by
  unfold Deployment.answered
  dsimp only
  split <;> simp [h, Net.addWin]

/-- The win a query brings, if it decides the call. -/
def Deployment.newWin? (D : Deployment W) (net : Net W) (w : W)
    (events : List Event) (job next : Job) : Option (Win W) :=
  (elected? (D.key w) events job).map fun claim =>
    net.winOf w job ((net.nodes w).history.afterQuery net.time
      net.relay.length job next) claim

omit [DecidableEq W] in
theorem Deployment.newWin?_cases {w : W} {events : List Event}
    {job next : Job} {win : Win W}
    (h : D.newWin? net w events job next = some win) :
    ∃ call claim, win = net.winOf w job ((net.nodes w).history.afterQuery
        net.time net.relay.length job next) claim ∧
      claim.claimer = D.key w ∧
      ((∃ observed,
          job.phase = .claiming (.during call (.surveyClaims observed)) ∧
          claimWinner (parseClaims events) observed call.now = some claim) ∨
        ∃ observed claims,
          job.phase = .claiming (.during call (.recheckNacks observed claims)) ∧
          claimWinner claims (max observed (maxAttempt events)) call.now =
            some claim) := by
  obtain ⟨claim, helected, rfl⟩ := Option.map_eq_some_iff.mp h
  unfold elected? at helected
  split at helected
  · next phase hphase =>
      unfold ClaimPhase.elected? at helected
      split at helected
      · next call observed =>
          obtain ⟨hwinner, howner⟩ := Option.filter_eq_some_iff.mp helected
          exact ⟨call, claim, rfl, of_decide_eq_true howner,
            Or.inl ⟨observed, hphase, hwinner⟩⟩
      · next call observed claims =>
          obtain ⟨hwinner, howner⟩ := Option.filter_eq_some_iff.mp helected
          exact ⟨call, claim, rfl, of_decide_eq_true howner,
            Or.inr ⟨observed, claims, hphase, hwinner⟩⟩
      · contradiction
  · contradiction

theorem Deployment.answered_unsettled :
    (D.answered net w events job store next).unsettled =
      net.unsettled ++ (D.newWin? net w events job next).toList := by
  unfold Deployment.answered Deployment.newWin?
  dsimp only
  split <;> simp [*, Net.addWin]

theorem Deployment.answered_wins :
    (D.answered net w events job store next).wins =
      net.wins ++ (D.newWin? net w events job next).toList := by
  unfold Deployment.answered Deployment.newWin?
  dsimp only
  split <;> simp [*, Net.addWin]

def Deployment.newHistory (D : Deployment W) (net : Net W) (w : W)
    (events : List Event) (job next : Job) : History W :=
  let history :=
    (net.nodes w).history.afterQuery net.time net.relay.length job next
  match D.newWin? net w events job next with
  | none => history
  | some win => { history with held := some win }

omit [DecidableEq W] in
private theorem newHistory_cases (h : History W → Prop)
    (hold : h ((net.nodes w).history.afterQuery net.time net.relay.length job
      next))
    (hnew : ∀ win, h { (net.nodes w).history.afterQuery net.time
      net.relay.length job next with held := some win }) :
    h (D.newHistory net w events job next) := by
  unfold Deployment.newHistory
  dsimp only
  split
  · exact hold
  · exact hnew _

omit [DecidableEq W] in
@[simp] theorem Deployment.newHistory_claimsAt :
    (D.newHistory net w events job next).claimsAt =
      ((net.nodes w).history.afterQuery net.time net.relay.length job
        next).claimsAt :=
  newHistory_cases w events job next (fun h => h.claimsAt = _) rfl
    fun _ => rfl

omit [DecidableEq W] in
@[simp] theorem Deployment.newHistory_checking :
    (D.newHistory net w events job next).checking =
      ((net.nodes w).history.afterQuery net.time net.relay.length job
        next).checking :=
  newHistory_cases w events job next (fun h => h.checking = _) rfl
    fun _ => rfl

omit [DecidableEq W] in
theorem Deployment.newHistory_held {win : Win W}
    (h : D.newWin? net w events job next = some win) :
    (D.newHistory net w events job next).held = some win := by
  simp [Deployment.newHistory, h]

theorem Deployment.answered_self :
    (D.answered net w events job store next).nodes w =
      ⟨store, some next, D.newHistory net w events job next⟩ := by
  unfold Deployment.answered Deployment.newHistory Deployment.newWin?
  dsimp only
  split <;> simp [*, Net.addWin]

end Answered

/-- A step as seen by a worker that does not take it. -/
structure Frame (D : Deployment W) (net net' : Net W) (w : W) : Prop where
  node : net'.nodes w = net.nodes w
  time : net.time ≤ net'.time
  relay : ∃ more, net'.relay = net.relay ++ more ∧
    ∀ accepted ∈ more, accepted.acceptedAt = net.time ∧
      (Unrelated D.message accepted.event ∨ accepted.event.pubkey ≠ D.key w)
  unsettled : ∀ win ∈ net.unsettled, win.worker = w → win ∈ net'.unsettled

theorem Deployment.Step.frame {a : Action W} (h : D.Step net a net') {w : W}
    (hw : a.actor ≠ some w) : Frame D net net' w := by
  have quiet : ∀ {store : Store} {job : Option Job} {history : History W}
      {v : W}, v ≠ w → Frame D net (net.setNode v ⟨store, job, history⟩) w :=
    fun hv =>
      { node := by simp [hv.symm]
        time := le_rfl
        relay := ⟨[], by simp⟩
        unsettled := fun win hwin _ => hwin }
  have sent : ∀ {event : Event} {job next : Job} {store : Store} {v : W},
      v ≠ w → Outgoing D v job event →
      Frame D net (net.published v event job store next) w :=
    fun {event job next store v} hv hout =>
      { node := Net.published_other _ _ _ _ _ hv.symm
        time := by simp
        relay := ⟨[⟨net.time, event⟩], by simp, by
          intro accepted haccepted
          rw [List.mem_singleton.mp haccepted]
          exact ⟨rfl, Or.inr fun heq =>
            hv (D.distinct (hout.pubkey ▸ heq))⟩⟩
        unsettled := fun win hwin hworker => by
          rw [Net.published_unsettled]
          split
          · exact List.mem_filter.mpr ⟨hwin, by simpa [hworker] using hv.symm⟩
          · exact hwin }
  cases h with
  | advance =>
      exact ⟨rfl, Nat.le_add_right _ _, ⟨[], by simp⟩, fun _ hwin _ => hwin⟩
  | @other event hunrelated _ =>
      exact ⟨rfl, le_rfl, ⟨[⟨net.time, event⟩], rfl, fun accepted h => by
        rw [List.mem_singleton.mp h]
        exact ⟨rfl, Or.inl hunrelated⟩⟩, fun _ hwin _ => hwin⟩
  | fetch => exact quiet fun h => hw (congrArg some h)
  | proceed => exact quiet fun h => hw (congrArg some h)
  | @query v job phase after filter =>
      have hv : v ≠ w := fun h => hw (congrArg some h)
      exact
        { node := D.answered_other _ _ _ _ _ hv.symm
          time := by simp
          relay := ⟨[], by simp⟩
          unsettled := fun win hwin _ => by
            rw [D.answered_unsettled]
            exact List.mem_append_left _ hwin }
  | publish _ hpub _ =>
      exact sent (fun h => hw (congrArg some h)) hpub.outgoing
  | handle => exact quiet fun h => hw (congrArg some h)
  | failClaim => exact quiet fun h => hw (congrArg some h)
  | failSettle => exact quiet fun h => hw (congrArg some h)
  | lose _ hlose _ =>
      exact sent (fun h => hw (congrArg some h)) hlose.outgoing
  | drop => exact quiet fun h => hw (congrArg some h)
  | sweep => exact quiet fun h => hw (congrArg some h)
  | retry => exact quiet fun h => hw (congrArg some h)

end Frame

/-! ## Jobs are about the message -/

section Concerns

variable (D : Deployment W)

def ClaimConcerns (record : MessageRecord) : ClaimPhase → Prop
  | .entering entered _ settleMs =>
      entered = record ∧ Hex32.fromHex record.eventId = some D.message ∧
        settleMs = D.settleMs
  | .during call _ =>
      call.record = record ∧ call.message = D.message ∧
        call.settleMs = D.settleMs ∧ InI64 call.leaseExpiresAt
  | .expiring _ _ => True
  | .returned _ => True

def SettleConcerns : SettlePhase → Prop
  | .acking mid => mid = D.mid
  | .nacking mid _ => mid = D.mid
  | .during call _ => call.message = D.message ∧ call.record.mid = D.mid
  | .settled _ => True

def PhaseConcerns (record : MessageRecord) : JobPhase → Prop
  | .claiming phase => ClaimConcerns D record phase
  | .settling phase => SettleConcerns D phase
  | .handling _ _ => True
  | .finished => True

structure JobConcerns (job : Job) : Prop where
  mid : job.record.mid = D.mid
  phase : PhaseConcerns D job.record job.phase

def RowNamed (s : Store) : Prop :=
  ∀ row, s.row? D.mid = some row →
    Hex32.fromHex row.eventId = some D.message

variable {D}

theorem RowNamed.rewrites {s s' : Store} (h : RowNamed D s)
    (hs : s.Rewrites s') : RowNamed D s' := by
  intro row' hrow'
  obtain ⟨row, progress, hrow, rfl⟩ := hs.row hrow'
  exact h row hrow

theorem ClaimConcerns.proceeds {record : MessageRecord} {key : PublicKey}
    {s s' : Store} {time : Nat} {phase next : ClaimPhase}
    (h : ClaimConcerns D record phase)
    (hp : ClaimPhase.Proceeds key s time phase s' next) :
    ClaimConcerns D record next := by
  cases hp with
  | enter =>
      obtain ⟨rfl, hhex, rfl⟩ := h
      unfold ClaimPhase.enter
      split
      · trivial
      · rw [hhex]
        exact ⟨rfl, rfl, rfl, inI64_toI64 _⟩
  | expire => trivial
  | wake _ => exact h
  | finish _ => trivial

theorem ClaimConcerns.answers {record : MessageRecord} {key : PublicKey}
    {events : List Event} {phase next : ClaimPhase}
    (h : ClaimConcerns D record phase)
    (ha : ClaimPhase.Answers key events phase next) :
    ClaimConcerns D record next := by
  obtain ⟨call, stage, rfl, rfl | ⟨stage', rfl, -⟩⟩ := ha.next_cases
  · trivial
  · exact h

private theorem SettleConcerns.start {s : Store} (h : RowNamed D s)
    (stage : SettleStage) :
    SettleConcerns D (SettlePhase.start s D.mid stage) := by
  unfold SettlePhase.start
  split
  · trivial
  · next call hcall =>
      obtain ⟨row, hrow, hshows, hhex⟩ := messageRef_ok hcall
      refine ⟨?_, hshows.mid.trans (Messages.row?_mem hrow).2⟩
      exact Option.some.inj (hhex.symm.trans (h row hrow))

theorem SettleConcerns.proceeds {s s' : Store} {time : Nat}
    {phase next : SettlePhase} (h : SettleConcerns D phase)
    (hrow : RowNamed D s) (hp : SettlePhase.Proceeds s time phase s' next) :
    SettleConcerns D next := by
  cases hp with
  | ack =>
      cases h
      exact .start hrow _
  | nack =>
      cases h
      exact .start hrow _
  | configure => exact h
  | count =>
      unfold SettlePhase.count
      split
      · exact h
      · trivial
  | finish _ => trivial

theorem SettleConcerns.accepts {phase next : SettlePhase}
    (h : SettleConcerns D phase) (ha : SettlePhase.Accepts phase next) :
    SettleConcerns D next := by
  cases ha with
  | ack => exact h
  | nack =>
      unfold SettleCall.afterNack
      split <;> exact h
  | dlq => exact h

theorem JobConcerns.settle {job : Job} (h : JobConcerns D job)
    (outcome : HandlerOutcome) :
    SettleConcerns D (Job.settle job.record outcome) := by
  cases outcome <;> exact h.mid

theorem JobConcerns.proceeds {key : PublicKey} {s s' : Store} {time : Nat}
    {job : Job} {next : JobPhase} (h : JobConcerns D job)
    (hrow : RowNamed D s)
    (hp : Job.Proceeds key s time job job.phase s' next) :
    JobConcerns D { job with phase := next } := by
  have hphase := h.phase
  refine ⟨h.mid, ?_⟩
  generalize job.phase = phase at hp hphase
  cases hp with
  | claimed =>
      unfold Job.afterClaim
      split <;> trivial
  | claim hp => exact ClaimConcerns.proceeds hphase hp
  | timeout _ =>
      exact h.settle (.failure (Job.timeoutReason job.leaseSeconds))
  | settled => trivial
  | settle hp => exact SettleConcerns.proceeds hphase hrow hp

theorem JobConcerns.publishes {w : W} {createdAt : U64} {id : EventId}
    {time : Nat} {job : Job} {event : Event} {next : JobPhase}
    (h : JobConcerns D job)
    (hp : D.Publishes w createdAt id time job event next) :
    JobConcerns D { job with phase := next } := by
  have hphase := h.phase
  refine ⟨h.mid, ?_⟩
  cases hp with
  | claim hjob =>
      rw [hjob] at hphase
      exact hphase
  | settle hjob _ haccepts =>
      rw [hjob] at hphase
      exact SettleConcerns.accepts hphase haccepts

end Concerns

/-! ## The invariant -/

section Grounded

variable {D : Deployment W} {net net' : Net W}

structure Grounded (D : Deployment W) (net : Net W) : Prop where
  rows : ∀ w, RowNamed D (net.nodes w).store
  jobs : ∀ w job, (net.nodes w).job = some job → JobConcerns D job
  past : ∀ accepted ∈ net.relay, accepted.acceptedAt ≤ net.time
  sorted : net.relay.Pairwise fun x y => x.acceptedAt ≤ y.acceptedAt
  ids : ∀ x ∈ net.relay, ∀ y ∈ net.relay,
    x.event.id = y.event.id → x.event = y.event

structure NodeGrounded (D : Deployment W) (node : Node W) : Prop where
  row : RowNamed D node.store
  job : ∀ job, node.job = some job → JobConcerns D job

theorem Grounded.node (h : Grounded D net) (w : W) :
    NodeGrounded D (net.nodes w) :=
  ⟨h.rows w, h.jobs w⟩

private theorem NodeGrounded.withJob {store : Store} {history : History W}
    {job : Job} (hrow : RowNamed D store) (hjob : JobConcerns D job) :
    NodeGrounded D ⟨store, some job, history⟩ :=
  ⟨hrow, fun _ heq => Option.some.inj heq ▸ hjob⟩

theorem Deployment.Initial.grounded (h : D.Initial net) : Grounded D net where
  rows := h.eventId
  jobs w job hjob := by simp [h.idle w] at hjob
  past := by simp [h.relay]
  sorted := by simp [h.relay]
  ids := by simp [h.relay]

variable [DecidableEq W]

theorem Deployment.Step.grounded_node {a : Action W} {w : W}
    (h : D.Step net a net') (ha : a.actor = some w)
    (hg : NodeGrounded D (net.nodes w)) : NodeGrounded D (net'.nodes w) := by
  cases h with
  | advance => contradiction
  | other => contradiction
  | fetch _ hget =>
      cases ha
      obtain ⟨row, hrow, hshows⟩ := Store.getMessage_shows hget
      have hmid := hshows.mid.trans (Messages.row?_mem hrow).2
      have hhex := hg.row row hrow
      rw [← hshows.eventId] at hhex
      rw [Net.setNode_self]
      exact .withJob hg.row ⟨hmid, rfl, hhex, rfl⟩
  | proceed hjob hp =>
      cases ha
      rw [Net.setNode_self]
      exact .withJob (hg.row.rewrites hp.rewrites)
        ((hg.job _ hjob).proceeds hg.row hp)
  | query hjob hphase _ hanswers =>
      cases ha
      have hc := hg.job _ hjob
      have hclaim := hc.phase
      rw [hphase] at hclaim
      rw [D.answered_self]
      exact .withJob hg.row ⟨hc.mid, ClaimConcerns.answers hclaim hanswers⟩
  | publish hjob hpub _ =>
      cases ha
      rw [Net.published_self]
      exact .withJob hg.row ((hg.job _ hjob).publishes hpub)
  | handle hjob _ =>
      cases ha
      rw [Net.setNode_self]
      exact .withJob hg.row ⟨(hg.job _ hjob).mid, (hg.job _ hjob).settle _⟩
  | failClaim hjob _ _ =>
      cases ha
      rw [Net.setNode_self]
      exact .withJob hg.row ⟨(hg.job _ hjob).mid, trivial⟩
  | failSettle hjob _ =>
      cases ha
      rw [Net.setNode_self]
      exact .withJob hg.row ⟨(hg.job _ hjob).mid, trivial⟩
  | lose hjob hlose _ =>
      cases ha
      rw [Net.published_self]
      refine .withJob hg.row ⟨(hg.job _ hjob).mid, ?_⟩
      cases hlose <;> trivial
  | drop =>
      cases ha
      rw [Net.setNode_self]
      exact ⟨hg.row, by simp⟩
  | sweep =>
      cases ha
      rw [Net.setNode_self]
      exact ⟨hg.row.rewrites (Store.expireDue_rewrites _ _), hg.job⟩
  | retry _ _ =>
      cases ha
      rw [Net.setNode_self]
      exact ⟨hg.row.rewrites Store.dlqRetry_moves.rewrites, hg.job⟩

theorem Deployment.Step.relay {a : Action W} (h : D.Step net a net') :
    net.time ≤ net'.time ∧
      (net'.relay = net.relay ∨
        ∃ event, net'.relay = net.relay ++ [⟨net.time, event⟩] ∧
          NoCollision net.relay event ∧
          (Unrelated D.message event ∨ ∃ w job, a.actor = some w ∧
            (net.nodes w).job = some job ∧ Outgoing D w job event)) := by
  cases h with
  | advance => exact ⟨Nat.le_add_right _ _, Or.inl rfl⟩
  | other hunrelated hfresh =>
      exact ⟨le_rfl, Or.inr ⟨_, rfl, hfresh, Or.inl hunrelated⟩⟩
  | query => exact ⟨by simp, Or.inl (by simp)⟩
  | publish hjob hpub hfresh =>
      exact ⟨by simp, Or.inr ⟨_, by simp, hfresh,
        Or.inr ⟨_, _, rfl, hjob, hpub.outgoing⟩⟩⟩
  | lose hjob hlose hfresh =>
      exact ⟨by simp, Or.inr ⟨_, by simp, hfresh,
        Or.inr ⟨_, _, rfl, hjob, hlose.outgoing⟩⟩⟩
  | fetch | proceed | handle | failClaim | failSettle | drop | sweep
  | retry => exact ⟨le_rfl, Or.inl rfl⟩

theorem Grounded.step {a : Action W} (hg : Grounded D net)
    (h : D.Step net a net') : Grounded D net' := by
  have hnodes : ∀ w, NodeGrounded D (net'.nodes w) := by
    intro w
    by_cases ha : a.actor = some w
    · exact h.grounded_node ha (hg.node w)
    · rw [(h.frame ha).node]
      exact hg.node w
  obtain ⟨htime, hsame | ⟨event, hrelay, hfresh, -⟩⟩ := h.relay
  · exact {
      rows := fun w => (hnodes w).row
      jobs := fun w => (hnodes w).job
      past := by
        rw [hsame]
        exact fun x hx => (hg.past x hx).trans htime
      sorted := hsame ▸ hg.sorted
      ids := hsame ▸ hg.ids }
  · refine ⟨fun w => (hnodes w).row, fun w => (hnodes w).job, ?_, ?_, ?_⟩ <;>
      rw [hrelay]
    · intro x hx
      rcases List.mem_append.mp hx with hx | hx
      · exact (hg.past x hx).trans htime
      · rw [List.mem_singleton.mp hx]
        exact htime
    · rw [List.pairwise_append]
      refine ⟨hg.sorted, List.pairwise_singleton _ _, fun x hx y hy => ?_⟩
      rw [List.mem_singleton.mp hy]
      exact hg.past x hx
    · intro x hx y hy hid
      rcases List.mem_append.mp hx with hx | hx <;>
        rcases List.mem_append.mp hy with hy | hy
      · exact hg.ids x hx y hy hid
      · rw [List.mem_singleton.mp hy] at hid ⊢
        exact hfresh x hx hid
      · rw [List.mem_singleton.mp hx] at hid ⊢
        exact (hfresh y hy hid.symm).symm
      · rw [List.mem_singleton.mp hx, List.mem_singleton.mp hy]

theorem grounded {P : Net W → Action W → Prop}
    (h : D.system.Reach P net) : Grounded D net :=
  h.invariant (fun _ h₀ => Deployment.Initial.grounded h₀)
    fun _ _ _ _ hg _ hs => hg.step (Deployment.step_cases hs)

/-! ### The board of a grounded relay -/

omit [DecidableEq W] in
abbrev Deployment.board (D : Deployment W) (net : Net W) :
    Board ClaimInfo PublicKey :=
  Cluster.board D.message net.relay

@[simp] theorem Deployment.answered_board (w : W) (events : List Event)
    (job : Job) (store : Store) (next : Job) :
    D.board (D.answered net w events job store next) = D.board net := by
  simp [Deployment.board]

omit [DecidableEq W] in
theorem Grounded.board_past (h : Grounded D net) :
    ∀ entry ∈ D.board net, entry.time ≤ net.time := by
  intro entry hentry
  obtain ⟨accepted, hmem, htime, -⟩ := mem_board.mp hentry
  exact htime ▸ h.past accepted hmem

omit [DecidableEq W] in
theorem Grounded.board_sorted (h : Grounded D net) :
    (D.board net).Pairwise fun x y => x.time ≤ y.time := by
  refine h.sorted.filterMap (stampedPost? D.message) ?_
  intro x y hxy entry hentry entry' hentry'
  obtain ⟨_, -, rfl⟩ := Option.map_eq_some_iff.mp hentry
  obtain ⟨_, -, rfl⟩ := Option.map_eq_some_iff.mp hentry'
  exact hxy

omit [DecidableEq W] in
/-- Claims of equal rank have the same event id, hence the same claimer. -/
theorem Grounded.owner_of_rank (h : Grounded D net) {c c' : ClaimInfo}
    (hc : c ∈ Board.claims (D.board net))
    (hc' : c' ∈ Board.claims (D.board net))
    (hrank : claimElection.rank c = claimElection.rank c') :
    claimElection.owner c = claimElection.owner c' := by
  rw [claims_board] at hc hc'
  obtain ⟨event, hevent, hparse⟩ := mem_parseClaims.mp hc
  obtain ⟨event', hevent', hparse'⟩ := mem_parseClaims.mp hc'
  obtain ⟨-, x, hx, rfl⟩ := Relay.mem_query.mp hevent
  obtain ⟨-, y, hy, rfl⟩ := Relay.mem_query.mp hevent'
  obtain ⟨hkey, hid, -⟩ := parseClaimEvent_ok hparse
  obtain ⟨hkey', hid', -⟩ := parseClaimEvent_ok hparse'
  have hsame : x.event.id = y.event.id := by
    rw [← hid, ← hid']
    exact Hex32.ext_toHex (congrArg (fun r => (ofLex r).2) hrank)
  exact hkey.trans ((congrArg Event.pubkey (h.ids x hx y hy hsame)).trans
    hkey'.symm)

omit [DecidableEq W] in
theorem Frame.board {w : W} (h : Frame D net net' w) :
    ∃ more, D.board net' = D.board net ++ more ∧
      ∀ entry ∈ more, entry.time = net.time ∧
        claimElection.author entry.post ≠ D.key w := by
  obtain ⟨more, hrelay, hmore⟩ := h.relay
  refine ⟨Cluster.board D.message more, ?_, ?_⟩
  · rw [Deployment.board, hrelay, board_append]
  · intro entry hentry
    obtain ⟨accepted, hmem, htime, hpost⟩ := mem_board.mp hentry
    obtain ⟨hat, hunrelated | hne⟩ := hmore accepted hmem
    · rw [post?_unrelated hunrelated] at hpost
      contradiction
    · exact ⟨htime ▸ hat, post?_author hpost ▸ hne⟩

end Grounded

end NostrQ.Cluster
