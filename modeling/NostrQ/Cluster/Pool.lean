import NostrQ.Cluster.MutualExclusion
import NostrQ.Cluster.Winner
import NostrQ.Foundation.Quorum
import NostrQ.Foundation.Simulation

/-!
# Workers on a pool of relays

Each worker's client talks to several relays.  A publish succeeds if any relay
accepts the event, and a query merges what the relays that answer hold, in an
order of the client's own.  Where what is accepted and what is asked are quorums
that meet, such a pool is simulated by one relay that keeps every event.
-/

namespace NostrQ.Cluster

open NostrQ.Foundation NostrQ.Core NostrQ.Database NostrQ.Sdk NostrQ.Worker

variable {W R : Type}

/-- No two of the events share an id. -/
def Distinct (events : List Event) : Prop :=
  ∀ a ∈ events, ∀ b ∈ events, a.id = b.id → a = b

/-- How a client merges the events that relays return. -/
structure Client where
  collect : List Event → List Event
  mem_collect : ∀ events, Distinct events →
    ∀ event, event ∈ collect events ↔ event ∈ events

/--
The relays hold different events.  The net's own relay is the history of what
was accepted anywhere.
-/
structure Pool (W R : Type) where
  net : Net W
  relays : Replicas R Event

/-- `accepting` are the relays that accept, `asked` those that answer. -/
inductive PoolAction (W R : Type) where
  | own (a : Action W)
  | other (event : Event) (accepting : List R)
  | query (w : W) (asked : List R)
  | publish (w : W) (createdAt : U64) (id : EventId) (accepting : List R)
  | lose (w : W) (createdAt : U64) (id : EventId) (accepting : List R)

def Action.isOwn : Action W → Bool
  | .other _ | .query _ | .publish _ _ _ | .lose _ _ _ => false
  | _ => true

def PoolAction.toNet : PoolAction W R → Action W
  | .own a => a
  | .other event _ => .other event
  | .query w _ => .query w
  | .publish w createdAt id accepting =>
      if accepting = [] then .fail w else .publish w createdAt id
  | .lose w createdAt id accepting =>
      if accepting = [] then .fail w else .lose w createdAt id

namespace Deployment

variable [DecidableEq W] [DecidableEq R] (D : Deployment W) (client : Client)

/-- The merged answer of the relays that were asked. -/
def fetchEvents (relays : Replicas R Event) (asked : List R)
    (filter : Filter) : List Event :=
  client.collect ((relays.read asked).filter filter.matchEvent)

def poolQuery (p : Pool W R) (w : W) (asked : List R) : Option (Pool W R) :=
  ((p.net.nodes w).job.bind Job.query?).bind fun filter =>
    let events := fetchEvents client p.relays asked filter
    (D.resume p.net w (.io (.answer events))).map fun (job, store, next) =>
      { p with net := D.answered p.net w events job store next }

def poolSend (p : Pool W R) (w : W) (a : Action W) (event : Event)
    (accepting : List R) : Option (Pool W R) :=
  if accepting = [] then
    (D.step p.net (.fail w)).map fun net => { p with net := net }
  else
    (D.step p.net a).map fun net =>
      { net := net, relays := p.relays.write accepting event }

def poolStep (p : Pool W R) : PoolAction W R → Option (Pool W R)
  | .own a =>
      if a.isOwn then (D.step p.net a).map fun net => { p with net := net }
      else none
  | .other event accepting =>
      if accepting = [] then none
      else
        (D.step p.net (.other event)).map fun net =>
          { net := net, relays := p.relays.write accepting event }
  | .query w asked => D.poolQuery client p w asked
  | .publish w createdAt id accepting =>
      (D.outgoing p.net w createdAt id).bind fun event =>
        D.poolSend p w (.publish w createdAt id) event accepting
  | .lose w createdAt id accepting =>
      (D.outgoing p.net w createdAt id).bind fun event =>
        D.poolSend p w (.lose w createdAt id) event accepting

def poolSystem : System (Pool W R) (PoolAction W R) where
  init p := D.Initial p.net ∧ p.relays = Replicas.empty
  step := D.poolStep client

end Deployment

/-- What is accepted at all is accepted by a write quorum; a query asks a read
quorum. -/
def Quorate [DecidableEq R] (Q : Quorums R) : PoolAction W R → Prop
  | .own _ => True
  | .other _ accepting => Q.writes accepting.toFinset
  | .query _ asked => Q.reads asked.toFinset
  | .publish _ _ _ accepting => accepting = [] ∨ Q.writes accepting.toFinset
  | .lose _ _ _ accepting => accepting = [] ∨ Q.writes accepting.toFinset

instance [DecidableEq R] (Q : Quorums R) [DecidablePred Q.writes]
    [DecidablePred Q.reads] (a : PoolAction W R) : Decidable (Quorate Q a) :=
  match a with
  | .own _ => instDecidableTrue
  | .other _ _ => inferInstanceAs (Decidable (Q.writes _))
  | .query _ _ => inferInstanceAs (Decidable (Q.reads _))
  | .publish _ _ _ _ | .lose _ _ _ _ =>
      inferInstanceAs (Decidable (_ ∨ Q.writes _))

/-! ## Jobs that agree up to the order of fetched claims -/

inductive JobAlike : Job → Job → Prop where
  | refl (job : Job) : JobAlike job job
  | recheck {record : MessageRecord} {leaseSeconds : U64} {call : ClaimCall}
      {observed : U32} {claims claims' : List ClaimInfo} :
      Identified claims → (∀ c, c ∈ claims ↔ c ∈ claims') →
      JobAlike
        ⟨record, leaseSeconds,
          .claiming (.during call (.recheckNacks observed claims))⟩
        ⟨record, leaseSeconds,
          .claiming (.during call (.recheckNacks observed claims'))⟩

section Answers

variable {events events' : List Event} {key : PublicKey}

theorem maxAttempt_congr (hsame : ∀ e, e ∈ events ↔ e ∈ events') :
    maxAttempt events = maxAttempt events' := by
  refine le_antisymm ?_ ?_ <;> refine maxAttempt_le.mpr fun e he => ?_
  · exact le_maxAttempt ((hsame e).mp he)
  · exact le_maxAttempt ((hsame e).mpr he)

theorem mem_parseClaims_congr (hsame : ∀ e, e ∈ events ↔ e ∈ events')
    (c : ClaimInfo) : c ∈ parseClaims events ↔ c ∈ parseClaims events' := by
  simp only [mem_parseClaims, hsame]

theorem claimWinner_congr {claims claims' : List ClaimInfo}
    (hid : Identified claims) (hsame : ∀ c, c ∈ claims ↔ c ∈ claims')
    (minAttempt : U32) (now : Int) :
    claimWinner claims minAttempt now = claimWinner claims' minAttempt now := by
  simp only [claimWinner_eq, Election.winner_congr hid.rank_inj hsame]

theorem Distinct.identified (h : Distinct events) :
    Identified (parseClaims events) :=
  identified_parseClaims h

theorem afterTerminal_congr (hsame : ∀ e, e ∈ events ↔ e ∈ events')
    (call : ClaimCall) : call.afterTerminal events = call.afterTerminal events' := by
  have hack : (events.any fun e => e.kind = KIND_ACK) =
      events'.any fun e => e.kind = KIND_ACK := by
    rw [Bool.eq_iff_iff, List.any_eq_true, List.any_eq_true]
    simp only [hsame]
  have hdlq : ClaimCall.dlqAttempt events = ClaimCall.dlqAttempt events' :=
    maxAttempt_congr fun e => by simp [hsame]
  simp only [ClaimCall.afterTerminal, hack, hdlq]

theorem afterSurvey_congr (hid : Distinct events)
    (hsame : ∀ e, e ∈ events ↔ e ∈ events') (call : ClaimCall)
    (observed : U32) :
    call.afterSurvey key observed (parseClaims events) =
      call.afterSurvey key observed (parseClaims events') := by
  simp only [ClaimCall.afterSurvey, claimWinner_congr hid.identified
    (mem_parseClaims_congr hsame)]

theorem afterRecheck_congr {claims claims' : List ClaimInfo}
    (hid : Identified claims) (hclaims : ∀ c, c ∈ claims ↔ c ∈ claims')
    (hsame : ∀ e, e ∈ events ↔ e ∈ events') (call : ClaimCall)
    (observed : U32) :
    call.afterRecheck key observed claims events =
      call.afterRecheck key observed claims' events' := by
  simp only [ClaimCall.afterRecheck, maxAttempt_congr hsame,
    claimWinner_congr hid hclaims]

end Answers

/-! ## Steps of alike jobs -/

namespace JobAlike

variable {job job' next next' : Job} {key : PublicKey} {s s' : Store}

theorem query? (h : JobAlike job job') : job.query? = job'.query? := by
  cases h <;> rfl

theorem publish? (h : JobAlike job job') (hashtag : String → String) :
    job.publish? hashtag = job'.publish? hashtag := by
  cases h <;> rfl

theorem settling (h : JobAlike job job') :
    Cluster.settling job = Cluster.settling job' := by
  cases h <;> rfl

theorem record (h : JobAlike job job') : job.record = job'.record := by
  cases h <;> rfl

theorem afterProceed (h : JobAlike job job') (history : History W) :
    history.afterProceed job = history.afterProceed job' := by
  cases h <;> rfl

theorem afterQuery (h : JobAlike job job') (hnext : JobAlike next next')
    (history : History W) (time seen : Nat) :
    history.afterQuery time seen job next =
      history.afterQuery time seen job' next' := by
  cases h with
  | recheck => rfl
  | refl =>
      cases hnext with
      | refl => rfl
      | recheck =>
          unfold History.afterQuery
          dsimp only
          split <;> simp_all

theorem step {input : JobInput} (h : JobAlike job job')
    (hinput : ∀ events, input ≠ .io (.answer events))
    (hstep : job.step key s input = some (s', next)) :
    ∃ next', job'.step key s input = some (s', next') ∧
      JobAlike next next' := by
  cases h with
  | refl => exact ⟨next, hstep, .refl next⟩
  | recheck =>
      cases input with
      | handled outcome => cases hstep
      | io input =>
          cases input with
          | proceed time => cases hstep
          | accepted time => cases hstep
          | answer events => exact absurd rfl (hinput events)
          | failed =>
              cases hstep
              exact ⟨_, rfl, .refl _⟩

private theorem step_of_answer {phase after : ClaimPhase} {events : List Event}
    (hphase : job.phase = .claiming phase)
    (h : phase.answer key events = some after) :
    job.step key s (.io (.answer events)) =
      some (s, { job with phase := .claiming after }) := by
  simp only [Job.step, Job.stepPhase, hphase, ClaimPhase.step, h,
    Option.map_some]

theorem answer {events events' : List Event} (h : JobAlike job job')
    (hid : Distinct events) (hsame : ∀ e, e ∈ events ↔ e ∈ events')
    (hstep : job.step key s (.io (.answer events)) = some (s', next)) :
    ∃ next', job'.step key s (.io (.answer events')) = some (s', next') ∧
      JobAlike next next' ∧
      elected? key events job = elected? key events' job' := by
  obtain ⟨rfl, phase, after, hphase, hafter, hanswers⟩ :=
    Job.step_answer hstep
  have hnext : next = { job with phase := .claiming after } := by
    rw [Job.step_eq hstep, hafter]
  cases h with
  | @recheck record leaseSeconds call observed claims claims' hclaims hmem =>
      cases hphase
      cases hanswers
      refine ⟨_, step_of_answer rfl rfl, ?_, ?_⟩
      · rw [hnext, afterRecheck_congr hclaims hmem hsame]
        exact .refl _
      · simp only [Cluster.elected?, ClaimPhase.elected?,
          maxAttempt_congr hsame, claimWinner_congr hclaims hmem]
  | refl =>
      have hparsed := mem_parseClaims_congr hsame
      rw [hnext]
      cases hanswers with
      | @terminal call =>
          refine ⟨_, step_of_answer hphase rfl, ?_, ?_⟩
          · rw [afterTerminal_congr hsame]
            exact .refl _
          · simp only [Cluster.elected?, hphase, ClaimPhase.elected?]
      | nacks =>
          refine ⟨_, step_of_answer hphase rfl, ?_, ?_⟩
          · rw [maxAttempt_congr hsame]
            exact .refl _
          · simp only [Cluster.elected?, hphase, ClaimPhase.elected?]
      | claims =>
          refine ⟨_, step_of_answer hphase rfl, ?_, ?_⟩
          · rw [afterSurvey_congr hid hsame]
            exact .refl _
          · simp only [Cluster.elected?, hphase, ClaimPhase.elected?,
              claimWinner_congr hid.identified hparsed]
      | recheckClaims =>
          refine ⟨_, step_of_answer hphase rfl,
            .recheck hid.identified hparsed, ?_⟩
          simp only [Cluster.elected?, hphase, ClaimPhase.elected?]
      | @recheckNacks call observed claims =>
          refine ⟨_, step_of_answer hphase rfl, ?_, ?_⟩
          · simp only [ClaimCall.afterRecheck, maxAttempt_congr hsame]
            exact .refl _
          · simp only [Cluster.elected?, hphase, ClaimPhase.elected?,
              maxAttempt_congr hsame]

end JobAlike

/-! ## Nets that agree up to the order of fetched claims -/

structure NodeAlike (node node' : Node W) : Prop where
  store : node.store = node'.store
  history : node.history = node'.history
  job : Option.Rel JobAlike node.job node'.job

structure NetAlike (net net' : Net W) : Prop where
  time : net.time = net'.time
  relay : net.relay = net'.relay
  unsettled : net.unsettled = net'.unsettled
  wins : net.wins = net'.wins
  nodes : ∀ w, NodeAlike (net.nodes w) (net'.nodes w)

theorem NodeAlike.refl (node : Node W) : NodeAlike node node := by
  refine ⟨rfl, rfl, ?_⟩
  cases node.job with
  | none => exact .none
  | some job => exact .some (.refl job)

theorem NodeAlike.some {node node' : Node W} {job : Job}
    (h : NodeAlike node node') (hjob : node.job = some job) :
    ∃ job', node'.job = some job' ∧ JobAlike job job' := by
  have hrel := h.job
  rw [hjob] at hrel
  cases hjob' : node'.job with
  | none =>
      rw [hjob'] at hrel
      cases hrel
  | some job' =>
      rw [hjob'] at hrel
      cases hrel with
      | some halike => exact ⟨job', rfl, halike⟩

theorem NodeAlike.none {node node' : Node W} (h : NodeAlike node node')
    (hjob : node.job = none) : node'.job = none := by
  have hrel := h.job
  rw [hjob] at hrel
  cases hjob' : node'.job with
  | none => rfl
  | some job' =>
      rw [hjob'] at hrel
      cases hrel

namespace NetAlike

variable {D : Deployment W} {net net' : Net W} {w : W}

theorem refl (net : Net W) : NetAlike net net :=
  ⟨rfl, rfl, rfl, rfl, fun w => .refl (net.nodes w)⟩

theorem accept (h : NetAlike net net') (event : Event) :
    NetAlike (net.accept event) (net'.accept event) where
  time := h.time
  relay := by rw [Net.accept, Net.accept, h.relay, h.time]
  unsettled := h.unsettled
  wins := h.wins
  nodes := h.nodes

theorem addWin (h : NetAlike net net') (win : Win W) :
    NetAlike (net.addWin win) (net'.addWin win) where
  time := h.time
  relay := h.relay
  unsettled := by rw [Net.addWin, Net.addWin, h.unsettled]
  wins := by rw [Net.addWin, Net.addWin, h.wins]
  nodes := h.nodes

theorem outgoing (h : NetAlike net net') (w : W) (createdAt : U64)
    (id : EventId) :
    D.outgoing net w createdAt id = D.outgoing net' w createdAt id := by
  unfold Deployment.outgoing
  cases hjob : (net.nodes w).job with
  | none => rw [(h.nodes w).none hjob]
  | some job =>
      obtain ⟨job', hjob', halike⟩ := (h.nodes w).some hjob
      rw [hjob', Option.bind_some, Option.bind_some, halike.publish?]

theorem resume {input : JobInput} {job next : Job} {store : Store}
    (h : NetAlike net net') (hinput : ∀ events, input ≠ .io (.answer events))
    (hresume : D.resume net w input = some (job, store, next)) :
    ∃ job' next', D.resume net' w input = some (job', store, next') ∧
      JobAlike job job' ∧ JobAlike next next' := by
  obtain ⟨hjob, hstep⟩ := Deployment.resume_cases hresume
  obtain ⟨job', hjob', halike⟩ := (h.nodes w).some hjob
  rw [(h.nodes w).store] at hstep
  obtain ⟨next', hstep', hnext⟩ := halike.step hinput hstep
  refine ⟨job', next', ?_, halike, hnext⟩
  rw [Deployment.resume, hjob', Option.bind_some, hstep']
  rfl

variable [DecidableEq W]

theorem settleWins (h : NetAlike net net') (w : W) :
    NetAlike (net.settleWins w) (net'.settleWins w) where
  time := h.time
  relay := h.relay
  unsettled := by rw [Net.settleWins, Net.settleWins, h.unsettled]
  wins := h.wins
  nodes := h.nodes

theorem setNode {node node' : Node W} (h : NetAlike net net') (w : W)
    (hnode : NodeAlike node node') :
    NetAlike (net.setNode w node) (net'.setNode w node') where
  time := h.time
  relay := h.relay
  unsettled := h.unsettled
  wins := h.wins
  nodes w' := by
    rw [Net.setNode_nodes, Net.setNode_nodes]
    split
    · exact hnode
    · exact h.nodes w'

theorem withJob {job job' : Job} {history history' : History W}
    (h : NetAlike net net') (w : W) (store : Store) (hjob : JobAlike job job')
    (hhistory : history = history') :
    NetAlike (net.setNode w ⟨store, some job, history⟩)
      (net'.setNode w ⟨store, some job', history'⟩) :=
  h.setNode w ⟨rfl, hhistory, .some hjob⟩

theorem published {job job' next next' : Job} (h : NetAlike net net') (w : W)
    (event : Event) (store : Store) (hjob : JobAlike job job')
    (hnext : JobAlike next next') :
    NetAlike (net.published w event job store next)
      (net'.published w event job' store next') := by
  have hhistory := (h.nodes w).history
  have haccepted := h.accept event
  unfold Net.published
  dsimp only
  rw [hjob.settling, hhistory]
  split
  · exact (haccepted.settleWins w).withJob w store hnext rfl
  · exact haccepted.withJob w store hnext rfl

/-! ### Steps that ask no relay -/

theorem local? {input : JobInput} {after : Net W}
    (h : NetAlike net net') (hinput : ∀ events, input ≠ .io (.answer events))
    (hlocal : D.local? net w input = some after) :
    ∃ after', D.local? net' w input = some after' ∧ NetAlike after after' := by
  obtain ⟨⟨job, store, next⟩, hresume, rfl⟩ := Option.map_eq_some_iff.mp hlocal
  obtain ⟨job', next', hresume', hjob, hnext⟩ := h.resume hinput hresume
  refine ⟨_, by rw [Deployment.local?, hresume']; rfl, ?_⟩
  exact h.withJob w store hnext (by rw [(h.nodes w).history, hjob.afterProceed])

theorem send {createdAt : U64} {id : EventId} {input : JobInput}
    {after : Net W} (h : NetAlike net net')
    (hinput : ∀ events, input ≠ .io (.answer events))
    (hsend : ((D.outgoing net w createdAt id).bind fun event =>
      if NoCollision net.relay event then
        (D.resume net w input).map fun (job, store, next) =>
          net.published w event job store next
      else none) = some after) :
    ∃ after', ((D.outgoing net' w createdAt id).bind fun event =>
      if NoCollision net'.relay event then
        (D.resume net' w input).map fun (job, store, next) =>
          net'.published w event job store next
      else none) = some after' ∧ NetAlike after after' := by
  obtain ⟨event, hevent, hsend⟩ := Option.bind_eq_some_iff.mp hsend
  split at hsend
  · next hfresh =>
      obtain ⟨⟨job, store, next⟩, hresume, rfl⟩ :=
        Option.map_eq_some_iff.mp hsend
      obtain ⟨job', next', hresume', hjob, hnext⟩ := h.resume hinput hresume
      refine ⟨_, ?_, h.published w event store hjob hnext⟩
      rw [← h.outgoing, hevent, Option.bind_some, ← h.relay, if_pos hfresh,
        hresume']
      rfl
  · contradiction

theorem fetch {leaseSeconds : U64} {after : Net W} (h : NetAlike net net')
    (hfetch : D.fetch net w leaseSeconds = some after) :
    ∃ after', D.fetch net' w leaseSeconds = some after' ∧
      NetAlike after after' := by
  unfold Deployment.fetch at hfetch
  split at hfetch
  · next record hidle hget =>
      cases hfetch
      rw [(h.nodes w).store] at hget
      refine ⟨_, by rw [Deployment.fetch, (h.nodes w).none hidle, hget], ?_⟩
      refine h.setNode w ⟨(h.nodes w).store, ?_, .some (.refl _)⟩
      rw [(h.nodes w).history]
  · contradiction

theorem retry {after : Net W} (h : NetAlike net net')
    (hretry : D.retry net w = some after) :
    ∃ after', D.retry net' w = some after' ∧ NetAlike after after' := by
  have hnode := h.nodes w
  unfold Deployment.retry at hretry ⊢
  rw [← hnode.store]
  split at hretry
  · next row hrow =>
      split at hretry
      · next hdead =>
          cases hretry
          refine ⟨_, if_pos hdead, h.setNode w ⟨?_, ?_, hnode.job⟩⟩
          · rw [hnode.store]
          · rw [hnode.history, h.relay]
      · contradiction
  · contradiction

theorem step {a : Action W} {after : Net W} (h : NetAlike net net')
    (hquery : ∀ w, a ≠ .query w) (hstep : D.step net a = some after) :
    ∃ after', D.step net' a = some after' ∧ NetAlike after after' := by
  cases a with
  | query w => exact absurd rfl (hquery w)
  | advance ms =>
      cases hstep
      exact ⟨_, rfl, by rw [h.time], h.relay, h.unsettled, h.wins, h.nodes⟩
  | other event =>
      simp only [Deployment.step] at hstep ⊢
      split at hstep
      · next hevent =>
          cases hstep
          rw [h.relay] at hevent
          exact ⟨_, if_pos hevent, h.accept event⟩
      · contradiction
  | fetch w leaseSeconds => exact h.fetch hstep
  | proceed w =>
      simp only [Deployment.step] at hstep ⊢
      rw [← h.time]
      exact h.local? (by simp) hstep
  | publish w createdAt id =>
      simp only [Deployment.step, Deployment.publish] at hstep ⊢
      rw [← h.time]
      exact h.send (by simp) hstep
  | handle w outcome => exact h.local? (by simp) hstep
  | fail w => exact h.local? (by simp) hstep
  | lose w createdAt id => exact h.send (by simp) hstep
  | drop w =>
      cases hstep
      refine ⟨_, rfl, h.setNode w ⟨(h.nodes w).store, ?_, .none⟩⟩
      rw [(h.nodes w).history]
  | sweep w queue =>
      cases hstep
      refine ⟨_, rfl, h.setNode w ⟨?_, (h.nodes w).history, (h.nodes w).job⟩⟩
      rw [(h.nodes w).store, h.time]
  | retry w => exact h.retry hstep

/-! ### Queries -/

theorem answered {job job' next next' : Job} {events events' : List Event}
    (h : NetAlike net net') (w : W) (store : Store) (hjob : JobAlike job job')
    (hnext : JobAlike next next')
    (helected : elected? (D.key w) events job =
      elected? (D.key w) events' job') :
    NetAlike (D.answered net w events job store next)
      (D.answered net' w events' job' store next') := by
  have hhistory : (net.nodes w).history.afterQuery net.time net.relay.length
        job next =
      (net'.nodes w).history.afterQuery net'.time net'.relay.length
        job' next' := by
    rw [(h.nodes w).history, h.time, h.relay, hjob.afterQuery hnext]
  unfold Deployment.answered
  dsimp only
  rw [helected, hhistory]
  split
  · exact h.withJob w store hnext rfl
  · have hwin : ∀ history claim,
        net.winOf w job history claim = net'.winOf w job' history claim := by
      intro history claim
      rw [Net.winOf, Net.winOf, h.relay, hjob.record]
    rw [hwin]
    exact (h.addWin _).withJob w store hnext rfl

end NetAlike

/-! ## The simulation -/

section Simulation

variable [DecidableEq W] [DecidableEq R] {D : Deployment W} {client : Client}
  {Q : Quorums R} {P : Net W → Action W → Prop} {p p' : Pool W R} {net : Net W}

omit [DecidableEq R] in
theorem Deployment.Step.relay_own {net net' : Net W} {a : Action W}
    (h : D.Step net a net') (hown : a.isOwn) : net'.relay = net.relay := by
  cases h with
  | other | query | publish | lose => contradiction
  | advance | fetch | proceed | handle | failClaim | failSettle | drop
  | sweep | retry => rfl

/-- The relays hold what one relay that accepted everything would hold. -/
structure Pooled (Q : Quorums R) (p : Pool W R) (net : Net W) : Prop where
  alike : NetAlike p.net net
  held : p.relays.Hold Q (net.relay.map Accepted.event)

omit [DecidableEq R] in
theorem Pooled.own (h : Pooled Q p net) {a : Action W} {after : Net W}
    (hown : a.isOwn) (hstep : D.step p.net a = some after) :
    ∃ net', D.step net a = some net' ∧
      Pooled Q { p with net := after } net' := by
  obtain ⟨net', hstep', halike⟩ := h.alike.step
    (by rintro w rfl; contradiction) hstep
  refine ⟨net', hstep', halike, ?_⟩
  rw [(Deployment.step_cases hstep').relay_own hown]
  exact h.held

theorem Pooled.accept (h : Pooled Q p net) {a : Action W} {after : Net W}
    {event : Event} {accepting : List R}
    (hquorum : Q.writes accepting.toFinset) (hquery : ∀ w, a ≠ .query w)
    (hstep : D.step p.net a = some after)
    (hrelay : after.relay = p.net.relay ++ [⟨p.net.time, event⟩]) :
    ∃ net', D.step net a = some net' ∧
      Pooled Q ⟨after, p.relays.write accepting event⟩ net' := by
  obtain ⟨net', hstep', halike⟩ := h.alike.step hquery hstep
  refine ⟨net', hstep', halike, ?_⟩
  rw [← halike.relay, hrelay, h.alike.relay, List.map_append]
  exact h.held.write hquorum event

omit [DecidableEq R] in
theorem relay_sent {net after : Net W} {w : W} {createdAt : U64} {id : EventId}
    {event : Event} {a : Action W} (ha : a = .publish w createdAt id ∨
      a = .lose w createdAt id)
    (hevent : D.outgoing net w createdAt id = some event)
    (hstep : D.step net a = some after) :
    after.relay = net.relay ++ [⟨net.time, event⟩] := by
  rcases ha with rfl | rfl
  all_goals
    simp only [Deployment.step, Deployment.publish, Deployment.lose, hevent,
      Option.bind_some] at hstep
    split at hstep
    · obtain ⟨⟨job, store, next⟩, -, rfl⟩ := Option.map_eq_some_iff.mp hstep
      exact Net.published_relay w event job store next
    · contradiction

theorem Pooled.send (h : Pooled Q p net) {w : W} {createdAt : U64}
    {id : EventId} {event : Event} {accepting : List R} {a : Action W}
    (ha : a = .publish w createdAt id ∨ a = .lose w createdAt id)
    (hquorum : accepting = [] ∨ Q.writes accepting.toFinset)
    (hevent : D.outgoing p.net w createdAt id = some event)
    (hstep : D.poolSend p w a event accepting = some p') :
    ∃ net', D.step net (if accepting = [] then .fail w else a) = some net' ∧
      Pooled Q p' net' := by
  unfold Deployment.poolSend at hstep
  split at hstep
  · next hnone =>
      obtain ⟨after, hafter, rfl⟩ := Option.map_eq_some_iff.mp hstep
      rw [if_pos hnone]
      exact h.own rfl hafter
  · next hsome =>
      obtain ⟨after, hafter, rfl⟩ := Option.map_eq_some_iff.mp hstep
      rw [if_neg hsome]
      refine h.accept (hquorum.resolve_left hsome) ?_ hafter
        (relay_sent ha hevent hafter)
      rcases ha with rfl | rfl <;> exact nofun

omit [DecidableEq W] [DecidableEq R] in
theorem Grounded.distinct_query (hg : Grounded D net) (filter : Filter) :
    Distinct (net.relay.query filter) := by
  intro a ha b hb hid
  obtain ⟨-, x, hx, rfl⟩ := Relay.mem_query.mp ha
  obtain ⟨-, y, hy, rfl⟩ := Relay.mem_query.mp hb
  exact hg.ids x hx y hy hid

omit [DecidableEq W] in
/-- What a read quorum returns is what the one relay would return. -/
theorem Pooled.mem_fetchEvents (h : Pooled Q p net) (hg : Grounded D net)
    {asked : List R} (hquorum : Q.reads asked.toFinset) (filter : Filter)
    (event : Event) :
    event ∈ Deployment.fetchEvents client p.relays asked filter ↔
      event ∈ net.relay.query filter := by
  have hread := h.held.mem_read hquorum
  rw [Deployment.fetchEvents, client.mem_collect, List.mem_filter, hread,
    Relay.query, List.mem_filter]
  intro a ha b hb hid
  obtain ⟨x, hx, rfl⟩ := List.mem_map.mp ((hread a).mp (List.mem_filter.mp ha).1)
  obtain ⟨y, hy, rfl⟩ := List.mem_map.mp ((hread b).mp (List.mem_filter.mp hb).1)
  exact hg.ids x hx y hy hid

theorem Pooled.query (h : Pooled Q p net) (hg : Grounded D net) {w : W}
    {asked : List R} (hquorum : Q.reads asked.toFinset)
    (hstep : D.poolQuery client p w asked = some p') :
    ∃ net', D.step net (.query w) = some net' ∧ Pooled Q p' net' := by
  obtain ⟨filter, hfilter, hafter⟩ := Option.bind_eq_some_iff.mp hstep
  obtain ⟨⟨job, store, next⟩, hresume, rfl⟩ :=
    Option.map_eq_some_iff.mp hafter
  obtain ⟨hjob, hanswer⟩ := Deployment.resume_cases hresume
  obtain ⟨job', hjob', halike⟩ := (h.alike.nodes w).some hjob
  have hsame : ∀ event,
      event ∈ Deployment.fetchEvents client p.relays asked filter ↔
        event ∈ net.relay.query filter := h.mem_fetchEvents hg hquorum filter
  have hdistinct : Distinct
      (Deployment.fetchEvents client p.relays asked filter) := by
    intro a ha b hb hid
    exact hg.distinct_query filter a ((hsame a).mp ha) b ((hsame b).mp hb) hid
  rw [(h.alike.nodes w).store] at hanswer
  obtain ⟨next', hanswer', hnext, helected⟩ :=
    halike.answer hdistinct hsame hanswer
  have hquery : job'.query? = some filter := by
    rw [hjob, Option.bind_some] at hfilter
    rw [← halike.query?, hfilter]
  refine ⟨_, ?_, h.alike.answered w store halike hnext helected, ?_⟩
  · simp only [Deployment.step, Deployment.query, Deployment.resume, hjob',
      hquery, hanswer', Option.bind_some, Option.map_some]
  · rw [D.answered_relay]
    exact h.held

/--
Where publishes reach a write quorum or nothing and queries ask a read quorum,
workers on a pool of relays do only what workers on one relay can do, whatever
order their clients return events in.
-/
theorem pool_simulates (hP : ∀ net net' a, NetAlike net net' → P net a →
    P net' a) :
    (D.poolSystem client).Simulates D.system
      (fun p a => Quorate Q a ∧ P p.net a.toNet) P (Pooled Q) := by
  refine .of_steps ?_ ?_
  · rintro p ⟨hinit, hrelays⟩
    refine ⟨p.net, hinit, .refl p.net, ?_⟩
    rw [hinit.relay, hrelays]
    exact Replicas.hold_empty Q
  · rintro p a p' net - hreach h ⟨hquorate, hp⟩ hstep
    have hp' : P net a.toNet := hP _ _ _ h.alike hp
    suffices ∃ net', D.step net a.toNet = some net' ∧ Pooled Q p' net' by
      obtain ⟨net', hstep', hrel⟩ := this
      exact Or.inr ⟨a.toNet, net', hp', hstep', hrel⟩
    cases a with
    | own a =>
        simp only [Deployment.poolSystem, Deployment.poolStep] at hstep
        split at hstep
        · next hown =>
            obtain ⟨after, hafter, rfl⟩ := Option.map_eq_some_iff.mp hstep
            exact h.own hown hafter
        · contradiction
    | other event accepting =>
        simp only [Deployment.poolSystem, Deployment.poolStep] at hstep
        split at hstep
        · contradiction
        · obtain ⟨after, hafter, rfl⟩ := Option.map_eq_some_iff.mp hstep
          refine h.accept hquorate nofun hafter ?_
          cases Deployment.step_cases hafter
          rfl
    | query w asked => exact h.query (grounded hreach) hquorate hstep
    | publish w createdAt id accepting =>
        obtain ⟨event, hevent, hstep⟩ := Option.bind_eq_some_iff.mp hstep
        exact h.send (Or.inl rfl) hquorate hevent hstep
    | lose w createdAt id accepting =>
        obtain ⟨event, hevent, hstep⟩ := Option.bind_eq_some_iff.mp hstep
        exact h.send (Or.inr rfl) hquorate hevent hstep

end Simulation

/-! ## Mutual exclusion on a pool -/

section Exclusion

variable {D : Deployment W} {net net' : Net W}

theorem NetAlike.uncut {a : Action W} (h : NetAlike net net')
    (hu : Uncut net a) : Uncut net' a := by
  cases a with
  | drop w =>
      simp only [Uncut] at hu ⊢
      cases hjob : (net.nodes w).job with
      | none => simp [(h.nodes w).none hjob]
      | some job =>
          obtain ⟨job', hjob', halike⟩ := (h.nodes w).some hjob
          rw [hjob] at hu
          rw [hjob']
          cases halike with
          | refl => exact hu
          | recheck => exact hu.elim
  | advance | other | fetch | proceed | query | publish | handle | fail
  | lose | sweep | retry => exact hu

theorem NetAlike.acceptedInTime {w : W} (h : NetAlike net net')
    (ha : AcceptedInTime D net w) : AcceptedInTime D net' w := by
  unfold AcceptedInTime at ha ⊢
  rw [← h.time, ← (h.nodes w).history]
  cases hjob : (net.nodes w).job with
  | none => simp [(h.nodes w).none hjob]
  | some job =>
      obtain ⟨job', hjob', halike⟩ := (h.nodes w).some hjob
      rw [hjob] at ha
      rw [hjob']
      cases halike <;> exact ha

theorem NetAlike.orderly {a : Action W} (h : NetAlike net net')
    (ho : Orderly D net a) : Orderly D net' a := by
  cases a with
  | publish => exact h.acceptedInTime ho
  | drop w => exact NetAlike.uncut (a := .drop w) h ho
  | lose => exact ho.elim
  | advance | other | fetch | proceed | query | handle | fail | sweep
  | retry => trivial

variable [DecidableEq W] [DecidableEq R] {client : Client} {Q : Quorums R}
  {p : Pool W R}

/--
On a pool whose write and read quorums meet, unsettled wins with unexpired
leases belong to one worker, under the assumptions that one relay needs.
-/
theorem pool_mutual_exclusion
    (h : (D.poolSystem client).Reach
      (fun p a => Quorate Q a ∧ Orderly D p.net a.toNet) p) :
    ∀ win ∈ p.net.unsettled, ∀ win' ∈ p.net.unsettled,
      timestamp p.net.time < win.claim.leaseExpiresAt →
      timestamp p.net.time < win'.claim.leaseExpiresAt →
      win.worker = win'.worker := by
  have hsim : (D.poolSystem client).Simulates D.system
      (fun p a => Quorate Q a ∧ Orderly D p.net a.toNet) (Orderly D)
      (Pooled Q) :=
    pool_simulates fun _ _ _ halike ho => halike.orderly ho
  obtain ⟨net, hreach, hpooled⟩ := hsim.reach h
  have hi := exclusionInv hreach
  rw [hpooled.alike.unsettled, hpooled.alike.time]
  intro win hwin win' hwin' hlease hlease'
  exact (hi.wins win hwin).same_worker (grounded hreach) hi.contended
    (hi.wins win' hwin') hlease hlease'

abbrev majority : Quorums (Fin 3) := Quorums.counted 2 2 (by decide)

def merging : Client where
  collect := List.dedup
  mem_collect _ _ _ := List.mem_dedup

theorem pool_simulates_orderly :
    (pair.poolSystem merging).Simulates pair.system
      (fun p a => Quorate majority a ∧ Orderly pair p.net a.toNet)
      (Orderly pair) (Pooled majority) :=
  pool_simulates fun _ _ _ halike ho => halike.orderly ho

def winningPoolRun : List (PoolAction Peer (Fin 3)) :=
  [.own (.fetch .first 60), .own (.proceed .first), .query .first [0, 1],
    .query .first [1, 2], .query .first [0, 2],
    .publish .first 0 (hexOf 'a') [0, 2], .own (.advance 400),
    .own (.proceed .first), .query .first [0, 1], .query .first [1, 2],
    .own (.proceed .first)]

theorem pool_mutual_exclusion_winning :
    ∃ p, ReturnedTrue p.net .first ∧
      (pair.poolSystem merging).Reach (fun p a =>
        Quorate majority a ∧ Orderly pair p.net a.toNet) p ∧
      ∀ win ∈ p.net.unsettled, ∀ win' ∈ p.net.unsettled,
        timestamp p.net.time < win.claim.leaseExpiresAt →
        timestamp p.net.time < win'.claim.leaseExpiresAt →
        win.worker = win'.worker := by
  obtain ⟨p, hreach, htest⟩ :=
    (System.Reach.init (S := pair.poolSystem merging)
      (P := fun p a => Quorate majority a ∧ Orderly pair p.net a.toNet)
      (s := ⟨pairStart 5, Replicas.empty⟩)
      ⟨pairStart_initial 5, rfl⟩).of_run_check
      winningPoolRun (fun p => decide (ReturnedTrue p.net .first)) (by decide)
  exact ⟨p, of_decide_eq_true htest, hreach, pool_mutual_exclusion hreach⟩

end Exclusion

end NostrQ.Cluster
