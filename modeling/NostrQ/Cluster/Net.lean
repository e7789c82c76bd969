import Mathlib.Logic.Function.Basic
import NostrQ.Cluster.Board
import NostrQ.Foundation.Transition
import NostrQ.Worker.Job

/-!
# Workers sharing a relay

Any number of workers, each with its own store and at most one job for the
message at a time, and one relay that keeps every event it accepts.  Every
clock reading, store call, query, publish and wake-up of a job is a step of its
own, and the steps of different workers interleave freely.

Beside the state of the program, a net remembers some history: who won on which
claim, what was known at that moment, and which wins are not yet settled.
-/

namespace NostrQ.Cluster

open NostrQ.Foundation NostrQ.Core NostrQ.Database NostrQ.Sdk NostrQ.Worker

structure Deployment (W : Type) where
  key : W → PublicKey
  distinct : Function.Injective key
  hashtag : String → String
  message : EventId
  mid : String
  settleMs : U64

/--
A won claim.  `queriedAt` is the time of the claim query behind the decision;
`checked` and `seen` count the events on the relay at the call's terminal query
and at its last query; `floor` is the `attempt_floor` of the call's record.
-/
structure Win (W : Type) where
  worker : W
  claim : ClaimInfo
  queriedAt : Nat
  checked : Nat
  seen : Nat
  floor : U32

/-- What is remembered about a worker. -/
structure History (W : Type) where
  /-- The time of the last claim query. -/
  claimsAt : Nat := 0
  /-- The events on the relay at the last terminal query. -/
  checking : Nat := 0
  /-- The same, once the store agrees with the answer. -/
  checked : Nat := 0
  /-- The events on the relay at the last dlq retry. -/
  retried : Option Nat := none
  /-- The job works on a record fetched since that retry. -/
  fresh : Bool := false
  /-- The win the running job is about to settle. -/
  held : Option (Win W) := none

structure Node (W : Type) where
  store : Store
  job : Option Job
  history : History W

structure Net (W : Type) where
  time : Nat
  relay : Relay
  nodes : W → Node W
  unsettled : List (Win W)
  wins : List (Win W)

inductive Action (W : Type) where
  | advance (ms : Nat)
  | other (event : Event)
  | fetch (w : W) (leaseSeconds : U64)
  | proceed (w : W)
  | query (w : W)
  | publish (w : W) (createdAt : U64) (id : EventId)
  | handle (w : W) (outcome : HandlerOutcome)
  | fail (w : W)
  | lose (w : W) (createdAt : U64) (id : EventId)
  | drop (w : W)
  | sweep (w : W) (queue : String)
  | retry (w : W)

/-- An event id determines the event. -/
def NoCollision (relay : Relay) (event : Event) : Prop :=
  ∀ accepted ∈ relay, accepted.event.id = event.id → accepted.event = event

instance (relay : Relay) (event : Event) : Decidable (NoCollision relay event) :=
  inferInstanceAs (Decidable (∀ _ ∈ _, _))

/-! ## What the history records -/

namespace History

variable {W : Type}

def afterQuery (h : History W) (time seen : Nat) (job next : Job) :
    History W :=
  match job.phase, next.phase with
  | .claiming (.during _ .terminalCheck), .claiming (.during _ .surveyNacks) =>
      { h with checking := seen, checked := seen }
  | .claiming (.during _ .terminalCheck), _ => { h with checking := seen }
  | .claiming (.during _ (.surveyClaims _)), _ => { h with claimsAt := time }
  | .claiming (.during _ (.recheckClaims _)), _ => { h with claimsAt := time }
  | _, _ => h

def afterProceed (h : History W) (job : Job) : History W :=
  match job.phase with
  | .claiming (.during _ (.dlqObserved _)) => { h with checked := h.checking }
  | _ => h

end History

/-- The claim an answer decides the job's call for. -/
def elected? (key : PublicKey) (events : List Event) (job : Job) :
    Option ClaimInfo :=
  match job.phase with
  | .claiming phase => phase.elected? key events
  | _ => none

def settling (job : Job) : Bool :=
  match job.phase with
  | .settling _ => true
  | _ => false

/-! ## Steps -/

section Steps

variable {W : Type} [DecidableEq W]

namespace Net

def setNode (net : Net W) (w : W) (node : Node W) : Net W :=
  { net with nodes := Function.update net.nodes w node }

def accept (net : Net W) (event : Event) : Net W :=
  { net with relay := net.relay ++ [⟨net.time, event⟩] }

def winOf (net : Net W) (w : W) (job : Job) (h : History W)
    (claim : ClaimInfo) : Win W where
  worker := w
  claim := claim
  queriedAt := h.claimsAt
  checked := h.checking
  seen := net.relay.length
  floor := job.record.attemptFloor

def addWin (net : Net W) (win : Win W) : Net W :=
  { net with
    unsettled := net.unsettled ++ [win]
    wins := net.wins ++ [win] }

def settleWins (net : Net W) (w : W) : Net W :=
  { net with unsettled := net.unsettled.filter fun win => win.worker ≠ w }

def published (net : Net W) (w : W) (event : Event) (job : Job)
    (store : Store) (next : Job) : Net W :=
  let history := (net.nodes w).history
  if settling job then
    ((net.accept event).settleWins w).setNode w
      ⟨store, some next, { history with held := none }⟩
  else (net.accept event).setNode w ⟨store, some next, history⟩

end Net

namespace Deployment

variable (D : Deployment W) (net : Net W)

def resume (w : W) (input : JobInput) : Option (Job × Store × Job) :=
  (net.nodes w).job.bind fun job =>
    (job.step (D.key w) (net.nodes w).store input).map fun (store, next) =>
      (job, store, next)

def fetch (w : W) (leaseSeconds : U64) : Option (Net W) :=
  match (net.nodes w).job, (net.nodes w).store.getMessage D.mid with
  | none, .ok (some record) =>
      some (net.setNode w { net.nodes w with
        job := some (Job.spawn record leaseSeconds D.settleMs)
        history := { (net.nodes w).history with fresh := true } })
  | _, _ => none

def answered (w : W) (events : List Event) (job : Job) (store : Store)
    (next : Job) : Net W :=
  let history :=
    (net.nodes w).history.afterQuery net.time net.relay.length job next
  match elected? (D.key w) events job with
  | none => net.setNode w ⟨store, some next, history⟩
  | some claim =>
      let win := net.winOf w job history claim
      (net.addWin win).setNode w
        ⟨store, some next, { history with held := some win }⟩

def query (w : W) : Option (Net W) :=
  ((net.nodes w).job.bind Job.query?).bind fun filter =>
    let events := net.relay.query filter
    (D.resume net w (.io (.answer events))).map fun (job, store, next) =>
      D.answered net w events job store next

def outgoing (w : W) (createdAt : U64) (id : EventId) : Option Event :=
  ((net.nodes w).job.bind fun job => job.publish? D.hashtag).map fun draft =>
    draft.sign (D.key w) createdAt id

def publish (w : W) (createdAt : U64) (id : EventId) : Option (Net W) :=
  (D.outgoing net w createdAt id).bind fun event =>
    if NoCollision net.relay event then
      (D.resume net w (.io (.accepted net.time))).map
        fun (job, store, next) => net.published w event job store next
    else none

/-- The relay accepts the event, but the publish reports an error. -/
def lose (w : W) (createdAt : U64) (id : EventId) : Option (Net W) :=
  (D.outgoing net w createdAt id).bind fun event =>
    if NoCollision net.relay event then
      (D.resume net w (.io .failed)).map
        fun (job, store, next) => net.published w event job store next
    else none

def local? (w : W) (input : JobInput) : Option (Net W) :=
  (D.resume net w input).map fun (job, store, next) =>
    net.setNode w
      ⟨store, some next, (net.nodes w).history.afterProceed job⟩

def retry (w : W) : Option (Net W) :=
  match (net.nodes w).store.row? D.mid with
  | some row =>
      if row.status = .dead then
        some (net.setNode w { net.nodes w with
          store := ((net.nodes w).store.dlqRetry D.mid).2
          history := { (net.nodes w).history with
            retried := some net.relay.length, fresh := false } })
      else none
  | none => none

def step : Action W → Option (Net W)
  | .advance ms => some { net with time := net.time + ms }
  | .other event =>
      if Unrelated D.message event ∧ NoCollision net.relay event then
        some (net.accept event)
      else none
  | .fetch w leaseSeconds => D.fetch net w leaseSeconds
  | .proceed w => D.local? net w (.io (.proceed net.time))
  | .query w => D.query net w
  | .publish w createdAt id => D.publish net w createdAt id
  | .handle w outcome => D.local? net w (.handled outcome)
  | .fail w => D.local? net w (.io .failed)
  | .lose w createdAt id => D.lose net w createdAt id
  | .drop w =>
      some (net.setNode w { net.nodes w with
        job := none
        history := { (net.nodes w).history with held := none } })
  | .sweep w queue =>
      some (net.setNode w { net.nodes w with
        store :=
          ((net.nodes w).store.expireDue queue (timestamp net.time)).2 })
  | .retry w => D.retry net w

/-! ### What a step can be -/

inductive Publishes (w : W) (createdAt : U64) (id : EventId) (time : Nat)
    (job : Job) : Event → JobPhase → Prop where
  | claim {call : ClaimCall} {observed : U32} :
      job.phase = .claiming (.during call (.contending observed)) →
      Publishes w createdAt id time job
        ((buildClaimEvent D.hashtag call.messageRef call.leaseExpiresAt
          (call.claimAttempt observed)).sign (D.key w) createdAt id)
        (.claiming (.during call
          (.settling observed (time + call.settleMs.val))))
  | settle {phase after : SettlePhase} {draft : Draft} :
      job.phase = .settling phase → phase.publish? D.hashtag = some draft →
      SettlePhase.Accepts phase after →
      Publishes w createdAt id time job
        (draft.sign (D.key w) createdAt id) (.settling after)

inductive Loses (w : W) (createdAt : U64) (id : EventId) (job : Job) :
    Event → JobPhase → Prop where
  | claim {call : ClaimCall} {observed : U32} :
      job.phase = .claiming (.during call (.contending observed)) →
      Loses w createdAt id job
        ((buildClaimEvent D.hashtag call.messageRef call.leaseExpiresAt
          (call.claimAttempt observed)).sign (D.key w) createdAt id)
        (.claiming (.returned (.error .transport)))
  | settle {phase : SettlePhase} {draft : Draft} :
      job.phase = .settling phase → phase.publish? D.hashtag = some draft →
      Loses w createdAt id job (draft.sign (D.key w) createdAt id)
        (.settling (.settled (.error .transport)))

inductive Step : Action W → Net W → Prop where
  | advance {ms : Nat} :
      Step (.advance ms) { net with time := net.time + ms }
  | other {event : Event} :
      Unrelated D.message event → NoCollision net.relay event →
      Step (.other event) (net.accept event)
  | fetch {w : W} {leaseSeconds : U64} {record : MessageRecord} :
      (net.nodes w).job = none →
      (net.nodes w).store.getMessage D.mid = .ok (some record) →
      Step (.fetch w leaseSeconds) (net.setNode w { net.nodes w with
        job := some (Job.spawn record leaseSeconds D.settleMs)
        history := { (net.nodes w).history with fresh := true } })
  | proceed {w : W} {job : Job} {store : Store} {phase : JobPhase} :
      (net.nodes w).job = some job →
      Job.Proceeds (D.key w) (net.nodes w).store net.time job job.phase
        store phase →
      Step (.proceed w) (net.setNode w ⟨store, some { job with phase := phase },
        (net.nodes w).history.afterProceed job⟩)
  | query {w : W} {job : Job} {phase after : ClaimPhase} {filter : Filter} :
      (net.nodes w).job = some job → job.phase = .claiming phase →
      phase.query? = some filter →
      ClaimPhase.Answers (D.key w) (net.relay.query filter) phase after →
      Step (.query w) (D.answered net w (net.relay.query filter) job
        (net.nodes w).store { job with phase := .claiming after })
  | publish {w : W} {createdAt : U64} {id : EventId} {job : Job}
      {event : Event} {phase : JobPhase} :
      (net.nodes w).job = some job →
      D.Publishes w createdAt id net.time job event phase →
      NoCollision net.relay event →
      Step (.publish w createdAt id) (net.published w event job
        (net.nodes w).store { job with phase := phase })
  | handle {w : W} {outcome : HandlerOutcome} {job : Job}
      {current : MessageRecord} {deadline : Nat} :
      (net.nodes w).job = some job →
      job.phase = .handling current deadline →
      Step (.handle w outcome) (net.setNode w ⟨(net.nodes w).store,
        some { job with phase := .settling (Job.settle job.record outcome) },
        (net.nodes w).history.afterProceed job⟩)
  | failClaim {w : W} {job : Job} {phase : ClaimPhase} :
      (net.nodes w).job = some job → job.phase = .claiming phase →
      phase.awaits = true →
      Step (.fail w) (net.setNode w ⟨(net.nodes w).store,
        some { job with
          phase := .claiming (.returned (.error .transport)) },
        (net.nodes w).history.afterProceed job⟩)
  | failSettle {w : W} {job : Job} {phase : SettlePhase} :
      (net.nodes w).job = some job → job.phase = .settling phase →
      Step (.fail w) (net.setNode w ⟨(net.nodes w).store,
        some { job with
          phase := .settling (.settled (.error .transport)) },
        (net.nodes w).history.afterProceed job⟩)
  | lose {w : W} {createdAt : U64} {id : EventId} {job : Job}
      {event : Event} {phase : JobPhase} :
      (net.nodes w).job = some job →
      D.Loses w createdAt id job event phase →
      NoCollision net.relay event →
      Step (.lose w createdAt id) (net.published w event job
        (net.nodes w).store { job with phase := phase })
  | drop {w : W} :
      Step (.drop w) (net.setNode w { net.nodes w with
        job := none
        history := { (net.nodes w).history with held := none } })
  | sweep {w : W} {queue : String} :
      Step (.sweep w queue) (net.setNode w { net.nodes w with
        store :=
          ((net.nodes w).store.expireDue queue (timestamp net.time)).2 })
  | retry {w : W} {row : Row} :
      (net.nodes w).store.row? D.mid = some row → row.status = .dead →
      Step (.retry w) (net.setNode w { net.nodes w with
        store := ((net.nodes w).store.dlqRetry D.mid).2
        history := { (net.nodes w).history with
          retried := some net.relay.length, fresh := false } })

variable {D net}

omit [DecidableEq W] in
theorem resume_cases {w : W} {input : JobInput} {job next : Job}
    {store : Store} (h : D.resume net w input = some (job, store, next)) :
    (net.nodes w).job = some job ∧
      job.step (D.key w) (net.nodes w).store input = some (store, next) := by
  obtain ⟨job', hjob, hstep⟩ := Option.bind_eq_some_iff.mp h
  obtain ⟨⟨store', next'⟩, hstep, heq⟩ := Option.map_eq_some_iff.mp hstep
  cases heq
  exact ⟨hjob, hstep⟩

private theorem with_phase {job next : Job} {phase : JobPhase}
    (hfields : next.record = job.record ∧
      next.leaseSeconds = job.leaseSeconds)
    (hphase : next.phase = phase) : next = { job with phase := phase } := by
  cases next
  cases job
  simp_all

private theorem step_local {w : W} {input : JobInput} {net' : Net W}
    (h : D.local? net w input = some net') :
    ∃ job store next, (net.nodes w).job = some job ∧
      job.step (D.key w) (net.nodes w).store input = some (store, next) ∧
      next = { job with phase := next.phase } ∧
      net' = net.setNode w
        ⟨store, some next, (net.nodes w).history.afterProceed job⟩ := by
  obtain ⟨⟨job, store, next⟩, hresume, rfl⟩ := Option.map_eq_some_iff.mp h
  obtain ⟨hjob, hstep⟩ := resume_cases hresume
  exact ⟨job, store, next, hjob, hstep,
    with_phase (Job.step_fields hstep) rfl, rfl⟩

private theorem step_query {w : W} {net' : Net W}
    (h : D.query net w = some net') : D.Step net (.query w) net' := by
  obtain ⟨filter, hfilter, h⟩ := Option.bind_eq_some_iff.mp h
  obtain ⟨⟨job, store, next⟩, hresume, rfl⟩ := Option.map_eq_some_iff.mp h
  obtain ⟨hjob, hstep⟩ := resume_cases hresume
  obtain ⟨rfl, phase, after, hphase, hafter, hanswers⟩ :=
    Job.step_answer hstep
  have hquery : phase.query? = some filter := by
    rw [hjob, Option.bind_some, Job.query?, hphase] at hfilter
    exact hfilter
  rw [with_phase (Job.step_fields hstep) hafter]
  exact .query hjob hphase hquery hanswers

omit [DecidableEq W] in
private theorem outgoing_cases {w : W} {createdAt : U64} {id : EventId}
    {event : Event} {job : Job}
    (h : D.outgoing net w createdAt id = some event)
    (hjob : (net.nodes w).job = some job) :
    ∃ draft, job.publish? D.hashtag = some draft ∧
      event = draft.sign (D.key w) createdAt id := by
  obtain ⟨draft, hdraft, rfl⟩ := Option.map_eq_some_iff.mp h
  rw [hjob, Option.bind_some] at hdraft
  exact ⟨draft, hdraft, rfl⟩

private theorem step_publish {w : W} {createdAt : U64} {id : EventId}
    {net' : Net W} (h : D.publish net w createdAt id = some net') :
    D.Step net (.publish w createdAt id) net' := by
  obtain ⟨event, hevent, h⟩ := Option.bind_eq_some_iff.mp h
  split at h
  · next hfresh =>
      obtain ⟨⟨job, store, next⟩, hresume, rfl⟩ := Option.map_eq_some_iff.mp h
      obtain ⟨hjob, hstep⟩ := resume_cases hresume
      obtain ⟨draft, hdraft, rfl⟩ := outgoing_cases hevent hjob
      obtain ⟨rfl, hcases⟩ := Job.step_accepted hstep
      rcases hcases with ⟨call, observed, hphase, hafter⟩ |
        ⟨phase, after, hphase, hafter, haccepts⟩
      · rw [Job.publish?, hphase] at hdraft
        cases hdraft
        rw [with_phase (Job.step_fields hstep) hafter]
        exact .publish hjob (.claim hphase) hfresh
      · rw [Job.publish?, hphase] at hdraft
        rw [with_phase (Job.step_fields hstep) hafter]
        exact .publish hjob (.settle hphase hdraft haccepts) hfresh
  · contradiction

private theorem step_lose {w : W} {createdAt : U64} {id : EventId}
    {net' : Net W} (h : D.lose net w createdAt id = some net') :
    D.Step net (.lose w createdAt id) net' := by
  obtain ⟨event, hevent, h⟩ := Option.bind_eq_some_iff.mp h
  split at h
  · next hfresh =>
      obtain ⟨⟨job, store, next⟩, hresume, rfl⟩ := Option.map_eq_some_iff.mp h
      obtain ⟨hjob, hstep⟩ := resume_cases hresume
      obtain ⟨draft, hdraft, rfl⟩ := outgoing_cases hevent hjob
      obtain ⟨rfl, hcases⟩ := Job.step_failed hstep
      rcases hcases with ⟨phase, hphase, -, hafter⟩ |
        ⟨phase, hphase, hafter⟩
      · rw [Job.publish?, hphase] at hdraft
        rw [with_phase (Job.step_fields hstep) hafter]
        obtain ⟨call, observed, rfl, rfl⟩ := ClaimPhase.publish?_cases hdraft
        exact .lose hjob (.claim hphase) hfresh
      · rw [Job.publish?, hphase] at hdraft
        rw [with_phase (Job.step_fields hstep) hafter]
        exact .lose hjob (.settle hphase hdraft) hfresh
  · contradiction

theorem step_cases {a : Action W} {net' : Net W}
    (h : D.step net a = some net') : D.Step net a net' := by
  cases a with
  | advance ms =>
      cases h
      exact .advance
  | other event =>
      simp only [step] at h
      split at h
      · next hevent =>
          cases h
          exact .other hevent.1 hevent.2
      · contradiction
  | fetch w leaseSeconds =>
      simp only [step, fetch] at h
      split at h
      · next hidle hget =>
          cases h
          exact .fetch hidle hget
      · contradiction
  | proceed w =>
      obtain ⟨job, store, next, hjob, hstep, hnext, rfl⟩ := step_local h
      rw [hnext]
      exact .proceed hjob (Job.step_proceed hstep)
  | query w => exact step_query h
  | publish w createdAt id => exact step_publish h
  | handle w outcome =>
      obtain ⟨job, store, next, hjob, hstep, hnext, rfl⟩ := step_local h
      obtain ⟨rfl, current, deadline, hphase, hafter⟩ :=
        Job.step_handled hstep
      rw [hnext, hafter]
      exact .handle hjob hphase
  | fail w =>
      obtain ⟨job, store, next, hjob, hstep, hnext, rfl⟩ := step_local h
      obtain ⟨rfl, ⟨phase, hphase, hawaits, hafter⟩ |
        ⟨phase, hphase, hafter⟩⟩ := Job.step_failed hstep
      · rw [hnext, hafter]
        exact .failClaim hjob hphase hawaits
      · rw [hnext, hafter]
        exact .failSettle hjob hphase
  | lose w createdAt id => exact step_lose h
  | drop w =>
      cases h
      exact .drop
  | sweep w queue =>
      cases h
      exact .sweep
  | retry w =>
      simp only [step, retry] at h
      split at h
      · next row hrow =>
          split at h
          · next hdead =>
              cases h
              exact .retry hrow hdead
          · contradiction
      · contradiction

variable (D)

/-- Nothing about the message is on the relay, and nobody works on it. -/
structure Initial (net : Net W) : Prop where
  relay : net.relay = []
  unsettled : net.unsettled = []
  wins : net.wins = []
  idle : ∀ w, (net.nodes w).job = none
  history : ∀ w, (net.nodes w).history = {}
  eventId : ∀ w row, (net.nodes w).store.row? D.mid = some row →
    Hex32.fromHex row.eventId = some D.message

def system : System (Net W) (Action W) where
  init := D.Initial
  step := D.step

end Deployment

end Steps

/-! ## Two workers and one message -/

inductive Peer where
  | first
  | second
  deriving DecidableEq

def pair : Deployment Peer where
  key
    | .first => hexOf '0'
    | .second => hexOf '1'
  distinct := by
    intro a b h
    cases a <;> cases b <;> first | rfl | exact absurd h (by decide)
  hashtag := id
  message := hexOf 'e'
  mid := "m"
  settleMs := 400

def pairStart (maxAttempts : U32) : Net Peer where
  time := 0
  relay := []
  nodes _ := {
    store := {
      messages := (Messages.empty.insert sampleRecord.toRow).1
      dlq := []
      queues := [{ QueueConfig.workQueue "jobs" with
        maxAttempts := maxAttempts }] }
    job := none
    history := {} }
  unsettled := []
  wins := []

def winningRun : List (Action Peer) :=
  [.fetch .first 60, .proceed .first, .query .first, .query .first, .query .first,
    .publish .first 0 (hexOf 'a'), .advance 400, .proceed .first, .query .first,
    .query .first, .proceed .first]

theorem pairStart_initial (maxAttempts : U32) :
    pair.Initial (pairStart maxAttempts) where
  relay := rfl
  unsettled := rfl
  wins := rfl
  idle _ := rfl
  history _ := rfl
  eventId _ row h := by
    rcases Messages.row?_insert h with hold | rfl
    · contradiction
    · exact Hex32.fromHex_toHex pair.message

end NostrQ.Cluster
