import NostrQ.Foundation.Registry
import NostrQ.Sdk.Scheduling
import NostrQ.Worker.RunWorker

/-!
# The poll loop and its tasks, step by step

One worker process against a relay that keeps what it accepts.  The batch is
fetched, and each of its rows put in flight, given a slot and spawned, in steps
of their own; between any two of them the tasks, the publishing calls, the
ingest loop, dlq retries and everybody else on the relay may take any steps.
-/

namespace NostrQ.Worker

open NostrQ.Foundation NostrQ.Core NostrQ.Database NostrQ.Sdk

inductive PollPhase where
  | sweeping
  | fetching
  | dispatching (batch : List MessageRecord)
  | acquiring (record : MessageRecord) (batch : List MessageRecord)
  | spawning (record : MessageRecord) (batch : List MessageRecord)
  | resting (wakeAt : Nat)
  | stopped
  deriving DecidableEq

namespace PollPhase

def records : PollPhase → List MessageRecord
  | .dispatching batch => batch
  | .acquiring record batch => record :: batch
  | .spawning record batch => record :: batch
  | _ => []

def holds? : PollPhase → Option String
  | .acquiring record _ => some record.mid
  | .spawning record _ => some record.mid
  | _ => none

end PollPhase

structure Task where
  job : Job
  guarded : Bool
  permitted : Bool

namespace Task

def spawn (record : MessageRecord) (options : WorkerOptions) : Task :=
  ⟨.spawn record options.leaseSeconds options.settleMs, true, true⟩

def mid (task : Task) : String := task.job.record.mid

def holds? (task : Task) : Option String :=
  if task.guarded then some task.mid else none

def runs : JobPhase → Bool
  | .handling _ _ => true
  | _ => false

def Running (task : Task) : Prop := runs task.job.phase = true

instance (task : Task) : Decidable task.Running :=
  inferInstanceAs (Decidable (_ = true))

end Task

inductive TaskMove where
  | proceed
  | query
  | publish (createdAt : U64) (id : EventId)
  | lose (createdAt : U64) (id : EventId)
  | fail
  | handled (outcome : HandlerOutcome)
  | panic
  | drop

structure ProcessSetup (Envelope : Type) extends WorkerSetup Envelope where
  hashtag : String → String

/--
`inFlight` is the set that the guards belong to.  Messages, replies and
heartbeats of the process reach the relay as any other posts do.
-/
structure Process (Envelope : Type) where
  time : Nat
  relay : Relay
  store : Store
  poll : PollPhase
  inFlight : List String
  permits : Nat
  tasks : List Task
  publishes : List (PublishPhase Envelope)

inductive ProcessAction (Envelope : Type) where
  | advance (ms : Nat)
  | poll
  | shutdown
  | task (i : Nat) (move : TaskMove)
  | post (event : Event)
  | publish (call : PublishCall Envelope)
  | publishProceed (i : Nat)
  | publishAccepted (i : Nat) (id : EventId)
  | publishFailed (i : Nat)
  | ingest (event : Event)
  | dlqRetry (mid : String)

namespace Process

variable {Envelope : Type}

/-! ## The poll loop -/

def rest (W : ProcessSetup Envelope) (p : Process Envelope) :
    Process Envelope :=
  { p with poll := .resting (p.time + W.options.pollMs.val) }

def insertInFlight (p : Process Envelope) (record : MessageRecord)
    (batch : List MessageRecord) : Process Envelope :=
  if record.mid ∈ p.inFlight then { p with poll := .dispatching batch }
  else
    { p with
      inFlight := record.mid :: p.inFlight
      poll := .acquiring record batch }

def removeInFlight (p : Process Envelope) (mid : String) : Process Envelope :=
  { p with inFlight := p.inFlight.filter fun other => other ≠ mid }

/-- When all slots are busy, the rest of the batch is left to the next poll. -/
def acquire (W : ProcessSetup Envelope) (p : Process Envelope)
    (record : MessageRecord) (batch : List MessageRecord) : Process Envelope :=
  if p.permits = 0 then (p.removeInFlight record.mid).rest W
  else
    { p with
      permits := p.permits - 1
      poll := .spawning record batch }

def pollStep (W : ProcessSetup Envelope) (p : Process Envelope) :
    Option (Process Envelope) :=
  match p.poll with
  | .sweeping =>
      some { p with
        store := (p.store.expireDue W.queue (timestamp p.time)).2
        poll := .fetching }
  | .fetching =>
      match p.store.claimable (W.scan p.time) W.queue (timestamp p.time)
          (Fin.ofNat 4294967296 W.options.concurrency) with
      | .error _ => some { p with poll := .stopped }
      | .ok batch => some { p with poll := .dispatching batch }
  | .dispatching [] => some (p.rest W)
  | .dispatching (record :: batch) => some (p.insertInFlight record batch)
  | .acquiring record batch => some (p.acquire W record batch)
  | .spawning record batch =>
      some { p with
        tasks := p.tasks ++ [.spawn record W.options]
        poll := .dispatching batch }
  | .resting wakeAt =>
      if wakeAt ≤ p.time then some { p with poll := .sweeping } else none
  | .stopped => none

def shutdown (p : Process Envelope) : Option (Process Envelope) :=
  match p.poll with
  | .sweeping => some { p with poll := .stopped }
  | .resting _ => some { p with poll := .stopped }
  | _ => none

/-! ## Tasks -/

def placed (p : Process Envelope) (i : Nat) (task : Task) (relay : Relay)
    (store : Store) (job : Job) : Process Envelope :=
  { p with
    relay := relay
    store := store
    tasks := p.tasks.set i { task with job := job } }

def advanceTask (W : ProcessSetup Envelope) (p : Process Envelope) (i : Nat)
    (task : Task) (relay : Relay) (input : JobInput) :
    Option (Process Envelope) :=
  (task.job.step W.key p.store input).map fun (store, next) =>
    p.placed i task relay store next

def accepting (W : ProcessSetup Envelope) (p : Process Envelope)
    (draft : Draft) (createdAt : U64) (id : EventId) : Relay :=
  p.relay ++ [⟨p.time, draft.sign W.key createdAt id⟩]

/-- A finished task drops its guard, and then its permit. -/
def dropTask (p : Process Envelope) (i : Nat) (task : Task) :
    Option (Process Envelope) :=
  if task.job.phase ≠ .finished then none
  else if task.guarded then
    some { p.removeInFlight task.mid with
      tasks := p.tasks.set i { task with guarded := false } }
  else if task.permitted then
    some { p with
      permits := p.permits + 1
      tasks := p.tasks.set i { task with permitted := false } }
  else none

/-- A panic ends the job wherever it stands. -/
def taskStep (W : ProcessSetup Envelope) (p : Process Envelope) (i : Nat)
    (task : Task) : TaskMove → Option (Process Envelope)
  | .proceed => p.advanceTask W i task p.relay (.io (.proceed p.time))
  | .query =>
      task.job.query?.bind fun filter =>
        p.advanceTask W i task p.relay (.io (.answer (p.relay.query filter)))
  | .publish createdAt id =>
      (task.job.publish? W.hashtag).bind fun draft =>
        p.advanceTask W i task (p.accepting W draft createdAt id)
          (.io (.accepted p.time))
  | .lose createdAt id =>
      (task.job.publish? W.hashtag).bind fun draft =>
        p.advanceTask W i task (p.accepting W draft createdAt id) (.io .failed)
  | .fail => p.advanceTask W i task p.relay (.io .failed)
  | .handled outcome => p.advanceTask W i task p.relay (.handled outcome)
  | .panic =>
      some (p.placed i task p.relay p.store { task.job with phase := .finished })
  | .drop => p.dropTask i task

/-! ## The process -/

def placePublish (p : Process Envelope) (i : Nat) (store : Store)
    (next : PublishPhase Envelope) : Process Envelope :=
  { p with store := store, publishes := p.publishes.set i next }

def step (W : ProcessSetup Envelope) (p : Process Envelope) :
    ProcessAction Envelope → Option (Process Envelope)
  | .advance ms => some { p with time := p.time + ms }
  | .poll => p.pollStep W
  | .shutdown => p.shutdown
  | .task i move => p.tasks[i]?.bind fun task => p.taskStep W i task move
  | .post event => some { p with relay := p.relay ++ [⟨p.time, event⟩] }
  | .publish call =>
      some { p with publishes := p.publishes ++ [.configuring call] }
  | .publishProceed i =>
      p.publishes[i]?.bind fun phase =>
        (phase.proceed W.codec p.store).map fun (store, next) =>
          p.placePublish i store next
  | .publishAccepted i id =>
      p.publishes[i]?.bind fun phase =>
        (phase.accepted W.codec id (timestamp p.time)).map fun next =>
          p.placePublish i p.store next
  | .publishFailed i =>
      p.publishes[i]?.bind fun phase =>
        phase.failed.map fun next => p.placePublish i p.store next
  | .ingest event => some { p with store := ingest W.codec p.store event }
  | .dlqRetry mid => some { p with store := (p.store.dlqRetry mid).2 }

/-- The worker starts on a store and a relay of any contents. -/
structure Started (W : ProcessSetup Envelope) (p : Process Envelope) :
    Prop where
  poll : p.poll = .sweeping
  inFlight : p.inFlight = []
  permits : p.permits = W.options.concurrency
  tasks : p.tasks = []
  publishes : p.publishes = []

def system (W : ProcessSetup Envelope) :
    System (Process Envelope) (ProcessAction Envelope) where
  init := Started W
  step := step W

/-! ## What a step can be -/

inductive Failed : JobPhase → JobPhase → Prop where
  | claiming {phase : ClaimPhase} :
      Failed (.claiming phase) (.claiming (.returned (.error .transport)))
  | settling {phase : SettlePhase} :
      Failed (.settling phase) (.settling (.settled (.error .transport)))

inductive Works (W : ProcessSetup Envelope) (p : Process Envelope) (job : Job) :
    TaskMove → Relay → Store → JobPhase → Prop where
  | proceed {store : Store} {next : JobPhase} :
      Job.Proceeds W.key p.store p.time job job.phase store next →
      Works W p job .proceed p.relay store next
  | query {filter : Filter} {phase next : ClaimPhase} :
      job.phase = .claiming phase → phase.query? = some filter →
      ClaimPhase.Answers W.key (p.relay.query filter) phase next →
      Works W p job .query p.relay p.store (.claiming next)
  | contend {createdAt : U64} {id : EventId} {call : ClaimCall}
      {observed : U32} {draft : Draft} :
      job.phase = .claiming (.during call (.contending observed)) →
      Works W p job (.publish createdAt id)
        (p.accepting W draft createdAt id) p.store
        (.claiming (.during call
          (.settling observed (p.time + call.settleMs.val))))
  | settle {createdAt : U64} {id : EventId} {phase next : SettlePhase}
      {draft : Draft} :
      job.phase = .settling phase → phase.publish? W.hashtag = some draft →
      SettlePhase.Accepts phase next →
      Works W p job (.publish createdAt id)
        (p.accepting W draft createdAt id) p.store (.settling next)
  | lose {createdAt : U64} {id : EventId} {draft : Draft} {next : JobPhase} :
      job.publish? W.hashtag = some draft → Failed job.phase next →
      Works W p job (.lose createdAt id)
        (p.accepting W draft createdAt id) p.store next
  | fail {next : JobPhase} :
      Failed job.phase next → Works W p job .fail p.relay p.store next
  | handled {outcome : HandlerOutcome} {current : MessageRecord}
      {deadline : Nat} :
      job.phase = .handling current deadline →
      Works W p job (.handled outcome) p.relay p.store
        (.settling (Job.settle job.record outcome))
  | panic : Works W p job .panic p.relay p.store .finished

inductive Step (W : ProcessSetup Envelope) (p : Process Envelope) :
    ProcessAction Envelope → Process Envelope → Prop where
  | advance {ms : Nat} : Step W p (.advance ms) { p with time := p.time + ms }
  | sweep :
      p.poll = .sweeping →
      Step W p .poll { p with
        store := (p.store.expireDue W.queue (timestamp p.time)).2
        poll := .fetching }
  | fetch {batch : List MessageRecord} :
      p.poll = .fetching →
      p.store.claimable (W.scan p.time) W.queue (timestamp p.time)
        (Fin.ofNat 4294967296 W.options.concurrency) = .ok batch →
      Step W p .poll { p with poll := .dispatching batch }
  | skip {record : MessageRecord} {batch : List MessageRecord} :
      p.poll = .dispatching (record :: batch) → record.mid ∈ p.inFlight →
      Step W p .poll { p with poll := .dispatching batch }
  | enter {record : MessageRecord} {batch : List MessageRecord} :
      p.poll = .dispatching (record :: batch) → record.mid ∉ p.inFlight →
      Step W p .poll { p with
        inFlight := record.mid :: p.inFlight
        poll := .acquiring record batch }
  | refuse {record : MessageRecord} {batch : List MessageRecord} :
      p.poll = .acquiring record batch →
      Step W p .poll ((p.removeInFlight record.mid).rest W)
  | acquire {record : MessageRecord} {batch : List MessageRecord} :
      p.poll = .acquiring record batch → p.permits ≠ 0 →
      Step W p .poll { p with
        permits := p.permits - 1
        poll := .spawning record batch }
  | spawn {record : MessageRecord} {batch : List MessageRecord} :
      p.poll = .spawning record batch →
      Step W p .poll { p with
        tasks := p.tasks ++ [.spawn record W.options]
        poll := .dispatching batch }
  | turn {a : ProcessAction Envelope} {poll : PollPhase} :
      a = .poll ∨ a = .shutdown → p.poll.holds? = none → poll.holds? = none → poll.records = [] →
      Step W p a { p with poll := poll }
  | work {i : Nat} {task : Task} {move : TaskMove} {relay : Relay}
      {store : Store} {next : JobPhase} :
      p.tasks[i]? = some task → Works W p task.job move relay store next →
      Step W p (.task i move)
        (p.placed i task relay store { task.job with phase := next })
  | dropGuard {i : Nat} {task : Task} :
      p.tasks[i]? = some task → task.job.phase = .finished →
      task.guarded = true →
      Step W p (.task i .drop) { p.removeInFlight task.mid with
        tasks := p.tasks.set i { task with guarded := false } }
  | dropPermit {i : Nat} {task : Task} :
      p.tasks[i]? = some task → task.job.phase = .finished →
      task.guarded = false →
      Step W p (.task i .drop) { p with
        permits := p.permits + 1
        tasks := p.tasks.set i { task with permitted := false } }
  | post {event : Event} :
      Step W p (.post event) { p with relay := p.relay ++ [⟨p.time, event⟩] }
  | call {call : PublishCall Envelope} :
      Step W p (.publish call)
        { p with publishes := p.publishes ++ [.configuring call] }
  | publish {a : ProcessAction Envelope} {i : Nat}
      {phase next : PublishPhase Envelope} {store : Store} :
      a = .publishProceed i ∨ (∃ id, a = .publishAccepted i id) ∨
        a = .publishFailed i →
      p.publishes[i]? = some phase → (Call.publishing next).Unclaimed →
      (store = p.store ∨ ∃ rec, phase = .inserting rec ∧
        store = (p.store.insertMessage rec).2) →
      Step W p a (p.placePublish i store next)
  | ingest {event : Event} :
      Step W p (.ingest event)
        { p with store := ingest W.codec p.store event }
  | dlqRetry {mid : String} :
      Step W p (.dlqRetry mid) { p with store := (p.store.dlqRetry mid).2 }

variable {W : ProcessSetup Envelope} {p p' : Process Envelope}

private theorem pollStep_cases (h : p.pollStep W = some p') :
    Step W p .poll p' := by
  unfold pollStep at h
  split at h
  · next hpoll =>
      cases h
      exact .sweep hpoll
  · next hpoll =>
      split at h
      · cases h
        exact .turn (Or.inl rfl) (by simp [hpoll, PollPhase.holds?]) rfl rfl
      · next batch hbatch =>
          cases h
          exact .fetch hpoll hbatch
  · next hpoll =>
      cases h
      exact .turn (Or.inl rfl) (by simp [hpoll, PollPhase.holds?]) rfl rfl
  · next record batch hpoll =>
      cases h
      unfold insertInFlight
      split
      · next hin => exact .skip hpoll hin
      · next hout => exact .enter hpoll hout
  · next record batch hpoll =>
      cases h
      unfold acquire
      split
      · exact .refuse hpoll
      · next hfree => exact .acquire hpoll hfree
  · next record batch hpoll =>
      cases h
      exact .spawn hpoll
  · next wakeAt hpoll =>
      split at h
      · cases h
        exact .turn (Or.inl rfl) (by simp [hpoll, PollPhase.holds?]) rfl rfl
      · contradiction
  · contradiction

private theorem shutdown_cases (h : p.shutdown = some p') :
    Step W p .shutdown p' := by
  unfold shutdown at h
  split at h
  · next hpoll =>
      cases h
      exact .turn (Or.inr rfl) (by simp [hpoll, PollPhase.holds?]) rfl rfl
  · next hpoll =>
      cases h
      exact .turn (Or.inr rfl) (by simp [hpoll, PollPhase.holds?]) rfl rfl
  · contradiction

private theorem advanceTask_cases {i : Nat} {task : Task} {relay : Relay}
    {input : JobInput}
    (h : p.advanceTask W i task relay input = some p') :
    ∃ store next, task.job.step W.key p.store input = some (store, next) ∧
      p' = p.placed i task relay store { task.job with phase := next.phase } := by
  obtain ⟨⟨store, next⟩, hstep, rfl⟩ := Option.map_eq_some_iff.mp h
  refine ⟨store, next, hstep, ?_⟩
  rw [← Job.step_eq hstep]

private theorem failed_cases {job next : Job} {s s' : Store}
    {key : PublicKey} (h : job.step key s (.io .failed) = some (s', next)) :
    s' = s ∧ Failed job.phase next.phase := by
  obtain ⟨rfl, ⟨phase, hphase, -, hnext⟩ | ⟨phase, hphase, hnext⟩⟩ :=
    Job.step_failed h
  · rw [hphase, hnext]
    exact ⟨rfl, .claiming⟩
  · rw [hphase, hnext]
    exact ⟨rfl, .settling⟩

private theorem query_of_claiming {job : Job} {filter : Filter}
    {phase : ClaimPhase} (h : job.query? = some filter)
    (hphase : job.phase = .claiming phase) : phase.query? = some filter := by
  unfold Job.query? at h
  rwa [hphase] at h

private theorem publish_of_settling {job : Job} {hashtag : String → String}
    {draft : Draft} {phase : SettlePhase} (h : job.publish? hashtag = some draft)
    (hphase : job.phase = .settling phase) :
    phase.publish? hashtag = some draft := by
  unfold Job.publish? at h
  rwa [hphase] at h

private theorem taskStep_cases {i : Nat} {task : Task} {move : TaskMove}
    (htask : p.tasks[i]? = some task)
    (h : p.taskStep W i task move = some p') :
    Step W p (.task i move) p' := by
  cases move with
  | proceed =>
      obtain ⟨store, next, hstep, rfl⟩ := advanceTask_cases h
      exact .work htask (.proceed (Job.step_proceed hstep))
  | query =>
      obtain ⟨filter, hfilter, h⟩ := Option.bind_eq_some_iff.mp h
      obtain ⟨store, next, hstep, rfl⟩ := advanceTask_cases h
      obtain ⟨rfl, phase, after, hphase, hnext, hanswers⟩ :=
        Job.step_answer hstep
      rw [hnext]
      exact .work htask
        (.query hphase (query_of_claiming hfilter hphase) hanswers)
  | publish createdAt id =>
      obtain ⟨draft, hdraft, h⟩ := Option.bind_eq_some_iff.mp h
      obtain ⟨store, next, hstep, rfl⟩ := advanceTask_cases h
      obtain ⟨rfl, ⟨call, observed, hphase, hnext⟩ |
        ⟨phase, after, hphase, hnext, haccepts⟩⟩ := Job.step_accepted hstep
      · rw [hnext]
        exact .work htask (.contend hphase)
      · rw [hnext]
        exact .work htask
          (.settle hphase (publish_of_settling hdraft hphase) haccepts)
  | lose createdAt id =>
      obtain ⟨draft, hdraft, h⟩ := Option.bind_eq_some_iff.mp h
      obtain ⟨store, next, hstep, rfl⟩ := advanceTask_cases h
      obtain ⟨rfl, hfailed⟩ := failed_cases hstep
      exact .work htask (.lose hdraft hfailed)
  | fail =>
      obtain ⟨store, next, hstep, rfl⟩ := advanceTask_cases h
      obtain ⟨rfl, hfailed⟩ := failed_cases hstep
      exact .work htask (.fail hfailed)
  | handled outcome =>
      obtain ⟨store, next, hstep, rfl⟩ := advanceTask_cases h
      obtain ⟨rfl, current, deadline, hphase, hnext⟩ := Job.step_handled hstep
      rw [hnext]
      exact .work htask (.handled hphase)
  | panic =>
      cases h
      exact .work htask .panic
  | drop =>
      simp only [taskStep, dropTask] at h
      split at h
      · contradiction
      · next hfinished =>
          have hphase := not_not.mp hfinished
          split at h
          · next hguarded =>
              cases h
              exact .dropGuard htask hphase hguarded
          · next hguarded =>
              split at h
              · cases h
                exact .dropPermit htask hphase (by simpa using hguarded)
              · contradiction

theorem step_cases {a : ProcessAction Envelope} (h : p.step W a = some p') :
    Step W p a p' := by
  cases a with
  | advance ms =>
      cases h
      exact .advance
  | poll => exact pollStep_cases h
  | shutdown => exact shutdown_cases h
  | task i move =>
      obtain ⟨task, htask, h⟩ := Option.bind_eq_some_iff.mp h
      exact taskStep_cases htask h
  | post event =>
      cases h
      exact .post
  | publish call =>
      cases h
      exact .call
  | publishProceed i =>
      obtain ⟨phase, hphase, h⟩ := Option.bind_eq_some_iff.mp h
      obtain ⟨⟨store, next⟩, hproceed, rfl⟩ := Option.map_eq_some_iff.mp h
      obtain ⟨hnext, hstore⟩ := PublishPhase.proceed_unclaimed hproceed
      exact .publish (Or.inl rfl) hphase hnext hstore
  | publishAccepted i id =>
      obtain ⟨phase, hphase, h⟩ := Option.bind_eq_some_iff.mp h
      obtain ⟨next, haccepted, rfl⟩ := Option.map_eq_some_iff.mp h
      exact .publish (Or.inr (Or.inl ⟨id, rfl⟩)) hphase
        (PublishPhase.accepted_unclaimed haccepted) (Or.inl rfl)
  | publishFailed i =>
      obtain ⟨phase, hphase, h⟩ := Option.bind_eq_some_iff.mp h
      obtain ⟨next, hfailed, rfl⟩ := Option.map_eq_some_iff.mp h
      exact .publish (Or.inr (Or.inr rfl)) hphase
        (PublishPhase.failed_unclaimed hfailed) (Or.inl rfl)
  | ingest event =>
      cases h
      exact .ingest
  | dlqRetry mid =>
      cases h
      exact .dlqRetry

section Runs

def sampleProcess : ProcessSetup String where
  key := hexOf 'a'
  queue := "jobs"
  options := ⟨2, 60, 0, 500⟩
  codec := Publishing.textCodec
  scan _ := .stored
  hashtag := id

def sampleBoot : Process String where
  time := 0
  relay := []
  store := (Store.empty.insertMessage sampleRecord).2
  poll := .sweeping
  inFlight := []
  permits := 2
  tasks := []
  publishes := []

theorem sampleBoot_started : Started sampleProcess sampleBoot :=
  ⟨rfl, rfl, rfl, rfl, rfl⟩

/-- A cycle spawns the message; the next one fetches its row once more. -/
def staleMoves : List (ProcessAction String) :=
  List.replicate 6 .poll ++ [.advance 500, .poll, .poll, .poll]

def winMoves (i : Nat) (id : EventId) : List (ProcessAction String) :=
  [.task i .proceed, .task i .query, .task i .query, .task i .query,
    .task i (.publish 0 id), .task i .proceed, .task i .query, .task i .query,
    .task i .proceed]

/-- The loop puts the row it still has in flight, and spawns it. -/
def respawnMoves : List (ProcessAction String) := List.replicate 3 .poll

end Runs

end Process

end NostrQ.Worker
