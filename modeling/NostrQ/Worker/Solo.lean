import NostrQ.Core.Codec
import NostrQ.Foundation.Budget
import NostrQ.Foundation.Transition
import NostrQ.Worker.Job

/-!
# A worker alone with a message

One node runs the jobs of one message, each after the one before it is done, on
records it has read at any earlier moment.  Its handler fails every time, and
nobody else posts about the message.  A log says what the handler is told, how
the nacks return, and when the message is retried from the dead letters.
-/

namespace NostrQ.Worker

open NostrQ.Foundation NostrQ.Core NostrQ.Database NostrQ.Sdk

structure JobContext (Value : Type) where
  mid : String
  queue : String
  traceId : String
  attempt : U32
  generation : U32
  idem : Option String
  payload : Value
  eventId : String
  replyTo : Option String

/-- The attempts made since the last retry granted a fresh budget. -/
def attemptOf (record : MessageRecord) : U32 :=
  ⟨record.attempts.val - record.attemptFloor.val, by omega⟩

/-- An envelope that does not parse leaves the payload `null`. -/
def JobContext.fromRecord {Value : Type} (codec : Codec (Envelope Value))
    (null : Value) (record : MessageRecord) : JobContext Value where
  mid := record.mid
  queue := record.queue
  traceId := record.traceId
  attempt := attemptOf record
  generation := record.attempts
  idem := record.idemKey
  payload :=
    match codec.fromJson record.envelopeJson with
    | .ok envelope => envelope.body
    | .error _ => null
  eventId := record.eventId
  replyTo := record.replyTo

structure SoloSetup (Value : Type) where
  key : PublicKey
  codec : Codec (Envelope Value)
  null : Value
  mid : String
  message : EventId
  settleMs : U64

structure Solo where
  time : Nat
  relay : Relay
  store : Store
  records : List MessageRecord
  job : Option Job
  log : List Budget.Mark

inductive SoloAction where
  | advance (ms : Nat)
  | post (event : Event)
  | elsewhere (store : Store)
  | sweep (queue : String)
  | dlqRetry
  | read
  | spawn (record : MessageRecord) (leaseSeconds : U64)
  | proceed
  | query
  | publish (createdAt : U64) (id : EventId)
  | failed (reason : String)

namespace SoloSetup

variable {Value : Type} (S : SoloSetup Value)

/-- What is seen of a job when it enters a phase. -/
def marks : JobPhase → List Budget.Mark
  | .handling current _ =>
      [.ran (JobContext.fromRecord S.codec S.null current).attempt.val]
  | .settling (.settled (.ok (.nacked (.retry _ _)))) => [.retry]
  | .settling (.settled (.ok (.nacked .deadLettered))) => [.exhausted]
  | _ => []

def nackedAttempts (relay : Relay) : List Nat :=
  (relay.query (nackFilter S.message)).map fun event => (eventAttempt event).val

def nacks (relay : Relay) : Nat :=
  (relay.query (nackFilter S.message)).length

/-- The message is stored, and its row counts nothing yet. -/
def Stored (s : Store) : Prop :=
  ∃ row, s.row? S.mid = some row ∧
    Hex32.fromHex row.eventId = some S.message ∧
    row.status ≠ .dead ∧ row.attempts = 0 ∧ row.attemptFloor = 0

end SoloSetup

def Done : Option Job → Prop
  | none => True
  | some job => job.phase = .finished

instance (job : Option Job) : Decidable (Done job) :=
  match job with
  | none => inferInstanceAs (Decidable True)
  | some job => inferInstanceAs (Decidable (job.phase = .finished))

namespace Solo

variable {Value : Type} (S : SoloSetup Value) (p : Solo)

def resumed (relay : Relay) (store : Store) (job : Job) (phase : JobPhase) :
    Solo :=
  { p with
    relay := relay
    store := store
    job := some { job with phase := phase }
    log := p.log ++ S.marks phase }

def resume (relay : Relay) (input : JobInput) : Option Solo :=
  p.job.bind fun job =>
    (job.step S.key p.store input).map fun (store, next) =>
      p.resumed S relay store job next.phase

def accept (event : Event) : Relay := p.relay ++ [⟨p.time, event⟩]

def dlqRetry : Option Solo :=
  match p.store.row? S.mid with
  | some row =>
      if row.status = .dead then
        some { p with
          store := (p.store.dlqRetry S.mid).2
          log := p.log ++ [.granted] }
      else none
  | none => none

def read : Option Solo :=
  match p.store.getMessage S.mid with
  | .ok (some record) => some { p with records := p.records ++ [record] }
  | _ => none

def step : SoloAction → Option Solo
  | .advance ms => some { p with time := p.time + ms }
  | .post event =>
      if Unrelated S.message event then some { p with relay := p.accept event }
      else none
  | .elsewhere store =>
      if store.row? S.mid = p.store.row? S.mid then
        some { p with store := store }
      else none
  | .sweep queue =>
      some { p with store := (p.store.expireDue queue (timestamp p.time)).2 }
  | .dlqRetry => p.dlqRetry S
  | .read => p.read S
  | .spawn record leaseSeconds =>
      if record ∈ p.records ∧ Done p.job then
        some { p with job := some (.spawn record leaseSeconds S.settleMs) }
      else none
  | .proceed => p.resume S p.relay (.io (.proceed p.time))
  | .query =>
      (p.job.bind Job.query?).bind fun filter =>
        p.resume S p.relay (.io (.answer (p.relay.query filter)))
  | .publish createdAt id =>
      (p.job.bind fun job => job.publish? S.codec.hashtag).bind fun draft =>
        p.resume S (p.accept (draft.sign S.key createdAt id))
          (.io (.accepted p.time))
  | .failed reason => p.resume S p.relay (.handled (.failure reason))

/-- The message is stored, and nothing of its life is on the relay yet. -/
structure Published : Prop where
  row : S.Stored p.store
  relay : ∀ accepted ∈ p.relay, Unrelated S.message accepted.event
  records : p.records = []
  job : p.job = none
  log : p.log = []

def system : System Solo SoloAction where
  init := Published S
  step := step S

def maxAttempts (queue : String) : U32 :=
  ((p.store.getQueue queue).getD (QueueConfig.workQueue queue)).maxAttempts

def Lost : JobPhase → Prop
  | .claiming (.expiring _ _) => True
  | .claiming (.during _ .ackObserved) => True
  | .claiming (.during _ (.dlqObserved _)) => True
  | .claiming (.returned result) => result ≠ .ok true
  | .settling (.settled (.ok (.nacked _))) => False
  | .settling (.settled _) => True
  | _ => False

instance (phase : JobPhase) : Decidable (Lost phase) := by
  unfold Lost
  split <;> infer_instance

/--
The queue's `max_attempts` is the limit, and no call goes on that does not win
its claim or does not bring its nack to an end.
-/
def Winning (limit : U32) (p : Solo) (a : SoloAction) : Prop :=
  (∀ row ∈ p.store.row? S.mid, p.maxAttempts row.queue = limit) ∧
    match a with
    | .proceed => ∀ job ∈ p.job, ¬ Lost job.phase
    | _ => True

instance (limit : U32) (p : Solo) (a : SoloAction) :
    Decidable (Winning S limit p a) :=
  match a with
  | .proceed => inferInstanceAs (Decidable (_ ∧ ∀ _ ∈ _, _))
  | .advance _ | .post _ | .elsewhere _ | .sweep _ | .dlqRetry | .read
  | .spawn _ _ | .query | .publish _ _ | .failed _ =>
      inferInstanceAs (Decidable (_ ∧ True))

/-! ### What a step can be -/

inductive Works (job : Job) : SoloAction → Relay → Store → JobPhase → Prop where
  | proceed {store : Store} {next : JobPhase} :
      Job.Proceeds S.key p.store p.time job job.phase store next →
      Works job .proceed p.relay store next
  | query {phase next : ClaimPhase} {filter : Filter} :
      job.phase = .claiming phase → phase.query? = some filter →
      ClaimPhase.Answers S.key (p.relay.query filter) phase next →
      Works job .query p.relay p.store (.claiming next)
  | contend {call : ClaimCall} {observed : U32} {createdAt : U64}
      {id : EventId} :
      job.phase = .claiming (.during call (.contending observed)) →
      Works job (.publish createdAt id)
        (p.accept ((buildClaimEvent S.codec.hashtag call.messageRef
          call.leaseExpiresAt (call.claimAttempt observed)).sign S.key
          createdAt id))
        p.store
        (.claiming (.during call
          (.settling observed (p.time + call.settleMs.val))))
  | settle {phase next : SettlePhase} {draft : Draft} {createdAt : U64}
      {id : EventId} :
      job.phase = .settling phase →
      phase.publish? S.codec.hashtag = some draft →
      SettlePhase.Accepts phase next →
      Works job (.publish createdAt id)
        (p.accept (draft.sign S.key createdAt id)) p.store (.settling next)
  | failed {current : MessageRecord} {deadline : Nat} {reason : String} :
      job.phase = .handling current deadline →
      Works job (.failed reason) p.relay p.store
        (.settling (.nacking job.record.mid reason))

inductive Step : SoloAction → Solo → Prop where
  | advance {ms : Nat} : Step (.advance ms) { p with time := p.time + ms }
  | post {event : Event} : Unrelated S.message event →
      Step (.post event) { p with relay := p.accept event }
  | elsewhere {store : Store} : store.row? S.mid = p.store.row? S.mid →
      Step (.elsewhere store) { p with store := store }
  | sweep {queue : String} :
      Step (.sweep queue)
        { p with store := (p.store.expireDue queue (timestamp p.time)).2 }
  | dlqRetry {row : Row} :
      p.store.row? S.mid = some row → row.status = .dead →
      Step .dlqRetry { p with
        store := (p.store.dlqRetry S.mid).2
        log := p.log ++ [.granted] }
  | read {record : MessageRecord} :
      p.store.getMessage S.mid = .ok (some record) →
      Step .read { p with records := p.records ++ [record] }
  | spawn {record : MessageRecord} {leaseSeconds : U64} :
      record ∈ p.records → Done p.job →
      Step (.spawn record leaseSeconds)
        { p with job := some (.spawn record leaseSeconds S.settleMs) }
  | work {a : SoloAction} {job : Job} {relay : Relay} {store : Store}
      {phase : JobPhase} :
      p.job = some job → p.Works S job a relay store phase →
      Step a (p.resumed S relay store job phase)

variable {S p} {p' : Solo}

private theorem resume_cases {relay : Relay} {input : JobInput}
    (h : p.resume S relay input = some p') :
    ∃ job store next, p.job = some job ∧
      job.step S.key p.store input = some (store, next) ∧
      p' = p.resumed S relay store job next.phase := by
  obtain ⟨job, hjob, h⟩ := Option.bind_eq_some_iff.mp h
  obtain ⟨⟨store, next⟩, hstep, rfl⟩ := Option.map_eq_some_iff.mp h
  exact ⟨job, store, next, hjob, hstep, rfl⟩

private theorem step_query (h : p.step S .query = some p') :
    p.Step S .query p' := by
  obtain ⟨filter, hfilter, h⟩ := Option.bind_eq_some_iff.mp h
  obtain ⟨job, store, next, hjob, hstep, rfl⟩ := resume_cases h
  obtain ⟨rfl, phase, after, hphase, hnext, hanswers⟩ := Job.step_answer hstep
  rw [hjob, Option.bind_some, Job.query?, hphase] at hfilter
  rw [hnext]
  exact .work hjob (.query hphase hfilter hanswers)

private theorem step_publish {createdAt : U64} {id : EventId}
    (h : p.step S (.publish createdAt id) = some p') :
    p.Step S (.publish createdAt id) p' := by
  obtain ⟨draft, hdraft, h⟩ := Option.bind_eq_some_iff.mp h
  obtain ⟨job, store, next, hjob, hstep, rfl⟩ := resume_cases h
  rw [hjob, Option.bind_some, Job.publish?] at hdraft
  obtain ⟨rfl, ⟨call, observed, hphase, hnext⟩ |
    ⟨phase, after, hphase, hnext, haccepts⟩⟩ := Job.step_accepted hstep
  · rw [hphase] at hdraft
    cases hdraft
    rw [hnext]
    exact .work hjob (.contend hphase)
  · rw [hphase] at hdraft
    rw [hnext]
    exact .work hjob (.settle hphase hdraft haccepts)

theorem step_cases {a : SoloAction} (h : p.step S a = some p') :
    p.Step S a p' := by
  cases a with
  | advance ms =>
      cases h
      exact .advance
  | post event =>
      simp only [step] at h
      split at h
      · next hunrelated =>
          cases h
          exact .post hunrelated
      · contradiction
  | elsewhere store =>
      simp only [step] at h
      split at h
      · next hrow =>
          cases h
          exact .elsewhere hrow
      · contradiction
  | sweep queue =>
      cases h
      exact .sweep
  | dlqRetry =>
      simp only [step, Solo.dlqRetry] at h
      split at h
      · next row hrow =>
          split at h
          · next hdead =>
              cases h
              exact .dlqRetry hrow hdead
          · contradiction
      · contradiction
  | read =>
      simp only [step, Solo.read] at h
      split at h
      · next record hrecord =>
          cases h
          exact .read hrecord
      · contradiction
  | spawn record leaseSeconds =>
      simp only [step] at h
      split at h
      · next hguard =>
          cases h
          exact .spawn hguard.1 hguard.2
      · contradiction
  | proceed =>
      obtain ⟨job, store, next, hjob, hstep, rfl⟩ := resume_cases h
      exact .work hjob (.proceed (Job.step_proceed hstep))
  | query => exact step_query h
  | publish createdAt id => exact step_publish h
  | failed reason =>
      obtain ⟨job, store, next, hjob, hstep, rfl⟩ := resume_cases h
      obtain ⟨rfl, current, deadline, hphase, hnext⟩ := Job.step_handled hstep
      rw [hnext]
      exact .work hjob (.failed hphase)

end Solo

end NostrQ.Worker
