import Mathlib.Logic.Function.Basic
import NostrQ.Sdk.Publish
import NostrQ.Worker.Job

/-!
# The worker of a node

The poll loop of one worker and the jobs it has spawned, beside the rest of what
writes to the node's store: publishing calls, ingest loops and the dlq retries
of the command line.  The relay may give any answers.
-/

namespace NostrQ.Worker

open NostrQ.Foundation NostrQ.Core NostrQ.Database NostrQ.Sdk

structure WorkerOptions where
  concurrency : Nat
  leaseSeconds : U64
  settleMs : U64
  pollMs : U64

inductive LoopPhase where
  | sweeping
  | fetching
  | dispatching (batch : List MessageRecord)
  | resting (wakeAt : Nat)
  | stopped
  deriving DecidableEq

def LoopPhase.batch : LoopPhase → List MessageRecord
  | .dispatching batch => batch
  | _ => []

/--
The jobs in flight, by message id, and the free slots of the semaphore;
`retries` are the dlq retries that have found their row dead.
-/
structure LocalNode (Envelope : Type) where
  time : Nat
  store : Store
  loop : LoopPhase
  permits : Nat
  jobs : String → Option Job
  publishes : List (PublishPhase Envelope)
  retries : List String

inductive JobMove where
  | proceed
  | answer (events : List Event)
  | accepted
  | failed
  | handled (outcome : HandlerOutcome)

def JobMove.at (time : Nat) : JobMove → JobInput
  | .proceed => .io (.proceed time)
  | .answer events => .io (.answer events)
  | .accepted => .io (.accepted time)
  | .failed => .io .failed
  | .handled outcome => .handled outcome

inductive LocalAction (Envelope : Type) where
  | advance (ms : Nat)
  | poll
  | shutdown
  | job (mid : String) (move : JobMove)
  | publish (call : PublishCall Envelope)
  | publishProceed (i : Nat)
  | publishAccepted (i : Nat) (id : EventId)
  | publishFailed (i : Nat)
  | ingest (event : Event)
  | checkRetry (mid : String)
  | retry (mid : String)

structure WorkerSetup (Envelope : Type) where
  key : PublicKey
  queue : String
  options : WorkerOptions
  codec : Codec Envelope
  /-- How the query for a batch meets the rows, at each time. -/
  scan : Nat → Scan Row

namespace LocalNode

variable {Envelope : Type}

def rest (W : WorkerSetup Envelope) (n : LocalNode Envelope) :
    LocalNode Envelope :=
  { n with loop := .resting (n.time + W.options.pollMs.val) }

def spawn (W : WorkerSetup Envelope) (n : LocalNode Envelope)
    (record : MessageRecord) : LocalNode Envelope :=
  { n with
    permits := n.permits - 1
    jobs := Function.update n.jobs record.mid
      (some (.spawn record W.options.leaseSeconds W.options.settleMs)) }

/--
A record whose message is in flight is skipped; when no slot is free, the rest
of the batch is dropped.
-/
def dispatch (W : WorkerSetup Envelope) (n : LocalNode Envelope) :
    List MessageRecord → LocalNode Envelope
  | [] => n.rest W
  | record :: batch =>
      if (n.jobs record.mid).isSome then { n with loop := .dispatching batch }
      else if n.permits = 0 then n.rest W
      else { n.spawn W record with loop := .dispatching batch }

def poll (W : WorkerSetup Envelope) (n : LocalNode Envelope) :
    Option (LocalNode Envelope) :=
  match n.loop with
  | .sweeping =>
      some { n with
        store := (n.store.expireDue W.queue (timestamp n.time)).2
        loop := .fetching }
  | .fetching =>
      match n.store.claimable (W.scan n.time) W.queue (timestamp n.time)
          (Fin.ofNat 4294967296 W.options.concurrency) with
      | .error _ => some { n with loop := .stopped }
      | .ok batch => some { n with loop := .dispatching batch }
  | .dispatching batch => some (n.dispatch W batch)
  | .resting wakeAt =>
      if wakeAt ≤ n.time then some { n with loop := .sweeping } else none
  | .stopped => none

/-- The loop looks for a shutdown at its head and while it rests. -/
def shutdown (n : LocalNode Envelope) : Option (LocalNode Envelope) :=
  match n.loop with
  | .sweeping => some { n with loop := .stopped }
  | .resting _ => some { n with loop := .stopped }
  | _ => none

/-- A finished job frees its slot. -/
def placeJob (n : LocalNode Envelope) (mid : String) (store : Store)
    (next : Job) : LocalNode Envelope :=
  match next.phase with
  | .finished =>
      { n with
        store := store
        permits := n.permits + 1
        jobs := Function.update n.jobs mid none }
  | _ =>
      { n with
        store := store
        jobs := Function.update n.jobs mid (some next) }

def placePublish (n : LocalNode Envelope) (i : Nat) (store : Store)
    (next : PublishPhase Envelope) : LocalNode Envelope :=
  { n with store := store, publishes := n.publishes.set i next }

def step (W : WorkerSetup Envelope) (n : LocalNode Envelope) :
    LocalAction Envelope → Option (LocalNode Envelope)
  | .advance ms => some { n with time := n.time + ms }
  | .poll => n.poll W
  | .shutdown => n.shutdown
  | .job mid move =>
      (n.jobs mid).bind fun job =>
        (job.step W.key n.store (move.at n.time)).map fun (store, next) =>
          n.placeJob mid store next
  | .publish call =>
      some { n with publishes := n.publishes ++ [.configuring call] }
  | .publishProceed i =>
      n.publishes[i]?.bind fun phase =>
        (phase.proceed W.codec n.store).map fun (store, next) =>
          n.placePublish i store next
  | .publishAccepted i id =>
      n.publishes[i]?.bind fun phase =>
        (phase.accepted W.codec id (timestamp n.time)).map fun next =>
          n.placePublish i n.store next
  | .publishFailed i =>
      n.publishes[i]?.bind fun phase =>
        phase.failed.map fun next => n.placePublish i n.store next
  | .ingest event => some { n with store := ingest W.codec n.store event }
  | .checkRetry mid =>
      match n.store.getMessage mid with
      | .ok (some record) =>
          if record.status = .dead then
            some { n with retries := mid :: n.retries }
          else none
      | _ => none
  | .retry mid =>
      if mid ∈ n.retries then
        some { n with
          store := (n.store.dlqRetry mid).2
          retries := n.retries.erase mid }
      else none

def Started (W : WorkerSetup Envelope) (n : LocalNode Envelope) : Prop :=
  ∃ time store, n = {
    time := time
    store := store
    loop := .sweeping
    permits := W.options.concurrency
    jobs := fun _ => none
    publishes := []
    retries := [] }

def system (W : WorkerSetup Envelope) :
    System (LocalNode Envelope) (LocalAction Envelope) where
  init := Started W
  step := step W

/-! ## What must not get in the way of a job -/

def busy : JobPhase → Bool
  | .claiming (.during _ _) => true
  | .claiming (.returned (.ok true)) => true
  | .handling _ _ => true
  | .settling (.settled _) => false
  | .settling _ => true
  | _ => false

/-- No row that is due has a busy job. -/
def Spares (n : LocalNode Envelope) (queue : String) (now : Int) : Prop :=
  ∀ row ∈ n.store.messages.rows, Store.Due queue now row →
    ∀ job ∈ n.jobs row.mid, busy job.phase = false

instance (n : LocalNode Envelope) (queue : String) (now : Int) :
    Decidable (n.Spares queue now) :=
  inferInstanceAs (Decidable (∀ _ ∈ _, _ → ∀ _ ∈ _, _))

/-- The answer to the terminal query of a call whose row is settled says so. -/
def Confirms (call : ClaimCall) (events : List Event) (status : Status) :
    Prop :=
  (status = .acked → ∃ event ∈ events, event.kind = KIND_ACK) ∧
  (status = .dead → (∀ event ∈ events, event.kind ≠ KIND_ACK) ∧
    call.record.attemptFloor < ClaimCall.dlqAttempt events)

instance (call : ClaimCall) (events : List Event) (status : Status) :
    Decidable (Confirms call events status) :=
  inferInstanceAs (Decidable ((_ → _) ∧ (_ → _ ∧ _)))

def expires? : JobPhase → Option (String × Int)
  | .claiming (.expiring record now) => some (record.queue, now)
  | _ => none

def terminalCheck? : JobPhase → Option ClaimCall
  | .claiming (.during call .terminalCheck) => some call
  | _ => none

def Unspoilt (n : LocalNode Envelope) (job : Job) : JobMove → Prop
  | .proceed =>
      ∀ expiry ∈ expires? job.phase, n.Spares expiry.1 expiry.2
  | .answer events =>
      ∀ call ∈ terminalCheck? job.phase, ∀ row ∈ n.store.row? job.record.mid,
        Confirms call events row.status
  | _ => True

instance (n : LocalNode Envelope) (job : Job) (move : JobMove) :
    Decidable (n.Unspoilt job move) :=
  match move with
  | .proceed => inferInstanceAs (Decidable (∀ _ ∈ _, _))
  | .answer _ => inferInstanceAs (Decidable (∀ _ ∈ _, ∀ _ ∈ _, _))
  | .accepted | .failed | .handled _ => inferInstanceAs (Decidable True)

/--
A sweep or a TTL check expires no row with a busy job, a terminal query about a
settled row is answered accordingly, and a retry finds a row that is neither
acked nor expired.
-/
def Unspoiling (W : WorkerSetup Envelope) (n : LocalNode Envelope) :
    LocalAction Envelope → Prop
  | .poll => n.loop = .sweeping → n.Spares W.queue (timestamp n.time)
  | .job mid move => ∀ job ∈ n.jobs mid, n.Unspoilt job move
  | .retry mid => ∀ row ∈ n.store.row? mid,
      row.status ≠ .acked ∧ row.status ≠ .expired
  | _ => True

instance (W : WorkerSetup Envelope) (n : LocalNode Envelope)
    (a : LocalAction Envelope) : Decidable (n.Unspoiling W a) :=
  match a with
  | .poll => inferInstanceAs (Decidable (_ → _))
  | .job _ _ => inferInstanceAs (Decidable (∀ _ ∈ _, _))
  | .retry _ => inferInstanceAs (Decidable (∀ _ ∈ _, _ ∧ _))
  | .advance _ | .shutdown | .publish _ | .publishProceed _
  | .publishAccepted _ _ | .publishFailed _ | .ingest _ | .checkRetry _ =>
      inferInstanceAs (Decidable True)

end LocalNode

end NostrQ.Worker
