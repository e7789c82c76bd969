import NostrQ.Cluster.MutualExclusion
import NostrQ.Foundation.Simulation
import NostrQ.Worker.OwnRow

/-!
# Whole processes sharing a relay

Any number of worker processes, each with its poll loop, its permits and its
tasks for any number of messages.  Seen for one of the messages, such a fleet
does only what a net of workers does: each process is a worker with at most one
job, and everything else that happens is foreign to the message.
-/

namespace NostrQ.Cluster

open NostrQ.Foundation NostrQ.Core NostrQ.Database NostrQ.Sdk NostrQ.Worker

structure FleetSetup (W Envelope : Type) where
  worker : W → ProcessSetup Envelope
  hashtag : String → String
  settleMs : U64
  distinct : Function.Injective fun w => (worker w).key
  hashtags : ∀ w, (worker w).hashtag = hashtag
  settles : ∀ w, (worker w).options.settleMs = settleMs

structure Fleet (W Envelope : Type) where
  time : Nat
  relay : Relay
  processes : W → Process Envelope

/-- A message, and the row that each worker's store has for it at first. -/
structure Subject (W : Type) where
  message : EventId
  mid : String
  row : W → Row
  mids : ∀ w, (row w).mid = mid
  named : ∀ w, Hex32.fromHex (row w).eventId = some message

variable {W Envelope : Type}

def FleetSetup.deployment (S : FleetSetup W Envelope) (T : Subject W) :
    Deployment W where
  key w := (S.worker w).key
  distinct := S.distinct
  hashtag := S.hashtag
  message := T.message
  mid := T.mid
  settleMs := S.settleMs

namespace Fleet

def process (F : Fleet W Envelope) (w : W) : Process Envelope :=
  { F.processes w with time := F.time, relay := F.relay }

def store (F : Fleet W Envelope) (w : W) : Store := (F.processes w).store

variable [DecidableEq W]

def place (F : Fleet W Envelope) (w : W) (p : Process Envelope) :
    Fleet W Envelope where
  time := p.time
  relay := p.relay
  processes := Function.update F.processes w p

def step (S : FleetSetup W Envelope) (F : Fleet W Envelope) :
    W × ProcessAction Envelope → Option (Fleet W Envelope)
  | (w, a) => ((F.process w).step (S.worker w) a).map (F.place w)

end Fleet

/-! ## One message among others -/

namespace Subject

variable (T : Subject W)

/-- The message gets its own row, and no other message has its event id. -/
def Admits (w : W) (row : Row) : Prop :=
  if row.mid = T.mid then row = T.row w
  else Hex32.fromHex row.eventId ≠ some T.message

instance (w : W) (row : Row) : Decidable (T.Admits w row) :=
  inferInstanceAs (Decidable (ite _ _ _))

/-- Since the record was fetched, its row has not changed in what it reads. -/
def Current (s : Store) (record : MessageRecord) : Prop :=
  match s.getMessage record.mid with
  | .ok (some current) => ReadsAlike record current
  | _ => False

instance (s : Store) (record : MessageRecord) :
    Decidable (Current s record) := by
  unfold Current
  split <;> infer_instance

variable [DecidableEq W] (S : FleetSetup W Envelope)

def system : System (Fleet W Envelope) (W × ProcessAction Envelope) where
  init F := F.relay = [] ∧ ∀ w, Process.Started (S.worker w) (F.process w) ∧
    ∀ row ∈ (F.store w).messages.rows, T.Admits w row
  step := Fleet.step S

/-- An id is an event's own, and a new row one that the message admits. -/
def Accountable (F : Fleet W Envelope) (w : W) (F' : Fleet W Envelope) : Prop :=
  (∀ accepted ∈ F'.relay.drop F.relay.length,
    NoCollision F.relay accepted.event) ∧
  ∀ row ∈ (F'.store w).messages.rows, (F.store w).row? row.mid = none →
    T.Admits w row

instance (F : Fleet W Envelope) (w : W) (F' : Fleet W Envelope) :
    Decidable (T.Accountable F w F') :=
  inferInstanceAs (Decidable (_ ∧ _))

/--
Nobody else posts about the message, no record of it is stale when its task is
spawned, and only a dead message is retried.
-/
def Sheltered (F : Fleet W Envelope) (w : W) : ProcessAction Envelope → Prop
  | .post event => Unrelated T.message event
  | .poll =>
      match (F.processes w).poll with
      | .spawning record _ => record.mid = T.mid → Current (F.store w) record
      | _ => True
  | .dlqRetry mid =>
      mid = T.mid → ∀ row ∈ (F.store w).row? T.mid, row.status = .dead
  | _ => True

instance (F : Fleet W Envelope) (w : W) (a : ProcessAction Envelope) :
    Decidable (T.Sheltered F w a) := by
  unfold Sheltered
  split
  · infer_instance
  · split <;> infer_instance
  · infer_instance
  · infer_instance

def Fits (F : Fleet W Envelope) (a : W × ProcessAction Envelope) : Prop :=
  T.Sheltered F a.1 a.2 ∧ ∀ F' ∈ F.step S a, T.Accountable F a.1 F'

instance (F : Fleet W Envelope) (a : W × ProcessAction Envelope) :
    Decidable (T.Fits S F a) :=
  inferInstanceAs (Decidable (_ ∧ _))

/-! ## The net -/

def soleRow (row : Row) (queues : List QueueConfig) : Store where
  messages := (Messages.empty.insert row).1
  dlq := []
  queues := queues

def startNet (F : Fleet W Envelope) : Net W where
  time := F.time
  relay := []
  nodes w := ⟨soleRow (T.row w) (F.store w).queues, none, {}⟩
  unsettled := []
  wins := []

def followSweep (s : Store) (w : W) (queue : String) (now : Int) :
    Option (Action W) :=
  if ∃ row ∈ s.row? T.mid, Store.Due queue now row then some (.sweep w queue)
  else none

def followOwn (w : W) (task : Task) : TaskMove → Option (Action W)
  | .proceed => some (.proceed w)
  | .query => some (.query w)
  | .publish createdAt id => some (.publish w createdAt id)
  | .lose createdAt id => some (.lose w createdAt id)
  | .fail => some (.fail w)
  | .handled outcome => some (.handle w outcome)
  | .panic => if task.job.phase = .finished then none else some (.drop w)
  | .drop => if task.guarded then some (.drop w) else none

def followOther (s : Store) (w : W) (task : Task) :
    TaskMove → Option (Action W)
  | .proceed =>
      match task.job.phase with
      | .claiming (.expiring record now) => T.followSweep s w record.queue now
      | _ => none
  | .publish createdAt id | .lose createdAt id =>
      (task.job.publish? S.hashtag).map fun draft =>
        .other (draft.sign (S.worker w).key createdAt id)
  | _ => none

/-- The step of the net that the step of a process is. -/
def follow (F : Fleet W Envelope) :
    W × ProcessAction Envelope → Option (Action W)
  | (_, .advance ms) => some (.advance ms)
  | (_, .post event) => some (.other event)
  | (w, .poll) =>
      match (F.processes w).poll with
      | .sweeping =>
          T.followSweep (F.store w) w (S.worker w).queue (timestamp F.time)
      | .spawning record _ =>
          if record.mid = T.mid then
            some (.fetch w (S.worker w).options.leaseSeconds)
          else none
      | _ => none
  | (w, .task i move) =>
      (F.processes w).tasks[i]?.bind fun task =>
        if task.mid = T.mid then followOwn w task move
        else T.followOther S (F.store w) w task move
  | (w, .dlqRetry mid) =>
      if mid = T.mid ∧ ((F.store w).row? T.mid).isSome then some (.retry w)
      else none
  | _ => none

/-- A fleet, and the net that watches it for the message. -/
def watched :
    System (Fleet W Envelope × Net W) (W × ProcessAction Envelope) :=
  (T.system S).watchedBy (S.deployment T).system T.startNet (T.follow S)

end Subject

/-! ## What holds in every fleet -/

section Processes

variable {W : ProcessSetup Envelope} {p p' : Process Envelope}

/-- A call that has found its message expired read the clock before. -/
def Belated (time : Nat) : JobPhase → Prop
  | .claiming (.expiring _ now) => now ≤ timestamp time
  | _ => True

theorem Belated.mono {time time' : Nat} {phase : JobPhase}
    (h : Belated time phase) (hle : time ≤ time') : Belated time' phase := by
  unfold Belated at h ⊢
  split
  · exact h.trans (timestamp_mono hle)
  · trivial

private theorem belated_of_proceeds {key : PublicKey} {s s' : Store}
    {time : Nat} {job : Job} {next : JobPhase}
    (h : Job.Proceeds key s time job job.phase s' next) :
    Belated time next := by
  generalize job.phase = phase at h
  cases h with
  | claimed =>
      unfold Job.afterClaim
      split <;> trivial
  | claim hclaim =>
      cases hclaim with
      | @enter record leaseSeconds settleMs =>
          rcases ClaimPhase.enter_cases record leaseSeconds settleMs
            (timestamp time) with ⟨heq, -⟩ | ⟨heq, -⟩ | ⟨_, -, heq⟩ <;> rw [heq]
          · exact le_rfl
          · trivial
          · trivial
      | expire | wake | finish => trivial
  | timeout | settled | settle => trivial

theorem belated_of_works {job : Job} {move : TaskMove} {relay : Relay}
    {s : Store} {next : JobPhase}
    (h : Process.Works W p job move relay s next) : Belated p.time next := by
  cases h with
  | proceed hproceeds => exact belated_of_proceeds hproceeds
  | @query filter phase next _ _ hanswers =>
      cases hanswers with
      | @terminal call =>
          rcases call.afterTerminal_cases (p.relay.query filter) with
            ⟨heq, -⟩ | ⟨heq, -⟩ | ⟨heq, -⟩ <;> rw [heq] <;> trivial
      | @claims call observed =>
          rcases call.afterSurvey_cases W.key observed
            (parseClaims (p.relay.query filter)) with
            ⟨_, -, -, heq⟩ | ⟨_, -, -, heq⟩ | ⟨-, heq⟩ <;> rw [heq] <;> trivial
      | @recheckNacks call observed claims =>
          rcases call.afterRecheck_cases W.key observed claims
            (p.relay.query filter) with ⟨_, -, -, heq⟩ | ⟨-, heq⟩ <;>
            rw [heq] <;> trivial
      | nacks | recheckClaims => trivial
  | lose _ hfailed | fail hfailed =>
      generalize job.phase = phase at hfailed
      cases hfailed <;> trivial
  | contend | settle | handled | panic => trivial

theorem process_step_time {a : ProcessAction Envelope}
    (hs : p.step W a = some p') : p.time ≤ p'.time := by
  cases Process.step_cases hs with
  | advance => exact Nat.le_add_right _ _
  | sweep | fetch | skip | enter | refuse | acquire | spawn | turn | work
  | dropGuard | dropPermit | post | call | publish | ingest | dlqRetry =>
      exact le_rfl

theorem belated_step {a : ProcessAction Envelope}
    (h : ∀ task ∈ p.tasks, Belated p.time task.job.phase)
    (hs : p.step W a = some p') :
    ∀ task ∈ p'.tasks, Belated p'.time task.job.phase := by
  have htime := process_step_time hs
  have hold : ∀ task ∈ p.tasks, Belated p'.time task.job.phase :=
    fun task htask => (h task htask).mono htime
  cases Process.step_cases hs with
  | spawn =>
      intro task htask
      rcases List.mem_append.mp htask with hmem | hnew
      · exact hold task hmem
      · rw [List.mem_singleton.mp hnew]
        trivial
  | work htask hworks =>
      intro other hother
      rcases List.mem_or_eq_of_mem_set hother with hmem | rfl
      · exact hold other hmem
      · exact (belated_of_works hworks).mono htime
  | dropGuard htask | dropPermit htask =>
      have hbefore := hold _ (List.mem_of_getElem? htask)
      intro other hother
      rcases List.mem_or_eq_of_mem_set hother with hmem | rfl
      · exact hold other hmem
      · exact hbefore
  | advance | sweep | fetch | skip | enter | refuse | acquire | turn | post
  | call | publish | ingest | dlqRetry => exact hold

end Processes

namespace Fleet

variable [DecidableEq W] {F : Fleet W Envelope} {w w' : W}
  {p : Process Envelope}

theorem place_self : (F.place w p).process w = p := by
  simp [process, place]

theorem place_processes_self : (F.place w p).processes w = p := by
  simp [place]

theorem place_other (h : w' ≠ w) :
    (F.place w p).processes w' = F.processes w' := by
  simp [place, Function.update_of_ne h]

theorem step_eq {S : FleetSetup W Envelope} {a : ProcessAction Envelope}
    {F' : Fleet W Envelope} (h : F.step S (w, a) = some F') :
    ∃ p, (F.process w).step (S.worker w) a = some p ∧ F' = F.place w p := by
  obtain ⟨p, hp, rfl⟩ := Option.map_eq_some_iff.mp h
  exact ⟨p, hp, rfl⟩

end Fleet

/-- What every process keeps, and what the other messages' rows keep. -/
structure Sound (T : Subject W) (F : Fleet W Envelope) : Prop where
  guarded : ∀ w, (F.process w).Guarded
  grounded : ∀ w, (F.process w).Grounded
  belated : ∀ w, ∀ task ∈ (F.processes w).tasks,
    Belated F.time task.job.phase
  rows : ∀ w mid row, (F.store w).row? mid = some row → mid ≠ T.mid →
    Hex32.fromHex row.eventId ≠ some T.message

section Sound

variable [DecidableEq W] {S : FleetSetup W Envelope} {T : Subject W}
  {F F' : Fleet W Envelope}

theorem Sound.step {a : W × ProcessAction Envelope} (h : Sound T F)
    (hfits : T.Fits S F a) (hs : F.step S a = some F') : Sound T F' := by
  obtain ⟨w, a⟩ := a
  have hrows := (hfits.2 F' hs).2
  obtain ⟨p, hp, rfl⟩ := Fleet.step_eq hs
  have htime : F.time ≤ p.time := process_step_time hp
  constructor
  · intro w'
    by_cases hw : w' = w
    · subst hw
      rw [Fleet.place_self]
      exact (h.guarded w').step hp
    · apply (h.guarded w').same <;> simp [Fleet.process, Fleet.place_other hw]
  · intro w'
    by_cases hw : w' = w
    · subst hw
      rw [Fleet.place_self]
      exact (h.grounded w').step hp
    · have hground := h.grounded w'
      simp only [Fleet.process, Fleet.place_other hw] at hground ⊢
      exact ⟨hground.records, hground.tasks⟩
  · intro w'
    by_cases hw : w' = w
    · subst hw
      rw [Fleet.place_processes_self]
      exact belated_step (h.belated w') hp
    · rw [Fleet.place_other hw]
      exact fun task htask => (h.belated w' task htask).mono htime
  · intro w' mid row' hrow' hmid
    by_cases hw : w' = w
    · subst hw
      cases hrow : (F.store w').row? mid with
      | some row =>
          obtain ⟨progress, hkept⟩ := Process.step_keeps hp mid row hrow
          simp only [Fleet.store, Fleet.place_processes_self] at hrow'
          cases hkept.symm.trans hrow'
          exact h.rows w' mid row hrow hmid
      | none =>
          obtain ⟨hmem, rfl⟩ := Messages.row?_mem hrow'
          have hadmits := hrows row' hmem hrow
          rwa [Subject.Admits, if_neg hmid] at hadmits
    · simp only [Fleet.store, Fleet.place_other hw] at hrow'
      exact h.rows w' mid row' hrow' hmid

theorem sound {P : Fleet W Envelope → W × ProcessAction Envelope → Prop}
    (hP : ∀ F a, P F a → T.Fits S F a) (h : (T.system S).Reach P F) :
    Sound T F := by
  refine h.invariant (I := Sound T) (fun F h₀ => ?_)
    fun _ _ _ _ hi hp hs => hi.step (hP _ _ hp) hs
  obtain ⟨-, hstarted⟩ := h₀
  constructor
  · exact fun w => Process.guarded (P := System.Free) (.init (hstarted w).1)
  · exact fun w => Process.grounded (P := System.Free) (.init (hstarted w).1)
  · intro w task htask
    have htasks : (F.processes w).tasks = [] := (hstarted w).1.tasks
    simp [htasks] at htask
  · intro w mid row hrow hmid
    obtain ⟨hmem, rfl⟩ := Messages.row?_mem hrow
    have hadmits := (hstarted w).2 row hmem
    rwa [Subject.Admits, if_neg hmid] at hadmits

end Sound

end NostrQ.Cluster
