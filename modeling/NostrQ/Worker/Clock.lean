import NostrQ.Foundation.Transition
import NostrQ.Worker.Job

/-!
# A job on the clock

One job of a worker whose relay may answer anything after any delay, beside
other tasks that write to the same store.  The lease of a win is counted from
the clock reading at the start of the call, the handler's timeout from the end
of it; what lies between is the delay of every query and publish and the settle
window.  Time passes freely, but not past a moment at which the job itself would
stop its handler.
-/

namespace NostrQ.Worker

open NostrQ.Foundation NostrQ.Core NostrQ.Database NostrQ.Sdk

/--
How long a call waited for each answer, how late it woke from its sleep, and how
long its last write took.
-/
structure Delays where
  terminal : Nat := 0
  nacks : Nat := 0
  claims : Nat := 0
  publish : Nat := 0
  wake : Nat := 0
  recheckClaims : Nat := 0
  recheckNacks : Nat := 0
  write : Nat := 0

namespace Delays

def total (d : Delays) : Nat :=
  d.terminal + d.nacks + d.claims + d.publish + d.wake + d.recheckClaims +
    d.recheckNacks + d.write

def wait (d : Delays) (ms : Nat) : ClaimStage → Delays
  | .terminalCheck => { d with terminal := d.terminal + ms }
  | .surveyNacks => { d with nacks := d.nacks + ms }
  | .surveyClaims _ => { d with claims := d.claims + ms }
  | .contending _ => { d with publish := d.publish + ms }
  | .settling _ _ => d
  | .recheckClaims _ => { d with recheckClaims := d.recheckClaims + ms }
  | .recheckNacks _ _ => { d with recheckNacks := d.recheckNacks + ms }
  | .ackObserved | .dlqObserved _ | .recognised _ | .contendWon _ =>
      { d with write := d.write + ms }

def woken (d : Delays) (ms : Nat) : Delays := { d with wake := d.wake + ms }

@[simp] theorem total_default : ({} : Delays).total = 0 := rfl

theorem total_wait (d : Delays) (ms : Nat) {stage : ClaimStage}
    (h : ∀ observed wakeAt, stage ≠ .settling observed wakeAt) :
    (d.wait ms stage).total = d.total + ms := by
  cases stage with
  | settling observed wakeAt => exact absurd rfl (h observed wakeAt)
  | _ =>
      simp only [wait, total]
      omega

theorem total_woken (d : Delays) (ms : Nat) :
    (d.woken ms).total = d.total + ms := by
  simp only [woken, total]
  omega

end Delays

/-- A job, and what is remembered of the moments it passed through. -/
structure Clocked where
  time : Nat
  store : Store
  job : Job
  settleMs : U64
  delays : Delays := {}
  /-- When the call read the clock. -/
  enteredAt : Nat := 0
  /-- The own claim that the survey recognised. -/
  recognised : Option ClaimInfo := none
  returnedAt : Nat := 0
  /-- The lease in the row at the return. -/
  written : Option Int := none
  startedAt : Nat := 0

inductive ClockAction where
  | advance (ms : Nat)
  | others (s : Store)
  | proceed
  | answer (events : List Event)
  | accepted
  | failed
  | handled (outcome : HandlerOutcome)

namespace Clocked

/-- At this time the job would stop its handler. -/
def TimesOut (key : PublicKey) (c : Clocked) (time : Nat) : Prop :=
  match c.job.phase with
  | .handling _ _ =>
      (c.job.step key c.store (.io (.proceed time))).isSome = true
  | _ => False

/-- Before so many milliseconds have passed, the job does not stop its handler. -/
def Passes (key : PublicKey) (c : Clocked) (ms : Nat) : Prop :=
  ∀ time, c.time ≤ time → time < c.time + ms → ¬ c.TimesOut key time

def due? (c : Clocked) : Option Nat :=
  match c.job.phase with
  | .handling _ deadline => some deadline
  | _ => none

theorem timesOut_iff {key : PublicKey} {c : Clocked} {time : Nat} :
    c.TimesOut key time ↔ ∃ deadline ∈ c.due?, deadline ≤ time := by
  unfold TimesOut due?
  split
  · next current deadline hphase =>
      rw [Job.step_timeout hphase]
      by_cases hdue : deadline ≤ time <;> simp [hdue]
  · simp

theorem passes_iff {key : PublicKey} {c : Clocked} {ms : Nat} :
    c.Passes key ms ↔
      ∀ deadline ∈ c.due?, ms = 0 ∨ c.time + ms ≤ deadline := by
  simp only [Passes, timesOut_iff, not_exists, not_and, not_le]
  constructor
  · intro h deadline hdue
    by_cases hms : ms = 0
    · exact Or.inl hms
    · have := h (c.time + ms - 1) (by omega) (by omega) deadline hdue
      exact Or.inr (by omega)
  · intro h time hle hlt deadline hdue
    rcases h deadline hdue with hzero | hbefore <;> omega

instance (key : PublicKey) (c : Clocked) (ms : Nat) :
    Decidable (c.Passes key ms) :=
  decidable_of_iff (∀ deadline ∈ c.due?, ms = 0 ∨ c.time + ms ≤ deadline)
    passes_iff.symm

/-- The lease of the claim that the win rests on. -/
def restsOn (c : Clocked) : Int :=
  match c.recognised with
  | some winner => winner.leaseExpiresAt
  | none => toI64 (timestamp c.enteredAt + toI64 c.job.leaseSeconds.val)

def after (c : Clocked) (store : Store) (next : Job) : Clocked :=
  let c' := { c with store := store, job := next }
  match c.job.phase, next.phase with
  | .claiming (.entering _ _ _), _ => { c' with enteredAt := c.time }
  | .claiming (.during _ _), .claiming (.during _ (.recognised winner)) =>
      { c' with recognised := some winner }
  | .claiming (.during _ (.settling _ wakeAt)),
      .claiming (.during _ (.recheckClaims _)) =>
      { c' with delays := c.delays.woken (c.time - wakeAt) }
  | .claiming (.during call _), .claiming (.returned _) =>
      { c' with
        returnedAt := c.time
        written := (store.row? call.record.mid).bind fun row =>
          row.leaseExpiresAt }
  | .claiming (.returned _), .handling _ _ => { c' with startedAt := c.time }
  | _, _ => c'

def resume (key : PublicKey) (c : Clocked) (input : JobInput) :
    Option Clocked :=
  (c.job.step key c.store input).map fun (store, next) => c.after store next

def pass (c : Clocked) (ms : Nat) : Clocked :=
  { c with
    time := c.time + ms
    delays := match c.job.phase with
      | .claiming (.during _ stage) => c.delays.wait ms stage
      | _ => c.delays }

def step (key : PublicKey) (c : Clocked) : ClockAction → Option Clocked
  | .advance ms => if c.Passes key ms then some (c.pass ms) else none
  | .others s => some { c with store := s }
  | .proceed => c.resume key (.io (.proceed c.time))
  | .answer events => c.resume key (.io (.answer events))
  | .accepted => c.resume key (.io (.accepted c.time))
  | .failed => c.resume key (.io .failed)
  | .handled outcome => c.resume key (.handled outcome)

def Spawned (c : Clocked) : Prop :=
  ∃ time store record leaseSeconds settleMs, c = {
    time := time
    store := store
    job := Job.spawn record leaseSeconds settleMs
    settleMs := settleMs }

def system (key : PublicKey) : System Clocked ClockAction where
  init := Spawned
  step := step key

/-! ## The invariant -/

def recognised? : ClaimStage → Option ClaimInfo
  | .recognised winner => some winner
  | _ => none

def slept (c : Clocked) : Nat :=
  match c.recognised with
  | some _ => 0
  | none => c.settleMs.val

def took (c : Clocked) : Nat := c.delays.total + c.slept

def Elapsed (c : Clocked) : ClaimStage → Prop
  | .settling _ wakeAt =>
      wakeAt = c.enteredAt + c.delays.total + c.settleMs.val
  | .recheckClaims _ | .recheckNacks _ _ | .contendWon _ =>
      c.time = c.enteredAt + c.delays.total + c.settleMs.val
  | _ => c.time = c.enteredAt + c.delays.total

/-- What a call took from the clock. -/
structure During (c : Clocked) (call : ClaimCall) (stage : ClaimStage) :
    Prop where
  record : call.record = c.job.record
  lease : call.leaseExpiresAt =
    toI64 (timestamp c.enteredAt + toI64 c.job.leaseSeconds.val)
  settle : call.settleMs = c.settleMs
  recognised : c.recognised = recognised? stage
  elapsed : c.Elapsed stage

structure Decided (c : Clocked) : Prop where
  took : c.returnedAt = c.enteredAt + c.took
  returned : c.returnedAt ≤ c.time
  written : c.written = some c.restsOn

structure Running (c : Clocked) (deadline : Nat) : Prop where
  decided : Decided c
  started : c.returnedAt ≤ c.startedAt
  timeout : deadline = c.startedAt + c.job.leaseSeconds.val * 1000
  due : c.time ≤ deadline

def Timely (c : Clocked) : JobPhase → Prop
  | .claiming (.entering record leaseSeconds settleMs) =>
      record = c.job.record ∧ leaseSeconds = c.job.leaseSeconds ∧
        settleMs = c.settleMs ∧ c.recognised = none ∧ c.delays = {}
  | .claiming (.during call stage) => During c call stage
  | .claiming (.returned (.ok true)) => Decided c
  | .handling _ deadline => Running c deadline
  | _ => True

variable {key : PublicKey} {c c' : Clocked}

theorem Elapsed.pass {call : ClaimCall} {stage : ClaimStage} {ms : Nat}
    (h : c.Elapsed stage) (hphase : c.job.phase = .claiming (.during call stage)) :
    (c.pass ms).Elapsed stage := by
  have hdelays : (c.pass ms).delays = c.delays.wait ms stage := by
    rw [Clocked.pass, hphase]
  cases stage with
  | settling observed wakeAt =>
      unfold Elapsed at h ⊢
      rw [hdelays]
      exact h
  | _ =>
      unfold Elapsed at h ⊢
      rw [hdelays, Delays.total_wait _ _ (by simp)]
      simp only [Clocked.pass]
      omega

private theorem Decided.later {time : Nat} (h : Decided c)
    (hle : c.time ≤ time) : Decided { c with time := time } :=
  ⟨h.took, h.returned.trans hle, h.written⟩

private theorem Timely.pass {ms : Nat} (h : Timely c c.job.phase)
    (hpasses : c.Passes key ms) : Timely (c.pass ms) (c.pass ms).job.phase := by
  have hdue := passes_iff.mp hpasses
  generalize hphase : c.job.phase = phase at h
  have hphase' : (c.pass ms).job.phase = phase := hphase
  rw [hphase']
  unfold Timely at h ⊢
  split
  · unfold Clocked.pass
    rw [hphase]
    exact h
  · exact ⟨h.record, h.lease, h.settle, h.recognised, h.elapsed.pass hphase⟩
  · unfold Clocked.pass
    rw [hphase]
    exact h.later (Nat.le_add_right _ _)
  · next current deadline =>
      have hle : c.time + ms ≤ deadline := by
        rcases hdue deadline (by simp [due?, hphase]) with hzero | hbefore
        · have := h.due
          omega
        · exact hbefore
      unfold Clocked.pass
      rw [hphase]
      exact ⟨h.decided.later (Nat.le_add_right _ _), h.started, h.timeout, hle⟩
  · trivial

private theorem Timely.others {phase : JobPhase} (h : Timely c phase)
    (s : Store) : Timely { c with store := s } phase := by
  unfold Timely at h ⊢
  split
  · exact h
  · exact ⟨h.record, h.lease, h.settle, h.recognised, h.elapsed⟩
  · exact ⟨h.took, h.returned, h.written⟩
  · exact ⟨⟨h.decided.took, h.decided.returned, h.decided.written⟩, h.started,
      h.timeout, h.due⟩
  · trivial

@[simp] theorem after_job (store : Store) (next : Job) :
    (c.after store next).job = next := by
  unfold after
  dsimp only
  split <;> rfl

@[simp] theorem after_time (store : Store) (next : Job) :
    (c.after store next).time = c.time := by
  unfold after
  dsimp only
  split <;> rfl

private theorem During.goes_on {call : ClaimCall} {stage stage' : ClaimStage}
    {s' : Store} (h : During c call stage)
    (hphase : c.job.phase = .claiming (.during call stage))
    (hstage : recognised? stage = none) (hstage' : recognised? stage' = none)
    (hawake : ∀ observed wakeAt, stage ≠ .settling observed wakeAt)
    (helapsed : c.Elapsed stage') :
    During (c.after s' { c.job with phase := .claiming (.during call stage') })
      call stage' := by
  have hafter : c.after s'
      { c.job with phase := .claiming (.during call stage') } =
      { c with
        store := s'
        job := { c.job with phase := .claiming (.during call stage') } } := by
    unfold after
    rw [hphase]
    cases stage' <;> cases stage <;>
      first | rfl | contradiction | exact absurd rfl (hawake _ _)
  rw [hafter]
  exact ⟨h.record, h.lease, h.settle, by
    rw [hstage', ← hstage]
    exact h.recognised, helapsed⟩

private theorem During.sleeps {call : ClaimCall} {observed : U32} {s' : Store}
    (h : During c call (.contending observed))
    (hphase : c.job.phase = .claiming (.during call (.contending observed))) :
    During (c.after s' { c.job with phase := .claiming (.during call
      (.settling observed (c.time + call.settleMs.val))) }) call
      (.settling observed (c.time + call.settleMs.val)) := by
  refine h.goes_on hphase rfl rfl (by simp) ?_
  have htime : c.time = c.enteredAt + c.delays.total := h.elapsed
  rw [Elapsed, h.settle, htime]

private theorem During.wakes {call : ClaimCall} {observed : U32} {wakeAt : Nat}
    {s' : Store} (h : During c call (.settling observed wakeAt))
    (hphase : c.job.phase = .claiming (.during call (.settling observed wakeAt)))
    (hwake : wakeAt ≤ c.time) :
    During (c.after s' { c.job with
      phase := .claiming (.during call (.recheckClaims observed)) }) call
      (.recheckClaims observed) := by
  have hafter : c.after s' { c.job with
      phase := .claiming (.during call (.recheckClaims observed)) } =
      { c with
        store := s'
        job := { c.job with
          phase := .claiming (.during call (.recheckClaims observed)) }
        delays := c.delays.woken (c.time - wakeAt) } := by
    unfold after
    rw [hphase]
  have hslept : wakeAt = c.enteredAt + c.delays.total + c.settleMs.val :=
    h.elapsed
  rw [hafter]
  refine ⟨h.record, h.lease, h.settle, h.recognised, ?_⟩
  simp only [Elapsed, Delays.total_woken]
  omega

private theorem lease_of_claim {s s' : Store} {mid claimer : String}
    {lease : Int} {attempt : U32} (hrow : ∃ row, s.row? mid = some row)
    (hmoves : s.Moves s' mid fun p => p.claim claimer lease attempt) :
    ((s'.row? mid).bind fun row => row.leaseExpiresAt) = some lease := by
  obtain ⟨row, hrow⟩ := hrow
  rw [hmoves.row hrow]
  rfl

private theorem During.finish {call : ClaimCall} {stage : ClaimStage}
    {s' : Store} {result : Except SdkError Bool} (h : During c call stage)
    (hphase : c.job.phase = .claiming (.during call stage))
    (hf : ClaimPhase.Finishes key c.store call s' stage result) :
    Timely (c.after s' { c.job with phase := .claiming (.returned result) })
      (.claiming (.returned result)) := by
  have hafter : c.after s'
      { c.job with phase := .claiming (.returned result) } =
      { c with
        store := s'
        job := { c.job with phase := .claiming (.returned result) }
        returnedAt := c.time
        written := (s'.row? call.record.mid).bind fun row =>
          row.leaseExpiresAt } := by
    unfold after
    rw [hphase]
  rw [hafter]
  have decided : result = .ok true → c.time = c.enteredAt + c.took →
      ((s'.row? call.record.mid).bind fun row => row.leaseExpiresAt) =
        some c.restsOn →
      Timely { c with
        store := s'
        job := { c.job with phase := .claiming (.returned result) }
        returnedAt := c.time
        written := (s'.row? call.record.mid).bind fun row =>
          row.leaseExpiresAt } (.claiming (.returned result)) := by
    rintro rfl htook hwritten
    exact ⟨htook, le_rfl, hwritten⟩
  have lost : result ≠ .ok true →
      ∀ {c : Clocked}, Timely c (.claiming (.returned result)) := by
    intro hne c
    unfold Timely
    split <;> simp_all
  by_cases hresult : result = .ok true
  · have htime := h.elapsed
    cases hf with
    | acked _ hne | buried _ hne => exact absurd hresult hne
    | recognised hmoves hrow =>
        refine decided hresult ?_ ?_
        · rw [took, slept, h.recognised]
          exact htime
        · rw [lease_of_claim (hrow hresult) hmoves, restsOn, h.recognised]
          rfl
    | contendWon hmoves hrow =>
        refine decided hresult ?_ ?_
        · rw [took, slept, h.recognised, ← Nat.add_assoc]
          exact htime
        · rw [lease_of_claim (hrow hresult) hmoves, restsOn, h.recognised, h.lease]
          rfl
  · exact lost hresult

private theorem Timely.proceeds {s' : Store} {next : JobPhase}
    (h : Timely c c.job.phase)
    (hp : Job.Proceeds key c.store c.time c.job c.job.phase s' next) :
    Timely (c.after s' { c.job with phase := next }) next := by
  generalize hphase : c.job.phase = phase at h hp
  cases hp with
  | @claimed result =>
      unfold Job.afterClaim
      split
      · unfold after
        rw [hphase]
        exact ⟨⟨h.took, h.returned, h.written⟩, h.returned, rfl,
          Nat.le_add_right _ _⟩
      · trivial
  | claim hp =>
      cases hp with
      | enter =>
          obtain ⟨rfl, rfl, rfl, hnone, hdelays⟩ := h
          unfold after ClaimPhase.enter
          rw [hphase]
          dsimp only
          split
          · trivial
          · split
            · trivial
            · exact ⟨rfl, rfl, rfl, hnone, by simp [Elapsed, hdelays]⟩
      | expire => trivial
      | wake hwake => exact During.wakes h hphase hwake
      | finish hf => exact During.finish h hphase (ClaimPhase.finishes hf)
  | timeout _ => trivial
  | settled => trivial
  | settle _ => trivial

private theorem Timely.answers {phase next : ClaimPhase} {events : List Event}
    (hphase : c.job.phase = .claiming phase) (h : Timely c c.job.phase)
    (ha : ClaimPhase.Answers key events phase next) :
    Timely (c.after c.store { c.job with phase := .claiming next })
      (.claiming next) := by
  rw [hphase] at h
  cases ha with
  | @terminal call =>
      rcases call.afterTerminal_cases events with
        ⟨heq, -⟩ | ⟨heq, -⟩ | ⟨heq, -⟩ <;> rw [heq] <;>
        exact During.goes_on h hphase rfl rfl (by simp) h.elapsed
  | nacks => exact During.goes_on h hphase rfl rfl (by simp) h.elapsed
  | @claims call observed =>
      rcases call.afterSurvey_cases key observed
        (parseClaims events) with
        ⟨winner, -, -, heq⟩ | ⟨_, -, -, heq⟩ | ⟨-, heq⟩ <;> rw [heq]
      · unfold after
        rw [hphase]
        exact ⟨h.record, h.lease, h.settle, rfl, h.elapsed⟩
      · trivial
      · exact During.goes_on h hphase rfl rfl (by simp) h.elapsed
  | recheckClaims => exact During.goes_on h hphase rfl rfl (by simp) h.elapsed
  | @recheckNacks call observed claims =>
      rcases call.afterRecheck_cases key observed
        claims events with
        ⟨_, -, -, heq⟩ | ⟨-, heq⟩ <;> rw [heq]
      · exact During.goes_on h hphase rfl rfl (by simp) h.elapsed
      · trivial

/-- Every step keeps what the moments say of each other. -/
theorem Timely.step {a : ClockAction} (h : Timely c c.job.phase)
    (hs : step key c a = some c') : Timely c' c'.job.phase := by
  cases a with
  | advance ms =>
      simp only [Clocked.step] at hs
      split at hs
      · next hpasses =>
          cases hs
          exact h.pass hpasses
      · contradiction
  | others s =>
      cases hs
      exact h.others s
  | proceed =>
      obtain ⟨⟨store, next⟩, hstep, rfl⟩ := Option.map_eq_some_iff.mp hs
      rw [after_job, Job.step_eq hstep]
      exact h.proceeds (Job.step_proceed hstep)
  | answer events =>
      obtain ⟨⟨store, next⟩, hstep, rfl⟩ := Option.map_eq_some_iff.mp hs
      obtain ⟨rfl, phase, after, hphase, hafter, hanswers⟩ :=
        Job.step_answer hstep
      rw [after_job, Job.step_eq hstep, hafter]
      exact Timely.answers hphase h hanswers
  | accepted =>
      obtain ⟨⟨store, next⟩, hstep, rfl⟩ := Option.map_eq_some_iff.mp hs
      obtain ⟨rfl, ⟨call, observed, hphase, hafter⟩ | ⟨_, _, -, hafter, -⟩⟩ :=
        Job.step_accepted hstep
      · rw [after_job, Job.step_eq hstep, hafter]
        rw [hphase] at h
        exact During.sleeps h hphase
      · rw [after_job, hafter]
        trivial
  | failed =>
      obtain ⟨⟨store, next⟩, hstep, rfl⟩ := Option.map_eq_some_iff.mp hs
      obtain ⟨rfl, ⟨_, -, -, hafter⟩ | ⟨_, -, hafter⟩⟩ :=
        Job.step_failed hstep <;> rw [after_job, hafter] <;> trivial
  | handled outcome =>
      obtain ⟨⟨store, next⟩, hstep, rfl⟩ := Option.map_eq_some_iff.mp hs
      obtain ⟨rfl, current, deadline, -, hafter⟩ := Job.step_handled hstep
      rw [after_job, hafter]
      trivial

theorem timely (h : (system key).Reach System.Free c) :
    Timely c c.job.phase :=
  h.invariant (I := fun c => Timely c c.job.phase)
    (fun _ ⟨_, _, _, _, _, h₀⟩ => by
      subst h₀
      exact ⟨rfl, rfl, rfl, rfl, rfl⟩)
    fun _ _ _ _ hi _ hs => hi.step hs

/-! ## The handler's timeout -/

private theorem restsOn_le (hnone : c.recognised = none) :
    c.restsOn ≤ timestamp c.enteredAt + c.job.leaseSeconds.val := by
  have hlease : toI64 c.job.leaseSeconds.val ≤ c.job.leaseSeconds.val :=
    toI64_le (by omega)
  have hbounds := inI64_toI64 (c.job.leaseSeconds.val : Int)
  have hsum := toI64_le (n := timestamp c.enteredAt +
    toI64 c.job.leaseSeconds.val) (by
      have := hbounds.1
      unfold timestamp
      omega)
  rw [restsOn, hnone]
  dsimp only
  omega

/--
While a handler runs, time has not passed its deadline, one full lease after its
start.  From the deadline on the job's next step is to stop the handler and nack
with the timeout's reason, and before it there is no such step.  On a claim that
the call itself published, the deadline is not before the end of its lease.
-/
theorem handler_timeout (h : (system key).Reach System.Free c)
    {current : MessageRecord} {deadline : Nat}
    (hphase : c.job.phase = .handling current deadline) :
    c.time ≤ deadline ∧
      deadline = c.startedAt + c.job.leaseSeconds.val * 1000 ∧
      (∀ time, c.job.step key c.store (.io (.proceed time)) =
        if deadline ≤ time then
          some (c.store, { c.job with phase := .settling (.nacking
            c.job.record.mid (Job.timeoutReason c.job.leaseSeconds)) })
        else none) ∧
      c.enteredAt ≤ c.returnedAt ∧ c.returnedAt ≤ c.startedAt ∧
      (c.recognised = none → 1000 * c.restsOn ≤ deadline) := by
  have htimely := timely h
  rw [hphase] at htimely
  obtain ⟨hdecided, hstarted, htimeout, hdue⟩ := htimely
  have hentered : c.enteredAt ≤ c.returnedAt := by
    rw [hdecided.took]
    exact Nat.le_add_right _ _
  refine ⟨hdue, htimeout, Job.step_timeout hphase, hentered, hstarted,
    fun hnone => ?_⟩
  have hrests := restsOn_le hnone
  unfold timestamp at hrests
  omega

/-! ## A fresh win -/

/-- At the return, neither the written lease nor the message has expired. -/
def Fresh (c : Clocked) : Prop :=
  (∃ lease ∈ c.written, timestamp c.returnedAt < lease) ∧
    ∀ expiry ∈ c.job.record.expiresAt, timestamp c.returnedAt < expiry

/-- What was left of the lease that the win rests on when the clock was read. -/
def leaseLeft (c : Clocked) : Int := c.restsOn - timestamp c.enteredAt

theorem leaseLeft_recognised {winner : ClaimInfo}
    (h : winner ∈ c.recognised) :
    c.leaseLeft = winner.leaseExpiresAt - timestamp c.enteredAt := by
  rw [leaseLeft, restsOn, Option.mem_def.mp h]

/-- A claim of the call's own has the full lease left. -/
theorem leaseLeft_published (h : c.recognised = none)
    (hfits : timestamp c.enteredAt + c.job.leaseSeconds.val <
      9223372036854775808) : c.leaseLeft = c.job.leaseSeconds.val := by
  have hentered : 0 ≤ timestamp c.enteredAt := by
    unfold timestamp
    omega
  have hlease : toI64 (c.job.leaseSeconds.val : Int) = c.job.leaseSeconds.val :=
    toI64_of_lt (by omega) (by omega)
  have hsum : toI64 (timestamp c.enteredAt + c.job.leaseSeconds.val) =
      timestamp c.enteredAt + c.job.leaseSeconds.val :=
    toI64_of_lt (by omega) hfits
  rw [leaseLeft, restsOn, h]
  dsimp only
  rw [hlease, hsum]
  omega

/--
The delays of the call, with the settle window if it contended, end within so
many seconds of the second in which it read the clock.
-/
def EndsWithin (c : Clocked) (seconds : Int) : Prop :=
  ((c.enteredAt % 1000 + c.delays.total + c.slept : Nat) : Int) < 1000 * seconds

instance (c : Clocked) (seconds : Int) : Decidable (c.EndsWithin seconds) :=
  inferInstanceAs (Decidable (_ < _))

/--
A call that returned true returned in time exactly if its delays and its settle
window fit into what was left, at its clock reading, of the lease it rests on
and of the message's time to live.  The former is the rest of the lease of the
claim that it recognised, or the whole lease of its own claim.
-/
theorem fresh_iff (h : (system key).Reach System.Free c)
    (hphase : c.job.phase = .claiming (.returned (.ok true))) :
    (c.Fresh ↔ c.EndsWithin c.leaseLeft ∧
      ∀ expiry ∈ c.job.record.expiresAt,
        c.EndsWithin (expiry - timestamp c.enteredAt)) ∧
    (∀ winner ∈ c.recognised,
      c.leaseLeft = winner.leaseExpiresAt - timestamp c.enteredAt) ∧
    (c.recognised = none → timestamp c.enteredAt + c.job.leaseSeconds.val <
      9223372036854775808 → c.leaseLeft = c.job.leaseSeconds.val) := by
  have hdecided := timely h
  rw [hphase] at hdecided
  have before : ∀ limit : Int, timestamp c.returnedAt < limit ↔
      c.EndsWithin (limit - timestamp c.enteredAt) := by
    intro limit
    rw [hdecided.took]
    unfold timestamp EndsWithin took
    omega
  refine ⟨and_congr ?_ (forall₂_congr fun expiry _ => before expiry),
    fun _ hwinner => leaseLeft_recognised hwinner, leaseLeft_published⟩
  rw [hdecided.written, leaseLeft]
  simpa using before c.restsOn

section Runs

def sampleKey : PublicKey := hexOf '0'

def spawned (record : MessageRecord) (leaseSeconds settleMs : U64) :
    Clocked where
  time := 0
  store := ⟨(Messages.empty.insert record.toRow).1, [], []⟩
  job := Job.spawn record leaseSeconds settleMs
  settleMs := settleMs

theorem spawned_init (record : MessageRecord) (leaseSeconds settleMs : U64) :
    (system sampleKey).init (spawned record leaseSeconds settleMs) :=
  ⟨_, _, _, _, _, rfl⟩

def sampleClaim : Event :=
  (buildClaimEvent id ⟨hexOf 'e', "jobs", "m", "trace"⟩ 1 0).sign
    sampleKey 0 (hexOf 'a')

/--
A call that contends and wins on a settle window of 400, with the terminal
query answered after `delay`.
-/
def contendRun (delay : Nat) : List ClockAction :=
  [.proceed, .advance delay, .answer [], .answer [], .answer [], .accepted,
    .advance 400, .proceed, .answer [sampleClaim], .answer [], .proceed]

theorem handler_timeout_handling :
    ∃ c : Clocked, ∃ current deadline,
      c.job.phase = .handling current deadline ∧ c.time ≤ deadline ∧
      ∀ time, c.job.step sampleKey c.store (.io (.proceed time)) =
        if deadline ≤ time then
          some (c.store, { c.job with phase := .settling (.nacking
            c.job.record.mid (Job.timeoutReason c.job.leaseSeconds)) })
        else none := by
  obtain ⟨c, hreach, htest⟩ :=
    (System.Reach.init (spawned_init sampleRecord 1 400)).of_run_check
      (S := system sampleKey) (P := System.Free)
      (contendRun 0 ++ [.proceed])
      (fun c => match c.job.phase with
        | .handling _ _ => true
        | _ => false) (by decide)
  split at htest
  · next current deadline hphase =>
      obtain ⟨hdue, -, hstops, -⟩ := handler_timeout hreach hphase
      exact ⟨c, current, deadline, hphase, hdue, hstops⟩
  · contradiction

/--
With a lease of one second taken at time 0 and won at time 400, the handler
still runs at time 1000, and will until 1400.
-/
theorem handler_outlives_lease :
    ∃ c : Clocked, (system sampleKey).Reach System.Free c ∧
      ∃ current deadline, c.job.phase = .handling current deadline ∧
        c.time < deadline ∧ c.recognised = none ∧ 1000 * c.restsOn ≤ c.time := by
  obtain ⟨c, hreach, htest⟩ :=
    (System.Reach.init (spawned_init sampleRecord 1 400)).of_run_check
      (S := system sampleKey) (P := System.Free)
      (contendRun 0 ++ [.proceed, .advance 600])
      (fun c => match c.job.phase with
        | .handling _ deadline => decide (c.time < deadline ∧
            c.recognised = none ∧ 1000 * c.restsOn ≤ c.time)
        | _ => false) (by decide)
  split at htest
  · next current deadline hphase =>
      exact ⟨c, hreach, current, deadline, hphase, of_decide_eq_true htest⟩
  · contradiction

theorem fresh_iff_returned :
    ∃ c : Clocked, c.job.phase = .claiming (.returned (.ok true)) ∧
      (c.Fresh ↔ c.EndsWithin c.leaseLeft ∧
        ∀ expiry ∈ c.job.record.expiresAt,
          c.EndsWithin (expiry - timestamp c.enteredAt)) ∧
      c.leaseLeft = 60 := by
  obtain ⟨c, hreach, htest⟩ :=
    (System.Reach.init (spawned_init sampleRecord 60 400)).of_run_check
      (S := system sampleKey) (P := System.Free)
      (contendRun 0)
      (fun c => decide (c.job.phase = .claiming (.returned (.ok true)) ∧
        c.recognised = none ∧ c.enteredAt = 0 ∧ c.job.leaseSeconds = 60))
      (by decide)
  obtain ⟨hphase, hnone, hentered, hlease⟩ := of_decide_eq_true htest
  obtain ⟨hiff, -, hown⟩ := fresh_iff hreach hphase
  refine ⟨c, hphase, hiff, ?_⟩
  rw [hown hnone (by rw [hentered, hlease]; decide), hlease]
  rfl

/--
The message expires at second 1 and the lease is one second.  The terminal
query takes 1500 ms; the call returns true at 1900 ms.
-/
theorem stale_win :
    ∃ c : Clocked, (system sampleKey).Reach System.Free c ∧
      c.job.phase = .claiming (.returned (.ok true)) ∧
      c.written = some 1 ∧ c.job.record.expiresAt = some 1 ∧
      timestamp c.returnedAt = 1 ∧ ¬ c.Fresh := by
  obtain ⟨c, hreach, htest⟩ :=
    (System.Reach.init (spawned_init
      { sampleRecord with expiresAt := some 1 } 1 400)).of_run_check
      (S := system sampleKey) (P := System.Free)
      (contendRun 1500)
      (fun c => decide
        (c.job.phase = .claiming (.returned (.ok true)) ∧
          c.written = some 1 ∧ c.job.record.expiresAt = some 1 ∧
          timestamp c.returnedAt = 1)) (by decide)
  obtain ⟨hphase, hwritten, hexpires, htime⟩ := of_decide_eq_true htest
  refine ⟨c, hreach, hphase, hwritten, hexpires, htime, fun hfresh => ?_⟩
  have := hfresh.2 1 hexpires
  omega

end Runs

end Clocked

end NostrQ.Worker
