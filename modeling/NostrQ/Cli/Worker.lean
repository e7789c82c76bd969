import NostrQ.Cluster.LoneClaim
import NostrQ.Database.Queues
import NostrQ.Worker.RunWorker

/-!
# The lease a worker is started with

A worker takes its lease from its own option, which is checked, or else from the
configuration of its queue, which was stored unchecked.
-/

namespace NostrQ.Cli

open NostrQ.Foundation NostrQ.Core NostrQ.Database NostrQ.Sdk NostrQ.Worker
  NostrQ.Cluster

inductive CommandError where
  | badName (error : ParseEnumError)
  | zeroConcurrency
  | zeroLease
  | unknownQueue (queue : String)
  | handlerChoice
  | store (error : StoreError)
  deriving DecidableEq

inductive HandlerChoice where
  | exec (command : String)
  | http (url : String)
  deriving DecidableEq

def queueOfMode (name : String) : QueueMode → QueueConfig
  | .workQueue => .workQueue name
  | .pubsub => .pubsub name

def newQueue (name mode : String) (delivery : Option String)
    (maxAttempts : Option U32) (lease : Option U64) :
    Except ParseEnumError QueueConfig :=
  (QueueMode.fromStr mode).bind fun mode =>
    let q := queueOfMode name mode
    ((delivery.map Delivery.fromStr).getD (.ok q.delivery)).map fun delivery =>
      { q with
        delivery := delivery
        maxAttempts := maxAttempts.getD q.maxAttempts
        leaseSeconds := lease.getD q.leaseSeconds }

def queueCreate (table : QueueTable) (name mode : String)
    (delivery : Option String) (maxAttempts : Option U32) (lease : Option U64)
    (now : Int) : Except CommandError QueueTable :=
  match newQueue name mode delivery maxAttempts lease with
  | .error e => .error (.badName e)
  | .ok q => .ok (table.upsertQueue q now)

def chooseHandler (exec http : Option String) :
    Except CommandError HandlerChoice :=
  match exec, http with
  | some command, none => .ok (.exec command)
  | none, some url => .ok (.http url)
  | _, _ => .error .handlerChoice

/-- A new limit on attempts is stored before the worker starts. -/
def overrideAttempts (table : QueueTable) (q : QueueConfig)
    (maxAttempts : Option U32) (now : Int) : QueueTable :=
  match maxAttempts with
  | none => table
  | some m => table.upsertQueue { q with maxAttempts := m } now

def workerOptions (q : QueueConfig) (concurrency : Nat) (lease : Option U64) :
    WorkerOptions where
  concurrency := concurrency
  leaseSeconds := lease.getD q.leaseSeconds
  settleMs := 750
  pollMs := 500

def worker (table : QueueTable) (queue : String) (exec http : Option String)
    (concurrency : Nat) (lease : Option U64) (maxAttempts : Option U32)
    (now : Int) :
    Except CommandError (HandlerChoice × WorkerOptions) × QueueTable :=
  if concurrency = 0 then (.error .zeroConcurrency, table)
  else if lease = some 0 then (.error .zeroLease, table)
  else
    match table.getQueue queue with
    | .error e => (.error (.store e), table)
    | .ok none => (.error (.unknownQueue queue), table)
    | .ok (some q) =>
        ((chooseHandler exec http).map fun handler =>
            (handler, workerOptions q concurrency lease),
          overrideAttempts table q maxAttempts now)

variable {table created : QueueTable} {name mode : String}
  {delivery exec http : Option String} {maxAttempts override : Option U32}
  {lease flag : Option U64} {concurrency : Nat} {createdAt startedAt : Int}

theorem newQueue_ok {q : QueueConfig}
    (h : newQueue name mode delivery maxAttempts lease = .ok q) :
    q.name = name ∧ q.leaseSeconds = lease.getD defaultLeaseSeconds := by
  unfold newQueue at h
  cases hmode : QueueMode.fromStr mode with
  | error e =>
      rw [hmode] at h
      contradiction
  | ok mode =>
      rw [hmode] at h
      simp only [Except.bind] at h
      cases hdelivery : (delivery.map Delivery.fromStr).getD
        (.ok (queueOfMode name mode).delivery) with
      | error e =>
          rw [hdelivery] at h
          contradiction
      | ok delivery =>
          rw [hdelivery] at h
          cases h
          cases mode <;> exact ⟨rfl, rfl⟩

theorem queueCreate_ok
    (h : queueCreate table name mode delivery maxAttempts lease createdAt =
      .ok created) :
    ∃ q, created.getQueue name = .ok (some q) ∧
      q.leaseSeconds = lease.getD defaultLeaseSeconds := by
  unfold queueCreate at h
  cases hq : newQueue name mode delivery maxAttempts lease with
  | error e =>
      rw [hq] at h
      contradiction
  | ok q =>
      rw [hq] at h
      cases h
      obtain ⟨hname, hlease⟩ := newQueue_ok hq
      exact ⟨q, hname ▸ getQueue_upsertQueue table q createdAt, hlease⟩

theorem worker_ok {handler : HandlerChoice} {options : WorkerOptions}
    (h : (worker table name exec http concurrency flag override startedAt).1 =
      .ok (handler, options)) :
    flag ≠ some 0 ∧ ∃ q, table.getQueue name = .ok (some q) ∧
      options = workerOptions q concurrency flag := by
  unfold worker at h
  split at h
  · contradiction
  · split at h
    · contradiction
    · next hflag =>
        split at h
        · contradiction
        · contradiction
        · next q hq =>
            cases hchoice : chooseHandler exec http with
            | error e =>
                rw [hchoice] at h
                contradiction
            | ok choice =>
                rw [hchoice] at h
                cases h
                exact ⟨hflag, q, hq, rfl⟩

/-- The option of the worker, or else the lease its queue was created with. -/
theorem admitted_lease {handler : HandlerChoice} {options : WorkerOptions}
    (hcreate : queueCreate table name mode delivery maxAttempts lease
      createdAt = .ok created)
    (hadm : (worker created name exec http concurrency flag override
      startedAt).1 = .ok (handler, options)) :
    options.leaseSeconds = flag.getD (lease.getD defaultLeaseSeconds) := by
  obtain ⟨q, hq, hlease⟩ := queueCreate_ok hcreate
  obtain ⟨-, read, hread, rfl⟩ := worker_ok hadm
  cases hq.symm.trans hread
  rw [← hlease]
  rfl

theorem leaseExpiry_iff {now : Int} (hnow : 0 ≤ now)
    (htop : now < 9223372036854775808) (leaseSeconds : U64) :
    (leaseExpiry now leaseSeconds = now + leaseSeconds.val ∧
      now < leaseExpiry now leaseSeconds ↔
      1 ≤ leaseSeconds.val ∧
        now + leaseSeconds.val < 9223372036854775808) ∧
    (now < leaseExpiry now leaseSeconds ↔
      1 ≤ leaseSeconds.val ∧
        now + leaseSeconds.val < 9223372036854775808) := by
  have hlt := leaseSeconds.isLt
  unfold leaseExpiry
  by_cases hlow : (leaseSeconds.val : Int) < 9223372036854775808
  · rw [toI64_of_lt (by omega) hlow]
    by_cases hsum : now + leaseSeconds.val < 9223372036854775808
    · rw [toI64_of_lt (by omega) hsum]
      omega
    · rw [toI64_of_ge (by omega) (by omega)]
      omega
  · have hread : toI64 (leaseSeconds.val : Int) =
        (leaseSeconds.val : Int) - 18446744073709551616 :=
      toI64_of_ge (by omega) (by omega)
    rw [hread]
    unfold toI64
    omega

/--
A worker that nobody competes with wins with the lease it was started with, and
the expiry of its claim is the exact time at which the lease ends, if and only
if that lease is not 0 and ends before the last representable second.
-/
theorem admitted_lease_wins_iff (setup : LoneSetup) {handler : HandlerChoice}
    {options : WorkerOptions} {time : Nat} {s : Store}
    {relay : Relay} {record : MessageRecord} {message : EventId}
    (hcreate : queueCreate table name mode delivery maxAttempts lease
      createdAt = .ok created)
    (hadm : (worker created name exec http concurrency flag override
      startedAt).1 = .ok (handler, options))
    (htime : timestamp time < 9223372036854775808)
    (h : Uncontested s relay record message (timestamp time)) :
    (leaseExpiry (timestamp time) options.leaseSeconds =
        timestamp time + options.leaseSeconds.val ∧
      timestamp time < leaseExpiry (timestamp time) options.leaseSeconds ∧
      ∀ fuel, 9 ≤ fuel →
        (Lone.run setup time fuel ⟨s, relay, .entering record
          options.leaseSeconds options.settleMs⟩).phase =
          .returned (.ok true)) ↔
    1 ≤ (flag.getD (lease.getD defaultLeaseSeconds)).val ∧
      timestamp time + (flag.getD (lease.getD defaultLeaseSeconds)).val <
        9223372036854775808 := by
  rw [← admitted_lease hcreate hadm]
  have hstart : 0 ≤ timestamp time := Int.natCast_nonneg _
  obtain ⟨hexact, hfuture⟩ := leaseExpiry_iff hstart htime options.leaseSeconds
  rw [← hexact]
  constructor
  · rintro ⟨hexpiry, hlater, -⟩
    exact ⟨hexpiry, hlater⟩
  · rintro ⟨hexpiry, hlater⟩
    refine ⟨hexpiry, hlater, fun fuel hfuel => ?_⟩
    rw [lone_claim h hfuel, decide_eq_true hlater]

section Runs

def sampleSetup : LoneSetup := ⟨hexOf 'a', id, hexOf 'c', 0⟩

def sampleStore : Store := (Store.empty.insertMessage sampleRecord).2

def jobsQueue (lease : Option U64) : QueueTable :=
  match queueCreate [] "jobs" "work_queue" none none lease 0 with
  | .ok table => table
  | .error _ => []

private theorem sample_uncontested :
    Uncontested sampleStore [] sampleRecord (hexOf 'e') (timestamp 0) where
  stored := ⟨_, Store.insertMessage_row?_of_true (by decide)⟩
  eventId := by decide
  unexpired := nofun
  unsettled := rfl
  unclaimed := by decide

def sampleCall (leaseSeconds : U64) : Lone :=
  ⟨sampleStore, [], .entering sampleRecord leaseSeconds 750⟩

theorem admitted_lease_wins_iff_default :
    leaseExpiry 0 60 = 60 ∧
      (Lone.run sampleSetup 0 9 (sampleCall 60)).phase =
        .returned (.ok true) := by
  have hcreate : queueCreate [] "jobs" "work_queue" none none none 0 =
      .ok (jobsQueue none) := by decide
  have hadm : (worker (jobsQueue none) "jobs" (some "true") none 1 none none
      0).1 = .ok (.exec "true", ⟨1, 60, 750, 500⟩) := rfl
  obtain ⟨hexact, -, hwins⟩ := (admitted_lease_wins_iff sampleSetup hcreate
    hadm (by decide) sample_uncontested).mpr (by decide)
  exact ⟨hexact, hwins 9 le_rfl⟩

/--
`queue create` accepts a lease of 0, and a worker without an option of its own
takes it over: the claim it makes is over when it is made, and loses.
-/
theorem zero_lease_never_wins :
    queueCreate [] "jobs" "work_queue" none none (some 0) 0 =
      .ok (jobsQueue (some 0)) ∧
    (worker (jobsQueue (some 0)) "jobs" (some "true") none 1 none none 0).1 =
      .ok (.exec "true", ⟨1, 0, 750, 500⟩) ∧
    leaseExpiry (timestamp 0) 0 = timestamp 0 ∧
    (Lone.run sampleSetup 0 9 (sampleCall 0)).phase =
      .returned (.ok false) := by
  have hover : decide (timestamp 0 < leaseExpiry (timestamp 0) 0) = false := by
    decide
  have hlost : (Lone.run sampleSetup 0 9 (sampleCall 0)).phase = .returned
      (.ok (decide (timestamp 0 < leaseExpiry (timestamp 0) 0))) :=
    lone_claim sample_uncontested le_rfl
  rw [hover] at hlost
  exact ⟨by decide, rfl, by decide, hlost⟩

end Runs

end NostrQ.Cli
