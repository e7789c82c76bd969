import NostrQ.Sdk.TryClaim

/-!
# Settling a message

`ack` and `nack` as machines of the same kind as the one that claims.  A nack
counts the attempt in the store, publishes it, and then either dead-letters the
message or schedules a retry.
-/

namespace NostrQ.Sdk

open NostrQ.Foundation NostrQ.Core NostrQ.Database

inductive NackOutcome where
  | retry (attempt : U32) (visibleAt : Int)
  | deadLettered
  deriving DecidableEq

inductive Settled where
  | acked
  | nacked (outcome : NackOutcome)
  deriving DecidableEq

/-- The record a settling call read first, with its event id. -/
structure SettleCall where
  record : MessageRecord
  message : EventId
  deriving DecidableEq

inductive SettleStage where
  | ackPublishing
  | ackAccepted
  | configuring (reason : String)
  | counting (reason : String) (config : QueueConfig)
  | nackPublishing (reason : String) (config : QueueConfig) (attempts : U32)
  | dlqPublishing (reason : String) (attempts : U32)
  | dlqAccepted (reason : String)
  | requeueing (config : QueueConfig) (attempts : U32)
  deriving DecidableEq

inductive SettlePhase where
  | acking (mid : String)
  | nacking (mid reason : String)
  | during (call : SettleCall) (stage : SettleStage)
  | settled (result : Except SdkError Settled)
  deriving DecidableEq

namespace SettleCall

def ref (call : SettleCall) : MessageRef :=
  ⟨call.message, call.record.queue, call.record.mid, call.record.traceId⟩

/-- The attempts spent since the last retry granted a fresh budget. -/
def attemptsSinceFloor (call : SettleCall) (attempts : U32) : U32 :=
  ⟨attempts.val - call.record.attemptFloor.val, by omega⟩

def afterNack (call : SettleCall) (reason : String) (config : QueueConfig)
    (attempts : U32) : SettlePhase :=
  if config.maxAttempts ≤ call.attemptsSinceFloor attempts then
    .during call (.dlqPublishing reason attempts)
  else .during call (.requeueing config attempts)

def visibleAt (call : SettleCall) (config : QueueConfig) (attempts : U32)
    (now : Int) : Int :=
  toI64 (now + backoffSecs config.retryBaseSeconds
    (call.attemptsSinceFloor attempts))

end SettleCall

def messageRef (s : Store) (mid : String) : Except SdkError SettleCall :=
  match s.getMessage mid with
  | .error e => .error (.store e)
  | .ok none => .error (.unknownMessage mid)
  | .ok (some record) =>
      match Hex32.fromHex record.eventId with
      | none => .error .badEventId
      | some message => .ok ⟨record, message⟩

namespace SettlePhase

def publish? (hashtag : String → String) : SettlePhase → Option Draft
  | .during call .ackPublishing => some (buildAckEvent hashtag call.ref)
  | .during call (.nackPublishing reason _ attempts) =>
      some (buildNackEvent hashtag call.ref attempts reason)
  | .during call (.dlqPublishing reason attempts) =>
      some (buildDlqEvent hashtag call.ref attempts reason)
  | _ => none

def start (s : Store) (mid : String) (stage : SettleStage) : SettlePhase :=
  match messageRef s mid with
  | .error e => .settled (.error e)
  | .ok call => .during call stage

/-- A queue whose configuration is gone is settled with the defaults. -/
def configure (s : Store) (call : SettleCall) (reason : String) :
    SettlePhase :=
  .during call (.counting reason
    ((s.getQueue call.record.queue).getD
      (QueueConfig.workQueue call.record.queue)))

def count (s : Store) (call : SettleCall) (reason : String)
    (config : QueueConfig) : Store × SettlePhase :=
  match s.incrAttempts call.record.mid with
  | (.ok attempts, s') =>
      (s', .during call (.nackPublishing reason config attempts))
  | (.error e, s') => (s', .settled (.error (.store e)))

/-- The store writes that end a call. -/
def finish (s : Store) (now : Int) (call : SettleCall) :
    SettleStage → Option (Store × Except SdkError Settled)
  | .ackAccepted => some (returning .acked (s.markAcked call.record.mid))
  | .dlqAccepted reason =>
      some (returning (.nacked .deadLettered)
        (s.moveToDlq call.record.mid reason now))
  | .requeueing config attempts =>
      let visibleAt := call.visibleAt config attempts now
      some (returning (.nacked (.retry attempts visibleAt))
        (s.markPending call.record.mid visibleAt))
  | _ => none

def proceed (s : Store) (time : Nat) :
    SettlePhase → Option (Store × SettlePhase)
  | .acking mid => some (s, start s mid .ackPublishing)
  | .nacking mid reason => some (s, start s mid (.configuring reason))
  | .during call (.configuring reason) => some (s, configure s call reason)
  | .during call (.counting reason config) => some (count s call reason config)
  | .during call stage =>
      (finish s (timestamp time) call stage).map fun (s', result) =>
        (s', .settled result)
  | .settled _ => none

def accepted : SettlePhase → Option SettlePhase
  | .during call .ackPublishing => some (.during call .ackAccepted)
  | .during call (.nackPublishing reason config attempts) =>
      some (call.afterNack reason config attempts)
  | .during call (.dlqPublishing reason _) =>
      some (.during call (.dlqAccepted reason))
  | _ => none

def failed (phase : SettlePhase) : Option SettlePhase :=
  if (phase.publish? id).isSome then some (.settled (.error .transport))
  else none

def step (s : Store) (phase : SettlePhase) :
    Input → Option (Store × SettlePhase)
  | .proceed time => phase.proceed s time
  | .answer _ => none
  | .accepted _ => phase.accepted.map fun next => (s, next)
  | .failed => phase.failed.map fun next => (s, next)

/-! ### What a step can be -/

variable {s s' : Store} {phase next : SettlePhase}

inductive Proceeds (s : Store) (time : Nat) :
    SettlePhase → Store → SettlePhase → Prop where
  | ack {mid : String} :
      Proceeds s time (.acking mid) s (start s mid .ackPublishing)
  | nack {mid reason : String} :
      Proceeds s time (.nacking mid reason) s
        (start s mid (.configuring reason))
  | configure {call : SettleCall} {reason : String} :
      Proceeds s time (.during call (.configuring reason)) s
        (configure s call reason)
  | count {call : SettleCall} {reason : String} {config : QueueConfig} :
      Proceeds s time (.during call (.counting reason config))
        (count s call reason config).1 (count s call reason config).2
  | finish {call : SettleCall} {stage : SettleStage} {s' : Store}
      {result : Except SdkError Settled} :
      finish s (timestamp time) call stage = some (s', result) →
      Proceeds s time (.during call stage) s' (.settled result)

theorem proceeds {time : Nat} (h : phase.proceed s time = some (s', next)) :
    Proceeds s time phase s' next := by
  unfold proceed at h
  split at h
  · cases h
    exact .ack
  · cases h
    exact .nack
  · cases h
    exact .configure
  · next call reason config =>
      have hcount : s' = (count s call reason config).1 ∧
          next = (count s call reason config).2 :=
        Prod.ext_iff.mp (Option.some.inj h).symm
      rw [hcount.1, hcount.2]
      exact .count
  · next call stage _ _ =>
      obtain ⟨⟨store, result⟩, hfinish, heq⟩ := Option.map_eq_some_iff.mp h
      cases heq
      exact .finish hfinish
  · contradiction

theorem step_store {input : Input} (h : phase.step s input = some (s', next)) :
    s' = s ∨ ∃ time, Proceeds s time phase s' next := by
  cases input with
  | proceed time => exact Or.inr ⟨time, proceeds h⟩
  | answer _ => contradiction
  | accepted _ | failed =>
      obtain ⟨next, -, heq⟩ := Option.map_eq_some_iff.mp h
      cases heq
      exact Or.inl rfl

inductive Finishes (s : Store) (call : SettleCall) (s' : Store) :
    SettleStage → Prop where
  | acked :
      s.Moves s' call.record.mid .ack → Finishes s call s' .ackAccepted
  | buried {reason : String} :
      s.Moves s' call.record.mid .bury →
      Finishes s call s' (.dlqAccepted reason)
  | requeued {config : QueueConfig} {attempts : U32} {visibleAt : Int} :
      s.Moves s' call.record.mid (fun p => p.requeue visibleAt) →
      Finishes s call s' (.requeueing config attempts)

theorem finishes {now : Int} {call : SettleCall} {stage : SettleStage}
    {result : Except SdkError Settled}
    (h : finish s now call stage = some (s', result)) :
    Finishes s call s' stage := by
  cases stage <;> simp only [finish, Option.some.injEq, reduceCtorEq] at h
  all_goals
    have hs : s' = _ := (congrArg Prod.fst h).symm
    rw [returning_fst] at hs
    rw [hs]
  · exact .acked Store.markAcked_moves
  · exact .buried (Store.moveToDlq_moves _ _)
  · exact .requeued (Store.markPending_moves _)

theorem finish_dlq {now : Int} {call : SettleCall} {reason : String} {row : Row}
    {result : Except SdkError Settled}
    (hrow : s.row? call.record.mid = some row)
    (h : finish s now call (.dlqAccepted reason) = some (s', result)) :
    s.Moves s' call.record.mid .bury ∧
      result = .ok (.nacked .deadLettered) := by
  obtain ⟨hs, hresult⟩ := Prod.ext_iff.mp (Option.some.inj h).symm
  rw [returning_fst] at hs
  rw [returning_of_ok (Store.moveToDlq_ok hrow reason now)] at hresult
  have hmoves := @Store.moveToDlq_moves s call.record.mid reason now
  rw [← hs] at hmoves
  exact ⟨hmoves, hresult⟩

theorem finish_requeue {now : Int} {call : SettleCall} {config : QueueConfig}
    {attempts : U32} {row : Row} {result : Except SdkError Settled}
    (hrow : s.row? call.record.mid = some row)
    (h : finish s now call (.requeueing config attempts) = some (s', result)) :
    s.Moves s' call.record.mid
        (fun p => p.requeue (call.visibleAt config attempts now)) ∧
      result = .ok (.nacked (.retry attempts
        (call.visibleAt config attempts now))) := by
  obtain ⟨hs, hresult⟩ := Prod.ext_iff.mp (Option.some.inj h).symm
  rw [returning_fst] at hs
  rw [Store.markPending, returning_of_ok (Store.update_ok hrow _)] at hresult
  have hmoves := @Store.markPending_moves s call.record.mid
    (call.visibleAt config attempts now)
  rw [← hs] at hmoves
  exact ⟨hmoves, hresult⟩

theorem Finishes.rewrites {call : SettleCall} {stage : SettleStage}
    (h : Finishes s call s' stage) : s.Rewrites s' := by
  cases h with
  | acked h | buried h | requeued h => exact h.rewrites

theorem count_fst (call : SettleCall) (reason : String)
    (config : QueueConfig) :
    (count s call reason config).1 =
      (s.incrAttempts call.record.mid).2 := by
  unfold count
  split <;> simp_all

theorem count_snd (call : SettleCall) (reason : String)
    (config : QueueConfig) :
    (∃ attempts row, s.row? call.record.mid = some row ∧
      attempts.val = row.attempts + 1 ∧
      (count s call reason config).2 =
        .during call (.nackPublishing reason config attempts)) ∨
    (∃ e, (count s call reason config).2 = .settled (.error e) ∧
      ∀ row, (s.incrAttempts call.record.mid).2.row? call.record.mid =
        some row → 4294967296 ≤ row.attempts) := by
  unfold count
  split
  · next attempts s' heq =>
      obtain ⟨row, hrow, hattempts⟩ := Store.incrAttempts_ok
        (congrArg Prod.fst heq)
      exact Or.inl ⟨attempts, row, hrow, hattempts, rfl⟩
  · next e s' heq =>
      exact Or.inr ⟨_, rfl, fun row hrow =>
        Store.incrAttempts_error (congrArg Prod.fst heq) hrow⟩

theorem Proceeds.rewrites {time : Nat} (h : Proceeds s time phase s' next) :
    s.Rewrites s' := by
  cases h with
  | ack => exact Store.Rewrites.refl s
  | nack => exact Store.Rewrites.refl s
  | configure => exact Store.Rewrites.refl s
  | count =>
      rw [count_fst]
      exact Store.incrAttempts_moves.rewrites
  | finish h => exact (finishes h).rewrites

theorem Proceeds.queues {time : Nat} (h : Proceeds s time phase s' next) :
    s'.queues = s.queues := by
  cases h with
  | ack | nack | configure => rfl
  | count =>
      rw [count_fst]
      exact Store.incrAttempts_queues
  | @finish call stage _ result h =>
      cases stage <;>
        simp only [SettlePhase.finish, Option.some.injEq, reduceCtorEq] at h
      all_goals
        have hs : s' = _ := (congrArg Prod.fst h).symm
        rw [hs, returning_fst]
        simp [Store.markAcked, Store.markPending]

theorem Finishes.raises {call : SettleCall} {stage : SettleStage}
    (h : Finishes s call s' stage) : s.Raises s' := by
  cases h with
  | acked h | buried h | requeued h =>
      exact h.raises (fun _ => le_rfl) fun _ => rfl

theorem Proceeds.raises {time : Nat} (h : Proceeds s time phase s' next) :
    s.Raises s' := by
  cases h with
  | ack => exact Store.Raises.refl s
  | nack => exact Store.Raises.refl s
  | configure => exact Store.Raises.refl s
  | count =>
      rw [count_fst]
      exact Store.incrAttempts_moves.raises (fun _ => Nat.le_succ _)
        fun _ => rfl
  | finish h => exact (finishes h).raises

inductive Accepts : SettlePhase → SettlePhase → Prop where
  | ack {call : SettleCall} :
      Accepts (.during call .ackPublishing) (.during call .ackAccepted)
  | nack {call : SettleCall} {reason : String} {config : QueueConfig}
      {attempts : U32} :
      Accepts (.during call (.nackPublishing reason config attempts))
        (call.afterNack reason config attempts)
  | dlq {call : SettleCall} {reason : String} {attempts : U32} :
      Accepts (.during call (.dlqPublishing reason attempts))
        (.during call (.dlqAccepted reason))

theorem accepts (h : phase.accepted = some next) : Accepts phase next := by
  unfold accepted at h
  split at h <;> cases h <;> constructor

theorem publish?_kind {hashtag : String → String} {draft : Draft}
    (h : phase.publish? hashtag = some draft) : draft.kind ≠ KIND_CLAIM := by
  unfold publish? at h
  split at h <;> cases h <;>
    simp [buildAckEvent, buildNackEvent, buildDlqEvent, KIND_ACK, KIND_NACK,
      KIND_DLQ, KIND_CLAIM]

theorem failed_cases (h : phase.failed = some next) :
    next = .settled (.error .transport) := by
  unfold failed at h
  split at h
  · exact (Option.some.inj h).symm
  · contradiction

end SettlePhase

theorem messageRef_ok {s : Store} {mid : String} {call : SettleCall}
    (h : messageRef s mid = .ok call) :
    ∃ row, s.row? mid = some row ∧ row.Shows call.record ∧
      Hex32.fromHex row.eventId = some call.message := by
  unfold messageRef at h
  split at h
  · contradiction
  · contradiction
  · next record hget =>
      obtain ⟨row, hrow, hshows⟩ := Store.getMessage_shows hget
      split at h
      · contradiction
      · next message hhex =>
          simp only [Except.ok.injEq] at h
          subst h
          exact ⟨row, hrow, hshows, hshows.eventId ▸ hhex⟩

end NostrQ.Sdk
