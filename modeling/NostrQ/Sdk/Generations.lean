import NostrQ.Database.Generations
import NostrQ.Sdk.Session

/-!
# Retry generations over every order of operations

The calls of a session beside store operations of other processes on the same
database file, with any arguments.  A nack reads the floor of its message before
it counts the attempt, and computes with the two when other operations may have
moved both.
-/

namespace NostrQ.Sdk

open NostrQ.Foundation NostrQ.Core NostrQ.Database

/-- The mutating store operations; what is inserted was published or ingested. -/
inductive Operation (Envelope : Type) where
  | insertPublished (call : PublishCall Envelope) (mode : QueueMode)
      (envelopeJson : String) (id : EventId) (now : Int)
  | insertIngested (event : Event)
  | markClaimed (mid consumer : String) (leaseExpiresAt : Int) (attempt : U32)
  | markAcked (mid : String)
  | markPending (mid : String) (visibleAt : Int)
  | incrAttempts (mid : String)
  | moveToDlq (mid reason : String) (now : Int)
  | moveToDlqAt (mid reason : String) (attempt : U32) (now : Int)
  | expireDue (queue : String) (now : Int)
  | dlqRetry (mid : String)

namespace Operation

variable {Envelope : Type} (codec : Codec Envelope)

def apply (s : Store) : Operation Envelope → Store
  | .insertPublished call mode envelopeJson id now =>
      (s.insertMessage (call.toRecord mode envelopeJson id now)).2
  | .insertIngested event => ingest codec s event
  | .markClaimed mid consumer leaseExpiresAt attempt =>
      (s.markClaimed mid consumer leaseExpiresAt attempt).2
  | .markAcked mid => (s.markAcked mid).2
  | .markPending mid visibleAt => (s.markPending mid visibleAt).2
  | .incrAttempts mid => (s.incrAttempts mid).2
  | .moveToDlq mid reason now => (s.moveToDlq mid reason now).2
  | .moveToDlqAt mid reason attempt now =>
      (s.moveToDlqAt mid reason attempt now).2
  | .expireDue queue now => (s.expireDue queue now).2
  | .dlqRetry mid => (s.dlqRetry mid).2

def retries? : Operation Envelope → Option String
  | .dlqRetry mid => some mid
  | _ => none

end Operation

inductive SharedAction (Envelope : Type) where
  | session (action : SessionAction Envelope)
  | operate (operation : Operation Envelope)

def SessionAction.retries? {Envelope : Type} :
    SessionAction Envelope → Option String
  | .dlqRetry mid => some mid
  | _ => none

def SharedAction.retries? {Envelope : Type} :
    SharedAction Envelope → Option String
  | .session action => action.retries?
  | .operate operation => operation.retries?

namespace SettlePhase

def counted? : SettlePhase → Option (SettleCall × U32)
  | .during call (.nackPublishing _ _ attempts) => some (call, attempts)
  | .during call (.dlqPublishing _ attempts) => some (call, attempts)
  | .during call (.requeueing _ attempts) => some (call, attempts)
  | _ => none

def uncounted? : SettlePhase → Option SettleCall
  | .during call (.configuring _) => some call
  | .during call (.counting _ _) => some call
  | _ => none

/--
The counter of the message has reached the floor that a nack has read, and the
attempt that a nack has counted is past it.
-/
structure Ahead (s : Store) (phase : SettlePhase) : Prop where
  uncounted : ∀ call ∈ phase.uncounted?, ∃ row,
    s.row? call.record.mid = some row ∧
      call.record.attemptFloor.val ≤ row.attempts
  counted : ∀ call attempts, phase.counted? = some (call, attempts) →
    call.record.attemptFloor.val < attempts.val

variable {s s' : Store} {phase next : SettlePhase}

private theorem ahead_of_neither (huncounted : phase.uncounted? = none)
    (hcounted : phase.counted? = none) : phase.Ahead s :=
  ⟨by simp [huncounted], by simp [hcounted]⟩

theorem Ahead.advances (h : phase.Ahead s) (hs : s.Advances s') :
    phase.Ahead s' := by
  refine ⟨fun call hcall => ?_, h.counted⟩
  obtain ⟨row, hrow, hle⟩ := h.uncounted call hcall
  obtain ⟨row', hrow', hattempts, -⟩ := hs _ row hrow
  exact ⟨row', hrow', by omega⟩

private theorem ahead_start {mid : String} {stage : SettleStage}
    (hfloored : s.Floored)
    (hcounted : ∀ call, (SettlePhase.during call stage).counted? = none) :
    (start s mid stage).Ahead s := by
  unfold start
  cases href : messageRef s mid with
  | error e => exact ahead_of_neither rfl rfl
  | ok call =>
      obtain ⟨row, hrow, hshows, -⟩ := messageRef_ok href
      have hmid : call.record.mid = mid :=
        hshows.mid.trans (Messages.row?_mem hrow).2
      have hle := hfloored mid row hrow
      refine ⟨fun other hother => ?_, fun _ _ heq => ?_⟩
      · have hsame : other = call := by
          cases stage <;> simp [uncounted?] at hother <;> exact hother.symm
        subst hsame
        exact ⟨row, hmid ▸ hrow, hshows.attemptFloor ▸ hle⟩
      · simp [hcounted] at heq

private theorem ahead_count {call : SettleCall} {reason : String}
    {config : QueueConfig}
    (h : (SettlePhase.during call (.counting reason config)).Ahead s) :
    (count s call reason config).2.Ahead (count s call reason config).1 := by
  obtain ⟨row, hrow, hle⟩ := h.uncounted call rfl
  rcases count_snd call reason config (s := s) with
    ⟨attempts, counted, hcounted, hattempts, hnext⟩ | ⟨e, hnext, -⟩
  · rw [hnext]
    cases hrow.symm.trans hcounted
    refine ⟨by simp [uncounted?], fun other value heq => ?_⟩
    cases heq
    omega
  · rw [hnext]
    exact ahead_of_neither rfl rfl

theorem Ahead.step {input : Input} (h : phase.Ahead s) (hfloored : s.Floored)
    (hs : phase.step s input = some (s', next)) :
    s.Turns s' none ∧ next.Ahead s' := by
  cases input with
  | proceed time =>
      have hproceeds := proceeds hs
      have hturns : s.Turns s' none := .raised hproceeds.rewrites hproceeds.raises
      refine ⟨hturns, ?_⟩
      cases hproceeds with
      | ack => exact ahead_start hfloored fun _ => rfl
      | nack => exact ahead_start hfloored fun _ => rfl
      | @configure call reason =>
          unfold configure
          exact ⟨h.uncounted, by simp [counted?]⟩
      | count => exact ahead_count h
      | finish => exact ahead_of_neither rfl rfl
  | answer events => contradiction
  | accepted time =>
      obtain ⟨after, haccepted, heq⟩ := Option.map_eq_some_iff.mp hs
      cases heq
      refine ⟨.refl s, ?_⟩
      cases accepts haccepted with
      | ack => exact ahead_of_neither rfl rfl
      | @nack call reason config attempts =>
          have hpast := h.counted call attempts rfl
          unfold SettleCall.afterNack
          split <;> refine ⟨by simp [uncounted?], fun other value heq => ?_⟩ <;>
            cases heq <;> exact hpast
      | dlq => exact ahead_of_neither rfl rfl
  | failed =>
      obtain ⟨after, hfailed, heq⟩ := Option.map_eq_some_iff.mp hs
      cases heq
      rw [failed_cases hfailed]
      exact ⟨.refl s, ahead_of_neither rfl rfl⟩

end SettlePhase

/-! ## What a step does to the counters -/

section Steps

variable {Envelope : Type} {codec : Codec Envelope} {key : PublicKey}
  {s s' : Store}

theorem ingest_turns (event : Event) : s.Turns (ingest codec s event) none := by
  unfold ingest
  split
  · exact .refl s
  · next rec hrec => exact .inserted (ingestRecord_ok hrec).2.1 rfl

theorem expireDue_turns (queue : String) (now : Int) :
    s.Turns (s.expireDue queue now).2 none :=
  .raised (Store.expireDue_rewrites queue now)
    (Store.expireDue_raises queue now)

theorem Operation.turns (operation : Operation Envelope) :
    s.Turns (operation.apply codec s) operation.retries? := by
  cases operation with
  | insertPublished call mode envelopeJson id now =>
      have hfloor : (call.toRecord mode envelopeJson id now).attemptFloor = 0 :=
        rfl
      exact .inserted hfloor rfl
  | insertIngested event => exact ingest_turns event
  | markClaimed mid consumer leaseExpiresAt attempt =>
      exact (Store.markClaimed_moves _ _ _).turns (fun _ => le_max_left _ _)
        fun _ => rfl
  | markAcked mid =>
      exact Store.markAcked_moves.turns (fun _ => le_rfl) fun _ => rfl
  | markPending mid visibleAt =>
      exact (Store.markPending_moves _).turns (fun _ => le_rfl) fun _ => rfl
  | incrAttempts mid =>
      exact Store.incrAttempts_moves.turns (fun _ => Nat.le_succ _) fun _ => rfl
  | moveToDlq mid reason now =>
      exact (Store.moveToDlq_moves _ _).turns (fun _ => le_rfl) fun _ => rfl
  | moveToDlqAt mid reason attempt now =>
      exact (Store.moveToDlqAt_moves _ _ _).turns (fun _ => le_max_left _ _)
        fun _ => rfl
  | expireDue queue now => exact expireDue_turns queue now
  | dlqRetry mid => exact .retried Store.dlqRetry_moves

theorem ClaimPhase.step_turns {phase next : ClaimPhase} {input : Input}
    (hs : phase.step key s input = some (s', next)) : s.Turns s' none := by
  rcases ClaimPhase.step_store hs with rfl | ⟨time, hproceeds⟩
  · exact .refl s'
  · exact .raised hproceeds.rewrites hproceeds.raises

def Call.Ahead (s : Store) : Call Envelope → Prop
  | .publishing (.inserting rec) => rec.attemptFloor = 0
  | .settling phase => phase.Ahead s
  | _ => True

theorem Call.Ahead.advances {call : Call Envelope} (h : call.Ahead s)
    (hs : s.Advances s') : call.Ahead s' := by
  cases call with
  | publishing phase => cases phase <;> exact h
  | claiming phase => trivial
  | settling phase => exact SettlePhase.Ahead.advances h hs

private theorem publish_proceed {phase next : PublishPhase Envelope}
    (h : (Call.publishing phase).Ahead s)
    (hs : phase.proceed codec s = some (s', next)) :
    s.Turns s' none ∧ (Call.publishing next).Ahead s' := by
  unfold PublishPhase.proceed at hs
  split at hs
  · split at hs <;> cases hs <;> exact ⟨.refl s, trivial⟩
  · cases hs
    refine ⟨.refl s, ?_⟩
    unfold PublishPhase.check PublishPhase.build
    split
    · split <;> trivial
    · split
      · trivial
      · trivial
      · split <;> trivial
  · cases hs
    refine ⟨.inserted h rfl, ?_⟩
    unfold PublishPhase.insert
    split
    · trivial
    · split <;> trivial
  · cases hs
    refine ⟨.refl s, ?_⟩
    unfold PublishPhase.reread
    split <;> trivial
  · contradiction

theorem Call.Ahead.step {call next : Call Envelope} {input : CallInput}
    (h : call.Ahead s) (hfloored : s.Floored)
    (hs : call.step codec key s input = some (s', next)) :
    s.Turns s' none ∧ next.Ahead s' := by
  unfold Call.step at hs
  split at hs
  · obtain ⟨⟨store, after⟩, hstep, heq⟩ := Option.map_eq_some_iff.mp hs
    cases heq
    exact publish_proceed h hstep
  · obtain ⟨after, haccepted, heq⟩ := Option.map_eq_some_iff.mp hs
    cases heq
    refine ⟨.refl s, ?_⟩
    unfold PublishPhase.accepted at haccepted
    split at haccepted
    · split at haccepted <;> cases haccepted <;> trivial
    · contradiction
  · obtain ⟨after, hfailed, heq⟩ := Option.map_eq_some_iff.mp hs
    cases heq
    refine ⟨.refl s, ?_⟩
    unfold PublishPhase.failed at hfailed
    split at hfailed
    · cases hfailed
      trivial
    · contradiction
  · obtain ⟨⟨store, after⟩, hstep, heq⟩ := Option.map_eq_some_iff.mp hs
    cases heq
    exact ⟨ClaimPhase.step_turns hstep, trivial⟩
  · obtain ⟨⟨store, after⟩, hstep, heq⟩ := Option.map_eq_some_iff.mp hs
    cases heq
    exact SettlePhase.Ahead.step h hfloored hstep
  · contradiction

end Steps

namespace Session

variable {Envelope : Type} {codec : Codec Envelope} {key : PublicKey}
  {c c' : Session Envelope}

def stepShared (codec : Codec Envelope) (key : PublicKey)
    (c : Session Envelope) : SharedAction Envelope → Option (Session Envelope)
  | .session action => c.step codec key action
  | .operate operation =>
      some { c with store := operation.apply codec c.store }

def Blank (c : Session Envelope) : Prop :=
  c.store.messages.rows = [] ∧ c.calls = []

def shared (codec : Codec Envelope) (key : PublicKey) :
    System (Session Envelope) (SharedAction Envelope) where
  init := Blank
  step := stepShared codec key

structure Generational (c : Session Envelope) : Prop where
  floored : c.store.Floored
  ahead : ∀ call ∈ c.calls, call.Ahead c.store

private theorem Generational.start {call : Call Envelope} (h : c.Generational)
    (hcall : call.Ahead c.store) : (c.start call).Generational :=
  ⟨h.floored, forall_start h.ahead hcall⟩

private theorem Generational.turned {s : Store} {retried : Option String}
    (h : c.Generational) (hturns : c.store.Turns s retried) :
    ({ c with store := s } : Session Envelope).Generational :=
  ⟨hturns.floored h.floored, fun call hcall =>
    (h.ahead call hcall).advances (hturns.advances h.floored)⟩

private theorem Generational.session {a : SessionAction Envelope}
    (h : c.Generational) (hs : step codec key c a = some c') :
    c.store.Turns c'.store a.retries? ∧ c'.Generational := by
  cases a with
  | publish call =>
      cases hs
      exact ⟨.refl _, h.start trivial⟩
  | tryClaim record leaseSeconds settleMs =>
      cases hs
      exact ⟨.refl _, h.start trivial⟩
  | ack mid =>
      cases hs
      have hahead : (Call.ack mid : Call Envelope).Ahead c.store :=
        SettlePhase.ahead_of_neither rfl rfl
      exact ⟨.refl _, h.start hahead⟩
  | nack mid reason =>
      cases hs
      have hahead : (Call.nack mid reason : Call Envelope).Ahead c.store :=
        SettlePhase.ahead_of_neither rfl rfl
      exact ⟨.refl _, h.start hahead⟩
  | resume i input =>
      obtain ⟨call, s, next, hcall, hnext, rfl⟩ := resume_cases hs
      obtain ⟨hturns, hahead⟩ := (h.ahead call
        (List.mem_of_getElem? hcall)).step h.floored hnext
      have hothers : ∀ other ∈ c.calls, other.Ahead s := fun other hother =>
        (h.ahead other hother).advances (hturns.advances h.floored)
      exact ⟨hturns, hturns.floored h.floored, forall_set hothers hahead⟩
  | ingest event =>
      cases hs
      exact ⟨ingest_turns event, h.turned (ingest_turns event)⟩
  | sweepExpired queue now =>
      cases hs
      exact ⟨expireDue_turns queue now, h.turned (expireDue_turns queue now)⟩
  | dlqRetry mid =>
      cases hs
      have hturns : c.store.Turns (c.store.dlqRetry mid).2 (some mid) :=
        .retried Store.dlqRetry_moves
      exact ⟨hturns, h.turned hturns⟩
  | configure queues =>
      cases hs
      have hturns : c.store.Turns { c.store with queues := queues } none :=
        .raised (Store.Rewrites.refl c.store) (Store.Raises.refl c.store)
      exact ⟨hturns, h.turned hturns⟩

theorem Generational.step {a : SharedAction Envelope} (h : c.Generational)
    (hs : stepShared codec key c a = some c') :
    c.store.Turns c'.store a.retries? ∧ c'.Generational := by
  cases a with
  | session action => exact h.session hs
  | operate operation =>
      cases hs
      exact ⟨operation.turns, h.turned operation.turns⟩

theorem generational (h : (shared codec key).Reach System.Free c) :
    c.Generational := by
  refine h.invariant (I := Generational) ?_ fun _ _ _ _ hi _ hs => (hi.step hs).2
  rintro c₀ ⟨hrows, hcalls⟩
  refine ⟨fun mid row hrow => ?_, by simp [hcalls]⟩
  have hmem := (Messages.row?_mem hrow).1
  rw [hrows] at hmem
  contradiction

theorem advances (h : (shared codec key).Reach System.Free c)
    (hlater : ((shared codec key).startingIn fun start => start = c).Reach
      System.Free c') : c.store.Advances c'.store := by
  refine (hlater.invariant
    (I := fun later : Session Envelope =>
      later.Generational ∧ c.store.Advances later.store) ?_ ?_).2
  · rintro _ rfl
    exact ⟨generational h, .refl _⟩
  · rintro now a later - ⟨hgenerational, hadvances⟩ - hs
    obtain ⟨hturns, hnext⟩ := hgenerational.step hs
    exact ⟨hnext, hadvances.trans (hturns.advances hgenerational.floored)⟩

/--
Between any two states of a run no message disappears and neither of its
counters falls; the floor is never above the counter, and only a dead-letter
retry of the message moves it.  The attempts a nack counts its budget with are
the difference of its two readings, and never zero.
-/
theorem generations_never_go_back
    (h : (shared codec key).Reach System.Free c)
    (hlater : ((shared codec key).startingIn fun start => start = c).Reach
      System.Free c') :
    c.store.Advances c'.store ∧ c'.store.Floored ∧
    (∀ a next mid, stepShared codec key c' a = some next →
      a.retries? ≠ some mid → c'.store.KeepsFloor next.store mid) ∧
    ∀ phase, Call.settling phase ∈ c'.calls → ∀ call attempts,
      phase.counted? = some (call, attempts) →
      1 ≤ (call.attemptsSinceFloor attempts).val ∧
      (call.attemptsSinceFloor attempts).val + call.record.attemptFloor.val =
        attempts.val := by
  have hgenerational := generational (h.after hlater)
  refine ⟨advances h hlater, hgenerational.floored, ?_, ?_⟩
  · intro a next mid hs hspared
    exact (hgenerational.step hs).1.keepsFloor hspared
  · intro phase hmem call attempts hcounted
    have hpast := (hgenerational.ahead _ hmem).counted call attempts hcounted
    have hdiff : (call.attemptsSinceFloor attempts).val =
        attempts.val - call.record.attemptFloor.val := rfl
    omega

section Runs

open Publishing

/-- The message is buried and retried after the nack has read its floor. -/
def overtakenRun : List (SharedAction String) :=
  [.session (.ingest (sampleDraft.sign (hexOf '0') 0 sampleId)),
    .session (.nack "m" "failed"), .session (.resume 0 (.io (.proceed 0))),
    .operate (.markClaimed "m" "other" 60 3),
    .operate (.moveToDlq "m" "failed" 0), .session (.dlqRetry "m"),
    .session (.resume 0 (.io (.proceed 0))),
    .session (.resume 0 (.io (.proceed 0)))]

theorem generations_never_go_back_overtaken :
    ∃ c : Session String,
      (∃ row, c.store.row? "m" = some row ∧ row.attempts = 4 ∧
        row.attemptFloor = 3) ∧
      sampleSession.store.Advances c.store ∧ c.store.Floored ∧
      (∀ a next mid, stepShared textCodec sampleId c a = some next →
        a.retries? ≠ some mid → c.store.KeepsFloor next.store mid) ∧
      ∀ phase, Call.settling phase ∈ c.calls → ∀ call attempts,
        phase.counted? = some (call, attempts) →
        1 ≤ (call.attemptsSinceFloor attempts).val ∧
        (call.attemptsSinceFloor attempts).val +
          call.record.attemptFloor.val = attempts.val := by
  obtain ⟨c, hreach, htest⟩ :=
    (System.Reach.init
      (S := (shared textCodec sampleId).startingIn fun s => s = sampleSession)
      (P := System.Free) rfl).of_run_check overtakenRun
      (fun c => decide (∃ row ∈ c.store.row? "m",
        row.attempts = 4 ∧ row.attemptFloor = 3)) (by decide)
  exact ⟨c, of_decide_eq_true htest,
    generations_never_go_back (.init ⟨rfl, rfl⟩) hreach⟩

end Runs

end Session

end NostrQ.Sdk
