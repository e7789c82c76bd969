import NostrQ.Core.Protocol
import NostrQ.Database.Store

/-!
# Claiming a message

`tryClaim` as a machine that stops at every point where other parties may act:
before each clock reading, store call, relay query, publish and wake-up.  The
relay's answers are inputs, so the machine is independent of what answers it.
Times are in milliseconds; the clock the code reads counts whole seconds.
-/

namespace NostrQ.Sdk

open NostrQ.Foundation NostrQ.Core NostrQ.Database

inductive SdkError where
  | store (error : StoreError)
  | transport
  | badEventId
  | unknownMessage (mid : String)
  deriving DecidableEq

def timestamp (time : Nat) : Int := ((time / 1000 : Nat) : Int)

theorem timestamp_mono {a b : Nat} (h : a ≤ b) : timestamp a ≤ timestamp b := by
  unfold timestamp
  omega

/-- What lets a call go on: its own progress, or an answer of the relay. -/
inductive Input where
  | proceed (time : Nat)
  | answer (events : List Event)
  | accepted (time : Nat)
  | failed

/-- What a call fixes when it reads the clock. -/
structure ClaimCall where
  record : MessageRecord
  message : EventId
  now : Int
  leaseExpiresAt : Int
  settleMs : U64
  deriving DecidableEq

/-- Where a call stands once it has read the clock. -/
inductive ClaimStage where
  | terminalCheck
  | ackObserved
  | dlqObserved (attempt : U32)
  | surveyNacks
  | surveyClaims (observed : U32)
  | recognised (winner : ClaimInfo)
  | contending (observed : U32)
  | settling (observed : U32) (wakeAt : Nat)
  | recheckClaims (observed : U32)
  | recheckNacks (observed : U32) (claims : List ClaimInfo)
  | contendWon (observed : U32)
  deriving DecidableEq

inductive ClaimPhase where
  | entering (record : MessageRecord) (leaseSeconds settleMs : U64)
  | expiring (record : MessageRecord) (now : Int)
  | during (call : ClaimCall) (stage : ClaimStage)
  | returned (result : Except SdkError Bool)
  deriving DecidableEq

namespace ClaimCall

def claimAttempt (call : ClaimCall) (observed : U32) : U32 :=
  max call.record.attempts observed

def messageRef (call : ClaimCall) : MessageRef :=
  ⟨call.message, call.record.queue, call.record.mid, call.record.traceId⟩

/-- The highest attempt of the dlq events, 0 when there is none. -/
def dlqAttempt (events : List Event) : U32 :=
  maxAttempt (events.filter fun event => event.kind = KIND_DLQ)

def afterTerminal (call : ClaimCall) (events : List Event) : ClaimPhase :=
  if events.any fun event => event.kind = KIND_ACK then
    .during call .ackObserved
  else if call.record.attemptFloor < dlqAttempt events then
    .during call (.dlqObserved (dlqAttempt events))
  else .during call .surveyNacks

def afterSurvey (key : PublicKey) (call : ClaimCall) (observed : U32)
    (claims : List ClaimInfo) : ClaimPhase :=
  match claimWinner claims observed call.now with
  | some winner =>
      if winner.claimer = key then .during call (.recognised winner)
      else .returned (.ok false)
  | none => .during call (.contending observed)

/-- Losing means no winner, or a winner with another key. -/
def afterRecheck (key : PublicKey) (call : ClaimCall) (observed : U32)
    (claims : List ClaimInfo) (nacks : List Event) : ClaimPhase :=
  match claimWinner claims (max observed (maxAttempt nacks)) call.now with
  | some winner =>
      if winner.claimer = key then .during call (.contendWon observed)
      else .returned (.ok false)
  | none => .returned (.ok false)

end ClaimCall

def returning {α β : Type} (value : β) :
    Except StoreError α × Store → Store × Except SdkError β
  | (.ok _, s) => (s, .ok value)
  | (.error e, s) => (s, .error (.store e))

@[simp] theorem returning_fst {α β : Type} (value : β)
    (r : Except StoreError α × Store) : (returning value r).1 = r.2 := by
  obtain ⟨result | result, s⟩ := r <;> rfl

theorem returning_ok {α β : Type} {value value' : β}
    {r : Except StoreError α × Store}
    (h : (returning value r).2 = .ok value') :
    value' = value ∧ ∃ a, r.1 = .ok a := by
  obtain ⟨error | a, s⟩ := r
  · simp [returning] at h
  · simp only [returning, Except.ok.injEq] at h
    exact ⟨h.symm, a, rfl⟩

theorem returning_of_ok {α β : Type} {value : β} {a : α}
    {r : Except StoreError α × Store} (h : r.1 = .ok a) :
    (returning value r).2 = .ok value := by
  obtain ⟨result, s⟩ := r
  cases h
  rfl

namespace ClaimPhase

def query? : ClaimPhase → Option Filter
  | .during call .terminalCheck => some (terminalFilter call.message)
  | .during call .surveyNacks => some (nackFilter call.message)
  | .during call (.surveyClaims _) => some (claimFilter call.message)
  | .during call (.recheckClaims _) => some (claimFilter call.message)
  | .during call (.recheckNacks _ _) => some (nackFilter call.message)
  | _ => none

def publish? (hashtag : String → String) : ClaimPhase → Option Draft
  | .during call (.contending observed) =>
      some (buildClaimEvent hashtag call.messageRef call.leaseExpiresAt
        (call.claimAttempt observed))
  | _ => none

/-- The clock is read once, on entry. -/
def enter (record : MessageRecord) (leaseSeconds settleMs : U64)
    (now : Int) : ClaimPhase :=
  if record.expiresAt.any fun expiry => expiry ≤ now then .expiring record now
  else
    match Hex32.fromHex record.eventId with
    | none => .returned (.error .badEventId)
    | some message =>
        .during {
          record := record
          message := message
          now := now
          leaseExpiresAt := toI64 (now + toI64 leaseSeconds.val)
          settleMs := settleMs } .terminalCheck

/-- The store writes that end a call. -/
def finish (key : PublicKey) (s : Store) (now : Int) (call : ClaimCall) :
    ClaimStage → Option (Store × Except SdkError Bool)
  | .ackObserved => some (returning false (s.markAcked call.record.mid))
  | .dlqObserved attempt =>
      some (returning false (s.moveToDlqAt call.record.mid
        "dead-lettered by remote worker" attempt now))
  | .recognised winner =>
      some (returning true (s.markClaimed call.record.mid key.toHex
        winner.leaseExpiresAt winner.attempt))
  | .contendWon observed =>
      some (returning true (s.markClaimed call.record.mid key.toHex
        call.leaseExpiresAt (call.claimAttempt observed)))
  | _ => none

def proceed (key : PublicKey) (s : Store) (time : Nat) :
    ClaimPhase → Option (Store × ClaimPhase)
  | .entering record leaseSeconds settleMs =>
      some (s, enter record leaseSeconds settleMs (timestamp time))
  | .expiring record now =>
      some ((s.expireDue record.queue now).2, .returned (.ok false))
  | .during call (.settling observed wakeAt) =>
      if wakeAt ≤ time then some (s, .during call (.recheckClaims observed))
      else none
  | .during call stage =>
      (finish key s (timestamp time) call stage).map fun (s', result) =>
        (s', .returned result)
  | .returned _ => none

def answer (key : PublicKey) (events : List Event) :
    ClaimPhase → Option ClaimPhase
  | .during call .terminalCheck => some (call.afterTerminal events)
  | .during call .surveyNacks =>
      some (.during call (.surveyClaims (maxAttempt events)))
  | .during call (.surveyClaims observed) =>
      some (call.afterSurvey key observed (parseClaims events))
  | .during call (.recheckClaims observed) =>
      some (.during call (.recheckNacks observed (parseClaims events)))
  | .during call (.recheckNacks observed claims) =>
      some (call.afterRecheck key observed claims events)
  | _ => none

/-- The winning claim, when an answer decides the call in its favour. -/
def elected? (key : PublicKey) (events : List Event) :
    ClaimPhase → Option ClaimInfo
  | .during call (.surveyClaims observed) =>
      (claimWinner (parseClaims events) observed call.now).filter
        fun winner => winner.claimer = key
  | .during call (.recheckNacks observed claims) =>
      (claimWinner claims (max observed (maxAttempt events)) call.now).filter
        fun winner => winner.claimer = key
  | _ => none

def accepted (time : Nat) : ClaimPhase → Option ClaimPhase
  | .during call (.contending observed) =>
      some (.during call (.settling observed (time + call.settleMs.val)))
  | _ => none

def awaits (phase : ClaimPhase) : Bool :=
  phase.query?.isSome || (phase.publish? id).isSome

def failed (phase : ClaimPhase) : Option ClaimPhase :=
  if phase.awaits then some (.returned (.error .transport)) else none

def step (key : PublicKey) (s : Store) (phase : ClaimPhase) :
    Input → Option (Store × ClaimPhase)
  | .proceed time => phase.proceed key s time
  | .answer events => (phase.answer key events).map fun next => (s, next)
  | .accepted time => (phase.accepted time).map fun next => (s, next)
  | .failed => phase.failed.map fun next => (s, next)

/-! ### What a step can be -/

variable {key : PublicKey} {s s' : Store} {phase next : ClaimPhase}

inductive Proceeds (key : PublicKey) (s : Store) (time : Nat) :
    ClaimPhase → Store → ClaimPhase → Prop where
  | enter {record : MessageRecord} {leaseSeconds settleMs : U64} :
      Proceeds key s time (.entering record leaseSeconds settleMs) s
        (enter record leaseSeconds settleMs (timestamp time))
  | expire {record : MessageRecord} {now : Int} :
      Proceeds key s time (.expiring record now)
        (s.expireDue record.queue now).2 (.returned (.ok false))
  | wake {call : ClaimCall} {observed : U32} {wakeAt : Nat} :
      wakeAt ≤ time →
      Proceeds key s time (.during call (.settling observed wakeAt)) s
        (.during call (.recheckClaims observed))
  | finish {call : ClaimCall} {stage : ClaimStage} {s' : Store}
      {result : Except SdkError Bool} :
      finish key s (timestamp time) call stage = some (s', result) →
      Proceeds key s time (.during call stage) s' (.returned result)

theorem proceeds {time : Nat}
    (h : phase.proceed key s time = some (s', next)) :
    Proceeds key s time phase s' next := by
  unfold proceed at h
  split at h
  · cases h
    exact .enter
  · cases h
    exact .expire
  · split at h
    · next hwake =>
        cases h
        exact .wake hwake
    · contradiction
  · next call stage _ =>
      obtain ⟨⟨store, result⟩, hfinish, heq⟩ := Option.map_eq_some_iff.mp h
      cases heq
      exact .finish hfinish
  · contradiction

theorem step_store {input : Input}
    (h : phase.step key s input = some (s', next)) :
    s' = s ∨ ∃ time, Proceeds key s time phase s' next := by
  cases input with
  | proceed time => exact Or.inr ⟨time, proceeds h⟩
  | answer _ | accepted _ | failed =>
      obtain ⟨next, -, heq⟩ := Option.map_eq_some_iff.mp h
      cases heq
      exact Or.inl rfl

inductive Answers (key : PublicKey) (events : List Event) :
    ClaimPhase → ClaimPhase → Prop where
  | terminal {call : ClaimCall} :
      Answers key events (.during call .terminalCheck)
        (call.afterTerminal events)
  | nacks {call : ClaimCall} :
      Answers key events (.during call .surveyNacks)
        (.during call (.surveyClaims (maxAttempt events)))
  | claims {call : ClaimCall} {observed : U32} :
      Answers key events (.during call (.surveyClaims observed))
        (call.afterSurvey key observed (parseClaims events))
  | recheckClaims {call : ClaimCall} {observed : U32} :
      Answers key events (.during call (.recheckClaims observed))
        (.during call (.recheckNacks observed (parseClaims events)))
  | recheckNacks {call : ClaimCall} {observed : U32}
      {claims : List ClaimInfo} :
      Answers key events (.during call (.recheckNacks observed claims))
        (call.afterRecheck key observed claims events)

theorem Answers.during {events : List Event}
    (h : Answers key events phase next) :
    ∃ call stage, phase = .during call stage := by
  cases h <;> exact ⟨_, _, rfl⟩

theorem answers {events : List Event}
    (h : phase.answer key events = some next) :
    Answers key events phase next := by
  unfold answer at h
  split at h <;> cases h <;> constructor

inductive Finishes (key : PublicKey) (s : Store) (call : ClaimCall)
    (s' : Store) : ClaimStage → Except SdkError Bool → Prop where
  | acked {result : Except SdkError Bool} :
      s.Moves s' call.record.mid .ack → result ≠ .ok true →
      Finishes key s call s' .ackObserved result
  | buried {attempt : U32} {result : Except SdkError Bool} :
      s.Moves s' call.record.mid (fun p => p.buryAt attempt) →
      result ≠ .ok true →
      Finishes key s call s' (.dlqObserved attempt) result
  | recognised {winner : ClaimInfo} {result : Except SdkError Bool} :
      s.Moves s' call.record.mid (fun p =>
        p.claim key.toHex winner.leaseExpiresAt winner.attempt) →
      (result = .ok true → ∃ row, s.row? call.record.mid = some row) →
      Finishes key s call s' (.recognised winner) result
  | contendWon {observed : U32} {result : Except SdkError Bool} :
      s.Moves s' call.record.mid (fun p =>
        p.claim key.toHex call.leaseExpiresAt (call.claimAttempt observed)) →
      (result = .ok true → ∃ row, s.row? call.record.mid = some row) →
      Finishes key s call s' (.contendWon observed) result

theorem finishes {now : Int} {call : ClaimCall} {stage : ClaimStage}
    {result : Except SdkError Bool}
    (h : finish key s now call stage = some (s', result)) :
    Finishes key s call s' stage result := by
  have never : ∀ {r : Except StoreError Unit × Store},
      (returning false r).2 ≠ .ok true :=
    fun hr => absurd (returning_ok hr).1 (by simp)
  have marked : ∀ {lease : Int} {attempt : U32},
      (returning true (s.markClaimed call.record.mid key.toHex lease
        attempt)).2 = .ok true →
      ∃ row, s.row? call.record.mid = some row := fun hr =>
    let ⟨_, _, hok⟩ := returning_ok hr
    Store.row?_of_update_ok hok
  cases stage <;> simp only [finish, Option.some.injEq, reduceCtorEq] at h
  all_goals
    have hs : s' = _ := (congrArg Prod.fst h).symm
    have hresult : result = _ := (congrArg Prod.snd h).symm
    rw [returning_fst] at hs
    rw [hs, hresult]
  · exact .acked Store.markAcked_moves never
  · exact .buried (Store.moveToDlqAt_moves _ _ _) never
  · exact .recognised (Store.markClaimed_moves _ _ _) marked
  · exact .contendWon (Store.markClaimed_moves _ _ _) marked

theorem Finishes.rewrites {call : ClaimCall} {stage : ClaimStage}
    {result : Except SdkError Bool}
    (h : Finishes key s call s' stage result) : s.Rewrites s' := by
  cases h with
  | acked h _ | buried h _ | recognised h _ | contendWon h _ =>
      exact h.rewrites

theorem Finishes.raises {call : ClaimCall} {stage : ClaimStage}
    {result : Except SdkError Bool}
    (h : Finishes key s call s' stage result) : s.Raises s' := by
  cases h with
  | acked h _ => exact h.raises (fun _ => le_rfl) fun _ => rfl
  | buried h _ => exact h.raises (fun _ => le_max_left _ _) fun _ => rfl
  | recognised h _ | contendWon h _ =>
      exact h.raises (fun _ => le_max_left _ _) fun _ => rfl

theorem Proceeds.raises {time : Nat}
    (h : Proceeds key s time phase s' next) : s.Raises s' := by
  cases h with
  | enter => exact Store.Raises.refl s
  | expire => exact Store.expireDue_raises _ _
  | wake => exact Store.Raises.refl s
  | finish h => exact (finishes h).raises

theorem Proceeds.rewrites {time : Nat}
    (h : Proceeds key s time phase s' next) : s.Rewrites s' := by
  cases h with
  | enter => exact Store.Rewrites.refl s
  | expire => exact Store.expireDue_rewrites _ _
  | wake => exact Store.Rewrites.refl s
  | finish h => exact (finishes h).rewrites

theorem Proceeds.queues {time : Nat}
    (h : Proceeds key s time phase s' next) : s'.queues = s.queues := by
  cases h with
  | enter | expire | wake => rfl
  | @finish call stage _ result h =>
      cases stage <;>
        simp only [ClaimPhase.finish, Option.some.injEq, reduceCtorEq] at h
      all_goals
        have hs : s' = _ := (congrArg Prod.fst h).symm
        rw [hs, returning_fst]
        simp [Store.markAcked, Store.markClaimed]

theorem enter_cases (record : MessageRecord) (leaseSeconds settleMs : U64)
    (now : Int) :
    (enter record leaseSeconds settleMs now = .expiring record now ∧
      ∃ expiry ∈ record.expiresAt, expiry ≤ now) ∨
    (enter record leaseSeconds settleMs now = .returned (.error .badEventId) ∧
      Hex32.fromHex record.eventId = none) ∨
    ∃ message, Hex32.fromHex record.eventId = some message ∧
      enter record leaseSeconds settleMs now =
        .during ⟨record, message, now, toI64 (now + toI64 leaseSeconds.val),
          settleMs⟩ .terminalCheck := by
  unfold enter
  by_cases hexpired : record.expiresAt.any fun expiry => expiry ≤ now
  · rw [if_pos hexpired]
    obtain ⟨expiry, hexpiry, hle⟩ := (Option.any_eq_true _ _).mp hexpired
    exact Or.inl ⟨rfl, expiry, hexpiry, of_decide_eq_true hle⟩
  · rw [if_neg hexpired]
    cases hhex : Hex32.fromHex record.eventId with
    | none => exact Or.inr (Or.inl ⟨rfl, rfl⟩)
    | some message => exact Or.inr (Or.inr ⟨message, rfl, rfl⟩)

theorem enter_ne_won (record : MessageRecord) (leaseSeconds settleMs : U64)
    (now : Int) :
    enter record leaseSeconds settleMs now ≠ .returned (.ok true) := by
  rcases enter_cases record leaseSeconds settleMs now with
    ⟨heq, -⟩ | ⟨heq, -⟩ | ⟨_, -, heq⟩ <;> simp [heq]

theorem publish?_cases {hashtag : String → String} {draft : Draft}
    (h : phase.publish? hashtag = some draft) :
    ∃ call observed, phase = .during call (.contending observed) ∧
      draft = buildClaimEvent hashtag call.messageRef call.leaseExpiresAt
        (call.claimAttempt observed) := by
  unfold publish? at h
  split at h
  · next call observed =>
      cases h
      exact ⟨call, observed, rfl, rfl⟩
  · contradiction

theorem accepted_cases {time : Nat} (h : phase.accepted time = some next) :
    ∃ call observed, phase = .during call (.contending observed) ∧
      next = .during call (.settling observed (time + call.settleMs.val)) := by
  unfold accepted at h
  split at h
  · next call observed =>
      cases h
      exact ⟨call, observed, rfl, rfl⟩
  · contradiction

theorem failed_cases (h : phase.failed = some next) :
    phase.awaits = true ∧ next = .returned (.error .transport) := by
  unfold failed at h
  split at h
  · next hawaits => exact ⟨hawaits, (Option.some.inj h).symm⟩
  · contradiction

end ClaimPhase

namespace ClaimCall

variable (key : PublicKey) (call : ClaimCall) (observed : U32)
  (claims : List ClaimInfo)

theorem afterSurvey_cases :
    (∃ winner, claimWinner claims observed call.now = some winner ∧
      winner.claimer = key ∧
      call.afterSurvey key observed claims =
        .during call (.recognised winner)) ∨
    (∃ winner, claimWinner claims observed call.now = some winner ∧
      winner.claimer ≠ key ∧
      call.afterSurvey key observed claims = .returned (.ok false)) ∨
    (claimWinner claims observed call.now = none ∧
      call.afterSurvey key observed claims =
        .during call (.contending observed)) := by
  unfold afterSurvey
  cases hwinner : claimWinner claims observed call.now with
  | none => exact Or.inr (Or.inr ⟨rfl, rfl⟩)
  | some winner =>
      by_cases hkey : winner.claimer = key
      · exact Or.inl ⟨winner, rfl, hkey, by simp [hkey]⟩
      · exact Or.inr (Or.inl ⟨winner, rfl, hkey, by simp [hkey]⟩)

theorem afterRecheck_cases (nacks : List Event) :
    (∃ winner,
      claimWinner claims (max observed (maxAttempt nacks)) call.now =
        some winner ∧
      winner.claimer = key ∧
      call.afterRecheck key observed claims nacks =
        .during call (.contendWon observed)) ∨
    ((∀ winner,
      claimWinner claims (max observed (maxAttempt nacks)) call.now =
        some winner → winner.claimer ≠ key) ∧
      call.afterRecheck key observed claims nacks =
        .returned (.ok false)) := by
  unfold afterRecheck
  cases hwinner : claimWinner claims (max observed (maxAttempt nacks))
      call.now with
  | none => exact Or.inr ⟨by simp, rfl⟩
  | some winner =>
      by_cases hkey : winner.claimer = key
      · exact Or.inl ⟨winner, rfl, hkey, by simp [hkey]⟩
      · exact Or.inr ⟨by simp [hkey], by simp [hkey]⟩

theorem afterTerminal_cases (events : List Event) :
    (call.afterTerminal events = .during call .ackObserved ∧
      ∃ event ∈ events, event.kind = KIND_ACK) ∨
    (call.afterTerminal events =
        .during call (.dlqObserved (dlqAttempt events)) ∧
      (∀ event ∈ events, event.kind ≠ KIND_ACK) ∧
      call.record.attemptFloor < dlqAttempt events) ∨
    (call.afterTerminal events = .during call .surveyNacks ∧
      (∀ event ∈ events, event.kind ≠ KIND_ACK) ∧
      dlqAttempt events ≤ call.record.attemptFloor) := by
  unfold afterTerminal
  by_cases hack : events.any (fun event => event.kind = KIND_ACK) = true
  · exact Or.inl ⟨by simp [hack], by simpa using hack⟩
  · have hnone : ∀ event ∈ events, event.kind ≠ KIND_ACK := by
      simpa using hack
    by_cases hdlq : call.record.attemptFloor < dlqAttempt events
    · exact Or.inr (Or.inl ⟨by simp [hack, hdlq], hnone, hdlq⟩)
    · exact Or.inr (Or.inr
        ⟨by simp [hack, hdlq], hnone, not_lt.mp hdlq⟩)

theorem le_dlqAttempt {events : List Event} {event : Event}
    (h : event ∈ events) (hkind : event.kind = KIND_DLQ) :
    eventAttempt event ≤ dlqAttempt events :=
  le_maxAttempt (by simp [h, hkind])

end ClaimCall

theorem ClaimPhase.Answers.next_cases {key : PublicKey} {events : List Event}
    {phase next : ClaimPhase} (h : Answers key events phase next) :
    ∃ call stage, phase = .during call stage ∧
      (next = .returned (.ok false) ∨
        ∃ stage', next = .during call stage' ∧
          ∀ observed wakeAt, stage' ≠ .settling observed wakeAt) := by
  cases h with
  | @terminal call =>
      refine ⟨call, _, rfl, Or.inr ?_⟩
      rcases call.afterTerminal_cases events with
        ⟨heq, -⟩ | ⟨heq, -⟩ | ⟨heq, -⟩ <;> exact ⟨_, heq, by simp⟩
  | @nacks call => exact ⟨call, _, rfl, Or.inr ⟨_, rfl, by simp⟩⟩
  | @claims call observed =>
      refine ⟨call, _, rfl, ?_⟩
      rcases call.afterSurvey_cases key observed (parseClaims events) with
        ⟨_, -, -, heq⟩ | ⟨_, -, -, heq⟩ | ⟨-, heq⟩
      · exact Or.inr ⟨_, heq, by simp⟩
      · exact Or.inl heq
      · exact Or.inr ⟨_, heq, by simp⟩
  | @recheckClaims call => exact ⟨call, _, rfl, Or.inr ⟨_, rfl, by simp⟩⟩
  | @recheckNacks call observed claims =>
      refine ⟨call, _, rfl, ?_⟩
      rcases call.afterRecheck_cases key observed claims events with
        ⟨_, -, -, heq⟩ | ⟨-, heq⟩
      · exact Or.inr ⟨_, heq, by simp⟩
      · exact Or.inl heq

end NostrQ.Sdk
