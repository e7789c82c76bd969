import NostrQ.Core.Backoff
import NostrQ.Sdk.Generations

/-!
# When a retry becomes visible

A nack that does not bury its message makes it visible again after its backoff.
No other step of an ack or a nack moves a message's time, and the new time is
exact while the clock is not in the last hour of its range.
-/

namespace NostrQ.Sdk

open NostrQ.Foundation NostrQ.Core NostrQ.Database

def HourLeft (now : Int) : Prop := now + 3600 < 9223372036854775808

instance (now : Int) : Decidable (HourLeft now) :=
  inferInstanceAs (Decidable (_ < _))

theorem timestamp_nonneg (time : Nat) : 0 ≤ timestamp time :=
  Int.natCast_nonneg _

namespace SettleCall

theorem visibleAt_eq (call : SettleCall) (config : QueueConfig)
    (attempts : U32) {now : Int} (hnow : 0 ≤ now) (hclock : HourLeft now) :
    call.visibleAt config attempts now =
      now + backoffSecs config.retryBaseSeconds
        (call.attemptsSinceFloor attempts) := by
  have hle := backoffSecs_le config.retryBaseSeconds
    (call.attemptsSinceFloor attempts)
  unfold HourLeft at hclock
  exact toI64_of_lt (by omega) (by omega)

end SettleCall

namespace SettlePhase

variable {s s' : Store} {phase next : SettlePhase} {time : Nat}

/--
The step ends a nack: its message becomes visible again, by its backoff later
than the clock, and the nack returns that time.
-/
def Requeues (phase next : SettlePhase) (now : Int) (mid : String)
    (visibleAt : Int) : Prop :=
  ∃ call config attempts,
    phase = .during call (.requeueing config attempts) ∧
    mid = call.record.mid ∧
    visibleAt = now + backoffSecs config.retryBaseSeconds
      (call.attemptsSinceFloor attempts) ∧
    next = .settled (.ok (.nacked (.retry attempts visibleAt)))

theorem Requeues.bounds {now visibleAt : Int} {mid : String}
    (h : Requeues phase next now mid visibleAt) :
    now ≤ visibleAt ∧ visibleAt ≤ now + 3600 := by
  obtain ⟨call, config, attempts, -, -, rfl, -⟩ := h
  have hle := backoffSecs_le config.retryBaseSeconds
    (call.attemptsSinceFloor attempts)
  omega

private theorem visibleAt_of_moves {mid target : String}
    {change : Progress → Progress} {row' : Row} (h : s.Moves s' target change)
    (hvisible : ∀ p, (change p).visibleAt = p.visibleAt)
    (hrow' : s'.row? mid = some row') :
    ∃ row, s.row? mid = some row ∧ row'.visibleAt = row.visibleAt := by
  rcases h.row_cases hrow' with ⟨-, row, hrow, rfl⟩ | hold
  · exact ⟨row, hrow, hvisible row.toProgress⟩
  · exact ⟨row', hold, rfl⟩

private theorem requeue_visibleAt {call : SettleCall} {config : QueueConfig}
    {attempts : U32} {result : Except SdkError Settled} {mid : String}
    {row' : Row} (hclock : HourLeft (timestamp time))
    (h : finish s (timestamp time) call (.requeueing config attempts) =
      some (s', result)) (hrow' : s'.row? mid = some row') :
    (∃ row, s.row? mid = some row ∧ row'.visibleAt = row.visibleAt) ∨
    Requeues (.during call (.requeueing config attempts)) (.settled result)
      (timestamp time) mid row'.visibleAt := by
  cases finishes h with
  | requeued hmoves =>
      rcases hmoves.row_cases hrow' with ⟨rfl, row, hrow, -⟩ | hold
      · obtain ⟨hexact, rfl⟩ := finish_requeue hrow h
        have hvisible : row'.visibleAt =
            call.visibleAt config attempts (timestamp time) := by
          rw [hexact.row hrow] at hrow'
          cases hrow'
          rfl
        refine Or.inr ⟨call, config, attempts, rfl, rfl, ?_, hvisible ▸ rfl⟩
        rw [hvisible, call.visibleAt_eq config attempts
          (timestamp_nonneg time) hclock]
      · exact Or.inl ⟨row', hold, rfl⟩

theorem Proceeds.visibleAt (h : Proceeds s time phase s' next)
    (hclock : HourLeft (timestamp time)) {mid : String} {row' : Row}
    (hrow' : s'.row? mid = some row') :
    (∃ row, s.row? mid = some row ∧ row'.visibleAt = row.visibleAt) ∨
    Requeues phase next (timestamp time) mid row'.visibleAt := by
  cases h with
  | ack | nack | configure => exact Or.inl ⟨row', hrow', rfl⟩
  | count =>
      rw [count_fst] at hrow'
      exact Or.inl (visibleAt_of_moves Store.incrAttempts_moves (fun _ => rfl)
        hrow')
  | finish hfinish =>
      cases finishes hfinish with
      | acked hmoves | buried hmoves =>
          exact Or.inl (visibleAt_of_moves hmoves (fun _ => rfl) hrow')
      | requeued _ => exact requeue_visibleAt hclock hfinish hrow'

end SettlePhase

/--
In every run a nack that retries its message has spent an attempt of its budget,
and the first one waits for the base, each further one twice as long as the one
before, up to an hour.
-/
theorem Session.retry_exact {Envelope : Type} {codec : Codec Envelope}
    {key : PublicKey} {c : Session Envelope} {call : SettleCall}
    {config : QueueConfig} {attempts : U32} {now : Int}
    (h : (shared codec key).Reach System.Free c)
    (hmem : .settling (.during call (.requeueing config attempts)) ∈ c.calls)
    (hnow : 0 ≤ now) (hclock : HourLeft now) :
    1 ≤ (call.attemptsSinceFloor attempts).val ∧
    call.visibleAt config attempts now =
      now + (min (config.retryBaseSeconds.val *
        2 ^ ((call.attemptsSinceFloor attempts).val - 1)) 3600 : Nat) := by
  have hpast : call.record.attemptFloor.val < attempts.val :=
    ((generational h).ahead _ hmem).counted call attempts rfl
  have hspent : 1 ≤ (call.attemptsSinceFloor attempts).val :=
    Nat.sub_pos_of_lt hpast
  refine ⟨hspent, ?_⟩
  rw [call.visibleAt_eq config attempts hnow hclock, backoffSecs_eq_exact,
    max_eq_left hspent]

/--
The backoff is the base doubled with each attempt but the first, up to an hour.
None of its operations overflows, neither of its limits changes it, and it grows
with both arguments.  A step of a nack leaves every message's time as it is, or
moves its own message's to the backoff after the clock, at most an hour.
-/
theorem backoff_exact {s s' : Store} {phase next : SettlePhase} {input : Input}
    (hclock : ∀ time, input = .proceed time → HourLeft (timestamp time))
    (hs : phase.step s input = some (s', next)) :
    (∀ base attempt,
      backoffSecs base attempt =
        min (base.val * 2 ^ (max attempt.val 1 - 1)) 3600 ∧
      (backoffSecs? base attempt).map Fin.val =
        some (backoffSecs base attempt) ∧
      backoffSecs base attempt =
        min (base.val * 2 ^ min (attempt.val - 1) 20) 3600 ∧
      backoffSecs base attempt =
        min (min (base.val * 2 ^ (attempt.val - 1)) 18446744073709551615)
          3600) ∧
    (∀ attempt, Monotone fun base => backoffSecs base attempt) ∧
    (∀ base, Monotone (backoffSecs base)) ∧
    ∀ mid row', s'.row? mid = some row' →
      (∃ row, s.row? mid = some row ∧ row'.visibleAt = row.visibleAt) ∨
      ∃ time, input = .proceed time ∧
        phase.Requeues next (timestamp time) mid row'.visibleAt ∧
        timestamp time ≤ row'.visibleAt ∧
        row'.visibleAt ≤ timestamp time + 3600 := by
  refine ⟨fun base attempt => ⟨backoffSecs_eq_exact base attempt,
    backoffSecs?_eq base attempt, backoffSecs_eq_clamped base attempt,
    backoffSecs_eq_saturated base attempt⟩, backoffSecs_mono_base,
    backoffSecs_mono, ?_⟩
  intro mid row' hrow'
  cases input with
  | proceed time =>
      rcases (SettlePhase.proceeds hs).visibleAt (hclock time rfl) hrow' with
        hold | hrequeues
      · exact Or.inl hold
      · exact Or.inr ⟨time, rfl, hrequeues, hrequeues.bounds⟩
  | answer _ => contradiction
  | accepted _ | failed =>
      obtain ⟨next, -, heq⟩ := Option.map_eq_some_iff.mp hs
      cases heq
      exact Or.inl ⟨row', hrow', rfl⟩

section Runs

def storedOnly : Store := (Store.empty.insertMessage sampleRecord).2

def sampleSettle : SettleCall := ⟨sampleRecord, hexOf 'e'⟩

def thirdRetry : SettlePhase :=
  .during sampleSettle (.requeueing (.workQueue "jobs") 3)

theorem backoff_exact_third :
    ∃ s' next row',
      thirdRetry.step storedOnly (.proceed 5000) = some (s', next) ∧
      s'.row? "m" = some row' ∧ row'.visibleAt = 25 ∧
      backoffSecs 5 3 = min (5 * 2 ^ (max 3 1 - 1)) 3600 ∧
      timestamp 5000 ≤ row'.visibleAt ∧
      row'.visibleAt ≤ timestamp 5000 + 3600 := by
  have hs : thirdRetry.step storedOnly (.proceed 5000) =
      some ((storedOnly.markPending "m" 25).2,
        .settled (.ok (.nacked (.retry 3 25)))) := by
    have hdelay : sampleSettle.visibleAt (.workQueue "jobs") 3
        (timestamp 5000) = 25 := by
      decide
    rw [← hdelay]
    rfl
  have hclock : ∀ time, Input.proceed 5000 = .proceed time →
      HourLeft (timestamp time) := by
    intro time htime
    rw [← Input.proceed.inj htime]
    decide
  have hbefore : (storedOnly.row? "m").map (fun row => row.visibleAt) =
      some 0 := by
    decide
  have hafter : ((storedOnly.markPending "m" 25).2.row? "m").map
      (fun row => row.visibleAt) = some 25 := by
    decide
  obtain ⟨hexact, -, -, hrows⟩ := backoff_exact hclock hs
  obtain ⟨row', hrow', hvisible⟩ := Option.map_eq_some_iff.mp hafter
  refine ⟨_, _, row', hs, hrow', hvisible, (hexact 5 3).1, ?_⟩
  rcases hrows "m" row' hrow' with ⟨row, hrow, hold⟩ | ⟨time, htime, -, hbounds⟩
  · rw [hrow, Option.map_some, ← hold, hvisible] at hbefore
    exact absurd hbefore (by decide)
  · rwa [← Input.proceed.inj htime] at hbounds

end Runs

end NostrQ.Sdk
