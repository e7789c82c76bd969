import NostrQ.Worker.Job

/-!
# How much a job has left to do

Every step of a job, whatever the relay answers, the store holds or the handler
reports, brings it closer to its end: a claiming call has no loop, and neither
has a settling one.  The same holds of the events the job may still send.
-/

namespace NostrQ.Sdk

open NostrQ.Foundation NostrQ.Core NostrQ.Database

def ClaimStage.rank : ClaimStage → Nat
  | .ackObserved | .dlqObserved _ | .recognised _ | .contendWon _ => 1
  | .recheckNacks _ _ => 2
  | .recheckClaims _ => 3
  | .settling _ _ => 4
  | .contending _ => 5
  | .surveyClaims _ => 6
  | .surveyNacks => 7
  | .terminalCheck => 8

namespace ClaimPhase

/-- The most steps that a claiming call has left. -/
def rank : ClaimPhase → Nat
  | .entering _ _ _ => 9
  | .expiring _ _ => 1
  | .during _ stage => stage.rank
  | .returned _ => 0

variable {key : PublicKey} {s s' : Store} {phase next : ClaimPhase}

theorem rank_enter_lt (record : MessageRecord) (leaseSeconds settleMs : U64)
    (now : Int) : (enter record leaseSeconds settleMs now).rank < 9 := by
  unfold enter
  split
  · simp [rank]
  · split <;> simp [rank, ClaimStage.rank]

theorem Proceeds.rank_lt {time : Nat} (h : Proceeds key s time phase s' next) :
    next.rank < phase.rank := by
  cases h with
  | enter => exact rank_enter_lt _ _ _ _
  | expire => exact Nat.zero_lt_one
  | wake => simp [rank, ClaimStage.rank]
  | @finish call stage _ result h =>
      cases stage <;> first | contradiction | simp [rank, ClaimStage.rank]

theorem Answers.rank_lt {events : List Event}
    (h : Answers key events phase next) : next.rank < phase.rank := by
  cases h with
  | @terminal call =>
      rcases call.afterTerminal_cases events with
        ⟨heq, -⟩ | ⟨heq, -⟩ | ⟨heq, -⟩ <;> simp [heq, rank, ClaimStage.rank]
  | nacks | recheckClaims => simp [rank, ClaimStage.rank]
  | @claims call observed =>
      rcases call.afterSurvey_cases key observed (parseClaims events) with
        ⟨_, -, -, heq⟩ | ⟨_, -, -, heq⟩ | ⟨-, heq⟩ <;>
        simp [heq, rank, ClaimStage.rank]
  | @recheckNacks call observed claims =>
      rcases call.afterRecheck_cases key observed claims events with
        ⟨_, -, -, heq⟩ | ⟨-, heq⟩ <;> simp [heq, rank, ClaimStage.rank]

theorem rank_of_awaits (h : phase.awaits = true) : 0 < phase.rank := by
  cases phase with
  | entering | expiring => exact Nat.succ_pos _
  | during call stage => cases stage <;> exact Nat.succ_pos _
  | returned result => cases h

end ClaimPhase

namespace SettlePhase

def stageRank : SettleStage → Nat
  | .ackAccepted | .dlqAccepted _ | .requeueing _ _ => 1
  | .dlqPublishing _ _ => 2
  | .ackPublishing | .nackPublishing _ _ _ => 3
  | .counting _ _ => 4
  | .configuring _ => 5

/-- The most steps that a settling call has left. -/
def rank : SettlePhase → Nat
  | .acking _ => 4
  | .nacking _ _ => 6
  | .during _ stage => stageRank stage
  | .settled _ => 0

variable {s s' : Store} {phase next : SettlePhase}

theorem rank_start (s : Store) (mid : String) (stage : SettleStage) :
    (start s mid stage).rank ≤ stageRank stage := by
  unfold start
  split <;> simp [rank]

theorem Proceeds.rank_lt {time : Nat} (h : Proceeds s time phase s' next) :
    next.rank < phase.rank := by
  cases h with
  | ack => exact Nat.lt_succ_of_le (rank_start _ _ _)
  | nack => exact Nat.lt_succ_of_le (rank_start _ _ _)
  | configure => exact Nat.lt_succ_self 4
  | @count call reason config =>
      rcases count_snd (s := s) call reason config with
        ⟨_, _, -, -, heq⟩ | ⟨_, heq, -⟩ <;> simp [heq, rank, stageRank]
  | @finish call stage _ result h =>
      cases stage <;> first | contradiction | simp [rank, stageRank]

theorem Accepts.rank_lt (h : Accepts phase next) : next.rank < phase.rank := by
  cases h with
  | ack | dlq => simp [rank, stageRank]
  | nack =>
      unfold SettleCall.afterNack
      split <;> simp [rank, stageRank]

theorem rank_of_publish {hashtag : String → String} {draft : Draft}
    (h : phase.publish? hashtag = some draft) :
    draft.kind = KIND_DLQ ∧ phase.rank = 2 ∨
      (draft.kind = KIND_ACK ∨ draft.kind = KIND_NACK) ∧ phase.rank = 3 := by
  unfold publish? at h
  split at h <;> cases h
  · exact Or.inr ⟨Or.inl rfl, rfl⟩
  · exact Or.inr ⟨Or.inr rfl, rfl⟩
  · exact Or.inl ⟨rfl, rfl⟩

end SettlePhase

end NostrQ.Sdk

namespace NostrQ.Worker

open NostrQ.Foundation NostrQ.Core NostrQ.Database NostrQ.Sdk

namespace JobPhase

/--
The most steps that a job in this phase has left.  Only a job of rank 14 sends a
claim, only one of rank 4 an ack or a nack, and only one of rank 3 a dlq event.
-/
def rank : JobPhase → Nat
  | .claiming phase => 9 + phase.rank
  | .handling _ _ => 8
  | .settling phase => 1 + phase.rank
  | .finished => 0

end JobPhase

namespace Job

variable {key : PublicKey} {s s' : Store} {job next : Job}

theorem rank_afterClaim (s : Store) (job : Job) (time : Nat)
    (result : Except SdkError Bool) :
    (job.afterClaim s time result).rank ≤ 8 := by
  unfold afterClaim
  split
  · rfl
  · exact Nat.zero_le _

theorem rank_settle (record : MessageRecord) (outcome : HandlerOutcome) :
    (JobPhase.settling (settle record outcome)).rank < 8 := by
  cases outcome <;> simp [settle, JobPhase.rank, SettlePhase.rank]

theorem Proceeds.rank_lt {time : Nat} {phase phase' : JobPhase}
    (h : Proceeds key s time job phase s' phase') :
    phase'.rank < phase.rank := by
  cases h with
  | claimed => exact Nat.lt_succ_of_le (rank_afterClaim s job time _)
  | claim h =>
      have := h.rank_lt
      simp only [JobPhase.rank]
      omega
  | timeout => exact rank_settle _ _
  | settled => exact Nat.zero_lt_one
  | settle h =>
      have := h.rank_lt
      simp only [JobPhase.rank]
      omega

private theorem publish?_of_failed {phase : SettlePhase}
    (hphase : job.phase = .settling phase)
    (h : job.step key s (.io .failed) = some (s', next)) :
    ∃ draft, phase.publish? id = some draft := by
  unfold step stepPhase at h
  rw [hphase] at h
  cases phase with
  | settled result => cases h
  | acking mid => cases h
  | nacking mid reason => cases h
  | during call stage =>
      apply Option.isSome_iff_exists.mp
      by_contra hnone
      simp only [SettlePhase.step, SettlePhase.failed, if_neg hnone] at h
      cases h

/-- Whatever happens to a job, it has less left to do afterwards. -/
theorem rank_lt {input : JobInput}
    (h : job.step key s input = some (s', next)) :
    next.phase.rank < job.phase.rank := by
  match input with
  | .io (.proceed time) => exact (step_proceed h).rank_lt
  | .io (.answer events) =>
      obtain ⟨-, phase, after, hphase, hnext, hanswers⟩ := step_answer h
      have := hanswers.rank_lt
      rw [hphase, hnext]
      simp only [JobPhase.rank]
      omega
  | .io (.accepted time) =>
      rcases step_accepted h with ⟨-, ⟨call, observed, hphase, hnext⟩ |
        ⟨phase, after, hphase, hnext, haccepts⟩⟩
      · rw [hphase, hnext]
        simp [JobPhase.rank, ClaimPhase.rank, ClaimStage.rank]
      · have := haccepts.rank_lt
        rw [hphase, hnext]
        simp only [JobPhase.rank]
        omega
  | .io .failed =>
      rcases step_failed h with ⟨-, ⟨phase, hphase, hawaits, hnext⟩ |
        ⟨phase, hphase, hnext⟩⟩
      · rw [hphase, hnext]
        exact Nat.add_lt_add_left (ClaimPhase.rank_of_awaits hawaits) 9
      · obtain ⟨draft, hdraft⟩ := publish?_of_failed hphase h
        have hrank : 0 < phase.rank := by
          rcases SettlePhase.rank_of_publish hdraft with ⟨-, h⟩ | ⟨-, h⟩ <;>
            omega
        rw [hphase, hnext]
        exact Nat.add_lt_add_left hrank 1
  | .handled outcome =>
      obtain ⟨-, current, deadline, hphase, hnext⟩ := step_handled h
      rw [hphase, hnext]
      exact rank_settle _ _

/-! ### What a job can do next -/

inductive Awaits (key : PublicKey) (s : Store) (job : Job) : Prop where
  | answer {filter : Filter} :
      job.query? = some filter →
      (∀ events, ∃ s' next,
        job.step key s (.io (.answer events)) = some (s', next)) →
      Awaits key s job
  | accept {draft : Draft} :
      job.publish? id = some draft →
      (∀ time, ∃ s' next,
        job.step key s (.io (.accepted time)) = some (s', next)) →
      (∃ s' next, job.step key s (.io .failed) = some (s', next)) →
      Awaits key s job
  | proceed (wakeAt : Nat) :
      (∀ time, wakeAt ≤ time → ∃ s' next,
        job.step key s (.io (.proceed time)) = some (s', next)) →
      Awaits key s job

/-- No unfinished job is stuck, whatever its store holds. -/
theorem awaits (key : PublicKey) (s : Store) (hjob : job.phase ≠ .finished) :
    Awaits key s job := by
  obtain ⟨record, leaseSeconds, phase⟩ := job
  cases phase with
  | finished => contradiction
  | handling current deadline =>
      refine .proceed deadline fun time htime => ?_
      simp [step, stepPhase, htime]
  | claiming phase =>
      cases phase with
      | entering | expiring | returned =>
          exact .proceed 0 fun _ _ => ⟨_, _, rfl⟩
      | during call stage =>
          cases stage with
          | terminalCheck | surveyNacks | surveyClaims | recheckClaims
          | recheckNacks => exact .answer rfl fun _ => ⟨_, _, rfl⟩
          | contending =>
              exact .accept rfl (fun _ => ⟨_, _, rfl⟩) ⟨_, _, rfl⟩
          | settling observed wakeAt =>
              refine .proceed wakeAt fun time htime => ?_
              simp [step, stepPhase, ClaimPhase.step, ClaimPhase.proceed,
                htime]
          | ackObserved | dlqObserved | recognised | contendWon =>
              exact .proceed 0 fun _ _ => ⟨_, _, rfl⟩
  | settling phase =>
      cases phase with
      | acking | nacking | settled => exact .proceed 0 fun _ _ => ⟨_, _, rfl⟩
      | during call stage =>
          cases stage with
          | ackPublishing | nackPublishing | dlqPublishing =>
              exact .accept rfl (fun _ => ⟨_, _, rfl⟩) ⟨_, _, rfl⟩
          | ackAccepted | configuring | counting | dlqAccepted | requeueing =>
              exact .proceed 0 fun _ _ => ⟨_, _, rfl⟩

end Job

end NostrQ.Worker
