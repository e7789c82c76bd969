import NostrQ.Sdk.Settle

/-!
# A worker's job

What the worker spawns for a fetched record: claim it, run the handler under a
timeout of one lease, and settle it by the handler's outcome.
-/

namespace NostrQ.Worker

open NostrQ.Foundation NostrQ.Core NostrQ.Database NostrQ.Sdk

inductive HandlerOutcome where
  | success
  | failure (reason : String)
  deriving DecidableEq

inductive JobPhase where
  | claiming (phase : ClaimPhase)
  | handling (current : MessageRecord) (deadline : Nat)
  | settling (phase : SettlePhase)
  | finished
  deriving DecidableEq

structure Job where
  record : MessageRecord
  leaseSeconds : U64
  phase : JobPhase
  deriving DecidableEq

inductive JobInput where
  | io (input : Input)
  | handled (outcome : HandlerOutcome)

namespace Job

def spawn (record : MessageRecord) (leaseSeconds settleMs : U64) : Job :=
  ⟨record, leaseSeconds, .claiming (.entering record leaseSeconds settleMs)⟩

def query? (job : Job) : Option Filter :=
  match job.phase with
  | .claiming phase => phase.query?
  | _ => none

def publish? (hashtag : String → String) (job : Job) : Option Draft :=
  match job.phase with
  | .claiming phase => phase.publish? hashtag
  | .settling phase => phase.publish? hashtag
  | _ => none

/-- The current row for the handler, or the fetched record. -/
def refetch (s : Store) (record : MessageRecord) : MessageRecord :=
  match s.getMessage record.mid with
  | .ok (some current) => current
  | _ => record

def settle (record : MessageRecord) : HandlerOutcome → SettlePhase
  | .success => .acking record.mid
  | .failure reason => .nacking record.mid reason

def timeoutReason (leaseSeconds : U64) : String :=
  "handler timed out after " ++ leaseSeconds.val.repr ++ "s (lease expired)"

/-- The handler starts after a win, with a full lease ahead of it. -/
def afterClaim (s : Store) (job : Job) (time : Nat) :
    Except SdkError Bool → JobPhase
  | .ok true =>
      .handling (refetch s job.record) (time + job.leaseSeconds.val * 1000)
  | _ => .finished

def stepPhase (key : PublicKey) (s : Store) (job : Job) :
    JobInput → Option (Store × JobPhase)
  | .io input =>
      match job.phase, input with
      | .claiming (.returned result), .proceed time =>
          some (s, job.afterClaim s time result)
      | .claiming phase, input =>
          (phase.step key s input).map fun (s', next) => (s', .claiming next)
      | .handling _ deadline, .proceed time =>
          if deadline ≤ time then
            some (s, .settling (settle job.record
              (.failure (timeoutReason job.leaseSeconds))))
          else none
      | .settling (.settled _), .proceed _ => some (s, .finished)
      | .settling phase, input =>
          (phase.step s input).map fun (s', next) => (s', .settling next)
      | _, _ => none
  | .handled outcome =>
      match job.phase with
      | .handling _ _ => some (s, .settling (settle job.record outcome))
      | _ => none

def step (key : PublicKey) (s : Store) (job : Job) (input : JobInput) :
    Option (Store × Job) :=
  (job.stepPhase key s input).map fun (s', phase) =>
    (s', { job with phase := phase })

/-! ### What a step can be -/

variable {key : PublicKey} {s s' : Store} {job next : Job}

inductive Proceeds (key : PublicKey) (s : Store) (time : Nat) (job : Job) :
    JobPhase → Store → JobPhase → Prop where
  | claimed {result : Except SdkError Bool} :
      Proceeds key s time job (.claiming (.returned result)) s
        (job.afterClaim s time result)
  | claim {phase next : ClaimPhase} {s' : Store} :
      ClaimPhase.Proceeds key s time phase s' next →
      Proceeds key s time job (.claiming phase) s' (.claiming next)
  | timeout {current : MessageRecord} {deadline : Nat} :
      deadline ≤ time →
      Proceeds key s time job (.handling current deadline) s
        (.settling (settle job.record
          (.failure (timeoutReason job.leaseSeconds))))
  | settled {result : Except SdkError Settled} :
      Proceeds key s time job (.settling (.settled result)) s .finished
  | settle {phase next : SettlePhase} {s' : Store} :
      SettlePhase.Proceeds s time phase s' next →
      Proceeds key s time job (.settling phase) s' (.settling next)

theorem Proceeds.rewrites {time : Nat} {phase phase' : JobPhase}
    (h : Proceeds key s time job phase s' phase') : s.Rewrites s' := by
  cases h with
  | claimed => exact Store.Rewrites.refl s
  | claim h => exact h.rewrites
  | timeout => exact Store.Rewrites.refl s
  | settled => exact Store.Rewrites.refl s
  | settle h => exact h.rewrites

theorem Proceeds.raises {time : Nat} {phase phase' : JobPhase}
    (h : Proceeds key s time job phase s' phase') : s.Raises s' := by
  cases h with
  | claimed => exact Store.Raises.refl s
  | claim h => exact h.raises
  | timeout => exact Store.Raises.refl s
  | settled => exact Store.Raises.refl s
  | settle h => exact h.raises

theorem Proceeds.queues {time : Nat} {phase phase' : JobPhase}
    (h : Proceeds key s time job phase s' phase') : s'.queues = s.queues := by
  cases h with
  | claimed | timeout | settled => rfl
  | claim h => exact h.queues
  | settle h => exact h.queues

private theorem step_phase {input : JobInput}
    (h : job.step key s input = some (s', next)) :
    job.stepPhase key s input = some (s', next.phase) ∧
      next = { job with phase := next.phase } := by
  obtain ⟨⟨store, phase⟩, hstep, heq⟩ := Option.map_eq_some_iff.mp h
  cases heq
  exact ⟨hstep, rfl⟩

theorem step_fields {input : JobInput}
    (h : job.step key s input = some (s', next)) :
    next.record = job.record ∧ next.leaseSeconds = job.leaseSeconds := by
  rw [(step_phase h).2]
  exact ⟨rfl, rfl⟩

theorem step_eq {input : JobInput}
    (h : job.step key s input = some (s', next)) :
    next = { job with phase := next.phase } :=
  (step_phase h).2

theorem step_proceed {time : Nat}
    (h : job.step key s (.io (.proceed time)) = some (s', next)) :
    Proceeds key s time job job.phase s' next.phase := by
  replace h := (step_phase h).1
  generalize next.phase = phase' at h ⊢
  unfold stepPhase at h
  dsimp only at h
  split at h
  · next heq _ =>
      cases h
      rename_i hinput
      cases hinput
      exact heq ▸ .claimed
  · next heq _ =>
      obtain ⟨⟨store, after⟩, hstep, hout⟩ := Option.map_eq_some_iff.mp h
      cases hout
      exact heq ▸ .claim (ClaimPhase.proceeds hstep)
  · next heq hinput =>
      cases hinput
      split at h
      · next hdeadline =>
          cases h
          exact heq ▸ .timeout hdeadline
      · contradiction
  · next heq _ =>
      cases h
      exact heq ▸ .settled
  · next heq _ =>
      obtain ⟨⟨store, after⟩, hstep, hout⟩ := Option.map_eq_some_iff.mp h
      cases hout
      exact heq ▸ .settle (SettlePhase.proceeds hstep)
  · contradiction

private theorem step_transport {input : Input}
    (h : job.step key s (.io input) = some (s', next))
    (hinput : ∀ time, input ≠ .proceed time) :
    (∃ phase after, job.phase = .claiming phase ∧
      next.phase = .claiming after ∧ phase.step key s input = some (s', after)) ∨
    ∃ phase after, job.phase = .settling phase ∧
      next.phase = .settling after ∧ phase.step s input = some (s', after) := by
  replace h := (step_phase h).1
  generalize next.phase = phase' at h ⊢
  unfold stepPhase at h
  dsimp only at h
  split at h
  · exact absurd rfl (hinput _)
  · next heq _ =>
      obtain ⟨⟨store, after⟩, hstep, hout⟩ := Option.map_eq_some_iff.mp h
      cases hout
      exact Or.inl ⟨_, after, heq, rfl, hstep⟩
  · exact absurd rfl (hinput _)
  · exact absurd rfl (hinput _)
  · next heq _ =>
      obtain ⟨⟨store, after⟩, hstep, hout⟩ := Option.map_eq_some_iff.mp h
      cases hout
      exact Or.inr ⟨_, after, heq, rfl, hstep⟩
  · contradiction

theorem step_answer {events : List Event}
    (h : job.step key s (.io (.answer events)) = some (s', next)) :
    s' = s ∧ ∃ phase after, job.phase = .claiming phase ∧
      next.phase = .claiming after ∧
      ClaimPhase.Answers key events phase after := by
  rcases step_transport h nofun with ⟨phase, after, hphase, hnext, hstep⟩ |
    ⟨phase, after, hphase, hnext, hstep⟩
  · obtain ⟨found, hanswer, heq⟩ := Option.map_eq_some_iff.mp hstep
    cases heq
    exact ⟨rfl, phase, after, hphase, hnext, ClaimPhase.answers hanswer⟩
  · cases hstep

theorem step_accepted {time : Nat}
    (h : job.step key s (.io (.accepted time)) = some (s', next)) :
    s' = s ∧
      ((∃ call observed,
        job.phase = .claiming (.during call (.contending observed)) ∧
        next.phase = .claiming (.during call
          (.settling observed (time + call.settleMs.val)))) ∨
      ∃ phase after, job.phase = .settling phase ∧
        next.phase = .settling after ∧ SettlePhase.Accepts phase after) := by
  rcases step_transport h nofun with ⟨phase, after, hphase, hnext, hstep⟩ |
    ⟨phase, after, hphase, hnext, hstep⟩
  · obtain ⟨found, haccept, heq⟩ := Option.map_eq_some_iff.mp hstep
    cases heq
    obtain ⟨call, observed, rfl, rfl⟩ := ClaimPhase.accepted_cases haccept
    exact ⟨rfl, Or.inl ⟨call, observed, hphase, hnext⟩⟩
  · obtain ⟨found, haccept, heq⟩ := Option.map_eq_some_iff.mp hstep
    cases heq
    exact ⟨rfl, Or.inr ⟨phase, after, hphase, hnext,
      SettlePhase.accepts haccept⟩⟩

theorem step_failed
    (h : job.step key s (.io .failed) = some (s', next)) :
    s' = s ∧
      ((∃ phase, job.phase = .claiming phase ∧ phase.awaits = true ∧
        next.phase = .claiming (.returned (.error .transport))) ∨
      ∃ phase, job.phase = .settling phase ∧
        next.phase = .settling (.settled (.error .transport))) := by
  rcases step_transport h nofun with ⟨phase, after, hphase, hnext, hstep⟩ |
    ⟨phase, after, hphase, hnext, hstep⟩
  · obtain ⟨found, hfail, heq⟩ := Option.map_eq_some_iff.mp hstep
    cases heq
    obtain ⟨hawaits, rfl⟩ := ClaimPhase.failed_cases hfail
    exact ⟨rfl, Or.inl ⟨phase, hphase, hawaits, hnext⟩⟩
  · obtain ⟨found, hfail, heq⟩ := Option.map_eq_some_iff.mp hstep
    cases heq
    obtain rfl := SettlePhase.failed_cases hfail
    exact ⟨rfl, Or.inr ⟨phase, hphase, hnext⟩⟩

theorem step_handled {outcome : HandlerOutcome}
    (h : job.step key s (.handled outcome) = some (s', next)) :
    s' = s ∧ ∃ current deadline, job.phase = .handling current deadline ∧
      next.phase = .settling (Job.settle job.record outcome) := by
  replace h := (step_phase h).1
  generalize next.phase = phase' at h ⊢
  unfold stepPhase at h
  dsimp only at h
  split at h
  · next heq =>
      cases h
      exact ⟨rfl, _, _, heq, rfl⟩
  · contradiction

/-- A running handler is stopped from its deadline on, and not before. -/
theorem step_timeout {current : MessageRecord} {deadline : Nat}
    (hphase : job.phase = .handling current deadline) (time : Nat) :
    job.step key s (.io (.proceed time)) =
      if deadline ≤ time then
        some (s, { job with phase := .settling (.nacking job.record.mid
          (timeoutReason job.leaseSeconds)) })
      else none := by
  unfold step stepPhase
  rw [hphase]
  dsimp only
  split <;> rfl

theorem step_rewrites {input : JobInput}
    (h : job.step key s input = some (s', next)) : s.Rewrites s' := by
  cases input with
  | io input =>
      cases input with
      | proceed time => exact (step_proceed h).rewrites
      | answer events => exact (step_answer h).1 ▸ Store.Rewrites.refl s
      | accepted time => exact (step_accepted h).1 ▸ Store.Rewrites.refl s
      | failed => exact (step_failed h).1 ▸ Store.Rewrites.refl s
  | handled outcome => exact (step_handled h).1 ▸ Store.Rewrites.refl s

end Job

end NostrQ.Worker
