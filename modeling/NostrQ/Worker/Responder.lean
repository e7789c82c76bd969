import NostrQ.Worker.Solo

/-!
# A worker that answers

A handler may return the body of a reply.  Where its message asks for one, the
job publishes the reply before it acknowledges the message; a reply that cannot
be published is dropped, and the message is acknowledged all the same.
-/

namespace NostrQ.Worker

open NostrQ.Foundation NostrQ.Core NostrQ.Database NostrQ.Sdk

inductive HandlerReturn (Value : Type) where
  | success (reply : Option Value)
  | failure (reason : String)

def HandlerReturn.outcome {Value : Type} :
    HandlerReturn Value → HandlerOutcome
  | .success _ => .success
  | .failure reason => .failure reason

section Replies

variable {Value : Type} (codec : Codec (Envelope Value))

/-- The event that `publish_reply` hands to the transport. -/
def publishReply (requester : String) (request : EventId) (mid : String)
    (body : Value) (now : Int) : Option Draft :=
  (Hex32.fromHex requester).bind fun key =>
    (buildReplyEvent codec request mid key body now).toOption

/-- A job that asks for no reply, or whose ids do not parse, gets none. -/
def publishRpcReplyIfRequested (job : JobContext Value) (body : Value)
    (now : Int) : Option Draft :=
  job.replyTo.bind fun requester =>
    (Hex32.fromHex job.eventId).bind fun request =>
      publishReply codec requester request job.mid body now

def HandlerReturn.reply? (job : JobContext Value) (now : Int) :
    HandlerReturn Value → Option Draft
  | .success (some body) => publishRpcReplyIfRequested codec job body now
  | _ => none

end Replies

/-- A job, and the reply that it waits to have published. -/
structure Responder where
  job : Job
  sending : Option Draft

inductive ResponderInput (Value : Type) where
  | io (input : Input)
  | returned (result : HandlerReturn Value) (now : Int)

namespace Responder

variable {Value : Type} (codec : Codec (Envelope Value)) (null : Value)

def spawn (record : MessageRecord) (leaseSeconds settleMs : U64) : Responder :=
  ⟨.spawn record leaseSeconds settleMs, none⟩

def publish? (hashtag : String → String) (r : Responder) : Option Draft :=
  match r.sending with
  | some draft => some draft
  | none => r.job.publish? hashtag

def advance (key : PublicKey) (s : Store) (r : Responder) (input : JobInput) :
    Option (Store × Responder) :=
  (r.job.step key s input).map fun (s', job) => (s', ⟨job, none⟩)

/-- While a reply is being published the lease is not watched. -/
def step (key : PublicKey) (s : Store) (r : Responder) :
    ResponderInput Value → Option (Store × Responder)
  | .io input =>
      match r.sending, input with
      | none, input => r.advance key s (.io input)
      | some _, .accepted _ => r.advance key s (.handled .success)
      | some _, .failed => r.advance key s (.handled .success)
      | some _, _ => none
  | .returned result now =>
      match r.sending, r.job.phase with
      | none, .handling current _ =>
          match result.reply? codec (.fromRecord codec null current) now with
          | some draft => some (s, { r with sending := some draft })
          | none => r.advance key s (.handled result.outcome)
      | _, _ => none

end Responder

/-! ## What a step can be -/

namespace Job

variable {key : PublicKey} {s s' : Store} {job next : Job}

theorem step_handling {input : JobInput} {current : MessageRecord}
    {deadline : Nat} (h : job.step key s input = some (s', next))
    (hphase : next.phase = .handling current deadline) :
    s' = s ∧ current = refetch s job.record := by
  cases input with
  | io input =>
      cases input with
      | proceed time =>
          have hproceeds := step_proceed h
          rw [hphase] at hproceeds
          generalize job.phase = phase, hafter : JobPhase.handling current deadline = after
            at hproceeds
          cases hproceeds with
          | @claimed result =>
              unfold afterClaim at hafter
              split at hafter
              · cases hafter
                exact ⟨rfl, rfl⟩
              · contradiction
          | claim | timeout | settled | settle => contradiction
      | answer events =>
          obtain ⟨-, _, _, -, hnext, -⟩ := step_answer h
          rw [hphase] at hnext
          contradiction
      | accepted time =>
          rcases (step_accepted h).2 with ⟨_, _, -, hnext⟩ | ⟨_, _, -, hnext, -⟩ <;>
            rw [hphase] at hnext <;> contradiction
      | failed =>
          rcases (step_failed h).2 with ⟨_, -, -, hnext⟩ | ⟨_, -, hnext⟩ <;>
            rw [hphase] at hnext <;> contradiction
  | handled outcome =>
      obtain ⟨-, _, _, -, hnext⟩ := step_handled h
      rw [hphase] at hnext
      contradiction

end Job

namespace Responder

variable {Value : Type} {codec : Codec (Envelope Value)} {null : Value}
  {key : PublicKey} {s s' : Store} {r next : Responder}

inductive Steps (codec : Codec (Envelope Value)) (null : Value)
    (key : PublicKey) (s : Store) (r : Responder) :
    ResponderInput Value → Store → Responder → Prop where
  /-- The job steps by itself. -/
  | job {input : Input} {s' : Store} {job : Job} :
      r.sending = none → r.job.step key s (.io input) = some (s', job) →
      Steps codec null key s r (.io input) s' ⟨job, none⟩
  /-- The handler has returned, and there is nothing to answer. -/
  | handled {result : HandlerReturn Value} {now : Int} {current : MessageRecord}
      {deadline : Nat} {s' : Store} {job : Job} :
      r.sending = none → r.job.phase = .handling current deadline →
      r.job.step key s (.handled result.outcome) = some (s', job) →
      Steps codec null key s r (.returned result now) s' ⟨job, none⟩
  | answering {body : Value} {now : Int} {current : MessageRecord}
      {deadline : Nat} {draft : Draft} :
      r.sending = none → r.job.phase = .handling current deadline →
      publishRpcReplyIfRequested codec (.fromRecord codec null current) body
        now = some draft →
      Steps codec null key s r (.returned (.success (some body)) now) s
        { r with sending := some draft }
  /-- The reply is published, or is not; the message is acknowledged. -/
  | answered {draft : Draft} {input : Input} {s' : Store} {job : Job} :
      r.sending = some draft → input = .failed ∨ (∃ time, input = .accepted time) →
      r.job.step key s (.handled .success) = some (s', job) →
      Steps codec null key s r (.io input) s' ⟨job, none⟩

theorem steps {input : ResponderInput Value}
    (h : r.step codec null key s input = some (s', next)) :
    Steps codec null key s r input s' next := by
  have hadvance : ∀ {input : JobInput},
      r.advance key s input = some (s', next) →
      ∃ job, r.job.step key s input = some (s', job) ∧ next = ⟨job, none⟩ := by
    intro input hadv
    obtain ⟨⟨store, job⟩, hjob, heq⟩ := Option.map_eq_some_iff.mp hadv
    cases heq
    exact ⟨job, hjob, rfl⟩
  cases input with
  | io input =>
      simp only [step] at h
      split at h
      · next hsending =>
          obtain ⟨job, hjob, rfl⟩ := hadvance h
          exact .job hsending hjob
      · next hsending =>
          obtain ⟨job, hjob, rfl⟩ := hadvance h
          exact .answered hsending (Or.inr ⟨_, rfl⟩) hjob
      · next hsending =>
          obtain ⟨job, hjob, rfl⟩ := hadvance h
          exact .answered hsending (Or.inl rfl) hjob
      · contradiction
  | returned result now =>
      simp only [step] at h
      split at h
      · next current deadline hsending hphase =>
          cases hreply : result.reply? codec (.fromRecord codec null current)
              now with
          | none =>
              rw [hreply] at h
              obtain ⟨job, hjob, rfl⟩ := hadvance h
              exact .handled hsending hphase hjob
          | some draft =>
              rw [hreply] at h
              cases h
              unfold HandlerReturn.reply? at hreply
              split at hreply
              · exact .answering hsending hphase hreply
              · contradiction
      · contradiction

theorem Steps.rewrites {input : ResponderInput Value}
    (h : Steps codec null key s r input s' next) : s.Rewrites s' := by
  cases h with
  | job _ hjob => exact Job.step_rewrites hjob
  | handled _ _ hjob => exact Job.step_rewrites hjob
  | answering => exact Store.Rewrites.refl s
  | answered _ _ hjob => exact Job.step_rewrites hjob

end Responder

end NostrQ.Worker
