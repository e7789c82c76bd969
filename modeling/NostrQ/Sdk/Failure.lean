import NostrQ.Sdk.Session

/-!
# What a transport failure leaves behind

One call on a store that nobody else uses meanwhile.  Publishing, claiming and
acknowledging write nothing before their last transport call has succeeded; a
nack counts the attempt before it publishes it.
-/

namespace NostrQ.Sdk

open NostrQ.Foundation NostrQ.Core NostrQ.Database

namespace Call

variable {Envelope : Type}

def TransportFailed (call : Call Envelope) : Prop :=
  call = .publishing (.returned (.error .transport)) ∨
    call = .claiming (.returned (.error .transport)) ∨
    call = .settling (.settled (.error .transport))

def Past : Call Envelope → Prop
  | .publishing (.rereading _ _) => True
  | .publishing (.returned result) => result ≠ .error .transport
  | .claiming (.returned result) => result ≠ .error .transport
  | .settling (.settled result) => result ≠ .error .transport
  | _ => False

theorem Past.not_transportFailed {call : Call Envelope} (h : call.Past) :
    ¬ call.TransportFailed := by
  rintro (rfl | rfl | rfl) <;> exact h rfl

def IsNack (call : Call Envelope) : Prop :=
  ∃ mid reason, call = nack mid reason

inductive Begins : Call Envelope → Prop where
  | publish (call : PublishCall Envelope) : Begins (publish call)
  | tryClaim (record : MessageRecord) (leaseSeconds settleMs : U64) :
      Begins (tryClaim record leaseSeconds settleMs)
  | ack (mid : String) : Begins (ack mid)
  | nack (mid reason : String) : Begins (nack mid reason)

end Call

namespace SettlePhase

def Acking : SettlePhase → Prop
  | .acking _ | .settled _ => True
  | .during _ stage => stage = .ackPublishing ∨ stage = .ackAccepted
  | .nacking _ _ => False

def Counted (before s : Store) : Prop :=
  ∃ mid row row', before.row? mid = some row ∧ s.row? mid = some row' ∧
    row'.attempts = row.attempts + 1

/-- Where a `nack` stands, and what it has made of the store it began on. -/
def Nacked (before s : Store) : SettlePhase → Prop
  | .acking _ => False
  | .nacking _ _ => s = before
  | .during call stage =>
      match stage with
      | .configuring _ | .counting _ _ =>
          s = before ∧ ∃ row, before.row? call.record.mid = some row
      | .nackPublishing _ _ _ | .dlqPublishing _ _ => Counted before s
      | .dlqAccepted _ | .requeueing _ _ => True
      | .ackPublishing | .ackAccepted => False
  | .settled result => result = .error .transport → Counted before s

theorem Counted.messages_ne {before s : Store} (h : Counted before s) :
    s.messages ≠ before.messages := by
  obtain ⟨mid, row, row', hrow, hrow', hattempts⟩ := h
  intro hsame
  rw [Store.row?, hsame] at hrow'
  cases hrow.symm.trans hrow'
  omega

end SettlePhase

/-- Not a nack, nor what is left of one. -/
def Call.Plain {Envelope : Type} (call : Call Envelope) : Prop :=
  ∀ phase, call = .settling phase → phase.Acking

section Steps

variable {Envelope : Type} {codec : Codec Envelope} {key : PublicKey}
  {s s' : Store}

private theorem returning_ne_transport {α β : Type} (value : β)
    (r : Except StoreError α × Store) :
    (returning value r).2 ≠ .error .transport := by
  obtain ⟨result | result, s⟩ := r <;> simp [returning]

private theorem claim_finish_ne_transport {now : Int} {call : ClaimCall}
    {stage : ClaimStage} {result : Except SdkError Bool}
    (h : ClaimPhase.finish key s now call stage = some (s', result)) :
    result ≠ .error .transport := by
  cases stage <;> simp only [ClaimPhase.finish, Option.some.injEq,
    reduceCtorEq] at h
  all_goals
    rw [show result = _ from (congrArg Prod.snd h).symm]
    exact returning_ne_transport _ _

/-- A claiming call writes in its last step only. -/
theorem ClaimPhase.step_untouched {phase next : ClaimPhase} {input : Input}
    (h : phase.step key s input = some (s', next)) :
    s' = s ∨ ∃ result, next = .returned result ∧ result ≠ .error .transport := by
  rcases ClaimPhase.step_store h with hsame | ⟨time, hproceeds⟩
  · exact Or.inl hsame
  · cases hproceeds with
    | enter => exact Or.inl rfl
    | expire => exact Or.inr ⟨_, rfl, by simp⟩
    | wake _ => exact Or.inl rfl
    | finish hfinish =>
        exact Or.inr ⟨_, rfl, claim_finish_ne_transport hfinish⟩

theorem ClaimPhase.step_returned {result : Except SdkError Bool}
    {input : Input} :
    (ClaimPhase.returned result).step key s input = none := by
  cases input <;> rfl

theorem SettlePhase.step_settled {result : Except SdkError Settled}
    {input : Input} : (SettlePhase.settled result).step s input = none := by
  cases input <;> rfl

private theorem settle_finish_ne_transport {now : Int} {call : SettleCall}
    {stage : SettleStage} {result : Except SdkError Settled}
    (h : SettlePhase.finish s now call stage = some (s', result)) :
    result ≠ .error .transport := by
  cases stage <;> simp only [SettlePhase.finish, Option.some.injEq,
    reduceCtorEq] at h
  all_goals
    rw [show result = _ from (congrArg Prod.snd h).symm]
    exact returning_ne_transport _ _

private theorem start_cases {mid : String} {stage : SettleStage} :
    (∃ error, error ≠ .transport ∧
      SettlePhase.start s mid stage = .settled (.error error)) ∨
    (∃ call row, s.row? call.record.mid = some row ∧
      SettlePhase.start s mid stage = .during call stage) := by
  unfold SettlePhase.start
  split
  · next e hstart =>
      refine Or.inl ⟨e, ?_, rfl⟩
      unfold messageRef at hstart
      split at hstart
      · cases hstart
        simp
      · cases hstart
        simp
      · split at hstart <;> cases hstart
        simp
  · next call hstart =>
      obtain ⟨row, hrow, hshows, -⟩ := messageRef_ok hstart
      rw [← (Messages.row?_mem hrow).2, ← hshows.mid] at hrow
      exact Or.inr ⟨call, row, hrow, rfl⟩

theorem SettlePhase.Acking.step {phase next : SettlePhase} {input : Input}
    (hack : phase.Acking) (h : phase.step s input = some (s', next)) :
    next.Acking ∧
      (s' = s ∨ ∃ result, next = .settled result ∧ result ≠ .error .transport) := by
  cases input with
  | proceed time =>
      cases SettlePhase.proceeds h with
      | @ack mid =>
          rcases @start_cases s mid .ackPublishing with
            ⟨error, -, heq⟩ | ⟨call, row, -, heq⟩ <;> rw [heq]
          · exact ⟨trivial, Or.inl rfl⟩
          · exact ⟨Or.inl rfl, Or.inl rfl⟩
      | nack => exact hack.elim
      | configure | count => rcases hack with h | h <;> contradiction
      | finish hfinish =>
          exact ⟨trivial, Or.inr ⟨_, rfl, settle_finish_ne_transport hfinish⟩⟩
  | answer events => contradiction
  | accepted time =>
      obtain ⟨next, haccepted, heq⟩ := Option.map_eq_some_iff.mp h
      cases heq
      cases SettlePhase.accepts haccepted with
      | ack => exact ⟨Or.inr rfl, Or.inl rfl⟩
      | nack | dlq => rcases hack with h | h <;> contradiction
  | failed =>
      obtain ⟨next, hfailed, heq⟩ := Option.map_eq_some_iff.mp h
      cases heq
      rw [SettlePhase.failed_cases hfailed]
      exact ⟨trivial, Or.inl rfl⟩

private theorem nacked_count {before : Store} {call : SettleCall}
    {reason : String} {config : QueueConfig}
    (hrow : ∃ row, before.row? call.record.mid = some row) :
    SettlePhase.Nacked before (SettlePhase.count before call reason config).1
      (SettlePhase.count before call reason config).2 := by
  obtain ⟨row, hrow⟩ := hrow
  rw [SettlePhase.count_fst]
  have hmoved := Store.incrAttempts_moves.row hrow
  have hcounted : SettlePhase.Counted before
      (before.incrAttempts call.record.mid).2 :=
    ⟨_, row, _, hrow, hmoved, rfl⟩
  rcases SettlePhase.count_snd (s := before) call reason config with
    ⟨attempts, row', -, -, heq⟩ | ⟨e, heq, -⟩ <;> rw [heq]
  · exact hcounted
  · exact fun _ => hcounted

theorem SettlePhase.Nacked.step {before : Store} {phase next : SettlePhase}
    {input : Input} (hnack : phase.Nacked before s)
    (h : phase.step s input = some (s', next)) : next.Nacked before s' := by
  cases input with
  | proceed time =>
      cases SettlePhase.proceeds h with
      | ack => exact hnack.elim
      | @nack mid reason =>
          obtain rfl : s = before := hnack
          rcases @start_cases s mid (.configuring reason) with
            ⟨error, hne, heq⟩ | ⟨call, row, hrow, heq⟩ <;> rw [heq]
          · intro hbad
            cases hbad
            contradiction
          · exact ⟨rfl, row, hrow⟩
      | configure => exact hnack
      | count =>
          obtain ⟨rfl, hrow⟩ := hnack
          exact nacked_count hrow
      | finish hfinish =>
          exact fun hbad => absurd hbad (settle_finish_ne_transport hfinish)
  | answer events => contradiction
  | accepted time =>
      obtain ⟨next, haccepted, heq⟩ := Option.map_eq_some_iff.mp h
      cases heq
      cases SettlePhase.accepts haccepted with
      | ack => exact hnack.elim
      | nack =>
          unfold SettleCall.afterNack
          split
          · exact hnack
          · trivial
      | dlq => trivial
  | failed =>
      obtain ⟨next, hfailed, heq⟩ := Option.map_eq_some_iff.mp h
      cases heq
      rw [SettlePhase.failed_cases hfailed]
      intro _
      unfold SettlePhase.failed at hfailed
      split at hfailed
      · next hpublish =>
          unfold SettlePhase.publish? at hpublish
          split at hpublish
          · exact hnack.elim
          · exact hnack
          · exact hnack
          · contradiction
      · contradiction

theorem PublishPhase.proceed_untouched {phase next : PublishPhase Envelope}
    (h : phase.proceed codec s = some (s', next)) :
    s' = s ∨ (Call.publishing next).Past := by
  unfold PublishPhase.proceed at h
  split at h
  · split at h <;> cases h <;> exact Or.inl rfl
  · cases h
    exact Or.inl rfl
  · next rec =>
      cases h
      refine Or.inr ?_
      unfold PublishPhase.insert
      split
      · simp [Call.Past]
      · split
        · trivial
        · simp [Call.Past]
  · cases h
    exact Or.inl rfl
  · contradiction

theorem PublishPhase.reread_past (s : Store) (rec : MessageRecord)
    (key : String) :
    (Call.publishing (PublishPhase.reread s rec key : PublishPhase Envelope)).Past := by
  unfold PublishPhase.reread
  split <;> simp [Call.Past]

theorem Call.Past.step {call next : Call Envelope} {input : CallInput}
    (hpast : call.Past) (h : call.step codec key s input = some (s', next)) :
    next.Past := by
  unfold Call.step at h
  split at h
  · next phase _ =>
      obtain ⟨⟨store, after⟩, hstep, heq⟩ := Option.map_eq_some_iff.mp h
      cases heq
      cases phase with
      | rereading rec key =>
          cases hstep
          exact PublishPhase.reread_past _ _ _
      | returned result => contradiction
      | configuring _ | checking _ _ | publishing _ _ _ | inserting _ =>
          exact hpast.elim
  · next phase _ _ =>
      obtain ⟨after, haccepted, -⟩ := Option.map_eq_some_iff.mp h
      cases phase with
      | rereading _ _ | returned _ => contradiction
      | configuring _ | checking _ _ | publishing _ _ _ | inserting _ =>
          exact hpast.elim
  · next phase =>
      obtain ⟨after, hfailed, -⟩ := Option.map_eq_some_iff.mp h
      cases phase with
      | rereading _ _ | returned _ => contradiction
      | configuring _ | checking _ _ | publishing _ _ _ | inserting _ =>
          exact hpast.elim
  · next phase input =>
      obtain ⟨⟨store, after⟩, hstep, -⟩ := Option.map_eq_some_iff.mp h
      cases phase with
      | returned result =>
          rw [ClaimPhase.step_returned] at hstep
          contradiction
      | entering _ _ _ | expiring _ _ | during _ _ => exact hpast.elim
  · next phase input =>
      obtain ⟨⟨store, after⟩, hstep, -⟩ := Option.map_eq_some_iff.mp h
      cases phase with
      | settled result =>
          rw [SettlePhase.step_settled] at hstep
          contradiction
      | acking _ | nacking _ _ | during _ _ => exact hpast.elim
  · contradiction

theorem Call.Plain.step {call next : Call Envelope} {input : CallInput}
    (hplain : call.Plain) (h : call.step codec key s input = some (s', next)) :
    next.Plain ∧ (s' = s ∨ next.Past) := by
  unfold Call.step at h
  split at h
  · obtain ⟨⟨store, after⟩, hstep, heq⟩ := Option.map_eq_some_iff.mp h
    cases heq
    exact ⟨fun _ hne => by contradiction,
      PublishPhase.proceed_untouched hstep⟩
  · obtain ⟨after, -, heq⟩ := Option.map_eq_some_iff.mp h
    cases heq
    exact ⟨fun _ hne => by contradiction, Or.inl rfl⟩
  · obtain ⟨after, -, heq⟩ := Option.map_eq_some_iff.mp h
    cases heq
    exact ⟨fun _ hne => by contradiction, Or.inl rfl⟩
  · obtain ⟨⟨store, after⟩, hstep, heq⟩ := Option.map_eq_some_iff.mp h
    cases heq
    refine ⟨fun _ hne => by contradiction, ?_⟩
    rcases ClaimPhase.step_untouched hstep with hsame | ⟨result, rfl, hne⟩
    · exact Or.inl hsame
    · exact Or.inr hne
  · next phase input =>
      obtain ⟨⟨store, after⟩, hstep, heq⟩ := Option.map_eq_some_iff.mp h
      cases heq
      obtain ⟨hack, hkept⟩ := (hplain phase rfl).step hstep
      refine ⟨fun _ heq => by cases heq; exact hack, ?_⟩
      rcases hkept with hsame | ⟨result, rfl, hne⟩
      · exact Or.inl hsame
      · exact Or.inr hne
  · contradiction

end Steps

/-! ## One call alone -/

structure SoleCall (Envelope : Type) where
  before : Store
  begun : Call Envelope
  store : Store
  call : Call Envelope

namespace SoleCall

variable {Envelope : Type} (codec : Codec Envelope) (key : PublicKey)

def step (c : SoleCall Envelope) (input : CallInput) :
    Option (SoleCall Envelope) :=
  (c.call.step codec key c.store input).map fun (s, next) =>
    { c with store := s, call := next }

def Begun (c : SoleCall Envelope) : Prop :=
  c.begun.Begins ∧ c.store = c.before ∧ c.call = c.begun

def system : System (SoleCall Envelope) CallInput where
  init := Begun
  step := step codec key

/-- The tables that a transport failure may not change. -/
def Untouched (c : SoleCall Envelope) : Prop :=
  c.store.messages = c.before.messages ∧ c.store.dlq = c.before.dlq

def Stands (c : SoleCall Envelope) : Prop :=
  (¬ c.begun.IsNack ∧ c.call.Plain ∧ (c.store = c.before ∨ c.call.Past)) ∨
    (c.begun.IsNack ∧ ∃ phase, c.call = .settling phase ∧
      phase.Nacked c.before c.store)

variable {codec key} {c c' : SoleCall Envelope}

theorem Begun.stands (h : c.Begun) : c.Stands := by
  obtain ⟨hbegins, hstore, hcall⟩ := h
  rw [Stands, hcall]
  generalize c.begun = begun at hbegins ⊢
  cases hbegins with
  | publish _ | tryClaim _ _ _ =>
      exact Or.inl ⟨fun ⟨_, _, heq⟩ => by contradiction,
        fun _ heq => by contradiction, Or.inl hstore⟩
  | ack mid =>
      refine Or.inl ⟨?_, ?_, Or.inl hstore⟩
      · rintro ⟨_, _, heq⟩
        cases heq
      · rintro phase ⟨⟩
        trivial
  | nack mid reason => exact Or.inr ⟨⟨mid, reason, rfl⟩, _, rfl, hstore⟩

theorem Stands.step {input : CallInput} (h : c.Stands)
    (hs : step codec key c input = some c') : c'.Stands := by
  obtain ⟨⟨s, next⟩, hstep, rfl⟩ := Option.map_eq_some_iff.mp hs
  rcases h with ⟨hkind, hplain, hwhere⟩ | ⟨hkind, phase, hphase, hnacked⟩
  · obtain ⟨hplain', hkept⟩ := hplain.step hstep
    refine Or.inl ⟨hkind, hplain', ?_⟩
    rcases hwhere with hsame | hpast
    · rcases hkept with rfl | hpast'
      · exact Or.inl hsame
      · exact Or.inr hpast'
    · exact Or.inr (hpast.step hstep)
  · rw [hphase] at hstep
    cases input with
    | io input =>
        obtain ⟨⟨store, after⟩, hafter, heq⟩ := Option.map_eq_some_iff.mp hstep
        cases heq
        exact Or.inr ⟨hkind, after, rfl, hnacked.step hafter⟩
    | published id now => contradiction

theorem stands (h : (system codec key).Reach System.Free c) : c.Stands :=
  h.invariant (I := Stands) (fun _ h₀ => Begun.stands h₀)
    fun _ _ _ _ hi _ hs => hi.step hs

/--
Where a transport call has failed, the tables are those from before the call if
and only if the call is not a nack.
-/
theorem transport_failure_untouched_iff
    (h : (system codec key).Reach System.Free c)
    (hfailed : c.call.TransportFailed) :
    c.Untouched ↔ ¬ c.begun.IsNack := by
  rcases stands h with ⟨hkind, -, hwhere⟩ | ⟨hkind, phase, hphase, hnacked⟩
  · rcases hwhere with hsame | hpast
    · exact ⟨fun _ => hkind, fun _ => by rw [Untouched, hsame]; exact ⟨rfl, rfl⟩⟩
    · exact absurd hfailed hpast.not_transportFailed
  · have hcounted : SettlePhase.Counted c.before c.store := by
      rw [hphase] at hfailed
      rcases hfailed with heq | heq | heq <;> cases heq
      exact hnacked rfl
    exact ⟨fun hsame => absurd hsame.1 hcounted.messages_ne,
      fun hno => absurd hkind hno⟩

section Runs

open Publishing

def storedOnce : Store := (Store.empty.insertMessage sampleRecord).2

def ackFails : SoleCall String :=
  ⟨storedOnce, .ack "m", storedOnce, .ack "m"⟩

def nackFails : SoleCall String :=
  ⟨storedOnce, .nack "m" "failed", storedOnce, .nack "m" "failed"⟩

def settlesAt (phase : SettlePhase) : Call String → Bool
  | .settling found => decide (found = phase)
  | _ => false

private theorem eq_of_settlesAt {phase : SettlePhase} {call : Call String}
    (h : settlesAt phase call = true) : call = .settling phase := by
  unfold settlesAt at h
  split at h
  · rw [of_decide_eq_true h]
  · contradiction

theorem transport_failure_untouched_ack :
    ∃ c : SoleCall String, c.begun = .ack "m" ∧ c.call.TransportFailed ∧
      c.Untouched := by
  obtain ⟨c, hreach, htest⟩ :=
    (System.Reach.init (S := system textCodec sampleId) (P := System.Free)
      (s := ackFails) ⟨.ack "m", rfl, rfl⟩).of_run_check
      [.io (.proceed 0), .io .failed]
      (fun c => settlesAt (.acking "m") c.begun &&
        settlesAt (.settled (.error .transport)) c.call) (by decide)
  obtain ⟨hbegun, hcall⟩ := Bool.and_eq_true_iff.mp htest
  have hack : c.begun = .ack "m" := eq_of_settlesAt hbegun
  have hfailed : c.call.TransportFailed :=
    Or.inr (Or.inr (eq_of_settlesAt hcall))
  refine ⟨c, hack, hfailed,
    (transport_failure_untouched_iff hreach hfailed).mpr ?_⟩
  rintro ⟨mid, reason, hnack⟩
  rw [hack] at hnack
  cases hnack

/-- The publish of a nack fails: the attempt stays counted. -/
theorem nack_counts_unpublished :
    ∃ c : SoleCall String,
      (system textCodec sampleId).Reach System.Free c ∧
      c.call.TransportFailed ∧
      (∃ row, c.before.row? "m" = some row ∧ row.attempts = 0) ∧
      (∃ row, c.store.row? "m" = some row ∧ row.attempts = 1) ∧
      ¬ c.Untouched := by
  obtain ⟨c, hreach, htest⟩ :=
    (System.Reach.init (S := system textCodec sampleId) (P := System.Free)
      (s := nackFails) ⟨.nack "m" "failed", rfl, rfl⟩).of_run_check
      [.io (.proceed 0), .io (.proceed 0), .io (.proceed 0), .io .failed]
      (fun c => settlesAt (.settled (.error .transport)) c.call && decide
        ((∃ row ∈ c.before.row? "m", row.attempts = 0) ∧
          ∃ row ∈ c.store.row? "m", row.attempts = 1)) (by decide)
  obtain ⟨hfailed, hrows⟩ := Bool.and_eq_true_iff.mp htest
  obtain ⟨⟨row, hrow, hzero⟩, row', hrow', hone⟩ := of_decide_eq_true hrows
  refine ⟨c, hreach, Or.inr (Or.inr (eq_of_settlesAt hfailed)),
    ⟨row, hrow, hzero⟩, ⟨row', hrow', hone⟩, fun hsame => ?_⟩
  rw [Store.row?, hsame.1] at hrow'
  cases Option.some.inj (hrow.symm.trans hrow')
  omega

end Runs

end SoleCall

end NostrQ.Sdk
