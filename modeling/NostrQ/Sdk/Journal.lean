import NostrQ.Database.Lifecycle
import NostrQ.Foundation.Backlog
import NostrQ.Sdk.Idempotence
import NostrQ.Sdk.Session

/-!
# What the SDK writes down

Most store calls are followed by a call that writes an entry of the `lifecycle`
table.  The two are separate: other calls on the store may come between them,
and a process that stops between them never writes the entry.  So an entry is
owed from the write on, and a call that owes one does not go on.
-/

namespace NostrQ.Sdk

open NostrQ.Foundation NostrQ.Core NostrQ.Database

/-! ## The entry after each write -/

def recordNote (rec : MessageRecord) (kind : LifecycleKind)
    (detail : String) : Note :=
  ⟨rec.mid, some rec.traceId, kind, detail⟩

def ClaimCall.note? (key : PublicKey) (call : ClaimCall) :
    ClaimStage → Option Note
  | .ackObserved => some (recordNote call.record .acked "observed remote ack")
  | .dlqObserved _ =>
      some (recordNote call.record .deadLettered "observed remote dlq")
  | .recognised _ => some (recordNote call.record .claimed key.toHex)
  | .contendWon _ => some (recordNote call.record .claimed key.toHex)
  | _ => none

def SettleCall.note? (call : SettleCall) (now : Int) :
    SettleStage → Option Note
  | .ackAccepted => some (recordNote call.record .acked "")
  | .dlqAccepted reason => some (recordNote call.record .deadLettered reason)
  | .requeueing config attempts =>
      some (recordNote call.record .retryScheduled
        ("attempt " ++ toString attempts.val ++ ", visible_at " ++
          toString (call.visibleAt config attempts now)))
  | _ => none

/-- A write that fails is not written down. -/
def noteOf {ε α : Type} : Except ε α → Option Note → List Note
  | .ok _, some note => [note]
  | _, _ => []

def PublishPhase.notes {Envelope : Type} (s : Store) :
    PublishPhase Envelope → List Note
  | .inserting rec =>
      if (s.insertMessage rec).1 then [recordNote rec .published rec.queue]
      else []
  | _ => []

def ClaimPhase.notes (key : PublicKey) (s : Store) (time : Nat) :
    ClaimPhase → List Note
  | .expiring record now => expiredNotes s record.queue now
  | .during call stage =>
      match ClaimPhase.finish key s (timestamp time) call stage with
      | some (_, result) => noteOf result (call.note? key stage)
      | none => []
  | _ => []

/-- A nack is written down once it is published, before it has an outcome. -/
def SettlePhase.notes (s : Store) : SettlePhase → Input → List Note
  | .during call (.nackPublishing reason _ _), .accepted _ =>
      [recordNote call.record .nacked reason]
  | .during call stage, .proceed time =>
      match SettlePhase.finish s (timestamp time) call stage with
      | some (_, result) => noteOf result (call.note? (timestamp time) stage)
      | none => []
  | _, _ => []

def Call.notes {Envelope : Type} (key : PublicKey) (s : Store) :
    Call Envelope → CallInput → List Note
  | .publishing phase, .io (.proceed _) => phase.notes s
  | .claiming phase, .io (.proceed time) => phase.notes key s time
  | .settling phase, .io input => phase.notes s input
  | _, _ => []

def ingestNotes {Envelope : Type} (codec : Codec Envelope) (s : Store)
    (event : Event) : List Note :=
  match ingestRecord codec event with
  | .error _ => []
  | .ok rec =>
      if (s.insertMessage rec).1 then [recordNote rec .seen rec.queue] else []

def Session.notes {Envelope : Type} (codec : Codec Envelope) (key : PublicKey)
    (c : Session Envelope) : SessionAction Envelope → List Note
  | .resume i input =>
      match c.calls[i]? with
      | some call => call.notes key c.store input
      | none => []
  | .ingest event => ingestNotes codec c.store event
  | .sweepExpired queue now => expiredNotes c.store queue now
  | _ => []

/-! ## Every write is accounted for -/

def Call.Grounded {Envelope : Type} (s : Store) : Call Envelope → Prop
  | .publishing (.inserting rec) =>
      rec.status ∈ LifecycleKind.leaves .published
  | .claiming (.entering record _ _) => record.Named s
  | .claiming (.expiring record _) => record.Named s
  | .claiming (.during call _) => call.record.Named s
  | .settling (.during call _) => call.record.Named s
  | _ => True

section Steps

variable {Envelope : Type} {codec : Codec Envelope} {key : PublicKey}
  {s s' : Store}

theorem Call.Grounded.keeps {call : Call Envelope} (h : call.Grounded s)
    (hkeeps : s.Keeps s') : call.Grounded s' := by
  unfold Call.Grounded at h ⊢
  split
  · exact h
  · exact h.keeps hkeeps
  · exact h.keeps hkeeps
  · exact h.keeps hkeeps
  · exact h.keeps hkeeps
  · trivial

private theorem recordNote_names {rec : MessageRecord} {kind : LifecycleKind}
    {detail : String} (h : rec.Named s) :
    (recordNote rec kind detail).Names s := by
  obtain ⟨row, hrow, htrace⟩ := h
  refine ⟨row, hrow, ?_⟩
  intro traceId hmem
  simp only [recordNote, Option.mem_some_iff] at hmem
  exact hmem ▸ htrace

private theorem returning_accounts {β : Type} {value : β}
    {r : Except StoreError Unit × Store} {rec : MessageRecord}
    {kind : LifecycleKind} {detail : String} {change : Progress → Progress}
    {result : Except SdkError β} (hnamed : rec.Named s)
    (hmoves : s.Moves r.2 rec.mid change)
    (hok : ∀ row, s.row? rec.mid = some row → r.1 = .ok ())
    (hleaves : ∀ p, (change p).status ∈ kind.leaves)
    (h : returning value r = (s', result)) :
    s.Accounts s' (noteOf result (some (recordNote rec kind detail))) := by
  obtain ⟨row, hrow, htrace⟩ := hnamed
  have hreturned : (returning value r).2 = .ok value :=
    returning_of_ok (hok row hrow)
  have hresult : result = .ok value := by rw [← hreturned, h]
  have hs : s' = r.2 := by rw [← returning_fst value r, h]
  rw [hresult, hs]
  exact hmoves.accounts (recordNote_names ⟨row, hrow, htrace⟩) hleaves

private theorem claim_finish_accounts {now : Int} {call : ClaimCall}
    {stage : ClaimStage} {result : Except SdkError Bool}
    (hnamed : call.record.Named s)
    (h : ClaimPhase.finish key s now call stage = some (s', result)) :
    s.Accounts s' (noteOf result (call.note? key stage)) := by
  cases stage <;> simp only [ClaimPhase.finish, Option.some.injEq,
    reduceCtorEq] at h
  · exact returning_accounts hnamed Store.markAcked_moves
      (fun _ hrow => Store.update_ok hrow _) (fun _ => by simp) h
  · exact returning_accounts hnamed (Store.moveToDlqAt_moves _ _ _)
      (fun _ hrow => Store.moveToDlqAt_ok hrow _ _ _)
      (fun _ => by simp) h
  · exact returning_accounts hnamed (Store.markClaimed_moves _ _ _)
      (fun _ hrow => Store.update_ok hrow _) (fun _ => by simp) h
  · exact returning_accounts hnamed (Store.markClaimed_moves _ _ _)
      (fun _ hrow => Store.update_ok hrow _) (fun _ => by simp) h

private theorem settle_finish_accounts {now : Int} {call : SettleCall}
    {stage : SettleStage} {result : Except SdkError Settled}
    (hnamed : call.record.Named s)
    (h : SettlePhase.finish s now call stage = some (s', result)) :
    s.Accounts s' (noteOf result (call.note? now stage)) := by
  cases stage <;> simp only [SettlePhase.finish, Option.some.injEq,
    reduceCtorEq] at h
  · exact returning_accounts hnamed Store.markAcked_moves
      (fun _ hrow => Store.update_ok hrow _) (fun _ => by simp) h
  · exact returning_accounts hnamed (Store.moveToDlq_moves _ _)
      (fun _ hrow => Store.moveToDlq_ok hrow _ _)
      (fun _ => by simp) h
  · exact returning_accounts hnamed (Store.markPending_moves _)
      (fun _ hrow => Store.update_ok hrow _) (fun _ => by simp) h

theorem ClaimPhase.step_accounts {phase next : ClaimPhase} {input : Input}
    (hgrounded : (Call.claiming phase : Call Envelope).Grounded s)
    (h : phase.step key s input = some (s', next)) :
    s.Accounts s' ((Call.claiming phase : Call Envelope).notes key s (.io input)) ∧
      (Call.claiming next : Call Envelope).Grounded s := by
  cases input with
  | proceed time =>
      cases ClaimPhase.proceeds h with
      | @enter record leaseSeconds settleMs =>
          refine ⟨.refl s, ?_⟩
          rcases ClaimPhase.enter_cases record leaseSeconds settleMs
            (timestamp time) with ⟨heq, -⟩ | ⟨heq, -⟩ | ⟨_, -, heq⟩
          · rw [heq]
            exact hgrounded
          · rw [heq]
            trivial
          · rw [heq]
            exact hgrounded
      | expire => exact ⟨Store.expireDue_accounts _ _, trivial⟩
      | wake _ => exact ⟨.refl s, hgrounded⟩
      | @finish call stage _ result hfinish =>
          refine ⟨?_, trivial⟩
          have haccounts := claim_finish_accounts hgrounded hfinish
          simpa only [Call.notes, ClaimPhase.notes, hfinish] using haccounts
  | answer events =>
      obtain ⟨after, hanswer, heq⟩ := Option.map_eq_some_iff.mp h
      cases heq
      refine ⟨.refl s, ?_⟩
      cases ClaimPhase.answers hanswer with
      | @terminal call =>
          rcases call.afterTerminal_cases events with
            ⟨heq, -⟩ | ⟨heq, -⟩ | ⟨heq, -⟩ <;> rw [heq] <;> exact hgrounded
      | nacks => exact hgrounded
      | @claims call observed =>
          rcases call.afterSurvey_cases key observed (parseClaims events) with
            ⟨_, -, -, heq⟩ | ⟨_, -, -, heq⟩ | ⟨-, heq⟩
          · rw [heq]
            exact hgrounded
          · rw [heq]
            trivial
          · rw [heq]
            exact hgrounded
      | recheckClaims => exact hgrounded
      | @recheckNacks call observed claims =>
          rcases call.afterRecheck_cases key observed claims events with
            ⟨_, -, -, heq⟩ | ⟨-, heq⟩
          · rw [heq]
            exact hgrounded
          · rw [heq]
            trivial
  | accepted time =>
      obtain ⟨after, haccepted, heq⟩ := Option.map_eq_some_iff.mp h
      cases heq
      obtain ⟨_, _, rfl, rfl⟩ := ClaimPhase.accepted_cases haccepted
      exact ⟨.refl s, hgrounded⟩
  | failed =>
      obtain ⟨after, hfailed, heq⟩ := Option.map_eq_some_iff.mp h
      cases heq
      rw [(ClaimPhase.failed_cases hfailed).2]
      exact ⟨.refl s, trivial⟩

private theorem start_grounded (mid : String) (stage : SettleStage) :
    (Call.settling (SettlePhase.start s mid stage) : Call Envelope).Grounded
      s := by
  unfold SettlePhase.start
  split
  · trivial
  · next call hcall =>
      obtain ⟨row, hrow, hshows, -⟩ := messageRef_ok hcall
      have hmid := (Messages.row?_mem hrow).2
      exact hshows.named (by rw [hshows.mid, hmid]; exact hrow)

theorem SettlePhase.step_accounts {phase next : SettlePhase} {input : Input}
    (hgrounded : (Call.settling phase : Call Envelope).Grounded s)
    (h : phase.step s input = some (s', next)) :
    s.Accounts s' ((Call.settling phase : Call Envelope).notes key s (.io input)) ∧
      (Call.settling next : Call Envelope).Grounded s := by
  cases input with
  | proceed time =>
      cases SettlePhase.proceeds h with
      | ack => exact ⟨.refl s, start_grounded _ _⟩
      | nack => exact ⟨.refl s, start_grounded _ _⟩
      | configure => exact ⟨.refl s, hgrounded⟩
      | @count call reason config =>
          rw [SettlePhase.count_fst]
          refine ⟨Store.incrAttempts_moves.accounts_quiet fun _ => rfl, ?_⟩
          rcases SettlePhase.count_snd (s := s) call reason config with
            ⟨_, _, -, -, heq⟩ | ⟨_, heq, -⟩
          · rw [heq]
            exact hgrounded
          · rw [heq]
            trivial
      | @finish call stage _ result hfinish =>
          refine ⟨?_, trivial⟩
          have haccounts := settle_finish_accounts hgrounded hfinish
          simpa only [Call.notes, SettlePhase.notes, hfinish] using haccounts
  | answer events => contradiction
  | accepted time =>
      obtain ⟨after, haccepted, heq⟩ := Option.map_eq_some_iff.mp h
      cases heq
      cases SettlePhase.accepts haccepted with
      | ack => exact ⟨.refl s, hgrounded⟩
      | nack =>
          refine ⟨.nacked (recordNote_names hgrounded) rfl, ?_⟩
          unfold SettleCall.afterNack
          split <;> exact hgrounded
      | dlq => exact ⟨.refl s, hgrounded⟩
  | failed =>
      obtain ⟨after, hfailed, heq⟩ := Option.map_eq_some_iff.mp h
      cases heq
      rw [SettlePhase.failed_cases hfailed]
      refine ⟨?_, trivial⟩
      cases phase with
      | during call stage => cases stage <;> exact .refl s
      | acking | nacking | settled => exact .refl s

theorem initialStatus_leaves (mode : QueueMode) :
    PublishCall.initialStatus mode ∈ LifecycleKind.leaves .published := by
  cases mode <;> simp [PublishCall.initialStatus]

theorem PublishPhase.proceed_accounts {phase next : PublishPhase Envelope}
    {time : Nat} (hgrounded : (Call.publishing phase).Grounded s)
    (h : phase.proceed codec s = some (s', next)) :
    s.Accounts s' ((Call.publishing phase).notes key s (.io (.proceed time))) ∧
      (Call.publishing next).Grounded s := by
  unfold PublishPhase.proceed at h
  split at h
  · split at h <;> cases h <;> exact ⟨.refl s, trivial⟩
  · cases h
    refine ⟨.refl s, ?_⟩
    unfold PublishPhase.check PublishPhase.build
    split
    · split <;> trivial
    · split
      · trivial
      · trivial
      · split <;> trivial
  · next rec =>
      cases h
      refine ⟨?_, ?_⟩
      · simp only [Call.notes, PublishPhase.notes]
        split
        · next hinserted =>
            exact Store.insertMessage_accounts hinserted rfl rfl hgrounded
        · next hignored =>
            exact .same (Store.insertMessage_row?_of_false
              (Bool.eq_false_iff.mpr hignored))
      · unfold PublishPhase.insert
        split
        · trivial
        · split <;> trivial
  · cases h
    refine ⟨.refl s, ?_⟩
    unfold PublishPhase.reread
    split <;> trivial
  · contradiction

theorem Call.step_accounts {call next : Call Envelope} {input : CallInput}
    (hgrounded : call.Grounded s)
    (h : call.step codec key s input = some (s', next)) :
    s.Accounts s' (call.notes key s input) ∧ next.Grounded s := by
  unfold Call.step at h
  split at h
  · obtain ⟨⟨store, after⟩, hstep, heq⟩ := Option.map_eq_some_iff.mp h
    cases heq
    exact PublishPhase.proceed_accounts hgrounded hstep
  · obtain ⟨after, haccepted, heq⟩ := Option.map_eq_some_iff.mp h
    cases heq
    refine ⟨.refl s, ?_⟩
    unfold PublishPhase.accepted at haccepted
    split at haccepted
    · split at haccepted <;> cases haccepted
      · trivial
      · exact initialStatus_leaves _
    · contradiction
  · obtain ⟨after, hfailed, heq⟩ := Option.map_eq_some_iff.mp h
    cases heq
    refine ⟨.refl s, ?_⟩
    unfold PublishPhase.failed at hfailed
    split at hfailed
    · cases hfailed
      trivial
    · contradiction
  · obtain ⟨⟨store, after⟩, hstep, heq⟩ := Option.map_eq_some_iff.mp h
    cases heq
    exact ClaimPhase.step_accounts hgrounded hstep
  · obtain ⟨⟨store, after⟩, hstep, heq⟩ := Option.map_eq_some_iff.mp h
    cases heq
    exact SettlePhase.step_accounts hgrounded hstep
  · contradiction

theorem ingest_accounts (event : Event) :
    s.Accounts (ingest codec s event) (ingestNotes codec s event) := by
  unfold ingest ingestNotes
  cases hrec : ingestRecord codec event with
  | error e => exact .refl s
  | ok rec =>
      simp only
      split
      · next hinserted =>
          refine Store.insertMessage_accounts hinserted rfl rfl ?_
          rw [(ingestRecord_ok hrec).1]
          exact List.mem_singleton.mpr rfl
      · next hignored =>
          exact .same (Store.insertMessage_row?_of_false
            (Bool.eq_false_iff.mpr hignored))

end Steps

/-! ## The journal -/

/-- Who owes the entry: a running call, or something beside the calls. -/
inductive Writer where
  | call (i : Nat)
  | other
  deriving DecidableEq

structure Journal (Envelope : Type) where
  session : Session Envelope
  lifecycle : Lifecycle := []
  /-- The writes that are not written down yet. -/
  owed : Backlog Writer Note := .empty _ _
  /-- The dead messages that a `dlq retry` command is about to take back. -/
  retries : List MessageRecord := []
  /-- What was owed when the process stopped. -/
  lost : List Note := []

inductive JournalAction (Envelope : Type) where
  | act (a : SessionAction Envelope)
  | record (k : Nat) (now : Int)
  | checkRetry (mid : String)
  | retry (k : Nat)
  | restart

namespace Journal

variable {Envelope : Type} (codec : Codec Envelope) (key : PublicKey)

def store (c : Journal Envelope) : Store := c.session.store

def writer : SessionAction Envelope → Writer
  | .resume i _ => .call i
  | _ => .other

def Ready (c : Journal Envelope) : SessionAction Envelope → Prop
  | .resume i _ => ¬ c.owed.Busy (.call i)
  | .dlqRetry _ => False
  | _ => True

instance (c : Journal Envelope) (a : SessionAction Envelope) :
    Decidable (c.Ready a) :=
  match a with
  | .resume _ _ => inferInstanceAs (Decidable (¬ _))
  | .dlqRetry _ => inferInstanceAs (Decidable False)
  | .publish _ | .tryClaim _ _ _ | .ack _ | .nack _ _ | .ingest _
  | .sweepExpired _ _ | .configure _ => inferInstanceAs (Decidable True)

/-- `dlq_retry` is only called by the command, which looks at the row first. -/
def step (c : Journal Envelope) :
    JournalAction Envelope → Option (Journal Envelope)
  | .act a =>
      if c.Ready a then
        (Session.step codec key c.session a).map fun session =>
          { c with
            session := session
            owed := c.owed.leave (writer a) (c.session.notes codec key a) }
      else none
  | .record k now =>
      (c.owed.serve? k).map fun (note, owed) =>
        { c with
          lifecycle := c.lifecycle ++ (note.toRecord c.store now).toList
          owed := owed }
  | .checkRetry mid =>
      match c.store.getMessage mid with
      | .ok (some rec) =>
          if rec.status = .dead then
            some { c with retries := c.retries ++ [rec] }
          else none
      | _ => none
  | .retry k =>
      c.retries[k]?.map fun rec =>
        { c with
          session := { c.session with store := (c.store.dlqRetry rec.mid).2 }
          owed := c.owed.leave .other (noteOf (c.store.dlqRetry rec.mid).1
            (some (recordNote rec .dlqRetried "manual retry via cli")))
          retries := c.retries.eraseIdx k }
  | .restart =>
      some { c with
        session := { c.session with calls := [] }
        owed := .empty _ _
        retries := []
        lost := c.lost ++ c.owed.notes }

def Blank (c : Journal Envelope) : Prop :=
  c = { session := ⟨.empty, []⟩ }

def system : System (Journal Envelope) (JournalAction Envelope) where
  init := Blank
  step := step codec key

def Fetched (c : Journal Envelope) : JournalAction Envelope → Prop
  | .act (.tryClaim record _ _) => record.Named c.store
  | _ => True

instance (c : Journal Envelope) (a : JournalAction Envelope) :
    Decidable (c.Fetched a) :=
  match a with
  | .act (.tryClaim record _ _) => inferInstanceAs (Decidable (record.Named _))
  | .act (.publish _) | .act (.ack _) | .act (.nack _ _) | .act (.resume _ _)
  | .act (.ingest _) | .act (.sweepExpired _ _) | .act (.dlqRetry _)
  | .act (.configure _) | .record _ _ | .checkRetry _ | .retry _ | .restart =>
      inferInstanceAs (Decidable True)

/-- No other call comes between a write and its entry. -/
def Undivided (c : Journal Envelope) : JournalAction Envelope → Prop
  | .record _ _ => True
  | a => c.Fetched a ∧ c.owed.notes = []

instance (c : Journal Envelope) (a : JournalAction Envelope) :
    Decidable (c.Undivided a) :=
  match a with
  | .record _ _ => inferInstanceAs (Decidable True)
  | .act _ | .checkRetry _ | .retry _ | .restart =>
      inferInstanceAs (Decidable (_ ∧ _))

variable {codec key} {c c' : Journal Envelope}

/-! ## Everything is written down -/

/-- What is not written down, whether it still will be or not. -/
def unwritten (c : Journal Envelope) : List Note := c.owed.notes ++ c.lost

structure Kept (c : Journal Envelope) : Prop where
  calls : ∀ call ∈ c.session.calls, call.Grounded c.store
  retries : ∀ rec ∈ c.retries, rec.Named c.store
  entries : ∀ entry ∈ c.lifecycle, entry.Names c.store
  notes : ∀ note ∈ c.unwritten, note.Names c.store
  explained : ∀ mid row, c.store.row? mid = some row →
    (∃ entry ∈ c.lifecycle, entry.mid = mid ∧ row.status ∈ entry.kind.leaves) ∨
      ∃ note ∈ c.unwritten, note.mid = mid ∧ row.status ∈ note.kind.leaves

private theorem session_accounts {d d' : Session Envelope}
    {a : SessionAction Envelope}
    (hcalls : ∀ call ∈ d.calls, call.Grounded d.store)
    (hfetched : ∀ record leaseSeconds settleMs,
      a = .tryClaim record leaseSeconds settleMs → record.Named d.store)
    (hretry : ∀ mid, a ≠ .dlqRetry mid)
    (h : Session.step codec key d a = some d') :
    d.store.Accounts d'.store (d.notes codec key a) ∧
      ∀ call ∈ d'.calls, call.Grounded d'.store := by
  have others : ∀ {s' : Store}, d.store.Keeps s' →
      ∀ call ∈ d.calls, call.Grounded s' := fun hkeeps call hcall =>
    (hcalls call hcall).keeps hkeeps
  cases a with
  | publish call =>
      cases h
      exact ⟨.refl _, Session.forall_start hcalls trivial⟩
  | tryClaim record leaseSeconds settleMs =>
      cases h
      exact ⟨.refl _, Session.forall_start hcalls (hfetched _ _ _ rfl)⟩
  | ack mid =>
      cases h
      exact ⟨.refl _, Session.forall_start hcalls trivial⟩
  | nack mid reason =>
      cases h
      exact ⟨.refl _, Session.forall_start hcalls trivial⟩
  | resume i input =>
      obtain ⟨call, s', next, hcall, hnext, rfl⟩ := Session.resume_cases h
      obtain ⟨haccounts, hgrounded⟩ := Call.step_accounts
        (hcalls call (List.mem_of_getElem? hcall)) hnext
      simp only [Session.notes, hcall]
      exact ⟨haccounts, Session.forall_set (others haccounts.keeps)
        (hgrounded.keeps haccounts.keeps)⟩
  | ingest event =>
      cases h
      have haccounts : d.store.Accounts (Sdk.ingest codec d.store event)
          (ingestNotes codec d.store event) := ingest_accounts event
      exact ⟨haccounts, others haccounts.keeps⟩
  | sweepExpired queue now =>
      cases h
      have haccounts := d.store.expireDue_accounts queue now
      exact ⟨haccounts, others haccounts.keeps⟩
  | dlqRetry mid => exact absurd rfl (hretry mid)
  | configure queues =>
      cases h
      exact ⟨.same fun _ => rfl, others (.refl _)⟩

private theorem Kept.wrote {S : Session Envelope} {writer : Writer}
    {notes : List Note} {retries : List MessageRecord} (h : c.Kept)
    (haccounts : c.store.Accounts S.store notes)
    (hcalls : ∀ call ∈ S.calls, call.Grounded S.store)
    (hretries : retries ⊆ c.retries) :
    Kept { c with
      session := S
      owed := c.owed.leave writer notes
      retries := retries } where
  calls := hcalls
  retries := fun rec hrec => (h.retries rec (hretries hrec)).keeps haccounts.keeps
  entries := fun entry hentry => (h.entries entry hentry).keeps haccounts.keeps
  notes := by
    intro note hnote
    simp only [unwritten, Backlog.notes_leave, List.mem_append] at hnote
    rcases hnote with (howed | hnew) | hlost
    · exact (h.notes note (List.mem_append_left _ howed)).keeps haccounts.keeps
    · obtain ⟨row', hrow', htrace, -⟩ := haccounts.noted note hnew
      exact ⟨row', hrow', htrace⟩
    · exact (h.notes note (List.mem_append_right _ hlost)).keeps haccounts.keeps
  explained := by
    intro mid row' hrow'
    simp only [unwritten, Backlog.notes_leave]
    rcases haccounts.moved mid row' hrow' with
      ⟨note, hnote, hmid, hleaves⟩ | ⟨row, hrow, hstatus⟩
    · exact Or.inr ⟨note, by simp [hnote], hmid, hleaves⟩
    · rw [← hstatus]
      rcases h.explained mid row hrow with hentry | ⟨note, hnote, hsays⟩
      · exact Or.inl hentry
      · refine Or.inr ⟨note, ?_, hsays⟩
        rcases List.mem_append.mp hnote with howed | hlost
        · simp [howed]
        · simp [hlost]

private theorem Kept.recorded {note : Note} {owed : Backlog Writer Note}
    {k : Nat} {now : Int} (h : c.Kept)
    (hserve : c.owed.serve? k = some (note, owed)) :
    Kept { c with
      lifecycle := c.lifecycle ++ (note.toRecord c.store now).toList
      owed := owed } := by
  have hmem := Backlog.mem_notes_serve? hserve
  have hnames : note.Names c.store :=
    h.notes note (List.mem_append_left _ ((hmem note).mpr (Or.inl rfl)))
  obtain ⟨entry, hentry, hentryNames, hmid, hkind⟩ := hnames.toRecord now
  rw [hentry, Option.toList_some]
  have hleft : ∀ other ∈ owed.notes ++ c.lost, other ∈ c.unwritten := by
    intro other hother
    rcases List.mem_append.mp hother with howed | hlost
    · exact List.mem_append_left _ ((hmem other).mpr (Or.inr howed))
    · exact List.mem_append_right _ hlost
  refine ⟨h.calls, h.retries, ?_, fun other hother => h.notes other (hleft other hother),
    ?_⟩
  · intro other hother
    rcases List.mem_append.mp hother with hold | hnew
    · exact h.entries other hold
    · exact List.mem_singleton.mp hnew ▸ hentryNames
  · intro mid row hrow
    rcases h.explained mid row hrow with
      ⟨old, hold, hsays⟩ | ⟨other, hother, hothermid, hleaves⟩
    · exact Or.inl ⟨old, List.mem_append_left _ hold, hsays⟩
    · rcases List.mem_append.mp hother with howed | hlost
      · rcases (hmem other).mp howed with rfl | hrest
        · exact Or.inl ⟨entry, by simp, hmid.trans hothermid, hkind ▸ hleaves⟩
        · exact Or.inr ⟨other, List.mem_append_left _ hrest, hothermid, hleaves⟩
      · exact Or.inr ⟨other, List.mem_append_right _ hlost, hothermid, hleaves⟩

theorem act_cases {a : SessionAction Envelope}
    (h : step codec key c (.act a) = some c') :
    c.Ready a ∧ ∃ session, Session.step codec key c.session a = some session ∧
      c' = { c with
        session := session
        owed := c.owed.leave (writer a) (c.session.notes codec key a) } := by
  simp only [step] at h
  split at h
  · next hready =>
      obtain ⟨session, hsession, heq⟩ := Option.map_eq_some_iff.mp h
      exact ⟨hready, session, hsession, heq.symm⟩
  · contradiction

theorem record_cases {k : Nat} {now : Int}
    (h : step codec key c (.record k now) = some c') :
    ∃ note owed, c.owed.serve? k = some (note, owed) ∧
      c' = { c with
        lifecycle := c.lifecycle ++ (note.toRecord c.store now).toList
        owed := owed } := by
  obtain ⟨⟨note, owed⟩, hserve, heq⟩ := Option.map_eq_some_iff.mp h
  exact ⟨note, owed, hserve, heq.symm⟩

theorem checkRetry_cases {mid : String}
    (h : step codec key c (.checkRetry mid) = some c') :
    ∃ rec, c.store.getMessage mid = .ok (some rec) ∧ rec.status = .dead ∧
      c' = { c with retries := c.retries ++ [rec] } := by
  simp only [step] at h
  split at h
  · next rec hget =>
      split at h
      · next hdead => exact ⟨rec, hget, hdead, (Option.some.inj h).symm⟩
      · contradiction
  · contradiction

theorem retry_cases {k : Nat} (h : step codec key c (.retry k) = some c') :
    ∃ rec, c.retries[k]? = some rec ∧
      c' = { c with
        session := { c.session with store := (c.store.dlqRetry rec.mid).2 }
        owed := c.owed.leave .other (noteOf (c.store.dlqRetry rec.mid).1
          (some (recordNote rec .dlqRetried "manual retry via cli")))
        retries := c.retries.eraseIdx k } := by
  obtain ⟨rec, hrec, heq⟩ := Option.map_eq_some_iff.mp h
  exact ⟨rec, hrec, heq.symm⟩

private theorem retry_accounts {rec : MessageRecord} {s : Store}
    (h : rec.Named s) :
    s.Accounts (s.dlqRetry rec.mid).2 (noteOf (s.dlqRetry rec.mid).1
      (some (recordNote rec .dlqRetried "manual retry via cli"))) := by
  obtain ⟨row, hrow, htrace⟩ := h
  rw [Store.dlqRetry_ok hrow]
  exact Store.dlqRetry_moves.accounts (recordNote_names ⟨row, hrow, htrace⟩)
    fun _ => List.mem_singleton.mpr rfl

private theorem fetched_of_ready {a : SessionAction Envelope}
    (hready : c.Ready a) (mid : String) : a ≠ .dlqRetry mid := by
  rintro rfl
  exact hready

theorem Kept.step {a : JournalAction Envelope} (h : c.Kept)
    (hfetched : c.Fetched a) (hs : step codec key c a = some c') : c'.Kept := by
  cases a with
  | act a =>
      obtain ⟨hready, session, hsession, rfl⟩ := act_cases hs
      obtain ⟨haccounts, hcalls⟩ := session_accounts h.calls
        (fun _ _ _ heq => by subst heq; exact hfetched)
        (fetched_of_ready hready) hsession
      exact h.wrote haccounts hcalls (List.Subset.refl _)
  | record k now =>
      obtain ⟨note, owed, hserve, rfl⟩ := record_cases hs
      exact h.recorded hserve
  | checkRetry mid =>
      obtain ⟨rec, hget, -, rfl⟩ := checkRetry_cases hs
      refine ⟨h.calls, ?_, h.entries, h.notes, h.explained⟩
      intro other hother
      rcases List.mem_append.mp hother with hold | hnew
      · exact h.retries other hold
      · obtain ⟨row, hrow, hshows⟩ := Store.getMessage_shows hget
        rw [List.mem_singleton.mp hnew]
        exact hshows.named (by
          rw [hshows.mid, (Messages.row?_mem hrow).2]
          exact hrow)
  | retry k =>
      obtain ⟨rec, hrec, rfl⟩ := retry_cases hs
      have haccounts := retry_accounts
        (h.retries rec (List.mem_of_getElem? hrec))
      exact h.wrote (S := { c.session with store := _ }) haccounts
        (fun call hcall => (h.calls call hcall).keeps haccounts.keeps)
        (List.eraseIdx_subset)
  | restart =>
      cases hs
      have hsame : ∀ note, note ∈ (Backlog.empty Writer Note).notes ++
          (c.lost ++ c.owed.notes) ↔ note ∈ c.unwritten := by
        intro note
        simp only [unwritten, Backlog.notes_empty, List.nil_append,
          List.mem_append]
        exact or_comm
      refine ⟨by simp, by simp, h.entries, ?_, ?_⟩
      · intro note hnote
        exact h.notes note ((hsame note).mp hnote)
      · intro mid row hrow
        rcases h.explained mid row hrow with hentry | ⟨note, hnote, hsays⟩
        · exact Or.inl hentry
        · exact Or.inr ⟨note, (hsame note).mpr hnote, hsays⟩

theorem kept (h : (system codec key).Reach Fetched c) : c.Kept :=
  h.invariant (I := Kept)
    (fun c h₀ => by
      rw [h₀]
      refine ⟨by simp, by simp, by simp, by simp [unwritten], ?_⟩
      intro mid row hrow
      contradiction)
    fun _ _ _ _ hi hfetched hs => hi.step hfetched hs

/-! ## The last entry -/

/-- The last entry about a message, or an owed one, says what its status is. -/
structure Replayed (c : Journal Envelope) : Prop where
  kept : c.Kept
  owed : ∀ note ∈ c.owed.notes, ∃ row, c.store.row? note.mid = some row ∧
    (note.kind.Moves → row.status ∈ note.kind.leaves)
  last : ∀ mid row, c.store.row? mid = some row →
    (∃ note ∈ c.owed.notes, note.mid = mid ∧ note.kind.Moves) ∨
      ∃ entry, c.lifecycle.lastMove mid = some entry ∧
        row.status ∈ entry.kind.leaves

private theorem Replayed.wrote {S : Session Envelope} {writer : Writer}
    {notes : List Note} {retries : List MessageRecord} (h : c.Replayed)
    (hidle : c.owed.notes = [])
    (haccounts : c.store.Accounts S.store notes)
    (hkept : Kept { c with
      session := S
      owed := c.owed.leave writer notes
      retries := retries }) :
    Replayed { c with
      session := S
      owed := c.owed.leave writer notes
      retries := retries } where
  kept := hkept
  owed := by
    intro note hnote
    rw [Backlog.notes_leave, hidle, List.nil_append] at hnote
    obtain ⟨row', hrow', -, hmoves⟩ := haccounts.noted note hnote
    exact ⟨row', hrow', hmoves⟩
  last := by
    intro mid row' hrow'
    rw [Backlog.notes_leave, hidle, List.nil_append]
    rcases haccounts.moved mid row' hrow' with
      ⟨note, hnote, hmid, hleaves⟩ | ⟨row, hrow, hstatus⟩
    · exact Or.inl ⟨note, hnote, hmid, LifecycleKind.moves_of_leaves hleaves⟩
    · rw [← hstatus]
      rcases h.last mid row hrow with ⟨note, hnote, -⟩ | hlast
      · simp [hidle] at hnote
      · exact Or.inr hlast

private theorem Replayed.recorded {note : Note} {owed : Backlog Writer Note}
    {k : Nat} {now : Int} (h : c.Replayed)
    (hserve : c.owed.serve? k = some (note, owed)) :
    Replayed { c with
      lifecycle := c.lifecycle ++ (note.toRecord c.store now).toList
      owed := owed } := by
  have hmem := Backlog.mem_notes_serve? hserve
  have hserved : note ∈ c.owed.notes := (hmem note).mpr (Or.inl rfl)
  obtain ⟨entry, hentry, -, hmid, hkind⟩ :=
    (h.kept.notes note (List.mem_append_left _ hserved)).toRecord now
  refine ⟨h.kept.recorded hserve, ?_, ?_⟩
  · intro other hother
    exact h.owed other ((hmem other).mpr (Or.inr hother))
  · intro mid row hrow
    rw [hentry, Option.toList_some]
    by_cases habout : entry.mid = mid ∧ entry.kind.Moves
    · obtain ⟨rfl, hmoves⟩ := habout
      refine Or.inr ⟨entry, Lifecycle.lastMove_concat_self rfl hmoves, ?_⟩
      obtain ⟨found, hfound, hleaves⟩ := h.owed note hserved
      rw [hmid] at hrow
      cases hrow.symm.trans hfound
      rw [hkind] at hmoves ⊢
      exact hleaves hmoves
    · rw [Lifecycle.lastMove_concat_other habout]
      rcases h.last mid row hrow with ⟨other, hother, hothermid, hmoves⟩ | hlast
      · rcases (hmem other).mp hother with rfl | hrest
        · rw [hmid, hkind] at habout
          exact absurd ⟨hothermid, hmoves⟩ habout
        · exact Or.inl ⟨other, hrest, hothermid, hmoves⟩
      · exact Or.inr hlast

theorem fetched_of_undivided {a : JournalAction Envelope}
    (h : c.Undivided a) : c.Fetched a := by
  cases a with
  | record k now => trivial
  | act | checkRetry | retry | restart => exact h.1

theorem Replayed.step {a : JournalAction Envelope} (h : c.Replayed)
    (hundivided : c.Undivided a) (hs : step codec key c a = some c') :
    c'.Replayed := by
  have hkept := h.kept.step (fetched_of_undivided hundivided) hs
  cases a with
  | act a =>
      obtain ⟨hready, session, hsession, rfl⟩ := act_cases hs
      obtain ⟨haccounts, -⟩ := session_accounts h.kept.calls
        (fun _ _ _ heq => by subst heq; exact hundivided.1)
        (fetched_of_ready hready) hsession
      exact h.wrote hundivided.2 haccounts hkept
  | record k now =>
      obtain ⟨note, owed, hserve, rfl⟩ := record_cases hs
      exact h.recorded hserve
  | checkRetry mid =>
      obtain ⟨rec, -, -, rfl⟩ := checkRetry_cases hs
      exact ⟨hkept, h.owed, h.last⟩
  | retry k =>
      obtain ⟨rec, hrec, rfl⟩ := retry_cases hs
      exact h.wrote (S := { c.session with store := _ }) hundivided.2
        (retry_accounts (h.kept.retries rec (List.mem_of_getElem? hrec))) hkept
  | restart =>
      cases hs
      refine ⟨hkept, by simp, ?_⟩
      intro mid row hrow
      rcases h.last mid row hrow with ⟨note, hnote, -⟩ | hlast
      · simp [hundivided.2] at hnote
      · exact Or.inr hlast

theorem replayed (h : (system codec key).Reach Undivided c) : c.Replayed :=
  h.invariant (I := Replayed)
    (fun c h₀ => by
      refine ⟨kept (.init h₀), ?_, ?_⟩
      · rw [h₀]
        simp
      · intro mid row hrow
        rw [h₀] at hrow
        contradiction)
    fun _ _ _ _ hi hundivided hs => hi.step hundivided hs

/--
When no other call comes between a write and its entry, the table can be read
instead of the messages: a message is stored if an entry says what became of it,
and its status is what the last such entry left.
-/
theorem last_entry_explains (h : (system codec key).Reach Undivided c)
    (hidle : c.owed.notes = []) (mid : String) :
    (∀ row, c.store.row? mid = some row →
      ∃ entry, c.lifecycle.lastMove mid = some entry ∧
        entry.traceId = row.traceId ∧ row.status ∈ entry.kind.leaves) ∧
    (∀ entry, c.lifecycle.lastMove mid = some entry →
      ∃ row, c.store.row? mid = some row ∧ entry.traceId = row.traceId ∧
        row.status ∈ entry.kind.leaves) := by
  have hreplayed := replayed h
  have hfound : ∀ row, c.store.row? mid = some row →
      ∃ entry, c.lifecycle.lastMove mid = some entry ∧
        entry.traceId = row.traceId ∧ row.status ∈ entry.kind.leaves := by
    intro row hrow
    rcases hreplayed.last mid row hrow with ⟨note, hnote, -⟩ | ⟨entry, hlast, hleaves⟩
    · simp [hidle] at hnote
    · obtain ⟨hentry, hmid, -⟩ := Lifecycle.mem_of_lastMove hlast
      obtain ⟨found, hstored, htrace⟩ := hreplayed.kept.entries entry hentry
      rw [hmid] at hstored
      cases hrow.symm.trans hstored
      exact ⟨entry, hlast, htrace, hleaves⟩
  refine ⟨hfound, ?_⟩
  intro entry hlast
  obtain ⟨hentry, hmid, -⟩ := Lifecycle.mem_of_lastMove hlast
  obtain ⟨row, hrow, -⟩ := hreplayed.kept.entries entry hentry
  rw [hmid] at hrow
  obtain ⟨entry', hlast', htrace, hleaves⟩ := hfound row hrow
  cases hlast.symm.trans hlast'
  exact ⟨row, hrow, htrace, hleaves⟩

section Runs

open Publishing

def blankJournal : Journal String := { session := ⟨.empty, []⟩ }

def ownClaim : Event :=
  (buildClaimEvent id ⟨sampleId, "jobs", "m", "trace"⟩ 60 0).sign
    (hexOf 'a') 0 (hexOf 'c')

def recognisingRun : List (JournalAction String) :=
  [.act (.ingest (sampleDraft.sign (hexOf '0') 0 sampleId)), .record 0 0,
    .act (.tryClaim sampleRecord 60 0), .act (.resume 0 (.io (.proceed 0))),
    .act (.resume 0 (.io (.answer []))), .act (.resume 0 (.io (.answer []))),
    .act (.resume 0 (.io (.answer [ownClaim]))),
    .act (.resume 0 (.io (.proceed 0)))]

def ackingRun : List (JournalAction String) :=
  [.act (.ack "m"), .act (.resume 1 (.io (.proceed 0))),
    .act (.resume 1 (.io (.accepted 0))), .act (.resume 1 (.io (.proceed 0)))]

def EndsWith (kind : LifecycleKind) (status : Status) (c : Journal String) :
    Prop :=
  c.owed.notes = [] ∧ (∃ row ∈ c.store.row? "m", row.status = status) ∧
    ∃ entry ∈ c.lifecycle.lastMove "m", entry.kind = kind

instance (kind : LifecycleKind) (status : Status) (c : Journal String) :
    Decidable (EndsWith kind status c) :=
  inferInstanceAs (Decidable (_ ∧ (∃ _ ∈ _, _) ∧ ∃ _ ∈ _, _))

theorem last_entry_explains_acked :
    ∃ c : Journal String, c.EndsWith .acked .acked ∧ ∀ mid,
      (∀ row, c.store.row? mid = some row →
        ∃ entry, c.lifecycle.lastMove mid = some entry ∧
          entry.traceId = row.traceId ∧ row.status ∈ entry.kind.leaves) ∧
      (∀ entry, c.lifecycle.lastMove mid = some entry →
        ∃ row, c.store.row? mid = some row ∧ entry.traceId = row.traceId ∧
          row.status ∈ entry.kind.leaves) := by
  obtain ⟨c, hreach, htest⟩ :=
    (System.Reach.init (S := system textCodec (hexOf 'a')) (P := Undivided)
      (s := blankJournal) rfl).of_run_check
      (recognisingRun ++ [.record 1 0] ++ ackingRun ++ [.record 2 0])
      (fun c => decide (c.EndsWith .acked .acked)) (by decide)
  have hends := of_decide_eq_true htest
  exact ⟨c, hends, last_entry_explains hreach hends.1⟩

/--
The claim is written down after the acknowledgement that followed it: the last
entry does not say that the message is acknowledged.
-/
example :
    ∃ c : Journal String,
      (system textCodec (hexOf 'a')).Reach Fetched c ∧
      c.EndsWith .claimed .acked := by
  obtain ⟨c, hreach, htest⟩ :=
    (System.Reach.init (S := system textCodec (hexOf 'a')) (P := Fetched)
      (s := blankJournal) rfl).of_run_check
      (recognisingRun ++ ackingRun ++ [.record 2 0, .record 1 0])
      (fun c => decide (c.EndsWith .claimed .acked)) (by decide)
  exact ⟨c, hreach, of_decide_eq_true htest⟩

end Runs

end Journal

end NostrQ.Sdk
