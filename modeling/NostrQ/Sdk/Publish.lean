import NostrQ.Core.Protocol
import NostrQ.Database.Store
import NostrQ.Foundation.Transition

/-!
# Publishing and ingesting a message

`publish_internal` broadcasts the message before it inserts its row, so an
ingest loop that writes the same store may have stored the message already when
the publisher gets there.  Publishing is a machine that stops before each store
call and while it waits for the transport; ingesting one event is one step.
-/

namespace NostrQ.Sdk

open NostrQ.Foundation NostrQ.Core NostrQ.Database

inductive PublishError where
  | store (error : StoreError)
  | unknownQueue (queue : String)
  | protocol (error : ProtocolError)
  | transport
  | notPersisted (mid : String)

structure PublishReceipt where
  mid : String
  traceId : String
  eventId : String
  deriving DecidableEq

structure PublishCall (Envelope : Type) where
  queue : String
  envelope : Envelope
  idem : Option String
  notBefore : Option Int
  expiresAt : Option Int
  replyTo : Option String
  mid : String
  traceId : String

inductive PublishPhase (Envelope : Type) where
  | configuring (call : PublishCall Envelope)
  | checking (call : PublishCall Envelope) (config : QueueConfig)
  | publishing (call : PublishCall Envelope) (mode : QueueMode)
      (draft : Draft)
  | inserting (rec : MessageRecord)
  | rereading (rec : MessageRecord) (key : String)
  | returned (result : Except PublishError PublishReceipt)

section Codec

variable {Envelope : Type} (codec : Codec Envelope)

namespace PublishCall

variable (call : PublishCall Envelope)

def toMessage : NqMessage Envelope where
  mid := call.mid
  queue := call.queue
  traceId := call.traceId
  attempt := 0
  idem := call.idem
  envelope := call.envelope
  notBefore := call.notBefore
  expiresAt := call.expiresAt
  replyTo := call.replyTo

/-- Pubsub messages need no acknowledgement. -/
def initialStatus : QueueMode → Status
  | .workQueue => .pending
  | .pubsub => .acked

def toRecord (mode : QueueMode) (envelopeJson : String) (id : EventId)
    (now : Int) : MessageRecord where
  mid := call.mid
  queue := call.queue
  eventId := id.toHex
  traceId := call.traceId
  envelopeJson := envelopeJson
  status := initialStatus mode
  attempts := 0
  attemptFloor := 0
  idemKey := call.idem
  visibleAt := call.notBefore.getD 0
  expiresAt := call.expiresAt
  createdAt := now
  replyTo := call.replyTo

end PublishCall

def receiptOf (rec : MessageRecord) : PublishReceipt :=
  ⟨rec.mid, rec.traceId, rec.eventId⟩

namespace PublishPhase

def build (call : PublishCall Envelope) (config : QueueConfig) :
    PublishPhase Envelope :=
  match buildMessageEvent codec config.mode call.toMessage with
  | .error e => .returned (.error (.protocol e))
  | .ok draft => .publishing call config.mode draft

/-- A repeated idempotency key gets the first receipt. -/
def check (s : Store) (call : PublishCall Envelope) (config : QueueConfig) :
    PublishPhase Envelope :=
  match call.idem with
  | none => build codec call config
  | some key =>
      match s.findByIdem call.queue key with
      | .error e => .returned (.error (.store e))
      | .ok (some existing) => .returned (.ok (receiptOf existing))
      | .ok none => build codec call config

/-- `INSERT OR IGNORE`; an ignored row is looked for under its key. -/
def insert (s : Store) (rec : MessageRecord) : PublishPhase Envelope :=
  if (s.insertMessage rec).1 then .returned (.ok (receiptOf rec))
  else
    match rec.idemKey with
    | some key => .rereading rec key
    | none => .returned (.error (.notPersisted rec.mid))

def reread (s : Store) (rec : MessageRecord) (key : String) :
    PublishPhase Envelope :=
  match s.findByIdem rec.queue key with
  | .error e => .returned (.error (.store e))
  | .ok (some existing) => .returned (.ok (receiptOf existing))
  | .ok none => .returned (.error (.notPersisted rec.mid))

def proceed (s : Store) :
    PublishPhase Envelope → Option (Store × PublishPhase Envelope)
  | .configuring call =>
      match s.getQueue call.queue with
      | none => some (s, .returned (.error (.unknownQueue call.queue)))
      | some config => some (s, .checking call config)
  | .checking call config => some (s, check codec s call config)
  | .inserting rec => some ((s.insertMessage rec).2, insert s rec)
  | .rereading rec key => some (s, reread s rec key)
  | _ => none

def accepted (id : EventId) (now : Int) :
    PublishPhase Envelope → Option (PublishPhase Envelope)
  | .publishing call mode _ =>
      match codec.toJson call.envelope with
      | .error e => some (.returned (.error (.protocol (.badPayload e))))
      | .ok json => some (.inserting (call.toRecord mode json id now))
  | _ => none

def failed : PublishPhase Envelope → Option (PublishPhase Envelope)
  | .publishing _ _ _ => some (.returned (.error .transport))
  | _ => none

def storeCalls : PublishPhase Envelope → Nat
  | .inserting _ => 2
  | .rereading _ _ => 1
  | _ => 0

theorem insert_storeCalls (s : Store) (rec : MessageRecord) :
    (insert s rec : PublishPhase Envelope).storeCalls < 2 := by
  unfold insert
  split
  · exact Nat.zero_lt_two
  · split
    · exact Nat.one_lt_two
    · exact Nat.zero_lt_two

theorem reread_storeCalls (s : Store) (rec : MessageRecord) (key : String) :
    (reread s rec key : PublishPhase Envelope).storeCalls = 0 := by
  unfold reread
  split <;> rfl

end PublishPhase

/-! ## Ingesting -/

/-- The record an ingest loop stores for a message event. -/
def ingestRecord (event : Event) : Except ProtocolError MessageRecord :=
  (parseMessageEvent codec event).map fun msg => {
    mid := msg.mid
    queue := msg.queue
    eventId := event.id.toHex
    traceId := msg.traceId
    envelopeJson := (codec.toJson msg.envelope).toOption.getD "{}"
    status := .pending
    attempts := msg.attempt
    attemptFloor := 0
    idemKey := msg.idem
    visibleAt := msg.notBefore.getD 0
    expiresAt := msg.expiresAt
    createdAt := toI64 event.createdAt.val
    replyTo := msg.replyTo }

/-- A malformed event is skipped, a duplicate is ignored. -/
def ingest (s : Store) (event : Event) : Store :=
  match ingestRecord codec event with
  | .error _ => s
  | .ok rec => (s.insertMessage rec).2

end Codec

theorem ingestRecord_ok {Envelope : Type} {codec : Codec Envelope}
    {event : Event} {rec : MessageRecord}
    (h : ingestRecord codec event = .ok rec) :
    rec.status = .pending ∧ rec.attemptFloor = 0 ∧
      rec.createdAt = toI64 event.createdAt.val := by
  unfold ingestRecord at h
  cases hparse : parseMessageEvent codec event with
  | error e =>
      rw [hparse] at h
      contradiction
  | ok msg =>
      rw [hparse] at h
      cases h
      exact ⟨rfl, rfl, rfl⟩

/-! ## Publishing beside an ingest loop -/

structure Publishing (Envelope : Type) where
  store : Store
  phase : PublishPhase Envelope
  /-- The id of the event that the transport accepted. -/
  broadcast : Option EventId := none
  /-- The record, and the store its `INSERT` met. -/
  inserted : Option (Store × MessageRecord) := none
  /-- The store that the idempotency key was looked for in again. -/
  reread : Option Store := none

inductive PublishAction where
  | proceed
  | accepted (id : EventId) (now : Int)
  | failed
  | ingest (event : Event)
  | insert (rec : MessageRecord)
  | update (mid : String) (change : Progress → Progress)
  | expire (queue : String) (now : Int)
  | configure (queues : List QueueConfig)

/-- A row of the store shows what the receipt says. -/
def PublishReceipt.Backed (receipt : PublishReceipt) (s : Store) : Prop :=
  ∃ row, s.row? receipt.mid = some row ∧ row.traceId = receipt.traceId ∧
    row.eventId = receipt.eventId

namespace Publishing

variable {Envelope : Type} (codec : Codec Envelope)

def step (c : Publishing Envelope) :
    PublishAction → Option (Publishing Envelope)
  | .proceed =>
      (c.phase.proceed codec c.store).map fun (s, phase) =>
        { c with
          store := s
          phase := phase
          inserted := match c.phase with
            | .inserting rec => some (c.store, rec)
            | _ => c.inserted
          reread := match c.phase with
            | .rereading _ _ => some c.store
            | _ => c.reread }
  | .accepted id now =>
      (c.phase.accepted codec id now).map fun phase =>
        { c with phase := phase, broadcast := some id }
  | .failed => c.phase.failed.map fun phase => { c with phase := phase }
  | .ingest event => some { c with store := ingest codec c.store event }
  | .insert rec => some { c with store := (c.store.insertMessage rec).2 }
  | .update mid change => some { c with store := (c.store.update mid change).2 }
  | .expire queue now => some { c with store := (c.store.expireDue queue now).2 }
  | .configure queues => some { c with store := { c.store with queues := queues } }

def Called (c : Publishing Envelope) : Prop :=
  ∃ store call, c = { store := store, phase := .configuring call }

def system : System (Publishing Envelope) PublishAction where
  init := Called
  step := step codec

/--
The `INSERT` met no row with the record's message id, event id or key, or the
record has a key and the look-up found a row under it.
-/
def Survives (c : Publishing Envelope) : Prop :=
  ∃ s rec, c.inserted = some (s, rec) ∧
    ((∀ row ∈ s.messages.rows, ¬ row.Conflicts rec.toRow) ∨
      ∃ key ∈ rec.idemKey, ∃ s' ∈ c.reread, ∃ row ∈ s'.messages.rows,
        row.queue = rec.queue ∧ row.idemKey = some key)

/-! ### What the phases remember -/

def Traced (c : Publishing Envelope) : PublishPhase Envelope → Prop
  | .configuring _ => c.broadcast = none
  | .checking _ _ => c.broadcast = none
  | .publishing call _ _ =>
      c.broadcast = none ∧ ∃ json, codec.toJson call.envelope = .ok json
  | .inserting _ => True
  | .rereading rec key =>
      rec.idemKey = some key ∧ ∃ s, c.inserted = some (s, rec) ∧
        ∃ row ∈ s.messages.rows, row.Conflicts rec.toRow
  | .returned result =>
      (∀ receipt, result = .ok receipt → receipt.Backed c.store) ∧
        (c.broadcast ≠ none → (∀ e, result ≠ .error (.store e)) →
          ((∃ receipt, result = .ok receipt) ↔ c.Survives))

variable {codec} {c c' : Publishing Envelope}

private theorem Traced.others {s : Store} (h : Traced codec c c.phase)
    (hkeeps : c.store.Keeps s) :
    Traced codec { c with store := s } c.phase := by
  generalize c.phase = phase at h ⊢
  cases phase with
  | configuring call => exact h
  | checking call config => exact h
  | publishing call mode draft => exact h
  | inserting rec => exact h
  | rereading rec key => exact h
  | returned result =>
      refine ⟨fun receipt hresult => ?_, h.2⟩
      obtain ⟨row, hrow, htrace, hevent⟩ := h.1 receipt hresult
      obtain ⟨progress, hrow'⟩ := hkeeps _ _ hrow
      exact ⟨row.set progress, hrow', htrace, hevent⟩

private theorem backed_of_shows {s : Store} {row : Row} {rec : MessageRecord}
    (hrow : row ∈ s.messages.rows) (hshows : row.Shows rec) :
    (receiptOf rec).Backed s := by
  refine ⟨row, ?_, hshows.traceId.symm, hshows.eventId.symm⟩
  rw [receiptOf, hshows.mid]
  exact Messages.row?_of_mem hrow

private theorem traced_error {error : PublishError}
    (hnone : c.broadcast = none) :
    Traced codec c (.returned (.error error)) :=
  ⟨by simp, fun h => absurd hnone h⟩

private theorem Traced.build {call : PublishCall Envelope}
    {config : QueueConfig} (h : c.broadcast = none) :
    Traced codec c (PublishPhase.build codec call config) := by
  unfold PublishPhase.build buildMessageEvent
  cases hjson : codec.toJson call.toMessage.envelope with
  | error e => exact traced_error h
  | ok json => exact ⟨h, json, hjson⟩

private theorem Traced.check {call : PublishCall Envelope}
    {config : QueueConfig} (h : c.broadcast = none) :
    Traced codec c (PublishPhase.check codec c.store call config) := by
  unfold PublishPhase.check
  split
  · exact Traced.build h
  · split
    · exact traced_error h
    · next existing hfind =>
        obtain ⟨row, hrow, -, -, hshows⟩ := Store.findByIdem_some hfind
        refine ⟨fun receipt hreceipt => ?_, fun hne => absurd h hne⟩
        cases hreceipt
        exact backed_of_shows hrow hshows
    · exact Traced.build h

private theorem Traced.insert {rec : MessageRecord} :
    Traced codec { c with
      store := (c.store.insertMessage rec).2
      inserted := some (c.store, rec) } (PublishPhase.insert c.store rec) := by
  unfold PublishPhase.insert
  by_cases hinserted : (c.store.insertMessage rec).1 = true
  · rw [if_pos hinserted]
    refine ⟨fun receipt hreceipt => ?_, fun _ _ => ⟨fun _ => ?_, fun _ => ?_⟩⟩
    · cases hreceipt
      exact ⟨_, Store.insertMessage_row?_of_true hinserted, rfl, rfl⟩
    · exact ⟨_, _, rfl, Or.inl (Messages.insert_eq_true_iff.mp hinserted)⟩
    · exact ⟨_, rfl⟩
  · rw [if_neg hinserted]
    have hconflict := (Messages.insert_conflict
      (Bool.eq_false_iff.mpr hinserted)).2
    split
    · next key hkey => exact ⟨hkey, _, rfl, hconflict⟩
    · next hkey =>
        refine ⟨by simp, fun _ _ => ⟨by simp, ?_⟩⟩
        rintro ⟨s, rec', heq, hfree | ⟨key, hsome, -⟩⟩
        · cases heq
          obtain ⟨row, hrow, hbad⟩ := hconflict
          exact absurd hbad (hfree row hrow)
        · cases heq
          simp [hkey] at hsome

private theorem Traced.reread {rec : MessageRecord} {key : String}
    (h : Traced codec c (.rereading rec key)) :
    Traced codec { c with reread := some c.store }
      (PublishPhase.reread c.store rec key) := by
  obtain ⟨hkey, s, hinserted, row, hrow, hconflict⟩ := h
  unfold PublishPhase.reread
  split
  · next e _ => exact ⟨by simp, fun _ hne => absurd rfl (hne e)⟩
  · next existing hfind =>
      obtain ⟨found, hfound, hqueue, hidem, hshows⟩ :=
        Store.findByIdem_some hfind
      refine ⟨fun receipt hreceipt => ?_, fun _ _ => ⟨fun _ => ?_, fun _ => ?_⟩⟩
      · cases hreceipt
        exact backed_of_shows hfound hshows
      · exact ⟨s, rec, hinserted, Or.inr ⟨key, hkey, c.store, rfl, found,
          hfound, hqueue, hidem⟩⟩
      · exact ⟨_, rfl⟩
  · next hnone =>
      refine ⟨by simp, fun _ _ => ⟨by simp, ?_⟩⟩
      rintro ⟨s', rec', heq, hfree | ⟨key', hkey', s'', hs'', found, hfound,
        hqueue, hidem⟩⟩
      · cases hinserted.symm.trans heq
        exact absurd hconflict (hfree row hrow)
      · cases hinserted.symm.trans heq
        cases hs''
        cases hkey.symm.trans hkey'
        exact absurd ⟨hqueue, hidem⟩ (Store.findByIdem_none hnone found hfound)

private theorem Traced.proceed {c' : Publishing Envelope}
    (h : Traced codec c c.phase) (hs : step codec c .proceed = some c') :
    Traced codec c' c'.phase := by
  obtain ⟨⟨s, phase⟩, hproceed, rfl⟩ := Option.map_eq_some_iff.mp hs
  generalize hphase : c.phase = before at h hproceed
  unfold PublishPhase.proceed at hproceed
  split at hproceed
  · split at hproceed <;> cases hproceed
    · exact traced_error h
    · exact h
  · cases hproceed
    exact Traced.check h
  · cases hproceed
    exact Traced.insert
  · cases hproceed
    exact h.reread
  · contradiction

theorem Traced.step {a : PublishAction} (h : Traced codec c c.phase)
    (hs : step codec c a = some c') : Traced codec c' c'.phase := by
  cases a with
  | proceed => exact h.proceed hs
  | accepted id now =>
      obtain ⟨phase, haccepted, rfl⟩ := Option.map_eq_some_iff.mp hs
      unfold PublishPhase.accepted at haccepted
      split at haccepted
      · next hphase =>
          rw [hphase] at h
          obtain ⟨-, json, hjson⟩ := h
          rw [hjson] at haccepted
          cases haccepted
          trivial
      · contradiction
  | failed =>
      obtain ⟨phase, hfailed, rfl⟩ := Option.map_eq_some_iff.mp hs
      unfold PublishPhase.failed at hfailed
      split at hfailed
      · next hphase =>
          cases hfailed
          rw [hphase] at h
          exact traced_error h.1
      · contradiction
  | ingest event =>
      cases hs
      refine h.others ?_
      unfold Sdk.ingest
      split
      · exact Store.Keeps.refl _
      · exact Store.insertMessage_keeps _
  | insert rec =>
      cases hs
      exact h.others (Store.insertMessage_keeps rec)
  | update mid change =>
      cases hs
      exact h.others (Store.update_moves change).rewrites.keeps
  | expire queue now =>
      cases hs
      exact h.others (Store.expireDue_rewrites queue now).keeps
  | configure queues =>
      cases hs
      exact h.others (Store.Keeps.refl _)

theorem traced (h : (system codec).Reach System.Free c) :
    Traced codec c c.phase :=
  h.invariant (I := fun c => Traced codec c c.phase)
    (fun _ ⟨_, _, h₀⟩ => by
      subst h₀
      rfl)
    fun _ _ _ _ hi _ hs => hi.step hs

private theorem storeCalls_decrease (h : Traced codec c c.phase)
    (hbroadcast : c.broadcast ≠ none) :
    (∃ result, c.phase = .returned result) ∨
      ∃ c', step codec c .proceed = some c' ∧ c'.phase.storeCalls < c.phase.storeCalls := by
  cases hphase : c.phase with
  | configuring call =>
      rw [hphase] at h
      exact absurd h hbroadcast
  | checking call config =>
      rw [hphase] at h
      exact absurd h hbroadcast
  | publishing call mode draft =>
      rw [hphase] at h
      exact absurd h.1 hbroadcast
  | inserting rec =>
      refine Or.inr ⟨_, by simp only [step, hphase]; rfl, ?_⟩
      exact PublishPhase.insert_storeCalls c.store rec
  | rereading rec key =>
      refine Or.inr ⟨_, by simp only [step, hphase]; rfl, ?_⟩
      exact (PublishPhase.reread_storeCalls c.store rec key).trans_lt
        Nat.zero_lt_one
  | returned result => exact Or.inl ⟨result, rfl⟩

/--
Once the transport has accepted the event, the call has returned or its next
step brings it closer to that; and when no statement of it fails, it returns the
receipt of a stored row exactly if its record survives.
-/
theorem publish_backed_iff (h : (system codec).Reach System.Free c)
    (hbroadcast : c.broadcast ≠ none) :
    ((∃ result, c.phase = .returned result) ∨
      ∃ c', step codec c .proceed = some c' ∧ c'.phase.storeCalls < c.phase.storeCalls) ∧
    ∀ result, c.phase = .returned result →
      (∀ e, result ≠ .error (.store e)) →
      ((∃ receipt, result = .ok receipt ∧ receipt.Backed c.store) ↔
        c.Survives) := by
  refine ⟨storeCalls_decrease (traced h) hbroadcast, ?_⟩
  intro result hphase hsql
  obtain ⟨hbacked, hiff⟩ := hphase ▸ traced h
  rw [← hiff hbroadcast hsql]
  exact ⟨fun ⟨receipt, hresult, _⟩ => ⟨receipt, hresult⟩,
    fun ⟨receipt, hresult⟩ => ⟨receipt, hresult, hbacked receipt hresult⟩⟩

section Runs

def textCodec : Codec String where
  hashtag := id
  toJson := .ok
  fromJson := .ok

def sampleCall : PublishCall String where
  queue := "jobs"
  envelope := "{}"
  idem := none
  notBefore := none
  expiresAt := none
  replyTo := none
  mid := "m"
  traceId := "trace"

def sampleDraft : Draft where
  kind := KIND_MESSAGE
  content := "{}"
  tags := [["t", "jobs"], ["q", "jobs"], ["mode", "work_queue"], ["mid", "m"],
    ["trace", "trace"], ["attempt", "0"]]

def sampleId : EventId := hexOf 'e'

def sampleStart : Publishing String where
  store := { Store.empty with queues := [.workQueue "jobs"] }
  phase := .configuring sampleCall

def publishRun (before : List PublishAction) : List PublishAction :=
  [.proceed, .proceed, .accepted sampleId 0] ++ before ++ [.proceed]

theorem publish_backed_iff_alone :
    ∃ c : Publishing String, ∃ receipt, c.phase = .returned (.ok receipt) ∧
      receipt.Backed c.store ∧ c.Survives := by
  obtain ⟨c, hreach, htest⟩ :=
    (System.Reach.init (S := system textCodec) (P := System.Free)
      (s := sampleStart) ⟨_, _, rfl⟩).of_run_check
      (publishRun [])
      (fun c => match c.phase with
        | .returned (.ok _) => decide (c.broadcast = some sampleId)
        | _ => false) (by decide)
  split at htest
  · next receipt hphase =>
      have hbroadcast := of_decide_eq_true htest
      have hbacked := (hphase ▸ traced hreach).1 receipt rfl
      exact ⟨c, receipt, hphase, hbacked, ((publish_backed_iff hreach
        (by simp [hbroadcast])).2 _ hphase (by simp)).mp
          ⟨receipt, rfl, hbacked⟩⟩
  · contradiction

/--
The event is accepted and, before the publisher's `INSERT`, an ingest loop on
the same store has stored it: the call reports that the message is not
persisted, and its row is in the store.
-/
theorem ingested_first_not_persisted :
    buildMessageEvent textCodec .workQueue sampleCall.toMessage =
      .ok sampleDraft ∧
    ∃ c : Publishing String,
      (system textCodec).Reach System.Free c ∧
      c.broadcast = some sampleId ∧
      c.phase = .returned (.error (.notPersisted "m")) ∧
      ∃ row, c.store.row? "m" = some row ∧ row.eventId = sampleId.toHex := by
  refine ⟨rfl, ?_⟩
  obtain ⟨c, hreach, htest⟩ :=
    (System.Reach.init (S := system textCodec) (P := System.Free)
      (s := sampleStart) ⟨_, _, rfl⟩).of_run_check
      (publishRun
        [.ingest (sampleDraft.sign (hexOf '0') 0 sampleId)])
      (fun c => match c.phase with
        | .returned (.error (.notPersisted mid)) =>
            decide (mid = "m" ∧ c.broadcast = some sampleId ∧
              ∃ row ∈ c.store.row? "m", row.eventId = sampleId.toHex)
        | _ => false) (by decide)
  split at htest
  · next mid hphase =>
      obtain ⟨rfl, hbroadcast, row, hrow, hid⟩ := of_decide_eq_true htest
      exact ⟨c, hreach, hbroadcast, hphase, row, hrow, hid⟩
  · contradiction

end Runs

end Publishing

end NostrQ.Sdk
