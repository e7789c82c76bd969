import NostrQ.Database.Decoding
import NostrQ.Foundation.FirstWins
import NostrQ.Sdk.Publish
import NostrQ.Sdk.TryClaim

/-!
# What an ingest loop stores

The loop keeps the first of the records that a unique index keeps apart, so the
order of delivery matters as soon as two different records conflict.  It takes
the queue of a message from the hashtag tag, not from the tag that carries the
queue's name unchanged.
-/

namespace NostrQ.Sdk

open NostrQ.Foundation NostrQ.Core NostrQ.Database

variable {Envelope : Type} (codec : Codec Envelope)

/-- `filterHashtag` is how a filter writes the name of a topic. -/
def messageFilter (filterHashtag : String → String) (topic : String) : Filter :=
  { kinds := [KIND_MESSAGE], hashtags := [filterHashtag topic] }

def ingestRow? (event : Event) : Option Row :=
  (ingestRecord codec event).toOption.map MessageRecord.toRow

def ingestAll (s : Store) (events : List Event) : Store :=
  events.foldl (ingest codec) s

/-! ## Delivery in any order -/

theorem rows_insert (m : Messages) (row : Row) :
    (m.insert row).1.rows = keep Row.Conflicts m.rows row := by
  cases hinserted : (m.insert row).2 with
  | true =>
      have hnone : ¬ ∃ stored ∈ m.rows, stored.Conflicts row := by
        simpa using Messages.insert_eq_true_iff.mp hinserted
      rw [Messages.rows_insert_of_true hinserted, keep, if_neg hnone]
  | false =>
      obtain ⟨hsame, hsome⟩ := Messages.insert_conflict hinserted
      rw [hsame, keep, if_pos hsome]

variable {codec}

theorem ingest_rows (s : Store) (event : Event) :
    (ingest codec s event).messages.rows =
      (ingestRow? codec event).elim s.messages.rows
        (keep Row.Conflicts s.messages.rows) := by
  unfold ingest ingestRow?
  cases ingestRecord codec event with
  | error e => rfl
  | ok rec => exact rows_insert _ _

theorem ingestAll_rows (s : Store) (events : List Event) :
    (ingestAll codec s events).messages.rows =
      (events.filterMap (ingestRow? codec)).foldl (keep Row.Conflicts)
        s.messages.rows := by
  unfold ingestAll
  induction events generalizing s with
  | nil => rfl
  | cons event rest ih =>
      rw [List.foldl_cons, ih, ingest_rows]
      cases hrow : ingestRow? codec event with
      | none => rw [List.filterMap_cons_none hrow, Option.elim_none]
      | some row => rw [List.filterMap_cons_some hrow, Option.elim_some,
          List.foldl_cons]

/--
Two deliveries of the same events, in any order and with any repetitions, leave
an empty store with the same rows if and only if no two different rows made of
the events share a message id, an event id or an idempotency key of a queue.
-/
theorem ingest_converges_iff (collection : List Event) :
    (∀ first second : List Event, (∀ event, event ∈ first ↔ event ∈ collection) →
      (∀ event, event ∈ second ↔ event ∈ collection) →
      ∀ row, row ∈ (ingestAll codec .empty first).messages.rows ↔
        row ∈ (ingestAll codec .empty second).messages.rows) ↔
    Agreeing Row.Conflicts (collection.filterMap (ingestRow? codec)) := by
  simp only [ingestAll_rows]
  exact converges_iff (fun _ _ => Row.Conflicts.symm) _ collection

section KeyShared

def keyedMessage (mid : String) (id : EventId) : Event :=
  { Publishing.sampleDraft with
    tags := [["t", "jobs"], ["q", "jobs"], ["mode", "work_queue"], ["mid", mid],
      ["trace", "trace"], ["attempt", "0"], ["idem", "order-42"]] }.sign
    (hexOf '0') 0 id

/-- Whoever sees the first message first does not store the second. -/
theorem key_shared_diverges :
    ∃ first second row,
      (∀ event, event ∈ [first, second] ↔ event ∈ [second, first]) ∧
      (∀ event ∈ [first, second],
        (messageFilter Publishing.textCodec.hashtag "jobs").matchEvent event =
          true) ∧
      row ∈ (ingestAll Publishing.textCodec .empty
        [first, second]).messages.rows ∧
      row ∉ (ingestAll Publishing.textCodec .empty
        [second, first]).messages.rows := by
  refine ⟨keyedMessage "m" (hexOf 'a'), keyedMessage "n" (hexOf 'b'),
    { sampleRecord with
      eventId := (hexOf 'a').toHex, idemKey := some "order-42" }.toRow,
    fun event => ?_, by decide, by decide, by decide⟩
  simp [or_comm]

end KeyShared

/-! ## Delivery to the queue a message was published to -/

/--
The message has a row under the queue it names, made of the event; and unless it
is delayed or limited in time, every batch of the queue that is large enough for
all its claimable rows contains it.
-/
structure Arrived (s : Store) (msg : NqMessage Envelope) (event : Event)
    (now : Int) : Prop where
  row : ∃ row ∈ s.messages.rows, row.eventId = event.id.toHex ∧
    row.mid = msg.mid ∧ row.queue = msg.queue
  fetched : msg.notBefore = none → msg.expiresAt = none →
    ∀ (scan : Scan Row) (limit : U32),
      (s.claimableRows msg.queue now).length ≤ limit.val →
      ∃ batch, s.claimable scan msg.queue now limit = .ok batch ∧
        ∃ rec ∈ batch, rec.mid = msg.mid

variable (codec) in
/-- The event is not stored, and nothing stored keeps its record out. -/
structure New (s : Store) (event : Event) : Prop where
  unseen : ∀ row ∈ s.messages.rows, row.eventId ≠ event.id.toHex
  admitted : ∀ rec, ingestRecord codec event = .ok rec →
    (s.insertMessage rec).1 = true

variable (codec) in
/-- What the queue's hashtag, the envelope and the stored counters must allow. -/
structure Deliverable (s : Store) (msg : NqMessage Envelope) (content : String)
    (now : Int) : Prop where
  hashtag : codec.hashtag msg.queue = msg.queue
  envelope : ∃ envelope, codec.fromJson content = .ok envelope
  counters : msg.notBefore = none → msg.expiresAt = none →
    (s.claimableRows msg.queue now).length + 1 < 4294967296 →
    ∀ row ∈ s.claimableRows msg.queue now, row.Decodes

section Delivery

variable {msg : NqMessage Envelope} {draft : Draft} {event : Event} {s : Store}
  {now : Int}

theorem messageFilter_matches {mode : QueueMode}
    {filterHashtag : String → String}
    (hconsistent : filterHashtag msg.queue = codec.hashtag msg.queue)
    (hdraft : buildMessageEvent codec mode msg = .ok draft) (key : PublicKey)
    (createdAt : U64) (id : EventId) :
    (messageFilter filterHashtag msg.queue).matchEvent
      (draft.sign key createdAt id) = true := by
  unfold buildMessageEvent at hdraft
  split at hdraft
  · contradiction
  · cases hdraft
    simp [messageFilter, Filter.matchEvent, matchTag, Draft.sign, hconsistent]

private theorem ingestRecord_build {mode : QueueMode}
    (hdraft : buildMessageEvent codec mode msg = .ok draft) (key : PublicKey)
    (createdAt : U64) (id : EventId) :
    (∃ envelope rec, codec.fromJson draft.content = .ok envelope ∧
      ingestRecord codec (draft.sign key createdAt id) = .ok rec ∧
      rec.mid = msg.mid ∧ rec.queue = codec.hashtag msg.queue ∧
      rec.eventId = id.toHex ∧ rec.status = .pending ∧
      (msg.notBefore = none → rec.visibleAt = 0) ∧
      (msg.expiresAt = none → rec.expiresAt = none)) ∨
    (∃ e error, codec.fromJson draft.content = .error e ∧
      ingestRecord codec (draft.sign key createdAt id) = .error error) := by
  have hparse := parseMessageEvent_build hdraft key createdAt id
  unfold ingestRecord
  rw [hparse]
  cases codec.fromJson draft.content with
  | error e => exact Or.inr ⟨e, _, rfl, rfl⟩
  | ok envelope =>
      refine Or.inl ⟨envelope, _, rfl, rfl, rfl, rfl, rfl, rfl, ?_, ?_⟩
      · intro h
        simp [h]
      · intro h
        simp [h]

private theorem ingest_new {rec : MessageRecord} (hnew : New codec s event)
    (hrec : ingestRecord codec event = .ok rec) :
    (ingest codec s event).messages.rows = s.messages.rows ++ [rec.toRow] := by
  unfold ingest
  rw [hrec]
  exact Messages.rows_insert_of_true (hnew.admitted rec hrec)

private theorem claimableRows_new {s' : Store} {row : Row}
    (hrows : s'.messages.rows = s.messages.rows ++ [row])
    (hclaimable : Store.Claimable msg.queue now row) :
    (s'.claimableRows msg.queue now).length =
        (s.claimableRows msg.queue now).length + 1 ∧
      ∀ other, other ∈ s'.claimableRows msg.queue now ↔
        other ∈ s.claimableRows msg.queue now ∨ other = row := by
  constructor
  · simp only [Store.claimableRows, hrows]
    rw [List.filter_append, List.length_append]
    simp [hclaimable]
  · intro other
    rw [Store.mem_claimableRows, Store.mem_claimableRows, hrows,
      List.mem_append, List.mem_singleton]
    constructor
    · rintro ⟨hold | rfl, hother⟩
      · exact Or.inl ⟨hold, hother⟩
      · exact Or.inr rfl
    · rintro (⟨hold, hother⟩ | rfl)
      · exact ⟨Or.inl hold, hother⟩
      · exact ⟨Or.inr rfl, hclaimable⟩

private theorem fresh_claimable {rec : MessageRecord} (time : Nat)
    (hqueue : rec.queue = msg.queue) (hstatus : rec.status = .pending)
    (hvisible : rec.visibleAt = 0) (hexpiry : rec.expiresAt = none) :
    Store.Claimable msg.queue (timestamp time) rec.toRow := by
  refine ⟨hqueue, Or.inl ⟨hstatus, ?_⟩, ?_⟩
  · change rec.visibleAt ≤ _
    rw [hvisible]
    exact Int.natCast_nonneg _
  · rintro ⟨expiry, hmem, -⟩
    rw [show rec.toRow.expiresAt = rec.expiresAt from rfl, hexpiry] at hmem
    contradiction

private theorem arrived_iff {mode : QueueMode}
    (hdraft : buildMessageEvent codec mode msg = .ok draft)
    (key : PublicKey) (createdAt : U64) (id : EventId)
    (hnew : New codec s (draft.sign key createdAt id)) (time : Nat) :
    Arrived (ingest codec s (draft.sign key createdAt id)) msg
        (draft.sign key createdAt id) (timestamp time) ↔
      Deliverable codec s msg draft.content (timestamp time) := by
  rcases ingestRecord_build hdraft key createdAt id with
    ⟨envelope, rec, henvelope, hrec, hmid, hqueue, hid, hstatus, hvisible,
      hexpiry⟩ | ⟨e, error, henvelope, hrec⟩
  · have hrows := ingest_new hnew hrec
    constructor
    · intro harrived
      obtain ⟨row, hrow, hrowid, -, hrowqueue⟩ := harrived.row
      have hhashtag : codec.hashtag msg.queue = msg.queue := by
        rw [hrows, List.mem_append, List.mem_singleton] at hrow
        rcases hrow with hold | rfl
        · exact absurd hrowid (hnew.unseen row hold)
        · exact hqueue.symm.trans hrowqueue
      refine ⟨hhashtag, ⟨envelope, henvelope⟩, fun hdelay hlimit hroom => ?_⟩
      have hclaimable := fresh_claimable time
        (hqueue.trans hhashtag) hstatus (hvisible hdelay) (hexpiry hlimit)
      obtain ⟨hlength, hmem⟩ := claimableRows_new hrows hclaimable
      obtain ⟨batch, hbatch, -⟩ :=
        harrived.fetched hdelay hlimit .stored ⟨_, hroom⟩ hlength.le
      intro other hother
      obtain ⟨found, -, hfound⟩ := Store.claimable_all hlength.le hbatch
        ((hmem other).mpr (Or.inl hother))
      exact Row.toMessage_isSome.mp (by rw [hfound]; rfl)
    · intro hdeliverable
      have hsame := hqueue.trans hdeliverable.hashtag
      have hnewrow : rec.toRow ∈
          (ingest codec s (draft.sign key createdAt id)).messages.rows := by
        simp [hrows]
      refine ⟨⟨rec.toRow, hnewrow, hid, hmid, hsame⟩,
        fun hdelay hlimit scan limit hlarge => ?_⟩
      have hclaimable := fresh_claimable time hsame hstatus
        (hvisible hdelay) (hexpiry hlimit)
      obtain ⟨hlength, hmem⟩ := claimableRows_new hrows hclaimable
      have hdecodes := hdeliverable.counters hdelay hlimit
        (hlength ▸ hlarge.trans_lt limit.isLt)
      obtain ⟨batch, hbatch⟩ := Store.claimable_ok scan limit fun row hrow =>
        ((hmem row).mp hrow).elim (hdecodes row) fun heq =>
          heq ▸ ⟨rec.attempts.isLt, rec.attemptFloor.isLt⟩
      obtain ⟨found, hfound, hdecode⟩ := Store.claimable_all hlarge hbatch
        ((hmem _).mpr (Or.inr rfl))
      refine ⟨batch, hbatch, found, hfound, ?_⟩
      rw [MessageRecord.toMessage_toRow, Option.some.injEq] at hdecode
      exact hdecode ▸ hmid
  · have hsame : ingest codec s (draft.sign key createdAt id) = s := by
      rw [ingest, hrec]
    rw [hsame]
    constructor
    · intro harrived
      obtain ⟨row, hrow, hrowid, -⟩ := harrived.row
      exact absurd hrowid (hnew.unseen row hrow)
    · intro hdeliverable
      obtain ⟨envelope, hok⟩ := hdeliverable.envelope
      rw [henvelope] at hok
      contradiction

/--
Where a filter writes a queue's name as the tag does, the event of a published
message reaches the queue's ingest loops.  Where it is new, it arrives in the
queue it was published to if and only if the hashtag tag writes the queue's name
unchanged, the envelope is read back, and the queue's other claimable rows
decode.
-/
theorem published_arrives_iff {filterHashtag : String → String}
    (hconsistent : filterHashtag msg.queue = codec.hashtag msg.queue)
    (hdraft : buildMessageEvent codec .workQueue msg = .ok draft)
    (key : PublicKey) (createdAt : U64) (id : EventId)
    (hnew : New codec s (draft.sign key createdAt id)) (time : Nat) :
    (messageFilter filterHashtag msg.queue).matchEvent
        (draft.sign key createdAt id) = true ∧
      (Arrived (ingest codec s (draft.sign key createdAt id)) msg
          (draft.sign key createdAt id) (timestamp time) ↔
        Deliverable codec s msg draft.content (timestamp time)) :=
  ⟨messageFilter_matches hconsistent hdraft key createdAt id,
    arrived_iff hdraft key createdAt id hnew time⟩

end Delivery

section HashtagCase

open Publishing

def lowerCodec : Codec String :=
  { textCodec with
    hashtag := fun text => String.ofList (text.toList.map Char.toLower) }

def capitalCall : PublishCall String :=
  { sampleCall with queue := "Jobs" }

def capitalDraft : Draft :=
  { sampleDraft with
    tags := [["t", "jobs"], ["q", "Jobs"], ["mode", "work_queue"], ["mid", "m"],
      ["trace", "trace"], ["attempt", "0"]] }

private theorem new_empty (codec : Codec Envelope) (event : Event) :
    New codec .empty event :=
  ⟨fun _ hrow => absurd hrow List.not_mem_nil, fun _ _ => rfl⟩

theorem published_arrives_lower_case :
    Arrived (ingest lowerCodec .empty (sampleDraft.sign (hexOf '0') 0 sampleId))
      sampleCall.toMessage (sampleDraft.sign (hexOf '0') 0 sampleId)
      (timestamp 1000) := by
  have hdraft : buildMessageEvent lowerCodec .workQueue sampleCall.toMessage =
      .ok sampleDraft := rfl
  have hnone : ∀ queue now, Store.empty.claimableRows queue now = [] :=
    fun _ _ => rfl
  have hconsistent : lowerCodec.hashtag sampleCall.toMessage.queue =
      lowerCodec.hashtag sampleCall.toMessage.queue := rfl
  refine (published_arrives_iff hconsistent hdraft (hexOf '0') 0 sampleId
    (new_empty lowerCodec _) 1000).2.mpr ⟨by decide, ⟨_, rfl⟩, ?_⟩
  intro _ _ _ row hrow
  rw [hnone] at hrow
  contradiction

/-- The publisher's queue is "Jobs", the ingested row's is "jobs". -/
theorem capital_queue_missed :
    buildMessageEvent lowerCodec .workQueue capitalCall.toMessage =
      .ok capitalDraft ∧
    ∃ s : Store,
      s = ingest lowerCodec .empty
        (capitalDraft.sign (hexOf '0') 0 sampleId) ∧
      (∃ row, s.row? "m" = some row ∧ row.queue = "jobs") ∧
      s.claimable .stored "Jobs" 1 1 = .ok [] ∧
      ¬ Arrived s capitalCall.toMessage
        (capitalDraft.sign (hexOf '0') 0 sampleId) 1 := by
  have hdraft : buildMessageEvent lowerCodec .workQueue capitalCall.toMessage =
      .ok capitalDraft := by decide
  refine ⟨hdraft, _, rfl, ⟨_, rfl, by decide⟩, by decide, fun harrived => ?_⟩
  obtain ⟨row, hrow, -, -, hqueue⟩ := harrived.row
  have hlower : ∀ row ∈ (ingest lowerCodec .empty
      (capitalDraft.sign (hexOf '0') 0 sampleId)).messages.rows,
      row.queue ≠ "Jobs" := by decide
  exact hlower row hrow hqueue

end HashtagCase

end NostrQ.Sdk
