import NostrQ.Foundation.Transition
import NostrQ.Sdk.Settle

/-!
# One node among others

One node, one message it has stored, and a world of others that posts events as
it likes.  At most one `try_claim` on the message runs at a time; acks and nacks
of it may overlap with it and with one another.
-/

namespace NostrQ.Lease

open NostrQ.Foundation NostrQ.Core NostrQ.Database NostrQ.Sdk

structure Party where
  key : PublicKey
  hashtag : String → String
  mid : String
  message : EventId

/--
`records` are the records of the message that were read from the store so far;
`claimsSeen` and `nacksSeen` are the relay as the last queries of the current
`try_claim` for claims and for nacks found it.
-/
structure World where
  time : Nat
  relay : Relay
  store : Store
  claiming : Option ClaimPhase
  settling : List SettlePhase
  records : List MessageRecord
  claimsSeen : Relay
  nacksSeen : Relay

inductive Move where
  | proceed
  | query
  | publish (createdAt : U64) (id : EventId)
  | lose (createdAt : U64) (id : EventId)
  | fail
  | drop

inductive Action where
  | advance (ms : Nat)
  | post (event : Event)
  | elsewhere (store : Store)
  | sweep (queue : String)
  | retry
  | read
  | tryClaim (record : MessageRecord) (leaseSeconds settleMs : U64)
  | ack
  | nack (reason : String)
  | claim (move : Move)
  | settle (index : Nat) (move : Move)

namespace Party

variable (party : Party)

def IsClaim (event : Event) : Prop :=
  event.pubkey = party.key ∧
    (claimFilter party.message).matchEvent event = true

instance (event : Event) : Decidable (party.IsClaim event) :=
  inferInstanceAs (Decidable (_ ∧ _))

def IsNack (event : Event) : Prop :=
  event.pubkey = party.key ∧
    (nackFilter party.message).matchEvent event = true

instance (event : Event) : Decidable (party.IsNack event) :=
  inferInstanceAs (Decidable (_ ∧ _))

/-- Only the node's own calls on the message publish such an event. -/
def Reserved (event : Event) : Prop :=
  party.IsClaim event ∨ party.IsNack event

instance (event : Event) : Decidable (party.Reserved event) :=
  inferInstanceAs (Decidable (_ ∨ _))

def nacked (relay : Relay) : U32 :=
  maxAttempt (relay.query (nackFilter party.message))

def claims (relay : Relay) : List ClaimInfo :=
  parseClaims (relay.query (claimFilter party.message))

def claimEvent (call : ClaimCall) (observed : U32) (createdAt : U64)
    (id : EventId) : Event :=
  (buildClaimEvent party.hashtag call.messageRef call.leaseExpiresAt
    (call.claimAttempt observed)).sign party.key createdAt id

end Party

def Idle : Option ClaimPhase → Prop
  | none => True
  | some (.returned _) => True
  | some _ => False

instance (claiming : Option ClaimPhase) : Decidable (Idle claiming) :=
  match claiming with
  | none => inferInstanceAs (Decidable True)
  | some (.returned _) => inferInstanceAs (Decidable True)
  | some (.entering _ _ _) => inferInstanceAs (Decidable False)
  | some (.expiring _ _) => inferInstanceAs (Decidable False)
  | some (.during _ _) => inferInstanceAs (Decidable False)

/-! ## Steps -/

namespace World

variable (party : Party) (w : World)

def accept (event : Event) : World :=
  { w with relay := w.relay ++ [⟨w.time, event⟩] }

def look : ClaimPhase → World
  | .during _ .surveyNacks => { w with nacksSeen := w.relay }
  | .during _ (.recheckNacks _ _) => { w with nacksSeen := w.relay }
  | .during _ (.surveyClaims _) => { w with claimsSeen := w.relay }
  | .during _ (.recheckClaims _) => { w with claimsSeen := w.relay }
  | _ => w

def claimed (createdAt : U64) (id : EventId) (phase : ClaimPhase)
    (next : Option ClaimPhase) : Option World :=
  (phase.publish? party.hashtag).bind fun draft =>
    next.map fun next =>
      { w.accept (draft.sign party.key createdAt id) with
        claiming := some next }

def claimStep (phase : ClaimPhase) : Move → Option World
  | .proceed =>
      (phase.proceed party.key w.store w.time).map fun (store, next) =>
        { w with store := store, claiming := some next }
  | .query =>
      phase.query?.bind fun filter =>
        (phase.answer party.key (w.relay.query filter)).map fun next =>
          { w.look phase with claiming := some next }
  | .publish createdAt id =>
      w.claimed party createdAt id phase (phase.accepted w.time)
  | .lose createdAt id => w.claimed party createdAt id phase phase.failed
  | .fail => phase.failed.map fun next => { w with claiming := some next }
  | .drop => some { w with claiming := none }

def settled (createdAt : U64) (id : EventId) (index : Nat)
    (phase : SettlePhase) (next : Option SettlePhase) : Option World :=
  (phase.publish? party.hashtag).bind fun draft =>
    next.map fun next =>
      { w.accept (draft.sign party.key createdAt id) with
        settling := w.settling.set index next }

def settleStep (index : Nat) (phase : SettlePhase) : Move → Option World
  | .proceed =>
      (phase.proceed w.store w.time).map fun (store, next) =>
        { w with store := store, settling := w.settling.set index next }
  | .query => none
  | .publish createdAt id =>
      w.settled party createdAt id index phase phase.accepted
  | .lose createdAt id => w.settled party createdAt id index phase phase.failed
  | .fail =>
      phase.failed.map fun next =>
        { w with settling := w.settling.set index next }
  | .drop => some { w with settling := w.settling.eraseIdx index }

def readRecord : Option World :=
  match w.store.getMessage party.mid with
  | .ok (some record) => some { w with records := w.records ++ [record] }
  | _ => none

def step : Action → Option World
  | .advance ms => some { w with time := w.time + ms }
  | .post event => if party.Reserved event then none else some (w.accept event)
  | .elsewhere store =>
      if ∀ row ∈ w.store.row? party.mid, store.row? party.mid = some row then
        some { w with store := store }
      else none
  | .sweep queue =>
      some { w with store := (w.store.expireDue queue (timestamp w.time)).2 }
  | .retry => some { w with store := (w.store.dlqRetry party.mid).2 }
  | .read => w.readRecord party
  | .tryClaim record leaseSeconds settleMs =>
      if Idle w.claiming ∧ Hex32.fromHex record.eventId = some party.message then
        some { w with
          claiming := some (.entering record leaseSeconds settleMs)
          claimsSeen := []
          nacksSeen := [] }
      else none
  | .ack => some { w with settling := w.settling ++ [.acking party.mid] }
  | .nack reason =>
      some { w with settling := w.settling ++ [.nacking party.mid reason] }
  | .claim move => w.claiming.bind fun phase => w.claimStep party phase move
  | .settle index move =>
      w.settling[index]?.bind fun phase => w.settleStep party index phase move

/-- The message is stored, and the node has not claimed or nacked it yet. -/
structure Untried : Prop where
  stored : ∃ row, w.store.row? party.mid = some row ∧
    Hex32.fromHex row.eventId = some party.message
  unclaimed : ∀ accepted ∈ w.relay, ¬ party.IsClaim accepted.event
  unnacked : ∀ accepted ∈ w.relay, ¬ party.IsNack accepted.event
  claiming : w.claiming = none
  settling : w.settling = []
  records : w.records = []
  claimsSeen : w.claimsSeen = []
  nacksSeen : w.nacksSeen = []

/-! ### What a step can be -/

inductive Claims (phase : ClaimPhase) : Move → World → Prop where
  | proceed {store : Store} {next : ClaimPhase} :
      ClaimPhase.Proceeds party.key w.store w.time phase store next →
      Claims phase .proceed { w with store := store, claiming := some next }
  | query {filter : Filter} {next : ClaimPhase} :
      phase.query? = some filter →
      ClaimPhase.Answers party.key (w.relay.query filter) phase next →
      Claims phase .query { w.look phase with claiming := some next }
  | publish {createdAt : U64} {id : EventId} {call : ClaimCall}
      {observed : U32} :
      phase = .during call (.contending observed) →
      Claims phase (.publish createdAt id)
        { w.accept (party.claimEvent call observed createdAt id) with
          claiming := some (.during call
            (.settling observed (w.time + call.settleMs.val))) }
  | lose {createdAt : U64} {id : EventId} {call : ClaimCall}
      {observed : U32} :
      phase = .during call (.contending observed) →
      Claims phase (.lose createdAt id)
        { w.accept (party.claimEvent call observed createdAt id) with
          claiming := some (.returned (.error .transport)) }
  | fail :
      Claims phase .fail
        { w with claiming := some (.returned (.error .transport)) }
  | drop : Claims phase .drop { w with claiming := none }

inductive Settles (index : Nat) (phase : SettlePhase) :
    Move → World → Prop where
  | proceed {store : Store} {next : SettlePhase} :
      SettlePhase.Proceeds w.store w.time phase store next →
      Settles index phase .proceed
        { w with store := store, settling := w.settling.set index next }
  | publish {createdAt : U64} {id : EventId} {draft : Draft}
      {next : SettlePhase} :
      phase.publish? party.hashtag = some draft →
      SettlePhase.Accepts phase next →
      Settles index phase (.publish createdAt id)
        { w.accept (draft.sign party.key createdAt id) with
          settling := w.settling.set index next }
  | lose {createdAt : U64} {id : EventId} {draft : Draft} :
      phase.publish? party.hashtag = some draft →
      Settles index phase (.lose createdAt id)
        { w.accept (draft.sign party.key createdAt id) with
          settling := w.settling.set index (.settled (.error .transport)) }
  | fail :
      Settles index phase .fail
        { w with
          settling := w.settling.set index (.settled (.error .transport)) }
  | drop :
      Settles index phase .drop
        { w with settling := w.settling.eraseIdx index }

inductive Step : Action → World → Prop where
  | advance {ms : Nat} : Step (.advance ms) { w with time := w.time + ms }
  | post {event : Event} :
      ¬ party.Reserved event → Step (.post event) (w.accept event)
  | elsewhere {store : Store} :
      (∀ row ∈ w.store.row? party.mid, store.row? party.mid = some row) →
      Step (.elsewhere store) { w with store := store }
  | sweep {queue : String} :
      Step (.sweep queue)
        { w with store := (w.store.expireDue queue (timestamp w.time)).2 }
  | retry : Step .retry { w with store := (w.store.dlqRetry party.mid).2 }
  | read {record : MessageRecord} :
      w.store.getMessage party.mid = .ok (some record) →
      Step .read { w with records := w.records ++ [record] }
  | tryClaim {record : MessageRecord} {leaseSeconds settleMs : U64} :
      Idle w.claiming → Hex32.fromHex record.eventId = some party.message →
      Step (.tryClaim record leaseSeconds settleMs)
        { w with
          claiming := some (.entering record leaseSeconds settleMs)
          claimsSeen := []
          nacksSeen := [] }
  | ack : Step .ack { w with settling := w.settling ++ [.acking party.mid] }
  | nack {reason : String} :
      Step (.nack reason)
        { w with settling := w.settling ++ [.nacking party.mid reason] }
  | claim {phase : ClaimPhase} {move : Move} {w' : World} :
      w.claiming = some phase → w.Claims party phase move w' →
      Step (.claim move) w'
  | settle {index : Nat} {phase : SettlePhase} {move : Move} {w' : World} :
      w.settling[index]? = some phase →
      w.Settles party index phase move w' → Step (.settle index move) w'

variable {party w} {w' : World}

private theorem claimStep_cases {phase : ClaimPhase} {move : Move}
    (h : w.claimStep party phase move = some w') :
    w.Claims party phase move w' := by
  cases move with
  | proceed =>
      obtain ⟨⟨store, next⟩, hproceed, rfl⟩ := Option.map_eq_some_iff.mp h
      exact .proceed (ClaimPhase.proceeds hproceed)
  | query =>
      obtain ⟨filter, hfilter, h⟩ := Option.bind_eq_some_iff.mp h
      obtain ⟨next, hanswer, rfl⟩ := Option.map_eq_some_iff.mp h
      exact .query hfilter (ClaimPhase.answers hanswer)
  | publish createdAt id =>
      obtain ⟨draft, hdraft, h⟩ := Option.bind_eq_some_iff.mp h
      obtain ⟨next, haccepted, rfl⟩ := Option.map_eq_some_iff.mp h
      obtain ⟨call, observed, rfl, rfl⟩ := ClaimPhase.publish?_cases hdraft
      cases haccepted
      exact .publish rfl
  | lose createdAt id =>
      obtain ⟨draft, hdraft, h⟩ := Option.bind_eq_some_iff.mp h
      obtain ⟨next, hfailed, rfl⟩ := Option.map_eq_some_iff.mp h
      obtain ⟨call, observed, rfl, rfl⟩ := ClaimPhase.publish?_cases hdraft
      rw [(ClaimPhase.failed_cases hfailed).2]
      exact .lose rfl
  | fail =>
      obtain ⟨next, hfailed, rfl⟩ := Option.map_eq_some_iff.mp h
      rw [(ClaimPhase.failed_cases hfailed).2]
      exact .fail
  | drop =>
      cases h
      exact .drop

private theorem settleStep_cases {index : Nat} {phase : SettlePhase}
    {move : Move} (h : w.settleStep party index phase move = some w') :
    w.Settles party index phase move w' := by
  cases move with
  | proceed =>
      obtain ⟨⟨store, next⟩, hproceed, rfl⟩ := Option.map_eq_some_iff.mp h
      exact .proceed (SettlePhase.proceeds hproceed)
  | query => contradiction
  | publish createdAt id =>
      obtain ⟨draft, hdraft, h⟩ := Option.bind_eq_some_iff.mp h
      obtain ⟨next, haccepted, rfl⟩ := Option.map_eq_some_iff.mp h
      exact .publish hdraft (SettlePhase.accepts haccepted)
  | lose createdAt id =>
      obtain ⟨draft, hdraft, h⟩ := Option.bind_eq_some_iff.mp h
      obtain ⟨next, hfailed, rfl⟩ := Option.map_eq_some_iff.mp h
      rw [SettlePhase.failed_cases hfailed]
      exact .lose hdraft
  | fail =>
      obtain ⟨next, hfailed, rfl⟩ := Option.map_eq_some_iff.mp h
      rw [SettlePhase.failed_cases hfailed]
      exact .fail
  | drop =>
      cases h
      exact .drop

theorem step_cases {action : Action} (h : w.step party action = some w') :
    w.Step party action w' := by
  cases action with
  | advance ms =>
      cases h
      exact .advance
  | post event =>
      simp only [step] at h
      split at h
      · contradiction
      · next hfree =>
          cases h
          exact .post hfree
  | elsewhere store =>
      simp only [step] at h
      split at h
      · next hrow =>
          cases h
          exact .elsewhere hrow
      · contradiction
  | sweep queue =>
      cases h
      exact .sweep
  | retry =>
      cases h
      exact .retry
  | read =>
      simp only [step, readRecord] at h
      split at h
      · next record hrecord =>
          cases h
          exact .read hrecord
      · contradiction
  | tryClaim record leaseSeconds settleMs =>
      simp only [step] at h
      split at h
      · next hguard =>
          cases h
          exact .tryClaim hguard.1 hguard.2
      · contradiction
  | ack =>
      cases h
      exact .ack
  | nack reason =>
      cases h
      exact .nack
  | claim move =>
      obtain ⟨phase, hphase, h⟩ := Option.bind_eq_some_iff.mp h
      exact .claim hphase (claimStep_cases h)
  | settle index move =>
      obtain ⟨phase, hphase, h⟩ := Option.bind_eq_some_iff.mp h
      exact .settle hphase (settleStep_cases h)

@[simp] theorem look_relay (phase : ClaimPhase) :
    (w.look phase).relay = w.relay := by
  unfold look
  split <;> rfl

@[simp] theorem look_store (phase : ClaimPhase) :
    (w.look phase).store = w.store := by
  unfold look
  split <;> rfl

@[simp] theorem look_records (phase : ClaimPhase) :
    (w.look phase).records = w.records := by
  unfold look
  split <;> rfl

@[simp] theorem look_settling (phase : ClaimPhase) :
    (w.look phase).settling = w.settling := by
  unfold look
  split <;> rfl

/-! ### What the claiming call does not notice -/

/-- The claiming call stands still, and no claim of the node is posted. -/
structure Aside (party : Party) (w w' : World) : Prop where
  time_le : w.time ≤ w'.time
  relay : ∃ more, w'.relay = w.relay ++ more ∧
    ∀ accepted ∈ more, ¬ party.IsClaim accepted.event
  claiming : w'.claiming = w.claiming
  claimsSeen : w'.claimsSeen = w.claimsSeen
  nacksSeen : w'.nacksSeen = w.nacksSeen

private theorem Aside.of_relay (htime : w.time ≤ w'.time)
    (hrelay : w'.relay = w.relay) (hclaiming : w'.claiming = w.claiming)
    (hclaims : w'.claimsSeen = w.claimsSeen)
    (hnacks : w'.nacksSeen = w.nacksSeen) : w.Aside party w' :=
  ⟨htime, ⟨[], by simp [hrelay]⟩, hclaiming, hclaims, hnacks⟩

private theorem Aside.of_accept {event : Event}
    (hevent : ¬ party.IsClaim event) (htime : w.time ≤ w'.time)
    (hrelay : w'.relay = (w.accept event).relay)
    (hclaiming : w'.claiming = w.claiming)
    (hclaims : w'.claimsSeen = w.claimsSeen)
    (hnacks : w'.nacksSeen = w.nacksSeen) : w.Aside party w' :=
  ⟨htime, ⟨_, hrelay, by simpa using hevent⟩, hclaiming, hclaims, hnacks⟩

theorem not_isClaim_of_settle {phase : SettlePhase} {draft : Draft}
    (h : phase.publish? party.hashtag = some draft) (createdAt : U64)
    (id : EventId) : ¬ party.IsClaim (draft.sign party.key createdAt id) :=
  fun hclaim => SettlePhase.publish?_kind h (claimFilter_kind hclaim.2)

theorem Settles.aside {index : Nat} {phase : SettlePhase} {move : Move}
    (h : w.Settles party index phase move w') : w.Aside party w' := by
  cases h with
  | proceed | fail | drop => exact .of_relay le_rfl rfl rfl rfl rfl
  | publish hdraft _ | lose hdraft =>
      exact .of_accept (not_isClaim_of_settle hdraft _ _) le_rfl rfl rfl rfl rfl

theorem Step.claiming_cases {action : Action}
    (h : w.Step party action w') :
    w.Aside party w' ∨
    (∃ record leaseSeconds settleMs,
      action = .tryClaim record leaseSeconds settleMs ∧ Idle w.claiming ∧
      Hex32.fromHex record.eventId = some party.message ∧
      w' = { w with
        claiming := some (.entering record leaseSeconds settleMs)
        claimsSeen := []
        nacksSeen := [] }) ∨
    ∃ phase move, action = .claim move ∧ w.claiming = some phase ∧
      w.Claims party phase move w' := by
  cases h with
  | advance => exact Or.inl (.of_relay (Nat.le_add_right _ _) rfl rfl rfl rfl)
  | post hfree =>
      exact Or.inl (.of_accept (fun hclaim => hfree (Or.inl hclaim)) le_rfl rfl
        rfl rfl rfl)
  | elsewhere | sweep | retry | read | ack | nack =>
      exact Or.inl (.of_relay le_rfl rfl rfl rfl rfl)
  | tryClaim hidle hhex => exact Or.inr (Or.inl ⟨_, _, _, rfl, hidle, hhex, rfl⟩)
  | claim hphase hclaims =>
      exact Or.inr (Or.inr ⟨_, _, rfl, hphase, hclaims⟩)
  | settle _ hsettles => exact Or.inl hsettles.aside

end World

namespace Party

variable (party : Party)

theorem nacked_le_of_prefix {before after : Relay} (h : before <+: after) :
    party.nacked before ≤ party.nacked after := by
  obtain ⟨more, rfl⟩ := h
  rw [nacked, nacked, Relay.query_append]
  exact maxAttempt_append_le _ _

theorem claims_append (first last : Relay) :
    party.claims (first ++ last) = party.claims first ++ party.claims last := by
  rw [claims, claims, claims, Relay.query_append, parseClaims_append]

variable {party}

theorem claims_claimEvent {call : ClaimCall}
    (hmessage : call.message = party.message)
    (hlease : InI64 call.leaseExpiresAt) (time : Nat) (observed : U32)
    (createdAt : U64) (id : EventId) :
    party.claims [⟨time, party.claimEvent call observed createdAt id⟩] =
      [⟨party.key, id, toI64 createdAt.val, call.leaseExpiresAt,
        call.claimAttempt observed⟩] := by
  have hmatch := claimFilter_build party.hashtag call.messageRef
    call.leaseExpiresAt (call.claimAttempt observed) party.key createdAt id
  rw [show call.messageRef.eventId = party.message from hmessage] at hmatch
  simp [claims, claimEvent, Relay.query, hmatch, parseClaims,
    parseClaimEvent_build party.hashtag call.messageRef hlease,
    Except.toOption]

@[simp] theorem eventAttempt_claimEvent (call : ClaimCall) (observed : U32)
    (createdAt : U64) (id : EventId) :
    eventAttempt (party.claimEvent call observed createdAt id) =
      call.claimAttempt observed :=
  eventAttempt_claim _ _ _ _ _ _ _

end Party

def system (party : Party) : System World Action where
  init := World.Untried party
  step := World.step party

section Runs

def sampleParty : Party := ⟨hexOf 'a', id, "m", hexOf 'e'⟩

def sampleWorld : World where
  time := 0
  relay := []
  store := (Store.empty.insertMessage sampleRecord).2
  claiming := none
  settling := []
  records := []
  claimsSeen := []
  nacksSeen := []

theorem sampleWorld_reach (P : World → Action → Prop) :
    (system sampleParty).Reach P sampleWorld := by
  refine .init ⟨⟨sampleRecord.toRow, rfl, ?_⟩, ?_, ?_, rfl, rfl, rfl, rfl, rfl⟩
  · decide
  · simp [sampleWorld]
  · simp [sampleWorld]

def claimMoves (leaseSeconds : U64) (id : EventId) : List Action :=
  [.tryClaim sampleRecord leaseSeconds 0, .claim .proceed, .claim .query,
    .claim .query, .claim .query, .claim (.publish 0 id), .claim .proceed,
    .claim .query, .claim .query]

end Runs

end NostrQ.Lease
