import NostrQ.Lease.World

/-!
# A nack releases the node's claims

A lost claim may carry an attempt that the local counter has not reached: the
highest nack on the relay bounds it instead.  The next call that answers true
has seen that nack, and lifts the counter to it; so the counter of a won message
bounds all the node's claims, and a nack publishes the counter plus one.
-/

namespace NostrQ.Lease

open NostrQ.Foundation NostrQ.Core NostrQ.Database NostrQ.Sdk

def counter (s : Store) (mid : String) : Nat :=
  ((s.row? mid).map fun row => row.attempts).getD 0

theorem counter_of_row {s : Store} {mid : String} {row : Row}
    (h : s.row? mid = some row) : counter s mid = row.attempts := by
  rw [counter, h, Option.map_some, Option.getD_some]

theorem counter_le_of_climbs {s s' : Store} {mid : String}
    (h : s.Climbs s' mid) : counter s mid ≤ counter s' mid := by
  cases hrow : s.row? mid with
  | none => simp [counter, hrow]
  | some row =>
      obtain ⟨progress, hrow', hle⟩ := h row hrow
      rw [counter_of_row hrow, counter_of_row hrow']
      exact hle

def NackPending : SettlePhase → Prop
  | .nacking _ _ => True
  | .during _ (.configuring _) => True
  | .during _ (.counting _ _) => True
  | .during _ (.nackPublishing _ _ _) => True
  | _ => False

instance (phase : SettlePhase) : Decidable (NackPending phase) :=
  match phase with
  | .nacking _ _ => inferInstanceAs (Decidable True)
  | .during _ (.configuring _) => inferInstanceAs (Decidable True)
  | .during _ (.counting _ _) => inferInstanceAs (Decidable True)
  | .during _ (.nackPublishing _ _ _) => inferInstanceAs (Decidable True)
  | .during _ .ackPublishing => inferInstanceAs (Decidable False)
  | .during _ .ackAccepted => inferInstanceAs (Decidable False)
  | .during _ (.dlqPublishing _ _) => inferInstanceAs (Decidable False)
  | .during _ (.dlqAccepted _) => inferInstanceAs (Decidable False)
  | .during _ (.requeueing _ _) => inferInstanceAs (Decidable False)
  | .acking _ => inferInstanceAs (Decidable False)
  | .settled _ => inferInstanceAs (Decidable False)

/-! ## The runs -/

/--
A `try_claim` is given a record that was read from the store, and a nack is
begun when the latest `try_claim` has answered true.
-/
def NacksWon (w : World) : Action → Prop
  | .tryClaim record _ _ => record ∈ w.records
  | .nack _ => w.claiming = some (.returned (.ok true))
  | _ => True

instance (w : World) (action : Action) : Decidable (NacksWon w action) :=
  match action with
  | .tryClaim _ _ _ => inferInstanceAs (Decidable (_ ∈ _))
  | .nack _ => inferInstanceAs (Decidable (_ = _))
  | .advance _ | .post _ | .elsewhere _ | .sweep _ | .retry | .read | .ack
  | .claim _ | .settle _ _ => inferInstanceAs (Decidable True)

/-- Besides, no `try_claim` is begun while a nack has yet to be sent. -/
def NacksSent (w : World) : Action → Prop
  | .tryClaim record _ _ =>
      record ∈ w.records ∧ ∀ phase ∈ w.settling, ¬ NackPending phase
  | .nack _ => w.claiming = some (.returned (.ok true))
  | _ => True

instance (w : World) (action : Action) : Decidable (NacksSent w action) :=
  match action with
  | .tryClaim _ _ _ => inferInstanceAs (Decidable (_ ∧ _))
  | .nack _ => inferInstanceAs (Decidable (_ = _))
  | .advance _ | .post _ | .elsewhere _ | .sweep _ | .retry | .read | .ack
  | .claim _ | .settle _ _ => inferInstanceAs (Decidable True)

/-! ## The invariant -/

section Facts

variable (party : Party)

def Bounded (relay : Relay) (bound : Nat) : Prop :=
  ∀ accepted ∈ relay, party.IsClaim accepted.event →
    (eventAttempt accepted.event).val ≤ bound

structure WasRead (s : Store) (record : MessageRecord) : Prop where
  mid : record.mid = party.mid
  attempts_le : record.attempts.val ≤ counter s party.mid

variable (w : World)

/-- Since the survey for nacks, the node's claims stay below what it found. -/
def Surveyed (observed : U32) : Prop :=
  observed ≤ party.nacked w.relay ∧
    Bounded party w.relay (max (counter w.store party.mid) observed.val)

def ClaimBound : ClaimStage → Prop
  | .surveyClaims observed => Surveyed party w observed
  | .recognised winner =>
      Bounded party w.relay
        (max (counter w.store party.mid) winner.attempt.val)
  | .contending observed => Surveyed party w observed
  | .settling observed _ => Surveyed party w observed
  | .recheckClaims observed => Surveyed party w observed
  | .recheckNacks observed _ => Surveyed party w observed
  | .contendWon observed => Surveyed party w observed
  | _ => True

def ClaimFacts : ClaimPhase → Prop
  | .entering record _ _ =>
      WasRead party w.store record ∧
        Hex32.fromHex record.eventId = some party.message
  | .expiring _ _ => True
  | .during call stage =>
      WasRead party w.store call.record ∧ call.message = party.message ∧
        ClaimBound party w stage
  | .returned result =>
      result = .ok true →
        Bounded party w.relay (counter w.store party.mid)

def NackBound : SettleStage → Prop
  | .configuring _ => Bounded party w.relay (counter w.store party.mid)
  | .counting _ _ => Bounded party w.relay (counter w.store party.mid)
  | .nackPublishing _ _ attempts =>
      ∀ accepted ∈ w.relay, party.IsClaim accepted.event →
        eventAttempt accepted.event < attempts
  | _ => True

def SettleFacts : SettlePhase → Prop
  | .acking mid => mid = party.mid
  | .nacking mid _ =>
      mid = party.mid ∧ Bounded party w.relay (counter w.store party.mid)
  | .during call stage =>
      call.record.mid = party.mid ∧ call.message = party.message ∧
        NackBound party w stage
  | .settled _ => True

def Outranks (earlier later : Accepted) : Prop :=
  party.IsClaim earlier.event → party.IsNack later.event →
    eventAttempt earlier.event < eventAttempt later.event

instance (earlier later : Accepted) :
    Decidable (Outranks party earlier later) :=
  inferInstanceAs (Decidable (_ → _ → _))

structure Released : Prop where
  stored : ∃ row, w.store.row? party.mid = some row ∧
    Hex32.fromHex row.eventId = some party.message
  records : ∀ record ∈ w.records, WasRead party w.store record
  bounded : Bounded party w.relay
    (max (counter w.store party.mid) (party.nacked w.relay).val)
  claiming : ∀ phase, w.claiming = some phase → ClaimFacts party w phase
  settling : ∀ phase ∈ w.settling, SettleFacts party w phase
  apart : ∀ phase ∈ w.settling, NackPending phase → Idle w.claiming
  ordered : w.relay.Pairwise (Outranks party)

end Facts

section Steps

variable {party : Party} {w w' : World}

/-! ### What survives the steps of others -/

structure Rises (party : Party) (w w' : World) : Prop where
  climbs : w.store.Climbs w'.store party.mid
  relay : ∃ more, w'.relay = w.relay ++ more ∧
    ∀ accepted ∈ more, ¬ party.IsClaim accepted.event

theorem Bounded.mono {relay : Relay} {bound bound' : Nat}
    (h : Bounded party relay bound) (hle : bound ≤ bound') :
    Bounded party relay bound' :=
  fun accepted haccepted hclaim => (h accepted haccepted hclaim).trans hle

theorem Rises.counter_le (h : Rises party w w') :
    counter w.store party.mid ≤ counter w'.store party.mid :=
  counter_le_of_climbs h.climbs

theorem Rises.nacked_le (h : Rises party w w') :
    party.nacked w.relay ≤ party.nacked w'.relay := by
  obtain ⟨more, hmore, -⟩ := h.relay
  exact party.nacked_le_of_prefix ⟨more, hmore.symm⟩

theorem Rises.mem {accepted : Accepted} (h : Rises party w w')
    (hmem : accepted ∈ w'.relay) (hclaim : party.IsClaim accepted.event) :
    accepted ∈ w.relay := by
  obtain ⟨more, hmore, hquiet⟩ := h.relay
  rw [hmore] at hmem
  exact (List.mem_append.mp hmem).resolve_right
    fun hnew => hquiet accepted hnew hclaim

theorem Rises.bounded {bound bound' : Nat} (h : Rises party w w')
    (hb : Bounded party w.relay bound) (hle : bound ≤ bound') :
    Bounded party w'.relay bound' :=
  fun accepted haccepted hclaim =>
    (hb accepted (h.mem haccepted hclaim) hclaim).trans hle

theorem Rises.wasRead {record : MessageRecord} (h : Rises party w w')
    (hr : WasRead party w.store record) : WasRead party w'.store record :=
  ⟨hr.mid, hr.attempts_le.trans h.counter_le⟩

theorem Rises.surveyed {observed : U32} (h : Rises party w w')
    (hs : Surveyed party w observed) : Surveyed party w' observed :=
  ⟨hs.1.trans h.nacked_le, h.bounded hs.2 (max_le_max_right _ h.counter_le)⟩

theorem Rises.claimFacts {phase : ClaimPhase} (h : Rises party w w')
    (hfacts : ClaimFacts party w phase) : ClaimFacts party w' phase := by
  cases phase with
  | entering record _ _ => exact ⟨h.wasRead hfacts.1, hfacts.2⟩
  | expiring _ _ => trivial
  | during call stage =>
      obtain ⟨hrecord, hmessage, hbound⟩ := hfacts
      refine ⟨h.wasRead hrecord, hmessage, ?_⟩
      cases stage with
      | recognised _ => exact h.bounded hbound (max_le_max_right _ h.counter_le)
      | surveyClaims _ | contending _ | settling _ _ | recheckClaims _
      | recheckNacks _ _ | contendWon _ => exact h.surveyed hbound
      | terminalCheck | ackObserved | dlqObserved _ | surveyNacks => trivial
  | returned result => exact fun htrue => h.bounded (hfacts htrue) h.counter_le

theorem Rises.settleFacts {phase : SettlePhase} (h : Rises party w w')
    (hfacts : SettleFacts party w phase) : SettleFacts party w' phase := by
  cases phase with
  | acking _ => exact hfacts
  | nacking _ _ => exact ⟨hfacts.1, h.bounded hfacts.2 h.counter_le⟩
  | during call stage =>
      obtain ⟨hmid, hmessage, hbound⟩ := hfacts
      refine ⟨hmid, hmessage, ?_⟩
      cases stage with
      | configuring _ | counting _ _ => exact h.bounded hbound h.counter_le
      | nackPublishing _ _ _ =>
          exact fun accepted haccepted hclaim =>
            hbound accepted (h.mem haccepted hclaim) hclaim
      | ackPublishing | ackAccepted | dlqPublishing _ _ | dlqAccepted _
      | requeueing _ _ => trivial
  | settled _ => trivial

theorem Released.rises (h : Released party w) (hr : Rises party w w')
    (hrecords : ∀ record ∈ w'.records,
      record ∈ w.records ∨ WasRead party w'.store record)
    (hclaiming : ∀ phase, w'.claiming = some phase →
      w.claiming = some phase ∨ ClaimFacts party w' phase)
    (hsettling : ∀ phase ∈ w'.settling,
      phase ∈ w.settling ∨ SettleFacts party w' phase)
    (hapart : ∀ phase ∈ w'.settling, NackPending phase → Idle w'.claiming)
    (hordered : w'.relay.Pairwise (Outranks party)) : Released party w' where
  stored := by
    obtain ⟨row, hrow, hhex⟩ := h.stored
    obtain ⟨progress, hrow', -⟩ := hr.climbs row hrow
    exact ⟨row.set progress, hrow', hhex⟩
  records := fun record hrecord => (hrecords record hrecord).elim
    (fun hold => hr.wasRead (h.records record hold)) fun hnew => hnew
  bounded := hr.bounded h.bounded (max_le_max hr.counter_le hr.nacked_le)
  claiming := fun phase hphase => (hclaiming phase hphase).elim
    (fun hold => hr.claimFacts (h.claiming phase hold)) fun hnew => hnew
  settling := fun phase hphase => (hsettling phase hphase).elim
    (fun hold => hr.settleFacts (h.settling phase hold)) fun hnew => hnew
  apart := hapart
  ordered := hordered

private theorem ordered_concat {relay : Relay} {accepted : Accepted}
    (h : relay.Pairwise (Outranks party))
    (hnew : ∀ earlier ∈ relay, Outranks party earlier accepted) :
    (relay ++ [accepted]).Pairwise (Outranks party) :=
  List.pairwise_append.mpr ⟨h, List.pairwise_singleton _ _, by simpa using hnew⟩

private theorem outranks_of_not_isNack {earlier later : Accepted}
    (h : ¬ party.IsNack later.event) : Outranks party earlier later :=
  fun _ hnack => absurd hnack h

/-! ### Acks and nacks -/

private theorem Released.start (h : Released party w) {mid : String}
    {stage : SettleStage} (hmid : mid = party.mid)
    (hbound : NackBound party w stage) :
    SettleFacts party w (SettlePhase.start w.store mid stage) := by
  unfold SettlePhase.start
  split
  · trivial
  · next call hcall =>
      obtain ⟨row, hrow, hshows, hhex⟩ := messageRef_ok hcall
      obtain ⟨stored, hstored, hmessage⟩ := h.stored
      rw [hmid] at hrow
      cases hstored.symm.trans hrow
      refine ⟨?_, Option.some.inj (hhex.symm.trans hmessage), hbound⟩
      rw [hshows.mid, (Messages.row?_mem hrow).2]

private theorem Released.settleProceeds (h : Released party w)
    {phase next : SettlePhase} {store : Store}
    (hfacts : SettleFacts party w phase)
    (hp : SettlePhase.Proceeds w.store w.time phase store next)
    (settling : List SettlePhase) :
    SettleFacts party { w with store := store, settling := settling } next := by
  cases hp with
  | ack => exact h.start hfacts trivial
  | nack => exact h.start hfacts.1 hfacts.2
  | configure => exact hfacts
  | @count call reason config =>
      obtain ⟨hmid, hmessage, hbound⟩ := hfacts
      rcases SettlePhase.count_snd (s := w.store) call reason config with
        ⟨attempts, row, hrow, hattempts, heq⟩ | ⟨e, heq, -⟩ <;> rw [heq]
      · refine ⟨hmid, hmessage, fun accepted haccepted hclaim => ?_⟩
        have hle := hbound accepted haccepted hclaim
        rw [hmid] at hrow
        rw [counter_of_row hrow] at hle
        exact Fin.lt_def.mpr (by omega)
      · trivial
  | finish _ => trivial

private theorem pending_of_proceeds {phase next : SettlePhase}
    {s s' : Store} {time : Nat}
    (h : SettlePhase.Proceeds s time phase s' next) (hnext : NackPending next) :
    NackPending phase := by
  cases h with
  | @ack mid =>
      exfalso
      unfold SettlePhase.start at hnext
      split at hnext <;> exact hnext
  | nack | configure | count => trivial
  | finish _ => exact hnext.elim

private theorem pending_of_accepts {phase next : SettlePhase}
    (h : SettlePhase.Accepts phase next) (hnext : NackPending next) :
    NackPending phase := by
  cases h with
  | ack | dlq => exact hnext.elim
  | nack => trivial

private theorem SettleFacts.accepts {phase next : SettlePhase}
    (hfacts : SettleFacts party w phase)
    (h : SettlePhase.Accepts phase next) : SettleFacts party w next := by
  cases h with
  | ack | dlq => exact ⟨hfacts.1, hfacts.2.1, trivial⟩
  | nack =>
      unfold SettleCall.afterNack
      split <;> exact ⟨hfacts.1, hfacts.2.1, trivial⟩

private theorem SettleFacts.outranks {phase : SettlePhase} {draft : Draft}
    (hfacts : SettleFacts party w phase)
    (hdraft : phase.publish? party.hashtag = some draft) (createdAt : U64)
    (id : EventId) : ∀ earlier ∈ w.relay, Outranks party earlier
      ⟨w.time, draft.sign party.key createdAt id⟩ := by
  intro earlier hearlier
  unfold SettlePhase.publish? at hdraft
  split at hdraft
  · cases hdraft
    exact outranks_of_not_isNack fun hnack => by
      cases nackFilter_kind hnack.2
  · next call reason config attempts =>
      cases hdraft
      intro hclaim _
      rw [eventAttempt_nack]
      exact hfacts.2.2 earlier hearlier hclaim
  · cases hdraft
    exact outranks_of_not_isNack fun hnack => by
      cases nackFilter_kind hnack.2
  · contradiction

private theorem Released.settleTo (h : Released party w) {index : Nat}
    {phase next : SettlePhase} (hphase : w.settling[index]? = some phase)
    (hr : Rises party w w') (hrecords : w'.records = w.records)
    (hclaiming : w'.claiming = w.claiming)
    (hsettling : w'.settling = w.settling.set index next)
    (hnext : SettleFacts party w' next)
    (hpending : NackPending next → NackPending phase)
    (hordered : w'.relay.Pairwise (Outranks party)) : Released party w' := by
  refine h.rises hr (fun record hrecord => Or.inl (hrecords ▸ hrecord))
    (fun found hfound => Or.inl (hclaiming ▸ hfound)) ?_ ?_ hordered
  · intro found hfound
    rw [hsettling] at hfound
    rcases List.mem_or_eq_of_mem_set hfound with hold | rfl
    · exact Or.inl hold
    · exact Or.inr hnext
  · intro found hfound hfoundPending
    rw [hsettling] at hfound
    rw [hclaiming]
    rcases List.mem_or_eq_of_mem_set hfound with hold | rfl
    · exact h.apart found hold hfoundPending
    · exact h.apart phase (List.mem_of_getElem? hphase) (hpending hfoundPending)

private theorem Rises.accept {event : Event}
    (hevent : ¬ party.IsClaim event) (hstore : w'.store = w.store)
    (hrelay : w'.relay = (w.accept event).relay) : Rises party w w' :=
  ⟨hstore ▸ Store.Climbs.refl _ _, _, hrelay, by simpa using hevent⟩

private theorem Rises.of_store
    (hstore : w.store.Climbs w'.store party.mid)
    (hrelay : w'.relay = w.relay) : Rises party w w' :=
  ⟨hstore, [], by simp [hrelay]⟩

theorem Released.settles (h : Released party w) {index : Nat}
    {phase : SettlePhase} {move : Move}
    (hphase : w.settling[index]? = some phase)
    (hs : w.Settles party index phase move w') : Released party w' := by
  have hfacts := h.settling phase (List.mem_of_getElem? hphase)
  cases hs with
  | proceed hproceeds =>
      exact h.settleTo hphase
        (.of_store (hproceeds.rewrites.climbs hproceeds.raises _) rfl) rfl rfl rfl
        (h.settleProceeds hfacts hproceeds _) (pending_of_proceeds hproceeds)
        h.ordered
  | publish hdraft haccepts =>
      refine h.settleTo hphase ?_ rfl rfl rfl ?_ (pending_of_accepts haccepts)
        (ordered_concat h.ordered (hfacts.outranks hdraft _ _))
      · exact .accept (World.not_isClaim_of_settle hdraft _ _) rfl rfl
      · refine Rises.settleFacts ?_ (hfacts.accepts haccepts)
        exact .accept (World.not_isClaim_of_settle hdraft _ _) rfl rfl
  | lose hdraft =>
      exact h.settleTo hphase
        (.accept (World.not_isClaim_of_settle hdraft _ _) rfl rfl) rfl rfl rfl
        trivial (fun hfalse => hfalse.elim)
        (ordered_concat h.ordered (hfacts.outranks hdraft _ _))
  | fail =>
      exact h.settleTo hphase (.of_store (Store.Climbs.refl _ _) rfl) rfl rfl rfl
        trivial (fun hfalse => hfalse.elim) h.ordered
  | drop =>
      exact h.rises (.of_store (Store.Climbs.refl _ _) rfl)
        (fun _ hrecord => Or.inl hrecord) (fun _ hclaiming => Or.inl hclaiming)
        (fun _ hmem => Or.inl (List.mem_of_mem_eraseIdx hmem))
        (fun found hmem => h.apart found (List.mem_of_mem_eraseIdx hmem))
        h.ordered

/-! ### The claiming call -/

private theorem counter_claim {s s' : Store} {mid consumer : String}
    {lease : Int} {attempt : U32}
    (hmoves : s.Moves s' mid fun p => p.claim consumer lease attempt)
    (hrow : ∃ row, s.row? mid = some row) :
    counter s' mid = max (counter s mid) attempt.val := by
  obtain ⟨row, hrow⟩ := hrow
  rw [counter_of_row hrow, counter_of_row (hmoves.row hrow)]
  rfl

private theorem Released.claimProceeds {phase next : ClaimPhase} {store : Store}
    (hfacts : ClaimFacts party w phase)
    (hp : ClaimPhase.Proceeds party.key w.store w.time phase store next)
    (claiming : Option ClaimPhase) :
    ClaimFacts party { w with store := store, claiming := claiming } next := by
  cases hp with
  | @enter record leaseSeconds settleMs =>
      obtain ⟨hrecord, hhex⟩ := hfacts
      rcases ClaimPhase.enter_cases record leaseSeconds settleMs
          (timestamp w.time) with
        ⟨heq, -⟩ | ⟨heq, -⟩ | ⟨message, hmessage, heq⟩ <;> rw [heq]
      · trivial
      · exact fun htrue => by contradiction
      · exact ⟨hrecord, Option.some.inj (hmessage.symm.trans hhex), trivial⟩
  | expire => exact fun htrue => by contradiction
  | wake _ => exact hfacts
  | @finish call stage store result hfinish =>
      intro htrue
      obtain ⟨hrecord, -, hbound⟩ := hfacts
      -- a win lifts the counter to the attempt of the claim that won
      cases ClaimPhase.finishes hfinish with
      | acked _ hne | buried _ hne => exact absurd htrue hne
      | recognised hmoves hrow =>
          have hcounter := counter_claim hmoves (hrow htrue)
          rw [hrecord.mid] at hcounter
          exact hbound.mono hcounter.ge
      | @contendWon observed _ hmoves hrow =>
          have hcounter := counter_claim hmoves (hrow htrue)
          rw [hrecord.mid] at hcounter
          have hle : observed.val ≤ (call.claimAttempt observed).val :=
            Fin.le_def.mp (le_max_right _ _)
          exact hbound.2.mono ((max_le_max_left _ hle).trans hcounter.ge)

private theorem Released.claimAnswers (h : Released party w)
    {phase next : ClaimPhase} {filter : Filter}
    (hfacts : ClaimFacts party w phase) (hfilter : phase.query? = some filter)
    (ha : ClaimPhase.Answers party.key (w.relay.query filter) phase next) :
    ClaimFacts party w next := by
  cases ha with
  | @terminal call =>
      rcases call.afterTerminal_cases (w.relay.query filter) with
        ⟨heq, -⟩ | ⟨heq, -⟩ | ⟨heq, -⟩ <;> rw [heq] <;>
        exact ⟨hfacts.1, hfacts.2.1, trivial⟩
  | nacks =>
      cases hfilter
      obtain ⟨hrecord, hmessage, -⟩ := hfacts
      rw [hmessage]
      exact ⟨hrecord, hmessage, le_rfl, h.bounded⟩
  | @claims call observed =>
      obtain ⟨hrecord, hmessage, hsurveyed⟩ := hfacts
      rcases call.afterSurvey_cases party.key observed
        (parseClaims (w.relay.query filter)) with
          ⟨winner, hwinner, -, heq⟩ | ⟨_, -, -, heq⟩ | ⟨-, heq⟩ <;> rw [heq]
      · exact ⟨hrecord, hmessage, hsurveyed.2.mono
          (max_le_max_left _ (claimWinner_mem hwinner).2.2)⟩
      · exact fun htrue => by contradiction
      · exact ⟨hrecord, hmessage, hsurveyed⟩
  | recheckClaims => exact hfacts
  | @recheckNacks call observed claims =>
      rcases call.afterRecheck_cases party.key observed claims
        (w.relay.query filter) with ⟨_, -, -, heq⟩ | ⟨-, heq⟩ <;> rw [heq]
      · exact hfacts
      · exact fun htrue => by contradiction

private theorem Released.claimTo (h : Released party w)
    {next : Option ClaimPhase} (hr : Rises party w w')
    (hrecords : w'.records = w.records) (hclaiming : w'.claiming = next)
    (hsettling : w'.settling = w.settling)
    (hidle : Idle w.claiming → Idle next)
    (hnext : ∀ phase, next = some phase → ClaimFacts party w' phase)
    (hordered : w'.relay.Pairwise (Outranks party)) : Released party w' := by
  subst hclaiming
  refine h.rises hr (fun record hrecord => Or.inl (hrecords ▸ hrecord))
    (fun phase hphase => Or.inr (hnext phase hphase))
    (fun phase hphase => Or.inl (hsettling ▸ hphase)) ?_ hordered
  intro phase hphase hpending
  rw [hsettling] at hphase
  exact hidle (h.apart phase hphase hpending)

private theorem SettleFacts.of_not_pending {phase : SettlePhase}
    (hfacts : SettleFacts party w phase) (h : ¬ NackPending phase) :
    SettleFacts party w' phase := by
  cases phase with
  | acking _ => exact hfacts
  | nacking _ _ => exact absurd trivial h
  | during call stage =>
      refine ⟨hfacts.1, hfacts.2.1, ?_⟩
      cases stage with
      | configuring _ | counting _ _ | nackPublishing _ _ _ =>
          exact absurd trivial h
      | ackPublishing | ackAccepted | dlqPublishing _ _ | dlqAccepted _
      | requeueing _ _ => trivial
  | settled _ => trivial

private theorem Bounded.concat {relay : Relay} {accepted : Accepted}
    {bound : Nat} (h : Bounded party relay bound)
    (hnew : (eventAttempt accepted.event).val ≤ bound) :
    Bounded party (relay ++ [accepted]) bound := by
  intro found hfound hclaim
  rcases List.mem_append.mp hfound with hold | hlast
  · exact h found hold hclaim
  · rw [List.mem_singleton.mp hlast]
    exact hnew

/-- No nack is pending when a claim is posted, so only its bound counts. -/
private theorem Released.claimed (h : Released party w) {call : ClaimCall}
    {observed : U32} {next : ClaimPhase}
    (hphase : w.claiming = some (.during call (.contending observed)))
    (createdAt : U64) (id : EventId)
    (hw' : w' = { w.accept (party.claimEvent call observed createdAt id) with claiming := some next })
    (hnext : WasRead party w'.store call.record →
      call.message = party.message → Surveyed party w' observed →
      ClaimFacts party w' next) : Released party w' := by
  obtain ⟨hrecord, hmessage, hle, hbound⟩ := h.claiming _ hphase
  -- the call is under way, so nothing of the settling calls rests on a bound
  have hapart : ∀ phase ∈ w.settling, ¬ NackPending phase := by
    intro phase hmem hpending
    have hidle := h.apart phase hmem hpending
    rw [hphase] at hidle
    exact hidle
  have hattempt : (call.claimAttempt observed).val ≤
      max (counter w.store party.mid) observed.val := by
    rw [ClaimCall.claimAttempt, (Monotone.map_max (f := Fin.val) fun _ _ h => h)]
    exact max_le_max_right _ hrecord.attempts_le
  subst hw'
  have hnacked := party.nacked_le_of_prefix (List.prefix_append w.relay
    [⟨w.time, party.claimEvent call observed createdAt id⟩])
  have hconcat : ∀ bound, Bounded party w.relay bound →
      max (counter w.store party.mid) observed.val ≤ bound →
      Bounded party (w.accept (party.claimEvent call observed createdAt id)).relay bound := by
    intro bound hold hge
    refine hold.concat ?_
    rw [Party.eventAttempt_claimEvent]
    exact hattempt.trans hge
  exact {
    stored := h.stored
    records := h.records
    bounded := hconcat _
      (h.bounded.mono (max_le_max_left _ (Fin.le_def.mp hnacked)))
      (max_le_max_left _ (Fin.le_def.mp (hle.trans hnacked)))
    claiming := fun phase hphase' => by
      cases hphase'
      exact hnext hrecord hmessage ⟨hle.trans hnacked, hconcat _ hbound le_rfl⟩
    settling := fun phase hmem =>
      (h.settling phase hmem).of_not_pending (hapart phase hmem)
    apart := fun phase hmem hpending => absurd hpending (hapart phase hmem)
    ordered := ordered_concat h.ordered fun _ _ =>
      outranks_of_not_isNack fun hnack => by cases nackFilter_kind hnack.2 }

theorem Released.claims (h : Released party w) {phase : ClaimPhase}
    {move : Move} (hphase : w.claiming = some phase)
    (hc : w.Claims party phase move w') : Released party w' := by
  have hfacts := h.claiming phase hphase
  cases hc with
  | @proceed store next hproceeds =>
      refine h.claimTo (.of_store (hproceeds.rewrites.climbs hproceeds.raises _)
        rfl) rfl rfl rfl ?_ ?_ h.ordered
      · rw [hphase]
        intro hidle
        cases hproceeds <;> exact hidle.elim
      · intro found hfound
        cases hfound
        exact Released.claimProceeds hfacts hproceeds _
  | @query filter next hfilter hanswers =>
      have hr : Rises party w { w.look phase with claiming := some next } :=
        .of_store (by simpa using Store.Climbs.refl _ _) (World.look_relay phase)
      refine h.claimTo hr (World.look_records phase) rfl
        (World.look_settling phase) ?_ ?_ (by simpa using h.ordered)
      · rw [hphase]
        intro hidle
        cases hanswers <;> exact hidle.elim
      · intro found hfound
        cases hfound
        exact hr.claimFacts (h.claimAnswers hfacts hfilter hanswers)
  | publish heq =>
      subst heq
      exact h.claimed hphase _ _ rfl fun hrecord hmessage hsurveyed =>
        ⟨hrecord, hmessage, hsurveyed⟩
  | lose heq =>
      subst heq
      exact h.claimed hphase _ _ rfl fun _ _ _ htrue => by contradiction
  | fail =>
      refine h.claimTo (.of_store (Store.Climbs.refl _ _) rfl) rfl rfl rfl
        (fun _ => trivial) ?_ h.ordered
      intro found hfound
      cases hfound
      exact fun htrue => by contradiction
  | drop =>
      exact h.claimTo (.of_store (Store.Climbs.refl _ _) rfl) rfl rfl rfl
        (fun _ => trivial) (fun _ hfound => by contradiction) h.ordered

private theorem Released.frame (h : Released party w) (hr : Rises party w w')
    (hrecords : w'.records = w.records) (hclaiming : w'.claiming = w.claiming)
    (hsettling : w'.settling = w.settling)
    (hordered : w'.relay.Pairwise (Outranks party)) : Released party w' :=
  h.claimTo hr hrecords hclaiming hsettling (fun hidle => hidle)
    (fun phase hphase => hr.claimFacts (h.claiming phase hphase)) hordered

theorem Released.step {action : Action} (h : Released party w)
    (horderly : NacksSent w action) (hs : w.step party action = some w') :
    Released party w' := by
  have hself := Store.Climbs.refl w.store party.mid
  cases World.step_cases hs with
  | advance => exact h.frame (.of_store hself rfl) rfl rfl rfl h.ordered
  | post hfree =>
      exact h.frame (.accept (fun hclaim => hfree (Or.inl hclaim)) rfl rfl) rfl rfl
        rfl (ordered_concat h.ordered fun _ _ =>
          outranks_of_not_isNack fun hnack => hfree (Or.inr hnack))
  | elsewhere hrow =>
      have hclimbs : w.store.Climbs _ party.mid := fun row hstored =>
        ⟨row.toProgress, hrow row hstored, le_rfl⟩
      exact h.frame (.of_store hclimbs rfl) rfl rfl rfl h.ordered
  | sweep =>
      exact h.frame (.of_store (Store.expireDue_climbs _ _ _) rfl) rfl rfl rfl
        h.ordered
  | retry =>
      exact h.frame (.of_store (Store.dlqRetry_climbs _ _) rfl) rfl rfl rfl
        h.ordered
  | @read record hread =>
      have hr : Rises party w { w with records := w.records ++ [record] } :=
        .of_store hself rfl
      refine h.rises hr ?_ (fun _ hphase => Or.inl hphase)
        (fun _ hphase => Or.inl hphase) h.apart h.ordered
      intro found hfound
      rcases List.mem_append.mp hfound with hold | hlast
      · exact Or.inl hold
      · obtain ⟨row, hrow, hshows⟩ := Store.getMessage_shows hread
        rw [List.mem_singleton.mp hlast]
        refine Or.inr ⟨hshows.mid.trans (Messages.row?_mem hrow).2, ?_⟩
        rw [counter_of_row hrow, hshows.attempts]
  | tryClaim _ hhex =>
      obtain ⟨hrecord, hsent⟩ := horderly
      refine h.rises (.of_store hself rfl) (fun _ hold => Or.inl hold) ?_
        (fun _ hphase => Or.inl hphase)
        (fun phase hmem hpending => absurd hpending (hsent phase hmem)) h.ordered
      intro phase hphase
      cases hphase
      exact Or.inr ⟨h.records _ hrecord, hhex⟩
  | ack =>
      refine h.rises (.of_store hself rfl) (fun _ hold => Or.inl hold)
        (fun _ hphase => Or.inl hphase) ?_ ?_ h.ordered
      · intro phase hmem
        refine (List.mem_append.mp hmem).imp_right fun hlast => ?_
        rw [List.mem_singleton.mp hlast]
        rfl
      · intro phase hmem hpending
        rcases List.mem_append.mp hmem with hold | hlast
        · exact h.apart phase hold hpending
        · rw [List.mem_singleton.mp hlast] at hpending
          exact hpending.elim
  | nack =>
      have hwon : w.claiming = some (.returned (.ok true)) := horderly
      refine h.rises (.of_store hself rfl) (fun _ hold => Or.inl hold)
        (fun _ hphase => Or.inl hphase) ?_ ?_ h.ordered
      · intro phase hmem
        refine (List.mem_append.mp hmem).imp_right fun hlast => ?_
        rw [List.mem_singleton.mp hlast]
        exact ⟨rfl, h.claiming _ hwon rfl⟩
      · intro _ _ _
        rw [hwon]
        trivial
  | claim hphase hclaims => exact h.claims hphase hclaims
  | settle hphase hsettles => exact h.settles hphase hsettles

theorem released (h : (system party).Reach NacksSent w) : Released party w :=
  h.invariant (I := Released party)
    (fun w h₀ => {
      stored := h₀.stored
      records := by simp [h₀.records]
      bounded := fun accepted hmem hclaim =>
        absurd hclaim (h₀.unclaimed accepted hmem)
      claiming := by simp [h₀.claiming]
      settling := by simp [h₀.settling]
      apart := by simp [h₀.settling]
      ordered := List.pairwise_of_forall_mem_list fun earlier hmem _ _ hclaim =>
        absurd hclaim (h₀.unclaimed earlier hmem) })
    fun _ _ _ _ hi hp hs => hi.step hp hs

/--
Of two events of the node, a claim and a later nack, the nack carries the higher
attempt; so no survey that has seen the nack elects the claim, however long its
lease.
-/
theorem nack_releases_claims (h : (system party).Reach NacksSent w) :
    w.relay.Pairwise fun earlier later =>
      party.IsClaim earlier.event → party.IsNack later.event →
        eventAttempt earlier.event < eventAttempt later.event ∧
        ∀ claims nacks generation now c, later.event ∈ nacks →
          maxAttempt nacks ≤ generation →
          parseClaimEvent earlier.event = .ok c →
          claimWinner claims generation now ≠ some c := by
  refine (released h).ordered.imp fun houtranks hclaim hnack => ?_
  have hlt := houtranks hclaim hnack
  refine ⟨hlt, fun claims nacks generation now c hseen hle hparse hwinner => ?_⟩
  have helected := (claimWinner_mem hwinner).2.2
  rw [(parseClaimEvent_ok hparse).2.2] at helected
  exact absurd (((le_maxAttempt hseen).trans hle).trans helected)
    (not_le.mpr hlt)

end Steps

section Runs

def nackMoves : List Action :=
  [.claim .proceed, .nack "failed", .settle 0 .proceed, .settle 0 .proceed,
    .settle 0 .proceed]

def countedRecord : MessageRecord :=
  { sampleRecord with status := .claimed, attempts := 1 }

/-- The next claim is published before the nack is. -/
def overtakingMoves : List Action :=
  [.advance 2000, .read, .tryClaim countedRecord 60 0, .claim .proceed,
    .claim .query, .claim .query, .claim .query,
    .claim (.publish 0 (hexOf '2')), .settle 0 (.publish 0 (hexOf '3'))]

def holdsPair (relay : Relay) : Bool :=
  match relay with
  | [earlier, later] =>
      decide (sampleParty.IsClaim earlier.event ∧
        sampleParty.IsNack later.event)
  | _ => false

theorem nack_releases_claims_first :
    ∃ w earlier later, (system sampleParty).Reach NacksSent w ∧
      w.relay = [earlier, later] ∧ sampleParty.IsClaim earlier.event ∧
      sampleParty.IsNack later.event ∧
      eventAttempt earlier.event < eventAttempt later.event := by
  obtain ⟨w, hreach, htest⟩ := (sampleWorld_reach NacksSent).of_run_check
    (.read :: claimMoves 60 (hexOf '1') ++ nackMoves ++
      [.settle 0 (.publish 0 (hexOf '2'))])
    (fun w : World => holdsPair w.relay) (by decide)
  unfold holdsPair at htest
  split at htest
  · next earlier later hrelay =>
      obtain ⟨hclaim, hnack⟩ := of_decide_eq_true htest
      have hpair := nack_releases_claims hreach
      rw [hrelay, List.pairwise_pair] at hpair
      exact ⟨w, earlier, later, hreach, hrelay, hclaim, hnack,
        (hpair hclaim hnack).1⟩
  · contradiction

/--
While the nack is on its way the lease runs out, and the node claims the message
again: with the attempt the nack is about to carry.
-/
theorem overtaking_claim_unreleased :
    ∃ w, (system sampleParty).Reach NacksWon w ∧
      ¬ w.relay.Pairwise fun earlier later =>
        sampleParty.IsClaim earlier.event → sampleParty.IsNack later.event →
          eventAttempt earlier.event < eventAttempt later.event := by
  obtain ⟨w, hreach, htest⟩ := (sampleWorld_reach NacksWon).of_run_check
    (.read :: claimMoves 1 (hexOf '1') ++ nackMoves ++ overtakingMoves)
    (fun w : World => decide ¬ w.relay.Pairwise (Outranks sampleParty))
    (by decide)
  exact ⟨w, hreach, of_decide_eq_true htest⟩

end Runs

end NostrQ.Lease
