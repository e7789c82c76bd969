import NostrQ.Cluster.LoneClaim
import NostrQ.Cluster.Quiescence
import NostrQ.Database.Decoding

/-!
# Taking over an abandoned message

A worker that holds a message may crash, lose its connection or hang.  Whatever
the others have done to the message, once the leases on it are over an idle
worker can claim it, handle it and ack it, without anybody's help.
-/

namespace NostrQ.Cluster

open NostrQ.Foundation NostrQ.Core NostrQ.Database NostrQ.Sdk NostrQ.Worker

variable {W : Type}

/-! ## What a worker sees -/

structure Sight where
  time : Nat
  relay : Relay
  store : Store
  job : Option Job

def Net.sight (net : Net W) (w : W) : Sight :=
  ⟨net.time, net.relay, (net.nodes w).store, (net.nodes w).job⟩

def Alone (w : W) (_ : Net W) (a : Action W) : Prop :=
  a.actor = some w ∨ ∃ ms, a = .advance ms

section Reaches

variable [DecidableEq W]

/-- From `net`, the worker `w` alone gets to see this. -/
def Deployment.Reaches (D : Deployment W) (net : Net W) (w : W)
    (v : Sight) : Prop :=
  ∃ net', (D.system.startingIn fun start => start = net).Reach (Alone w)
    net' ∧ net'.sight w = v

variable {D : Deployment W} {net : Net W} {w : W} {time : Nat} {relay : Relay}
  {s s' : Store} {job next : Job}

namespace Deployment.Reaches

theorem start (D : Deployment W) (net : Net W) (w : W) :
    D.Reaches net w (net.sight w) :=
  ⟨net, .init rfl, rfl⟩

theorem act {v v' : Sight} (h : D.Reaches net w v)
    (hstep : ∀ net' : Net W, net'.sight w = v → ∃ a after,
      Alone w net' a ∧ D.step net' a = some after ∧ after.sight w = v') :
    D.Reaches net w v' := by
  obtain ⟨net', hreach, hsight⟩ := h
  obtain ⟨a, after, halone, hafter, hsight'⟩ := hstep net' hsight
  exact ⟨after, hreach.step halone hafter, hsight'⟩

theorem advance {job? : Option Job} (h : D.Reaches net w ⟨time, relay, s, job?⟩)
    (ms : Nat) : D.Reaches net w ⟨time + ms, relay, s, job?⟩ := by
  apply h.act
  rintro net' hsight
  cases hsight
  exact ⟨.advance ms, _, Or.inr ⟨ms, rfl⟩, rfl, rfl⟩

theorem fetch {record : MessageRecord} (h : D.Reaches net w ⟨time, relay, s, none⟩)
    (hget : s.getMessage D.mid = .ok (some record)) (leaseSeconds : U64) :
    D.Reaches net w
      ⟨time, relay, s, some (Job.spawn record leaseSeconds D.settleMs)⟩ := by
  apply h.act
  intro net' hsight
  obtain ⟨rfl, rfl, rfl, hidle⟩ := Sight.mk.inj hsight
  refine ⟨.fetch w leaseSeconds, net'.setNode w { net'.nodes w with
    job := some (Job.spawn record leaseSeconds D.settleMs)
    history := { (net'.nodes w).history with fresh := true } },
    Or.inl rfl, ?_, ?_⟩
  · simp only [Deployment.step, Deployment.fetch, hidle, hget]
  · simp [Net.sight]

private theorem act_local {input : JobInput}
    (h : D.Reaches net w ⟨time, relay, s, some job⟩) (a : Action W)
    (ha : a.actor = some w)
    (hlocal : ∀ net' : Net W, net'.time = time →
      D.step net' a = D.local? net' w input)
    (hstep : job.step (D.key w) s input = some (s', next)) :
    D.Reaches net w ⟨time, relay, s', some next⟩ := by
  apply h.act
  intro net' hsight
  obtain ⟨rfl, rfl, rfl, hjob⟩ := Sight.mk.inj hsight
  refine ⟨a, net'.setNode w
    ⟨s', some next, (net'.nodes w).history.afterProceed job⟩, Or.inl ha, ?_, ?_⟩
  · rw [hlocal net' rfl, Deployment.local?, Deployment.resume, hjob,
      Option.bind_some, hstep]
    rfl
  · simp [Net.sight]

theorem proceed (h : D.Reaches net w ⟨time, relay, s, some job⟩)
    (hstep : job.step (D.key w) s (.io (.proceed time)) = some (s', next)) :
    D.Reaches net w ⟨time, relay, s', some next⟩ :=
  h.act_local (.proceed w) rfl (fun _ htime => by rw [← htime]; rfl) hstep

theorem handle (h : D.Reaches net w ⟨time, relay, s, some job⟩)
    (outcome : HandlerOutcome)
    (hstep : job.step (D.key w) s (.handled outcome) = some (s', next)) :
    D.Reaches net w ⟨time, relay, s', some next⟩ :=
  h.act_local (.handle w outcome) rfl (fun _ _ => rfl) hstep

theorem query {filter : Filter}
    (h : D.Reaches net w ⟨time, relay, s, some job⟩)
    (hquery : job.query? = some filter)
    (hstep : job.step (D.key w) s (.io (.answer (relay.query filter))) =
      some (s', next)) :
    D.Reaches net w ⟨time, relay, s', some next⟩ := by
  apply h.act
  intro net' hsight
  obtain ⟨rfl, rfl, rfl, hjob⟩ := Sight.mk.inj hsight
  refine ⟨.query w, D.answered net' w (net'.relay.query filter) job s' next,
    Or.inl rfl, ?_, ?_⟩
  · simp only [Deployment.step, Deployment.query, Deployment.resume, hjob,
      hquery, hstep, Option.bind_some, Option.map_some]
  · simp [Net.sight, D.answered_self]

theorem publish {draft : Draft} {id : EventId}
    (h : D.Reaches net w ⟨time, relay, s, some job⟩) (createdAt : U64)
    (hpublish : job.publish? D.hashtag = some draft)
    (hfresh : ∀ accepted ∈ relay, accepted.event.id ≠ id)
    (hstep : job.step (D.key w) s (.io (.accepted time)) = some (s', next)) :
    D.Reaches net w
      ⟨time, relay ++ [⟨time, draft.sign (D.key w) createdAt id⟩], s',
        some next⟩ := by
  apply h.act
  intro net' hsight
  obtain ⟨rfl, rfl, rfl, hjob⟩ := Sight.mk.inj hsight
  have hfresh' : NoCollision net'.relay (draft.sign (D.key w) createdAt id) :=
    fun accepted hmem hid => absurd hid (hfresh accepted hmem)
  refine ⟨.publish w createdAt id, net'.published w
    (draft.sign (D.key w) createdAt id) job s' next, Or.inl rfl, ?_, ?_⟩
  · simp only [Deployment.step, Deployment.publish, Deployment.outgoing,
      Deployment.resume, hjob, hpublish, hstep, Option.bind_some,
      Option.map_some, if_pos hfresh']
  · simp [Net.sight, Net.published_self]

end Deployment.Reaches

/-! ## From a fetched record to a win -/

/-- Nothing keeps a call that starts at `now` from winning. -/
structure Available (D : Deployment W) (relay : Relay) (record : MessageRecord)
    (leaseSeconds : U64) (now : Int) : Prop where
  unexpired : ∀ expiry ∈ record.expiresAt, now < expiry
  unfinished : Unfinished D relay record.attemptFloor
  /-- The leases on the relay are over, or were released by a nack. -/
  unclaimed : ∀ c ∈ parseClaims (relay.query (claimFilter D.message)),
    now < c.leaseExpiresAt →
    c.attempt < maxAttempt (relay.query (nackFilter D.message))
  lease : now < leaseExpiry now leaseSeconds

instance (D : Deployment W) (relay : Relay) (record : MessageRecord)
    (leaseSeconds : U64) (now : Int) :
    Decidable (Available D relay record leaseSeconds now) :=
  decidable_of_iff
    ((∀ expiry ∈ record.expiresAt, now < expiry) ∧
      Unfinished D relay record.attemptFloor ∧
      (∀ c ∈ parseClaims (relay.query (claimFilter D.message)),
        now < c.leaseExpiresAt →
        c.attempt < maxAttempt (relay.query (nackFilter D.message))) ∧
      now < leaseExpiry now leaseSeconds)
    ⟨fun ⟨hunexpired, hunfinished, hunclaimed, hlease⟩ =>
      ⟨hunexpired, hunfinished, hunclaimed, hlease⟩,
    fun h => ⟨h.unexpired, h.unfinished, h.unclaimed, h.lease⟩⟩

section Win

variable {record : MessageRecord} {leaseSeconds : U64} {claimId : EventId}

omit [DecidableEq W] in
theorem Available.enter {now : Int}
    (h : Available D relay record leaseSeconds now)
    (heventId : Hex32.fromHex record.eventId = some D.message) :
    ClaimPhase.enter record leaseSeconds D.settleMs now =
      .during (loneCall record D.message now leaseSeconds D.settleMs)
        .terminalCheck := by
  rcases ClaimPhase.enter_cases record leaseSeconds D.settleMs now with
    ⟨-, expiry, hexpiry, hle⟩ | ⟨-, hnone⟩ | ⟨message, hmessage, heq⟩
  · exact absurd hle (not_le.mpr (h.unexpired expiry hexpiry))
  · rw [heventId] at hnone
    contradiction
  · rw [heventId] at hmessage
    cases hmessage
    exact heq

omit [DecidableEq W] in
theorem Available.terminal {now : Int} {call : ClaimCall}
    (h : Available D relay record leaseSeconds now)
    (hrecord : call.record = record) :
    call.afterTerminal (relay.query (terminalFilter D.message)) =
      .during call .surveyNacks := by
  have hfinal : ∀ event ∈ relay.query (terminalFilter D.message),
      event.kind = KIND_DLQ ∧ eventAttempt event ≤ record.attemptFloor := by
    intro event hevent
    obtain ⟨hmatch, accepted, hmem, rfl⟩ := Relay.mem_query.mp hevent
    exact h.unfinished accepted hmem hmatch
  rcases call.afterTerminal_cases
    (relay.query (terminalFilter D.message)) with
    ⟨-, event, hevent, hack⟩ | ⟨-, -, hdlq⟩ | ⟨heq, -⟩
  · rw [(hfinal event hevent).1] at hack
    contradiction
  · refine absurd hdlq (not_lt.mpr (maxAttempt_le.mpr fun event hevent => ?_))
    rw [hrecord]
    exact (hfinal event (List.mem_filter.mp hevent).1).2
  · exact heq

theorem Deployment.Reaches.contend
    (h : D.Reaches net w ⟨time, relay, s, none⟩)
    (hget : s.getMessage D.mid = .ok (some record))
    (heventId : Hex32.fromHex record.eventId = some D.message)
    (hopen : Available D relay record leaseSeconds (timestamp time)) :
    D.Reaches net w ⟨time, relay, s, some ⟨record, leaseSeconds, .claiming
      (.during (loneCall record D.message (timestamp time) leaseSeconds
        D.settleMs) (.contending
          (maxAttempt (relay.query (nackFilter D.message)))))⟩⟩ := by
  have hnone := claimWinner_eq_none.mpr hopen.unclaimed
  have hfetched := h.fetch hget leaseSeconds
  generalize hcall : loneCall record D.message (timestamp time) leaseSeconds
    D.settleMs = call
  have hmessage : call.message = D.message := by rw [← hcall]; rfl
  have hentered : D.Reaches net w ⟨time, relay, s,
      some ⟨record, leaseSeconds, .claiming (.during call .terminalCheck)⟩⟩ := by
    refine hfetched.proceed ?_
    rw [← hcall, ← hopen.enter heventId]
    rfl
  have hchecked : D.Reaches net w ⟨time, relay, s,
      some ⟨record, leaseSeconds, .claiming (.during call .surveyNacks)⟩⟩ := by
    refine hentered.query rfl ?_
    rw [hmessage]
    have hrecord : call.record = record := by rw [← hcall]; rfl
    rw [← hopen.terminal hrecord]
    rfl
  have hsurveyed : D.Reaches net w ⟨time, relay, s, some ⟨record, leaseSeconds,
      .claiming (.during call (.surveyClaims
        (maxAttempt (relay.query (nackFilter D.message)))))⟩⟩ := by
    refine hchecked.query rfl ?_
    rw [hmessage]
    rfl
  refine hsurveyed.query rfl ?_
  have hsurvey : call.afterSurvey (D.key w)
      (maxAttempt (relay.query (nackFilter D.message)))
      (parseClaims (relay.query (claimFilter D.message))) =
      .during call (.contending
        (maxAttempt (relay.query (nackFilter D.message)))) := by
    have hnow : call.now = timestamp time := by rw [← hcall]; rfl
    simp only [ClaimCall.afterSurvey, hnow, hnone]
  rw [hmessage, ← hsurvey]
  rfl

omit [DecidableEq W] in
theorem Available.recheck {call : ClaimCall} {createdAt : U64}
    (hopen : Available D relay record leaseSeconds (timestamp time))
    (hcall : call = loneCall record D.message (timestamp time) leaseSeconds
      D.settleMs) {seen : Relay} {claim : Event}
    (hclaim : claim = ownClaim ⟨D.key w, D.hashtag, claimId, createdAt⟩ call
      (maxAttempt (relay.query (nackFilter D.message))))
    (hseen : seen = relay ++ [⟨time, claim⟩]) :
    call.afterRecheck (D.key w)
        (maxAttempt (relay.query (nackFilter D.message)))
        (parseClaims (seen.query (claimFilter D.message)))
        (seen.query (nackFilter D.message)) =
      .during call (.contendWon
        (maxAttempt (relay.query (nackFilter D.message)))) := by
  generalize hobserved : maxAttempt (relay.query (nackFilter D.message)) =
    observed at hclaim ⊢
  have hmessage : call.message = D.message := by rw [hcall]; rfl
  obtain ⟨hclaims, hnacks⟩ := query_ownClaim
    ⟨D.key w, D.hashtag, claimId, createdAt⟩ time relay call observed
  rw [hmessage, ← hclaim, ← hseen] at hclaims hnacks
  have hexpiry : InI64 call.leaseExpiresAt := by
    rw [hcall]
    exact inI64_toI64 _
  have hparse : parseClaims [claim] = [⟨D.key w, claimId,
      toI64 createdAt.val, call.leaseExpiresAt,
      call.claimAttempt observed⟩] := by
    unfold parseClaims
    rw [hclaim, ownClaim, List.filterMap_cons,
      parseClaimEvent_build _ _ hexpiry]
    rfl
  have hnone := claimWinner_eq_none.mpr hopen.unclaimed
  have hattempt : observed ≤ call.claimAttempt observed := le_max_right _ _
  have hlease : timestamp time < call.leaseExpiresAt := by
    rw [hcall]
    exact hopen.lease
  have hnow : call.now = timestamp time := by rw [hcall]; rfl
  rw [hobserved] at hnone
  simp only [ClaimCall.afterRecheck, hnacks, hobserved, max_self, hclaims,
    parseClaims_append, hparse, hnow]
  rw [recheck_uncontested hnone hattempt, if_pos hlease]
  simp

theorem Deployment.Reaches.win
    (h : D.Reaches net w ⟨time, relay, s, none⟩)
    (hget : s.getMessage D.mid = .ok (some record))
    (heventId : Hex32.fromHex record.eventId = some D.message)
    (hopen : Available D relay record leaseSeconds (timestamp time))
    (hfresh : ∀ accepted ∈ relay, accepted.event.id ≠ claimId)
    (createdAt : U64) :
    ∃ claim s', claim.id = claimId ∧
      s.Moves s' D.mid (fun p => p.claim (D.key w).toHex
        (leaseExpiry (timestamp time) leaseSeconds)
        (max record.attempts
          (maxAttempt (relay.query (nackFilter D.message))))) ∧
      D.Reaches net w ⟨time + D.settleMs.val, relay ++ [⟨time, claim⟩], s',
        some ⟨record, leaseSeconds, .claiming (.returned (.ok true))⟩⟩ := by
  obtain ⟨row, hrow, hshows⟩ := Store.getMessage_shows hget
  have hmid : record.mid = D.mid :=
    hshows.mid.trans (Messages.row?_mem hrow).2
  have hcontending := h.contend hget heventId hopen
  generalize hcall : loneCall record D.message (timestamp time) leaseSeconds
    D.settleMs = call at hcontending
  generalize hobserved : maxAttempt (relay.query (nackFilter D.message)) =
    observed at hcontending ⊢
  have hmessage : call.message = D.message := by rw [← hcall]; rfl
  have hsettle : call.settleMs = D.settleMs := by rw [← hcall]; rfl
  have hcallMid : call.record.mid = D.mid := by rw [← hcall]; exact hmid
  generalize hclaim : ownClaim ⟨D.key w, D.hashtag, claimId, createdAt⟩ call
    observed = claim
  generalize hseen : relay ++ [⟨time, claim⟩] = seen
  have hposted : D.Reaches net w ⟨time, seen, s, some ⟨record, leaseSeconds,
      .claiming (.during call (.settling observed
        (time + call.settleMs.val)))⟩⟩ := by
    have hpublished := hcontending.publish createdAt rfl hfresh rfl
    rw [← hseen, ← hclaim]
    exact hpublished
  have hwoken : D.Reaches net w ⟨time + D.settleMs.val, seen, s,
      some ⟨record, leaseSeconds,
        .claiming (.during call (.recheckClaims observed))⟩⟩ := by
    refine (hposted.advance D.settleMs.val).proceed ?_
    simp [Job.step, Job.stepPhase, ClaimPhase.step, ClaimPhase.proceed, hsettle]
  have hlooked : D.Reaches net w ⟨time + D.settleMs.val, seen, s,
      some ⟨record, leaseSeconds, .claiming (.during call (.recheckNacks observed
        (parseClaims (seen.query (claimFilter D.message)))))⟩⟩ := by
    refine hwoken.query rfl ?_
    rw [hmessage]
    rfl
  have hwon : D.Reaches net w ⟨time + D.settleMs.val, seen, s,
      some ⟨record, leaseSeconds,
        .claiming (.during call (.contendWon observed))⟩⟩ := by
    refine hlooked.query rfl ?_
    have hrecheck := hopen.recheck hcall.symm
      (hobserved.symm ▸ hclaim.symm) hseen.symm
    rw [hobserved] at hrecheck
    rw [hmessage, ← hrecheck]
    rfl
  refine ⟨claim, (s.markClaimed D.mid (D.key w).toHex call.leaseExpiresAt
    (call.claimAttempt observed)).2, by rw [← hclaim]; rfl, ?_, ?_⟩
  · rw [← hcall]
    exact Store.markClaimed_moves _ _ _
  · rw [hseen]
    refine hwon.proceed ?_
    have hmarked : (s.markClaimed D.mid (D.key w).toHex call.leaseExpiresAt
        (call.claimAttempt observed)).1 = .ok () := Store.update_ok hrow _
    simp only [Job.step, Job.stepPhase, ClaimPhase.step, ClaimPhase.proceed,
      ClaimPhase.finish, hcallMid, Option.map_some, returning_fst,
      returning_of_ok hmarked]

/-! ## From a win to the ack -/

omit [DecidableEq W] in
private theorem messageRef_claimed {consumer : String} {lease : Int}
    {attempt : U32} (hget : s.getMessage D.mid = .ok (some record))
    (heventId : Hex32.fromHex record.eventId = some D.message)
    (hmoves : s.Moves s' D.mid fun p => p.claim consumer lease attempt) :
    ∃ call, messageRef s' D.mid = .ok call ∧ call.record.mid = D.mid ∧
      call.message = D.message := by
  obtain ⟨row, claimed, hrow, hshows, hread, hshows'⟩ :=
    hmoves.getMessage hget fun _ hrange => hrange.claim _ _ _
  have hevent : Hex32.fromHex claimed.eventId = some D.message := by
    rw [hshows'.eventId, Row.set_eventId, ← hshows.eventId, heventId]
  refine ⟨⟨claimed, D.message⟩, ?_,
    hshows'.mid.trans (Messages.row?_mem hrow).2, rfl⟩
  rw [messageRef, hread]
  dsimp only
  rw [hevent]

theorem Deployment.Reaches.finish {consumer : String} {lease : Int}
    {attempt : U32} {ackId : EventId}
    (h : D.Reaches net w ⟨time, relay, s',
      some ⟨record, leaseSeconds, .claiming (.returned (.ok true))⟩⟩)
    (hget : s.getMessage D.mid = .ok (some record))
    (heventId : Hex32.fromHex record.eventId = some D.message)
    (hmoves : s.Moves s' D.mid fun p => p.claim consumer lease attempt)
    (hfresh : ∀ accepted ∈ relay, accepted.event.id ≠ ackId)
    (createdAt : U64) :
    ∃ ack s'' job, ack.pubkey = D.key w ∧ ack.kind = KIND_ACK ∧
      (terminalFilter D.message).matchEvent ack = true ∧
      (∃ row, s''.row? D.mid = some row ∧ row.status = .acked) ∧
      D.Reaches net w ⟨time, relay ++ [⟨time, ack⟩], s'', some job⟩ := by
  obtain ⟨row, hrow, hshows⟩ := Store.getMessage_shows hget
  have hmid : record.mid = D.mid :=
    hshows.mid.trans (Messages.row?_mem hrow).2
  obtain ⟨call, href, hcallMid, hmessage⟩ :=
    messageRef_claimed hget heventId hmoves
  have hhandling : D.Reaches net w ⟨time, relay, s', some ⟨record, leaseSeconds,
      .handling (Job.refetch s' record)
        (time + leaseSeconds.val * 1000)⟩⟩ := h.proceed rfl
  have hacking : D.Reaches net w ⟨time, relay, s', some ⟨record, leaseSeconds,
      .settling (.acking record.mid)⟩⟩ := hhandling.handle .success rfl
  have hstarted : D.Reaches net w ⟨time, relay, s', some ⟨record, leaseSeconds,
      .settling (.during call .ackPublishing)⟩⟩ := by
    refine hacking.proceed ?_
    simp only [Job.step, Job.stepPhase, SettlePhase.step, SettlePhase.proceed,
      SettlePhase.start, hmid, href, Option.map_some]
  generalize hack : (buildAckEvent D.hashtag call.ref).sign (D.key w) createdAt
    ackId = ack
  have hpublished : D.Reaches net w ⟨time, relay ++ [⟨time, ack⟩], s',
      some ⟨record, leaseSeconds,
        .settling (.during call .ackAccepted)⟩⟩ := by
    rw [← hack]
    exact hstarted.publish createdAt rfl hfresh rfl
  have hsettled : D.Reaches net w ⟨time, relay ++ [⟨time, ack⟩],
      (s'.markAcked D.mid).2, some ⟨record, leaseSeconds, .settling (.settled
        (returning .acked (s'.markAcked D.mid)).2)⟩⟩ := by
    refine hpublished.proceed ?_
    simp only [Job.step, Job.stepPhase, SettlePhase.step, SettlePhase.proceed,
      SettlePhase.finish, hcallMid, Option.map_some, returning_fst]
  have hmatch : (terminalFilter D.message).matchEvent ack = true := by
    rw [← hack, ← hmessage]
    exact terminalFilter_ack D.hashtag call.ref (D.key w) createdAt ackId
  have hclaimed := hmoves.row hrow
  exact ⟨ack, _, _, by rw [← hack]; rfl, by rw [← hack]; rfl, hmatch,
    ⟨_, Store.markAcked_moves.row hclaimed, rfl⟩, hsettled⟩

end Win

/-! ## The takeover -/

/--
From every state of every run: an idle worker that stores the message can win
and ack it alone, from any later moment at which it is neither finished nor
expired and no lease on the relay is still alive.
-/
theorem takeover {P : Net W → Action W → Prop} {record : MessageRecord}
    {leaseSeconds : U64} {claimId ackId : EventId}
    (h : D.system.Reach P net) (hidle : (net.nodes w).job = none)
    (hget : (net.nodes w).store.getMessage D.mid = .ok (some record))
    (hlater : net.time ≤ time)
    (hopen : Available D net.relay record leaseSeconds (timestamp time))
    (hids : claimId ≠ ackId)
    (hfresh : ∀ accepted ∈ net.relay,
      accepted.event.id ≠ claimId ∧ accepted.event.id ≠ ackId) :
    ∃ net', (D.system.startingIn fun start => start = net).Reach (Alone w)
        net' ∧
      (∃ accepted ∈ net'.relay, accepted.event.pubkey = D.key w ∧
        accepted.event.kind = KIND_ACK ∧
        (terminalFilter D.message).matchEvent accepted.event = true) ∧
      ∃ row, (net'.nodes w).store.row? D.mid = some row ∧
        row.status = .acked := by
  obtain ⟨ms, rfl⟩ := Nat.exists_eq_add_of_le hlater
  obtain ⟨row, hrow, hshows⟩ := Store.getMessage_shows hget
  have heventId : Hex32.fromHex record.eventId = some D.message := by
    rw [hshows.eventId]
    exact (grounded h).rows w row hrow
  have hstart := Deployment.Reaches.start D net w
  rw [Net.sight, hidle] at hstart
  obtain ⟨claim, s', hclaimId, hmoves, hwon⟩ := (hstart.advance ms).win hget
    heventId hopen (fun accepted hmem => (hfresh accepted hmem).1) 0
  have hfreshAck : ∀ accepted ∈ net.relay ++ [⟨net.time + ms, claim⟩],
      accepted.event.id ≠ ackId := by
    intro accepted hmem
    rcases List.mem_append.mp hmem with hold | hnew
    · exact (hfresh accepted hold).2
    · rw [List.mem_singleton.mp hnew, hclaimId]
      exact hids
  obtain ⟨ack, s'', job, hkey, hkind, hmatch, hacked, net', hreach, hsight⟩ :=
    hwon.finish hget heventId hmoves hfreshAck 0
  obtain ⟨-, hrelay, hstore, -⟩ := Sight.mk.inj hsight
  refine ⟨net', hreach, ⟨⟨net.time + ms + D.settleMs.val, ack⟩, ?_, hkey,
    hkind, hmatch⟩, ?_⟩
  · rw [hrelay]
    exact List.mem_append_right _ (List.mem_singleton_self _)
  · rw [hstore]
    exact hacked

/-- The first worker wins and crashes; its lease runs out a minute later. -/
theorem takeover_after_crash :
    ∃ net, pair.system.Reach System.Free net ∧ net.wins ≠ [] ∧
      ∃ net', (pair.system.startingIn fun start => start = net).Reach
          (Alone Peer.second) net' ∧
        (∃ accepted ∈ net'.relay,
          accepted.event.pubkey = pair.key .second ∧
          accepted.event.kind = KIND_ACK ∧
          (terminalFilter pair.message).matchEvent accepted.event = true) ∧
        ∃ row, (net'.nodes .second).store.row? pair.mid = some row ∧
          row.status = .acked := by
  obtain ⟨net, hreach, htest⟩ :=
    (System.Reach.init (pairStart_initial 5)).of_run_check
      (S := pair.system) (P := System.Free) (winningRun ++ [.drop .first])
      (fun net => !net.wins.isEmpty &&
        ((net.nodes .second).job.isNone &&
          (decide ((net.nodes .second).store.getMessage pair.mid =
              .ok (some sampleRecord)) &&
            (decide (net.time ≤ 60000) &&
              (decide (Available pair net.relay sampleRecord 60
                  (timestamp 60000)) &&
                decide (∀ accepted ∈ net.relay,
                  accepted.event.id ≠ hexOf 'b' ∧
                    accepted.event.id ≠ hexOf 'c'))))))
      (by decide)
  simp only [Bool.and_eq_true, decide_eq_true_eq, Option.isNone_iff_eq_none]
    at htest
  obtain ⟨hwins, hidle, hget, htime, hopen, hfresh⟩ := htest
  refine ⟨net, hreach, by simpa using hwins, ?_⟩
  exact takeover hreach hidle hget htime hopen (by decide) hfresh

end Reaches

end NostrQ.Cluster
