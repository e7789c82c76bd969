import NostrQ.Lease.World

/-!
# A call that nobody opposes wins

Whatever the relay has accepted before, and whatever the row counts: if nothing
on the relay stands against the node at the start of a `try_claim`, and no event
of the message arrives during it but its own, then every step brings the call
nearer to its end, some step can always be taken, and the end is a win.
-/

namespace NostrQ.Lease

open NostrQ.Foundation NostrQ.Core NostrQ.Database NostrQ.Sdk

/-- The steps of a `try_claim` whose transport works, and of those around it. -/
def Undisturbed (party : Party) (_ : World) : Action → Prop
  | .advance _ => True
  | .post event => Unrelated party.message event
  | .elsewhere _ => True
  | .sweep _ => True
  | .retry => True
  | .read => True
  | .claim .proceed => True
  | .claim .query => True
  | .claim (.publish _ _) => True
  | _ => False

instance (party : Party) (w : World) (action : Action) :
    Decidable (Undisturbed party w action) :=
  match action with
  | .post event => inferInstanceAs (Decidable (Unrelated party.message event))
  | .advance _ | .elsewhere _ | .sweep _ | .retry | .read | .claim .proceed
  | .claim .query | .claim (.publish _ _) => inferInstanceAs (Decidable True)
  | .tryClaim _ _ _ | .ack | .nack _ | .settle _ _ | .claim (.lose _ _)
  | .claim .fail | .claim .drop => inferInstanceAs (Decidable False)

/-- A `try_claim` has just read the clock, and nothing stands against it. -/
structure Unopposed (party : Party) (record : MessageRecord)
    (leaseSeconds settleMs : U64) (w : World) : Prop where
  claiming : w.claiming = some (ClaimPhase.enter record leaseSeconds settleMs
    (timestamp w.time))
  unexpired : ∀ expiry ∈ record.expiresAt, timestamp w.time < expiry
  message : Hex32.fromHex record.eventId = some party.message
  mid : record.mid = party.mid
  stored : ∃ row, w.store.row? party.mid = some row
  free : w.relay.Open party.key (timestamp w.time) party.message
    record.attemptFloor
  lease : 1 ≤ leaseSeconds.val
  fits : InI64 (timestamp w.time + leaseSeconds.val)

def remaining : Option ClaimPhase → Nat
  | some (.during _ .terminalCheck) => 8
  | some (.during _ .surveyNacks) => 7
  | some (.during _ (.surveyClaims _)) => 6
  | some (.during _ (.contending _)) => 5
  | some (.during _ (.settling _ _)) => 4
  | some (.during _ (.recheckClaims _)) => 3
  | some (.during _ (.recheckNacks _ _)) => 2
  | some (.during _ (.contendWon _)) => 1
  | some (.during _ (.recognised _)) => 1
  | _ => 0

/-! ## The invariant -/

section Facts

variable (party : Party)

/-- The recheck will find a claim of the generation, and only the node's. -/
structure Standing (claims : List ClaimInfo) (now : Int) (generation : U32) :
    Prop where
  live : ∃ c ∈ claims, now < c.leaseExpiresAt ∧ generation ≤ c.attempt
  own : ∀ c ∈ claims, now < c.leaseExpiresAt → generation ≤ c.attempt →
    c.claimer = party.key

variable (relay : Relay)

def Clear (call : ClaimCall) : ClaimStage → Prop
  | .terminalCheck => True
  | .surveyNacks => True
  | .surveyClaims observed => observed = party.nacked relay
  | .recognised winner => party.nacked relay ≤ winner.attempt
  | .contending observed => observed = party.nacked relay
  | .settling observed _ =>
      observed = party.nacked relay ∧
        Standing party (party.claims relay) call.now observed
  | .recheckClaims observed =>
      observed = party.nacked relay ∧
        Standing party (party.claims relay) call.now observed
  | .recheckNacks observed claims =>
      observed = party.nacked relay ∧ Standing party claims call.now observed
  | .contendWon observed => observed = party.nacked relay
  | .ackObserved => False
  | .dlqObserved _ => False

structure Free (call : ClaimCall) : Prop where
  message : call.message = party.message
  mid : call.record.mid = party.mid
  free : relay.Open party.key call.now party.message call.record.attemptFloor
  inRange : InI64 call.leaseExpiresAt
  alive : call.now < call.leaseExpiresAt

def Winning : Option ClaimPhase → Prop
  | some (.during call stage) =>
      Free party relay call ∧ Clear party relay call stage
  | some (.returned result) => result = .ok true
  | _ => False

def Won (w : World) : Prop :=
  ∃ row, w.store.row? party.mid = some row ∧ row.status = .claimed ∧
    (party.nacked w.relay).val ≤ row.attempts

end Facts

section Steps

variable {party : Party} {w w' : World}

theorem Unopposed.winning {record : MessageRecord} {leaseSeconds settleMs : U64}
    (h : Unopposed party record leaseSeconds settleMs w) :
    Winning party w.relay w.claiming := by
  rw [h.claiming]
  rcases ClaimPhase.enter_cases record leaseSeconds settleMs
      (timestamp w.time) with
    ⟨-, expiry, hexpiry, hle⟩ | ⟨-, hnone⟩ | ⟨message, hmessage, heq⟩
  · exact absurd hle (not_le.mpr (h.unexpired expiry hexpiry))
  · rw [h.message] at hnone
    contradiction
  · cases h.message.symm.trans hmessage
    have hnow : 0 ≤ timestamp w.time := Int.natCast_nonneg _
    have hlease := h.lease
    obtain ⟨hlow, hhigh⟩ := h.fits
    have heq' : toI64 (timestamp w.time + toI64 leaseSeconds.val) =
        timestamp w.time + leaseSeconds.val := by
      unfold toI64
      omega
    rw [heq]
    refine ⟨⟨rfl, h.mid, h.free, inI64_toI64 _, ?_⟩, trivial⟩
    change timestamp w.time < toI64 _
    omega

/-! ### Events of others -/

private theorem open_of_query_eq {relay relay' : Relay} {now : Int}
    {floor : U32} (h : relay.Open party.key now party.message floor)
    (hterminal : relay'.query (terminalFilter party.message) =
      relay.query (terminalFilter party.message))
    (hnacks : relay'.query (nackFilter party.message) =
      relay.query (nackFilter party.message))
    (hclaims : ∀ c ∈ party.claims relay', c ∈ party.claims relay ∨
      c.claimer = party.key) :
    relay'.Open party.key now party.message floor where
  unacked := hterminal ▸ h.unacked
  undead := hterminal ▸ h.undead
  unheld := by
    intro c hc hlease hattempt
    rw [hnacks] at hattempt
    exact (hclaims c hc).elim (fun hold => h.unheld c hold hlease hattempt)
      fun hown => hown

private theorem Winning.concat {relay : Relay} {claiming : Option ClaimPhase}
    {event : Event} (h : Winning party relay claiming)
    (hevent : Unrelated party.message event) (time : Nat) :
    Winning party (relay ++ [⟨time, event⟩]) claiming := by
  have hclaims : party.claims (relay ++ [⟨time, event⟩]) = party.claims relay :=
    congrArg parseClaims (Relay.query_concat_of_not hevent.1 relay time)
  have hnacked : party.nacked (relay ++ [⟨time, event⟩]) = party.nacked relay :=
    congrArg maxAttempt (Relay.query_concat_of_not hevent.2.1 relay time)
  unfold Winning at h ⊢
  split at h
  · next call stage =>
      obtain ⟨hfree, hclear⟩ := h
      refine ⟨{ hfree with
        free := open_of_query_eq hfree.free
          (Relay.query_concat_of_not hevent.2.2 relay time)
          (Relay.query_concat_of_not hevent.2.1 relay time)
          fun c hc => Or.inl (hclaims ▸ hc) }, ?_⟩
      unfold Clear at hclear ⊢
      rw [hnacked, hclaims]
      exact hclear
  · exact h
  · exact h

/-! ### The call's own steps -/

private theorem Winning.answers {phase next : ClaimPhase} {relay : Relay}
    {filter : Filter} (h : Winning party relay (some phase))
    (hfilter : phase.query? = some filter)
    (ha : ClaimPhase.Answers party.key (relay.query filter) phase next) :
    Winning party relay (some next) ∧
      remaining (some next) < remaining (some phase) ∧
      ∀ result, next ≠ .returned result := by
  cases ha with
  | @terminal call =>
      obtain ⟨hfree, -⟩ := h
      cases hfilter
      rw [hfree.message]
      rcases call.afterTerminal_cases (relay.query (terminalFilter party.message))
        with ⟨-, event, hevent, hkind⟩ | ⟨-, -, hdead⟩ | ⟨heq, -⟩
      · exact absurd hkind (hfree.free.unacked event hevent)
      · refine absurd (maxAttempt_le.mpr fun event hevent => ?_) (not_le.mpr hdead)
        obtain ⟨hmem, hkind⟩ := List.mem_filter.mp hevent
        exact hfree.free.undead event hmem (of_decide_eq_true hkind)
      · rw [heq]
        exact ⟨⟨hfree, trivial⟩, by simp [remaining], fun _ h => by contradiction⟩
  | @nacks call =>
      obtain ⟨hfree, -⟩ := h
      cases hfilter
      rw [hfree.message]
      exact ⟨⟨hfree, rfl⟩, by simp [remaining], fun _ h => by contradiction⟩
  | @claims call observed =>
      obtain ⟨hfree, hobserved⟩ := h
      cases hfilter
      rw [hfree.message]
      rcases call.afterSurvey_cases party.key observed (party.claims relay) with
        ⟨winner, hwinner, -, heq⟩ | ⟨winner, hwinner, hother, -⟩ | ⟨-, heq⟩
      · rw [Party.claims] at heq
        rw [heq]
        have hattempt := (claimWinner_mem hwinner).2.2
        rw [show observed = party.nacked relay from hobserved] at hattempt
        exact ⟨⟨hfree, hattempt⟩, by simp [remaining], fun _ h => by contradiction⟩
      · obtain ⟨hmem, hlease, hattempt⟩ := claimWinner_mem hwinner
        rw [show observed = party.nacked relay from hobserved] at hattempt
        exact absurd (hfree.free.unheld winner hmem hlease hattempt) hother
      · rw [Party.claims] at heq
        rw [heq]
        exact ⟨⟨hfree, hobserved⟩, by simp [remaining], fun _ h => by contradiction⟩
  | @recheckClaims call observed =>
      obtain ⟨hfree, hobserved, hstanding⟩ := h
      cases hfilter
      rw [hfree.message]
      exact ⟨⟨hfree, hobserved, hstanding⟩, by simp [remaining],
        fun _ h => by contradiction⟩
  | @recheckNacks call observed claims =>
      obtain ⟨hfree, hobserved, hstanding⟩ := h
      cases hfilter
      rw [hfree.message]
      have hmax : max observed (maxAttempt (relay.query
          (nackFilter party.message))) = observed := by
        rw [hobserved]
        exact max_self _
      rcases call.afterRecheck_cases party.key observed claims
        (relay.query (nackFilter party.message)) with ⟨_, -, -, heq⟩ | ⟨hlost, -⟩
      · rw [heq]
        exact ⟨⟨hfree, hobserved⟩, by simp [remaining], fun _ h => by contradiction⟩
      · exfalso
        rw [hmax] at hlost
        cases hwinner : claimWinner claims observed call.now with
        | none =>
            obtain ⟨c, hmem, hlease, hattempt⟩ := hstanding.live
            exact absurd hattempt
              (not_le.mpr (claimWinner_eq_none.mp hwinner c hmem hlease))
        | some winner =>
            obtain ⟨hmem, hlease, hattempt⟩ := claimWinner_mem hwinner
            exact hlost winner hwinner
              (hstanding.own winner hmem hlease hattempt)

private theorem won_of_moves {consumer : String} {lease : Int} {attempt : U32}
    (hstored : ∃ row, w.store.row? party.mid = some row)
    (hmoves : w.store.Moves w'.store party.mid
      fun p => p.claim consumer lease attempt)
    (hattempt : party.nacked w'.relay ≤ attempt) : Won party w' := by
  obtain ⟨row, hrow⟩ := hstored
  exact ⟨row.set (row.toProgress.claim consumer lease attempt),
    hmoves.row hrow, rfl, (Fin.le_def.mp hattempt).trans (le_max_right _ _)⟩

private theorem Winning.finish {call : ClaimCall} {stage : ClaimStage}
    {store : Store} {result : Except SdkError Bool} {now : Int}
    (h : Winning party w.relay (some (.during call stage)))
    (hstored : ∃ row, w.store.row? party.mid = some row)
    (hfinish : ClaimPhase.finish party.key w.store now call stage =
      some (store, result)) :
    result = .ok true ∧
      Won party { w with
        store := store, claiming := some (.returned result) } ∧
      0 < remaining (some (.during call stage)) := by
  obtain ⟨hfree, hclear⟩ := h
  obtain ⟨row, hrow⟩ := hstored
  have hupdate := Store.update_ok hrow
  rw [← hfree.mid] at hupdate
  have hresult : ∀ {lease : Int} {attempt : U32},
      some (returning true (w.store.markClaimed call.record.mid party.key.toHex
        lease attempt)) = some (store, result) → result = .ok true := by
    intro lease attempt heq
    rw [show result = _ from (congrArg Prod.snd (Option.some.inj heq)).symm]
    exact returning_of_ok (hupdate _)
  cases ClaimPhase.finishes hfinish with
  | acked _ _ | buried _ _ => exact hclear.elim
  | recognised hmoves _ =>
      rw [hfree.mid] at hmoves
      exact ⟨hresult hfinish, won_of_moves ⟨row, hrow⟩ hmoves hclear,
        Nat.one_pos⟩
  | contendWon hmoves _ =>
      rw [hfree.mid] at hmoves
      have hobserved : _ = party.nacked w.relay := hclear
      refine ⟨hresult hfinish, won_of_moves ⟨row, hrow⟩ hmoves ?_, Nat.one_pos⟩
      rw [← hobserved]
      exact le_max_right _ _

private theorem Winning.publish {call : ClaimCall} {observed : U32}
    (h : Winning party w.relay (some (.during call (.contending observed))))
    (createdAt : U64) (id : EventId) (wakeAt : Nat) :
    Winning party (w.accept (party.claimEvent call observed createdAt id)).relay
      (some (.during call (.settling observed wakeAt))) := by
  obtain ⟨hfree, hobserved⟩ := h
  rw [show observed = party.nacked w.relay from hobserved]
  generalize hevent :
    party.claimEvent call (party.nacked w.relay) createdAt id = event
  have hkind : event.kind = KIND_CLAIM := by
    rw [← hevent]
    rfl
  have hunterminal : (terminalFilter party.message).matchEvent event = false := by
    simp [Filter.matchEvent, terminalFilter, hkind, KIND_CLAIM, KIND_ACK,
      KIND_DLQ]
  have hunnacked : (nackFilter party.message).matchEvent event = false := by
    simp [Filter.matchEvent, nackFilter, hkind, KIND_CLAIM, KIND_NACK]
  have hterminal := Relay.query_concat_of_not hunterminal w.relay w.time
  have hnacks := Relay.query_concat_of_not hunnacked w.relay w.time
  have hclaims : party.claims (w.accept event).relay = party.claims w.relay ++
      [⟨party.key, id, toI64 createdAt.val, call.leaseExpiresAt,
        call.claimAttempt (party.nacked w.relay)⟩] := by
    rw [World.accept, party.claims_append, ← hevent]
    exact congrArg _ (Party.claims_claimEvent hfree.message hfree.inRange _ _ _ _)
  have hopen : (w.accept event).relay.Open party.key call.now party.message
      call.record.attemptFloor := by
    refine open_of_query_eq hfree.free hterminal hnacks fun c hc => ?_
    rw [hclaims] at hc
    refine (List.mem_append.mp hc).imp_right fun hlast => ?_
    rw [List.mem_singleton.mp hlast]
  have hnacked : party.nacked w.relay = party.nacked (w.accept event).relay :=
    (congrArg maxAttempt hnacks).symm
  refine ⟨{ hfree with free := hopen }, hnacked, ?_, ?_⟩
  · rw [hclaims]
    exact ⟨_, List.mem_append_right _ (List.mem_singleton.mpr rfl), hfree.alive,
      le_max_right _ _⟩
  · intro c hc hlease hattempt
    rw [hnacked] at hattempt
    exact hopen.unheld c hc hlease hattempt

theorem Winning.claims {phase : ClaimPhase} {move : Move}
    (h : Winning party w.relay (some phase))
    (hstored : ∃ row, w.store.row? party.mid = some row)
    (hmove : Undisturbed party w (.claim move))
    (hc : w.Claims party phase move w') :
    Winning party w'.relay w'.claiming ∧
      remaining w'.claiming < remaining (some phase) ∧
      ∀ result, w'.claiming = some (.returned result) →
        result = .ok true ∧ Won party w' := by
  cases hc with
  | proceed hproceeds =>
      cases hproceeds with
      | enter | expire => exact h.elim
      | wake _ =>
          exact ⟨h, by simp [remaining], fun _ hend => by cases hend⟩
      | finish hfinish =>
          obtain ⟨hresult, hwon, hpos⟩ := h.finish hstored hfinish
          refine ⟨hresult, hpos, fun result hend => ?_⟩
          cases hend
          exact ⟨hresult, hwon⟩
  | query hfilter hanswers =>
      obtain ⟨hnext, hlt, hends⟩ := h.answers hfilter hanswers
      rw [World.look_relay]
      refine ⟨hnext, hlt, fun result hend => ?_⟩
      exact absurd (Option.some.inj hend) (hends result)
  | publish heq =>
      subst heq
      exact ⟨h.publish _ _ _, by simp [remaining], fun _ hend => by cases hend⟩
  | lose _ | fail | drop => exact hmove.elim

structure Unhindered (party : Party) (w : World) : Prop where
  stored : ∃ row, w.store.row? party.mid = some row
  winning : Winning party w.relay w.claiming

private theorem stored_of_climbs {s s' : Store}
    (h : s.Climbs s' party.mid) (hstored : ∃ row, s.row? party.mid = some row) :
    ∃ row, s'.row? party.mid = some row :=
  let ⟨row, hrow⟩ := hstored
  let ⟨progress, hrow', _⟩ := h row hrow
  ⟨row.set progress, hrow'⟩

private theorem Unhindered.others {action : Action} (h : Unhindered party w)
    (haction : Undisturbed party w action)
    (hother : ∀ move, action ≠ .claim move) (hs : w.Step party action w') :
    Unhindered party w' ∧ w'.claiming = w.claiming := by
  cases hs with
  | advance | read _ => exact ⟨⟨h.stored, h.winning⟩, rfl⟩
  | post _ => exact ⟨⟨h.stored, h.winning.concat haction _⟩, rfl⟩
  | elsewhere hrow =>
      obtain ⟨row, hstored⟩ := h.stored
      exact ⟨⟨⟨row, hrow row hstored⟩, h.winning⟩, rfl⟩
  | sweep =>
      exact ⟨⟨stored_of_climbs (Store.expireDue_climbs _ _ _) h.stored,
        h.winning⟩, rfl⟩
  | retry =>
      exact ⟨⟨stored_of_climbs (Store.dlqRetry_climbs _ _) h.stored,
        h.winning⟩, rfl⟩
  | claim _ _ => exact absurd rfl (hother _)
  | tryClaim _ _ | ack | nack | settle _ _ => exact haction.elim

private theorem Unhindered.claims {move : Move} {phase : ClaimPhase}
    (h : Unhindered party w) (hphase : w.claiming = some phase)
    (hmove : Undisturbed party w (.claim move))
    (hc : w.Claims party phase move w') :
    Unhindered party w' ∧ remaining w'.claiming < remaining w.claiming ∧
      ∀ result, w'.claiming = some (.returned result) →
        result = .ok true ∧ Won party w' := by
  have hwinning := h.winning
  rw [hphase] at hwinning ⊢
  obtain ⟨hnext, hlt, hends⟩ := hwinning.claims h.stored hmove hc
  refine ⟨⟨?_, hnext⟩, hlt, hends⟩
  cases hc with
  | proceed hproceeds =>
      exact stored_of_climbs (hproceeds.rewrites.climbs hproceeds.raises _)
        h.stored
  | query _ _ => simpa using h.stored
  | publish _ => exact h.stored
  | lose _ | fail | drop => exact hmove.elim

theorem Unhindered.step {action : Action} (h : Unhindered party w)
    (haction : Undisturbed party w action)
    (hs : w.step party action = some w') : Unhindered party w' := by
  have hs := World.step_cases hs
  by_cases hclaim : ∃ move, action = .claim move
  · obtain ⟨move, rfl⟩ := hclaim
    cases hs with
    | claim hphase hc => exact (h.claims hphase haction hc).1
  · exact (h.others haction (fun move heq => hclaim ⟨move, heq⟩) hs).1

private theorem Winning.progress {call : ClaimCall} {stage : ClaimStage}
    (h : Winning party w.relay (some (.during call stage)))
    (hphase : w.claiming = some (.during call stage)) :
    ∃ ms move, Undisturbed party w (.claim move) ∧
      (({ w with time := w.time + ms } : World).step party
        (.claim move)).isSome := by
  cases stage with
  | terminalCheck | surveyNacks | surveyClaims _ | recheckClaims _
  | recheckNacks _ _ =>
      exact ⟨0, .query, trivial, by
        simp [World.step, World.claimStep, hphase, ClaimPhase.query?,
          ClaimPhase.answer]⟩
  | contending _ =>
      exact ⟨0, .publish 0 (hexOf '0'), trivial, by
        simp [World.step, World.claimStep, World.claimed, hphase,
          ClaimPhase.publish?, ClaimPhase.accepted]⟩
  | settling _ wakeAt =>
      exact ⟨wakeAt, .proceed, trivial, by
        simp [World.step, World.claimStep, hphase, ClaimPhase.proceed]⟩
  | recognised _ | contendWon _ =>
      exact ⟨0, .proceed, trivial, by
        simp [World.step, World.claimStep, hphase, ClaimPhase.proceed,
          ClaimPhase.finish]⟩
  | ackObserved | dlqObserved _ => exact h.2.elim

private theorem Unhindered.progress (h : Unhindered party w) :
    w.claiming = some (.returned (.ok true)) ∨
    ∃ ms move later w', w.step party (.advance ms) = some later ∧
      Undisturbed party later (.claim move) ∧
      later.step party (.claim move) = some w' := by
  have hwinning := h.winning
  unfold Winning at hwinning
  split at hwinning
  · next call stage hphase =>
      obtain ⟨ms, move, hmove, hsome⟩ := Winning.progress hwinning hphase
      obtain ⟨w', hw'⟩ := Option.isSome_iff_exists.mp hsome
      exact Or.inr ⟨ms, move, _, w', rfl, hmove, hw'⟩
  · next result hphase =>
      rw [hwinning] at hphase
      exact Or.inl hphase
  · exact hwinning.elim

variable {record : MessageRecord} {leaseSeconds settleMs : U64}

theorem unhindered (h : ((system party).startingIn (Unopposed party record
    leaseSeconds settleMs)).Reach (Undisturbed party) w) :
    Unhindered party w :=
  h.invariant (I := Unhindered party)
    (fun _ h₀ => ⟨h₀.stored, h₀.winning⟩)
    fun _ _ _ _ hi hp hs => hi.step hp hs

/--
From a start where nothing on the relay stands against it, a call always can go
on until it has answered true; each of its steps brings it nearer to that, the
other steps leave it alone, and the last one leaves the row claimed with at least
the highest nacked attempt.
-/
theorem try_claim_wins_unopposed
    (h : ((system party).startingIn (Unopposed party record leaseSeconds
      settleMs)).Reach (Undisturbed party) w) :
    (∀ move w', Undisturbed party w (.claim move) →
      w.step party (.claim move) = some w' →
      remaining w'.claiming < remaining w.claiming ∧
      ∀ result, w'.claiming = some (.returned result) →
        result = .ok true ∧ Won party w') ∧
    (∀ action w', Undisturbed party w action →
      (∀ move, action ≠ .claim move) → w.step party action = some w' →
      w'.claiming = w.claiming) ∧
    (w.claiming = some (.returned (.ok true)) ∨
      ∃ ms move later w', w.step party (.advance ms) = some later ∧
        Undisturbed party later (.claim move) ∧
        later.step party (.claim move) = some w') := by
  have hw := unhindered h
  refine ⟨fun move w' hmove hs => ?_, fun action w' haction hother hs => ?_,
    hw.progress⟩
  · cases World.step_cases hs with
    | claim hphase hc => exact (hw.claims hphase hmove hc).2
  · exact (hw.others haction hother (World.step_cases hs)).2

end Steps

section Runs

def foreignHistory : Relay :=
  [⟨0, (buildClaimEvent id ⟨hexOf 'e', "jobs", "m", "trace"⟩ 3600 0).sign
      (hexOf 'b') 0 (hexOf '1')⟩,
    ⟨0, (buildNackEvent id ⟨hexOf 'e', "jobs", "m", "trace"⟩ 3 "failed").sign
      (hexOf 'b') 0 (hexOf '2')⟩]

def unopposedWorld : World :=
  { sampleWorld with
    relay := foreignHistory
    claiming := some (ClaimPhase.enter sampleRecord 60 0 (timestamp 0)) }

private theorem unopposedWorld_unopposed :
    Unopposed sampleParty sampleRecord 60 0 unopposedWorld where
  claiming := rfl
  unexpired := by decide
  message := by decide
  mid := rfl
  stored := ⟨sampleRecord.toRow, rfl⟩
  free := ⟨by decide, by decide, by decide⟩
  lease := by decide
  fits := by decide

theorem try_claim_wins_unopposed_lagging :
    ∃ w w', ((system sampleParty).startingIn
      (Unopposed sampleParty sampleRecord 60 0)).Reach
      (Undisturbed sampleParty) w ∧
      w.step sampleParty (.claim .proceed) = some w' ∧
      w'.claiming = some (.returned (.ok true)) ∧ Won sampleParty w' := by
  obtain ⟨w, hreach, htest⟩ :=
    (System.Reach.init (S := (system sampleParty).startingIn
      (Unopposed sampleParty sampleRecord 60 0))
      (P := Undisturbed sampleParty) unopposedWorld_unopposed).of_run_check
      [.claim .query, .claim .query, .claim .query,
        .claim (.publish 0 (hexOf '3')), .claim .proceed, .claim .query,
        .claim .query]
      (fun w : World => (w.step sampleParty (.claim .proceed)).any
        fun w' : World => decide (w'.claiming = some (.returned (.ok true))))
      (by decide)
  obtain ⟨w', hstep, hchecked⟩ := (Option.any_eq_true _ _).mp htest
  have hend := of_decide_eq_true hchecked
  have hends := ((try_claim_wins_unopposed hreach).1 .proceed w' trivial hstep).2
  exact ⟨w, w', hreach, hstep, hend, (hends _ hend).2⟩

end Runs

end NostrQ.Lease
