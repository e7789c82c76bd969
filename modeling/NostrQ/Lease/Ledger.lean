import NostrQ.Lease.World

/-!
# A node's own claims

A node publishes a claim only when its survey elected nobody, hence when all its
earlier claims are spent, and a spent claim stays spent.  So the claim of its
own that a recheck elects is the one it has just published, and the store keeps
the lease of the elected claim on either way to a win.
-/

namespace NostrQ.Lease

open NostrQ.Foundation NostrQ.Core NostrQ.Database NostrQ.Sdk

/-- The claim has expired, or a nack has passed it. -/
def Spent (now : Int) (generation : U32) (c : ClaimInfo) : Prop :=
  now < c.leaseExpiresAt → c.attempt < generation

theorem Spent.mono {now now' : Int} {generation generation' : U32}
    {c : ClaimInfo} (h : Spent now generation c) (hnow : now ≤ now')
    (hgeneration : generation ≤ generation') : Spent now' generation' c :=
  fun hlease => lt_of_lt_of_le (h (lt_of_le_of_lt hnow hlease)) hgeneration

/-! ## The node's claims on the relay -/

namespace Party

variable (party : Party)

def ownClaims (relay : Relay) : List ClaimInfo :=
  (party.claims relay).filter fun c => c.claimer = party.key

def eligibleClaims (relay : Relay) (now : Int) : List ClaimInfo :=
  (party.ownClaims relay).filter fun c =>
    now < c.leaseExpiresAt ∧ party.nacked relay ≤ c.attempt

theorem ownClaims_append (first last : Relay) :
    party.ownClaims (first ++ last) =
      party.ownClaims first ++ party.ownClaims last := by
  rw [ownClaims, claims_append, List.filter_append]
  rfl

variable {party}

theorem ownClaims_eq_nil {relay : Relay}
    (h : ∀ accepted ∈ relay, ¬ party.IsClaim accepted.event) :
    party.ownClaims relay = [] := by
  rw [ownClaims, List.filter_eq_nil_iff]
  intro c hc hkey
  obtain ⟨event, hevent, hparse⟩ := mem_parseClaims.mp hc
  obtain ⟨hmatch, accepted, haccepted, rfl⟩ := Relay.mem_query.mp hevent
  refine h accepted haccepted ⟨?_, hmatch⟩
  rw [← (parseClaimEvent_ok hparse).1]
  exact of_decide_eq_true hkey

theorem ownClaims_claimEvent {call : ClaimCall}
    (hmessage : call.message = party.message)
    (hlease : InI64 call.leaseExpiresAt) (time : Nat) (observed : U32)
    (createdAt : U64) (id : EventId) :
    party.ownClaims [⟨time, party.claimEvent call observed createdAt id⟩] =
      [⟨party.key, id, toI64 createdAt.val, call.leaseExpiresAt,
        call.claimAttempt observed⟩] := by
  rw [ownClaims, claims_claimEvent hmessage hlease]
  simp

end Party

/-! ## What a call knows of them -/

section Facts

variable (party : Party) (w : World)

def World.elected (now : Int) : Option ClaimInfo :=
  claimWinner (party.claims w.claimsSeen) (party.nacked w.nacksSeen) now

def Contended (relay : Relay) (call : ClaimCall) (observed : U32) : Prop :=
  ∃ earlier c, party.ownClaims relay = earlier ++ [c] ∧
    (∀ e ∈ earlier, Spent call.now observed e) ∧
    c.leaseExpiresAt = call.leaseExpiresAt ∧
    c.attempt = call.claimAttempt observed

def StageFacts (call : ClaimCall) : ClaimStage → Prop
  | .surveyClaims observed => observed = party.nacked w.nacksSeen
  | .recognised winner =>
      w.elected party call.now = some winner ∧ winner.claimer = party.key
  | .contending observed =>
      observed = party.nacked w.nacksSeen ∧
        w.elected party call.now = none ∧
        ∀ c ∈ party.ownClaims w.relay, Spent call.now observed c
  | .settling observed _ =>
      observed = party.nacked w.nacksSeen ∧
        Contended party w.relay call observed
  | .recheckClaims observed =>
      observed = party.nacked w.nacksSeen ∧
        Contended party w.relay call observed
  | .recheckNacks observed claims =>
      observed = party.nacked w.nacksSeen ∧
        claims = party.claims w.claimsSeen ∧
        Contended party w.claimsSeen call observed
  | .contendWon observed => ∃ winner,
      w.elected party call.now = some winner ∧ winner.claimer = party.key ∧
        winner.leaseExpiresAt = call.leaseExpiresAt ∧
        winner.attempt = call.claimAttempt observed
  | _ => True

structure CallFacts (party : Party) (time : Nat) (call : ClaimCall) :
    Prop where
  message : call.message = party.message
  now_le : call.now ≤ timestamp time
  lease : InI64 call.leaseExpiresAt

def PhaseFacts : Option ClaimPhase → Prop
  | some (.entering record _ _) =>
      Hex32.fromHex record.eventId = some party.message
  | some (.during call stage) =>
      CallFacts party w.time call ∧ StageFacts party w call stage
  | _ => True

/-- All the node's claims but the last are spent. -/
structure Tidy : Prop where
  claims_prefix : w.claimsSeen <+: w.relay
  nacks_prefix : w.nacksSeen <+: w.relay
  spent : ∀ c ∈ (party.ownClaims w.relay).dropLast,
    Spent (timestamp w.time) (party.nacked w.relay) c
  phase : PhaseFacts party w w.claiming

end Facts

section Steps

variable {party : Party} {w w' : World}

theorem World.Aside.ownClaims (h : w.Aside party w') :
    party.ownClaims w'.relay = party.ownClaims w.relay := by
  obtain ⟨more, hmore, hquiet⟩ := h.relay
  rw [hmore, Party.ownClaims_append, Party.ownClaims_eq_nil hquiet,
    List.append_nil]

theorem World.Aside.prefix (h : w.Aside party w') : w.relay <+: w'.relay :=
  let ⟨more, hmore, _⟩ := h.relay
  ⟨more, hmore.symm⟩

private theorem StageFacts.aside {call : ClaimCall} {stage : ClaimStage}
    (hfacts : StageFacts party w call stage) (h : w.Aside party w') :
    StageFacts party w' call stage := by
  unfold StageFacts Contended World.elected at hfacts ⊢
  rw [h.nacksSeen, h.claimsSeen, h.ownClaims]
  exact hfacts

private theorem PhaseFacts.aside {claiming : Option ClaimPhase}
    (hfacts : PhaseFacts party w claiming) (h : w.Aside party w') :
    PhaseFacts party w' claiming := by
  unfold PhaseFacts at hfacts ⊢
  split at hfacts
  · exact hfacts
  · obtain ⟨hcall, hstage⟩ := hfacts
    exact ⟨⟨hcall.message, hcall.now_le.trans (timestamp_mono h.time_le),
      hcall.lease⟩, hstage.aside h⟩
  · trivial

theorem Tidy.aside (ht : Tidy party w) (h : w.Aside party w') :
    Tidy party w' where
  claims_prefix := by
    rw [h.claimsSeen]
    exact ht.claims_prefix.trans h.prefix
  nacks_prefix := by
    rw [h.nacksSeen]
    exact ht.nacks_prefix.trans h.prefix
  spent := by
    rw [h.ownClaims]
    exact fun c hc => (ht.spent c hc).mono (timestamp_mono h.time_le)
      (party.nacked_le_of_prefix h.prefix)
  phase := by
    rw [h.claiming]
    exact ht.phase.aside h

private theorem Tidy.enter (record : MessageRecord) (leaseSeconds settleMs : U64)
    (hhex : Hex32.fromHex record.eventId = some party.message) :
    PhaseFacts party w (some (ClaimPhase.enter record leaseSeconds settleMs
      (timestamp w.time))) := by
  rcases ClaimPhase.enter_cases record leaseSeconds settleMs
      (timestamp w.time) with ⟨heq, -⟩ | ⟨heq, -⟩ | ⟨message, hmessage, heq⟩ <;>
    rw [heq]
  · trivial
  · trivial
  · cases hhex.symm.trans hmessage
    exact ⟨⟨rfl, le_rfl, inI64_toI64 _⟩, trivial⟩

private theorem Contended.elected {relay : Relay} {call : ClaimCall}
    {observed generation : U32} {winner : ClaimInfo}
    (h : Contended party relay call observed) (hle : observed ≤ generation)
    (hwinner : claimWinner (party.claims relay) generation call.now =
      some winner)
    (hkey : winner.claimer = party.key) :
    winner.leaseExpiresAt = call.leaseExpiresAt ∧
      winner.attempt = call.claimAttempt observed := by
  obtain ⟨earlier, c, hown, hspent, hlease, hattempt⟩ := h
  obtain ⟨hmem, halive, hgeneration⟩ := claimWinner_mem hwinner
  have hin : winner ∈ earlier ++ [c] := by
    rw [← hown]
    exact List.mem_filter.mpr ⟨hmem, decide_eq_true hkey⟩
  rcases List.mem_append.mp hin with hearlier | hlast
  · have hpassed := hspent winner hearlier halive
    exact absurd (hle.trans hgeneration) (not_le.mpr hpassed)
  · rw [List.mem_singleton.mp hlast]
    exact ⟨hlease, hattempt⟩

private theorem Tidy.answers {phase next : ClaimPhase} {filter : Filter}
    (ht : Tidy party w) (hphase : w.claiming = some phase)
    (hfilter : phase.query? = some filter)
    (h : ClaimPhase.Answers party.key (w.relay.query filter) phase next) :
    Tidy party { w.look phase with claiming := some next } := by
  have hfacts := ht.phase
  rw [hphase] at hfacts
  have hself : w.relay <+: w.relay := List.prefix_rfl
  cases h with
  | @terminal call =>
      refine ⟨ht.claims_prefix, ht.nacks_prefix, ht.spent, ?_⟩
      rcases call.afterTerminal_cases (w.relay.query filter) with
        ⟨heq, -⟩ | ⟨heq, -⟩ | ⟨heq, -⟩ <;> rw [heq] <;>
        exact ⟨hfacts.1, trivial⟩
  | @nacks call =>
      cases hfilter
      refine ⟨ht.claims_prefix, hself, ht.spent, hfacts.1, ?_⟩
      rw [hfacts.1.message]
      rfl
  | @claims call observed =>
      cases hfilter
      obtain ⟨hcall, hobserved⟩ := hfacts
      refine ⟨hself, ht.nacks_prefix, ht.spent, ?_⟩
      rw [hcall.message]
      change observed = party.nacked w.nacksSeen at hobserved
      rcases call.afterSurvey_cases party.key observed
        (party.claims w.relay) with ⟨winner, hwinner, hkey, heq⟩ |
          ⟨winner, -, -, heq⟩ | ⟨hnone, heq⟩
      · rw [hobserved] at hwinner
        exact heq ▸ ⟨hcall, hwinner, hkey⟩
      · exact heq ▸ trivial
      · have hspent := claimWinner_eq_none.mp hnone
        rw [hobserved] at hnone
        exact heq ▸ ⟨hcall, hobserved, hnone, fun c hc =>
          hspent c (List.mem_of_mem_filter hc)⟩
  | @recheckClaims call observed =>
      cases hfilter
      obtain ⟨hcall, hobserved, hcontended⟩ := hfacts
      refine ⟨hself, ht.nacks_prefix, ht.spent, hcall, hobserved, ?_, hcontended⟩
      rw [hcall.message]
      rfl
  | @recheckNacks call observed claims =>
      cases hfilter
      obtain ⟨hcall, hobserved, hclaims, hcontended⟩ := hfacts
      refine ⟨ht.claims_prefix, hself, ht.spent, ?_⟩
      rw [hcall.message]
      -- the survey saw a part of the nacks that the recheck sees
      have hle : observed ≤ party.nacked w.relay := by
        rw [hobserved]
        exact party.nacked_le_of_prefix ht.nacks_prefix
      rcases call.afterRecheck_cases party.key observed claims
        (w.relay.query (nackFilter party.message)) with
          ⟨winner, hwinner, hkey, heq⟩ | ⟨-, heq⟩
      · change claimWinner claims (max observed (party.nacked w.relay))
          call.now = some winner at hwinner
        rw [max_eq_right hle, hclaims] at hwinner
        exact heq ▸ ⟨hcall, winner, hwinner, hkey,
          hcontended.elected hle hwinner hkey⟩
      · exact heq ▸ trivial

private theorem Tidy.claimed {call : ClaimCall} {observed : U32}
    {next : ClaimPhase} (ht : Tidy party w)
    (hphase : w.claiming = some (.during call (.contending observed)))
    (createdAt : U64) (id : EventId)
    (hnext : ∀ relay, party.nacked w.nacksSeen = observed →
      Contended party relay call observed →
      PhaseFacts party { w with relay := relay } (some next)) :
    Tidy party { w.accept (party.claimEvent call observed createdAt id) with claiming := some next } := by
  have hfacts := ht.phase
  rw [hphase] at hfacts
  obtain ⟨hcall, hobserved, -, hspent⟩ := hfacts
  have hgrown := List.prefix_append w.relay
    [⟨w.time, party.claimEvent call observed createdAt id⟩]
  have hown := party.ownClaims_append w.relay
    [⟨w.time, party.claimEvent call observed createdAt id⟩]
  rw [Party.ownClaims_claimEvent hcall.message hcall.lease] at hown
  refine ⟨ht.claims_prefix.trans hgrown, ht.nacks_prefix.trans hgrown, ?_,
    hnext _ hobserved.symm ⟨_, _, hown, hspent, rfl, rfl⟩⟩
  change ∀ c ∈ (party.ownClaims (w.relay ++ _)).dropLast, _
  rw [hown, List.dropLast_concat]
  refine fun c hc => (hspent c hc).mono hcall.now_le ?_
  have hle := party.nacked_le_of_prefix
    (ht.nacks_prefix.trans hgrown)
  rwa [← hobserved] at hle

theorem Tidy.claims {phase : ClaimPhase} {move : Move} (ht : Tidy party w)
    (hphase : w.claiming = some phase) (h : w.Claims party phase move w') :
    Tidy party w' := by
  cases h with
  | proceed hproceeds =>
      refine ⟨ht.claims_prefix, ht.nacks_prefix, ht.spent, ?_⟩
      have hfacts := ht.phase
      rw [hphase] at hfacts
      cases hproceeds with
      | enter => exact Tidy.enter _ _ _ hfacts
      | expire => trivial
      | wake _ => exact hfacts
      | finish _ => trivial
  | query hfilter hanswers => exact ht.answers hphase hfilter hanswers
  | publish heq =>
      subst heq
      have hcall := ht.phase
      rw [hphase] at hcall
      exact ht.claimed hphase _ _ fun relay hobserved hcontended =>
        ⟨hcall.1, hobserved.symm, hcontended⟩
  | lose heq =>
      subst heq
      exact ht.claimed hphase _ _ fun _ _ _ => trivial
  | fail => exact ⟨ht.claims_prefix, ht.nacks_prefix, ht.spent, trivial⟩
  | drop => exact ⟨ht.claims_prefix, ht.nacks_prefix, ht.spent, trivial⟩

theorem Tidy.step {action : Action} (ht : Tidy party w)
    (h : w.step party action = some w') : Tidy party w' := by
  rcases (World.step_cases h).claiming_cases with haside |
    ⟨record, leaseSeconds, settleMs, -, -, hhex, rfl⟩ |
    ⟨phase, move, -, hphase, hclaims⟩
  · exact ht.aside haside
  · exact ⟨List.nil_prefix, List.nil_prefix, ht.spent, hhex⟩
  · exact ht.claims hphase hclaims

theorem tidy {P : World → Action → Prop} (h : (system party).Reach P w) :
    Tidy party w :=
  h.invariant (I := Tidy party)
    (fun w h₀ => ⟨h₀.claimsSeen ▸ List.nil_prefix,
      h₀.nacksSeen ▸ List.nil_prefix,
      by simp [Party.ownClaims_eq_nil h₀.unclaimed], by
        rw [h₀.claiming]
        trivial⟩)
    fun _ _ _ _ hi _ hs => hi.step hs

/-- The row keeps the lease of the claim, and counts its attempt at least. -/
structure Records (row : Row) (c : ClaimInfo) : Prop where
  status : row.status = .claimed
  lease : row.leaseExpiresAt = some c.leaseExpiresAt
  attempt_le : c.attempt.val ≤ row.attempts

theorem Records.of_claim (row : Row) {consumer : String} {lease : Int}
    {attempt : U32} {c : ClaimInfo} (hlease : c.leaseExpiresAt = lease)
    (hattempt : c.attempt = attempt) :
    Records (row.set (row.toProgress.claim consumer lease attempt)) c where
  status := rfl
  lease := congrArg some hlease.symm
  attempt_le := by
    rw [hattempt]
    exact le_max_right _ _

private theorem Records.of_moves {s s' : Store} {mid : String} {row : Row}
    {consumer : String} {lease : Int} {attempt : U32} {c : ClaimInfo}
    (hmoves : s.Moves s' mid fun p => p.claim consumer lease attempt)
    (hrow : s.row? mid = some row) (hlease : c.leaseExpiresAt = lease)
    (hattempt : c.attempt = attempt) :
    ∃ row, s'.row? mid = some row ∧ Records row c := by
  exact ⟨row.set (row.toProgress.claim consumer lease attempt),
    hmoves.row hrow, Records.of_claim row hlease hattempt⟩

private theorem Tidy.recorded {phase : ClaimPhase} {move : Move}
    (ht : Tidy party w) (hphase : w.claiming = some phase)
    (h : w.Claims party phase move w')
    (htrue : w'.claiming = some (.returned (.ok true))) :
    ∃ call stage c row, w.claiming = some (.during call stage) ∧
      w.elected party call.now = some c ∧ c.claimer = party.key ∧
      w'.store.row? call.record.mid = some row ∧ Records row c := by
  have hfacts := ht.phase
  rw [hphase] at hfacts
  cases h with
  | proceed hproceeds =>
      cases hproceeds with
      | enter =>
          exact absurd (Option.some.inj htrue) (ClaimPhase.enter_ne_won _ _ _ _)
      | expire | wake _ => cases htrue
      | @finish call stage store result hfinish =>
          have hresult : result = .ok true := by
            cases htrue
            rfl
          cases ClaimPhase.finishes hfinish with
          | acked _ hne | buried _ hne => exact absurd hresult hne
          | @recognised winner _ hmoves hrow =>
              obtain ⟨row, hrow⟩ := hrow hresult
              obtain ⟨-, hwinner, hkey⟩ := hfacts
              obtain ⟨row', hrow', hrecords⟩ :=
                Records.of_moves (c := winner) hmoves hrow rfl rfl
              exact ⟨call, _, winner, row', hphase, hwinner, hkey, hrow',
                hrecords⟩
          | @contendWon observed _ hmoves hrow =>
              obtain ⟨row, hrow⟩ := hrow hresult
              obtain ⟨-, winner, hwinner, hkey, hlease, hattempt⟩ := hfacts
              obtain ⟨row', hrow', hrecords⟩ :=
                Records.of_moves hmoves hrow hlease hattempt
              exact ⟨call, _, winner, row', hphase, hwinner, hkey, hrow',
                hrecords⟩
  | query _ hanswers =>
      obtain ⟨_, _, -, rfl | ⟨_, rfl, -⟩⟩ := hanswers.next_cases <;> cases htrue
  | publish _ | lose _ | fail | drop => cases htrue

private theorem Tidy.eligible_le (ht : Tidy party w) :
    (party.eligibleClaims w.relay (timestamp w.time)).length ≤ 1 := by
  rw [Party.eligibleClaims]
  rcases List.eq_nil_or_concat' (party.ownClaims w.relay) with
    hown | ⟨earlier, c, hown⟩
  · simp [hown]
  · have hspent := ht.spent
    rw [hown, List.dropLast_concat] at hspent
    have hnone : earlier.filter (fun c => decide (timestamp w.time <
        c.leaseExpiresAt ∧ party.nacked w.relay ≤ c.attempt)) = [] := by
      rw [List.filter_eq_nil_iff]
      intro e he heligible
      obtain ⟨hlease, hattempt⟩ := of_decide_eq_true heligible
      exact absurd hattempt (not_le.mpr (hspent e he hlease))
    rw [hown, List.filter_append, hnone, List.nil_append]
    exact List.length_filter_le _ _

private theorem Tidy.unelected {phase : ClaimPhase} {draft : Draft}
    (ht : Tidy party w) (hphase : w.claiming = some phase)
    (hdraft : phase.publish? party.hashtag = some draft) :
    ∃ call stage, phase = .during call stage ∧
      w.elected party call.now = none := by
  obtain ⟨call, observed, rfl, -⟩ := ClaimPhase.publish?_cases hdraft
  have hfacts := ht.phase
  rw [hphase] at hfacts
  exact ⟨call, _, rfl, hfacts.2.2.1⟩

/--
At every moment the node has at most one eligible claim on the message; a call
that is about to publish elected nobody; and a call that answers true leaves the
row claimed with the lease of its own claim, the one elected by what its last
queries returned.
-/
theorem own_claim_sole_and_recorded
    (h : (system party).Reach System.Free w) :
    (party.eligibleClaims w.relay (timestamp w.time)).length ≤ 1 ∧
    (w.claimsSeen <+: w.relay ∧ w.nacksSeen <+: w.relay) ∧
    (∀ phase draft, w.claiming = some phase →
      phase.publish? party.hashtag = some draft →
      ∃ call stage, phase = .during call stage ∧
        w.elected party call.now = none) ∧
    ∀ action w', w.step party action = some w' →
      w'.claiming = some (.returned (.ok true)) → w.claiming ≠ w'.claiming →
      ∃ call stage c row, w.claiming = some (.during call stage) ∧
        w.elected party call.now = some c ∧ c.claimer = party.key ∧
        w'.store.row? call.record.mid = some row ∧ Records row c := by
  have ht := tidy h
  refine ⟨ht.eligible_le, ⟨ht.claims_prefix, ht.nacks_prefix⟩,
    fun phase draft hphase hdraft => ht.unelected hphase hdraft,
    fun action w' hstep htrue hchanged => ?_⟩
  rcases (World.step_cases hstep).claiming_cases with haside |
    ⟨record, leaseSeconds, settleMs, -, -, -, rfl⟩ |
    ⟨phase, move, -, hphase, hclaims⟩
  · exact absurd haside.claiming.symm hchanged
  · cases htrue
  · exact ht.recorded hphase hclaims htrue

theorem own_claim_sole_and_recorded_won :
    ∃ w w' call stage c row,
      (system sampleParty).Reach System.Free w ∧
      w.step sampleParty (.claim .proceed) = some w' ∧
      w.claiming = some (.during call stage) ∧
      w.elected sampleParty call.now = some c ∧
      w'.store.row? call.record.mid = some row ∧ Records row c := by
  obtain ⟨w, hreach, htest⟩ :=
    (sampleWorld_reach System.Free).of_run_check
      (claimMoves 60 (hexOf '1'))
      (fun w : World => (w.step sampleParty (.claim .proceed)).any
        fun w' : World => decide (w'.claiming = some (.returned (.ok true)) ∧
          w.claiming ≠ w'.claiming)) (by decide)
  obtain ⟨w', hstep, hchecked⟩ := (Option.any_eq_true _ _).mp htest
  obtain ⟨htrue, hchanged⟩ := of_decide_eq_true hchecked
  obtain ⟨call, stage, c, row, hphase, helected, -, hrow, hrecords⟩ :=
    (own_claim_sole_and_recorded hreach).2.2.2 _ w' hstep htrue hchanged
  exact ⟨w, w', call, stage, c, row, hreach, hstep, hphase, helected, hrow,
    hrecords⟩

end Steps

end NostrQ.Lease
