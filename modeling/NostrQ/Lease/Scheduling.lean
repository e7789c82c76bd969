import NostrQ.Lease.Ledger
import NostrQ.Sdk.Scheduling

/-!
# The lease of a row and the lease of a claim

A row is claimed with the lease of a claim that the node has on the relay.  The
store hands the row out again at the second at which the election drops the
claim; only a nack can make the election drop it before.
-/

namespace NostrQ.Lease

open NostrQ.Foundation NostrQ.Core NostrQ.Database NostrQ.Sdk

def Backed (party : Party) (relay : Relay) (s : Store) : Prop :=
  ∃ row, s.row? party.mid = some row ∧ (row.status = .claimed →
    ∃ c ∈ party.ownClaims relay, Records row c)

structure World.Unclaimed (party : Party) (w : World) : Prop where
  fresh : w.Untried party
  unclaimed : ∀ row ∈ w.store.row? party.mid, row.status ≠ .claimed

section Steps

variable {party : Party} {relay relay' : Relay} {s s' : Store} {w w' : World}

theorem Party.ownClaims_mono (h : relay <+: relay') {c : ClaimInfo}
    (hc : c ∈ party.ownClaims relay) : c ∈ party.ownClaims relay' := by
  obtain ⟨more, rfl⟩ := h
  rw [ownClaims_append]
  exact List.mem_append_left _ hc

theorem Backed.grow (h : Backed party relay s) (hgrown : relay <+: relay') :
    Backed party relay' s := by
  obtain ⟨row, hrow, hclaimed⟩ := h
  refine ⟨row, hrow, fun hstatus => ?_⟩
  obtain ⟨c, hc, hrecords⟩ := hclaimed hstatus
  exact ⟨c, Party.ownClaims_mono hgrown hc, hrecords⟩

theorem Backed.stay (h : Backed party relay s)
    (hstay : ∀ row ∈ s.row? party.mid, s'.row? party.mid = some row) :
    Backed party relay s' := by
  obtain ⟨row, hrow, hclaimed⟩ := h
  exact ⟨row, hstay row hrow, hclaimed⟩

theorem Backed.expireDue (h : Backed party relay s) (queue : String)
    (now : Int) : Backed party relay (s.expireDue queue now).2 := by
  obtain ⟨row, hrow, hclaimed⟩ := h
  refine ⟨_, by rw [Store.expireDue_row?, hrow, Option.map_some], ?_⟩
  split
  · intro hstatus
    simp at hstatus
  · exact hclaimed

theorem Backed.moves {mid : String} {change : Progress → Progress}
    (h : Backed party relay s) (hmoves : s.Moves s' mid change)
    (hchange : ∀ row : Row,
      (row.status = .claimed → ∃ c ∈ party.ownClaims relay, Records row c) →
      (change row.toProgress).status = .claimed →
      ∃ c ∈ party.ownClaims relay,
        Records (row.set (change row.toProgress)) c) :
    Backed party relay s' := by
  obtain ⟨row, hrow, hclaimed⟩ := h
  by_cases heq : party.mid = mid
  · rw [← heq] at hmoves
    exact ⟨row.set (change row.toProgress), hmoves.row hrow,
      hchange row hclaimed⟩
  · exact ⟨row, by rw [hmoves party.mid, if_neg heq, hrow], hclaimed⟩

theorem Backed.released {mid : String} {change : Progress → Progress}
    (h : Backed party relay s) (hmoves : s.Moves s' mid change)
    (hchange : ∀ p, (change p).status ≠ .claimed) : Backed party relay s' :=
  h.moves hmoves fun _ _ hstatus => absurd hstatus (hchange _)

theorem Backed.incrAttempts (h : Backed party relay s) (mid : String) :
    Backed party relay (s.incrAttempts mid).2 := by
  refine h.moves Store.incrAttempts_moves fun row hclaimed hstatus => ?_
  obtain ⟨c, hc, hrecords⟩ := hclaimed hstatus
  exact ⟨c, hc, hrecords.status, hrecords.lease,
    hrecords.attempt_le.trans (Nat.le_succ _)⟩

theorem Backed.claim {mid consumer : String} {lease : Int} {attempt : U32}
    {c : ClaimInfo} (h : Backed party relay s)
    (hmoves : s.Moves s' mid fun p => p.claim consumer lease attempt)
    (hc : c ∈ party.ownClaims relay) (hlease : c.leaseExpiresAt = lease)
    (hattempt : c.attempt = attempt) : Backed party relay s' :=
  h.moves hmoves fun row _ _ =>
    ⟨c, hc, Records.of_claim row hlease hattempt⟩

theorem Tidy.elected_mem {now : Int} {winner : ClaimInfo} (ht : Tidy party w)
    (hwinner : w.elected party now = some winner)
    (hkey : winner.claimer = party.key) :
    winner ∈ party.ownClaims w.relay :=
  Party.ownClaims_mono ht.claims_prefix
    (List.mem_filter.mpr ⟨(claimWinner_mem hwinner).1, decide_eq_true hkey⟩)

theorem Backed.claims {phase : ClaimPhase} {move : Move}
    (h : Backed party w.relay w.store) (ht : Tidy party w)
    (hphase : w.claiming = some phase) (hs : w.Claims party phase move w') :
    Backed party w'.relay w'.store := by
  have hfacts := ht.phase
  rw [hphase] at hfacts
  cases hs with
  | proceed hproceeds =>
      cases hproceeds with
      | enter | wake _ => exact h
      | expire => exact h.expireDue _ _
      | finish hfinish =>
          cases ClaimPhase.finishes hfinish with
          | acked hmoves _ => exact h.released hmoves fun _ => by simp
          | buried hmoves _ => exact h.released hmoves fun _ => by simp
          | recognised hmoves _ =>
              obtain ⟨-, hwinner, hkey⟩ := hfacts
              exact h.claim hmoves (ht.elected_mem hwinner hkey) rfl rfl
          | contendWon hmoves _ =>
              obtain ⟨-, winner, hwinner, hkey, hlease, hattempt⟩ := hfacts
              exact h.claim hmoves (ht.elected_mem hwinner hkey) hlease hattempt
  | query _ _ => simpa using h
  | publish _ | lose _ => exact h.grow (List.prefix_append _ _)
  | fail | drop => exact h

theorem Backed.settles {index : Nat} {phase : SettlePhase} {move : Move}
    (h : Backed party w.relay w.store)
    (hs : w.Settles party index phase move w') :
    Backed party w'.relay w'.store := by
  cases hs with
  | proceed hproceeds =>
      cases hproceeds with
      | ack | nack | configure => exact h
      | count =>
          rw [SettlePhase.count_fst]
          exact h.incrAttempts _
      | finish hfinish =>
          cases SettlePhase.finishes hfinish with
          | acked hmoves => exact h.released hmoves fun _ => by simp
          | buried hmoves => exact h.released hmoves fun _ => by simp
          | requeued hmoves => exact h.released hmoves fun _ => by simp
  | publish _ _ | lose _ => exact h.grow (List.prefix_append _ _)
  | fail | drop => exact h

theorem Backed.step {action : Action} (h : Backed party w.relay w.store)
    (ht : Tidy party w) (hs : w.step party action = some w') :
    Backed party w'.relay w'.store := by
  cases World.step_cases hs with
  | advance | read _ | tryClaim _ _ | ack | nack => exact h
  | post _ => exact h.grow (List.prefix_append _ _)
  | elsewhere hstay => exact h.stay hstay
  | sweep => exact h.expireDue _ _
  | retry => exact h.released Store.dlqRetry_moves fun _ => by simp
  | claim hphase hclaims => exact h.claims ht hphase hclaims
  | settle _ hsettles => exact h.settles hsettles

theorem backed {P : World → Action → Prop}
    (h : ((system party).startingIn (World.Unclaimed party)).Reach P w) :
    Backed party w.relay w.store :=
  h.invariant (I := fun w => Backed party w.relay w.store)
    (fun w h₀ => by
      obtain ⟨row, hrow, -⟩ := h₀.fresh.stored
      exact ⟨row, hrow, fun hstatus => absurd hstatus (h₀.unclaimed row hrow)⟩)
    fun _ _ _ hr hi _ hs =>
      hi.step (tidy (hr.restart fun _ h₀ => h₀.fresh)) hs

theorem claimWinner_singleton (c : ClaimInfo) (minAttempt : U32) (now : Int) :
    claimWinner [c] minAttempt now = none ↔
      c.leaseExpiresAt ≤ now ∨ c.attempt < minAttempt := by
  rw [claimWinner_eq_none]
  simp only [List.mem_singleton, forall_eq]
  constructor
  · intro h
    rcases le_or_gt c.leaseExpiresAt now with hle | hlt
    · exact Or.inl hle
    · exact Or.inr (h hlt)
  · rintro (hle | hlt) halive
    · exact absurd halive (not_lt.mpr hle)
    · exact hlt

theorem Records.claimable_iff {row : Row} {c : ClaimInfo} {now : Int}
    (h : Records row c) (hpast : ¬ Store.PastTtl now row) :
    Store.Claimable row.queue now row ↔ c.leaseExpiresAt ≤ now := by
  have hleased : row.toProgress.Leased := fun _ => ⟨_, h.lease⟩
  rw [Store.claimable_iff (Or.inr h.status) hleased]
  simp [Store.readyAt, h.status, h.lease, hpast]

theorem Backed.claimed {row : Row} (h : Backed party relay s)
    (hrow : s.row? party.mid = some row) (hstatus : row.status = .claimed) :
    ∃ c ∈ party.ownClaims relay, Records row c := by
  obtain ⟨found, hfound, hclaimed⟩ := h
  cases hrow.symm.trans hfound
  exact hclaimed hstatus

/--
Every row that is still to be processed waits, can be claimed or is due, until a
time that it carries, and the queries return these classes.  A claimed row has
the lease of a claim of the node's: until an observed nack passes that claim,
the election drops it exactly when the row can be claimed again.
-/
theorem nothing_stranded {Envelope : Type} {codec : Codec Envelope}
    {key : PublicKey} {session : Session Envelope}
    (hsession : ((Session.system codec key).startingIn Session.Clean).Reach
      Session.Headroom session)
    (hw : ((system party).startingIn (World.Unclaimed party)).Reach
      System.Free w) :
    (∀ queue now, session.store.Scheduled queue now) ∧
    (∀ mid row, session.store.row? mid = some row → Store.Live row →
      ∃ leave, ∀ now, Store.Waiting row.queue now row ↔ now < leave) ∧
    ∀ row, w.store.row? party.mid = some row → row.status = .claimed →
      ∃ c ∈ party.ownClaims w.relay, Records row c ∧
        ∀ now minAttempt, ¬ Store.PastTtl now row →
          (claimWinner [c] minAttempt now = none ↔
            Store.Claimable row.queue now row ∨ c.attempt < minAttempt) := by
  refine ⟨Session.scheduled hsession, ?_, ?_⟩
  · intro mid row hrow hlive
    have hleased := (Session.timed hsession).leased mid row hrow
    exact ⟨Store.leavesAt row, fun now => Store.waiting_iff_lt hlive hleased⟩
  · intro row hrow hstatus
    obtain ⟨c, hc, hrecords⟩ := (backed hw).claimed hrow hstatus
    refine ⟨c, hc, hrecords, fun now minAttempt hpast => ?_⟩
    rw [claimWinner_singleton, hrecords.claimable_iff hpast]

end Steps

section Runs

theorem sampleWorld_unclaimed :
    ((system sampleParty).startingIn (World.Unclaimed sampleParty)).init
      sampleWorld := by
  refine ⟨⟨⟨sampleRecord.toRow, rfl, ?_⟩, ?_, ?_, rfl, rfl, rfl, rfl, rfl⟩, ?_⟩
  · decide
  · simp [sampleWorld]
  · simp [sampleWorld]
  · decide

def wonRun : List Action := claimMoves 60 (hexOf '1') ++ [.claim .proceed]

theorem nothing_stranded_won :
    ∃ (session : Session String) (w : World) (row : Row),
      session.store.row? "m" ≠ none ∧ session.store.Scheduled "jobs" 0 ∧
      w.store.row? "m" = some row ∧
      row.leaseExpiresAt = some 60 ∧
      ∃ c ∈ sampleParty.ownClaims w.relay, Records row c ∧
        (claimWinner [c] 0 59 ≠ none) ∧ claimWinner [c] 0 60 = none := by
  obtain ⟨w, hreach, htest⟩ :=
    (System.Reach.init (P := System.Free) sampleWorld_unclaimed).of_run_check
      wonRun (fun w : World => decide (∃ row ∈ w.store.row? "m",
        row.status = .claimed ∧ row.leaseExpiresAt = some 60 ∧
        row.expiresAt = none ∧ row.queue = "jobs")) (by decide)
  obtain ⟨row, hrow, hstatus, hlease, hexpires, hqueue⟩ := of_decide_eq_true htest
  obtain ⟨session, hsession, hstored⟩ :=
    (System.Reach.init
      (S := (Session.system Publishing.textCodec (hexOf 'a')).startingIn
        Session.Clean)
      (P := Session.Headroom) (s := Session.sampleSession)
      ⟨⟨Store.decodable_empty, rfl⟩, Store.leased_empty⟩).of_run_check
      [.ingest (Publishing.sampleDraft.sign (hexOf '0') 0 Publishing.sampleId)]
      (fun session : Session String =>
        decide (session.store.row? "m" ≠ none)) (by decide)
  obtain ⟨hscheduled, -, hclaimed⟩ := nothing_stranded hsession hreach
  obtain ⟨c, hc, hrecords, hlive⟩ := hclaimed row hrow hstatus
  have hpast : ∀ now, ¬ Store.PastTtl now row := by simp [Store.PastTtl, hexpires]
  refine ⟨session, w, row, of_decide_eq_true hstored, hscheduled "jobs" 0, hrow,
    hlease, c, hc, hrecords, ?_, ?_⟩
  · rw [Ne, hlive 59 0 (hpast 59), Store.Claimable]
    simp [hstatus, hlease]
  · rw [hlive 60 0 (hpast 60), Store.Claimable]
    simp [hstatus, hlease, hexpires]

def foreignNack : Event :=
  (buildNackEvent id ⟨sampleParty.message, "jobs", "m", "trace"⟩ 1 "failed").sign
    (hexOf 'b') 0 (hexOf '2')

/--
The nack passes the claim at once: the election drops it, and the row keeps its
lease.
-/
theorem passed_claim_still_leased :
    ∃ (w : World) (row : Row),
      ((system sampleParty).startingIn (World.Unclaimed sampleParty)).Reach
        System.Free w ∧
      w.store.row? "m" = some row ∧ row.status = .claimed ∧
      row.leaseExpiresAt = some 60 ∧ ¬ Store.PastTtl 0 row ∧
      (∀ c ∈ sampleParty.ownClaims w.relay,
        claimWinner [c] (sampleParty.nacked w.relay) 0 = none) ∧
      ¬ Store.Claimable "jobs" 0 row := by
  obtain ⟨w, hreach, htest⟩ :=
    (System.Reach.init (P := System.Free) sampleWorld_unclaimed).of_run_check
      (wonRun ++ [.post foreignNack])
      (fun w : World => decide ((∃ row ∈ w.store.row? "m",
        row.status = .claimed ∧ row.leaseExpiresAt = some 60 ∧
        ¬ Store.PastTtl 0 row ∧ ¬ Store.Claimable "jobs" 0 row) ∧
        ∀ c ∈ sampleParty.ownClaims w.relay,
          claimWinner [c] (sampleParty.nacked w.relay) 0 = none)) (by decide)
  obtain ⟨⟨row, hrow, hstatus, hlease, hpast, hnot⟩, hdropped⟩ :=
    of_decide_eq_true htest
  exact ⟨w, row, hreach, hrow, hstatus, hlease, hpast, hdropped, hnot⟩

end Runs

end NostrQ.Lease
