import NostrQ.Cluster.Board

/-!
# The winner depends on the claims only

Workers fetch the claims of a message in different orders, with repetitions, and
at different moments.  Where an event id identifies a claim they compute the
same winner, and a winner stays one as later claims arrive until its lease ends.
-/

namespace NostrQ.Cluster

open NostrQ.Foundation NostrQ.Core

/-- No two of the claims share an event id. -/
def Identified (claims : List ClaimInfo) : Prop :=
  ∀ a ∈ claims, ∀ b ∈ claims, a.claimEventId = b.claimEventId → a = b

instance (claims : List ClaimInfo) : Decidable (Identified claims) :=
  inferInstanceAs (Decidable (∀ _ ∈ _, ∀ _ ∈ _, _))

/-- Created earlier, or in the same second and with the lesser event id. -/
def Before (first second : ClaimInfo) : Prop :=
  first.createdAt < second.createdAt ∨
    (first.createdAt = second.createdAt ∧
      first.claimEventId.toHex < second.claimEventId.toHex)

instance (first second : ClaimInfo) : Decidable (Before first second) :=
  inferInstanceAs (Decidable (_ ∨ _ ∧ _))

/-- Unexpired, and not released by a nack. -/
def Eligible (minAttempt : U32) (now : Int) (claim : ClaimInfo) : Prop :=
  now < claim.leaseExpiresAt ∧ minAttempt ≤ claim.attempt

instance (minAttempt : U32) (now : Int) (claim : ClaimInfo) :
    Decidable (Eligible minAttempt now claim) :=
  inferInstanceAs (Decidable (_ ∧ _))

structure Least (claims : List ClaimInfo) (minAttempt : U32) (now : Int)
    (winner : ClaimInfo) : Prop where
  mem : winner ∈ claims
  eligible : Eligible minAttempt now winner
  first : ∀ claim ∈ claims, Eligible minAttempt now claim →
    claim ≠ winner → Before winner claim

theorem rank_lt_iff {first second : ClaimInfo} :
    first.rank < second.rank ↔ Before first second :=
  Prod.Lex.lt_iff

theorem Identified.rank_inj {claims : List ClaimInfo} (h : Identified claims) :
    ∀ a ∈ claims, ∀ b ∈ claims,
      claimElection.rank a = claimElection.rank b → a = b := by
  intro a ha b hb hrank
  have hpair := congrArg (fun r : Rank => (ofLex r).2) hrank
  exact h a ha b hb (Hex32.ext_toHex hpair)

theorem least_iff_leads {claims : List ClaimInfo} {minAttempt : U32}
    {now : Int} {winner : ClaimInfo} :
    Least claims minAttempt now winner ↔
      claimElection.Leads claims minAttempt.val now winner := by
  constructor
  · intro h
    exact ⟨h.mem, h.eligible, fun claim hmem hel hne =>
      rank_lt_iff.mpr (h.first claim hmem hel hne)⟩
  · intro h
    exact ⟨h.mem, h.eligible, fun claim hmem hel hne =>
      rank_lt_iff.mp (h.first claim hmem hel hne)⟩

theorem identified_parseClaims {events : List Event}
    (h : ∀ a ∈ events, ∀ b ∈ events, a.id = b.id → a = b) :
    Identified (parseClaims events) := by
  intro c hc d hd hid
  obtain ⟨a, ha, hparsec⟩ := mem_parseClaims.mp hc
  obtain ⟨b, hb, hparsed⟩ := mem_parseClaims.mp hd
  have heq : a = b := h a ha b hb (by
    rw [← (parseClaimEvent_ok hparsec).2.1, ← (parseClaimEvent_ok hparsed).2.1,
      hid])
  subst heq
  exact Except.ok.inj (hparsec.symm.trans hparsed)

/--
Two lists of the same claims have the same winner: the least of the eligible
claims, if there is one.  It wins over any more claims that all come after it,
at any later moment before its lease ends.
-/
theorem claimWinner_stable {first second : List ClaimInfo}
    (hid : Identified first) (hsame : ∀ c, c ∈ first ↔ c ∈ second)
    (minAttempt : U32) (now : Int) :
    claimWinner first minAttempt now = claimWinner second minAttempt now ∧
    (∀ winner, claimWinner first minAttempt now = some winner ↔
      Least first minAttempt now winner) ∧
    (claimWinner first minAttempt now = none ↔
      ∀ c ∈ first, ¬ Eligible minAttempt now c) ∧
    ∀ winner, claimWinner first minAttempt now = some winner →
      ∀ more now', (∀ c ∈ first, c ∈ more) →
        (∀ c ∈ more, c ∉ first → Before winner c) →
        now ≤ now' → now' < winner.leaseExpiresAt →
        claimWinner more minAttempt now' = some winner := by
  simp only [claimWinner_eq, least_iff_leads]
  have hleads : ∀ winner, claimElection.winner first minAttempt.val now =
      some winner ↔ claimElection.Leads first minAttempt.val now winner :=
    fun _ => Election.winner_eq_some_iff hid.rank_inj
  refine ⟨Election.winner_congr hid.rank_inj hsame, hleads,
    Election.winner_eq_none, ?_⟩
  intro winner hwins more now' hsub hmore hle hlease
  exact (((hleads winner).mp hwins).extend hsub
    (fun c hmem hnew => rank_lt_iff.mpr (hmore c hmem hnew)) hle hlease).winner

section Tie

def tiedClaim (c : Char) : ClaimInfo :=
  ⟨hexOf c, hexOf c, 1, 61, 0⟩

theorem claimWinner_stable_tie :
    claimWinner [tiedClaim 'a', tiedClaim 'b'] 0 1 =
      claimWinner [tiedClaim 'b', tiedClaim 'a', tiedClaim 'b'] 0 1 ∧
    claimWinner [tiedClaim 'b', tiedClaim 'a', tiedClaim 'c'] 0 60 =
      some (tiedClaim 'a') := by
  have hid : Identified [tiedClaim 'a', tiedClaim 'b'] := by decide
  have hmem : ∀ c, c ∈ [tiedClaim 'a', tiedClaim 'b'] ↔
      c ∈ [tiedClaim 'b', tiedClaim 'a', tiedClaim 'b'] := by
    simp [or_comm]
  obtain ⟨hsame, -, -, hlater⟩ := claimWinner_stable hid hmem 0 1
  exact ⟨hsame, hlater (tiedClaim 'a') (by decide)
    [tiedClaim 'b', tiedClaim 'a', tiedClaim 'c'] 60 (by decide) (by decide)
    (by decide) (by decide)⟩

end Tie

end NostrQ.Cluster
