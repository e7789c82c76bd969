import NostrQ.Cluster.Winner
import NostrQ.Database.DeadLetters
import NostrQ.Sdk.Publish

/-!
# Timestamps that other programs choose

The creation time of an event is an unsigned word that its author fills in, and
it is read as a signed one.  The election orders claims by what was read, the
ingest loop subtracts it from the clock, and the statistics subtract what the
loop has stored.  Where an operation overflows the program does not go on.
-/

namespace NostrQ.Cluster

open NostrQ.Foundation NostrQ.Core NostrQ.Database NostrQ.Sdk

def skewSecs (now : Int) (event : Event) : Option (Int × Int) :=
  (checkedI64 (now - toI64 event.createdAt.val)).bind fun skew =>
    (checkedI64 skew.natAbs).map fun amount => (skew, amount)

section Codec

variable {Envelope : Type} (codec : Codec Envelope)

/--
One round of the ingest loop.  `none` is an overflow: it ends the loop in a build
with overflow checks, and wraps in a release build.
-/
def ingestRound (now : Int) (s : Store) (event : Event) : Option Store :=
  match parseMessageEvent codec event with
  | .error _ => some s
  | .ok _ => (skewSecs now event).map fun _ => ingest codec s event

def ingestLoop (s : Store) : List (Int × Event) → Option Store
  | [] => some s
  | (now, event) :: rest =>
      (ingestRound codec now s event).bind fun s' => ingestLoop s' rest

end Codec

/-- The age of the oldest pending message; the outer `none` is an overflow. -/
def oldestPendingAge (s : Store) (queue : String) (now : Int) :
    Option (Option Int) :=
  match s.oldestPending queue with
  | none => some none
  | some created => (checkedI64 (now - created)).map some

/-! ## When the operations are exact -/

/-- Outside the dates from which the clock is a whole signed range away. -/
def SkewFits (now : Int) (createdAt : U64) : Prop :=
  (createdAt.val : Int) < 9223372036854775808 + min now 0 ∨
    9223372036854775808 + max now (-1) < createdAt.val

instance (now : Int) (createdAt : U64) : Decidable (SkewFits now createdAt) :=
  inferInstanceAs (Decidable (_ ∨ _))

/-- The same, without the one date whose distance has no absolute value. -/
def AgeFits (now : Int) (createdAt : U64) : Prop :=
  (createdAt.val : Int) < 9223372036854775808 + min (now + 1) 0 ∨
    9223372036854775808 + max now (-1) < createdAt.val

instance (now : Int) (createdAt : U64) : Decidable (AgeFits now createdAt) :=
  inferInstanceAs (Decidable (_ ∨ _))

theorem inI64_natAbs {n : Int} :
    InI64 n ∧ InI64 n.natAbs ↔
      -9223372036854775808 < n ∧ n < 9223372036854775808 := by
  unfold InI64
  omega

theorem skewSecs_isSome_iff (now : Int) (event : Event) :
    (skewSecs now event).isSome ↔
      InI64 (now - toI64 event.createdAt.val) ∧
        InI64 (now - toI64 event.createdAt.val).natAbs := by
  unfold skewSecs
  generalize now - toI64 event.createdAt.val = skew
  cases hskew : checkedI64 skew with
  | none =>
      have hout : ¬ InI64 skew := by
        rw [← checkedI64_isSome, hskew]
        simp
      simp [hout]
  | some value =>
      obtain ⟨hin, rfl⟩ := checkedI64_eq_some.mp hskew
      rw [Option.bind_some, Option.isSome_map, checkedI64_isSome]
      simp [hin]

theorem skewSecs_isSome {now : Int} (hnow : InI64 now) (event : Event) :
    (skewSecs now event).isSome ↔ SkewFits now event.createdAt := by
  have htop := event.createdAt.isLt
  rw [skewSecs_isSome_iff, inI64_natAbs]
  unfold InI64 at hnow
  unfold SkewFits
  by_cases hlow : (event.createdAt.val : Int) < 9223372036854775808
  · rw [toI64_of_lt (by omega) hlow]
    omega
  · rw [toI64_of_ge (by omega) (by omega)]
    omega

theorem age_inI64 {now : Int} (hnow : InI64 now) (createdAt : U64) :
    InI64 (now - toI64 createdAt.val) ↔ AgeFits now createdAt := by
  have htop := createdAt.isLt
  unfold InI64 at hnow ⊢
  unfold AgeFits
  by_cases hlow : (createdAt.val : Int) < 9223372036854775808
  · rw [toI64_of_lt (by omega) hlow]
    omega
  · rw [toI64_of_ge (by omega) (by omega)]
    omega

theorem oldestPendingAge_isSome {s : Store} {queue : String} {now : Int}
    {created : Int} (h : s.oldestPending queue = some created) :
    (oldestPendingAge s queue now).isSome ↔ InI64 (now - created) := by
  unfold oldestPendingAge
  rw [h, Option.isSome_map, checkedI64_isSome]

theorem stats_oldestPendingAge {s : Store} {queue : String} {now : Int}
    {stats : QueueStats} {age : Option Int}
    (hstats : s.stats queue now = .ok stats)
    (hage : oldestPendingAge s queue now = some age) :
    stats.oldestPendingAgeSecs = age := by
  have hshown : stats.oldestPendingAgeSecs =
      (s.oldestPending queue).map fun created => toI64 (now - created) := by
    unfold Store.stats at hstats
    simp only [bind, Except.bind] at hstats
    repeat' split at hstats
    all_goals cases hstats
    rfl
  rw [hshown]
  unfold oldestPendingAge at hage
  cases hold : s.oldestPending queue with
  | none =>
      rw [hold] at hage
      exact Option.some.inj hage
  | some created =>
      rw [hold] at hage
      obtain ⟨exact, hexact, rfl⟩ := Option.map_eq_some_iff.mp hage
      obtain ⟨hin, rfl⟩ := checkedI64_eq_some.mp hexact
      have hwrap : toI64 (now - created) = now - created := by
        unfold InI64 at hin
        unfold toI64
        omega
      rw [Option.map_some, hwrap]

/-! ## The order of claims -/

def OrderedByDate (events : List Event) (minAttempt : U32) (now : Int) : Prop :=
  ∀ first ∈ events, ∀ second ∈ events, ∀ c d,
    parseClaimEvent first = .ok c → parseClaimEvent second = .ok d →
    Eligible minAttempt now c → first.createdAt < second.createdAt →
    claimWinner (parseClaims events) minAttempt now ≠ some d

/-- The eligible claims are dated on one side of the signed range's end. -/
def OneSided (events : List Event) (minAttempt : U32) (now : Int) : Prop :=
  ∀ first ∈ events, ∀ second ∈ events, ∀ c d,
    parseClaimEvent first = .ok c → parseClaimEvent second = .ok d →
    Eligible minAttempt now c → Eligible minAttempt now d →
    first.createdAt.val < 9223372036854775808 →
    second.createdAt.val < 9223372036854775808

private theorem toI64_lt_iff (a b : U64) :
    toI64 a.val < toI64 b.val ↔
      (9223372036854775808 ≤ a.val ∧ b.val < 9223372036854775808) ∨
      (a < b ∧
        (a.val < 9223372036854775808 ↔ b.val < 9223372036854775808)) := by
  have ha := a.isLt
  have hb := b.isLt
  rw [Fin.lt_def]
  unfold toI64
  omega

private theorem winner_createdAt_le {claims : List ClaimInfo} {minAttempt : U32}
    {now : Int} {c d : ClaimInfo}
    (h : claimWinner claims minAttempt now = some c) (hmem : d ∈ claims)
    (hel : Eligible minAttempt now d) : c.createdAt ≤ d.createdAt := by
  rw [claimWinner_eq] at h
  have hle : c.rank ≤ d.rank := Election.winner_le h hmem hel
  rcases Prod.Lex.le_iff.mp hle with hlt | ⟨heq, -⟩
  · exact le_of_lt hlt
  · exact le_of_eq heq

theorem orderedByDate_iff (events : List Event) (minAttempt : U32)
    (now : Int) :
    OrderedByDate events minAttempt now ↔ OneSided events minAttempt now := by
  constructor
  · intro h first hfirst second hsecond c d hc hd helc held hlow
    by_contra hhigh
    -- The winner is read as dated before the second claim, hence negative.
    cases hwins : claimWinner (parseClaims events) minAttempt now with
    | none =>
        have hlost := claimWinner_eq_none.mp hwins d
          (mem_parseClaims.mpr ⟨second, hsecond, hd⟩) held.1
        exact absurd held.2 (not_le.mpr hlost)
    | some w =>
        obtain ⟨event, hevent, hw⟩ :=
          mem_parseClaims.mp (claimWinner_mem hwins).1
        have hle := winner_createdAt_le hwins
          (mem_parseClaims.mpr ⟨second, hsecond, hd⟩) held
        rw [parseClaimEvent_createdAt hw, parseClaimEvent_createdAt hd] at hle
        have hnot := (toI64_lt_iff second.createdAt event.createdAt).not.mp
          (not_lt.mpr hle)
        have hlater : first.createdAt < event.createdAt := by
          rw [Fin.lt_def]
          omega
        exact h first hfirst event hevent c w hc hw helc hlater hwins
  · intro h first hfirst second hsecond c d hc hd helc hlt hwins
    have held : Eligible minAttempt now d := (claimWinner_mem hwins).2
    have hle := winner_createdAt_le hwins
      (mem_parseClaims.mpr ⟨first, hfirst, hc⟩) helc
    rw [parseClaimEvent_createdAt hc, parseClaimEvent_createdAt hd] at hle
    have hside := h first hfirst second hsecond c d hc hd helc held
    have hread : toI64 first.createdAt.val < toI64 second.createdAt.val := by
      rw [toI64_lt_iff]
      rw [Fin.lt_def] at hlt ⊢
      omega
    exact absurd hle (not_le.mpr hread)

/-! ## The ingest loop -/

section Loop

variable {Envelope : Type} {codec : Codec Envelope}

def WellFormed (codec : Codec Envelope) (event : Event) : Prop :=
  ∃ msg, parseMessageEvent codec event = .ok msg

theorem ingestRound_isSome {now : Int} (hnow : InI64 now) (s : Store)
    (event : Event) :
    (ingestRound codec now s event).isSome ↔
      (WellFormed codec event → SkewFits now event.createdAt) := by
  unfold ingestRound WellFormed
  cases hparse : parseMessageEvent codec event with
  | error e => simp
  | ok msg =>
      rw [Option.isSome_map, skewSecs_isSome hnow]
      simp

theorem ingestRound_eq {now : Int} {s s' : Store} {event : Event}
    (h : ingestRound codec now s event = some s') :
    s' = ingest codec s event := by
  unfold ingestRound at h
  split at h
  · next e hparse =>
      cases h
      simp [ingest, ingestRecord, hparse, Except.map]
  · obtain ⟨-, -, rfl⟩ := Option.map_eq_some_iff.mp h
    rfl

theorem ingestLoop_eq {deliveries : List (Int × Event)} {s s' : Store}
    (h : ingestLoop codec s deliveries = some s') :
    s' = (deliveries.map Prod.snd).foldl (ingest codec) s := by
  induction deliveries generalizing s with
  | nil => exact (Option.some.inj h).symm
  | cons delivery rest ih =>
      obtain ⟨next, hround, hrest⟩ := Option.bind_eq_some_iff.mp h
      rw [ih hrest, ingestRound_eq hround]
      rfl

theorem ingestLoop_isSome (deliveries : List (Int × Event))
    (hclock : ∀ delivery ∈ deliveries, InI64 delivery.1) (s : Store) :
    (ingestLoop codec s deliveries).isSome ↔
      ∀ delivery ∈ deliveries, WellFormed codec delivery.2 →
        SkewFits delivery.1 delivery.2.createdAt := by
  induction deliveries generalizing s with
  | nil => simp [ingestLoop]
  | cons delivery rest ih =>
      have hround : (ingestRound codec delivery.1 s delivery.2).isSome ↔
          (WellFormed codec delivery.2 →
            SkewFits delivery.1 delivery.2.createdAt) :=
        ingestRound_isSome (hclock delivery (by simp)) s delivery.2
      have hrest := ih fun other hmem => hclock other (by simp [hmem])
      rw [ingestLoop, List.forall_mem_cons, ← hround]
      cases hs : ingestRound codec delivery.1 s delivery.2 with
      | none => simp
      | some s' => simpa using hrest s'

/--
Claims win in the order of their dates, the ingest loop survives its events, and
the age of a stored message is a signed number, each exactly where the dates
keep away from the end of the signed range.
-/
theorem timestamps_exact_iff {now : Int} (hnow : InI64 now)
    {deliveries : List (Int × Event)}
    (hclock : ∀ delivery ∈ deliveries, InI64 delivery.1)
    (claims : List Event) (minAttempt : U32) (s : Store) :
    (OrderedByDate claims minAttempt now ↔ OneSided claims minAttempt now) ∧
    ((ingestLoop codec s deliveries).isSome ↔
      ∀ delivery ∈ deliveries, WellFormed codec delivery.2 →
        SkewFits delivery.1 delivery.2.createdAt) ∧
    ∀ event rec stored queue, ingestRecord codec event = .ok rec →
      Store.oldestPending stored queue = some rec.createdAt →
      ((oldestPendingAge stored queue now).isSome ↔
        AgeFits now event.createdAt) := by
  refine ⟨orderedByDate_iff claims minAttempt now,
    ingestLoop_isSome deliveries hclock s, ?_⟩
  intro event rec stored queue hrec hold
  rw [oldestPendingAge_isSome hold, (ingestRecord_ok hrec).2.2, age_inI64 hnow]

section Runs

open Publishing

def datedClaim (who : Char) (createdAt : U64) : Event :=
  (buildClaimEvent id ⟨sampleId, "jobs", "m", "trace"⟩ 60 0).sign
    (hexOf who) createdAt (hexOf who)

def datedMessage (createdAt : U64) : Event :=
  sampleDraft.sign (hexOf '0') createdAt sampleId

theorem timestamps_exact_iff_today :
    OrderedByDate [datedClaim 'a' 40, datedClaim 'b' 30] 0 50 ∧
    (ingestLoop textCodec .empty [(50, datedMessage 40)]).isSome ∧
    (oldestPendingAge (ingest textCodec .empty (datedMessage 40)) "jobs"
      50).isSome := by
  obtain ⟨horder, hloop, hage⟩ := @timestamps_exact_iff String textCodec 50
    (by decide) [(50, datedMessage 40)] (by decide)
    [datedClaim 'a' 40, datedClaim 'b' 30] 0 .empty
  refine ⟨horder.mpr ?_, hloop.mpr ?_, ?_⟩
  · intro first hfirst second hsecond _ _ _ _ _ _ _
    rcases List.mem_pair.mp hsecond with rfl | rfl <;> decide
  · intro delivery hmem _
    rw [List.mem_singleton.mp hmem]
    decide
  · have hparsed : (ingestRecord textCodec (datedMessage 40)).toOption.isSome :=
      by decide
    cases hrec : ingestRecord textCodec (datedMessage 40) with
    | error e =>
        rw [hrec] at hparsed
        contradiction
    | ok rec =>
        refine (hage _ rec _ _ hrec ?_).mpr (by decide)
        rw [(ingestRecord_ok hrec).2.2]
        decide

/--
An author dates an event 2^63 seconds after 1970.  As a claim it beats one made
in the first minute, as a message it ends the ingest loop, and stored with its
date as read it has no age.
-/
theorem far_future_wraps :
    ¬ OrderedByDate [datedClaim 'a' 40,
      datedClaim 'b' 9223372036854775808] 0 50 ∧
    ingestLoop textCodec .empty [(50, datedMessage 9223372036854775808)] =
      none ∧
    oldestPendingAge
      (ingest textCodec .empty (datedMessage 9223372036854775808)) "jobs" 50 =
      none := by
  refine ⟨fun h => ?_, by decide, by decide⟩
  exact h _ (List.mem_cons_self) _ (List.mem_cons_of_mem _ List.mem_cons_self)
    ⟨hexOf 'a', hexOf 'a', 40, 60, 0⟩
    ⟨hexOf 'b', hexOf 'b', -9223372036854775808, 60, 0⟩
    (by decide) (by decide) (by decide) (by decide) (by decide)

end Runs

end Loop

end NostrQ.Cluster
