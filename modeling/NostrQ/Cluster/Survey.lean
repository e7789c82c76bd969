import NostrQ.Cluster.SettleWindow

/-!
# What a call has seen

The facts a call collects on its way from the survey to the decision, as
statements about the board alone.  They survive whatever the others post.
-/

namespace NostrQ.Cluster

open NostrQ.Foundation NostrQ.Core NostrQ.Database NostrQ.Sdk NostrQ.Worker

section Facts

variable (owner : PublicKey) (board : Board ClaimInfo PublicKey)

def Quiet (n : Nat) : Prop :=
  ∀ j entry, board[j]? = some entry → n ≤ j →
    claimElection.author entry.post ≠ owner

structure Looked (now : Int) (n : Nat) : Prop where
  le : n ≤ board.length
  quiet : Quiet owner board n
  now_le : ∀ j entry, board[j]? = some entry → n ≤ j →
    now ≤ timestamp entry.time

structure Surveyed (time : Nat) (now : Int) (observed : U32) (v : View) :
    Prop where
  valid : v.Valid timestamp board
  releases_le : v.releases ≤ v.claims
  elected : claimElection.elect board v = none
  now_eq : v.now = now
  observed_eq : observed.val = Board.generation (board.take v.releases)
  time_le : v.time ≤ time

structure Posted (call : ClaimCall) (observed : U32) (v : View) (i t : Nat) :
    Prop where
  own : ∃ c, board[i]? = some ⟨t, .claim c⟩ ∧
    c.leaseExpiresAt = call.leaseExpiresAt ∧
    c.attempt = call.claimAttempt observed
  after : v.claims ≤ i
  only : ∀ j entry, board[j]? = some entry → v.claims ≤ j → j ≠ i →
    claimElection.author entry.post ≠ owner

structure Rechecked (time : Nat) (now : Int) (claims : List ClaimInfo)
    (n at_ : Nat) : Prop where
  le : n ≤ board.length
  claims_eq : claims = Board.claims (board.take n)
  later : ∀ entry ∈ board.drop n, at_ ≤ entry.time
  now_le : now ≤ timestamp at_
  time_le : at_ ≤ time

variable {owner board} {more : Board ClaimInfo PublicKey} {time time' : Nat}
  {now : Int} {call : ClaimCall} {observed : U32}

theorem Quiet.end : Quiet owner board board.length := by
  intro j entry hj hle
  rw [List.getElem?_eq_none hle] at hj
  contradiction

private theorem getElem?_append_cases {j : Nat}
    {entry : Stamped ClaimInfo PublicKey}
    (h : (board ++ more)[j]? = some entry) :
    board[j]? = some entry ∨ entry ∈ more := by
  by_cases hlt : j < board.length
  · rw [List.getElem?_append_left hlt] at h
    exact Or.inl h
  · rw [List.getElem?_append_right (by omega)] at h
    exact Or.inr (List.mem_of_getElem? h)

theorem Quiet.append {n : Nat} (h : Quiet owner board n)
    (hmore : ∀ entry ∈ more, claimElection.author entry.post ≠ owner) :
    Quiet owner (board ++ more) n := by
  intro j entry hj hle
  rcases getElem?_append_cases hj with hold | hnew
  · exact h j entry hold hle
  · exact hmore entry hnew

theorem Looked.append {n : Nat} (h : Looked owner board now n)
    (hmore : ∀ entry ∈ more, claimElection.author entry.post ≠ owner)
    (hnow : ∀ entry ∈ more, now ≤ timestamp entry.time) :
    Looked owner (board ++ more) now n where
  le := h.le.trans (by simp)
  quiet := h.quiet.append hmore
  now_le := by
    intro j entry hj hle
    rcases getElem?_append_cases hj with hold | hnew
    · exact h.now_le j entry hold hle
    · exact hnow entry hnew

theorem Surveyed.append {v : View}
    (h : Surveyed board time now observed v) (htime : time ≤ time')
    (hmore : ∀ entry ∈ more, time ≤ entry.time) :
    Surveyed (board ++ more) time' now observed v where
  valid := h.valid.append fun entry hentry =>
    h.time_le.trans (hmore entry hentry)
  releases_le := h.releases_le
  elected := by rw [Election.elect_append h.valid, h.elected]
  now_eq := h.now_eq
  observed_eq := by
    rw [List.take_append_of_le_length h.valid.releases_le]
    exact h.observed_eq
  time_le := h.time_le.trans htime

theorem Posted.append {v : View} {i t : Nat}
    (h : Posted owner board call observed v i t)
    (hmore : ∀ entry ∈ more, claimElection.author entry.post ≠ owner) :
    Posted owner (board ++ more) call observed v i t where
  own := by
    obtain ⟨c, hc, hcarries⟩ := h.own
    exact ⟨c, by
      rw [List.getElem?_append_left (List.getElem?_eq_some_iff.mp hc).1, hc],
      hcarries⟩
  after := h.after
  only := by
    intro j entry hj hle hne
    rcases getElem?_append_cases hj with hold | hnew
    · exact h.only j entry hold hle hne
    · exact hmore entry hnew

theorem Rechecked.append {claims : List ClaimInfo} {n at_ : Nat}
    (h : Rechecked board time now claims n at_) (htime : time ≤ time')
    (hmore : ∀ entry ∈ more, time ≤ entry.time) :
    Rechecked (board ++ more) time' now claims n at_ where
  le := h.le.trans (by simp)
  claims_eq := by rw [List.take_append_of_le_length h.le, h.claims_eq]
  later := by
    intro entry hentry
    rw [List.drop_append_of_le_length h.le, List.mem_append] at hentry
    rcases hentry with hold | hnew
    · exact h.later entry hold
    · exact h.time_le.trans (hmore entry hnew)
  now_le := h.now_le
  time_le := h.time_le.trans htime

/-! ## The facts of a stage -/

/-- The claim posted since the survey is a settle window old at `limit`. -/
def PostedBy (owner : PublicKey) (board : Board ClaimInfo PublicKey)
    (window time : Nat) (call : ClaimCall) (observed : U32) (limit : Nat)
    (v : View) (i t : Nat) : Prop :=
  Surveyed board time call.now observed v ∧
    Posted owner board call observed v i t ∧ t + window ≤ limit

def SurveyFacts (owner : PublicKey) (board : Board ClaimInfo PublicKey)
    (window time claimsAt : Nat) (call : ClaimCall) : ClaimStage → Prop
  | .surveyClaims observed => ∃ n, Looked owner board call.now n ∧
      observed.val = Board.generation (board.take n)
  | .contending observed => ∃ v, Surveyed board time call.now observed v ∧
      v.time = claimsAt ∧ Quiet owner board v.claims
  | .settling observed wakeAt => ∃ v i t,
      PostedBy owner board window time call observed wakeAt v i t
  | .recheckClaims observed => ∃ v i t,
      PostedBy owner board window time call observed time v i t
  | .recheckNacks observed claims => ∃ v i t n,
      PostedBy owner board window time call observed claimsAt v i t ∧
      i < n ∧ Rechecked board time call.now claims n claimsAt
  | _ => True

theorem SurveyFacts.append {window claimsAt : Nat} {stage : ClaimStage}
    (h : SurveyFacts owner board window time claimsAt call stage)
    (hnow : call.now ≤ timestamp time) (htime : time ≤ time')
    (hmore : ∀ entry ∈ more, time ≤ entry.time ∧
      claimElection.author entry.post ≠ owner) :
    SurveyFacts owner (board ++ more) window time' claimsAt call stage := by
  have hlater : ∀ entry ∈ more, time ≤ entry.time :=
    fun entry hentry => (hmore entry hentry).1
  have hother : ∀ entry ∈ more, claimElection.author entry.post ≠ owner :=
    fun entry hentry => (hmore entry hentry).2
  have hposted : ∀ {observed limit limit' v i t}, limit ≤ limit' →
      PostedBy owner board window time call observed limit v i t →
      PostedBy owner (board ++ more) window time' call observed limit' v i t :=
    fun hlimit hp => ⟨hp.1.append htime hlater, hp.2.1.append hother,
      hp.2.2.trans hlimit⟩
  cases stage with
  | surveyClaims observed =>
      obtain ⟨n, hlooked, hobserved⟩ := h
      refine ⟨n, hlooked.append hother fun entry hentry =>
        hnow.trans (timestamp_mono (hlater entry hentry)), ?_⟩
      rw [List.take_append_of_le_length hlooked.le, hobserved]
  | contending observed =>
      obtain ⟨v, hsurveyed, hat, hquiet⟩ := h
      exact ⟨v, hsurveyed.append htime hlater, hat, hquiet.append hother⟩
  | settling observed wakeAt =>
      obtain ⟨v, i, t, hp⟩ := h
      exact ⟨v, i, t, hposted le_rfl hp⟩
  | recheckClaims observed =>
      obtain ⟨v, i, t, hp⟩ := h
      exact ⟨v, i, t, hposted htime hp⟩
  | recheckNacks observed claims =>
      obtain ⟨v, i, t, n, hp, hlt, hr⟩ := h
      exact ⟨v, i, t, n, hposted le_rfl hp, hlt, hr.append htime hlater⟩
  | _ => trivial

/-! ## The decision -/

/--
The winner of the second look, if it is the owner's, is the claim posted since
the survey: an older one of the owner would have been elected by the survey.
-/
theorem PostedBy.won {window : Nat} {v : View} {i t n at_ : Nat}
    {claims : List ClaimInfo} {winner : ClaimInfo} {minAttempt : U32}
    (h : PostedBy owner board window time call observed at_ v i t)
    (hlt : i < n) (hr : Rechecked board time call.now claims n at_)
    (hmin : minAttempt.val = Board.generation board)
    (hwinner : claimWinner claims minAttempt call.now = some winner)
    (howner : winner.claimer = owner) :
    Won claimElection timestamp window board winner i
        ⟨n, board.length, call.now, at_⟩ ∧
      winner.leaseExpiresAt = call.leaseExpiresAt ∧
      winner.attempt = call.claimAttempt observed := by
  obtain ⟨hsurveyed, hposted, hwait⟩ := h
  have helect := hwinner
  rw [claimWinner_eq, hmin, hr.claims_eq] at helect
  obtain ⟨hmem, hlease, hattempt⟩ := Election.winner_mem helect
  obtain ⟨k, tk, hk⟩ := Board.mem_claims.mp hmem
  have hkn : k < n := by
    by_contra hnot
    rw [List.getElem?_eq_none (by simp; omega)] at hk
    contradiction
  rw [Board.getElem?_take hkn] at hk
  have hki : k = i := by
    by_contra hne
    by_cases hold : k < v.claims
    · have hseen : winner ∈ Board.claims (board.take v.claims) :=
        Board.mem_claims_of_getElem? ((Board.getElem?_take hold).trans hk)
      refine Election.winner_eq_none.mp hsurveyed.elected winner hseen
        ⟨hsurveyed.now_eq ▸ hlease, ?_⟩
      exact (Board.generation_take_le board _).trans hattempt
    · exact hposted.only k _ hk (by omega) hne howner
  obtain ⟨c, hc, hcarries⟩ := hposted.own
  obtain ⟨rfl, rfl⟩ : tk = t ∧ winner = c := by
    rw [hki, hc] at hk
    cases hk
    exact ⟨rfl, rfl⟩
  refine ⟨?_, hcarries⟩
  exact {
    valid := ⟨hr.le, le_rfl, hr.now_le, hr.later⟩
    lt := hlt
    elected := by simpa [Election.elect] using helect
    waited := ⟨tk, hc, hwait⟩ }

end Facts

end NostrQ.Cluster
