import Mathlib.Data.List.MinMax
import Mathlib.Tactic.Common

/-!
# Electing a lease holder over an append-only board

Contenders post claims on a shared board that only grows and whose posts are
stamped with the time they were accepted.  A claim carries a lease and a
generation; a release at generation `g` withdraws every claim of an earlier
generation.  Anyone who looks at a prefix of the board elects the claim of
least rank among those that are neither expired nor withdrawn.

Two habits make the election safe although everyone looks at a different
prefix at a different moment.  A contender posts only after a survey that
elected nobody, and within `window` of that survey; and a claim is trusted
only by a look at the board at least `window` after it was accepted.  Then two
trusted claims that are both alive have the same rank (`Won.rank_eq`).
-/

namespace NostrQ.Foundation

/-- What the election reads off a claim of type `C`. -/
structure Election (C O K : Type*) where
  owner : C → O
  rank : C → K
  lease : C → Int
  generation : C → Nat

inductive Post (C O : Type*) where
  | claim (c : C)
  | release (author : O) (generation : Nat)

structure Stamped (C O : Type*) where
  time : Nat
  post : Post C O

abbrev Board (C O : Type*) := List (Stamped C O)

/--
One look at the board: the claims among its first `claims` posts, taken at
`time`, the releases among its first `releases` posts, and the clock value
`now` that leases are compared with.
-/
structure View where
  claims : Nat
  releases : Nat
  now : Int
  time : Nat

namespace Board

variable {C O : Type*}

def claims (board : Board C O) : List C :=
  board.filterMap fun entry =>
    match entry.post with
    | .claim c => some c
    | .release _ _ => none

def released (board : Board C O) : List Nat :=
  board.filterMap fun entry =>
    match entry.post with
    | .claim _ => none
    | .release _ g => some g

def generation (board : Board C O) : Nat := board.released.foldr max 0

@[simp] theorem claims_append (first last : Board C O) :
    claims (first ++ last) = claims first ++ claims last := by
  simp [claims]

@[simp] theorem released_append (first last : Board C O) :
    released (first ++ last) = released first ++ released last := by
  simp [released]

theorem foldr_max_le {gs : List Nat} {n : Nat} :
    gs.foldr max 0 ≤ n ↔ ∀ g ∈ gs, g ≤ n := by
  induction gs with
  | nil => simp
  | cons g gs ih => simp [ih]

theorem generation_le {board : Board C O} {n : Nat} :
    generation board ≤ n ↔ ∀ g ∈ board.released, g ≤ n :=
  foldr_max_le

@[simp] theorem generation_nil : generation ([] : Board C O) = 0 := rfl

theorem generation_append (first last : Board C O) :
    generation (first ++ last) = max (generation first) (generation last) := by
  apply Nat.le_antisymm
  · rw [generation_le]
    intro g hg
    rw [released_append, List.mem_append] at hg
    rcases hg with hg | hg
    · exact le_trans (generation_le.mp le_rfl g hg) (le_max_left _ _)
    · exact le_trans (generation_le.mp le_rfl g hg) (le_max_right _ _)
  · apply max_le <;> rw [generation_le] <;> intro g hg <;>
      exact generation_le.mp le_rfl g (by simp [hg])

theorem mem_released {board : Board C O} {g : Nat} :
    g ∈ board.released ↔
      ∃ (j t : Nat) (who : O), board[j]? = some ⟨t, .release who g⟩ := by
  simp only [released, List.mem_filterMap]
  constructor
  · rintro ⟨⟨t, post⟩, hmem, hpost⟩
    cases post with
    | claim c => simp at hpost
    | release who g' =>
        obtain ⟨j, hj⟩ := List.mem_iff_getElem?.mp hmem
        simp only [Option.some.injEq] at hpost
        exact ⟨j, t, who, hpost ▸ hj⟩
  · rintro ⟨j, t, who, hj⟩
    exact ⟨⟨t, .release who g⟩, List.mem_iff_getElem?.mpr ⟨j, hj⟩, rfl⟩

theorem mem_claims_of_getElem? {board : Board C O} {i t : Nat} {c : C}
    (h : board[i]? = some ⟨t, .claim c⟩) : c ∈ board.claims := by
  simp only [claims, List.mem_filterMap]
  exact ⟨_, List.mem_iff_getElem?.mpr ⟨i, h⟩, rfl⟩

theorem mem_claims {board : Board C O} {c : C} :
    c ∈ board.claims ↔ ∃ i t : Nat, board[i]? = some ⟨t, .claim c⟩ := by
  constructor
  · simp only [claims, List.mem_filterMap]
    rintro ⟨⟨t, post⟩, hmem, hpost⟩
    cases post with
    | claim c' =>
        obtain ⟨i, hi⟩ := List.mem_iff_getElem?.mp hmem
        simp only [Option.some.injEq] at hpost
        exact ⟨i, t, hpost ▸ hi⟩
    | release who g => simp at hpost
  · rintro ⟨i, t, h⟩
    exact mem_claims_of_getElem? h

theorem getElem?_take {board : Board C O} {n i : Nat} (h : i < n) :
    (board.take n)[i]? = board[i]? := by
  simp [h]

theorem generation_take_le (board : Board C O) (n : Nat) :
    generation (board.take n) ≤ generation board := by
  conv_rhs => rw [← List.take_append_drop n board]
  rw [generation_append]
  exact le_max_left _ _

theorem generation_take_mono (board : Board C O) {m n : Nat} (h : m ≤ n) :
    generation (board.take m) ≤ generation (board.take n) := by
  have := generation_take_le (board.take n) m
  rwa [List.take_take, min_eq_left h] at this

end Board

namespace Election

variable {C O K : Type*} [LinearOrder K] (E : Election C O K)

def Eligible (floor : Nat) (now : Int) (c : C) : Prop :=
  now < E.lease c ∧ floor ≤ E.generation c

instance (floor : Nat) (now : Int) (c : C) :
    Decidable (E.Eligible floor now c) :=
  inferInstanceAs (Decidable (_ ∧ _))

def winner (claims : List C) (floor : Nat) (now : Int) : Option C :=
  (claims.filter fun c => E.Eligible floor now c).argmin E.rank

def author : Post C O → O
  | .claim c => E.owner c
  | .release who _ => who

variable {E}

theorem winner_mem {claims : List C} {floor : Nat} {now : Int} {c : C}
    (h : E.winner claims floor now = some c) :
    c ∈ claims ∧ E.Eligible floor now c := by
  have := List.argmin_mem h
  simpa using this

theorem winner_le {claims : List C} {floor : Nat} {now : Int} {c c' : C}
    (h : E.winner claims floor now = some c) (hmem : c' ∈ claims)
    (hel : E.Eligible floor now c') : E.rank c ≤ E.rank c' :=
  List.le_of_mem_argmin (by simpa using ⟨hmem, hel⟩) h

theorem winner_eq_none {claims : List C} {floor : Nat} {now : Int} :
    E.winner claims floor now = none ↔
      ∀ c ∈ claims, ¬ E.Eligible floor now c := by
  simp [winner, List.argmin_eq_none, List.filter_eq_nil_iff]

variable (E)

/-- An eligible claim that comes before every other eligible one. -/
structure Leads (claims : List C) (floor : Nat) (now : Int) (c : C) :
    Prop where
  mem : c ∈ claims
  eligible : E.Eligible floor now c
  first : ∀ c' ∈ claims, E.Eligible floor now c' → c' ≠ c → E.rank c < E.rank c'

variable {E}

theorem Leads.winner {claims : List C} {floor : Nat} {now : Int} {c : C}
    (h : E.Leads claims floor now c) : E.winner claims floor now = some c := by
  cases hw : E.winner claims floor now with
  | none => exact absurd h.eligible (winner_eq_none.mp hw c h.mem)
  | some c' =>
      obtain ⟨hmem, hel⟩ := winner_mem hw
      by_contra hne
      have hlt := h.first c' hmem hel fun heq => hne (by rw [heq])
      exact absurd (winner_le hw h.mem h.eligible) (not_le.mpr hlt)

/-- Where ranks tell the claims apart, the winner is the one that leads. -/
theorem winner_eq_some_iff {claims : List C} {floor : Nat} {now : Int} {c : C}
    (hrank : ∀ a ∈ claims, ∀ b ∈ claims, E.rank a = E.rank b → a = b) :
    E.winner claims floor now = some c ↔ E.Leads claims floor now c := by
  constructor
  · intro hw
    obtain ⟨hmem, hel⟩ := winner_mem hw
    refine ⟨hmem, hel, fun c' hmem' hel' hne => ?_⟩
    apply lt_of_le_of_ne (winner_le hw hmem' hel')
    intro heq
    exact hne (hrank c' hmem' c hmem heq.symm)
  · exact Leads.winner

theorem Leads.congr {first second : List C} {floor : Nat} {now : Int} {c : C}
    (h : E.Leads first floor now c) (hsame : ∀ c, c ∈ first ↔ c ∈ second) :
    E.Leads second floor now c where
  mem := (hsame c).mp h.mem
  eligible := h.eligible
  first c' hmem := h.first c' ((hsame c').mpr hmem)

theorem Leads.extend {claims more : List C} {floor : Nat} {now now' : Int}
    {c : C} (h : E.Leads claims floor now c) (hsub : ∀ c ∈ claims, c ∈ more)
    (hmore : ∀ c' ∈ more, c' ∉ claims → E.rank c < E.rank c')
    (hle : now ≤ now') (hlease : now' < E.lease c) :
    E.Leads more floor now' c where
  mem := hsub c h.mem
  eligible := ⟨hlease, h.eligible.2⟩
  first := by
    intro c' hmem' hel' hne
    by_cases hold : c' ∈ claims
    · exact h.first c' hold ⟨lt_of_le_of_lt hle hel'.1, hel'.2⟩ hne
    · exact hmore c' hmem' hold

theorem winner_congr {first second : List C} {floor : Nat} {now : Int}
    (hrank : ∀ a ∈ first, ∀ b ∈ first, E.rank a = E.rank b → a = b)
    (hsame : ∀ c, c ∈ first ↔ c ∈ second) :
    E.winner first floor now = E.winner second floor now := by
  cases hw : E.winner first floor now with
  | none =>
      have hnone := winner_eq_none.mp hw
      exact (winner_eq_none.mpr fun c hmem => hnone c ((hsame c).mpr hmem)).symm
  | some c => exact (((winner_eq_some_iff hrank).mp hw).congr hsame).winner.symm

variable (E)

def elect (board : Board C O) (v : View) : Option C :=
  E.winner (Board.claims (board.take v.claims))
    (Board.generation (board.take v.releases)) v.now

end Election

/-! ## Looking, contending and winning -/

section Protocol

variable {C O K : Type*} [LinearOrder K] (E : Election C O K)
variable (clock : Nat → Int) (window : Nat)

structure View.Valid (board : Board C O) (v : View) : Prop where
  claims_le : v.claims ≤ board.length
  releases_le : v.releases ≤ board.length
  now_le : v.now ≤ clock v.time
  later : ∀ entry ∈ board.drop v.claims, v.time ≤ entry.time

structure Contended (board : Board C O) (i : Nat) (v : View) : Prop where
  valid : v.Valid clock board
  releases_le : v.releases ≤ v.claims
  claims_le : v.claims ≤ i
  elected : E.elect board v = none
  prompt : ∀ entry, board[i]? = some entry → entry.time < v.time + window

/-- The claim at `i` is elected by a look taken a window after it. -/
structure Won (board : Board C O) (c : C) (i : Nat) (v : View) : Prop where
  valid : v.Valid clock board
  lt : i < v.claims
  elected : E.elect board v = some c
  waited : ∃ t, board[i]? = some ⟨t, .claim c⟩ ∧ t + window ≤ v.time

variable {E clock window}

theorem Won.getElem? {board : Board C O} {c : C} {i : Nat} {v : View}
    (h : Won E clock window board c i v) :
    ∃ t, board[i]? = some ⟨t, .claim c⟩ :=
  let ⟨t, ht, _⟩ := h.waited
  ⟨t, ht⟩

theorem Won.eligible {board : Board C O} {c : C} {i : Nat} {v : View}
    (h : Won E clock window board c i v) :
    E.Eligible (Board.generation (board.take v.releases)) v.now c :=
  (Election.winner_mem h.elected).2

/-! ### The board may grow -/

theorem View.Valid.append {board more : Board C O} {v : View}
    (h : v.Valid clock board) (hmore : ∀ entry ∈ more, v.time ≤ entry.time) :
    v.Valid clock (board ++ more) where
  claims_le := le_trans h.claims_le (by simp)
  releases_le := le_trans h.releases_le (by simp)
  now_le := h.now_le
  later := by
    intro entry hentry
    rw [List.drop_append_of_le_length h.claims_le, List.mem_append] at hentry
    exact hentry.elim (h.later entry) (hmore entry)

theorem Election.elect_append {board more : Board C O} {v : View}
    (h : v.Valid clock board) : E.elect (board ++ more) v = E.elect board v := by
  rw [Election.elect, List.take_append_of_le_length h.claims_le,
    List.take_append_of_le_length h.releases_le, Election.elect]

theorem Contended.append {board more : Board C O} {i : Nat} {v : View}
    (h : Contended E clock window board i v) (hi : i < board.length)
    (hmore : ∀ entry ∈ more, v.time ≤ entry.time) :
    Contended E clock window (board ++ more) i v where
  valid := h.valid.append hmore
  releases_le := h.releases_le
  claims_le := h.claims_le
  elected := by rw [Election.elect_append h.valid, h.elected]
  prompt := by
    intro entry hentry
    rw [List.getElem?_append_left hi] at hentry
    exact h.prompt entry hentry

theorem Won.append {board more : Board C O} {c : C} {i : Nat} {v : View}
    (h : Won E clock window board c i v)
    (hmore : ∀ entry ∈ more, v.time ≤ entry.time) :
    Won E clock window (board ++ more) c i v where
  valid := h.valid.append hmore
  lt := h.lt
  elected := by rw [Election.elect_append h.valid, h.elected]
  waited := by
    obtain ⟨t, ht, hle⟩ := h.waited
    have hi : i < board.length := lt_of_lt_of_le h.lt h.valid.claims_le
    exact ⟨t, by rw [List.getElem?_append_left hi, ht], hle⟩

/-! ### A trusted claim has seen its rivals -/

private theorem mem_drop_of_getElem? {board : Board C O} {i k : Nat}
    {entry : Stamped C O} (h : board[i]? = some entry) (hk : k ≤ i) :
    entry ∈ board.drop k := by
  refine List.mem_iff_getElem?.mpr ⟨i - k, ?_⟩
  rw [List.getElem?_drop, Nat.add_sub_cancel' hk, h]

/--
A rival whose survey would have counted `c` as eligible is visible to the look
that elected `c`: the rival was posted within a window of a survey that missed
`c`, and the look came a window after `c`.
-/
theorem Won.sees {board : Board C O} {c c' : C} {i i' : Nat} {v w : View}
    {t' : Nat} (h : Won E clock window board c i v)
    (h' : Contended E clock window board i' w)
    (hi' : board[i']? = some ⟨t', .claim c'⟩)
    (hlease : w.now < E.lease c)
    (hgen : Board.generation (board.take w.releases) ≤ E.generation c) :
    i' < v.claims := by
  by_contra hnot
  obtain ⟨t, ht, hwait⟩ := h.waited
  have hafter : v.time ≤ t' :=
    h.valid.later _ (mem_drop_of_getElem? hi' (by omega))
  have hprompt : t' < w.time + window := h'.prompt _ hi'
  by_cases hvisible : i < w.claims
  · -- the survey saw `c`, yet elected nobody
    have hmem : c ∈ Board.claims (board.take w.claims) :=
      Board.mem_claims_of_getElem? ((Board.getElem?_take hvisible).trans ht)
    exact Election.winner_eq_none.mp h'.elected c hmem ⟨hlease, hgen⟩
  · have hbefore : w.time ≤ t :=
      h'.valid.later _ (mem_drop_of_getElem? ht (by omega))
    omega

theorem Won.rank_le {board : Board C O} {c c' : C} {i i' t' : Nat} {v : View}
    (h : Won E clock window board c i v)
    (hi' : board[i']? = some ⟨t', .claim c'⟩) (hlt : i' < v.claims)
    (hlease : v.now < E.lease c')
    (hgen : Board.generation (board.take v.releases) ≤ E.generation c') :
    E.rank c ≤ E.rank c' :=
  Election.winner_le h.elected
    (Board.mem_claims_of_getElem? ((Board.getElem?_take hlt).trans hi'))
    ⟨hlease, hgen⟩

def AllContended (E : Election C O K) (clock : Nat → Int) (window : Nat)
    (board : Board C O) : Prop :=
  ∀ (i t : Nat) (c : C), board[i]? = some ⟨t, .claim c⟩ →
    ∃ v, Contended E clock window board i v ∧ v.now ≤ clock t

theorem Contended.new {board : Board C O} {v : View} {entry : Stamped C O}
    (hvalid : v.Valid clock board) (hreleases : v.releases ≤ v.claims)
    (helected : E.elect board v = none) (htime : v.time ≤ entry.time)
    (hprompt : entry.time < v.time + window) :
    Contended E clock window (board ++ [entry]) board.length v where
  valid := hvalid.append (by simpa using htime)
  releases_le := hreleases
  claims_le := hvalid.claims_le
  elected := by rw [Election.elect_append hvalid, helected]
  prompt := by
    intro posted hposted
    rw [List.getElem?_concat_length] at hposted
    cases hposted
    exact hprompt

theorem Contended.time_le {board : Board C O} {i : Nat} {v : View}
    {entry : Stamped C O} (h : Contended E clock window board i v)
    (hi : board[i]? = some entry) : v.time ≤ entry.time :=
  h.valid.later _ (mem_drop_of_getElem? hi h.claims_le)

theorem AllContended.push {board : Board C O} {entry : Stamped C O}
    (h : AllContended E clock window board)
    (hpast : ∀ x ∈ board, x.time ≤ entry.time)
    (hnew : ∀ c, entry.post = .claim c → ∃ v,
      Contended E clock window (board ++ [entry]) board.length v ∧
        v.now ≤ clock entry.time) :
    AllContended E clock window (board ++ [entry]) := by
  intro i t c hi
  by_cases hlt : i < board.length
  · rw [List.getElem?_append_left hlt] at hi
    obtain ⟨v, hv, hnow⟩ := h i t c hi
    have hle := (hv.time_le hi).trans (hpast _ (List.mem_of_getElem? hi))
    exact ⟨v, hv.append hlt (by simpa using hle), hnow⟩
  · have hlen : i = board.length := by
      have := (List.getElem?_eq_some_iff.mp hi).1
      simp only [List.length_append, List.length_singleton] at this
      omega
    rw [hlen, List.getElem?_concat_length] at hi
    cases hi
    rw [hlen]
    exact hnew c rfl

/--
Two trusted claims that are neither released nor, at `now`, expired have the
same rank.
-/
theorem Won.rank_eq {board : Board C O} {c c' : C} {i i' : Nat} {v v' : View}
    {now : Int} (hall : AllContended E clock window board)
    (h : Won E clock window board c i v) (h' : Won E clock window board c' i' v')
    (hnow : v.now ≤ now) (hnow' : v'.now ≤ now)
    (htimes : ∀ entry ∈ board, clock entry.time ≤ now)
    (hlease : now < E.lease c) (hlease' : now < E.lease c')
    (hgen : Board.generation board ≤ E.generation c)
    (hgen' : Board.generation board ≤ E.generation c') :
    E.rank c = E.rank c' := by
  obtain ⟨t, ht⟩ := h.getElem?
  obtain ⟨t', ht'⟩ := h'.getElem?
  obtain ⟨w, hw, hwt⟩ := hall i t c ht
  obtain ⟨w', hw', hwt'⟩ := hall i' t' c' ht'
  have hearlier := Board.generation_take_le board
  have hsee : i' < v.claims := h.sees hw' ht'
    (lt_of_le_of_lt (hwt'.trans (htimes _ (List.mem_of_getElem? ht'))) hlease)
    ((hearlier _).trans hgen)
  have hsee' : i < v'.claims := h'.sees hw ht
    (lt_of_le_of_lt (hwt.trans (htimes _ (List.mem_of_getElem? ht))) hlease')
    ((hearlier _).trans hgen')
  exact le_antisymm
    (h.rank_le ht' hsee (lt_of_le_of_lt hnow hlease') ((hearlier _).trans hgen'))
    (h'.rank_le ht hsee' (lt_of_le_of_lt hnow' hlease) ((hearlier _).trans hgen))

/--
The release at `j` was posted by a holder: its own claim was trusted, alive
and not withdrawn by any earlier release.
-/
structure ReleasedBy (E : Election C O K) (clock : Nat → Int) (window : Nat)
    (board : Board C O) (j t : Nat) (c : C) (i : Nat) (v : View) : Prop where
  won : Won E clock window board c i v
  claims_le : v.claims ≤ j
  releases_le : v.releases ≤ j
  now_le : v.now ≤ clock t
  alive : clock t < E.lease c
  unreleased : Board.generation (board.take j) ≤ E.generation c

theorem ReleasedBy.append {board more : Board C O} {j t : Nat} {c : C}
    {i : Nat} {v : View} (h : ReleasedBy E clock window board j t c i v)
    (hj : j < board.length) (hmore : ∀ entry ∈ more, v.time ≤ entry.time) :
    ReleasedBy E clock window (board ++ more) j t c i v where
  won := h.won.append hmore
  claims_le := h.claims_le
  releases_le := h.releases_le
  now_le := h.now_le
  alive := h.alive
  unreleased := by
    rw [List.take_append_of_le_length hj.le]
    exact h.unreleased

def AllReleasedBy (E : Election C O K) (clock : Nat → Int) (window : Nat)
    (board : Board C O) : Prop :=
  ∀ (j t : Nat) (who : O) (g : Nat), board[j]? = some ⟨t, .release who g⟩ →
    ∃ c i v, E.owner c = who ∧ ReleasedBy E clock window board j t c i v

theorem ReleasedBy.new {board : Board C O} {c : C} {i : Nat} {v : View}
    {entry : Stamped C O} (h : Won E clock window board c i v)
    (htime : v.time ≤ entry.time) (hnow : v.now ≤ clock entry.time)
    (halive : clock entry.time < E.lease c)
    (hgen : Board.generation board ≤ E.generation c) :
    ReleasedBy E clock window (board ++ [entry]) board.length entry.time c i
      v where
  won := h.append (by simpa using htime)
  claims_le := h.valid.claims_le
  releases_le := h.valid.releases_le
  now_le := hnow
  alive := halive
  unreleased := by simpa using hgen

theorem AllReleasedBy.push {board : Board C O} {entry : Stamped C O}
    (h : AllReleasedBy E clock window board)
    (hpast : ∀ x ∈ board, x.time ≤ entry.time)
    (hnew : ∀ who g, entry.post = .release who g → ∃ c i v,
      E.owner c = who ∧ ReleasedBy E clock window (board ++ [entry])
        board.length entry.time c i v) :
    AllReleasedBy E clock window (board ++ [entry]) := by
  intro j t who g hj
  by_cases hlt : j < board.length
  · rw [List.getElem?_append_left hlt] at hj
    obtain ⟨c, i, v, howner, hrel⟩ := h j t who g hj
    have hle := (hrel.won.valid.later _
      (mem_drop_of_getElem? hj hrel.claims_le)).trans
      (hpast _ (List.mem_of_getElem? hj))
    exact ⟨c, i, v, howner, hrel.append hlt (by simpa using hle)⟩
  · have hlen : j = board.length := by
      have := (List.getElem?_eq_some_iff.mp hj).1
      simp only [List.length_append, List.length_singleton] at this
      omega
    rw [hlen, List.getElem?_concat_length] at hj
    cases hj
    rw [hlen]
    exact hnew who g rfl

/--
A look that reads the releases before the claims may miss a release in
between.  It misses none that matters: had a rival held the board and released
a generation beyond `c` in that gap, `c` and the rival's claim would each have
seen the other, so they would be one claim, and its owner posted nothing in
the gap.
-/
theorem Won.unreleased {board : Board C O} {c : C} {i : Nat} {v : View}
    {now : Int} (hall : AllContended E clock window board)
    (hreleased : AllReleasedBy E clock window board)
    (hrank : ∀ c c', c ∈ board.claims → c' ∈ board.claims →
      E.rank c = E.rank c' → E.owner c = E.owner c')
    (hsorted : board.Pairwise fun x y => x.time ≤ y.time)
    (hmono : ∀ s t, s ≤ t → clock s ≤ clock t)
    (h : Won E clock window board c i v) (hfull : v.claims = board.length)
    (hquiet : ∀ j entry, board[j]? = some entry → v.releases ≤ j →
      E.author entry.post ≠ E.owner c)
    (hgap : ∀ j entry, board[j]? = some entry → v.releases ≤ j →
      v.now ≤ clock entry.time)
    (hpast : ∀ entry ∈ board, clock entry.time ≤ now)
    (hlease : now < E.lease c) :
    Board.generation board ≤ E.generation c := by
  rw [Board.generation_le]
  intro g hg
  obtain ⟨j, t, who, hj⟩ := Board.mem_released.mp hg
  -- the releases are taken in the order of the board
  induction j using Nat.strongRecOn generalizing g t who with
  | ind j ih =>
  have hbefore : Board.generation (board.take j) ≤ E.generation c := by
    rw [Board.generation_le]
    intro g' hg'
    obtain ⟨j', t', who', hj'⟩ := Board.mem_released.mp hg'
    have hlt : j' < j := by
      by_contra hnot
      rw [List.getElem?_eq_none (by simp; omega)] at hj'
      contradiction
    rw [Board.getElem?_take hlt] at hj'
    exact ih j' hlt g' (Board.mem_released.mpr ⟨j', t', who', hj'⟩)
      t' who' hj'
  by_cases hearly : j < v.releases
  · have hseen : g ∈ Board.released (board.take v.releases) :=
      Board.mem_released.mpr ⟨j, t, who, (Board.getElem?_take hearly).trans hj⟩
    exact (Board.generation_le.mp le_rfl g hseen).trans h.eligible.2
  · have hwho : who ≠ E.owner c := hquiet j _ hj (by omega)
    obtain ⟨c', i', v', howner, hrel⟩ := hreleased j t who g hj
    obtain ⟨ti, hti⟩ := h.getElem?
    obtain ⟨ti', hti'⟩ := hrel.won.getElem?
    obtain ⟨w, hw, hwt⟩ := hall i ti c hti
    have hti_early : i < v.releases := by
      by_contra hlate
      exact hquiet i _ hti (by omega) rfl
    have htile : ti ≤ t := by
      have := List.pairwise_iff_getElem.mp hsorted i j
      obtain ⟨hi_lt, hi_eq⟩ := List.getElem?_eq_some_iff.mp hti
      obtain ⟨hj_lt, hj_eq⟩ := List.getElem?_eq_some_iff.mp hj
      have hle := this hi_lt hj_lt (by omega)
      rwa [hi_eq, hj_eq] at hle
    have hnowt : clock t ≤ now := hpast _ (List.mem_of_getElem? hj)
    -- the rival's claim is visible and eligible to the look that elected `c`
    have hle : E.rank c ≤ E.rank c' := by
      refine h.rank_le hti' ?_ ?_ ?_
      · rw [hfull]
        exact (List.getElem?_eq_some_iff.mp hti').1
      · exact lt_of_le_of_lt (hgap j _ hj (by omega)) hrel.alive
      · exact (Board.generation_take_mono board (by omega)).trans
          hrel.unreleased
    -- and `c` was visible and eligible to the look that elected the rival
    have hsee : i < v'.claims := hrel.won.sees hw hti
      (lt_of_le_of_lt (hwt.trans (hmono _ _ htile)) hrel.alive)
      ((Board.generation_take_mono board
        (by have := hw.releases_le; have := hw.claims_le; omega)).trans
        hrel.unreleased)
    have hle' : E.rank c' ≤ E.rank c := hrel.won.rank_le hti hsee
      (lt_of_le_of_lt (hrel.now_le.trans hnowt) hlease)
      ((Board.generation_take_mono board hrel.releases_le).trans hbefore)
    have hsame := hrank c c' (Board.mem_claims_of_getElem? hti)
      (Board.mem_claims_of_getElem? hti') (le_antisymm hle hle')
    exact absurd (howner.symm.trans hsame.symm) hwho

end Protocol

end NostrQ.Foundation
