import Mathlib.Data.List.Basic
import NostrQ.Foundation.Numeric

/-!
# Nostr events, filters and the relay's store

Event ids and public keys are 32 bytes, kept as their canonical text of 64
lower-case hexadecimal digits.  The text is what tags carry and what the claim
tie-break compares.
-/

namespace NostrQ.Core

open NostrQ.Foundation

def isLowerHexDigit (c : Char) : Bool :=
  c.isDigit || (decide ('a' ≤ c) && decide (c ≤ 'f'))

structure Hex32 where
  toHex : String
  length_eq : toHex.toList.length = 64
  digits : toHex.toList.all isLowerHexDigit = true
  deriving DecidableEq

/-- Either letter case is accepted; the stored text is lower-case. -/
def Hex32.fromHex (text : String) : Option Hex32 :=
  let lowered := text.toList.map Char.toLower
  if h : lowered.length = 64 ∧ lowered.all isLowerHexDigit = true then
    some ⟨String.ofList lowered, by simpa using h.1, by simpa using h.2⟩
  else none

theorem toLower_of_isLowerHexDigit {c : Char} (h : isLowerHexDigit c = true) :
    c.toLower = c := by
  have hle : ∀ d : Char, ('a' ≤ d) → 97 ≤ d.toNat := fun d hd => hd
  unfold Char.toLower
  split
  · next hupper =>
      exfalso
      simp only [isLowerHexDigit, Char.isDigit, Bool.or_eq_true,
        Bool.and_eq_true, decide_eq_true_eq, ge_iff_le,
        UInt32.le_iff_toNat_le] at h hupper
      have h97 : (97 : Nat) ≤ c.toNat ∨ c.toNat ≤ 57 := by
        rcases h with ⟨-, h⟩ | ⟨h, -⟩
        · exact Or.inr h
        · exact Or.inl (hle c h)
      have h65 : (65 : Nat) ≤ c.toNat := hupper.1
      have h90 : c.toNat ≤ 90 := hupper.2
      omega
  · rfl

theorem Hex32.ext_toHex {a b : Hex32} (h : a.toHex = b.toHex) : a = b := by
  cases a
  cases b
  cases h
  rfl

@[simp] theorem Hex32.fromHex_toHex (id : Hex32) :
    Hex32.fromHex id.toHex = some id := by
  have hmap : id.toHex.toList.map Char.toLower = id.toHex.toList := by
    rw [List.map_congr_left (g := fun c => c), List.map_id']
    intro c hc
    exact toLower_of_isLowerHexDigit (List.all_eq_true.mp id.digits c hc)
  simp only [Hex32.fromHex, hmap]
  rw [dif_pos ⟨id.length_eq, id.digits⟩]
  exact congrArg some (Hex32.ext_toHex (by simp))

/-- A hexadecimal digit 64 times over; other characters give zeros. -/
def hexOf (c : Char) : Hex32 :=
  let digit := if isLowerHexDigit c then c else '0'
  { toHex := String.ofList (List.replicate 64 digit)
    length_eq := by simp
    digits := by
      have hdigit : isLowerHexDigit digit = true := by
        unfold digit
        split
        · assumption
        · decide
      simp [hdigit] }

abbrev EventId := Hex32

abbrev PublicKey := Hex32

structure Event where
  id : EventId
  pubkey : PublicKey
  createdAt : U64
  kind : Nat
  tags : List (List String)
  content : String
  deriving DecidableEq

/-- The parts of a filter that are used: kinds, `#e` and `#t`. -/
structure Filter where
  kinds : List Nat := []
  events : List EventId := []
  hashtags : List String := []

def matchTag (name : String) (wanted : List String) (tags : List (List String)) :
    Bool :=
  wanted.isEmpty || tags.any fun tag =>
    match tag with
    | found :: value :: _ => found == name && wanted.contains value
    | _ => false

def Filter.matchEvent (filter : Filter) (event : Event) : Bool :=
  (filter.kinds.isEmpty || filter.kinds.contains event.kind) &&
    matchTag "e" (filter.events.map Hex32.toHex) event.tags &&
    matchTag "t" filter.hashtags event.tags

/-- An event as a relay holds it, with the time (ms) of its acceptance. -/
structure Accepted where
  acceptedAt : Nat
  event : Event
  deriving DecidableEq

/-- A relay that keeps every event, oldest first. -/
abbrev Relay := List Accepted

/-- Exactly the matching events accepted so far. -/
def Relay.query (relay : Relay) (filter : Filter) : List Event :=
  (relay.map Accepted.event).filter filter.matchEvent

theorem Relay.query_append (first last : Relay) (filter : Filter) :
    Relay.query (first ++ last) filter =
      Relay.query first filter ++ Relay.query last filter := by
  simp [Relay.query]

theorem Relay.query_concat (relay : Relay) (accepted : Accepted)
    (filter : Filter) :
    Relay.query (relay ++ [accepted]) filter = Relay.query relay filter ++
      if filter.matchEvent accepted.event then [accepted.event] else [] := by
  rw [Relay.query_append]
  by_cases h : filter.matchEvent accepted.event = true
  · simp [Relay.query, h]
  · simp [Relay.query, h]

theorem Relay.query_concat_of_not {filter : Filter} {event : Event}
    (h : filter.matchEvent event = false) (relay : Relay) (time : Nat) :
    Relay.query (relay ++ [⟨time, event⟩]) filter = Relay.query relay filter := by
  rw [Relay.query_concat, h]
  simp

theorem Relay.mem_query {relay : Relay} {filter : Filter} {event : Event} :
    event ∈ Relay.query relay filter ↔
      filter.matchEvent event = true ∧
        ∃ accepted ∈ relay, accepted.event = event := by
  simp [Relay.query, and_comm]

end NostrQ.Core
