import NostrQ.Foundation.Pipe

/-!
# Tasks that forward

A task takes one value at a time, waits until there is room in the bounded
channel behind it, and sends.  It ends when the receiver of its channel is gone,
or when its source has run dry; the channel then holds what is left of it.
-/

namespace NostrQ.Foundation

structure Forwarder (β : Type*) (capacity : Nat) where
  hand : Option β
  out : Pipe β capacity
  ended : Bool

namespace Forwarder

variable {β : Type*} {capacity : Nat}

def new (β : Type*) (capacity : Nat) : Forwarder β capacity where
  hand := none
  out := .empty β capacity
  ended := false

variable (t : Forwarder β capacity)

/-- Sent or about to be sent, and not yet received. -/
def pending : List β := t.out.content ++ t.hand.toList

def Idle : Prop := t.hand = none ∧ t.ended = false

instance : Decidable t.Idle :=
  inferInstanceAs (Decidable (t.hand = none ∧ t.ended = false))

def take (b? : Option β) : Forwarder β capacity := { t with hand := b? }

def finish : Forwarder β capacity := { t with hand := none, ended := true }

/-- `send` waits for room, and fails once the receiver is gone. -/
def send (receiving : Bool) : Option (Forwarder β capacity) :=
  match t.hand with
  | none => none
  | some b =>
      if receiving then
        (t.out.push? [b]).map fun out => { t with hand := none, out := out }
      else some t.finish

def pop : Option (β × Forwarder β capacity) :=
  match t.out.pop? 1 with
  | some ([b], out) => some (b, { t with out := out })
  | _ => none

variable {t} {t' : Forwarder β capacity} {b : β} {b? : Option β}

@[simp] theorem pending_new : (new β capacity).pending = [] := rfl

theorem pending_take (h : t.Idle) :
    (t.take b?).pending = t.pending ++ b?.toList := by
  simp [pending, take, h.1]

theorem send_receiving (h : t.send true = some t') :
    t'.pending = t.pending ∧ t'.hand = none ∧ t'.ended = t.ended ∧
      t.hand.isSome = true := by
  unfold send at h
  cases hhand : t.hand with
  | none => simp [hhand] at h
  | some b =>
      simp only [hhand, if_true] at h
      obtain ⟨out, hout, rfl⟩ := Option.map_eq_some_iff.mp h
      have hcontent := Pipe.push?_eq_some.mp hout
      exact ⟨by simp [pending, hhand, hcontent], rfl, rfl, rfl⟩

theorem send_closed (h : t.send false = some t') :
    t' = t.finish ∧ t.hand.isSome = true := by
  unfold send at h
  cases hhand : t.hand with
  | none => simp [hhand] at h
  | some b =>
      simp only [hhand, Bool.false_eq_true, if_false, Option.some.injEq] at h
      exact ⟨h.symm, rfl⟩

theorem send_lowers {receiving : Bool} (n : Nat)
    (h : t.send receiving = some t') :
    (n + 1) * t'.hand.toList.length + n * t'.out.content.length +
        (!t'.ended).toNat <
      (n + 1) * t.hand.toList.length + n * t.out.content.length +
        (!t.ended).toNat := by
  cases receiving with
  | true =>
      obtain ⟨hpending, hhand, hended, hsome⟩ := send_receiving h
      obtain ⟨b, hb⟩ := Option.isSome_iff_exists.mp hsome
      have hlength := congrArg List.length hpending
      simp only [pending, hhand, hb, List.length_append, Option.toList_none,
        Option.toList_some, List.length_nil, List.length_singleton] at hlength ⊢
      rw [Nat.add_zero] at hlength
      rw [hlength, hended, Nat.mul_succ]
      omega
  | false =>
      obtain ⟨rfl, hsome⟩ := send_closed h
      obtain ⟨b, hb⟩ := Option.isSome_iff_exists.mp hsome
      simp only [finish, hb, Option.toList_none, Option.toList_some,
        List.length_nil, List.length_singleton, Bool.not_true, Bool.toNat_false]
      omega

theorem pop_eq_some (h : t.pop = some (b, t')) :
    t.pending = b :: t'.pending ∧ t'.hand = t.hand ∧ t'.ended = t.ended := by
  unfold pop at h
  split at h
  · next b' out hpop =>
      cases h
      obtain ⟨hcontent, -⟩ := Pipe.pop?_eq_some.mp hpop
      exact ⟨by simp [pending, hcontent], rfl, rfl⟩
  · contradiction

theorem pop_eq_none : t.pop = none ↔ t.out.content = [] := by
  unfold pop
  constructor
  · intro h
    cases hcontent : t.out.content with
    | nil => rfl
    | cons b rest =>
        simp [Pipe.pop?, hcontent] at h
  · intro h
    simp [Pipe.pop?, h]

theorem send_eq_none (receiving : Bool) (h : t.send receiving = none) :
    t.hand = none ∨ receiving = true ∧ t.out.content.length = capacity := by
  unfold send at h
  cases hhand : t.hand with
  | none => exact Or.inl rfl
  | some b =>
      rw [hhand] at h
      cases receiving with
      | false => simp at h
      | true =>
          refine Or.inr ⟨rfl, ?_⟩
          simp only [if_true, Option.map_eq_none_iff] at h
          unfold Pipe.push? at h
          split at h
          · contradiction
          · next hfull =>
              have hfits := t.out.fits
              simp only [List.length_append, List.length_singleton] at hfull
              omega

end Forwarder

end NostrQ.Foundation
