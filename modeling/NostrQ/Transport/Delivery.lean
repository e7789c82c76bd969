import NostrQ.Transport.DevRelay
import NostrQ.Transport.Mock

/-!
# What the dev relay delivers

The invariant of a connection relates its log to what the relay has broadcast:
an event that is no longer in the backlog of the connection has been written, or
is about to be, on every open subscription that it matches.
-/

namespace NostrQ.Transport

open NostrQ.Foundation NostrQ.Core

variable {F : Type}

def replay (R : RelaySetup F) (sub : String) (filters : List F)
    (stored : List Event) : List (Entry F) :=
  (stored.filter (R.matchesAny filters)).map fun event =>
    .wrote (.event sub event)

/--
An event is written where an open request matches it, the end of the stored
events only after all of them, and `OK true` only about the event just read, when
it has been broadcast.
-/
def Entry.Sound (R : RelaySetup F) (sent : List Event)
    (past : List (Entry F)) : Entry F → Prop
  | .wrote (.event sub event) =>
      R.verify event = true ∧ ∃ request, openRequest sub past = some request ∧
        R.matchesAny request.filters event = true
  | .wrote (.eose sub) =>
      ∃ before filters stored, past = before ++
        .read (.text (.ok (.req sub filters))) stored ::
          replay R sub filters stored
  | .wrote (.ok id true _) =>
      ∃ before event stored,
        past = before ++ [.read (.text (.ok (.event event))) stored] ∧
        event.id = id ∧ event ∈ sent
  | _ => True

theorem Entry.Sound.mono {R : RelaySetup F} {sent sent' : List Event}
    (h : ∀ event ∈ sent, event ∈ sent') {past : List (Entry F)}
    {entry : Entry F} (hsound : entry.Sound R sent past) :
    entry.Sound R sent' past := by
  unfold Entry.Sound at hsound ⊢
  split at hsound
  · exact hsound
  · exact hsound
  · obtain ⟨before, event, stored, hpast, hid, hmem⟩ := hsound
    exact ⟨before, event, stored, hpast, hid, h event hmem⟩
  · trivial

def ConnectionPhase.Quiet : ConnectionPhase F → Prop
  | .replaying _ _ _ | .relaying _ _ => False
  | _ => True

namespace Connection

/-- The event is about to be written on the subscription. -/
def InHand (c : Connection F) (sub : String) (event : Event) : Prop :=
  match c.phase with
  | .replaying name _ stored => name = sub ∧ event ∈ stored
  | .relaying current subs =>
      current = event ∧ ∃ filters, (sub, filters) ∈ subs
  | _ => False

def Registers (c : Connection F) (sub : String) : Prop :=
  ∀ filters, (sub, filters) ∈ c.subs ↔
    ∃ request, Entry.openRequest sub c.log = some request ∧
      request.filters = filters

def Tracks (c : Connection F) : Prop :=
  match c.phase with
  | .replaying name filters _ =>
      (∀ sub, sub ≠ name → c.Registers sub) ∧
        ∃ request, Entry.openRequest name c.log = some request ∧
          request.filters = filters
  | _ => ∀ sub, c.Registers sub

def AtHand (R : RelaySetup F) (events : List Event) (tx : Broadcast Event)
    (c : Connection F) : Prop :=
  match c.phase with
  | .publishing event =>
      event ∈ events ∧ ∃ before stored,
        c.log = before ++ [.read (.text (.ok (.event event))) stored]
  | .acknowledging event =>
      event ∈ tx.sent ∧ ∃ before stored,
        c.log = before ++ [.read (.text (.ok (.event event))) stored]
  | .replaying name filters stored =>
      (∀ event ∈ stored,
        R.verify event = true ∧ R.matchesAny filters event = true) ∧
      ∃ before held written, c.log = before ++
          .read (.text (.ok (.req name filters))) held :: written ∧
        written ++ stored.map (fun event => .wrote (.event name event)) =
          replay R name filters held
  | .relaying event subs => R.verify event = true ∧ ∀ entry ∈ subs, entry ∈ c.subs
  | _ => True

/--
Every request read is followed by the events stored then that match, and the end
of them; the last one may still be on the way.
-/
def Replies (R : RelaySetup F) (c : Connection F) : Prop :=
  ∀ past sub filters stored later,
    c.log = past ++ .read (.text (.ok (.req sub filters))) stored :: later →
    (∃ rest, later =
      replay R sub filters stored ++ .wrote (.eose sub) :: rest) ∨
    ∃ rest, c.phase = .replaying sub filters rest ∧
      later ++ rest.map (fun event => .wrote (.event sub event)) =
        replay R sub filters stored

/-- Nothing that was broadcast passes an open request by. -/
def Covers (R : RelaySetup F) (tx : Broadcast Event) (c : Connection F) :
    Prop :=
  ∀ event ∈ tx.sent, event ∈ tx.backlog c.live ∨
    ∀ sub request, Entry.openRequest sub c.log = some request →
      R.matchesAny request.filters event = true →
      .wrote (.event sub event) ∈ request.since ∨ c.InHand sub event

structure Inv (R : RelaySetup F) (events : List Event) (tx : Broadcast Event)
    (c : Connection F) : Prop where
  valid : tx.Valid c.live
  atHand : c.AtHand R events tx
  tracks : c.Tracks
  sound : Schedule.Justified (Entry.Sound R tx.sent) c.log
  replies : c.Replies R
  covers : c.Covers R tx

section Frame

variable {R : RelaySetup F} {events : List Event} {tx : Broadcast Event}
  {c : Connection F}

theorem Inv.store (h : c.Inv R events tx) (event : Event) :
    c.Inv R (events ++ [event]) tx where
  valid := h.valid
  tracks := h.tracks
  sound := h.sound
  replies := h.replies
  covers := h.covers
  atHand := by
    have hhand := h.atHand
    unfold AtHand at hhand ⊢
    split at hhand
    · exact ⟨List.mem_append_left _ hhand.1, hhand.2⟩
    all_goals exact hhand

theorem Inv.send (h : c.Inv R events tx) (event : Event) :
    c.Inv R events (tx.send event) where
  valid := h.valid.send event
  tracks := h.tracks
  sound := h.sound.mono fun _ _ => Entry.Sound.mono
    fun _ hmem => List.mem_append_left _ hmem
  replies := h.replies
  covers := by
    intro other hother
    rw [h.valid.backlog_send, List.mem_append]
    rcases List.mem_append.mp hother with hother | hother
    · exact (h.covers other hother).imp Or.inl id
    · exact Or.inl (Or.inr hother)
  atHand := by
    have hhand := h.atHand
    unfold AtHand at hhand ⊢
    split at hhand
    · exact hhand
    · exact ⟨List.mem_append_left _ hhand.1, hhand.2⟩
    all_goals exact hhand

theorem not_inHand (hquiet : c.phase.Quiet) (sub : String) (event : Event) :
    ¬ c.InHand sub event := by
  unfold ConnectionPhase.Quiet at hquiet
  unfold InHand
  split <;> simp_all

theorem Inv.registers (h : c.Inv R events tx) (hquiet : c.phase.Quiet)
    (sub : String) : c.Registers sub := by
  have htracks := h.tracks
  unfold Tracks at htracks
  unfold ConnectionPhase.Quiet at hquiet
  split at htracks
  · next hphase =>
      rw [hphase] at hquiet
      exact hquiet.elim
  · exact htracks sub

theorem Inv.answered (h : c.Inv R events tx) (hquiet : c.phase.Quiet)
    {past later : List (Entry F)} {sub : String} {filters : List F}
    {stored : List Event}
    (hlog : c.log =
      past ++ .read (.text (.ok (.req sub filters))) stored :: later) :
    ∃ rest, later =
      replay R sub filters stored ++ .wrote (.eose sub) :: rest := by
  rcases h.replies past sub filters stored later hlog with hdone | ⟨rest, hp, -⟩
  · exact hdone
  · rw [hp] at hquiet
    exact hquiet.elim

theorem Inv.written (h : c.Inv R events tx) (hquiet : c.phase.Quiet)
    {event : Event} (hsent : event ∈ tx.sent) :
    event ∈ tx.backlog c.live ∨
      ∀ sub request, Entry.openRequest sub c.log = some request →
        R.matchesAny request.filters event = true →
        .wrote (.event sub event) ∈ request.since := by
  refine (h.covers event hsent).imp_right fun hopen sub request hreq hmatch => ?_
  exact (hopen sub request hreq hmatch).resolve_right (not_inHand hquiet sub event)

end Frame

/-! ## Reading a message and writing an answer -/

section Messages

variable {R : RelaySetup F} {events : List Event} {tx : Broadcast Event}
  {c : Connection F} {entry : Entry F} {sub : String} {filters : List F}

def Neutral (entry : Entry F) : Prop :=
  ∀ sub open?, Entry.track sub open? entry =
    open?.map fun request => request.log entry

theorem neutral_wrote (message : RelayMessage) :
    Neutral (F := F) (.wrote message) := fun _ _ => rfl

theorem Neutral.ne_req (h : Neutral entry) (stored : List Event) :
    entry ≠ .read (.text (.ok (.req sub filters))) stored := by
  rintro rfl
  have hnone := h sub none
  simp [Entry.track] at hnone

theorem filters_of_map_log {open? : Option (Request F)} :
    (∃ request, (open?.map fun request => request.log entry) = some request ∧
        request.filters = filters) ↔
      ∃ request, open? = some request ∧ request.filters = filters := by
  constructor
  · rintro ⟨request, hopen, rfl⟩
    obtain ⟨old, hold, rfl⟩ := Option.map_eq_some_iff.mp hopen
    exact ⟨old, hold, rfl⟩
  · rintro ⟨old, hold, rfl⟩
    exact ⟨old.log entry, by simp [hold], rfl⟩

theorem answer_concat {answer later : List (Entry F)} {eose : Entry F}
    (h : ∃ rest, later = answer ++ eose :: rest) (entry : Entry F) :
    ∃ rest, later ++ [entry] = answer ++ eose :: rest := by
  obtain ⟨rest, rfl⟩ := h
  exact ⟨rest ++ [entry], by simp⟩

theorem tracks_of_registers (hquiet : c.phase.Quiet)
    (h : ∀ sub, c.Registers sub) : c.Tracks := by
  unfold ConnectionPhase.Quiet at hquiet
  unfold Tracks
  split
  · next hphase =>
      rw [hphase] at hquiet
      exact hquiet.elim
  · exact h

theorem Neutral.registers {c' : Connection F} (hneutral : Neutral entry)
    (hlog : c'.log = c.log ++ [entry]) (hsubs : c'.subs = c.subs)
    (h : c.Registers sub) : c'.Registers sub := by
  intro filters
  rw [hlog, hsubs, Entry.openRequest_concat, hneutral, filters_of_map_log]
  exact h filters

theorem replies_concat {c' : Connection F}
    (hentry : ∀ name others stored,
      entry ≠ .read (.text (.ok (.req name others))) stored)
    (hlog : c'.log = c.log ++ [entry])
    (hdone : ∀ past name others stored later,
      c.log = past ++ .read (.text (.ok (.req name others))) stored :: later →
      ∃ rest, later =
        replay R name others stored ++ .wrote (.eose name) :: rest) :
    c'.Replies R := by
  intro past name others stored later hsplit
  rw [hlog] at hsplit
  rcases Schedule.concat_eq_append_cons_iff.mp hsplit with
    ⟨-, heq, -⟩ | ⟨later', rfl, hlog'⟩
  · exact absurd heq.symm (hentry name others stored)
  · exact Or.inl (answer_concat (hdone past name others stored later' hlog') _)

theorem Covers.concat {c' : Connection F} (h : c.Covers R tx)
    (hneutral : Neutral entry) (hlive : c'.live = c.live)
    (hlog : c'.log = c.log ++ [entry])
    (hhand : ∀ name request event,
      Entry.openRequest name c.log = some request → c.InHand name event →
      entry = .wrote (.event name event) ∨ c'.InHand name event) :
    c'.Covers R tx := by
  intro event hsent
  rw [hlive]
  refine (h event hsent).imp_right fun hcovers name request hopen hmatch => ?_
  rw [hlog, Entry.openRequest_concat, hneutral] at hopen
  obtain ⟨old, hold, rfl⟩ := Option.map_eq_some_iff.mp hopen
  rcases hcovers name old hold hmatch with hwrote | hinhand
  · exact Or.inl (List.mem_append_left _ hwrote)
  · rcases hhand name old event hold hinhand with rfl | hleft
    · exact Or.inl (by simp [Request.log])
    · exact Or.inr hleft

theorem Inv.quiet_log (h : c.Inv R events tx) (hquiet : c.phase.Quiet)
    (entry : Entry F) (phase : ConnectionPhase F)
    (hneutral : Neutral entry) (hsound : entry.Sound R tx.sent c.log)
    (hphase : phase.Quiet)
    (hhand : AtHand R events tx
      { c with log := c.log ++ [entry], phase := phase }) :
    Inv R events tx { c with log := c.log ++ [entry], phase := phase } where
  valid := h.valid
  atHand := hhand
  tracks := tracks_of_registers hphase fun sub =>
    hneutral.registers rfl rfl (h.registers hquiet sub)
  sound := Schedule.justified_concat.mpr ⟨h.sound, hsound⟩
  replies := replies_concat (fun _ _ stored => hneutral.ne_req stored) rfl
    fun _ _ _ _ _ hlog => h.answered hquiet hlog
  covers := h.covers.concat hneutral rfl rfl fun name _ event _ hinhand =>
    absurd hinhand (not_inHand hquiet name event)

theorem Inv.rephase (h : c.Inv R events tx) (phase : ConnectionPhase F)
    (hnone : ∀ sub event, ¬ c.InHand sub event)
    (hregisters : ∀ sub, c.Registers sub)
    (hdone : ∀ sub filters rest, c.phase = .replaying sub filters rest → False)
    (hphase : phase.Quiet)
    (hhand : AtHand R events tx { c with phase := phase }) :
    Inv R events tx { c with phase := phase } where
  valid := h.valid
  atHand := hhand
  tracks := tracks_of_registers hphase hregisters
  sound := h.sound
  replies := by
    intro past sub filters stored later hlog
    rcases h.replies past sub filters stored later hlog with hok | ⟨rest, hp, -⟩
    · exact Or.inl hok
    · exact (hdone _ _ _ hp).elim
  covers := by
    intro event hsent
    refine (h.covers event hsent).imp_right fun hopen sub request hreq hmatch => ?_
    exact Or.inl ((hopen sub request hreq hmatch).resolve_right
      (hnone sub event))

/-- The stored matches of a request are in hand: all that was ever broadcast. -/
theorem Inv.request (h : c.Inv R events tx) (hquiet : c.phase.Quiet)
    (hverified : ∀ event ∈ events, R.verify event = true)
    (hstored : ∀ event ∈ tx.sent, event ∈ events) (sub : String)
    (filters : List F) :
    Inv R events tx { c with
      log := c.log ++ [.read (.text (.ok (.req sub filters))) events]
      phase := .replaying sub filters (events.filter (R.matchesAny filters)) }
    where
  valid := h.valid
  atHand := by
    refine ⟨fun event hmem => ?_, c.log, events, [], rfl, rfl⟩
    obtain ⟨hevent, hmatch⟩ := List.mem_filter.mp hmem
    exact ⟨hverified event hevent, hmatch⟩
  tracks := by
    refine ⟨fun other hother => ?_, ⟨filters, events, []⟩, ?_, rfl⟩
    · intro filters'
      simp only [Entry.openRequest_concat, Entry.track, Ne.symm hother, if_false]
      rw [filters_of_map_log]
      exact h.registers hquiet other filters'
    · simp [Entry.track]
  sound := Schedule.justified_concat.mpr ⟨h.sound, trivial⟩
  replies := by
    intro past name others stored later hlog
    rcases Schedule.concat_eq_append_cons_iff.mp hlog with
      ⟨-, hentry, rfl⟩ | ⟨later', rfl, hlog'⟩
    · cases hentry
      exact Or.inr ⟨_, rfl, rfl⟩
    · exact Or.inl (answer_concat (h.answered hquiet hlog') _)
  covers := by
    intro event hsent
    by_cases hbacklog : event ∈ tx.backlog c.live
    · exact Or.inl hbacklog
    · refine Or.inr fun name request hopen hmatch => ?_
      simp only [Entry.openRequest_concat, Entry.track] at hopen
      split at hopen
      · next hname =>
          cases hopen
          exact Or.inr ⟨hname, List.mem_filter.mpr ⟨hstored event hsent, hmatch⟩⟩
      · obtain ⟨old, hold, rfl⟩ := Option.map_eq_some_iff.mp hopen
        have hwritten := (h.written hquiet hsent).resolve_left hbacklog
        exact Or.inl (List.mem_append_left _ (hwritten name old hold hmatch))

theorem mem_filter_ne {subs : List (String × List F)} {name : String} :
    (name, filters) ∈ subs.filter (fun entry => entry.1 ≠ sub) ↔
      name ≠ sub ∧ (name, filters) ∈ subs := by
  simp [and_comm]

theorem Inv.closeSub (h : c.Inv R events tx) (hquiet : c.phase.Quiet)
    (hhand : c.phase = .idle) (sub : String) (stored : List Event) :
    Inv R events tx (removeSub { c with
      log := c.log ++ [.read (.text (.ok (.close sub))) stored] } sub) where
  valid := h.valid
  atHand := by simp [AtHand, removeSub, hhand]
  tracks := by
    refine tracks_of_registers hquiet fun name filters => ?_
    simp only [removeSub, mem_filter_ne, Entry.openRequest_concat, Entry.track]
    by_cases hname : sub = name
    · simp [hname]
    · rw [if_neg hname, filters_of_map_log, ← h.registers hquiet name filters]
      simp [Ne.symm hname]
  sound := Schedule.justified_concat.mpr ⟨h.sound, trivial⟩
  replies := replies_concat (fun _ _ _ => by simp) rfl
    fun _ _ _ _ _ hlog => h.answered hquiet hlog
  covers := by
    intro event hsent
    refine (h.written hquiet hsent).imp_right fun hwritten name request hopen => ?_
    simp only [removeSub, Entry.openRequest_concat, Entry.track] at hopen
    split at hopen
    · contradiction
    · obtain ⟨old, hold, rfl⟩ := Option.map_eq_some_iff.mp hopen
      exact fun hmatch =>
        Or.inl (List.mem_append_left _ (hwritten name old hold hmatch))

private theorem Inv.replies_wrote (h : c.Inv R events tx) {rest : List Event}
    {message : RelayMessage} {c' : Connection F}
    (hphase : c.phase = .replaying sub filters rest)
    (hlog : c'.log = c.log ++ [.wrote message])
    (hnext : ∀ stored later,
      later ++ rest.map (fun event => .wrote (.event sub event)) =
        replay R sub filters stored →
      (∃ more, later ++ [.wrote message] =
        replay R sub filters stored ++ .wrote (.eose sub) :: more) ∨
      ∃ more, c'.phase = .replaying sub filters more ∧
        later ++ [.wrote message] ++
          more.map (fun event => .wrote (.event sub event)) =
          replay R sub filters stored) : c'.Replies R := by
  intro past name others stored later hsplit
  rw [hlog] at hsplit
  rcases Schedule.concat_eq_append_cons_iff.mp hsplit with
    ⟨-, hentry, -⟩ | ⟨later', rfl, hlog'⟩
  · cases hentry
  · rcases h.replies past name others stored later' hlog' with
      hdone | ⟨rest', hrest, heq⟩
    · exact Or.inl (answer_concat hdone _)
    · rw [hphase] at hrest
      cases hrest
      exact hnext stored later' heq

theorem Inv.replayed (h : c.Inv R events tx) {event : Event}
    {stored : List Event}
    (hphase : c.phase = .replaying sub filters (event :: stored)) :
    Inv R events tx { c.wrote (.event sub event) with
      phase := .replaying sub filters stored } := by
  have hhand := h.atHand
  have htracks := h.tracks
  simp only [AtHand, hphase] at hhand
  simp only [Tracks, hphase] at htracks
  obtain ⟨hstored, before, held, written, hlog, hwritten⟩ := hhand
  obtain ⟨hothers, request, hopen, hfilters⟩ := htracks
  refine ⟨h.valid, ⟨?_, before, held,
    written ++ [.wrote (.event sub event)], ?_, ?_⟩, ⟨?_, ?_⟩, ?_, ?_, ?_⟩
  · exact fun other hmem => hstored other (List.mem_cons_of_mem _ hmem)
  · simp [wrote, hlog]
  · simpa using hwritten
  · exact fun other hother =>
      (neutral_wrote _).registers rfl rfl (hothers other hother)
  · simp only [wrote, Entry.openRequest_concat, Entry.track_wrote,
      filters_of_map_log]
    exact ⟨request, hopen, hfilters⟩
  · obtain ⟨hverify, hmatch⟩ := hstored event (by simp)
    exact Schedule.justified_concat.mpr
      ⟨h.sound, hverify, request, hopen, hfilters ▸ hmatch⟩
  · exact h.replies_wrote hphase rfl fun _ _ heq =>
      Or.inr ⟨stored, rfl, by simpa using heq⟩
  · refine h.covers.concat (neutral_wrote _) rfl rfl ?_
    intro name _ other _ hinhand
    simp only [InHand, hphase, List.mem_cons] at hinhand
    obtain ⟨rfl, rfl | hmem⟩ := hinhand
    · exact Or.inl rfl
    · exact Or.inr ⟨rfl, hmem⟩

theorem Inv.registered (h : c.Inv R events tx)
    (hphase : c.phase = .replaying sub filters []) :
    Inv R events tx { (c.wrote (.eose sub)).insertSub sub filters with
      phase := .idle } := by
  have hhand := h.atHand
  have htracks := h.tracks
  simp only [AtHand, hphase] at hhand
  simp only [Tracks, hphase] at htracks
  obtain ⟨-, before, held, written, hlog, hwritten⟩ := hhand
  obtain ⟨hothers, request, hopen, hfilters⟩ := htracks
  refine ⟨h.valid, trivial, ?_, ?_, ?_, ?_⟩
  · intro name filters'
    simp only [wrote, insertSub, List.mem_cons, mem_filter_ne,
      Entry.openRequest_concat, Entry.track_wrote, filters_of_map_log]
    by_cases hname : name = sub
    · subst hname
      simp [hopen, hfilters, eq_comm]
    · rw [← hothers name hname filters']
      simp [hname]
  · refine Schedule.justified_concat.mpr ⟨h.sound, before, filters, held, ?_⟩
    rw [hlog, ← hwritten]
    simp
  · exact h.replies_wrote hphase rfl fun _ _ heq =>
      Or.inl ⟨[], by simpa using heq⟩
  · refine h.covers.concat (neutral_wrote _) rfl rfl ?_
    intro name _ other _ hinhand
    simp [InHand, hphase] at hinhand

theorem Inv.received (h : c.Inv R events tx) (hidle : c.phase = .idle)
    (hverified : ∀ event ∈ tx.sent, R.verify event = true) {event : Event}
    {live : Nat} (hrecv : tx.recv c.live = some (event, live)) :
    Inv R events tx { c with
      live := live
      phase := .relaying event c.subs } := by
  have hquiet : c.phase.Quiet := by
    rw [hidle]
    trivial
  obtain ⟨-, hbacklog⟩ := Broadcast.recv_eq_some hrecv
  have hsent : event ∈ tx.sent :=
    Broadcast.mem_sent_of_mem_backlog c.live (by simp [hbacklog])
  refine ⟨Broadcast.Valid.recv hrecv, ⟨hverified event hsent, fun _ => id⟩,
    h.registers hquiet, h.sound, ?_, ?_⟩
  · exact fun past name others stored later hlog =>
      Or.inl (h.answered hquiet hlog)
  · intro other hother
    rcases h.written hquiet hother with hmem | hwritten
    · rw [hbacklog, List.mem_cons] at hmem
      rcases hmem with rfl | hmem
      · refine Or.inr fun name request hopen _ => Or.inr ⟨rfl, request.filters, ?_⟩
        exact (h.registers hquiet name request.filters).mpr ⟨request, hopen, rfl⟩
      · exact Or.inl hmem
    · exact Or.inr fun name request hopen hmatch =>
        Or.inl (hwritten name request hopen hmatch)

theorem mem_eraseIdx_or {α : Type} {l : List α} {k : Nat} {a b : α}
    (hk : l[k]? = some a) (hb : b ∈ l) : b = a ∨ b ∈ l.eraseIdx k := by
  obtain ⟨i, hi⟩ := List.mem_iff_getElem?.mp hb
  by_cases hik : i = k
  · subst hik
    exact Or.inl (Option.some.inj (hi.symm.trans hk))
  · exact Or.inr (List.mem_eraseIdx_iff_getElem?.mpr ⟨i, hik, hi⟩)

theorem Inv.relayed (h : c.Inv R events tx) {event : Event} {k : Nat}
    {subs : List (String × List F)} (hphase : c.phase = .relaying event subs)
    (hk : subs[k]? = some (sub, filters)) :
    Inv R events tx
      (if R.matchesAny filters event = true then
        { c with phase := .relaying event (subs.eraseIdx k) }.wrote
          (.event sub event)
      else { c with phase := .relaying event (subs.eraseIdx k) }) := by
  have hhand := h.atHand
  have hregisters := h.tracks
  simp only [AtHand, hphase] at hhand
  simp only [Tracks, hphase] at hregisters
  obtain ⟨hverify, hsubs⟩ := hhand
  have hsubs' : ∀ entry ∈ subs.eraseIdx k, entry ∈ c.subs :=
    fun entry hmem => hsubs entry (List.mem_of_mem_eraseIdx hmem)
  obtain ⟨request, hopen, hfilters⟩ := (hregisters sub filters).mp
    (hsubs _ (List.mem_of_getElem? hk))
  -- the filters of an open request are those that were registered
  have hinhand : ∀ name old other, Entry.openRequest name c.log = some old →
      c.InHand name other →
      other = event ∧ (name = sub ∧ old.filters = filters ∨
        ∃ filters', (name, filters') ∈ subs.eraseIdx k) := by
    intro name old other hold hmem
    simp only [InHand, hphase] at hmem
    obtain ⟨rfl, filters', hmem⟩ := hmem
    refine ⟨rfl, ?_⟩
    rcases mem_eraseIdx_or hk hmem with heq | hmem'
    · cases heq
      rw [hopen] at hold
      cases hold
      exact Or.inl ⟨rfl, hfilters⟩
    · exact Or.inr ⟨filters', hmem'⟩
  have hreplies : ∀ past name others stored later,
      c.log = past ++ .read (.text (.ok (.req name others))) stored :: later →
      ∃ rest, later =
        replay R name others stored ++ .wrote (.eose name) :: rest := by
    intro past name others stored later hlog
    rcases h.replies past name others stored later hlog with hdone | ⟨_, hp, _⟩
    · exact hdone
    · rw [hphase] at hp
      cases hp
  split
  · next hmatch =>
      refine ⟨h.valid, ⟨hverify, hsubs'⟩, ?_, ?_, ?_, ?_⟩
      · exact fun name =>
          (neutral_wrote _).registers rfl rfl (hregisters name)
      · exact Schedule.justified_concat.mpr
          ⟨h.sound, hverify, request, hopen, hfilters ▸ hmatch⟩
      · exact replies_concat (fun _ _ _ => by simp) rfl hreplies
      · refine h.covers.concat (neutral_wrote _) rfl rfl ?_
        intro name old other hold hmem
        obtain ⟨rfl, ⟨rfl, -⟩ | hleft⟩ := hinhand name old other hold hmem
        · exact Or.inl rfl
        · exact Or.inr ⟨rfl, hleft⟩
  · next hmatch =>
      refine ⟨h.valid, ⟨hverify, hsubs'⟩, hregisters, h.sound, ?_, ?_⟩
      · exact fun past name others stored later hlog =>
          Or.inl (hreplies past name others stored later hlog)
      · intro other hsent
        refine (h.covers other hsent).imp_right fun hcovers name old hold => ?_
        intro hmatch'
        rcases hcovers name old hold hmatch' with hwrote | hmem
        · exact Or.inl hwrote
        · obtain ⟨rfl, ⟨-, hold'⟩ | hleft⟩ := hinhand name old other hold hmem
          · exact absurd (hold' ▸ hmatch') hmatch
          · exact Or.inr ⟨rfl, hleft⟩

end Messages

end Connection

/-! ## Runs -/

namespace DevRelay

structure Inv (R : RelaySetup F) (r : DevRelay F) : Prop where
  verified : ∀ event ∈ r.events, R.verify event = true
  stored : ∀ event ∈ r.tx.sent, event ∈ r.events
  connections : ∀ c ∈ r.connections, c.Inv R r.events r.tx

section Steps

variable {R : RelaySetup F} {r r' : DevRelay F} {i k : Nat} {c c' : Connection F}

theorem inv_new (R : RelaySetup F) : (new : DevRelay F).Inv R :=
  ⟨by simp [new], by simp [new], by simp [new]⟩

theorem Inv.place (h : r.Inv R) (hc : c.Inv R r.events r.tx) (i : Nat) :
    (r.place i c).Inv R where
  verified := h.verified
  stored := h.stored
  connections := by
    intro other hmem
    rcases List.mem_or_eq_of_mem_set hmem with hmem | rfl
    · exact h.connections other hmem
    · exact hc

theorem Inv.store (h : r.Inv R) {event : Event}
    (hverify : R.verify event = true) :
    Inv R { r with events := r.events ++ [event] } where
  verified := by
    intro other hmem
    rcases List.mem_append.mp hmem with hmem | hmem
    · exact h.verified other hmem
    · rw [List.mem_singleton.mp hmem]
      exact hverify
  stored := fun other hmem => List.mem_append_left _ (h.stored other hmem)
  connections := fun c hc => (h.connections c hc).store event

theorem Inv.broadcast (h : r.Inv R) {event : Event} (hmem : event ∈ r.events) :
    Inv R { r with tx := r.tx.send event } where
  verified := h.verified
  stored := by
    intro other hother
    rcases List.mem_append.mp hother with hother | hother
    · exact h.stored other hother
    · rw [List.mem_singleton.mp hother]
      exact hmem
  connections := fun c hc => (h.connections c hc).send event

theorem Inv.connect (h : r.Inv R) : r.connect.Inv R where
  verified := h.verified
  stored := h.stored
  connections := by
    intro c hmem
    rcases List.mem_append.mp hmem with hmem | hmem
    · exact h.connections c hmem
    · rw [List.mem_singleton.mp hmem]
      exact {
        valid := Broadcast.valid_subscribe
        atHand := trivial
        tracks := fun sub filters => by simp [Entry.openRequest]
        sound := Schedule.justified_nil
        replies := fun past sub filters stored later hlog => by simp at hlog
        covers := fun event _ => Or.inr fun sub request hopen => by
          simp [Entry.openRequest] at hopen }

theorem Inv.read (h : r.Inv R) (hc : c.Inv R r.events r.tx)
    (hidle : c.phase = .idle) (message : WsMessage F)
    (phase : ConnectionPhase F)
    (hneutral : Connection.Neutral (.read message r.events))
    (hquiet : phase.Quiet)
    (hhand : Connection.AtHand R r.events r.tx { c with
      log := c.log ++ [.read message r.events], phase := phase }) (i : Nat) :
    (r.place i { c with
      log := c.log ++ [.read message r.events], phase := phase }).Inv R := by
  refine h.place (hc.quiet_log ?_ _ phase hneutral trivial hquiet hhand) i
  rw [hidle]
  trivial

theorem Inv.answer (h : r.Inv R) (hc : c.Inv R r.events r.tx)
    (hidle : c.phase = .idle) (message : WsMessage F) (reply : RelayMessage)
    (hneutral : Connection.Neutral (.read message r.events))
    (hsound : ∀ past, Entry.Sound R r.tx.sent past (.wrote reply)) (i : Nat) :
    (r.place i (Connection.wrote { c with
      log := c.log ++ [.read message r.events] } reply)).Inv R := by
  have hquiet : c.phase.Quiet := by
    rw [hidle]
    trivial
  have hread : Connection.Inv R r.events r.tx { c with
      log := c.log ++ [.read message r.events], phase := c.phase } :=
    hc.quiet_log hquiet _ c.phase hneutral trivial hquiet (by
      simp [Connection.AtHand, hidle])
  exact h.place (hread.quiet_log hquiet (.wrote reply) c.phase
    (Connection.neutral_wrote reply) (hsound _) hquiet (by simp [Connection.AtHand, hidle])) i

theorem Inv.receive (h : r.Inv R) (hc : c.Inv R r.events r.tx)
    (hidle : c.phase = .idle) (i : Nat) (message : WsMessage F) :
    (r.receive R i c message).Inv R := by
  have hquiet : c.phase.Quiet := by
    rw [hidle]
    trivial
  have hsame : ∀ entry : Entry F,
      ({ c with log := c.log ++ [entry] } : Connection F) =
        { c with log := c.log ++ [entry], phase := .idle } := by
    intro entry
    rw [← hidle]
  cases message with
  | ping =>
      exact h.answer hc hidle .ping .pong (fun _ _ => rfl) (fun _ => trivial) i
  | close => exact h.read hc hidle .close .closed (fun _ _ => rfl) trivial trivial i
  | ignored =>
      simp only [DevRelay.receive, hsame]
      exact h.read hc hidle .ignored .idle (fun _ _ => rfl) trivial trivial i
  | text message =>
      cases message with
      | error e =>
          exact h.answer hc hidle (.text (.error e)) (.notice _)
            (fun _ _ => rfl) (fun _ => trivial) i
      | ok message =>
          cases message with
          | event event =>
              simp only [DevRelay.receive, handleClientText]
              split
              · next hverify =>
                  refine (h.store hverify).place ?_ i
                  refine (hc.store event).quiet_log hquiet
                    (.read (.text (.ok (.event event))) r.events)
                    (.publishing event) (fun _ _ => rfl) trivial trivial ?_
                  exact ⟨by simp, c.log, r.events, rfl⟩
              · exact h.answer hc hidle (.text (.ok (.event event)))
                  (.ok event.id false _) (fun _ _ => rfl) (fun _ => trivial) i
          | req sub filters =>
              exact h.place (hc.request hquiet h.verified h.stored sub filters) i
          | close sub => exact h.place (hc.closeSub hquiet hidle sub r.events) i
          | unsupported =>
              simp only [DevRelay.receive, handleClientText, hsame]
              exact h.read hc hidle (.text (.ok .unsupported)) .idle
                (fun _ _ => rfl) trivial trivial i

theorem Inv.live (h : r.Inv R) (hc : c.Inv R r.events r.tx)
    (hstep : r.live i c = some r') : r'.Inv R := by
  unfold DevRelay.live at hstep
  split at hstep
  · next hidle =>
      obtain ⟨⟨event, live⟩, hrecv, rfl⟩ := Option.map_eq_some_iff.mp hstep
      exact h.place (hc.received hidle
        (fun other hmem => h.verified other (h.stored other hmem)) hrecv) i
  · contradiction

theorem Inv.relay (h : r.Inv R) (hc : c.Inv R r.events r.tx)
    (hstep : r.relay R i k c = some r') : r'.Inv R := by
  unfold DevRelay.relay at hstep
  split at hstep
  · next event subs hphase =>
      obtain ⟨⟨sub, filters⟩, hk, rfl⟩ := Option.map_eq_some_iff.mp hstep
      exact h.place (hc.relayed hphase hk) i
  · contradiction

theorem Inv.proceed (h : r.Inv R) (hc : c.Inv R r.events r.tx)
    (hstep : r.proceed i c = some r') : r'.Inv R := by
  unfold DevRelay.proceed at hstep
  split at hstep
  · next event hphase =>
      cases hstep
      have hquiet : c.phase.Quiet := by
        rw [hphase]
        trivial
      have hhand := hc.atHand
      simp only [Connection.AtHand, hphase] at hhand
      obtain ⟨hstored, hlog⟩ := hhand
      refine (h.broadcast hstored).place ?_ i
      exact (hc.send event).rephase (.acknowledging event)
        (Connection.not_inHand hquiet)
        (fun sub => hc.registers hquiet sub)
        (fun _ _ _ hp => by rw [hphase] at hp; cases hp) trivial
        ⟨by simp, hlog⟩
  · next event hphase =>
      cases hstep
      have hquiet : c.phase.Quiet := by
        rw [hphase]
        trivial
      have hhand := hc.atHand
      simp only [Connection.AtHand, hphase] at hhand
      obtain ⟨hsent, before, stored, hlog⟩ := hhand
      exact h.place (hc.quiet_log hquiet (.wrote (.ok event.id true "")) .idle
        (Connection.neutral_wrote _)
        ⟨before, event, stored, hlog, rfl, hsent⟩ trivial trivial) i
  · next sub filters event stored hphase =>
      cases hstep
      exact h.place (hc.replayed hphase) i
  · next sub filters hphase =>
      cases hstep
      exact h.place (hc.registered hphase) i
  · next event hphase =>
      cases hstep
      have hregisters := hc.tracks
      simp only [Connection.Tracks, hphase] at hregisters
      exact h.place (hc.rephase .idle
        (fun sub other hmem => by simp [Connection.InHand, hphase] at hmem)
        hregisters (fun _ _ _ hp => by rw [hphase] at hp; cases hp)
        trivial trivial) i
  · contradiction

theorem inv_step {a : DevRelayAction F} (h : r.Inv R)
    (hstep : step R r a = some r') : r'.Inv R := by
  cases a with
  | connect =>
      cases hstep
      exact h.connect
  | disconnect i =>
      obtain ⟨c, hc, hstep⟩ := Option.bind_eq_some_iff.mp hstep
      have hinv := h.connections c (List.mem_of_getElem? hc)
      split at hstep
      · next hidle =>
          cases hstep
          have hquiet : c.phase.Quiet := by
            rw [hidle]
            trivial
          exact h.place (hinv.rephase .closed (Connection.not_inHand hquiet)
            (fun sub => hinv.registers hquiet sub)
            (fun _ _ _ hp => by rw [hidle] at hp; cases hp)
            trivial trivial) i
      · contradiction
  | receive i message =>
      obtain ⟨c, hc, hstep⟩ := Option.bind_eq_some_iff.mp hstep
      split at hstep
      · next hidle =>
          cases hstep
          exact h.receive (h.connections c (List.mem_of_getElem? hc)) hidle i
            message
      · contradiction
  | live i =>
      obtain ⟨c, hc, hstep⟩ := Option.bind_eq_some_iff.mp hstep
      exact h.live (h.connections c (List.mem_of_getElem? hc)) hstep
  | relay i k =>
      obtain ⟨c, hc, hstep⟩ := Option.bind_eq_some_iff.mp hstep
      exact h.relay (h.connections c (List.mem_of_getElem? hc)) hstep
  | proceed i =>
      obtain ⟨c, hc, hstep⟩ := Option.bind_eq_some_iff.mp hstep
      exact h.proceed (h.connections c (List.mem_of_getElem? hc)) hstep

theorem inv (h : (system R).Reach System.Free r) : r.Inv R := by
  refine h.invariant ?_ fun _ _ _ _ hinv _ hstep => inv_step hinv hstep
  rintro _ rfl
  exact inv_new R

end Steps

/-- Some connection sent the event and was told that it is accepted. -/
def Accepted (r : DevRelay F) (event : Event) : Prop :=
  ∃ c ∈ r.connections, ∃ past stored later, c.log = past ++
    .read (.text (.ok (.event event))) stored ::
      .wrote (.ok event.id true "") :: later

variable {R : RelaySetup F} {r : DevRelay F}

theorem Inv.accepted_sent (h : r.Inv R) {event : Event}
    (haccepted : r.Accepted event) : event ∈ r.tx.sent := by
  obtain ⟨c, hc, past, stored, later, hlog⟩ := haccepted
  obtain ⟨before, other, stored', hpast, -, hsent⟩ :=
    (h.connections c hc).sound (past ++ [_]) (.wrote (.ok event.id true "")) later
      (by simpa using hlog)
  obtain ⟨-, hread⟩ := List.append_inj' hpast rfl
  cases hread
  exact hsent

section Runs

open MockTransport (sampleEvent sampleFilter)

def sampleSetup : RelaySetup Filter where
  matchEvent := Filter.matchEvent
  verify := fun _ => true

def liveRun : List (DevRelayAction Filter) :=
  [.connect, .receive 0 (.text (.ok (.req "s" [sampleFilter]))), .proceed 0,
    .connect, .receive 1 (.text (.ok (.event sampleEvent))), .proceed 1,
    .proceed 1]

end Runs

end DevRelay

end NostrQ.Transport
