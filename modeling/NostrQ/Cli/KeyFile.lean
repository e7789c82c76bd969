import NostrQ.Cli.Duration
import NostrQ.Foundation.Transition

/-!
# The key file

`key generate` looks whether the file exists, creates it if there still is none,
and writes the secret key in pieces; meanwhile other processes generate keys of
their own, or read the file in pieces.  Any of them may end at any point.
-/

namespace NostrQ.Cli

open NostrQ.Foundation

structure KeyFormat (Key : Type) where
  toSecretHex : Key → List Char
  parse : List Char → Option Key

def isHexDigit (c : Char) : Bool := c.isDigit || ('a' ≤ c && c ≤ 'f')

/-- A secret key has 64 digits; a text of fewer digits is not one. -/
structure KeyFormat.Lawful {Key : Type} (F : KeyFormat Key) : Prop where
  digits : ∀ key, ∀ c ∈ F.toSecretHex key, isHexDigit c = true
  length : ∀ key, (F.toSecretHex key).length = 64
  parse_toSecretHex : ∀ key, F.parse (F.toSecretHex key) = some key
  parse_short : ∀ text, (∀ c ∈ text, isHexDigit c = true) →
    text.length < 64 → F.parse text = none

/-- Where a process is; `loaded` is only what has been read from the file. -/
inductive KeyPhase (Key : Type) where
  | idle
  | creating (key : Key)
  | writing (key : Key) (rest : List Char)
  | shown (key : Key)
  | reading (got : List Char)
  | loaded (key : Key)
  | fromEnvironment (key : Key)
  | failed
  deriving DecidableEq

structure KeyFile (Key : Type) where
  file : Option (List Char)
  phase : Nat → KeyPhase Key

inductive KeyStep (Key : Type) where
  | generate (key : Key)
  | create
  | write (length : Nat)
  | finish
  | load (environment : Option (List Char))
  | read (length : Nat)
  | parse
  | crash

structure KeyAction (Key : Type) where
  process : Nat
  step : KeyStep Key

namespace KeyFile

variable {Key : Type} (F : KeyFormat Key)

def advance (file : Option (List Char)) :
    KeyPhase Key → KeyStep Key → Option (Option (List Char) × KeyPhase Key)
  | .idle, .generate key =>
      some (file, if file.isSome then .failed else .creating key)
  | .creating key, .create =>
      match file with
      | none => some (some [], .writing key (F.toSecretHex key))
      | some text => some (some text, .failed)
  | .writing key rest, .write length =>
      file.map fun text =>
        (some (text ++ rest.take length), .writing key (rest.drop length))
  | .writing key [], .finish => some (file, .shown key)
  | .idle, .load (some secret) =>
      some (file, match F.parse (trim secret) with
        | some key => .fromEnvironment key
        | none => .failed)
  | .idle, .load none =>
      some (file, if file.isSome then .reading [] else .failed)
  | .reading got, .read length =>
      file.map fun text =>
        (some text, .reading (got ++ (text.drop got.length).take length))
  | .reading got, .parse =>
      -- the end of the file has been read
      if file.map List.length = some got.length then
        some (file, match F.parse (trim got) with
          | some key => .loaded key
          | none => .failed)
      else none
  | .creating _, .crash => some (file, .failed)
  | .writing _ _, .crash => some (file, .failed)
  | .reading _, .crash => some (file, .failed)
  | _, _ => none

def step (s : KeyFile Key) (a : KeyAction Key) : Option (KeyFile Key) :=
  (advance F s.file (s.phase a.process) a.step).map fun (file, phase) =>
    { file := file, phase := Function.update s.phase a.process phase }

def fresh : KeyFile Key := ⟨none, fun _ => .idle⟩

def system : System (KeyFile Key) (KeyAction Key) where
  init s := s = fresh
  step := step F

/-! ## The one key -/

def Outside : KeyPhase Key → Prop
  | .idle | .creating _ | .fromEnvironment _ | .failed => True
  | _ => False

def Fits (text : List Char) (owner : Nat) (key : Key) (i : Nat) :
    KeyPhase Key → Prop
  | .writing key' rest => i = owner ∧ key' = key ∧
      text ++ rest = F.toSecretHex key
  | .shown key' => i = owner ∧ key' = key ∧ text = F.toSecretHex key
  | .reading got => got <+: text
  | .loaded key' => key' = key ∧ text = F.toSecretHex key
  | _ => True

def Sound (s : KeyFile Key) : Prop :=
  match s.file with
  | none => ∀ i, Outside (s.phase i)
  | some text => ∃ owner key, text <+: F.toSecretHex key ∧
      ∀ i, Fits F text owner key i (s.phase i)

variable {F} {s s' : KeyFile Key} {text : List Char} {key : Key} {i : Nat}

theorem fits_of_outside {phase : KeyPhase Key} (h : Outside phase)
    (owner : Nat) : Fits F text owner key i phase := by
  cases phase <;> simp_all [Outside, Fits]

theorem trim_digits (h : ∀ c ∈ text, isHexDigit c = true) :
    trim text = text := by
  have hplain : ∀ c ∈ text, isWhiteSpace c = false := by
    intro c hc
    have hrange : (48 ≤ c.toNat ∧ c.toNat ≤ 57) ∨
        (97 ≤ c.toNat ∧ c.toNat ≤ 102) := by
      simpa [isHexDigit, Char.isDigit, Char.le_def, UInt32.le_iff_toNat_le]
        using h c hc
    unfold isWhiteSpace
    simp only [Bool.or_eq_false_iff, Bool.and_eq_false_iff,
      beq_eq_false_iff_ne, decide_eq_false_iff_not]
    omega
  have hhead : text.dropWhile isWhiteSpace = text := by
    rw [List.dropWhile_eq_self_iff]
    intro hlen
    simpa using hplain _ (List.getElem_mem hlen)
  rw [trim, hhead, List.rdropWhile_eq_self_iff]
  intro hne
  simpa using hplain _ (List.getLast_mem hne)

theorem parse_prefix (hF : F.Lawful) {got : List Char} {other : Key}
    (hgot : got <+: F.toSecretHex key)
    (hparse : F.parse (trim got) = some other) :
    other = key ∧ got = F.toSecretHex key := by
  have hdigits : ∀ c ∈ got, isHexDigit c = true := fun c hc =>
    hF.digits key c (hgot.subset hc)
  rw [trim_digits hdigits] at hparse
  have hlength : ¬ got.length < 64 := by
    intro hshort
    rw [hF.parse_short got hdigits hshort] at hparse
    contradiction
  have heq : got = F.toSecretHex key := by
    apply hgot.eq_of_length_le
    rw [hF.length key]
    omega
  rw [heq, hF.parse_toSecretHex key] at hparse
  exact ⟨(Option.some.inj hparse).symm, heq⟩

theorem Sound.become (h : Sound F s) (phase : KeyPhase Key)
    (hnone : s.file = none → Outside phase)
    (hsome : ∀ text owner key, s.file = some text →
      text <+: F.toSecretHex key → Fits F text owner key i (s.phase i) →
      Fits F text owner key i phase) :
    Sound F { file := s.file, phase := Function.update s.phase i phase } := by
  unfold Sound at h ⊢
  cases hfile : s.file with
  | none =>
      simp only [hfile] at h ⊢
      rw [Function.forall_update_iff (p := fun _ phase => Outside phase)]
      exact ⟨hnone hfile, fun j _ => h j⟩
  | some text =>
      simp only [hfile] at h ⊢
      obtain ⟨owner, key, hprefix, hfits⟩ := h
      refine ⟨owner, key, hprefix, ?_⟩
      rw [Function.forall_update_iff (p := Fits F text owner key)]
      exact ⟨hsome text owner key hfile hprefix (hfits i), fun j _ => hfits j⟩

theorem Sound.leave (h : Sound F s) {phase : KeyPhase Key}
    (hphase : Outside phase) :
    Sound F { file := s.file, phase := Function.update s.phase i phase } :=
  h.become phase (fun _ => hphase) fun _ owner _ _ _ _ =>
    fits_of_outside hphase owner

theorem Sound.create (h : Sound F s) (hfile : s.file = none) (key : Key) :
    Sound F { file := some []
              phase := Function.update s.phase i
                (.writing key (F.toSecretHex key)) } := by
  unfold Sound at h ⊢
  simp only [hfile] at h
  refine ⟨i, key, List.nil_prefix, ?_⟩
  rw [Function.forall_update_iff (p := Fits F [] i key)]
  exact ⟨⟨rfl, rfl, rfl⟩, fun j _ => fits_of_outside (h j) i⟩

theorem Sound.write (h : Sound F s) (hfile : s.file = some text)
    {rest : List Char} (hphase : s.phase i = .writing key rest)
    (length : Nat) :
    Sound F { file := some (text ++ rest.take length)
              phase := Function.update s.phase i
                (.writing key (rest.drop length)) } := by
  unfold Sound at h ⊢
  simp only [hfile] at h
  obtain ⟨owner, key', hprefix, hfits⟩ := h
  have hown := hfits i
  rw [hphase] at hown
  obtain ⟨rfl, rfl, htext⟩ := hown
  refine ⟨i, key, ?_, ?_⟩
  · rw [← htext, List.prefix_append_right_inj]
    exact List.take_prefix _ _
  · rw [Function.forall_update_iff (p := Fits F (text ++ rest.take length) i key)]
    refine ⟨⟨rfl, rfl, ?_⟩, fun j hj => ?_⟩
    · rw [List.append_assoc, List.take_append_drop]
      exact htext
    · have hfit := hfits j
      cases hother : s.phase j with
      | writing other left =>
          rw [hother] at hfit
          exact absurd hfit.1 hj
      | shown other =>
          rw [hother] at hfit
          exact absurd hfit.1 hj
      | reading got =>
          rw [hother] at hfit
          exact List.IsPrefix.trans hfit (List.prefix_append _ _)
      | loaded other =>
          rw [hother] at hfit
          have hdone : rest = [] := by simpa [hfit.2] using htext
          rw [hdone, List.take_nil, List.append_nil]
          exact hfit
      | _ => trivial

theorem sound_step (hF : F.Lawful) {a : KeyAction Key} (h : Sound F s)
    (hs : step F s a = some s') : Sound F s' := by
  obtain ⟨⟨file, phase⟩, hadvance, rfl⟩ := Option.map_eq_some_iff.mp hs
  unfold advance at hadvance
  split at hadvance
  · next hidle _ =>
      cases hadvance
      apply h.leave
      split <;> trivial
  · next key hcreating _ =>
      split at hadvance
      · next hfile =>
          cases hadvance
          exact h.create hfile key
      · next text hfile =>
          cases hadvance
          rw [← hfile]
          exact h.leave trivial
  · next key rest length hwriting _ =>
      obtain ⟨text, hfile, heq⟩ := Option.map_eq_some_iff.mp hadvance
      cases heq
      exact h.write hfile hwriting length
  · next key hwriting _ =>
      cases hadvance
      apply h.become
      · intro hfile
        unfold Sound at h
        simp only [hfile] at h
        have hout := h a.process
        rw [hwriting] at hout
        exact hout.elim
      · intro text owner key' _ _ hfit
        rw [hwriting] at hfit
        exact ⟨hfit.1, hfit.2.1, by simpa using hfit.2.2⟩
  · next secret hidle _ =>
      cases hadvance
      apply h.leave
      split <;> trivial
  · next hidle _ =>
      cases hadvance
      apply h.become
      · intro hfile
        rw [hfile]
        trivial
      · intro text owner key hfile _ _
        rw [hfile]
        exact List.nil_prefix
  · next got length hreading _ =>
      obtain ⟨text, hfile, heq⟩ := Option.map_eq_some_iff.mp hadvance
      cases heq
      rw [← hfile]
      apply h.become
      · intro hnone
        rw [hnone] at hfile
        contradiction
      · intro text' owner key hfile' _ hfit
        cases hfile.symm.trans hfile'
        rw [hreading] at hfit
        obtain ⟨more, rfl⟩ := hfit
        rw [List.drop_left]
        exact (List.prefix_append_right_inj got).mpr (List.take_prefix _ _)
  · next got hreading _ =>
      split at hadvance
      · next hend =>
          cases hadvance
          apply h.become
          · intro hnone
            rw [hnone] at hend
            contradiction
          · intro text owner key hfile hprefix hfit
            rw [hreading] at hfit
            split
            · next other hparse =>
                obtain ⟨rfl, rfl⟩ := parse_prefix hF
                  (List.IsPrefix.trans hfit hprefix) hparse
                exact ⟨rfl, (hfit.eq_of_length_le hprefix.length_le).symm⟩
            · trivial
      · contradiction
  · next key hcreating _ =>
      cases hadvance
      exact h.leave trivial
  · next key rest hwriting _ =>
      cases hadvance
      exact h.leave trivial
  · next got hreading _ =>
      cases hadvance
      exact h.leave trivial
  · contradiction

theorem sound (hF : F.Lawful)
    {P : KeyFile Key → KeyAction Key → Prop} (h : (system F).Reach P s) :
    Sound F s := by
  apply h.invariant
  · rintro _ rfl
    exact fun i => trivial
  · intro s a s' _ hsound _ hs
    exact sound_step hF hsound hs

/-- A process that has shown its key is at its end. -/
theorem shown_step {a : KeyAction Key} (hshown : s.phase i = .shown key)
    (hs : step F s a = some s') : s'.phase i = .shown key := by
  obtain ⟨⟨file, phase⟩, hadvance, rfl⟩ := Option.map_eq_some_iff.mp hs
  have hother : i ≠ a.process := by
    rintro rfl
    rw [hshown] at hadvance
    simp [advance] at hadvance
  simpa only [Function.update_of_ne hother] using hshown

/--
Once a process has shown the key that it generated, the file holds this key
whatever other processes do; none of them ever shows another key, or reads
another one from the file, and one that reads the file to its end has this key.
-/
theorem one_identity (hF : F.Lawful) {P : KeyFile Key → KeyAction Key → Prop}
    (h : (system F).Reach P s) (hshown : s.phase i = .shown key)
    (hlater : ((system F).startingIn fun start => start = s).Reach P s') :
    s'.file = some (F.toSecretHex key) ∧
    (∀ j other, s'.phase j = .shown other → j = i ∧ other = key) ∧
    (∀ j other, s'.phase j = .loaded other → other = key) ∧
    ∀ j got, s'.phase j = .reading got → s'.file = some got →
      (step F s' ⟨j, .parse⟩).map (fun s'' => s''.phase j) =
        some (.loaded key) := by
  have hstill : s'.phase i = .shown key := by
    apply hlater.invariant
    · rintro _ rfl
      exact hshown
    · intro s₁ a s₂ _ hi _ hs
      exact shown_step hi hs
  have hsound := sound hF (h.after hlater)
  unfold Sound at hsound
  cases hfile : s'.file with
  | none =>
      simp only [hfile] at hsound
      have hout := hsound i
      rw [hstill] at hout
      exact hout.elim
  | some text =>
      simp only [hfile] at hsound
      obtain ⟨owner, key', -, hfits⟩ := hsound
      have hown := hfits i
      rw [hstill] at hown
      obtain ⟨rfl, rfl, rfl⟩ := hown
      refine ⟨rfl, fun j other hj => ?_, fun j other hj => ?_,
        fun j got hj hgot => ?_⟩
      · have hfit := hfits j
        rw [hj] at hfit
        exact ⟨hfit.1, hfit.2.1⟩
      · have hfit := hfits j
        rw [hj] at hfit
        exact hfit.1
      · cases hgot
        have hparse : F.parse (trim (F.toSecretHex key)) = some key := by
          rw [trim_digits (hF.digits key), hF.parse_toSecretHex]
        simp [step, advance, hj, hfile, hparse]

/-! ## Two processes and a reader -/

structure HexKey where
  digits : List Char
  length_eq : digits.length = 64
  all_digits : ∀ c ∈ digits, isHexDigit c = true
  deriving DecidableEq

def hexFormat : KeyFormat HexKey where
  toSecretHex := HexKey.digits
  parse text :=
    if h : text.length = 64 ∧ text.all isHexDigit = true then
      some ⟨text, h.1, List.all_eq_true.mp h.2⟩
    else none

theorem hexFormat_lawful : hexFormat.Lawful where
  digits := HexKey.all_digits
  length := HexKey.length_eq
  parse_toSecretHex key :=
    dif_pos ⟨key.length_eq, List.all_eq_true.mpr key.all_digits⟩
  parse_short _ _ hshort := dif_neg fun h => absurd h.1 (Nat.ne_of_lt hshort)

def repeated (c : Char) (hc : isHexDigit c = true) : HexKey where
  digits := List.replicate 64 c
  length_eq := List.length_replicate
  all_digits := by
    intro digit hdigit
    rw [List.eq_of_mem_replicate hdigit]
    exact hc

def keyA : HexKey := repeated 'a' (by decide)

def keyB : HexKey := repeated 'b' (by decide)

/-- Both find no file; one of them creates it, which is read half written. -/
def racingRun : List (KeyAction HexKey) :=
  [⟨0, .generate keyA⟩, ⟨1, .generate keyB⟩, ⟨0, .create⟩, ⟨1, .create⟩,
    ⟨2, .load none⟩, ⟨0, .write 30⟩, ⟨2, .read 64⟩, ⟨0, .write 64⟩,
    ⟨0, .finish⟩]

def readingRun : List (KeyAction HexKey) :=
  [⟨2, .read 64⟩, ⟨3, .generate keyB⟩]

theorem one_identity_racing :
    ∃ s' : KeyFile HexKey, s'.phase 1 = .failed ∧ s'.phase 3 = .failed ∧
      s'.file = some (hexFormat.toSecretHex keyA) ∧
      (∀ j other, s'.phase j = .shown other → j = 0 ∧ other = keyA) ∧
      (∀ j other, s'.phase j = .loaded other → other = keyA) ∧
      ∀ j got, s'.phase j = .reading got → s'.file = some got →
        (step hexFormat s' ⟨j, .parse⟩).map (fun s'' => s''.phase j) =
          some (.loaded keyA) := by
  have hstart : (system hexFormat).Reach System.Free fresh := .init rfl
  have hruns : (((system hexFormat).run System.Free fresh racingRun).bind
      fun s => (((system hexFormat).startingIn fun start => start = s).run
        System.Free s readingRun).map fun s' =>
          (s.phase 0, s'.phase 1, s'.phase 3)) =
      some (.shown keyA, .failed, .failed) := by
    decide +kernel
  obtain ⟨s, hs, hruns⟩ := Option.bind_eq_some_iff.mp hruns
  obtain ⟨s', hs', hphases⟩ := Option.map_eq_some_iff.mp hruns
  simp only [Prod.mk.injEq] at hphases
  obtain ⟨hshown, hfailed, hrefused⟩ := hphases
  have hlater : ((system hexFormat).startingIn fun start => start = s).Reach
      System.Free s := .init rfl
  exact ⟨s', hfailed, hrefused,
    one_identity hexFormat_lawful (hstart.of_run hs) hshown
      (hlater.of_run hs')⟩

end KeyFile

end NostrQ.Cli
