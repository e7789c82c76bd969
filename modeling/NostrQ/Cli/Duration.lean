import Mathlib.Data.List.DropRight
import NostrQ.Foundation.Numeric

/-!
# Scheduling a message from the command line and over HTTP

The command line takes durations such as `30s` or `2h`, the HTTP ingress takes
seconds, and both add them to the clock.  The ingress checks its additions; the
command line multiplies and adds without a check, so what happens when a result
leaves the signed range is up to the build.
-/

namespace NostrQ.Cli

open NostrQ.Foundation

/-- What a build makes of an operation that overflows. -/
inductive Overflow where
  | panics
  | wraps
  deriving DecidableEq

/-- The result of an unchecked operation; `none` when the program panics. -/
def Overflow.result : Overflow → Int → Option Int
  | .panics, n => checkedI64 n
  | .wraps, n => some (toI64 n)

theorem Overflow.result_of_inI64 (build : Overflow) {n : Int} (h : InI64 n) :
    build.result n = some n := by
  cases build with
  | panics => exact checkedI64_eq_some.mpr ⟨h, rfl⟩
  | wraps =>
      have hwrap : toI64 n = n := by
        unfold InI64 at h
        unfold toI64
        omega
      rw [Overflow.result, hwrap]

/-! ## Durations -/

def isWhiteSpace (c : Char) : Bool :=
  let n := c.toNat
  (9 ≤ n && n ≤ 13) || n == 0x20 || n == 0x85 || n == 0xA0 || n == 0x1680 ||
    (0x2000 ≤ n && n ≤ 0x200A) || n == 0x2028 || n == 0x2029 || n == 0x202F ||
    n == 0x205F || n == 0x3000

def trim (text : List Char) : List Char :=
  (text.dropWhile isWhiteSpace).rdropWhile isWhiteSpace

inductive DurationError where
  | empty
  | badUnit (text : String)
  | badNumber (text : String)
  | negative (text : String)
  deriving DecidableEq

def DurationError.message : DurationError → String
  | .empty => "duration must not be empty"
  | .badUnit text => "invalid duration '" ++ text ++ "' — use a number " ++
      "optionally suffixed with s/m/h/d (e.g. 30s, 5m, 2h)"
  | .badNumber text => "invalid duration '" ++ text ++ "'"
  | .negative text => "duration must not be negative: '" ++ text ++ "'"

inductive DurationUnit where
  | second
  | minute
  | hour
  | day
  deriving DecidableEq

def DurationUnit.seconds : DurationUnit → Int
  | .second => 1
  | .minute => 60
  | .hour => 3600
  | .day => 86400

def unitOf? : Char → Option DurationUnit
  | 's' => some .second
  | 'm' => some .minute
  | 'h' => some .hour
  | 'd' => some .day
  | _ => none

/-- The number's text and the unit, told by the last character. -/
def splitUnit (text : List Char) : Option (List Char × DurationUnit) :=
  match text.getLast? with
  | none => none
  | some last =>
      if last.isDigit then some (text, .second)
      else (unitOf? last).map fun unit => (text.dropLast, unit)

def parseDurationSecs (build : Overflow) (s : String) :
    Except DurationError (Option Int) :=
  let text := trim s.toList
  let shown := String.ofList text
  if text.isEmpty then .error .empty
  else
    match splitUnit text with
    | none => .error (.badUnit shown)
    | some (number, unit) =>
        match parseI64 (String.ofList number) with
        | none => .error (.badNumber shown)
        | some n =>
            if 0 ≤ n then .ok (build.result (n * unit.seconds))
            else .error (.negative shown)

/-! ## The grammar of durations -/

inductive Suffix : List Char → DurationUnit → Prop where
  | none : Suffix [] .second
  | second : Suffix ['s'] .second
  | minute : Suffix ['m'] .minute
  | hour : Suffix ['h'] .hour
  | day : Suffix ['d'] .day

/-- The text is, but for blanks around it, a signed number and a unit. -/
def Denotes (s : String) (value : Int) (unit : DurationUnit) : Prop :=
  ∃ number suffix, trim s.toList = number ++ suffix ∧ Suffix suffix unit ∧
    parseI64 (String.ofList number) = some value ∧ 0 ≤ value

theorem unitOf?_eq_some {c : Char} {unit : DurationUnit} :
    unitOf? c = some unit ↔ Suffix [c] unit := by
  constructor
  · intro h
    unfold unitOf? at h
    split at h <;> cases h <;> constructor
  · intro h
    cases h <;> rfl

theorem Suffix.not_digit {c : Char} {unit : DurationUnit}
    (h : Suffix [c] unit) : c.isDigit = false := by
  cases h <;> decide

private theorem readDigits_getLast? {digits : List Char} {value : Int}
    {f : Nat → Int} (h : (readDigits digits).map f = some value) :
    ∃ last, digits.getLast? = some last ∧ last.isDigit = true := by
  obtain ⟨n, hread, -⟩ := Option.map_eq_some_iff.mp h
  cases digits with
  | nil => contradiction
  | cons digit rest =>
      simp only [readDigits] at hread
      split at hread
      · next hall =>
          refine ⟨_, List.getLast?_eq_some_getLast (by simp), ?_⟩
          exact List.all_eq_true.mp hall _ (List.getLast_mem _)
      · contradiction

private theorem getLast?_sign {c last : Char} {digits : List Char}
    (h : digits.getLast? = some last) : (c :: digits).getLast? = some last := by
  cases digits with
  | nil => contradiction
  | cons digit rest => rwa [List.getLast?_cons_cons]

theorem parseI64_getLast? {number : List Char} {value : Int}
    (h : parseI64 (String.ofList number) = some value) :
    ∃ last, number.getLast? = some last ∧ last.isDigit = true := by
  obtain ⟨hread, -⟩ := Option.filter_eq_some_iff.mp h
  unfold readSigned at hread
  rw [String.toList_ofList] at hread
  split at hread
  · rw [bind_pure_comp, Option.map_eq_map, Option.map_map] at hread
    obtain ⟨last, hlast, hdigit⟩ := readDigits_getLast? hread
    exact ⟨last, getLast?_sign hlast, hdigit⟩
  · obtain ⟨last, hlast, hdigit⟩ := readDigits_getLast? hread
    exact ⟨last, getLast?_sign hlast, hdigit⟩
  · exact readDigits_getLast? hread

theorem splitUnit_iff {text number : List Char} {unit : DurationUnit}
    {value : Int} (h : parseI64 (String.ofList number) = some value) :
    splitUnit text = some (number, unit) ↔
      ∃ suffix, text = number ++ suffix ∧ Suffix suffix unit := by
  constructor
  · intro hsplit
    unfold splitUnit at hsplit
    split at hsplit
    · contradiction
    · next last hlast =>
        split at hsplit
        · cases hsplit
          exact ⟨[], by simp, .none⟩
        · obtain ⟨found, hfound, heq⟩ := Option.map_eq_some_iff.mp hsplit
          cases heq
          refine ⟨[last], ?_, unitOf?_eq_some.mp hfound⟩
          exact (List.dropLast_append_getLast? last hlast).symm
  · rintro ⟨suffix, rfl, hsuffix⟩
    have hunit : ∀ c, suffix = [c] →
        splitUnit (number ++ suffix) = some (number, unit) := by
      rintro c rfl
      unfold splitUnit
      rw [List.getLast?_concat]
      simp [hsuffix.not_digit, unitOf?_eq_some.mpr hsuffix]
    cases hsuffix with
    | none =>
        obtain ⟨last, hlast, hdigit⟩ := parseI64_getLast? h
        unfold splitUnit
        simp [hlast, hdigit]
    | second | minute | hour | day => exact hunit _ rfl

theorem parseDurationSecs_ok_iff {build : Overflow} {s : String}
    {result : Option Int} :
    parseDurationSecs build s = .ok result ↔
      ∃ value unit, Denotes s value unit ∧
        result = build.result (value * unit.seconds) := by
  unfold parseDurationSecs Denotes
  dsimp only
  constructor
  · intro h
    split at h
    · contradiction
    · split at h
      · contradiction
      · next number unit hsplit =>
          split at h
          · contradiction
          · next value hvalue =>
              split at h
              · next hsign =>
                  cases h
                  obtain ⟨suffix, htext, hsuffix⟩ :=
                    (splitUnit_iff hvalue).mp hsplit
                  exact ⟨value, unit,
                    ⟨number, suffix, htext, hsuffix, hvalue, hsign⟩, rfl⟩
              · contradiction
  · rintro ⟨value, unit, ⟨number, suffix, htext, hsuffix, hvalue, hsign⟩, rfl⟩
    have hsplit := (splitUnit_iff hvalue).mpr ⟨suffix, htext, hsuffix⟩
    obtain ⟨last, hlast, -⟩ := parseI64_getLast? hvalue
    have hfilled : (trim s.toList).isEmpty = false := by
      rw [htext]
      cases number with
      | nil => contradiction
      | cons => rfl
    simp only [hfilled, hsplit, hvalue, hsign, if_true, Bool.false_eq_true,
      if_false]

theorem Denotes.unique {s : String} {value value' : Int}
    {unit unit' : DurationUnit} (h : Denotes s value unit)
    (h' : Denotes s value' unit') : value = value' ∧ unit = unit' := by
  obtain ⟨number, suffix, htext, hsuffix, hvalue, -⟩ := h
  obtain ⟨number', suffix', htext', hsuffix', hvalue', -⟩ := h'
  have hsplit := (splitUnit_iff hvalue).mpr ⟨suffix, htext, hsuffix⟩
  have hsplit' := (splitUnit_iff hvalue').mpr ⟨suffix', htext', hsuffix'⟩
  cases hsplit.symm.trans hsplit'
  exact ⟨Option.some.inj (hvalue.symm.trans hvalue'), rfl⟩

/-! ## From options and parameters to times -/

structure PublishOptions where
  notBefore : Option Int
  expiresAt : Option Int
  deriving DecidableEq

inductive ScheduleError where
  | exclusive (first second : String)
  | duration (error : DurationError)
  | timestamp (text : String)
  deriving DecidableEq

/-- The time a duration from now; the inner `none` is a panic. -/
def addDuration (build : Overflow) (now : Int) (s : String) :
    Except DurationError (Option Int) :=
  (parseDurationSecs build s).map fun secs =>
    secs.bind fun n => build.result (now + n)

def resolveTime (build : Overflow) (parseRfc3339Secs : String → Option Int)
    (now : Int) :
    Option String → Option String → Except ScheduleError (Option (Option Int))
  | some duration, _ =>
      match addDuration build now duration with
      | .error e => .error (.duration e)
      | .ok time => .ok (time.map some)
  | none, some date =>
      match parseRfc3339Secs date with
      | none => .error (.timestamp date)
      | some time => .ok (some (some time))
  | none, none => .ok (some none)

/-- The options of `publish` on the command line; `none` when it panics. -/
def publishSchedule (build : Overflow) (parseRfc3339Secs : String → Option Int)
    (now : Int) (delay notBefore ttl expires : Option String) :
    Except ScheduleError (Option PublishOptions) :=
  if delay.isSome && notBefore.isSome then
    .error (.exclusive "--delay" "--not-before")
  else if ttl.isSome && expires.isSome then
    .error (.exclusive "--ttl" "--expires")
  else
    match resolveTime build parseRfc3339Secs now delay notBefore with
    | .error e => .error e
    | .ok none => .ok none
    | .ok (some optNotBefore) =>
        match resolveTime build parseRfc3339Secs now ttl expires with
        | .error e => .error e
        | .ok time =>
            .ok (time.map fun optExpiresAt => ⟨optNotBefore, optExpiresAt⟩)

def addSeconds (now : Int) (name : String) :
    Option Int → Except String (Option Int)
  | none => .ok none
  | some secs =>
      if secs < 0 then
        .error (name ++ " must be a non-negative number of seconds")
      else
        match checkedI64 (now + secs) with
        | none => .error (name ++ " too large")
        | some time => .ok (some time)

def resolvePublishOpts (now : Int) (delay ttl : Option Int) :
    Except String PublishOptions :=
  match addSeconds now "delay" delay with
  | .error message => .error message
  | .ok notBefore =>
      (addSeconds now "ttl" ttl).map fun expiresAt => ⟨notBefore, expiresAt⟩

inductive QueryError where
  | notAnInteger (text : String)
  | badRequest (message : String)
  deriving DecidableEq

def queryParam : Option String → Except QueryError (Option Int)
  | none => .ok none
  | some text =>
      match parseI64 text with
      | none => .error (.notAnInteger text)
      | some n => .ok (some n)

def ingressSchedule (now : Int) (delay ttl : Option String) :
    Except QueryError PublishOptions :=
  match queryParam delay, queryParam ttl with
  | .error e, _ => .error e
  | .ok _, .error e => .error e
  | .ok delay, .ok ttl =>
      match resolvePublishOpts now delay ttl with
      | .error message => .error (.badRequest message)
      | .ok opts => .ok opts

/-! ## What the two make of a number of seconds -/

/-- The duration and the time it leads to are signed 64-bit numbers. -/
def Fits (now value : Int) (unit : DurationUnit) : Prop :=
  InI64 (value * unit.seconds) ∧ InI64 (now + value * unit.seconds)

/-- What fits gives the exact time, and anything else is refused. -/
structure Exact (build : Overflow) (now : Int) (s : String) : Prop where
  accepted : ∀ value unit, Denotes s value unit → Fits now value unit →
    addDuration build now s = .ok (some (now + value * unit.seconds))
  refused : (∀ value unit, Denotes s value unit → ¬ Fits now value unit) →
    ∃ e, addDuration build now s = .error e

def Agree : Except ScheduleError (Option PublishOptions) →
    Except QueryError PublishOptions → Prop
  | .error _, .error _ => True
  | .error _, .ok _ => False
  | .ok (some first), .ok second => first = second
  | .ok none, .ok _ => False
  | .ok _, .error _ => False

theorem addDuration_of_denotes {build : Overflow} {now : Int} {s : String}
    {value : Int} {unit : DurationUnit} (h : Denotes s value unit) :
    addDuration build now s = .ok ((build.result (value * unit.seconds)).bind
      fun n => build.result (now + n)) := by
  have hparse := parseDurationSecs_ok_iff.mpr
    ⟨value, unit, h, (rfl : build.result _ = build.result _)⟩
  rw [addDuration, hparse]
  rfl

theorem exact_iff {build : Overflow} {now : Int} {s : String} :
    Exact build now s ↔
      ∀ value unit, Denotes s value unit → Fits now value unit := by
  constructor
  · intro h value unit hdenotes
    by_contra hfits
    obtain ⟨e, he⟩ := h.refused fun value' unit' hdenotes' => by
      obtain ⟨rfl, rfl⟩ := hdenotes.unique hdenotes'
      exact hfits
    rw [addDuration_of_denotes hdenotes] at he
    contradiction
  · intro h
    refine ⟨fun value unit hdenotes hfits => ?_, fun hnone => ?_⟩
    · rw [addDuration_of_denotes hdenotes, build.result_of_inI64 hfits.1,
        Option.bind_some, build.result_of_inI64 hfits.2]
    · unfold addDuration
      cases hparse : parseDurationSecs build s with
      | error e => exact ⟨e, rfl⟩
      | ok result =>
          obtain ⟨value, unit, hdenotes, -⟩ := parseDurationSecs_ok_iff.mp hparse
          exact absurd (h value unit hdenotes) (hnone value unit hdenotes)

/-! ### Plain numbers -/

theorem parseI64_repr (n : Nat) :
    parseI64 n.repr =
      if n < 9223372036854775808 then some (n : Int) else none := by
  have hread : readSigned n.repr = some (n : Int) := readSigned_showInt n
  have hin : InI64 n ↔ n < 9223372036854775808 := by
    unfold InI64
    omega
  rw [parseI64, hread, Option.filter_some]
  simp only [hin, decide_eq_true_eq]

private theorem digit_not_whiteSpace {c : Char} (h : c.isDigit = true) :
    isWhiteSpace c = false := by
  have hrange : 48 ≤ c.toNat ∧ c.toNat ≤ 57 := by
    simpa [Char.isDigit, UInt32.le_iff_toNat_le] using h
  unfold isWhiteSpace
  simp only [Bool.or_eq_false_iff, Bool.and_eq_false_iff, beq_eq_false_iff_ne,
    decide_eq_false_iff_not]
  omega

theorem trim_repr (n : Nat) : trim n.repr.toList = n.repr.toList := by
  have hdigits : ∀ c ∈ n.repr.toList, isWhiteSpace c = false := by
    intro c hc
    rw [Nat.toList_repr] at hc
    exact digit_not_whiteSpace
      (Nat.isDigit_of_mem_toDigits (by omega) (by omega) hc)
  have hhead : n.repr.toList.dropWhile isWhiteSpace = n.repr.toList := by
    rw [List.dropWhile_eq_self_iff]
    intro hlen
    simpa using hdigits _ (List.getElem_mem hlen)
  have hlast : n.repr.toList.rdropWhile isWhiteSpace = n.repr.toList := by
    rw [List.rdropWhile_eq_self_iff]
    intro hne
    simpa using hdigits _ (List.getLast_mem hne)
  rw [trim, hhead, hlast]

private theorem splitUnit_repr (n : Nat) :
    splitUnit n.repr.toList = some (n.repr.toList, .second) := by
  obtain ⟨last, hlast, hdigit⟩ : ∃ last, n.repr.toList.getLast? = some last ∧
      last.isDigit = true := by
    rw [Nat.toList_repr]
    refine ⟨_, List.getLast?_eq_some_getLast Nat.toDigits_ne_nil, ?_⟩
    exact Nat.isDigit_of_mem_toDigits (by omega) (by omega) (List.getLast_mem _)
  unfold splitUnit
  simp only [hlast, hdigit, if_true]

theorem addDuration_repr (build : Overflow) (now : Int) (n : Nat) :
    addDuration build now n.repr =
      if n < 9223372036854775808 then .ok (build.result (now + n))
      else .error (.badNumber n.repr) := by
  have hfilled : n.repr.toList.isEmpty = false := by
    rw [Nat.toList_repr]
    simp [Nat.toDigits_ne_nil]
  unfold addDuration parseDurationSecs
  simp only [trim_repr, hfilled, splitUnit_repr, String.ofList_toList,
    parseI64_repr, Bool.false_eq_true, if_false]
  by_cases h : n < 9223372036854775808
  · have hin : InI64 ((n : Int) * DurationUnit.second.seconds) := by
      rw [DurationUnit.seconds]
      unfold InI64
      omega
    simp only [h, if_true, Int.natCast_nonneg, build.result_of_inI64 hin]
    simp [Except.map, DurationUnit.seconds]
  · simp [h, Except.map]

theorem addSeconds_nat (now : Int) (name : String) (n : Nat) :
    addSeconds now name (some (n : Int)) =
      if InI64 (now + n) then .ok (some (now + n))
      else .error (name ++ " too large") := by
  have hsign : ¬ (n : Int) < 0 := by omega
  simp only [addSeconds, hsign, if_false, checkedI64]
  by_cases h : InI64 (now + n)
  · simp only [h, if_true]
  · simp only [h, if_false]

theorem queryParam_repr (n : Nat) :
    queryParam (some n.repr) =
      if n < 9223372036854775808 then .ok (some (n : Int))
      else .error (.notAnInteger n.repr) := by
  simp only [queryParam, parseI64_repr]
  by_cases h : n < 9223372036854775808
  · simp only [h, if_true]
  · simp only [h, if_false]

theorem publishSchedule_delay (build : Overflow)
    (parseRfc3339Secs : String → Option Int) (now : Int) (n : Nat) :
    publishSchedule build parseRfc3339Secs now (some n.repr) none none none =
      if n < 9223372036854775808 then
        .ok ((build.result (now + n)).map fun time => ⟨some time, none⟩)
      else .error (.duration (.badNumber n.repr)) := by
  simp only [publishSchedule, resolveTime, addDuration_repr]
  by_cases h : n < 9223372036854775808
  · cases build.result (now + n) <;> simp [h]
  · simp [h]

theorem publishSchedule_ttl (build : Overflow)
    (parseRfc3339Secs : String → Option Int) (now : Int) (n : Nat) :
    publishSchedule build parseRfc3339Secs now none none (some n.repr) none =
      if n < 9223372036854775808 then
        .ok ((build.result (now + n)).map fun time => ⟨none, some time⟩)
      else .error (.duration (.badNumber n.repr)) := by
  simp only [publishSchedule, resolveTime, addDuration_repr]
  by_cases h : n < 9223372036854775808
  · cases build.result (now + n) <;> simp [h]
  · simp [h]

theorem resolvePublishOpts_delay (now : Int) (n : Nat) :
    resolvePublishOpts now (some (n : Int)) none =
      if InI64 (now + n) then .ok ⟨some (now + n), none⟩
      else .error "delay too large" := by
  rw [resolvePublishOpts, addSeconds_nat]
  by_cases hsum : InI64 (now + n)
  · rw [if_pos hsum, if_pos hsum]
    rfl
  · rw [if_neg hsum, if_neg hsum]
    rfl

theorem resolvePublishOpts_ttl (now : Int) (n : Nat) :
    resolvePublishOpts now none (some (n : Int)) =
      if InI64 (now + n) then .ok ⟨none, some (now + n)⟩
      else .error "ttl too large" := by
  rw [resolvePublishOpts, addSeconds_nat]
  by_cases hsum : InI64 (now + n)
  · rw [if_pos hsum, if_pos hsum]
    rfl
  · rw [if_neg hsum, if_neg hsum]
    rfl

theorem ingressSchedule_delay (now : Int) (n : Nat) :
    ingressSchedule now (some n.repr) none =
      if n < 9223372036854775808 then
        if InI64 (now + n) then .ok ⟨some (now + n), none⟩
        else .error (.badRequest "delay too large")
      else .error (.notAnInteger n.repr) := by
  rw [ingressSchedule, queryParam_repr]
  by_cases h : n < 9223372036854775808
  · rw [if_pos h, if_pos h]
    simp only [queryParam, resolvePublishOpts_delay]
    by_cases hsum : InI64 (now + n) <;> simp only [hsum, if_true, if_false]
  · rw [if_neg h, if_neg h]

theorem ingressSchedule_ttl (now : Int) (n : Nat) :
    ingressSchedule now none (some n.repr) =
      if n < 9223372036854775808 then
        if InI64 (now + n) then .ok ⟨none, some (now + n)⟩
        else .error (.badRequest "ttl too large")
      else .error (.notAnInteger n.repr) := by
  rw [ingressSchedule, queryParam_repr]
  by_cases h : n < 9223372036854775808
  · rw [if_pos h, if_pos h]
    simp only [queryParam, resolvePublishOpts_ttl]
    by_cases hsum : InI64 (now + n) <;> simp only [hsum, if_true, if_false]
  · rw [if_neg h, if_neg h]
    rfl

private theorem agree_iff (build : Overflow) {now : Int} (hnow : InI64 now)
    (n : Nat) (options : Int → PublishOptions) (e : ScheduleError)
    (e₁ e₂ : QueryError) :
    Agree
      (if n < 9223372036854775808 then
        .ok ((build.result (now + n)).map options) else .error e)
      (if n < 9223372036854775808 then
        if InI64 (now + n) then .ok (options (now + n)) else .error e₁
      else .error e₂) ↔
    9223372036854775808 ≤ n ∨ now + n < 9223372036854775808 := by
  have hin : InI64 (now + n) ↔ now + n < 9223372036854775808 := by
    unfold InI64 at hnow ⊢
    omega
  by_cases h : n < 9223372036854775808
  · have hrange : ¬ 9223372036854775808 ≤ n := not_le.mpr h
    simp only [h, if_true, hrange, false_or, ← hin]
    by_cases hsum : InI64 (now + n)
    · simp [hsum, build.result_of_inI64 hsum, Agree]
    · simp only [hsum, if_false]
      cases (build.result (now + n)).map options <;> simp [Agree]
  · simp only [h, if_false, not_lt.mp h, true_or]
    simp [Agree]

/--
A duration is accepted exactly if it is a signed number, not negative, with at
most one unit, and gives the exact time if and only if nothing overflows.  For a
number of seconds the command line and the ingress do the same if and only if
the number is not in range, or its sum with the clock is.
-/
theorem scheduling_agrees_iff (build : Overflow)
    (parseRfc3339Secs : String → Option Int) {now : Int} (hnow : InI64 now) :
    (∀ s result, parseDurationSecs build s = .ok result ↔
      ∃ value unit, Denotes s value unit ∧
        result = build.result (value * unit.seconds)) ∧
    (∀ s, Exact build now s ↔
      ∀ value unit, Denotes s value unit → Fits now value unit) ∧
    ∀ n : Nat,
      (Agree (publishSchedule build parseRfc3339Secs now (some n.repr) none none
          none) (ingressSchedule now (some n.repr) none) ↔
        9223372036854775808 ≤ n ∨ now + n < 9223372036854775808) ∧
      (Agree (publishSchedule build parseRfc3339Secs now none none
          (some n.repr) none) (ingressSchedule now none (some n.repr)) ↔
        9223372036854775808 ≤ n ∨ now + n < 9223372036854775808) := by
  refine ⟨fun _ _ => parseDurationSecs_ok_iff, fun _ => exact_iff, ?_⟩
  intro n
  rw [publishSchedule_delay, publishSchedule_ttl, ingressSchedule_delay,
    ingressSchedule_ttl]
  exact ⟨agree_iff build hnow n (fun time => ⟨some time, none⟩) _ _ _,
    agree_iff build hnow n (fun time => ⟨none, some time⟩) _ _ _⟩

section Runs

theorem scheduling_agrees_iff_half_minute :
    Agree (publishSchedule .wraps (fun _ => none) 1000 (some "30") none none
      none) (ingressSchedule 1000 (some "30") none) := by
  exact ((scheduling_agrees_iff .wraps (fun _ => none)
    (show InI64 1000 by decide)).2.2 30).1.mpr (by decide)

/--
The greatest signed number of minutes is accepted and is minus a minute, or a
panic.  As a number of seconds from now it is refused over HTTP alone.
-/
theorem greatest_duration_overflows :
    parseDurationSecs .wraps "9223372036854775807m" = .ok (some (-60)) ∧
    parseDurationSecs .panics "9223372036854775807m" = .ok none ∧
    ¬ Exact .wraps 1000 "9223372036854775807m" ∧
    publishSchedule .wraps (fun _ => none) 1000 (some "9223372036854775807")
      none none none = .ok (some ⟨some (-9223372036854774809), none⟩) ∧
    ingressSchedule 1000 (some "9223372036854775807") none =
      .error (.badRequest "delay too large") := by
  refine ⟨by decide +kernel, by decide +kernel, fun h => ?_,
    by decide +kernel, by decide +kernel⟩
  have hfits := exact_iff.mp h 9223372036854775807 .minute
    ⟨"9223372036854775807".toList, ['m'], by decide +kernel, .minute,
      by decide +kernel, by decide⟩
  exact absurd hfits.1 (by decide)

end Runs

end NostrQ.Cli
