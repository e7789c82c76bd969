import Mathlib.Data.List.Nodup
import Mathlib.Data.List.TakeWhile
import NostrQ.Foundation.Numeric

/-!
# The text exposition of metrics

A text of lines: comments, of which some give the help text and the type of a
family of samples, and samples, each with the name of its family, its labels and
its value.  Every family comes once, after its help and its type.
-/

namespace NostrQ.Foundation.Exposition

inductive Kind where
  | counter
  | gauge
  | histogram
  | summary
  | untyped
  deriving DecidableEq

structure Sample where
  metric : String
  labels : List (String × String)
  value : Int
  deriving DecidableEq

structure Family where
  name : String
  help : String
  kind : Kind
  samples : List Sample
  deriving DecidableEq

inductive Line where
  | comment
  | help (name text : String)
  | type (name : String) (kind : Kind)
  | sample (sample : Sample)

/-! ## Lines of text -/

/-- Each line ends in a line feed, the last one too. -/
def splitLines (line : List Char) : List Char → Option (List (List Char))
  | [] => if line.isEmpty then some [] else none
  | '\n' :: rest => (splitLines [] rest).map fun lines => line.reverse :: lines
  | c :: rest => splitLines (c :: line) rest

def joinLines (lines : List (List Char)) : List Char :=
  lines.flatMap fun line => line ++ ['\n']

private theorem splitLines_append {line : List Char} (h : '\n' ∉ line)
    (read rest : List Char) :
    splitLines read (line ++ '\n' :: rest) =
      (splitLines [] rest).map fun lines => (read.reverse ++ line) :: lines := by
  induction line generalizing read with
  | nil => simp [splitLines]
  | cons c line ih =>
      obtain ⟨hne, hrest⟩ := not_or.mp (mt List.mem_cons.mpr h)
      have hc : splitLines read (c :: (line ++ '\n' :: rest)) =
          splitLines (c :: read) (line ++ '\n' :: rest) := by
        rw [splitLines]
        rintro rfl
        exact hne rfl
      rw [List.cons_append, hc, ih hrest, List.reverse_cons, List.append_assoc,
        List.singleton_append]

theorem splitLines_joinLines {lines : List (List Char)}
    (h : ∀ line ∈ lines, '\n' ∉ line) :
    splitLines [] (joinLines lines) = some lines := by
  induction lines with
  | nil => rfl
  | cons line lines ih =>
      have hline := h line List.mem_cons_self
      rw [joinLines, List.flatMap_cons, List.append_assoc, List.singleton_append,
        splitLines_append hline, ← joinLines,
        ih fun other hmem => h other (List.mem_cons_of_mem _ hmem)]
      rfl

/-! ## Tokens -/

def isBlank (c : Char) : Bool := c == ' ' || c == '\t'

def skipBlanks (text : List Char) : List Char := text.dropWhile isBlank

def readToken (text : List Char) : List Char × List Char :=
  (text.takeWhile fun c => !isBlank c, text.dropWhile fun c => !isBlank c)

def isNameChar (c : Char) : Bool := c.isAlphanum || c == '_' || c == ':'

def isName (name : List Char) : Bool :=
  match name with
  | [] => false
  | first :: _ => !first.isDigit && name.all isNameChar

def readName (text : List Char) : Option (String × List Char) :=
  let name := text.takeWhile isNameChar
  if isName name then some (String.ofList name, text.dropWhile isNameChar)
  else none

/-! ## Label values -/

def unescape? : Char → Option Char
  | '\\' => some '\\'
  | '"' => some '"'
  | 'n' => some '\n'
  | _ => none

def readValue : List Char → Option (List Char × List Char)
  | [] => none
  | '"' :: rest => some ([], rest)
  | '\\' :: c :: rest =>
      (unescape? c).bind fun c =>
        (readValue rest).map fun (value, rest) => (c :: value, rest)
  | c :: rest => (readValue rest).map fun (value, rest) => (c :: value, rest)

/-- Each character is written within the line so that it is read as itself. -/
structure Escapes (escape : Char → List Char) : Prop where
  read : ∀ c rest, readValue (escape c ++ rest) =
    (readValue rest).map fun (value, rest) => (c :: value, rest)
  oneLine : ∀ c, '\n' ∉ escape c

theorem Escapes.readValue {escape : Char → List Char} (h : Escapes escape)
    (value rest : List Char) :
    readValue (value.flatMap escape ++ '"' :: rest) = some (value, rest) := by
  induction value with
  | nil => rw [List.flatMap_nil, List.nil_append, Exposition.readValue]
  | cons c value ih =>
      rw [List.flatMap_cons, List.append_assoc, h.read, ih]
      rfl

def readLabels : Nat → List Char →
    Option (List (String × String) × List Char)
  | 0, _ => none
  | _ + 1, '}' :: rest => some ([], rest)
  | limit + 1, text =>
      (readName text).bind fun (name, rest) =>
        match rest with
        | '=' :: '"' :: rest =>
            (readValue rest).bind fun (value, rest) =>
              match rest with
              | '}' :: rest => some ([(name, String.ofList value)], rest)
              | ',' :: rest =>
                  (readLabels limit rest).map fun (labels, rest) =>
                    ((name, String.ofList value) :: labels, rest)
              | _ => none
        | _ => none

/-! ## The kinds of lines -/

def readNumbers (text : List Char) : Option Int :=
  let (value, rest) := readToken (skipBlanks text)
  let stamp := skipBlanks rest
  if stamp.isEmpty || (readSigned (String.ofList stamp)).isSome then
    readSigned (String.ofList value)
  else none

def readSample (line : List Char) : Option Sample :=
  (readName line).bind fun (metric, rest) =>
    match rest with
    | '{' :: rest =>
        (readLabels rest.length rest).bind fun (labels, rest) =>
          (readNumbers rest).map fun value => ⟨metric, labels, value⟩
    | _ => (readNumbers rest).map fun value => ⟨metric, [], value⟩

def readHelp : List Char → Option (List Char)
  | [] => some []
  | '\\' :: '\\' :: rest => (readHelp rest).map ('\\' :: ·)
  | '\\' :: 'n' :: rest => (readHelp rest).map ('\n' :: ·)
  | '\\' :: _ => none
  | c :: rest => (readHelp rest).map (c :: ·)

def readKind (text : List Char) : Option Kind :=
  match String.ofList text with
  | "counter" => some .counter
  | "gauge" => some .gauge
  | "histogram" => some .histogram
  | "summary" => some .summary
  | "untyped" => some .untyped
  | _ => none

def readComment (text : List Char) : Option Line :=
  let (token, rest) := readToken (skipBlanks text)
  if token = ['H', 'E', 'L', 'P'] then
    (readName (skipBlanks rest)).bind fun (name, rest) =>
      (readHelp (skipBlanks rest)).map fun help =>
        .help name (String.ofList help)
  else if token = ['T', 'Y', 'P', 'E'] then
    (readName (skipBlanks rest)).bind fun (name, rest) =>
      (readKind (skipBlanks rest)).map fun kind => .type name kind
  else some .comment

def readLine : List Char → Option Line
  | [] => some .comment
  | '#' :: rest => readComment rest
  | line => (readSample line).map .sample

/-! ## Families -/

def collect (family : Option Family) : List Line → Option (List Family)
  | [] => some family.toList
  | .comment :: rest => collect family rest
  | .help name text :: .type name' kind :: rest =>
      if name = name' then
        (collect (some ⟨name, text, kind, []⟩) rest).map fun families =>
          family.toList ++ families
      else none
  | .sample sample :: rest =>
      match family with
      | some f =>
          if sample.metric = f.name then
            collect (some { f with samples := f.samples ++ [sample] }) rest
          else none
      | none => none
  | _ => none

def Distinct (families : List Family) : Prop :=
  (families.map Family.name).Nodup ∧
    ∀ family ∈ families, (family.samples.map Sample.labels).Nodup

instance (families : List Family) : Decidable (Distinct families) :=
  inferInstanceAs (Decidable (_ ∧ _))

def parse (text : String) : Option (List Family) :=
  ((splitLines [] text.toList).bind fun lines =>
    (lines.mapM readLine).bind (collect none)).filter
      fun families => decide (Distinct families)

/-! ## Reading what has been written -/

structure Gauge where
  name : String
  help : String
  label : String
  points : List (String × Int)

def sampleLine (escape : Char → List Char) (metric label value : String)
    (n : Int) : List Char :=
  metric.toList ++ '{' :: (label.toList ++ '=' :: '"' ::
    (value.toList.flatMap escape ++ '"' :: '}' :: ' ' :: (showInt n).toList))

def helpLine (name help : String) : List Char :=
  ['#', ' ', 'H', 'E', 'L', 'P', ' '] ++ (name.toList ++ ' ' :: help.toList)

def typeLine (name : String) : List Char :=
  ['#', ' ', 'T', 'Y', 'P', 'E', ' '] ++
    (name.toList ++ [' ', 'g', 'a', 'u', 'g', 'e'])

namespace Gauge

def lines (escape : Char → List Char) (g : Gauge) : List (List Char) :=
  helpLine g.name g.help :: typeLine g.name ::
    g.points.map fun (value, n) => sampleLine escape g.name g.label value n

def sample (g : Gauge) (point : String × Int) : Sample :=
  ⟨g.name, [(g.label, point.1)], point.2⟩

def read (g : Gauge) : List Line :=
  .help g.name g.help :: .type g.name .gauge ::
    g.points.map fun point => .sample (g.sample point)

def family (g : Gauge) : Family :=
  ⟨g.name, g.help, .gauge, g.points.map g.sample⟩

end Gauge

def isPlain (help : List Char) : Bool :=
  help.all (fun c => c != '\\' && c != '\n') && skipBlanks help == help

structure Gauge.WellFormed (g : Gauge) : Prop where
  name : isName g.name.toList = true
  label : isName g.label.toList = true
  help : isPlain g.help.toList = true
  points : (g.points.map Prod.fst).Nodup

section Reading

variable {name help metric label value : String} {rest : List Char} {n : Int}

theorem nameChars (h : isName name.toList = true) :
    ∀ c ∈ name.toList, isNameChar c = true := by
  cases hname : name.toList with
  | nil => simp
  | cons first tail =>
      rw [hname, isName, Bool.and_eq_true] at h
      exact List.all_eq_true.mp h.2

theorem readName_append (h : isName name.toList = true)
    (hrest : rest.takeWhile isNameChar = []) :
    readName (name.toList ++ rest) = some (name, rest) := by
  have htake : (name.toList ++ rest).takeWhile isNameChar = name.toList := by
    rw [List.takeWhile_append_of_pos (nameChars h), hrest, List.append_nil]
  have hdrop : (name.toList ++ rest).dropWhile isNameChar = rest := by
    rw [List.dropWhile_append_of_pos (nameChars h)]
    cases rest with
    | nil => rfl
    | cons c tail =>
        rw [List.dropWhile_cons_of_neg]
        intro hc
        simp [hc] at hrest
  rw [readName, htake, hdrop, if_pos h, String.ofList_toList]

private theorem nameChar_plain {c : Char} (h : isNameChar c = true) :
    isBlank c = false ∧ c ≠ '#' ∧ c ≠ '\n' := by
  refine ⟨?_, ?_, ?_⟩
  · by_contra hblank
    rw [Bool.not_eq_false, isBlank, Bool.or_eq_true, beq_iff_eq,
      beq_iff_eq] at hblank
    rcases hblank with rfl | rfl <;> exact absurd h (by decide)
  · rintro rfl
    exact absurd h (by decide)
  · rintro rfl
    exact absurd h (by decide)

theorem name_append_ne (h : isName name.toList = true) {c : Char}
    {tail : List Char} (hc : isNameChar c = false) :
    name.toList ++ rest ≠ c :: tail := by
  intro htext
  have hchars := nameChars h
  cases hname : name.toList with
  | nil => simp [hname, isName] at h
  | cons first more =>
      rw [hname] at hchars htext
      have hfirst := hchars first List.mem_cons_self
      rw [(List.cons.inj htext).1, hc] at hfirst
      contradiction

private theorem skipBlanks_space (text : List Char) :
    skipBlanks (' ' :: text) = skipBlanks text :=
  rfl

theorem skipBlanks_name (h : isName name.toList = true) :
    skipBlanks (name.toList ++ rest) = name.toList ++ rest := by
  have hchars := nameChars h
  cases hname : name.toList with
  | nil => simp [hname, isName] at h
  | cons first tail =>
      rw [hname] at hchars
      have hfirst := nameChar_plain (hchars first List.mem_cons_self)
      rw [skipBlanks, List.cons_append, List.dropWhile_cons_of_neg]
      simp [hfirst.1]

theorem showInt_chars (n : Int) :
    ∀ c ∈ (showInt n).toList, isBlank c = false ∧ c ≠ '\n' := by
  have hdigit {c : Char} (h : c.isDigit = true) :
      isBlank c = false ∧ c ≠ '\n' := by
    have hname : isNameChar c = true := by
      simp [isNameChar, Char.isAlphanum, h]
    exact ⟨(nameChar_plain hname).1, (nameChar_plain hname).2.2⟩
  have hrepr (k : Nat) : ∀ c ∈ k.repr.toList, isBlank c = false ∧ c ≠ '\n' := by
    intro c hc
    rw [Nat.toList_repr] at hc
    exact hdigit (Nat.isDigit_of_mem_toDigits (by omega) (by omega) hc)
  intro c hc
  cases n with
  | ofNat k => exact hrepr k c hc
  | negSucc k =>
      rw [showInt, String.toList_append, List.mem_append] at hc
      rcases hc with hsign | hc
      · have hminus : c = '-' := by simpa using hsign
        subst hminus
        decide
      · exact hrepr (k + 1) c hc

theorem readNumbers_showInt (n : Int) :
    readNumbers (' ' :: (showInt n).toList) = some n := by
  have hblank : ∀ c ∈ (showInt n).toList, (!isBlank c) = true := by
    intro c hc
    simp [(showInt_chars n c hc).1]
  have hskip : skipBlanks (' ' :: (showInt n).toList) = (showInt n).toList := by
    rw [skipBlanks, List.dropWhile_cons_of_pos (by decide)]
    cases htext : (showInt n).toList with
    | nil => rfl
    | cons c tail =>
        rw [htext] at hblank
        have hc := hblank c List.mem_cons_self
        rw [List.dropWhile_cons_of_neg]
        simpa using hc
  have htoken : readToken (showInt n).toList = ((showInt n).toList, []) := by
    rw [readToken, List.takeWhile_eq_self_iff.mpr hblank,
      List.dropWhile_eq_nil_iff.mpr hblank]
  rw [readNumbers, hskip, htoken]
  simp [skipBlanks]

theorem readLabels_one {escape : Char → List Char} (hescape : Escapes escape)
    (h : isName label.toList = true) (limit : Nat) :
    readLabels (limit + 1) (label.toList ++ '=' :: '"' ::
      (value.toList.flatMap escape ++ '"' :: '}' :: rest)) =
        some ([(label, value)], rest) := by
  rw [readLabels]
  · rw [readName_append h (by rfl)]
    simp only [Option.bind_some, hescape.readValue, String.ofList_toList]
  · exact fun tail => name_append_ne h (by decide)

theorem readLine_sample {escape : Char → List Char} (hescape : Escapes escape)
    (hmetric : isName metric.toList = true)
    (hlabel : isName label.toList = true) :
    readLine (sampleLine escape metric label value n) =
      some (.sample ⟨metric, [(label, value)], n⟩) := by
  have hsample : readSample (sampleLine escape metric label value n) =
      some ⟨metric, [(label, value)], n⟩ := by
    rw [readSample, sampleLine, readName_append hmetric (by rfl)]
    simp only [Option.bind_some]
    have hlabels (tail : List Char) : ∃ limit,
        (label.toList ++ '=' :: tail).length = limit + 1 :=
      ⟨_, by rw [List.length_append, List.length_cons]; rfl⟩
    obtain ⟨limit, hlimit⟩ := hlabels _
    rw [hlimit, readLabels_one hescape hlabel limit]
    simp only [Option.bind_some, readNumbers_showInt, Option.map_some]
  rw [readLine, hsample]
  · rfl
  · simp [sampleLine]
  · exact fun tail => name_append_ne hmetric (by decide)

theorem readHelp_plain {text : List Char} (h : ∀ c ∈ text, c ≠ '\\') :
    readHelp text = some text := by
  induction text with
  | nil => rfl
  | cons c text ih =>
      have hc := h c List.mem_cons_self
      have htext := ih fun other hmem => h other (List.mem_cons_of_mem _ hmem)
      have hread : readHelp (c :: text) = (readHelp text).map (c :: ·) := by
        rw [readHelp] <;> intros <;> simp_all
      rw [hread, htext]
      rfl

theorem readLine_help (hname : isName name.toList = true)
    (hhelp : isPlain help.toList = true) :
    readLine (helpLine name help) = some (.help name help) := by
  obtain ⟨hplain, hskip⟩ := (Bool.and_eq_true _ _).mp hhelp
  have htext : readHelp help.toList = some help.toList := by
    refine readHelp_plain fun c hc => ?_
    have hboth := List.all_eq_true.mp hplain c hc
    simp only [Bool.and_eq_true, bne_iff_ne] at hboth
    exact hboth.1
  have htoken : readToken (skipBlanks (' ' :: 'H' :: 'E' :: 'L' :: 'P' :: ' ' ::
      (name.toList ++ ' ' :: help.toList))) =
      (['H', 'E', 'L', 'P'], ' ' :: (name.toList ++ ' ' :: help.toList)) := rfl
  change readComment (' ' :: 'H' :: 'E' :: 'L' :: 'P' :: ' ' ::
    (name.toList ++ ' ' :: help.toList)) = _
  rw [readComment, htoken]
  simp only [if_true, skipBlanks_space, skipBlanks_name hname]
  rw [readName_append hname (by rfl)]
  simp only [Option.bind_some, skipBlanks_space, beq_iff_eq.mp hskip, htext,
    Option.map_some, String.ofList_toList]

theorem readLine_type (hname : isName name.toList = true) :
    readLine (typeLine name) = some (.type name .gauge) := by
  have htoken : readToken (skipBlanks (' ' :: 'T' :: 'Y' :: 'P' :: 'E' :: ' ' ::
      (name.toList ++ [' ', 'g', 'a', 'u', 'g', 'e']))) =
      (['T', 'Y', 'P', 'E'],
        ' ' :: (name.toList ++ [' ', 'g', 'a', 'u', 'g', 'e'])) := rfl
  change readComment (' ' :: 'T' :: 'Y' :: 'P' :: 'E' :: ' ' ::
    (name.toList ++ [' ', 'g', 'a', 'u', 'g', 'e'])) = _
  rw [readComment, htoken]
  simp only [if_neg (by decide : ¬ ['T', 'Y', 'P', 'E'] = ['H', 'E', 'L', 'P']),
    if_true, skipBlanks_space, skipBlanks_name hname]
  rw [readName_append hname (by rfl)]
  rfl

end Reading

/-! ## Reading families of gauges -/

section Families

variable {escape : Char → List Char} {g : Gauge} {gauges : List Gauge}

theorem lines_oneLine (hescape : Escapes escape) (h : g.WellFormed) :
    ∀ line ∈ g.lines escape, '\n' ∉ line := by
  have hname : '\n' ∉ g.name.toList := fun hmem =>
    absurd (nameChars h.name _ hmem) (by decide)
  have hlabel : '\n' ∉ g.label.toList := fun hmem =>
    absurd (nameChars h.label _ hmem) (by decide)
  have hhelp : '\n' ∉ g.help.toList := by
    intro hmem
    have hplain := ((Bool.and_eq_true _ _).mp h.help).1
    exact absurd (List.all_eq_true.mp hplain _ hmem) (by decide)
  intro line hline
  rcases List.mem_cons.mp hline with rfl | hline
  · simp [helpLine, hname, hhelp]
  · rcases List.mem_cons.mp hline with rfl | hline
    · simp [typeLine, hname]
    · obtain ⟨⟨value, n⟩, -, rfl⟩ := List.mem_map.mp hline
      have hnumber : '\n' ∉ (showInt n).toList := fun hmem =>
        (showInt_chars n _ hmem).2 rfl
      simp [sampleLine, hname, hlabel, hnumber, hescape.oneLine]

theorem mapM_readLine (hescape : Escapes escape) (h : g.WellFormed) :
    (g.lines escape).mapM readLine = some g.read := by
  have hpoints (points : List (String × Int)) :
      (points.map fun (value, n) =>
        sampleLine escape g.name g.label value n).mapM readLine =
        some (points.map fun point => Line.sample (g.sample point)) := by
    induction points with
    | nil => rfl
    | cons point points ih =>
        rw [List.map_cons, List.mapM_cons, readLine_sample hescape h.name h.label,
          ih]
        rfl
  rw [Gauge.lines, List.mapM_cons, readLine_help h.name h.help,
    List.mapM_cons, readLine_type h.name, hpoints]
  rfl

theorem collect_samples (samples : List Sample) (rest : List Line) :
    ∀ family : Family, (∀ sample ∈ samples, sample.metric = family.name) →
      collect (some family) (samples.map Line.sample ++ rest) =
        collect (some { family with samples := family.samples ++ samples })
          rest := by
  induction samples with
  | nil =>
      intro family _
      simp
  | cons sample samples ih =>
      intro family h
      rw [List.map_cons, List.cons_append, collect]
      simp only [if_pos (h sample List.mem_cons_self)]
      rw [ih { family with samples := family.samples ++ [sample] }
        fun other hmem => h other (List.mem_cons_of_mem _ hmem),
        List.append_assoc, List.singleton_append]

theorem collect_gauges (gauges : List Gauge) :
    ∀ family : Option Family, collect family (gauges.flatMap Gauge.read) =
      some (family.toList ++ gauges.map Gauge.family) := by
  induction gauges with
  | nil =>
      intro family
      simp [collect]
  | cons g gauges ih =>
      intro family
      have hsamples := collect_samples (g.points.map g.sample)
        (gauges.flatMap Gauge.read) ⟨g.name, g.help, .gauge, []⟩ (by
          intro sample hsample
          obtain ⟨point, -, rfl⟩ := List.mem_map.mp hsample
          rfl)
      rw [List.map_map] at hsamples
      rw [List.flatMap_cons, Gauge.read, List.cons_append, List.cons_append,
        collect, if_pos rfl]
      change (collect _ (g.points.map (Line.sample ∘ g.sample) ++ _)).map _ = _
      rw [hsamples, ih]
      simp [Gauge.family]

theorem distinct_families (h : ∀ g ∈ gauges, g.WellFormed)
    (hnames : (gauges.map Gauge.name).Nodup) :
    Distinct (gauges.map Gauge.family) := by
  refine ⟨?_, fun family hfamily => ?_⟩
  · rw [List.map_map]
    exact hnames
  · obtain ⟨g, hg, rfl⟩ := List.mem_map.mp hfamily
    have hlabels : (g.family.samples.map Sample.labels) =
        (g.points.map Prod.fst).map fun value => [(g.label, value)] := by
      simp [Gauge.family, Gauge.sample, Function.comp_def]
    rw [hlabels]
    exact List.Nodup.map (fun first second heq => by simpa using heq)
      (h g hg).points

theorem mapM_lines (hescape : Escapes escape) (h : ∀ g ∈ gauges, g.WellFormed) :
    (gauges.flatMap (Gauge.lines escape)).mapM readLine =
      some (gauges.flatMap Gauge.read) := by
  induction gauges with
  | nil => rfl
  | cons g gauges ih =>
      rw [List.flatMap_cons, List.mapM_append,
        mapM_readLine hescape (h g List.mem_cons_self),
        ih fun other hmem => h other (List.mem_cons_of_mem _ hmem)]
      rfl

/-- The families are read as they were written. -/
theorem parse_gauges (hescape : Escapes escape) {text : String}
    (htext : text.toList = joinLines (gauges.flatMap (Gauge.lines escape)))
    (h : ∀ g ∈ gauges, g.WellFormed) (hnames : (gauges.map Gauge.name).Nodup) :
    parse text = some (gauges.map Gauge.family) := by
  have hlines : ∀ line ∈ gauges.flatMap (Gauge.lines escape), '\n' ∉ line := by
    intro line hline
    obtain ⟨g, hg, hline⟩ := List.mem_flatMap.mp hline
    exact lines_oneLine hescape (h g hg) line hline
  rw [parse, htext, splitLines_joinLines hlines, Option.bind_some,
    mapM_lines hescape h, Option.bind_some, collect_gauges,
    Option.toList_none, List.nil_append]
  simp [Option.filter, distinct_families h hnames]

end Families

end NostrQ.Foundation.Exposition
