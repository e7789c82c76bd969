import NostrQ.Foundation.Numeric

/-!
# Responses on the wire

What a client makes of the text that a server has written: a status line, header
fields up to an empty line, and a body of as many bytes as the fields announce,
with nothing after it.
-/

namespace NostrQ.Foundation.Http

structure Response where
  status : String
  fields : List (String × String)
  body : String
  deriving DecidableEq

/-! ## Reading -/

def takeLine : List Char → Option (List Char × List Char)
  | '\r' :: '\n' :: rest => some ([], rest)
  | c :: rest => (takeLine rest).map fun (line, rest) => (c :: line, rest)
  | [] => none

/-- The lines before the first empty one, with a bound on their number. -/
def takeLines : Nat → List Char → Option (List (List Char) × List Char)
  | 0, _ => none
  | fuel + 1, text =>
      match takeLine text with
      | none => none
      | some ([], rest) => some ([], rest)
      | some (line, rest) =>
          (takeLines fuel rest).map fun (lines, rest) => (line :: lines, rest)

def readField (line : List Char) : Option (String × String) :=
  match line.dropWhile (· ≠ ':') with
  | ':' :: ' ' :: value =>
      some (String.ofList (line.takeWhile (· ≠ ':')), String.ofList value)
  | _ => none

def takeBytes : Nat → List Char → Option (List Char × List Char)
  | 0, text => some ([], text)
  | _ + 1, [] => none
  | n + 1, c :: text =>
      if c.utf8Size ≤ n + 1 then
        (takeBytes (n + 1 - c.utf8Size) text).map fun (body, rest) =>
          (c :: body, rest)
      else none

def contentLength (fields : List (String × String)) : Option Nat :=
  (fields.find? fun field => field.1 = "Content-Length").bind fun field =>
    readUnsigned field.2

def readResponse (text : String) : Option Response := do
  let (status, rest) ← takeLine text.toList
  let (lines, rest) ← takeLines (rest.length + 1) rest
  let fields ← lines.mapM readField
  let length ← contentLength fields
  let (body, rest) ← takeBytes length rest
  if rest = [] then some ⟨String.ofList status, fields, String.ofList body⟩
  else none

/-! ## Writing -/

def writeField (field : String × String) : List Char :=
  field.1.toList ++ ':' :: ' ' :: field.2.toList

def writeLine (line : List Char) : List Char := line ++ ['\r', '\n']

def writeResponse (response : Response) : List Char :=
  writeLine response.status.toList ++
    (response.fields.flatMap fun field => writeLine (writeField field)) ++
    ('\r' :: '\n' :: response.body.toList)

/-- No line ends early, and the length announced is that of the body. -/
structure Response.WellFormed (response : Response) : Prop where
  status : '\r' ∉ response.status.toList
  names : ∀ field ∈ response.fields,
    ':' ∉ field.1.toList ∧ '\r' ∉ field.1.toList
  values : ∀ field ∈ response.fields, '\r' ∉ field.2.toList
  length : contentLength response.fields =
    some (response.body.toList.map Char.utf8Size).sum

/-! ## The round trip -/

theorem takeLine_append {line : List Char} (h : '\r' ∉ line)
    (rest : List Char) :
    takeLine (line ++ '\r' :: '\n' :: rest) = some (line, rest) := by
  induction line with
  | nil => rfl
  | cons c line ih =>
      rw [List.mem_cons, not_or] at h
      rw [List.cons_append, takeLine, ih h.2]
      · rfl
      · intro _ hc _
        exact h.1 hc.symm

theorem readField_writeField {field : String × String}
    (h : ':' ∉ field.1.toList) : readField (writeField field) = some field := by
  have hname : ∀ c ∈ field.1.toList, decide (c ≠ ':') = true := fun c hc =>
    decide_eq_true (ne_of_mem_of_not_mem hc h)
  unfold readField writeField
  rw [List.dropWhile_append_of_pos hname, List.takeWhile_append_of_pos hname]
  simp

theorem mapM_readField {fields : List (String × String)}
    (h : ∀ field ∈ fields, ':' ∉ field.1.toList) :
    (fields.map writeField).mapM readField = some fields := by
  induction fields with
  | nil => rfl
  | cons field fields ih =>
      rw [List.forall_mem_cons] at h
      simp [readField_writeField h.1, ih h.2]

theorem takeLines_append {lines : List (List Char)}
    (h : ∀ line ∈ lines, line ≠ [] ∧ '\r' ∉ line) (rest : List Char)
    (fuel : Nat) (hfuel : lines.length < fuel) :
    takeLines fuel (lines.flatMap writeLine ++ '\r' :: '\n' :: rest) =
      some (lines, rest) := by
  induction lines generalizing fuel with
  | nil =>
      obtain ⟨n, rfl⟩ := Nat.exists_eq_succ_of_ne_zero (Nat.ne_of_gt hfuel)
      rfl
  | cons line lines ih =>
      rw [List.forall_mem_cons] at h
      obtain ⟨n, rfl⟩ := Nat.exists_eq_succ_of_ne_zero
        (Nat.ne_of_gt (Nat.lt_of_le_of_lt (Nat.zero_le _) hfuel))
      have hline : takeLine ((line :: lines).flatMap writeLine ++
          '\r' :: '\n' :: rest) =
          some (line, lines.flatMap writeLine ++ '\r' :: '\n' :: rest) := by
        rw [List.flatMap_cons, writeLine, List.append_assoc, List.append_assoc]
        exact takeLine_append h.1.2 _
      have hrest := ih h.2 n (by simpa using hfuel)
      cases line with
      | nil => exact absurd rfl h.1.1
      | cons c line => simp only [takeLines, hline, hrest, Option.map_some]

theorem takeBytes_append (body rest : List Char) :
    takeBytes (body.map Char.utf8Size).sum (body ++ rest) = some (body, rest) := by
  induction body with
  | nil => simp [takeBytes]
  | cons c body ih =>
      have hpos := c.utf8Size_pos
      obtain ⟨n, hn⟩ := Nat.exists_eq_succ_of_ne_zero
        (n := ((c :: body).map Char.utf8Size).sum)
        (by simp only [List.map_cons, List.sum_cons]; omega)
      have hlength : n + 1 - c.utf8Size = (body.map Char.utf8Size).sum := by
        simp only [List.map_cons, List.sum_cons] at hn
        omega
      have hle : c.utf8Size ≤ n + 1 := by
        simp only [List.map_cons, List.sum_cons] at hn
        omega
      rw [hn, List.cons_append, takeBytes, if_pos hle, hlength, ih]
      rfl

theorem utf8ByteSize_eq_sum (text : String) :
    text.utf8ByteSize = (text.toList.map Char.utf8Size).sum := by
  rw [← String.size_toByteArray, ← String.utf8Encode_toList]
  generalize text.toList = chars
  induction chars with
  | nil => simp
  | cons c chars ih => simp [List.utf8Encode]

theorem length_le_lines (lines : List (List Char)) :
    lines.length ≤ (lines.flatMap writeLine).length := by
  induction lines with
  | nil => exact Nat.le_refl 0
  | cons line lines ih =>
      simp only [List.flatMap_cons, writeLine, List.length_append,
        List.length_cons]
      omega

/-- A client reads the response that the server meant. -/
theorem readResponse_writeResponse {response : Response}
    (h : response.WellFormed) :
    readResponse (String.ofList (writeResponse response)) = some response := by
  have hlines : ∀ line ∈ response.fields.map writeField,
      line ≠ [] ∧ '\r' ∉ line := by
    intro line hline
    obtain ⟨field, hfield, rfl⟩ := List.mem_map.mp hline
    refine ⟨by simp [writeField], ?_⟩
    simp [writeField, (h.names field hfield).2, h.values field hfield]
  have hflat : (response.fields.flatMap fun field =>
      writeLine (writeField field)) =
      (response.fields.map writeField).flatMap writeLine := by
    rw [List.flatMap_map]
  have hstatus : takeLine (writeResponse response) = some
      (response.status.toList, (response.fields.map writeField).flatMap writeLine ++
        '\r' :: '\n' :: response.body.toList) := by
    rw [writeResponse, hflat, writeLine, List.append_assoc, List.append_assoc]
    exact takeLine_append h.status _
  have hheader : ∀ fuel,
      fuel = ((response.fields.map writeField).flatMap writeLine ++
        '\r' :: '\n' :: response.body.toList).length + 1 →
      takeLines fuel ((response.fields.map writeField).flatMap writeLine ++
        '\r' :: '\n' :: response.body.toList) =
      some (response.fields.map writeField, response.body.toList) := by
    rintro fuel rfl
    apply takeLines_append hlines
    have hle := length_le_lines (response.fields.map writeField)
    rw [List.length_append]
    omega
  have hfields : (response.fields.map writeField).mapM readField =
      some response.fields := mapM_readField fun field hfield =>
    (h.names field hfield).1
  have hbody := takeBytes_append response.body.toList []
  rw [List.append_nil] at hbody
  simp [readResponse, hstatus, hheader, hfields, h.length, hbody]

end NostrQ.Foundation.Http
