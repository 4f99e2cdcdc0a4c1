import Brickred.Protocol.HttpWire

/-!
# The fields of a header block

A header line is a name, a colon and a value. The headers of a message are what its lines
say, and the last line of a name counts. What is kept of a value is not always the value:
`readHeader` reads it as a string of C, which ends at its first NUL.
-/

namespace Brickred

open StringUtil (find find_append split toLower trim)
open HttpMessage (begun)

namespace HttpProtocol

/-- The field of a header line, with what is kept of its value. -/
def fieldOf (line : Bytes) : Option (Bytes × Bytes) :=
  (find line (bytes ":")).map fun colon =>
    (trim (line.take colon), trim (cstr (line.drop (colon + 1))))

/-- The fields of a header block, or of a trailer. -/
def fieldsOf (block : Bytes) : List (Bytes × Bytes) :=
  (split (block.take (block.length - 4)) crlf (-1)).filterMap fieldOf

/-- The value of a name: the last field with the name counts. -/
def lastField (fields : List (Bytes × Bytes)) (name : Bytes) : Option Bytes :=
  (fields.reverse.find? fun f => toLower f.1 = toLower name).map Prod.snd

/-- The field of a header line as it is in the stream, with all of its value. -/
def rawFieldOf (line : Bytes) : Option (Bytes × Bytes) :=
  (find line (bytes ":")).map fun colon =>
    (trim (line.take colon), trim (line.drop (colon + 1)))

/-- The fields of a block as they are in the stream. -/
def rawFieldsOf (block : Bytes) : List (Bytes × Bytes) :=
  (split (block.take (block.length - 4)) crlf (-1)).filterMap rawFieldOf

/-- What is kept of a value. -/
def kept (value : Bytes) : Bytes := trim (cstr value)

/-- The message that is delivered, by its fields. -/
def delivered (m₀ : HttpMessage) (header trailer : List (Bytes × Bytes)) (data : Bytes) :
    HttpMessage :=
  (chunkedMessage (m₀.setHeaders header) data).setHeaders trailer

/-- The fields of the header block and of the trailer. -/
def Parts.rawFields (w : Parts) : List (Bytes × Bytes) := rawFieldsOf w.header ++ rawFieldsOf w.trailer

/-- The second word of the start line, which is the status code of a response. -/
def statusText (w : Parts) : Bytes :=
  ((split (w.startLine.take (w.startLine.length - 2)) (bytes " ") 3)[1]?).getD []

variable {lim : Limits} {m m₀ : HttpMessage} {w w' : Parts} {block trailer data name line s : Bytes}
  {f : Bytes × Bytes} {lines : List Bytes} {max : Nat}

/-! ## What the lines set -/

theorem setHeaderLine_eq (m : HttpMessage) (line : Bytes) :
    setHeaderLine m line = (fieldOf line).map fun f => m.setHeader f.1 f.2 := by
  rw [fieldOf, Option.map_map]
  rfl

/-- Lines set the fields that they are. -/
theorem foldlM_fieldOf (hlines : lines.foldlM setHeaderLine m₀ = some m) :
    m = m₀.setHeaders (lines.filterMap fieldOf) := by
  induction lines generalizing m₀ with
  | nil => exact (Option.some.inj hlines).symm
  | cons line lines ih =>
    rw [List.foldlM_cons, setHeaderLine_eq] at hlines
    obtain ⟨m₁, h₁, hrest⟩ := Option.bind_eq_some_iff.mp hlines
    obtain ⟨f, hf, rfl⟩ := Option.map_eq_some_iff.mp h₁
    rw [List.filterMap_cons_some hf]
    exact ih hrest

theorem BlockOf.fields (h : BlockOf max m₀ block m) : m = m₀.setHeaders (fieldsOf block) := by
  obtain ⟨-, -, hlines, -⟩ := h
  rename_i text
  have htext : (text ++ (crlf ++ crlf)).take ((text ++ (crlf ++ crlf)).length - 4) = text := by
    rw [List.length_append]
    exact List.take_left' rfl
  rw [fieldsOf, htext]
  exact foldlM_fieldOf hlines

theorem TrailerOf.fields (h : TrailerOf max m₀ trailer m) : m = m₀.setHeaders (fieldsOf trailer) := by
  cases h with
  | none => rfl
  | block hblock => exact hblock.fields

/-! ## The last field of a name -/

variable {fields : List (Bytes × Bytes)}

theorem lastField_eq (fields : List (Bytes × Bytes)) (name : Bytes) : lastField fields name =
    SortedMap.lastValue (fun lhs rhs => StringUtil.caseInsensitiveLess lhs rhs = true) fields name := by
  refine congrArg (fun q => (fields.reverse.find? q).map Prod.snd) (funext fun f => ?_)
  exact decide_eq_decide.mpr StringUtil.equiv_iff.symm

theorem lastField_append (fields' : List (Bytes × Bytes)) : lastField (fields ++ fields') name =
    (lastField fields' name).or (lastField fields name) := by
  simp only [lastField_eq, SortedMap.lastValue_append]

theorem lastField_ne_none (hf : f ∈ fields) : lastField fields f.1 ≠ none := by
  intro hnone
  have hall := List.find?_eq_none.mp (Option.map_eq_none_iff.mp hnone) f (List.mem_reverse.mpr hf)
  simp at hall

theorem lastField_congr {name' : Bytes} (h : toLower name = toLower name') :
    lastField fields name = lastField fields name' := by
  unfold lastField
  rw [h]

/-- What the headers of the delivered message say. -/
theorem find_delivered (hm₀ : m₀ = begun m₀) (header trailer : List (Bytes × Bytes))
    (name : Bytes) : (delivered m₀ header trailer data).headers.find name =
      (lastField trailer name).or
        (if toLower (bytes "Transfer-Encoding") = toLower name then none
        else if toLower (bytes "Content-Length") = toLower name then
          some (StringUtil.toString data.length)
        else lastField header name) := by
  have hempty : m₀.headers = SortedMap.empty := by rw [hm₀]; rfl
  have hequiv : ∀ key, SortedMap.Equiv
      (fun lhs rhs => StringUtil.caseInsensitiveLess lhs rhs = true) key name ↔
        toLower key = toLower name := fun _ => StringUtil.equiv_iff
  have hnone : (SortedMap.empty : HeaderMap).find name = none := rfl
  show ((((m₀.headers.insertAll header).insert _ _).erase _).insertAll trailer).find name = _
  rw [SortedMap.find_insertAll, SortedMap.find_erase, SortedMap.find_insert,
    SortedMap.find_insertAll, hempty, hnone, Option.or_none, lastField_eq, lastField_eq]
  simp only [hequiv]

/-! ## What is kept of the values -/

theorem fieldOf_raw (line : Bytes) :
    fieldOf line = (rawFieldOf line).map fun f => (f.1, kept f.2) := by
  unfold fieldOf rawFieldOf
  rw [Option.map_map]
  refine congrArg (fun g => Option.map g _) (funext fun colon => ?_)
  exact congrArg (Prod.mk _) (trim_cstr_trim _).symm

theorem fieldsOf_raw (block : Bytes) :
    fieldsOf block = (rawFieldsOf block).map fun f => (f.1, kept f.2) := by
  rw [rawFieldsOf, List.map_filterMap]
  exact congrArg (fun g => List.filterMap g _) (funext fieldOf_raw)

theorem lastField_kept (fields : List (Bytes × Bytes)) (name : Bytes) :
    lastField (fields.map fun f => (f.1, kept f.2)) name = (lastField fields name).map kept := by
  unfold lastField
  rw [← List.map_reverse, List.find?_map, Option.map_map, Option.map_map]
  rfl

theorem StartLineOf.eq_begun (h : StartLineOf max line m) : m = begun m := by
  obtain ⟨-, hparse, -⟩ := h
  obtain ⟨hheaders, hbody⟩ := parseStartLine_empty hparse
  obtain ⟨startLine, version, ⟨entries, hsorted⟩, body⟩ := m
  cases hheaders
  cases hbody
  rfl

/-- The headers behind a block are what is kept of its fields. -/
theorem BlockOf.find_kept (hm₀ : m₀ = begun m₀) (h : BlockOf max m₀ block m)
    (name : Bytes) : m.headers.find name = (lastField (rawFieldsOf block) name).map kept := by
  have hempty : m₀.headers = SortedMap.empty := by rw [hm₀]; rfl
  rw [← lastField_kept, ← fieldsOf_raw, lastField_eq, h.fields]
  show (m₀.headers.insertAll _).find name = _
  rw [SortedMap.find_insertAll, hempty]
  exact Option.or_none

/-- The headers of a message are what is kept of its fields, but for the two that `readBody`
rewrites. -/
theorem ReadAs.find_kept (h : ReadAs lim w m)
    (hencoding : toLower (bytes "Transfer-Encoding") ≠ toLower name)
    (hlength : toLower (bytes "Content-Length") ≠ toLower name) :
    m.headers.find name = (lastField w.rawFields name).map kept := by
  unfold Parts.rawFields
  rw [lastField_append, Option.map_or]
  cases h with
  | bare hline =>
    rw [hline.eq_begun]
    rfl
  | sized hline hblock => exact hblock.find_kept hline.eq_begun name
  | @chunked line block raw last body trailer m₀ m₁ _ hline hblock _ _ _ _ htrailer =>
    have hm : m = delivered m₀ (fieldsOf block) (fieldsOf trailer) body := by
      rw [htrailer.fields, hblock.fields]
      rfl
    rw [hm, find_delivered hline.eq_begun, if_neg hencoding, if_neg hlength, fieldsOf_raw,
      fieldsOf_raw, lastField_kept, lastField_kept]

/-! ## The start line of a stream -/

theorem StartLineOf.find (h : StartLineOf max line m) (hbegins : line <+: s) :
    find s crlf = some (line.length - 2) := by
  obtain ⟨hfind, -, -⟩ := h
  obtain ⟨x, rfl⟩ := hbegins
  rw [find_append hfind x, List.length_append, length_crlf]
  rfl

theorem StartLineOf.length_ge (h : StartLineOf max line m) : 2 ≤ line.length := by
  obtain ⟨-, -, -⟩ := h
  rw [List.length_append, length_crlf]
  omega

theorem ReadAs.startLine (h : ReadAs lim w m) : ∃ m₀, StartLineOf lim.startLine w.startLine m₀ := by
  cases h with
  | bare hline | sized hline | chunked hline => exact ⟨_, hline⟩

/-- A stream has one start line. -/
theorem ReadAs.startLine_eq {m' : HttpMessage} (h : ReadAs lim w m) (h' : ReadAs lim w' m')
    (hbegins : w.bytes <+: s) (hbegins' : w'.bytes <+: s) : w.startLine = w'.startLine := by
  have hfirst : ∀ w : Parts, w.startLine <+: w.bytes := fun w => by
    simp only [Parts.bytes, List.append_assoc]
    exact List.prefix_append _ _
  obtain ⟨m₀, hline⟩ := h.startLine
  obtain ⟨m₀', hline'⟩ := h'.startLine
  have hends := (hline.find ((hfirst w).trans hbegins)).symm.trans
    (hline'.find ((hfirst w').trans hbegins'))
  have hlength := hline.length_ge
  have hlength' := hline'.length_ge
  rw [Option.some.injEq] at hends
  exact (List.prefix_of_prefix_length_le ((hfirst w).trans hbegins) ((hfirst w').trans hbegins')
    (by omega)).eq_of_length (by omega)

end HttpProtocol

end Brickred
