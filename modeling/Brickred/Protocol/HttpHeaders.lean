import Brickred.Protocol.HttpRoundTrip

/-!
# Headers of the code, and others

A message has headers that the code makes and headers that the user of the code gives. The
names of the user are arbitrary bytes: one of them is read up to its first colon and without
blanks around it. As long as none of them is read as a name of the code, the headers of the
code are read back, and what the message says of its body is what the user says of it.
-/

namespace Brickred

open StringUtil (toLower tolower trim isBlank)

namespace HttpMessage

open SortedMap (Equiv)

/-- No colon and no blank, in the name and in no other case of it. -/
def Token (name : Bytes) : Prop := ∀ c ∈ toLower name, c ≠ 58 ∧ isBlank c = false

instance : DecidablePred Token := fun name => List.decidableBAll _ (toLower name)

/-- Headers on lines of their own, which are read as none of the names. -/
structure Extra (names : List Bytes) (headers : HeaderMap) : Prop where
  plain : ∀ h ∈ headers.entries, Plain h.1 ∧ Plain h.2
  others : ∀ h ∈ headers.entries, ∀ name ∈ names, toLower (fieldName h.1) ≠ toLower name

/-- The headers of a message: those of the code, and others. -/
structure Composed (own : List (Bytes × Bytes)) (extra headers : HeaderMap) : Prop where
  own_mem : ∀ h ∈ own, h ∈ headers.entries
  others : ∀ h ∈ headers.entries,
    h ∈ own ∨ (Plain h.1 ∧ Plain h.2) ∧ ∀ o ∈ own, toLower (fieldName h.1) ≠ toLower o.1
  length : ∀ h, toLower (fieldName h.1) = toLower (bytes "Content-Length") →
    (h ∈ headers.entries ↔ h ∈ extra.entries)

variable {names : List Bytes} {own : List (Bytes × Bytes)} {extra headers : HeaderMap}
  {name key value : Bytes} {h : Bytes × Bytes}

theorem tolower_fixed (c : UInt8) (h : c = 58 ∨ isBlank c = true) : tolower c = c := by
  obtain rfl | h := h
  · rfl
  · simp only [isBlank, Bool.or_eq_true, beq_iff_eq] at h
    obtain rfl | rfl := h <;> rfl

/-- A key is read as itself if it is a token in some case. -/
theorem fieldName_eq (hname : Token name) (hkey : toLower key = toLower name) :
    fieldName key = key := by
  have hchar : ∀ c ∈ key, c ≠ 58 ∧ isBlank c = false := by
    intro c hc
    have hmem : tolower c ∈ toLower name := hkey ▸ List.mem_map_of_mem hc
    obtain ⟨hcolon, hblank⟩ := hname _ hmem
    constructor
    · rintro rfl
      exact hcolon (tolower_fixed 58 (.inl rfl))
    · by_contra h
      rw [Bool.not_eq_false] at h
      rw [tolower_fixed c (.inr h), h] at hblank
      cases hblank
  have htake : key.takeWhile (· ≠ 58) = key :=
    List.takeWhile_eq_self_iff.mpr fun c hc => by simpa using (hchar c hc).1
  unfold fieldName
  rw [htake]
  exact trim_eq ⟨fun c hc => (hchar c (List.mem_of_mem_head? hc)).2,
    fun c hc => (hchar c (List.mem_of_mem_getLast? hc)).2⟩

theorem equiv_iff : Equiv (fun lhs rhs => StringUtil.caseInsensitiveLess lhs rhs = true) key name ↔
    toLower key = toLower name :=
  StringUtil.equiv_iff

/-- None of the names is a key of the others. -/
theorem Extra.absent (h : Extra names extra) (hmem : name ∈ names) (hname : Token name) :
    extra.Absent name := by
  intro e he heq
  rw [equiv_iff] at heq
  refine h.others e he name hmem ?_
  rw [fieldName_eq hname heq, heq]

/-- Headers that are no more than the code's and the others. -/
theorem Composed.of_mem (hmem : ∀ e, e ∈ headers.entries ↔ e ∈ own ∨ e ∈ extra.entries)
    (hextra : Extra (own.map Prod.fst) extra)
    (hlength : ∀ o ∈ own, toLower (fieldName o.1) ≠ toLower (bytes "Content-Length")) :
    Composed own extra headers where
  own_mem e he := (hmem e).mpr (.inl he)
  others e he := by
    obtain hown | hother := (hmem e).mp he
    · exact .inl hown
    · exact .inr ⟨hextra.plain e hother,
        fun o ho => hextra.others e hother o.1 (List.mem_map_of_mem ho)⟩
  length e he := by
    rw [hmem]
    exact ⟨fun h => h.resolve_left fun hown => hlength e hown he, .inr⟩

/-- A header is given a value that the code makes. -/
theorem Composed.insert (h : Composed own extra headers) (hkey : Token key)
    (hline : Plain key) (hvalue : Plain value)
    (hown : ∀ o ∈ own, toLower key ≠ toLower o.1)
    (hlength : toLower key ≠ toLower (bytes "Content-Length")) :
    Composed own extra (headers.insert key value) where
  own_mem e he := by
    refine (SortedMap.mem_insert_other fun heq => ?_).mpr (h.own_mem e he)
    exact hown e he (equiv_iff.mp heq).symm
  others e he := by
    by_cases heq : toLower e.1 = toLower key
    · obtain ⟨hv, hk⟩ := SortedMap.mem_insert_equiv (equiv_iff.mpr heq) he
      refine .inr ⟨⟨?_, hv ▸ hvalue⟩, fun o ho => ?_⟩
      · obtain hk | ⟨e', he', hk⟩ := hk
        · rw [hk]
          exact hline
        · rw [hk] at heq ⊢
          obtain hown' | ⟨hplain, -⟩ := h.others e' he'
          · exact absurd heq.symm (hown e' hown')
          · exact hplain.1
      · rw [fieldName_eq hkey heq, heq]
        exact hown o ho
    · exact h.others e ((SortedMap.mem_insert_other fun he' => heq (equiv_iff.mp he')).mp he)
  length e he := by
    rw [SortedMap.mem_insert_other, h.length e he]
    intro heq
    rw [equiv_iff] at heq
    rw [fieldName_eq hkey heq] at he
    exact hlength (heq.symm.trans he)

theorem Composed.line (h : Composed own extra headers) (hown : ∀ o ∈ own, Plain o.1 ∧ Plain o.2) :
    ∀ e ∈ headers.entries, LineHeader e := by
  intro e he
  obtain hmem | ⟨hplain, -⟩ := h.others e he
  · exact HttpProtocol.lineHeader_of_plain (hown e hmem).1 (hown e hmem).2
  · exact HttpProtocol.lineHeader_of_plain hplain.1 hplain.2

/-- The headers of the code are read back. -/
theorem Composed.find_own (h : Composed own extra headers) (htoken : ∀ o ∈ own, Token o.1)
    (hdistinct : ∀ o ∈ own, ∀ o' ∈ own, toLower o.1 = toLower o'.1 → o = o') {o : Bytes × Bytes}
    (ho : o ∈ own) : (reread headers).find o.1 = some (field o).2 := by
  have hname : (field o).1 = o.1 := fieldName_eq (htoken o ho) rfl
  refine SortedMap.find_insertAll_of_mem (List.mem_map_of_mem (h.own_mem o ho))
    (equiv_iff.mpr (by rw [hname])) fun e' he' heq => ?_
  obtain ⟨e, he, rfl⟩ := List.mem_map.mp he'
  have hread : toLower (fieldName e.1) = toLower o.1 := equiv_iff.mp heq
  obtain hmem | ⟨-, hother⟩ := h.others e he
  · rw [fieldName_eq (htoken e hmem) rfl] at hread
    rw [hdistinct e hmem o ho hread]
  · exact absurd hread (hother o ho)

/-- What is read as the length of the body comes from the others. -/
theorem Composed.find_length (h : Composed own extra headers) :
    (reread headers).find (bytes "Content-Length") =
      (reread extra).find (bytes "Content-Length") := by
  let q : Bytes × Bytes → Bool := fun f => toLower f.1 = toLower (bytes "Content-Length")
  have hread : ∀ {map : HeaderMap}, (reread map).find (bytes "Content-Length") =
      (SortedMap.empty.insertAll ((map.entries.filter (q ∘ field)).map field) : HeaderMap).find
        (bytes "Content-Length") := by
    intro map
    rw [← List.filter_map]
    exact SortedMap.find_insertAll_filter q
      (fun e _ heq => decide_eq_true (equiv_iff.mp heq)) rfl
  have hsame : headers.filter (q ∘ field) = extra.filter (q ∘ field) := by
    refine SortedMap.ext_mem fun e => ?_
    show e ∈ headers.entries.filter _ ↔ e ∈ extra.entries.filter _
    rw [List.mem_filter, List.mem_filter]
    refine and_congr_left fun hq => h.length e ?_
    simpa [q, field] using hq
  rw [hread, hread]
  exact congrArg (fun map : HeaderMap =>
    (SortedMap.empty.insertAll (map.entries.map field) : HeaderMap).find _) hsame

end HttpMessage

end Brickred
