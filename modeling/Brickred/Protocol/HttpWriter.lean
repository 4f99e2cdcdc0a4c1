import Brickred.Protocol.HttpProtocol
import Brickred.Text.Format

/-!
# What `HttpProtocol::writeMessage` writes

Each line is formatted into room that has been reserved for it, so that `snprintf`
does not cut it. A line of `2 ^ 31` bytes or more is longer than the `int` that
`snprintf` returns: it fails, and the line is left out.
-/

namespace Brickred

namespace HttpProtocol

/-- What `print` commits of a text that it has room for. -/
def printed (text : Bytes) : Bytes := if text.length < 2 ^ 31 then text else []

/-- The bytes `writeMessage` appends. -/
def written (m : HttpMessage) : Bytes :=
  printed (formatStartLine m) ++ m.headers.entries.flatMap (fun h => printed (formatHeader h)) ++
    crlf ++ m.body

/-- The bytes that `writeMessage` reserves. -/
def reserved (m : HttpMessage) : Nat :=
  startLineReserve m + (m.headers.entries.map fun h => 32 + h.1.length + h.2.length).sum + 2 +
    m.body.length

/-- The status code of a response is an `int`. -/
def IntStatus : StartLine → Prop
  | .request _ _ => True
  | .response statusCode _ => -2 ^ 31 ≤ statusCode ∧ statusCode < 2 ^ 31

variable {b : DynamicBuffer} {text : Bytes} {size : Nat}

theorem length_printed_le (text : Bytes) : (printed text).length ≤ text.length := by
  unfold printed
  split
  · exact le_refl _
  · exact Nat.zero_le _

theorem length_cstr_le (s : Bytes) : (cstr s).length ≤ s.length :=
  (List.takeWhile_sublist _).length_le

theorem length_formatStartLine {m : HttpMessage} (h : IntStatus m.startLine) :
    (formatStartLine m).length + 3 ≤ startLineReserve m := by
  have hversion : ∀ v, (HttpMessage.versionEnumToStr v).length ≤ 8 := by
    intro v
    cases v <;> decide
  have hmethod : ∀ v, (HttpMessage.methodEnumToStr v).length ≤ 7 := by
    intro v
    cases v <;> decide
  have hblank : (bytes " ").length = 1 := rfl
  have hv := hversion m.version
  unfold formatStartLine startLineReserve
  cases hstart : m.startLine with
  | request method uri =>
    have hm := hmethod method
    have huri := length_cstr_le uri
    simp only [List.length_append, length_crlf]
    omega
  | response code reason =>
    have hreason := length_cstr_le reason
    have hcode : (StringUtil.toStringInt code).length ≤ 11 := by
      rw [hstart] at h
      have habs : code.natAbs < 10 ^ 10 := by
        obtain ⟨h₁, h₂⟩ := h
        omega
      have hlen : (StringUtil.toString code.natAbs).length ≤ 10 :=
        length_toString_le (by decide) habs
      unfold StringUtil.toStringInt
      split
      · rw [List.length_cons]
        omega
      · omega
    simp only [List.length_append, length_crlf]
    omega

theorem length_formatHeader (h : Bytes × Bytes) :
    (formatHeader h).length + 3 ≤ 32 + h.1.length + h.2.length := by
  have h₁ := length_cstr_le h.1
  have h₂ := length_cstr_le h.2
  have hcolon : (bytes ": ").length = 2 := rfl
  unfold formatHeader
  simp only [List.length_append, length_crlf]
  omega

/-- `print` into room for the text and its NUL. -/
theorem print_spec (text : Bytes) (hroom : text.length < b.writableBytes) :
    ∃ b', print text b = some b' ∧ b'.readable = b.readable ++ printed text ∧
      b.writableBytes ≤ b'.writableBytes + text.length ∧ b'.expandSize = b.expandSize := by
  unfold print printed
  by_cases hlong : text.length < 2 ^ 31
  · have hcopy : text.take (b.writableBytes - 1) = text := List.take_of_length_le (by omega)
    obtain ⟨b', e, hread, hwrite, hexpand⟩ := DynamicBuffer.copyIn_write_prefix (b := b)
      text [0] (by simp only [List.length_append, List.length_singleton]; omega)
    rw [if_neg (by omega), if_pos hlong, hcopy, e]
    exact ⟨_, rfl, hread, by omega, hexpand⟩
  · rw [if_pos (.inl (by omega)), if_neg hlong, List.append_nil]
    exact ⟨b, rfl, rfl, by omega, rfl⟩

/-- Room is reserved and a line printed into it; three bytes or more are left. -/
theorem reserve_print (hlen : text.length + 3 ≤ size)
    (hfit : b.readableBytes + size + b.expandSize < 2 ^ 63) :
    ∃ b', (do print text (← b.reserveWritableBytes size)) = some b' ∧
      b'.readable = b.readable ++ printed text ∧ 3 ≤ b'.writableBytes ∧
      b'.expandSize = b.expandSize := by
  obtain ⟨b₁, e₁, hread₁, hroom, -⟩ :=
    DynamicBuffer.reserveWritableBytes_spec (DynamicBuffer.fits_of_lt hfit)
  obtain ⟨b₂, e₂, hread₂, hleft, hexpand⟩ := print_spec (b := b₁) text (by omega)
  refine ⟨b₂, ?_, by rw [hread₂, hread₁], by omega, ?_⟩
  · rw [e₁]
    exact e₂
  · rw [hexpand, DynamicBuffer.expandSize_reserveWritableBytes e₁]

/-- The loop over the headers. -/
theorem headers_spec (hs : List (Bytes × Bytes)) (h3 : 3 ≤ b.writableBytes)
    (hfit : b.readableBytes + (hs.map fun h => 32 + h.1.length + h.2.length).sum + b.expandSize <
      2 ^ 63) :
    ∃ b', hs.foldlM (fun buffer header => do
        let buffer ← buffer.reserveWritableBytes (32 + header.1.length + header.2.length)
        print (formatHeader header) buffer) b = some b' ∧
      b'.readable = b.readable ++ hs.flatMap (fun h => printed (formatHeader h)) ∧
      3 ≤ b'.writableBytes ∧ b'.expandSize = b.expandSize := by
  induction hs generalizing b with
  | nil => exact ⟨b, rfl, (List.append_nil _).symm, h3, rfl⟩
  | cons h hs ih =>
    rw [List.map_cons, List.sum_cons] at hfit
    obtain ⟨b₁, e₁, hread₁, hleft₁, hexpand₁⟩ := reserve_print (b := b) (length_formatHeader h)
      (by omega)
    have hlen := congrArg List.length hread₁
    have hprinted := length_printed_le (formatHeader h)
    have hformat := length_formatHeader h
    rw [List.length_append, DynamicBuffer.length_readable, DynamicBuffer.length_readable] at hlen
    obtain ⟨b₂, e₂, hread₂, hleft₂, hexpand₂⟩ := ih hleft₁ (by omega)
    refine ⟨b₂, ?_, ?_, hleft₂, hexpand₂.trans hexpand₁⟩
    · rw [List.foldlM_cons, e₁]
      exact e₂
    · rw [hread₂, hread₁, List.flatMap_cons, List.append_assoc]

theorem length_headers_le (hs : List (Bytes × Bytes)) :
    (hs.flatMap fun h => printed (formatHeader h)).length ≤
      (hs.map fun h => 32 + h.1.length + h.2.length).sum := by
  induction hs with
  | nil => exact le_refl _
  | cons h hs ih =>
    have hprinted := length_printed_le (formatHeader h)
    have hformat := length_formatHeader h
    rw [List.flatMap_cons, List.length_append, List.map_cons, List.sum_cons]
    omega

theorem length_written_le {m : HttpMessage} (h : IntStatus m.startLine) :
    (written m).length ≤ reserved m := by
  have hstart := length_formatStartLine h
  have hprinted := length_printed_le (formatStartLine m)
  have hheaders := length_headers_le m.headers.entries
  unfold written reserved
  simp only [List.length_append, length_crlf]
  omega

/-- `writeMessage` appends `written`. -/
theorem writeMessage_spec (m : HttpMessage) (hint : IntStatus m.startLine)
    (hfit : b.readableBytes + reserved m + b.expandSize < 2 ^ 63) :
    ∃ b', writeMessage m b = some b' ∧ b'.readable = b.readable ++ written m ∧
      b'.expandSize = b.expandSize := by
  unfold reserved at hfit
  have hstart := length_formatStartLine hint
  have hprinted := length_printed_le (formatStartLine m)
  have hheaders := length_headers_le m.headers.entries
  obtain ⟨b₁, e₁, hread₁, hleft₁, hexpand₁⟩ := reserve_print (b := b) hstart (by omega)
  have hlen₁ := congrArg List.length hread₁
  rw [List.length_append, DynamicBuffer.length_readable, DynamicBuffer.length_readable] at hlen₁
  obtain ⟨b₂, e₂, hread₂, hleft₂, hexpand₂⟩ := headers_spec (b := b₁) m.headers.entries hleft₁
    (by omega)
  have hlen₂ := congrArg List.length hread₂
  rw [List.length_append, DynamicBuffer.length_readable, DynamicBuffer.length_readable] at hlen₂
  -- the room that is left holds the empty line
  have hreserve : b₂.reserveWritableBytes 2 = some b₂ := if_pos (by omega)
  obtain ⟨b₃, e₃, hread₃, -, hexpand₃⟩ := print_spec (b := b₂) crlf hleft₂
  have hcrlf : printed crlf = crlf := rfl
  have hlen₃ := congrArg List.length hread₃
  rw [hcrlf, List.length_append, DynamicBuffer.length_readable, DynamicBuffer.length_readable,
    length_crlf] at hlen₃
  obtain ⟨b₄, e₄, hread₄, hroom₄, -⟩ := DynamicBuffer.reserveWritableBytes_spec
    (show b₃.Fits m.body.length from DynamicBuffer.fits_of_lt (by omega))
  obtain ⟨b₅, e₅, hread₅, -, hexpand₅⟩ := DynamicBuffer.copyIn_write_prefix (b := b₄)
    m.body [] (by rwa [List.append_nil])
  have hexpand₄ := DynamicBuffer.expandSize_reserveWritableBytes e₄
  rw [List.append_nil] at e₅
  refine ⟨b₅.write m.body.length, ?_, ?_, by omega⟩
  · obtain ⟨b₀, e₀, e₁'⟩ := Option.bind_eq_some_iff.mp e₁
    have hfill : b₃.fill m.body.length m.body = some (b₅.write m.body.length) :=
      Option.bind_eq_some_iff.mpr ⟨b₄, e₄, Option.bind_eq_some_iff.mpr ⟨b₅, e₅, rfl⟩⟩
    have hend : (do
        let buffer ← b₂.reserveWritableBytes 2
        let buffer ← print crlf buffer
        buffer.fill m.body.length m.body) = some (b₅.write m.body.length) :=
      Option.bind_eq_some_iff.mpr ⟨b₂, hreserve, Option.bind_eq_some_iff.mpr ⟨b₃, e₃, hfill⟩⟩
    exact Option.bind_eq_some_iff.mpr ⟨b₀, e₀, Option.bind_eq_some_iff.mpr ⟨b₁, e₁',
      Option.bind_eq_some_iff.mpr ⟨b₂, e₂, hend⟩⟩⟩
  · rw [hread₅, hread₄, hread₃, hread₂, hread₁, hcrlf, written]
    simp only [List.append_assoc]

end HttpProtocol

end Brickred
