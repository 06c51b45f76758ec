import PolicySystem.Audit.Canonical
import PolicySystem.Text.Base64
import PolicySystem.Text.Iso8601

/-!
# The cursor of an audit query

`_encode_cursor` and `_decode_cursor` of `audit/store.py`.

* `decodeCursor_encodeCursor`: a position is read back from its cursor.
-/

namespace PolicySystem.AuditQuery

open Text AuditChain

/-- What `query` raises of its arguments. -/
inductive QueryError where
  /-- `AuditInvalidCursorError`: "audit query cursor is malformed" -/
  | invalidCursor
  /-- `KeyError` of a details key that is not allowed -/
  | unknownDetailsKey (key : String)
  deriving DecidableEq

/-- `uuid.UUID(hex)`: 32 hexadecimal digits, hyphens and outer braces apart. -/
def uuid (text : List Char) : Option (BitVec 128) :=
  let digits := ((text.dropWhile (· ∈ ['{', '}'])).rdropWhile (· ∈ ['{', '}'])).filter (· ≠ '-')
  if digits.length = 32 then (hexDigits.read digits).map (BitVec.ofNat 128) else none

/-- `bytes.decode("utf-8")`. -/
def decodeUtf8 (bytes : List UInt8) : Option String := String.fromUTF8? ⟨bytes.toArray⟩

/-- `_encode_cursor`: base 64 of `"{occurred_at_iso}|{id}"`. -/
def encodeCursor (occurredAt : Timestamp) (eventId : BitVec 128) : String :=
  let raw := String.ofList (occurredAt.isoformat ++ '|' :: (uuidText eventId).toList)
  String.ofList (Base64.encode (utf8 raw))

/-- The two fields of a decoded cursor. -/
def cursorFields (raw : String) : Option (Timestamp × BitVec 128) :=
  match raw.toList.splitOn '|' with
  | [occurredAtRaw, eventId] => do
    let occurredAt ← fromIsoformat occurredAtRaw
    let id ← uuid eventId
    return (occurredAt, id)
  | _ => none

/-- `_decode_cursor`. -/
def decodeCursor (cursor : String) : Except QueryError (Timestamp × BitVec 128) :=
  let position := do
    let bytes ← if cursor.toList.all (·.toNat < 128) then Base64.decode cursor.toList else none
    let raw ← decodeUtf8 bytes
    cursorFields raw
  match position with
  | some position => .ok position
  | none => .error .invalidCursor

/-! ## The round trip -/

theorem hex_eq_write (width n : ℕ) : hex width n = hexDigits.write width n := by
  induction width generalizing n with
  | zero => rfl
  | succ width ih =>
    rw [hex, Numerals.write, ih]
    rfl

theorem mem_uuidText {id : BitVec 128} {c : Char} (h : c ∈ (uuidText id).toList) :
    c = '-' ∨ ∃ d, c = hexDigits.char d := by
  by_cases hc : c = '-'
  · exact .inl hc
  · have hmem : c ∈ (uuidText id).toList.filter (· ≠ '-') := List.mem_filter.2 ⟨h, by simpa using hc⟩
    rw [uuidText_digits, hex_eq_write] at hmem
    exact .inr (hexDigits.mem_write hmem)

theorem hexDigits_char (d : Fin 16) : hexDigits.char d ∉ ['{', '}', '|'] := by
  revert d
  decide

theorem decimalDigits_char (d : Fin 10) : decimalDigits.char d ≠ '|' := by
  revert d
  decide

/-- Braces are stripped from the two ends only. -/
theorem strip_of_forall {text : List Char} (h : ∀ c ∈ text, c ∉ ['{', '}']) :
    (text.dropWhile (· ∈ ['{', '}'])).rdropWhile (· ∈ ['{', '}']) = text := by
  have hleft : text.dropWhile (· ∈ ['{', '}']) = text := by
    rw [List.dropWhile_eq_self_iff]
    intro hlen
    have := h _ (List.getElem_mem hlen)
    simpa using this
  rw [hleft, List.rdropWhile_eq_self_iff]
  intro hne
  have := h _ (List.getLast_mem hne)
  simpa using this

theorem uuid_uuidText (id : BitVec 128) : uuid (uuidText id).toList = some id := by
  have hbrace : ∀ c ∈ (uuidText id).toList, c ∉ ['{', '}'] := by
    intro c hc
    rcases mem_uuidText hc with rfl | ⟨d, rfl⟩
    · decide
    · intro hmem
      exact hexDigits_char d (List.mem_append_left ['|'] hmem)
  unfold uuid
  rw [strip_of_forall hbrace, uuidText_digits, hex_eq_write]
  simp only [Numerals.length_write, if_true]
  rw [hexDigits.read_write (by exact id.isLt)]
  simp

theorem decodeUtf8_utf8 (s : String) : decodeUtf8 (utf8 s) = some s := by
  have hbytes : (⟨(utf8 s).toArray⟩ : ByteArray) = s.toByteArray := by
    rw [utf8, String.toUTF8_eq_toByteArray]
  unfold decodeUtf8 String.fromUTF8?
  rw [hbytes, dif_pos s.isValidUTF8]
  rfl

/-- Base 64 is ASCII. -/
theorem encode_ascii (bytes : List UInt8) : (Base64.encode bytes).all (·.toNat < 128) = true := by
  have hchar : ∀ v, v < 64 → (Base64.char v).toNat < 128 := by decide
  rw [List.all_eq_true]
  intro c hc
  rw [decide_eq_true_eq]
  induction bytes using Base64.encode.induct with
  | case1 => cases hc
  | case2 a =>
    have ha := a.toNat_lt
    simp only [Base64.encode, List.mem_cons, List.not_mem_nil, or_false] at hc
    rcases hc with rfl | rfl | rfl | rfl
    · exact hchar _ (by omega)
    · exact hchar _ (by omega)
    · decide
    · decide
  | case3 a b =>
    have ha := a.toNat_lt
    have hb := b.toNat_lt
    simp only [Base64.encode, List.mem_cons, List.not_mem_nil, or_false] at hc
    rcases hc with rfl | rfl | rfl | rfl
    · exact hchar _ (by omega)
    · exact hchar _ (by omega)
    · exact hchar _ (by omega)
    · decide
  | case4 a b c' rest ih =>
    have ha := a.toNat_lt
    have hb := b.toNat_lt
    have hc' := c'.toNat_lt
    simp only [Base64.encode, List.mem_append, List.mem_cons, List.not_mem_nil, or_false] at hc
    rcases hc with (rfl | rfl | rfl | rfl) | hc
    · exact hchar _ (by omega)
    · exact hchar _ (by omega)
    · exact hchar _ (by omega)
    · exact hchar _ (by omega)
    · exact ih hc

/-- **A position is read back from its cursor.** -/
theorem decodeCursor_encodeCursor (occurredAt : Timestamp) (eventId : BitVec 128) :
    decodeCursor (encodeCursor occurredAt eventId) = .ok (occurredAt, eventId) := by
  have hbar : '|' ∉ occurredAt.isoformat := by
    intro hmem
    rcases mem_isoformat hmem with ⟨d, hd⟩ | hmem
    · exact decimalDigits_char d hd.symm
    · revert hmem
      decide
  have hbar' : '|' ∉ (uuidText eventId).toList := by
    intro hmem
    rcases mem_uuidText hmem with hd | ⟨d, hd⟩
    · revert hd
      decide
    · exact hexDigits_char d (by rw [← hd]; decide)
  unfold decodeCursor encodeCursor
  simp only [String.toList_ofList, encode_ascii, if_true, Base64.decode_encode, Option.bind_eq_bind, Option.bind_some,
    decodeUtf8_utf8, cursorFields]
  rw [List.splitOn_append_cons_self_of_not_mem hbar, List.splitOn_eq_singleton hbar']
  simp only [fromIsoformat_isoformat, uuid_uuidText, Option.bind_some, Option.pure_def]

end PolicySystem.AuditQuery
