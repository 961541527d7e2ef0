/-
# Model.JsonData -- reading a response body as JSON

`GetJsonData` decodes the bytes of a response as ASCII, encodes the text as UTF-8 and
parses that.  What the decoder does with a byte beyond ASCII is a parameter (`Ascii`).

A body of ASCII bytes comes through unchanged; then the one body that goes wrong is an
array, because the forced cast of the parsed value traps (`transparent_of_ascii`).  With any
other byte the decoded text is a widened form of the text of the body, or there is no
decoded text: an object is delivered with other strings than its own, or is dropped, and a
body that is no UTF-8 may be delivered as an object.
-/
import JobFinder.Model.DataHandeler
import JobFinder.Theory.JsonText

namespace JobFinder.Model.JsonData

open JobFinder.Theory

set_option autoImplicit false

/-! ## What the system does -/

/-- The members of an object, in the order of the text. -/
abbrev Members := List (List Char × Json.Value (List Char))

/-- Decoding bytes as ASCII.  A byte below 0x80 is its own character.  Any other byte is
refused, or decoded to one character, which is not in ASCII either unless it is the
question mark that stands for what cannot be decoded. -/
structure Ascii where
  char : UInt8 → Option Char
  below : ∀ b : UInt8, b.toNat < 0x80 → char b = some (Char.ofNat b.toNat)
  beyond : ∀ (b : UInt8) (c : Char), 0x80 ≤ b.toNat → char b = some c → 0x80 ≤ c.toNat ∨ c = '?'

/-- `String(data:encoding:)`, with the encoding `ascii`. -/
def Ascii.string (A : Ascii) (data : List UInt8) : Option (List Char) := data.mapM A.char

/-- The two kinds of value that may stand at the top level. -/
inductive Kind where
  | array
  | object
deriving DecidableEq, Repr

def kind {α : Type} : Json.Value α → Option Kind
  | .array _ => some .array
  | .object _ => some .object
  | _ => none

/-- The value of a text with an array or an object at the top level. -/
def container (text : List Char) : Option (Json.Value (List Char)) :=
  (Json.read text).filter fun v => (kind v).isSome

/-- `JSONSerialization.jsonObject(with:)`. -/
def jsonObject (data : List UInt8) : Option (Json.Value (List Char)) :=
  (Utf8.decode data).bind container

/-- The value as a `[String: Any]`, if it is one. -/
def members : Json.Value (List Char) → Option Members
  | .object members => some members
  | _ => none

/-! ## The handler -/

/-- The block around the parser: its errors are caught, the forced cast is none of them. -/
def complete (json : Option (Json.Value (List Char))) : Issued Members :=
  match json with
  | none => .done []
  | some json => .ofExcept (forceCast (members json)) fun json => .done [json]

/-- `GetJsonData` when the response arrives, with its data or without: the calls of the
completion. -/
def getJsonData (A : Ascii) (data : Option (List UInt8)) : Issued Members :=
  match data with
  | none => .done []
  | some d =>
      match A.string d with
      | none => .done []
      | some value => complete (jsonObject (Utf8.encode value))

/-- The completion is called once, with the object that the body is, and for any other body
it is not called; and nothing traps. -/
def Transparent (A : Ascii) (body : List UInt8) : Prop :=
  getJsonData A (some body) = .done ((jsonObject body).bind members).toList

/-! ## What is delivered of a text -/

theorem jsonObject_encode (text : List Char) : jsonObject (Utf8.encode text) = container text := by
  rw [jsonObject, Utf8.decode_encode]
  rfl

theorem getJsonData_of_string {A : Ascii} {body : List UInt8} {text : List Char}
    (decoded : A.string body = some text) :
    getJsonData A (some body) = complete (container text) := by
  simp only [getJsonData, decoded, jsonObject_encode]

theorem getJsonData_of_refused {A : Ascii} {body : List UInt8} (refused : A.string body = none) :
    getJsonData A (some body) = .done [] := by
  simp only [getJsonData, refused]

/-- The three things that a text can be. -/
theorem container_cases (text : List Char) :
    container text = none ∨
      (∃ items, container text = some (.array items)) ∨
      ∃ ms, container text = some (.object ms) := by
  cases found : container text with
  | none => exact .inl rfl
  | some v =>
      have top : (kind v).isSome = true := (Option.filter_eq_some_iff.mp found).2
      cases v with
      | scalar word => cases top
      | string s => cases top
      | array items => exact .inr (.inl ⟨items, rfl⟩)
      | object ms => exact .inr (.inr ⟨ms, rfl⟩)

theorem kind_map {α β : Type} (f : α → β) (v : Json.Value α) : kind (v.map f) = kind v := by
  cases v <;> rfl

theorem container_bind_kind (text : List Char) :
    (container text).bind kind = ((Json.read text).map Json.Value.shape).bind kind := by
  unfold container
  cases Json.read text with
  | none => rfl
  | some v =>
      have same : kind v.shape = kind v := kind_map _ v
      cases found : kind v <;> simp [Option.filter, found, same]

/-- A widened text is an array, an object or neither, as the text is. -/
theorem kind_widened {n : ℕ} {text text' : List Char} (widened : Json.Widened n text text') :
    (container text').bind kind = (container text).bind kind := by
  rw [container_bind_kind, container_bind_kind, Json.shape_read widened]

theorem container_eq_none {text : List Char} :
    container text = none ↔ (container text).bind kind = none := by
  rcases container_cases text with found | ⟨items, found⟩ | ⟨ms, found⟩ <;> simp [found, kind]

/-! ## The decoder -/

/-- The characters of the bytes by their numbers. -/
def latin1 (data : List UInt8) : List Char := data.map fun b => Char.ofNat b.toNat

theorem toNat_ofByte (b : UInt8) : (Char.ofNat b.toNat).toNat = b.toNat := by
  have valid : b.toNat.isValidChar := .inl (Nat.lt_trans b.toNat_lt (by decide))
  rw [Char.ofNat, dif_pos valid]
  rfl

theorem isInert_ofByte {b : UInt8} (wide : 0x80 ≤ b.toNat) :
    Json.isInert (Char.ofNat b.toNat) = true :=
  Json.isInert_of_le (by rwa [toNat_ofByte])

theorem string_cons (A : Ascii) (b : UInt8) (body : List UInt8) :
    A.string (b :: body) = (A.char b).bind fun c => (A.string body).map (c :: ·) := by
  rw [Ascii.string, List.mapM_cons]
  cases A.char b with
  | none => rfl
  | some c => exact Option.map_eq_bind.symm

/-- The decoder refuses a body if and only if it refuses a byte of it. -/
theorem string_eq_none {A : Ascii} {body : List UInt8} :
    A.string body = none ↔ ∃ b ∈ body, A.char b = none := by
  induction body with
  | nil => simp [Ascii.string]
  | cons b body ih =>
      rw [string_cons, List.exists_mem_cons_iff, ← ih]
      cases A.char b <;> simp

theorem string_of_ascii (A : Ascii) {body : List UInt8} (ascii : ∀ b ∈ body, b.toNat < 0x80) :
    A.string body = some (latin1 body) := by
  induction body with
  | nil => rfl
  | cons b body ih =>
      obtain ⟨here, rest⟩ := List.forall_mem_cons.mp ascii
      rw [string_cons, A.below b here, ih rest]
      rfl

/-- A decoder that refuses nothing of the body puts one character for each byte. -/
theorem widened_string {A : Ascii} {body : List UInt8} {text : List Char}
    (decoded : A.string body = some text) : Json.Widened 0 (latin1 body) text := by
  induction body generalizing text with
  | nil =>
      cases decoded
      exact .nil
  | cons b body ih =>
      rw [string_cons] at decoded
      obtain ⟨c, char, decoded⟩ := Option.bind_eq_some_iff.mp decoded
      obtain ⟨text, decoded', rfl⟩ := Option.map_eq_some_iff.mp decoded
      have rest : Json.Widened 0 (latin1 body) text := ih decoded'
      by_cases ascii : b.toNat < 0x80
      · rw [A.below b ascii] at char
        cases char
        exact .same _ rest
      · have wide : 0x80 ≤ b.toNat := Nat.le_of_not_lt ascii
        have inert : Json.isInert c = true := by
          rcases A.beyond b c wide char with beyond | rfl
          · exact Json.isInert_of_le beyond
          · decide
        exact @Json.Widened.inert 0 _ _ [] _ _ (isInert_ofByte wide)
          (List.forall_mem_singleton.mpr inert) rest

theorem latin1_append (bs cs : List UInt8) : latin1 (bs ++ cs) = latin1 bs ++ latin1 cs :=
  List.map_append

theorem latin1_utf8EncodeChar_of_lt {c : Char} (ascii : c.toNat < 0x80) :
    latin1 (String.utf8EncodeChar c) = [c] := by
  have byte : (UInt8.ofNat c.toNat).toNat = c.toNat :=
    UInt8.toNat_ofNat_of_lt (Nat.lt_trans ascii (by decide))
  rw [Utf8.utf8EncodeChar_of_lt ascii, latin1, List.map_singleton, byte, Char.ofNat_toNat]

/-- Two or more bytes stand for a character beyond ASCII, all of them beyond ASCII. -/
theorem latin1_utf8EncodeChar_of_le {c : Char} (wide : 0x80 ≤ c.toNat) :
    ∃ d ds, latin1 (String.utf8EncodeChar c) = d :: ds ∧ ds ≠ [] ∧
      ∀ e ∈ d :: ds, Json.isInert e = true := by
  obtain ⟨length, large⟩ := Utf8.utf8EncodeChar_of_le wide
  have inert : ∀ e ∈ latin1 (String.utf8EncodeChar c), Json.isInert e = true := by
    intro e member
    obtain ⟨b, among, rfl⟩ := List.mem_map.mp member
    exact isInert_ofByte (large b among)
  have two : 2 ≤ (latin1 (String.utf8EncodeChar c)).length := by
    rw [latin1, List.length_map]
    exact length
  generalize latin1 (String.utf8EncodeChar c) = characters at inert two
  cases characters with
  | nil => simp at two
  | cons d ds =>
      refine ⟨d, ds, rfl, ?_, inert⟩
      rintro rfl
      simp at two

/-- The bytes of a text, taken for characters, are a widened form of it, and are more than
its characters unless it is ASCII. -/
theorem widened_encode (text : List Char) :
    ∃ n, Json.Widened n text (latin1 (Utf8.encode text)) ∧
      (n = 0 → ∀ c ∈ text, c.toNat < 0x80) := by
  induction text with
  | nil => exact ⟨0, .nil, by simp⟩
  | cons c text ih =>
      obtain ⟨n, widened, plain⟩ := ih
      rw [Utf8.encode_cons, latin1_append]
      by_cases ascii : c.toNat < 0x80
      · rw [latin1_utf8EncodeChar_of_lt ascii]
        exact ⟨n, .same c widened, fun zero => List.forall_mem_cons.mpr ⟨ascii, plain zero⟩⟩
      · have wide : 0x80 ≤ c.toNat := Nat.le_of_not_lt ascii
        obtain ⟨d, ds, bytes, more, inert⟩ := latin1_utf8EncodeChar_of_le wide
        rw [bytes]
        refine ⟨n + ds.length, .inert (Json.isInert_of_le wide) inert widened, fun zero => ?_⟩
        exact absurd (List.eq_nil_of_length_eq_zero (Nat.eq_zero_of_add_eq_zero_left zero)) more

/-! ## Exactly the transparent bodies -/

theorem encode_latin1 {body : List UInt8} (ascii : ∀ b ∈ body, b.toNat < 0x80) :
    Utf8.encode (latin1 body) = body := by
  induction body with
  | nil => rfl
  | cons b body ih =>
      obtain ⟨here, rest⟩ := List.forall_mem_cons.mp ascii
      have single : String.utf8EncodeChar (Char.ofNat b.toNat) = [b] := by
        rw [Utf8.utf8EncodeChar_of_lt (by rwa [toNat_ofByte]), toNat_ofByte, UInt8.ofNat_toNat]
      have rest' : Utf8.encode (latin1 body) = body := ih rest
      rw [latin1, List.map_cons, Utf8.encode_cons, single]
      exact congrArg (b :: ·) rest'

/-- A parsed value is passed on, unless it is an array. -/
theorem complete_container (text : List Char) :
    complete (container text) = .done ((container text).bind members).toList ↔
      (container text).bind kind ≠ some .array := by
  rcases container_cases text with found | ⟨items, found⟩ | ⟨ms, found⟩ <;> rw [found]
  · simp [complete]
  · simp [complete, members, forceCast, Issued.ofExcept, Issued.stop, Issued.done, kind]
  · simp [complete, members, forceCast, kind]

/-- **A body of ASCII bytes** comes through, unless it is an array. -/
theorem transparent_of_ascii (A : Ascii) {body : List UInt8} (ascii : ∀ b ∈ body, b.toNat < 0x80) :
    Transparent A body ↔ (jsonObject body).bind kind ≠ some .array := by
  have parsed : jsonObject body = container (latin1 body) := by
    rw [← jsonObject_encode, encode_latin1 ascii]
  rw [Transparent, getJsonData_of_string (string_of_ascii A ascii), parsed, complete_container]

/-- **A body that the decoder refuses** is not delivered. -/
theorem transparent_of_refused {A : Ascii} {body : List UInt8} (refused : A.string body = none) :
    Transparent A body ↔ (jsonObject body).bind kind ≠ some .object := by
  rw [Transparent, getJsonData_of_refused refused]
  cases jsonObject body with
  | none => simp
  | some v => cases v <;> simp [members, kind, Issued.done]

theorem jsonObject_eq_some {body : List UInt8} {v : Json.Value (List Char)} :
    jsonObject body = some v ↔ ∃ text, Utf8.encode text = body ∧ container text = some v := by
  simp only [jsonObject, Option.bind_eq_some_iff, Utf8.decode_eq_some]

theorem read_of_container {text : List Char} {v : Json.Value (List Char)}
    (found : container text = some v) : Json.read text = some v :=
  (Option.filter_eq_some_iff.mp found).1

/-- The text that a body is the UTF-8 of is JSON only if its bytes, taken for characters, are. -/
theorem jsonObject_eq_none {body : List UInt8} (unreadable : container (latin1 body) = none) :
    jsonObject body = none := by
  cases parsed : jsonObject body with
  | none => rfl
  | some v =>
      obtain ⟨text, rfl, found⟩ := jsonObject_eq_some.mp parsed
      obtain ⟨n, widened, _⟩ := widened_encode text
      have same := kind_widened widened
      rw [container_eq_none.mp unreadable, eq_comm, ← container_eq_none, found] at same
      cases same

/-- Of a body with a byte beyond ASCII, the decoded text has longer strings than the body. -/
theorem letters_decoded {A : Ascii} {body : List UInt8} {text : List Char}
    (decoded : A.string body = some text) (wide : ∃ b ∈ body, 0x80 ≤ b.toNat)
    {v v' : Json.Value (List Char)} (parsed : jsonObject body = some v)
    (found : container text = some v') : v.letters < v'.letters := by
  obtain ⟨own, rfl, ownFound⟩ := jsonObject_eq_some.mp parsed
  obtain ⟨n, widened, plain⟩ := widened_encode own
  have widened' := widened_string decoded
  obtain ⟨middle, read⟩ : ∃ v, Json.read (latin1 (Utf8.encode own)) = some v := by
    have shapes := Json.shape_read widened
    rw [read_of_container ownFound] at shapes
    exact (Option.map_eq_some_iff.mp shapes).imp fun _ => And.left
  have first := Json.letters_read widened (read_of_container ownFound) read
  have second := Json.letters_read widened' read (read_of_container found)
  have positive : n ≠ 0 := by
    intro zero
    obtain ⟨b, member, beyond⟩ := wide
    have ascii := Utf8.ascii_encode.mpr (plain zero) b member
    omega
  omega

/-- **A body with another byte that is decoded** is delivered with other strings, if it is. -/
theorem transparent_of_decoded {A : Ascii} {body : List UInt8} {text : List Char}
    (decoded : A.string body = some text) (wide : ∃ b ∈ body, 0x80 ≤ b.toNat) :
    Transparent A body ↔ container (latin1 body) = none := by
  have same : (container text).bind kind = (container (latin1 body)).bind kind :=
    kind_widened (widened_string decoded)
  rw [Transparent, getJsonData_of_string decoded]
  constructor
  · intro transparent
    rw [container_eq_none, ← same]
    rcases container_cases text with found | ⟨items, found⟩ | ⟨ms, found⟩
    · rw [found]
      rfl
    · rw [found] at transparent
      cases congrArg Issued.trap transparent
    · rw [found] at transparent
      have called : [ms] = ((jsonObject body).bind members).toList :=
        congrArg Issued.out transparent
      have delivered : (jsonObject body).bind members = some ms :=
        Option.toList_eq_singleton_iff.mp called.symm
      obtain ⟨v, parsed, object⟩ := Option.bind_eq_some_iff.mp delivered
      cases v with
      | object ms' =>
          cases object
          exact absurd (letters_decoded decoded wide parsed found) (Nat.lt_irrefl _)
      | _ => cases object
  · intro unreadable
    have missing : container text = none := by
      rw [container_eq_none, same, container_eq_none.mp unreadable]
    rw [missing, jsonObject_eq_none unreadable]
    rfl

/-- **Exactly the transparent bodies**: ASCII other than an array; and, with a byte beyond
ASCII, those whose bytes, taken for characters, are not JSON, and those of no UTF-8 object
that the decoder refuses. -/
theorem transparent_iff (A : Ascii) (body : List UInt8) :
    Transparent A body ↔
      ((∀ b ∈ body, b.toNat < 0x80) ∧ (jsonObject body).bind kind ≠ some .array) ∨
      ((∃ b ∈ body, 0x80 ≤ b.toNat) ∧
        (container (latin1 body) = none ∨
          (∃ b ∈ body, A.char b = none) ∧ (jsonObject body).bind kind ≠ some .object)) := by
  by_cases ascii : ∀ b ∈ body, b.toNat < 0x80
  · have narrow : ¬ ∃ b ∈ body, 0x80 ≤ b.toNat := by
      rintro ⟨b, member, beyond⟩
      exact absurd (ascii b member) (Nat.not_lt_of_le beyond)
    rw [transparent_of_ascii A ascii]
    simp only [narrow, false_and, or_false]
    exact (and_iff_right ascii).symm
  · have wide : ∃ b ∈ body, 0x80 ≤ b.toNat := by simpa using ascii
    simp only [ascii, wide, false_and, true_and, false_or, ← string_eq_none]
    cases decoded : A.string body with
    | none =>
        have whole (unreadable : container (latin1 body) = none) :
            (jsonObject body).bind kind ≠ some .object := by
          simp [jsonObject_eq_none unreadable]
        rw [transparent_of_refused decoded, eq_self, true_and]
        exact ⟨.inr, fun either => either.elim whole id⟩
    | some text =>
        rw [transparent_of_decoded decoded wide]
        simp

/-! ## An umlaut, and an empty array -/

/-- Decoders that put the character with the number of the byte, or refuse the byte. -/
def lenient : Ascii where
  char b := some (Char.ofNat b.toNat)
  below _ _ := rfl
  beyond b c beyond same := by
    cases same
    exact .inl (by rwa [toNat_ofByte])

def strict : Ascii where
  char b := if b.toNat < 0x80 then some (Char.ofNat b.toNat) else none
  below _ ascii := if_pos ascii
  beyond b c beyond same := by
    rw [if_neg (Nat.not_lt_of_le beyond)] at same
    cases same

/-- `{"a":"ö"}` -/
def umlaut : List Char := ['\x7b', '\x22', 'a', '\x22', ':', '\x22', 'ö', '\x22', '\x7d']

/-- The umlaut is changed by one decoder and lost with the other, and an empty array traps. -/
theorem not_transparent :
    ¬ Transparent lenient (Utf8.encode umlaut) ∧
      ¬ Transparent strict (Utf8.encode umlaut) ∧
      ¬ Transparent strict (Utf8.encode ['[', ']']) := by
  have bytes : Utf8.encode umlaut =
      [0x7b, 0x22, 0x61, 0x22, 0x3a, 0x22, 0xc3, 0xb6, 0x22, 0x7d] := by decide
  have object : (jsonObject (Utf8.encode umlaut)).bind kind = some .object := by
    rw [jsonObject_encode]
    rfl
  refine ⟨?_, ?_, ?_⟩
  · have decoded : lenient.string (Utf8.encode umlaut) = some (latin1 (Utf8.encode umlaut)) := by
      rw [bytes]
      rfl
    rw [transparent_of_decoded decoded (by rw [bytes]; decide), container_eq_none, bytes]
    exact Option.some_ne_none Kind.object
  · have refused : strict.string (Utf8.encode umlaut) = none := by
      rw [bytes]
      rfl
    rw [transparent_of_refused refused, not_ne_iff]
    exact object
  · rw [transparent_of_ascii strict (Utf8.ascii_encode.mpr (by simp)), not_ne_iff, jsonObject_encode]
    rfl

/-- What the first decoder makes of the umlaut. -/
example : getJsonData lenient (some (Utf8.encode umlaut)) =
    .done [[(['a'], .string ['Ã', '¶'])]] := by
  have decoded : lenient.string (Utf8.encode umlaut) = some (latin1 (Utf8.encode umlaut)) := rfl
  rw [getJsonData_of_string decoded]
  rfl

/-! ## The answer as `CreateJob` reads it -/

/-- The response with this body.  A name may stand twice in an object; `member` says which
string is then read off it. -/
def response (A : Ascii) (member : Members → String → Option String) (body : List UInt8) : Response :=
  match A.string body with
  | none => .unreadable
  | some value =>
      match jsonObject (Utf8.encode value) with
      | none => .unreadable
      | some json =>
          match members json with
          | none => .notAnObject
          | some json => .object (member json "latt") (member json "longt")

/-- The handler over responses is this one, seen through the two members that are read. -/
theorem getJsonData_response (A : Ascii) (member : Members → String → Option String)
    (body : List UInt8) :
    Model.getJsonData (response A member body) =
      (getJsonData A (some body)).map fun json => (member json "latt", member json "longt") := by
  cases decoded : A.string body with
  | none => simp [response, getJsonData, decoded, Model.getJsonData]
  | some value =>
      cases parsed : jsonObject (Utf8.encode value) with
      | none => simp [response, getJsonData, decoded, parsed, complete, Model.getJsonData]
      | some json =>
          cases cast : members json <;>
            simp [response, getJsonData, decoded, parsed, complete, cast, forceCast,
              Issued.ofExcept, Issued.done, Issued.stop, Issued.map, Model.getJsonData]

/-- Of a transparent body that is an object, `CreateJob` reads the members of the body. -/
theorem response_of_transparent {A : Ascii} {member : Members → String → Option String}
    {body : List UInt8} {ms : Members} (transparent : Transparent A body)
    (parsed : jsonObject body = some (.object ms)) :
    response A member body = .object (member ms "latt") (member ms "longt") := by
  have delivered : getJsonData A (some body) = .done [ms] := by
    rw [Transparent, parsed] at transparent
    exact transparent
  have read : Model.getJsonData (response A member body) =
      .done [(member ms "latt", member ms "longt")] := by
    rw [getJsonData_response, delivered]
    rfl
  cases answered : response A member body with
  | unreadable =>
      rw [answered] at read
      cases congrArg Issued.out read
  | notAnObject =>
      rw [answered] at read
      cases congrArg Issued.trap read
  | object latt longt =>
      rw [answered] at read
      cases read
      rfl

end JobFinder.Model.JsonData
