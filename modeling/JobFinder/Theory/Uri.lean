/-
# Theory.Uri -- URI references by RFC 3986

A URI reference is split at the first `#`, the first `?`, and so on, as in appendix B of
the RFC (`split`), and is accepted if each of its components has only characters the
grammar allows there, a `%` only before two hexadecimal digits (`parse`).  The inner
structure of an authority, a user and a port, is not looked at.

The RFC allows square brackets in an authority only.  Some parsers let them stand in the
other components too; `brackets` says whether this one does.

`percentDecode` reads a component back.  A component is read back as it is written exactly
if it has no `%` (`percentDecode_self_iff`).
-/
import JobFinder.Theory.Utf8

namespace JobFinder.Theory.Uri

set_option autoImplicit false

/-! ## Characters -/

def isUnreserved (c : Char) : Bool := c.isAlphanum || ['-', '.', '_', '~'].contains c

def isSubDelim (c : Char) : Bool :=
  ['!', '$', '&', '\'', '(', ')', '*', '+', ',', ';', '='].contains c

def isBracket (c : Char) : Bool := ['[', ']'].contains c

def isPchar (c : Char) : Bool := isUnreserved c || isSubDelim c || [':', '@'].contains c

def inScheme (c : Char) : Bool := c.isAlphanum || ['+', '-', '.'].contains c

def inAuthority (c : Char) : Bool := isPchar c || isBracket c

def inPath (brackets : Bool) (c : Char) : Bool := isPchar c || c = '/' || (brackets && isBracket c)

def inQuery (brackets : Bool) (c : Char) : Bool := inPath brackets c || c = '?'

/-- The value of a hexadecimal digit. -/
def hexValue (c : Char) : Option ℕ :=
  if '0' ≤ c ∧ c ≤ '9' then some (c.toNat - '0'.toNat)
  else if 'a' ≤ c ∧ c ≤ 'f' then some (c.toNat - 'a'.toNat + 10)
  else if 'A' ≤ c ∧ c ≤ 'F' then some (c.toNat - 'A'.toNat + 10)
  else none

/-- A component of allowed characters and percent-encoded octets. -/
def isComponent (allowed : Char → Bool) : List Char → Bool
  | [] => true
  | '%' :: a :: b :: rest => (hexValue a).isSome && (hexValue b).isSome && isComponent allowed rest
  | c :: rest => c ≠ '%' && allowed c && isComponent allowed rest

theorem isComponent_cons {allowed : Char → Bool} {c : Char} (other : c ≠ '%') (rest : List Char) :
    isComponent allowed (c :: rest) = (allowed c && isComponent allowed rest) := by
  rw [isComponent]
  · simp [other]
  · exact fun _ _ _ same _ => other same

/-- Without a `%`, a component is one whose characters are all allowed. -/
theorem isComponent_iff {allowed : Char → Bool} {cs : List Char} (plain : '%' ∉ cs) :
    isComponent allowed cs = true ↔ ∀ c ∈ cs, allowed c = true := by
  induction cs with
  | nil => simp [isComponent]
  | cons c rest ih =>
      obtain ⟨other, plain⟩ := not_or.mp (List.mem_cons.not.mp plain)
      rw [isComponent_cons (Ne.symm other), Bool.and_eq_true, ih plain, List.forall_mem_cons]

/-! ## Percent-encoding -/

/-- The octets that a component stands for. -/
def percentBytes : List Char → Option (List UInt8)
  | [] => some []
  | '%' :: a :: b :: rest => do
      let high ← hexValue a
      let low ← hexValue b
      let bytes ← percentBytes rest
      return UInt8.ofNat (16 * high + low) :: bytes
  | c :: rest => if c = '%' then none else (percentBytes rest).map (String.utf8EncodeChar c ++ ·)

/-- The text that a component stands for, if its octets are the UTF-8 encoding of one. -/
def percentDecode (cs : List Char) : Option (List Char) := (percentBytes cs).bind Utf8.decode

theorem percentBytes_cons {c : Char} (other : c ≠ '%') (rest : List Char) :
    percentBytes (c :: rest) = (percentBytes rest).map (String.utf8EncodeChar c ++ ·) := by
  rw [percentBytes]
  · rw [if_neg other]
  · exact fun _ _ _ same _ => other same

/-- Without a `%`, the octets are those of the component itself. -/
theorem percentBytes_plain {cs : List Char} (plain : '%' ∉ cs) :
    percentBytes cs = some (Utf8.encode cs) := by
  induction cs with
  | nil => rfl
  | cons c rest ih =>
      obtain ⟨other, plain⟩ := not_or.mp (List.mem_cons.not.mp plain)
      rw [percentBytes_cons (Ne.symm other), ih plain]
      rfl

/-- Every `%` makes the octets fewer than those of the component. -/
theorem length_percentBytes (cs : List Char) {bytes : List UInt8} (decoded : percentBytes cs = some bytes) :
    bytes.length ≤ (Utf8.encode cs).length ∧
      ('%' ∈ cs → bytes.length < (Utf8.encode cs).length) := by
  induction cs using percentBytes.induct generalizing bytes with
  | case1 =>
      cases decoded
      exact ⟨Nat.le_refl _, fun impossible => absurd impossible List.not_mem_nil⟩
  | case2 a b rest ih =>
      obtain ⟨high, _, decoded⟩ := Option.bind_eq_some_iff.mp decoded
      obtain ⟨low, _, decoded⟩ := Option.bind_eq_some_iff.mp decoded
      obtain ⟨bytes', octets, decoded⟩ := Option.bind_eq_some_iff.mp decoded
      cases decoded
      have shorter := (ih octets).1
      have one := Utf8.length_utf8EncodeChar_pos '%'
      have two := Utf8.length_utf8EncodeChar_pos a
      have three := Utf8.length_utf8EncodeChar_pos b
      simp only [Utf8.encode_cons, List.length_append, List.length_cons]
      omega
  | case3 rest short =>
      rw [percentBytes, if_pos rfl] at decoded
      · cases decoded
      · exact short
  | case4 c rest short other ih =>
      rw [percentBytes_cons other] at decoded
      obtain ⟨bytes', octets, rfl⟩ := Option.map_eq_some_iff.mp decoded
      obtain ⟨shorter, fewer⟩ := ih octets
      simp only [Utf8.encode_cons, List.length_append]
      refine ⟨Nat.add_le_add_left shorter _, fun member => Nat.add_lt_add_left (fewer ?_) _⟩
      exact (List.mem_cons.mp member).resolve_left (Ne.symm other)

/-- **A component is read back as it is written exactly if it has no `%`.** -/
theorem percentDecode_self_iff {cs : List Char} : percentDecode cs = some cs ↔ '%' ∉ cs := by
  constructor
  · intro decoded encoded
    obtain ⟨bytes, octets, decoded⟩ := Option.bind_eq_some_iff.mp decoded
    have same := Utf8.decode_eq_some.mp decoded
    have fewer := (length_percentBytes cs octets).2 encoded
    rw [same] at fewer
    exact Nat.lt_irrefl _ fewer
  · intro plain
    rw [percentDecode, percentBytes_plain plain]
    exact Utf8.decode_encode cs

/-! ## Splitting -/

/-- What comes before the first `c`, or everything. -/
def before (c : Char) (cs : List Char) : List Char := cs.takeWhile (· ≠ c)

/-- What comes after the first `c`, if there is one. -/
def after (c : Char) (cs : List Char) : Option (List Char) := (cs.dropWhile (· ≠ c)).tail?

theorem before_append {c : Char} {l : List Char} (clear : c ∉ l) (r : List Char) :
    before c (l ++ r) = l ++ before c r :=
  List.takeWhile_append_of_pos fun d member => by
    simpa using fun same : d = c => clear (same ▸ member)

theorem after_append {c : Char} {l : List Char} (clear : c ∉ l) (r : List Char) :
    after c (l ++ r) = after c r := by
  rw [after, after, List.dropWhile_append_of_pos fun d member => by
    simpa using fun same : d = c => clear (same ▸ member)]

@[simp] theorem before_cons_self (c : Char) (r : List Char) : before c (c :: r) = [] := by
  simp [before]

@[simp] theorem after_cons_self (c : Char) (r : List Char) : after c (c :: r) = some r := by
  simp [after]

theorem before_eq_self {c : Char} {l : List Char} (clear : c ∉ l) : before c l = l := by
  simpa [before] using before_append clear []

theorem after_eq_none {c : Char} {l : List Char} : after c l = none ↔ c ∉ l := by
  constructor
  · intro none_ member
    obtain ⟨front, back, rfl, clear⟩ := List.eq_append_cons_of_mem member
    rw [after_append clear, after_cons_self] at none_
    cases none_
  · intro clear
    simpa [after] using after_append clear []

/-- The components of a URI reference. -/
structure Reference where
  scheme : Option (List Char)
  authority : Option (List Char)
  path : List Char
  query : Option (List Char)
  fragment : Option (List Char)
deriving DecidableEq, Repr

/-- The scheme, if a colon comes before any slash, and the rest. -/
def splitScheme (cs : List Char) : Option (List Char) × List Char :=
  if ':' ∈ before '/' cs then (some (before ':' cs), (after ':' cs).getD []) else (none, cs)

/-- The authority, after two slashes, and the path. -/
def splitAuthority : List Char → Option (List Char) × List Char
  | '/' :: '/' :: rest => (some (before '/' rest), rest.dropWhile (· ≠ '/'))
  | path => (none, path)

/-- The components of a text, whether or not they are well formed. -/
def split (cs : List Char) : Reference :=
  let front := before '#' cs
  let (scheme, hierarchy) := splitScheme (before '?' front)
  let (authority, path) := splitAuthority hierarchy
  ⟨scheme, authority, path, after '?' front, after '#' cs⟩

def isScheme : List Char → Bool
  | [] => false
  | c :: rest => c.isAlpha && rest.all inScheme

/-- Every component has only what is allowed there. -/
def Reference.wellFormed (brackets : Bool) (u : Reference) : Bool :=
  u.scheme.all isScheme && u.authority.all (isComponent inAuthority) &&
    isComponent (inPath brackets) u.path && u.query.all (isComponent (inQuery brackets)) &&
      u.fragment.all (isComponent (inQuery brackets))

/-- The URI reference that a text is, if it is one. -/
def parse (brackets : Bool) (cs : List Char) : Option Reference :=
  if (split cs).wellFormed brackets then some (split cs) else none

theorem parse_eq_some {brackets : Bool} {cs : List Char} {u : Reference} :
    parse brackets cs = some u ↔ (split cs).wellFormed brackets = true ∧ split cs = u := by
  unfold parse
  split_ifs with ok <;> simp [ok]

/-- Without a `#`, the query comes after the first `?`. -/
theorem split_query {l q : List Char} (noFragment : '#' ∉ l ++ '?' :: q) (clear : '?' ∉ l) :
    split (l ++ '?' :: q) =
      ⟨(splitScheme l).1, (splitAuthority (splitScheme l).2).1, (splitAuthority (splitScheme l).2).2,
        some q, none⟩ := by
  have front : before '#' (l ++ '?' :: q) = l ++ '?' :: q := before_eq_self noFragment
  have hierarchy : before '?' (l ++ '?' :: q) = l := by
    rw [before_append clear, before_cons_self, List.append_nil]
  have query : after '?' (l ++ '?' :: q) = some q := by rw [after_append clear, after_cons_self]
  simp only [split, front, hierarchy, query, after_eq_none.mpr noFragment]

end JobFinder.Theory.Uri
