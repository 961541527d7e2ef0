/-
# Theory.JsonText -- JSON texts, read character by character

`lex` cuts a text into tokens by the grammar of RFC 8259, and `read` is the value of the
tokens.  An escape `\u` of half a surrogate pair is refused, since it stands for no character.

The characters that JSON gives no meaning to (`isInert`: every character beyond ASCII, and
some below) stand in strings only, each for itself.  `Widened n` relates two texts of which
the second has one or more inert characters in the place of each inert character of the first, `n`
more in all.  Both are JSON or neither is, the values have one shape, and the strings of
the second value are `n` characters longer in all (`shape_read`, `letters_read`).
-/
import JobFinder.Theory.JsonValue
import JobFinder.Theory.Uri

namespace JobFinder.Theory.Json

set_option autoImplicit false

/-! ## Numbers and literals -/

def isDigits (cs : List Char) : Bool := !cs.isEmpty && cs.all Char.isDigit

def unsigned : List Char → List Char
  | '+' :: cs => cs
  | '-' :: cs => cs
  | cs => cs

/-- The end of a number, from its exponent on. -/
def isExponent : List Char → Bool
  | [] => true
  | c :: cs => (c = 'e' || c = 'E') && isDigits (unsigned cs)

/-- The end of a number, from its fraction on. -/
def isFraction : List Char → Bool
  | '.' :: c :: cs => c.isDigit && isExponent (cs.dropWhile Char.isDigit)
  | cs => isExponent cs

def isNatural : List Char → Bool
  | [] => false
  | '0' :: cs => isFraction cs
  | c :: cs => c.isDigit && isFraction (cs.dropWhile Char.isDigit)

def isNumber : List Char → Bool
  | '-' :: cs => isNatural cs
  | cs => isNatural cs

def isScalar (cs : List Char) : Bool :=
  [['t', 'r', 'u', 'e'], ['f', 'a', 'l', 's', 'e'], ['n', 'u', 'l', 'l']].contains cs || isNumber cs

/-! ## The lexer -/

/-- Where in a string the lexer is. -/
inductive Place where
  | plain
  /-- After a backslash. -/
  | escape
  /-- After `\u` and some digits, and after the high surrogate before these. -/
  | hex (high : Option ℕ) (digits value : ℕ)
  /-- After a high surrogate. -/
  | low (high : ℕ)
  /-- After a high surrogate and a backslash. -/
  | lowU (high : ℕ)
deriving DecidableEq, Repr

/-- What a character does in a string. -/
inductive Move where
  | stay (place : Place)
  | push (c : Char)
  | close
deriving DecidableEq, Repr

inductive Mode where
  | idle
  /-- In a literal or a number. -/
  | word (cs : List Char)
  | string (text : List Char) (place : Place)
deriving DecidableEq, Repr

/-- The tokens read, and what the lexer is in. -/
structure Lexer where
  tokens : List (Token (List Char))
  mode : Mode
deriving DecidableEq, Repr

def isSpace (c : Char) : Bool := [' ', '\t', '\n', '\r'].contains c

def inWord (c : Char) : Bool := c.isAlphanum || ['+', '-', '.'].contains c

def punctuation : Char → Option (Token (List Char))
  | '\x7b' => some .openObject
  | '\x7d' => some .closeObject
  | '[' => some .openArray
  | ']' => some .closeArray
  | ':' => some .colon
  | ',' => some .comma
  | _ => none

/-- What a character after a backslash stands for. -/
def escaped : Char → Option Char
  | '\x22' => some '\x22'
  | '\\' => some '\\'
  | '/' => some '/'
  | 'b' => some '\x08'
  | 'f' => some '\x0c'
  | 'n' => some '\n'
  | 'r' => some '\r'
  | 't' => some '\t'
  | _ => none

def lexPlain (c : Char) : Option Move :=
  if c = '\x22' then some .close
  else if c = '\\' then some (.stay .escape)
  else if c.toNat < 0x20 then none
  else some (.push c)

def lexEscape (c : Char) : Option Move :=
  if c = 'u' then some (.stay (.hex none 0 0)) else (escaped c).map .push

/-- The four digits after `\u` have been read. -/
def lexUnit (high : Option ℕ) (value : ℕ) : Option Move :=
  match high with
  | none =>
      if 0xd800 ≤ value ∧ value < 0xdc00 then some (.stay (.low value))
      else if 0xdc00 ≤ value ∧ value < 0xe000 then none
      else some (.push (Char.ofNat value))
  | some high =>
      if 0xdc00 ≤ value ∧ value < 0xe000 then
        some (.push (Char.ofNat (0x10000 + (high - 0xd800) * 0x400 + (value - 0xdc00))))
      else none

def lexHex (high : Option ℕ) (digits value : ℕ) (c : Char) : Option Move :=
  (Uri.hexValue c).bind fun digit =>
    if digits < 3 then some (.stay (.hex high (digits + 1) (16 * value + digit)))
    else lexUnit high (16 * value + digit)

/-- A character in a string: what it does depends on the place alone. -/
def lexString (c : Char) : Place → Option Move
  | .plain => lexPlain c
  | .escape => lexEscape c
  | .hex high digits value => lexHex high digits value c
  | .low high => if c = '\\' then some (.stay (.lowU high)) else none
  | .lowU high => if c = 'u' then some (.stay (.hex (some high) 0 0)) else none

def Move.apply (tokens : List (Token (List Char))) (text : List Char) : Move → Lexer
  | .stay place => ⟨tokens, .string text place⟩
  | .push c => ⟨tokens, .string (text ++ [c]) .plain⟩
  | .close => ⟨tokens ++ [.string text], .idle⟩

def lexIdle (tokens : List (Token (List Char))) (c : Char) : Option Lexer :=
  if isSpace c then some ⟨tokens, .idle⟩
  else if c = '\x22' then some ⟨tokens, .string [] .plain⟩
  else if inWord c then some ⟨tokens, .word [c]⟩
  else (punctuation c).map fun t => ⟨tokens ++ [t], .idle⟩

def lexWord (tokens : List (Token (List Char))) (cs : List Char) (c : Char) : Option Lexer :=
  if inWord c then some ⟨tokens, .word (cs ++ [c])⟩
  else if isScalar cs then lexIdle (tokens ++ [.scalar cs]) c
  else none

def Lexer.step (s : Lexer) (c : Char) : Option Lexer :=
  match s.mode with
  | .idle => lexIdle s.tokens c
  | .word cs => lexWord s.tokens cs c
  | .string text place => (lexString c place).map (Move.apply s.tokens text)

/-- The end of the text. -/
def Lexer.finish (s : Lexer) : Option (List (Token (List Char))) :=
  match s.mode with
  | .idle => some s.tokens
  | .word cs => if isScalar cs then some (s.tokens ++ [.scalar cs]) else none
  | .string _ _ => none

def lex (text : List Char) : Option (List (Token (List Char))) :=
  (run Lexer.step ⟨[], .idle⟩ text).bind Lexer.finish

/-- The value that a text stands for, if it is JSON. -/
def read (text : List Char) : Option (Value (List Char)) := (lex text).bind parse

/-! ## Inert characters -/

/-- JSON gives the character no meaning. -/
def isInert (c : Char) : Bool :=
  decide (0x20 ≤ c.toNat) && !isSpace c && !inWord c && (punctuation c).isNone &&
    !(['\x22', '\\', '/'].contains c)

theorem isAlphanum_eq_false {c : Char} : c.isAlphanum = false ↔
    ¬ (65 ≤ c.toNat ∧ c.toNat ≤ 90) ∧ ¬ (97 ≤ c.toNat ∧ c.toNat ≤ 122) ∧
      ¬ (48 ≤ c.toNat ∧ c.toNat ≤ 57) := by
  have upper : c.isUpper = decide (65 ≤ c.val ∧ c.val ≤ 90) := rfl
  have lower : c.isLower = (decide (97 ≤ c.val) && decide (c.val ≤ 122)) := rfl
  have digit : c.isDigit = (decide (48 ≤ c.val) && decide (c.val ≤ 57)) := rfl
  have ranges : c.isAlphanum = (c.isUpper || c.isLower || c.isDigit) := rfl
  rw [ranges, upper, lower, digit]
  simp [UInt32.le_iff_toNat_le, and_assoc]

/-- Every character beyond ASCII is inert. -/
theorem isInert_of_le {c : Char} (wide : 0x80 ≤ c.toNat) : isInert c = true := by
  have other {d : Char} (ascii : d.toNat < 0x80) : c ≠ d := by
    rintro rfl
    exact absurd ascii (Nat.not_lt_of_le wide)
  have listed (l : List Char) (ascii : ∀ d ∈ l, d.toNat < 0x80) : l.contains c = false := by
    rw [List.contains_eq_mem, decide_eq_false_iff_not]
    exact fun member => other (ascii c member) rfl
  have space : isSpace c = false := listed _ (by simp)
  have word : inWord c = false := by
    have alphanumeric : c.isAlphanum = false := isAlphanum_eq_false.mpr (by omega)
    rw [inWord, alphanumeric, listed _ (by simp)]
    rfl
  have mark : punctuation c = none := by
    unfold punctuation
    split <;> first | rfl | exact absurd rfl (other (by decide))
  have special : ['\x22', '\\', '/'].contains c = false := listed _ (by simp)
  rw [isInert, space, word, mark, special, decide_eq_true (by omega)]
  rfl

section Inert

variable {c : Char} (inert : isInert c = true)
include inert

theorem inert_cases : 0x20 ≤ c.toNat ∧ isSpace c = false ∧ inWord c = false ∧
    punctuation c = none ∧ c ≠ '\x22' ∧ c ≠ '\\' ∧ c ≠ '/' := by
  simpa [isInert, and_assoc] using inert

theorem hexValue_inert : Uri.hexValue c = none := by
  obtain ⟨_, _, outside, _⟩ := inert_cases inert
  have outside : c.isAlphanum = false := (Bool.or_eq_false_iff.mp outside).1
  obtain ⟨upper, lower, digit⟩ := isAlphanum_eq_false.mp outside
  have le_iff (d e : Char) : d ≤ e ↔ d.toNat ≤ e.toNat := by
    rw [Char.le_def, UInt32.le_iff_toNat_le]
    rfl
  simp only [Uri.hexValue, le_iff, Char.reduceToNat]
  split_ifs <;> first | rfl | omega

theorem escaped_inert : escaped c = none := by
  obtain ⟨_, _, outside, _, quote, backslash, slash⟩ := inert_cases inert
  unfold escaped
  split <;> first | rfl | contradiction

/-- Outside strings, an inert character is refused. -/
theorem lexIdle_inert (tokens : List (Token (List Char))) : lexIdle tokens c = none := by
  obtain ⟨_, space, outside, mark, quote, _⟩ := inert_cases inert
  simp [lexIdle, space, quote, outside, mark]

/-- In a string, it stands for itself, and is refused within an escape. -/
theorem lexString_inert (place : Place) :
    lexString c place = if place = .plain then some (.push c) else none := by
  obtain ⟨printable, _, outside, _, quote, backslash, _⟩ := inert_cases inert
  have other : c ≠ 'u' := by
    rintro rfl
    exact absurd outside (by decide)
  cases place with
  | plain => simp [lexString, lexPlain, quote, backslash, Nat.not_lt_of_le printable]
  | escape => simp [lexString, lexEscape, other, escaped_inert inert]
  | hex high digits value => simp [lexString, lexHex, hexValue_inert inert]
  | low high => simp [lexString, backslash]
  | lowU high => simp [lexString, other]

/-- So it is pushed where characters stand for themselves, and refused elsewhere. -/
theorem step_inert (tokens : List (Token (List Char))) (text : List Char) :
    Lexer.step ⟨tokens, .string text .plain⟩ c = some ⟨tokens, .string (text ++ [c]) .plain⟩ := by
  simp only [Lexer.step, lexString_inert inert]
  rfl

theorem step_inert_refused {s : Lexer} (elsewhere : ∀ text, s.mode ≠ .string text .plain) :
    s.step c = none := by
  obtain ⟨tokens, mode⟩ := s
  obtain ⟨_, _, outside, _⟩ := inert_cases inert
  cases mode with
  | idle => exact lexIdle_inert inert tokens
  | word cs => simp [Lexer.step, lexWord, outside, lexIdle_inert inert]
  | string text place =>
      have inside : place ≠ .plain := by
        rintro rfl
        exact elsewhere text rfl
      simp [Lexer.step, lexString_inert inert, inside]

end Inert

theorem run_inert {cs : List Char} (inert : ∀ c ∈ cs, isInert c = true)
    (tokens : List (Token (List Char))) (text : List Char) :
    run Lexer.step ⟨tokens, .string text .plain⟩ cs =
      some ⟨tokens, .string (text ++ cs) .plain⟩ := by
  induction cs generalizing text with
  | nil => simp
  | cons c cs ih =>
      rw [run_cons, step_inert (inert c List.mem_cons_self)]
      simpa using ih (fun c' later => inert c' (List.mem_cons_of_mem _ later)) (text ++ [c])

/-! ## Widened texts -/

/-- The second text has one or more inert characters for each of some inert characters of
the first, `n` more in all. -/
inductive Widened : ℕ → List Char → List Char → Prop
  | nil : Widened 0 [] []
  | same {n : ℕ} {text text' : List Char} (c : Char) (rest : Widened n text text') :
      Widened n (c :: text) (c :: text')
  | inert {n : ℕ} {c d : Char} {ds text text' : List Char} (inert : isInert c = true)
      (inerts : ∀ e ∈ d :: ds, isInert e = true) (rest : Widened n text text') :
      Widened (n + ds.length) (c :: text) (d :: ds ++ text')

/-- The shape of a token or of a value is what is left of it without the texts. -/
def Token.shape (t : Token (List Char)) : Token Unit := t.map fun _ => ()

def Value.shape (v : Value (List Char)) : Value Unit := v.map fun _ => ()

/-- The number of characters in the strings of a value. -/
def Value.letters (v : Value (List Char)) : ℕ := v.strings.flatten.length

/-- The second row of tokens has the shapes of the first, and `n` more characters. -/
structure Longer (n : ℕ) (ts ts' : List (Token (List Char))) : Prop where
  shapes : ts'.map Token.shape = ts.map Token.shape
  letters : (ts'.flatMap Token.strings).flatten.length =
    (ts.flatMap Token.strings).flatten.length + n

/-- Two lexers in the same mode, the second of which has read `n` more characters. -/
inductive Alike : ℕ → Lexer → Lexer → Prop
  | idle {n : ℕ} {ts ts' : List (Token (List Char))} (tokens : Longer n ts ts') :
      Alike n ⟨ts, .idle⟩ ⟨ts', .idle⟩
  | word {n : ℕ} {ts ts' : List (Token (List Char))} (cs : List Char) (tokens : Longer n ts ts') :
      Alike n ⟨ts, .word cs⟩ ⟨ts', .word cs⟩
  | string {n m k : ℕ} {ts ts' : List (Token (List Char))} {text text' : List Char} (place : Place)
      (tokens : Longer m ts ts') (texts : text'.length = text.length + k) (sum : n = m + k) :
      Alike n ⟨ts, .string text place⟩ ⟨ts', .string text' place⟩

theorem Longer.append {n : ℕ} {ts ts' : List (Token (List Char))} (longer : Longer n ts ts')
    (t : Token (List Char)) : Longer n (ts ++ [t]) (ts' ++ [t]) := by
  obtain ⟨shapes, letters⟩ := longer
  refine ⟨by simp [shapes], ?_⟩
  simp only [List.flatMap_append, List.flatten_append, List.length_append, letters]
  omega

theorem Longer.string {m k : ℕ} {ts ts' : List (Token (List Char))} {text text' : List Char}
    (longer : Longer m ts ts') (texts : text'.length = text.length + k) :
    Longer (m + k) (ts ++ [.string text]) (ts' ++ [.string text']) := by
  obtain ⟨shapes, letters⟩ := longer
  refine ⟨by simp [shapes, Token.shape, Token.map], ?_⟩
  simp only [List.flatMap_append, List.flatten_append, List.length_append, letters]
  simp [Token.strings, texts]
  omega

theorem lexIdle_alike {n : ℕ} {ts ts' : List (Token (List Char))} (longer : Longer n ts ts')
    (c : Char) : Option.Rel (Alike n) (lexIdle ts c) (lexIdle ts' c) := by
  unfold lexIdle
  split_ifs
  · exact .some (.idle longer)
  · exact .some (.string .plain longer rfl (Nat.add_zero n).symm)
  · exact .some (.word [c] longer)
  · cases punctuation c with
    | none => exact .none
    | some t => exact .some (.idle (longer.append t))

/-- A character does the same in both. -/
theorem step_alike {n : ℕ} {s s' : Lexer} (alike : Alike n s s') (c : Char) :
    Option.Rel (Alike n) (s.step c) (s'.step c) := by
  cases alike with
  | idle longer => exact lexIdle_alike longer c
  | word cs longer =>
      simp only [Lexer.step, lexWord]
      split_ifs
      · exact .some (.word _ longer)
      · exact lexIdle_alike (longer.append _) c
      · exact .none
  | string place longer texts sum =>
      simp only [Lexer.step]
      cases moved : lexString c place with
      | none => exact .none
      | some move =>
          cases move with
          | stay place' => exact .some (.string place' longer texts sum)
          | push d => exact .some (.string .plain longer (by simp [texts]; omega) sum)
          | close =>
              subst sum
              exact .some (.idle (longer.string texts))

theorem rel_bind {α β γ δ : Type} {R : α → β → Prop} {S : γ → δ → Prop} {x : Option α} {y : Option β}
    {f : α → Option γ} {g : β → Option δ} (first : Option.Rel R x y)
    (next : ∀ a b, R a b → Option.Rel S (f a) (g b)) : Option.Rel S (x.bind f) (y.bind g) := by
  cases first with
  | none => exact .none
  | some related => exact next _ _ related

/-- Two lexers in the same mode refuse an inert character, or take any number of them. -/
theorem run_inert_alike {n : ℕ} {s s' : Lexer} (alike : Alike n s s') {c d : Char} {ds : List Char}
    (inert : isInert c = true) (inerts : ∀ e ∈ d :: ds, isInert e = true) :
    Option.Rel (Alike (n + ds.length)) (s.step c) (run Lexer.step s' (d :: ds)) := by
  have refused (elsewhere : ∀ text, s.mode ≠ .string text .plain)
      (elsewhere' : ∀ text, s'.mode ≠ .string text .plain) :
      Option.Rel (Alike (n + ds.length)) (s.step c) (run Lexer.step s' (d :: ds)) := by
    rw [run_cons, step_inert_refused inert elsewhere,
      step_inert_refused (inerts d List.mem_cons_self) elsewhere']
    exact .none
  cases alike with
  | idle longer => exact refused (by simp) (by simp)
  | word cs longer => exact refused (by simp) (by simp)
  | @string m k ts ts' text text' place longer texts sum =>
      by_cases plain : place = .plain
      · subst plain
        rw [step_inert inert, run_inert inerts]
        exact .some (.string (k := k + ds.length) .plain longer (by simp [texts]; omega) (by omega))
      · exact refused (by simp [plain]) (by simp [plain])

/-- Reading a widened text, the second lexer reads the `m` characters more. -/
theorem run_widened {m : ℕ} {text text' : List Char} (widened : Widened m text text') {n : ℕ}
    {s s' : Lexer} (alike : Alike n s s') :
    Option.Rel (Alike (n + m)) (run Lexer.step s text) (run Lexer.step s' text') := by
  induction widened generalizing n s s' with
  | nil => exact .some alike
  | same c rest ih => exact rel_bind (step_alike alike c) fun _ _ => ih
  | @inert m c d ds text text' inert inerts rest ih =>
      rw [run_append, run_cons, show n + (m + ds.length) = n + ds.length + m by omega]
      exact rel_bind (run_inert_alike alike inert inerts) fun _ _ => ih

theorem finish_alike {n : ℕ} {s s' : Lexer} (alike : Alike n s s') :
    Option.Rel (Longer n) s.finish s'.finish := by
  cases alike with
  | idle longer => exact .some longer
  | word cs longer =>
      simp only [Lexer.finish]
      split_ifs
      · exact .some (longer.append _)
      · exact .none
  | string place longer texts sum => exact .none

theorem lex_widened {n : ℕ} {text text' : List Char} (widened : Widened n text text') :
    Option.Rel (Longer n) (lex text) (lex text') := by
  have alike : Alike 0 ⟨[], .idle⟩ ⟨[], .idle⟩ := .idle ⟨rfl, rfl⟩
  have ran := run_widened widened alike
  rw [Nat.zero_add] at ran
  exact rel_bind ran fun _ _ => finish_alike

/-- **A widened text is JSON of the same shape**, or neither text is JSON. -/
theorem shape_read {n : ℕ} {text text' : List Char} (widened : Widened n text text') :
    (read text').map Value.shape = (read text).map Value.shape := by
  have lexed := lex_widened widened
  unfold read
  generalize lex text = ts, lex text' = ts' at lexed
  cases lexed with
  | none => rfl
  | some longer =>
      have parsed (ts : List (Token (List Char))) :
          (parse ts).map Value.shape = parse (ts.map Token.shape) := (parse_map _ ts).symm
      exact (parsed _).trans ((congrArg parse longer.shapes).trans (parsed _).symm)

/-- **The strings of its value are `n` characters longer.** -/
theorem letters_read {n : ℕ} {text text' : List Char} (widened : Widened n text text')
    {v v' : Value (List Char)} (value : read text = some v) (value' : read text' = some v') :
    v'.letters = v.letters + n := by
  obtain ⟨ts, tokens, parsed⟩ := Option.bind_eq_some_iff.mp value
  obtain ⟨ts', tokens', parsed'⟩ := Option.bind_eq_some_iff.mp value'
  have lexed := lex_widened widened
  rw [tokens, tokens'] at lexed
  cases lexed with
  | some longer =>
      rw [Value.letters, Value.letters, strings_parse parsed, strings_parse parsed', longer.letters]

end JobFinder.Theory.Json
