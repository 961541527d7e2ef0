/-
# Theory.JsonValue -- JSON values, and their parser over tokens

A JSON text is a row of tokens (`Token`), and a value is read off it by a machine with a
stack of the arrays and objects that are still open (`step`, `parse`).  An object is kept
as its members in the order of the text, before any that share a name are merged.

The texts of the strings and of the names are of an arbitrary type, because the parser
never looks at them.  So it commutes with every map of these texts (`parse_map`): whether
a text is JSON, and the shape of its value, depends on the shapes of its tokens only.  It
loses none of them either: the strings of the value are those of the tokens, in order
(`strings_parse`).
-/
import JobFinder.Theory.Run

namespace JobFinder.Theory.Json

set_option autoImplicit false

variable {α β : Type}

inductive Token (α : Type) where
  | openObject
  | closeObject
  | openArray
  | closeArray
  | colon
  | comma
  /-- `true`, `false`, `null` or a number, as it is written. -/
  | scalar (word : List Char)
  | string (text : α)
deriving DecidableEq, Repr

inductive Value (α : Type) where
  | scalar (word : List Char)
  | string (text : α)
  | array (items : List (Value α))
  | object (members : List (α × Value α))

/-! ## The strings of a value, and maps of them -/

mutual

/-- The strings of a value, and the names of its members, in the order of the text. -/
@[simp] def Value.strings : Value α → List α
  | .scalar _ => []
  | .string text => [text]
  | .array items => itemStrings items
  | .object members => memberStrings members

@[simp] def itemStrings : List (Value α) → List α
  | [] => []
  | v :: vs => v.strings ++ itemStrings vs

@[simp] def memberStrings : List (α × Value α) → List α
  | [] => []
  | (k, v) :: ms => k :: v.strings ++ memberStrings ms

end

mutual

/-- The value with every text of it replaced. -/
def Value.map (f : α → β) : Value α → Value β
  | .scalar word => .scalar word
  | .string text => .string (f text)
  | .array items => .array (mapItems f items)
  | .object members => .object (mapMembers f members)

def mapItems (f : α → β) : List (Value α) → List (Value β)
  | [] => []
  | v :: vs => v.map f :: mapItems f vs

def mapMembers (f : α → β) : List (α × Value α) → List (β × Value β)
  | [] => []
  | (k, v) :: ms => (f k, v.map f) :: mapMembers f ms

end

@[simp] theorem itemStrings_append (vs ws : List (Value α)) :
    itemStrings (vs ++ ws) = itemStrings vs ++ itemStrings ws := by
  induction vs with
  | nil => rfl
  | cons v vs ih => simp [ih]

@[simp] theorem memberStrings_append (ms ns : List (α × Value α)) :
    memberStrings (ms ++ ns) = memberStrings ms ++ memberStrings ns := by
  induction ms with
  | nil => rfl
  | cons m ms ih => simp [ih]

@[simp] theorem mapItems_append (f : α → β) (vs ws : List (Value α)) :
    mapItems f (vs ++ ws) = mapItems f vs ++ mapItems f ws := by
  induction vs with
  | nil => rfl
  | cons v vs ih => simp [mapItems, ih]

@[simp] theorem mapMembers_append (f : α → β) (ms ns : List (α × Value α)) :
    mapMembers f (ms ++ ns) = mapMembers f ms ++ mapMembers f ns := by
  induction ms with
  | nil => rfl
  | cons m ms ih => simp [mapMembers, ih]

def Token.map (f : α → β) : Token α → Token β
  | .openObject => .openObject
  | .closeObject => .closeObject
  | .openArray => .openArray
  | .closeArray => .closeArray
  | .colon => .colon
  | .comma => .comma
  | .scalar word => .scalar word
  | .string text => .string (f text)

/-- The text of a string token. -/
@[simp] def Token.strings : Token α → List α
  | .string text => [text]
  | _ => []

/-! ## The parser -/

/-- An array or an object that is open around the current position. -/
inductive Frame (α : Type) where
  | item (before : List (Value α))
  | member (before : List (α × Value α)) (name : α)

/-- What has just been read, and so what may follow. -/
inductive Focus (α : Type) where
  /-- A value must follow. -/
  | value
  /-- An array has been opened. -/
  | firstItem
  /-- An object has been opened. -/
  | firstName
  /-- A comma has been read in an object. -/
  | nextName (before : List (α × Value α))
  /-- A name has been read. -/
  | colon (before : List (α × Value α)) (name : α)
  /-- An item of an array has been read. -/
  | items (before : List (Value α))
  /-- A member of an object has been read. -/
  | members (before : List (α × Value α))
  /-- The whole value has been read. -/
  | done (v : Value α)

structure State (α : Type) where
  stack : List (Frame α)
  focus : Focus α

/-- A value has been read: it is an item or a member of what is open, or the whole. -/
def give (v : Value α) : List (Frame α) → State α
  | [] => ⟨[], .done v⟩
  | .item before :: stack => ⟨stack, .items (before ++ [v])⟩
  | .member before name :: stack => ⟨stack, .members (before ++ [(name, v)])⟩

/-- The first token of a value. -/
def firstToken (stack : List (Frame α)) : Token α → Option (State α)
  | .scalar word => some (give (.scalar word) stack)
  | .string text => some (give (.string text) stack)
  | .openArray => some ⟨stack, .firstItem⟩
  | .openObject => some ⟨stack, .firstName⟩
  | _ => none

/-- The next token, where nothing that is open can be closed. -/
def step (s : State α) (t : Token α) : Option (State α) :=
  match s.focus, t with
  | .value, t => firstToken s.stack t
  | .firstItem, .closeArray => some (give (.array []) s.stack)
  | .firstItem, t => firstToken (.item [] :: s.stack) t
  | .firstName, .closeObject => some (give (.object []) s.stack)
  | .firstName, .string name => some ⟨s.stack, .colon [] name⟩
  | .nextName before, .string name => some ⟨s.stack, .colon before name⟩
  | .colon before name, .colon => some ⟨.member before name :: s.stack, .value⟩
  | .items before, .comma => some ⟨.item before :: s.stack, .value⟩
  | .items before, .closeArray => some (give (.array before) s.stack)
  | .members before, .comma => some ⟨s.stack, .nextName before⟩
  | .members before, .closeObject => some (give (.object before) s.stack)
  | _, _ => none

/-- After the bracket that opens an array, its first item may follow. -/
theorem step_firstItem {t : Token α} (item : t ≠ .closeArray) (stack : List (Frame α)) :
    step ⟨stack, .firstItem⟩ t = firstToken (.item [] :: stack) t := by
  cases t with
  | closeArray => exact absurd rfl item
  | _ => rfl

def start : State α := ⟨[], .value⟩

/-- The value read, if the whole of one has been. -/
def State.result (s : State α) : Option (Value α) :=
  match s.stack, s.focus with
  | [], .done v => some v
  | _, _ => none

/-- The value that the tokens are the text of, if they are. -/
def parse (ts : List (Token α)) : Option (Value α) := (run step start ts).bind State.result

/-! ## The parser does not look at the texts -/

def Frame.map (f : α → β) : Frame α → Frame β
  | .item before => .item (mapItems f before)
  | .member before name => .member (mapMembers f before) (f name)

def Focus.map (f : α → β) : Focus α → Focus β
  | .value => .value
  | .firstItem => .firstItem
  | .firstName => .firstName
  | .nextName before => .nextName (mapMembers f before)
  | .colon before name => .colon (mapMembers f before) (f name)
  | .items before => .items (mapItems f before)
  | .members before => .members (mapMembers f before)
  | .done v => .done (v.map f)

def State.map (f : α → β) (s : State α) : State β := ⟨s.stack.map (Frame.map f), s.focus.map f⟩

theorem map_give (f : α → β) (v : Value α) (stack : List (Frame α)) :
    (give v stack).map f = give (v.map f) (stack.map (Frame.map f)) := by
  cases stack with
  | nil => rfl
  | cons frame stack =>
      cases frame with
      | item before => simp [give, State.map, Focus.map, Frame.map, mapItems]
      | member before name => simp [give, State.map, Focus.map, Frame.map, mapMembers]

theorem map_firstToken (f : α → β) (stack : List (Frame α)) (t : Token α) :
    (firstToken stack t).map (State.map f) = firstToken (stack.map (Frame.map f)) (t.map f) := by
  cases t with
  | scalar word => exact congrArg some (map_give f _ stack)
  | string text => exact congrArg some (map_give f _ stack)
  | _ => rfl

theorem map_step (f : α → β) (s : State α) (t : Token α) :
    (step s t).map (State.map f) = step (s.map f) (t.map f) := by
  obtain ⟨stack, focus⟩ := s
  cases focus with
  | value => exact map_firstToken f stack t
  | firstItem =>
      by_cases closes : t = .closeArray
      · subst closes
        exact congrArg some (map_give f _ stack)
      · have item : t.map f ≠ .closeArray := by cases t <;> simp_all [Token.map]
        rw [step_firstItem closes, map_firstToken]
        exact (step_firstItem item _).symm
  | firstName =>
      cases t with
      | closeObject => exact congrArg some (map_give f _ stack)
      | _ => rfl
  | items before =>
      cases t with
      | closeArray => exact congrArg some (map_give f _ stack)
      | _ => rfl
  | members before =>
      cases t with
      | closeObject => exact congrArg some (map_give f _ stack)
      | _ => rfl
  | _ => cases t <;> rfl

theorem result_map (f : α → β) (s : State α) :
    (s.map f).result = s.result.map (Value.map f) := by
  obtain ⟨stack, focus⟩ := s
  cases stack <;> cases focus <;> rfl

/-- **The parser commutes with every map of the texts.** -/
theorem parse_map (f : α → β) (ts : List (Token α)) :
    parse (ts.map (Token.map f)) = (parse ts).map (Value.map f) := by
  have ran : (run step start ts).map (State.map f) = run step start (ts.map (Token.map f)) :=
    run_map_events (State.map f) (Token.map f) (map_step f) start ts
  rw [parse, parse, ← ran, Option.bind_map, Option.map_bind]
  exact congrArg _ (funext (result_map f))

/-! ## The parser keeps the texts -/

@[simp] def Frame.strings : Frame α → List α
  | .item before => itemStrings before
  | .member before name => memberStrings before ++ [name]

@[simp] def Focus.strings : Focus α → List α
  | .value => []
  | .firstItem => []
  | .firstName => []
  | .nextName before => memberStrings before
  | .colon before name => memberStrings before ++ [name]
  | .items before => itemStrings before
  | .members before => memberStrings before
  | .done v => v.strings

/-- The strings read so far. -/
def State.strings (s : State α) : List α := s.stack.reverse.flatMap Frame.strings ++ s.focus.strings

@[simp] theorem strings_mk (stack : List (Frame α)) (focus : Focus α) :
    (⟨stack, focus⟩ : State α).strings =
      stack.reverse.flatMap Frame.strings ++ focus.strings := rfl

@[simp] theorem strings_give (v : Value α) (stack : List (Frame α)) :
    (give v stack).strings = stack.reverse.flatMap Frame.strings ++ v.strings := by
  cases stack with
  | nil => rfl
  | cons frame stack => cases frame <;> simp [give]

theorem strings_firstToken {stack : List (Frame α)} {t : Token α} {s : State α}
    (stepped : firstToken stack t = some s) :
    s.strings = stack.reverse.flatMap Frame.strings ++ t.strings := by
  cases t with
  | scalar word =>
      cases stepped
      exact strings_give _ stack
  | string text =>
      cases stepped
      exact strings_give _ stack
  | openArray =>
      cases stepped
      rfl
  | openObject =>
      cases stepped
      rfl
  | _ => cases stepped

/-- A step adds the text of its token to the strings read. -/
theorem strings_step {s s' : State α} {t : Token α} (stepped : step s t = some s') :
    s'.strings = s.strings ++ t.strings := by
  obtain ⟨stack, focus⟩ := s
  cases focus with
  | value => simpa using strings_firstToken stepped
  | firstItem =>
      by_cases closes : t = .closeArray
      · subst closes
        cases stepped
        simp
      · rw [step_firstItem closes] at stepped
        rw [strings_firstToken stepped]
        simp
  | firstName =>
      cases t with
      | closeObject =>
          cases stepped
          simp
      | string name =>
          cases stepped
          simp
      | _ => cases stepped
  | nextName before =>
      cases t with
      | string name =>
          cases stepped
          simp
      | _ => cases stepped
  | colon before name =>
      cases t with
      | colon =>
          cases stepped
          simp
      | _ => cases stepped
  | items before =>
      cases t with
      | comma =>
          cases stepped
          simp
      | closeArray =>
          cases stepped
          simp
      | _ => cases stepped
  | members before =>
      cases t with
      | comma =>
          cases stepped
          simp
      | closeObject =>
          cases stepped
          simp
      | _ => cases stepped
  | done v => cases t <;> cases stepped

theorem strings_run {ts : List (Token α)} {s s' : State α} (ran : run step s ts = some s') :
    s'.strings = s.strings ++ ts.flatMap Token.strings := by
  induction ts generalizing s with
  | nil =>
      cases ran
      simp
  | cons t ts ih =>
      obtain ⟨s₁, stepped, ran⟩ := run_cons_some.mp ran
      rw [ih ran, strings_step stepped, List.flatMap_cons, List.append_assoc]

theorem strings_result {s : State α} {v : Value α} (read : s.result = some v) :
    s.strings = v.strings := by
  obtain ⟨stack, focus⟩ := s
  cases stack with
  | nil =>
      cases focus with
      | done v' =>
          cases read
          rfl
      | _ => cases read
  | cons frame stack => cases focus <;> cases read

/-- **The strings of a value are those of its tokens**, in order. -/
theorem strings_parse {ts : List (Token α)} {v : Value α} (parsed : parse ts = some v) :
    v.strings = ts.flatMap Token.strings := by
  obtain ⟨s, ran, read⟩ := Option.bind_eq_some_iff.mp parsed
  rw [← strings_result read, strings_run ran]
  rfl

end JobFinder.Theory.Json
