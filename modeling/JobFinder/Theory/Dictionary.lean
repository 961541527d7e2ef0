/-
# Theory.Dictionary -- dictionaries with an unspecified enumeration order

A `Dict` is a finite map.  What a program sees when it loops over one, or turns
it into an array, is given by an `Enumeration`: some order of its entries, fixed
for one dictionary value, about which nothing else is assumed.  Every result
here holds for every `Enumeration`.

A `Counted` dictionary is one whose keys are exactly `0 .. n-1`, the invariant of
code that only ever appends with `d[d.count] = v`.  It stands for the list of the
values appended (`Counted.values`, `values_push`).  Indexing its enumeration by a
row is in general a permutation of that list (`rows_perm`), never an overwrite or
a loss.  A list loaded from keyed entries keeps the values and drops the keys;
`rowKey` says which key the value in a row came from.
-/
import JobFinder.Theory.Trap
import Mathlib.Data.List.AList
import Mathlib.Data.List.Perm.Basic
import Mathlib.Data.Set.Function
import Mathlib.Order.Interval.Set.Defs

namespace JobFinder.Theory

set_option autoImplicit false

/-- A finite map from `κ` to `α`. -/
abbrev Dict (κ α : Type) := AList fun _ : κ => α

/-- The order in which dictionaries are enumerated. -/
structure Enumeration where
  order {κ α : Type} (d : Dict κ α) : List (Σ _ : κ, α)
  perm {κ α : Type} (d : Dict κ α) : (order d).Perm d.entries

namespace Enumeration

/-- Enumeration in the order of insertion: a new entry is stored in front. -/
def inserted : Enumeration where
  order d := d.entries.reverse
  perm d := List.reverse_perm d.entries

variable (E : Enumeration) {κ α : Type}

theorem nodup_keys (d : Dict κ α) : ((E.order d).map Sigma.fst).Nodup := by
  rw [((E.perm d).map Sigma.fst).nodup_iff]
  exact d.nodupKeys

theorem length_order (d : Dict κ α) : (E.order d).length = d.entries.length :=
  (E.perm d).length_eq

theorem mem_order [DecidableEq κ] {d : Dict κ α} {k : κ} {v : α} :
    ⟨k, v⟩ ∈ E.order d ↔ d.lookup k = some v := by
  rw [(E.perm d).mem_iff, ← AList.mem_lookup_iff, Option.mem_def]

theorem mem_order_keys {d : Dict κ α} {k : κ} : k ∈ (E.order d).map Sigma.fst ↔ k ∈ d := by
  rw [((E.perm d).map Sigma.fst).mem_iff]
  exact AList.mem_keys.symm

/-- Only the empty dictionary enumerates to nothing. -/
theorem order_eq_nil {d : Dict κ α} : E.order d = [] ↔ d = ∅ := by
  rw [← List.length_eq_zero_iff, E.length_order, List.length_eq_zero_iff]
  exact ⟨fun none_ => AList.ext none_, fun same => same ▸ rfl⟩

end Enumeration

theorem key_of_singleton {κ α : Type} [DecidableEq κ] {k k' : κ} {v w : α}
    (found : (AList.singleton k v : Dict κ α).lookup k' = some w) : k' = k := by
  have present : k' ∈ (AList.singleton k v : Dict κ α) := AList.lookup_isSome.mp (by rw [found]; rfl)
  rwa [AList.mem_keys, AList.keys_singleton, List.mem_singleton] at present

/-- A dictionary whose keys are exactly the numbers below its count. -/
structure Counted (α : Type) where
  dict : Dict ℕ α
  dense : ∀ i, i ∈ dict ↔ i < dict.entries.length

namespace Counted

variable {α : Type}

/-- The number of entries. -/
def count (c : Counted α) : ℕ := c.dict.entries.length

/-- The empty dictionary. -/
def empty : Counted α where
  dict := ∅
  dense i := by simp [AList.notMem_empty]

theorem fresh (c : Counted α) : c.count ∉ c.dict := fun present =>
  lt_irrefl _ ((c.dense _).mp present)

/-- `d[d.count] = v`. -/
def push (c : Counted α) (v : α) : Counted α where
  dict := c.dict.insert c.count v
  dense i := by
    have dense := c.dense i
    rw [AList.entries_insert_of_notMem c.fresh, AList.mem_insert, dense, List.length_cons]
    unfold count
    omega

/-- Append the values of a list, one after the other. -/
def pushAll (c : Counted α) (vs : List α) : Counted α := vs.foldl push c

/-- The values, by key. -/
def values (c : Counted α) : List α := (List.range c.count).filterMap c.dict.lookup

@[simp] theorem count_empty : (empty : Counted α).count = 0 := rfl

@[simp] theorem values_empty : (empty : Counted α).values = [] := rfl

@[simp] theorem count_push (c : Counted α) (v : α) : (c.push v).count = c.count + 1 := by
  show (c.dict.insert c.count v).entries.length = _
  rw [AList.entries_insert_of_notMem c.fresh, List.length_cons]
  rfl

@[simp] theorem values_push (c : Counted α) (v : α) : (c.push v).values = c.values ++ [v] := by
  have below : ∀ i ∈ List.range c.count, (c.push v).dict.lookup i = c.dict.lookup i := by
    intro i member
    exact AList.lookup_insert_ne (Nat.ne_of_lt (List.mem_range.mp member))
  have last : (c.push v).dict.lookup c.count = some v := AList.lookup_insert _
  rw [values, count_push, List.range_succ, List.filterMap_append, List.filterMap_congr below]
  simp [values, last]

@[simp] theorem values_pushAll (c : Counted α) (vs : List α) :
    (c.pushAll vs).values = c.values ++ vs := by
  induction vs generalizing c with
  | nil => simp [pushAll]
  | cons v vs ih =>
      have := ih (c.push v)
      simpa [pushAll] using this

theorem lookup_lt (c : Counted α) {i : ℕ} (below : i < c.count) : ∃ v, c.dict.lookup i = some v :=
  Option.isSome_iff_exists.mp (AList.lookup_isSome.mpr ((c.dense i).mpr below))

theorem entries_perm (c : Counted α) :
    c.dict.entries.Perm ((List.range c.count).filterMap fun i => (c.dict.lookup i).map (Sigma.mk i)) := by
  have nodup : c.dict.entries.Nodup := List.Nodup.of_map _ c.dict.nodupKeys
  have nodup' : ((List.range c.count).filterMap
      fun i => (c.dict.lookup i).map (Sigma.mk i)).Nodup := by
    refine List.nodup_range.filterMap fun i j e at_i at_j => ?_
    obtain ⟨v, _, rfl⟩ := Option.map_eq_some_iff.mp (Option.mem_def.mp at_i)
    obtain ⟨w, _, same⟩ := Option.map_eq_some_iff.mp (Option.mem_def.mp at_j)
    exact (congrArg Sigma.fst same).symm
  refine (List.perm_ext_iff_of_nodup nodup nodup').mpr fun ⟨i, v⟩ => ?_
  rw [← AList.mem_lookup_iff, Option.mem_def, List.mem_filterMap]
  constructor
  · intro found
    have present : i ∈ c.dict := AList.lookup_isSome.mp (by rw [found]; rfl)
    exact ⟨i, List.mem_range.mpr ((c.dense i).mp present), by rw [found]; rfl⟩
  · rintro ⟨j, _, at_j⟩
    obtain ⟨w, found, same⟩ := Option.map_eq_some_iff.mp at_j
    cases same
    exact found

/-- **Rows are a permutation of the values appended**: indexing the enumeration
by a row loses, repeats and overwrites nothing. -/
theorem rows_perm (E : Enumeration) (c : Counted α) :
    ((E.order c.dict).map Sigma.snd).Perm c.values := by
  have perm := ((E.perm c.dict).trans c.entries_perm).map Sigma.snd
  have same : ((List.range c.count).filterMap
      fun i => (c.dict.lookup i).map (Sigma.mk i)).map Sigma.snd = c.values := by
    rw [List.map_filterMap, values]
    refine List.filterMap_congr fun i _ => ?_
    cases c.dict.lookup i <;> rfl
  exact same ▸ perm

@[simp] theorem length_values (c : Counted α) : c.values.length = c.count := by
  rw [← (c.rows_perm .inserted).length_eq, List.length_map, Enumeration.length_order]
  rfl

/-- The value under a key is the value appended at that position. -/
theorem lookup_eq (c : Counted α) (i : ℕ) : c.dict.lookup i = c.values[i]? := by
  by_cases below : i < c.count
  · have prefix_ : ∀ n ≤ c.count, ((List.range n).filterMap c.dict.lookup).length = n ∧
        ∀ j < n, ((List.range n).filterMap c.dict.lookup)[j]? = c.dict.lookup j := by
      intro n
      induction n with
      | zero => intro _; exact ⟨rfl, fun j impossible => by omega⟩
      | succ n ih =>
          intro bound
          obtain ⟨length, reads⟩ := ih (by omega)
          obtain ⟨v, found⟩ := c.lookup_lt (i := n) (by omega)
          rw [List.range_succ, List.filterMap_append]
          refine ⟨by simp [length, found], fun j bound' => ?_⟩
          rcases Nat.lt_succ_iff_lt_or_eq.mp bound' with below' | rfl
          · rw [List.getElem?_append_left (by omega), reads j below']
          · rw [List.getElem?_append_right (by omega), length]
            simp [found]
    exact ((prefix_ c.count le_rfl).2 i below).symm
  · have absent : i ∉ c.dict := fun present => below ((c.dense i).mp present)
    rw [AList.lookup_eq_none.mpr absent, List.getElem?_eq_none (by simpa using below)]

/-- `Array(d)[row].value`. -/
def row (E : Enumeration) (c : Counted α) (r : ℕ) : Except Trap α :=
  (subscript (E.order c.dict) r).map Sigma.snd

theorem row_ok {E : Enumeration} {c : Counted α} {r : ℕ} {v : α} (ok : c.row E r = .ok v) :
    ∃ i, (E.order c.dict)[r]? = some ⟨i, v⟩ := by
  unfold row at ok
  cases read : subscript (E.order c.dict) r with
  | error e => simp [read, Except.map] at ok
  | ok entry =>
      rw [read] at ok
      cases ok
      exact ⟨entry.1, subscript_ok.mp read⟩

/-- Every row below the count holds one of the values appended. -/
theorem row_lt (E : Enumeration) (c : Counted α) {r : ℕ} (below : r < c.count) :
    ∃ v ∈ c.values, c.row E r = .ok v := by
  have bound : r < (E.order c.dict).length := by
    rw [E.length_order]
    exact below
  have at_row := List.getElem?_eq_getElem bound
  refine ⟨((E.order c.dict)[r]).2, ?_, ?_⟩
  · exact (c.rows_perm E).mem_iff.mp (List.mem_map.mpr ⟨_, List.getElem_mem bound, rfl⟩)
  · rw [row, subscript_ok.mpr at_row]
    rfl

/-- What stands in a row is one of the values appended, under its key. -/
theorem row_value {E : Enumeration} {c : Counted α} {r i : ℕ} {v : α}
    (at_row : (E.order c.dict)[r]? = some ⟨i, v⟩) : c.values[i]? = some v := by
  rw [← c.lookup_eq]
  exact E.mem_order.mp (List.mem_of_getElem? at_row)

section Loaded

variable {κ : Type}

/-- The list of the values of some entries. -/
def ofEntries (source : List (Σ _ : κ, α)) : Counted α := empty.pushAll (source.map Sigma.snd)

/-- The key of the entry whose value stands in a row. -/
def rowKey (E : Enumeration) (source : List (Σ _ : κ, α)) (r : ℕ) : Option κ := do
  let entry ← (E.order (ofEntries source).dict)[r]?
  let loaded ← source[entry.1]?
  return loaded.1

@[simp] theorem values_ofEntries (source : List (Σ _ : κ, α)) :
    (ofEntries source).values = source.map Sigma.snd := by
  simp [ofEntries]

/-- **A row shows the value of one of the entries loaded.** -/
theorem rowKey_of_row {E : Enumeration} {source : List (Σ _ : κ, α)} {r : ℕ} {v : α}
    (ok : (ofEntries source).row E r = .ok v) :
    ∃ k, rowKey E source r = some k ∧ ⟨k, v⟩ ∈ source := by
  obtain ⟨i, at_row⟩ := row_ok ok
  have value := row_value at_row
  rw [values_ofEntries, List.getElem?_map] at value
  obtain ⟨⟨k, v'⟩, loaded, same⟩ := Option.map_eq_some_iff.mp value
  have same' : v' = v := same
  subst same'
  exact ⟨k, by simp [rowKey, at_row, loaded], List.mem_of_getElem? loaded⟩

@[simp] theorem count_ofEntries (source : List (Σ _ : κ, α)) :
    (ofEntries source).count = source.length := by
  rw [← length_values, values_ofEntries, List.length_map]

/-- A row is a position of the entries loaded, through the key it is enumerated under. -/
theorem rowKey_eq_some {E : Enumeration} {source : List (Σ _ : κ, α)} {r : ℕ} {k : κ} :
    rowKey E source r = some k ↔
      ∃ i v, (E.order (ofEntries source).dict)[r]? = some ⟨i, v⟩ ∧ source[i]? = some ⟨k, v⟩ := by
  constructor
  · intro shown
    obtain ⟨⟨i, v⟩, at_row, shown⟩ := Option.bind_eq_some_iff.mp shown
    obtain ⟨⟨k', v'⟩, loaded, same⟩ := Option.bind_eq_some_iff.mp shown
    cases same
    have value := row_value at_row
    rw [values_ofEntries, List.getElem?_map, loaded] at value
    cases value
    exact ⟨i, _, at_row, loaded⟩
  · rintro ⟨i, v, at_row, loaded⟩
    simp [rowKey, at_row, loaded]

/-- Every entry loaded stands in some row. -/
theorem exists_rowKey (E : Enumeration) {source : List (Σ _ : κ, α)} {k : κ} {v : α}
    (member : ⟨k, v⟩ ∈ source) : ∃ r < source.length, rowKey E source r = some k := by
  obtain ⟨i, loaded⟩ := List.mem_iff_getElem?.mp member
  have stored : (ofEntries source).dict.lookup i = some v := by
    rw [lookup_eq, values_ofEntries, List.getElem?_map, loaded]
    rfl
  obtain ⟨r, at_row⟩ := List.mem_iff_getElem?.mp (E.mem_order.mpr stored)
  obtain ⟨bound, _⟩ := List.getElem?_eq_some_iff.mp at_row
  rw [E.length_order] at bound
  exact ⟨r, count_ofEntries source ▸ bound, rowKey_eq_some.mpr ⟨i, v, at_row, loaded⟩⟩

/-- Entries loaded under different keys stand in different rows. -/
theorem rowKey_inj {E : Enumeration} {source : List (Σ _ : κ, α)}
    (nodup : (source.map Sigma.fst).Nodup) {r r' : ℕ} {k : κ} (one : rowKey E source r = some k)
    (other : rowKey E source r' = some k) : r = r' := by
  obtain ⟨i, v, at_row, loaded⟩ := rowKey_eq_some.mp one
  obtain ⟨i', v', at_row', loaded'⟩ := rowKey_eq_some.mp other
  have sameKey : i = i' := by
    obtain ⟨bound, _⟩ := List.getElem?_eq_some_iff.mp loaded
    refine (List.getElem?_inj (by simpa using bound) nodup).mp ?_
    rw [List.getElem?_map, List.getElem?_map, loaded, loaded']
    rfl
  subst sameKey
  obtain ⟨bound, _⟩ := List.getElem?_eq_some_iff.mp at_row
  refine (List.getElem?_inj (by simpa using bound) (E.nodup_keys (ofEntries source).dict)).mp ?_
  rw [List.getElem?_map, List.getElem?_map, at_row, at_row']
  rfl

/-- An entry stands in one row, and in no other. -/
theorem existsUnique_rowKey (E : Enumeration) {source : List (Σ _ : κ, α)}
    (nodup : (source.map Sigma.fst).Nodup) {k : κ} {v : α} (member : ⟨k, v⟩ ∈ source) :
    ∃! r, r < source.length ∧ rowKey E source r = some k := by
  obtain ⟨r, below, shown⟩ := exists_rowKey E member
  exact ⟨r, ⟨below, shown⟩, fun r' other => rowKey_inj nodup other.2 shown⟩

/-- Every row below the count stands for an entry loaded. -/
theorem rowKey_lt (E : Enumeration) {source : List (Σ _ : κ, α)} {r : ℕ} (below : r < source.length) :
    ∃ k v, rowKey E source r = some k ∧ (ofEntries source).row E r = .ok v ∧ ⟨k, v⟩ ∈ source := by
  rw [← count_ofEntries source] at below
  obtain ⟨v, _, read⟩ := row_lt E (ofEntries source) below
  obtain ⟨k, shown, member⟩ := rowKey_of_row read
  exact ⟨k, v, shown, read, member⟩

/-- **The rows of a list are its entries**: if the keys loaded are distinct, then every
row stands for one of them, and no two for the same. -/
theorem rowKey_bijOn (E : Enumeration) {source : List (Σ _ : κ, α)}
    (nodup : (source.map Sigma.fst).Nodup) (default : κ) :
    Set.BijOn (fun r => (rowKey E source r).getD default) (Set.Iio source.length)
      {k | k ∈ source.map Sigma.fst} := by
  refine ⟨fun r below => ?_, fun r below r' below' same => ?_, fun k member => ?_⟩
  · obtain ⟨k, v, shown, _, member⟩ := rowKey_lt E below
    have value : (rowKey E source r).getD default = k := by rw [shown, Option.getD_some]
    exact List.mem_map.mpr ⟨_, member, value.symm⟩
  · obtain ⟨k, _, shown, _⟩ := rowKey_lt E below
    obtain ⟨k', _, shown', _⟩ := rowKey_lt E below'
    simp only [shown, shown', Option.getD_some] at same
    exact rowKey_inj nodup shown (same ▸ shown')
  · obtain ⟨⟨_, v⟩, loaded, rfl⟩ := List.mem_map.mp member
    obtain ⟨r, below, shown⟩ := exists_rowKey E loaded
    exact ⟨r, below, by simp only [shown, Option.getD_some]⟩

end Loaded

end Counted

end JobFinder.Theory
