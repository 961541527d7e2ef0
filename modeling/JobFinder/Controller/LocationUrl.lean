/-
# Controller.LocationUrl -- the request that a location text makes

`CreateJob` puts the text of the location field between the geocoder's address and a
query, without encoding it, and unwraps what `URL(string:)` makes of the result.

A text with a character that has no place in a URL, such as a space, traps.  One with a
`?` or a `#` ends up in the query or the fragment, and one with a percent-encoded octet is
read back as something else.  `createJob_roundTrips_iff` is exact: the URL is built, and
read back gives the text, the query `json=1` and no fragment, if and only if every
character of the text is one that stands for itself in a path.
-/
import JobFinder.Controller.CreateJob
import JobFinder.Theory.Uri

namespace JobFinder.Controller.CreateJob

open JobFinder.Theory JobFinder.Model

set_option autoImplicit false

/-- A web whose URLs are those that `URL(string:)` accepts: URI references by RFC 3986,
with or without square brackets outside of the host. -/
def foundation (brackets : Bool) (answer : String → Response) : Web where
  isURL text := (Uri.parse brackets text.toList).isSome
  answer := answer

/-- The path is a slash and the text percent-encoded, the query is `json=1`, and there is
no fragment. -/
def ReadsBack (u : Uri.Reference) (jobLocationTxt : String) : Prop :=
  (∃ path, u.path = '/' :: path ∧ Uri.percentDecode path = some jobLocationTxt.toList) ∧
    u.query = some "json=1".toList ∧ u.fragment = none

/-- The tap does not trap, and reading the URL it requests gives back the text. -/
def RoundTrips (web : Web) (brackets : Bool) (form : JobForm) : Prop :=
  ∃ request u, createJob web form = .ok request ∧ Uri.parse brackets request.toList = some u ∧
    ReadsBack u form.jobLocationTxt

/-- Every character of the text stands for itself in a path. -/
def InPath (brackets : Bool) (jobLocationTxt : String) : Prop :=
  ∀ c ∈ jobLocationTxt.toList, Uri.inPath brackets c = true

instance (brackets : Bool) (jobLocationTxt : String) : Decidable (InPath brackets jobLocationTxt) :=
  inferInstanceAs (Decidable (∀ _ ∈ _, _))

/-- What is sent to the server: all of the URL but its fragment. -/
def sent (u : Uri.Reference) :
    Option (List Char) × Option (List Char) × List Char × Option (List Char) :=
  (u.scheme, u.authority, u.path, u.query)

section Urls

variable {brackets : Bool} {answer : String → Response} {form : JobForm} {text : List Char}
  {u : Uri.Reference}

/-- The URL before the location text. -/
def base : List Char := "https://geocode.xyz/".toList

theorem toList_url (jobLocationTxt : String) :
    (url jobLocationTxt).toList = base ++ jobLocationTxt.toList ++ '?' :: "json=1".toList := by
  have query : "?json=1".toList = '?' :: "json=1".toList := by simp
  show ("https://geocode.xyz/" ++ jobLocationTxt ++ "?json=1").toList = _
  rw [String.toList_append, String.toList_append, query]
  rfl

theorem foundation_isURL (text : String) :
    (foundation brackets answer).isURL text = (Uri.parse brackets text.toList).isSome := by
  rw [foundation]

/-- The tap requests the URL if `URL(string:)` accepts it, and traps otherwise. -/
theorem createJob_ok {request : String} :
    createJob (foundation brackets answer) form = .ok request ↔
      request = url form.jobLocationTxt ∧ (Uri.parse brackets request.toList).isSome := by
  unfold createJob
  generalize url form.jobLocationTxt = text
  rw [unwrap_ok, foundation_isURL, Option.ite_none_right_eq_some, Option.some.injEq]
  constructor
  · rintro ⟨isURL, rfl⟩
    exact ⟨rfl, isURL⟩
  · rintro ⟨rfl, isURL⟩
    exact ⟨isURL, rfl⟩

theorem createJob_error (bad : Uri.parse brackets (url form.jobLocationTxt).toList = none) :
    createJob (foundation brackets answer) form = .error .unwrappedNil := by
  unfold createJob
  generalize url form.jobLocationTxt = text at bad
  rw [foundation_isURL, bad]
  rfl

theorem roundTrips_iff_readsBack :
    RoundTrips (foundation brackets answer) brackets form ↔
      ∃ u, Uri.parse brackets (url form.jobLocationTxt).toList = some u ∧
        ReadsBack u form.jobLocationTxt := by
  constructor
  · rintro ⟨request, u, accepted, parsed, reads⟩
    obtain ⟨rfl, _⟩ := createJob_ok.mp accepted
    exact ⟨u, parsed, reads⟩
  · rintro ⟨u, parsed, reads⟩
    exact ⟨_, u, createJob_ok.mpr ⟨rfl, by rw [parsed]; rfl⟩, parsed, reads⟩

/-- The components of the URL of a text without `#` and `?`. -/
theorem split_url (noFragment : '#' ∉ text) (noQuery : '?' ∉ text) :
    Uri.split (base ++ text ++ '?' :: "json=1".toList) =
      ⟨some "https".toList, some "geocode.xyz".toList, '/' :: text, some "json=1".toList, none⟩ := by
  have clear : '#' ∉ base ++ text ++ '?' :: "json=1".toList := by
    simp only [List.mem_append, not_or]
    exact ⟨⟨by decide, noFragment⟩, by decide⟩
  have clear' : '?' ∉ base ++ text := by
    simp only [List.mem_append, not_or]
    exact ⟨by decide, noQuery⟩
  rw [Uri.split_query clear clear']
  rfl

/-- The URL of a text is not read back if the text has a `#` or a `?`. -/
theorem clear_of_readsBack (reads : Uri.split (base ++ text ++ '?' :: "json=1".toList) = u)
    (query : u.query = some "json=1".toList) (fragment : u.fragment = none) :
    '#' ∉ text ∧ '?' ∉ text := by
  subst reads
  have noFragment : '#' ∉ base ++ text ++ '?' :: "json=1".toList := Uri.after_eq_none.mp fragment
  have front : Uri.before '#' (base ++ text ++ '?' :: "json=1".toList) =
      base ++ text ++ '?' :: "json=1".toList := Uri.before_eq_self noFragment
  refine ⟨fun member => noFragment ?_, fun member => ?_⟩
  · exact List.mem_append_left _ (List.mem_append_right _ member)
  · obtain ⟨l, r, rfl, clear⟩ := List.eq_append_cons_of_mem member
    have later : Uri.after '?' (base ++ (l ++ '?' :: r) ++ '?' :: "json=1".toList) =
        some (r ++ '?' :: "json=1".toList) := by
      have start : '?' ∉ base ++ l := by
        simp only [List.mem_append, not_or]
        exact ⟨by decide, clear⟩
      have regroup : base ++ (l ++ '?' :: r) ++ '?' :: "json=1".toList =
          (base ++ l) ++ '?' :: (r ++ '?' :: "json=1".toList) := by simp
      rw [regroup, Uri.after_append start, Uri.after_cons_self]
    have same : r ++ '?' :: "json=1".toList = "json=1".toList := by
      have query' : Uri.after '?' (Uri.before '#' (base ++ (l ++ '?' :: r) ++ '?' :: "json=1".toList)) =
          some "json=1".toList := query
      rw [front, later] at query'
      exact Option.some.inj query'
    have length := congrArg List.length same
    simp at length

theorem not_inPath_percent (brackets : Bool) : Uri.inPath brackets '%' = false := by
  cases brackets <;> decide

theorem not_inPath_question (brackets : Bool) : Uri.inPath brackets '?' = false := by
  cases brackets <;> decide

theorem not_inPath_hash (brackets : Bool) : Uri.inPath brackets '#' = false := by
  cases brackets <;> decide

/-- A text of such characters is accepted, and read back. -/
theorem parse_url_of_inPath {jobLocationTxt : String} (ok : InPath brackets jobLocationTxt) :
    ∃ u, Uri.parse brackets (url jobLocationTxt).toList = some u ∧ ReadsBack u jobLocationTxt := by
  have absent {c : Char} (bad : Uri.inPath brackets c = false) : c ∉ jobLocationTxt.toList :=
    fun member => Bool.false_ne_true (bad.symm.trans (ok c member))
  have plain := absent (not_inPath_percent brackets)
  refine ⟨_, Uri.parse_eq_some.mpr ⟨?_, rfl⟩, ?_⟩
  · rw [toList_url, split_url (absent (not_inPath_hash brackets)) (absent (not_inPath_question brackets))]
    have path : Uri.isComponent (Uri.inPath brackets) ('/' :: jobLocationTxt.toList) = true := by
      rw [Uri.isComponent_cons (by decide), (Uri.isComponent_iff plain).mpr ok]
      simp [Uri.inPath]
    have query : Uri.isComponent (Uri.inQuery brackets) "json=1".toList = true := by
      cases brackets <;> decide
    have rest : Uri.isScheme "https".toList = true ∧
        Uri.isComponent Uri.inAuthority "geocode.xyz".toList = true := by decide
    simp only [Uri.Reference.wellFormed, Option.all_some, Option.all_none, path, query, rest.1,
      rest.2, Bool.and_self]
  · rw [toList_url, split_url (absent (not_inPath_hash brackets)) (absent (not_inPath_question brackets))]
    exact ⟨⟨_, rfl, Uri.percentDecode_self_iff.mpr plain⟩, rfl, rfl⟩

/-- A text that is accepted and read back has only such characters. -/
theorem inPath_of_readsBack {jobLocationTxt : String}
    (parsed : Uri.parse brackets (url jobLocationTxt).toList = some u)
    (reads : ReadsBack u jobLocationTxt) : InPath brackets jobLocationTxt := by
  obtain ⟨⟨path, slash, decoded⟩, query, fragment⟩ := reads
  obtain ⟨wellFormed, components⟩ := Uri.parse_eq_some.mp parsed
  rw [toList_url] at wellFormed components
  obtain ⟨noFragment, noQuery⟩ := clear_of_readsBack components query fragment
  rw [split_url noFragment noQuery] at wellFormed components
  subst components
  obtain rfl : jobLocationTxt.toList = path := (List.cons.inj slash).2
  have plain := Uri.percentDecode_self_iff.mp decoded
  have ok : Uri.isComponent (Uri.inPath brackets) ('/' :: jobLocationTxt.toList) = true := by
    simp only [Uri.Reference.wellFormed, Bool.and_eq_true] at wellFormed
    exact wellFormed.1.1.2
  rw [Uri.isComponent_cons (by decide), Bool.and_eq_true, Uri.isComponent_iff plain] at ok
  exact ok.2

theorem roundTrips_iff : RoundTrips (foundation brackets answer) brackets form ↔
    InPath brackets form.jobLocationTxt := by
  rw [roundTrips_iff_readsBack]
  exact ⟨fun ⟨_, parsed, reads⟩ => inPath_of_readsBack parsed reads, parse_url_of_inPath⟩

/-- What is read back is in what is sent. -/
theorem ReadsBack.unique {u' : Uri.Reference} {jobLocationTxt jobLocationTxt' : String}
    (reads : ReadsBack u jobLocationTxt) (reads' : ReadsBack u' jobLocationTxt')
    (same : sent u = sent u') : jobLocationTxt = jobLocationTxt' := by
  obtain ⟨⟨path, slash, decoded⟩, _⟩ := reads
  obtain ⟨⟨path', slash', decoded'⟩, _⟩ := reads'
  have samePath : u.path = u'.path := congrArg (fun parts => parts.2.2.1) same
  obtain rfl : path = path' := by
    rw [slash, slash'] at samePath
    exact (List.cons.inj samePath).2
  exact String.toList_injective (Option.some.inj (decoded.symm.trans decoded'))

end Urls

/-- **When a location text is read back.**  Whatever the form, a tap on Post Job builds a
URL without trapping, and reading that URL gives back the location text, the query
`json=1` and no fragment, if and only if every character of the text stands for itself in
a path.  Of two such texts that send the same request, one is the other. -/
theorem createJob_roundTrips_iff (brackets : Bool) (answer : String → Response) (form : JobForm) :
    (RoundTrips (foundation brackets answer) brackets form ↔
      InPath brackets form.jobLocationTxt) ∧
    ∀ (form' : JobForm) (u u' : Uri.Reference),
      InPath brackets form.jobLocationTxt → InPath brackets form'.jobLocationTxt →
      Uri.parse brackets (url form.jobLocationTxt).toList = some u →
      Uri.parse brackets (url form'.jobLocationTxt).toList = some u' →
      sent u = sent u' → form.jobLocationTxt = form'.jobLocationTxt := by
  refine ⟨roundTrips_iff, fun form' u u' ok ok' parsed parsed' same => ?_⟩
  obtain ⟨_, parsed₁, reads⟩ := parse_url_of_inPath ok
  obtain ⟨_, parsed₂, reads'⟩ := parse_url_of_inPath ok'
  cases parsed.symm.trans parsed₁
  cases parsed'.symm.trans parsed₂
  exact reads.unique reads' same

theorem not_inPath_of_mem {brackets : Bool} {c : Char} {jobLocationTxt : String}
    (member : c ∈ jobLocationTxt.toList) (bad : Uri.inPath brackets c = false) :
    ¬ InPath brackets jobLocationTxt :=
  fun ok => Bool.false_ne_true (bad.symm.trans (ok c member))

/-- The form of a job at a place. -/
def formAt (jobLocationTxt : String) : JobForm := { JobForm.sample with jobLocationTxt }

/-- Whatever brackets may do: a space traps; so does a letter that is not ASCII; a `?` goes
to the query; an encoded octet is read back decoded; and two flats of one house, told
apart by a `#`, send the same request. -/
theorem createJob_not_roundTrips :
    (∀ brackets answer, createJob (foundation brackets answer) (formAt "New York") =
        .error .unwrappedNil) ∧
      (∀ brackets answer, createJob (foundation brackets answer) (formAt "Malmö") =
        .error .unwrappedNil) ∧
      (∀ brackets answer, ∀ text ∈ ["New York", "Malmö", "Where?", "%41", "Home#1"],
        ¬ RoundTrips (foundation brackets answer) brackets (formAt text)) ∧
      ∀ brackets, ∃ u u', Uri.parse brackets (url "Home#1").toList = some u ∧
        Uri.parse brackets (url "Home#2").toList = some u' ∧ sent u = sent u' := by
  refine ⟨fun brackets answer => ?_, fun brackets answer => ?_, fun brackets answer text member => ?_,
    fun brackets => ?_⟩
  · exact createJob_error (by cases brackets <;> decide +kernel)
  · exact createJob_error (by cases brackets <;> decide +kernel)
  · have bad {c : Char} (member : c ∈ text.toList) (bad : Uri.inPath brackets c = false) :
        ¬ RoundTrips (foundation brackets answer) brackets (formAt text) :=
      fun reads => not_inPath_of_mem member bad (roundTrips_iff.mp reads)
    have refused : Uri.inPath brackets ' ' = false ∧ Uri.inPath brackets 'ö' = false := by
      cases brackets <;> decide
    simp only [List.mem_cons, List.not_mem_nil, or_false] at member
    rcases member with rfl | rfl | rfl | rfl | rfl
    · exact @bad ' ' (by decide) refused.1
    · exact @bad 'ö' (by decide) refused.2
    · exact @bad '?' (by decide) (not_inPath_question brackets)
    · exact @bad '%' (by decide) (not_inPath_percent brackets)
    · exact @bad '#' (by decide) (not_inPath_hash brackets)
  · refine ⟨_, _, Uri.parse_eq_some.mpr ⟨?_, rfl⟩, Uri.parse_eq_some.mpr ⟨?_, rfl⟩, ?_⟩
    · cases brackets <;> decide +kernel
    · cases brackets <;> decide +kernel
    · decide +kernel

end JobFinder.Controller.CreateJob
