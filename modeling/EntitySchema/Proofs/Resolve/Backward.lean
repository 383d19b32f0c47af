import EntitySchema.Grammar.Definition
import EntitySchema.Proofs.Field
import EntitySchema.Proofs.Resolve.Step

/-!
# Proofs/Resolve/Backward — what backward fuzzy fields are filled with

    given data ──one fill after another──▸ resolved data

Resolution is a sequence of fills (`Fill`), each of a field of its own, from the matches that the
store returned for one type.  An array field or a union links only matches that reach the threshold;
a single field with one candidate links the first match, whatever its score.  A field that is not
filled had no such match (`backward_fills`).
-/

namespace EntitySchema

namespace Resolve

/-! ## Searches -/

namespace Backend

/-- At some point of the log the store was asked for a type and returned `ms`. -/
def Found (b : Backend) (log : List Call) (type query : String) (least : Number) (limit : Int)
    (ms : List Match) : Prop :=
  ∃ find before after, b.search? = some find ∧
    log = before ++ .search type query least limit :: after ∧
    find before type query least limit = .ok ms

variable {b : Backend} {log log' : List Call} {type query : String} {least : Number} {limit : Int}
  {ms : List Match}

theorem Found.append (h : b.Found log type query least limit ms) (calls : List Call) :
    b.Found (log ++ calls) type query least limit ms := by
  obtain ⟨find, before, after, hfind, rfl, hms⟩ := h
  exact ⟨find, before, after ++ calls, hfind, by rw [List.append_assoc, List.cons_append], hms⟩

theorem found_of_returns (hb : b.canSearch)
    (h : (b.searchFor type query least limit).Returns log ms log') :
    b.Found log' type query least limit ms ∧ log' = log ++ [.search type query least limit] := by
  obtain ⟨hnone, -, -⟩ | ⟨find, hfind, hms, rfl⟩ := searchFor_cases h
  · rw [canSearch, hnone] at hb
    exact absurd hb Bool.false_ne_true
  · exact ⟨⟨find, log, [], hfind, rfl, hms⟩, rfl⟩

end Backend

/-- A store that keeps to the least score it is asked for. -/
def Backend.Strict (b : Backend) : Prop :=
  ∀ find log type query least limit ms, b.search? = some find →
    find log type query least limit = .ok ms → ∀ m ∈ ms, m.reaches least

/-! ## Fills -/

/-- The matches that count for a field: all, or for a union those that reach the threshold. -/
def counted (t : Number) (f : Field) (ms : List Match) : List Match :=
  if f.isUnion then ms.filter (Match.reaches t) else ms

/-- The matches that a field links: an array those that reach the threshold, a single field the
first that counts. -/
def linked (t : Number) (f : Field) (ms : List Match) : List Match :=
  if f.modifiers.array then ms.filter (Match.reaches t) else (counted t f ms).take 1

theorem mem_counted {b : Backend} {t : Number} {f : Field} {ms : List Match} {m : Match}
    (hkeeps : f.isUnion = true ∨ b.Strict) (hstrict : b.Strict → ∀ m ∈ ms, m.reaches t)
    (hm : m ∈ counted t f ms) : m ∈ ms ∧ m.reaches t := by
  rw [counted] at hm
  split at hm
  · exact List.mem_filter.mp hm
  · exact ⟨hm, hstrict (hkeeps.resolve_left ‹_›) m hm⟩

theorem mem_linked {b : Backend} {t : Number} {f : Field} {ms : List Match} {m : Match}
    (hkeeps : f.modifiers.array = true ∨ f.isUnion = true ∨ b.Strict)
    (hstrict : b.Strict → ∀ m ∈ ms, m.reaches t) (hm : m ∈ linked t f ms) :
    m ∈ ms ∧ m.reaches t := by
  rw [linked] at hm
  split at hm
  · exact List.mem_filter.mp hm
  · exact mem_counted (hkeeps.resolve_left ‹_›) hstrict (List.mem_of_mem_take hm)

/-- A field that is filled. -/
structure Fill where
  /-- The key of the field. -/
  key : String
  /-- The field. -/
  field : Field
  /-- The type that was searched. -/
  type : String
  /-- What the store returned. -/
  returned : List Match
  /-- The ids of the linked matches. -/
  ids : List Value

namespace Fill

/-- What the field is set to. -/
def value (x : Fill) : Value := if x.field.modifiers.array then .list x.ids else x.ids.headD .null

/-- Sets the field; the type that a union was filled from is noted beside it. -/
def store (data : Record) (x : Fill) : Record :=
  if x.field.isUnion then
    (data.insert x.key x.value).insert (x.key ++ "$matchedType") (.text x.type)
  else data.insert x.key x.value

theorem store_of_union {x : Fill} (hunion : x.field.isUnion = true) (data : Record) : x.store data =
    (data.insert x.key x.value).insert (x.key ++ "$matchedType") (.text x.type) := if_pos hunion

theorem store_of_not_union {x : Fill} (hunion : x.field.isUnion = false) (data : Record) :
    x.store data = data.insert x.key x.value := if_neg (by simp [hunion])

/-- The fill is founded on what the store returned for `query`. -/
structure Founded (x : Fill) (b : Backend) (t : Number) (query : String) (log : List Call) :
    Prop where
  /-- A type of the field was searched. -/
  candidate : x.type ∈ x.field.candidates
  /-- The store returned these matches. -/
  found : b.Found log x.type query t (backwardLimit x.field) x.returned
  /-- Some of them count. -/
  counts : counted t x.field x.returned ≠ []
  /-- The field is set to the ids of the matches it links. -/
  ids : (linked t x.field x.returned).map (·.get? Match.idKey) = x.ids.map some

end Fill

/-- No type of the field has a match that counts. -/
def Barren (b : Backend) (t : Number) (query : String) (f : Field) (log : List Call) : Prop :=
  ∀ type ∈ f.candidates, ∃ ms, b.Found log type query t (backwardLimit f) ms ∧ counted t f ms = []

/-- A field that is searched for is filled, or none of its types has a match that counts. -/
def Turn (b : Backend) (t : Number) (query key : String) (f : Field) (log : List Call)
    (data data' : Record) : Prop :=
  data' = data ∧ Barren b t query f log ∨
    ∃ x : Fill, x.key = key ∧ x.field = f ∧ x.Founded b t query log ∧ data' = x.store data

variable {b : Backend} {t : Number} {key query type : String} {f : Field} {log log' : List Call}
  {data data' : Record}

/-- Both ways of filling end alike: with the ids of an array, or with that of the first match. -/
theorem returns_value {array : Bool} {x : Except Failure (List Value)} {m : Match}
    {next : Value → Run Record}
    (h : (if array then do let v ← Value.list <$> (liftM x : Run (List Value)); next v
      else do let v ← (liftM (Record.require m Match.idKey) : Run Value); next v).Returns
        log data log') :
    ∃ ids, (if array then x = .ok ids else [m.get? Match.idKey] = ids.map some) ∧
      (next (if array then .list ids else ids.headD .null)).Returns log data log' := by
  split_ifs at h with harray
  · obtain ⟨v, between, hv, h⟩ := Session.returns_bind_iff.mp h
    obtain ⟨ids, hlift, rfl⟩ := Session.returns_map_iff.mp hv
    obtain ⟨hids, rfl⟩ := Session.returns_lift_iff.mp hlift
    exact ⟨ids, by rwa [if_pos harray], by rwa [if_pos harray]⟩
  · obtain ⟨id, between, hlift, h⟩ := Session.returns_bind_iff.mp h
    obtain ⟨hid, rfl⟩ := Session.returns_lift_iff.mp hlift
    refine ⟨[id], ?_, by rwa [if_neg harray, List.headD_cons]⟩
    rw [if_neg harray, Record.require_eq_ok_iff.mp hid]
    rfl

/-! ## One candidate -/

theorem qualifyingIds_eq_ok {t : Number} : ∀ {ms : List Match} {ids : List Value},
    qualifyingIds t ms = .ok ids →
    (ms.filter (Match.reaches t)).map (·.get? Match.idKey) = ids.map some
  | [], ids, h => by
      obtain rfl := Except.ok.inj h
      rfl
  | m :: ms, ids, h => by
      obtain ⟨v, hv, h⟩ := bind_eq_ok_iff.mp h
      obtain ⟨reached, hreached, h⟩ := bind_eq_ok_iff.mp h
      have hm := Match.reaches_eq_of_isAtLeast (Record.require_eq_ok_iff.mp hv) hreached
      cases reached with
      | false =>
        rw [List.filter_cons_of_neg (by simp [hm])]
        exact qualifyingIds_eq_ok h
      | true =>
        obtain ⟨id, hid, h⟩ := bind_eq_ok_iff.mp h
        obtain ⟨rest, hrest, h⟩ := bind_eq_ok_iff.mp h
        obtain rfl := Except.ok.inj h
        rw [List.filter_cons_of_pos hm, List.map_cons, List.map_cons,
          Record.require_eq_ok_iff.mp hid, qualifyingIds_eq_ok hrest]

theorem fillFromTarget_returns (hb : b.canSearch) (hunion : f.isUnion = false)
    (hcandidates : f.candidates = [type])
    (h : (fillFromTarget b t key query f type data).Returns log data' log') :
    (∃ calls, log' = log ++ calls) ∧ Turn b t query key f log' data data' := by
  obtain ⟨ms, between, hms, h⟩ := Session.returns_bind_iff.mp h
  obtain ⟨hfound, rfl⟩ := Backend.found_of_returns hb hms
  have hcounted : counted t f ms = ms := if_neg (by simp [hunion])
  cases ms with
  | nil =>
    obtain ⟨rfl, rfl⟩ := Session.returns_pure_iff.mp h
    refine ⟨⟨_, rfl⟩, .inl ⟨rfl, ?_⟩⟩
    intro type' htype'
    rw [hcandidates, List.mem_singleton] at htype'
    subst htype'
    exact ⟨[], hfound, hcounted⟩
  | cons m ms =>
    obtain ⟨ids, hids, h⟩ := returns_value h
    obtain ⟨rfl, rfl⟩ := Session.returns_pure_iff.mp h
    refine ⟨⟨_, rfl⟩, .inr ⟨⟨key, f, type, m :: ms, ids⟩, rfl, rfl, ⟨?_, hfound, ?_, ?_⟩,
      (Fill.store_of_not_union (x := ⟨key, f, type, m :: ms, ids⟩) hunion data).symm⟩⟩
    · exact hcandidates ▸ List.mem_singleton_self type
    · exact hcounted.symm ▸ List.cons_ne_nil m ms
    · rw [linked]
      split
      · rw [if_pos ‹_›] at hids
        exact qualifyingIds_eq_ok hids
      · rw [if_neg ‹_›] at hids
        rw [hcounted, ← hids]
        rfl

/-! ## Several candidates -/

theorem allIds_eq_ok : ∀ {ms : List Match} {ids : List Value}, allIds ms = .ok ids →
    ms.map (·.get? Match.idKey) = ids.map some
  | [], ids, h => by
      obtain rfl := Except.ok.inj h
      rfl
  | m :: ms, ids, h => by
      obtain ⟨id, hid, h⟩ := bind_eq_ok_iff.mp h
      obtain ⟨rest, hrest, h⟩ := bind_eq_ok_iff.mp h
      obtain rfl := Except.ok.inj h
      rw [List.map_cons, List.map_cons, Record.require_eq_ok_iff.mp hid, allIds_eq_ok hrest]

/-- A match with the type it was searched as. -/
def noted (type : String) (m : Match) : Match := m.insert Match.typeKey (.text type)

theorem get?_noted {key : String} (hkey : key ≠ Match.typeKey) (m : Match) :
    (noted type m).get? key = m.get? key := by
  rw [noted, Table.get?_insert, if_neg hkey.symm]

@[simp] theorem tag_noted (m : Match) : Match.tag type (noted type m) = noted type m := by
  rw [Match.tag, if_pos]
  simp [noted, Table.contains]

@[simp] theorem qualifies_noted (m : Match) :
    Match.qualifies t (noted type m) = Match.qualifies t m := by
  rw [Match.qualifies, Match.score, get?_noted (by decide), Match.qualifies, Match.score]

theorem qualifying_noted (o : Search.Options) (ms : List Match) :
    o.qualifying type (ms.map (noted type)) =
      (ms.filter (Match.qualifies (o.thresholdFor type))).map (noted type) := by
  have htags : (ms.map (noted type)).map (Match.tag type) = ms.map (noted type) := by
    rw [List.map_map]
    exact List.map_congr_left fun m _ => tag_noted m
  rw [Search.Options.qualifying, htags, List.filter_map]
  exact congrArg _ (List.filter_congr fun m _ => qualifies_noted m)

theorem filter_reaches_eq_nil {ms : List Match} (h : ms.filter (Match.qualifies t) = []) :
    ms.filter (Match.reaches t) = [] := by
  rw [List.filter_eq_nil_iff] at h ⊢
  exact fun m hm hreaches => h m hm (Match.qualifies_of_reaches hreaches)

/-- **Candidates that miss returned no match that reaches the threshold**, and the one that hits
returned those that qualify. -/
theorem found_of_asks (hb : b.canSearch) {o : Search.Options} (ho : o.onError = none) :
    ∀ {types : List String} {log log' : List Call} {missed : List Search.Outcome}
      {hit? : Option (String × List Match)},
    Search.Asks (Search.ofProvider b.searchFor) o query types log missed hit? log' →
    (∃ calls, log' = log ++ calls) ∧
      (hit? = none → ∀ type ∈ types, ∃ ms, b.Found log' type query (o.thresholdFor type)
        (o.limit.getD Search.defaultLimit) ms ∧
          ms.filter (Match.reaches (o.thresholdFor type)) = []) ∧
      ∀ type ms', hit? = some (type, ms') → type ∈ types ∧ ∃ ms, b.Found log' type query
        (o.thresholdFor type) (o.limit.getD Search.defaultLimit) ms ∧
      ms' = ms.map (noted type) := by
  intro types log log' missed hit? h
  induction h with
  | exhausted log => exact ⟨⟨[], (List.append_nil _).symm⟩, fun _ => nofun, nofun⟩
  | @hit type types log log' ms' asked hits =>
    obtain ⟨ms, between, hms, hpure⟩ := Session.returns_bind_iff.mp asked
    obtain ⟨hfound, rfl⟩ := Backend.found_of_returns hb hms
    obtain ⟨rfl, rfl⟩ := Session.returns_pure_iff.mp hpure
    refine ⟨⟨_, rfl⟩, nofun, ?_⟩
    rintro _ _ ⟨⟩
    exact ⟨List.mem_cons_self, ms, hfound, rfl⟩
  | @miss type types log between log' x missed hit? asked misses rest ih =>
    cases x with
    | error e => exact absurd (by rw [ho]; rfl) misses
    | ok ms' =>
      obtain ⟨ms, _, hms, hpure⟩ := Session.returns_bind_iff.mp asked
      obtain ⟨hfound, rfl⟩ := Backend.found_of_returns hb hms
      obtain ⟨rfl, rfl⟩ := Session.returns_pure_iff.mp hpure
      obtain ⟨⟨calls, rfl⟩, hnone, hsome⟩ := ih
      refine ⟨⟨_, List.append_assoc ..⟩, fun hexhausted => ?_, fun type' ms' hhit => ?_⟩
      · refine List.forall_mem_cons.mpr ⟨⟨ms, hfound.append calls, ?_⟩, hnone hexhausted⟩
        have hmisses : o.qualifying type (ms.map (noted type)) = [] := misses
        rw [qualifying_noted, List.map_eq_nil_iff] at hmisses
        exact filter_reaches_eq_nil hmisses
      · obtain ⟨htype, hms'⟩ := hsome type' ms' hhit
        exact ⟨List.mem_cons_of_mem _ htype, hms'⟩

/-- **A union finds the matches of one candidate that reach the threshold**, or no candidate has
any. -/
theorem search_returns (hb : b.canSearch) {types : List String} (htypes : types ≠ []) {limit : Int}
    {r : Search.Result}
    (h : (Search.search (Search.ofProvider b.searchFor)
      { threshold := some t, limit := some limit } query types).Returns log r log') :
    (∃ calls, log' = log ++ calls) ∧
      (r.found = [] ∧ (∀ type ∈ types, ∃ ms, b.Found log' type query t limit ms ∧
          ms.filter (Match.reaches t) = []) ∨
        ∃ type ∈ types, ∃ ms, b.Found log' type query t limit ms ∧
          ms.filter (Match.reaches t) ≠ [] ∧
          r.found = (ms.filter (Match.reaches t)).map (noted type) ∧
          r.matchedType = .text type) := by
  rw [Search.search, if_neg htypes] at h
  obtain ⟨missed, hit?, hasks, hnone, hsome⟩ := Search.orderedFrom_returns h
  obtain ⟨hcalls, hbarren, hhit⟩ := found_of_asks hb rfl hasks
  refine ⟨hcalls, ?_⟩
  cases hit? with
  | none => exact .inl ⟨hnone rfl, hbarren rfl⟩
  | some hit =>
    obtain ⟨type, ms'⟩ := hit
    obtain ⟨htype, ms, hfound, rfl⟩ := hhit type ms' rfl
    obtain ⟨hqualifying, hmatched, hscored⟩ := hsome type _ rfl
    have hits := hasks.hits
    rw [qualifying_noted] at hqualifying hits
    change r.found = (ms.filter (Match.qualifies t)).map (noted type) at hqualifying
    change (ms.filter (Match.qualifies t)).map (noted type) ≠ [] at hits
    -- A match without a score would have failed the search.
    have hreaches : ms.filter (Match.qualifies t) = ms.filter (Match.reaches t) := by
      refine List.filter_congr fun m hm =>
        Bool.eq_iff_iff.mpr ⟨fun hq => ?_, Match.qualifies_of_reaches⟩
      have hmem : noted type m ∈ r.found :=
        hqualifying ▸ List.mem_map_of_mem (List.mem_filter.mpr ⟨hm, hq⟩)
      have hscore := hscored _ hmem
      rw [get?_noted (by decide)] at hscore
      obtain ⟨v, hv⟩ := Option.ne_none_iff_exists'.mp hscore
      exact Match.reaches_of_qualifies hv hq
    rw [hreaches] at hqualifying hits
    exact .inr ⟨type, htype, ms, hfound, fun hnil => hits (List.map_eq_nil_iff.mpr hnil),
      hqualifying, hmatched⟩

theorem fillFromUnion_returns (hb : b.canSearch) {types : List String} (htypes : types ≠ [])
    (hunion : f.isUnion = true) (hcandidates : f.candidates = types)
    (h : (fillFromUnion b t key query f types data).Returns log data' log') :
    (∃ calls, log' = log ++ calls) ∧ Turn b t query key f log' data data' := by
  obtain ⟨r, between, hr, h⟩ := Session.returns_bind_iff.mp h
  have hcounted : ∀ ms, counted t f ms = ms.filter (Match.reaches t) := fun ms => if_pos hunion
  obtain ⟨⟨calls, rfl⟩, ⟨hnil, hbarren⟩ | ⟨type, htype, ms, hfound, hne, hr, hmatched⟩⟩ :=
    search_returns hb htypes hr
  · rw [hnil] at h
    obtain ⟨rfl, rfl⟩ := Session.returns_pure_iff.mp h
    refine ⟨⟨_, rfl⟩, .inl ⟨rfl, fun type htype => ?_⟩⟩
    obtain ⟨ms, hfound, hreaches⟩ := hbarren type (hcandidates ▸ htype)
    exact ⟨ms, hfound, (hcounted ms).trans hreaches⟩
  · have hgets : r.found.map (·.get? Match.idKey) =
        (ms.filter (Match.reaches t)).map (·.get? Match.idKey) := by
      rw [hr, List.map_map]
      exact List.map_congr_left fun m _ => get?_noted (by decide) m
    cases hfilled : r.found with
    | nil => exact absurd (List.map_eq_nil_iff.mp (hr.symm.trans hfilled)) hne
    | cons m' ms' =>
      rw [hfilled] at h hgets
      obtain ⟨ids, hids, h⟩ := returns_value h
      obtain ⟨rfl, rfl⟩ := Session.returns_pure_iff.mp h
      refine ⟨⟨_, rfl⟩, .inr ⟨⟨key, f, type, ms, ids⟩, rfl, rfl, ⟨?_, hfound, ?_, ?_⟩, ?_⟩⟩
      · exact hcandidates ▸ htype
      · exact (hcounted ms).symm ▸ hne
      · rw [linked]
        split
        · rw [if_pos ‹_›] at hids
          exact hgets.symm.trans (allIds_eq_ok hids)
        · rw [if_neg ‹_›] at hids
          rw [hcounted, List.map_take, ← hgets, ← hids]
          rfl
      · rw [hmatched]
        exact (Fill.store_of_union (x := ⟨key, f, type, ms, ids⟩) hunion data).symm

/-! ## One field after another -/

/-- What is searched for to fill a field, if it is backward fuzzy and has a query. -/
def backwardQuery? (given : Record) (key : String) (f : Field) : Option String :=
  f.relation?.bind fun r =>
    if r.operator = some .backwardFuzzy then (hintText? given key).or (nonempty? r.prompt) else none

/-- A field is set already or searched for, if it has a query and the store can search. -/
theorem backwardField_returns {given : Record}
    (h : (backwardField b t given data key f).Returns log data' log') :
    (∃ calls, log' = log ++ calls) ∧
      ((data' = data ∧
          ∀ query, backwardQuery? given key f = some query → b.canSearch → isSet data key) ∨
        isSet data key = false ∧ ∃ query, backwardQuery? given key f = some query ∧
          Turn b t query key f log' data data') := by
  have hidle : (pure data : Run Record).Returns log data' log' →
      (∃ calls, log' = log ++ calls) ∧ data' = data := by
    intro h
    obtain ⟨rfl, rfl⟩ := Session.returns_pure_iff.mp h
    exact ⟨⟨[], (List.append_nil _).symm⟩, rfl⟩
  rw [backwardField] at h
  cases hrelation : f.relation? with
  | none =>
    rw [hrelation] at h
    refine ⟨(hidle h).1, .inl ⟨(hidle h).2, fun query hquery => ?_⟩⟩
    rw [backwardQuery?, hrelation] at hquery
    exact nomatch hquery
  | some r =>
    rw [hrelation] at h
    dsimp only at h
    have hquery : backwardQuery? given key f = if r.operator = some .backwardFuzzy then
        (hintText? given key).or (nonempty? r.prompt) else none := by
      rw [backwardQuery?, hrelation, Option.bind_some]
    by_cases hskip : r.operator ≠ some .backwardFuzzy ∨ isSet data key
    · rw [if_pos hskip] at h
      refine ⟨(hidle h).1, .inl ⟨(hidle h).2, fun query hq _ => ?_⟩⟩
      obtain hother | hset := hskip
      · rw [hquery, if_neg hother] at hq
        exact nomatch hq
      · exact hset
    · rw [if_neg hskip] at h
      obtain ⟨hoperator, hset⟩ := not_or.mp hskip
      have hunset : isSet data key = false := eq_false_of_ne_true hset
      rw [if_pos (Classical.not_not.mp hoperator)] at hquery
      cases hsome : (hintText? given key).or (nonempty? r.prompt) with
      | none =>
        rw [hsome] at h
        exact ⟨(hidle h).1, .inl ⟨(hidle h).2, fun query hq =>
          nomatch (hquery.trans hsome).symm.trans hq⟩⟩
      | some query =>
        rw [hsome] at h
        dsimp only at h
        split_ifs at h with hblind
        · exact ⟨(hidle h).1, .inl ⟨(hidle h).2, fun _ _ hb => absurd hblind (by simp [hb])⟩⟩
        · have hb : b.canSearch := by simpa using hblind
          split at h
          next type types htypes =>
            obtain ⟨hunion, hcandidates⟩ := Field.candidates_of_union hrelation htypes
            obtain ⟨hcalls, hturn⟩ :=
              fillFromUnion_returns hb (List.cons_ne_nil type types) hunion hcandidates h
            exact ⟨hcalls, .inr ⟨hunset, query, hquery.trans hsome, hturn⟩⟩
          next hsingle =>
            obtain ⟨hunion, hcandidates⟩ := Field.candidates_of_not_union hrelation hsingle
            obtain ⟨hcalls, hturn⟩ := fillFromTarget_returns hb hunion hcandidates h
            exact ⟨hcalls, .inr ⟨hunset, query, hquery.trans hsome, hturn⟩⟩

/-- The fill writes under `key`. -/
def Fill.Sets (x : Fill) (key : String) : Prop :=
  x.key = key ∨ x.field.isUnion = true ∧ x.key ++ "$matchedType" = key

theorem Fill.sets_of_isSet_store {x : Fill} (h : isSet (x.store data) key) :
    isSet data key ∨ x.Sets key := by
  by_cases hsets : x.Sets key
  · exact .inr hsets
  · obtain ⟨hkey, htype⟩ := not_or.mp hsets
    have hget : (x.store data).get? key = data.get? key := by
      cases hunion : x.field.isUnion with
      | true =>
        rw [Fill.store_of_union hunion, Table.get?_insert, if_neg fun heq => htype ⟨hunion, heq⟩,
          Table.get?_insert, if_neg hkey]
      | false => rw [Fill.store_of_not_union hunion, Table.get?_insert, if_neg hkey]
    rw [isSet, hget] at h
    exact .inl h

theorem Fill.Founded.append {x : Fill} (h : x.Founded b t query log) (calls : List Call) :
    x.Founded b t query (log ++ calls) := { h with found := h.found.append calls }

theorem Barren.append (h : Barren b t query f log) (calls : List Call) :
    Barren b t query f (log ++ calls) := by
  intro type htype
  obtain ⟨ms, hfound, hcounted⟩ := h type htype
  exact ⟨ms, hfound.append calls, hcounted⟩

/-- **The run of the fields is a sequence of fills**, at most one for each field.  The induction is
on the fields; `data` is what the fields before them have left. -/
theorem backwardFields_returns {given : Record} {fields : List (String × Field)}
    (h : (backwardFields b t given data fields).Returns log data' log') :
    (∃ calls, log' = log ++ calls) ∧ ∃ fills : List Fill, data' = fills.foldl Fill.store data ∧
      (fills.map fun x => (x.key, x.field)).Sublist fields ∧
      (∀ x ∈ fills, ∃ query, backwardQuery? given x.key x.field = some query ∧
        x.Founded b t query log') ∧
      ∀ p ∈ fields, ∀ query, backwardQuery? given p.1 p.2 = some query → b.canSearch →
        isSet data p.1 ∨ (∃ x ∈ fills, x.Sets p.1) ∨ Barren b t query p.2 log' := by
  induction fields generalizing data log with
  | nil =>
    obtain ⟨rfl, rfl⟩ := Session.returns_pure_iff.mp h
    exact ⟨⟨[], (List.append_nil _).symm⟩, [], rfl, .slnil, List.forall_mem_nil _,
      List.forall_mem_nil _⟩
  | cons p fields ih =>
    obtain ⟨key, f⟩ := p
    obtain ⟨data₁, between, hfield, hfields⟩ := Session.returns_bind_iff.mp h
    obtain ⟨⟨calls, rfl⟩, hturn⟩ := backwardField_returns hfield
    obtain ⟨⟨calls', rfl⟩, fills, hfills, hsub, hfounded, hrest⟩ := ih hfields
    refine ⟨⟨calls ++ calls', List.append_assoc ..⟩, ?_⟩
    obtain ⟨rfl, hset⟩ | ⟨-, query, hquery, ⟨rfl, hbarren⟩ | ⟨x, rfl, rfl, hx, rfl⟩⟩ := hturn
    · refine ⟨fills, hfills, hsub.cons _, hfounded, List.forall_mem_cons.mpr ⟨?_, hrest⟩⟩
      exact fun query hquery hb => .inl (hset query hquery hb)
    · refine ⟨fills, hfills, hsub.cons _, hfounded, List.forall_mem_cons.mpr ⟨?_, hrest⟩⟩
      intro query' hquery' _
      obtain rfl := Option.some.inj (hquery.symm.trans hquery')
      exact .inr (.inr (hbarren.append calls'))
    · refine ⟨x :: fills, hfills, hsub.cons_cons _, List.forall_mem_cons.mpr ⟨?_, hfounded⟩,
        List.forall_mem_cons.mpr ⟨?_, fun p hp query hq hb => ?_⟩⟩
      · exact ⟨query, hquery, hx.append calls'⟩
      · exact fun _ _ _ => .inr (.inl ⟨x, List.mem_cons_self, .inl rfl⟩)
      · obtain hset | ⟨y, hy, hsets⟩ | hbarren := hrest p hp query hq hb
        · obtain hset | hsets := Fill.sets_of_isSet_store hset
          · exact .inl hset
          · exact .inr (.inl ⟨x, List.mem_cons_self, hsets⟩)
        · exact .inr (.inl ⟨y, List.mem_cons_of_mem x hy, hsets⟩)
        · exact .inr (.inr hbarren)

/-- **Arrays and unions link only matches that reach the threshold of the entity, and a union is
filled only if there is one.**  A single field with one candidate links the first match that the
store returned, and an array is set, to nothing if need be, as soon as anything was returned; both
keep to the threshold only if the store does (`Backend.Strict`).  A field with a query that is not
set, neither before nor by a fill, has no match that counts. -/
theorem backward_fills {e : Entity} {given : Record}
    (h : (backward b e given).Returns log data log') :
    ∃ fills : List Fill, data = fills.foldl Fill.store given ∧
      (fills.map fun x => (x.key, x.field)).Sublist e.fields.entries ∧
      (∀ x ∈ fills,
        (∃ query, backwardQuery? given x.key x.field = some query ∧
          x.Founded b (.float e.fuzzyThreshold) query log') ∧
        (x.field.modifiers.array = true ∨ x.field.isUnion = true ∨ b.Strict →
          ∀ m ∈ linked (.float e.fuzzyThreshold) x.field x.returned,
            m ∈ x.returned ∧ m.reaches (.float e.fuzzyThreshold)) ∧
        (x.field.isUnion = true ∨ b.Strict →
          ∃ m ∈ x.returned, m.reaches (.float e.fuzzyThreshold)) ∧
        (x.field.modifiers.array = false → x.field.isUnion = false →
          linked (.float e.fuzzyThreshold) x.field x.returned = x.returned.take 1)) ∧
      ∀ p ∈ e.fields.entries, ∀ query, backwardQuery? given p.1 p.2 = some query → b.canSearch →
        isSet given p.1 ∨ (∃ x ∈ fills, x.Sets p.1) ∨
          Barren b (.float e.fuzzyThreshold) query p.2 log' := by
  obtain ⟨-, fills, hfills, hsub, hfounded, hrest⟩ := backwardFields_returns h
  refine ⟨fills, hfills, hsub, fun x hx => ?_, hrest⟩
  obtain ⟨query, hquery, hx⟩ := hfounded x hx
  have hstrict : b.Strict → ∀ m ∈ x.returned, m.reaches (.float e.fuzzyThreshold) := by
    intro hb
    obtain ⟨find, before, after, hfind, -, hreturned⟩ := hx.found
    exact hb find before _ _ _ _ _ hfind hreturned
  refine ⟨⟨query, hquery, hx⟩, fun hkeeps m hm => ?_, fun hkeeps => ?_, fun harray hunion => ?_⟩
  · exact mem_linked hkeeps hstrict hm
  · obtain ⟨m, hm⟩ := List.exists_mem_of_ne_nil _ hx.counts
    exact ⟨m, mem_counted hkeeps hstrict hm⟩
  · rw [linked, if_neg (by simp [harray]), counted, if_neg (by simp [hunion])]

/-- A store that takes no notice of the least score. -/
def careless : Backend :=
  { search? := some fun _ type _ _ _ => .ok
      [.ofList [("$id", .text type), ("$score", .int (if type = "Team" then 1 else 0))]]
    create := fun _ _ r => .ok r
    update := fun _ _ _ _ => .ok ()
    generate := fun _ _ _ _ => .ok .null }

/-- A single field, an array and a union. -/
def post : Entity :=
  { name := "Post"
    fields := .ofList
      [("category", .parse "category" "What is it about? <~Category"),
        ("tags", .parse "tags" "How is it tagged? <~Tag[]"),
        ("owner", .parse "owner" "Who owns it? <~Person|Team")] }

theorem backward_fills_careless : ∃ data log',
    (backward careless post .empty).Returns [] data log' ∧
      data.get? "category" = some (.text "Category") ∧ data.get? "tags" = some (.list []) ∧
      data.get? "owner" = some (.text "Team") ∧
      ∃ fills : List Fill, data = fills.foldl Fill.store .empty ∧
        ∀ x ∈ fills, x.field.isUnion = true →
          ∃ m ∈ x.returned, m.reaches (.float post.fuzzyThreshold) := by
  have hrun : (backward careless post .empty []).1.toOption.any fun data =>
      decide (data.get? "category" = some (.text "Category") ∧
        data.get? "tags" = some (.list []) ∧ data.get? "owner" = some (.text "Team")) := by
    decide +kernel
  obtain ⟨data, log', hreturns, hdata⟩ := Session.exists_returns_of_any hrun
  obtain ⟨hcategory, htags, howner⟩ := of_decide_eq_true hdata
  obtain ⟨fills, hfills, -, hfounded, -⟩ := backward_fills hreturns
  exact ⟨data, log', hreturns, hcategory, htags, howner, fills, hfills,
    fun x hx hunion => (hfounded x hx).2.2.1 (.inl hunion)⟩

end Resolve

end EntitySchema
