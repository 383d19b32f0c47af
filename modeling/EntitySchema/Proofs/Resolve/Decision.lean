import EntitySchema.Proofs.Resolve.Forward
import EntitySchema.Proofs.Search.Rank

/-!
# Proofs/Resolve/Decision — whether a field reuses or generates

    single field    the best match, if any reaches the threshold               ▸  update
    hint            the first that reaches it, unless its id is linked already ▸  update
    neither                                                                    ▸  generate, create …

What is decided for a field is a list of choices, one for each of its queries (`Choice`).  A choice
is made from what the store returned to that query at that time, and of the choices before it only
the ids they linked count (`Decided`).  So a field links no id twice, updates nothing below its
threshold, and has one id for each hint (`forward_decides`).
-/

namespace EntitySchema.Resolve

open Session

/-! ## Matches that are ranked -/

/-- Matches stand best first, with texts as ids and numbers as scores. -/
structure BestFirst (ms : List Match) : Prop where
  /-- No match has a score that exceeds that of one before it. -/
  ranked : ms.Pairwise fun m m' => Match.ranksBefore m.score m'.score = true
  /-- Every match has a text as its id. -/
  identified : ∀ m ∈ ms, ∃ s, m.get? Match.idKey = some (.text s)
  /-- Every match has a number as its score. -/
  scored : ∀ m ∈ ms, m.IsScored

/-- The store can search, and returns matches best first. -/
structure Backend.Ranks (b : Backend) : Prop where
  /-- The store can search. -/
  canSearch : b.canSearch = true
  /-- What it returns stands best first. -/
  bestFirst : ∀ find log type query least limit ms, b.search? = some find →
    find log type query least limit = .ok ms → BestFirst ms

theorem Backend.Ranks.searchFor {b : Backend} (h : b.Ranks) {log log' : List Call}
    {type query : String} {least : Number} {limit : Int} {ms : List Match}
    (hsearch : (b.searchFor type query least limit).Returns log ms log') :
    BestFirst ms ∧ log' = log ++ [.search type query least limit] := by
  obtain ⟨hnone, -, -⟩ | ⟨find, hfind, hms, hlog⟩ := Backend.searchFor_cases hsearch
  · have hb := h.canSearch
    rw [Backend.canSearch, hnone] at hb
    exact absurd hb Bool.false_ne_true
  · exact ⟨h.bestFirst find log type query least limit ms hfind hms, hlog⟩

/-- A match reaches the threshold if one behind it does. -/
theorem reaches_of_ranksBefore {t : Number} {m m' : Match} (hm : m.IsScored)
    (h : Match.ranksBefore m.score m'.score = true) (hm' : m'.reaches t = true) :
    m.reaches t = true := by
  obtain ⟨n', hn', hle⟩ := (Option.any_eq_true ..).mp (Match.qualifies_of_reaches hm')
  obtain ⟨n, hn, hle'⟩ := (Match.ranksBefore_eq_true_iff hn').mp h
  obtain ⟨v, -, hv, -⟩ := hm
  refine Match.reaches_of_qualifies hv ?_
  rw [Match.qualifies, hn]
  exact Number.le_trans hle hle'

/-- **The best match decides**: if any match reaches the threshold, it does. -/
theorem BestFirst.filter_head? {t : Number} {ms : List Match} (h : BestFirst ms) :
    ms.head?.filter (Match.reaches t) = if ms.any (Match.reaches t) then ms.head? else none := by
  cases ms with
  | nil => rfl
  | cons m ms =>
    have hbest : (m :: ms).any (Match.reaches t) = m.reaches t := by
      refine Bool.eq_iff_iff.mpr ⟨fun hany => ?_, fun hm => ?_⟩
      case refine_2 => exact List.any_eq_true.mpr ⟨m, List.mem_cons_self, hm⟩
      obtain ⟨m', hm', hreaches⟩ := List.any_eq_true.mp hany
      obtain rfl | hm' := List.mem_cons.mp hm'
      · exact hreaches
      · exact reaches_of_ranksBefore (h.scored m List.mem_cons_self)
          ((List.pairwise_cons.mp h.ranked).1 m' hm') hreaches
    rw [hbest, List.head?_cons, Option.filter_some]

/-! ## One after another -/

section

variable {α : Type} {P : List α → α → Prop}

/-- `P` holds of every item and those before it. -/
def Successive (P : List α → α → Prop) (xs : List α) : Prop :=
  ∀ before x after, xs = before ++ x :: after → P before x

theorem successive_nil : Successive P [] := by
  intro before x after h
  exact absurd h (by simp)

theorem successive_cons {x : α} {xs : List α} (hx : P [] x)
    (hxs : Successive (fun before => P (x :: before)) xs) : Successive P (x :: xs) := by
  intro before y after h
  cases before with
  | nil =>
    obtain ⟨rfl, -⟩ := List.cons.inj h
    exact hx
  | cons x₀ before =>
    obtain ⟨rfl, hbehind⟩ := List.cons.inj h
    exact hxs before y after hbehind

theorem successive_singleton {x : α} (h : P [] x) : Successive P [x] :=
  successive_cons h successive_nil

theorem Successive.pairwise {R : α → α → Prop} {xs : List α} (h : Successive P xs)
    (hR : ∀ before x, P before x → ∀ y ∈ before, R y x) : xs.Pairwise R := by
  induction xs generalizing P with
  | nil => exact .nil
  | cons x xs ih =>
    refine List.pairwise_cons.mpr ⟨fun y hy => ?_, ?_⟩
    · obtain ⟨before, after, rfl⟩ := List.append_of_mem hy
      exact hR _ _ (h (x :: before) y after rfl) x List.mem_cons_self
    · refine ih (P := fun before => P (x :: before)) (fun before y after hxs => ?_) ?_
      · exact h (x :: before) y after (congrArg (x :: ·) hxs)
      · exact fun before y hP x₀ hx₀ => hR _ _ hP x₀ (List.mem_cons_of_mem x hx₀)

end

theorem filterMap_cons_toList {α β : Type} (g : α → Option β) (x : α) (xs : List α) :
    (x :: xs).filterMap g = (g x).toList ++ xs.filterMap g := by
  rw [List.filterMap_cons]
  cases g x <;> rfl

/-! ## Choices -/

/-- Whether a call creates an entity. -/
def Call.isCreate : Call → Bool
  | .create .. => true
  | _ => false

/-- What is decided for one query. -/
structure Choice where
  /-- What was searched for. -/
  query : String
  /-- The matches that were returned. -/
  returned : List Match
  /-- The match that is linked; if there is none, an entity is generated. -/
  linked? : Option Match
  /-- The id that the field gets. -/
  id? : Option Value
  /-- The calls that carry out what is decided. -/
  carried : List Call

namespace Choice

/-- The id of the match that is linked. -/
def linkedId? (c : Choice) : Option Value := c.linked?.bind (·.get? Match.idKey)

/-- The calls for a query: the search, and what comes of it. -/
def calls (type : String) (t : Number) (limit : Int) (c : Choice) : List Call :=
  .search type c.query t limit :: c.carried

/-- A match is linked by one update of its entity, with its score.  If none is linked, a payload is
generated once, and after that entities are created, and one for the field only if its type is in
the schema. -/
inductive Carries (st : Setting) (type : String) : Choice → Prop
  | linked {query : String} {ms : List Match} {m : Match} {id score : Value}
      (gives : m.Gives (id, score)) :
      Carries st type ⟨query, ms, some m, some id, [.reuse type id score]⟩
  | generated {query : String} {ms : List Match} {id? : Option Value} {made : List Call}
      (known : id?.isSome = st.schema.hasEntity type) (creates : ∀ c ∈ made, c.isCreate = true) :
      Carries st type ⟨query, ms, none, id?, .generate type query st.context :: made⟩

/-- The choice is made from what the store returns after the calls in `log`. -/
def Asked (st : Setting) (type : String) (t : Number) (limit : Int) (log : List Call)
    (c : Choice) : Prop :=
  (st.backend.searchFor type c.query t limit).Returns log c.returned
    (log ++ [.search type c.query t limit])

end Choice

namespace Setting

/-- How many matches a field asks for. -/
def forwardLimit (f : Field) : Int := if f.modifiers.array then 10 else 5

/-- How an unset field is filled: by choices for its queries, made one after another. -/
structure Decided (st : Setting) (key : String) (f : Field) (rel : Relation) (t : Number)
    (log calls : List Call) (value? : Option Value) (cs : List Choice) : Prop where
  /-- The calls for the field are those of the choices. -/
  calls_eq : calls = cs.flatMap (Choice.calls rel.relatedType t (forwardLimit f))
  /-- Every choice is made from what the store returns at its time. -/
  asked : Successive (fun before => Choice.Asked st rel.relatedType t (forwardLimit f)
    (log ++ before.flatMap (Choice.calls rel.relatedType t (forwardLimit f)))) cs
  /-- Every choice is carried out. -/
  carries : ∀ c ∈ cs, c.Carries st rel.relatedType
  /-- A match that is linked was returned, and reaches the threshold. -/
  reaches : ∀ c ∈ cs, ∀ m ∈ c.linked?, m ∈ c.returned ∧ m.reaches t = true
  /-- A single field has one choice.  The best match is linked if any reaches the threshold. -/
  single : f.modifiers.array = false → ∃ c, cs = [c] ∧ c.query = st.singleQuery key rel ∧
    c.linked? = (if c.returned.any (Match.reaches t) then c.returned.head? else none) ∧
    ∀ id ∈ c.id?, value? = some id
  /-- An array has one choice for each hint.  The first match is linked that reaches the threshold
  and whose id is not that of a match linked by a choice before; the ids are kept in order. -/
  array : f.modifiers.array = true →
    cs.map (·.query) =
      (hintsOf (st.context.parentData.get? (key ++ "Hint"))).map (hintQuery key) ∧
    Successive (fun before c => c.linked? = c.returned.find? fun m =>
      m.reaches t && !m.isAmong (before.filterMap Choice.linkedId?)) cs ∧
    value? = some (.list (cs.filterMap (·.id?)))

variable {st : Setting} {key field type query : String} {f : Field} {rel : Relation} {t : Number}
  {log log' between : List Call} {r r' : Forward}

/-- What is resolved inside a payload is created, and nothing else is done. -/
def NestsCreating (st : Setting) : Prop :=
  ∀ e payload, (st.resolveNested e payload).StaysWithin fun c => c.isCreate = true

theorem nestsCreating_of (b : Backend) (schema : Schema) (context : Context) :
    (Setting.of b schema context).NestsCreating := fun e payload =>
  staysWithin_createPending (fun _ _ => rfl) _ e payload

/-! ## Hints -/

/-- **A generation carries out that nothing is linked.** -/
theorem Generates.carries {p? : Option Pending} (hcreating : st.NestsCreating)
    (h : st.Generates field type query log p? log') (ms : List Match) :
    ∃ calls, log' = log ++ calls ∧
      Choice.Carries st type ⟨query, ms, none, p?.map (·.id), calls⟩ := by
  cases h with
  | refused unknown =>
    refine ⟨_, rfl, .generated ?_ (List.forall_mem_nil _)⟩
    rw [Schema.hasEntity, Table.contains]
    exact (congrArg Option.isSome unknown).symm
  | @created e generated payload made id _ known generates nested creates identified =>
    obtain ⟨inside, rfl, hinside⟩ := (hcreating e generated).makesOnly nested
    refine ⟨.generate type query st.context ::
      (inside ++ [.create type (st.marked field payload)]), by simp, .generated ?_ ?_⟩
    · rw [Schema.hasEntity, Table.contains]
      exact (congrArg Option.isSome known).symm
    · exact List.forall_mem_append.mpr ⟨hinside, List.forall_mem_singleton.mpr rfl⟩

theorem Generates.ids_addGenerated {p? : Option Pending} (hids : st.backend.Identifies)
    (h : st.Generates field type query log p? log') (l : Links) :
    (l.addGenerated p?).ids = l.ids ++ (p?.map (·.id)).toList ∧
      (l.addGenerated p?).used = l.used := by
  obtain ⟨rfl, -⟩ | ⟨id, rfl, hnull, -⟩ := h.cases_pending hids
  · exact ⟨(List.append_nil _).symm, rfl⟩
  · exact ⟨if_neg hnull, rfl⟩

/-- **A hint comes to a choice.** -/
theorem HintStep.choice (hranks : st.backend.Ranks) (hids : st.backend.Identifies)
    (hcreating : st.NestsCreating) {l l' : Links} {hint : Value}
    (h : st.HintStep key field type t l hint log l' log') :
    ∃ c : Choice, log' = log ++ c.calls type t 10 ∧ c.query = hintQuery key hint ∧
      c.Asked st type t 10 log ∧ c.Carries st type ∧
      c.linked? = c.returned.find? (fun m => m.reaches t && !m.isAmong l.used) ∧
      l'.ids = l.ids ++ c.id?.toList ∧ l'.used = l.used ++ c.linkedId?.toList := by
  cases h with
  | @reused ms between id score searched chosen =>
    obtain ⟨-, rfl⟩ := hranks.searchFor searched
    obtain ⟨m, hm, hgives⟩ := exists_of_rel_some (chosen_of_firstUnused chosen)
    refine ⟨⟨hintQuery key hint, ms, some m, some id, [.reuse type id score]⟩, ?_, rfl, searched,
      .linked hgives, hm.symm, rfl, ?_⟩
    · rw [List.append_assoc]
      rfl
    · rw [Choice.linkedId?, Option.bind_some, hgives.1]
      rfl
  | @generated ms between _ p? searched chosen generates =>
    obtain ⟨-, rfl⟩ := hranks.searchFor searched
    obtain ⟨calls, rfl, hcarries⟩ := generates.carries hcreating ms
    obtain ⟨hadded, hused⟩ := generates.ids_addGenerated hids l
    have hnone := eq_none_of_rel_none (chosen_of_firstUnused chosen)
    refine ⟨⟨hintQuery key hint, ms, none, p?.map (·.id), calls⟩, ?_, rfl, searched, hcarries,
      hnone.symm, hadded, ?_⟩
    · rw [List.append_assoc]
      rfl
    · rw [hused]
      exact (List.append_nil _).symm

/-- **The hints of a field come to a choice each.**  The induction is on the hints; `l` is what the
hints before them have linked. -/
theorem linkHints_choices (hranks : st.backend.Ranks) (hids : st.backend.Identifies)
    (hcreating : st.NestsCreating) {hints : List Value} {l l' : Links}
    (h : (st.linkHints key field type t l hints).Returns log l' log') :
    ∃ cs : List Choice, log' = log ++ cs.flatMap (Choice.calls type t 10) ∧
      cs.map (·.query) = hints.map (hintQuery key) ∧
      Successive (fun before c =>
        c.Asked st type t 10 (log ++ before.flatMap (Choice.calls type t 10)) ∧
          c.linked? = c.returned.find? fun m => m.reaches t &&
            !m.isAmong (l.used ++ before.filterMap Choice.linkedId?)) cs ∧
      (∀ c ∈ cs, c.Carries st type) ∧ l'.ids = l.ids ++ cs.filterMap (·.id?) := by
  induction hints generalizing l log with
  | nil =>
    obtain ⟨rfl, rfl⟩ := returns_pure_iff.mp h
    exact ⟨[], (List.append_nil _).symm, rfl, successive_nil, List.forall_mem_nil _,
      (List.append_nil _).symm⟩
  | cons hint hints ih =>
    obtain ⟨l₁, between, hhint, hhints⟩ := returns_bind_iff.mp h
    obtain ⟨c, rfl, hquery, hasked, hcarries, hlinked, hids₁, hused⟩ :=
      (hintStep_of_returns hhint).choice hranks hids hcreating
    obtain ⟨cs, rfl, hqueries, hcs, hcarried, hids'⟩ := ih hhints
    refine ⟨c :: cs, ?_, ?_, successive_cons ⟨?_, ?_⟩ ?_,
      List.forall_mem_cons.mpr ⟨hcarries, hcarried⟩, ?_⟩
    · rw [List.flatMap_cons, List.append_assoc]
    · rw [List.map_cons, List.map_cons, hquery, hqueries]
    · rwa [List.flatMap_nil, List.append_nil]
    · rwa [List.filterMap_nil, List.append_nil]
    · rw [hused] at hcs
      intro before c' after hsplit
      rw [List.flatMap_cons, filterMap_cons_toList, ← List.append_assoc, ← List.append_assoc]
      exact hcs before c' after hsplit
    · rw [hids', hids₁, List.append_assoc, filterMap_cons_toList]

/-! ## Fields -/

/-- A single field is filled by one choice. -/
theorem Decided.of_single (hranks : st.backend.Ranks) (hsingle : f.modifiers.array = false)
    {ms : List Match} {linked? : Option Match} {id? value? : Option Value} {carried : List Call}
    (hsearched : (st.backend.searchFor rel.relatedType (st.singleQuery key rel) t 5).Returns log ms
      between) (hlinked : ms.head?.filter (Match.reaches t) = linked?)
    (hcarries : Choice.Carries st rel.relatedType
      ⟨st.singleQuery key rel, ms, linked?, id?, carried⟩)
    (hvalue : ∀ id ∈ id?, value? = some id) :
    st.Decided key f rel t log (.search rel.relatedType (st.singleQuery key rel) t 5 :: carried)
      value? [⟨st.singleQuery key rel, ms, linked?, id?, carried⟩] := by
  have hlimit : forwardLimit f = 5 := if_neg (by simp [hsingle])
  obtain ⟨hms, rfl⟩ := hranks.searchFor hsearched
  constructor
  case calls_eq => rw [hlimit, List.flatMap_singleton, Choice.calls]
  case asked =>
    refine successive_singleton ?_
    rw [hlimit, List.flatMap_nil, List.append_nil]
    exact hsearched
  case carries => exact List.forall_mem_singleton.mpr hcarries
  case reaches =>
    refine List.forall_mem_singleton.mpr fun m hm => ?_
    obtain ⟨hhead, hreaches⟩ := Option.filter_eq_some_iff.mp (hlinked.trans hm)
    exact ⟨List.mem_of_head? hhead, hreaches⟩
  case single => exact fun _ => ⟨_, rfl, rfl, hlinked.symm.trans hms.filter_head?, hvalue⟩
  case array => exact fun harray => absurd harray (by simp [hsingle])

/-- **An unset field is filled by choices.** -/
theorem Fills.decided (hranks : st.backend.Ranks) (hids : st.backend.Identifies)
    (hcreating : st.NestsCreating) (h : st.Fills key f rel t r log r' log') :
    ∃ calls cs, log' = log ++ calls ∧
      st.Decided key f rel t log calls (r'.data.get? key) cs := by
  cases h with
  | @listed l _ array links =>
    have hlimit : forwardLimit f = 10 := if_pos array
    obtain ⟨cs, rfl, hqueries, hcs, hcarried, hids'⟩ :=
      linkHints_choices hranks hids hcreating links
    refine ⟨_, cs, rfl, ?_⟩
    constructor
    case calls_eq => rw [hlimit]
    case asked =>
      rw [hlimit]
      exact fun before c after hsplit => (hcs before c after hsplit).1
    case carries => exact hcarried
    case reaches =>
      intro c hc m hm
      obtain ⟨before, after, hsplit⟩ := List.append_of_mem hc
      have hfind := (hcs before c after hsplit).2.symm.trans hm
      have hm' := List.find?_some hfind
      exact ⟨List.mem_of_find?_eq_some hfind, ((Bool.and_eq_true ..).mp hm').1⟩
    case single => exact fun hsingle => absurd array (by simp [hsingle])
    case array =>
      refine fun _ => ⟨hqueries, fun before c after hsplit => (hcs before c after hsplit).2, ?_⟩
      rw [Table.get?_insert_self, hids']
      rfl
  | @reused ms _ id score single searched chosen =>
    obtain ⟨-, rfl⟩ := hranks.searchFor searched
    obtain ⟨m, hm, hgives⟩ := exists_of_rel_some (chosen_of_best chosen)
    refine ⟨_, _, List.append_assoc .., .of_single hranks single searched hm (.linked hgives) ?_⟩
    rintro _ ⟨⟩
    exact get?_insert_marks ..
  | @generated ms _ _ p? single searched chosen generates =>
    obtain ⟨-, rfl⟩ := hranks.searchFor searched
    obtain ⟨calls, rfl, hcarries⟩ := generates.carries hcreating ms
    refine ⟨_, _, List.append_assoc .., .of_single hranks single searched
      (eq_none_of_rel_none (chosen_of_best chosen)) hcarries ?_⟩
    obtain ⟨rfl, -⟩ | ⟨id, rfl, hnull, -⟩ := generates.cases_pending hids
    · exact nofun
    · rintro _ ⟨⟩
      rw [Forward.addGenerated, if_neg hnull, Table.get?_insert_self]

/-! ## What follows for a field -/

/-- What choices guarantee. -/
structure Sound (st : Setting) (key : String) (f : Field) (rel : Relation) (t : Number)
    (calls : List Call) (value? : Option Value) (cs : List Choice) : Prop where
  /-- Only matches that reach the threshold are updated. -/
  updates : ∀ type id patch, .update type id patch ∈ calls → type = rel.relatedType ∧
    ∃ c ∈ cs, ∃ m ∈ c.returned, m.get? Match.idKey = some id ∧ m.reaches t = true
  /-- No id is linked twice. -/
  nodup : (cs.filterMap Choice.linkedId?).Nodup
  /-- An array of a type in the schema has one id for each hint. -/
  one_each : f.modifiers.array = true → st.schema.hasEntity rel.relatedType = true →
    ∃ ids, value? = some (.list ids) ∧
      ids.length = (hintsOf (st.context.parentData.get? (key ++ "Hint"))).length

section

variable {calls : List Call} {value? : Option Value} {cs : List Choice}

theorem Decided.updates (h : st.Decided key f rel t log calls value? cs) {type : String}
    {id : Value} {patch : Record} (hupdate : .update type id patch ∈ calls) :
    type = rel.relatedType ∧ ∃ c ∈ cs, ∃ m ∈ c.returned,
      m.get? Match.idKey = some id ∧ m.reaches t = true := by
  rw [h.calls_eq] at hupdate
  obtain ⟨c, hc, hupdate⟩ := List.mem_flatMap.mp hupdate
  obtain hsearch | hupdate := List.mem_cons.mp hupdate
  · exact nomatch hsearch
  have hcarries := h.carries c hc
  have hreaches := h.reaches c hc
  cases hcarries with
  | linked gives =>
    obtain ⟨rfl, rfl, -⟩ := Call.update.inj (List.mem_singleton.mp hupdate)
    obtain ⟨hm, hreached⟩ := hreaches _ rfl
    exact ⟨rfl, _, hc, _, hm, gives.1, hreached⟩
  | generated known creates =>
    obtain hgenerate | hmade := List.mem_cons.mp hupdate
    · exact nomatch hgenerate
    · exact nomatch creates _ hmade

/-- A match that is linked has an id that is not linked by a choice before. -/
theorem not_mem_linkedIds {c : Choice} {used : List Value} {id : Value}
    (hbest : BestFirst c.returned)
    (hlinked : c.linked? = c.returned.find? fun m => m.reaches t && !m.isAmong used)
    (hid : c.linkedId? = some id) : id ∉ used := by
  obtain ⟨m, hm, hget⟩ := Option.bind_eq_some_iff.mp hid
  have hfind := hlinked.symm.trans hm
  have hunused := List.find?_some hfind
  obtain ⟨s, htext⟩ := hbest.identified m (List.mem_of_find?_eq_some hfind)
  obtain rfl := Option.some.inj (hget.symm.trans htext)
  rw [Match.isAmong, htext, Option.any_some, Bool.and_eq_true, Bool.not_eq_true',
    List.any_eq_false] at hunused
  exact fun hmem => hunused.2 _ hmem (by simp [Value.same])

theorem Decided.nodup_linkedIds (hranks : st.backend.Ranks)
    (h : st.Decided key f rel t log calls value? cs) :
    (cs.filterMap Choice.linkedId?).Nodup := by
  cases harray : f.modifiers.array with
  | false =>
    obtain ⟨c, rfl, -⟩ := h.single harray
    rw [List.filterMap_cons]
    cases c.linkedId? with
    | none => exact .nil
    | some id => exact List.nodup_singleton id
  | true =>
    obtain ⟨-, hlinked, -⟩ := h.array harray
    have hchoices : Successive (fun before c => BestFirst c.returned ∧
        c.linked? = c.returned.find? fun m =>
          m.reaches t && !m.isAmong (before.filterMap Choice.linkedId?)) cs :=
      fun before c after hsplit => ⟨(hranks.searchFor (h.asked before c after hsplit)).1,
        hlinked before c after hsplit⟩
    refine List.pairwise_filterMap.mpr (hchoices.pairwise ?_)
    rintro before c ⟨hbest, hc⟩ c' hc' id hid id' hid' rfl
    exact not_mem_linkedIds hbest hc hid' (List.mem_filterMap.mpr ⟨c', hc', hid⟩)

theorem Decided.length_ids (harray : f.modifiers.array = true)
    (hknown : st.schema.hasEntity rel.relatedType = true)
    (h : st.Decided key f rel t log calls value? cs) :
    ∃ ids, value? = some (.list ids) ∧
      ids.length = (hintsOf (st.context.parentData.get? (key ++ "Hint"))).length := by
  obtain ⟨hqueries, -, hvalue⟩ := h.array harray
  refine ⟨_, hvalue, ?_⟩
  have hsome : ∀ c ∈ cs, c.id?.isSome = true := by
    intro c hc
    cases h.carries c hc with
    | linked => rfl
    | generated known => rw [known, hknown]
  rw [List.filterMap_length_eq_length.mpr hsome, ← List.length_map (f := hintQuery key), ← hqueries,
    List.length_map]

/-- **Choices are sound.** -/
theorem Decided.sound (hranks : st.backend.Ranks) (h : st.Decided key f rel t log calls value? cs) :
    st.Sound key f rel t calls value? cs :=
  ⟨fun _ _ _ => h.updates, h.nodup_linkedIds hranks,
    fun harray hknown => h.length_ids harray hknown⟩

end

/-! ## The whole run -/

/-- What a run decides for a field, whose turn comes after the calls in `log`. -/
structure Decides (st : Setting) (default : Number) (p : String × Field) (log calls : List Call)
    (value? : Option Value) : Prop where
  /-- A field that is not forward fuzzy makes no calls, nor does one that is set. -/
  idle : (p.2.operator? = some .forwardFuzzy → isSet st.context.parentData p.1 = true) → calls = []
  /-- A forward fuzzy field that is unset is filled by choices at its threshold. -/
  filled : p.2.operator? = some .forwardFuzzy → isSet st.context.parentData p.1 = false →
    ∃ rel cs, p.2.relation? = some rel ∧
      st.Decided p.1 p.2 rel (leastScore default p.2) log calls value? cs ∧
      st.Sound p.1 p.2 rel (leastScore default p.2) calls value? cs

/-- A turn decides for its field, if it finds the field as it was given. -/
theorem FieldStep.decides (hranks : st.backend.Ranks) (hids : st.backend.Identifies)
    (hcreating : st.NestsCreating) {default : Number} {calls : List Call}
    (h : st.FieldStep default key f r log r' log') (hlog : log' = log ++ calls)
    (hgiven : isSet r.data key = isSet st.context.parentData key) :
    st.Decides default (key, f) log calls (r'.data.get? key) := by
  cases h with
  | idle other =>
    exact ⟨fun _ => List.self_eq_append_right.mp hlog, fun hfuzzy => absurd hfuzzy other⟩
  | kept _ _ set =>
    refine ⟨fun _ => List.self_eq_append_right.mp hlog, fun _ hunset => ?_⟩
    rw [← hgiven, set] at hunset
    exact Bool.noConfusion hunset
  | filled relation fuzzy unset fills =>
    obtain ⟨calls', cs, hlog', hdecided⟩ := fills.decided hranks hids hcreating
    obtain rfl := List.append_cancel_left (hlog.symm.trans hlog')
    refine ⟨fun hset => ?_, fun _ _ => ⟨_, cs, relation, hdecided, hdecided.sound hranks⟩⟩
    rw [hgiven, hset fuzzy] at unset
    exact Bool.noConfusion unset

end Setting

/-- **The decision between reuse and generation.**  The store ranks what it returns, and no field is
called like the marks `g$matched` and `g$score` of another.  The calls of a run that returns are
those for its fields.  A field that is not forward fuzzy, or that is set, makes none.  One that is
unset is filled by choices at its threshold: a single field links the best match, each hint of an
array the first whose id is not linked yet, and an entity is generated where there is none.  So only
matches that reach the threshold are updated, a field links no id twice, and an array of a type in
the schema ends up with one id for each hint. -/
theorem forward_decides {b : Backend} (hranks : b.Ranks) (hids : b.Identifies) {schema : Schema}
    {context : Context} {e : Entity}
    (hmarks : ∀ g ∈ e.fields.keys, g ++ "$matched" ∉ e.fields.keys ∧ g ++ "$score" ∉ e.fields.keys)
    {r : Forward} {log log' : List Call}
    (h : (forward (.of b schema context) e).Returns log r log') :
    let st := Setting.of b schema context
    Divides (st.forwardStages e log) (forward st e) e.fields.entries log ∧
      Successive (fun before g => st.Decides (.float e.fuzzyThreshold) g.item
        (log ++ before.flatMap (·.calls)) g.calls (r.data.get? g.item.1))
      (st.forwardStages e log) := by
  intro st
  have hdivides := divides_forward b schema context e log
  refine ⟨hdivides, fun before g after hsplit => ?_⟩
  have hitems := hdivides.complete r log' h
  rw [hsplit, List.map_append, List.map_cons] at hitems
  rw [forward, Setting.forwardFields_eq_foldlM] at h
  obtain ⟨r₁, r₂, between, rfl, hbefore, hturn, hafter⟩ :=
    stage_returns (ensures_forwardField_true b schema context _) h hsplit
  obtain ⟨hothers, hothers'⟩ := List.forall_mem_append.mp (not_writes_of_split hmarks hitems)
  have hfinal : r.data.get? g.item.1 = r₂.data.get? g.item.1 :=
    Setting.get?_of_not_writes hothers' hafter
  have hgiven : isSet r₁.data g.item.1 = isSet context.parentData g.item.1 :=
    isSet_congr (Setting.get?_of_not_writes hothers hbefore)
  dsimp only
  rw [hfinal]
  exact (Setting.fieldStep_of_returns hturn).decides hranks hids
    (Setting.nestsCreating_of b schema context) rfl hgiven

theorem library_ranks : library.Ranks where
  canSearch := rfl
  bestFirst := by
    rintro find log type query least limit ms ⟨⟩ ⟨⟩
    split
    · refine ⟨List.pairwise_singleton .., List.forall_mem_singleton.mpr ⟨"tag", ?_⟩,
        List.forall_mem_singleton.mpr ⟨.int 1, .int 1, ?_, rfl⟩⟩
      · decide +kernel
      · decide +kernel
    · exact ⟨.nil, List.forall_mem_nil _, List.forall_mem_nil _⟩

theorem forward_decides_atlas : ∃ (r : Forward) (log' : List Call),
    (forward (.of library geography given) atlas).Returns [] r log' ∧
      ∃ g gs, (Setting.of library geography given).forwardStages atlas [] = g :: gs ∧
        g.item = ("tags", .parse "tags" "~>Tag[]") ∧
        ∃ rel cs ids, (Setting.of library geography given).Decided g.item.1 g.item.2 rel
            (leastScore (.float atlas.fuzzyThreshold) g.item.2) [] g.calls (r.data.get? "tags") cs ∧
          (cs.filterMap Choice.linkedId?).Nodup ∧ r.data.get? "tags" = some (.list ids) ∧
          ids.length = 2 := by
  have hrun : (forward (.of library geography given) atlas []).1.toOption.any fun _ => true := by
    decide +kernel
  obtain ⟨r, log', hreturns, -⟩ := exists_returns_of_any hrun
  obtain ⟨hdivides, hdecides⟩ := forward_decides library_ranks library_identifies
    (by decide +kernel) hreturns
  have hitems := hdivides.complete r log' hreturns
  obtain ⟨g, gs, hstages, hitem, -⟩ := List.map_eq_cons_iff.mp (hitems.trans (by rfl))
  obtain ⟨rel, cs, hrel, hdecided, hsound⟩ := (hdecides [] g gs hstages).filled
    (by rw [hitem]; decide +kernel) (by rw [hitem]; decide +kernel)
  have htype : g.item.2.relation?.map (·.relatedType) = some "Tag" := by
    rw [hitem]
    decide +kernel
  have hknown : geography.hasEntity rel.relatedType = true := by
    rw [hrel, Option.map_some, Option.some.injEq] at htype
    rw [htype]
    decide +kernel
  obtain ⟨ids, hids, hlength⟩ := hsound.one_each (by rw [hitem]; decide +kernel) hknown
  have hkey : g.item.1 = "tags" := by rw [hitem]
  rw [hkey] at hids hlength hdecided
  refine ⟨r, log', hreturns, g, gs, hstages, hitem, rel, cs, ids, ?_, hsound.nodup, hids,
    hlength.trans (by decide +kernel)⟩
  rw [hkey]
  exact hdecided

end EntitySchema.Resolve
