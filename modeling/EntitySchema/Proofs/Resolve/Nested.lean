import EntitySchema.Grammar.Definition
import EntitySchema.Proofs.Resolve.Pending
import EntitySchema.Proofs.Resolve.Step
import Mathlib.Data.List.Nodup

/-!
# Proofs/Resolve/Nested — what a payload carries is created, innermost first

    fields     x                    y                …
    created    inside x,  then x    inside y,  then y
    data       x = id               y = id

The fields of a payload are taken one after another (`Supplies.append`), and for one field all that
lies inside the entity it carries is created before that entity (`Supplies.of_some`).  When all
fields are taken, the payload is fulfilled (`Fulfils`): by induction on the depth this holds of
every run that returns (`createPending_returns`).
-/

namespace EntitySchema.Resolve

variable {b : Backend} {s : Schema} {root : Carried} {made made' : List Creation}

/-! ## Paths -/

/-- What begins with a path begins with its first field. -/
theorem head?_of_beginning {path path' : List String} {field : String} (hbegin : path <+: path')
    (h : path.head? = some field) : path'.head? = some field := by
  obtain ⟨rest, rfl⟩ := hbegin
  rw [List.head?_append, h]
  rfl

/-- A payload is complete whatever else is created elsewhere. -/
theorem Completes.congr {path : List String} {c : Carried} {data : Record}
    (h : Completes made path c data)
    (hsame : ∀ m : Creation, ∀ field, m.path = path ++ [field] → (m ∈ made' ↔ m ∈ made)) :
    Completes made' path c data where
  settled := h.settled
  linked m hm field hpath := h.linked m ((hsame m field hpath).mp hm) field hpath
  kept key hkey hnone :=
    h.kept key hkey fun m hm hpath => hnone m ((hsame m key hpath).mpr hm) hpath

/-- A payload inside another one is complete as it is on its own. -/
theorem Completes.inside {path : List String} {c : Carried} {data : Record}
    (h : Completes made path c data) (field : String) :
    Completes (made.map (.inside field)) (field :: path) c data where
  settled := h.settled
  linked m hm key hpath := by
    obtain ⟨inner, hinner, rfl⟩ := List.mem_map.mp hm
    exact h.linked inner hinner key (List.cons.inj hpath).2
  kept key hkey hnone := h.kept key hkey fun m hm hpath =>
    hnone _ (List.mem_map_of_mem hm) (congrArg (field :: ·) hpath)

/-! ## Fields one after another -/

/-- What is created for some fields of a payload, and what becomes of the record. -/
structure Supplies (s : Schema) (root : Carried) (fields : List String) (before : Record)
    (made : List Creation) (data : Record) : Prop where
  /-- Nothing is created twice. -/
  once : (made.map (·.path)).Nodup
  /-- Every known entity under the fields is created, and nothing else is. -/
  all : ∀ path c, (∃ m ∈ made, m.path = path ∧ m.carried = c) ↔
    (∃ field ∈ fields, path.head? = some field) ∧ within? s root path = some c
  /-- What is created later lies not within what was created before. -/
  inner_first : made.Pairwise fun m later => ¬ m.path <+: later.path
  /-- The payloads of what is created are complete. -/
  parts : ∀ m ∈ made, Completes made m.path m.carried m.data
  /-- The fields are pending no more. -/
  settled : ∀ field ∈ fields, data.get? (pendingLead ++ field) = none
  /-- The fields link to what is created for them. -/
  linked : ∀ m ∈ made, ∀ field, m.path = [field] →
    data.get? field = some (linkTo root.entity field m.id)
  /-- All else is as before. -/
  kept : ∀ key, (∀ field ∈ fields, key ≠ pendingLead ++ field) → (∀ m ∈ made, m.path ≠ [key]) →
    data.get? key = before.get? key

namespace Supplies

variable {fields others : List String} {before mid data : Record}

theorem nil (s : Schema) (root : Carried) (before : Record) :
    Supplies s root [] before [] before where
  once := .nil
  all path c := by simp
  inner_first := .nil
  parts := List.forall_mem_nil _
  settled := List.forall_mem_nil _
  linked := List.forall_mem_nil _
  kept _ _ _ := rfl

/-- What is created lies under one of the fields. -/
theorem head_mem (h : Supplies s root fields before made data) {m : Creation} (hm : m ∈ made) :
    ∃ field ∈ fields, m.path.head? = some field :=
  ((h.all m.path m.carried).mp ⟨m, hm, rfl, rfl⟩).1

/-- What is created lies under no pending key. -/
theorem path_ne (h : Supplies s root fields before made data)
    (hplain : ∀ field ∈ fields, pendingField? field = none) {m : Creation} (hm : m ∈ made)
    (field : String) : m.path ≠ [pendingLead ++ field] := by
  intro hpath
  obtain ⟨field', hfield', hhead⟩ := h.head_mem hm
  rw [hpath] at hhead
  exact ne_of_pendingField?_eq_none (hplain field' hfield') (Option.some.inj hhead).symm

/-- What is created for other fields lies elsewhere. -/
theorem apart (h : Supplies s root fields before made mid)
    (h' : Supplies s root others mid made' data) (hdisjoint : ∀ field ∈ fields, field ∉ others)
    {m m' : Creation} (hm : m ∈ made) (hm' : m' ∈ made') : m.path.head? ≠ m'.path.head? := by
  intro heads
  obtain ⟨field, hfield, hhead⟩ := h.head_mem hm
  obtain ⟨field', hfield', hhead'⟩ := h'.head_mem hm'
  obtain rfl := Option.some.inj (hhead.symm.trans (heads.trans hhead'))
  exact hdisjoint field hfield hfield'

/-- **More fields.** -/
theorem append (h : Supplies s root fields before made mid)
    (h' : Supplies s root others mid made' data) (hdisjoint : ∀ field ∈ fields, field ∉ others)
    (hplain : ∀ field ∈ fields, pendingField? field = none)
    (hothers : ∀ field ∈ others, pendingField? field = none) :
    Supplies s root (fields ++ others) before (made ++ made') data := by
  have hapart : ∀ m ∈ made, ∀ m' ∈ made', m.path.head? ≠ m'.path.head? :=
    fun _ hm _ hm' => h.apart h' hdisjoint hm hm'
  refine ⟨?once, fun path c => ?all, ?inner_first, fun m hm => ?parts, fun field hfield => ?settled,
    fun m hm field hpath => ?linked, fun key hkey hnone => ?kept⟩
  case once =>
    rw [List.map_append, List.nodup_append]
    refine ⟨h.once, h'.once, ?_⟩
    rintro path hpath path' hpath' rfl
    obtain ⟨m, hm, rfl⟩ := List.mem_map.mp hpath
    obtain ⟨m', hm', heq⟩ := List.mem_map.mp hpath'
    exact hapart m hm m' hm' (congrArg List.head? heq.symm)
  case all => simp only [List.mem_append, or_and_right, exists_or, h.all, h'.all]
  case inner_first =>
    refine List.pairwise_append.mpr ⟨h.inner_first, h'.inner_first, fun m hm m' hm' hbegin => ?_⟩
    obtain ⟨field, -, hhead⟩ := h.head_mem hm
    exact hapart m hm m' hm' (hhead.trans (head?_of_beginning hbegin hhead).symm)
  case parts =>
    obtain hm | hm := List.mem_append.mp hm
    · obtain ⟨field, -, hhead⟩ := h.head_mem hm
      refine (h.parts m hm).congr fun inner key hpath =>
        List.mem_append.trans (or_iff_left fun hinner => ?_)
      exact hapart m hm inner hinner
        (hhead.trans (head?_of_beginning ⟨[key], hpath.symm⟩ hhead).symm)
    · obtain ⟨field, -, hhead⟩ := h'.head_mem hm
      refine (h'.parts m hm).congr fun inner key hpath =>
        List.mem_append.trans (or_iff_right fun hinner => ?_)
      exact hapart inner hinner m hm
        ((head?_of_beginning ⟨[key], hpath.symm⟩ hhead).trans hhead.symm)
  case settled =>
    obtain hfield | hfield := List.mem_append.mp hfield
    · rw [h'.kept _ ?_ ?_, h.settled field hfield]
      · intro field' hfield' heq
        obtain rfl := (String.append_right_inj _).mp heq
        exact hdisjoint field hfield hfield'
      · exact fun m hm => h'.path_ne hothers hm field
    · exact h'.settled field hfield
  case linked =>
    obtain hm | hm := List.mem_append.mp hm
    · obtain ⟨field', hfield, hhead⟩ := h.head_mem hm
      obtain rfl : field = field' := by simpa [hpath] using hhead
      rw [h'.kept field ?_ ?_, h.linked m hm field hpath]
      · exact fun _ _ => ne_of_pendingField?_eq_none (hplain field hfield)
      · exact fun m' hm' hpath' =>
          hapart m hm m' hm' (congrArg List.head? (hpath.trans hpath'.symm))
    · exact h'.linked m hm field hpath
  case kept =>
    obtain ⟨hkey, hkey'⟩ := List.forall_mem_append.mp hkey
    obtain ⟨hmade, hmade'⟩ := List.forall_mem_append.mp hnone
    exact (h'.kept key hkey' hmade').trans (h.kept key hkey hmade)

/-! ## One field -/

variable {field : String}

/-- **What is not known is dropped.** -/
theorem of_none (hnone : carried? s root.payload field = none) :
    Supplies s root [field] before [] (before.erase (pendingLead ++ field)) where
  once := .nil
  all path c := by
    refine iff_of_false (by simp) ?_
    rintro ⟨⟨_, hfield, hhead⟩, hc⟩
    obtain rfl := List.mem_singleton.mp hfield
    obtain ⟨path, rfl⟩ := List.head?_eq_some_iff.mp hhead
    rw [within?, hnone] at hc
    exact nomatch hc
  inner_first := .nil
  parts := List.forall_mem_nil _
  settled := List.forall_mem_singleton.mpr (by rw [Table.get?_erase, if_pos rfl])
  linked := List.forall_mem_nil _
  kept key hkey _ := by
    rw [Table.get?_erase, if_neg (List.forall_mem_singleton.mp hkey).symm]

/-- What lies under a field is the entity that is carried for it, and all that lies inside this. -/
theorem all_of_some {c c' : Carried} {nested : Record} {id : Value} {path : List String}
    (hc : carried? s root.payload field = some c) (h : Fulfils s c made nested) :
    (∃ m ∈ made.map (Creation.inside field) ++ [⟨[field], c, nested, id⟩],
        m.path = path ∧ m.carried = c') ↔
      (∃ head ∈ [field], path.head? = some head) ∧ within? s root path = some c' := by
  cases path with
  | nil => simp [Creation.inside]
  | cons head path =>
    by_cases hhead : head = field
    · subst hhead
      have hmade : (∃ m ∈ made.map (Creation.inside head) ++ [⟨[head], c, nested, id⟩],
            m.path = head :: path ∧ m.carried = c') ↔
          (∃ m ∈ made, m.path = path ∧ m.carried = c') ∨ path = [] ∧ c = c' := by
        simp [Creation.inside, or_and_right, exists_or, eq_comm]
      rw [hmade, h.all, within?, hc, Option.bind_some]
      -- inside the entity the path goes on, or it ends there
      cases path with
      | nil => simp [within?]
      | cons key path => simp
    · simp [Creation.inside, Ne.symm hhead, hhead]

/-- **What is known is created behind all that lies inside it.** -/
theorem of_some {c : Carried} {nested : Record} {id : Value}
    (hc : carried? s root.payload field = some c) (hplain : pendingField? field = none)
    (h : Fulfils s c made nested) :
    Supplies s root [field] before (made.map (.inside field) ++ [⟨[field], c, nested, id⟩])
      ((before.erase (pendingLead ++ field)).insert field (linkTo root.entity field id)) := by
  have hinside : ∀ m ∈ made, m.path ≠ [] :=
    fun m hm => ((h.all m.path m.carried).mp ⟨m, hm, rfl, rfl⟩).1
  have hsame : ∀ path : List String, ∀ m : Creation, ∀ key, m.path = field :: path ++ [key] →
      (m ∈ made.map (.inside field) ++ [⟨[field], c, nested, id⟩] ↔
        m ∈ made.map (.inside field)) := by
    refine fun path m key hpath => List.mem_append.trans (or_iff_left fun hm => ?_)
    rw [List.mem_singleton.mp hm] at hpath
    simp at hpath
  refine ⟨?once, fun path c' => all_of_some hc h, ?inner_first, ?parts, ?settled, ?linked,
    fun key hkey hnone => ?kept⟩
  case once =>
    have hpaths : (made.map (Creation.inside field)).map Creation.path =
        (made.map Creation.path).map (field :: ·) := by
      rw [List.map_map, List.map_map]
      rfl
    rw [List.map_append, hpaths, List.nodup_append]
    refine ⟨h.once.map List.cons_injective, List.nodup_singleton _, ?_⟩
    rintro path hpath path' hpath' rfl
    obtain ⟨inner, hinner, heq⟩ := List.mem_map.mp hpath
    obtain ⟨m, hm, rfl⟩ := List.mem_map.mp hinner
    rw [List.mem_singleton.mp hpath'] at heq
    exact hinside m hm (List.cons.inj heq).2
  case inner_first =>
    refine List.pairwise_append.mpr ⟨List.pairwise_map.mpr ?_, List.pairwise_singleton _ _, ?_⟩
    · exact h.inner_first.imp fun hnot hbegin => hnot (List.cons_prefix_cons.mp hbegin).2
    · refine List.forall_mem_map.mpr fun m hm => List.forall_mem_singleton.mpr fun hbegin => ?_
      exact hinside m hm (List.prefix_nil.mp (List.cons_prefix_cons.mp hbegin).2)
  case parts =>
    refine List.forall_mem_append.mpr
      ⟨List.forall_mem_map.mpr fun m hm => ?_, List.forall_mem_singleton.mpr ?_⟩
    · exact ((h.parts m hm).inside field).congr (hsame m.path)
    · exact (h.whole.inside field).congr (hsame [])
  case settled =>
    refine List.forall_mem_singleton.mpr ?_
    rw [Table.get?_insert, if_neg (ne_of_pendingField?_eq_none hplain), Table.get?_erase,
      if_pos rfl]
  case linked =>
    refine List.forall_mem_append.mpr ⟨List.forall_mem_map.mpr fun m hm key hpath => ?_,
      List.forall_mem_singleton.mpr fun key hpath => ?_⟩
    · exact absurd (List.cons.inj hpath).2 (hinside m hm)
    · obtain rfl := (List.cons.inj hpath).1
      exact Table.get?_insert_self ..
  case kept =>
    have hfield : field ≠ key := by
      rintro rfl
      exact hnone _ (List.mem_append_right _ (List.mem_singleton_self _)) rfl
    rw [Table.get?_insert, if_neg hfield, Table.get?_erase,
      if_neg (List.forall_mem_singleton.mp hkey).symm]

/-! ## All fields -/

/-- With all its fields a payload has nothing left that is pending. -/
theorem get?_of_pending (h : Supplies s root (root.payload.record.keys.filterMap pendingField?)
      root.payload.record made data)
    (hplain : ∀ field ∈ root.payload.record.keys.filterMap pendingField?,
      pendingField? field = none) {key : String} (hkey : pendingField? key ≠ none) :
    data.get? key = none := by
  obtain ⟨field, hfield⟩ := Option.ne_none_iff_exists'.mp hkey
  obtain rfl := pendingField?_eq_some_iff.mp hfield
  by_cases hmem : field ∈ root.payload.record.keys.filterMap pendingField?
  · exact h.settled field hmem
  · rw [h.kept _ ?_ fun m hm => h.path_ne hplain hm field]
    · refine Table.get?_eq_none_iff.mpr fun hkeys => hmem ?_
      exact List.mem_filterMap.mpr ⟨_, hkeys, hfield⟩
    · intro field' hfield' heq
      exact hmem ((String.append_right_inj _).mp heq ▸ hfield')

/-- **With all its fields a payload is fulfilled.** -/
theorem fulfils (h : Supplies s root (root.payload.record.keys.filterMap pendingField?)
      root.payload.record made data)
    (hplain : ∀ field ∈ root.payload.record.keys.filterMap pendingField?,
      pendingField? field = none) : Fulfils s root made data where
  once := h.once
  all path c := by
    refine (h.all path c).trans (and_congr_left fun hc => ?_)
    cases path with
    | nil => simp
    | cons field path =>
      obtain ⟨carried, hcarried, -⟩ := Option.bind_eq_some_iff.mp hc
      obtain ⟨v, hv, -⟩ := Option.bind_eq_some_iff.mp hcarried
      have hkey : pendingLead ++ field ∈ root.payload.record.keys :=
        Table.contains_iff.mp (Option.isSome_of_eq_some hv)
      exact iff_of_true ⟨field, List.mem_filterMap.mpr
        ⟨_, hkey, pendingField?_eq_some_iff.mpr rfl⟩, rfl⟩ (List.cons_ne_nil field path)
  inner_first := h.inner_first
  whole :=
    { settled := fun _ => h.get?_of_pending hplain
      linked := h.linked
      kept := fun key hkey => h.kept key fun _ _ => ne_of_pendingField?_eq_none hkey }
  parts := h.parts

end Supplies

/-! ## Runs -/

/-- An entity is found by a name that is a text. -/
theorem lookUp_eq_ok {type : Value} {found : Option (String × Entity)}
    (h : lookUp s type = .ok found) :
    (∃ name, type = .text name ∧ found = (s.entity? name).map (name, ·)) ∨
      (∀ name, type ≠ .text name) ∧ found = none := by
  cases type with
  | text name => exact .inl ⟨name, rfl, (Except.ok.inj h).symm⟩
  | _ =>
    obtain ⟨_, -, h⟩ := bind_eq_ok_iff.mp h
    exact .inr ⟨fun _ => nofun, (Except.ok.inj h).symm⟩

/-- **What one pending value comes to**: it is dropped, or its entity is created. -/
theorem pendingMember_returns {create : Entity → Value → Run Record} {e : Entity}
    {data data' : Record} {field : String} {v : Value} {log log' : List Call}
    (h : (pendingMember b s create e data field v).Returns log data' log') :
    (carriedBy? s v = none ∧ data' = data ∧ log' = log) ∨
      ∃ c nested between id, carriedBy? s v = some c ∧
        (create c.entity c.payload).Returns log nested between ∧
        (b.createEntity c.type nested).Returns between id log' ∧
        data' = data.insert field (linkTo e field id) := by
  cases v with
  | map object =>
    obtain ⟨found, between, hlookUp, h⟩ := Session.returns_bind_iff.mp h
    obtain ⟨hfound, rfl⟩ := Session.returns_lift_iff.mp hlookUp
    obtain ⟨name, htype, rfl⟩ | ⟨htype, rfl⟩ := lookUp_eq_ok hfound
    · rw [carriedBy?_map_of_text htype]
      cases hentity : s.entity? name with
      | none =>
        rw [hentity] at h
        obtain ⟨rfl, rfl⟩ := Session.returns_pure_iff.mp h
        exact .inl ⟨rfl, rfl, rfl⟩
      | some entity =>
        rw [hentity] at h
        obtain ⟨nested, between, hnested, h⟩ := Session.returns_bind_iff.mp h
        obtain ⟨id, after, hid, h⟩ := Session.returns_bind_iff.mp h
        obtain ⟨rfl, rfl⟩ := Session.returns_pure_iff.mp h
        refine .inr ⟨⟨name, entity, _⟩, nested, between, id, rfl, hnested, hid, ?_⟩
        rw [linkTo]
        cases e.fields.get? field <;> rfl
    · obtain ⟨rfl, rfl⟩ := Session.returns_pure_iff.mp h
      exact .inl ⟨carriedBy?_map_of_ne htype, rfl, rfl⟩
  | _ =>
    obtain ⟨rfl, rfl⟩ := Session.returns_pure_iff.mp h
    exact .inl ⟨rfl, rfl, rfl⟩

/-- The payloads of what a payload carries are fulfilled whenever `create` makes records of them. -/
def FulfilsInside (b : Backend) (s : Schema) (root : Carried)
    (create : Entity → Value → Run Record) : Prop :=
  ∀ field c, carried? s root.payload field = some c → ∀ ⦃log nested log'⦄,
    (create c.entity c.payload).Returns log nested log' →
      ∃ made, log' = log ++ made.map Creation.call ∧ Answered b log made ∧ Fulfils s c made nested

/-- **One member of a payload.** -/
theorem pendingMember_supplies {create : Entity → Value → Run Record}
    (hcreate : FulfilsInside b s root create) {field : String} (hplain : pendingField? field = none)
    {before data : Record} (hsame : before.get? (pendingLead ++ field) =
      root.payload.record.get? (pendingLead ++ field)) {log log' : List Call}
    (h : (pendingMember b s create root.entity (before.erase (pendingLead ++ field)) field
      ((before.get? (pendingLead ++ field)).getD .null)).Returns log data log') :
    ∃ made, log' = log ++ made.map Creation.call ∧ Answered b log made ∧
      Supplies s root [field] before made data := by
  have hcarried : carried? s root.payload field =
      carriedBy? s ((before.get? (pendingLead ++ field)).getD .null) := by
    rw [carried?, ← hsame]
    cases before.get? (pendingLead ++ field) <;> rfl
  obtain ⟨hnone, rfl, rfl⟩ | ⟨c, nested, after, id, hc, hnested, hid, rfl⟩ :=
    pendingMember_returns h
  · exact ⟨[], (List.append_nil _).symm, trivial, .of_none (hcarried.trans hnone)⟩
  · obtain ⟨inner, rfl, hinner, hfulfils⟩ := hcreate field c (hcarried.trans hc) hnested
    obtain ⟨hcreated, rfl⟩ := Backend.createEntity_returns hid
    refine ⟨_, ?_, answered_append.mpr ⟨answered_inside.mpr hinner, ?_⟩,
      .of_some (hcarried.trans hc) hplain hfulfils⟩
    · rw [List.map_append, List.map_map, ← List.append_assoc]
      rfl
    · rw [List.map_map]
      exact ⟨hcreated, trivial⟩

/-- **The members of a payload one after another.**  The induction is on the keys: what is still to
be read of them is as in the payload. -/
theorem pendingMembers_returns {create : Entity → Value → Run Record}
    (hcreate : FulfilsInside b s root create) :
    ∀ {keys : List String} {data data' : Record} {log log' : List Call}, keys.Nodup →
      (∀ field ∈ keys.filterMap pendingField?, pendingField? field = none) →
      (∀ field ∈ keys.filterMap pendingField?,
        data.get? (pendingLead ++ field) = root.payload.record.get? (pendingLead ++ field)) →
      (pendingMembers b s create root.entity data keys).Returns log data' log' →
        ∃ made, log' = log ++ made.map Creation.call ∧ Answered b log made ∧
          Supplies s root (keys.filterMap pendingField?) data made data' := by
  intro keys
  induction keys with
  | nil =>
    intro data data' log log' _ _ _ h
    obtain ⟨rfl, rfl⟩ := Session.returns_pure_iff.mp h
    exact ⟨[], (List.append_nil log).symm, trivial, .nil s root data⟩
  | cons key keys ih =>
    intro data data' log log' hnodup hplain hsame h
    obtain ⟨hnotMem, hkeys⟩ := List.nodup_cons.mp hnodup
    rw [pendingMembers] at h
    rcases hfield : pendingField? key with _ | field <;> rw [hfield] at h
    · rw [List.filterMap_cons_none hfield] at hplain hsame ⊢
      exact ih hkeys hplain hsame h
    · rw [List.filterMap_cons_some hfield] at hplain hsame ⊢
      obtain rfl := pendingField?_eq_some_iff.mp hfield
      obtain ⟨hfieldPlain, hplain'⟩ := List.forall_mem_cons.mp hplain
      have hplainField : ∀ key ∈ [field], pendingField? key = none :=
        List.forall_mem_singleton.mpr hfieldPlain
      obtain ⟨mid, between, hmember, h⟩ := Session.returns_bind_iff.mp h
      obtain ⟨made, rfl, hanswered, hfirst⟩ := pendingMember_supplies hcreate hfieldPlain
        (List.forall_mem_cons.mp hsame).1 hmember
      have hother : ∀ field' ∈ keys.filterMap pendingField?, field' ≠ field := by
        rintro _ hfield' rfl
        obtain ⟨key, hkey, hpending⟩ := List.mem_filterMap.mp hfield'
        exact hnotMem (pendingField?_eq_some_iff.mp hpending ▸ hkey)
      have hsame' : ∀ field' ∈ keys.filterMap pendingField?,
          mid.get? (pendingLead ++ field') = root.payload.record.get? (pendingLead ++ field') := by
        intro field' hfield'
        rw [hfirst.kept _ ?_ fun m hm => hfirst.path_ne hplainField hm field',
          (List.forall_mem_cons.mp hsame).2 field' hfield']
        exact List.forall_mem_singleton.mpr fun heq =>
          hother field' hfield' ((String.append_right_inj _).mp heq)
      obtain ⟨made', rfl, hanswered', hrest⟩ := ih hkeys hplain' hsame' h
      refine ⟨made ++ made', ?_, answered_append.mpr ⟨hanswered, hanswered'⟩,
        hfirst.append hrest ?_ hplainField hplain'⟩
      · rw [List.map_append, List.append_assoc]
      · exact List.forall_mem_singleton.mpr fun hmem => hother field hmem rfl

/-- **A payload that comes to a record is fulfilled.**  The induction is on the depth. -/
theorem createPending_returns : ∀ {fuel : Nat} {c : Carried}, c.payload.depth < fuel →
    Orderly c.payload → ∀ ⦃log data log'⦄,
    (createPending b s fuel c.entity c.payload).Returns log data log' →
      ∃ made, log' = log ++ made.map Creation.call ∧ Answered b log made ∧ Fulfils s c made data
  | 0, _, hfuel, _, _, _, _, _ => absurd hfuel (Nat.not_lt_zero _)
  | fuel + 1, c, hfuel, horderly, log, data, log', h => by
      obtain ⟨before, between, hrecord, h⟩ := Session.returns_bind_iff.mp h
      obtain ⟨hbefore, rfl⟩ := Session.returns_lift_iff.mp hrecord
      obtain rfl := Except.ok.inj (horderly.recordOf_eq.symm.trans hbefore)
      obtain ⟨made, hlog, hanswered, hsupplies⟩ := pendingMembers_returns
        (fun _ _ hinner => createPending_returns ((horderly.carried hinner).2.trans_le
          (Nat.lt_succ_iff.mp hfuel)) (horderly.carried hinner).1)
        c.payload.record.nodup_keys horderly.plain (fun _ _ => rfl) h
      exact ⟨made, hlog, hanswered, hsupplies.fulfils horderly.plain⟩

/-- **All that an orderly payload carries is created, innermost first**, and nothing else is.  The
calls create one entity after another, each from its own payload with the ids of what this carried
(`Fulfils`), and the ids are those that the store gave. -/
theorem nestedPending_creates (horderly : Orderly root.payload) {log log' : List Call}
    {data : Record} (h : (nestedPending b s root.entity root.payload).Returns log data log') :
    ∃ made, log' = log ++ made.map Creation.call ∧ Answered b log made ∧
      Fulfils s root made data :=
  createPending_returns (Nat.lt_succ_self _) horderly h

/-- A store that numbers what it creates. -/
def registry : Backend :=
  { search? := none
    create := fun log _ r => .ok (r.insert "$id" (.int (log.length + 1)))
    update := fun _ _ _ _ => .ok ()
    generate := fun _ _ _ _ => .ok .null }

/-- A post with many tags, and tags with a parent; there are no shops. -/
def blog : Schema :=
  { entities := .ofList
      [("Post", { name := "Post", fields := .ofList [("tags", .parse "tags" "->Tag[]")] }),
        ("Tag", { name := "Tag", fields := .ofList [("parent", .parse "parent" "->Tag")] })] }

/-- A tag with a parent, and with a shop that has one, too. -/
def taggedPost : Value :=
  .map [("title", .text "Joins"), ("_pending_tags", .map [("type", .text "Tag"), ("data", .map
    [("_pending_parent", .map [("type", .text "Tag")]),
      ("_pending_shop", .map [("type", .text "Shop"), ("data", .map
        [("_pending_parent", .map [("type", .text "Tag")])])])])])]

theorem orderly_taggedPost : Orderly taggedPost := by
  have hparent : ∀ ms, Orderly (.map ms) →
      Orderly (.map (("_pending_parent", .map [("type", .text "Tag")]) :: ms)) := fun ms h =>
    h.cons_object (by decide +kernel) ⟨"Tag", by decide +kernel⟩ fun hdata => absurd rfl hdata
  refine .cons_plain (.cons_object orderly_empty (by decide +kernel) ⟨"Tag", by decide +kernel⟩
    fun _ => hparent _ ?_) (by decide +kernel)
  exact .cons_object orderly_empty (by decide +kernel) ⟨"Shop", by decide +kernel⟩
    fun _ => hparent _ orderly_empty

/-- A post. -/
def joins : Carried :=
  { type := "Post"
    entity := { name := "Post", fields := .ofList [("tags", .parse "tags" "->Tag[]")] }
    payload := taggedPost }

theorem nestedPending_creates_joins : ∃ made data,
    (nestedPending registry blog joins.entity joins.payload).Returns [] data
      (made.map Creation.call) ∧
      made.map Creation.call =
        [.create "Tag" .empty, .create "Tag" (.ofList [("parent", .int 1)])] ∧
      data.get? "title" = some (.text "Joins") ∧ data.get? "tags" = some (.list [.int 2]) ∧
      Answered registry [] made ∧ Fulfils blog joins made data := by
  have hlog : (nestedPending registry blog joins.entity joins.payload []).2 =
      [.create "Tag" .empty, .create "Tag" (.ofList [("parent", .int 1)])] := by
    decide +kernel
  have hrun : (nestedPending registry blog joins.entity joins.payload []).1.toOption.any fun data =>
      decide (data.get? "title" = some (.text "Joins") ∧
        data.get? "tags" = some (.list [.int 2])) := by
    decide +kernel
  obtain ⟨data, log', hreturns, hdata⟩ := Session.exists_returns_of_any hrun
  obtain ⟨htitle, htags⟩ := of_decide_eq_true hdata
  obtain ⟨made, rfl, hanswered, hfulfils⟩ := nestedPending_creates orderly_taggedPost hreturns
  rw [Session.Returns] at hreturns
  rw [hreturns] at hlog
  refine ⟨made, data, hreturns, hlog, htitle, htags, hanswered, hfulfils⟩

end EntitySchema.Resolve
