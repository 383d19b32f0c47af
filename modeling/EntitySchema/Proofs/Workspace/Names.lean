import EntitySchema.Proofs.Text.Split
import EntitySchema.Proofs.Workspace.Project

/-!
# Proofs/Workspace/Names — where snapshots are

    root/dirs/name.suffix   ──▸   key  dirs/name   ──▸   build/dirs/name.schema.json

Where no name has a backslash, the snapshots mirror the schema files (`place_eq`): one key is one
place (`place_eq_iff`), every snapshot is below the build directory, and a snapshot is on the way to
another exactly if a directory of the other has its name (`place_mem_way_iff`).  So where all names
are plain, nothing is in the way of anything, unless a directory is named like a snapshot (`Plain`).
-/

namespace EntitySchema

open Disk Build

/-- A name that is spelled as it is: it leads down, and has neither a slash nor a backslash. -/
structure PlainName (name : String) : Prop where
  /-- The name leads somewhere. -/
  isPart : Path.isPart name = true
  /-- The name does not lead up. -/
  down : name ≠ ".."
  /-- The name has no slash. -/
  slash : '/' ∉ name.toList
  /-- The name has no backslash. -/
  backslash : '\\' ∉ name.toList

namespace Path

variable {name : String} {names : List String} {p : Path}

theorem ofText_of_slash (hpart : isPart name = true) (hslash : '/' ∉ name.toList) :
    ofText name = ⟨false, [name]⟩ := by
  have hhead : name.toList.head? ≠ some '/' := fun h => hslash (List.mem_of_head? h)
  rw [ofText, Text.splitAll_of_notMem hslash, decide_eq_false hhead]
  simp [hpart]

theorem child_of_slash (hpart : isPart name = true) (hslash : '/' ∉ name.toList) (p : Path) :
    p.child name = ⟨p.absolute, p.parts ++ [name]⟩ := by
  rw [child, ofText_of_slash hpart hslash]
  rfl

theorem foldl_child (h : ∀ name ∈ names, PlainName name) (p : Path) :
    names.foldl child p = ⟨p.absolute, p.parts ++ names⟩ := by
  induction names generalizing p with
  | nil => rw [List.append_nil]; rfl
  | cons name names ih =>
    rw [List.forall_mem_cons] at h
    rw [List.foldl_cons, child_of_slash h.1.isPart h.1.slash, ih h.2, List.append_assoc]
    rfl

theorem foldl_follow (h : ∀ name ∈ names, name ≠ "..") (l : Location) :
    names.foldl follow l = l ++ names := by
  induction names generalizing l with
  | nil => exact (List.append_nil l).symm
  | cons name names ih =>
    rw [List.forall_mem_cons] at h
    rw [List.foldl_cons, ih h.2, follow, if_neg h.1, List.append_assoc]
    rfl

end Path

/-! ## File names -/

theorem stem_subset (name : String) : (stem name).toList ⊆ name.toList := by
  rw [stem]
  rcases heq : name.toList.reverse.dropWhile (· != '.') with _ | ⟨c, before⟩
  · exact List.Subset.refl _
  · dsimp only
    split_ifs
    · exact List.Subset.refl _
    · intro x hx
      rw [String.toList_ofList, List.mem_reverse] at hx
      have hmem : x ∈ name.toList.reverse.dropWhile (· != '.') := by
        rw [heq]
        exact List.mem_cons_of_mem c hx
      exact List.mem_reverse.mp ((List.dropWhile_sublist _).mem hmem)

/-- The name of the snapshot of a schema file. -/
def snapshotName (name : String) : String := stem name ++ snapshotSuffix

theorem lt_length_snapshotName (name : String) : 2 < (snapshotName name).length := by
  have hsuffix : snapshotSuffix.length = 12 := rfl
  rw [snapshotName, String.length_append, hsuffix]
  omega

theorem snapshotName_ne {name short : String} (h : short.length ≤ 2) :
    snapshotName name ≠ short := by
  rintro rfl
  exact absurd (lt_length_snapshotName name) (not_lt.mpr h)

@[simp] theorem isPart_snapshotName (name : String) : Path.isPart (snapshotName name) = true := by
  have hempty : snapshotName name ≠ "" := snapshotName_ne (by decide)
  have hdot : snapshotName name ≠ "." := snapshotName_ne (by decide)
  simp [Path.isPart, hempty, hdot]

theorem slash_snapshotName {name : String} (h : PlainName name) :
    '/' ∉ (snapshotName name).toList := by
  rw [snapshotName, String.toList_append, List.mem_append, not_or]
  exact ⟨fun hmem => h.slash (stem_subset name hmem), by decide⟩

@[simp] theorem snapshotName_inj {name name' : String} :
    snapshotName name = snapshotName name' ↔ stem name = stem name' := by
  rw [← String.toList_inj, snapshotName, snapshotName, String.toList_append, String.toList_append,
    List.append_left_inj, String.toList_inj]

/-! ## Keys -/

section Keys

variable {dirs dirs' : List String} {name name' : String}

/-- Without backslashes a key is spelled as the names are. -/
theorem unitKey_eq (hdirs : ∀ n ∈ dirs, PlainName n) (hname : PlainName name) :
    unitKey (dirs ++ [name]) = "/".intercalate (dirs ++ [stem name]) := by
  have hplain : ∀ c ∈ ("/".intercalate (dirs ++ [stem name])).toList, c ≠ '\\' := by
    rintro c hc rfl
    rw [String.toList_intercalate] at hc
    rcases Text.mem_intercalate hc with hc | ⟨l, hl, hc⟩
    · exact absurd hc (by decide)
    · obtain ⟨n, hn, rfl⟩ := List.mem_map.mp hl
      rcases List.mem_append.mp hn with hn | hn
      · exact (hdirs n hn).backslash hc
      · rw [List.mem_singleton.mp hn] at hc
        exact hname.backslash (stem_subset name hc)
  rw [unitKey, List.dropLast_concat, List.getLast?_concat, Option.getD_some]
  have hmap : ("/".intercalate (dirs ++ [stem name])).toList.map
      (fun c => if c = '\\' then '/' else c) = ("/".intercalate (dirs ++ [stem name])).toList :=
    (List.map_congr_left fun c hc => if_neg (hplain c hc)).trans (List.map_id _)
  rw [hmap, String.ofList_toList]

theorem splitAll_unitKey (hdirs : ∀ n ∈ dirs, PlainName n) (hname : PlainName name) :
    (Text.splitAll '/' (unitKey (dirs ++ [name])).toList).map String.ofList
      = dirs ++ [stem name] := by
  have hslash : ∀ l ∈ (dirs ++ [stem name]).map String.toList, '/' ∉ l := by
    intro l hl
    obtain ⟨n, hn, rfl⟩ := List.mem_map.mp hl
    rcases List.mem_append.mp hn with hn | hn
    · exact (hdirs n hn).slash
    · rw [List.mem_singleton.mp hn]
      exact fun hc => hname.slash (stem_subset name hc)
  rw [unitKey_eq hdirs hname, String.toList_intercalate]
  change (Text.splitAll '/' (['/'].intercalate _)).map String.ofList = _
  rw [Text.splitAll_intercalate (by simp) hslash, List.map_map]
  exact (List.map_congr_left fun n _ => String.ofList_toList).trans (List.map_id _)

/-- The path of a snapshot mirrors the path of the schema file. -/
theorem snapshotPath_unitKey (hdirs : ∀ n ∈ dirs, PlainName n) (hname : PlainName name)
    (buildDirectory : Path) : snapshotPath (unitKey (dirs ++ [name])) buildDirectory =
      ⟨buildDirectory.absolute, buildDirectory.parts ++ (dirs ++ [snapshotName name])⟩ := by
  rw [snapshotPath, splitAll_unitKey hdirs hname]
  rw [List.dropLast_concat, List.getLast?_concat, Option.getD_some, Path.foldl_child hdirs,
    ← snapshotName, Path.child_of_slash (isPart_snapshotName name) (slash_snapshotName hname),
    List.append_assoc]

theorem unitKey_inj (hdirs : ∀ n ∈ dirs, PlainName n) (hname : PlainName name)
    (hdirs' : ∀ n ∈ dirs', PlainName n) (hname' : PlainName name') :
    unitKey (dirs ++ [name]) = unitKey (dirs' ++ [name']) ↔
      dirs = dirs' ∧ stem name = stem name' := by
  constructor
  · intro h
    have hsplit := splitAll_unitKey hdirs hname
    rw [h, splitAll_unitKey hdirs' hname'] at hsplit
    obtain ⟨hdirs, hstem⟩ := List.append_inj' hsplit rfl
    exact ⟨hdirs.symm, (List.singleton_inj.mp hstem).symm⟩
  · rintro ⟨rfl, hstem⟩
    rw [unitKey_eq hdirs hname, unitKey_eq hdirs hname', hstem]

end Keys

/-! ## Ways -/

/-- A way down passes the locations above. -/
theorem Path.mem_trailFrom_iff {x : Location} {name : String} :
    ∀ {names : List String} {l : Location}, (∀ n ∈ names, n ≠ "..") →
    (x ∈ trailFrom l (names ++ [name]) ↔ ∃ above, above <+: names ∧ x = l ++ above)
  | [], l, _ => by simp [trailFrom]
  | n :: names, l, h => by
      rw [List.forall_mem_cons] at h
      rw [List.cons_append, trailFrom, List.mem_cons, mem_trailFrom_iff h.2, follow, if_neg h.1]
      constructor
      · rintro (rfl | ⟨above, habove, rfl⟩)
        · exact ⟨[], List.nil_prefix, (List.append_nil x).symm⟩
        · refine ⟨n :: above, (List.prefix_cons_inj n).mpr habove, ?_⟩
          rw [List.append_assoc]
          rfl
      · rintro ⟨above, habove, rfl⟩
        rcases List.prefix_cons_iff.mp habove with rfl | ⟨rest, rfl, hrest⟩
        · exact .inl (List.append_nil l)
        · refine .inr ⟨rest, hrest, ?_⟩
          rw [List.append_assoc]
          rfl

namespace Project

variable {P : Project} {f g : Path} {dirs dirs' : List String} {name name' : String}

variable (P) in
/-- A schema file lies in some directories below the root, all of them with plain names. -/
structure LiesAt (f : Path) (dirs : List String) (name : String) : Prop where
  /-- The names that lead to the file. -/
  below : Location.below? (P.location P.root) (P.location f) = some (dirs ++ [name])
  /-- The names of the directories are plain. -/
  dirs : ∀ n ∈ dirs, PlainName n
  /-- The name of the file is plain. -/
  name : PlainName name

theorem LiesAt.isBelow (h : P.LiesAt f dirs name) : P.Below f := by
  obtain _ | ⟨dir, dirs⟩ := dirs
  · exact ⟨name, [], h.below⟩
  · exact ⟨dir, dirs ++ [name], h.below⟩

theorem LiesAt.key_eq (h : P.LiesAt f dirs name) : P.key f = unitKey (dirs ++ [name]) := by
  rw [key, h.below]

theorem LiesAt.snapshot_eq (h : P.LiesAt f dirs name) : P.snapshot f =
    ⟨P.build.absolute, P.build.parts ++ (dirs ++ [snapshotName name])⟩ := by
  rw [snapshot, h.key_eq, snapshotPath_unitKey h.dirs h.name]

/-- **The snapshots mirror the schema files.** -/
theorem LiesAt.place_eq (h : P.LiesAt f dirs name) :
    P.place f = P.location P.build ++ (dirs ++ [snapshotName name]) := by
  rw [place, location, location, h.snapshot_eq, Path.resolve_eq, Path.resolve_eq,
    List.foldl_append, Path.foldl_follow]
  · rfl
  · intro n hn
    rcases List.mem_append.mp hn with hn | hn
    · exact (h.dirs n hn).down
    · rw [List.mem_singleton.mp hn]
      exact snapshotName_ne (by decide)

theorem LiesAt.key_eq_iff (hf : P.LiesAt f dirs name) (hg : P.LiesAt g dirs' name') :
    P.key f = P.key g ↔ dirs = dirs' ∧ stem name = stem name' := by
  rw [hf.key_eq, hg.key_eq, unitKey_inj hf.dirs hf.name hg.dirs hg.name]

/-- **One key is one place.** -/
theorem LiesAt.place_eq_iff (hf : P.LiesAt f dirs name) (hg : P.LiesAt g dirs' name') :
    P.place f = P.place g ↔ P.key f = P.key g := by
  rw [hf.key_eq_iff hg, hf.place_eq, hg.place_eq, List.append_cancel_left_eq, ← snapshotName_inj]
  constructor
  · intro h
    obtain ⟨hdirs, hname⟩ := List.append_inj' h rfl
    exact ⟨hdirs, List.singleton_inj.mp hname⟩
  · rintro ⟨rfl, hname⟩
    rw [hname]

/-- The way to a snapshot is the way to the build directory, and on through the directories. -/
theorem LiesAt.mem_way_iff (h : P.LiesAt f dirs name) {l : Location} : l ∈ P.way f ↔
    l ∈ P.build.trail P.home ∨ ∃ above, above <+: dirs ∧ l = P.location P.build ++ above := by
  rw [way, Path.trail, h.snapshot_eq, Path.trailFrom_append, List.mem_append,
    Path.mem_trailFrom_iff fun n hn => (h.dirs n hn).down]
  rfl

/-- **A snapshot is on the way to another exactly if a directory has its name.** -/
theorem LiesAt.place_mem_way_iff (hf : P.LiesAt f dirs name) (hg : P.LiesAt g dirs' name')
    (hbuild : P.place f ∉ P.build.trail P.home) :
    P.place f ∈ P.way g ↔ dirs ++ [snapshotName name] <+: dirs' := by
  rw [hg.mem_way_iff, or_iff_right hbuild, hf.place_eq]
  constructor
  · rintro ⟨above, habove, heq⟩
    rwa [List.append_cancel_left heq]
  · exact fun h => ⟨_, h, rfl⟩

variable (P) in
/-- Sources with plain names: no path makes a detour, the build directory holds neither a source nor
the working directory, and no directory has the name of a snapshot. -/
structure Plain (sources : Set Path) : Prop where
  /-- All names are plain. -/
  names : ∀ f ∈ sources, ∃ dirs name, P.LiesAt f dirs name
  /-- The path of a source leads down. -/
  direct : ∀ f ∈ sources, ∀ l ∈ f.trail P.home, P.Above f l
  /-- The path of the build directory leads down. -/
  straight : ∀ l ∈ P.build.trail P.home, l <+: P.home ∨ l <+: P.location P.build
  /-- The working directory is not in the build directory. -/
  home : ¬ P.location P.build <+: P.home
  /-- No source is in the build directory. -/
  outside : ∀ f ∈ sources, ¬ P.location P.build <+: P.location f
  /-- No source is on the way to the build directory. -/
  ahead : ∀ f ∈ sources, P.location f ∉ P.build.trail P.home
  /-- No directory of a source has the name and the place of a snapshot. -/
  unlike : ∀ f ∈ sources, ∀ g ∈ sources, ∀ {dirs dirs' : List String} {name name' : String},
    P.LiesAt f dirs name → P.LiesAt g dirs' name' → ¬ dirs ++ [snapshotName name] <+: dirs'

variable (P) in
/-- The build directory is empty, or is not there yet and can be made. -/
structure Empty (d : Disk) : Prop where
  /-- No file is on the way to the build directory. -/
  way : ∀ l ∈ P.build.trail P.home ++ [P.location P.build], ¬ d.IsFile l
  /-- Nothing is in the build directory. -/
  inside : ∀ l, P.location P.build <+: l → l ≠ P.location P.build → d.entry? l = none

section Plain

variable {sources : Set Path} {d : Disk}

theorem LiesAt.prefix_place (h : P.LiesAt f dirs name) : P.location P.build <+: P.place f := by
  rw [h.place_eq]
  exact List.prefix_append _ _

theorem Plain.not_prefix_home (h : P.Plain sources) (hf : f ∈ sources) :
    ¬ P.place f <+: P.home := by
  obtain ⟨dirs, name, hat⟩ := h.names f hf
  exact fun hpre => h.home (hat.prefix_place.trans hpre)

/-- Where all names are plain, the sources of a project hold together if no two have the same
key. -/
theorem Plain.holds (h : P.Plain sources)
    (hkeys : ∀ f ∈ sources, ∀ g ∈ sources, P.key f = P.key g → P.location f = P.location g) :
    P.Holds sources where
  below f hf := by
    obtain ⟨dirs, name, h⟩ := h.names f hf
    exact h.isBelow
  direct f hf _ _ l hl _ := h.direct f hf l hl
  away f hf g hg heq := by
    obtain ⟨dirs, name, hat⟩ := h.names f hf
    exact h.outside g hg (heq ▸ hat.prefix_place)
  apart f hf g hg heq := by
    obtain ⟨_, _, hat⟩ := h.names f hf
    obtain ⟨_, _, hat'⟩ := h.names g hg
    exact hkeys f hf g hg ((hat.place_eq_iff hat').mp heq)

/-- No snapshot has a place on the way to a source. -/
theorem Plain.place_notMem_trail (h : P.Plain sources) (hf : f ∈ sources) (hg : g ∈ sources) :
    P.place f ∉ g.trail P.home := by
  intro hmem
  obtain ⟨_, _, hat⟩ := h.names f hf
  rcases h.direct g hg _ hmem with hpre | hpre
  · exact h.not_prefix_home hf hpre
  · exact h.outside g hg (hat.prefix_place.trans hpre)

/-- No snapshot has a place on the way to another. -/
theorem Plain.place_notMem_way (h : P.Plain sources) (hf : f ∈ sources) (hg : g ∈ sources) :
    P.place f ∉ P.way g := by
  obtain ⟨dirs, name, hat⟩ := h.names f hf
  obtain ⟨dirs', name', hat'⟩ := h.names g hg
  rw [hat.place_mem_way_iff hat' fun hmem => ?_]
  · exact h.unlike f hf g hg hat hat'
  · rcases h.straight _ hmem with hpre | hpre
    · exact h.not_prefix_home hf hpre
    · rw [hat.place_eq] at hpre
      have hlength := hpre.length_le
      simp only [List.length_append, List.length_singleton] at hlength
      omega

/-- No source is on the way to a snapshot. -/
theorem Plain.location_notMem_way (h : P.Plain sources) (hf : f ∈ sources) (hg : g ∈ sources) :
    P.location g ∉ P.way f := by
  intro hmem
  obtain ⟨dirs, name, hat⟩ := h.names f hf
  rcases hat.mem_way_iff.mp hmem with hmem | ⟨above, -, heq⟩
  · exact h.ahead g hg hmem
  · refine h.outside g hg ?_
    rw [heq]
    exact List.prefix_append _ _

theorem LiesAt.entry?_place (h : P.LiesAt f dirs name) (hd : P.Empty d) :
    d.entry? (P.place f) = none := by
  refine hd.inside _ h.prefix_place ?_
  rw [h.place_eq]
  simp

theorem LiesAt.not_isFile_way (h : P.LiesAt f dirs name) (hd : P.Empty d) :
    ∀ l ∈ P.way f, ¬ d.IsFile l := by
  intro l hl
  rcases h.mem_way_iff.mp hl with hl | ⟨above, -, rfl⟩
  · exact hd.way l (List.mem_append_left _ hl)
  · by_cases habove : above = []
    · rw [habove, List.append_nil]
      exact hd.way _ (List.mem_append_right _ (List.mem_singleton_self _))
    · rintro ⟨text, t, ht⟩
      rw [hd.inside _ (List.prefix_append _ _) (by simpa using habove)] at ht
      cases ht

end Plain

end Project

end EntitySchema
