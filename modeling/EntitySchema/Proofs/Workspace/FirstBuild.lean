import EntitySchema.Proofs.Table
import EntitySchema.Proofs.Workspace.Files
import EntitySchema.Proofs.Workspace.Names

/-!
# Proofs/Workspace/FirstBuild — a build without snapshots

    d ──renew f₁──▸ · ──renew f₂──▸ · ──renew f₃──▸ ⋯

A first build finds no snapshots but those that it has just made.  As long as it uses none of these
it compiles every file anew, and its disk is known: the snapshots of the files past, the last of
each place (`Made`).  So it is known which file would find a snapshot to use (`Reuses`), and when
every file gets an entry of its own with its own schema (`first_build_iff`): for files with plain
names, if their keys are distinct (`Plain.ownEntries_iff`).
-/

namespace EntitySchema

namespace Table

variable {α β : Type} {key : α → String} {value : α → β}

/-- **There are as many entries as items exactly if the keys are distinct.** -/
theorem size_foldl_insert_iff {as : List α} :
    (as.foldl (fun t a => t.insert (key a) (value a)) .empty : Table String β).size = as.length ↔
      (as.map key).Nodup := by
  set t : Table String β := as.foldl (fun t a => t.insert (key a) (value a)) .empty with ht
  have hmem : ∀ k, k ∈ t.keys ↔ k ∈ as.map key := fun k => by
    rw [ht, mem_keys_foldl_insert, keys_empty, or_iff_right List.not_mem_nil]
  have hlength : t.keys.length = t.size := List.length_map _
  constructor
  · intro hsize
    have hsub : t.keys.Subperm (as.map key) :=
      List.subperm_of_subset t.nodup fun k hk => (hmem k).mp hk
    refine (hsub.perm_of_length_le ?_).nodup_iff.mp t.nodup
    rw [List.length_map, hlength, hsize]
  · intro hnodup
    have hperm : t.keys.Perm (as.map key) :=
      (List.perm_ext_iff_of_nodup t.nodup hnodup).mpr hmem
    rw [← hlength, hperm.length_eq, List.length_map]

end Table

namespace Project

open Job Disk Build

variable (P : Project)

/-- No snapshot of the files is there, and no file is on the way to one. -/
structure Cold (d : Disk) (files : List Path) : Prop where
  /-- Nothing has the place of a snapshot. -/
  place : ∀ f ∈ files, d.entry? (P.place f) = none
  /-- No file is on the way to a snapshot. -/
  way : ∀ f ∈ files, ∀ l ∈ P.way f, ¬ d.IsFile l

/-- The last of the files whose snapshots have the place of the snapshot of `f`. -/
def last? (files : List Path) (f : Path) : Option Path :=
  (files.filter fun g => P.place g = P.place f).getLast?

/-- The text of the snapshot that a schema is kept in. -/
def snapshotText (systemEntities : Bool) (s : Schema) : String :=
  Snapshot.text P.formats.models s (options systemEntities)

/-- After the files `past`, the file `f` finds a snapshot to use: it can be reached, it is newer
than `f`, and the text written last at its place can be read back. -/
structure Reuses (d : Disk) (systemEntities : Bool) (past : List Path) (f : Path) : Prop where
  /-- All on the way to the snapshot is there, or was made. -/
  way : ∀ l ∈ P.way f, d.IsDirectory l ∨ ∃ g ∈ past, l ∈ P.way g
  /-- The file is older than the build. -/
  older : ∃ changed, d.time? f = some changed ∧ changed < d.clock
  /-- The snapshot can be read back. -/
  snapshot : ∃ g s, P.last? past f = some g ∧
    ((Source.compile P.formats g systemEntities).outcome d).1 = .ok s ∧
    recorded? P.formats systemEntities (P.snapshotText systemEntities s) ≠ none

/-- The disk `d'` is `d` after the files `past` were compiled anew, to the schemas `σ`. -/
structure Made (σ : Path → Schema) (systemEntities : Bool) (d d' : Disk) (past : List Path) :
    Prop where
  /-- No time has passed. -/
  clock : d'.clock = d.clock
  /-- Nothing else changed. -/
  updates : Updates d d'
    (past.map fun g => (P.snapshot g, .ok (P.snapshotText systemEntities (σ g))))
  /-- Whatever exists stands in a directory. -/
  solid : d'.Solid
  /-- All ways to snapshots were made. -/
  way : ∀ g ∈ past, ∀ l ∈ P.way g, d'.IsDirectory l
  /-- Every place holds the last snapshot that was made there. -/
  place : ∀ f g, P.last? past f = some g →
    d'.entry? (P.place f) = some (.file (P.snapshotText systemEntities (σ g)) d.clock)

/-- The files of a first build: they lie below the root and compile, and no snapshot is there. -/
structure Ready (σ : Path → Schema) (systemEntities : Bool) (d : Disk) (files : List Path) :
    Prop where
  /-- The working directory is that of the project. -/
  home : d.home = P.home
  /-- Whatever exists stands in a directory. -/
  solid : d.Solid
  /-- No snapshot is there. -/
  cold : P.Cold d files
  /-- All files are below the root. -/
  below : ∀ f ∈ files, P.Below f
  /-- All files compile. -/
  compiles : ∀ f ∈ files, ((Source.compile P.formats f systemEntities).outcome d).1 = .ok (σ f)

variable {P} {σ : Path → Schema} {systemEntities : Bool} {d d' d'' : Disk} {f g : Path}
  {files past : List Path}

/-! ## The last snapshot of a place -/

@[simp] theorem last?_concat : P.last? (past ++ [g]) f =
    if P.place g = P.place f then some g else P.last? past f := by
  rw [last?, last?, List.filter_append]
  split_ifs with h <;> simp [h]

theorem of_last?_eq_some (h : P.last? past f = some g) : g ∈ past ∧ P.place g = P.place f := by
  have hmem := List.mem_filter.mp (List.mem_of_getLast? h)
  exact ⟨hmem.1, by simpa using hmem.2⟩

theorem exists_last?_eq_some (hg : g ∈ past) (h : P.place g = P.place f) :
    ∃ g', P.last? past f = some g' := by
  rw [← Option.isSome_iff_exists, last?, List.getLast?_isSome]
  exact List.ne_nil_of_mem (List.mem_filter.mpr ⟨hg, by simpa using h⟩)

/-! ## One file -/

theorem Made.nil (hd : d.Solid) : P.Made σ systemEntities d d [] :=
  ⟨rfl, updates_wait d 0 [], hd, nofun, nofun⟩

theorem Made.home (h : P.Made σ systemEntities d d' past) (hhome : d.home = P.home) :
    d'.home = P.home :=
  h.updates.home.trans hhome

/-- The directories are those that were there and the ways that were made. -/
theorem Made.isDirectory_iff (h : P.Made σ systemEntities d d' past) (hhome : d.home = P.home)
    {l : Location} : d'.IsDirectory l ↔ d.IsDirectory l ∨ ∃ g ∈ past, l ∈ P.way g := by
  constructor
  · intro hdir
    refine (h.updates.of_isDirectory hdir).imp_right fun ⟨p, hp, hl, _⟩ => ?_
    obtain ⟨g, hg, rfl⟩ := List.mem_map.mp hp
    rw [hhome] at hl
    exact ⟨g, hg, hl⟩
  · rintro (hdir | ⟨g, hg, hl⟩)
    · exact h.updates.isDirectory hdir
    · exact h.way g hg l hl

/-- A first build does not touch its files. -/
theorem Ready.unchanged (h : P.Ready σ systemEntities d files)
    (hmade : P.Made σ systemEntities d d' past) (hpast : ∀ g ∈ past, g ∈ files) (hf : f ∈ files) :
    d'.find? f = d.find? f ∧ d'.read f = d.read f := by
  obtain ⟨text, hread, -⟩ := Source.compile_eq_ok_iff.mp (h.compiles f hf)
  obtain ⟨hway, t, hentry⟩ := Disk.read_eq_ok_iff.mp hread
  have hway' : ∀ l ∈ f.trail d'.home, d'.IsDirectory l := by
    rw [hmade.updates.home]
    exact fun l hl => hmade.updates.isDirectory (hway l hl)
  have hentry' : d'.entry? (f.resolve d'.home) = some (.file text t) := by
    rw [hmade.updates.home]
    refine (hmade.updates.entry_eq_file_iff fun p hp heq => ?_).mpr hentry
    obtain ⟨g, hg, rfl⟩ := List.mem_map.mp hp
    dsimp only at heq
    have hnone := h.cold.place g (hpast g hg)
    rw [place, location, ← h.home, ← heq, hentry] at hnone
    cases hnone
  rw [hread, find?_eq_some_iff.mpr ⟨hway, hentry⟩]
  exact ⟨find?_eq_some_iff.mpr ⟨hway', hentry'⟩, Disk.read_eq_ok_iff.mpr ⟨hway', t, hentry'⟩⟩

theorem Ready.compile (h : P.Ready σ systemEntities d files)
    (hmade : P.Made σ systemEntities d d' past) (hpast : ∀ g ∈ past, g ∈ files) (hf : f ∈ files) :
    ((Source.compile P.formats f systemEntities).outcome d').1 = .ok (σ f) := by
  rw [Source.compile_eq_ok_iff, (h.unchanged hmade hpast hf).2, ← Source.compile_eq_ok_iff]
  exact h.compiles f hf

/-- **A file uses a snapshot of its own build exactly if it finds one to use.** -/
theorem Ready.consult_some_iff (h : P.Ready σ systemEntities d files)
    (hmade : P.Made σ systemEntities d d' past) (hpast : ∀ g ∈ past, g ∈ files) (hf : f ∈ files)
    (key : String) :
    (∃ s, ((consult P.formats key f (P.snapshot f) systemEntities).outcome d').1 = .ok (some s)) ↔
      P.Reuses d systemEntities past f := by
  have hhome := hmade.home h.home
  have htime : d'.time? f = d.time? f := congrArg (Option.map _) (h.unchanged hmade hpast hf).1
  constructor
  · rintro ⟨s, hs⟩
    rcases consult_eq_ok_iff.mp hs with ⟨-, hnone⟩ | ⟨⟨made, changed, hmade', hchanged, hlt⟩, text,
      hread, hrecorded⟩
    · cases hnone
    obtain ⟨hway, t, hentry⟩ := Disk.read_eq_ok_iff.mp hread
    rw [Disk.time?, find?_eq_some_iff.mpr ⟨hway, hentry⟩] at hmade'
    obtain rfl : t = made := Option.some.inj hmade'
    rw [hhome] at hway hentry
    rw [← location, ← place] at hentry
    rcases hmade.updates.of_file hentry with hold | ⟨p, hp, hl⟩
    · cases (h.cold.place f hf).symm.trans hold
    · obtain ⟨g₀, hg₀, heq⟩ := List.mem_map.mp hp
      obtain ⟨rfl, -⟩ := Prod.mk.inj heq
      rw [h.home, ← location, ← place] at hl
      obtain ⟨g, hg⟩ := exists_last?_eq_some hg₀ hl
      rw [hmade.place f g hg, Option.some.injEq, DiskEntry.file.injEq] at hentry
      obtain ⟨rfl, rfl⟩ := hentry
      refine ⟨fun l hl => (hmade.isDirectory_iff h.home).mp (hway l hl), ⟨changed, ?_, hlt⟩,
        g, σ g, hg, h.compiles g (hpast g (of_last?_eq_some hg).1), ?_⟩
      · rw [← htime, hchanged]
      · rw [← hrecorded]
        exact Option.some_ne_none s
  · rintro ⟨hway, ⟨changed, hchanged, hlt⟩, g, s, hg, hs, hrecorded⟩
    have hway' : ∀ l ∈ (P.snapshot f).trail d'.home, d'.IsDirectory l := by
      rw [hhome]
      exact fun l hl => (hmade.isDirectory_iff h.home).mpr (hway l hl)
    have hentry := hmade.place f g hg
    rw [place, location, ← hhome] at hentry
    have hfresh : Fresh d' f (P.snapshot f) := by
      refine ⟨d.clock, changed, ?_, htime.trans hchanged, hlt⟩
      rw [Disk.time?, find?_eq_some_iff.mpr ⟨hway', hentry⟩]
      rfl
    have hsame : σ g = s :=
      Except.ok.inj ((h.compiles g (hpast g (of_last?_eq_some hg).1)).symm.trans hs)
    obtain ⟨s', hs'⟩ := Option.ne_none_iff_exists.mp hrecorded
    refine ⟨s', consult_eq_ok_iff.mpr (.inr ⟨hfresh, _,
      Disk.read_eq_ok_iff.mpr ⟨hway', d.clock, hentry⟩, ?_⟩)⟩
    rw [hsame, hs']

/-- Where no snapshot is on the way to another, the next snapshot can be saved. -/
theorem Ready.isOpen (h : P.Ready σ systemEntities d files)
    (hmade : P.Made σ systemEntities d d' past) (hpast : ∀ g ∈ past, g ∈ files) (hf : f ∈ files)
    (hclear : ∀ f ∈ files, ∀ g ∈ files, P.place f ∉ P.way g) : d'.Open (P.snapshot f) where
  way l hl hfile := by
    rw [hmade.home h.home] at hl
    rcases hmade.updates.of_isFile hfile with hfile | ⟨p, hp, rfl⟩
    · exact h.cold.way f hf l hl hfile
    · obtain ⟨g, hg, rfl⟩ := List.mem_map.mp hp
      rw [h.home] at hl
      exact hclear g (hpast g hg) f hf hl
  place hdir := by
    rw [hmade.home h.home] at hdir
    rcases (hmade.isDirectory_iff h.home).mp hdir with ⟨t, ht⟩ | ⟨g, hg, hl⟩
    · cases (h.cold.place f hf).symm.trans ht
    · exact hclear f hf g (hpast g hg) hl
  apart := by
    rw [hmade.home h.home]
    exact hclear f hf f hf

/-- **Compiling a file anew adds its snapshot.** -/
theorem Ready.concat (h : P.Ready σ systemEntities d files)
    (hmade : P.Made σ systemEntities d d' past) (hpast : ∀ g ∈ past, g ∈ files) (hf : f ∈ files)
    {key : String} {s : Schema}
    (hrenew : (renew P.formats key f (P.snapshot f) systemEntities).outcome d' = (.ok s, d'')) :
    s = σ f ∧ P.Builds d systemEntities f s ∧ P.Made σ systemEntities d d'' (past ++ [f]) := by
  have hcompile := h.compile hmade hpast hf
  have hrun := runs_outcome (renew P.formats key f (P.snapshot f) systemEntities) d'
  have hclock := clock_outcome (renew P.formats key f (P.snapshot f) systemEntities) d'
  rw [hrenew] at hrun hclock
  obtain rfl : s = σ f :=
    Except.ok.inj (((renew_eq_ok_iff hmade.solid hrun).mp rfl).1.symm.trans hcompile)
  obtain ⟨fs, hupdates, hsolid, hfs⟩ := renew_updates hmade.solid hrun
  obtain ⟨hway, text, t, htext, hplace, hle, hge⟩ := of_renew_ok hmade.solid hrun
  have hbuilds : P.Builds d systemEntities f (σ f) := ⟨h.compiles f hf, text, htext⟩
  obtain rfl : text = P.snapshotText systemEntities (σ f) := (Snapshot.encode_eq_ok_iff.mp htext).2
  have hsub : fs ⊆ [(P.snapshot f, .ok (P.snapshotText systemEntities (σ f)))] := by
    rintro ⟨path, content⟩ hp
    obtain ⟨rfl, s, hs, rfl⟩ := hfs _ hp
    rw [Except.ok.inj (hs.symm.trans hcompile), htext]
    exact List.mem_singleton_self _
  replace hupdates := hupdates.mono hsub
  obtain rfl : t = d.clock := by rw [hclock, hmade.clock] at hge; rw [hmade.clock] at hle; omega
  rw [hmade.home h.home] at hway hplace
  refine ⟨rfl, hbuilds, hclock.trans hmade.clock, ?_, hsolid, ?_, ?_⟩
  · rw [List.map_append]
    exact (hmade.updates.mono (List.subset_append_left _ _)).trans
      (hupdates.mono (List.subset_append_right _ _))
  · intro g hg l hl
    rcases List.mem_append.mp hg with hg | hg
    · exact hupdates.isDirectory (hmade.way g hg l hl)
    · rw [List.mem_singleton.mp hg] at hl
      exact hway l hl
  · intro f' g hg
    rw [last?_concat] at hg
    split_ifs at hg with heq
    · cases hg
      rw [← heq]
      exact hplace
    · refine (hupdates.entry_eq_file_iff fun p hp hl => ?_).mpr (hmade.place f' g hg)
      rw [List.mem_singleton.mp hp, hmade.home h.home] at hl
      dsimp only at hl
      exact heq hl.symm

/-! ## Many files -/

variable (P) in
/-- The entries of the files, written one after another. -/
def entries (σ : Path → Schema) (built : Table String Schema) (files : List Path) :
    Table String Schema :=
  files.foldl (fun t f => t.insert (P.key f) (σ f)) built

/-- A file that finds no snapshot to use is compiled anew. -/
theorem Ready.compileOne_ok (h : P.Ready σ systemEntities d files)
    (hmade : P.Made σ systemEntities d d' past) (hpast : ∀ g ∈ past, g ∈ files) (hf : f ∈ files)
    (hbuilds : P.Builds d systemEntities f (σ f))
    (hclear : ∀ f ∈ files, ∀ g ∈ files, P.place f ∉ P.way g)
    (hreuse : ¬ P.Reuses d systemEntities past f) :
    ∃ d'', (compileOne P.formats f P.build P.root systemEntities).outcome d' =
        (.ok (P.key f, σ f), d'') ∧
      P.Made σ systemEntities d d'' (past ++ [f]) ∧
      ∀ k, ¬ (compileOne P.formats f P.build P.root systemEntities).Tells d' (.reused k) := by
  have hkey := outcome_keyOf_of_below (h.below f hf) (hmade.home h.home)
  have hopen := h.isOpen hmade hpast hf hclear
  have hrenew : ((renew P.formats (P.key f) f (P.snapshot f) systemEntities).outcome d').1 =
      .ok (σ f) :=
    (renew_eq_ok_iff hmade.solid (runs_outcome _ _)).mpr
      ⟨h.compile hmade hpast hf, hopen, hbuilds.2⟩
  have hsome := h.consult_some_iff hmade hpast hf (P.key f)
  refine ⟨_, ?_, (h.concat hmade hpast hf (Prod.ext hrenew rfl)).2.2, fun k htells => ?_⟩
  · rw [outcome_compileOne hkey, ← snapshot]
    rcases hconsult : ((consult P.formats (P.key f) f (P.snapshot f) systemEntities).outcome d').1
      with e | _ | s
    · exact absurd hconsult (consult_ne_error hopen)
    · dsimp only
      rw [hrenew]
      rfl
    · exact absurd (hsome.mp ⟨s, hconsult⟩) hreuse
  · exact hreuse (hsome.mp ((tells_compileOne hkey).mp htells).2)

/-- A file that is built without a look at a snapshot was compiled anew. -/
theorem Ready.of_compileOne (h : P.Ready σ systemEntities d files)
    (hmade : P.Made σ systemEntities d d' past) (hpast : ∀ g ∈ past, g ∈ files) (hf : f ∈ files)
    {key : String} {s : Schema}
    (hone : (compileOne P.formats f P.build P.root systemEntities).outcome d' =
      (.ok (key, s), d''))
    (htells : ∀ k, ¬ (compileOne P.formats f P.build P.root systemEntities).Tells d' (.reused k)) :
    key = P.key f ∧ s = σ f ∧ P.Builds d systemEntities f s ∧
      P.Made σ systemEntities d d'' (past ++ [f]) ∧ ¬ P.Reuses d systemEntities past f := by
  have hkey := outcome_keyOf_of_below (h.below f hf) (hmade.home h.home)
  have hreuse : ¬ P.Reuses d systemEntities past f := fun hreuse =>
    htells (P.key f) ((tells_compileOne hkey).mpr
      ⟨rfl, (h.consult_some_iff hmade hpast hf _).mpr hreuse⟩)
  rw [outcome_compileOne hkey, ← snapshot] at hone
  rcases hconsult : ((consult P.formats (P.key f) f (P.snapshot f) systemEntities).outcome d').1
    with e | _ | s' <;> rw [hconsult] at hone
  · cases hone
  · rcases hrenew : (renew P.formats (P.key f) f (P.snapshot f) systemEntities).outcome d'
      with ⟨e | s', d₁⟩
    · rw [hrenew] at hone
      cases hone
    · rw [hrenew] at hone
      cases hone
      obtain ⟨hs, hbuilds, hmade'⟩ := h.concat hmade hpast hf hrenew
      exact ⟨rfl, hs, hbuilds, hmade', hreuse⟩
  · exact absurd ((h.consult_some_iff hmade hpast hf _).mp ⟨s', hconsult⟩) hreuse

/-- **A build in which no file finds a snapshot to use** gives every file its own entry. -/
theorem Ready.compileInto_ok (h : P.Ready σ systemEntities d files)
    (hbuilds : ∀ f ∈ files, P.Builds d systemEntities f (σ f))
    (hclear : ∀ f ∈ files, ∀ g ∈ files, P.place f ∉ P.way g) :
    ∀ {rest past : List Path} {d' : Disk} {built : Table String Schema},
    P.Made σ systemEntities d d' past → (∀ g ∈ past, g ∈ files) → (∀ f ∈ rest, f ∈ files) →
    (∀ before f after, rest = before ++ f :: after →
      ¬ P.Reuses d systemEntities (past ++ before) f) →
    ((compileInto P.formats P.build P.root systemEntities built rest).outcome d').1 =
        .ok (P.entries σ built rest) ∧
      ∀ k, ¬ (compileInto P.formats P.build P.root systemEntities built rest).Tells d' (.reused k)
  | [], _, _, _, _, _, _, _ => ⟨rfl, fun _ => nofun⟩
  | f :: rest, past, d', built, hmade, hpast, hrest, hreuse => by
      rw [List.forall_mem_cons] at hrest
      have hfirst : ¬ P.Reuses d systemEntities past f := by
        simpa using hreuse [] f rest rfl
      obtain ⟨d'', hone, hmade', htells⟩ :=
        h.compileOne_ok hmade hpast hrest.1 (hbuilds f hrest.1) hclear hfirst
      have hpast' : ∀ g ∈ past ++ [f], g ∈ files :=
        List.forall_mem_append.mpr ⟨hpast, List.forall_mem_singleton.mpr hrest.1⟩
      have hreuse' : ∀ before g after, rest = before ++ g :: after →
          ¬ P.Reuses d systemEntities (past ++ [f] ++ before) g := by
        rintro before g after rfl
        rw [List.append_assoc]
        exact hreuse (f :: before) g after rfl
      have ih : _ ∧ ∀ k, ¬ (compileInto P.formats P.build P.root systemEntities
          (built.insert (P.key f) (σ f)) rest).Tells d'' (.reused k) :=
        Ready.compileInto_ok h hbuilds hclear hmade' hpast' hrest.2 hreuse'
      refine ⟨?_, fun k hk => ?_⟩
      · rw [outcome_compileInto_cons, hone]
        exact ih.1
      · rcases tells_compileInto_cons.mp hk with hk | ⟨_, _, _, hone', hk⟩
        · exact htells k hk
        · rw [hone] at hone'
          cases hone'
          exact ih.2 k hk

/-- **In a build without a look at a snapshot**, no file found one to use. -/
theorem Ready.of_compileInto (h : P.Ready σ systemEntities d files) {t : Table String Schema} :
    ∀ {rest past : List Path} {d' : Disk} {built : Table String Schema},
    P.Made σ systemEntities d d' past → (∀ g ∈ past, g ∈ files) → (∀ f ∈ rest, f ∈ files) →
    (compileInto P.formats P.build P.root systemEntities built rest).outcome d' = (.ok t, d'') →
    (∀ k, ¬ (compileInto P.formats P.build P.root systemEntities built rest).Tells d'
      (.reused k)) →
    t = P.entries σ built rest ∧ (∀ f ∈ rest, ∃ s, P.Builds d systemEntities f s) ∧
      P.Made σ systemEntities d d'' (past ++ rest) ∧
      ∀ before f after, rest = before ++ f :: after →
        ¬ P.Reuses d systemEntities (past ++ before) f
  | [], past, _, _, hmade, _, _, hok, _ => by
      cases hok
      refine ⟨rfl, nofun, by rwa [List.append_nil], fun before f after heq => ?_⟩
      exact absurd heq.symm (by simp)
  | f :: rest, past, d', built, hmade, hpast, hrest, hok, htells => by
      rw [List.forall_mem_cons] at hrest
      rw [outcome_compileInto_cons] at hok
      rcases hone : (compileOne P.formats f P.build P.root systemEntities).outcome d'
        with ⟨e | ⟨key, s⟩, d₁⟩ <;> rw [hone] at hok
      · cases hok
      · obtain ⟨rfl, rfl, hbuilds, hmade', hreuse⟩ := h.of_compileOne hmade hpast hrest.1 hone
          fun k hk => htells k (tells_compileInto_cons.mpr (.inl hk))
        have hpast' : ∀ g ∈ past ++ [f], g ∈ files :=
          List.forall_mem_append.mpr ⟨hpast, List.forall_mem_singleton.mpr hrest.1⟩
        obtain ⟨ht, hbuilds', hmade'', hreuse'⟩ := Ready.of_compileInto h hmade' hpast' hrest.2 hok
          fun k hk => htells k (tells_compileInto_cons.mpr (.inr ⟨_, _, _, hone, hk⟩))
        rw [List.append_assoc] at hmade''
        refine ⟨ht, List.forall_mem_cons.mpr ⟨⟨_, hbuilds⟩, hbuilds'⟩, hmade'',
          fun before g after heq => ?_⟩
        cases before with
        | nil =>
          cases heq
          simpa using hreuse
        | cons b before =>
          cases heq
          simpa using hreuse' before g after rfl

/-! ## The first build -/

/-- Where all places are different, no snapshot is used that was just made. -/
theorem not_reuses_of_nodup (h : (files.map P.place).Nodup) {before after : List Path}
    (heq : files = before ++ f :: after) : ¬ P.Reuses d systemEntities before f := by
  intro hreuse
  obtain ⟨g, -, hg, -⟩ := hreuse.snapshot
  obtain ⟨hmem, hplace⟩ := of_last?_eq_some hg
  rw [heq, List.map_append, List.nodup_append] at h
  exact h.2.2 _ (List.mem_map_of_mem hmem) _ (List.mem_map_of_mem (List.mem_cons_self ..)) hplace

/-- Where all names are plain, nothing is reused if the keys are distinct. -/
theorem Plain.not_reuses (h : P.Plain {f | f ∈ files}) (hkeys : (files.map P.key).Nodup)
    {before after : List Path} (heq : files = before ++ f :: after) :
    ¬ P.Reuses d systemEntities before f := by
  refine not_reuses_of_nodup (List.Nodup.map_on (fun g hg g' hg' hplace => ?_) hkeys.of_map) heq
  obtain ⟨_, _, hat⟩ := h.names g hg
  obtain ⟨_, _, hat'⟩ := h.names g' hg'
  exact List.inj_on_of_nodup_map hkeys hg hg' ((hat.place_eq_iff hat').mp hplace)

/-- Where all names are plain, no snapshot is there if the build directory is empty. -/
theorem Plain.cold (h : P.Plain {f | f ∈ files}) (hd : P.Empty d) : P.Cold d files where
  place f hf := by
    obtain ⟨_, _, hat⟩ := h.names f hf
    exact hat.entry?_place hd
  way f hf := by
    obtain ⟨_, _, hat⟩ := h.names f hf
    exact hat.not_isFile_way hd

variable (P) in
/-- A build gives every file an entry of its own, with the schema that the very file compiles to,
and answers none from a snapshot. -/
structure OwnEntries (d : Disk) (systemEntities : Bool) (files : List Path) : Prop where
  /-- Every file has an entry, no two have the same, and each is what the file compiles to. -/
  entries : ∃ t, ((compileAll P.formats files P.build P.root systemEntities).outcome d).1 = .ok t ∧
    t.size = files.length ∧ ∀ f ∈ files, ∃ s,
      ((Source.compile P.formats f systemEntities).outcome d).1 = .ok s ∧ t.get? (P.key f) = some s
  /-- No snapshot is used. -/
  anew : ∀ key,
    ¬ (compileAll P.formats files P.build P.root systemEntities).Tells d (.reused key)

/-- Files that can be built get their own entries if nothing stands between them. -/
theorem Cold.ownEntries (hcold : P.Cold d files) (hhome : d.home = P.home) (hd : d.Solid)
    (hbelow : ∀ f ∈ files, P.Below f) (hbuilds : ∀ f ∈ files, ∃ s, P.Builds d systemEntities f s)
    (hkeys : (files.map P.key).Nodup) (hclear : ∀ f ∈ files, ∀ g ∈ files, P.place f ∉ P.way g)
    (hreuse : ∀ before f after, files = before ++ f :: after →
      ¬ P.Reuses d systemEntities before f) : P.OwnEntries d systemEntities files := by
  choose! σ hσ using hbuilds
  have hready : P.Ready σ systemEntities d files :=
    ⟨hhome, hd, hcold, hbelow, fun f hf => (hσ f hf).1⟩
  obtain ⟨hok, htells⟩ :=
    hready.compileInto_ok hσ hclear (.nil hd) nofun (fun _ hf => hf) hreuse
  refine ⟨⟨_, hok, Table.size_foldl_insert_iff.mpr hkeys, fun f hf => ⟨σ f, (hσ f hf).1, ?_⟩⟩,
    htells⟩
  exact Table.get?_foldl_insert_of_nodup hkeys f hf

/-- Files that get their own entries were built with nothing between them. -/
theorem Cold.of_ownEntries (hcold : P.Cold d files) (hhome : d.home = P.home) (hd : d.Solid)
    (hbelow : ∀ f ∈ files, P.Below f) (hown : P.OwnEntries d systemEntities files) :
    (∀ f ∈ files, ∃ s, P.Builds d systemEntities f s) ∧ (files.map P.key).Nodup ∧
      (∀ f ∈ files, ∀ g ∈ files, P.place f ∉ P.way g) ∧
      ∀ before f after, files = before ++ f :: after → ¬ P.Reuses d systemEntities before f := by
  obtain ⟨⟨t, ht, hsize, hentries⟩, htells⟩ := hown
  have hcompile : ∀ f ∈ files, ∃ s,
      ((Source.compile P.formats f systemEntities).outcome d).1 = .ok s :=
    fun f hf => (hentries f hf).imp fun _ hs => hs.1
  choose! σ hσ using hcompile
  have hready : P.Ready σ systemEntities d files := ⟨hhome, hd, hcold, hbelow, hσ⟩
  obtain ⟨rfl, hbuilds, hmade, hreuse⟩ :=
    hready.of_compileInto (.nil hd) nofun (fun _ hf => hf) (Prod.ext ht rfl) htells
  refine ⟨hbuilds, Table.size_foldl_insert_iff.mp hsize, fun f hf g hg hmem => ?_, hreuse⟩
  obtain ⟨f', hf'⟩ := exists_last?_eq_some hf rfl
  exact IsFile.not_isDirectory ⟨_, _, hmade.place f f' hf'⟩ (hmade.way g hg _ hmem)

/-- **When a first build gives every file its own schema.**  Files get their own entries exactly if
all of them compile to schemas that can be written, their keys are distinct, no snapshot has a place
on the way to another, and no file finds a snapshot to use that was made for an earlier one. -/
theorem first_build_iff (P : Project) {d : Disk} (hhome : d.home = P.home) (hd : d.Solid)
    {files : List Path} (hbelow : ∀ f ∈ files, P.Below f) (systemEntities : Bool)
    (hcold : P.Cold d files) :
    P.OwnEntries d systemEntities files ↔
      (∀ f ∈ files, ∃ s, P.Builds d systemEntities f s) ∧ (files.map P.key).Nodup ∧
      (∀ f ∈ files, ∀ g ∈ files, P.place f ∉ P.way g) ∧
      ∀ before f after, files = before ++ f :: after → ¬ P.Reuses d systemEntities before f :=
  ⟨hcold.of_ownEntries hhome hd hbelow, fun ⟨hbuilds, hkeys, hclear, hreuse⟩ =>
    hcold.ownEntries hhome hd hbelow hbuilds hkeys hclear hreuse⟩

/-- **Where all names are plain**, a first build gives every file its own schema exactly if all
files can be built and their keys are distinct. -/
theorem Plain.ownEntries_iff (h : P.Plain {f | f ∈ files}) (hhome : d.home = P.home) (hd : d.Solid)
    (hempty : P.Empty d) : P.OwnEntries d systemEntities files ↔
      (∀ f ∈ files, ∃ s, P.Builds d systemEntities f s) ∧ (files.map P.key).Nodup := by
  have hbelow : ∀ f ∈ files, P.Below f := fun f hf => by
    obtain ⟨_, _, hat⟩ := h.names f hf
    exact hat.isBelow
  constructor
  · intro hown
    obtain ⟨hbuilds, hkeys, -⟩ := (h.cold hempty).of_ownEntries hhome hd hbelow hown
    exact ⟨hbuilds, hkeys⟩
  · rintro ⟨hbuilds, hkeys⟩
    exact (h.cold hempty).ownEntries hhome hd hbelow hbuilds hkeys
      (fun _ hf _ hg => h.place_notMem_way hf hg) fun _ _ _ => h.not_reuses hkeys

/-! ### Files with the same name

The name of a file without its suffix is its key, in its directory. -/

/-- A schema file. -/
def twin : Path := ⟨true, ["a.yaml"]⟩

/-- A schema file that differs from `twin` in its suffix. -/
def twinOther : Path := ⟨true, ["a.yml"]⟩

/-- A schema file that differs from `twin` in its directory. -/
def twinBelow : Path := ⟨true, ["sub", "a.yaml"]⟩

/-- The disk with the three files. -/
def twinsDisk : Disk :=
  ((Job.save twinBelow (.ok "A: b")).outcome ((Job.save twinOther (.ok "A: b")).outcome
    ((Job.save twin (.ok "A: b")).outcome {}).2).2).2

/-- Files in different directories get their own entries, files with different suffixes do not. -/
theorem first_build_iff_twins :
    (∀ f ∈ [twin, twinOther, twinBelow],
      ∃ s, ((Source.compile .standard f false).outcome twinsDisk).1 = .ok s) ∧
    atRoot.OwnEntries twinsDisk false [twin, twinBelow] ∧
      ¬ atRoot.OwnEntries twinsDisk false [twin, twinOther] := by
  have hbuilds : ∀ f ∈ [twin, twinOther, twinBelow],
      ∃ s, atRoot.Builds twinsDisk false f s := by
    simp only [List.forall_mem_cons]
    exact ⟨exists_builds_atRoot rfl, exists_builds_atRoot rfl, exists_builds_atRoot rfl,
      List.forall_mem_nil _⟩
  have hbelow : ∀ f ∈ [twin, twinOther, twinBelow], atRoot.Below f := by
    simp only [List.forall_mem_cons]
    exact ⟨⟨_, _, rfl⟩, ⟨_, _, rfl⟩, ⟨_, _, rfl⟩, List.forall_mem_nil _⟩
  have hcold : atRoot.Cold twinsDisk [twin, twinOther, twinBelow] := ⟨by decide, by decide⟩
  have hsave : ∀ (p : Path) (text : String) {d : Disk}, d.Solid →
      Solid ((Job.save p (.ok text)).outcome d).2 :=
    fun _ _ _ hd => (updates_of_save hd (runs_outcome _ _)).2
  have hsolid : twinsDisk.Solid := hsave _ _ (hsave _ _ (hsave _ _ solid_empty))
  have hiff : ∀ files : List Path, files ⊆ [twin, twinOther, twinBelow] → _ := fun _ hsub =>
    first_build_iff atRoot rfl hsolid (fun f hf => hbelow f (hsub hf)) false
      ⟨fun f hf => hcold.place f (hsub hf), fun f hf => hcold.way f (hsub hf)⟩
  refine ⟨fun f hf => (hbuilds f hf).imp fun _ hs => hs.1, ?_, fun hown => ?_⟩
  · refine (hiff [twin, twinBelow] (by simp)).mpr
      ⟨fun f hf => hbuilds f ?_, by decide, by decide, fun _ _ _ => not_reuses_of_nodup (by decide)⟩
    rw [List.mem_pair] at hf
    rcases hf with rfl | rfl <;> simp
  · exact absurd ((hiff [twin, twinOther] (by simp)).mp hown).2.1 (by decide)

end Project

end EntitySchema
