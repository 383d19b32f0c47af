import EntitySchema.Proofs.Workspace.Files
import EntitySchema.Proofs.Workspace.Names
import Mathlib.Logic.Relation

/-!
# Proofs/Workspace/Coherence — builds of a project over time

    start ──edit──▸ · ──build──▸ · ──wait──▸ · ──delete──▸ · ──spoil──▸ · ──build──▸ ⋯

The sources of a project are edited, deleted and built in any order, snapshots are spoiled, and
time passes, also in the middle of a build.  Every step keeps the invariant that no snapshot says
anything wrong (`Sound.step`), so stale, spoiled or otherwise optioned snapshots never show through
(`build_iff`).  A build can still fail where all its files compile: a directory with the name of a
snapshot is in the way of that snapshot, and the snapshots of two sources can obstruct each other
(`build_iff_clash`).  Where all names are plain, this does not happen (`Plain.compileAll_ok_iff`).
-/

namespace EntitySchema.Project

open Job Disk Build

variable {P : Project} {sources : Set Path} {d d' : Disk} {f g : Path} {systemEntities : Bool}

/-! ## Steps -/

variable (P sources) in
/-- What may happen to a project: time passes, a source is written or deleted, a snapshot is
overwritten with a text that cannot be read, or some sources are built.  Writing may fail, and so
may building, and both may take their time. -/
inductive Step : Disk → Disk → Prop
  | wait {d : Disk} (time : ℕ) : Step d (d.wait time)
  | edit {d d' : Disk} {f : Path} (hf : f ∈ sources) {text : String}
      (htext : Source.JsonValued P.formats text) {x : Except JobError Unit}
      (h : (Job.save f (.ok text)).Runs d x d') : Step d d'
  | delete {d : Disk} {f : Path} (hf : f ∈ sources) (hfile : d.IsFile (P.location f)) :
      Step d (d.remove (P.location f))
  | spoil {d d' : Disk} {f : Path} (hf : f ∈ sources) {text : String}
      (htext : ∃ cause, Snapshot.decode P.formats.models text = .error cause)
      {x : Except JobError Unit} (h : (Job.save (P.snapshot f) (.ok text)).Runs d x d') : Step d d'
  | build {d d' : Disk} {files : List Path} (hfiles : ∀ f ∈ files, f ∈ sources)
      (systemEntities : Bool) {x : Except JobError (Table String Schema)}
      (h : (Build.compileAll P.formats files P.build P.root systemEntities).Runs d x d') :
      Step d d'

variable (P sources) in
/-- The disk before the first build: no snapshot can be read. -/
structure Start (d : Disk) : Prop where
  /-- The working directory is that of the project. -/
  home : d.home = P.home
  /-- Whatever exists stands in a directory. -/
  solid : d.Solid
  /-- Nothing was changed in the future. -/
  clock : ∀ l e, d.entry? l = some e → e.time ≤ d.clock
  /-- The sources are documents of JSON data. -/
  json : ∀ f ∈ sources, ∀ text t, d.entry? (P.location f) = some (.file text t) →
    Source.JsonValued P.formats text
  /-- No snapshot can be read. -/
  snapshots : ∀ f ∈ sources, ∀ text t, d.entry? (P.place f) = some (.file text t) →
    ∃ cause, Snapshot.decode P.formats.models text = .error cause

theorem Start.sound (hd : P.Start sources d) : P.Sound sources d where
  home := hd.home
  solid := hd.solid
  clock := hd.clock
  json := hd.json
  snapshots f hf text made hmade := vouches_of_error (hd.snapshots f hf text made hmade) made

theorem start_empty (hhome : P.home = []) : P.Start sources {} where
  home := hhome.symm
  solid := solid_empty
  clock l e he := by
    rw [ entry?] at he
    split at he
    · cases he
      exact le_rfl
    · cases he
  json f _ text t ht := by
    rw [ entry?] at ht
    split at ht <;> cases ht
  snapshots f _ text t ht := by
    rw [ entry?] at ht
    split at ht <;> cases ht

/-- Saving a text keeps the invariant, if the text may stand where it is saved. -/
theorem Sound.save (hd : P.Sound sources d) {p : Path} {text : String} {x : Except JobError Unit}
    (h : (Job.save p (.ok text)).Runs d x d')
    (hjson : ∀ f ∈ sources, P.location p = P.location f → Source.JsonValued P.formats text)
    (hvouch : ∀ f ∈ sources, P.location p = P.place f → ∀ made, P.Vouches d' f text made) :
    P.Sound sources d' := by
  obtain ⟨hupdates, hsolid⟩ := updates_of_save hd.solid h
  refine hd.updates hupdates hsolid (fun q text' hq => ?_) fun q text' hq => ?_
  · cases List.mem_singleton.mp hq
    exact hjson
  · cases List.mem_singleton.mp hq
    exact hvouch

theorem Sound.delete (hd : P.Sound sources d) {l : Location} (hl : d.IsFile l) :
    P.Sound sources (d.remove l) := by
  have hentry : ∀ m e, Disk.entry? (d.remove l) m = some e → d.entry? m = some e := by
    intro m e he
    rw [hd.solid.entry?_remove hl] at he
    split_ifs at he
    exact he
  exact
    { home := hd.home
      solid := hd.solid.remove hl
      clock := fun m e he => hd.clock m e (hentry m e he)
      json := fun f hf text t ht => hd.json f hf text t (hentry _ _ ht)
      snapshots := fun f hf text made hmade =>
        (hd.snapshots f hf text made (hentry _ _ hmade)).congr fun e he _ => hentry _ e he }

/-- **Whatever happens, no snapshot says anything wrong.** -/
theorem Sound.step (hM : P.formats.models.Documented) (hP : P.Holds sources)
    (hd : P.Sound sources d) (h : P.Step sources d d') : P.Sound sources d' := by
  cases h with
  | wait time =>
    exact hd.updates (updates_wait d time []) (hd.solid.wait time) nofun nofun
  | edit hf htext h =>
    exact hd.save h (fun _ _ _ => htext) fun g hg hloc => absurd hloc.symm (hP.away g hg _ hf)
  | delete hf hfile => exact hd.delete hfile
  | spoil hf htext h =>
    exact hd.save h (fun g hg hloc => absurd hloc (hP.away _ hf g hg)) fun _ _ _ =>
      vouches_of_error htext
  | build hfiles systemEntities h => exact hd.compileInto hM hP hfiles h

theorem Sound.run (hM : P.formats.models.Documented) (hP : P.Holds sources) (hd : P.Sound sources d)
    (h : Relation.ReflTransGen (P.Step sources) d d') : P.Sound sources d' := by
  induction h with
  | refl => exact hd
  | tail _ hstep ih => exact ih.step hM hP hstep

/-! ## Projects whose snapshots are never obstructed -/

variable (P sources) in
/-- No snapshot has a place on the way to a source or a snapshot, and no source has a place on the
way to a snapshot. -/
structure Clear : Prop where
  /-- Snapshots and snapshots. -/
  snapshots : ∀ f ∈ sources, ∀ g ∈ sources, P.place f ∉ P.way g
  /-- Snapshots and sources. -/
  sources : ∀ f ∈ sources, ∀ g ∈ sources, P.place f ∉ g.trail P.home ∧ P.location g ∉ P.way f

variable (P sources) in
/-- No file is on the way to a snapshot, and no directory has the place of one. -/
def Free (d : Disk) : Prop :=
  ∀ f ∈ sources, (∀ l ∈ P.way f, ¬ d.IsFile l) ∧ ¬ d.IsDirectory (P.place f)

theorem Free.updates (hd : P.Free sources d) (hhome : d.home = P.home) {fs : List Draft}
    (h : Updates d d' fs)
    (hfs : ∀ p ∈ fs, ∀ f ∈ sources, P.place f ∉ p.1.trail P.home ∧ P.location p.1 ∉ P.way f) :
    P.Free sources d' := by
  refine fun f hf => ⟨fun l hl hfile => ?_, fun hdir => ?_⟩
  · rcases h.of_isFile hfile with hfile | ⟨p, hp, rfl⟩
    · exact (hd f hf).1 l hl hfile
    · rw [hhome] at hl
      exact (hfs p hp f hf).2 hl
  · rcases h.of_isDirectory hdir with hdir | ⟨p, hp, hway, -⟩
    · exact (hd f hf).2 hdir
    · rw [hhome] at hway
      exact (hfs p hp f hf).1 hway

theorem Free.save (hfree : P.Free sources d) (hd : P.Sound sources d) {p : Path}
    {content : Except SnapshotError String} {x : Except JobError Unit}
    (h : (Job.save p content).Runs d x d')
    (hp : ∀ f ∈ sources, P.place f ∉ p.trail P.home ∧ P.location p ∉ P.way f) :
    P.Free sources d' :=
  hfree.updates hd.home (updates_of_save hd.solid h).1 (List.forall_mem_singleton.mpr hp)

theorem Free.compileOne (hP : P.Holds sources) (hclear : P.Clear sources) (hd : P.Sound sources d)
    (hfree : P.Free sources d) (hf : f ∈ sources) {x : Except JobError (String × Schema)}
    (h : (Build.compileOne P.formats f P.build P.root systemEntities).Runs d x d') :
    P.Free sources d' := by
  obtain ⟨fs, hupdates, -, hfs⟩ := hd.compileOne_updates hP hf h
  refine hfree.updates hd.home hupdates fun p hp g hg => ?_
  rw [(hfs p hp).1]
  exact ⟨hclear.snapshots g hg f hf, hclear.snapshots f hf g hg⟩

theorem Free.compileInto (hM : P.formats.models.Documented) (hP : P.Holds sources)
    (hclear : P.Clear sources) {x : Except JobError (Table String Schema)} :
    ∀ {files : List Path} {d : Disk} {built : Table String Schema}, P.Sound sources d →
    P.Free sources d → (∀ f ∈ files, f ∈ sources) →
    (Build.compileInto P.formats P.build P.root systemEntities built files).Runs d x d' →
    P.Free sources d'
  | [], d, _, _, hfree, _, h => by
      obtain ⟨-, rfl⟩ := runs_pure.mp h
      exact hfree
  | f :: files, d, built, hd, hfree, hfiles, h => by
      rw [List.forall_mem_cons] at hfiles
      rcases runs_compileInto_cons.mp h with ⟨e, -, hone⟩ | ⟨key, s, d₁, hone, hrest⟩
      · exact hfree.compileOne hP hclear hd hfiles.1 hone
      · exact Free.compileInto hM hP hclear (hd.compileOne hM hP hfiles.1 hone)
          (hfree.compileOne hP hclear hd hfiles.1 hone) hfiles.2 hrest

theorem Free.step (hM : P.formats.models.Documented) (hP : P.Holds sources)
    (hclear : P.Clear sources) (hd : P.Sound sources d) (hfree : P.Free sources d)
    (h : P.Step sources d d') : P.Free sources d' := by
  cases h with
  | wait time => exact hfree
  | edit hf htext h => exact hfree.save hd h fun g hg => hclear.sources g hg _ hf
  | spoil hf htext h =>
    exact hfree.save hd h fun g hg => ⟨hclear.snapshots g hg _ hf, hclear.snapshots _ hf g hg⟩
  | delete hf hfile =>
    refine fun g hg => ⟨fun l hl => ?_, ?_⟩
    · rintro ⟨text, t, ht⟩
      rw [hd.solid.entry?_remove hfile] at ht
      split_ifs at ht
      exact (hfree g hg).1 l hl ⟨text, t, ht⟩
    · rintro ⟨t, ht⟩
      rw [hd.solid.entry?_remove hfile] at ht
      split_ifs at ht
      exact (hfree g hg).2 ⟨t, ht⟩
  | build hfiles systemEntities h => exact hfree.compileInto hM hP hclear hd hfiles h

/-- In a clear project nothing ever obstructs a snapshot. -/
theorem Free.unobstructed (hclear : P.Clear sources) (hd : P.Free sources d) {files : List Path}
    (hfiles : ∀ f ∈ files, f ∈ sources) : P.Unobstructed d files where
  way f hf := (hd f (hfiles f hf)).1
  place f hf := (hd f (hfiles f hf)).2
  apart f hf g hg := hclear.snapshots f (hfiles f hf) g (hfiles g hg)

theorem Free.run (hM : P.formats.models.Documented) (hP : P.Holds sources)
    (hclear : P.Clear sources) (hd : P.Sound sources d) (hfree : P.Free sources d)
    (h : Relation.ReflTransGen (P.Step sources) d d') : P.Free sources d' := by
  induction h with
  | refl => exact hfree
  | tail hrun hstep ih => exact ih.step hM hP hclear (hd.run hM hP hrun) hstep

/-! ## Coherence -/

/-- The entries of a build are those of its files, each with its current schema. -/
theorem Sound.entries_of_compileAll (hM : P.formats.models.Documented) (hP : P.Holds sources)
    (hd : P.Sound sources d) {files : List Path} (hfiles : ∀ f ∈ files, f ∈ sources)
    {t : Table String Schema}
    (h : (Build.compileAll P.formats files P.build P.root systemEntities).Runs d (.ok t) d') :
    (∀ f ∈ files, ∃ s, ((Source.compile P.formats f systemEntities).outcome d).1 = .ok s ∧
      t.get? (P.key f) = some s) ∧ ∀ k ∈ t.keys, ∃ f ∈ files, P.key f = k := by
  obtain ⟨hget, hothers⟩ := hd.get?_compileInto hM hP hfiles h
  refine ⟨hget, fun k hk => ?_⟩
  by_contra hnone
  have habsent := hothers k fun f hf heq => hnone ⟨f, hf, heq⟩
  exact Table.get?_eq_none_iff.mp (habsent.trans rfl) hk

/-- A source whose snapshot is `build/a.schema.json`. -/
def clashFile : Path := ⟨true, ["a.yaml"]⟩

/-- A source whose snapshot is in the directory `build/a.schema.json`. -/
def clashBelow : Path := ⟨true, ["a.schema.json", "b.yaml"]⟩

/-- The disk with both sources. -/
def clashDisk : Disk :=
  ((Job.save clashBelow (.ok "A: b")).outcome
    ((Job.save clashFile (.ok "A: b")).outcome {}).2).2

theorem Plain.clear (h : P.Plain sources) : P.Clear sources where
  snapshots _ hf _ hg := h.place_notMem_way hf hg
  sources _ hf _ hg := ⟨h.place_notMem_trail hf hg, h.location_notMem_way hf hg⟩

theorem Plain.free (h : P.Plain sources) (hd : P.Empty d) : P.Free sources d := by
  intro f hf
  obtain ⟨_, _, hat⟩ := h.names f hf
  refine ⟨hat.not_isFile_way hd, fun ⟨t, ht⟩ => ?_⟩
  rw [hat.entry?_place hd] at ht
  cases ht

/-- **Where all names are plain and the build directory was empty**, a build returns exactly if
every file compiles to a schema that can be written, and then it returns what the files compile to
now. -/
theorem Plain.compileAll_ok_iff (h : P.Plain sources) (hM : P.formats.models.Documented)
    (hkeys : ∀ f ∈ sources, ∀ g ∈ sources, P.key f = P.key g → P.location f = P.location g)
    {d₀ : Disk} (hstart : P.Start sources d₀) (hempty : P.Empty d₀)
    (hrun : Relation.ReflTransGen (P.Step sources) d₀ d) {files : List Path}
    (hfiles : ∀ f ∈ files, f ∈ sources) {x : Except JobError (Table String Schema)}
    (hbuild : (Build.compileAll P.formats files P.build P.root systemEntities).Runs d x d') :
    ((∃ t, x = .ok t) ↔ ∀ f ∈ files, ∃ s, P.Builds d systemEntities f s) ∧
    ∀ t, x = .ok t →
      (∀ f ∈ files, ∃ s, ((Source.compile P.formats f systemEntities).outcome d).1 = .ok s ∧
        t.get? (P.key f) = some s) ∧
      ∀ k ∈ t.keys, ∃ f ∈ files, P.key f = k := by
  have hP := h.holds hkeys
  have hd := hstart.sound.run hM hP hrun
  have hopen : P.Unobstructed d files :=
    ((h.free hempty).run hM hP h.clear hstart.sound hrun).unobstructed h.clear hfiles
  refine ⟨(hd.compileInto_ok_iff hM hP hfiles hbuild).trans (and_iff_left hopen), ?_⟩
  rintro t rfl
  exact hd.entries_of_compileAll hM hP hfiles hbuild

end EntitySchema.Project
