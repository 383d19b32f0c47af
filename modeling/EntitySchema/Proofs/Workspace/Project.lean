import EntitySchema.Proofs.Snapshot.RoundTrip
import EntitySchema.Proofs.Workspace.Build
import Mathlib.Data.Set.Basic

/-!
# Proofs/Workspace/Project — the snapshots of a project

    a snapshot that can be read, newer than its source   ⟹   it holds what the source compiles to

One invariant carries every build (`Project.Sound`): no snapshot says anything wrong about its
source. It is kept by whatever writes a source, since what is new is not older than any snapshot,
and by whatever writes to a snapshot what the source just compiled to (`Sound.updates`).
-/

namespace EntitySchema

open Job Disk Build

/-- Where a project is, and how its files are read. -/
structure Project where
  /-- The working directory. -/
  home : Location
  /-- The root of the project. -/
  root : Path
  /-- The directory for snapshots. -/
  build : Path
  /-- The formats of the files. -/
  formats : Formats

namespace Project

/-- A project in the root directory, with the formats of the program. -/
def atRoot : Project := ⟨[], ⟨true, []⟩, ⟨true, ["build"]⟩, .standard⟩

variable (P : Project)

/-- Where a path leads. -/
def location (p : Path) : Location := p.resolve P.home

/-- The key of a source. -/
def key (f : Path) : String :=
  match Location.below? (P.location P.root) (P.location f) with
  | some parts => unitKey parts
  | none => ""

/-- The path of the snapshot of a source. -/
def snapshot (f : Path) : Path := snapshotPath (P.key f) P.build

/-- Where the snapshot of a source is. -/
def place (f : Path) : Location := P.location (P.snapshot f)

/-- The locations on the way to the snapshot of a source. -/
def way (f : Path) : List Location := (P.snapshot f).trail P.home

/-- A source lies below the root. -/
def Below (f : Path) : Prop :=
  ∃ name names, Location.below? (P.location P.root) (P.location f) = some (name :: names)

/-- A location is above a source, or above the working directory. -/
def Above (f : Path) (l : Location) : Prop := l <+: P.home ∨ l <+: P.location f

/-- The sources of a project lie below its root, none of them is a snapshot, and no two have the
same snapshot. -/
structure Holds (sources : Set Path) : Prop where
  /-- All sources are below the root. -/
  below : ∀ f ∈ sources, P.Below f
  /-- No path makes a detour through directories for snapshots. -/
  direct : ∀ f ∈ sources, ∀ g ∈ sources, ∀ l ∈ f.trail P.home, l ∈ P.way g → P.Above f l
  /-- No source has the place of a snapshot. -/
  away : ∀ f ∈ sources, ∀ g ∈ sources, P.place f ≠ P.location g
  /-- Every source has a place for its snapshot alone. -/
  apart : ∀ f ∈ sources, ∀ g ∈ sources, P.place f = P.place g → P.location f = P.location g

/-- What the current content of a source compiles to. -/
def schema? (d : Disk) (systemEntities : Bool) (f : Path) : Option Schema :=
  match d.entry? (P.location f) with
  | some (.file text _) => Source.schemaOf? P.formats systemEntities text
  | _ => none

variable {P} {sources : Set Path} {d d' : Disk} {f g : Path} {systemEntities : Bool}

/-! ## Sources on a disk -/

theorem schema?_congr (h : d'.entry? (P.location f) = d.entry? (P.location f)) :
    P.schema? d' systemEntities f = P.schema? d systemEntities f := by
  rw [schema?, schema?, h]

theorem entry_ne_none_of_schema? {s : Schema} (h : P.schema? d systemEntities f = some s) :
    d.entry? (P.location f) ≠ none := by
  intro hnone
  rw [schema?, hnone] at h
  cases h

/-- What is above something is there. -/
theorem Above.entry_ne_none {l : Location} (h : P.Above f l) (hhome : d.home = P.home)
    (hd : d.Solid) (hf : d.entry? (P.location f) ≠ none) : d.entry? l ≠ none := by
  rcases h with hpre | hpre
  · obtain ⟨t, ht⟩ := hd.home l (hhome ▸ hpre)
    rw [ht]
    exact Option.some_ne_none _
  · by_cases heq : l = P.location f
    · rwa [heq]
    · obtain ⟨t, ht⟩ := hd.isDirectory_of_prefix hpre heq hf
      rw [ht]
      exact Option.some_ne_none _

/-- **A source compiles to what its current content compiles to**, if all on the way to it is
there. -/
theorem compile_eq_ok_iff (hhome : d.home = P.home) {s : Schema} :
    ((Source.compile P.formats f systemEntities).outcome d).1 = .ok s ↔
      (∀ l ∈ f.trail P.home, d.IsDirectory l) ∧ P.schema? d systemEntities f = some s := by
  simp only [Source.compile_eq_ok_iff, Disk.read_eq_ok_iff, schema?, location, hhome]
  rcases d.entry? (f.resolve P.home) with _ | text | t <;> simp

theorem outcome_keyOf_of_below (hf : P.Below f) (hhome : d.home = P.home) :
    (keyOf f P.root).outcome d = (.ok (P.key f), d) := by
  obtain ⟨name, names, hparts⟩ := hf
  rw [key, hparts]
  refine outcome_keyOf (List.cons_ne_nil name names) ?_
  rwa [hhome]

/-! ## The invariant -/

variable (P) in
/-- If the text of the snapshot of `f` can be read, it was written by a build, and if `f` has not
changed since, then the text holds what `f` compiles to. -/
def Vouches (d : Disk) (f : Path) (text : String) (made : ℕ) : Prop :=
  ∀ s found, Snapshot.decode P.formats.models text = .ok (s, found) → ∃ systemEntities,
    found = options systemEntities ∧ Snapshot.encode P.formats.models s found = .ok text ∧
    ∀ e, d.entry? (P.location f) = some e → e.time < made → P.schema? d systemEntities f = some s

variable (P) in
/-- The state of a disk between any two steps. -/
structure Sound (sources : Set Path) (d : Disk) : Prop where
  /-- The working directory is that of the project. -/
  home : d.home = P.home
  /-- Whatever exists stands in a directory. -/
  solid : d.Solid
  /-- Nothing was changed in the future. -/
  clock : ∀ l e, d.entry? l = some e → e.time ≤ d.clock
  /-- The sources are documents of JSON data. -/
  json : ∀ f ∈ sources, ∀ text t, d.entry? (P.location f) = some (.file text t) →
    Source.JsonValued P.formats text
  /-- No snapshot says anything wrong. -/
  snapshots : ∀ f ∈ sources, ∀ text made, d.entry? (P.place f) = some (.file text made) →
    P.Vouches d f text made

/-- A snapshot vouches as long as its source is there as it was, or is newer. -/
theorem Vouches.congr {text : String} {made : ℕ} (h : P.Vouches d f text made)
    (hentry : ∀ e, d'.entry? (P.location f) = some e → e.time < made →
      d.entry? (P.location f) = some e) : P.Vouches d' f text made := by
  intro s found hread
  obtain ⟨systemEntities, hfound, htext, hs⟩ := h s found hread
  refine ⟨systemEntities, hfound, htext, fun e he htime => ?_⟩
  have hsame := hentry e he htime
  rw [schema?_congr (he.trans hsame.symm)]
  exact hs e hsame htime

theorem vouches_of_error {text : String}
    (h : ∃ cause, Snapshot.decode P.formats.models text = .error cause)
    (made : ℕ) : P.Vouches d f text made := by
  obtain ⟨cause, hcause⟩ := h
  intro s found hread
  rw [hcause] at hread
  cases hread

/-- **An update keeps the invariant** if it writes JSON data to sources, and to snapshots what they
may hold. -/
theorem Sound.updates (hd : P.Sound sources d) {fs : List Draft} (h : Updates d d' fs)
    (hsolid : d'.Solid)
    (hjson : ∀ p text, (p, .ok text) ∈ fs → ∀ f ∈ sources, P.location p = P.location f →
      Source.JsonValued P.formats text)
    (hvouch : ∀ p text, (p, .ok text) ∈ fs → ∀ f ∈ sources, P.location p = P.place f →
      ∀ made, P.Vouches d' f text made) :
    P.Sound sources d' where
  home := h.home.trans hd.home
  solid := hsolid
  clock l e he := by
    rcases h.time l e he with he | ⟨-, hle⟩
    · exact (hd.clock l e he).trans h.clock
    · exact hle
  json f hf text t ht := by
    rcases h.of_file ht with ht | ⟨p, hp, hl⟩
    · exact hd.json f hf text t ht
    · rw [hd.home] at hl
      exact hjson p text hp f hf hl
  snapshots f hf text made hmade := by
    rcases h.of_file hmade with hmade | ⟨p, hp, hl⟩
    · -- A source that is older than its snapshot is not new.
      refine (hd.snapshots f hf text made hmade).congr fun e he htime => ?_
      refine (h.time _ e he).resolve_right fun ⟨hle, _⟩ => ?_
      exact absurd (htime.trans_le (hd.clock _ _ hmade)) (not_lt.mpr hle)
    · rw [hd.home] at hl
      exact hvouch p text hp f hf hl made

end Project

end EntitySchema
