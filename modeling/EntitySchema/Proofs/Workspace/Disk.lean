import EntitySchema.Workspace.Disk
import Mathlib.Data.List.Basic
import Mathlib.Data.List.Induction

/-!
# Proofs/Workspace/Disk — what stays when files are written

    locate p = ok l   ⟺   every location on the way of p is a directory, and l is where p leads

A path is used by way of its `trail`.  On a disk where whatever exists stands in a directory
(`Disk.Solid`), writing and making directories change little: a file is put where no directory is,
and directories appear only where nothing was (`Disk.Grows`).  Where no file is in the way, the
directories of a path can always be made (`ensureDirectories_ok`).
-/

namespace EntitySchema

namespace Path

/-! ## The way of a path -/

/-- The locations where the names are looked up, one after another from `l` on. -/
def trailFrom (l : Location) : List String → List Location
  | [] => []
  | name :: names => l :: trailFrom (follow l name) names

/-- Where a path starts. -/
def start (home : Location) (p : Path) : Location := if p.absolute then [] else home

/-- The locations on the way of a path that is used at `home`, its end left out. -/
def trail (home : Location) (p : Path) : List Location := trailFrom (p.start home) p.parts

theorem resolve_eq (home : Location) (p : Path) :
    p.resolve home = p.parts.foldl follow (p.start home) := rfl

theorem trailFrom_append (names names' : List String) : ∀ l : Location,
    trailFrom l (names ++ names') =
      trailFrom l names ++ trailFrom (names.foldl follow l) names' := by
  induction names with
  | nil => exact fun _ => rfl
  | cons name names ih => exact fun l => congrArg (l :: ·) (ih (follow l name))

theorem exists_parts_eq {p : Path} (h : p.parts ≠ []) :
    ∃ name, p.parts = p.parent.parts ++ [name] :=
  ⟨p.parts.getLast h, (List.dropLast_append_getLast h).symm⟩

/-- The way of a path is the way of the path above it, and where that one leads. -/
theorem trail_eq_parent {p : Path} (h : p.parts ≠ []) (home : Location) :
    p.trail home = p.parent.trail home ++ [p.parent.resolve home] := by
  obtain ⟨name, hparts⟩ := exists_parts_eq h
  rw [trail, hparts, trailFrom_append]
  rfl

theorem resolve_eq_parent {p : Path} (h : p.parts ≠ []) (home : Location) :
    ∃ name, p.resolve home = follow (p.parent.resolve home) name := by
  obtain ⟨name, hparts⟩ := exists_parts_eq h
  refine ⟨name, ?_⟩
  rw [resolve_eq, hparts, List.foldl_append]
  rfl

/-- The locations on the way of the path above are on the way of the path. -/
theorem parent_trail_subset (p : Path) (home : Location) :
    p.parent.trail home ++ [p.parent.resolve home] ⊆ p.trail home ++ [p.resolve home] := by
  by_cases h : p.parts = []
  · have hparent : p.parent = p := by
      rw [parent, h]
      exact congrArg (Path.mk p.absolute) h.symm
    rw [hparent]
    exact List.Subset.refl _
  · rw [← trail_eq_parent h home]
    exact List.subset_append_left _ _

end Path

namespace Disk

/-- Whether there is a directory at a location. -/
def IsDirectory (d : Disk) (l : Location) : Prop := ∃ t, d.entry? l = some (.directory t)

/-- Whether there is a file at a location. -/
def IsFile (d : Disk) (l : Location) : Prop := ∃ text t, d.entry? l = some (.file text t)

instance (d : Disk) (l : Location) : Decidable (d.IsDirectory l) :=
  match h : d.entry? l with
  | some (.directory t) => isTrue ⟨t, h⟩
  | some (.file _ _) => isFalse fun ⟨t, ht⟩ => by rw [h] at ht; cases ht
  | none => isFalse fun ⟨t, ht⟩ => by rw [h] at ht; cases ht

instance (d : Disk) (l : Location) : Decidable (d.IsFile l) :=
  match h : d.entry? l with
  | some (.file text t) => isTrue ⟨text, t, h⟩
  | some (.directory _) => isFalse fun ⟨_, t, ht⟩ => by rw [h] at ht; cases ht
  | none => isFalse fun ⟨_, t, ht⟩ => by rw [h] at ht; cases ht

theorem isDirectory_nil (d : Disk) : d.IsDirectory [] := ⟨0, rfl⟩

theorem IsFile.not_isDirectory {d : Disk} {l : Location} (h : d.IsFile l) : ¬ d.IsDirectory l := by
  obtain ⟨text, t, h⟩ := h
  rintro ⟨t', h'⟩
  rw [h] at h'
  cases h'

/-- A location holds nothing, a file or a directory. -/
theorem entry?_cases (d : Disk) (l : Location) :
    d.entry? l = none ∨ d.IsFile l ∨ d.IsDirectory l := by
  rcases h : d.entry? l with _ | text | t
  · exact .inl rfl
  · exact .inr (.inl ⟨_, _, h⟩)
  · exact .inr (.inr ⟨_, h⟩)

theorem walk_eq_ok_iff {d : Disk} {m : Location} : ∀ {names : List String} {l : Location},
    d.walk l names = .ok m ↔
      (∀ x ∈ Path.trailFrom l names, d.IsDirectory x) ∧ m = names.foldl Path.follow l
  | [], l => by simp [walk, Path.trailFrom, eq_comm]
  | name :: names, l => by
      rw [walk, Path.trailFrom, List.forall_mem_cons, List.foldl_cons]
      rcases h : d.entry? l with _ | text | t
      · simp [IsDirectory, h]
      · simp [IsDirectory, h]
      · simp [IsDirectory, h, walk_eq_ok_iff]

/-- Where the way breaks off there is nothing, or there is a file. -/
theorem walk_eq_error {d : Disk} {kind : FileFaultKind} : ∀ {names : List String} {l : Location},
    d.walk l names = .error kind →
      kind = .notFound ∨ ∃ x ∈ Path.trailFrom l names, d.IsFile x
  | [], l, h => by cases h
  | name :: names, l, h => by
      rw [walk] at h
      rcases hl : d.entry? l with _ | text | t
      · rw [hl] at h
        cases h
        exact .inl rfl
      · exact .inr ⟨l, List.mem_cons_self .., _, _, hl⟩
      · rw [hl] at h
        exact (walk_eq_error h).imp_right fun ⟨x, hx, hfile⟩ => ⟨x, .tail _ hx, hfile⟩

theorem locate_eq_ok_iff {d : Disk} {p : Path} {l : Location} :
    d.locate p = .ok l ↔ (∀ x ∈ p.trail d.home, d.IsDirectory x) ∧ l = p.resolve d.home :=
  walk_eq_ok_iff

/-- **A path leads to its end over directories, or breaks off.** -/
theorem locate_cases (d : Disk) (p : Path) :
    ((∀ x ∈ p.trail d.home, d.IsDirectory x) ∧ d.locate p = .ok (p.resolve d.home)) ∨
      (¬ (∀ x ∈ p.trail d.home, d.IsDirectory x) ∧ ∃ kind, d.locate p = .error kind) := by
  cases h : d.locate p with
  | ok l =>
    obtain ⟨hdirs, rfl⟩ := locate_eq_ok_iff.mp h
    exact .inl ⟨hdirs, rfl⟩
  | error kind =>
    refine .inr ⟨fun hdirs => ?_, kind, rfl⟩
    rw [locate_eq_ok_iff.mpr ⟨hdirs, rfl⟩] at h
    cases h

/-! ## Reading and writing -/

theorem find?_eq_some_iff {d : Disk} {p : Path} {e : DiskEntry} :
    d.find? p = some e ↔
      (∀ x ∈ p.trail d.home, d.IsDirectory x) ∧ d.entry? (p.resolve d.home) = some e := by
  rw [find?]
  obtain ⟨hdirs, h⟩ | ⟨hdirs, kind, h⟩ := d.locate_cases p
  · rw [h, and_iff_right hdirs]
  · simp [h, hdirs]

theorem read_eq_ok_iff {d : Disk} {p : Path} {text : String} :
    d.read p = .ok text ↔
      (∀ x ∈ p.trail d.home, d.IsDirectory x) ∧
        ∃ t, d.entry? (p.resolve d.home) = some (.file text t) := by
  rw [read]
  obtain ⟨hdirs, h⟩ | ⟨hdirs, kind, h⟩ := d.locate_cases p
  · rw [h, and_iff_right hdirs]
    rcases he : d.entry? (p.resolve d.home) with _ | text' | t <;> simp [he]
  · simp [h, hdirs]

theorem write_eq_ok_iff {d d' : Disk} {p : Path} {text : String} :
    d.write p text = .ok d' ↔
      (∀ x ∈ p.trail d.home, d.IsDirectory x) ∧ ¬ d.IsDirectory (p.resolve d.home) ∧
        d' = d.put (p.resolve d.home) (.file text d.clock) := by
  rw [write]
  obtain ⟨hdirs, h⟩ | ⟨hdirs, kind, h⟩ := d.locate_cases p
  · rw [h, and_iff_right hdirs]
    rcases he : d.entry? (p.resolve d.home) with _ | text' | t <;>
      simp [IsDirectory, he, eq_comm]
  · simp [h, hdirs]

theorem makeDirectory_eq_ok_iff {d d' : Disk} {p : Path} :
    d.makeDirectory p = .ok d' ↔
      (∀ x ∈ p.trail d.home, d.IsDirectory x) ∧ d.entry? (p.resolve d.home) = none ∧
        d' = d.put (p.resolve d.home) (.directory d.clock) := by
  rw [makeDirectory]
  obtain ⟨hdirs, h⟩ | ⟨hdirs, kind, h⟩ := d.locate_cases p
  · rw [h, and_iff_right hdirs]
    rcases he : d.entry? (p.resolve d.home) with _ | e <;> simp [he, eq_comm]
  · simp [h, hdirs]

/-! ## Solid disks -/

/-- Whatever exists stands in a directory, and so does the working directory. -/
structure Solid (d : Disk) : Prop where
  /-- What is above an entry is a directory. -/
  above : ∀ l name, d.entry? (l ++ [name]) ≠ none → d.IsDirectory l
  /-- The working directory and all above it. -/
  home : ∀ l, l <+: d.home → d.IsDirectory l

/-- The disk with nothing but the root directory is solid. -/
theorem solid_empty : Solid {} where
  above l name h := absurd (if_neg (by simp)) h
  home l hl := by
    rw [List.prefix_nil.mp hl]
    exact isDirectory_nil _

theorem Solid.isDirectory_start {d : Disk} (hd : d.Solid) (p : Path) :
    d.IsDirectory (p.start d.home) := by
  rw [Path.start]
  split
  · exact d.isDirectory_nil
  · exact hd.home d.home (List.prefix_refl _)

/-- What is above an entry, near or far, is a directory. -/
theorem Solid.isDirectory_of_prefix {d : Disk} (hd : d.Solid) {l m : Location} (hlm : l <+: m)
    (hne : l ≠ m) (hm : d.entry? m ≠ none) : d.IsDirectory l := by
  obtain ⟨names, rfl⟩ := hlm
  induction names using List.reverseRecOn with
  | nil => exact absurd (List.append_nil l).symm hne
  | append_singleton names name ih =>
    rw [← List.append_assoc] at hm
    have habove := hd.above _ name hm
    by_cases hnames : names = []
    · rwa [hnames, List.append_nil] at habove
    · refine ih (by simpa using hnames) ?_
      obtain ⟨t, ht⟩ := habove
      rw [ht]
      exact nofun

/-- **A path that leads to no directory leads into one.** -/
theorem Solid.exists_eq_append {d : Disk} (hd : d.Solid) {p : Path}
    (hdirs : ∀ x ∈ p.trail d.home, d.IsDirectory x) (hp : ¬ d.IsDirectory (p.resolve d.home)) :
    ∃ l name, p.resolve d.home = l ++ [name] ∧ d.IsDirectory l := by
  by_cases hparts : p.parts = []
  · refine absurd ?_ hp
    rw [Path.resolve_eq, hparts]
    exact hd.isDirectory_start p
  · obtain ⟨name, hname⟩ := Path.resolve_eq_parent hparts d.home
    rw [Path.trail_eq_parent hparts] at hdirs
    have hparent := hdirs _ (List.mem_append_right _ (List.mem_singleton_self _))
    rw [hname, Path.follow] at hp ⊢
    split_ifs at hp with hup
    · refine absurd ?_ hp
      rcases List.eq_nil_or_concat (p.parent.resolve d.home) with hnil | ⟨l, n, hl⟩
      · rw [hnil]
        exact d.isDirectory_nil
      · rw [hl, List.concat_eq_append] at hparent ⊢
        rw [List.dropLast_concat]
        obtain ⟨t, ht⟩ := hparent
        exact hd.above l n (by rw [ht]; exact nofun)
    · rw [if_neg hup]
      exact ⟨_, name, rfl, hparent⟩

/-! ## Putting an entry -/

theorem entry?_put {d : Disk} {l : Location} (hl : l ≠ []) (e : DiskEntry) (m : Location) :
    Disk.entry? (d.put l e) m = if l = m then some e else d.entry? m := by
  rw [ entry?, entry?, put, Table.get?_insert]
  split_ifs with hm hlm hlm
  · exact absurd (hlm.trans hm) hl
  · rfl
  · rfl
  · rfl

theorem entry?_put_self {d : Disk} {l : Location} (hl : l ≠ []) (e : DiskEntry) :
    Disk.entry? (d.put l e) l = some e := by
  rw [entry?_put hl, if_pos rfl]

theorem entry?_put_of_ne {d : Disk} {l m : Location} (hl : l ≠ []) (e : DiskEntry) (h : l ≠ m) :
    Disk.entry? (d.put l e) m = d.entry? m := by
  rw [entry?_put hl, if_neg h]

theorem ne_nil_of_not_isDirectory {d : Disk} {l : Location} (h : ¬ d.IsDirectory l) : l ≠ [] := by
  rintro rfl
  exact h d.isDirectory_nil

theorem IsDirectory.put {d : Disk} {l m : Location} (hm : d.IsDirectory m)
    (hl : ¬ d.IsDirectory l) (e : DiskEntry) : (d.put l e).IsDirectory m := by
  have hne : l ≠ m := by
    rintro rfl
    exact hl hm
  obtain ⟨t, ht⟩ := hm
  exact ⟨t, by rw [entry?_put_of_ne (ne_nil_of_not_isDirectory hl) e hne, ht]⟩

/-- **Whatever is put in a directory, the disk stays solid.** -/
theorem Solid.put {d : Disk} (hd : d.Solid) {l : Location} {name : String}
    (hl : d.IsDirectory l) (hfree : ¬ d.IsDirectory (l ++ [name])) (e : DiskEntry) :
    (d.put (l ++ [name]) e).Solid where
  above m n hm := by
    by_cases heq : l ++ [name] = m ++ [n]
    · obtain ⟨rfl, -⟩ := List.append_inj' heq rfl
      exact hl.put hfree e
    · rw [entry?_put_of_ne (ne_nil_of_not_isDirectory hfree) e heq] at hm
      exact (hd.above m n hm).put hfree e
  home m hm := (hd.home m hm).put hfree e

/-! ## Making directories -/

/-- The disk `d'` is `d` with directories where nothing was, all of them among the locations. -/
structure Grows (d d' : Disk) (locations : List Location) : Prop where
  /-- The working directory stays. -/
  home : d'.home = d.home
  /-- No time passes. -/
  clock : d'.clock = d.clock
  /-- Nothing else changes. -/
  entry : ∀ l, d'.entry? l = d.entry? l ∨
    l ∈ locations ∧ d.entry? l = none ∧ d'.entry? l = some (.directory d.clock)

section Grows

variable {d d' d'' : Disk} {ls ls' : List Location}

theorem Grows.refl (d : Disk) (ls : List Location) : Grows d d ls := ⟨rfl, rfl, fun _ => .inl rfl⟩

theorem Grows.trans (h : Grows d d' ls) (h' : Grows d' d'' ls) : Grows d d'' ls where
  home := h'.home.trans h.home
  clock := h'.clock.trans h.clock
  entry l := by
    rcases h.entry l with heq | ⟨hl, hnone, hdir⟩
    · rcases h'.entry l with heq' | ⟨hl, hnone, hdir⟩
      · exact .inl (heq'.trans heq)
      · rw [heq] at hnone
        rw [h.clock] at hdir
        exact .inr ⟨hl, hnone, hdir⟩
    · rcases h'.entry l with heq' | ⟨-, hnone', -⟩
      · exact .inr ⟨hl, hnone, heq'.trans hdir⟩
      · rw [hdir] at hnone'
        cases hnone'

theorem Grows.mono (h : Grows d d' ls) (hsub : ls ⊆ ls') : Grows d d' ls' :=
  ⟨h.home, h.clock, fun l => (h.entry l).imp_right fun ⟨hl, h⟩ => ⟨hsub hl, h⟩⟩

theorem Grows.entry_of_ne_none (h : Grows d d' ls) {l : Location} (hl : d.entry? l ≠ none) :
    d'.entry? l = d.entry? l :=
  (h.entry l).resolve_right fun ⟨_, hnone, _⟩ => hl hnone

theorem Grows.isDirectory (h : Grows d d' ls) {l : Location} (hl : d.IsDirectory l) :
    d'.IsDirectory l := by
  obtain ⟨t, ht⟩ := hl
  exact ⟨t, by rw [h.entry_of_ne_none (by rw [ht]; exact nofun), ht]⟩

/-- Files neither come nor go. -/
theorem Grows.entry_eq_file_iff (h : Grows d d' ls) {l : Location} {text : String} {t : ℕ} :
    d'.entry? l = some (.file text t) ↔ d.entry? l = some (.file text t) := by
  rcases h.entry l with heq | ⟨-, hnone, hdir⟩
  · rw [heq]
  · rw [hnone, hdir]
    exact ⟨nofun, nofun⟩

theorem Grows.isFile_iff (h : Grows d d' ls) {l : Location} : d'.IsFile l ↔ d.IsFile l := by
  simp only [IsFile, h.entry_eq_file_iff]

end Grows

theorem makeDirectory_grows {d d' : Disk} {p : Path} (hd : d.Solid)
    (h : d.makeDirectory p = .ok d') :
    Grows d d' (p.trail d.home ++ [p.resolve d.home]) ∧ d'.Solid ∧
      d'.IsDirectory (p.resolve d.home) := by
  obtain ⟨hdirs, hnone, rfl⟩ := makeDirectory_eq_ok_iff.mp h
  have hfree : ¬ d.IsDirectory (p.resolve d.home) := by
    rintro ⟨t, ht⟩
    rw [hnone] at ht
    cases ht
  have hnil := ne_nil_of_not_isDirectory hfree
  refine ⟨⟨rfl, rfl, fun l => ?_⟩, ?_, ⟨d.clock, entry?_put_self hnil _⟩⟩
  · by_cases hl : p.resolve d.home = l
    · subst hl
      exact .inr ⟨by simp, hnone, entry?_put_self hnil _⟩
    · exact .inl (entry?_put_of_ne hnil _ hl)
  · obtain ⟨l, name, heq, hl⟩ := hd.exists_eq_append hdirs hfree
    rw [heq] at hfree ⊢
    exact hd.put hl hfree _

theorem ensureDirectory_grows {d d' : Disk} {p : Path} (hd : d.Solid)
    (h : d.ensureDirectory p = .ok d') :
    Grows d d' (p.trail d.home ++ [p.resolve d.home]) ∧ d'.Solid := by
  rw [ensureDirectory] at h
  cases hmake : d.makeDirectory p with
  | ok d₁ =>
    rw [hmake] at h
    cases h
    have hgrows := makeDirectory_grows hd hmake
    exact ⟨hgrows.1, hgrows.2.1⟩
  | error kind =>
    simp only [hmake] at h
    split at h
    · cases h
      exact ⟨.refl _ _, hd⟩
    · cases h

/-- Makes the last directory of a path, once those on the way are there. -/
def settle (p : Path) (above : Except FileFault Unit × Disk) : Except FileFault Unit × Disk :=
  match above.1 with
  | .error fault => (.error fault, above.2)
  | .ok () =>
      match above.2.ensureDirectory p with
      | .ok d => (.ok (), d)
      | .error fault => (.error fault, above.2)

theorem ensureFrom_of_notFound {d : Disk} {p : Path} (h : d.makeDirectory p = .error .notFound)
    (fuel : ℕ) : d.ensureFrom p (fuel + 1) = settle p (d.ensureFrom p.parent fuel) := by
  rw [ensureFrom, h]
  rfl

theorem ensureFrom_of_ne {d : Disk} {p : Path} (h : d.makeDirectory p ≠ .error .notFound)
    (fuel : ℕ) : d.ensureFrom p (fuel + 1) = settle p (.ok (), d) := by
  rw [ensureFrom]
  cases hmake : d.makeDirectory p with
  | ok d' => rfl
  | error kind =>
    cases kind with
    | notFound => exact absurd hmake h
    | «exists» | notDirectory | isDirectory => rfl

theorem settle_grows {d : Disk} {above : Except FileFault Unit × Disk} {p : Path}
    (hgrows : Grows d above.2 (p.trail d.home ++ [p.resolve d.home])) (hsolid : above.2.Solid) :
    Grows d (settle p above).2 (p.trail d.home ++ [p.resolve d.home]) ∧
      (settle p above).2.Solid := by
  rw [settle]
  rcases above.1 with fault | _
  · exact ⟨hgrows, hsolid⟩
  · rcases hensure : above.2.ensureDirectory p with fault | d'
    · exact ⟨hgrows, hsolid⟩
    · obtain ⟨hgrows', hsolid'⟩ := ensureDirectory_grows hsolid hensure
      rw [hgrows.home] at hgrows'
      exact ⟨hgrows.trans hgrows', hsolid'⟩

/-- **Making directories changes nothing but what they make**, whether it succeeds or not. -/
theorem ensureFrom_grows : ∀ (fuel : ℕ) {d : Disk} (p : Path), d.Solid →
    Grows d (d.ensureFrom p fuel).2 (p.trail d.home ++ [p.resolve d.home]) ∧
      (d.ensureFrom p fuel).2.Solid
  | 0, d, p, hd => ⟨.refl _ _, hd⟩
  | fuel + 1, d, p, hd => by
      by_cases h : d.makeDirectory p = .error .notFound
      · obtain ⟨hgrows, hsolid⟩ := ensureFrom_grows fuel p.parent hd
        rw [ensureFrom_of_notFound h]
        exact settle_grows (hgrows.mono (p.parent_trail_subset d.home)) hsolid
      · rw [ensureFrom_of_ne h]
        exact settle_grows (.refl _ _) hd

theorem ensureDirectories_grows {d : Disk} (p : Path) (hd : d.Solid) :
    Grows d (d.ensureDirectories p).2 (p.trail d.home ++ [p.resolve d.home]) ∧
      (d.ensureDirectories p).2.Solid :=
  ensureFrom_grows _ p hd

theorem clock_ensureDirectory {d d' : Disk} {p : Path} (h : d.ensureDirectory p = .ok d') :
    d'.clock = d.clock := by
  rw [ensureDirectory] at h
  cases hmake : d.makeDirectory p with
  | ok d₁ =>
    rw [hmake] at h
    cases h
    obtain ⟨-, -, rfl⟩ := makeDirectory_eq_ok_iff.mp hmake
    rfl
  | error kind =>
    simp only [hmake] at h
    split at h <;> cases h
    rfl

@[simp] theorem clock_settle {above : Except FileFault Unit × Disk} {p : Path} :
    (settle p above).2.clock = above.2.clock := by
  rw [settle]
  split
  · rfl
  · split
    · exact clock_ensureDirectory ‹_›
    · rfl

/-- No time passes while directories are made. -/
@[simp] theorem clock_ensureFrom : ∀ (fuel : ℕ) {d : Disk} {p : Path},
    (d.ensureFrom p fuel).2.clock = d.clock
  | 0, _, _ => rfl
  | fuel + 1, d, p => by
      by_cases h : d.makeDirectory p = .error .notFound
      · rw [ensureFrom_of_notFound h, clock_settle, clock_ensureFrom fuel]
      · rw [ensureFrom_of_ne h, clock_settle]

/-- A directory whose way is there can be made, unless a file has its place. -/
theorem ensureDirectory_ok {d : Disk} {p : Path} (hd : d.Solid)
    (hdirs : ∀ x ∈ p.trail d.home, d.IsDirectory x) (hfile : ¬ d.IsFile (p.resolve d.home)) :
    ∃ d', d.ensureDirectory p = .ok d' ∧ d'.IsDirectory (p.resolve d.home) := by
  rcases d.entry?_cases (p.resolve d.home) with hnone | h | hdir
  · have hmake := makeDirectory_eq_ok_iff.mpr ⟨hdirs, hnone, rfl⟩
    exact ⟨_, by rw [ensureDirectory, hmake], (makeDirectory_grows hd hmake).2.2⟩
  · exact absurd h hfile
  · refine ⟨d, ?_, hdir⟩
    obtain ⟨t, ht⟩ := hdir
    have hfind : d.find? p = some (.directory t) := find?_eq_some_iff.mpr ⟨hdirs, ht⟩
    cases hmake : d.makeDirectory p with
    | ok d' =>
      rw [(makeDirectory_eq_ok_iff.mp hmake).2.1] at ht
      cases ht
    | error kind => simp only [ensureDirectory, hmake, hasDirectory, hfind, if_true]

theorem settle_ok {above : Except FileFault Unit × Disk} {p : Path} (hok : above.1 = .ok ())
    (hsolid : above.2.Solid) (hdirs : ∀ x ∈ p.trail above.2.home, above.2.IsDirectory x)
    (hfile : ¬ above.2.IsFile (p.resolve above.2.home)) :
    (settle p above).1 = .ok () ∧
      ∀ x ∈ p.trail above.2.home ++ [p.resolve above.2.home], (settle p above).2.IsDirectory x := by
  obtain ⟨d', hensure, hdir⟩ := ensureDirectory_ok hsolid hdirs hfile
  have hgrows := (ensureDirectory_grows hsolid hensure).1
  rw [settle, hok]
  simp only [hensure, true_and]
  intro x hx
  rcases List.mem_append.mp hx with hx | hx
  · exact hgrows.isDirectory (hdirs x hx)
  · rw [List.mem_singleton.mp hx]
    exact hdir

/-- A directory cannot be found missing once its way is there. -/
theorem makeDirectory_ne_notFound {d : Disk} {p : Path}
    (hdirs : ∀ x ∈ p.trail d.home, d.IsDirectory x) :
    d.makeDirectory p ≠ .error .notFound := by
  rw [makeDirectory, locate_eq_ok_iff.mpr ⟨hdirs, rfl⟩]
  cases h : d.entry? (p.resolve d.home) <;> simp [h]

/-- Without files in the way, a directory on the way is missing if any is. -/
theorem isDirectory_of_ne_notFound {d : Disk} {p : Path}
    (hfiles : ∀ x ∈ p.trail d.home, ¬ d.IsFile x) (h : d.makeDirectory p ≠ .error .notFound) :
    ∀ x ∈ p.trail d.home, d.IsDirectory x := by
  cases hlocate : d.locate p with
  | ok l => exact (locate_eq_ok_iff.mp hlocate).1
  | error kind =>
    rcases walk_eq_error hlocate with rfl | ⟨x, hx, hfile⟩
    · exact absurd (by rw [makeDirectory, hlocate]) h
    · exact absurd hfile (hfiles x hx)

/-- **Where no file is in the way, directories can be made.** -/
theorem ensureFrom_ok : ∀ (fuel : ℕ) {d : Disk} {p : Path}, d.Solid →
    (∀ x ∈ p.trail d.home ++ [p.resolve d.home], ¬ d.IsFile x) → p.parts.length < fuel →
    (d.ensureFrom p fuel).1 = .ok () ∧
      ∀ x ∈ p.trail d.home ++ [p.resolve d.home], (d.ensureFrom p fuel).2.IsDirectory x
  | fuel + 1, d, p, hd, hfiles, hfuel => by
      have hfile := hfiles _ (List.mem_append_right _ (List.mem_singleton_self _))
      by_cases h : d.makeDirectory p = .error .notFound
      · have hparts : p.parts ≠ [] := fun hnil =>
          makeDirectory_ne_notFound (by simp [Path.trail, hnil, Path.trailFrom]) h
        have hlength : p.parent.parts.length < fuel := by
          have := List.length_pos_iff.mpr hparts
          rw [Path.parent, List.length_dropLast]
          omega
        obtain ⟨hok, hdirs⟩ := ensureFrom_ok fuel hd
          (fun x hx => hfiles x (p.parent_trail_subset d.home hx)) hlength
        obtain ⟨hgrows, hsolid⟩ := ensureFrom_grows fuel p.parent hd
        rw [← Path.trail_eq_parent hparts, ← hgrows.home] at hdirs
        rw [← hgrows.isFile_iff, ← hgrows.home] at hfile
        rw [ensureFrom_of_notFound h, ← hgrows.home]
        exact settle_ok hok hsolid hdirs hfile
      · rw [ensureFrom_of_ne h]
        have hdirs := isDirectory_of_ne_notFound
          (fun x hx => hfiles x (List.mem_append_left _ hx)) h
        exact settle_ok rfl hd hdirs hfile

theorem ensureDirectories_ok {d : Disk} {p : Path} (hd : d.Solid)
    (hfiles : ∀ x ∈ p.trail d.home ++ [p.resolve d.home], ¬ d.IsFile x) :
    (d.ensureDirectories p).1 = .ok () ∧
      ∀ x ∈ p.trail d.home ++ [p.resolve d.home], (d.ensureDirectories p).2.IsDirectory x :=
  ensureFrom_ok _ hd hfiles (Nat.lt_succ_self _)

/-! ## Letting time pass -/

/-- The disk at a later time. -/
def wait (d : Disk) (time : ℕ) : Disk := { d with clock := d.clock + time }

section Wait

variable {d : Disk} {time : ℕ} {l : Location}

@[simp] theorem home_wait : (d.wait time).home = d.home := rfl

@[simp] theorem clock_wait : (d.wait time).clock = d.clock + time := rfl

@[simp] theorem entry?_wait : Disk.entry? (d.wait time) l = d.entry? l := rfl

@[simp] theorem wait_wait {time' : ℕ} : (d.wait time).wait time' = d.wait (time + time') := by
  rw [wait, wait, wait, Nat.add_assoc]

theorem Solid.wait (hd : d.Solid) (time : ℕ) : (d.wait time).Solid := ⟨hd.above, hd.home⟩

@[simp] theorem walk_wait : ∀ {names : List String} {l : Location},
    (d.wait time).walk l names = d.walk l names
  | [], _ => rfl
  | name :: names, l => by
      rw [walk, walk, entry?_wait]
      rcases d.entry? l with _ | text | t
      · rfl
      · rfl
      · exact walk_wait

@[simp] theorem locate_wait {p : Path} : (d.wait time).locate p = d.locate p := walk_wait

/-- What is on a disk does not change by itself. -/
@[simp] theorem time?_wait {p : Path} : Disk.time? (d.wait time) p = d.time? p := by
  rw [Disk.time?, Disk.time?, find?, find?, locate_wait]
  rfl

@[simp] theorem read_wait {p : Path} : (d.wait time).read p = d.read p := by
  rw [Disk.read, Disk.read, locate_wait]
  rfl

end Wait

/-! ## Removing a file -/

/-- Nothing is below a file. -/
theorem Solid.entry?_below {d : Disk} (hd : d.Solid) {l m : Location} (hl : d.IsFile l)
    (hlm : l <+: m) (hne : l ≠ m) : d.entry? m = none := by
  by_contra hm
  exact hl.not_isDirectory (hd.isDirectory_of_prefix hlm hne hm)

/-- **Removing a file removes nothing else.** -/
theorem Solid.entry?_remove {d : Disk} (hd : d.Solid) {l : Location} (hl : d.IsFile l)
    (m : Location) : Disk.entry? (d.remove l) m = if l = m then none else d.entry? m := by
  have hnil := ne_nil_of_not_isDirectory hl.not_isDirectory
  have hmem : ∀ e,
      (d.remove l).entries.get? m = some e ↔ d.entries.get? m = some e ∧ ¬ l <+: m := by
    intro e
    rw [Table.get?_eq_some_iff, Table.get?_eq_some_iff, remove, Table.filter, List.mem_filter,
      ← List.isPrefixOf_iff_prefix, Bool.not_eq_true']
    exact Iff.rfl.and (Bool.eq_false_iff)
  by_cases hm : m = []
  · subst hm
    rw [if_neg hnil]
    rfl
  · rw [ entry?, entry?, if_neg hm, if_neg hm]
    ext e
    rw [hmem]
    split_ifs with hlm
    · subst hlm
      simp
    · refine ⟨And.left, fun h => ⟨h, fun hpre => ?_⟩⟩
      have hbelow := hd.entry?_below hl hpre hlm
      rw [ entry?, if_neg hm, h] at hbelow
      cases hbelow

theorem Solid.remove {d : Disk} (hd : d.Solid) {l : Location} (hl : d.IsFile l) :
    (d.remove l).Solid := by
  have hdir : ∀ m, d.IsDirectory m → (d.remove l).IsDirectory m := by
    rintro m ⟨t, ht⟩
    refine ⟨t, ?_⟩
    rw [hd.entry?_remove hl, if_neg, ht]
    rintro rfl
    exact hl.not_isDirectory ⟨t, ht⟩
  refine ⟨fun m name hm => ?_, fun m hm => hdir m (hd.home m hm)⟩
  rw [hd.entry?_remove hl] at hm
  split_ifs at hm with heq
  · exact absurd rfl hm
  · exact hdir m (hd.above m name hm)

end Disk

end EntitySchema
