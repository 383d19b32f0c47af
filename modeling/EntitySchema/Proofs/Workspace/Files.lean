import EntitySchema.Proofs.Workspace.Project

/-!
# Proofs/Workspace/Files — what a build returns

A build visits its files in order and stops at the first failure.  One file has a snapshot to use or
is compiled anew, and either way its schema is the current one (`Sound.of_compileOne`); so a whole
build returns the current schemas (`Sound.get?_compileInto`), exactly if all files compile to
schemas that can be written and all snapshots can be saved (`Sound.compileInto_ok_iff`), however
long it takes. -/

namespace EntitySchema.Project

open Job Disk Build

variable {P : Project} {sources : Set Path} {d d' : Disk} {f g : Path} {systemEntities : Bool}
  {x : Except JobError (String × Schema)}

/-! ## One file -/

variable (P) in
/-- The file compiles to the schema, which can be written. -/
def Builds (d : Disk) (systemEntities : Bool) (f : Path) (s : Schema) : Prop :=
  ((Source.compile P.formats f systemEntities).outcome d).1 = .ok s ∧
    ∃ text, Snapshot.encode P.formats.models s (options systemEntities) = .ok text

theorem Builds.unique {s s' : Schema} (h : P.Builds d systemEntities f s)
    (h' : P.Builds d systemEntities f s') : s = s' :=
  Except.ok.inj (h.1.symm.trans h'.1)

@[simp] theorem builds_wait {time : ℕ} {s : Schema} :
    P.Builds (d.wait time) systemEntities f s ↔ P.Builds d systemEntities f s := by
  rw [Builds, Builds, Source.readOnly_compile.result_wait]

theorem builds_of_text {text : String} {s : Schema} (htext : d.read f = .ok text)
    (hs : Source.schemaOf? P.formats systemEntities text = some s)
    (hshort : (Snapshot.toValue P.formats.models s (options systemEntities)).isShort) :
    P.Builds d systemEntities f s :=
  ⟨Source.compile_eq_ok_iff.mpr ⟨text, htext, hs⟩, _, Snapshot.encode_eq_ok_iff.mpr ⟨hshort, rfl⟩⟩

/-- A short schema file can be built. -/
theorem exists_builds_atRoot (htext : d.read f = .ok "A: b") :
    ∃ s, atRoot.Builds d false f s := by
  have hany : (Source.schemaOf? .standard false "A: b").any
      fun s => (Snapshot.toValue .standard s (options false)).isShort := by decide +kernel
  cases hs : Source.schemaOf? .standard false "A: b" with
  | none =>
    rw [hs] at hany
    cases hany
  | some s =>
    rw [hs] at hany
    exact ⟨s, builds_of_text htext hs hany⟩

/-- Whole numbers are the same if they are equal. -/
@[simp] theorem same_int_iff {m n : ℤ} : (Number.int m).same (.int n) = true ↔ m = n := by
  have hunit : ∀ k : ℕ, ((Nat.pow 2 k : ℕ) : ℤ) ≠ 0 := fun k =>
    Int.natCast_ne_zero.mpr (Nat.two_pow_pos k).ne'
  rw [Number.same, Number.place?, Number.place?, decide_eq_true_iff, Place.at.injEq,
    mul_left_inj' (hunit _)]

theorem same_options {a b : Bool}
    (h : (Value.ofRecord (options a)).same (.ofRecord (options b)) = true) : a = b := by
  have hnumber : (Number.int (if a then 1 else 0)).same (.int (if b then 1 else 0)) = true := by
    simpa [options, Value.ofRecord, Table.ofList, Pairs.dedup, Pairs.put, Value.same,
      Value.sameMembers, Pairs.find?, Value.number?] using h
  have hint := same_int_iff.mp hnumber
  cases a <;> cases b <;> simp at hint ⊢

/-- **What is found in a snapshot is current.** -/
theorem Sound.of_consult (hd : P.Sound sources d) (hf : f ∈ sources) {key : String} {s : Schema}
    (h : ((consult P.formats key f (P.snapshot f) systemEntities).outcome d).1 = .ok (some s)) :
    P.Builds d systemEntities f s ∧ (∀ l ∈ P.way f, d.IsDirectory l) ∧ d.IsFile (P.place f) := by
  rcases consult_eq_ok_iff.mp h with
    ⟨-, hnone⟩ | ⟨⟨made, changed, hmade, hchanged, hlt⟩, text, hread, hs⟩
  · cases hnone
  · obtain ⟨hway, made', hentry⟩ := Disk.read_eq_ok_iff.mp hread
    rw [Disk.time?, find?_eq_some_iff.mpr ⟨hway, hentry⟩] at hmade
    obtain rfl : made' = made := Option.some.inj hmade
    rw [hd.home] at hway hentry
    refine ⟨?_, hway, _, _, hentry⟩
    rw [Disk.time?, Option.map_eq_some_iff] at hchanged
    obtain ⟨e, he, rfl⟩ := hchanged
    rw [find?_eq_some_iff, hd.home] at he
    rw [recorded?] at hs
    rcases hfound : Snapshot.decode P.formats.models text with cause | ⟨s', found⟩ <;>
      rw [hfound] at hs
    · cases hs
    · obtain ⟨systemEntities', rfl, htext, hcurrent⟩ :=
        hd.snapshots f hf text made' hentry s' found hfound
      dsimp only at hs
      split_ifs at hs with hsame
      cases hs
      rw [← same_options hsame]
      exact ⟨(compile_eq_ok_iff hd.home).mpr ⟨he.1, hcurrent e he.2 hlt⟩, text, htext⟩

/-- Where the way to a snapshot is open, consulting it does not fail. -/
theorem consult_ne_error (hopen : d.Open (P.snapshot f)) {key : String} {e : JobError} :
    ((consult P.formats key f (P.snapshot f) systemEntities).outcome d).1 ≠ .error e := by
  by_cases hfresh : Fresh d f (P.snapshot f)
  · have ⟨made, _, hmade, _⟩ := hfresh
    obtain ⟨entry, hentry, -⟩ := Option.map_eq_some_iff.mp hmade
    obtain ⟨hway, hentry⟩ := find?_eq_some_iff.mp hentry
    cases entry with
    | directory t => exact absurd ⟨t, hentry⟩ hopen.place
    | file text t =>
      have hread := Disk.read_eq_ok_iff.mpr ⟨hway, t, hentry⟩
      rw [consult_eq_ok_iff.mpr (.inr ⟨hfresh, text, hread, rfl⟩)]
      exact nofun
  · rw [consult_eq_ok_iff.mpr (.inl ⟨hfresh, rfl⟩)]
    exact nofun

/-- A file is built by an update of its snapshot. -/
theorem Sound.compileOne_updates (hP : P.Holds sources) (hd : P.Sound sources d) (hf : f ∈ sources)
    (h : (compileOne P.formats f P.build P.root systemEntities).Runs d x d') :
    ∃ fs, Updates d d' fs ∧ d'.Solid ∧ ∀ p ∈ fs, p.1 = P.snapshot f ∧
      ∃ s, P.schema? d systemEntities f = some s ∧
        p.2 = Snapshot.encode P.formats.models s (options systemEntities) := by
  rcases runs_compileOne (outcome_keyOf_of_below (hP.below f hf) hd.home) h with
    ⟨_, time, _, _, rfl⟩ | ⟨_, time, _, _, rfl⟩ | ⟨_, time, y, hrenew, _⟩
  · exact ⟨[], updates_wait d time [], hd.solid.wait time, nofun⟩
  · exact ⟨[], updates_wait d time [], hd.solid.wait time, nofun⟩
  · obtain ⟨fs, hupdates, hsolid, hfs⟩ := renew_updates (hd.solid.wait time) hrenew
    refine ⟨fs, (updates_wait d time fs).trans hupdates, hsolid, fun p hp => ⟨(hfs p hp).1, ?_⟩⟩
    obtain ⟨s, hs, htext⟩ := (hfs p hp).2
    rw [Source.readOnly_compile.result_wait] at hs
    exact ⟨s, ((compile_eq_ok_iff hd.home).mp hs).2, htext⟩

/-- **A file that is built has its current schema**, and its snapshot is there. -/
theorem Sound.of_compileOne (hP : P.Holds sources) (hd : P.Sound sources d) (hf : f ∈ sources)
    {key : String} {s : Schema}
    (h : (compileOne P.formats f P.build P.root systemEntities).Runs d (.ok (key, s)) d') :
    key = P.key f ∧ P.Builds d systemEntities f s ∧
      (∀ l ∈ P.way f, d'.IsDirectory l) ∧ d'.IsFile (P.place f) := by
  rcases runs_compileOne (outcome_keyOf_of_below (hP.below f hf) hd.home) h with
    ⟨_, _, _, hx, _⟩ | ⟨s', time, hconsult, hx, rfl⟩ | ⟨_, time, y, hrenew, hx⟩
  · cases hx
  · cases hx
    exact ⟨rfl, hd.of_consult hf hconsult⟩
  · cases y with
    | error e => cases hx
    | ok s' =>
      cases hx
      obtain ⟨hcompile, -, htext⟩ := (renew_eq_ok_iff (hd.solid.wait time) hrenew).mp rfl
      obtain ⟨hway, _, t, -, hplace, -⟩ := of_renew_ok (hd.solid.wait time) hrenew
      rw [home_wait, hd.home] at hway hplace
      exact ⟨rfl, builds_wait.mp ⟨hcompile, htext⟩, hway, _, _, hplace⟩

/-- A file that compiles is built where the way to its snapshot is open. -/
theorem Sound.compileOne_ok (hP : P.Holds sources) (hd : P.Sound sources d) (hf : f ∈ sources)
    {s : Schema} (hbuilds : P.Builds d systemEntities f s) (hopen : d.Open (P.snapshot f))
    (h : (compileOne P.formats f P.build P.root systemEntities).Runs d x d') :
    x = .ok (P.key f, s) := by
  rcases runs_compileOne (outcome_keyOf_of_below (hP.below f hf) hd.home) h with
    ⟨_, _, hconsult, _⟩ | ⟨s', _, hconsult, rfl, _⟩ | ⟨_, time, y, hrenew, rfl⟩
  · exact absurd hconsult (consult_ne_error hopen)
  · rw [hbuilds.unique (hd.of_consult hf hconsult).1]
  · obtain ⟨hcompile, htext⟩ := builds_wait.mpr hbuilds
    rw [(renew_eq_ok_iff (hd.solid.wait time) hrenew).mpr ⟨hcompile, open_wait.mpr hopen, htext⟩]
    rfl

/-- What is not written compiles to what it compiled to. -/
theorem schema?_updates {fs : List Draft} (h : Updates d d' fs) (hhome : d.home = P.home)
    (hf : ∀ p ∈ fs, P.location p.1 ≠ P.location f) :
    P.schema? d' systemEntities f = P.schema? d systemEntities f := by
  rcases h.entry (P.location f) with heq | ⟨_, _, _, hnone, _, hdir⟩ | ⟨_, _, hp, hl, _⟩
  · exact schema?_congr heq
  · rw [schema?, schema?, hnone, hdir]
  · rw [hhome] at hl
    exact absurd hl.symm (hf _ hp)

/-- What a source compiles to is what is read back from the snapshot it gives. -/
theorem Sound.vouches_encode (hM : P.formats.models.Documented) (hP : P.Holds sources)
    (hd : P.Sound sources d) (hf : f ∈ sources) (hg : g ∈ sources) (hplace : P.place f = P.place g)
    {s : Schema} (hs : P.schema? d systemEntities f = some s)
    (hsame : ∀ systemEntities, P.schema? d' systemEntities g = P.schema? d systemEntities g)
    {text : String} (htext : Snapshot.encode P.formats.models s (options systemEntities) = .ok text)
    (made : ℕ) : P.Vouches d' g text made := by
  have hcurrent : P.schema? d' systemEntities g = some s := by
    rw [hsame, ← hs, schema?, schema?, hP.apart f hf g hg hplace]
  have hstorable : s.Storable := by
    rw [schema?] at hs
    rcases ht : d.entry? (P.location f) with _ | ⟨text, t⟩ | t <;> rw [ht] at hs
    · cases hs
    · exact Source.storable_of_schemaOf? (hd.json f hf text t ht) hs
    · cases hs
  have hoptions : (Value.ofRecord (options systemEntities)).Distinct :=
    ⟨(options systemEntities).nodup, trivial, trivial⟩
  intro s' found hread
  obtain ⟨hshort, rfl⟩ := Snapshot.encode_eq_ok_iff.mp htext
  cases (Snapshot.decode_text hM hstorable hshort hoptions).symm.trans hread
  exact ⟨systemEntities, rfl, htext, fun _ _ _ => hcurrent⟩

/-- **Building a file keeps the invariant**, whether it succeeds or not. -/
theorem Sound.compileOne (hM : P.formats.models.Documented) (hP : P.Holds sources)
    (hd : P.Sound sources d) (hf : f ∈ sources)
    (h : (Build.compileOne P.formats f P.build P.root systemEntities).Runs d x d') :
    P.Sound sources d' := by
  obtain ⟨fs, hupdates, hsolid, hfs⟩ := hd.compileOne_updates hP hf h
  have haway : ∀ g ∈ sources, ∀ p ∈ fs, P.location p.1 ≠ P.location g := by
    intro g hg p hp
    rw [(hfs p hp).1]
    exact hP.away f hf g hg
  refine hd.updates hupdates hsolid ?_ ?_
  · exact fun p text hp g hg hloc => absurd hloc (haway g hg _ hp)
  · intro p text hp g hg hloc
    obtain ⟨rfl, s, hs, htext⟩ := hfs _ hp
    exact hd.vouches_encode hM hP hf hg hloc hs
      (fun _ => schema?_updates hupdates hd.home (haway g hg)) htext.symm

/-! ## Many files -/

variable (P) in
/-- The snapshots of the files can all be saved: no file is on the way to one, no directory has the
place of one, and none is on the way to another. -/
structure Unobstructed (d : Disk) (files : List Path) : Prop where
  /-- No file is on the way to a snapshot. -/
  way : ∀ f ∈ files, ∀ l ∈ P.way f, ¬ d.IsFile l
  /-- No directory has the place of a snapshot. -/
  place : ∀ f ∈ files, ¬ d.IsDirectory (P.place f)
  /-- No snapshot is on the way to another. -/
  apart : ∀ f ∈ files, ∀ g ∈ files, P.place f ∉ P.way g

theorem Unobstructed.isOpen {files : List Path} (h : P.Unobstructed d files)
    (hhome : d.home = P.home) (hf : f ∈ files) : d.Open (P.snapshot f) where
  way := by
    rw [hhome]
    exact h.way f hf
  place := by
    rw [hhome]
    exact h.place f hf
  apart := by
    rw [hhome]
    exact h.apart f hf f hf

/-- **Building a file does not change what the others compile to.** -/
theorem Sound.compile_compileOne (hP : P.Holds sources) (hd : P.Sound sources d) (hf : f ∈ sources)
    (hg : g ∈ sources) {systemEntities' : Bool} {s : Schema}
    (h : (Build.compileOne P.formats f P.build P.root systemEntities).Runs d x d') :
    ((Source.compile P.formats g systemEntities').outcome d').1 = .ok s ↔
      ((Source.compile P.formats g systemEntities').outcome d).1 = .ok s := by
  obtain ⟨fs, hupdates, -, hfs⟩ := hd.compileOne_updates hP hf h
  rw [compile_eq_ok_iff (hupdates.home.trans hd.home), compile_eq_ok_iff hd.home,
    schema?_updates hupdates hd.home fun p hp => by
      rw [(hfs p hp).1]
      exact hP.away f hf g hg]
  refine and_congr_left fun hs => forall₂_congr fun l hl => ⟨fun hdir => ?_, hupdates.isDirectory⟩
  refine (hupdates.of_isDirectory hdir).resolve_right fun ⟨p, hp, hway, hnone⟩ => ?_
  -- A directory is only made where nothing was, so it is not above the source.
  rw [(hfs p hp).1, hd.home] at hway
  exact (hP.direct g hg f hf l hl hway).entry_ne_none hd.home hd.solid
    (entry_ne_none_of_schema? hs) hnone

/-- Once a file is built, the others can be if they could before. -/
theorem Sound.unobstructed_compileOne (hP : P.Holds sources) (hd : P.Sound sources d)
    {files : List Path} (hf : f ∈ sources) (h : P.Unobstructed d (f :: files))
    (hone : (Build.compileOne P.formats f P.build P.root systemEntities).Runs d x d') :
    P.Unobstructed d' files := by
  obtain ⟨fs, hupdates, -, hfs⟩ := hd.compileOne_updates hP hf hone
  have hmem : ∀ {g}, g ∈ files → g ∈ f :: files := List.mem_cons_of_mem f
  refine ⟨fun g hg l hl hfile => ?_, fun g hg hdir => ?_, fun g hg g' hg' =>
    h.apart g (hmem hg) g' (hmem hg')⟩
  · rcases hupdates.of_isFile hfile with hfile | ⟨p, hp, rfl⟩
    · exact h.way g (hmem hg) l hl hfile
    · rw [(hfs p hp).1, hd.home] at hl
      exact h.apart f (List.mem_cons_self ..) g (hmem hg) hl
  · rcases hupdates.of_isDirectory hdir with hdir | ⟨p, hp, hway, -⟩
    · exact h.place g (hmem hg) hdir
    · rw [(hfs p hp).1, hd.home] at hway
      exact h.apart g (hmem hg) f (List.mem_cons_self ..) hway

/-- A file that is built was not obstructed, nor are the others by it if they are not now. -/
theorem Sound.unobstructed_of_compileOne (hP : P.Holds sources) (hd : P.Sound sources d)
    {files : List Path} (hf : f ∈ sources) {key : String} {s : Schema}
    (hone : (Build.compileOne P.formats f P.build P.root systemEntities).Runs d (.ok (key, s)) d')
    (h : P.Unobstructed d' files) : P.Unobstructed d (f :: files) := by
  obtain ⟨fs, hupdates, -, -⟩ := hd.compileOne_updates hP hf hone
  obtain ⟨-, -, hway, hplace⟩ := hd.of_compileOne hP hf hone
  refine ⟨List.forall_mem_cons.mpr ⟨?_, ?_⟩, List.forall_mem_cons.mpr ⟨?_, ?_⟩, ?_⟩
  · exact fun l hl hfile => (hupdates.isFile hfile).not_isDirectory (hway l hl)
  · exact fun g hg l hl hfile => h.way g hg l hl (hupdates.isFile hfile)
  · exact fun hdir => hplace.not_isDirectory (hupdates.isDirectory hdir)
  · exact fun g hg hdir => h.place g hg (hupdates.isDirectory hdir)
  · refine List.forall_mem_cons.mpr ⟨List.forall_mem_cons.mpr ⟨?_, ?_⟩, fun g hg =>
      List.forall_mem_cons.mpr ⟨?_, h.apart g hg⟩⟩
    · exact fun hmem => hplace.not_isDirectory (hway _ hmem)
    · exact fun g hg hmem => h.way g hg _ hmem hplace
    · exact fun hmem => h.place g hg (hway _ hmem)

/-- **Building keeps the invariant**, wherever it stops. -/
theorem Sound.compileInto (hM : P.formats.models.Documented) (hP : P.Holds sources)
    {x : Except JobError (Table String Schema)} :
    ∀ {files : List Path} {d : Disk} {built : Table String Schema}, P.Sound sources d →
    (∀ f ∈ files, f ∈ sources) →
    (compileInto P.formats P.build P.root systemEntities built files).Runs d x d' →
      P.Sound sources d'
  | [], d, built, hd, _, h => by
      obtain ⟨-, rfl⟩ := runs_pure.mp h
      exact hd
  | f :: files, d, built, hd, hfiles, h => by
      rw [List.forall_mem_cons] at hfiles
      rcases runs_compileInto_cons.mp h with ⟨e, -, hone⟩ | ⟨key, s, d₁, hone, hrest⟩
      · exact hd.compileOne hM hP hfiles.1 hone
      · exact Sound.compileInto hM hP (hd.compileOne hM hP hfiles.1 hone) hfiles.2 hrest

/-- **Files are built exactly if all of them compile to schemas that can be written, and none of
their snapshots is obstructed.** -/
theorem Sound.compileInto_ok_iff (hM : P.formats.models.Documented) (hP : P.Holds sources)
    {x : Except JobError (Table String Schema)} :
    ∀ {files : List Path} {d : Disk} {built : Table String Schema}, P.Sound sources d →
    (∀ f ∈ files, f ∈ sources) →
    (Build.compileInto P.formats P.build P.root systemEntities built files).Runs d x d' →
    ((∃ t, x = .ok t) ↔
      (∀ f ∈ files, ∃ s, P.Builds d systemEntities f s) ∧ P.Unobstructed d files)
  | [], d, built, _, _, h => by
      obtain ⟨rfl, -⟩ := runs_pure.mp h
      exact ⟨fun _ => ⟨nofun, nofun, nofun, nofun⟩, fun _ => ⟨_, rfl⟩⟩
  | f :: files, d, built, hd, hfiles, h => by
      rw [List.forall_mem_cons] at hfiles ⊢
      rcases runs_compileInto_cons.mp h with ⟨e, rfl, hone⟩ | ⟨key, s, d₁, hone, hrest⟩
      · refine ⟨nofun, fun ⟨⟨⟨s, hs⟩, _⟩, hopen⟩ => ?_⟩
        have hok :=
          hd.compileOne_ok hP hfiles.1 hs (hopen.isOpen hd.home (List.mem_cons_self ..)) hone
        cases hok
      · have hcompile : ∀ g ∈ files, ∀ s, P.Builds d₁ systemEntities g s ↔
            P.Builds d systemEntities g s :=
          fun g hg _ => and_congr_left' (hd.compile_compileOne hP hfiles.1 (hfiles.2 g hg) hone)
        refine (Sound.compileInto_ok_iff hM hP (hd.compileOne hM hP hfiles.1 hone) hfiles.2
          hrest).trans
          ⟨fun ⟨hall, hopen⟩ => ⟨⟨⟨s, ?_⟩, ?_⟩, ?_⟩, fun ⟨⟨_, hall⟩, hopen⟩ => ⟨?_, ?_⟩⟩
        · exact (hd.of_compileOne hP hfiles.1 hone).2.1
        · exact fun g hg => (hall g hg).imp fun s => (hcompile g hg s).mp
        · exact hd.unobstructed_of_compileOne hP hfiles.1 hone hopen
        · exact fun g hg => (hall g hg).imp fun s => (hcompile g hg s).mpr
        · exact hd.unobstructed_compileOne hP hfiles.1 hopen hone

/-- Sources with one key are one source. -/
theorem Holds.compile_congr (hP : P.Holds sources) (hhome : d.home = P.home) (hf : f ∈ sources)
    (hg : g ∈ sources) (hkey : P.key f = P.key g) {s s' : Schema}
    (hs : ((Source.compile P.formats f systemEntities).outcome d).1 = .ok s)
    (hs' : ((Source.compile P.formats g systemEntities).outcome d).1 = .ok s') : s = s' := by
  have hplace : P.place f = P.place g := by rw [place, place, snapshot, snapshot, hkey]
  have hsome := ((compile_eq_ok_iff hhome).mp hs).2
  rw [schema?, hP.apart f hf g hg hplace, ← schema?, ((compile_eq_ok_iff hhome).mp hs').2] at hsome
  exact (Option.some.inj hsome).symm

/-- **Every file that was built has its current schema under its key**, and all else is as
before. -/
theorem Sound.get?_compileInto (hM : P.formats.models.Documented) (hP : P.Holds sources)
    {t : Table String Schema} :
    ∀ {files : List Path} {d : Disk} {built : Table String Schema}, P.Sound sources d →
    (∀ f ∈ files, f ∈ sources) →
    (Build.compileInto P.formats P.build P.root systemEntities built files).Runs d (.ok t) d' →
    (∀ f ∈ files, ∃ s, ((Source.compile P.formats f systemEntities).outcome d).1 = .ok s ∧
        t.get? (P.key f) = some s) ∧
      ∀ k, (∀ f ∈ files, P.key f ≠ k) → t.get? k = built.get? k
  | [], d, built, _, _, h => by
      obtain ⟨hx, -⟩ := runs_pure.mp h
      cases hx
      exact ⟨nofun, fun _ _ => rfl⟩
  | f :: files, d, built, hd, hfiles, h => by
      rw [List.forall_mem_cons] at hfiles ⊢
      rcases runs_compileInto_cons.mp h with ⟨e, hx, -⟩ | ⟨key, s, d₁, hone, hrest⟩
      · cases hx
      · obtain ⟨rfl, ⟨hs, -⟩, -⟩ := hd.of_compileOne hP hfiles.1 hone
        obtain ⟨hall, hothers⟩ :=
          Sound.get?_compileInto hM hP (hd.compileOne hM hP hfiles.1 hone) hfiles.2 hrest
        have hrest : ∀ g ∈ files, ∃ s,
            ((Source.compile P.formats g systemEntities).outcome d).1 = .ok s ∧
            t.get? (P.key g) = some s := fun g hg => (hall g hg).imp fun s hs =>
          ⟨(hd.compile_compileOne hP hfiles.1 (hfiles.2 g hg) hone).mp hs.1, hs.2⟩
        refine ⟨⟨⟨s, hs, ?_⟩, hrest⟩, fun k hk => ?_⟩
        · by_cases hkey : ∃ g ∈ files, P.key g = P.key f
          · obtain ⟨g, hg, hkey⟩ := hkey
            obtain ⟨s', hs', hget⟩ := hrest g hg
            rw [← hkey, hget, hP.compile_congr hd.home (hfiles.2 g hg) hfiles.1 hkey hs' hs]
          · rw [hothers _ fun g hg heq => hkey ⟨g, hg, heq⟩, Table.get?_insert_self]
        · rw [List.forall_mem_cons] at hk
          rw [hothers k hk.2, Table.get?_insert, if_neg hk.1]

end EntitySchema.Project
