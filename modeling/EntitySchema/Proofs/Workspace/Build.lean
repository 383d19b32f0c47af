import EntitySchema.Proofs.Workspace.Save
import EntitySchema.Proofs.Workspace.Source
import EntitySchema.Workspace.Build

/-!
# Proofs/Workspace/Build — one schema file and its snapshot

    consult ──some──▸ the schema of the snapshot
       │
      none ──▸ renew = compile, save

The schema of a file is taken from its snapshot or compiled anew (`runs_compileOne`).  Consulting
the snapshot changes nothing and depends on two times and its text (`consult_eq_ok_iff`); compiling
anew succeeds where the schema file compiles and the snapshot can be saved (`renew_eq_ok_iff`).
-/

namespace EntitySchema.Build

open Job Disk

variable {F : Formats} {d d' : Disk} {file snapshot root buildDirectory : Path} {key : String}
  {systemEntities : Bool} {x : Except JobError Schema}

/-! ## Keys -/

theorem readOnly_keyOf : (keyOf file root).ReadOnly := by
  refine readOnly_bind (fun l => readOnly_bind (fun r => ?_) readOnly_locate) readOnly_locate
  rcases Location.below? r l with _ | _ | _ <;> trivial

theorem outcome_keyOf {parts : List String} (hparts : parts ≠ [])
    (h : Location.below? (root.resolve d.home) (file.resolve d.home) = some parts) :
    (keyOf file root).outcome d = (.ok (unitKey parts), d) := by
  rw [keyOf, outcome_bind_of_ok (outcome_locate _ _), outcome_bind_of_ok (outcome_locate _ _), h]
  cases parts with
  | nil => exact absurd rfl hparts
  | cons name names => rfl

/-! ## Consulting a snapshot -/

/-- The snapshot is newer than the schema file. -/
def Fresh (d : Disk) (file snapshot : Path) : Prop :=
  ∃ made changed, d.time? snapshot = some made ∧ d.time? file = some changed ∧ changed < made

theorem outcome_isFresh (d : Disk) (file snapshot : Path) :
    ∃ fresh, (isFresh file snapshot).outcome d = (.ok fresh, d) ∧
      (fresh = true ↔ Fresh d file snapshot) := by
  rw [isFresh, outcome_bind_of_ok (outcome_time? _ _), outcome_bind_of_ok (outcome_time? _ _),
    Fresh]
  rcases d.time? snapshot with _ | made
  · exact ⟨false, rfl, by simp⟩
  · rcases d.time? file with _ | changed
    · exact ⟨false, rfl, by simp⟩
    · exact ⟨decide (changed < made), rfl, by simp⟩

variable (F) in
/-- The schema of the text of a snapshot, if it was made with the same options. -/
def recorded? (systemEntities : Bool) (text : String) : Option Schema :=
  match Snapshot.decode F.models text with
  | .error _ => none
  | .ok (s, found) =>
      if (Value.ofRecord found).same (.ofRecord (options systemEntities)) then some s else none

theorem outcome_known? {text : String} (h : d.read snapshot = .ok text) :
    (known? F key snapshot systemEntities).outcome d =
      (.ok (recorded? F systemEntities text), d) := by
  rw [known?, outcome_bind_of_ok (by rw [outcome_readText, h]; rfl), recorded?]
  cases Snapshot.decode F.models text with
  | error cause => rfl
  | ok found =>
    dsimp only
    split <;> rfl

variable (F) in
/-- The schema of the snapshot, if that is newer than the schema file and can be used. -/
def consult (key : String) (file snapshot : Path) (systemEntities : Bool) :
    Job (Option Schema) := do
  let fresh ← isFresh file snapshot
  if fresh then known? F key snapshot systemEntities else pure none

theorem outcome_consult_of_not_fresh (h : ¬ Fresh d file snapshot) :
    (consult F key file snapshot systemEntities).outcome d = (.ok none, d) := by
  obtain ⟨fresh, hfresh, hiff⟩ := outcome_isFresh d file snapshot
  rw [consult, outcome_bind_of_ok hfresh, if_neg fun htrue => h (hiff.mp htrue)]
  rfl

theorem outcome_consult_of_fresh (h : Fresh d file snapshot) :
    (consult F key file snapshot systemEntities).outcome d =
      (known? F key snapshot systemEntities).outcome d := by
  obtain ⟨fresh, hfresh, hiff⟩ := outcome_isFresh d file snapshot
  rw [consult, outcome_bind_of_ok hfresh, if_pos (hiff.mpr h)]

/-- **What is found is what a fresh snapshot records.** -/
theorem consult_eq_ok_iff {known : Option Schema} :
    ((consult F key file snapshot systemEntities).outcome d).1 = .ok known ↔
      (¬ Fresh d file snapshot ∧ known = none) ∨
      (Fresh d file snapshot ∧ ∃ text, d.read snapshot = .ok text ∧
        known = recorded? F systemEntities text) := by
  by_cases hfresh : Fresh d file snapshot
  · rw [outcome_consult_of_fresh hfresh]
    cases hread : d.read snapshot with
    | ok text => simp [outcome_known? hread, hfresh, eq_comm]
    | error fault =>
      rw [known?, outcome_bind_of_error (by rw [outcome_readText, hread]; rfl)]
      simp [hfresh]
  · simp [outcome_consult_of_not_fresh hfresh, hfresh, eq_comm]

theorem readOnly_consult : (consult F key file snapshot systemEntities).ReadOnly := by
  have hfresh : (isFresh file snapshot).ReadOnly := by
    refine readOnly_bind (fun made => readOnly_bind (fun changed => ?_) readOnly_time?)
      readOnly_time?
    cases made <;> cases changed <;> trivial
  have hknown : (known? F key snapshot systemEntities).ReadOnly := by
    refine readOnly_bind (fun text => ?_) readOnly_readText
    cases Snapshot.decode F.models text with
    | error cause => exact readOnly_bind (fun _ => readOnly_pure) readOnly_report
    | ok found =>
      dsimp only
      split
      · exact readOnly_bind (fun _ => readOnly_pure) readOnly_report
      · exact readOnly_bind (fun _ => readOnly_pure) readOnly_report
  refine readOnly_bind (fun fresh => ?_) hfresh
  cases fresh with
  | false => exact readOnly_pure
  | true => exact hknown

/-! ## Compiling anew -/

/-- A schema file is compiled, and its snapshot saved. -/
theorem runs_renew (h : (renew F key file snapshot systemEntities).Runs d x d') :
    (∃ e time, ((Source.compile F file systemEntities).outcome d).1 = .error e ∧ x = .error e ∧
      d' = d.wait time) ∨
    ∃ s time y d₁ time', ((Source.compile F file systemEntities).outcome d).1 = .ok s ∧
      (save snapshot (Snapshot.encode F.models s (options systemEntities))).Runs
        (d.wait time) y d₁ ∧
      x = y.map (fun _ => s) ∧ d' = d₁.wait time' := by
  rw [renew, runs_bind] at h
  rcases h with ⟨e, rfl, h⟩ | ⟨s, d₀, h, hsave⟩
  · obtain ⟨he, time, rfl⟩ := Source.readOnly_compile.of_runs h
    exact .inl ⟨e, time, he.symm, rfl, rfl⟩
  · obtain ⟨hs, time, rfl⟩ := Source.readOnly_compile.of_runs h
    rw [runs_bind] at hsave
    rcases hsave with ⟨e, rfl, hsave⟩ | ⟨_, d₁, hsave, h⟩
    · exact .inr ⟨s, time, _, d', 0, hs.symm, hsave, rfl, rfl⟩
    · obtain ⟨hx, time', rfl⟩ :=
        (readOnly_bind (fun _ => readOnly_pure) readOnly_report).of_runs h
      exact .inr ⟨s, time, _, d₁, time', hs.symm, hsave, hx, rfl⟩

/-- **A schema file is compiled anew where it compiles and its snapshot can be saved**: the schema
can be written, and nothing is in the way. -/
theorem renew_eq_ok_iff (hd : d.Solid) (h : (renew F key file snapshot systemEntities).Runs d x d')
    {s : Schema} : x = .ok s ↔
      ((Source.compile F file systemEntities).outcome d).1 = .ok s ∧ d.Open snapshot ∧
        ∃ text, Snapshot.encode F.models s (options systemEntities) = .ok text := by
  rcases runs_renew h with ⟨e, _, he, rfl, _⟩ | ⟨s₀, time, y, d₁, _, hs, hsave, rfl, _⟩
  · simp [he]
  · have hsaved := save_ok_iff (hd.wait time) hsave
    rw [open_wait] at hsaved
    cases y with
    | error e =>
      refine ⟨nofun, fun ⟨hcompile, hopen⟩ => ?_⟩
      cases hs.symm.trans hcompile
      cases hsaved.mpr hopen
    | ok _ =>
      rw [hs]
      refine ⟨fun hx => ?_, fun ⟨hcompile, _⟩ => hcompile⟩
      cases hx
      exact ⟨rfl, hsaved.mp rfl⟩

/-- **Compiling anew changes nothing but the snapshot and the directories on its way.** -/
theorem renew_updates (hd : d.Solid) (h : (renew F key file snapshot systemEntities).Runs d x d') :
    ∃ fs, Updates d d' fs ∧ d'.Solid ∧
      ∀ f ∈ fs, f.1 = snapshot ∧ ∃ s, ((Source.compile F file systemEntities).outcome d).1 = .ok s ∧
        f.2 = Snapshot.encode F.models s (options systemEntities) := by
  rcases runs_renew h with ⟨_, time, _, _, rfl⟩ | ⟨s, time, y, d₁, time', hs, hsave, _, rfl⟩
  · exact ⟨[], updates_wait d time [], hd.wait time, nofun⟩
  · obtain ⟨hupdates, hsolid⟩ := updates_of_save (hd.wait time) hsave
    refine ⟨_, ((updates_wait d time _).trans hupdates).trans (updates_wait d₁ time' _),
      hsolid.wait time', fun f hf => ?_⟩
    obtain rfl := List.mem_singleton.mp hf
    exact ⟨rfl, s, hs, rfl⟩

/-- Where a snapshot was made, there is a way to it. -/
theorem of_renew_ok (hd : d.Solid) {s : Schema}
    (h : (renew F key file snapshot systemEntities).Runs d (.ok s) d') :
    (∀ l ∈ snapshot.trail d.home, d'.IsDirectory l) ∧
      ∃ text t, Snapshot.encode F.models s (options systemEntities) = .ok text ∧
        d'.entry? (snapshot.resolve d.home) = some (.file text t) ∧ d.clock ≤ t ∧ t ≤ d'.clock := by
  rcases runs_renew h with ⟨_, _, _, hx, _⟩ | ⟨s₀, time, y, d₁, time', hs, hsave, hx, rfl⟩
  · cases hx
  · cases y with
    | error e => cases hx
    | ok _ =>
      cases hx
      obtain ⟨hway, text, t, htext, hplace, hle, hge⟩ := of_save_ok (hd.wait time) hsave
      exact ⟨hway, text, t, htext, hplace, Nat.le_trans (Nat.le_add_right _ _) hle,
        Nat.le_trans hge (Nat.le_add_right _ _)⟩

/-! ## A schema file with its key -/

variable (F) in
/-- Goes on with what was found in the snapshot. -/
def proceed (key : String) (file snapshot : Path) (systemEntities : Bool) :
    Option Schema → Job (String × Schema)
  | some s => pure (key, s)
  | none => do
      let s ← renew F key file snapshot systemEntities
      pure (key, s)

theorem compileOne_eq : compileOne F file buildDirectory root systemEntities =
    keyOf file root >>= fun key =>
      consult F key file (snapshotPath key buildDirectory) systemEntities >>=
        proceed F key file (snapshotPath key buildDirectory) systemEntities := by
  rw [compileOne]
  refine congrArg _ (funext fun key => ?_)
  rw [consult, bind_bind]
  refine congrArg _ (funext fun fresh => congrArg _ (funext fun known => ?_))
  cases known <;> rfl

/-- **A schema is found in the snapshot, or compiled anew.** -/
theorem runs_compileOne (hkey : (keyOf file root).outcome d = (.ok key, d))
    {x : Except JobError (String × Schema)}
    (h : (compileOne F file buildDirectory root systemEntities).Runs d x d') :
    (∃ e time, ((consult F key file (snapshotPath key buildDirectory) systemEntities).outcome d).1 =
      .error e ∧ x = .error e ∧ d' = d.wait time) ∨
    (∃ s time, ((consult F key file (snapshotPath key buildDirectory) systemEntities).outcome d).1 =
      .ok (some s) ∧ x = .ok (key, s) ∧ d' = d.wait time) ∨
    ((consult F key file (snapshotPath key buildDirectory) systemEntities).outcome d).1 = .ok none ∧
      ∃ time y, (renew F key file (snapshotPath key buildDirectory) systemEntities).Runs
        (d.wait time) y d' ∧ x = y.map fun s => (key, s) := by
  rw [compileOne_eq, runs_bind] at h
  rcases h with ⟨e, rfl, h⟩ | ⟨key', d₀, h, hone⟩
  · have he := (readOnly_keyOf.of_runs h).1
    rw [hkey] at he
    cases he
  · obtain ⟨hx, time, rfl⟩ := readOnly_keyOf.of_runs h
    rw [hkey] at hx
    cases hx
    rw [runs_bind] at hone
    rcases hone with ⟨e, rfl, h⟩ | ⟨known, d₁, h, hone⟩
    · obtain ⟨he, time', rfl⟩ := readOnly_consult.of_runs h
      rw [readOnly_consult.result_wait] at he
      exact .inl ⟨e, _, he.symm, rfl, wait_wait⟩
    · obtain ⟨hknown, time', rfl⟩ := readOnly_consult.of_runs h
      rw [readOnly_consult.result_wait] at hknown
      rw [wait_wait] at hone
      cases known with
      | some s =>
        obtain ⟨rfl, rfl⟩ := runs_pure.mp hone
        exact .inr (.inl ⟨s, _, hknown.symm, rfl, rfl⟩)
      | none =>
        refine .inr (.inr ⟨hknown.symm, time + time', ?_⟩)
        rw [proceed, runs_bind] at hone
        rcases hone with ⟨e, rfl, h⟩ | ⟨s, d₂, h, hpure⟩
        · exact ⟨_, h, rfl⟩
        · obtain ⟨rfl, rfl⟩ := runs_pure.mp hpure
          exact ⟨_, h, rfl⟩

theorem outcome_compileOne (hkey : (keyOf file root).outcome d = (.ok key, d)) :
    (compileOne F file buildDirectory root systemEntities).outcome d =
      match ((consult F key file (snapshotPath key buildDirectory) systemEntities).outcome d).1 with
      | .error e => (.error e, d)
      | .ok (some s) => (.ok (key, s), d)
      | .ok none =>
          (((renew F key file (snapshotPath key buildDirectory) systemEntities).outcome d).1.map
            fun s => (key, s),
            ((renew F key file (snapshotPath key buildDirectory) systemEntities).outcome d).2) := by
  have hdisk :
      ((consult F key file (snapshotPath key buildDirectory) systemEntities).outcome d).2 = d :=
    readOnly_consult.disk
  rw [compileOne_eq, outcome_bind_of_ok hkey, outcome_bind]
  rcases hconsult : (consult F key file (snapshotPath key buildDirectory) systemEntities).outcome d
    with ⟨e | _ | s, d₁⟩ <;> obtain rfl : d₁ = d := by rw [hconsult] at hdisk; exact hdisk
  · rfl
  · dsimp only
    rw [proceed, outcome_bind]
    rcases (renew F key file (snapshotPath key buildDirectory) systemEntities).outcome d₁
      with ⟨e | s, d₂⟩ <;> rfl
  · rfl

theorem runs_compileInto_cons {built : Table String Schema} {files : List Path}
    {x : Except JobError (Table String Schema)} :
    (compileInto F buildDirectory root systemEntities built (file :: files)).Runs d x d' ↔
      (∃ e, x = .error e ∧
        (compileOne F file buildDirectory root systemEntities).Runs d (.error e) d') ∨
      ∃ key s d₁, (compileOne F file buildDirectory root systemEntities).Runs d (.ok (key, s)) d₁ ∧
        (compileInto F buildDirectory root systemEntities (built.insert key s) files).Runs
          d₁ x d' := by
  rw [compileInto, runs_bind]
  refine or_congr_right ⟨?_, ?_⟩
  · rintro ⟨⟨key, s⟩, d₁, hone, h⟩
    exact ⟨key, s, d₁, hone, h⟩
  · rintro ⟨key, s, d₁, hone, h⟩
    exact ⟨(key, s), d₁, hone, h⟩

theorem outcome_compileInto_cons (built : Table String Schema) (files : List Path) :
    (compileInto F buildDirectory root systemEntities built (file :: files)).outcome d =
      match (compileOne F file buildDirectory root systemEntities).outcome d with
      | (.ok (key, s), d) =>
          (compileInto F buildDirectory root systemEntities (built.insert key s) files).outcome d
      | (.error e, d) => (.error e, d) := by
  rw [compileInto, outcome_bind]
  rcases (compileOne F file buildDirectory root systemEntities).outcome d with
    ⟨e | ⟨key, s⟩, d₁⟩ <;> rfl

/-! ## What is told -/

@[simp] theorem not_tells_keyOf {n : Notice} : ¬ (keyOf file root).Tells d n := by
  rw [keyOf, tells_bind, not_or]
  refine ⟨not_tells_locate, fun ⟨l, d₁, _, h⟩ => ?_⟩
  rw [tells_bind] at h
  rcases h with h | ⟨r, d₂, _, h⟩
  · exact not_tells_locate h
  · revert h
    rcases Location.below? r l with _ | _ | _ <;> exact nofun

@[simp] theorem not_tells_isFresh {n : Notice} : ¬ (isFresh file snapshot).Tells d n := by
  rw [isFresh, tells_bind, not_or]
  refine ⟨not_tells_time?, fun ⟨made, d₁, _, h⟩ => ?_⟩
  rw [tells_bind] at h
  rcases h with h | ⟨changed, d₂, _, h⟩
  · exact not_tells_time? h
  · revert h
    cases made <;> cases changed <;> exact nofun

theorem tells_known? {k : String} : (known? F key snapshot systemEntities).Tells d (.reused k) ↔
    k = key ∧ ∃ text s, d.read snapshot = .ok text ∧ recorded? F systemEntities text = some s := by
  rw [known?, tells_bind, or_iff_right not_tells_readText, outcome_readText]
  cases d.read snapshot with
  | error fault => simp
  | ok text =>
    cases h : Snapshot.decode F.models text with
    | error cause => simp [recorded?, h]
    | ok found =>
      by_cases hsame : (Value.ofRecord found.2).same (.ofRecord (options systemEntities)) = true
      · simp [recorded?, h, hsame]
      · simp [recorded?, h, hsame]

/-- **A snapshot is reused exactly if a schema is found in it.** -/
theorem tells_consult {k : String} :
    (consult F key file snapshot systemEntities).Tells d (.reused k) ↔
      k = key ∧ ∃ s, ((consult F key file snapshot systemEntities).outcome d).1 = .ok (some s) := by
  obtain ⟨fresh, hfresh, hiff⟩ := outcome_isFresh d file snapshot
  have hsome : ∀ s, ((consult F key file snapshot systemEntities).outcome d).1 = .ok (some s) ↔
      fresh = true ∧
        ∃ text, d.read snapshot = .ok text ∧ recorded? F systemEntities text = some s := by
    intro s
    rw [consult_eq_ok_iff, hiff]
    simp [eq_comm]
  simp only [hsome]
  rw [consult, tells_bind_of_ok hfresh, or_iff_right not_tells_isFresh]
  cases fresh with
  | false => simp
  | true =>
    rw [if_pos rfl, tells_known?]
    simp only [true_and]
    exact and_congr_right fun _ => exists_comm

@[simp] theorem not_tells_renew {k : String} :
    ¬ (renew F key file snapshot systemEntities).Tells d (.reused k) := by
  intro h
  simp only [renew, tells_bind, tells_report] at h
  rcases h with h | ⟨_, _, -, h | ⟨_, _, -, h | ⟨_, _, -, h⟩⟩⟩
  · obtain ⟨step, hstep⟩ := Source.tells_compile h
    cases hstep
  · exact not_tells_save h
  · cases h
  · exact not_tells_pure h

/-- Building a file tells of reuse exactly if consulting its snapshot does. -/
theorem tells_compileOne (hkey : (keyOf file root).outcome d = (.ok key, d)) {k : String} :
    (compileOne F file buildDirectory root systemEntities).Tells d (.reused k) ↔
      k = key ∧ ∃ s, ((consult F key file (snapshotPath key buildDirectory) systemEntities).outcome
        d).1 = .ok (some s) := by
  rw [compileOne_eq, tells_bind_of_ok hkey, or_iff_right not_tells_keyOf, tells_bind, tells_consult]
  refine or_iff_left ?_
  rintro ⟨_ | s, d', -, h⟩
  · rw [proceed, tells_bind, or_iff_right not_tells_renew] at h
    obtain ⟨_, _, -, h⟩ := h
    exact not_tells_pure h
  · exact not_tells_pure h

theorem tells_compileInto_cons {built : Table String Schema} {files : List Path} {n : Notice} :
    (compileInto F buildDirectory root systemEntities built (file :: files)).Tells d n ↔
      (compileOne F file buildDirectory root systemEntities).Tells d n ∨ ∃ key s d',
        (compileOne F file buildDirectory root systemEntities).outcome d = (.ok (key, s), d') ∧
        (compileInto F buildDirectory root systemEntities (built.insert key s) files).Tells
          d' n := by
  rw [compileInto, tells_bind]
  refine or_congr_right ⟨?_, ?_⟩
  · rintro ⟨⟨key, s⟩, d', hone, h⟩
    exact ⟨key, s, d', hone, h⟩
  · rintro ⟨key, s, d', hone, h⟩
    exact ⟨(key, s), d', hone, h⟩

end EntitySchema.Build
