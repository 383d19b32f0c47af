import EntitySchema.Proofs.Workspace.Job

/-!
# Proofs/Workspace/Save — a text saved where its directories may be missing

    save p (.ok text)   succeeds on d   ⟺   d.Open p

A text is saved by making the directories on the way and writing the file; if there is no text, only
the directories are made.  Whether that succeeds or not, the disk only gains directories on the way
and the file (`updates_of_save`), and it succeeds exactly if there is a text, no file is on the way
and no directory has the place of the file (`save_ok_iff`).
-/

namespace EntitySchema

namespace Path

theorem trail_subset_parent (p : Path) (home : Location) :
    p.trail home ⊆ p.parent.trail home ++ [p.parent.resolve home] := by
  by_cases h : p.parts = []
  · rw [trail, h]
    exact List.nil_subset _
  · rw [trail_eq_parent h]
    exact List.Subset.refl _

/-- The way of the path above, with its end, is the way of the path, unless there is no name. -/
theorem mem_trail_of_mem_parent {p : Path} {home l : Location}
    (hl : l ∈ p.parent.trail home ++ [p.parent.resolve home]) :
    l ∈ p.trail home ∨ l = p.start home := by
  by_cases h : p.parts = []
  · have hnone : p.parent.parts = [] := by rw [parent, h]; rfl
    rw [trail, resolve_eq, hnone] at hl
    exact .inr (List.mem_singleton.mp hl)
  · rw [← trail_eq_parent h] at hl
    exact .inl hl

end Path

namespace Disk

/-! ## Updates -/

/-- A file with what is to be written to it, if there is a text. -/
abbrev Draft := Path × Except SnapshotError String

/-- The disk `d'` is `d` with directories made on the way of some files, and some of these
written. -/
structure Updates (d d' : Disk) (drafts : List Draft) : Prop where
  /-- The working directory stays. -/
  home : d'.home = d.home
  /-- Time does not go back. -/
  clock : d.clock ≤ d'.clock
  /-- What is new was made in the meantime. -/
  time : ∀ l e, d'.entry? l = some e → d.entry? l = some e ∨ d.clock ≤ e.time ∧ e.time ≤ d'.clock
  /-- Nothing else changes, and no directory gives way to a file. -/
  entry : ∀ l, d'.entry? l = d.entry? l ∨
    (∃ f ∈ drafts, l ∈ f.1.trail d.home ∧ d.entry? l = none ∧ d'.IsDirectory l) ∨
    ∃ p text, (p, .ok text) ∈ drafts ∧ l = p.resolve d.home ∧ ¬ d.IsDirectory l ∧
      ∃ t, d'.entry? l = some (.file text t)

section Updates

variable {d d' d'' : Disk} {fs fs' : List Draft}

theorem updates_wait (d : Disk) (time : ℕ) (fs : List Draft) : Updates d (d.wait time) fs :=
  ⟨rfl, Nat.le_add_right _ _, fun _ _ => .inl, fun _ => .inl rfl⟩

theorem Updates.isDirectory (h : Updates d d' fs) {l : Location} (hl : d.IsDirectory l) :
    d'.IsDirectory l := by
  rcases h.entry l with heq | ⟨_, _, _, _, hdir⟩ | ⟨_, _, _, _, hfree, _⟩
  · rwa [IsDirectory, heq]
  · exact hdir
  · exact absurd hl hfree

theorem Updates.isFile (h : Updates d d' fs) {l : Location} (hl : d.IsFile l) : d'.IsFile l := by
  rcases h.entry l with heq | ⟨_, _, _, hnone, _⟩ | ⟨_, _, _, _, _, hfile⟩
  · rwa [IsFile, heq]
  · obtain ⟨text, t, ht⟩ := hl
    rw [hnone] at ht
    cases ht
  · exact ⟨_, hfile⟩

/-- A file was there before, or was written with its text. -/
theorem Updates.of_file (h : Updates d d' fs) {l : Location} {text : String} {t : ℕ}
    (hl : d'.entry? l = some (.file text t)) :
    d.entry? l = some (.file text t) ∨ ∃ p, (p, .ok text) ∈ fs ∧ p.resolve d.home = l := by
  rcases h.entry l with heq | ⟨_, _, _, _, _, hdir⟩ | ⟨p, _, hp, rfl, _, _, hfile⟩
  · exact .inl (heq.symm.trans hl)
  · cases hdir.symm.trans hl
  · cases hfile.symm.trans hl
    exact .inr ⟨p, hp, rfl⟩

theorem Updates.of_isFile (h : Updates d d' fs) {l : Location} (hl : d'.IsFile l) :
    d.IsFile l ∨ ∃ f ∈ fs, f.1.resolve d.home = l := by
  obtain ⟨text, t, hfile⟩ := hl
  rcases h.of_file hfile with hfile | ⟨p, hp, rfl⟩
  · exact .inl ⟨text, t, hfile⟩
  · exact .inr ⟨_, hp, rfl⟩

/-- A directory was there before, or was made on the way of a file, where nothing was. -/
theorem Updates.of_isDirectory (h : Updates d d' fs) {l : Location} (hl : d'.IsDirectory l) :
    d.IsDirectory l ∨ ∃ f ∈ fs, l ∈ f.1.trail d.home ∧ d.entry? l = none := by
  rcases h.entry l with heq | ⟨f, hf, hway, hnone, _⟩ | ⟨_, _, _, _, _, _, hfile⟩
  · rw [IsDirectory, heq] at hl
    exact .inl hl
  · exact .inr ⟨f, hf, hway, hnone⟩
  · exact absurd hl (IsFile.not_isDirectory ⟨_, _, hfile⟩)

/-- A file that is not among the written ones stays as it is. -/
theorem Updates.entry_eq_file_iff (h : Updates d d' fs) {l : Location}
    (hl : ∀ f ∈ fs, l ≠ f.1.resolve d.home) {text : String} {t : ℕ} :
    d'.entry? l = some (.file text t) ↔ d.entry? l = some (.file text t) := by
  rcases h.entry l with heq | ⟨_, _, _, hnone, t', hdir⟩ | ⟨_, _, hf, heq, _⟩
  · rw [heq]
  · rw [hnone, hdir]
    exact ⟨nofun, nofun⟩
  · exact absurd heq (hl _ hf)

theorem Updates.mono (h : Updates d d' fs) (hsub : fs ⊆ fs') : Updates d d' fs' where
  home := h.home
  clock := h.clock
  time := h.time
  entry l := (h.entry l).imp_right fun hnew =>
    hnew.imp (fun ⟨f, hf, hl⟩ => ⟨f, hsub hf, hl⟩) fun ⟨p, text, hf, hl⟩ =>
      ⟨p, text, hsub hf, hl⟩

theorem Updates.trans (h : Updates d d' fs) (h' : Updates d' d'' fs) : Updates d d'' fs where
  home := h'.home.trans h.home
  clock := Nat.le_trans h.clock h'.clock
  time l e he := by
    rcases h'.time l e he with he' | ⟨hle, hge⟩
    · exact (h.time l e he').imp_right fun ⟨hle, hge⟩ => ⟨hle, Nat.le_trans hge h'.clock⟩
    · exact .inr ⟨Nat.le_trans h.clock hle, hge⟩
  entry l := by
    have hnew := h'.entry l
    rw [h.home] at hnew
    rcases hnew with heq | ⟨f, hf, hl, hnone, hdir⟩ | ⟨p, text, hf, hl, hfree, hfile⟩
    · rw [IsDirectory, heq]
      exact h.entry l
    · rcases h.entry l with heq | ⟨_, _, _, _, _, hdir'⟩ | ⟨_, _, _, _, _, _, hfile'⟩
      · rw [heq] at hnone
        exact .inr (.inl ⟨f, hf, hl, hnone, hdir⟩)
      · rw [hnone] at hdir'
        cases hdir'
      · rw [hnone] at hfile'
        cases hfile'
    · exact .inr (.inr ⟨p, text, hf, hl, fun hd => hfree (h.isDirectory hd), hfile⟩)

end Updates

/-! ## Saving -/

/-- A file can be saved at the path: no file is on the way, and the end is neither a directory nor
on the way. -/
structure Open (d : Disk) (p : Path) : Prop where
  /-- No file is on the way. -/
  way : ∀ l ∈ p.trail d.home, ¬ d.IsFile l
  /-- No directory is at the end. -/
  place : ¬ d.IsDirectory (p.resolve d.home)
  /-- The way does not pass its end. -/
  apart : p.resolve d.home ∉ p.trail d.home

@[simp] theorem open_wait {d : Disk} {time : ℕ} {p : Path} : (d.wait time).Open p ↔ d.Open p :=
  ⟨fun h => ⟨h.way, h.place, h.apart⟩, fun h => ⟨h.way, h.place, h.apart⟩⟩

end Disk

namespace Job

open Disk

variable {d d' : Disk} {p : Path} {text : String} {content : Except SnapshotError String}
  {x : Except JobError Unit}

/-- Saving stops where the directories cannot be made, and where there is no text to write. -/
theorem runs_save : (save p content).Runs d x d' ↔ ∃ time,
    (∃ fault, (d.wait time).ensureDirectories p.parent = (.error fault, d') ∧
      x = .error (.file fault)) ∨
    ∃ d₁, (d.wait time).ensureDirectories p.parent = (.ok (), d₁) ∧
      ((∃ cause, content = .error cause ∧ x = .error (.snapshot cause) ∧ d' = d₁) ∨
        ∃ text, content = .ok text ∧ (writeText p text).Runs d₁ x d') := by
  have hbehind : ∀ {d₁}, (lift .snapshot content >>= writeText p).Runs d₁ x d' ↔
      (∃ cause, content = .error cause ∧ x = .error (.snapshot cause) ∧ d' = d₁) ∨
        ∃ text, content = .ok text ∧ (writeText p text).Runs d₁ x d' := by
    intro d₁
    cases content with
    | error cause => simp
    | ok text => simp
  simp only [save, runs_bind (f := fun _ => lift .snapshot content >>= writeText p), hbehind,
    runs_makeDirectories]
  constructor
  · rintro (⟨e, rfl, time, he, rfl⟩ | ⟨⟨⟩, d₁, ⟨time, hok, rfl⟩, h⟩)
    · rcases hensure : (d.wait time).ensureDirectories p.parent with ⟨fault | _, d₁⟩
      · rw [hensure] at he
        cases he
        exact ⟨time, .inl ⟨fault, hensure, rfl⟩⟩
      · rw [hensure] at he
        cases he
    · rcases hensure : (d.wait time).ensureDirectories p.parent with ⟨fault | _, d₁⟩
      · rw [hensure] at hok
        cases hok
      · rw [hensure] at h
        exact ⟨time, .inr ⟨d₁, hensure, h⟩⟩
  · rintro ⟨time, ⟨fault, hensure, rfl⟩ | ⟨d₁, hensure, h⟩⟩
    · exact .inl ⟨_, rfl, time, by rw [hensure]; rfl, by rw [hensure]⟩
    · exact .inr ⟨(), d₁, ⟨time, by rw [hensure]; rfl, by rw [hensure]⟩, h⟩

/-- Directories that are made on the way of a file are an update. -/
theorem updates_of_grows (hd : d.Solid)
    (h : Grows d d' (p.parent.trail d.home ++ [p.parent.resolve d.home])) :
    Updates d d' [(p, content)] where
  home := h.home
  clock := Nat.le_of_eq h.clock.symm
  time l e he := by
    rcases h.entry l with heq | ⟨-, -, hdir⟩
    · exact .inl (heq ▸ he)
    · cases hdir.symm.trans he
      exact .inr ⟨Nat.le_refl _, Nat.le_of_eq h.clock.symm⟩
  entry l := by
    rcases h.entry l with heq | ⟨hl, hnone, hdir⟩
    · exact .inl heq
    · rcases Path.mem_trail_of_mem_parent hl with hl | rfl
      · exact .inr (.inl ⟨_, List.mem_singleton_self _, hl, hnone, _, hdir⟩)
      · obtain ⟨t, ht⟩ := hd.isDirectory_start p
        rw [hnone] at ht
        cases ht

theorem updates_of_write (h : d.write p text = .ok d') : Updates d d' [(p, .ok text)] := by
  obtain ⟨-, hfree, rfl⟩ := write_eq_ok_iff.mp h
  have hne := ne_nil_of_not_isDirectory hfree
  refine ⟨rfl, Nat.le_refl _, fun l e he => ?_, fun l => ?_⟩
  · rw [entry?_put hne] at he
    split_ifs at he
    · cases he
      exact .inr ⟨Nat.le_refl _, Nat.le_refl _⟩
    · exact .inl he
  · by_cases hl : p.resolve d.home = l
    · subst hl
      exact .inr (.inr ⟨p, text, List.mem_singleton_self _, rfl, hfree, _, entry?_put_self hne _⟩)
    · exact .inl (entry?_put_of_ne hne _ hl)

theorem solid_of_write (hd : d.Solid) (h : d.write p text = .ok d') : d'.Solid := by
  obtain ⟨hdirs, hfree, rfl⟩ := write_eq_ok_iff.mp h
  obtain ⟨l, name, heq, hl⟩ := hd.exists_eq_append hdirs hfree
  rw [heq] at hfree ⊢
  exact hd.put hl hfree _

/-- **Saving changes nothing but the file and the directories on its way**, whether it succeeds or
not. -/
theorem updates_of_save (hd : d.Solid) (h : (save p content).Runs d x d') :
    Updates d d' [(p, content)] ∧ d'.Solid := by
  obtain ⟨time, h⟩ := runs_save.mp h
  obtain ⟨hgrows, hsolid⟩ := ensureDirectories_grows p.parent (hd.wait time)
  have hupdates : Updates d _ [(p, content)] :=
    (updates_wait d time _).trans (updates_of_grows (hd.wait time) hgrows)
  rcases h with ⟨fault, hensure, -⟩ | ⟨d₁, hensure, ⟨_, _, _, rfl⟩ | ⟨text, rfl, hwrite⟩⟩ <;>
    rw [hensure] at hupdates hsolid
  · exact ⟨hupdates, hsolid⟩
  · exact ⟨hupdates, hsolid⟩
  · obtain ⟨time', ⟨fault, -, -, rfl⟩ | ⟨hwrite, -⟩⟩ := runs_writeText.mp hwrite
    · exact ⟨hupdates.trans (updates_wait d₁ time' _), hsolid.wait time'⟩
    · exact ⟨(hupdates.trans (updates_wait d₁ time' _)).trans (updates_of_write hwrite),
        solid_of_write (hsolid.wait time') hwrite⟩

/-- Where a text was saved, there is a way to it, and it was stamped in the meantime. -/
theorem of_save_ok (hd : d.Solid) (h : (save p content).Runs d (.ok ()) d') :
    (∀ l ∈ p.trail d.home, d'.IsDirectory l) ∧ ∃ text t, content = .ok text ∧
      d'.entry? (p.resolve d.home) = some (.file text t) ∧ d.clock ≤ t ∧ t ≤ d'.clock := by
  obtain ⟨time, ⟨_, _, hx⟩ | ⟨d₁, hensure, ⟨_, _, hx, _⟩ | ⟨text, htext, hwrite⟩⟩⟩ := runs_save.mp h
  · cases hx
  · cases hx
  · obtain ⟨time', ⟨_, _, hx, _⟩ | ⟨hwrite, -⟩⟩ := runs_writeText.mp hwrite
    · cases hx
    · obtain ⟨hgrows, -⟩ := ensureDirectories_grows p.parent (hd.wait time)
      rw [hensure] at hgrows
      have hhome : d₁.home = d.home := hgrows.home
      have hclock : d₁.clock = d.clock + time := hgrows.clock
      obtain ⟨hdirs, hfree, rfl⟩ := write_eq_ok_iff.mp hwrite
      rw [home_wait, hhome] at hdirs hfree ⊢
      refine ⟨fun l hl => (hdirs l hl).put hfree _, text, _, htext,
        entry?_put_self (ne_nil_of_not_isDirectory hfree) _, ?_, Nat.le_refl _⟩
      rw [clock_wait, hclock]
      omega

/-- Where the path is open, the directories can be made, and then a text can be written. -/
theorem exists_ensure_of_open (hd : d.Solid) (hopen : d.Open p) :
    ∃ d₁, d.ensureDirectories p.parent = (.ok (), d₁) ∧
      ∀ time text fault, (d₁.wait time).write p text ≠ .error fault := by
  have hfiles : ∀ l ∈ p.parent.trail d.home ++ [p.parent.resolve d.home], ¬ d.IsFile l := by
    intro l hl hfile
    rcases Path.mem_trail_of_mem_parent hl with hl | rfl
    · exact hopen.way l hl hfile
    · exact hfile.not_isDirectory (hd.isDirectory_start p)
  obtain ⟨hok, hdirs⟩ := ensureDirectories_ok hd hfiles
  obtain ⟨hgrows, -⟩ := ensureDirectories_grows p.parent hd
  refine ⟨_, Prod.ext hok rfl, fun time text fault hfault => ?_⟩
  have hhome : (d.ensureDirectories p.parent).2.home = d.home := hgrows.home
  have hfree : ¬ (d.ensureDirectories p.parent).2.IsDirectory (p.resolve d.home) := by
    rintro ⟨t, ht⟩
    rcases hgrows.entry (p.resolve d.home) with heq | ⟨hl, hnone, -⟩
    · exact hopen.place ⟨t, heq ▸ ht⟩
    · rcases Path.mem_trail_of_mem_parent hl with hl | hl
      · exact hopen.apart hl
      · exact hopen.place (hl ▸ hd.isDirectory_start p)
  have hway : ∀ l ∈ p.trail (d.ensureDirectories p.parent).2.home,
      (d.ensureDirectories p.parent).2.IsDirectory l := by
    rw [hhome]
    exact fun l hl => hdirs l (p.trail_subset_parent d.home hl)
  rw [← hhome] at hfree
  have hwrite : ((d.ensureDirectories p.parent).2.wait time).write p text = .ok _ :=
    write_eq_ok_iff.mpr ⟨hway, hfree, rfl⟩
  cases hwrite.symm.trans hfault

/-- **A text can be saved exactly where the path is open.** -/
theorem save_ok_iff (hd : d.Solid) (h : (save p content).Runs d x d') :
    x = .ok () ↔ d.Open p ∧ ∃ text, content = .ok text := by
  obtain ⟨hupdates, -⟩ := updates_of_save hd h
  constructor
  · rintro rfl
    obtain ⟨hdirs, text, t, htext, hfile, -⟩ := of_save_ok hd h
    have hfree : ¬ d'.IsDirectory (p.resolve d.home) := IsFile.not_isDirectory ⟨_, _, hfile⟩
    exact ⟨⟨fun l hl hfile => (hupdates.isFile hfile).not_isDirectory (hdirs l hl),
      fun hdir => hfree (hupdates.isDirectory hdir), fun hmem => hfree (hdirs _ hmem)⟩, text, htext⟩
  · rintro ⟨hopen, text, rfl⟩
    obtain ⟨time, h⟩ := runs_save.mp h
    obtain ⟨d₁, hensure, hwrite⟩ :=
      exists_ensure_of_open (hd.wait time) (open_wait.mpr hopen)
    rw [hensure] at h
    rcases h with ⟨_, h, _⟩ | ⟨_, h, ⟨_, ⟨⟩, _⟩ | ⟨_, ⟨⟩, h'⟩⟩ <;> cases h
    obtain ⟨time', ⟨fault, hfault, -⟩ | ⟨-, hx⟩⟩ := runs_writeText.mp h'
    · exact absurd hfault (hwrite time' _ fault)
    · exact hx

@[simp] theorem not_tells_save {n : Notice} : ¬ (save p content).Tells d n := by
  simp only [save, tells_bind]
  rintro (h | ⟨_, _, -, h | ⟨_, _, -, h⟩⟩)
  · exact not_tells_makeDirectories h
  · exact not_tells_lift h
  · exact not_tells_writeText h

end Job

end EntitySchema
