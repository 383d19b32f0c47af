import EntitySchema.Proofs.Workspace.Disk
import EntitySchema.Workspace.Job

/-!
# Proofs/Workspace/Job — jobs run step by step

    outcome (j >>= f) d  =  outcome (f a) d'     when   outcome j d = (a, d')

The outcome of a job on a disk is its result and the disk it leaves; what it tells on the way stands
apart (`Tells`).  No time passes in an outcome; a run may take its time before every request
(`Runs`), and the outcome is one of the runs (`runs_outcome`).  Every job is built from requests, so
`outcome_bind`, `runs_bind`, `tells_bind` and one equation for each request say what any job does.
-/

namespace EntitySchema

/-- The request changes nothing. -/
def Request.ReadOnly : Request → Prop
  | .write _ _ | .makeDirectories _ => False
  | _ => True

/-! ## Errors in other words -/

@[simp] theorem mapError_ok {α ε ε' : Type} (f : ε → ε') (a : α) :
    (Except.ok a : Except ε α).mapError f = .ok a := rfl

@[simp] theorem mapError_error {α ε ε' : Type} (f : ε → ε') (e : ε) :
    (Except.error e : Except ε α).mapError f = .error (f e) := rfl

namespace Job

variable {α β : Type}

/-! ## One job after another -/

theorem bind_bind {γ : Type} (f : α → Job β) (g : β → Job γ) : ∀ j : Job α,
    j >>= f >>= g = j >>= fun a => f a >>= g
  | .done _ => rfl
  | .fail _ => rfl
  | .ask r next => congrArg (ask r) (funext fun reply => bind_bind f g (next reply))

/-- The result of a job on a disk, and the disk it leaves. -/
def outcome (j : Job α) (d : Disk) : Except JobError α × Disk := ((j.runOn d).1, (j.runOn d).2.1)

@[simp] theorem outcome_pure (a : α) (d : Disk) : (pure a : Job α).outcome d = (.ok a, d) := rfl

@[simp] theorem outcome_fail (e : JobError) (d : Disk) :
    (fail e : Job α).outcome d = (.error e, d) := rfl

@[simp] theorem outcome_ask {r : Request} (next : r.Reply → Job α) (d : Disk) :
    (ask r next).outcome d = (next (d.reply r).1).outcome (d.reply r).2.1 := rfl

/-- **One job after another.** -/
theorem outcome_bind (f : α → Job β) : ∀ (j : Job α) (d : Disk), (j >>= f).outcome d =
    match j.outcome d with
    | (.ok a, d) => (f a).outcome d
    | (.error e, d) => (.error e, d)
  | .done _, _ => rfl
  | .fail _, _ => rfl
  | .ask r next, d => outcome_bind f (next (d.reply r).1) (d.reply r).2.1

theorem outcome_bind_of_ok {j : Job α} {f : α → Job β} {d d' : Disk} {a : α}
    (h : j.outcome d = (.ok a, d')) : (j >>= f).outcome d = (f a).outcome d' := by
  rw [outcome_bind, h]

theorem outcome_bind_of_error {j : Job α} {f : α → Job β} {d d' : Disk} {e : JobError}
    (h : j.outcome d = (.error e, d')) : (j >>= f).outcome d = (.error e, d') := by
  rw [outcome_bind, h]

/-! ## Requests -/

@[simp] theorem outcome_time? (p : Path) (d : Disk) :
    (time? p).outcome d = (.ok (d.time? p), d) := rfl

@[simp] theorem outcome_locate (p : Path) (d : Disk) :
    (locate p).outcome d = (.ok (p.resolve d.home), d) := rfl

@[simp] theorem outcome_report (n : Notice) (d : Disk) : (report n).outcome d = (.ok (), d) := rfl

@[simp] theorem outcome_lift (ofError : β → JobError) (r : Except β α) (d : Disk) :
    (lift ofError r).outcome d = (r.mapError ofError, d) := by
  cases r <;> rfl

@[simp] theorem outcome_readText (ofFault : FileFault → JobError) (p : Path) (d : Disk) :
    (readText ofFault p).outcome d = ((d.read p).mapError ofFault, d) :=
  outcome_lift ofFault (d.read p) d

/-- Telling changes nothing. -/
@[simp] theorem outcome_forEach_report {γ : Type} (notice : γ → Notice) (d : Disk) :
    ∀ cs : List γ, (forEach (fun c => report (notice c)) cs).outcome d = (.ok (), d)
  | [] => rfl
  | c :: cs => (outcome_bind_of_ok (outcome_report (notice c) d)).trans
      (outcome_forEach_report notice d cs)

/-! ## Jobs that change nothing -/

/-- The job changes nothing, whatever it is replied. -/
def ReadOnly : Job α → Prop
  | .done _ | .fail _ => True
  | .ask r next => r.ReadOnly ∧ ∀ reply, (next reply).ReadOnly

theorem readOnly_bind {f : α → Job β} (hf : ∀ a, (f a).ReadOnly) : ∀ {j : Job α}, j.ReadOnly →
    (j >>= f).ReadOnly
  | .done a, _ => hf a
  | .fail _, _ => trivial
  | .ask _ _, hj => ⟨hj.1, fun reply => readOnly_bind hf (hj.2 reply)⟩

@[simp] theorem readOnly_pure {a : α} : (pure a : Job α).ReadOnly := trivial

@[simp] theorem readOnly_lift {ofError : β → JobError} {r : Except β α} :
    (lift ofError r).ReadOnly := by
  cases r <;> trivial

theorem readOnly_request {r : Request} (h : r.ReadOnly) : (request r).ReadOnly :=
  ⟨h, fun _ => trivial⟩

@[simp] theorem readOnly_locate {p : Path} : (locate p).ReadOnly :=
  readOnly_bind (fun _ => readOnly_pure) (readOnly_request trivial)

@[simp] theorem readOnly_time? {p : Path} : (time? p).ReadOnly := readOnly_request trivial

@[simp] theorem readOnly_report {n : Notice} : (report n).ReadOnly := readOnly_request trivial

@[simp] theorem readOnly_readText {ofFault : FileFault → JobError} {p : Path} :
    (readText ofFault p).ReadOnly :=
  readOnly_bind (fun _ => readOnly_lift) (readOnly_request trivial)

@[simp] theorem readOnly_forEach_report {γ : Type} {notice : γ → Notice} : ∀ {cs : List γ},
    (forEach (fun c => report (notice c)) cs).ReadOnly
  | [] => trivial
  | _ :: _ => readOnly_bind (fun _ => readOnly_forEach_report) readOnly_report

/-- A request that changes nothing is replied the same at any time. -/
theorem reply_wait {r : Request} (hr : r.ReadOnly) (d : Disk) (time : ℕ) :
    (d.wait time).reply r = ((d.reply r).1, d.wait time, (d.reply r).2.2) := by
  cases r with
  | home => rfl
  | time p => rw [Disk.reply, Disk.reply, Disk.time?_wait]
  | read p => rw [Disk.reply, Disk.reply, Disk.read_wait]
  | write p text => exact hr.elim
  | makeDirectories p => exact hr.elim
  | tell u => rfl

theorem disk_reply {r : Request} (hr : r.ReadOnly) (d : Disk) : (d.reply r).2.1 = d :=
  congrArg (·.2.1) (reply_wait hr d 0)

/-- **A job that changes nothing leaves the disk as it is.** -/
theorem ReadOnly.disk : ∀ {j : Job α} {d : Disk}, j.ReadOnly → (j.outcome d).2 = d
  | .done _, _, _ => rfl
  | .fail _, _, _ => rfl
  | .ask r next, d, hj => by
      rw [outcome_ask, disk_reply hj.1]
      exact (hj.2 _).disk

/-- A job that changes nothing has the same result at any time. -/
theorem ReadOnly.result_wait : ∀ {j : Job α} {d : Disk}, j.ReadOnly → ∀ time : ℕ,
    (j.outcome (d.wait time)).1 = (j.outcome d).1
  | .done _, _, _, _ => rfl
  | .fail _, _, _, _ => rfl
  | .ask r next, d, hj, time => by
      rw [outcome_ask, outcome_ask, reply_wait hj.1, disk_reply hj.1]
      exact (hj.2 _).result_wait time

/-- What succeeds after a job that changes nothing. -/
theorem ReadOnly.result_bind {j : Job α} {f : α → Job β} {d : Disk} (hj : j.ReadOnly) {b : β} :
    ((j >>= f).outcome d).1 = .ok b ↔
      ∃ a, (j.outcome d).1 = .ok a ∧ ((f a).outcome d).1 = .ok b := by
  have hdisk := hj.disk (d := d)
  rcases h : j.outcome d with ⟨_ | a, d'⟩ <;> obtain rfl : d' = d := by rw [h] at hdisk; exact hdisk
  · rw [outcome_bind_of_error h]
    exact ⟨nofun, nofun⟩
  · rw [outcome_bind_of_ok h]
    exact ⟨fun hb => ⟨a, rfl, hb⟩, fun ⟨a', ha, hb⟩ => by cases ha; exact hb⟩

/-! ## Runs -/

/-- The job runs on a disk to a result and leaves another disk; time may pass before every
request. -/
inductive Runs : Job α → Disk → Except JobError α → Disk → Prop
  | done (a : α) (d : Disk) : Runs (.done a) d (.ok a) d
  | fail (e : JobError) (d : Disk) : Runs (.fail e) d (.error e) d
  | ask {r : Request} {next : r.Reply → Job α} {d d' : Disk} {x : Except JobError α} (time : ℕ)
      (h : Runs (next ((d.wait time).reply r).1) ((d.wait time).reply r).2.1 x d') :
      Runs (.ask r next) d x d'

variable {d d' : Disk} {x : Except JobError α}

@[simp] theorem clock_reply (d : Disk) (r : Request) : (d.reply r).2.1.clock = d.clock := by
  cases r with
  | write p text =>
    rw [Disk.reply]
    cases h : d.write p text with
    | ok d' =>
      obtain ⟨-, -, rfl⟩ := Disk.write_eq_ok_iff.mp h
      rfl
    | error fault => rfl
  | makeDirectories p =>
    change (d.ensureDirectories p).2.clock = d.clock
    exact Disk.clock_ensureFrom _
  | home | time p | read p | tell u => rfl

/-- No time passes in an outcome. -/
@[simp] theorem clock_outcome : ∀ (j : Job α) (d : Disk), (j.outcome d).2.clock = d.clock
  | .done _, _ => rfl
  | .fail _, _ => rfl
  | .ask r next, d => (clock_outcome (next (d.reply r).1) (d.reply r).2.1).trans (clock_reply d r)

/-- A job may run without time passing. -/
theorem runs_outcome : ∀ (j : Job α) (d : Disk), j.Runs d (j.outcome d).1 (j.outcome d).2
  | .done a, d => .done a d
  | .fail e, d => .fail e d
  | .ask r next, d => .ask 0 (runs_outcome (next (d.reply r).1) (d.reply r).2.1)

@[simp] theorem runs_pure {a : α} : (pure a : Job α).Runs d x d' ↔ x = .ok a ∧ d' = d := by
  constructor
  · intro h
    cases h
    exact ⟨rfl, rfl⟩
  · rintro ⟨rfl, rfl⟩
    exact .done a d'

@[simp] theorem runs_fail {e : JobError} :
    (fail e : Job α).Runs d x d' ↔ x = .error e ∧ d' = d := by
  constructor
  · intro h
    cases h
    exact ⟨rfl, rfl⟩
  · rintro ⟨rfl, rfl⟩
    exact .fail e d'

theorem runs_ask {r : Request} {next : r.Reply → Job α} : (ask r next).Runs d x d' ↔
    ∃ time, (next ((d.wait time).reply r).1).Runs ((d.wait time).reply r).2.1 x d' := by
  constructor
  · intro h
    cases h with
    | ask time h => exact ⟨time, h⟩
  · rintro ⟨time, h⟩
    exact .ask time h

/-- **The runs of one job after another.** -/
@[simp] theorem runs_bind {f : α → Job β} {x : Except JobError β} {j : Job α} :
    (j >>= f).Runs d x d' ↔
    (∃ e, x = .error e ∧ j.Runs d (.error e) d') ∨
      ∃ a d₁, j.Runs d (.ok a) d₁ ∧ (f a).Runs d₁ x d' := by
  induction j generalizing d with
  | done a =>
    refine ⟨fun h => .inr ⟨a, d, .done a d, h⟩, ?_⟩
    rintro (⟨_, _, h⟩ | ⟨_, _, h, hf⟩)
    · cases h
    · cases h
      exact hf
  | fail e =>
    refine runs_fail.trans ⟨?_, ?_⟩
    · rintro ⟨rfl, rfl⟩
      exact .inl ⟨e, rfl, .fail e d'⟩
    · rintro (⟨_, rfl, h⟩ | ⟨_, _, h, _⟩)
      · cases h
        exact ⟨rfl, rfl⟩
      · cases h
  | ask r next ih =>
    refine runs_ask.trans ((exists_congr fun time => ih _).trans ?_)
    simp only [runs_ask]
    constructor
    · rintro ⟨time, ⟨e, rfl, h⟩ | ⟨a, d₁, h, hf⟩⟩
      · exact .inl ⟨e, rfl, time, h⟩
      · exact .inr ⟨a, d₁, ⟨time, h⟩, hf⟩
    · rintro (⟨e, rfl, time, h⟩ | ⟨a, d₁, ⟨time, h⟩, hf⟩)
      · exact ⟨time, .inl ⟨e, rfl, h⟩⟩
      · exact ⟨time, .inr ⟨a, d₁, h, hf⟩⟩

@[simp] theorem runs_lift {ofError : β → JobError} {r : Except β α} :
    (lift ofError r).Runs d x d' ↔ x = r.mapError ofError ∧ d' = d := by
  cases r with
  | ok a => exact runs_pure
  | error e => exact runs_fail

/-- A failure or a reply that may be one. -/
theorem runs_request_lift {r : Request} {ofReply : r.Reply → Except β α}
    {ofError : β → JobError} :
    (request r >>= fun reply => lift ofError (ofReply reply)).Runs d x d' ↔
      ∃ time, x = (ofReply ((d.wait time).reply r).1).mapError ofError ∧
        d' = ((d.wait time).reply r).2.1 :=
  runs_ask.trans (exists_congr fun _ => runs_lift)

/-- A job that changes nothing has one result, whatever time it takes. -/
theorem ReadOnly.of_runs {j : Job α} (hj : j.ReadOnly) (h : j.Runs d x d') :
    x = (j.outcome d).1 ∧ ∃ time, d' = d.wait time := by
  induction h with
  | done a d => exact ⟨rfl, 0, rfl⟩
  | fail e d => exact ⟨rfl, 0, rfl⟩
  | @ask r next d d' x time h ih =>
    obtain ⟨hx, time', hd⟩ := ih (hj.2 _)
    rw [reply_wait hj.1] at hx hd
    rw [outcome_ask, disk_reply hj.1, hx, (hj.2 _).result_wait]
    exact ⟨rfl, time + time', by rw [hd, Disk.wait_wait]⟩

theorem runs_makeDirectories {p : Path} {x : Except JobError Unit} :
    (makeDirectories p).Runs d x d' ↔ ∃ time,
      x = ((d.wait time).ensureDirectories p).1.mapError .file ∧
      d' = ((d.wait time).ensureDirectories p).2 :=
  runs_request_lift

theorem runs_writeText {p : Path} {text : String} {x : Except JobError Unit} :
    (writeText p text).Runs d x d' ↔ ∃ time,
      (∃ fault, (d.wait time).write p text = .error fault ∧ x = .error (.file fault) ∧
        d' = d.wait time) ∨
      (d.wait time).write p text = .ok d' ∧ x = .ok () := by
  refine runs_request_lift.trans (exists_congr fun time => ?_)
  rw [Disk.reply]
  cases (d.wait time).write p text with
  | error fault => simp
  | ok d₁ => simp [eq_comm, and_comm]

/-! ## What is told -/

/-- The job tells the notice when it runs on the disk. -/
def Tells (j : Job α) (d : Disk) (n : Notice) : Prop := .notice n ∈ (j.runOn d).2.2

/-- **What one job after another tells.** -/
@[simp] theorem tells_bind {f : α → Job β} {n : Notice} : ∀ {j : Job α} {d : Disk},
    (j >>= f).Tells d n ↔
      j.Tells d n ∨ ∃ a d', j.outcome d = (.ok a, d') ∧ (f a).Tells d' n
  | .done a, d => by
      refine ⟨fun h => .inr ⟨a, d, rfl, h⟩, ?_⟩
      rintro (h | ⟨_, _, heq, h⟩)
      · exact nomatch h
      · cases heq
        exact h
  | .fail e, d => by
      refine ⟨nofun, ?_⟩
      rintro (h | ⟨_, _, heq, _⟩)
      · exact nomatch h
      · cases heq
  | .ask r next, d => by
      have ih : (next (d.reply r).1 >>= f).Tells (d.reply r).2.1 n ↔ _ := tells_bind
      exact (List.mem_append.trans (or_congr_right ih)).trans
        (or_assoc.symm.trans (or_congr_left List.mem_append.symm))

theorem tells_bind_of_ok {j : Job α} {f : α → Job β} {d d' : Disk} {a : α} {n : Notice}
    (h : j.outcome d = (.ok a, d')) :
    (j >>= f).Tells d n ↔ j.Tells d n ∨ (f a).Tells d' n := by
  rw [tells_bind, h]
  refine or_congr_right ⟨?_, fun hf => ⟨a, d', rfl, hf⟩⟩
  rintro ⟨_, _, heq, hf⟩
  cases heq
  exact hf

@[simp] theorem tells_report {m n : Notice} {d : Disk} : (report m).Tells d n ↔ n = m := by
  simp [Tells, report, request, runOn, Disk.reply]

@[simp] theorem not_tells_pure {a : α} {d : Disk} {n : Notice} :
    ¬ (pure a : Job α).Tells d n := nofun

@[simp] theorem not_tells_lift {ofError : β → JobError} {r : Except β α} {d : Disk} {n : Notice} :
    ¬ (lift ofError r).Tells d n := by
  cases r <;> exact nofun

/-- A request other than to tell something tells nothing. -/
theorem not_tells_request {r : Request} {d : Disk} {n : Notice} (h : (d.reply r).2.2 = []) :
    ¬ (request r).Tells d n := by
  change .notice n ∉ (d.reply r).2.2 ++ []
  rw [h]
  exact nofun

@[simp] theorem not_tells_locate {p : Path} {d : Disk} {n : Notice} : ¬ (locate p).Tells d n := by
  rw [locate, tells_bind, not_or]
  exact ⟨not_tells_request rfl, nofun⟩

@[simp] theorem not_tells_time? {p : Path} {d : Disk} {n : Notice} : ¬ (time? p).Tells d n :=
  not_tells_request rfl

@[simp] theorem not_tells_readText {ofFault : FileFault → JobError} {p : Path} {d : Disk}
    {n : Notice} :
    ¬ (readText ofFault p).Tells d n := by
  rw [readText, tells_bind, not_or]
  exact ⟨not_tells_request rfl, fun ⟨_, _, _, h⟩ => not_tells_lift h⟩

@[simp] theorem not_tells_writeText {p : Path} {text : String} {d : Disk} {n : Notice} :
    ¬ (writeText p text).Tells d n := by
  rw [writeText, tells_bind, not_or]
  refine ⟨not_tells_request ?_, fun ⟨_, _, _, h⟩ => not_tells_lift h⟩
  rw [Disk.reply]
  cases d.write p text <;> rfl

@[simp] theorem not_tells_makeDirectories {p : Path} {d : Disk} {n : Notice} :
    ¬ (makeDirectories p).Tells d n := by
  rw [makeDirectories, tells_bind, not_or]
  exact ⟨not_tells_request rfl, fun ⟨_, _, _, h⟩ => not_tells_lift h⟩

theorem tells_forEach_report {γ : Type} {notice : γ → Notice} {n : Notice} :
    ∀ {cs : List γ} {d : Disk},
    (forEach (fun c => report (notice c)) cs).Tells d n → ∃ c ∈ cs, n = notice c
  | [], _, h => by cases h
  | c :: cs, d, h => by
      rw [forEach, tells_bind, tells_report] at h
      rcases h with rfl | ⟨_, _, _, h⟩
      · exact ⟨c, List.mem_cons_self .., rfl⟩
      · obtain ⟨c', hc', rfl⟩ := tells_forEach_report h
        exact ⟨c', List.mem_cons_of_mem c hc', rfl⟩

end Job

end EntitySchema
