import EntitySchema.Session

/-!
# Proofs/Session — sessions that return

    x >>= f  returns b   iff   x returns some a, and f a goes on from there and returns b

A session that returns has a result and the calls up to its end (`Returns`).  What a session built
from calls returns is read off its parts, and so is what holds of its calls however it ends
(`Ensures`): it only ever adds to the log.
-/

namespace EntitySchema

/-! ## Results without calls -/

section

variable {ε α β : Type}

theorem bind_eq_ok_iff {x : Except ε α} {f : α → Except ε β} {b : β} :
    x >>= f = .ok b ↔ ∃ a, x = .ok a ∧ f a = .ok b := by
  cases x with
  | error e => exact ⟨nofun, fun ⟨_, h, _⟩ => nomatch h⟩
  | ok a => exact ⟨fun h => ⟨a, rfl, h⟩, fun ⟨_, h, hb⟩ => by cases h; exact hb⟩

@[simp] theorem Record.require_eq_ok_iff {r : Record} {key : String} {v : Value} :
    r.require key = .ok v ↔ r.get? key = some v := by
  rw [Record.require]
  cases r.get? key with
  | none => exact ⟨nofun, nofun⟩
  | some w => simp

end

namespace Session

variable {κ α β : Type} {log log' : List κ}

instance : LawfulMonad (Session κ) :=
  LawfulMonad.mk' (Session κ)
    (fun x => funext fun log => by
      change x.andThen done log = x log
      rw [andThen]
      rcases x log with ⟨_ | _, _⟩ <;> rfl)
    (fun _ _ => rfl)
    (fun x f g => funext fun log => by
      change (x.andThen f).andThen g log = x.andThen (fun a => (f a).andThen g) log
      rw [andThen, andThen, andThen]
      rcases x log with ⟨_ | _, _⟩ <;> rfl)

/-! ## Returning -/

/-- From the calls so far the session returns a result, after more calls. -/
def Returns (x : Session κ α) (log : List κ) (a : α) (log' : List κ) : Prop := x log = (.ok a, log')

@[simp] theorem returns_pure_iff {a b : α} :
    (pure a : Session κ α).Returns log b log' ↔ a = b ∧ log = log' := by
  change (Except.ok a, log) = (Except.ok b, log') ↔ _
  rw [Prod.mk.injEq, Except.ok.injEq]

/-- **One session after another.** -/
@[simp] theorem returns_bind_iff {x : Session κ α} {f : α → Session κ β} {b : β} :
    (x >>= f).Returns log b log' ↔
      ∃ a between, x.Returns log a between ∧ (f a).Returns between b log' := by
  change x.andThen f log = (.ok b, log') ↔ _
  rw [andThen]
  rcases h : x log with ⟨_ | a, between⟩
  · exact ⟨nofun, fun ⟨_, _, hx, _⟩ => by cases h.symm.trans hx⟩
  · exact ⟨fun hf => ⟨a, between, h, hf⟩, fun ⟨_, _, hx, hf⟩ => by cases h.symm.trans hx; exact hf⟩

@[simp] theorem returns_map_iff {x : Session κ α} {f : α → β} {b : β} :
    (f <$> x).Returns log b log' ↔ ∃ a, x.Returns log a log' ∧ f a = b := by
  refine returns_bind_iff.trans (exists_congr fun a => ⟨?_, ?_⟩)
  · rintro ⟨between, hx, hf⟩
    obtain ⟨rfl, rfl⟩ := returns_pure_iff.mp hf
    exact ⟨hx, rfl⟩
  · rintro ⟨hx, rfl⟩
    exact ⟨log', hx, returns_pure_iff.mpr ⟨rfl, rfl⟩⟩

@[simp] theorem returns_lift_iff {x : Except Failure α} {a : α} :
    (liftM x : Session κ α).Returns log a log' ↔ x = .ok a ∧ log = log' := by
  cases x with
  | error e => exact ⟨nofun, nofun⟩
  | ok b => exact returns_pure_iff.trans (and_congr_left' (Except.ok.injEq ..).symm.to_iff)

theorem not_returns_fail {e : Failure} {a : α} :
    ¬ (fail e : Session κ α).Returns log a log' := nofun

@[simp] theorem returns_perform_iff {answer : List κ → Except Failure α} {call : κ} {a : α} :
    (perform answer call).Returns log a log' ↔ answer log = .ok a ∧ log' = log ++ [call] := by
  rw [Returns, perform, Prod.mk.injEq]
  exact and_congr_right' eq_comm

@[simp] theorem returns_attempt_iff {x : Session κ α} {r : Except Failure α} :
    x.attempt.Returns log r log' ↔ x log = (r, log') := by
  rw [Returns, attempt]
  simp [Prod.ext_iff]

/-- **What comes behind a session that returns.** -/
theorem bind_of_returns {x : Session κ α} {f : α → Session κ β} {a : α}
    (h : x.Returns log a log') : (x >>= f) log = f a log' := by
  change x.andThen f log = _
  rw [andThen, h]

/-- A closed session is named by what it returns. -/
theorem exists_returns_of_any {x : Session κ α} {p : α → Bool}
    (h : (x log).1.toOption.any p = true) : ∃ a log', x.Returns log a log' ∧ p a = true := by
  rcases hx : x log with ⟨_ | a, log'⟩ <;> rw [hx] at h
  · exact absurd h (by simp [Except.toOption])
  · exact ⟨a, log', hx, h⟩

/-! ## Every ending -/

section

variable {Q Q' : List κ → Except Failure α → Prop} {R : List κ → Except Failure β → Prop}

/-- However the session ends, it has added calls to the log, and `Q` holds of them and of what the
session came to. -/
def Ensures (Q : List κ → Except Failure α → Prop) (x : Session κ α) : Prop :=
  ∀ log, ∃ calls r, x log = (r, log ++ calls) ∧ Q calls r

theorem Ensures.mono {x : Session κ α} (h : x.Ensures Q) (hQ : ∀ calls r, Q calls r → Q' calls r) :
    x.Ensures Q' := by
  intro log
  obtain ⟨calls, r, hx, hr⟩ := h log
  exact ⟨calls, r, hx, hQ calls r hr⟩

theorem ensures_lift {x : Except Failure α} (h : Q [] x) : (liftM x : Session κ α).Ensures Q := by
  intro log
  cases x with
  | error e => exact ⟨[], .error e, by rw [List.append_nil]; rfl, h⟩
  | ok a => exact ⟨[], .ok a, by rw [List.append_nil]; rfl, h⟩

theorem ensures_pure {a : α} (h : Q [] (.ok a)) : (pure a : Session κ α).Ensures Q :=
  ensures_lift (x := .ok a) h

theorem ensures_fail {e : Failure} (h : Q [] (.error e)) : (fail e : Session κ α).Ensures Q :=
  ensures_lift (x := .error e) h

theorem ensures_perform {answer : List κ → Except Failure α} {call : κ} (h : ∀ r, Q [call] r) :
    (perform answer call).Ensures Q := fun log => ⟨[call], answer log, rfl, h _⟩

/-- **One session after another**, which is not begun if the first fails. -/
theorem ensures_bind {x : Session κ α} {f : α → Session κ β} (hx : x.Ensures Q)
    (hfailed : ∀ calls e, Q calls (.error e) → R calls (.error e))
    (hf : ∀ calls a, Q calls (.ok a) → (f a).Ensures fun calls' r => R (calls ++ calls') r) :
    (x >>= f).Ensures R := by
  intro log
  obtain ⟨calls, r, hr, hQ⟩ := hx log
  cases r with
  | error e =>
    refine ⟨calls, .error e, ?_, hfailed calls e hQ⟩
    change x.andThen f log = _
    rw [andThen, hr]
  | ok a =>
    obtain ⟨calls', r', hr', hR⟩ := hf calls a hQ (log ++ calls)
    refine ⟨calls ++ calls', r', ?_, hR⟩
    change x.andThen f log = _
    rw [andThen, hr, ← List.append_assoc]
    exact hr'

theorem ensures_attempt {x : Session κ α} {Q : List κ → Except Failure (Except Failure α) → Prop}
    (h : x.Ensures fun calls r => Q calls (.ok r)) : x.attempt.Ensures Q := by
  intro log
  obtain ⟨calls, r, hx, hr⟩ := h log
  exact ⟨calls, .ok r, by rw [attempt, hx], hr⟩

end

/-! ## Calls on the way -/

section

variable {P : κ → Prop}

/-- However the session ends, it has only made calls such as `P` allows. -/
def StaysWithin (P : κ → Prop) (x : Session κ α) : Prop := x.Ensures fun calls _ => ∀ c ∈ calls, P c

theorem staysWithin_lift {x : Except Failure α} : (liftM x : Session κ α).StaysWithin P :=
  ensures_lift (List.forall_mem_nil _)

theorem staysWithin_pure {a : α} : (pure a : Session κ α).StaysWithin P :=
  ensures_pure (List.forall_mem_nil _)

theorem staysWithin_fail {e : Failure} : (fail e : Session κ α).StaysWithin P :=
  ensures_fail (List.forall_mem_nil _)

theorem staysWithin_perform {answer : List κ → Except Failure α} {call : κ} (hcall : P call) :
    (perform answer call).StaysWithin P :=
  ensures_perform fun _ => List.forall_mem_singleton.mpr hcall

theorem staysWithin_bind {x : Session κ α} {f : α → Session κ β} (hx : x.StaysWithin P)
    (hf : ∀ a, (f a).StaysWithin P) : (x >>= f).StaysWithin P :=
  ensures_bind hx (fun _ _ hcalls => hcalls) fun _ a hcalls =>
    (hf a).mono fun _ _ hcalls' => List.forall_mem_append.mpr ⟨hcalls, hcalls'⟩

theorem staysWithin_attempt {x : Session κ α} (h : x.StaysWithin P) : x.attempt.StaysWithin P :=
  ensures_attempt h

theorem staysWithin_foldlM {σ ι : Type} {step : σ → ι → Session κ σ}
    (hstep : ∀ s i, (step s i).StaysWithin P) : ∀ (is : List ι) (s : σ),
    (is.foldlM step s).StaysWithin P
  | [], _ => staysWithin_pure
  | i :: is, s => by
      rw [List.foldlM_cons]
      exact staysWithin_bind (hstep s i) (staysWithin_foldlM hstep is)

/-- When the session returns, it has added calls to the log, and only such as `P` allows. -/
def MakesOnly (P : κ → Prop) (x : Session κ α) : Prop :=
  ∀ ⦃log a log'⦄, x.Returns log a log' → ∃ calls, log' = log ++ calls ∧ ∀ c ∈ calls, P c

theorem StaysWithin.makesOnly {x : Session κ α} (h : x.StaysWithin P) : x.MakesOnly P := by
  intro log a log' hreturns
  obtain ⟨calls, r, hx, hcalls⟩ := h log
  exact ⟨calls, (Prod.mk.inj (hreturns.symm.trans hx)).2, hcalls⟩

end

end Session

end EntitySchema
