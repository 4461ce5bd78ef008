import ConicDerivative.Backend
import Mathlib

/-!
Runs that consult solvers. What a run makes of the last answer it gets decides how it ends, so a run
is sound for a kind of answers if it ends well whenever its last answer is of that kind.
-/

namespace ConicDerivative.Consulting

variable {α β γ : Type}

/-- How a run that finds a log ends, and the log that it leaves. -/
def after (run : Consulting α β) (log : Log α) : Except (Failure α) β × Log α :=
  Id.run (run.run.run log)

/-- The run makes no call. -/
def Quiet (run : Consulting α β) : Prop := ∀ log, (after run log).2.calls = log.calls

def Succeeds (run : Consulting α β) (Right : β → Prop) : Prop :=
  ∀ log, ∃ result, (after run log).1 = .ok result ∧ Right result

/-- If the run makes calls and the answer to the last one is good, what it returns is right. -/
def Sound (Good : Nat → Call α → Prop) (Right : β → Prop) (run : Consulting α β) : Prop :=
  ∀ log earlier call, (after run log).2.calls = earlier ++ [call] →
    log.calls.length ≤ earlier.length → Good earlier.length call →
    ∃ result, (after run log).1 = .ok result ∧ Right result

variable {run : Consulting α β} {f : β → Consulting α γ} {log : Log α}
variable {Good : Nat → Call α → Prop} {Right : β → Prop} {Right' : γ → Prop}

theorem after_bind : after (run >>= f) log = match (after run log).1 with
    | .ok value => after (f value) (after run log).2
    | .error cause => (.error cause, (after run log).2) := by
  change Id.run (StateT.run (ExceptT.bindCont f (after run log).1) (after run log).2) = _
  cases (after run log).1 with
  | ok value => rfl
  | error cause => rfl

theorem after_bind_eq_ok {result : γ} : (after (run >>= f) log).1 = .ok result ↔
    ∃ value, (after run log).1 = .ok value ∧ (after (f value) (after run log).2).1 = .ok result := by
  rw [after_bind]
  cases (after run log).1 with
  | ok value => simp
  | error cause => simp

theorem quiet_bind (quiet : Quiet run) (rest : ∀ value, Quiet (f value)) : Quiet (run >>= f) := by
  intro log
  cases ended : (after run log).1 with
  | ok value =>
    rw [after_bind, ended]
    exact (rest value _).trans (quiet log)
  | error cause =>
    rw [after_bind, ended]
    exact quiet log

theorem Succeeds.bind (first : Succeeds run Right)
    (rest : ∀ value, Right value → Succeeds (f value) Right') : Succeeds (run >>= f) Right' := by
  intro log
  obtain ⟨value, ended, right⟩ := first log
  rw [after_bind, ended]
  exact rest value right _

theorem Sound.bind (sound : Sound Good Right run) (quiet : ∀ value, Quiet (f value))
    (rest : ∀ value, Right value → Succeeds (f value) Right') : Sound Good Right' (run >>= f) := by
  intro log earlier call calls fresh good
  rw [after_bind] at calls ⊢
  cases ended : (after run log).1 with
  | ok value =>
    rw [ended] at calls
    have calls := (quiet value _).symm.trans calls
    obtain ⟨result, same, right⟩ := sound log earlier call calls fresh good
    obtain rfl : value = result := Except.ok.inj (ended.symm.trans same)
    exact rest value right _
  | error cause =>
    rw [ended] at calls
    obtain ⟨result, same, _⟩ := sound log earlier call calls fresh good
    cases ended.symm.trans same

/-- Steps without calls leave the calls of the run before them. -/
theorem calls_bind (quiet : ∀ value, Quiet (f value)) :
    (after (run >>= f) log).2.calls = (after run log).2.calls := by
  rw [after_bind]
  cases (after run log).1 with
  | ok value => exact quiet value _
  | error cause => rfl

theorem after_ofExcept (outcome : Outcome α β) (log : Log α) :
    after (monadLift outcome : Consulting α β) log = (outcome, log) := by
  cases outcome with
  | ok value => rfl
  | error cause => rfl

theorem after_ofExcept_bind {outcome : Outcome α β} {value : β} (success : outcome = .ok value)
    (f : β → Consulting α γ) :
    after ((monadLift outcome : Consulting α β) >>= f) log = after (f value) log := by
  subst success
  rfl

theorem after_layout_bind {given : Except LayoutError β} {value : β} (success : given = .ok value)
    (f : β → Consulting α γ) :
    after ((liftM given : Consulting α β) >>= f) log = after (f value) log := by
  subst success
  rfl

theorem quiet_ofExcept (outcome : Outcome α β) : Quiet (monadLift outcome : Consulting α β) := by
  intro log
  cases outcome with
  | ok value => rfl
  | error cause => rfl

theorem quiet_pure (value : β) : Quiet (pure value : Consulting α β) := fun _ => rfl

theorem quiet_throw (cause : Failure α) : Quiet (throw cause : Consulting α β) := fun _ => rfl

theorem quiet_warn (warning : Warning) : Quiet (warn warning : Consulting α Unit) := fun _ => rfl

theorem succeeds_ofExcept {value : β} {outcome : Outcome α β} (success : outcome = .ok value)
    (right : Right value) : Succeeds (monadLift outcome : Consulting α β) Right := by
  subst success
  exact fun log => ⟨value, rfl, right⟩

theorem succeeds_pure {value : β} (right : Right value) :
    Succeeds (pure value : Consulting α β) Right := fun _ => ⟨value, rfl, right⟩

theorem succeeds_warn (warning : Warning) :
    Succeeds (warn warning : Consulting α Unit) fun _ => True := fun _ => ⟨(), rfl, trivial⟩

theorem Quiet.length_lt (quiet : Quiet run) {earlier : List (Call α)} {call : Call α}
    (calls : (after run log).2.calls = earlier ++ [call]) : earlier.length < log.calls.length := by
  rw [← quiet log, calls, List.length_append, List.length_singleton]
  exact Nat.lt_succ_self _

theorem sound_of_quiet (quiet : Quiet run) : Sound Good Right run :=
  fun _ _ _ calls fresh => absurd (quiet.length_lt calls) (not_lt.2 fresh)

theorem sound_ofExcept_bind {outcome : Outcome α β}
    (rest : ∀ value, outcome = .ok value → Sound Good Right' (f value)) :
    Sound Good Right' ((monadLift outcome : Consulting α β) >>= f) := by
  cases outcome with
  | ok value => exact rest value rfl
  | error cause => exact sound_of_quiet fun _ => rfl

theorem sound_layout_bind {given : Except LayoutError β}
    (rest : ∀ value, given = .ok value → Sound Good Right' (f value)) :
    Sound Good Right' ((liftM given : Consulting α β) >>= f) := by
  cases given with
  | ok value => exact rest value rfl
  | error cause => exact sound_of_quiet fun _ => rfl

theorem sound_guard {refused : Prop} [Decidable refused] {cause : Failure α}
    {f : Unit → Consulting α γ} (rest : ¬refused → Sound Good Right' (f ())) :
    Sound Good Right' (if refused then throw cause >>= f else f ()) := by
  split_ifs with fault
  · exact sound_of_quiet fun _ => rfl
  · exact rest fault

theorem sound_of_last (last : ∀ log, ∃ (earlier : List (Call α)) (call : Call α)
    (rest : Consulting α β), after run log = after rest ⟨earlier ++ [call], log.warnings⟩ ∧
      Quiet rest ∧ (Good earlier.length call → Succeeds rest Right)) : Sound Good Right run := by
  intro log earlier call calls fresh good
  obtain ⟨earlier', call', rest, same, quiet, right⟩ := last log
  rw [same, quiet] at calls
  rw [same]
  obtain ⟨rfl, single⟩ := List.append_inj' calls rfl
  cases single
  exact right good _

variable {solvers : Solvers α}

theorem after_scs_bind (call : ScsCall α) (f : ScsReply α → Consulting α β) :
    after (scs solvers call >>= f) log = after (f (solvers.scs log.calls.length call))
      ⟨log.calls ++ [.scs call], log.warnings⟩ := rfl

theorem sound_ecos_bind {call : EcosCall α} {f : EcosReply α → Consulting α β}
    (quiet : ∀ reply, Quiet (f reply))
    (rest : ∀ count, Good count (.ecos call) → Succeeds (f (solvers.ecos count call)) Right) :
    Sound Good Right (ecos solvers call >>= f) :=
  sound_of_last fun log => ⟨log.calls, .ecos call, _, rfl, quiet _, rest _⟩

theorem sound_clarabel_bind {call : ClarabelCall α} {f : ClarabelReply α → Consulting α β}
    (quiet : ∀ reply, Quiet (f reply))
    (rest : ∀ count, Good count (.clarabel call) →
      Succeeds (f (solvers.clarabel count call)) Right) :
    Sound Good Right (clarabel solvers call >>= f) :=
  sound_of_last fun log => ⟨log.calls, .clarabel call, _, rfl, quiet _, rest _⟩

end ConicDerivative.Consulting
