import ConicDerivative.Failure
import Mathlib

/-!
Computations that may fail. A sequence of them succeeds just if every step does, and the values that
the steps leave are then known.
-/

namespace ConicDerivative.Outcomes

variable {ε β γ : Type}

theorem bind_eq_ok {x : Except ε β} {f : β → Except ε γ} {result : γ} :
    x >>= f = .ok result ↔ ∃ value, x = .ok value ∧ f value = .ok result := by
  cases x with
  | error cause => simp [bind, Except.bind]
  | ok value => simp [bind, Except.bind]

theorem bind_of_eq_ok {x : Except ε β} {f : β → Except ε γ} {value : β} (success : x = .ok value) :
    x >>= f = f value := by
  rw [success]
  rfl

theorem exists_bind_eq_ok {x : Except ε β} {f : β → Except ε γ}
    (total : ∀ value, ∃ result, f value = .ok result) :
    (∃ result, x >>= f = .ok result) ↔ ∃ value, x = .ok value := by
  constructor
  · rintro ⟨result, success⟩
    obtain ⟨value, first, _⟩ := bind_eq_ok.1 success
    exact ⟨value, first⟩
  · rintro ⟨value, first⟩
    obtain ⟨result, second⟩ := total value
    exact ⟨result, bind_eq_ok.2 ⟨value, first, second⟩⟩

theorem lift_bind_eq_ok {α : Type} {given : Except LayoutError β} {f : β → Outcome α γ}
    {result : γ} : (monadLift given : Outcome α β) >>= f = .ok result ↔
      ∃ value, given = .ok value ∧ f value = .ok result := by
  cases given with
  | error cause => simp [monadLift, MonadLift.monadLift, bind, Except.bind]
  | ok value => simp [monadLift, MonadLift.monadLift, bind, Except.bind]

theorem pure_eq_ok {value result : β} : (pure value : Except ε β) = .ok result ↔ value = result := by
  simp [pure, Except.pure]

theorem map_eq_ok {x : Except ε β} {f : β → γ} {result : γ} :
    x.map f = .ok result ↔ ∃ value, x = .ok value ∧ f value = result := by
  cases x with
  | error cause => simp [Except.map]
  | ok value => simp [Except.map]

theorem mapM_eq_ok {f : β → Except ε γ} {items : List β} {results : List γ} :
    items.mapM f = .ok results ↔ List.Forall₂ (fun item result => f item = .ok result) items results
    := by
  induction items generalizing results with
  | nil =>
    rw [List.mapM_nil, pure_eq_ok, List.forall₂_nil_left_iff]
    exact eq_comm
  | cons item items ih =>
    rw [List.mapM_cons, bind_eq_ok]
    constructor
    · rintro ⟨first, head, rest⟩
      obtain ⟨others, tail, joined⟩ := bind_eq_ok.1 rest
      cases pure_eq_ok.1 joined
      exact .cons head (ih.1 tail)
    · intro related
      cases related with
      | cons head tail =>
        exact ⟨_, head, bind_eq_ok.2 ⟨_, ih.2 tail, rfl⟩⟩

theorem map_mapM {δ : Type} (f : β → Except ε γ) (g : γ → δ) (items : List β) :
    (items.mapM f).map (List.map g) = items.mapM fun item => (f item).map g := by
  induction items with
  | nil => rfl
  | cons item items ih =>
    rw [List.mapM_cons, List.mapM_cons, ← ih]
    cases f item with
    | error cause => rfl
    | ok first =>
      cases items.mapM f with
      | error cause => rfl
      | ok rest => rfl

theorem exists_of_mem_mapM {f : β → Except ε γ} {items : List β} {results : List γ} {result : γ}
    (success : items.mapM f = .ok results) (listed : result ∈ results) :
    ∃ item, f item = .ok result := by
  rw [mapM_eq_ok] at success
  induction success with
  | nil => cases listed
  | cons first _ ih =>
    rcases List.mem_cons.1 listed with rfl | later
    · exact ⟨_, first⟩
    · exact ih later

theorem exists_mem_mapM_iff {f : β → Except ε γ} {items : List β} {results : List γ}
    (success : items.mapM f = .ok results) {P : γ → Prop} : (∃ result ∈ results, P result) ↔
      ∃ item ∈ items, ∃ result, f item = .ok result ∧ P result := by
  rw [mapM_eq_ok] at success
  induction success with
  | nil => simp
  | cons first _ ih => simp [ih, first]

theorem exists_mapM_iff {f : β → Except ε γ} {items : List β} :
    (∃ results, items.mapM f = .ok results) ↔ ∀ item ∈ items, ∃ result, f item = .ok result := by
  simp only [mapM_eq_ok]
  induction items with
  | nil => simp
  | cons item items ih =>
    rw [List.forall_mem_cons, ← ih]
    constructor
    · rintro ⟨_, related⟩
      cases related with
      | cons head tail => exact ⟨⟨_, head⟩, _, tail⟩
    · rintro ⟨⟨_, head⟩, _, tail⟩
      exact ⟨_, .cons head tail⟩

theorem filterAuxM_eq_ok {p : β → Except ε Bool} {items kept found : List β} :
    items.filterAuxM p kept = .ok found ↔ (∀ item ∈ items, ∃ keep, p item = .ok keep) ∧
      (items.filter fun item => (p item).toOption = some true).reverse ++ kept = found := by
  induction items generalizing kept with
  | nil =>
    rw [List.filterAuxM, pure_eq_ok]
    simp
  | cons item items ih =>
    rw [List.filterAuxM, bind_eq_ok, List.forall_mem_cons]
    cases tested : p item with
    | error cause => simp
    | ok keep => cases keep <;> simp [ih, tested, Except.toOption]

theorem filterM_eq_ok {p : β → Except ε Bool} {items found : List β} :
    items.filterM p = .ok found ↔ (∀ item ∈ items, ∃ keep, p item = .ok keep) ∧
      items.filter (fun item => (p item).toOption = some true) = found := by
  rw [List.filterM, bind_eq_ok]
  simp only [filterAuxM_eq_ok, pure_eq_ok]
  constructor
  · rintro ⟨_, ⟨tested, rfl⟩, rfl⟩
    exact ⟨tested, by simp⟩
  · rintro ⟨tested, rfl⟩
    exact ⟨_, ⟨tested, rfl⟩, by simp⟩

theorem foldlM_cons_eq_ok {f : γ → β → Except ε γ} {start result : γ} {item : β} {items : List β} :
    (item :: items).foldlM f start = .ok result ↔
      ∃ next, f start item = .ok next ∧ items.foldlM f next = .ok result := by
  rw [List.foldlM_cons]
  exact bind_eq_ok

def FailsWith (P : ε → Prop) (x : Except ε β) : Prop := ∀ cause, x = .error cause → P cause

variable {P : ε → Prop}

theorem failsWith_ok (value : β) : FailsWith P (.ok value : Except ε β) := by
  intro cause failed
  cases failed

theorem failsWith_error {cause : ε} (kind : P cause) :
    FailsWith P (.error cause : Except ε β) := by
  intro other failed
  cases failed
  exact kind

theorem failsWith_bind_of_eq {x : Except ε β} {f : β → Except ε γ} (first : FailsWith P x)
    (rest : ∀ value, x = .ok value → FailsWith P (f value)) : FailsWith P (x >>= f) := by
  intro cause failed
  cases x with
  | error other =>
    cases failed
    exact first _ rfl
  | ok value => exact rest value rfl _ failed

theorem failsWith_bind {x : Except ε β} {f : β → Except ε γ} (first : FailsWith P x)
    (rest : ∀ value, FailsWith P (f value)) : FailsWith P (x >>= f) :=
  failsWith_bind_of_eq first fun value _ => rest value

theorem failsWith_map {x : Except ε β} (f : β → γ) (first : FailsWith P x) :
    FailsWith P (x.map f) := by
  intro cause failed
  cases x with
  | error other =>
    cases failed
    exact first _ rfl
  | ok value => cases failed

theorem failsWith_filterM {p : β → Except ε Bool} (step : ∀ item, FailsWith P (p item))
    (items : List β) : FailsWith P (items.filterM p) := by
  have collected (kept : List β) : FailsWith P (items.filterAuxM p kept) := by
    induction items generalizing kept with
    | nil => exact failsWith_ok kept
    | cons item items ih => exact failsWith_bind (step item) fun keep => ih _
  exact failsWith_bind (collected []) fun reversed => failsWith_ok _

theorem failsWith_foldlM {f : γ → β → Except ε γ} (step : ∀ value item, FailsWith P (f value item))
    (items : List β) (start : γ) : FailsWith P (items.foldlM f start) := by
  induction items generalizing start with
  | nil => exact failsWith_ok start
  | cons item items ih =>
    rw [List.foldlM_cons]
    exact failsWith_bind (step _ _) ih

theorem failsWith_mapM {f : β → Except ε γ} (items : List β) :
    FailsWith (fun cause => ∃ item ∈ items, f item = .error cause) (items.mapM f) := by
  induction items with
  | nil => exact failsWith_ok []
  | cons item items ih =>
    rw [List.mapM_cons]
    refine failsWith_bind ?_ fun first => failsWith_bind ?_ fun rest => failsWith_ok _
    · intro cause failed
      exact ⟨item, List.mem_cons_self, failed⟩
    · intro cause failed
      obtain ⟨later, listed, same⟩ := ih cause failed
      exact ⟨later, List.mem_cons_of_mem _ listed, same⟩

end ConicDerivative.Outcomes
