/-!
Work dealt out to several workers. The items are cut into runs, every worker takes run after run,
and the results are put together in the order of the items.
-/

namespace ConicDerivative.Batch

/-- The machine's processors and the number of workers asked for, `-1` for one per processor. -/
structure Pool where
  processors : Nat
  request : Int

/-- At least one worker, and no more than there are items. -/
def Pool.workers (pool : Pool) (items : Nat) : Nat :=
  (max 1 (min (items : Int) (if pool.request = -1 then pool.processors else pool.request))).toNat

def runs {β : Type} (length : Nat) : List β → List (List β)
  | [] => []
  | item :: rest => (item :: rest.take length) :: runs length (rest.drop length)
termination_by items => items.length
decreasing_by
  simp only [List.length_drop, List.length_cons]
  omega

theorem flatten_runs {β : Type} (length : Nat) (items : List β) :
    (runs length items).flatten = items := by
  fun_induction runs length items with
  | case1 => rfl
  | case2 item rest ih => simp [ih]

def mapM {μ : Type → Type} [Monad μ] {β γ : Type} (pool : Pool) (f : β → μ γ)
    (items : List β) : μ (List γ) :=
  let workers := pool.workers items.length
  if workers = 1 then items.mapM f
  else List.flatten <$> (runs ((items.length - 1) / (4 * workers)) items).mapM (·.mapM f)

end ConicDerivative.Batch
