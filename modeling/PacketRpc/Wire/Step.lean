import PacketRpc.Error

/-!
# Steps over a state

Writing and reading packets are sequences of steps. A step ends with a value or a protocol error,
and in both cases with the state it has reached: a failed read stands where it failed, and a failed
write has written what came before. Sequencing stops at the first error.
-/

namespace PacketRpc

/-- A step over states `σ`: a value or an error, and the state in which it ends. -/
def Step (σ α : Type) : Type := σ → Except ProtocolError α × σ

namespace Step

variable {σ α β : Type}

/-- Ends at once with a value. -/
def done (a : α) : Step σ α := fun s => (.ok a, s)

/-- Ends at once with an error. -/
def fail (e : ProtocolError) : Step σ α := fun s => (.error e, s)

/-- Runs `f` on the value of `x`, from the state that `x` has reached. -/
def andThen (x : Step σ α) (f : α → Step σ β) : Step σ β := fun s =>
  match x s with
  | (.ok a, t) => f a t
  | (.error e, t) => (.error e, t)

instance : Monad (Step σ) where
  pure := done
  bind := andThen

theorem pure_apply (a : α) (s : σ) : (pure a : Step σ α) s = (.ok a, s) := rfl

theorem bind_apply (x : Step σ α) (f : α → Step σ β) (s : σ) :
    (x >>= f) s = match x s with
      | (.ok a, t) => f a t
      | (.error e, t) => (.error e, t) := rfl

theorem bind_of_ok {x : Step σ α} {s t : σ} {a : α} (h : x s = (.ok a, t)) (f : α → Step σ β) :
    (x >>= f) s = f a t := by rw [bind_apply, h]

theorem bind_of_error {x : Step σ α} {s t : σ} {e : ProtocolError} (h : x s = (.error e, t))
    (f : α → Step σ β) : (x >>= f) s = (.error e, t) := by rw [bind_apply, h]

/-- Repeats a step `n` times, keeping the values in order after those of `acc`, which are held
last first. -/
def repeatOnto (x : Step σ α) : Nat → List α → Step σ (List α)
  | 0, acc => fun s => (.ok acc.reverse, s)
  | n + 1, acc => fun s =>
    match x s with
    | (.ok a, t) => repeatOnto x n (a :: acc) t
    | (.error e, t) => (.error e, t)

/-- Repeats a step `n` times and lists its values; stops at the first error. -/
def repeated (n : Nat) (x : Step σ α) : Step σ (List α) := repeatOnto x n []

/-- Runs a step for each element in turn; stops at the first error. -/
def forEach (f : α → Step σ Unit) : List α → Step σ Unit
  | [] => done ()
  | a :: as => do
    f a
    forEach f as

end Step
end PacketRpc
