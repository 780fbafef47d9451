import LoginRegistry.Proofs.Script.Within

/-! # How many requests a script makes

    `Spends b n s` says that the script makes at most `n` requests, whatever comes back within
    `b`.  There is one rule for each way to put a script together.
-/

namespace LoginRegistry

open Store (Request)

variable {b : Behaviour σ}

/-! ### Scripts -/

namespace Script

/-- Whatever comes back from its requests, the script makes at most so many. -/
def Spends (b : Behaviour σ) (n : Nat) (s : Script α) : Prop :=
  ∀ made st, s.Within b.recorded (fun _ st' => st'.1.length ≤ made.length + n) (made, st)

namespace Spends

theorem mono {s : Script α} {n m : Nat} (h : s.Spends b n) (hle : n ≤ m) : s.Spends b m :=
  fun made st => Within.mono (h made st) fun _ _ hst' =>
    Nat.le_trans hst' (Nat.add_le_add_left hle _)

theorem pure (a : α) (n : Nat) : Spends b n (Pure.pure a : Script α) :=
  fun _ _ => Nat.le_add_right ..

theorem report (event : Event) (n : Nat) : Spends b n (Script.report event) :=
  fun _ _ => Nat.le_add_right ..

theorem send (request : Request) : Spends b 1 (Script.send request) :=
  fun _ _ => within_send_recorded fun _ _ _ => Nat.le_refl _

theorem bind {s : Script α} {f : α → Script β} {n m : Nat} (hs : s.Spends b n)
    (hf : ∀ a, (f a).Spends b m) : (s >>= f).Spends b (n + m) := by
  refine fun made st => within_bind (Within.mono (hs made st) ?_)
  rintro o ⟨made', st'⟩ hlength
  match o with
  | none => exact Nat.le_trans hlength (Nat.add_le_add_left (Nat.le_add_right ..) _)
  | some a =>
    refine Within.mono (hf a made' st') fun _ _ h => ?_
    rw [← Nat.add_assoc]
    exact Nat.le_trans h (Nat.add_le_add_right hlength m)

end Spends

end Script

/-! ### Actions -/

namespace Action

/-- Whatever comes back from its requests, the action makes at most so many. -/
def Spends (b : Behaviour σ) (n : Nat) (a : Action α) : Prop := a.run.Spends b n

theorem Spends.within {a : Action α} {n : Nat} (h : Spends b n a) (made : List Request) (st : σ) :
    Within b.recorded a (made, st) (fun _ st' => st'.1.length ≤ made.length + n)
      fun _ st' => st'.1.length ≤ made.length + n := by
  refine Script.Within.mono (h made st) fun o st' hst' => ?_
  match o with
  | some (.ok v) => exact hst'
  | some (.error e) => exact hst'
  | none => exact hst'

namespace Spends

theorem mono {a : Action α} {n m : Nat} (h : Spends b n a) (hle : n ≤ m) : Spends b m a :=
  Script.Spends.mono h hle

theorem pure (v : α) (n : Nat) : Spends b n (Pure.pure v : Action α) :=
  Script.Spends.pure (Except.ok v) n

theorem throw (e : RegistryError) (n : Nat) : Spends b n (MonadExcept.throw e : Action α) :=
  Script.Spends.pure (Except.error e) n

theorem ofExcept (e : Except RegistryError α) (n : Nat) : Spends b n (liftM e : Action α) :=
  Script.Spends.pure e n

theorem orPanic (o : Option α) (n : Nat) : Spends b n (Action.orPanic o) := by
  cases o with
  | some v => exact .pure v n
  | none => exact fun _ _ => Nat.le_add_right ..

theorem bind {a : Action α} {f : α → Action β} {n m : Nat} (ha : Spends b n a)
    (hf : ∀ v, Spends b m (f v)) : Spends b (n + m) (a >>= f) := by
  refine Script.Spends.bind ha fun result => ?_
  match result with
  | .ok v => exact hf v
  | .error e => exact .pure (Except.error e) m

theorem timed {a : Action α} {n : Nat} (ha : Spends b n a) (operation : TimedOperation) :
    Spends b n (Action.timed operation a) :=
  Script.Spends.bind ha fun result => (Script.Spends.report _ 0).bind fun _ => .pure result 0

theorem lift {s : Script α} {n : Nat} (hs : s.Spends b n) :
    Spends b n (liftM s : Action α) :=
  Script.Spends.bind hs fun v => .pure (Except.ok v) 0

theorem ofStore {s : Script (Except Store.Error α)} {n : Nat} (hs : s.Spends b n) :
    Spends b n (Action.ofStore s) := by
  refine bind (m := 0) (lift hs) fun result => ?_
  match result with
  | .ok v => exact .pure v 0
  | .error e => exact .throw _ 0

theorem unlessRefused {s : Script (Except Store.Error Unit)} {n : Nat} (hs : s.Spends b n) :
    Spends b n (Action.unlessRefused s) := by
  refine bind (m := 0) (lift hs) fun result => ?_
  match result with
  | .ok () => exact .pure true 0
  | .error (.conditionFailed ..) => exact .pure false 0
  | .error (.tableNotFound _) | .error (.invalid _) | .error (.throttled _)
  | .error (.unavailable _) => exact .throw _ 0

theorem forM {f : α → Action PUnit} {n : Nat} (hf : ∀ a, Spends b n (f a)) (l : List α) :
    Spends b (l.length * n) (l.forM f) := by
  induction l with
  | nil => exact .pure () _
  | cons a l ih =>
    rw [List.length_cons, Nat.succ_mul, Nat.add_comm]
    exact .bind (hf a) fun _ => ih

theorem foldlM {f : β → α → Action β} {n : Nat} (hf : ∀ v a, Spends b n (f v a)) (l : List α)
    (v : β) : Spends b (l.length * n) (l.foldlM f v) := by
  induction l generalizing v with
  | nil => exact .pure v _
  | cons a l ih =>
    rw [List.foldlM_cons, List.length_cons, Nat.succ_mul, Nat.add_comm]
    exact .bind (hf v a) ih

end Spends

end Action

end LoginRegistry
