import LoginRegistry.Metrics
import LoginRegistry.Store.Request

/-! # Scripts

    An operation on the store is a script: a tree that either ends, or makes a
    request and goes on with the answer.  A script says nothing about where its
    requests go.  A handler answers them: the database, the database behind
    injected faults, or anything else.  So one definition of an operation serves
    every way of running it, whatever fails and whoever else is at work.

    A request may also be answered by a panic, which ends the script unless it
    runs isolated.
-/

namespace LoginRegistry

open Store (Request)

/-- What comes back from a request. -/
inductive Answer (α : Type) where
  /-- It succeeded. -/
  | ok (reply : α)
  /-- It failed. -/
  | failed (error : Store.Error)
  /-- It panicked. -/
  | panicked

/-- A computation that talks to the store and reports events. -/
inductive Script (α : Type) where
  /-- The end, with a result. -/
  | done (value : α)
  /-- The end by a panic. -/
  | panic
  /-- A request, and what to do with its answer. -/
  | call (request : Request) (next : Answer request.Reply → Script α)
  /-- An event, and what to do after it. -/
  | record (event : Event) (next : Script α)

namespace Script

/-! ### Sequencing -/

/-- Runs `f` on the result of a script. -/
protected def bind : Script α → (α → Script β) → Script β
  | .done a, f => f a
  | .panic, _ => .panic
  | .call request next, f => .call request fun answer => (next answer).bind f
  | .record event next, f => .record event (next.bind f)

instance : Monad Script where
  pure := .done
  bind := Script.bind

theorem bind_eq (s : Script α) (f : α → Script β) : s >>= f = s.bind f := rfl

theorem bind_done (s : Script α) : s.bind .done = s := by
  induction s with
  | done => rfl
  | panic => rfl
  | call request next ih => exact congrArg _ (funext ih)
  | record event next ih => exact congrArg _ ih

theorem bind_assoc (s : Script α) (f : α → Script β) (g : β → Script γ) :
    (s.bind f).bind g = s.bind fun a => (f a).bind g := by
  induction s with
  | done => rfl
  | panic => rfl
  | call request next ih => exact congrArg _ (funext ih)
  | record event next ih => exact congrArg _ ih

instance : LawfulMonad Script := LawfulMonad.mk' Script bind_done (fun _ _ => rfl) bind_assoc

/-! ### Basic scripts -/

/-- Makes one request; a panic is passed on. -/
def send (request : Request) : Script (Except Store.Error request.Reply) :=
  .call request fun
    | .ok reply => .done (.ok reply)
    | .failed error => .done (.error error)
    | .panicked => .panic

/-- Writes a full item. -/
def put (r : Store.Put) : Script (Except Store.Error Unit) := send (.put r)

/-- Overwrites attributes of an item. -/
def update (r : Store.Update) : Script (Except Store.Error Unit) := send (.update r)

/-- Removes an item. -/
def delete (r : Store.Delete) : Script (Except Store.Error Unit) := send (.delete r)

/-- Reads an item. -/
def get (r : Store.Get) : Script (Except Store.Error (Option Store.Item)) := send (.get r)

/-- Writes in bulk; the result holds what was left unprocessed. -/
def bulkWrite (w : Store.Writes) : Script (Except Store.Error Store.Writes) :=
  send (.bulkWrite w)

/-- Reads a page of a table. -/
def scan (r : Store.Scan) : Script (Except Store.Error Store.Page) := send (.scan r)

/-- Reports one event. -/
def report (event : Event) : Script Unit := .record event (.done ())

/-- Runs a script apart, so that its panic becomes the result `none`. -/
def isolate : Script α → Script (Option α)
  | .done a => .done (some a)
  | .panic => .done none
  | .call request next => .call request fun answer => (next answer).isolate
  | .record event next => .record event next.isolate

end Script

/-! ### Running -/

/-- Something that answers requests and keeps a state. -/
structure Handler (σ : Type) where
  /-- The answer to a request, and the state after it. -/
  respond : (request : Request) → σ → Answer request.Reply × σ

/-- How a script ended. -/
structure Run (α σ : Type) where
  /-- The result; `none` after a panic. -/
  result : Option α
  /-- The events reported, in order. -/
  events : List Event
  /-- The state of the handler. -/
  state : σ

/-- Runs a script with a handler. -/
def Script.run (h : Handler σ) : Script α → σ → Run α σ
  | .done a, s => ⟨some a, [], s⟩
  | .panic, s => ⟨none, [], s⟩
  | .call request next, s =>
    let (answer, s) := h.respond request s
    (next answer).run h s
  | .record event next, s =>
    let run := next.run h s
    { run with events := event :: run.events }

end LoginRegistry
