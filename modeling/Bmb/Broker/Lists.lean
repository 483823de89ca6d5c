import Bmb.QueuePool.Load
import Bmb.Broker.Session

namespace Bmb

open Bmb.Base Bmb.Base.Program Bmb.Posix

/-! Whole runs on cells and pointers do what they do on lists. -/

section Runs

variable {σ : Type}

/-- Requests handled one after the other, until one of them stops the process. -/
def requestsRun (dispatch : BrokerRequest → Program σ (Option BrokerResponse)) :
    List BrokerRequest → Program σ (List (Option BrokerResponse))
  | [] => pure []
  | req :: reqs => do
      let response ← dispatch req
      let responses ← requestsRun dispatch reqs
      pure (response :: responses)

/-- What is alike for one request is alike for all of them. -/
theorem alike_requestsRun {ρ : Type} {related : σ → ρ → Prop}
    {dispatch : BrokerRequest → Program σ (Option BrokerResponse)}
    {other : BrokerRequest → Program ρ (Option BrokerResponse)}
    (alike : ∀ req, Alike related (dispatch req) (other req)) (reqs : List BrokerRequest) :
    Alike related (requestsRun dispatch reqs) (requestsRun other reqs) := by
  induction reqs with
  | nil => exact .pure []
  | cons req reqs ih => exact .bind (alike req) fun _ => .bind ih fun _ => .pure _

end Runs

variable (env : BrokerEnvironment)

/-- A process on cells and pointers: the load and some requests. -/
def process (reqs : List BrokerRequest) : Program Machine (List (Option BrokerResponse)) := do
  queuePoolLoad env.toEnvironment
  requestsRun (brokerDispatch env) reqs

/-- The same process on lists. -/
def Ledger.process (reqs : List BrokerRequest) : Program Ledger (List (Option BrokerResponse)) := do
  let shelf ← Ledger.onWorld (loadShelf env.toEnvironment)
  .modify fun ledger => ledger.setShelf shelf
  requestsRun (Ledger.dispatch env) reqs

theorem load_tracks {machine : Machine} (empty : machine.pool = .init) (ledger : Ledger)
    (same : machine.world = ledger.world) :
    (∃ shelf loaded, queuePoolLoad env.toEnvironment machine = .returned () loaded ∧
      Ledger.onWorld (loadShelf env.toEnvironment) ledger =
        .returned shelf (ledger.setWorld loaded.world) ∧ loaded.Keeps shelf) ∨
    ∃ trap stopped, queuePoolLoad env.toEnvironment machine = .trapped trap stopped ∧
      Ledger.onWorld (loadShelf env.toEnvironment) ledger =
        .trapped trap (ledger.setWorld stopped.world) := by
  have matching := queuePoolLoad_matches env.toEnvironment empty
  rw [Ledger.run_onWorld, ← same]
  generalize queuePoolLoad env.toEnvironment machine = outcome at matching ⊢
  generalize loadShelf env.toEnvironment machine.world = image at matching
  cases matching with
  | returned keeps => exact .inl ⟨_, _, rfl, rfl, keeps⟩
  | trapped => exact .inr ⟨_, _, rfl, rfl⟩

/-- Whatever calls fail, a process on cells and pointers gives the same responses as on lists or
stops in the same trap, has changed the same files, and has made the same allocations. -/
theorem process_on_lists (tree : FileTree) (reqs : List BrokerRequest) :
    (process env reqs (.boot tree)).result =
        (Ledger.process env reqs ⟨[], (Machine.boot tree).world⟩).result ∧
      (process env reqs (.boot tree)).state.world =
        (Ledger.process env reqs ⟨[], (Machine.boot tree).world⟩).state.world := by
  rcases load_tracks env (show (Machine.boot tree).pool = .init from rfl)
    ⟨[], (Machine.boot tree).world⟩ rfl with ⟨shelf, loaded, ran, read, keeps⟩ |
      ⟨trap, stopped, ran, read⟩
  · have tracks : Tracks loaded ⟨shelf, loaded.world⟩ := ⟨keeps, rfl⟩
    have requests : Alike Tracks (requestsRun (brokerDispatch env) reqs)
        (requestsRun (Ledger.dispatch env) reqs) :=
      alike_requestsRun (fun req _ _ tracks => brokerDispatch_matches env req tracks) reqs
    have pointers : process env reqs (.boot tree) = requestsRun (brokerDispatch env) reqs loaded := by
      rw [process, run_bind, ran]
    have lists : Ledger.process env reqs ⟨[], (Machine.boot tree).world⟩ =
        requestsRun (Ledger.dispatch env) reqs ⟨shelf, loaded.world⟩ := by
      rw [Ledger.process, run_bind, read]
      rfl
    have same := requests tracks
    rw [pointers, lists]
    exact ⟨same.result_eq, same.states.world⟩
  · rw [process, Ledger.process, run_bind, run_bind, ran, read]
    exact ⟨rfl, rfl⟩

end Bmb
