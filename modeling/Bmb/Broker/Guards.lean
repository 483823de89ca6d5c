import Bmb.Broker.Failures

namespace Bmb

open Bmb.Base Bmb.Posix

/-! What the actions rely on, as conditions that are checked where they are relied on. -/

/-- A node that exists and carries a message. -/
def Machine.hasNode (machine : Machine) (node : Pointer) : Bool :=
  match node.bind machine.nodes.get with
  | some ⟨_, some _, _⟩ => true
  | _ => false

def Machine.hasIndex (machine : Machine) (queue : Pointer) (index : Nat) : Bool :=
  match Queue.size queue machine with
  | .returned queueSize _ => index < queueSize
  | .trapped _ _ => false

/-- The queue of a request is in the pool and has the name that the request gives. -/
def Machine.hasQueue (machine : Machine) (req : BrokerRequest) : Bool :=
  (machine.pool.pool.slots.take machine.pool.length).contains req.queue &&
    match req.queue.bind machine.queues.get with
    | some queue => req.queueName == some queue.name
    | none => false

def BrokerRequest.hasData (req : BrokerRequest) : Bool :=
  match req.data with
  | some (_ :: _) => true
  | _ => false

/-! ## The code with its conditions -/

namespace Guarded

/-- `Queue_get` is called. -/
def get (queue : Pointer) (index : Nat) : Program Machine Pointer := do
  .require (·.hasIndex queue index)
  Queue.get queue index

def getNextTail (this : Pointer) : Program Machine Pointer := do
  let queueSize ← Queue.size this
  if queueSize ≤ 1 then pure none else get this (queueSize - 2)

def poll (env : Environment) (this : Pointer) : Program Machine Pointer := do
  if ← Queue.isEmpty this then pure none
  else do
    let queue ← queueAt this
    let tail := queue.tail
    let nextTail ← getNextTail this
    if queue.persist then do
      .require (·.hasNode tail)
      let node ← nodeAt tail
      let pres ← onWorld (persistDispatch env ⟨.removeNode, some queue.name, node.id, none⟩)
      if pres.success then Queue.detach this tail nextTail else pure none
    else Queue.detach this tail nextTail

variable (env : BrokerEnvironment)

/-- What `Queue_poll` gives back is used. -/
def consume (req : BrokerRequest) : Program Machine BrokerResponse := do
  if !(← Queue.isEmpty req.queue) then do
    .require (·.hasIndex req.queue 0)
    let node ← poll env.toEnvironment req.queue
    .require (·.hasNode node)
    match ← Node.getMessage node with
    | none => .stop .nullPointer
    | some message => do
        let machine ← .read
        let data := Broker.decodedMessage message (env.residue machine.world.system.clock)
        onWorld memAlloc
        Node.destruct node
        let res ← onWorld (createResponse env true 200 none (some data) none)
        onWorld memFree
        pure res
  else
    onWorld (createResponse env false 200 (some (text "Queue is empty.")) none none)

def peek (req : BrokerRequest) : Program Machine BrokerResponse := do
  let queueSize ← Queue.size req.queue
  if queueSize > req.index then do
    let node ← get req.queue req.index
    .require (·.hasNode node)
    match ← Node.getMessage node with
    | none => .stop .nullPointer
    | some message => do
        onWorld memAlloc
        let res ← onWorld (createResponse env true 200 none (some message) none)
        onWorld memFree
        pure res
  else
    onWorld (createResponse env false 200 (some (text "Node index out of range.")) none none)

def nodeObjects (queue : Pointer) (index : Nat) : Nat → Program Machine (Except Bytes (List Json))
  | 0 => pure (.ok [])
  | remaining + 1 => do
      let node ← get queue index
      .require (·.hasNode node)
      let message ← Node.getMessage node
      match ← onWorld (entryObject env index (text "message") message
          (text "Failed to add index to node JSON object.")
          (text "Failed to add message to node JSON object.")) with
      | .error errMsg => pure (.error errMsg)
      | .ok object => do
          match ← nodeObjects queue (index + 1) remaining with
          | .error errMsg => pure (.error errMsg)
          | .ok objects => pure (.ok (object :: objects))

def getAll (req : BrokerRequest) : Program Machine BrokerResponse := do
  let queueSize ← Queue.size req.queue
  match ← onWorld (cJSONCreate env (.object [])) with
  | none =>
      onWorld (createResponse env false 500 none none
        (some (text "Failed to add an array to JSON node list.")))
  | some _ => do
      match ← onWorld (cJSONCreate env (.array [])) with
      | none =>
          onWorld (createResponse env false 500 none none
            (some (text "Failed to add an array to JSON node list.")))
      | some _ => do
          let objects ← nodeObjects env req.queue 0 queueSize
          onWorld (Broker.printArray env (text "nodes") (text "Failed to print nodes.") objects)

/-- An action that uses a queue is called. -/
def withQueue (req : BrokerRequest) (action : Program Machine BrokerResponse) :
    Program Machine (Option BrokerResponse) := do
  .require (·.hasQueue req)
  some <$> action

/-- An action that uses the data is called. -/
def withData (req : BrokerRequest) (action : Program Machine (Option BrokerResponse)) :
    Program Machine (Option BrokerResponse) := do
  .require (fun _ => req.hasData)
  action

def dispatchAction (req : BrokerRequest) : Program Machine (Option BrokerResponse) := do
  if ← strEqual req.type brokerConsume then withQueue req (consume env req)
  else if ← strEqual req.type brokerProduce then withData req (withQueue req (Broker.produce env req))
  else if ← strEqual req.type brokerLength then withQueue req (Broker.length env req)
  else if ← strEqual req.type brokerGet then withQueue req (peek env req)
  else if ← strEqual req.type brokerGetAll then withQueue req (getAll env req)
  else if ← strEqual req.type brokerAddQueue then withData req (some <$> Broker.addQueue env req)
  else if ← strEqual req.type brokerGetAllQueueNames then some <$> Broker.getAllQueueNames env
  else if ← strEqual req.type brokerRemoveQueue then withQueue req (Broker.removeQueue env req)
  else pure none

def brokerDispatch (req : BrokerRequest) : Program Machine (Option BrokerResponse) := do
  let resNeedsQueue ← inStrArray req.type needsQueue
  let resNeedsIndex ← inStrArray req.type needsIndex
  let resNeedsData ← inStrArray req.type needsData
  let queue ← if resNeedsQueue then queuePoolGetByName req.queueName else pure none
  match validationError req queue resNeedsQueue resNeedsIndex resNeedsData with
  | some errMsg => some <$> onWorld (createResponse env false 200 (some errMsg) none none)
  | none => dispatchAction env { req with queue }

end Guarded

/-! ## Persistence -/

/-- The persistence calls of a command that is carried out; whether they succeed. -/
def persistCalls (env : Environment) (shelf : Shelf Bytes Item) : Command → Program World Bool
  | .consume ⟨key, item :: _⟩ =>
      (·.success) <$> persistDispatch env ⟨.removeNode, some key, item.id, none⟩
  | .produce mailbox data => do
      let persistRes ← persistDispatch env ⟨.getNextId, some mailbox.key, 0, none⟩
      if persistRes.success then storeCalls env mailbox.key (some data) else pure false
  | .addQueue name =>
      if name ∈ shelf.keys then pure true
      else (·.success) <$> persistDispatch env ⟨.addQueue, some name, 0, none⟩
  | .removeQueue mailbox =>
      (·.success) <$> persistDispatch env ⟨.removeQueue, some mailbox.key, 0, none⟩
  | _ => pure true

def PersistSucceeds (env : BrokerEnvironment) (machine : Machine) (command : Command) : Prop :=
  (persistCalls env.toEnvironment machine.shelf command machine.world).result = .ok true

variable {env : BrokerEnvironment} {machine : Machine} {ledger : Ledger}
  {before after : List Holding} {address : Address} {cells : List Address} {mailbox : Mailbox}
  {req : BrokerRequest} {key : Bytes} {item : Item} {rest : List Item}

theorem PersistSucceeds.removed (succeeds : PersistSucceeds env machine (.consume ⟨key, item :: rest⟩)) :
    ∃ pres world, persistDispatch env.toEnvironment ⟨.removeNode, some key, item.id, none⟩
      machine.world = .returned pres world ∧ pres.success = true := by
  obtain ⟨world, called⟩ := Outcome.result_eq_ok.mp succeeds
  obtain ⟨pres, ran, success⟩ := Program.map_eq_returned called
  exact ⟨pres, world, ran, success.symm⟩

theorem PersistSucceeds.answerable {command : Command} (succeeds : PersistSucceeds env machine command)
    (typed : command ≠ .untyped) (known : command ≠ .unknown) : Answerable env machine command := by
  cases command with
  | untyped => exact absurd rfl typed
  | unknown => exact absurd rfl known
  | rejected | length | get | getAll | getAllQueueNames | addQueue => trivial
  | consume mailbox =>
      obtain ⟨key, items⟩ := mailbox
      cases items with
      | nil => trivial
      | cons item rest =>
          obtain ⟨pres, world, ran, success⟩ := succeeds.removed
          by_cases zero : item.id = 0
          · rw [zero, removeNode_zero] at ran
            contradiction
          · rcases removeNodeCall_run env.toEnvironment key machine.world zero with
              ⟨target, _, can, _⟩ | ⟨_, message, _, refused, _⟩
            · exact ⟨zero, target, can⟩
            · rw [ran] at refused
              cases refused
              contradiction
  | produce mailbox data =>
      obtain ⟨last, called⟩ := Outcome.result_eq_ok.mp succeeds
      obtain ⟨res, middle, numbering, storing⟩ := Program.bind_eq_returned.mp called
      rcases getNextId_run env.toEnvironment mailbox.key machine.world with
        ⟨target, numbered, first, ran, asked⟩ | ⟨_, message, _, ran, _⟩
      · rw [ran] at numbering
        cases numbering
        rw [persistSuccess, if_pos rfl] at storing
        rcases Ledger.storeCalls_cases env mailbox.key data middle with
          ⟨_, _, stuck, _⟩ | ⟨second, can, ⟨_, _, stuck, _⟩ | ⟨positive, _⟩⟩
        · rw [stuck] at storing
          cases storing
        · rw [stuck] at storing
          cases storing
        · have readied := asked.handled
          rw [readied.tree, asked.system.clock, replay_nil, Nat.add_assoc] at can positive
          rw [can.1.path_eq] at positive
          exact ⟨first.at_target, can.at_target, positive⟩
      · rw [ran] at numbering
        cases numbering
        cases storing
  | removeQueue mailbox =>
      obtain ⟨last, called⟩ := Outcome.result_eq_ok.mp succeeds
      obtain ⟨res, removing, _⟩ := Program.map_eq_returned called
      rcases removeQueueCall_run env.toEnvironment mailbox.key machine.world with
        ⟨_, _, _, removal, _⟩ | ⟨_, _, _, _, removal, _⟩ | ⟨_, _, _, stuck, _⟩
      · exact fun uncertain => absurd (removal.none_iff.mpr uncertain) (by simp)
      · exact fun uncertain => absurd (removal.none_iff.mpr uncertain) (by simp)
      · rw [stuck] at removing
        cases removing

/-! ## Every condition is met -/

theorem hasNode_of_found {cell : Address} {next : Pointer}
    (found : machine.nodes.get cell = some { id := item.id, message := some item.message, next }) :
    machine.hasNode (some cell) = true := by
  simp only [Machine.hasNode, Option.bind_some, found]

namespace QueueHolds

theorem hasIndex {index : Nat} (holds : QueueHolds machine address cells true mailbox)
    (inside : index < mailbox.items.length) : machine.hasIndex (some address) index = true := by
  simp only [Machine.hasIndex, Queue.size_run holds, inside, decide_true]

theorem guarded_get {index : Nat} (holds : QueueHolds machine address cells true mailbox)
    (inside : index < mailbox.items.length) :
    Guarded.get (some address) index machine = Queue.get (some address) index machine := by
  simp only [Guarded.get, Program.run_bind, Program.run_require, holds.hasIndex inside, if_true]

theorem guarded_getNextTail (holds : QueueHolds machine address cells true mailbox) :
    Guarded.getNextTail (some address) machine = Queue.getNextTail (some address) machine := by
  simp only [Guarded.getNextTail, Queue.getNextTail, Program.run_bind, Queue.size_run holds,
    Program.run_ite]
  split
  · rfl
  · exact holds.guarded_get (by omega)

theorem guarded_poll (env : Environment)
    (holds : QueueHolds machine address cells true ⟨key, item :: rest⟩) :
    Guarded.poll env (some address) machine = Queue.poll env (some address) machine := by
  obtain ⟨kept, last, rfl, found⟩ := holds.last_node
  obtain ⟨header, _, nextTail⟩ := Queue.before_poll holds.linked
  simp only [Guarded.poll, Queue.poll, Program.run_bind, Queue.isEmpty_run holds, List.isEmpty_cons,
    Bool.false_eq_true, if_false, run_queueAt header, holds.guarded_getNextTail, nextTail, if_true,
    Program.run_require, hasNode_of_found found]

end QueueHolds

theorem guarded_consume (holds : QueueHolds machine address cells true mailbox)
    (target : req.queue = some address)
    (succeeds : PersistSucceeds env machine (.consume mailbox)) :
    Guarded.consume env req machine = Broker.consume env req machine := by
  obtain ⟨key, items⟩ := mailbox
  simp only [Guarded.consume, Broker.consume, target, Program.run_bind, Queue.isEmpty_run holds]
  cases items with
  | nil => rfl
  | cons item rest =>
      obtain ⟨pres, world, removed, success⟩ := succeeds.removed
      have polled := Queue.poll_run env.toEnvironment holds
      simp only [removed, success, if_true] at polled
      obtain ⟨kept, last, detached, rfl, ran, found, keeps, same, _⟩ := polled
      have absent : last ∉ kept := holds.chain.last_not_mem
      have detachedNode := (same.nodes last absent).trans found
      have nonempty : machine.hasIndex (some address) 0 = true :=
        holds.hasIndex (Nat.zero_lt_succ rest.length)
      simp only [List.isEmpty_cons, Bool.not_false, if_true, Program.run_bind, Program.run_require,
        nonempty, holds.guarded_poll, ran, hasNode_of_found detachedNode,
        Queue.getMessage_run detachedNode]

theorem guarded_peek (holds : QueueHolds machine address cells true mailbox)
    (target : req.queue = some address) :
    Guarded.peek env req machine = Broker.get env req machine := by
  simp only [Guarded.peek, Broker.get, target, Program.run_bind, Queue.size_run holds,
    Program.run_ite]
  split
  · rename_i inside
    have bound : req.index < cells.length := by rwa [holds.length_eq]
    obtain ⟨item, _, found⟩ := holds.node_at (List.getElem?_eq_getElem bound)
    simp only [Program.run_bind, holds.guarded_get inside, Queue.get_run holds bound,
      List.getElem?_eq_getElem bound, Program.run_require, hasNode_of_found found, if_true,
      Queue.getMessage_run found]
  · rfl

theorem guarded_nodeObjects {index remaining : Nat}
    (holds : QueueHolds machine address cells true mailbox)
    (inside : index + remaining ≤ mailbox.items.length) :
    Guarded.nodeObjects env (some address) index remaining machine =
      Broker.nodeObjects env (some address) index remaining machine := by
  induction remaining generalizing machine index with
  | zero => rfl
  | succ remaining ih =>
      have bound : index < cells.length := by
        rw [holds.length_eq]
        omega
      obtain ⟨item, _, found⟩ := holds.node_at (List.getElem?_eq_getElem bound)
      simp only [Guarded.nodeObjects, Broker.nodeObjects, Program.run_bind,
        holds.guarded_get (show index < mailbox.items.length by omega), Queue.get_run holds bound,
        List.getElem?_eq_getElem bound, Program.run_require, hasNode_of_found found, if_true,
        Queue.getMessage_run found, run_onWorld]
      cases entryObject env index (text "message") (some item.message)
          (text "Failed to add index to node JSON object.")
          (text "Failed to add message to node JSON object.") machine.world with
      | trapped trap world => rfl
      | returned object world =>
          cases object with
          | error errMsg => rfl
          | ok object =>
              exact Program.run_bind_congr (ih (holds.setWorld world)
                (show index + 1 + remaining ≤ mailbox.items.length by omega))

theorem guarded_getAll (holds : QueueHolds machine address cells true mailbox)
    (target : req.queue = some address) :
    Guarded.getAll env req machine = Broker.getAll env req machine := by
  simp only [Guarded.getAll, Broker.getAll, target, Program.run_bind, Queue.size_run holds,
    run_onWorld]
  cases cJSONCreate env (.object []) machine.world with
  | trapped trap world => rfl
  | returned list world =>
      cases list with
      | none => rfl
      | some list =>
          simp only [Program.run_bind, run_onWorld, Machine.setWorld_world, Machine.setWorld_setWorld]
          cases cJSONCreate env (.array []) world with
          | trapped trap world => rfl
          | returned array world =>
              cases array with
              | none => rfl
              | some array =>
                  simp only [Program.run_bind, guarded_nodeObjects (holds.setWorld world)
                    (Nat.zero_add _).le]

theorem Represents.hasQueue (represents :
      Represents machine (before ++ ⟨address, cells, true, mailbox⟩ :: after))
    (target : req.queue = some address) (named : req.queueName = some mailbox.key) :
    machine.hasQueue req = true := by
  have header := (represents.holds ⟨address, cells, true, mailbox⟩ (by simp)).header
  have slot : (machine.pool.pool.slots.take machine.pool.length).contains (some address) = true := by
    rw [represents.slots, represents.length, ← List.length_map (fun holding => some holding.address),
      List.take_length, List.contains_iff_mem]
    simp
  simp only [Machine.hasQueue, target, slot, Option.bind_some, header, named, beq_self_eq_true,
    Bool.and_self]

theorem hasData_of_gives {data : Bytes} (gives : Gives req data) : req.hasData = true := by
  unfold BrokerRequest.hasData
  rw [gives.given]
  cases data with
  | nil => exact absurd rfl gives.nonempty
  | cons => rfl

theorem guarded_withQueue {action : Program Machine BrokerResponse} (there : machine.hasQueue req = true) :
    Guarded.withQueue req action machine = (some <$> action) machine := by
  simp only [Guarded.withQueue, Program.run_bind, Program.run_require, there, if_true]

theorem guarded_withData {action : Program Machine (Option BrokerResponse)}
    (given : req.hasData = true) : Guarded.withData req action machine = action machine := by
  simp only [Guarded.withData, Program.run_bind, Program.run_require, given, if_true]

theorem guardedAction_typed {type : Bytes} (typed : req.type = some type) :
    Guarded.dispatchAction env req =
      if type = brokerConsume then Guarded.withQueue req (Guarded.consume env req)
      else if type = brokerProduce then
        Guarded.withData req (Guarded.withQueue req (Broker.produce env req))
      else if type = brokerLength then Guarded.withQueue req (Broker.length env req)
      else if type = brokerGet then Guarded.withQueue req (Guarded.peek env req)
      else if type = brokerGetAll then Guarded.withQueue req (Guarded.getAll env req)
      else if type = brokerAddQueue then Guarded.withData req (some <$> Broker.addQueue env req)
      else if type = brokerGetAllQueueNames then some <$> Broker.getAllQueueNames env
      else if type = brokerRemoveQueue then Guarded.withQueue req (Broker.removeQueue env req)
      else pure none := by
  funext machine
  simp only [Guarded.dispatchAction, typed, Program.run_bind, run_strEqual, beq_iff_eq,
    Program.run_ite]

theorem guarded_queueAction {type : Bytes}
    (represents : Represents machine (before ++ ⟨address, cells, true, mailbox⟩ :: after))
    (typed : req.type = some type) (target : req.queue = some address)
    (named : req.queueName = some mailbox.key) (member : type ∈ needsQueue)
    (gives : type = brokerProduce → req.hasData = true)
    (succeeds : type = brokerConsume → PersistSucceeds env machine (.consume mailbox)) :
    Guarded.dispatchAction env req machine = dispatchAction env req machine := by
  have holds := represents.holds ⟨address, cells, true, mailbox⟩ (by simp)
  have there := represents.hasQueue target named
  rw [guardedAction_typed typed, dispatchAction_typed env typed]
  simp only [needsQueue, List.mem_cons, List.not_mem_nil, or_false] at member
  rcases member with rfl | rfl | rfl | rfl | rfl | rfl
  · rw [if_pos rfl, if_pos rfl, guarded_withQueue there, Program.run_map, Program.run_map,
      guarded_consume holds target (succeeds rfl)]
  · rw [if_neg (by decide), if_pos rfl, if_neg (by decide), if_pos rfl, guarded_withData (gives rfl),
      guarded_withQueue there]
  · exact guarded_withQueue there
  · exact (guarded_withQueue there).trans (by
      rw [Program.run_map, guarded_peek holds target]
      rfl)
  · exact (guarded_withQueue there).trans (by
      rw [Program.run_map, guarded_getAll holds target]
      rfl)
  · exact guarded_withQueue there

/-- In a state with the queues of a shelf, no condition stops the handling of a request whose
persistence calls succeed. -/
theorem guarded_dispatch_eq {type : Bytes} (keeps : machine.Keeps machine.shelf)
    (typed : req.type = some type)
    (succeeds : PersistSucceeds env machine (command req machine.shelf)) :
    Guarded.brokerDispatch env req machine = brokerDispatch env req machine := by
  simp only [Guarded.brokerDispatch, brokerDispatch, typed, Program.run_bind, run_inStrArray]
  cases needed : needsQueue.contains type with
  | true =>
      have search := (show Tracks machine ⟨machine.shelf, machine.world⟩ from ⟨keeps, rfl⟩).found
        req.queueName
      cases found : findMailbox req.queueName machine.shelf with
      | none =>
          simp only [found] at search
          simp only [if_true, Program.run_bind, search]
          cases checked : validationError req (none : Pointer) true (needsIndex.contains type)
              (needsData.contains type) with
          | none => exact absurd checked (validationError_unknown req _ _)
          | some errMsg => rfl
      | some mailbox =>
          simp only [found] at search
          obtain ⟨before, after, address, cells, located, serves⟩ := search
          obtain ⟨inside, named⟩ := findMailbox_some found
          simp only [if_true, Program.run_bind, located]
          cases checked : validationError req (some address) true (needsIndex.contains type)
              (needsData.contains type) with
          | some errMsg => rfl
          | none =>
              have names : Names req machine.shelf mailbox :=
                ⟨inside, named, validationError_named named checked⟩
              refine guarded_queueAction serves.represents rfl rfl named
                (List.contains_iff_mem.mp needed) ?_ ?_
              · rintro rfl
                obtain ⟨data, given, nonempty⟩ := validationError_data checked
                exact hasData_of_gives ⟨given, nonempty⟩
              · rintro rfl
                rwa [command_consume keeps.nodup typed names] at succeeds
  | false =>
      simp only [Bool.false_eq_true, if_false, Program.run_bind, Program.run_pure]
      cases checked : validationError req (none : Pointer) false (needsIndex.contains type)
          (needsData.contains type) with
      | some errMsg => rfl
      | none =>
          have absent : type ∉ needsQueue := by simpa using needed
          simp only [needsQueue, List.mem_cons, List.not_mem_nil, or_false, not_or] at absent
          obtain ⟨notConsume, notProduce, notLength, notGet, notGetAll, notRemove⟩ := absent
          dsimp only
          rw [guardedAction_typed rfl, dispatchAction_typed env rfl]
          simp only [notConsume, notProduce, notLength, notGet, notGetAll, notRemove, if_false]
          by_cases adds : type = brokerAddQueue
          · subst adds
            obtain ⟨data, given, nonempty⟩ := validationError_data checked
            rw [if_pos rfl, if_pos rfl]
            exact guarded_withData (hasData_of_gives ⟨given, nonempty⟩)
          · rw [if_neg adds, if_neg adds]

/-- A request with a known type, the persistence calls of which succeed, is answered, and
whatever an action relies on is there where it relies on it. -/
theorem dispatch_establishes {type : Bytes} (reachable : Reachable env machine)
    (typed : req.type = some type) (known : type ∈ recognised)
    (succeeds : PersistSucceeds env machine (command req machine.shelf)) :
    ∃ response after, brokerDispatch env req machine = .returned (some response) after ∧
      Guarded.brokerDispatch env req machine = .returned (some response) after := by
  have keeps := reachable.keeps
  have answerable : Answerable env machine (command req machine.shelf) := by
    have decodes := command_decodes req machine.shelf
    refine succeeds.answerable (fun untyped => ?_) (fun unknown => ?_)
    · rw [untyped] at decodes
      cases decodes with
      | untyped missing =>
          rw [typed] at missing
          contradiction
      | read reads => cases reads
    · rw [unknown] at decodes
      cases decodes with
      | unknown again other =>
          rw [typed] at again
          cases again
          exact absurd known other
      | read reads => cases reads
  obtain ⟨response, after, ran⟩ := (brokerDispatch_answers_iff keeps).mpr answerable
  exact ⟨response, after, ran, (guarded_dispatch_eq keeps typed succeeds).trans ran⟩

theorem dispatch_establishes_computed :
    ∃ response after, brokerDispatch faithful (request "consume" (some "a") none) (oneItem faithful) =
        .returned (some response) after ∧
      Guarded.brokerDispatch faithful (request "consume" (some "a") none) (oneItem faithful) =
        .returned (some response) after :=
  dispatch_establishes oneItem_reachable rfl (by decide) (by unfold PersistSucceeds; decide +kernel)

end Bmb
