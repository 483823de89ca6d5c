import Bmb.Broker.Session

namespace Bmb

open Bmb.Base Bmb.Posix

/-! First in, first out, exactly once: what a queue has been given is what has been
taken from it followed by what it still holds. -/

/-- Whether a look-up in the pool finds a queue. -/
def pooled (name : Bytes) (machine : Machine) : Bool :=
  match queuePoolGetByName (some name) machine with
  | .returned queue _ => queue.isSome
  | .trapped _ _ => false

/-- The message of the node that `Queue_poll` detaches from a queue. -/
def polled (env : Environment) (name : Bytes) (machine : Machine) : Option Bytes :=
  match (do
      let queue ← queuePoolGetByName (some name)
      let node ← Queue.poll env queue
      Node.getMessage node) machine with
  | .returned message _ => message
  | .trapped _ _ => none

/-- What a request does to the queues: a message given to a queue that exists, a node
detached, a queue that appears in the pool or disappears from it. -/
def observe (env : Environment) (req : BrokerRequest) (before after : Machine) :
    Shelf.Event Bytes Bytes :=
  if req.type = some brokerProduce then
    match req.queueName, req.data with
    | some name, some data =>
        if name ≠ [] ∧ data ≠ [] ∧ pooled name before = true then .pushed name data else .idle
    | _, _ => .idle
  else if req.type = some brokerConsume then
    match req.queueName with
    | none => .idle
    | some name =>
        if name = [] then .idle
        else
          match polled env name before with
          | some message => .popped name message
          | none => .idle
  else if req.type = some brokerAddQueue then
    match req.data with
    | none => .idle
    | some name =>
        if pooled name before = false ∧ pooled name after = true then .created name else .idle
  else if req.type = some brokerRemoveQueue then
    match req.queueName with
    | none => .idle
    | some name =>
        if pooled name before = true ∧ pooled name after = false then .removed name else .idle
  else .idle

/-- Requests of recognised types, one after the other, with persistence calls that
succeed, and what they do to the queues. -/
inductive Traffic (env : BrokerEnvironment) (first : Machine) :
    List (Shelf.Event Bytes Bytes) → Machine → Prop where
  | start : Traffic env first [] first
  | handled {before after : Machine} {req : BrokerRequest} {type : Bytes}
      {response : BrokerResponse} {calls : List PersistCall}
      {events : List (Shelf.Event Bytes Bytes)} (traffic : Traffic env first events before)
      (typed : req.type = some type) (known : type ∈ recognised)
      (ran : brokerDispatch env req before = .returned (some response) after)
      (logged : after.world.calls = before.world.calls ++ calls)
      (healthy : ∀ call ∈ calls, call.success = true) :
      Traffic env first (events ++ [observe env.toEnvironment req before after]) after

variable {env : BrokerEnvironment} {machine first last before after : Machine}
  {shelf : Shelf Bytes Item} {mailbox : Mailbox} {req : BrokerRequest}

theorem pooled_eq (keeps : machine.Keeps shelf) (name : Bytes) :
    pooled name machine = decide (name ∈ shelf.keys) := by
  have search := (show Tracks machine ⟨shelf, machine.world⟩ from ⟨keeps, rfl⟩).found (some name)
  cases found : findMailbox (some name) shelf with
  | none =>
      simp only [found] at search
      simp only [pooled, search, Option.isSome_none, findMailbox_isNone.mp found, decide_false]
  | some mailbox =>
      simp only [found] at search
      obtain ⟨_, _, _, _, located, _⟩ := search
      obtain ⟨member, same⟩ := findMailbox_some found
      have inside : name ∈ shelf.keys := Option.some.inj same ▸ Shelf.key_mem member
      simp only [pooled, located, Option.isSome_some, inside, decide_true]

theorem polled_run (keeps : machine.Keeps shelf) (member : mailbox ∈ shelf) :
    polled env.toEnvironment mailbox.key machine =
      match mailbox.items with
      | [] => none
      | item :: _ =>
          match persistDispatch env.toEnvironment ⟨.removeNode, some mailbox.key, item.id, none⟩
              machine.world with
          | .trapped _ _ => none
          | .returned pres _ => if pres.success then some item.message else none := by
  obtain ⟨holdings, later, address, cells, represents, _, _⟩ := keeps.locate member
  have located := queuePoolGetByName_present represents
  have holds := represents.holds ⟨address, cells, true, mailbox⟩ (by simp)
  obtain ⟨key, items⟩ := mailbox
  cases items with
  | nil =>
      simp only [polled, Program.run_bind, located, Queue.poll_empty holds, Node.getMessage, nodeAt]
  | cons item rest =>
      have ran := Queue.poll_run env.toEnvironment holds
      cases call : persistDispatch env.toEnvironment ⟨.removeNode, some key, item.id, none⟩
          machine.world with
      | trapped trap world =>
          simp only [call] at ran
          simp only [polled, Program.run_bind, located, ran, call]
      | returned pres world =>
          simp only [call] at ran
          cases success : pres.success with
          | false =>
              simp only [success, Bool.false_eq_true, if_false] at ran
              simp only [polled, Program.run_bind, located, ran, Node.getMessage, nodeAt, call,
                success, Bool.false_eq_true, if_false]
          | true =>
              simp only [success, if_true] at ran
              obtain ⟨kept, oldest, detached, rfl, ran, found, _, same, _⟩ := ran
              have absent : oldest ∉ kept := holds.chain.last_not_mem
              have message := Queue.getMessage_run ((same.nodes oldest absent).trans found)
              simp only [polled, Program.run_bind, located, ran, message, call, success, if_true]

theorem polled_absent (keeps : machine.Keeps shelf) {name : Bytes} (absent : name ∉ shelf.keys) :
    polled env.toEnvironment name machine = none := by
  have search := (show Tracks machine ⟨shelf, machine.world⟩ from ⟨keeps, rfl⟩).found (some name)
  simp only [findMailbox_isNone.mpr absent] at search
  simp only [polled, Program.run_bind, search, Queue.poll, Queue.isEmpty, Queue.size, queueAt]

theorem exists_names {name : Bytes} (named : req.queueName = some name) (nonempty : name ≠ [])
    (inside : name ∈ shelf.keys) : ∃ mailbox, Names req shelf mailbox := by
  obtain ⟨mailbox, member, rfl⟩ := List.mem_map.mp inside
  exact ⟨mailbox, member, named, nonempty⟩

theorem observe_idle (keeps : before.Keeps shelf) (kept : after.Keeps shelf)
    (noProduce : ∀ mailbox data, command req shelf ≠ .produce mailbox data)
    (noConsume : ∀ mailbox, command req shelf ≠ .consume mailbox) :
    observe env.toEnvironment req before after = .idle := by
  have same (name : Bytes) : pooled name after = pooled name before := by
    rw [pooled_eq keeps, pooled_eq kept]
  unfold observe
  split
  · rename_i typed
    split
    · rename_i name data named given
      refine if_neg (fun passed => ?_)
      obtain ⟨nonempty, filled, inside⟩ := passed
      rw [pooled_eq keeps, decide_eq_true_eq] at inside
      obtain ⟨mailbox, names⟩ := exists_names named nonempty inside
      exact noProduce mailbox data (command_produce keeps.nodup typed names ⟨given, filled⟩)
    · rfl
  · split
    · rename_i typed
      split
      · rfl
      · rename_i name named
        split
        · rfl
        · rename_i nonempty
          by_cases inside : name ∈ shelf.keys
          · obtain ⟨mailbox, names⟩ := exists_names named nonempty inside
            exact absurd (command_consume keeps.nodup typed names) (noConsume mailbox)
          · rw [polled_absent keeps inside]
    · split
      · split
        · rfl
        · rename_i name _
          exact if_neg (fun appeared => by simp [same, appeared.1] at appeared)
      · split
        · split
          · rfl
          · exact if_neg (fun vanished => by simp [same, vanished.1] at vanished)
        · rfl

theorem observe_produce {data : Bytes} (keeps : before.Keeps shelf)
    (typed : req.type = some brokerProduce) (names : Names req shelf mailbox)
    (gives : Gives req data) :
    observe env.toEnvironment req before after = .pushed mailbox.key data := by
  have inside : pooled mailbox.key before = true := by
    rw [pooled_eq keeps, decide_eq_true_eq]
    exact Shelf.key_mem names.member
  simp only [observe, typed, if_true, names.named, gives.given, names.nonempty, gives.nonempty,
    inside, ne_eq, not_false_eq_true, and_self]

theorem observe_consume (typed : req.type = some brokerConsume) (names : Names req shelf mailbox) :
    observe env.toEnvironment req before after =
      match polled env.toEnvironment mailbox.key before with
      | some message => .popped mailbox.key message
      | none => .idle := by
  have other : ¬some brokerConsume = some brokerProduce := by decide
  simp only [observe, typed, other, if_false, if_true, names.named, names.nonempty]

theorem observe_addQueue {name : Bytes} {later : Shelf Bytes Item} (keeps : before.Keeps shelf)
    (kept : after.Keeps later) (typed : req.type = some brokerAddQueue) (gives : Gives req name)
    (fresh : name ∉ shelf.keys) (inside : name ∈ later.keys) :
    observe env.toEnvironment req before after = .created name := by
  have notProduce : ¬some brokerAddQueue = some brokerProduce := by decide
  have notConsume : ¬some brokerAddQueue = some brokerConsume := by decide
  simp only [observe, typed, notProduce, notConsume, if_false, if_true, gives.given,
    pooled_eq keeps, pooled_eq kept, fresh, inside, decide_true, decide_false, and_self]

theorem observe_removeQueue {later : Shelf Bytes Item} (keeps : before.Keeps shelf)
    (kept : after.Keeps later) (typed : req.type = some brokerRemoveQueue)
    (names : Names req shelf mailbox) (gone : mailbox.key ∉ later.keys) :
    observe env.toEnvironment req before after = .removed mailbox.key := by
  have notProduce : ¬some brokerRemoveQueue = some brokerProduce := by decide
  have notConsume : ¬some brokerRemoveQueue = some brokerConsume := by decide
  have notAdd : ¬some brokerRemoveQueue = some brokerAddQueue := by decide
  simp only [observe, typed, notProduce, notConsume, notAdd, if_false, if_true, names.named,
    pooled_eq keeps, pooled_eq kept, Shelf.key_mem names.member, gone, decide_true, decide_false,
    and_self]

/-- The shelf changes exactly as the observation says. -/
theorem observe_transition {response : BrokerResponse} {calls : List PersistCall}
    (keeps : before.Keeps before.shelf)
    (ran : brokerDispatch env req before = .returned (some response) after)
    (logged : after.world.calls = before.world.calls ++ calls)
    (healthy : ∀ call ∈ calls, call.success = true) :
    Shelf.Transition Item.message before.shelf (observe env.toEnvironment req before after)
      after.shelf := by
  obtain ⟨effects, made, success, step, _, kept, handled⟩ := answered_step keeps ran
  have same : made = calls := List.append_cancel_left (handled.calls.symm.trans logged)
  subst same
  have decodes := command_decodes req before.shelf
  have quiet (same : after.Keeps before.shelf)
      (noProduce : ∀ mailbox data, command req before.shelf ≠ .produce mailbox data)
      (noConsume : ∀ mailbox, command req before.shelf ≠ .consume mailbox) :=
    @observe_idle env _ _ _ _ keeps same noProduce noConsume
  generalize command req before.shelf = decoded at step decodes quiet
  generalize after.shelf = later at step kept
  cases step with
  | rejected message =>
      rw [quiet kept (by simp) (by simp)]
      exact .idle
  | read reads =>
      rw [quiet kept (by rintro _ _ rfl; cases reads) (by rintro _ rfl; cases reads)]
      exact .idle
  | known member =>
      rw [quiet kept (by simp) (by simp)]
      exact .idle
  | empty key =>
      cases decodes with
      | consume typed names =>
          rw [observe_consume typed names, polled_run keeps names.member]
          exact .idle
      | read reads => cases reads
  | @consumed key item rest target positive can =>
      cases decodes with
      | consume typed names =>
          rcases removeNodeCall_run env.toEnvironment key before.world positive with
            ⟨_, world, _, ran, _⟩ | ⟨cannot, _⟩
          · rw [observe_consume typed names, polled_run keeps names.member]
            simp only [ran, persistSuccess, if_true]
            exact .popped names.member
          · exact absurd can (cannot _)
      | read reads => cases reads
  | unsaved first second positive cannot =>
      exact absurd (healthy ⟨.addNode, false⟩ (by simp)) (by simp)
  | saved first second positive can =>
      cases decodes with
      | produce typed names gives =>
          rw [observe_produce keeps typed names gives]
          exact @Shelf.Transition.pushed _ _ _ _ Item.message _ _ ⟨_, _⟩
      | read reads => cases reads
  | adopted fresh can =>
      cases decodes with
      | addQueue typed gives =>
          rw [observe_addQueue keeps kept typed gives fresh (by simp [Shelf.create])]
          exact .created fresh
      | read reads => cases reads
  | made fresh can =>
      cases decodes with
      | addQueue typed gives =>
          rw [observe_addQueue keeps kept typed gives fresh (by simp [Shelf.create])]
          exact .created fresh
      | read reads => cases reads
  | unmade fresh why => exact absurd (healthy ⟨.addQueue, false⟩ (by simp)) (by simp)
  | removed removal =>
      cases decodes with
      | removeQueue typed names =>
          rw [observe_removeQueue keeps kept typed names (by simp [Shelf.keys_remove])]
          exact .removed
      | read reads => cases reads
  | kept removal => exact absurd (healthy ⟨.removeQueue, false⟩ (by simp)) (by simp)

theorem Traffic.run {events : List (Shelf.Event Bytes Bytes)} (traffic : Traffic env first events last)
    (start : first.Keeps first.shelf) :
    last.Keeps last.shelf ∧ Shelf.Run Item.message first.shelf events last.shelf := by
  induction traffic with
  | start => exact ⟨start, .done⟩
  | handled traffic typed known ran logged healthy ih =>
      obtain ⟨_, _, _, _, _, kept, _⟩ := answered_step ih.1 ran
      exact ⟨kept, ih.2.append (observe_transition ih.1 ran logged healthy)⟩

/-- First in, first out, exactly once.  What a queue held after the load, followed by
what its produce requests were given, is what its consume requests detached followed by
what lies on its chain from the tail to the root. -/
theorem fifo_exactly_once {events : List (Shelf.Event Bytes Bytes)}
    (empty : machine.pool = .init)
    (loaded : queuePoolLoad env.toEnvironment machine = .returned () first)
    (traffic : Traffic env first events last) :
    ∀ mailbox ∈ last.shelf,
      Shelf.given mailbox.key (Shelf.contents Item.message mailbox.key first.shelf) events =
        Shelf.taken mailbox.key [] events ++ mailbox.items.map Item.message := by
  intro mailbox member
  have start := (loaded_keeps empty loaded).1
  exact (traffic.run start).2.conservation start.nodup member

theorem Traffic.asked {events : List (Shelf.Event Bytes Bytes)} (traffic : Traffic env first events before)
    (req : BrokerRequest) (answered : isAnswered env req before = true)
    (known : ∃ type ∈ recognised, req.type = some type)
    (healthy : ∃ calls : List PersistCall,
      (before.asked env req).world.calls = before.world.calls ++ calls ∧
        ∀ call ∈ calls, call.success = true) :
    Traffic env first (events ++ [observe env.toEnvironment req before (before.asked env req)])
      (before.asked env req) := by
  obtain ⟨response, ran⟩ := asked_returned answered
  obtain ⟨type, member, typed⟩ := known
  obtain ⟨calls, logged, succeeded⟩ := healthy
  exact .handled traffic typed member ran logged succeeded

theorem fifo_exactly_once_computed :
    ∃ events last, Traffic faithful (loaded faithful emptyTree) events last ∧
      ∀ mailbox ∈ last.shelf,
        Shelf.given mailbox.key
            (Shelf.contents Item.message mailbox.key (loaded faithful emptyTree).shelf) events =
          Shelf.taken mailbox.key [] events ++ mailbox.items.map Item.message := by
  have traffic := ((@Traffic.start faithful (loaded faithful emptyTree)).asked
    (request "addQueue" none (some "a")) (by decide +kernel)
    ⟨brokerAddQueue, by decide, by decide⟩ ⟨[⟨.addQueue, true⟩], by decide +kernel, by decide⟩).asked
    (request "produce" (some "a") (some "x")) (by decide +kernel)
    ⟨brokerProduce, by decide, by decide⟩
    ⟨[⟨.getNextId, true⟩, ⟨.getNextId, true⟩, ⟨.addNode, true⟩], by decide +kernel, by decide⟩
  exact ⟨_, _, traffic, fifo_exactly_once rfl (loaded_returned (by decide +kernel)) traffic⟩

end Bmb
