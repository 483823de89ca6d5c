import Bmb.Broker.Refinement

namespace Bmb

open Bmb.Base Bmb.Posix

/-! Which requests amount to which commands. -/

/-- The types of request that `broker_dispatch` has an action for. -/
def recognised : List Bytes :=
  [brokerConsume, brokerProduce, brokerLength, brokerGet, brokerGetAll, brokerAddQueue,
    brokerGetAllQueueNames, brokerRemoveQueue]

/-- Commands that look at the queues and change nothing. -/
inductive Command.Reads : Command → Prop where
  | length (mailbox : Mailbox) : Reads (.length mailbox)
  | get (mailbox : Mailbox) (index : Nat) : Reads (.get mailbox index)
  | getAll (mailbox : Mailbox) : Reads (.getAll mailbox)
  | getAllQueueNames : Reads .getAllQueueNames

/-- A request names a queue of the shelf. -/
structure Names (req : BrokerRequest) (shelf : Shelf Bytes Item) (mailbox : Mailbox) : Prop where
  member : mailbox ∈ shelf
  named : req.queueName = some mailbox.key
  nonempty : mailbox.key ≠ []

/-- A request passes on data that are not empty. -/
structure Gives (req : BrokerRequest) (data : Bytes) : Prop where
  given : req.data = some data
  nonempty : data ≠ []

/-- What a request must look like to amount to a command. -/
inductive Decodes (req : BrokerRequest) (shelf : Shelf Bytes Item) : Command → Prop where
  | untyped (missing : req.type = none) : Decodes req shelf .untyped
  | rejected {type : Bytes} (message : Bytes) (typed : req.type = some type) :
      Decodes req shelf (.rejected message)
  | unknown {type : Bytes} (typed : req.type = some type) (other : type ∉ recognised) :
      Decodes req shelf .unknown
  | consume {mailbox : Mailbox} (typed : req.type = some brokerConsume)
      (names : Names req shelf mailbox) : Decodes req shelf (.consume mailbox)
  | produce {mailbox : Mailbox} {data : Bytes} (typed : req.type = some brokerProduce)
      (names : Names req shelf mailbox) (gives : Gives req data) :
      Decodes req shelf (.produce mailbox data)
  | read {command : Command} (reads : command.Reads) : Decodes req shelf command
  | addQueue {name : Bytes} (typed : req.type = some brokerAddQueue) (gives : Gives req name) :
      Decodes req shelf (.addQueue name)
  | removeQueue {mailbox : Mailbox} (typed : req.type = some brokerRemoveQueue)
      (names : Names req shelf mailbox) : Decodes req shelf (.removeQueue mailbox)

variable {req : BrokerRequest} {shelf : Shelf Bytes Item} {mailbox : Mailbox}

theorem validationError_named {α : Type} {queue : Option α} {needsIndex needsData : Bool}
    {name : Bytes} (named : req.queueName = some name)
    (passed : validationError req queue true needsIndex needsData = none) : name ≠ [] := by
  rintro rfl
  unfold validationError at passed
  simp only [if_true, named] at passed
  split at passed
  · contradiction
  · split at passed <;> contradiction

theorem findMailbox_some {name : Option Bytes} (found : findMailbox name shelf = some mailbox) :
    mailbox ∈ shelf ∧ name = some mailbox.key := by
  cases name with
  | none => simp [findMailbox] at found
  | some name =>
      simp only [findMailbox, Option.bind_some] at found
      refine ⟨List.mem_of_find?_eq_some found, ?_⟩
      have same : mailbox.key = name := by simpa using List.find?_some found
      rw [same]

theorem findMailbox_of_mem (distinct : shelf.keys.Nodup) (member : mailbox ∈ shelf) :
    findMailbox (some mailbox.key) shelf = some mailbox := by
  cases found : findMailbox (some mailbox.key) shelf with
  | none => exact absurd (Shelf.key_mem member) (findMailbox_isNone.mp found)
  | some other =>
      obtain ⟨otherIn, same⟩ := findMailbox_some found
      rw [Shelf.eq_of_key_eq distinct member otherIn (Option.some.inj same)]

/-- Every request looks like its command. -/
theorem command_decodes (req : BrokerRequest) (shelf : Shelf Bytes Item) :
    Decodes req shelf (command req shelf) := by
  unfold command
  cases typed : req.type with
  | none => exact .untyped typed
  | some type =>
      dsimp only
      cases needed : needsQueue.contains type with
      | false =>
          have absent : type ∉ needsQueue := by simpa using needed
          simp only [Bool.false_eq_true, if_false]
          cases checked : validationError req (none : Option Mailbox) false
              (needsIndex.contains type) (needsData.contains type) with
          | some message => exact .rejected message typed
          | none =>
              dsimp only
              split
              · rename_i adds
                subst adds
                obtain ⟨name, given, nonempty⟩ := validationError_data checked
                rw [given, Option.getD_some]
                exact .addQueue typed ⟨given, nonempty⟩
              · rename_i notAdd
                split
                · exact .read .getAllQueueNames
                · rename_i notNames
                  refine .unknown typed (fun member => absent ?_)
                  simp only [recognised, List.mem_cons, List.not_mem_nil, or_false, notAdd,
                    notNames, false_or] at member
                  rcases member with same | same | same | same | same | same
                  all_goals
                    rw [same]
                    decide
      | true =>
          simp only [if_true]
          cases found : findMailbox req.queueName shelf with
          | none =>
              cases checked : validationError req (none : Option Mailbox) true
                  (needsIndex.contains type) (needsData.contains type) with
              | some message => exact .rejected message typed
              | none => exact absurd checked (validationError_unknown req _ _)
          | some mailbox =>
              obtain ⟨member, named⟩ := findMailbox_some found
              cases checked : validationError req (some mailbox) true
                  (needsIndex.contains type) (needsData.contains type) with
              | some message => exact .rejected message typed
              | none =>
                  have names : Names req shelf mailbox :=
                    ⟨member, named, validationError_named named checked⟩
                  have inside : type ∈ needsQueue := List.contains_iff_mem.mp needed
                  simp only [needsQueue, List.mem_cons, List.not_mem_nil, or_false] at inside
                  dsimp only
                  rcases inside with rfl | rfl | rfl | rfl | rfl | rfl
                  · rw [if_pos rfl]
                    exact .consume typed names
                  · obtain ⟨data, given, nonempty⟩ := validationError_data checked
                    rw [if_neg (by decide), if_pos rfl, given, Option.getD_some]
                    exact .produce typed names ⟨given, nonempty⟩
                  · rw [if_neg (by decide), if_neg (by decide), if_pos rfl]
                    exact .read (.length mailbox)
                  · rw [if_neg (by decide), if_neg (by decide), if_neg (by decide), if_pos rfl]
                    exact .read (.get mailbox _)
                  · rw [if_neg (by decide), if_neg (by decide), if_neg (by decide),
                      if_neg (by decide), if_pos rfl]
                    exact .read (.getAll mailbox)
                  · rw [if_neg (by decide), if_neg (by decide), if_neg (by decide),
                      if_neg (by decide), if_neg (by decide)]
                    exact .removeQueue typed names

theorem command_consume (distinct : shelf.keys.Nodup) (typed : req.type = some brokerConsume)
    (names : Names req shelf mailbox) : command req shelf = .consume mailbox := by
  have needed : needsQueue.contains brokerConsume = true := by decide
  have passed : validationError req (some mailbox) true (needsIndex.contains brokerConsume)
      (needsData.contains brokerConsume) = none := by
    simp only [validationError, names.named, names.nonempty]
    rfl
  simp only [command, typed, needed, if_true, names.named,
    findMailbox_of_mem distinct names.member, passed]

theorem command_removeQueue (distinct : shelf.keys.Nodup)
    (typed : req.type = some brokerRemoveQueue) (names : Names req shelf mailbox) :
    command req shelf = .removeQueue mailbox := by
  have needed : needsQueue.contains brokerRemoveQueue = true := by decide
  have passed : validationError req (some mailbox) true (needsIndex.contains brokerRemoveQueue)
      (needsData.contains brokerRemoveQueue) = none := by
    simp only [validationError, names.named, names.nonempty]
    rfl
  simp only [command, typed, needed, if_true, names.named,
    findMailbox_of_mem distinct names.member, passed]
  rfl

theorem command_produce {data : Bytes} (distinct : shelf.keys.Nodup)
    (typed : req.type = some brokerProduce) (names : Names req shelf mailbox)
    (gives : Gives req data) : command req shelf = .produce mailbox data := by
  have needed : needsQueue.contains brokerProduce = true := by decide
  have passed : validationError req (some mailbox) true (needsIndex.contains brokerProduce)
      (needsData.contains brokerProduce) = none := by
    have unindexed : needsIndex.contains brokerProduce = false := by decide
    rw [unindexed]
    simp [validationError, names.named, names.nonempty, gives.given, gives.nonempty]
  simp only [command, typed, needed, if_true, names.named,
    findMailbox_of_mem distinct names.member, passed, gives.given, Option.getD_some]
  rfl

/-- The index 0 counts as missing. -/
theorem command_get (distinct : shelf.keys.Nodup) (typed : req.type = some brokerGet)
    (names : Names req shelf mailbox) : command req shelf =
      if req.index = 0 then .rejected (text "Request is missing an index.")
      else .get mailbox req.index := by
  have needed : needsQueue.contains brokerGet = true := by decide
  have undated : needsData.contains brokerGet = false := by decide
  have indexed : needsIndex.contains brokerGet = true := by decide
  simp only [command, typed, needed, if_true, names.named, findMailbox_of_mem distinct names.member]
  by_cases zero : req.index = 0
  · have failed : validationError req (some mailbox) true (needsIndex.contains brokerGet)
        (needsData.contains brokerGet) = some (text "Request is missing an index.") := by
      rw [undated, indexed]
      simp [validationError, zero]
    rw [failed, if_pos zero]
  · have passed : validationError req (some mailbox) true (needsIndex.contains brokerGet)
        (needsData.contains brokerGet) = none := by
      rw [undated, indexed]
      simp [validationError, zero, names.named, names.nonempty]
    rw [passed, if_neg zero]
    rfl

theorem command_getAll (distinct : shelf.keys.Nodup) (typed : req.type = some brokerGetAll)
    (names : Names req shelf mailbox) : command req shelf = .getAll mailbox := by
  have needed : needsQueue.contains brokerGetAll = true := by decide
  have passed : validationError req (some mailbox) true (needsIndex.contains brokerGetAll)
      (needsData.contains brokerGetAll) = none := by
    simp only [validationError, names.named, names.nonempty]
    rfl
  simp only [command, typed, needed, if_true, names.named,
    findMailbox_of_mem distinct names.member, passed]
  rfl

/-- The length of a queue is only told to who sends data. -/
theorem command_length_without_data (distinct : shelf.keys.Nodup)
    (typed : req.type = some brokerLength) (names : Names req shelf mailbox)
    (undated : req.data = none) :
    command req shelf = .rejected (text "Request is missing the data.") := by
  have needed : needsQueue.contains brokerLength = true := by decide
  have failed : validationError req (some mailbox) true (needsIndex.contains brokerLength)
      (needsData.contains brokerLength) = some (text "Request is missing the data.") := by
    have dated : needsData.contains brokerLength = true := by decide
    rw [dated]
    simp [validationError, undated]
  simp only [command, typed, needed, if_true, names.named,
    findMailbox_of_mem distinct names.member, failed]

theorem command_addQueue {name : Bytes} (typed : req.type = some brokerAddQueue)
    (gives : Gives req name) : command req shelf = .addQueue name := by
  have unneeded : needsQueue.contains brokerAddQueue = false := by decide
  have passed : validationError req (none : Option Mailbox) false (needsIndex.contains brokerAddQueue)
      (needsData.contains brokerAddQueue) = none := by
    have unindexed : needsIndex.contains brokerAddQueue = false := by decide
    rw [unindexed]
    simp [validationError, gives.given, gives.nonempty]
  simp only [command, typed, unneeded, Bool.false_eq_true, if_false, passed, if_true, gives.given,
    Option.getD_some]

theorem command_getAllQueueNames (typed : req.type = some brokerGetAllQueueNames) :
    command req shelf = .getAllQueueNames := by
  have unneeded : needsQueue.contains brokerGetAllQueueNames = false := by decide
  have other : brokerGetAllQueueNames ≠ brokerAddQueue := by decide
  have passed : validationError req (none : Option Mailbox) false
      (needsIndex.contains brokerGetAllQueueNames) (needsData.contains brokerGetAllQueueNames) =
        none := by
    have unindexed : needsIndex.contains brokerGetAllQueueNames = false := by decide
    have undated : needsData.contains brokerGetAllQueueNames = false := by decide
    rw [unindexed, undated]
    rfl
  simp only [command, typed, unneeded, Bool.false_eq_true, if_false, passed, if_neg other, if_true]

/-- The queue that a command takes items from, adds items to, or removes. -/
def Command.touched : Command → Option Mailbox
  | .consume mailbox | .produce mailbox _ | .removeQueue mailbox => some mailbox
  | _ => none

theorem Decodes.touched_names {decoded : Command} (decodes : Decodes req shelf decoded)
    (touched : decoded.touched = some mailbox) :
    Names req shelf mailbox ∧ req.type ≠ some brokerAddQueue := by
  cases decodes with
  | consume typed names | produce typed names _ | removeQueue typed names =>
      cases touched
      rw [typed]
      exact ⟨names, by decide⟩
  | read reads => cases reads <;> cases touched
  | untyped | rejected | unknown | addQueue => cases touched

end Bmb
