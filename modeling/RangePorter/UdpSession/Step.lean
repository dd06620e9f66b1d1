import RangePorter.UdpSession.Table

/-!
# What one step of a session-table task can do

`Step` lists the steps of `UdpSessionTable.step` by name, each with its guard and
its whole effect, and `step_iff` says that the list is complete and adds nothing.
Every invariant below is proved by cases on `Step`; none unfolds `step`.

The rest of the file reads off where the frames return to. A frame never returns
into the middle of `get_or_create`, nor into the middle of `remove_session`.
-/

namespace RangePorter.UdpSessionTable

open Interleaving

inductive Step (tab : UdpSessionTable) :
    Task → Choice → UdpSessionTable → Task → List Task → Prop where
  | getHit {call ref} (hit : tab.sessions.lookup call.source = some ref) :
      Step tab (.getOrCreate call .get) .go tab (.touch ref none (.getOrCreate call none)) []
  | getMiss {call} (miss : tab.sessions.lookup call.source = none) :
      Step tab (.getOrCreate call .get) .go tab (.getOrCreate call .connect) []
  | connect {call} :
      Step tab (.getOrCreate call .connect) .go tab.connect
        (.getOrCreate call (.fetchId tab.sockets)) []
  | connectFails {call} :
      Step tab (.getOrCreate call .connect) .fail tab (.returned call none none) []
  | fetchId {call upstream} :
      Step tab (.getOrCreate call (.fetchId upstream)) .go tab.fetchId
        (.getOrCreate call (.new upstream tab.nextSessionId)) []
  | new {call upstream id} :
      Step tab (.getOrCreate call (.new upstream id)) .go
        (tab.allocate (.new id call.source upstream tab.clock))
        (.getOrCreate call (.entry tab.heap.length)) []
  | entryOccupied {call own ref} (occupied : tab.sessions.lookup call.source = some ref) :
      Step tab (.getOrCreate call (.entry own)) .go tab
        (.touch ref none (.getOrCreate call (some own))) []
  | entryVacant {call own} (vacant : tab.sessions.lookup call.source = none) :
      Step tab (.getOrCreate call (.entry own)) .go (tab.insert call.source own)
        (.getOrCreate call (.flowOpen own)) []
  | flowOpen {call own} :
      Step tab (.getOrCreate call (.flowOpen own)) .go (tab.recordUdpFlowOpen own)
        (.getOrCreate call (.spawn own)) []
  | spawn {call own} :
      Step tab (.getOrCreate call (.spawn own)) .go (tab.spawnReplyTask own)
        (call.return (some own) own) [.replyLoop own]
  | touchNow {ref caller} :
      Step tab (.touch ref none caller) .go tab (.touch ref (some tab.clock) caller) []
  | touchStore {ref epoch caller} :
      Step tab (.touch ref (some epoch) caller) .go (tab.touch ref epoch) (caller.resume ref) []
  | send {ref payload} :
      Step tab (.forward ref payload) .go (tab.send ref payload)
        (.touch ref none (.forward payload)) []
  | sendFails {ref payload} : Step tab (.forward ref payload) .fail tab .finished []
  | addUdpIn {payload} : Step tab (.addUdpIn payload) .go (tab.addUdpIn payload) .finished []
  | removeAbsent {source id caller} (absent : tab.sessions.lookup source = none) :
      Step tab (.removeIf source id caller) .go tab caller.resume []
  | removeOther {source id caller ref s} (present : tab.sessions.lookup source = some ref)
      (session : tab.heap[ref]? = some s) (other : s.id ≠ id) :
      Step tab (.removeIf source id caller) .go tab caller.resume []
  | remove {source id caller ref s} (present : tab.sessions.lookup source = some ref)
      (session : tab.heap[ref]? = some s) (same : s.id = id) :
      Step tab (.removeIf source id caller) .go (tab.remove source ref s caller)
        (.closing ref id .cancel caller) []
  | cancel {ref id caller} :
      Step tab (.closing ref id .cancel caller) .go (tab.cancel ref id)
        (.closing ref id .markClosed caller) []
  | markFirst {ref id caller s} (session : tab.heap[ref]? = some s) (first : s.closed = false) :
      Step tab (.closing ref id .markClosed caller) .go (tab.markClosed ref)
        (.closing ref id .flowClose caller) []
  | markAgain {ref id caller s} (session : tab.heap[ref]? = some s) (again : s.closed = true) :
      Step tab (.closing ref id .markClosed caller) .go (tab.markClosed ref) caller.resume []
  | flowClose {ref id caller} :
      Step tab (.closing ref id .flowClose caller) .go (tab.recordUdpFlowClose ref id)
        caller.resume []
  | tick : Step tab .cleanupLoop .go tab (.scan (.cleanup tab.clock) none []) []
  | cleanupEnds : Step tab .cleanupLoop .exit tab .finished []
  | scanStart {sweep found} :
      Step tab (.scan sweep none found) .go tab (.scan sweep (some tab.sessions.keys) found) []
  | scanVisit {sweep todo found key} :
      Step tab (.scan sweep (some todo) found) (.visit key) tab
        (.scan sweep (some (todo.erase key)) (found ++ tab.visit sweep key)) []
  | scanEnd {sweep found} :
      Step tab (.scan sweep (some []) found) .go tab (sweep.drain found) []
  | replied {ref} : Step tab (.replyLoop ref) .go tab (.touch ref none .replyLoop) []
  | replyEnds {ref s} (session : tab.heap[ref]? = some s) :
      Step tab (.replyLoop ref) .exit tab (.removeIf s.source s.id .replyLoop) []

theorem Step.of_step {tab tab' : UdpSessionTable} {t t' : Task} {k : Choice} {new : List Task}
    (taken : tab.step t k = some (tab', t', new)) : Step tab t k tab' t' new := by
  unfold step at taken
  split at taken <;> (repeat' split at taken) <;> cases taken
  -- One goal for each branch; the guards of the branch are in the context.
  all_goals first
    | exact .getHit ‹_›
    | exact .getMiss ‹_›
    | exact .entryOccupied ‹_›
    | exact .entryVacant ‹_›
    | exact .removeAbsent ‹_›
    | exact .removeOther ‹_› ‹_› ‹_›
    | exact .remove ‹_› ‹_› ‹_›
    | exact .replyEnds ‹_›
    | (rename_i session first; exact .markFirst session (by simpa using first))
    | (rename_i session again; exact .markAgain session (by simpa using again))
    | constructor

theorem Step.to_step {tab tab' : UdpSessionTable} {t t' : Task} {k : Choice} {new : List Task}
    (h : Step tab t k tab' t' new) : tab.step t k = some (tab', t', new) := by
  cases h <;> simp_all [step]

theorem step_iff {tab tab' : UdpSessionTable} {t t' : Task} {k : Choice} {new : List Task} :
    tab.step t k = some (tab', t', new) ↔ Step tab t k tab' t' new :=
  ⟨.of_step, Step.to_step⟩

/-- The only tasks a step spawns are reply loops. -/
theorem Step.spawned {tab tab' : UdpSessionTable} {t t' : Task} {k : Choice} {new : List Task}
    (taken : Step tab t k tab' t' new) {u : Task} (member : u ∈ new) :
    ∃ ref, u = .replyLoop ref := by
  cases taken with
  | @spawn _ own => exact ⟨own, List.mem_singleton.mp member⟩
  | _ => cases member

/-! ### Where a task stands -/

/-- What a task still owes: a `get_or_create` call owes its remaining steps, and a
`remove_session` call that has removed a session owes the end of that removal. -/
inductive Stage where
  | resting
  | creating (next : GetOrCreate)
  | closing (ref : SessionRef) (next : Closing)

def Task.stage : Task → Stage
  | .getOrCreate _ next => .creating next
  | .closing ref _ next _ => .closing ref next
  | .touch .. | .returned .. | .forward .. | .addUdpIn _ | .removeIf .. => .resting
  | .cleanupLoop | .scan .. | .replyLoop _ | .finished => .resting

section

variable (ref : SessionRef) (payload : Payload)

@[simp] theorem stage_getOrCreate (call : Call) (next : GetOrCreate) :
    (Task.getOrCreate call next).stage = .creating next := rfl

@[simp] theorem stage_closing (id : Nat) (next : Closing) (caller : RemoveCaller) :
    (Task.closing ref id next caller).stage = .closing ref next := rfl

@[simp] theorem stage_touch (epoch : Option Nat) (caller : TouchCaller) :
    (Task.touch ref epoch caller).stage = .resting := rfl

@[simp] theorem stage_returned (call : Call) (own result : Option SessionRef) :
    (Task.returned call own result).stage = .resting := rfl

@[simp] theorem stage_forward : (Task.forward ref payload).stage = .resting := rfl

@[simp] theorem stage_addUdpIn : (Task.addUdpIn payload).stage = .resting := rfl

@[simp] theorem stage_removeIf (source : SocketAddr) (id : Nat) (caller : RemoveCaller) :
    (Task.removeIf source id caller).stage = .resting := rfl

@[simp] theorem stage_cleanupLoop : Task.cleanupLoop.stage = .resting := rfl

@[simp] theorem stage_scan (sweep : Sweep) (todo : Option (List SocketAddr))
    (found : List (SocketAddr × Nat)) : (Task.scan sweep todo found).stage = .resting := rfl

@[simp] theorem stage_replyLoop : (Task.replyLoop ref).stage = .resting := rfl

@[simp] theorem stage_finished : Task.finished.stage = .resting := rfl

end

@[simp] theorem stage_return (call : Call) (own : Option SessionRef) (ref : SessionRef) :
    (call.return own ref).stage = .resting :=
  Call.return_cases (fun _ _ => rfl) fun _ => rfl

@[simp] theorem stage_touchResume (caller : TouchCaller) (ref : SessionRef) :
    (caller.resume ref).stage = .resting := by
  cases caller with
  | getOrCreate => exact stage_return ..
  | forward => rfl
  | replyLoop => rfl

@[simp] theorem stage_drain (sweep : Sweep) (rest : List (SocketAddr × Nat)) :
    (sweep.drain rest).stage = .resting :=
  Sweep.drain_cases (fun _ _ _ => rfl) rfl rfl

@[simp] theorem stage_removeResume (caller : RemoveCaller) : caller.resume.stage = .resting :=
  RemoveCaller.resume_cases (fun _ _ _ _ => rfl) rfl rfl

/-- A `get_or_create` call is in progress. -/
def Task.inGetOrCreate : Task → Bool
  | .getOrCreate .. | .touch _ _ (.getOrCreate ..) => true
  | _ => false

/-- A `remove_session` call is in progress. -/
def Task.inRemoveSession : Task → Bool
  | .removeIf .. | .closing .. => true
  | _ => false

theorem stage_eq_resting {t : Task} (call : t.inGetOrCreate = false)
    (removal : t.inRemoveSession = false) : t.stage = .resting := by
  cases t with
  | getOrCreate => cases call
  | closing => cases removal
  | _ => rfl

@[simp] theorem inGetOrCreate_return (call : Call) (own : Option SessionRef)
    (ref : SessionRef) : (call.return own ref).inGetOrCreate = false :=
  Call.return_cases (fun _ _ => rfl) fun _ => rfl

@[simp] theorem inGetOrCreate_touchResume (caller : TouchCaller) (ref : SessionRef) :
    (caller.resume ref).inGetOrCreate = false := by
  cases caller with
  | getOrCreate => exact inGetOrCreate_return ..
  | forward => rfl
  | replyLoop => rfl

@[simp] theorem inGetOrCreate_drain (sweep : Sweep) (rest : List (SocketAddr × Nat)) :
    (sweep.drain rest).inGetOrCreate = false :=
  Sweep.drain_cases (fun _ _ _ => rfl) rfl rfl

@[simp] theorem inGetOrCreate_removeResume (caller : RemoveCaller) :
    caller.resume.inGetOrCreate = false :=
  RemoveCaller.resume_cases (fun _ _ _ _ => rfl) rfl rfl

end RangePorter.UdpSessionTable
