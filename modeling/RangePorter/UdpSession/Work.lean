import RangePorter.UdpSession.Identity

/-!
# The work that tasks of the table have left

A number for each task that every step of it makes smaller, the tasks it spawns included.
Only three kinds of step bring new work: a tick that fires, a reply that is passed on, and
a scan that comes across a session inserted after the scan had started. All else that a
task can do comes to an end, and unless the task has ended one of its steps is possible.
-/

namespace RangePorter.UdpSessionTable

open Interleaving

variable {tab tab' : UdpSessionTable} {t t' : Task} {k : Choice} {new : List Task} {K K' : Nat}

/-- The steps that bring new work. -/
def disturbs : Task → Choice → Bool
  | .cleanupLoop, .go => true
  | .replyLoop _, .go => true
  | .scan _ (some todo) _, .visit key => key ∉ todo
  | _, _ => false

/-! ### Weights -/

/-- A call with a datagram goes on to forward it. -/
def workOfReturn (call : Call) : Nat := if call.payload.isSome then 4 else 0

def workOfCall : GetOrCreate → Nat
  | .get => 12
  | .connect => 11
  | .fetchId _ => 10
  | .new .. => 9
  | .entry _ => 8
  | .flowOpen _ => 7
  | .spawn _ => 6

def workOfTouchCaller : TouchCaller → Nat
  | .getOrCreate call _ => workOfReturn call
  | .forward _ => 1
  | .replyLoop => 5

/-- What comes after the removals of a sweep. -/
def workOfSweep : Sweep → Nat
  | .cleanup _ => 1
  | .shutdownAll => 0

def workOfRemoveCaller : RemoveCaller → Nat
  | .user | .replyLoop => 0
  | .sweeping sweep rest => 4 * rest.length + workOfSweep sweep

def workOfClosing : Closing → Nat
  | .cancel => 3
  | .markClosed => 2
  | .flowClose => 1

/-- The work of a task while the map has at most `K` entries: a scan that has not started
may find all of them. -/
def workOf (K : Nat) : Task → Nat
  | .getOrCreate call next => workOfReturn call + workOfCall next
  | .touch _ none caller => workOfTouchCaller caller + 2
  | .touch _ (some _) caller => workOfTouchCaller caller + 1
  | .forward .. => 4
  | .addUdpIn _ => 1
  | .removeIf _ _ caller => workOfRemoveCaller caller + 4
  | .closing _ _ next caller => workOfRemoveCaller caller + workOfClosing next
  | .cleanupLoop => 1
  | .scan sweep none found => 4 * found.length + workOfSweep sweep + 5 * K + 2
  | .scan sweep (some todo) found => 4 * found.length + workOfSweep sweep + 5 * todo.length + 1
  | .replyLoop _ => 5
  | .returned .. | .finished => 0

theorem workOf_mono (le : K ≤ K') (t : Task) : workOf K t ≤ workOf K' t := by
  unfold workOf
  split <;> omega

@[simp] theorem workOf_return (call : Call) (own : Option SessionRef) (ref : SessionRef) :
    workOf K (call.return own ref) = workOfReturn call := by
  refine Call.return_cases ?_ ?_
  · intro payload carries
    simp [workOfReturn, carries, workOf]
  · intro none
    simp [workOfReturn, none, workOf]

@[simp] theorem workOf_touchResume (caller : TouchCaller) (ref : SessionRef) :
    workOf K (caller.resume ref) = workOfTouchCaller caller := by
  cases caller with
  | getOrCreate call own => exact workOf_return call own ref
  | forward => rfl
  | replyLoop => rfl

@[simp] theorem workOf_drain (sweep : Sweep) (rest : List (SocketAddr × Nat)) :
    workOf K (sweep.drain rest) = 4 * rest.length + workOfSweep sweep := by
  cases rest with
  | nil => cases sweep <;> rfl
  | cons e rest =>
      simp only [Sweep.drain, workOf, workOfRemoveCaller, List.length_cons]
      omega

@[simp] theorem workOf_removeResume (caller : RemoveCaller) :
    workOf K caller.resume = workOfRemoveCaller caller := by
  cases caller with
  | user => rfl
  | replyLoop => rfl
  | sweeping sweep rest => exact workOf_drain sweep rest

theorem length_visit_le (sweep : Sweep) (key : SocketAddr) : (tab.visit sweep key).length ≤ 1 := by
  unfold visit
  split
  · split <;> simp
  · simp

/-- Every other step uses up work. -/
theorem Step.work (taken : Step tab t k tab' t' new) (calm : disturbs t k = false)
    (bound : tab.sessions.keys.length ≤ K) :
    workOf K t' + weight (workOf K) new < workOf K t := by
  cases taken with
  | tick | replied => cases calm
  | scanStart =>
      simp only [workOf, weight_nil]
      omega
  | @scanVisit sweep todo found key =>
      have member : key ∈ todo := by simpa [disturbs] using calm
      have visited : (tab.visit sweep key).length ≤ 1 := length_visit_le sweep key
      have left := List.length_erase_of_mem member
      have positive := List.length_pos_of_mem member
      simp only [workOf, weight_nil, List.length_append]
      omega
  | spawn | touchStore | removeAbsent | removeOther | markAgain | flowClose | scanEnd =>
      simp only [workOf_return, workOf_touchResume, workOf_removeResume, workOf_drain]
      simp [workOf, workOfCall, workOfClosing]
  | _ => simp [workOf, workOfCall, workOfTouchCaller, workOfRemoveCaller, workOfClosing]

/-! ### How large the map can still get -/

/-- The call may insert a session. -/
def inserting (t : Task) : Nat :=
  match t.stage with
  | .creating (.flowOpen _) | .creating (.spawn _) => 0
  | .creating _ => 1
  | _ => 0

/-- An insertion was foreseen. -/
theorem Step.inserting_le (taken : Step tab t k tab' t' new) :
    tab'.sessions.keys.length + inserting t' + weight inserting new ≤
      tab.sessions.keys.length + inserting t := by
  cases taken with
  | @entryVacant call own =>
      have fewer := List.length_erase_le (a := call.source) (l := tab.sessions.keys)
      simp only [insert, AList.keys_insert, List.length_cons, inserting, stage_getOrCreate,
        weight_nil]
      omega
  | @remove source =>
      have fewer := List.length_erase_le (a := source) (l := tab.sessions.keys)
      simp only [UdpSessionTable.remove, AList.keys_erase, inserting, stage_removeIf, stage_closing,
        weight_nil]
      omega
  | _ => simp [inserting]

/-! ### No task is stuck -/

/-- The task takes no further step. -/
def Task.ended : Task → Bool
  | .returned .. | .finished => true
  | _ => false

theorem goes_on (filed : tab.Filed) (knows : tab.Knows t) (runs : t.ended = false) :
    ∃ k tab' t' new, disturbs t k = false ∧ Step tab t k tab' t' new := by
  cases t with
  | getOrCreate call next =>
      cases next with
      | get =>
          cases found : tab.sessions.lookup call.source with
          | none => exact ⟨.go, _, _, _, rfl, .getMiss found⟩
          | some ref => exact ⟨.go, _, _, _, rfl, .getHit found⟩
      | connect => exact ⟨.go, _, _, _, rfl, .connect⟩
      | fetchId => exact ⟨.go, _, _, _, rfl, .fetchId⟩
      | new => exact ⟨.go, _, _, _, rfl, .new⟩
      | entry =>
          cases found : tab.sessions.lookup call.source with
          | none => exact ⟨.go, _, _, _, rfl, .entryVacant found⟩
          | some ref => exact ⟨.go, _, _, _, rfl, .entryOccupied found⟩
      | flowOpen => exact ⟨.go, _, _, _, rfl, .flowOpen⟩
      | spawn => exact ⟨.go, _, _, _, rfl, .spawn⟩
  | touch ref epoch caller =>
      cases epoch with
      | none => exact ⟨.go, _, _, _, rfl, .touchNow⟩
      | some epoch => exact ⟨.go, _, _, _, rfl, .touchStore⟩
  | forward => exact ⟨.go, _, _, _, rfl, .send⟩
  | addUdpIn => exact ⟨.go, _, _, _, rfl, .addUdpIn⟩
  | removeIf source id caller =>
      cases found : tab.sessions.lookup source with
      | none => exact ⟨.go, _, _, _, rfl, .removeAbsent found⟩
      | some ref =>
          obtain ⟨id', known⟩ := filed source ref found
          obtain ⟨s, session, -⟩ := session_of_identity known
          by_cases same : s.id = id
          · exact ⟨.go, _, _, _, rfl, .remove found session same⟩
          · exact ⟨.go, _, _, _, rfl, .removeOther found session same⟩
  | closing ref id next caller =>
      obtain ⟨source, known⟩ := knows
      obtain ⟨s, session, -⟩ := session_of_identity known
      cases next with
      | cancel => exact ⟨.go, _, _, _, rfl, .cancel⟩
      | markClosed =>
          cases closed : s.closed with
          | false => exact ⟨.go, _, _, _, rfl, .markFirst session closed⟩
          | true => exact ⟨.go, _, _, _, rfl, .markAgain session closed⟩
      | flowClose => exact ⟨.go, _, _, _, rfl, .flowClose⟩
  | cleanupLoop => exact ⟨.exit, _, _, _, rfl, .cleanupEnds⟩
  | scan sweep todo found =>
      cases todo with
      | none => exact ⟨.go, _, _, _, rfl, .scanStart⟩
      | some todo =>
          cases todo with
          | nil => exact ⟨.go, _, _, _, rfl, .scanEnd⟩
          | cons key todo => exact ⟨.visit key, _, _, _, by simp [disturbs], .scanVisit⟩
  | replyLoop ref =>
      obtain ⟨source, id, known⟩ := knows
      obtain ⟨s, session, -⟩ := session_of_identity known
      exact ⟨.exit, _, _, _, rfl, .replyEnds session⟩
  | returned | finished => cases runs

end RangePorter.UdpSessionTable
