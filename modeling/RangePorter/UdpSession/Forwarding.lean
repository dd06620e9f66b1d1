import RangePorter.UdpSession.Accounting

/-!
# Datagrams and reply loops inside the session table

A call that carries a datagram sends it at most once, on a session of the call's source
(`Step.forwarding`). A task that carries none never sends. A session has at most one
reply loop (`loop_unique`).
-/

namespace RangePorter.UdpSessionTable

open Interleaving

variable {tab tab' : UdpSessionTable} {t t' : Task} {k : Choice} {new : List Task}
  {idleTimeout : Duration} {port now : Nat} {p : Pool UdpSessionTable Task}

/-! ### Datagrams -/

/-- The datagram that a task has still to send. -/
def Task.forwarding : Task → Option Payload
  | .getOrCreate call _ => call.payload
  | .touch _ _ (.getOrCreate call _) => call.payload
  | .forward _ payload => some payload
  | _ => none

/-- The task works for this source: the datagram it sends will go to a session of it. -/
def Serves (tab : UdpSessionTable) (source : SocketAddr) : Task → Prop
  | .getOrCreate call _ => call.source = source
  | .touch _ _ (.getOrCreate call _) => call.source = source
  | .forward ref _ => ∃ id, tab.identity ref = some (source, id)
  | _ => True

theorem Serves.mono {source : SocketAddr}
    (keeps : ∀ ref e, tab.identity ref = some e → tab'.identity ref = some e)
    (serves : tab.Serves source t) : tab'.Serves source t := by
  unfold Serves at serves ⊢
  split at serves
  · exact serves
  · exact serves
  · obtain ⟨id, known⟩ := serves
    exact ⟨id, keeps _ _ known⟩
  · trivial

theorem forwarding_return (call : Call) (own : Option SessionRef) (ref : SessionRef) :
    (call.return own ref).forwarding = call.payload :=
  Call.return_cases (fun _ carries => carries.symm) fun none => none.symm

theorem serves_return {call : Call} {own : Option SessionRef} {ref : SessionRef} {id : Nat}
    (known : tab.identity ref = some (call.source, id)) :
    tab.Serves call.source (call.return own ref) :=
  Call.return_cases (fun _ _ => ⟨id, known⟩) fun _ => trivial

theorem forwarding_removeResume (caller : RemoveCaller) : caller.resume.forwarding = none :=
  RemoveCaller.resume_cases (fun _ _ _ _ => rfl) rfl rfl

/-- The task sends its datagram. -/
def Sends (tab : UdpSessionTable) (t : Task) (tab' : UdpSessionTable) (t' : Task) : Prop :=
  ∃ ref payload, t = .forward ref payload ∧ t'.forwarding = none ∧
    tab'.history.sent = tab.history.sent ++ [(ref, payload)]

/-- A step sends the task's datagram, gives it up, or carries it on to the same source. -/
theorem Step.forwarding (taken : Step tab t k tab' t' new) (knows : tab.Knows t) :
    Sends tab t tab' t' ∨ tab'.history.sent = tab.history.sent ∧
      (t'.forwarding = none ∨ t'.forwarding = t.forwarding ∧
        ∀ source, tab.Serves source t → tab'.Serves source t') := by
  cases taken with
  | send => exact .inl ⟨_, _, rfl, rfl, rfl⟩
  | getHit | getMiss | connect | fetchId | new | entryOccupied | entryVacant | flowOpen =>
      exact .inr ⟨rfl, .inr ⟨rfl, fun _ serves => serves⟩⟩
  | @spawn call own =>
      obtain ⟨id, known⟩ := knows
      refine .inr ⟨rfl, .inr ⟨forwarding_return .., ?_⟩⟩
      rintro _ rfl
      exact serves_return known
  | @touchNow _ caller =>
      refine .inr ⟨rfl, .inr ⟨?_, ?_⟩⟩
      · cases caller <;> rfl
      · cases caller <;> exact fun _ serves => serves
  | @touchStore ref epoch caller =>
      cases caller with
      | getOrCreate call own =>
          obtain ⟨id, known⟩ := knows
          have after : (tab.touch ref epoch).identity ref = some (call.source, id) :=
            (identity_modify (f := fun s => s.touch epoch) (fun _ => rfl) ref ref).trans known
          refine .inr ⟨rfl, .inr ⟨forwarding_return .., ?_⟩⟩
          rintro _ rfl
          exact serves_return after
      | forward => exact .inr ⟨rfl, .inl rfl⟩
      | replyLoop => exact .inr ⟨rfl, .inl rfl⟩
  | removeAbsent | removeOther | markAgain | flowClose =>
      exact .inr ⟨rfl, .inl (forwarding_removeResume _)⟩
  | @scanEnd sweep found =>
      exact .inr ⟨rfl, .inl (forwarding_removeResume (.sweeping sweep found))⟩
  | _ => exact .inr ⟨rfl, .inl rfl⟩

theorem Step.new_forwarding (taken : Step tab t k tab' t' new) {u : Task} (member : u ∈ new) :
    u.forwarding = none := by
  obtain ⟨ref, rfl⟩ := taken.spawned member
  rfl

theorem env_forwarding {e : Env} (taken : tab.env e = some (tab', new))
    (idle : ∀ call, e = .getOrCreate call → call.payload = none) {u : Task} (member : u ∈ new) :
    u.forwarding = none := by
  cases e <;> cases taken
  case getOrCreate call =>
      rw [List.mem_singleton.mp member]
      exact idle call rfl
  all_goals simp at member <;> rw [member] <;> rfl

/-- Every datagram sent was sent on a session. -/
theorem sent_identified (reached : machine.Reachable (start idleTimeout port now) p) :
    ∀ x ∈ p.shared.history.sent, ∃ e, p.shared.identity x.1 = some e := by
  refine Program.reachable_induction
    (J := fun p => ∀ x ∈ p.shared.history.sent, ∃ e, p.shared.identity x.1 = some e)
    reached ?_ ?_ ?_
  · intro x member
    cases member
  · intro p i k t tab t' new reached before found taken x member
    have step := step_iff.mp taken
    have knows := (identified reached).knows.get found
    obtain ⟨ref, payload, rfl, -, sent⟩ | ⟨same, -⟩ := step.forwarding knows
    · rw [sent] at member
      obtain old | last := List.mem_append.mp member
      · obtain ⟨e, known⟩ := before x old
        exact ⟨e, step.identity known⟩
      · obtain ⟨source, id, known⟩ := knows
        rw [List.mem_singleton.mp last]
        exact ⟨_, step.identity known⟩
    · rw [same] at member
      obtain ⟨e, known⟩ := before x member
      exact ⟨e, step.identity known⟩
  · intro p e tab new _ before taken x member
    rw [env_identity taken]
    cases e <;> cases taken <;> exact before x member

/-! ### Reply loops -/

/-- The session whose reply loop the task runs. -/
def Task.loopOf : Task → Option SessionRef
  | .replyLoop ref => some ref
  | .touch ref _ .replyLoop => some ref
  | _ => none

theorem loopOf_return (call : Call) (own : Option SessionRef) (ref : SessionRef) :
    (call.return own ref).loopOf = none :=
  Call.return_cases (fun _ _ => rfl) fun _ => rfl

theorem loopOf_removeResume (caller : RemoveCaller) : caller.resume.loopOf = none :=
  RemoveCaller.resume_cases (fun _ _ _ _ => rfl) rfl rfl

/-- A task runs the reply loop of the same session as before, unless the loop ends. -/
theorem Step.loopOf (taken : Step tab t k tab' t' new) :
    t'.loopOf = t.loopOf ∨ ∃ ref, t = .replyLoop ref ∧ k = .exit ∧ t'.loopOf = none := by
  cases taken with
  | spawn => exact .inl (loopOf_return ..)
  | @touchNow _ caller => cases caller <;> exact .inl rfl
  | @touchStore _ _ caller =>
      cases caller with
      | getOrCreate => exact .inl (loopOf_return ..)
      | forward => exact .inl rfl
      | replyLoop => exact .inl rfl
  | removeAbsent | removeOther | markAgain | flowClose => exact .inl (loopOf_removeResume _)
  | @scanEnd sweep found => exact .inl (loopOf_removeResume (.sweeping sweep found))
  | @replyEnds ref => exact .inr ⟨ref, rfl, rfl, rfl⟩
  | _ => exact .inl rfl

/-- The task runs the reply loop of this session. -/
def loops (ref : SessionRef) (t : Task) : Nat := if t.loopOf = some ref then 1 else 0

/-- Every reply loop was spawned, once for each recorded spawn. -/
theorem loops_le_spawned (reached : machine.Reachable (start idleTimeout port now) p)
    (ref : SessionRef) :
    weight (loops ref) p.threads ≤ p.shared.history.spawned.count ref := by
  have bounded : Bounded (fun _ => 0) (fun tab => tab.history.spawned.count ref) (loops ref) p := by
    refine .of_reachable reached (by simp [Bounded, start]) ?_ ?_
    · intro p i k t tab t' new _ _ _ taken
      have step := step_iff.mp taken
      have fewer : loops ref t' ≤ loops ref t := by
        obtain same | ⟨_, rfl, -, gone⟩ := step.loopOf
        · exact Nat.le_of_eq (by rw [loops, loops, same])
        · simp [loops, gone]
      cases step with
      | @spawn call own =>
          simp only [spawnReplyTask, List.count_append, List.count_singleton, weight_cons,
            weight_nil]
          have started : loops ref (.replyLoop own) = if own == ref then 1 else 0 := by
            simp [loops, Task.loopOf]
          omega
      | _ =>
          simp only [weight_nil]
          exact Nat.add_le_add_right (by omega) _
    · intro p e tab new _ taken
      cases e <;> cases taken <;> simp [loops, Task.loopOf]
  simpa [Bounded] using bounded

/-- A session has at most one reply loop. -/
theorem loop_unique (reached : machine.Reachable (start idleTimeout port now) p)
    {i j : Nat} {u : Task} {ref : SessionRef} (first : p.threads[i]? = some t)
    (second : p.threads[j]? = some u) (loop : t.loopOf = some ref) (loop' : u.loopOf = some ref) :
    i = j := by
  have running := loops_le_spawned reached ref
  have spawned := spawned_add_owes reached (· == ref)
  have opened := opened_add_owes reached (· == ref)
  have inserted := inserted_count_le_one reached ref
  simp only [List.count] at running inserted
  apply index_unique_of_weight_le_one (w := loops ref) (by omega) first second
  · simp [loops, loop]
  · simp [loops, loop']

end RangePorter.UdpSessionTable
