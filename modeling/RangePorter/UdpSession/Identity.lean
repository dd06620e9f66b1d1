import RangePorter.Socket
import RangePorter.UdpSession.Step

/-!
# Sessions keep their source and their id

A session's source and id never change after the allocation, so a pair found in
the map, in a scan's list or in a task's arguments keeps its meaning whatever the
other tasks do. As long as fewer than `2^64` ids are drawn, no two sessions share
one.
-/

namespace RangePorter.UdpSessionTable

open Interleaving

/-- The source and the id of a session. -/
def identity (tab : UdpSessionTable) (ref : SessionRef) : Option (SocketAddr × Nat) :=
  tab.heap[ref]?.map fun s => (s.source, s.id)

theorem identity_of_session {tab : UdpSessionTable} {ref : SessionRef} {s : UdpSession}
    (session : tab.heap[ref]? = some s) : tab.identity ref = some (s.source, s.id) := by
  rw [identity, session]
  rfl

theorem session_of_identity {tab : UdpSessionTable} {ref : SessionRef} {e : SocketAddr × Nat}
    (known : tab.identity ref = some e) :
    ∃ s, tab.heap[ref]? = some s ∧ s.source = e.1 ∧ s.id = e.2 := by
  obtain ⟨s, session, rfl⟩ := Option.map_eq_some_iff.mp known
  exact ⟨s, session, rfl, rfl⟩

theorem identity_modify {tab : UdpSessionTable} {f : UdpSession → UdpSession}
    (keeps : ∀ s, ((f s).source, (f s).id) = (s.source, s.id)) (ref ref' : SessionRef) :
    ((tab.heap.modify ref' f)[ref]?.map fun s => (s.source, s.id)) = tab.identity ref := by
  rw [identity, List.getElem?_modify]
  cases tab.heap[ref]? with
  | none => rfl
  | some s =>
      by_cases same : ref' = ref
      · simp [same, keeps]
      · simp [same]

/-- Only an allocation adds to what references stand for. -/
theorem Step.identity_eq {tab tab' : UdpSessionTable} {t t' : Task} {k : Choice}
    {new : List Task} (taken : Step tab t k tab' t' new)
    (outside : ∀ call upstream id, t ≠ .getOrCreate call (.new upstream id)) (ref : SessionRef) :
    tab'.identity ref = tab.identity ref := by
  cases taken with
  | @new call upstream id => exact absurd rfl (outside call upstream id)
  | @touchStore _ epoch => exact identity_modify (f := fun s => s.touch epoch) (fun _ => rfl) ref _
  | cancel => exact identity_modify (f := UdpSession.cancel) (fun _ => rfl) ref _
  | markFirst | markAgain =>
      exact identity_modify (f := fun s => s.markClosed.2) (fun _ => rfl) ref _
  | _ => rfl

/-- No step changes what a reference stands for. -/
theorem Step.identity {tab tab' : UdpSessionTable} {t t' : Task} {k : Choice} {new : List Task}
    (taken : Step tab t k tab' t' new) {ref : SessionRef} {e : SocketAddr × Nat}
    (known : tab.identity ref = some e) : tab'.identity ref = some e := by
  by_cases allocates : ∃ call upstream id, t = .getOrCreate call (.new upstream id)
  · obtain ⟨call, upstream, id, rfl⟩ := allocates
    cases taken with
    | new =>
        obtain ⟨s, session, rfl⟩ := Option.map_eq_some_iff.mp known
        have bound := (List.getElem?_eq_some_iff.mp session).1
        simpa [UdpSessionTable.identity, List.getElem?_append_left bound] using known
  · have other : ∀ call upstream id, t ≠ .getOrCreate call (.new upstream id) :=
      fun call upstream id same => allocates ⟨call, upstream, id, same⟩
    exact (taken.identity_eq other ref).trans known

theorem env_identity {tab tab' : UdpSessionTable} {e : Env} {new : List Task}
    (taken : tab.env e = some (tab', new)) (ref : SessionRef) :
    tab'.identity ref = tab.identity ref := by
  cases e <;> cases taken <;> rfl

/-! ### References that tasks hold -/

/-- What a task knows about the session it works on. -/
def Knows (tab : UdpSessionTable) : Task → Prop
  | .getOrCreate call (.entry own) | .getOrCreate call (.flowOpen own)
  | .getOrCreate call (.spawn own) => ∃ id, tab.identity own = some (call.source, id)
  | .touch ref _ (.getOrCreate call _) => ∃ id, tab.identity ref = some (call.source, id)
  | .returned call _ (some ref) => ∃ id, tab.identity ref = some (call.source, id)
  | .touch ref _ _ | .forward ref _ | .replyLoop ref =>
      ∃ source id, tab.identity ref = some (source, id)
  | .closing ref id _ _ => ∃ source, tab.identity ref = some (source, id)
  | _ => True

theorem Knows.mono {tab tab' : UdpSessionTable} {t : Task}
    (keeps : ∀ ref e, tab.identity ref = some e → tab'.identity ref = some e)
    (knows : tab.Knows t) : tab'.Knows t := by
  unfold Knows at knows ⊢
  split at knows
  all_goals first
    | exact trivial
    | (obtain ⟨source, id, known⟩ := knows; exact ⟨source, id, keeps _ _ known⟩)
    | (obtain ⟨other, known⟩ := knows; exact ⟨other, keeps _ _ known⟩)

theorem knows_return {tab : UdpSessionTable} {call : Call} {own : Option SessionRef}
    {ref : SessionRef} {id : Nat} (known : tab.identity ref = some (call.source, id)) :
    tab.Knows (call.return own ref) :=
  Call.return_cases (fun _ _ => ⟨call.source, id, known⟩) fun _ => ⟨id, known⟩

theorem knows_removeResume (tab : UdpSessionTable) (caller : RemoveCaller) :
    tab.Knows caller.resume :=
  RemoveCaller.resume_cases (fun _ _ _ _ => trivial) trivial trivial

/-- The map files every session under its own source. -/
def Filed (tab : UdpSessionTable) : Prop :=
  ∀ source ref, tab.sessions.lookup source = some ref → ∃ id, tab.identity ref = some (source, id)

/-- A removal, a cancellation or a close of a session carries the session's id. -/
def Carried (tab : UdpSessionTable) : Prop :=
  ∀ e ∈ tab.history.removed ++ tab.history.cancelled ++ tab.history.closes,
    ∃ source, tab.identity e.1 = some (source, e.2)

theorem Step.filed {tab tab' : UdpSessionTable} {t t' : Task} {k : Choice} {new : List Task}
    (taken : Step tab t k tab' t' new) (before : tab.Filed) (knows : tab.Knows t) :
    tab'.Filed := by
  have still : ∀ source ref, tab.sessions.lookup source = some ref →
      ∃ id, tab'.identity ref = some (source, id) := by
    intro source ref found
    obtain ⟨id, known⟩ := before source ref found
    exact ⟨id, taken.identity known⟩
  intro source ref found
  cases taken with
  | @entryVacant call own vacant =>
      by_cases same : source = call.source
      · subst same
        rw [insert, AList.lookup_insert, Option.some.injEq] at found
        exact found ▸ knows
      · rw [insert, AList.lookup_insert_ne same] at found
        exact still source ref found
  | @remove other =>
      by_cases same : source = other
      · subst same
        rw [UdpSessionTable.remove, AList.lookup_erase] at found
        cases found
      · rw [UdpSessionTable.remove, AList.lookup_erase_ne same] at found
        exact still source ref found
  | _ => exact still source ref found

theorem Step.carried {tab tab' : UdpSessionTable} {t t' : Task} {k : Choice} {new : List Task}
    (taken : Step tab t k tab' t' new) (before : tab.Carried) (knows : tab.Knows t) :
    tab'.Carried := by
  have keeps : ∀ ref e, tab.identity ref = some e → tab'.identity ref = some e :=
    fun _ _ known => taken.identity known
  have still : ∀ e ∈ tab.history.removed ++ tab.history.cancelled ++ tab.history.closes,
      ∃ source, tab'.identity e.1 = some (source, e.2) := by
    intro e member
    obtain ⟨source, known⟩ := before e member
    exact ⟨source, keeps _ _ known⟩
  intro e member
  cases taken with
  | remove present session same =>
      simp only [UdpSessionTable.remove, List.mem_append, List.mem_singleton] at member still
      rcases member with ((member | rfl) | member) | member
      · exact still e (.inl (.inl member))
      · exact ⟨_, identity_of_session session⟩
      · exact still e (.inl (.inr member))
      · exact still e (.inr member)
  | cancel =>
      simp only [UdpSessionTable.cancel, List.mem_append, List.mem_singleton] at member still
      obtain ⟨source, known⟩ := knows
      rcases member with (member | member | rfl) | member
      · exact still e (.inl (.inl member))
      · exact still e (.inl (.inr member))
      · exact ⟨source, keeps _ _ known⟩
      · exact still e (.inr member)
  | flowClose =>
      simp only [recordUdpFlowClose, List.mem_append, List.mem_singleton] at member still
      obtain ⟨source, known⟩ := knows
      rcases member with (member | member) | member | rfl
      · exact still e (.inl (.inl member))
      · exact still e (.inl (.inr member))
      · exact still e (.inr member)
      · exact ⟨source, keeps _ _ known⟩
  | _ => exact still e member

theorem Step.knows {tab tab' : UdpSessionTable} {t t' : Task} {k : Choice} {new : List Task}
    (taken : Step tab t k tab' t' new) (filed : tab.Filed) (knows : tab.Knows t) :
    tab'.Knows t' ∧ ∀ u ∈ new, tab'.Knows u := by
  have keeps : tab'.Knows t := knows.mono fun _ _ known => taken.identity known
  cases taken with
  | getHit hit => exact ⟨filed _ _ hit, by simp⟩
  | entryOccupied occupied => exact ⟨filed _ _ occupied, by simp⟩
  | @new call upstream id =>
      refine ⟨⟨id, ?_⟩, by simp⟩
      exact identity_of_session (s := .new id call.source upstream tab.clock)
        (List.getElem?_concat_length ..)
  | entryVacant => exact ⟨keeps, by simp⟩
  | flowOpen => exact ⟨keeps, by simp⟩
  | spawn =>
      obtain ⟨id, known⟩ := keeps
      refine ⟨knows_return known, ?_⟩
      intro u member
      rw [List.mem_singleton.mp member]
      exact ⟨_, id, known⟩
  | @touchNow _ caller =>
      cases caller <;> exact ⟨keeps, by simp⟩
  | @touchStore _ _ caller =>
      cases caller with
      | getOrCreate =>
          obtain ⟨id, known⟩ := keeps
          exact ⟨knows_return known, by simp⟩
      | forward => exact ⟨trivial, by simp⟩
      | replyLoop => exact ⟨keeps, by simp⟩
  | send | replied => exact ⟨keeps, by simp⟩
  | removeAbsent | removeOther | markAgain | flowClose =>
      exact ⟨knows_removeResume .., by simp⟩
  | remove _ session same =>
      subst same
      exact ⟨⟨_, identity_of_session session⟩, by simp⟩
  | cancel | markFirst => exact ⟨keeps, by simp⟩
  | @scanEnd sweep found => exact ⟨knows_removeResume _ (.sweeping sweep found), by simp⟩
  | _ => exact ⟨trivial, by simp⟩

/-- The facts of this file about one pool. -/
structure Identified (p : Pool UdpSessionTable Task) : Prop where
  filed : p.shared.Filed
  carried : p.shared.Carried
  knows : AllThreads Knows p

variable {idleTimeout : Duration} {port now : Nat} {p : Pool UdpSessionTable Task}

theorem identified (reached : machine.Reachable (start idleTimeout port now) p) :
    Identified p := by
  refine Program.reachable_induction reached ⟨?_, ?_, ?_⟩ ?_ ?_
  · intro source ref found
    simp [start, UdpSessionTable.new] at found
  · intro e member
    simp [start, UdpSessionTable.new, History.empty] at member
  · intro t member
    cases member
  · intro p i k t tab t' new _ before found taken
    have step := step_iff.mp taken
    have knows := before.knows.get found
    obtain ⟨own, spawned⟩ := step.knows before.filed knows
    exact ⟨step.filed before.filed knows, step.carried before.carried knows,
      before.knows.thread own spawned fun u _ => .mono fun _ _ known => step.identity known⟩
  · intro p e tab new _ before taken
    have same := env_identity taken
    have frame : AllThreads Knows ⟨tab, p.threads ++ new⟩ :=
      before.knows.env (by cases e <;> cases taken <;> simp [Knows])
        fun u _ => .mono fun ref _ known => (same ref).trans known
    refine ⟨?_, ?_, frame⟩
    · intro source ref found
      rw [same]
      exact before.filed source ref (by cases e <;> cases taken <;> exact found)
    · intro e' member
      simp only [same]
      exact before.carried e' (by cases e <;> cases taken <;> exact member)

/-! ### Ids -/

/-- The task has drawn this id and not yet allocated its session. -/
def drew (id : Nat) (t : Task) : Nat :=
  match t.stage with
  | .creating (.new _ own) => if own = id then 1 else 0
  | _ => 0

/-- The ids drawn so far, as the wrapping counter counts them. -/
def drawn (tab : UdpSessionTable) : List Nat :=
  (List.range tab.history.created).map fun n => wrappingAdd n 1

theorem nextSessionId_eq (reached : machine.Reachable (start idleTimeout port now) p) :
    p.shared.nextSessionId = wrappingAdd p.shared.history.created 1 := by
  refine Program.reachable_induction (J := fun p =>
    p.shared.nextSessionId = wrappingAdd p.shared.history.created 1) reached rfl ?_ ?_
  · intro p i k t tab t' new _ before _ taken
    cases step_iff.mp taken with
    | fetchId =>
        simp [before, wrappingAdd, Nat.add_mod]
    | _ => exact before
  · intro p e tab new _ before taken
    cases e <;> cases taken <;> exact before

theorem map_modify {β : Type*} {f : UdpSession → UdpSession} {g : UdpSession → β}
    (keeps : ∀ s, g (f s) = g s) (heap : List UdpSession) (ref : SessionRef) :
    (heap.modify ref f).map g = heap.map g := by
  apply List.ext_getElem?
  intro i
  rw [List.getElem?_map, List.getElem?_modify, List.getElem?_map]
  cases heap[i]? with
  | none => rfl
  | some s => by_cases same : ref = i <;> simp [same, keeps]

/-- Every id drawn names one session or is held by one task. -/
theorem ids_add_drew (reached : machine.Reachable (start idleTimeout port now) p) (id : Nat) :
    (p.shared.heap.map UdpSession.id).count id + weight (drew id) p.threads =
      p.shared.drawn.count id := by
  have balance : InBalance (fun tab => (tab.heap.map UdpSession.id).count id)
      (fun tab => tab.drawn.count id) (drew id) (fun _ => 0) p := by
    refine .of_reachable reached (by simp [InBalance, start, UdpSessionTable.new, drawn,
      History.empty]) ?_ ?_
    · intro p i k t tab t' spawned reached _ _ taken
      cases step_iff.mp taken with
      | fetchId =>
          simp [drew, drawn, List.range_succ, List.count_append, List.count_singleton,
            nextSessionId_eq reached]
          omega
      | new =>
          simp [drew, drawn, UdpSession.new, List.count_append, List.count_singleton]
      | touchStore | cancel | markFirst | markAgain =>
          simp only [UdpSessionTable.touch, UdpSessionTable.cancel, UdpSessionTable.markClosed]
          rw [map_modify]
          · simp [drew, drawn]
          · exact fun _ => rfl
      | _ => simp [drew, drawn]
    · intro p e tab spawned _ taken
      cases e <;> cases taken <;> simp [drew, drawn]
  simpa [InBalance] using balance

/-- Fewer than `2^64` draws have never drawn an id twice. -/
theorem drawn_nodup {tab : UdpSessionTable} (few : tab.history.created < u64Size) :
    tab.drawn.Nodup := by
  refine List.Nodup.map_on ?_ List.nodup_range
  intro n low m low' same
  rw [List.mem_range] at low low'
  rwa [wrappingAdd_eq (by omega), wrappingAdd_eq (by omega), Nat.add_right_cancel_iff] at same

theorem ids_nodup (reached : machine.Reachable (start idleTimeout port now) p)
    (few : p.shared.history.created < u64Size) :
    (p.shared.heap.map UdpSession.id).Nodup := by
  rw [List.nodup_iff_count_le_one]
  intro id
  have balance := ids_add_drew reached id
  have once := List.nodup_iff_count_le_one.mp (drawn_nodup few) id
  omega

/-- Two references to one id are the same session. -/
theorem ref_unique (reached : machine.Reachable (start idleTimeout port now) p)
    (few : p.shared.history.created < u64Size) {ref ref' : SessionRef}
    {source source' : SocketAddr} {id : Nat}
    (first : p.shared.identity ref = some (source, id))
    (second : p.shared.identity ref' = some (source', id)) : ref = ref' := by
  obtain ⟨s, session, -, rfl⟩ := session_of_identity first
  obtain ⟨s', session', -, same⟩ := session_of_identity second
  have bound : ref < (p.shared.heap.map UdpSession.id).length := by
    simpa using (List.getElem?_eq_some_iff.mp session).1
  refine (List.getElem?_inj bound (ids_nodup reached few)).mp ?_
  simpa [session, session'] using same.symm

/-! ### Upstream sockets -/

/-- The step of a call at `connect` is a call of `new_connected_udp_socket`: the table counts a
socket exactly if one is left open. -/
theorem connect_step (tab : UdpSessionTable) (call : Call) (target : SocketAddr)
    (kernel : Resources.Kernel) {system : Resources.System SysCall} (older : system.Older) :
    ∃ tab' t', tab.step (.getOrCreate call .connect)
        (if (newConnectedUdpSocket target kernel system).1.isOk then .go else .fail) =
      some (tab', t', []) ∧
      tab'.sockets + system.opened.length =
        tab.sockets + (newConnectedUdpSocket target kernel system).2.opened.length := by
  rw [opened_newConnectedUdpSocket target kernel older]
  cases (newConnectedUdpSocket target kernel system).1 with
  | error e => exact ⟨tab, _, rfl, by simp [Except.toOption]⟩
  | ok socket =>
      refine ⟨tab.connect, _, rfl, ?_⟩
      simp [Except.toOption]
      omega

/-- The task has opened this socket and not yet allocated its session. -/
def connected (upstream : Nat) (t : Task) : Nat :=
  match t.stage with
  | .creating (.fetchId own) | .creating (.new own _) => if own = upstream then 1 else 0
  | _ => 0

/-- Every socket opened belongs to one session or is held by one task. -/
theorem upstreams_add_connected (reached : machine.Reachable (start idleTimeout port now) p)
    (upstream : Nat) :
    (p.shared.heap.map UdpSession.upstream).count upstream +
        weight (connected upstream) p.threads = (List.range p.shared.sockets).count upstream := by
  have balance : InBalance (fun tab => (tab.heap.map UdpSession.upstream).count upstream)
      (fun tab => (List.range tab.sockets).count upstream) (connected upstream) (fun _ => 0) p := by
    refine .of_reachable reached (by simp [InBalance, start, UdpSessionTable.new]) ?_ ?_
    · intro p i k t tab t' spawned _ _ _ taken
      cases step_iff.mp taken with
      | connect =>
          simp [connected, List.range_succ, List.count_append, List.count_singleton]
          omega
      | new =>
          simp [connected, UdpSession.new, List.count_append, List.count_singleton]
      | touchStore | cancel | markFirst | markAgain =>
          simp only [UdpSessionTable.touch, UdpSessionTable.cancel, UdpSessionTable.markClosed]
          rw [map_modify]
          · simp [connected]
          · exact fun _ => rfl
      | _ => simp [connected]
    · intro p e tab spawned _ taken
      cases e <;> cases taken <;> simp [connected]
  simpa [InBalance] using balance

/-- No two sessions share an upstream socket. -/
theorem upstream_unique (reached : machine.Reachable (start idleTimeout port now) p)
    {ref ref' : SessionRef} {s s' : UdpSession} (session : p.shared.heap[ref]? = some s)
    (session' : p.shared.heap[ref']? = some s') (same : s.upstream = s'.upstream) :
    ref = ref' := by
  have once : (p.shared.heap.map UdpSession.upstream).Nodup := by
    rw [List.nodup_iff_count_le_one]
    intro upstream
    have balance := upstreams_add_connected reached upstream
    have opened := List.nodup_iff_count_le_one.mp
      (List.nodup_range (n := p.shared.sockets)) upstream
    omega
  have bound : ref < (p.shared.heap.map UdpSession.upstream).length := by
    simpa using (List.getElem?_eq_some_iff.mp session).1
  refine (List.getElem?_inj bound once).mp ?_
  simpa [session, session'] using same

end RangePorter.UdpSessionTable
