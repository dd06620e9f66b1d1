import RangePorter.Interleaving.Bindings
import RangePorter.UdpSession.Lifecycle

/-!
# The session table is a table of bindings

Calls of `get_or_create` and `remove_session` overlap in any way, yet each takes effect in
one of its steps: at the lookup that finds a session, at the entry, or at `remove_if`. In
the order of these steps the calls are those of a table that handles one call at a time, and
a call returns the session that this table answers with.
-/

namespace RangePorter.UdpSessionTable

open Interleaving

abbrev Event := Bindings.Event SocketAddr SessionRef

/-- The map, and every session that was ever in it. -/
def bindings (tab : UdpSessionTable) : Bindings SocketAddr SessionRef :=
  ⟨fun source => tab.sessions.lookup source, tab.history.inserted⟩

/-- How the next step of a task reads or changes the map. -/
def effect (tab : UdpSessionTable) : Task → Option Event
  | .getOrCreate call .get => (tab.sessions.lookup call.source).map (.answer call.source)
  | .getOrCreate call (.entry own) =>
      match tab.sessions.lookup call.source with
      | some ref => some (.answer call.source ref)
      | none => some (.bind call.source own)
  | .removeIf source id _ =>
      match tab.sessions.lookup source with
      | some ref =>
          if (tab.heap[ref]?.map UdpSession.id) = some id then some (.unbind source ref) else none
      | none => none
  | _ => none

/-- The event of a step, with the task that takes it. -/
def effects (p : Pool UdpSessionTable Task) : Action Choice Env → List (Nat × Event)
  | .thread i _ => ((p.threads[i]?.bind p.shared.effect).map fun event => (i, event)).toList
  | .env _ => []

/-- The events of one task. -/
def eventsOf (i : Nat) (events : List (Nat × Event)) : List Event :=
  events.filterMap fun e => if e.1 = i then some e.2 else none

variable {idleTimeout : Duration} {port now : Nat} {p : Pool UdpSessionTable Task}
  {tab tab' : UdpSessionTable} {t t' : Task} {k : Choice} {new : List Task}

/-! ### One step is one event at most -/

theorem bindings_insert {source : SocketAddr} {own : SessionRef}
    (vacant : tab.sessions.lookup source = none) (fresh : own ∉ tab.history.inserted) :
    Bindings.machine.step tab.bindings (.bind source own) =
      some (tab.insert source own).bindings := by
  refine Bindings.bind_iff.mpr ⟨⟨vacant, fresh⟩, ?_⟩
  simp only [bindings, insert, Bindings.mk.injEq, and_true]
  funext other
  by_cases same : other = source
  · subst same
    rw [Bindings.set_self, AList.lookup_insert]
  · rw [Bindings.set_of_ne _ _ same, AList.lookup_insert_ne same]

theorem bindings_remove {source : SocketAddr} {ref : SessionRef} (s : UdpSession)
    (caller : RemoveCaller) (present : tab.sessions.lookup source = some ref) :
    Bindings.machine.step tab.bindings (.unbind source ref) =
      some (tab.remove source ref s caller).bindings := by
  refine Bindings.unbind_iff.mpr ⟨present, ?_⟩
  simp only [bindings, remove, Bindings.mk.injEq, and_true]
  funext other
  by_cases same : other = source
  · subst same
    rw [Bindings.set_self, AList.lookup_erase]
  · rw [Bindings.set_of_ne _ _ same, AList.lookup_erase_ne same]

theorem Step.effect (taken : Step tab t k tab' t' new)
    (fresh : ∀ call own, t = .getOrCreate call (.entry own) → own ∉ tab.history.inserted) :
    Bindings.machine.run tab.bindings (tab.effect t).toList = some tab'.bindings := by
  have alone : ∀ {event : Event}, Bindings.machine.step tab.bindings event =
      some tab'.bindings →
      Bindings.machine.run tab.bindings (some event).toList = some tab'.bindings :=
    fun taken => Machine.run_cons_iff.mpr ⟨_, taken, rfl⟩
  cases taken with
  | getHit hit =>
      rw [UdpSessionTable.effect, hit]
      exact alone (Bindings.answer_iff.mpr ⟨hit, rfl⟩)
  | getMiss miss =>
      rw [UdpSessionTable.effect, miss]
      rfl
  | entryOccupied occupied =>
      simp only [UdpSessionTable.effect, occupied]
      exact alone (Bindings.answer_iff.mpr ⟨occupied, rfl⟩)
  | @entryVacant call own vacant =>
      simp only [UdpSessionTable.effect, vacant]
      exact alone (bindings_insert vacant (fresh call own rfl))
  | removeAbsent absent =>
      simp only [UdpSessionTable.effect, absent]
      rfl
  | removeOther present session other =>
      simp [UdpSessionTable.effect, present, session, other]
  | @remove source id caller ref s present session same =>
      simp only [UdpSessionTable.effect, present, session, Option.map_some, same, if_true]
      exact alone (bindings_remove s caller present)
  | _ => rfl

theorem refines_bindings (idleTimeout : Duration) (port now : Nat) :
    machine.Refines Bindings.machine (machine.Reachable (start idleTimeout port now))
      (fun p => p.shared.bindings) fun p a => (effects p a).map Prod.snd where
  keeps _ _ _ reached taken := reached.step taken
  step p a q reached taken := by
    cases a with
    | thread i k =>
        obtain ⟨t, tab, t', new, found, step, rfl⟩ := Program.machine_thread_iff.mp taken
        have lead := (step_iff.mp step).effect ?_
        · rw [effects, found, Option.bind_some]
          cases event : p.shared.effect t with
          | none => rwa [event] at lead
          | some event' => rwa [event] at lead
        · rintro call own rfl
          -- A task that tries the entry is the only one to insert its session.
          have tried := inserted_add_atEntry_le reached own
          have once := List.nodup_iff_count_le_one.mp
            (List.nodup_range (n := p.shared.heap.length)) own
          have counted := le_weight (atEntry (· == own)) found
          simp only [atEntry, stage_getOrCreate, BEq.rfl, if_true] at counted
          rw [← List.count_eq_zero]
          omega
    | env e =>
        obtain ⟨tab, new, step, rfl⟩ := Program.machine_env_iff.mp taken
        cases e <;> cases step <;> rfl

/-! ### What a call returns -/

/-- The events of a call are those its task has got to: none before it takes effect, then
the one that names the session it goes on with. -/
def Agrees (events : List Event) : Task → Prop
  | .getOrCreate call (.flowOpen own) | .getOrCreate call (.spawn own) =>
      events = [.bind call.source own]
  | .getOrCreate _ _ => events = []
  | .touch ref _ (.getOrCreate call _) => events = [.answer call.source ref]
  | .returned call _ (some ref) =>
      events = [.answer call.source ref] ∨ events = [.bind call.source ref]
  | .returned _ _ none => events = []
  | .forward ref _ => ∃ source, events = [.answer source ref] ∨ events = [.bind source ref]
  | .removeIf _ _ .user => events = []
  | _ => True

theorem agrees_return {events : List Event} {call : Call} {own : Option SessionRef}
    {ref : SessionRef}
    (one : events = [.answer call.source ref] ∨ events = [.bind call.source ref]) :
    Agrees events (call.return own ref) :=
  Call.return_cases (fun _ _ => ⟨call.source, one⟩) fun _ => one

theorem agrees_removeResume (events : List Event) (caller : RemoveCaller) :
    Agrees events caller.resume :=
  RemoveCaller.resume_cases (fun _ _ _ _ => trivial) trivial trivial

theorem Step.agrees {events : List Event} (taken : Step tab t k tab' t' new)
    (agrees : Agrees events t) : Agrees (events ++ (tab.effect t).toList) t' := by
  cases taken with
  | getHit hit =>
      rw [UdpSessionTable.effect, hit, show events = [] from agrees]
      rfl
  | getMiss miss =>
      rw [UdpSessionTable.effect, miss, show events = [] from agrees]
      rfl
  | entryOccupied occupied =>
      simp only [UdpSessionTable.effect, occupied]
      rw [show events = [] from agrees]
      rfl
  | entryVacant vacant =>
      simp only [UdpSessionTable.effect, vacant]
      rw [show events = [] from agrees]
      rfl
  | connect | connectFails | fetchId | new =>
      rw [show events = [] from agrees]
      rfl
  | flowOpen =>
      rw [show events = _ from agrees]
      rfl
  | spawn =>
      rw [show events = _ from agrees]
      exact agrees_return (.inr rfl)
  | @touchNow _ caller =>
      cases caller with
      | getOrCreate =>
          rw [show events = _ from agrees]
          rfl
      | _ => trivial
  | @touchStore _ _ caller =>
      cases caller with
      | getOrCreate =>
          rw [show events = _ from agrees]
          exact agrees_return (.inl rfl)
      | _ => trivial
  | removeAbsent | removeOther | markAgain | flowClose => exact agrees_removeResume ..
  | @scanEnd sweep found => exact agrees_removeResume _ (.sweeping sweep found)
  | _ => trivial

theorem eventsOf_append (i : Nat) (events events' : List (Nat × Event)) :
    eventsOf i (events ++ events') = eventsOf i events ++ eventsOf i events' :=
  List.filterMap_append

/-- A task that has not started yet has no events. -/
def AgreesAt (events : List Event) : Option Task → Prop
  | some t => Agrees events t
  | none => events = []

def AllAgree (events : List (Nat × Event)) (p : Pool UdpSessionTable Task) : Prop :=
  ∀ i : Nat, AgreesAt (eventsOf i events) p.threads[i]?

theorem AllAgree.found {events : List (Nat × Event)} (agree : AllAgree events p) {i : Nat}
    (found : p.threads[i]? = some t) : Agrees (eventsOf i events) t := by
  have own := agree i
  rwa [found] at own

theorem agrees_nil_of_spawned (taken : Step tab t k tab' t' new) {u : Task} (member : u ∈ new) :
    Agrees [] u := by
  obtain ⟨ref, rfl⟩ := taken.spawned member
  trivial

theorem agrees_nil_of_env {e : Env} (taken : tab.env e = some (tab', new)) {u : Task}
    (member : u ∈ new) : Agrees [] u := by
  cases e <;> cases taken <;> simp at member <;> rw [member] <;> trivial

theorem eventsOf_effects_of_ne (p : Pool UdpSessionTable Task) {i j : Nat} (k : Choice)
    (other : j ≠ i) : eventsOf j (effects p (.thread i k)) = [] := by
  rw [effects, eventsOf]
  cases p.threads[i]?.bind p.shared.effect with
  | none => rfl
  | some event => simp [Ne.symm other]

theorem eventsOf_effects_self {i : Nat} (k : Choice) (found : p.threads[i]? = some t) :
    eventsOf i (effects p (.thread i k)) = (p.shared.effect t).toList := by
  rw [effects, eventsOf, found, Option.bind_some]
  cases p.shared.effect t with
  | none => rfl
  | some event => simp

theorem AllAgree.step {events : List (Nat × Event)} {a : Action Choice Env}
    {q : Pool UdpSessionTable Task} (agree : AllAgree events p)
    (taken : machine.step p a = some q) : AllAgree (events ++ effects p a) q := by
  intro j
  rw [eventsOf_append]
  cases a with
  | thread i k =>
      obtain ⟨t, tab, t', new, found, step, rfl⟩ := Program.machine_thread_iff.mp taken
      have step := step_iff.mp step
      have bound := (List.getElem?_eq_some_iff.mp found).1
      by_cases same : j = i
      · subst same
        rw [lookup_self bound, eventsOf_effects_self k found]
        exact step.agrees (agree.found found)
      · rw [eventsOf_effects_of_ne p k same, List.append_nil]
        apply lookup_frame bound same (agree j)
        intro absent u fresh
        have none : eventsOf j events = [] := by
          have before := agree j
          rwa [absent] at before
        rw [none]
        exact agrees_nil_of_spawned step fresh
  | env e =>
      obtain ⟨tab, new, step, rfl⟩ := Program.machine_env_iff.mp taken
      rw [show eventsOf j (effects p (.env e)) = [] from rfl, List.append_nil]
      have before := agree j
      cases after : (p.threads ++ new)[j]? with
      | none =>
          have absent : p.threads[j]? = none := by
            simp only [List.getElem?_eq_none_iff, List.length_append] at after ⊢
            omega
          rwa [absent] at before
      | some u =>
          obtain kept | ⟨past, fresh⟩ := lookup_env after
          · rwa [kept] at before
          · rw [List.getElem?_eq_none past] at before
            rw [show eventsOf j events = [] from before]
            exact agrees_nil_of_env step fresh

/-- A call of `remove_session` has no event before its removal, and one at most after it. -/
def Removes (source : SocketAddr) (events : List Event) : Task → Prop
  | .removeIf source' _ .user => source' = source ∧ events = []
  | .closing _ _ _ .user | .finished => events = [] ∨ ∃ ref, events = [.unbind source ref]
  | _ => False

theorem Removes.events {source : SocketAddr} {events : List Event}
    (removes : Removes source events t) : events = [] ∨ ∃ ref, events = [.unbind source ref] := by
  unfold Removes at removes
  split at removes
  · exact .inl removes.2
  · exact removes
  · exact removes
  · exact removes.elim

theorem Step.removes {source : SocketAddr} {events : List Event}
    (taken : Step tab t k tab' t' new) (removes : Removes source events t) :
    Removes source (events ++ (tab.effect t).toList) t' := by
  cases taken with
  | @removeAbsent _ _ caller absent =>
      cases caller with
      | user =>
          obtain ⟨rfl, rfl⟩ := removes
          exact .inl (by simp [UdpSessionTable.effect, absent])
      | _ => cases removes
  | @removeOther _ _ caller _ _ present session other =>
      cases caller with
      | user =>
          obtain ⟨rfl, rfl⟩ := removes
          exact .inl (by simp [UdpSessionTable.effect, present, session, other])
      | _ => cases removes
  | @remove _ _ caller ref _ present session same =>
      cases caller with
      | user =>
          obtain ⟨rfl, rfl⟩ := removes
          exact .inr ⟨ref, by simp [UdpSessionTable.effect, present, session, same]⟩
      | _ => cases removes
  | @cancel _ _ caller | @markFirst _ _ caller | @markAgain _ _ caller | @flowClose _ _ caller =>
      cases caller with
      | user =>
          show Removes source (events ++ []) _
          rw [List.append_nil]
          exact removes
      | _ => cases removes
  | _ => cases removes

def RemovesAt (i : Nat) (source : SocketAddr) (events : List (Nat × Event))
    (p : Pool UdpSessionTable Task) : Prop :=
  ∃ t, p.threads[i]? = some t ∧ Removes source (eventsOf i events) t

theorem RemovesAt.step {i : Nat} {source : SocketAddr} {events : List (Nat × Event)}
    {a : Action Choice Env} {q : Pool UdpSessionTable Task}
    (removes : RemovesAt i source events p) (taken : machine.step p a = some q) :
    RemovesAt i source (events ++ effects p a) q := by
  obtain ⟨u, there, removes⟩ := removes
  rw [RemovesAt, eventsOf_append]
  cases a with
  | thread j k =>
      obtain ⟨t, tab, t', new, found, step, rfl⟩ := Program.machine_thread_iff.mp taken
      have step := step_iff.mp step
      by_cases same : i = j
      · subst same
        cases found.symm.trans there
        rw [eventsOf_effects_self k found]
        exact ⟨t', lookup_self (List.getElem?_eq_some_iff.mp found).1, step.removes removes⟩
      · rw [eventsOf_effects_of_ne p k same, List.append_nil]
        exact ⟨u, lookup_other there same, removes⟩
  | env e =>
      obtain ⟨tab, new, step, rfl⟩ := Program.machine_env_iff.mp taken
      rw [show eventsOf i (effects p (.env e)) = [] from rfl, List.append_nil]
      exact ⟨u, lookup_append there, removes⟩

/-- The run from `init` to `p` looks like one call after the other. -/
structure Linearizable (init : Pool UdpSessionTable Task) (as : List (Action Choice Env))
    (p : Pool UdpSessionTable Task) : Prop where
  sequential : Bindings.machine.run .empty ((machine.trace effects init as).map Prod.snd) =
    some p.shared.bindings
  /-- A call takes effect once, between its start and its return. -/
  returned : ∀ (i : Nat) call own ref, p.threads[i]? = some (.returned call own (some ref)) →
    eventsOf i (machine.trace effects init as) = [.answer call.source ref] ∨
      eventsOf i (machine.trace effects init as) = [.bind call.source ref]
  /-- A call that fails has no effect. -/
  failed : ∀ (i : Nat) call own, p.threads[i]? = some (.returned call own none) →
    eventsOf i (machine.trace effects init as) = []
  /-- So it is with the calls of the listener, which go on to forward. -/
  forwards : ∀ (i : Nat) ref payload, p.threads[i]? = some (.forward ref payload) →
    ∃ source, eventsOf i (machine.trace effects init as) = [.answer source ref] ∨
      eventsOf i (machine.trace effects init as) = [.bind source ref]
  /-- The session a call is answered with is the last one that was bound, and it was not
  removed before. -/
  latest : ∀ before i source ref after,
    machine.trace effects init as = before ++ (i, .answer source ref) :: after →
    Bindings.BoundBy (before.map Prod.snd) source ref
  /-- A session is removed from the source it was bound to, and by one call only. -/
  removals : ∀ before i source ref after,
    machine.trace effects init as = before ++ (i, .unbind source ref) :: after →
    Bindings.BoundBy (before.map Prod.snd) source ref
  /-- A call of `remove_session` has one event at most, and it is the removal of a session of
  its source. -/
  removes : ∀ before source id after q, as = before ++ .env (.removeSession source id) :: after →
    machine.run init before = some q →
    eventsOf q.threads.length (machine.trace effects init as) = [] ∨
      ∃ ref, eventsOf q.threads.length (machine.trace effects init as) = [.unbind source ref]

theorem linearizable {as : List (Action Choice Env)}
    (complete : machine.run (start idleTimeout port now) as = some p) :
    Linearizable (start idleTimeout port now) as p := by
  have sequential := (refines_bindings idleTimeout port now).run (.refl _) complete
  rw [Machine.trace_map] at sequential
  have quiet : AllAgree [] (start idleTimeout port now) := fun _ => rfl
  have agree := Machine.invariant_trace (P := AllAgree)
    (fun _ _ _ _ agree taken => agree.step taken) quiet complete
  rw [List.nil_append] at agree
  refine ⟨sequential, ?_, ?_, ?_, ?_, ?_, ?_⟩
  · intro i call own ref found
    exact agree.found found
  · intro i call own found
    exact agree.found found
  · intro i ref payload found
    exact agree.found found
  · intro before i source ref after split
    rw [split, List.map_append, List.map_cons] at sequential
    exact Bindings.boundBy_of_answer sequential
  · intro before i source ref after split
    rw [split, List.map_append, List.map_cons] at sequential
    exact Bindings.boundBy_of_unbind sequential
  · rintro before source id after q rfl first
    have earlier := Machine.invariant_trace (P := AllAgree)
      (fun _ _ _ _ agree taken => agree.step taken) quiet first
    have unborn := earlier q.threads.length
    rw [List.nil_append, List.getElem?_eq_none (Nat.le_refl _)] at unborn
    obtain ⟨q', first', rest⟩ := Machine.run_append_iff.mp complete
    cases first.symm.trans first'
    obtain ⟨q', taken, rest⟩ := Machine.run_cons_iff.mp rest
    have begun : RemovesAt q.threads.length source
        (machine.trace effects (start idleTimeout port now) before) q' := by
      obtain ⟨tab, new, own, rfl⟩ := Program.machine_env_iff.mp taken
      cases own
      exact ⟨.removeIf source id .user, by simp, rfl, unborn⟩
    obtain ⟨t, -, removes⟩ := Machine.invariant_trace (P := RemovesAt q.threads.length source)
      (fun _ _ _ _ before taken => before.step taken) begun rest
    rw [Machine.trace_append first, Machine.trace_cons taken]
    exact removes.events

theorem linearizable_race :
    Linearizable (start (.fromSecs 60) 4000 100) race
      ((machine.run (start (.fromSecs 60) 4000 100) race).get race_accepted) :=
  linearizable (Option.some_get race_accepted).symm

end RangePorter.UdpSessionTable
