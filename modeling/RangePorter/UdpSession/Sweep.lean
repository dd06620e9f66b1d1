import RangePorter.UdpSession.Lifecycle

/-!
# A sweep leaves nothing behind

A cleanup tick and `shutdown_all` list the sessions they select and then remove them one by
one, while other tasks insert, touch and remove sessions. A session that is in the map when
the scan starts, and that the sweep would select at any time until it ends, is out of the
map when it ends: taken out by the sweep itself or by somebody else, and never put back.
-/

namespace RangePorter.UdpSessionTable

open Interleaving

variable {idleTimeout : Duration} {port now : Nat} {p q : Pool UdpSessionTable Task}
  {tab tab' : UdpSessionTable} {t t' : Task} {k : Choice} {new : List Task} {sweep : Sweep}
  {source : SocketAddr} {ref : SessionRef} {id : Nat} {i : Nat}

/-- The sweep has still to visit the key or to remove the pair. -/
def Covers (sweep : Sweep) (source : SocketAddr) (id : Nat) : Task → Prop
  | .scan sweep' none _ => sweep' = sweep
  | .scan sweep' (some todo) found => sweep' = sweep ∧ (source ∈ todo ∨ (source, id) ∈ found)
  | .removeIf source' id' (.sweeping sweep' rest) =>
      sweep' = sweep ∧ (source, id) ∈ (source', id') :: rest
  | .closing _ _ _ (.sweeping sweep' rest) => sweep' = sweep ∧ (source, id) ∈ rest
  | _ => False

theorem covers_drain {rest : List (SocketAddr × Nat)} (member : (source, id) ∈ rest) :
    Covers sweep source id (sweep.drain rest) := by
  cases rest with
  | nil => cases member
  | cons e rest => exact ⟨rfl, member⟩

theorem covers_resume {caller : RemoveCaller} {rest : List (SocketAddr × Nat)}
    (same : caller = .sweeping sweep rest) (member : (source, id) ∈ rest) :
    Covers sweep source id caller.resume := by
  subst same
  exact covers_drain member

theorem covers_removeIf {source' : SocketAddr} {id' : Nat} {caller : RemoveCaller}
    (covers : Covers sweep source id (.removeIf source' id' caller)) :
    ∃ rest, caller = .sweeping sweep rest ∧ (source, id) ∈ (source', id') :: rest := by
  cases caller with
  | sweeping sweep' rest =>
      obtain ⟨rfl, member⟩ := covers
      exact ⟨rest, rfl, member⟩
  | _ => cases covers

theorem covers_closing {ref' : SessionRef} {id' : Nat} {next : Closing} {caller : RemoveCaller}
    (covers : Covers sweep source id (.closing ref' id' next caller)) :
    ∃ rest, caller = .sweeping sweep rest ∧ (source, id) ∈ rest := by
  cases caller with
  | sweeping sweep' rest =>
      obtain ⟨rfl, member⟩ := covers
      exact ⟨rest, rfl, member⟩
  | _ => cases covers

/-- The scan collects the session when it comes to the session's key. -/
theorem mem_visit {s : UdpSession} (mapped : tab.sessions.lookup source = some ref)
    (session : tab.heap[ref]? = some s) (selected : tab.selects sweep s = true) :
    (source, s.id) ∈ tab.visit sweep source := by
  rw [visit, mapped, Option.bind_some, session]
  simp [selected]

/-- The sweep's own steps keep the session covered, or remove it. -/
theorem Step.covers (taken : Step tab t k tab' t' new) (covers : Covers sweep source id t)
    (mapped : tab.sessions.lookup source = some ref)
    (known : tab.identity ref = some (source, id))
    (selected : ∀ s, tab.heap[ref]? = some s → tab.selects sweep s = true) :
    Covers sweep source id t' ∨ tab'.Removed ref := by
  obtain ⟨s, session, rfl, rfl⟩ := session_of_identity known
  cases taken with
  | scanStart =>
      have listed : s.source ∈ tab.sessions.keys :=
        AList.mem_keys.mp (AList.lookup_isSome.mp (by rw [mapped]; rfl))
      exact .inl ⟨covers, .inl listed⟩
  | @scanVisit _ todo found key =>
      obtain ⟨rfl, todo | found⟩ := covers
      · by_cases same : key = s.source
        · subst same
          exact .inl ⟨rfl, .inr (List.mem_append_right _
            (mem_visit mapped session (selected s session)))⟩
        · exact .inl ⟨rfl, .inl ((List.mem_erase_of_ne (Ne.symm same)).mpr todo)⟩
      · exact .inl ⟨rfl, .inr (List.mem_append_left _ found)⟩
  | scanEnd =>
      obtain ⟨rfl, none | found⟩ := covers
      · cases none
      · exact .inl (covers_drain found)
  | removeAbsent absent =>
      obtain ⟨rest, same, member⟩ := covers_removeIf covers
      obtain own | later := List.mem_cons.mp member
      · cases own
        rw [absent] at mapped
        cases mapped
      · exact .inl (covers_resume same later)
  | removeOther present session' other =>
      obtain ⟨rest, same, member⟩ := covers_removeIf covers
      obtain own | later := List.mem_cons.mp member
      · cases own
        rw [mapped] at present
        cases present
        rw [session] at session'
        cases session'
        exact absurd rfl other
      · exact .inl (covers_resume same later)
  | @remove source' _ caller ref' s' present session' same' =>
      obtain ⟨rest, same, member⟩ := covers_removeIf covers
      obtain own | later := List.mem_cons.mp member
      · cases own
        rw [mapped] at present
        cases present
        exact .inr (by simp [Removed])
      · subst same
        exact .inl ⟨rfl, later⟩
  | cancel | markFirst =>
      obtain ⟨rest, rfl, member⟩ := covers_closing covers
      exact .inl ⟨rfl, member⟩
  | markAgain | flowClose =>
      obtain ⟨rest, same, member⟩ := covers_closing covers
      exact .inl (covers_resume same member)
  | _ => cases covers

theorem Step.removed_mono (taken : Step tab t k tab' t' new) (removed : tab.Removed ref) :
    tab'.Removed ref := by
  cases taken with
  | remove => simpa [Removed] using .inl (by simpa [Removed] using removed)
  | _ => exact removed

/-- Only a removal takes a session out of the map. -/
theorem Step.mapped_or_removed (taken : Step tab t k tab' t' new)
    (mapped : tab.sessions.lookup source = some ref) :
    tab'.sessions.lookup source = some ref ∨ tab'.Removed ref := by
  cases taken with
  | @entryVacant call own vacant =>
      have other : source ≠ call.source := by
        rintro rfl
        rw [vacant] at mapped
        cases mapped
      exact .inl ((AList.lookup_insert_ne other).trans mapped)
  | @remove source' _ _ ref' _ present =>
      by_cases same : source = source'
      · subst same
        rw [mapped] at present
        cases present
        exact .inr (by simp [Removed])
      · exact .inl ((AList.lookup_erase_ne same).trans mapped)
  | _ => exact .inl mapped

/-- What a sweep by task `i` has achieved for a session, or will. -/
def Swept (i : Nat) (sweep : Sweep) (source : SocketAddr) (ref : SessionRef) (id : Nat)
    (p : Pool UdpSessionTable Task) : Prop :=
  p.shared.identity ref = some (source, id) ∧
    (p.shared.Removed ref ∨ p.shared.sessions.lookup source = some ref ∧
      ∃ t, p.threads[i]? = some t ∧ Covers sweep source id t)

/-- The sweep would select the session now. -/
def Selected (sweep : Sweep) (ref : SessionRef) (p : Pool UdpSessionTable Task) : Prop :=
  ∀ s, p.shared.heap[ref]? = some s → p.shared.selects sweep s = true

theorem Swept.step {a : Action Choice Env} (swept : Swept i sweep source ref id p)
    (selected : Selected sweep ref p) (taken : machine.step p a = some q) :
    Swept i sweep source ref id q := by
  obtain ⟨known, state⟩ := swept
  cases a with
  | thread j k =>
      obtain ⟨t, tab, t', new, found, own, rfl⟩ := Program.machine_thread_iff.mp taken
      have step := step_iff.mp own
      have bound := (List.getElem?_eq_some_iff.mp found).1
      refine ⟨step.identity known, ?_⟩
      obtain removed | ⟨mapped, u, there, covers⟩ := state
      · exact .inl (step.removed_mono removed)
      · obtain mapped' | removed := step.mapped_or_removed mapped
        · by_cases same : i = j
          · subst same
            cases found.symm.trans there
            obtain covers | removed := step.covers covers mapped known selected
            · exact .inr ⟨mapped', t', lookup_self bound, covers⟩
            · exact .inl removed
          · exact .inr ⟨mapped', u, lookup_other there same, covers⟩
        · exact .inl removed
  | env e =>
      obtain ⟨tab, new, own, rfl⟩ := Program.machine_env_iff.mp taken
      refine ⟨(env_identity own ref).trans known, ?_⟩
      obtain removed | ⟨mapped, u, there, covers⟩ := state
      · exact .inl (by cases e <;> cases own <;> exact removed)
      · exact .inr ⟨by cases e <;> cases own <;> exact mapped, u, lookup_append there, covers⟩

theorem swept_of_scan {found : List (SocketAddr × Nat)} {as : List (Action Choice Env)}
    (reached : machine.Reachable (start idleTimeout port now) p)
    (scans : p.threads[i]? = some (.scan sweep none found))
    (complete : machine.run p as = some q)
    (ended : q.threads[i]? = some .cleanupLoop ∨ q.threads[i]? = some .finished)
    (mapped : p.shared.sessions.lookup source = some ref)
    (selected : machine.Along (fun p _ => Selected sweep ref p) p as) :
    ref ∉ UdpSessionTable.mapped q.shared := by
  obtain ⟨id, known⟩ := (identified reached).filed source ref mapped
  have begun : Swept i sweep source ref id p := ⟨known, .inr ⟨mapped, _, scans, rfl⟩⟩
  obtain ⟨-, removed | ⟨-, t, there, covers⟩⟩ :=
    Machine.invariant_along (fun _ _ _ before selected taken => before.step selected taken)
      begun selected complete
  · exact not_mapped_of_removed (reached.run complete) removed
  · obtain ended | ended := ended <;> cases there.symm.trans ended <;> cases covers

/-- What the two sweeps achieve, whatever other tasks do meanwhile. -/
structure SweepsClean (p : Pool UdpSessionTable Task) : Prop where
  /-- A tick that starts now evicts every session that is idle at its clock reading and is
  not touched before the tick is over. -/
  tick : ∀ (i : Nat) q r as, p.threads[i]? = some .cleanupLoop →
    machine.step p (.thread i .go) = some q → machine.run q as = some r →
    (r.threads[i]? = some .cleanupLoop ∨ r.threads[i]? = some .finished) →
    ∀ source ref, p.shared.sessions.lookup source = some ref →
      machine.Along (fun p' _ => Selected (.cleanup p.shared.clock) ref p') q as →
      ref ∉ mapped r.shared
  /-- `shutdown_all` removes every session it finds, also while calls insert others. -/
  shutdownAll : ∀ q r as, machine.step p (.env .shutdownAll) = some q →
    machine.run q as = some r → r.threads[p.threads.length]? = some .finished →
    ∀ source ref, p.shared.sessions.lookup source = some ref → ref ∉ mapped r.shared

theorem sweeps_clean (reached : machine.Reachable (start idleTimeout port now) p) :
    SweepsClean p where
  tick := by
    intro i q r as loop taken complete ended source ref mapped selected
    have reached' := reached.step taken
    obtain ⟨t, tab, t', new, found, own, rfl⟩ := Program.machine_thread_iff.mp taken
    have step := step_iff.mp own
    cases loop.symm.trans found
    cases step with
    | tick =>
        have bound := (List.getElem?_eq_some_iff.mp loop).1
        exact swept_of_scan reached' (lookup_self bound) complete ended mapped selected
  shutdownAll := by
    intro q r as taken complete ended source ref mapped
    have reached' := reached.step taken
    obtain ⟨tab, new, own, rfl⟩ := Program.machine_env_iff.mp taken
    cases own
    have scans : (p.threads ++ [Task.scan .shutdownAll none []])[p.threads.length]? =
        some (.scan .shutdownAll none []) := by
      simp
    refine swept_of_scan reached' scans complete (.inr ended) mapped ?_
    exact Machine.Along.mono (C := fun _ _ => True) (fun _ _ _ _ _ => rfl)
      (Machine.along_of_forall (fun _ _ => trivial) _)

/-- A client forwards one datagram and is silent for a minute; then the cleanup loop starts. -/
def idleClient : List (Action Choice Env) :=
  .env (.getOrCreate ⟨.v4 0 4000, some [1]⟩) :: List.replicate 11 (.thread 0 .go) ++
    [.env (.advance 60), .env .cleanupLoop]

theorem idleClient_accepted :
    (machine.run (start (.fromSecs 60) 4000 100) idleClient).isSome := by decide

/-- The first tick of the loop, to its end. -/
def firstTick : List (Action Choice Env) :=
  [.thread 2 .go, .thread 2 .go, .thread 2 (.visit (.v4 0 4000))] ++
    List.replicate 5 (.thread 2 .go)

/-- `shutdown_all` instead, to its end. -/
def shutdownNow : List (Action Choice Env) :=
  [.env .shutdownAll, .thread 3 .go, .thread 3 (.visit (.v4 0 4000))] ++
    List.replicate 5 (.thread 3 .go)

theorem sweeps_clean_idleClient :
    let p := (machine.run (start (.fromSecs 60) 4000 100) idleClient).get idleClient_accepted
    SweepsClean p ∧ p.shared.sessions.lookup (.v4 0 4000) = some 0 ∧
      p.threads[2]? = some .cleanupLoop ∧
      ((machine.run p firstTick).map fun r => (r.threads[2]?, mapped r.shared)) =
        some (some .cleanupLoop, []) ∧
      ((machine.run p shutdownNow).map fun r => (r.threads[3]?, mapped r.shared)) =
        some (some .finished, []) :=
  ⟨sweeps_clean (Machine.reachable_get idleClient_accepted), by decide⟩

end RangePorter.UdpSessionTable
