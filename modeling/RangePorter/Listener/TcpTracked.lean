import RangePorter.Listener.TcpAccounting

/-!
# What the connection set of a listener tracks

A finished task stays in its `JoinSet` until `join_next` takes it out, and a listener
calls `join_next` only after its loop. So before the shutdown the set tracks every
connection the listener has ever accepted, open or not.
-/

namespace RangePorter

/-- A task is tracked from its spawn until it is taken out. -/
def JoinSet.tracked (set : JoinSet) : Nat := set.running + set.finished

namespace RunningApp

open Interleaving

variable {config : RuntimeConfig} {p : Pool RunningApp Task}

def tracked (app : RunningApp) (port : Nat) : Nat :=
  (app.connections[port]?.map JoinSet.tracked).getD 0

/-- The listener of the port hands an accepted connection to its set. -/
def spawns (port : Nat) (p : Pool RunningApp Task) : Action Choice Env → Bool
  | .thread i _ => p.threads[i]? = some (.listener port (.record []))
  | .env _ => false

/-! ### No listener leaves its loop before the shutdown -/

def Task.Left : Task → Prop
  | .listener _ .leave | .listener _ .joinNext | .listener _ .returned => True
  | _ => False

/-- The semaphore is closed, and a loop is left, only after the token is cancelled. -/
structure Stops (app : RunningApp) (t : Task) : Prop where
  closed : app.semaphore.closed = true → app.shutdown = true
  left : t.Left → app.shutdown = true

theorem Step.flags {app app' : RunningApp} {t t' : Task} {k : Choice} {new : List Task}
    (taken : Step app t k app' t' new) :
    app'.semaphore.closed = app.semaphore.closed ∧ app'.shutdown = app.shutdown := by
  cases taken <;> exact ⟨rfl, rfl⟩

theorem Step.leaves {app app' : RunningApp} {t t' : Task} {k : Choice} {new : List Task}
    (taken : Step app t k app' t' new) (stops : Stops app t) :
    t'.Left → app.shutdown = true := by
  intro left
  cases taken with
  | acquireCancelled shutdown | acceptCancelled shutdown => exact shutdown
  | acquireClosed closed => exact stops.closed closed
  | leave | joinNext | joined => exact stops.left trivial
  | _ => cases left

/-- The environment acts only in a shutdown. -/
theorem env_shutdown {app app' : RunningApp} {e : Env} {new : List Task}
    (taken : app.env e = some (app', new)) : app'.shutdown = true := by
  cases e with
  | cancel =>
      cases taken
      rfl
  | close =>
      simp only [env, Option.ite_none_right_eq_some, Option.some.injEq, Prod.mk.injEq] at taken
      obtain ⟨shutdown, rfl, -⟩ := taken
      exact shutdown

theorem stops (reached : machine.Reachable (start config) p) : AllThreads Stops p := by
  refine .of_reachable reached ?_ ?_ ?_
  · intro t member
    obtain ⟨port, -, rfl⟩ := List.mem_map.mp member
    exact ⟨nofun, nofun⟩
  · intro p i k t app t' new _ before found taken
    have step := step_iff.mp taken
    have own := before.get found
    obtain ⟨closed, shutdown⟩ := step.flags
    have frame : ∀ u : Task, (u.Left → p.shared.shutdown = true) → Stops app u := fun u left =>
      ⟨by rw [closed, shutdown]; exact own.closed, by rw [shutdown]; exact left⟩
    refine ⟨frame t' (step.leaves own), ?_, fun u _ stops => frame u stops.left⟩
    intro u member
    cases step with
    | spawn =>
        rw [List.mem_singleton.mp member]
        exact frame _ nofun
    | _ => cases member
  · intro p e app new _ taken
    have shutdown := env_shutdown taken
    obtain ⟨-, -, -, -, rfl⟩ := env_frame taken
    exact ⟨nofun, fun u _ _ => ⟨fun _ => shutdown, fun _ => shutdown⟩⟩

/-! ### Counting the tracked tasks -/

theorem tracked_modify {app : RunningApp} {port : Nat} (bound : port < app.connections.length)
    {f : JoinSet → JoinSet} (i : Nat) :
    ((app.connections.modify port f)[i]?.map JoinSet.tracked).getD 0 =
      if port = i then (f (app.connections[port])).tracked else app.tracked i := by
  unfold tracked
  rw [List.getElem?_modify]
  by_cases same : port = i
  · subst same
    simp [List.getElem?_eq_getElem bound]
  · simp [same]

theorem tracked_self {app : RunningApp} {port : Nat} (bound : port < app.connections.length) :
    app.tracked port = (app.connections[port]).tracked := by
  simp [tracked, List.getElem?_eq_getElem bound]

/-- Before the shutdown a step changes the set of a port only by a spawn. -/
theorem Step.tracked {app' : RunningApp} {t t' : Task} {k : Choice} {new : List Task} {i j : Nat}
    (reached : machine.Reachable (start config) p) (found : p.threads[j]? = some t)
    (taken : Step p.shared t k app' t' new) (running : app'.shutdown = false) :
    app'.tracked i =
      p.shared.tracked i + (decide (t = .listener i (.record []))).toNat := by
  have own := (valid reached).get found
  rw [taken.flags.2] at running
  cases taken with
  | @spawn port =>
      have bound : port < p.shared.connections.length := own.tracked
      refine (tracked_modify bound i).trans ?_
      by_cases same : port = i
      · subst same
        simp only [if_true, tracked_self bound, JoinSet.tracked, decide_true, Bool.toNat_true]
        omega
      · simp [same]
  | @finish port =>
      have bound : port < p.shared.connections.length := own.tracked
      have runs := le_weight (runs port) found
      rw [← running_eq reached] at runs
      refine (tracked_modify bound i).trans ?_
      by_cases same : port = i
      · subst same
        simp [RunningApp.runs, RunningApp.running, List.getElem?_eq_getElem bound] at runs
        simp [tracked_self bound, JoinSet.tracked]
        omega
      · simp [same]
  | joinNext =>
      have shutdown := ((stops reached).get found).left trivial
      rw [running] at shutdown
      cases shutdown
  | recordAccept => simp [RunningApp.tracked, update]
  | recordClose => simp [RunningApp.tracked, update]
  | _ => simp [RunningApp.tracked]

/-- Before the shutdown the set of a port tracks every task it was given. -/
theorem tracked_eq_count {as : List (Action Choice Env)}
    (complete : machine.run (start config) as = some p) (running : p.shared.shutdown = false)
    (i : Nat) : p.shared.tracked i = machine.count (spawns i) (start config) as := by
  have start_tracked : (start config).shared.tracked i = 0 := by
    simp only [tracked, start, List.getElem?_map]
    cases config.listenPorts[i]? <;> rfl
  have counted := Machine.invariant_count (M := machine) (C := spawns i) (D := fun _ _ => True)
    (P := fun n p => machine.Reachable (start config) p ∧
      (p.shared.shutdown = false → p.shared.tracked i = n)) ?_ (n := 0)
    ⟨.refl _, fun _ => start_tracked⟩ (Machine.along_of_forall (fun _ _ => trivial) _) complete
  · rw [Nat.zero_add] at counted
    exact counted.2 running
  · rintro n p a q ⟨reached, before⟩ - taken
    refine ⟨reached.step taken, ?_⟩
    refine Program.machine_cases (motive := fun a q => q.shared.shutdown = false →
      q.shared.tracked i = n + (spawns i p a).toNat) ?_ ?_ taken
    · intro j k t app t' new found own running
      have step := step_iff.mp own
      show app.tracked i = _
      rw [step.tracked reached found running, before (step.flags.2.symm.trans running), spawns,
        found]
      simp
    · intro e app new own running
      rw [env_shutdown own] at running
      cases running

/-- The set stays within the cap as long as the listener has accepted no more
connections than the cap allows to be open at once. -/
theorem tracked_le_iff {as : List (Action Choice Env)}
    (complete : machine.run (start config) as = some p) (running : p.shared.shutdown = false)
    (i : Nat) : p.shared.tracked i ≤ config.maxTcpConnections ↔
      machine.count (spawns i) (start config) as ≤ config.maxTcpConnections := by
  rw [tracked_eq_count complete running]

/-- Two connections on the first port, one after the other. -/
def twoInTurn : List (Action Choice Env) :=
  List.replicate 5 (.thread 0 .go) ++ .thread 2 .fail :: List.replicate 4 (.thread 2 .go) ++
    List.replicate 5 (.thread 0 .go)

theorem twoInTurn_accepted : (machine.run (start twoPorts) twoInTurn).isSome := by decide

theorem tracked_twoInTurn :
    ((machine.run (start twoPorts) twoInTurn).get twoInTurn_accepted).shared.tracked 0 ≤ 1 ↔
      machine.count (spawns 0) (start twoPorts) twoInTurn ≤ 1 :=
  tracked_le_iff (Option.some_get twoInTurn_accepted).symm (by decide) 0

/-- With a cap of one, the set tracks two tasks although the first one has finished. -/
theorem tracked_exceeds_cap :
    ¬ ∀ p, machine.Reachable (start twoPorts) p → p.shared.shutdown = false →
      ∀ i, p.shared.tracked i ≤ twoPorts.maxTcpConnections := fun bounded =>
  absurd (bounded _ (Machine.reachable_get twoInTurn_accepted) (by decide) 0) (by decide)

end RunningApp

end RangePorter
