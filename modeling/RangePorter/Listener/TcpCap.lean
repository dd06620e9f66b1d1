import RangePorter.Listener.TcpAccounting

/-!
# When the connection cap blocks

The cap is meant to block new connections once it is reached. A listener takes its
permit before it waits in `accept`, so a listener without any client holds a permit
too. With one port nobody else is hurt by this. With two ports an idle listener can
hold the last permit while the other waits for one, although fewer connections are
open than the cap allows.
-/

namespace RangePorter.RunningApp

open Interleaving

variable {config : RuntimeConfig} {p : Pool RunningApp Task}

/-- An accepted connection that has not ended: its task has yet to drop the permit,
or its listener has yet to spawn the task. -/
def openTcp : Task → Nat
  | .listener _ (.record _) => 1
  | .connection _ .connect | .connection _ (.copy ..) | .connection _ (.record _) => 1
  | _ => 0

/-- The listener holds a permit and has no connection for it. -/
def idles : Task → Nat
  | .listener _ .accept | .listener _ .refuse | .listener _ .leave => 1
  | _ => 0

theorem held_eq (t : Task) : held t = openTcp t + idles t := by
  cases t with
  | listener port next => cases next <;> rfl
  | connection port next => cases next <;> rfl

/-- Before the shutdown, while fewer connections are open than the cap allows, a
listener that waits for a permit finds one. -/
def BlocksOnlyAtCap (config : RuntimeConfig) : Prop :=
  ∀ p, machine.Reachable (start config) p → p.shared.shutdown = false →
    weight openTcp p.threads < config.maxTcpConnections →
    ∀ port, .listener port .acquire ∈ p.threads → 0 < p.shared.semaphore.available

/-! ### One port -/

theorem stats_length (reached : machine.Reachable (start config) p) :
    p.shared.stats.length = config.listenPorts.length := by
  refine Program.reachable_induction (J := fun p =>
    p.shared.stats.length = config.listenPorts.length) reached (by simp [start]) ?_ ?_
  · intro p i k t app t' new _ before _ taken
    exact (step_iff.mp taken).lengths.1.trans before
  · intro p e app new _ before taken
    rw [(env_frame taken).2.1]
    exact before

theorem blocksOnlyAtCap_of_one (one : config.listenPorts.length = 1) : BlocksOnlyAtCap config := by
  intro p reached _ below port waiting
  have permits := available_add_held reached
  have split : weight held p.threads = weight openTcp p.threads + weight idles p.threads := by
    rw [← weight_add]
    congr 1
    funext t
    exact held_eq t
  -- The waiting listener is the only one, so no listener idles on a permit.
  have none : weight idles p.threads = 0 := by
    refine weight_eq_zero_iff.mpr fun t member => ?_
    cases t with
    | connection => rfl
    | listener port' next =>
        have low := ((valid reached) _ waiting).counted
        have low' := ((valid reached) _ member).counted
        rw [stats_length reached, one, port_listener] at low low'
        have same : port' = port := by omega
        subst same
        obtain ⟨i, found⟩ := List.mem_iff_getElem?.mp waiting
        obtain ⟨j, found'⟩ := List.mem_iff_getElem?.mp member
        have index := index_unique_of_weight_le_one (listens_le_one reached port') found found'
          (by simp [listens]) (by simp [listens])
        subst index
        cases found.symm.trans found'
        rfl
  omega

/-! ### Several ports -/

/-- Accept one connection on the first port. -/
theorem accept_one (listening : p.threads[0]? = some (.listener 0 .acquire))
    (opened : p.shared.semaphore.closed = false) (free : 0 < p.shared.semaphore.available) :
    ∃ app, machine.run p (List.replicate 5 (.thread 0 .go)) =
        some ⟨app, p.threads ++ [.connection 0 .connect]⟩ ∧
      app.semaphore = ⟨p.shared.semaphore.available - 1, false⟩ ∧
      app.shutdown = p.shared.shutdown := by
  have alone : ∃ app, program.runAlone p.shared (.listener 0 .acquire) (List.replicate 5 .go) =
      some (app, .listener 0 .acquire, [.connection 0 .connect]) ∧
      app.semaphore = ⟨p.shared.semaphore.available - 1, false⟩ ∧
      app.shutdown = p.shared.shutdown := by
    simp [Program.runAlone, List.replicate, program, step, stepListener, opened,
      Nat.ne_of_gt free, PortStats.recordTcpAccept, update, spawn]
  obtain ⟨app, alone, rest⟩ := alone
  obtain ⟨bound, same⟩ := List.getElem?_eq_some_iff.mp listening
  have complete := Program.run_alone listening alone
  rw [← same, List.set_getElem_self] at complete
  exact ⟨app, complete, rest⟩

theorem listener_start {port : Nat} (bound : port < config.listenPorts.length) :
    (start config).threads[port]? = some (.listener port .acquire) := by
  simp [start, List.getElem?_range bound]

/-- As long as the cap allows, the first port can accept any number of connections. -/
theorem accept_many (n : Nat) (room : n ≤ config.maxTcpConnections) :
    ∃ app, machine.Reachable (start config)
        ⟨app, (start config).threads ++ List.replicate n (.connection 0 .connect)⟩ ∧
      app.semaphore = ⟨config.maxTcpConnections - n, false⟩ ∧ app.shutdown = false := by
  induction n with
  | zero => exact ⟨(start config).shared, by simpa using Machine.Reachable.refl _, rfl, rfl⟩
  | succ n ih =>
      obtain ⟨app, reached, semaphore, shutdown⟩ := ih (by omega)
      have first := listener_start (List.length_pos_of_ne_nil config.nonempty)
      have listening : ((start config).threads ++ List.replicate n (.connection 0 .connect))[0]? =
          some (.listener 0 .acquire) := by
        rw [List.getElem?_append_left (List.getElem?_eq_some_iff.mp first).1]
        exact first
      obtain ⟨app', complete, semaphore', shutdown'⟩ :=
        accept_one (p := ⟨app, _⟩) listening (by simp [semaphore]) (by simp [semaphore]; omega)
      refine ⟨app', ?_, ?_, shutdown'.trans shutdown⟩
      · rw [List.replicate_succ', ← List.append_assoc]
        exact reached.run complete
      · rw [semaphore', semaphore]
        simp [Nat.sub_sub]

theorem not_blocksOnlyAtCap (several : 1 < config.listenPorts.length) :
    ¬ BlocksOnlyAtCap config := by
  intro blocks
  have positive := config.positive
  -- All permits but one carry a connection; the first listener idles on the last.
  obtain ⟨app, reached, semaphore, shutdown⟩ :=
    accept_many _ (Nat.sub_le config.maxTcpConnections 1)
  have first := listener_start (List.length_pos_of_ne_nil config.nonempty)
  have second := listener_start several
  have listening : ((start config).threads ++
      List.replicate (config.maxTcpConnections - 1) (.connection 0 .connect))[0]? =
        some (.listener 0 .acquire) := by
    rw [List.getElem?_append_left (List.getElem?_eq_some_iff.mp first).1]
    exact first
  have step : Step app (.listener 0 .acquire) .go app.acquire (.listener 0 .accept) [] :=
    .acquire (by rw [semaphore]) (by rw [semaphore]; simp; omega)
  have taken := (Program.machine_thread_iff (P := program) (p := ⟨app, _⟩)).mpr
    ⟨_, _, _, _, listening, step_iff.mpr step, rfl⟩
  have idle := blocks _ (reached.step taken) (by simpa using shutdown) ?_ 1 ?_
  · simp [semaphore] at idle
    omega
  · have exchange := weight_set openTcp (.listener 0 .accept) listening
    have none : weight openTcp (start config).threads = 0 := by
      simp [start, weight_map, openTcp]
    have many : weight openTcp
        (List.replicate (config.maxTcpConnections - 1) (.connection 0 .connect)) =
          config.maxTcpConnections - 1 := by
      simp [weight, openTcp]
    simp only [weight_append, none, many, openTcp] at exchange
    simp only [weight_append, weight_nil]
    omega
  · refine List.mem_append_left _ (List.mem_iff_getElem?.mpr ⟨1, ?_⟩)
    rw [List.getElem?_set_ne (by decide),
      List.getElem?_append_left (List.getElem?_eq_some_iff.mp second).1]
    exact second

/-- The cap blocks only when it is reached exactly if there is one port. -/
theorem blocksOnlyAtCap_iff (config : RuntimeConfig) :
    BlocksOnlyAtCap config ↔ config.listenPorts.length = 1 := by
  constructor
  · intro blocks
    by_contra other
    have positive := List.length_pos_of_ne_nil config.nonempty
    exact not_blocksOnlyAtCap (by omega) blocks
  · exact blocksOnlyAtCap_of_one

theorem first_acquires : (machine.run (start twoPorts) [.thread 0 .go]).isSome := by decide

/-- With two ports and a cap of one, the second listener cannot accept the first
connection of all. -/
theorem second_port_starves : ¬ BlocksOnlyAtCap twoPorts := fun blocks =>
  absurd
    (blocks _ (Machine.reachable_get first_acquires) (by decide) (by decide) 1 (by decide))
    (by decide)

end RangePorter.RunningApp
