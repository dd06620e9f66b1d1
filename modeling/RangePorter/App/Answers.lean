import RangePorter.App.Books

/-!
# What an answer says about the program

The books of the application hold in every run, and an answer shows what is recorded at some
moment between the request and the answer. So it shows what the connections and the sockets
have done, but for what some task has still to record.
-/

namespace RangePorter.App

open Interleaving

variable {config : Config.RuntimeConfig} {ascending : config.listenPorts.Pairwise (· < ·)}
  {now : Nat} {p q r : App} {as : List Action} {s : StatsSnapshot}

/-- An answer that was asked for in `p` and had been given in `r`. -/
structure Shows (config : Config.RuntimeConfig) (p r : App) (s : StatsSnapshot) : Prop where
  numbers : s.ports.map PortSnapshot.port = config.listenPorts.map BitVec.toNat
  ports : ∀ (i : Nat) port, config.listenPorts[i]? = some port →
    ∃ shown, s.ports[i]? = some shown ∧ shown.port = port.toNat ∧
      ∀ c : Counter, c.gauge = false → ∃ value, shown.get c = value % u64Size ∧
        p.done i c ≤ value + p.owed i c ∧ value + r.owed i c ≤ r.done i c
  totals : ∀ c : Counter, c.gauge = false → ∃ sum, s.totals.get c = sum % u64Size ∧
    ((List.range config.listenPorts.length).map fun i => p.done i c).sum ≤
      sum + ((List.range config.listenPorts.length).map fun i => p.owed i c).sum ∧
    sum + ((List.range config.listenPorts.length).map fun i => r.owed i c).sum ≤
      ((List.range config.listenPorts.length).map fun i => r.done i c).sum

/-- The true sums of the registry, in terms of the books. -/
theorem Balanced.trueSum_add {app : App} {c : Counter} (balanced : app.Balanced)
    (parts : Parts config ascending now app) (cumulative : c.gauge = false) :
    app.stats.shared.trueSum c +
        ((List.range config.listenPorts.length).map fun i => app.owed i c).sum =
      ((List.range config.listenPorts.length).map fun i => app.done i c).sum := by
  rw [StatsRegistry.trueSum, recordedTotal, parts.length, ← List.sum_map_add]
  congr 1
  apply List.map_congr_left
  intro i _
  exact balanced i c cumulative

/-- An answer lists the ports of the configuration in their order. -/
theorem Parts.numbers_answer (parts : Parts config ascending now r) {j : Nat}
    (returned : r.stats.threads[j]? = some (.returned s)) :
    s.ports.map PortSnapshot.port = config.listenPorts.map BitVec.toNat :=
  ((StatsRegistry.numbered parts.stats).get returned _ rfl).trans parts.numbers

theorem answer_shows (reached : machine.Reachable (start config ascending now) p)
    (asked : machine.step p .snapshot = some q) (complete : machine.run q as = some r)
    (returned : r.stats.threads[p.stats.threads.length]? = some (.returned s)) :
    Shows config p r s := by
  have before := parts reached
  have later : machine.Reachable (start config ascending now) r := (reached.step asked).run complete
  have after := parts later
  have called : StatsRegistry.machine.step p.stats (.env .snapshot) = some q.stats :=
    Machine.run_singleton.mp (refines_stats.step p .snapshot q trivial asked)
  have rest := refines_stats.run trivial complete
  have whole := Machine.run_cons_iff.mpr ⟨q.stats, called, rest⟩
  obtain ⟨observed, aggregated⟩ := StatsRegistry.answer_observed before.stats called rest returned
  refine ⟨after.numbers_answer returned, ?_, ?_⟩
  · intro i port here
    have bound : i < p.stats.shared.ports.length := by
      rw [before.length]
      exact (List.getElem?_eq_some_iff.mp here).1
    have number := congrArg (fun l => l[i]?) (after.numbers_answer returned)
    simp only [List.getElem?_map, here, Option.map_some] at number
    obtain ⟨shown, found, number⟩ := Option.map_eq_some_iff.mp number
    refine ⟨shown, found, number, ?_⟩
    intro c cumulative
    obtain ⟨shown', value, found', equal, low, high⟩ :=
      observed.ports_between whole i bound c cumulative
    cases found.symm.trans found'
    have asking := balanced reached i c cumulative
    have giving := balanced later i c cumulative
    exact ⟨value, equal, by omega, by omega⟩
  · intro c cumulative
    obtain ⟨sum, value, low, high⟩ := observed.between rfl c cumulative
    rw [StatsRegistry.take_recorded whole, after.length] at low
    rw [List.take_length] at high
    have asking := (balanced reached).trueSum_add before cumulative
    have giving := (balanced later).trueSum_add after cumulative
    rw [StatsRegistry.trueSum, before.length] at asking
    exact ⟨sum, aggregated ▸ value, by omega, Nat.le_trans (Nat.add_le_add_right high _) giving.le⟩

/-- A datagram of two bytes has been sent to the target, and a connection is accepted that is
still to be recorded. -/
def request : List Action :=
  (UdpPort.served (.v4 0x0a000001 4000) [1, 2] 0).map (.udp 0) ++ [.tcp 0 .go, .tcp 0 .go]

theorem twoPorts_ascending : Runtime.twoPortsConfig.listenPorts.Pairwise (· < ·) := by decide

theorem request_accepted :
    (machine.run (start Runtime.twoPortsConfig twoPorts_ascending 60) request).isSome := by decide

def requested : App :=
  (machine.run (start Runtime.twoPortsConfig twoPorts_ascending 60) request).get request_accepted

/-- The connection is recorded after its counter has been loaded. -/
def answering : List Action :=
  .stats 4 .go :: .tcp 0 .go :: List.replicate 18 (.stats 4 .go) ++ [.stats 4 (.clock 61)]

theorem asks_accepted : (machine.step requested .snapshot).isSome := by decide

theorem answering_accepted :
    (machine.run ((machine.step requested .snapshot).get asks_accepted) answering).isSome := by
  decide

def answered : StatsSnapshot where
  target := "10.0.0.1:9000"
  startedAtEpoch := 60
  generatedAtEpoch := 61
  windowMinutes := 60
  totals := { AggregateTotals.default with udpActiveFlows := 1, udpInBytes := 2 }
  ports := [{ PortSnapshot.blank 80 with udpActiveFlows := 1, udpInBytes := 2 }, .blank 8080]
  minuteBuckets := (BucketRing.new 60).snapshot

theorem answer_shows_answered : Shows Runtime.twoPortsConfig requested
    ((machine.run ((machine.step requested .snapshot).get asks_accepted) answering).get
      answering_accepted) answered :=
  answer_shows (Machine.reachable_get _) (Option.some_get _).symm (Option.some_get _).symm rfl

end RangePorter.App
