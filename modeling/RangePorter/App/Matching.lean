import RangePorter.App.Moments

/-!
# Callers and their methods

A recording method is in progress in the registry exactly as long as its caller is in it. So
the registry never refuses a call, and never holds up its caller.
-/

namespace RangePorter

open Interleaving

namespace RunningApp

variable {app app' : RunningApp} {t t' : Task} {k : Choice} {new : List Task}

/-- A task goes on with its method, or calls the next one when this one is over. -/
theorem Step.method_eq (taken : Step app t k app' t' new) (recording : t.Recording) :
    t'.called = none ∧ t'.method = t.method.tail ∨
      ∃ called, t'.called = some called ∧ t.method.tail = [] ∧ t'.method = called.ops := by
  cases taken with
  | accept => exact .inr ⟨_, rfl, rfl, rfl⟩
  | copied => exact .inr ⟨_, rfl, rfl, rfl⟩
  | connectInterrupted | copyInterrupted => exact .inr ⟨_, rfl, rfl, rfl⟩
  | recordAccept =>
      obtain ⟨rfl, rfl⟩ | ⟨rfl, rfl⟩ := recordAccept_cases recording
      · exact .inl ⟨rfl, rfl⟩
      · exact .inl ⟨rfl, rfl⟩
  | recordClose =>
      obtain ⟨inBytes, outBytes, suffix⟩ := recording
      obtain ⟨rfl, rfl⟩ | ⟨rfl, rfl⟩ | ⟨rfl, rfl⟩ | ⟨rfl, rfl⟩ := recordClose_cases suffix
      · exact .inl ⟨rfl, rfl⟩
      · exact .inr ⟨_, rfl, rfl, rfl⟩
      · exact .inl ⟨rfl, rfl⟩
      · exact .inl ⟨rfl, rfl⟩
  | _ => exact .inl ⟨rfl, rfl⟩

theorem Step.new_method (taken : Step app t k app' t' new) : ∀ u ∈ new, u.method = [] := by
  cases taken with
  | spawn =>
      intro u member
      rw [List.mem_singleton.mp member]
      rfl
  | _ => exact fun _ member => absurd member List.not_mem_nil

end RunningApp

namespace App

variable {stats stats' made : Pool StatsRegistry StatsRegistry.Task} {port i P : Nat}
  {ops O : List CounterOp} {called : Option Recording} {app app' : App} {a : Action}
  {config : Config.RuntimeConfig} {ascending : config.listenPorts.Pairwise (· < ·)} {now : Nat}

/-- The method has these updates left. -/
def recorders (P : Nat) (O : List CounterOp) (t : StatsRegistry.Task) : Nat :=
  if t = .recording P O then 1 else 0

/-- The task is in a method that has these updates left. -/
def callers (P : Nat) (O : List CounterOp) (t : RunningApp.Task) : Nat :=
  if t.port = P ∧ t.method = O then 1 else 0

/-- Each caller is in a method that is in progress, and the other way round. -/
def Matched (app : App) : Prop :=
  ∀ P O, O ≠ [] → weight (recorders P O) app.stats.threads = weight (callers P O) app.tcp.threads

theorem recorders_recording (P : Nat) (O : List CounterOp) (port : Nat) (ops : List CounterOp) :
    recorders P O (.recording port ops) = if port = P ∧ ops = O then 1 else 0 := by
  simp [recorders]

theorem recorders_resume (caller : RollupCaller) : recorders P O caller.resume = 0 :=
  RollupCaller.resume_cases (by simp [recorders]) (by simp [recorders])

/-! ### Runs of the registry -/

theorem recorders_makes (left : O ≠ [])
    (follows : StatsRegistry.machine.run stats (makes stats port ops) = some made) :
    weight (recorders P O) made.threads + (if port = P ∧ ops = O then 1 else 0) =
      weight (recorders P O) stats.threads + if port = P ∧ ops.tail = O then 1 else 0 := by
  cases ops with
  | nil =>
      cases follows
      simp [left.symm]
  | cons op ops =>
      obtain ⟨j, found, rfl⟩ := run_makes follows
      have exchange := weight_set (recorders P O) (.recording port ops) found
      rw [recorders_recording, recorders_recording] at exchange
      exact exchange

theorem recorders_calls (distinct : stats.shared.numbers.Nodup)
    (known : port < stats.shared.ports.length)
    (follows : StatsRegistry.machine.run stats (calls stats port called) = some stats') :
    weight (recorders P O) stats'.threads = weight (recorders P O) stats.threads +
      (called.map fun recording => if port = P ∧ recording.ops = O then 1 else 0).getD 0 := by
  cases called with
  | none =>
      cases follows
      rfl
  | some recording =>
      rw [run_calls distinct known follows, weight_append, weight_cons, recorders_recording]
      rfl

theorem recorders_counts (left : O ≠ [])
    (single : ∀ recording ∈ called, recording.single = true)
    (distinct : stats.shared.numbers.Nodup) (known : port < stats.shared.ports.length)
    (follows : StatsRegistry.machine.run stats (counts stats port called) = some stats') :
    weight (recorders P O) stats'.threads = weight (recorders P O) stats.threads := by
  cases called with
  | none =>
      cases follows
      rfl
  | some recording =>
      obtain ⟨op, one⟩ := Recording.ops_of_single (single recording rfl)
      rw [run_counts distinct known one follows, weight_append, weight_cons, recorders_recording]
      simp [left.symm]

/-! ### Callers and methods in every run -/

theorem recorders_stats {k : StatsRegistry.Choice} (admitted : app.admits i k = true)
    (own : StatsRegistry.machine.step app.stats (.thread i k) = some stats) :
    weight (recorders P O) stats.threads = weight (recorders P O) app.stats.threads := by
  obtain ⟨t, registry, t', new, found, taken, rfl⟩ := Program.machine_thread_iff.mp own
  have exchange := weight_set (recorders P O) t' found
  have step := StatsRegistry.step_iff.mp taken
  rw [step.new_eq, List.append_nil]
  have idle : recorders P O t = 0 ∧ recorders P O t' = 0 := by
    cases step with
    | record => simp [admits, found] at admitted
    | rollup => exact ⟨by simp [recorders], recorders_resume _⟩
    | _ => simp [recorders]
  show weight (recorders P O) (app.stats.threads.set i t') = _
  omega

theorem Matched.step (before : app.Matched) (parts : Parts config ascending now app)
    (taken : Step app a app') : app'.Matched := by
  intro P O left
  have same := before P O left
  cases taken with
  | cancel own | close own =>
      rw [threads_env own]
      exact same
  | @tcp i k t t' shared new stats found own follows =>
      have known := parts.tcp_known found
      have port := own.lengths.2.2
      obtain ⟨made, first, rest⟩ := Machine.run_append_iff.mp follows
      obtain ⟨numbers, length⟩ := numbers_of_makes first
      rw [calls_congr numbers.symm] at rest
      have moved := recorders_makes (P := P) left first
      have called := recorders_calls (P := P) (O := O) (numbers ▸ parts.distinct)
        (length ▸ known) rest
      have exchange := weight_set (callers P O) t' found
      have idle : weight (callers P O) new = 0 := weight_eq_zero_iff.mpr fun u member => by
        rw [callers, own.new_method u member]
        exact if_neg fun both => left both.2.symm
      show weight (recorders P O) stats.threads =
        weight (callers P O) (app.tcp.threads.set i t' ++ new)
      rw [weight_append, idle]
      simp only [callers, port] at exchange
      obtain ⟨none, next⟩ | ⟨recording, some, ended, next⟩ :=
        own.method_eq ((RunningApp.valid parts.tcp).get found).recording
      · rw [none] at called
        rw [next] at exchange
        simp only [Option.map_none, Option.getD_none] at called
        omega
      · rw [some] at called
        rw [ended] at moved
        rw [next] at exchange
        simp only [Option.map_some, Option.getD_some] at called
        simp only [left.symm, and_false, if_false] at moved
        omega
  | udp found admitted own follows =>
      exact (recorders_counts left (fun _ called => UdpPort.single_of_recording called)
        parts.distinct (parts.udp_known found) follows).trans same
  | @addUdpOut _ _ bytes _ _ found sent follows =>
      exact (recorders_counts left (Recording.single_udpOut bytes) parts.distinct
        (parts.udp_known found) follows).trans same
  | stats admitted own => exact (recorders_stats admitted own).trans same
  | snapshot own =>
      obtain ⟨registry, new, called, rfl⟩ := Program.machine_env_iff.mp own
      cases called
      rw [weight_append, weight_cons]
      exact same

theorem Matched.start : (App.start config ascending now).Matched := by
  intro P O left
  have recorders : weight (recorders P O) (App.start config ascending now).stats.threads = 0 := by
    simp [App.start, StatsRegistry.start, App.recorders]
  have callers : weight (callers P O) (App.start config ascending now).tcp.threads = 0 := by
    refine weight_eq_zero_iff.mpr fun t member => ?_
    obtain ⟨port, -, rfl⟩ := List.mem_map.mp member
    exact if_neg fun both => left both.2.symm
  rw [recorders, callers]

theorem matched (reached : machine.Reachable (start config ascending now) app) : app.Matched :=
  reached.invariant (P := Matched) .start fun _ _ _ reached before taken =>
    before.step (parts reached) (.of_step taken)

/-- The method that a task is in is in progress. -/
theorem Matched.recorded (agreed : app.Matched) {t : RunningApp.Task}
    (found : app.tcp.threads[i]? = some t) (left : t.method ≠ []) :
    0 < weight (recorders t.port t.method) app.stats.threads := by
  rw [agreed _ _ left]
  refine Nat.lt_of_lt_of_le ?_ (le_weight _ found)
  simp [callers]

/-! ### Nobody waits for the registry -/

/-- The update that a caller makes can be made. -/
theorem makes_runs (waiting : ops ≠ [] → 0 < weight (recorders port ops) stats.threads) :
    ∃ made, StatsRegistry.machine.run stats (makes stats port ops) = some made := by
  cases ops with
  | nil => exact ⟨stats, rfl⟩
  | cons op ops =>
      have member : .recording port (op :: ops) ∈ stats.threads := by
        by_contra absent
        have none : weight (recorders port (op :: ops)) stats.threads = 0 :=
          weight_eq_zero_iff.mpr fun t inside => if_neg (ne_of_mem_of_not_mem inside absent)
        rw [none] at waiting
        exact Nat.lt_irrefl 0 (waiting (List.cons_ne_nil op ops))
      have bound := List.idxOf_lt_length_of_mem member
      have found := List.getElem?_eq_getElem bound
      rw [List.getElem_idxOf] at found
      exact ⟨_, Machine.run_singleton.mpr
        (Program.machine_thread_iff.mpr ⟨_, _, _, _, found, rfl, rfl⟩)⟩

theorem calls_runs (distinct : stats.shared.numbers.Nodup)
    (known : port < stats.shared.ports.length) (called : Option Recording) :
    ∃ stats', StatsRegistry.machine.run stats (calls stats port called) = some stats' := by
  cases called with
  | none => exact ⟨stats, rfl⟩
  | some recording =>
      have here := List.getElem?_eq_getElem known
      have found := StatsRegistry.port_of_distinct distinct here
      simp only [calls, StatsRegistry.numbers, List.getElem?_map, here, Option.map_some,
        Option.toList_some, List.map_singleton]
      exact ⟨_, Machine.run_singleton.mpr (Program.machine_env_iff.mpr
        ⟨_, _, Option.map_eq_some_iff.mpr ⟨port, found, rfl⟩, rfl⟩)⟩

/-- A caller goes on with its method, and may call another one. -/
theorem makes_calls_runs (distinct : stats.shared.numbers.Nodup)
    (known : port < stats.shared.ports.length)
    (waiting : ops ≠ [] → 0 < weight (recorders port ops) stats.threads)
    (called : Option Recording) :
    ∃ stats', StatsRegistry.machine.run stats (makes stats port ops ++ calls stats port called) =
      some stats' := by
  obtain ⟨made, first⟩ := makes_runs waiting
  obtain ⟨numbers, length⟩ := numbers_of_makes first
  obtain ⟨stats', last⟩ := calls_runs (numbers ▸ distinct) (length ▸ known) called
  rw [← calls_congr numbers.symm] at last
  exact ⟨stats', Machine.run_trans first last⟩

theorem counts_runs (distinct : stats.shared.numbers.Nodup)
    (known : port < stats.shared.ports.length)
    (single : ∀ recording ∈ called, recording.single = true) :
    ∃ stats', StatsRegistry.machine.run stats (counts stats port called) = some stats' := by
  cases called with
  | none => exact ⟨stats, rfl⟩
  | some recording =>
      obtain ⟨op, one⟩ := Recording.ops_of_single (single recording rfl)
      obtain ⟨next, first⟩ := calls_runs distinct known (some recording)
      have same := run_calls distinct known first
      rw [one] at same
      have found : next.threads[stats.threads.length]? = some (.recording port [op]) := by
        simp [same]
      exact ⟨_, Machine.run_trans first (Machine.run_singleton.mpr
        (Program.machine_thread_iff.mpr ⟨_, _, _, _, found, rfl, rfl⟩))⟩

/-- Whatever a part can do by itself it can do in the application. -/
structure Unhindered (app : App) : Prop where
  tcp : ∀ i k tcp, RunningApp.machine.step app.tcp (.thread i k) = some tcp →
    ∃ app', machine.step app (.tcp i k) = some app' ∧ app'.tcp = tcp ∧ app'.udp = app.udp
  udp : ∀ (i : Nat) action u u', app.udp[i]? = some u → u.step action = some u' →
    ∃ app', machine.step app (.udp i action) = some app' ∧ app'.tcp = app.tcp ∧
      app'.udp = app.udp.set i u'
  addUdpOut : ∀ (i : Nat) (u : Udp) bytes rest, app.udp[i]? = some u →
    u.uncounted = bytes :: rest → ∃ app', machine.step app (.addUdpOut i) = some app' ∧
      app'.tcp = app.tcp ∧ app'.udp = app.udp.set i { u with uncounted := rest }

theorem step_of_moved {next : App} (move : app.moved a = some next)
    (follows : StatsRegistry.machine.run app.stats (app.events a) = some stats) :
    machine.step app a = some { next with stats := stats } := by
  simp [machine, App.step, move, follows]

theorem unhindered (reached : machine.Reachable (start config ascending now) app) :
    Unhindered app := by
  have parts := parts reached
  constructor
  case tcp =>
      intro i k tcp own
      obtain ⟨t, shared, t', new, found, step, rfl⟩ := Program.machine_thread_iff.mp own
      have bound := (List.getElem?_eq_some_iff.mp found).1
      have after : (app.tcp.threads.set i t' ++ new)[i]? = some t' := lookup_self bound
      obtain ⟨stats, runs⟩ := makes_calls_runs parts.distinct (parts.tcp_known found)
        ((matched reached).recorded found) t'.called
      have follows : StatsRegistry.machine.run app.stats (app.events (.tcp i k)) =
          some stats := by
        simp only [events, found, own, Option.bind_some, after]
        exact runs
      have move : app.moved (.tcp i k) = some { app with
          tcp := ⟨shared, app.tcp.threads.set i t' ++ new⟩
          copied := app.copied ++ t.copied k } := by
        simp [moved, found, own]
      exact ⟨_, step_of_moved move follows, rfl, rfl⟩
  case udp =>
      intro i action u u' found own
      have single : ∀ recording ∈ u.port.recording action, recording.single = true :=
        fun _ called => UdpPort.single_of_recording called
      obtain ⟨stats, runs⟩ := counts_runs parts.distinct (parts.udp_known found) single
      have follows : StatsRegistry.machine.run app.stats (app.events (.udp i action)) =
          some stats := by
        simp only [events, found]
        exact runs
      have move : app.moved (.udp i action) = some { app with udp := app.udp.set i u' } := by
        simp [moved, found, own]
      exact ⟨_, step_of_moved move follows, rfl, rfl⟩
  case addUdpOut =>
      intro i u bytes rest found sent
      obtain ⟨stats, runs⟩ :=
        counts_runs parts.distinct (parts.udp_known found) (Recording.single_udpOut bytes)
      have follows : StatsRegistry.machine.run app.stats (app.events (.addUdpOut i)) =
          some stats := by
        simp only [events, found, Option.bind_some, sent, List.head?_cons]
        exact runs
      have move : app.moved (.addUdpOut i) =
          some { app with udp := app.udp.set i { u with uncounted := rest } } := by
        simp [moved, found, sent]
      exact ⟨_, step_of_moved move follows, rfl, rfl⟩

end App

end RangePorter
