import RangePorter.PortSet
import RangePorter.Target.Bind

/-!
# The configuration

`RuntimeConfig::from_cli` reads the ports, binds the target and then checks the numbers.
What it accepts has ports to listen on, in ascending order and none of them zero, so the
first check of `RuntimeConfig::new` never fails there.
-/

namespace RangePorter.Config

open Text

structure Cli where
  listenHost : IpAddr
  listenPorts : Str
  target : Str
  dnsServer : Option SocketAddr
  udpIdleTimeout : Duration
  statsBind : Option SocketAddr
  statsWindow : BitVec 64
  summaryInterval : Duration
  maxTcpConnections : BitVec 64

structure RuntimeConfig where
  listenHost : IpAddr
  listenPorts : List PortSet.Port
  target : TargetAddr
  udpIdleTimeout : Duration
  statsBind : Option SocketAddr
  statsWindow : BitVec 64
  summaryInterval : Duration
  maxTcpConnections : BitVec 64
  nonempty : listenPorts ≠ []
  timeout : udpIdleTimeout ≠ 0
  window : statsWindow ≠ 0
  positive : maxTcpConnections ≠ 0
  deriving DecidableEq

def RuntimeConfig.new (listenHost : IpAddr) (listenPorts : List PortSet.Port)
    (target : TargetAddr) (udpIdleTimeout : Duration) (statsBind : Option SocketAddr)
    (statsWindow : BitVec 64) (summaryInterval : Duration) (maxTcpConnections : BitVec 64) :
    Except String RuntimeConfig :=
  if ports : listenPorts = [] then .error "at least one listen port is required"
  else if timeout : udpIdleTimeout = 0 then .error "udp idle timeout must be greater than 0"
  else if window : statsWindow = 0 then .error "stats window must be greater than 0"
  else if cap : maxTcpConnections = 0 then .error "max tcp connections must be greater than 0"
  else .ok ⟨listenHost, listenPorts, target, udpIdleTimeout, statsBind, statsWindow,
    summaryInterval, maxTcpConnections, ports, timeout, window, cap⟩

/-- `none` stands for a panic. -/
def RuntimeConfig.fromCli (dns : Dns) (cli : Cli) (now : Instant) :
    Option (Except ErrorChain RuntimeConfig) :=
  match PortSet.parsePortset cli.listenPorts with
  | .error error => some (.error [error.message])
  | .ok listenPorts => do
      match ← TargetAddr.bind dns cli.target cli.dnsServer now with
      | .error error => some (.error error)
      | .ok target =>
          match RuntimeConfig.new cli.listenHost listenPorts target cli.udpIdleTimeout
              cli.statsBind cli.statsWindow cli.summaryInterval cli.maxTcpConnections with
          | .error message => some (.error [message])
          | .ok config => some (.ok config)

/-! ### What is accepted -/

variable {dns : Dns} {cli : Cli} {now : Instant} {ports : List PortSet.Port}
  {config : RuntimeConfig}

theorem start_le_stop {segment : Str} {start stop : PortSet.Port}
    (denotes : PortSet.Denotes segment start stop) : start ≤ stop ∧ start ≠ 0 := by
  cases denotes with
  | port read => exact ⟨BitVec.le_refl _, read.2⟩
  | range _ _ readStart _ order => exact ⟨order, readStart.2⟩

/-- An accepted expression has ports, in ascending order and none of them zero. -/
theorem valid_of_parsePortset {input : Str} (parsed : PortSet.parsePortset input = .ok ports) :
    ports ≠ [] ∧ ports.Pairwise (· < ·) ∧ ∀ port ∈ ports, port ≠ 0 := by
  obtain ⟨ranges, all, rfl⟩ := PortSet.parsePortset_eq_ok_iff.mp parsed
  have meanings : ∀ range, range ∈ ranges ↔
      ∃ segment ∈ input.splitOn ',', PortSet.Denotes segment range.1 range.2 :=
    fun _ => Reader.mem_meanings_iff
      (fun _ _ _ denotes denotes' => Prod.ext_iff.mpr (denotes.unique denotes')) all
  refine ⟨?_, SortedSet.ascending _, ?_⟩
  · obtain ⟨segment, segments, split⟩ :=
      List.exists_cons_of_ne_nil (List.splitOn_ne_nil ',' input)
    rw [split] at all
    cases all with
    | @cons _ range _ _ denotes _ =>
        intro empty
        have inside := (meanings range).mpr
          ⟨segment, by rw [split]; exact List.mem_cons_self .., denotes⟩
        have member := (@PortSet.mem_foldl_extend _ .empty _).mpr
          (.inl ⟨range, inside, BitVec.le_refl _, (start_le_stop denotes).1⟩)
        rw [empty] at member
        cases member
  · intro port member zero
    obtain ⟨range, inside, low, -⟩ | none := PortSet.mem_foldl_extend.mp member
    · obtain ⟨segment, -, denotes⟩ := (meanings range).mp inside
      rw [zero] at low
      exact (start_le_stop denotes).2 (BitVec.le_zero_iff.mp low)
    · cases none

/-- How `from_cli` may end: the first check that fails decides the error. -/
inductive Outcome (dns : Dns) (cli : Cli) (now : Instant) :
    Except ErrorChain RuntimeConfig → Prop where
  | ports {error} (rejected : PortSet.parsePortset cli.listenPorts = .error error) :
      Outcome dns cli now (.error [error.message])
  | target {ports error} (parsed : PortSet.parsePortset cli.listenPorts = .ok ports)
      (rejected : TargetAddr.bind dns cli.target cli.dnsServer now = some (.error error)) :
      Outcome dns cli now (.error error)
  | timeout {ports target} (parsed : PortSet.parsePortset cli.listenPorts = .ok ports)
      (bound : TargetAddr.bind dns cli.target cli.dnsServer now = some (.ok target))
      (zero : cli.udpIdleTimeout = 0) :
      Outcome dns cli now (.error ["udp idle timeout must be greater than 0"])
  | window {ports target} (parsed : PortSet.parsePortset cli.listenPorts = .ok ports)
      (bound : TargetAddr.bind dns cli.target cli.dnsServer now = some (.ok target))
      (timeout : cli.udpIdleTimeout ≠ 0) (zero : cli.statsWindow = 0) :
      Outcome dns cli now (.error ["stats window must be greater than 0"])
  | cap {ports target} (parsed : PortSet.parsePortset cli.listenPorts = .ok ports)
      (bound : TargetAddr.bind dns cli.target cli.dnsServer now = some (.ok target))
      (timeout : cli.udpIdleTimeout ≠ 0) (window : cli.statsWindow ≠ 0)
      (zero : cli.maxTcpConnections = 0) :
      Outcome dns cli now (.error ["max tcp connections must be greater than 0"])
  | ok {config : RuntimeConfig}
      (parsed : PortSet.parsePortset cli.listenPorts = .ok config.listenPorts)
      (bound : TargetAddr.bind dns cli.target cli.dnsServer now = some (.ok config.target))
      (ascending : config.listenPorts.Pairwise (· < ·))
      (nonzero : ∀ port ∈ config.listenPorts, port ≠ 0)
      (given : config.listenHost = cli.listenHost ∧ config.udpIdleTimeout = cli.udpIdleTimeout ∧
        config.statsBind = cli.statsBind ∧ config.statsWindow = cli.statsWindow ∧
        config.summaryInterval = cli.summaryInterval ∧
        config.maxTcpConnections = cli.maxTcpConnections) :
      Outcome dns cli now (.ok config)

theorem fromCli_outcome (dns : Dns) (cli : Cli) (now : Instant) :
    ∃ result, RuntimeConfig.fromCli dns cli now = some result ∧ Outcome dns cli now result := by
  cases parsed : PortSet.parsePortset cli.listenPorts with
  | error error => exact ⟨_, by rw [RuntimeConfig.fromCli, parsed], .ports parsed⟩
  | ok ports =>
      obtain ⟨some, ascending, nonzero⟩ := valid_of_parsePortset parsed
      obtain ⟨result, bound, -⟩ :=
        TargetAddr.exists_bound dns cli.target cli.dnsServer now
      simp only [RuntimeConfig.fromCli, parsed, bound, Option.bind_eq_bind, Option.bind_some]
      cases result with
      | error error => exact ⟨_, rfl, .target parsed bound⟩
      | ok target =>
          simp only [RuntimeConfig.new, some, dite_false]
          by_cases timeout : cli.udpIdleTimeout = 0
          · simp only [timeout, dite_true]
            exact ⟨_, rfl, .timeout parsed bound timeout⟩
          · by_cases window : cli.statsWindow = 0
            · simp only [timeout, window, dite_true, dite_false]
              exact ⟨_, rfl, .window parsed bound timeout window⟩
            · by_cases cap : cli.maxTcpConnections = 0
              · simp only [timeout, window, cap, dite_true, dite_false]
                exact ⟨_, rfl, .cap parsed bound timeout window cap⟩
              · simp only [timeout, window, cap, dite_false]
                exact ⟨_, rfl, .ok parsed bound ascending nonzero ⟨rfl, rfl, rfl, rfl, rfl, rfl⟩⟩

end RangePorter.Config
