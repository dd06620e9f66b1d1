import RangePorter.UdpSession.Accounting

/-!
# The gauge of active UDP flows

A call inserts its session first and raises the gauge afterwards. A cleanup tick
or a shutdown that removes the session in between lowers the gauge too early, and
if the gauge is zero at that moment the decrement is swallowed for good. These
swallowed closes are the only way in which the gauge can go wrong: at rest it is
the number of sessions in the map plus the number of swallowed closes.
-/

namespace RangePorter.UdpSessionTable

open Interleaving

variable {idleTimeout : Duration} {port now : Nat} {p : Pool UdpSessionTable Task}

def activeFlows (tab : UdpSessionTable) : Nat := tab.stats.load .udpActiveFlows

/-- The action records the close of a flow while the gauge is zero. -/
def swallowsClose (p : Pool UdpSessionTable Task) : Action Choice Env → Bool
  | .thread i .go =>
      match p.threads[i]? with
      | some (.closing _ _ .flowClose _) => p.shared.activeFlows = 0
      | _ => false
  | _ => false

/-- The action records the opening of a flow while the gauge is at its maximum. -/
def wrapsOpen (p : Pool UdpSessionTable Task) : Action Choice Env → Bool
  | .thread i .go =>
      match p.threads[i]? with
      | some (.getOrCreate _ (.flowOpen _)) => u64Size ≤ p.shared.activeFlows + 1
      | _ => false
  | _ => false

theorem activeFlows_recordUdpFlowOpen (tab : UdpSessionTable) (ref : SessionRef)
    (fits : tab.activeFlows + 1 < u64Size) :
    (tab.recordUdpFlowOpen ref).activeFlows = tab.activeFlows + 1 :=
  (PortStats.load_apply_self tab.stats (.fetchAdd .udpActiveFlows 1)).trans (wrappingAdd_eq fits)

theorem activeFlows_recordUdpFlowClose (tab : UdpSessionTable) (ref : SessionRef) (id : Nat) :
    (tab.recordUdpFlowClose ref id).activeFlows = tab.activeFlows - 1 :=
  PortStats.load_apply_self tab.stats (.saturatingDecrement .udpActiveFlows)

theorem activeFlows_addUdpIn (tab : UdpSessionTable) (payload : Payload) :
    (tab.addUdpIn payload).activeFlows = tab.activeFlows := by
  have other : Counter.udpActiveFlows ≠ (CounterOp.fetchAdd .udpInBytes payload.length).counter :=
    nofun
  exact PortStats.load_apply_of_ne tab.stats other

/-- What the gauge shows after `lost` swallowed closes. -/
def Shows (lost : Nat) (tab : UdpSessionTable) : Prop :=
  tab.activeFlows + tab.history.closes.length = tab.history.opened.length + lost

theorem Shows.step {lost : Nat} {a : Action Choice Env} {q : Pool UdpSessionTable Task}
    (before : Shows lost p.shared) (fits : wrapsOpen p a = false)
    (taken : machine.step p a = some q) : Shows (lost + (swallowsClose p a).toNat) q.shared := by
  refine Program.machine_cases (P := program) (motive := fun a q => wrapsOpen p a = false →
    Shows (lost + (swallowsClose p a).toNat) q.shared) ?_ ?_ taken fits
  · intro i k t tab t' new found own fits
    unfold Shows at before ⊢
    cases step_iff.mp own with
    | @flowOpen call ref =>
        simp [wrapsOpen, found] at fits
        rw [activeFlows_recordUdpFlowOpen _ _ (by omega)]
        simp [swallowsClose, found]
        omega
    | @flowClose ref id caller =>
        rw [activeFlows_recordUdpFlowClose]
        by_cases zero : p.shared.activeFlows = 0
        · simp [swallowsClose, found, zero] at before ⊢
          omega
        · simp [swallowsClose, found, zero]
          omega
    | addUdpIn =>
        rw [activeFlows_addUdpIn]
        simpa [swallowsClose, found] using before
    | _ => simpa [swallowsClose, found, activeFlows] using before
  · intro e tab new own _
    cases e <;> cases own <;> exact before

/-- At rest the gauge exceeds the size of the map by the swallowed closes. -/
theorem activeFlows_eq {as : List (Action Choice Env)}
    (complete : machine.run (start idleTimeout port now) as = some p)
    (fits : machine.Along (fun p a => wrapsOpen p a = false) (start idleTimeout port now) as)
    (rest : ∀ t ∈ p.threads, t.stage = .resting) :
    p.shared.activeFlows = p.shared.sessions.entries.length +
      machine.count swallowsClose (start idleTimeout port now) as := by
  have reached : machine.Reachable (start idleTimeout port now) p := ⟨as, complete⟩
  have shows := Machine.invariant_count (P := fun n p => Shows n p.shared)
    (fun _ _ _ _ before fits taken => before.step fits taken) (n := 0)
    (by simp [Shows, activeFlows, start, new, History.empty]) fits complete
  have filed := mapped_add_removed reached fun _ => true
  have opened := opened_add_owes reached fun _ => true
  have closed := closes_add_owes reached fun _ => true
  have noOpen : weight (owesFlowOpen fun _ => true) p.threads = 0 :=
    weight_eq_zero_iff.mpr fun t member => by simp [owesFlowOpen, rest t member]
  have noClose : weight (owesFlowClose fun _ => true) p.threads = 0 :=
    weight_eq_zero_iff.mpr fun t member => by simp [owesFlowClose, rest t member]
  simp only [Shows, mapped, List.countP_true, List.length_map] at shows filed opened closed
  omega

/-- At rest the gauge is the number of sessions in the table exactly when no close
was swallowed on the way. -/
theorem activeFlows_eq_size_iff {as : List (Action Choice Env)}
    (complete : machine.run (start idleTimeout port now) as = some p)
    (fits : machine.Along (fun p a => wrapsOpen p a = false) (start idleTimeout port now) as)
    (noCall : ∀ t ∈ p.threads, t.inGetOrCreate = false)
    (noRemoval : ∀ t ∈ p.threads, t.inRemoveSession = false) :
    p.shared.activeFlows = p.shared.sessions.entries.length ↔
      machine.Along (fun p a => swallowsClose p a = false) (start idleTimeout port now) as := by
  rw [← Machine.count_eq_zero_iff complete, activeFlows_eq complete fits fun t member =>
    stage_eq_resting (noCall t member) (noRemoval t member)]
  omega

/-- A call inserts its session; a second later, before the call raises the gauge, a
cleanup tick finds the session idle and removes it; then the call goes on. -/
def overtaken : List (Action Choice Env) :=
  let source : SocketAddr := .v4 0 4000
  [.env (.getOrCreate ⟨source, none⟩), .env .cleanupLoop] ++ List.replicate 5 (.thread 0 .go) ++
    [.env (.advance 1), .thread 1 .go, .thread 1 .go, .thread 1 (.visit source)] ++
    List.replicate 5 (.thread 1 .go) ++ List.replicate 2 (.thread 0 .go)

theorem overtaken_accepted : (machine.run (start (.fromSecs 1) 4000 100) overtaken).isSome := by
  decide

/-- The gauge then stays at one although the table is empty. -/
theorem overtaken_leaves_gauge :
    ∃ p, machine.Reachable (start (.fromSecs 1) 4000 100) p ∧
      (∀ t ∈ p.threads, t.inGetOrCreate = false) ∧ (∀ t ∈ p.threads, t.inRemoveSession = false) ∧
      p.shared.sessions.entries = [] ∧ p.shared.activeFlows = 1 :=
  ⟨_, Machine.reachable_get overtaken_accepted, by decide, by decide, by decide, by decide⟩

theorem activeFlows_overtaken :
    let p := (machine.run (start (.fromSecs 1) 4000 100) overtaken).get overtaken_accepted
    p.shared.activeFlows = p.shared.sessions.entries.length ↔
      machine.Along (fun p a => swallowsClose p a = false) (start (.fromSecs 1) 4000 100)
        overtaken := by
  have complete := (Option.some_get overtaken_accepted).symm
  exact activeFlows_eq_size_iff complete ((Machine.count_eq_zero_iff complete).mp (by decide))
    (by decide) (by decide)

end RangePorter.UdpSessionTable
