import RangePorter.UdpSession.Accounting

/-!
# The life of a session

From its insertion to its close every session goes through the same events, each
of them once. The laws of the accounts give the counts; what is left to show is
that a call that lost the race for an entry never inserts the session it
allocated, and that a sweep of `shutdown_all` which no `get_or_create` call
overlaps leaves the table empty.
-/

namespace RangePorter.UdpSessionTable

open Interleaving

variable {idleTimeout : Duration} {port now : Nat} {p : Pool UdpSessionTable Task}

/-! ### Losing the race for an entry -/

/-- The session is allocated, not in the map, and no task will put it there. -/
def Discarded (own : SessionRef) (p : Pool UdpSessionTable Task) : Prop :=
  own < p.shared.heap.length ∧
    Bounded (fun tab => tab.history.inserted.count own) (fun _ => 0) (atEntry (· == own)) p

theorem Discarded.step {own : SessionRef} {a : Action Choice Env} {q : Pool UdpSessionTable Task}
    (before : Discarded own p) (taken : machine.step p a = some q) : Discarded own q := by
  obtain ⟨allocated, never⟩ := before
  refine Program.machine_cases (P := program) (motive := fun _ q => Discarded own q) ?_ ?_ taken
  · intro i k t tab t' new found step
    have step := step_iff.mp step
    constructor
    · cases step with
      | new =>
          simpa using Nat.lt_succ_of_lt allocated
      | _ => simpa using allocated
    · refine never.thread found ?_
      cases step with
      | new =>
          have other : p.shared.heap.length ≠ own := Nat.ne_of_gt allocated
          simp [atEntry, other]
      | entryVacant =>
          simp [atEntry, List.count_append, List.count_singleton]
      | _ => simp [atEntry]
  · intro e tab new step
    cases e <;> cases step <;> exact ⟨allocated, never.env (by simp [atEntry])⟩

theorem Discarded.run {own : SessionRef} {as : List (Action Choice Env)}
    {q : Pool UdpSessionTable Task} (before : Discarded own p)
    (complete : machine.run p as = some q) : Discarded own q :=
  Machine.invariant_run (P := Discarded own) (fun _ _ _ before taken => before.step taken)
    before complete

/-- A discarded session has no flow record and no reply task. -/
theorem Discarded.unused {own : SessionRef} (discarded : Discarded own p)
    (reached : machine.Reachable (start idleTimeout port now) p) :
    own ∉ p.shared.history.inserted ∧ own ∉ p.shared.history.opened ∧
      own ∉ p.shared.history.spawned := by
  have never := discarded.2
  have opened := opened_add_owes reached (· == own)
  have spawned := spawned_add_owes reached (· == own)
  simp only [Bounded, List.count] at never
  refine ⟨?_, ?_, ?_⟩ <;> rw [← List.count_eq_zero, List.count] <;> omega

/-- The call has found `ref` in the map, although it has a session of its own. -/
inductive Loses (call : Call) (own ref : SessionRef) : Task → Prop where
  | touching (epoch : Option Nat) :
      Loses call own ref (.touch ref epoch (.getOrCreate call (some own)))
  | returned (other : own ≠ ref) : Loses call own ref (.returned call (some own) (some ref))

theorem Loses.resting {call : Call} {own ref : SessionRef} {t : Task}
    (loses : Loses call own ref t) : t.stage = .resting := by
  cases loses <;> rfl

theorem inserted_of_mapped (reached : machine.Reachable (start idleTimeout port now) p)
    {ref : SessionRef} (filed : ref ∈ mapped p.shared) : ref ∈ p.shared.history.inserted := by
  have balance := mapped_add_removed reached (· == ref)
  have positive := List.count_pos_iff.mpr filed
  rw [← List.count_pos_iff]
  simp only [List.count] at positive ⊢
  omega

theorem not_loses_removeResume (call : Call) (own ref : SessionRef) (caller : RemoveCaller) :
    ¬ Loses call own ref caller.resume :=
  RemoveCaller.resume_cases (fun _ _ _ _ => nofun) nofun nofun

theorem loses_return {call call' : Call} {own ref ref' : SessionRef} {own' : Option SessionRef}
    (loses : Loses call own ref (call'.return own' ref')) :
    call' = call ∧ own' = some own ∧ ref' = ref ∧ own ≠ ref := by
  unfold Call.return at loses
  split at loses
  · cases loses
  · cases loses with
    | returned other => exact ⟨rfl, rfl, rfl, other⟩

/-- A call starts to lose only at the entry; the session it then works on is in
the map. -/
theorem Step.loses {tab tab' : UdpSessionTable} {t t' : Task} {k : Choice} {new : List Task}
    (taken : Step tab t k tab' t' new) {call : Call} {own ref : SessionRef}
    (loses : Loses call own ref t') :
    Loses call own ref t ∨
      t = .getOrCreate call (.entry own) ∧ tab.sessions.lookup call.source = some ref ∧
        tab' = tab ∧ new = [] := by
  cases taken with
  | entryOccupied occupied =>
      cases loses with
      | touching => exact .inr ⟨rfl, occupied, rfl, rfl⟩
  | touchNow =>
      cases loses with
      | touching => exact .inl (.touching _)
  | @touchStore ref' epoch caller =>
      cases caller with
      | getOrCreate =>
          obtain ⟨rfl, rfl, rfl, -⟩ := loses_return loses
          exact .inl (.touching _)
      | forward => cases loses
      | replyLoop => cases loses
  | spawn =>
      obtain ⟨-, same, rfl, other⟩ := loses_return loses
      exact absurd (Option.some.inj same).symm other
  | removeAbsent | removeOther | markAgain | flowClose =>
      exact absurd loses (not_loses_removeResume call own ref _)
  | @scanEnd sweep found =>
      exact absurd loses (not_loses_removeResume _ _ _ (.sweeping sweep found))
  | _ => cases loses

theorem Step.inserted_mono {tab tab' : UdpSessionTable} {t t' : Task} {k : Choice}
    {new : List Task} (taken : Step tab t k tab' t' new) {ref : SessionRef}
    (inserted : ref ∈ tab.history.inserted) : ref ∈ tab'.history.inserted := by
  cases taken with
  | entryVacant => exact List.mem_append_left _ inserted
  | _ => exact inserted

/-- The task that tried the entry was the only one that could insert its session. -/
theorem discarded_of_occupied (reached : machine.Reachable (start idleTimeout port now) p)
    {i : Nat} {call : Call} {own : SessionRef} {t' : Task}
    (found : p.threads[i]? = some (.getOrCreate call (.entry own)))
    (resting : t'.stage = .resting) :
    Discarded own ⟨p.shared, p.threads.set i t' ++ []⟩ := by
  obtain ⟨id, known⟩ := (identified reached).knows.get found
  obtain ⟨s, session, -, -⟩ := session_of_identity known
  refine ⟨(List.getElem?_eq_some_iff.mp session).1, ?_⟩
  have tried := inserted_add_atEntry_le reached own
  have once := List.nodup_iff_count_le_one.mp (List.nodup_range (n := p.shared.heap.length)) own
  have exchange := weight_set (atEntry (· == own)) t' found
  simp only [atEntry, resting, stage_getOrCreate, BEq.rfl, if_true] at exchange
  simp only [Bounded, List.append_nil]
  omega

/-- The loser of a race works on the winner's session, and its own is discarded. -/
theorem loser_discards (reached : machine.Reachable (start idleTimeout port now) p) :
    ∀ t ∈ p.threads, ∀ call own ref, Loses call own ref t →
      Discarded own p ∧ ref ∈ p.shared.history.inserted := by
  refine Program.reachable_induction (J := fun p => ∀ t ∈ p.threads, ∀ call own ref,
    Loses call own ref t → Discarded own p ∧ ref ∈ p.shared.history.inserted) reached
    (by simp [start]) ?_ ?_
  · intro p i k t tab t' new reached before found taken u member call own ref loses
    have pooled := Program.machine_thread_iff.mpr ⟨t, tab, t', new, found, taken, rfl⟩
    have step := step_iff.mp taken
    have kept : Discarded own p ∧ ref ∈ p.shared.history.inserted →
        Discarded own ⟨tab, p.threads.set i t' ++ new⟩ ∧ ref ∈ tab.history.inserted :=
      fun h => ⟨h.1.step pooled, step.inserted_mono h.2⟩
    rcases List.mem_append.mp member with old | spawned
    · rcases List.mem_or_eq_of_mem_set old with old | rfl
      · exact kept (before u old call own ref loses)
      · rcases step.loses loses with loses | ⟨rfl, occupied, rfl, rfl⟩
        · exact kept (before t (List.mem_of_getElem? found) call own ref loses)
        · exact ⟨discarded_of_occupied reached found loses.resting,
            inserted_of_mapped reached (mem_mapped occupied)⟩
    · obtain ⟨ref', rfl⟩ := step.spawned spawned
      cases loses
  · intro p e tab new reached before taken u member call own ref loses
    have pooled := Program.machine_env_iff.mpr ⟨tab, new, taken, rfl⟩
    rcases List.mem_append.mp member with old | spawned
    · obtain ⟨discarded, inserted⟩ := before u old call own ref loses
      exact ⟨discarded.step pooled, by cases e <;> cases taken <;> exact inserted⟩
    · cases e <;> cases taken <;> simp at spawned <;> subst spawned <;> cases loses

/-! ### Sweeping the table at shutdown -/

/-- The id of the session that is filed under a source. -/
def current (tab : UdpSessionTable) (source : SocketAddr) : Option Nat :=
  (tab.sessions.lookup source).bind fun ref => (tab.identity ref).map Prod.snd

theorem visit_shutdownAll (tab : UdpSessionTable) (key : SocketAddr) :
    tab.visit .shutdownAll key = (tab.current key).toList.map fun id => (key, id) := by
  unfold visit current identity
  cases tab.sessions.lookup key with
  | none => rfl
  | some ref =>
      rw [Option.bind_some, Option.bind_some]
      cases tab.heap[ref]? with
      | none => rfl
      | some s => rfl

/-- Without a `get_or_create` call the map only loses entries. -/
theorem Step.current {tab tab' : UdpSessionTable} {t t' : Task} {k : Choice} {new : List Task}
    (taken : Step tab t k tab' t' new) (outside : t.inGetOrCreate = false)
    {source : SocketAddr} {id : Nat} (still : tab'.current source = some id) :
    tab.current source = some id := by
  have same : ∀ ref, tab'.identity ref = tab.identity ref := by
    refine taken.identity_eq ?_
    rintro call upstream id rfl
    cases outside
  unfold UdpSessionTable.current at still ⊢
  simp only [same] at still
  cases taken with
  | @remove other =>
      by_cases same : source = other
      · subst same
        simp at still
      · simpa [AList.lookup_erase_ne same] using still
  | getHit | getMiss | connect | connectFails | fetchId | new | entryOccupied | entryVacant
  | flowOpen | spawn => cases outside
  | _ => exact still

/-- Every session in the map is under a key still to be visited, or on the list. -/
def Remains (tab : UdpSessionTable) (todo : List SocketAddr) (found : List (SocketAddr × Nat)) :
    Prop := ∀ source id, tab.current source = some id → source ∈ todo ∨ (source, id) ∈ found

/-- The part of the map that a sweep of `shutdown_all` has still to remove. -/
def Sweeps (tab : UdpSessionTable) : Task → Prop
  | .scan .shutdownAll none _ => True
  | .scan .shutdownAll (some todo) found => tab.Remains todo found
  | .removeIf source id (.sweeping .shutdownAll rest) => tab.Remains [] ((source, id) :: rest)
  | .closing _ _ _ (.sweeping .shutdownAll rest) => tab.Remains [] rest
  | .finished => tab.Remains [] []
  | _ => False

theorem Sweeps.mono {tab tab' : UdpSessionTable} {t : Task} (sweeps : tab.Sweeps t)
    (fewer : ∀ source id, tab'.current source = some id → tab.current source = some id) :
    tab'.Sweeps t := by
  unfold Sweeps at sweeps ⊢
  split at sweeps
  · trivial
  all_goals first
    | exact fun source id still => sweeps source id (fewer source id still)
    | exact sweeps

theorem sweeps_drain {tab : UdpSessionTable} {rest : List (SocketAddr × Nat)}
    (remains : tab.Remains [] rest) : tab.Sweeps (Sweep.shutdownAll.drain rest) := by
  cases rest <;> exact remains

theorem sweeps_scan {tab : UdpSessionTable} {sweep : Sweep} {todo : Option (List SocketAddr)}
    {found : List (SocketAddr × Nat)} (sweeps : tab.Sweeps (.scan sweep todo found)) :
    sweep = .shutdownAll ∧ ∀ keys, todo = some keys → tab.Remains keys found := by
  cases sweep with
  | cleanup => cases todo <;> cases sweeps
  | shutdownAll =>
      cases todo with
      | none => exact ⟨rfl, nofun⟩
      | some todo => exact ⟨rfl, fun _ same => Option.some.inj same ▸ sweeps⟩

theorem sweeps_removeIf {tab : UdpSessionTable} {source : SocketAddr} {id : Nat}
    {caller : RemoveCaller} (sweeps : tab.Sweeps (.removeIf source id caller)) :
    ∃ rest, caller = .sweeping .shutdownAll rest ∧ tab.Remains [] ((source, id) :: rest) := by
  cases caller with
  | sweeping sweep rest =>
      cases sweep with
      | shutdownAll => exact ⟨rest, rfl, sweeps⟩
      | cleanup => cases sweeps
  | _ => cases sweeps

theorem sweeps_closing {tab : UdpSessionTable} {ref : SessionRef} {id : Nat} {next : Closing}
    {caller : RemoveCaller} (sweeps : tab.Sweeps (.closing ref id next caller)) :
    ∃ rest, caller = .sweeping .shutdownAll rest ∧ tab.Remains [] rest := by
  cases caller with
  | sweeping sweep rest =>
      cases sweep with
      | shutdownAll => exact ⟨rest, rfl, sweeps⟩
      | cleanup => cases sweeps
  | _ => cases sweeps

theorem Remains.tail {tab : UdpSessionTable} {source : SocketAddr} {id : Nat}
    {rest : List (SocketAddr × Nat)} (remains : tab.Remains [] ((source, id) :: rest))
    (gone : tab.current source ≠ some id) : tab.Remains [] rest := by
  intro source' id' still
  rcases remains source' id' still with todo | member
  · exact .inl todo
  · rcases List.mem_cons.mp member with same | member
    · cases same
      exact absurd still gone
    · exact .inr member

theorem Remains.visit {tab : UdpSessionTable} {todo : List SocketAddr}
    {found : List (SocketAddr × Nat)} (remains : tab.Remains todo found) (key : SocketAddr) :
    tab.Remains (todo.erase key) (found ++ tab.visit .shutdownAll key) := by
  intro source id still
  rcases remains source id still with member | member
  · by_cases same : source = key
    · subst same
      refine .inr (List.mem_append_right _ ?_)
      rw [visit_shutdownAll, still]
      exact List.mem_singleton.mpr rfl
    · exact .inl ((List.mem_erase_of_ne same).mpr member)
  · exact .inr (List.mem_append_left _ member)

theorem remains_keys (tab : UdpSessionTable) (found : List (SocketAddr × Nat)) :
    tab.Remains tab.sessions.keys found := by
  intro source id still
  obtain ⟨ref, filed, -⟩ := Option.bind_eq_some_iff.mp still
  exact .inl (AList.mem_keys.mp (AList.lookup_isSome.mp (by rw [filed]; rfl)))

/-- The sweep's own steps: it lists the keys, visits them and removes what it found. -/
theorem Step.sweeps {tab tab' : UdpSessionTable} {t t' : Task} {k : Choice} {new : List Task}
    (taken : Step tab t k tab' t' new) (sweeps : tab.Sweeps t) : tab'.Sweeps t' := by
  have outside : t.inGetOrCreate = false := by
    unfold Sweeps at sweeps
    split at sweeps <;> first | rfl | cases sweeps
  have kept : tab'.Sweeps t := sweeps.mono fun source id => taken.current outside
  cases taken with
  | removeAbsent absent =>
      obtain ⟨rest, rfl, remains⟩ := sweeps_removeIf kept
      exact sweeps_drain (remains.tail (by simp [UdpSessionTable.current, absent]))
  | removeOther present session other =>
      obtain ⟨rest, rfl, remains⟩ := sweeps_removeIf kept
      exact sweeps_drain (remains.tail (by
        simp [UdpSessionTable.current, UdpSessionTable.identity, present, session, other]))
  | remove present session same =>
      obtain ⟨rest, rfl, remains⟩ := sweeps_removeIf kept
      exact remains.tail (by simp [UdpSessionTable.current])
  | cancel | markFirst =>
      obtain ⟨rest, rfl, remains⟩ := sweeps_closing kept
      exact remains
  | markAgain | flowClose =>
      obtain ⟨rest, rfl, remains⟩ := sweeps_closing kept
      exact sweeps_drain remains
  | scanStart =>
      obtain ⟨rfl, -⟩ := sweeps_scan sweeps
      exact remains_keys tab _
  | @scanVisit _ todo _ key =>
      obtain ⟨rfl, remains⟩ := sweeps_scan sweeps
      exact (remains todo rfl).visit key
  | scanEnd =>
      obtain ⟨rfl, remains⟩ := sweeps_scan sweeps
      exact sweeps_drain (remains [] rfl)
  | _ => cases sweeps

theorem Step.outside {tab tab' : UdpSessionTable} {t t' : Task} {k : Choice} {new : List Task}
    (taken : Step tab t k tab' t' new) (outside : t.inGetOrCreate = false) :
    t'.inGetOrCreate = false := by
  cases taken with
  | getHit | getMiss | connect | connectFails | fetchId | new | entryOccupied | entryVacant
  | flowOpen | spawn => cases outside
  | @touchNow _ caller =>
      cases caller with
      | getOrCreate => cases outside
      | _ => rfl
  | touchStore | removeAbsent | removeOther | markAgain | flowClose | scanEnd => simp
  | _ => rfl

/-- A `shutdown_all` call that no `get_or_create` call overlaps. -/
structure ShuttingDown (i : Nat) (p : Pool UdpSessionTable Task) : Prop where
  outside : AllThreads (fun _ t => t.inGetOrCreate = false) p
  sweeps : ∃ t, p.threads[i]? = some t ∧ p.shared.Sweeps t

theorem ShuttingDown.step {i : Nat} {a : Action Choice Env} {q : Pool UdpSessionTable Task}
    (before : ShuttingDown i p) (closed : ∀ call, a ≠ .env (.getOrCreate call))
    (taken : machine.step p a = some q) : ShuttingDown i q := by
  obtain ⟨outside, t, found, sweeps⟩ := before
  have bound := (List.getElem?_eq_some_iff.mp found).1
  refine Program.machine_cases (P := program)
    (motive := fun a q => (∀ call, a ≠ .env (.getOrCreate call)) → ShuttingDown i q) ?_ ?_ taken
    closed
  · intro j k u tab u' new found' own _
    have step := step_iff.mp own
    have free := outside.get found'
    refine ⟨outside.thread (step.outside free) ?_ fun _ _ free => free, ?_⟩
    · intro v member
      obtain ⟨ref, rfl⟩ := step.spawned member
      rfl
    · rw [List.getElem?_append_left (by simpa using bound)]
      by_cases same : j = i
      · subst same
        cases found.symm.trans found'
        exact ⟨u', by simp [bound], step.sweeps sweeps⟩
      · exact ⟨t, by simp [same, found], sweeps.mono fun source id => step.current free⟩
  · intro e tab new own closed
    cases e with
    | getOrCreate call => exact absurd rfl (closed call)
    | _ =>
        cases own
        refine ⟨outside.env (by simp [Task.inGetOrCreate]) fun _ _ free => free, t, ?_, sweeps⟩
        rw [List.getElem?_append_left bound]
        exact found

theorem empty_of_remains {tab : UdpSessionTable} (filed : tab.Filed)
    (remains : tab.Remains [] []) : tab.sessions = ∅ := by
  refine AList.ext (List.eq_nil_iff_forall_not_mem.mpr ?_)
  rintro ⟨source, ref⟩ member
  have found := AList.mem_lookup_iff.mpr member
  obtain ⟨id, known⟩ := filed source ref found
  rcases remains source id (by simp [current, Option.mem_def.mp found, known]) with none | none <;>
    cases none

/-- Once `shutdown_all` has returned the table is empty, and it stays empty. -/
theorem shutdown_all_empties (reached : machine.Reachable (start idleTimeout port now) p)
    (outside : ∀ t ∈ p.threads, t.inGetOrCreate = false) {q r : Pool UdpSessionTable Task}
    {as : List (Action Choice Env)} (called : machine.step p (.env .shutdownAll) = some q)
    (complete : machine.run q as = some r) (closed : ∀ a ∈ as, ∀ call, a ≠ .env (.getOrCreate call))
    (returned : r.threads[p.threads.length]? = some .finished) : r.shared.sessions = ∅ := by
  have begun : ShuttingDown p.threads.length q := by
    obtain ⟨tab, new, own, rfl⟩ := Program.machine_env_iff.mp called
    cases own
    exact ⟨AllThreads.env (p := p) outside (by simp [Task.inGetOrCreate]) fun _ _ free => free,
      .scan .shutdownAll none [], by simp, trivial⟩
  have ended : ShuttingDown p.threads.length r :=
    Machine.invariant_along (fun _ _ _ before closed taken => before.step closed taken) begun
      (Machine.along_of_forall closed q) complete
  obtain ⟨t, found, sweeps⟩ := ended.sweeps
  cases found.symm.trans returned
  exact empty_of_remains (identified ((reached.step called).run complete)).filed sweeps

/-! ### The whole life -/

/-- Once its call is past the entry, an inserted session has one flow record and
one reply task. -/
theorem opened_and_spawned_once (reached : machine.Reachable (start idleTimeout port now) p)
    {ref : SessionRef} (inserted : ref ∈ p.shared.history.inserted)
    (past : ∀ t ∈ p.threads,
      t.stage ≠ .creating (.flowOpen ref) ∧ t.stage ≠ .creating (.spawn ref)) :
    p.shared.history.opened.count ref = 1 ∧ p.shared.history.spawned.count ref = 1 := by
  have once := inserted_count_le_one reached ref
  have positive := List.count_pos_iff.mpr inserted
  have opened := opened_add_owes reached (· == ref)
  have spawned := spawned_add_owes reached (· == ref)
  have noOpen : weight (owesFlowOpen (· == ref)) p.threads = 0 :=
    weight_eq_zero_iff.mpr fun t member => owesFlowOpen_eq_zero (past t member).1
  have noSpawn : weight (owesSpawn (· == ref)) p.threads = 0 :=
    weight_eq_zero_iff.mpr fun t member => owesSpawn_eq_zero (past t member).2
  simp only [List.count] at once positive ⊢
  omega

/-- Once its removal has run to the end, a session is cancelled and closed once. -/
theorem cancelled_and_closed_once (reached : machine.Reachable (start idleTimeout port now) p)
    {ref : SessionRef} (removed : ref ∈ p.shared.history.removed.map Prod.fst)
    (past : ∀ t ∈ p.threads, ∀ next, t.stage ≠ .closing ref next) :
    (∃ s, p.shared.heap[ref]? = some s ∧ s.shutdown = true) ∧
      (p.shared.history.closes.map Prod.fst).count ref = 1 := by
  have once := removed_count_le_one reached ref
  have positive := List.count_pos_iff.mpr removed
  have cancelled := shutdown_add_owesCancel reached ref
  have closes := closes_add_owes reached (· == ref)
  have noClose : weight (owesFlowClose (· == ref)) p.threads = 0 :=
    weight_eq_zero_iff.mpr fun t member => owesFlowClose_eq_zero (past t member)
  have noCancel :
      weight (owesCancel (· == ref)) p.threads ≤ weight (owesFlowClose (· == ref)) p.threads :=
    weight_le_weight fun t _ => owesCancel_le (· == ref) t
  simp only [List.count] at once positive cancelled ⊢
  refine ⟨?_, by omega⟩
  have set : flagged UdpSession.shutdown p.shared.heap ref = 1 := by omega
  simpa [flagged, Bool.toNat_eq_one, Option.any_eq_true] using set

theorem not_closed_of_mapped (reached : machine.Reachable (start idleTimeout port now) p)
    {ref : SessionRef} (filed : ref ∈ mapped p.shared) :
    ref ∉ p.shared.history.closes.map Prod.fst := by
  have once := inserted_count_le_one reached ref
  have balance := mapped_add_removed reached (· == ref)
  have closes := closes_add_owes reached (· == ref)
  have positive := List.count_pos_iff.mpr filed
  rw [← List.count_eq_zero]
  simp only [List.count] at once positive ⊢
  omega

/-- What the life of every session comes to in a reachable pool. -/
structure ExactlyOnce (p : Pool UdpSessionTable Task) : Prop where
  ids_distinct : (p.shared.heap.map UdpSession.id).Nodup
  one_per_source : p.shared.sessions.keys.Nodup ∧
    ∀ source ref, p.shared.sessions.lookup source = some ref →
      ∃ s, p.shared.heap[ref]? = some s ∧ s.source = source
  /-- A `remove_session` call that carries the id of a session `ref'` does nothing
  to any other session. -/
  stale_ids_harmless :
    ∀ e ∈ p.shared.history.removed ++ p.shared.history.cancelled ++ p.shared.history.closes,
      ∀ ref' s, p.shared.heap[ref']? = some s → s.id = e.2 → e.1 = ref'
  inserted_once : ∀ ref, p.shared.history.inserted.count ref ≤ 1
  opened_and_spawned_once : ∀ ref ∈ p.shared.history.inserted,
    (∀ t ∈ p.threads, t.stage ≠ .creating (.flowOpen ref) ∧ t.stage ≠ .creating (.spawn ref)) →
      p.shared.history.opened.count ref = 1 ∧ p.shared.history.spawned.count ref = 1
  /-- The loser's session is never inserted, opened or served, now or later; the
  call goes on to return the winner's, which has the call's source. -/
  losers_discard : ∀ t ∈ p.threads, ∀ call own ref, Loses call own ref t →
    (∃ s, p.shared.heap[ref]? = some s ∧ s.source = call.source) ∧
    ref ∈ p.shared.history.inserted ∧
    (∀ k tab t' new, p.shared.step t k = some (tab, t', new) →
      Loses call own ref t' ∨ t' = call.return (some own) ref) ∧
    ∀ as q, machine.run p as = some q → own ∉ q.shared.history.inserted ∧
      own ∉ q.shared.history.opened ∧ own ∉ q.shared.history.spawned
  removed_once : ∀ ref, (p.shared.history.removed.map Prod.fst).count ref ≤ 1
  cancelled_and_closed_once : ∀ ref ∈ p.shared.history.removed.map Prod.fst,
    (∀ t ∈ p.threads, ∀ next, t.stage ≠ .closing ref next) →
      (∃ s, p.shared.heap[ref]? = some s ∧ s.shutdown = true) ∧
        (p.shared.history.closes.map Prod.fst).count ref = 1
  open_in_table : ∀ source ref, p.shared.sessions.lookup source = some ref →
    ref ∉ p.shared.history.closes.map Prod.fst
  /-- A `shutdown_all` call that starts here, when no `get_or_create` call is in
  progress and none is made later, has emptied the table when it returns. -/
  shutdown_empties : (∀ t ∈ p.threads, t.inGetOrCreate = false) →
    ∀ q r as, machine.step p (.env .shutdownAll) = some q → machine.run q as = some r →
      (∀ a ∈ as, ∀ call, a ≠ .env (.getOrCreate call)) →
      r.threads[p.threads.length]? = some .finished → r.shared.sessions = ∅

theorem exactly_once (reached : machine.Reachable (start idleTimeout port now) p)
    (few : p.shared.history.created < u64Size) : ExactlyOnce p where
  ids_distinct := ids_nodup reached few
  one_per_source := by
    refine ⟨AList.keys_nodup _, fun source ref found => ?_⟩
    obtain ⟨id, known⟩ := (identified reached).filed source ref found
    obtain ⟨s, session, same, -⟩ := session_of_identity known
    exact ⟨s, session, same⟩
  stale_ids_harmless e member ref' s session same := by
    obtain ⟨source, known⟩ := (identified reached).carried e member
    exact ref_unique reached few known (same ▸ identity_of_session session)
  inserted_once := inserted_count_le_one reached
  opened_and_spawned_once _ := opened_and_spawned_once reached
  losers_discard := by
    intro t member call own ref loses
    obtain ⟨discarded, inserted⟩ := loser_discards reached t member call own ref loses
    have knows : ∃ id, p.shared.identity ref = some (call.source, id) := by
      have knows := (identified reached).knows t member
      cases loses <;> exact knows
    obtain ⟨id, known⟩ := knows
    obtain ⟨s, session, same, -⟩ := session_of_identity known
    refine ⟨⟨s, session, same⟩, inserted, ?_, ?_⟩
    · intro k tab t' new taken
      cases loses with
      | touching epoch =>
          cases step_iff.mp taken with
          | touchNow => exact .inl (.touching _)
          | touchStore => exact .inr rfl
      | returned => cases step_iff.mp taken
    · intro as q complete
      exact (discarded.run complete).unused (reached.run complete)
  removed_once := removed_count_le_one reached
  cancelled_and_closed_once _ := cancelled_and_closed_once reached
  open_in_table _ _ found := not_closed_of_mapped reached (mem_mapped found)
  shutdown_empties outside _ _ _ := shutdown_all_empties reached outside

/-- Two calls of one source race for the entry; later the winner's session is removed. -/
def race : List (Action Choice Env) :=
  let call : Call := ⟨.v4 0 4000, none⟩
  [.env (.getOrCreate call), .env (.getOrCreate call)] ++
    [0, 1, 0, 1, 0, 1, 0, 1, 0, 1, 0, 1, 0, 1].map (fun i => .thread i .go) ++
    [.env (.removeSession call.source 1)] ++ List.replicate 4 (.thread 3 .go)

theorem race_accepted : (machine.run (start (.fromSecs 60) 4000 100) race).isSome := by decide

theorem exactly_once_race :
    ExactlyOnce ((machine.run (start (.fromSecs 60) 4000 100) race).get race_accepted) :=
  exactly_once (Machine.reachable_get race_accepted) (by decide)

end RangePorter.UdpSessionTable
