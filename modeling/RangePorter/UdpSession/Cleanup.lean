import RangePorter.UdpSession.Accounting

/-!
# What the cleanup loop evicts

A tick reads the clock, lists the sessions that are idle at that reading and then
removes what it has listed, by source and id. It does not look at the session
again. A session that is touched after it was listed is evicted all the same, and who
has touched it then sends a datagram on a session without a reply task (`revived`).
-/

namespace RangePorter.UdpSessionTable

open Interleaving

variable {idleTimeout : Duration} {port now : Nat} {p : Pool UdpSessionTable Task}

/-! ### Listed sessions -/

/-- What a sweep has on its list, each with the clock reading of the tick. -/
def Sweep.listed : Sweep → List (SocketAddr × Nat) → List (Nat × SocketAddr × Nat)
  | .cleanup now, found => found.map fun e => (now, e)
  | .shutdownAll, _ => []

/-- The sessions that the task's cleanup tick has listed and not yet tried to remove. -/
def Task.listed : Task → List (Nat × SocketAddr × Nat)
  | .scan sweep _ found => Sweep.listed sweep found
  | .removeIf source id (.sweeping sweep rest) => Sweep.listed sweep ((source, id) :: rest)
  | .closing _ _ _ (.sweeping sweep rest) => Sweep.listed sweep rest
  | _ => []

theorem listed_drain (sweep : Sweep) (rest : List (SocketAddr × Nat)) :
    (sweep.drain rest).listed = Sweep.listed sweep rest := by
  cases rest with
  | nil => cases sweep <;> rfl
  | cons => rfl

theorem listed_closing (ref : SessionRef) (id : Nat) (next : Closing) (caller : RemoveCaller) :
    (Task.closing ref id next caller).listed = caller.resume.listed := by
  cases caller with
  | sweeping sweep rest => exact (listed_drain sweep rest).symm
  | _ => rfl

theorem listed_removeIf (source : SocketAddr) (id : Nat) (caller : RemoveCaller) :
    caller.resume.listed ⊆ (Task.removeIf source id caller).listed := by
  cases caller with
  | sweeping sweep rest =>
      intro e member
      rw [RemoveCaller.resume, listed_drain] at member
      cases sweep with
      | cleanup => exact List.mem_cons_of_mem _ member
      | shutdownAll => exact member
  | _ => exact List.Subset.refl _

@[simp] theorem listed_return (call : Call) (own : Option SessionRef) (ref : SessionRef) :
    (call.return own ref).listed = [] :=
  Call.return_cases (fun _ _ => rfl) fun _ => rfl

@[simp] theorem listed_touchResume (caller : TouchCaller) (ref : SessionRef) :
    (caller.resume ref).listed = [] := by
  cases caller with
  | getOrCreate => exact listed_return ..
  | forward => rfl
  | replyLoop => rfl

/-! ### Idle sessions -/

/-- The listed session was last active `timeoutSeconds` before the reading. -/
def Idle (tab : UdpSessionTable) (e : Nat × SocketAddr × Nat) : Prop :=
  ∃ (ref : SessionRef) (s : UdpSession), tab.heap[ref]? = some s ∧ (s.source, s.id) = e.2 ∧
    s.lastActiveEpoch + tab.timeoutSeconds ≤ e.1

theorem timeoutSeconds_pos (tab : UdpSessionTable) : 0 < tab.timeoutSeconds := by
  unfold timeoutSeconds
  omega

theorem Step.timeoutSeconds {tab tab' : UdpSessionTable} {t t' : Task} {k : Choice}
    {new : List Task} (taken : Step tab t k tab' t' new) :
    tab'.timeoutSeconds = tab.timeoutSeconds := by
  cases taken <;> rfl

/-- A tick lists idle sessions only. -/
theorem idle_of_visit {tab : UdpSessionTable} {key : SocketAddr} (filed : tab.Filed)
    {e : SocketAddr × Nat} (member : e ∈ tab.visit (.cleanup now) key) : tab.Idle (now, e) := by
  unfold visit at member
  split at member
  · next s filedSession =>
      obtain ⟨ref, found, session⟩ := Option.bind_eq_some_iff.mp filedSession
      split at member
      · next selected =>
          obtain ⟨id, known⟩ := filed key ref found
          rw [identity_of_session session, Option.some.injEq, Prod.mk.injEq] at known
          rw [List.mem_singleton.mp member]
          have positive := tab.timeoutSeconds_pos
          simp only [selects, decide_eq_true_eq] at selected
          exact ⟨ref, s, session, by rw [known.1], by omega⟩
      · cases member
  · cases member

/-- The step stores this epoch in the session with this source and id. -/
def Stores (tab : UdpSessionTable) (t : Task) (e : SocketAddr × Nat) (epoch : Nat) : Prop :=
  ∃ ref caller, t = .touch ref (some epoch) caller ∧ tab.identity ref = some e

theorem getElem?_modify_of_session {heap : List UdpSession} {ref : SessionRef} {s : UdpSession}
    (session : heap[ref]? = some s) (ref' : SessionRef) (f : UdpSession → UdpSession) :
    (heap.modify ref' f)[ref]? = some (if ref' = ref then f s else s) := by
  rw [List.getElem?_modify, session]
  split <;> rfl

/-- A listed session stays idle unless a fresh epoch is stored in it. -/
theorem Step.idle {tab tab' : UdpSessionTable} {t t' : Task} {k : Choice} {new : List Task}
    (taken : Step tab t k tab' t' new) {e : Nat × SocketAddr × Nat} (idle : tab.Idle e)
    (kept : ∀ epoch, tab.Stores t e.2 epoch → epoch + tab.timeoutSeconds ≤ e.1) :
    tab'.Idle e := by
  obtain ⟨ref, s, session, named, old⟩ := idle
  have bound := taken.timeoutSeconds
  cases taken with
  | new =>
      have low := (List.getElem?_eq_some_iff.mp session).1
      exact ⟨ref, s, by simpa [List.getElem?_append_left low] using session, named, old⟩
  | @touchStore ref' epoch caller =>
      refine ⟨ref, _, getElem?_modify_of_session session ref' _, ?_, ?_⟩
      · split <;> exact named
      · split
        · next same =>
            exact kept epoch ⟨ref', caller, rfl, by rw [same, identity_of_session session, named]⟩
        · exact old
  | cancel | markFirst | markAgain =>
      refine ⟨ref, _, getElem?_modify_of_session session _ _, ?_, ?_⟩
      · split <;> exact named
      · split <;> exact old
  | _ => exact ⟨ref, s, session, named, old⟩

/-- A task's list grows only when its scan comes to an idle session. -/
theorem Step.listed {tab tab' : UdpSessionTable} {t t' : Task} {k : Choice} {new : List Task}
    (taken : Step tab t k tab' t' new) (filed : tab.Filed) {e : Nat × SocketAddr × Nat}
    (member : e ∈ t'.listed) : e ∈ t.listed ∨ tab'.Idle e := by
  cases taken with
  | touchStore => simp at member
  | spawn => simp at member
  | removeAbsent | removeOther => exact .inl (listed_removeIf _ _ _ member)
  | @remove source id caller =>
      rw [listed_closing] at member
      exact .inl (listed_removeIf source id caller member)
  | cancel | markFirst =>
      rw [listed_closing] at member ⊢
      exact .inl member
  | markAgain | flowClose =>
      rw [listed_closing]
      exact .inl member
  | scanEnd =>
      rw [listed_drain] at member
      exact .inl member
  | scanStart => exact .inl member
  | @scanVisit sweep todo found key =>
      cases sweep with
      | shutdownAll => cases member
      | cleanup now =>
          simp only [Task.listed, Sweep.listed, List.map_append, List.mem_append] at member
          rcases member with old | visited
          · exact .inl old
          · obtain ⟨pair, pairVisited, rfl⟩ := List.mem_map.mp visited
            exact .inr (idle_of_visit filed pairVisited)
  | _ => cases member

/-! ### Evictions -/

/-- The action stores an epoch in a session that a pending tick has listed, and the
epoch is fresh at that tick's reading. -/
def revives (p : Pool UdpSessionTable Task) : Action Choice Env → Bool
  | .thread i .go =>
      match p.threads[i]? with
      | some (.touch ref (some epoch) _) =>
          p.threads.any fun t => t.listed.any fun e =>
            p.shared.identity ref = some e.2 && e.1 < epoch + p.shared.timeoutSeconds
      | _ => false
  | _ => false

/-- The action stores an epoch older than the one it replaces. -/
def rewinds (p : Pool UdpSessionTable Task) : Action Choice Env → Bool
  | .thread i .go =>
      match p.threads[i]? with
      | some (.touch ref (some epoch) _) =>
          p.shared.heap[ref]?.any fun s => epoch < s.lastActiveEpoch
      | _ => false
  | _ => false

/-- Pending ticks list idle sessions, and those evicted so far were idle. -/
structure EvictsIdle (p : Pool UdpSessionTable Task) : Prop where
  listed : AllThreads (fun tab t => ∀ e ∈ t.listed, tab.Idle e) p
  evicted : ∀ ev ∈ p.shared.history.evictions,
    ev.lastActiveEpoch + p.shared.timeoutSeconds ≤ ev.now

theorem old_of_not_revives {i : Nat} {t u : Task} (found : p.threads[i]? = some t)
    (kept : revives p (.thread i .go) = false) (member : u ∈ p.threads)
    {e : Nat × SocketAddr × Nat} (listed : e ∈ u.listed) {epoch : Nat}
    (stores : p.shared.Stores t e.2 epoch) : epoch + p.shared.timeoutSeconds ≤ e.1 := by
  obtain ⟨ref, caller, rfl, known⟩ := stores
  by_contra fresh
  have revived : revives p (.thread i .go) = true := by
    simp only [revives, found, List.any_eq_true]
    exact ⟨u, member, e, listed, by simpa [known] using fresh⟩
  rw [revived] at kept
  cases kept

/-- What a tick is about to remove is idle, and so is the session it removes. -/
theorem idle_of_remove (reached : machine.Reachable (start idleTimeout port now) p)
    (few : p.shared.history.created < u64Size) {source : SocketAddr} {ref : SessionRef}
    {s : UdpSession} (session : p.shared.heap[ref]? = some s) {reading : Nat}
    (idle : p.shared.Idle (reading, source, s.id)) :
    s.lastActiveEpoch + p.shared.timeoutSeconds ≤ reading := by
  obtain ⟨ref', s', session', named, old⟩ := idle
  rw [Prod.mk.injEq] at named
  have same : ref = ref' := ref_unique reached few (identity_of_session session)
    (named.2 ▸ identity_of_session session')
  subst same
  cases session.symm.trans session'
  exact old

theorem EvictsIdle.thread (reached : machine.Reachable (start idleTimeout port now) p)
    (before : EvictsIdle p) {i : Nat} {k : Choice} {t t' : Task} {tab : UdpSessionTable}
    {new : List Task} (found : p.threads[i]? = some t) (step : Step p.shared t k tab t' new)
    (few : p.shared.history.created < u64Size) (kept : revives p (.thread i k) = false) :
    EvictsIdle ⟨tab, p.threads.set i t' ++ new⟩ := by
  have facts := identified reached
  have still : ∀ u ∈ p.threads, ∀ e ∈ u.listed, p.shared.Idle e → tab.Idle e := by
    intro u member e listed idle
    refine step.idle idle fun epoch stores => ?_
    obtain ⟨ref, caller, rfl, known⟩ := stores
    cases step with
    | touchStore => exact old_of_not_revives found kept member listed ⟨ref, caller, rfl, known⟩
  constructor
  · refine before.listed.thread ?_ ?_ fun u member idle e listed =>
      still u member e listed (idle e listed)
    · intro e member
      rcases step.listed facts.filed member with old | idle
      · exact still t (List.mem_of_getElem? found) e old (before.listed.get found e old)
      · exact idle
    · intro u member
      obtain ⟨ref, rfl⟩ := step.spawned member
      exact nofun
  · intro ev member
    rw [step.timeoutSeconds]
    cases step with
    | @remove source id caller ref s present session same =>
        rcases List.mem_append.mp member with old | evicted
        · exact before.evicted ev old
        · subst same
          unfold evictionBy at evicted
          split at evicted
          · next reading rest =>
              rw [List.mem_singleton.mp evicted]
              exact idle_of_remove reached few session
                (before.listed.get found _ (List.mem_cons_self ..))
          · cases evicted
    | _ => exact before.evicted ev member

theorem EvictsIdle.env (before : EvictsIdle p) {e : Env} {tab : UdpSessionTable}
    {new : List Task} (taken : p.shared.env e = some (tab, new)) :
    EvictsIdle ⟨tab, p.threads ++ new⟩ := by
  constructor
  · refine before.listed.env ?_ fun u _ idle e' listed => ?_
    · cases e <;> cases taken <;> simp [Task.listed, Sweep.listed]
    · cases e <;> cases taken <;> exact idle e' listed
  · cases e <;> cases taken <;> exact before.evicted

theorem created_mono {a : Action Choice Env} {q : Pool UdpSessionTable Task}
    (taken : machine.step p a = some q) : p.shared.history.created ≤ q.shared.history.created := by
  refine Program.machine_cases (P := program)
    (motive := fun _ q => p.shared.history.created ≤ q.shared.history.created) ?_ ?_ taken
  · intro i k t tab t' new found own
    cases step_iff.mp own <;> simp
  · intro e tab new own
    cases e <;> cases own <;> exact Nat.le_refl _

theorem evictsIdle_of_kept {as : List (Action Choice Env)}
    (complete : machine.run (start idleTimeout port now) as = some p)
    (few : p.shared.history.created < u64Size)
    (kept : machine.Along (fun p a => revives p a = false) (start idleTimeout port now) as) :
    EvictsIdle p := by
  have run := Machine.invariant_along (M := machine)
    (P := fun p => machine.Reachable (start idleTimeout port now) p ∧
      (p.shared.history.created < u64Size → EvictsIdle p)) ?_ ⟨.refl _, fun _ => ?_⟩ kept complete
  · exact run.2 few
  · rintro q a r ⟨reached, before⟩ kept taken
    refine ⟨reached.step taken, fun few => ?_⟩
    have few' := Nat.lt_of_le_of_lt (created_mono taken) few
    refine Program.machine_cases (P := program)
      (motive := fun a r => revives q a = false → EvictsIdle r) ?_ ?_ taken kept
    · intro i k t tab t' new found own kept
      exact (before few').thread reached found (step_iff.mp own) few' kept
    · intro e tab new own _
      exact (before few').env own
  · exact ⟨nofun, nofun⟩

/-! ### Every touch before the eviction -/

/-- The session's epoch is the latest that was stored in it, as it was at every
eviction. -/
structure KeepsLatest (tab : UdpSessionTable) : Prop where
  allocated : ∀ e ∈ tab.history.touches, e.1 < tab.heap.length
  latest : ∀ (ref : SessionRef) (s : UdpSession), tab.heap[ref]? = some s →
    ∀ epoch, (ref, epoch) ∈ tab.history.touches → epoch ≤ s.lastActiveEpoch
  evicted : ∀ ev ∈ tab.history.evictions, ∀ epoch ∈ ev.touches, epoch ≤ ev.lastActiveEpoch

theorem mem_touchesOf {tab : UdpSessionTable} {ref : SessionRef} {epoch : Nat} :
    epoch ∈ tab.touchesOf ref ↔ (ref, epoch) ∈ tab.history.touches := by
  simp [touchesOf, List.mem_map, List.mem_filter]

theorem session_of_modify {heap : List UdpSession} {ref ref' : SessionRef} {s : UdpSession}
    {f : UdpSession → UdpSession} (session : (heap.modify ref' f)[ref]? = some s) :
    ∃ s', heap[ref]? = some s' ∧ s = if ref' = ref then f s' else s' := by
  rw [List.getElem?_modify] at session
  obtain ⟨s', session', same⟩ := Option.map_eq_some_iff.mp session
  exact ⟨s', session', same.symm⟩

theorem allocated_of_touch {tab : UdpSessionTable} {ref : SessionRef} {epoch : Option Nat}
    {caller : TouchCaller} (knows : tab.Knows (.touch ref epoch caller)) :
    ref < tab.heap.length := by
  have known : ∃ e, tab.identity ref = some e := by
    cases caller with
    | getOrCreate =>
        obtain ⟨id, known⟩ := knows
        exact ⟨_, known⟩
    | _ =>
        obtain ⟨source, id, known⟩ := knows
        exact ⟨_, known⟩
  obtain ⟨e, known⟩ := known
  obtain ⟨s, session, -⟩ := session_of_identity known
  exact (List.getElem?_eq_some_iff.mp session).1

theorem Step.keepsLatest {tab tab' : UdpSessionTable} {t t' : Task} {k : Choice}
    {new : List Task} (taken : Step tab t k tab' t' new) (before : tab.KeepsLatest)
    (knows : tab.Knows t)
    (forward : ∀ ref epoch caller s, t = .touch ref (some epoch) caller →
      tab.heap[ref]? = some s → s.lastActiveEpoch ≤ epoch) : tab'.KeepsLatest := by
  cases taken with
  | @new call upstream id =>
      refine ⟨?_, ?_, before.evicted⟩
      · intro e member
        rcases List.mem_append.mp member with old | fresh
        · simpa using Nat.lt_succ_of_lt (before.allocated e old)
        · simp [List.mem_singleton.mp fresh]
      · intro ref s session epoch member
        rcases List.mem_append.mp member with old | fresh
        · have low : ref < tab.heap.length := before.allocated _ old
          exact before.latest ref s
            (by simpa [List.getElem?_append_left low] using session) epoch old
        · cases List.mem_singleton.mp fresh
          simp only [allocate, List.getElem?_concat_length, Option.some.injEq] at session
          exact session ▸ Nat.le_refl _
  | @touchStore ref' epoch' caller =>
      refine ⟨?_, ?_, before.evicted⟩
      · intro e member
        simp only [UdpSessionTable.touch, List.length_modify]
        rcases List.mem_append.mp member with old | fresh
        · exact before.allocated e old
        · rw [List.mem_singleton.mp fresh]
          exact allocated_of_touch knows
      · intro ref s session epoch member
        obtain ⟨s', session', rfl⟩ := session_of_modify session
        rcases List.mem_append.mp member with old | fresh
        · have bound := before.latest ref s' session' epoch old
          split
          · next same =>
              subst same
              exact Nat.le_trans bound (forward ref' epoch' caller s' rfl session')
          · exact bound
        · cases List.mem_singleton.mp fresh
          simp
  | cancel | markFirst | markAgain =>
      refine ⟨by simpa using before.allocated, ?_, before.evicted⟩
      intro ref s session epoch member
      obtain ⟨s', session', rfl⟩ := session_of_modify session
      have bound := before.latest ref s' session' epoch member
      split <;> exact bound
  | @remove source id caller ref s present session same =>
      refine ⟨before.allocated, before.latest, ?_⟩
      intro ev member epoch touched
      rcases List.mem_append.mp member with old | evicted
      · exact before.evicted ev old epoch touched
      · unfold evictionBy at evicted
        split at evicted
        · rw [List.mem_singleton.mp evicted] at touched ⊢
          exact before.latest ref s session epoch (mem_touchesOf.mp touched)
        · cases evicted
  | _ => exact ⟨before.allocated, before.latest, before.evicted⟩

theorem keepsLatest_of_forward {as : List (Action Choice Env)}
    (complete : machine.run (start idleTimeout port now) as = some p)
    (forward : machine.Along (fun p a => rewinds p a = false) (start idleTimeout port now) as) :
    p.shared.KeepsLatest := by
  have run := Machine.invariant_along (M := machine)
    (P := fun p => machine.Reachable (start idleTimeout port now) p ∧ p.shared.KeepsLatest)
    ?_ ⟨.refl _, ⟨nofun, nofun, nofun⟩⟩ forward complete
  · exact run.2
  · rintro q a r ⟨reached, before⟩ forward taken
    refine ⟨reached.step taken, ?_⟩
    refine Program.machine_cases (P := program)
      (motive := fun a r => rewinds q a = false → r.shared.KeepsLatest) ?_ ?_ taken forward
    · intro i k t tab t' new found own forward
      have step := step_iff.mp own
      refine step.keepsLatest before ((identified reached).knows.get found) ?_
      rintro ref epoch caller s rfl session
      cases step with
      | touchStore => simpa [rewinds, found, session] using forward
    · intro e tab new own _
      cases e <;> cases own <;> exact ⟨before.allocated, before.latest, before.evicted⟩

/-- If epochs never go backwards, the session's epoch is its last touch, and an evicted session
was not touched later than `timeoutSeconds` before the reading of the tick. -/
theorem evicted_untouched {as : List (Action Choice Env)}
    (complete : machine.run (start idleTimeout port now) as = some p)
    (few : p.shared.history.created < u64Size)
    (kept : machine.Along (fun p a => revives p a = false) (start idleTimeout port now) as)
    (forward : machine.Along (fun p a => rewinds p a = false) (start idleTimeout port now) as) :
    ∀ ev ∈ p.shared.history.evictions, ∀ epoch ∈ ev.touches,
      epoch + p.shared.timeoutSeconds ≤ ev.now := by
  intro ev member epoch touched
  have latest := (keepsLatest_of_forward complete forward).evicted ev member epoch touched
  have old := (evictsIdle_of_kept complete few kept).evicted ev member
  omega

/-! ### Datagrams on evicted sessions -/

/-- The session that a call has got and has still to send its datagram on. -/
def Task.held : Task → Option SessionRef
  | .getOrCreate call (.flowOpen own) | .getOrCreate call (.spawn own) =>
      call.payload.map fun _ => own
  | .touch ref _ (.getOrCreate call _) => call.payload.map fun _ => ref
  | .forward ref _ => some ref
  | _ => none

@[simp] theorem held_return (call : Call) (own : Option SessionRef) (ref : SessionRef) :
    (call.return own ref).held = call.payload.map fun _ => ref := by
  refine Call.return_cases (fun payload carries => ?_) fun none => ?_
  · simp [Task.held, carries]
  · simp [Task.held, none]

@[simp] theorem held_removeResume (caller : RemoveCaller) : caller.resume.held = none :=
  RemoveCaller.resume_cases (fun _ _ _ _ => rfl) rfl rfl

@[simp] theorem held_drain (sweep : Sweep) (rest : List (SocketAddr × Nat)) :
    (sweep.drain rest).held = none :=
  Sweep.drain_cases (fun _ _ _ => rfl) rfl rfl

/-- A tick comes to a session on its list that a call has got and has still to send on. -/
def interrupts (p : Pool UdpSessionTable Task) : Action Choice Env → Bool
  | .thread i .go =>
      match p.threads[i]? with
      | some (.removeIf source id (.sweeping (.cleanup _) _)) =>
          p.threads.any fun t => t.held.any fun ref => p.shared.identity ref = some (source, id)
      | _ => false
  | _ => false

/-- If this step sends a client's datagram on a session, no tick has evicted the session. -/
def SendsUnevicted (p : Pool UdpSessionTable Task) (a : Action Choice Env) : Prop :=
  ∀ q, machine.step p a = some q → ∀ ref payload,
    q.shared.history.sent = p.shared.history.sent ++ [(ref, payload)] →
    ∀ ev ∈ p.shared.history.evictions, ev.ref ≠ ref

/-- No tick has evicted the session that the task has got. -/
def HoldsUnevicted (tab : UdpSessionTable) (t : Task) : Prop :=
  ∀ ref, t.held = some ref → ∀ ev ∈ tab.history.evictions, ev.ref ≠ ref

theorem evicted_removed (reached : machine.Reachable (start idleTimeout port now) p)
    {ev : Eviction} (member : ev ∈ p.shared.history.evictions) : p.shared.Removed ev.ref := by
  have all : ∀ ev ∈ p.shared.history.evictions, p.shared.Removed ev.ref := by
    refine Program.reachable_induction (J := fun p =>
      ∀ ev ∈ p.shared.history.evictions, p.shared.Removed ev.ref) reached nofun ?_ ?_
    · intro p i k t tab t' new _ before _ taken ev member
      cases step_iff.mp taken with
      | @remove source id caller ref s =>
          obtain old | evicted := List.mem_append.mp member
          · have removed := before ev old
            simp only [Removed, UdpSessionTable.remove, List.map_append, List.mem_append] at removed ⊢
            exact .inl removed
          · unfold evictionBy at evicted
            split at evicted
            · rw [List.mem_singleton.mp evicted]
              simp [Removed]
            · cases evicted
      | _ => exact before ev member
    · intro p e tab new _ before taken
      cases e <;> cases taken <;> exact before
  exact all ev member

/-- A task gets a session that is in the map, and keeps it until it sends. -/
theorem Step.held {tab tab' : UdpSessionTable} {t t' : Task} {k : Choice} {new : List Task}
    (taken : Step tab t k tab' t' new) {ref : SessionRef} (holds : t'.held = some ref) :
    t.held = some ref ∨ ref ∈ mapped tab' := by
  cases taken with
  | getHit hit =>
      obtain ⟨-, -, rfl⟩ := Option.map_eq_some_iff.mp holds
      exact .inr (mem_mapped hit)
  | entryOccupied occupied =>
      obtain ⟨-, -, rfl⟩ := Option.map_eq_some_iff.mp holds
      exact .inr (mem_mapped occupied)
  | entryVacant =>
      obtain ⟨-, -, rfl⟩ := Option.map_eq_some_iff.mp holds
      exact .inr (mem_mapped (AList.lookup_insert _))
  | flowOpen => exact .inl holds
  | spawn =>
      rw [held_return] at holds
      exact .inl holds
  | @touchNow _ caller => cases caller <;> exact .inl holds
  | @touchStore _ _ caller =>
      cases caller with
      | getOrCreate =>
          rw [TouchCaller.resume, held_return] at holds
          exact .inl holds
      | _ => cases holds
  | removeAbsent | removeOther | markAgain | flowClose =>
      rw [held_removeResume] at holds
      cases holds
  | scanEnd =>
      rw [held_drain] at holds
      cases holds
  | _ => cases holds

/-- A tick that evicts a session takes it from its list. -/
theorem Step.evictions {tab tab' : UdpSessionTable} {t t' : Task} {k : Choice}
    {new : List Task} (taken : Step tab t k tab' t' new) (filed : tab.Filed) {ev : Eviction}
    (member : ev ∈ tab'.history.evictions) :
    ev ∈ tab.history.evictions ∨ k = .go ∧ t'.held = none ∧ ∃ source id reading rest,
      t = .removeIf source id (.sweeping (.cleanup reading) rest) ∧
        tab.identity ev.ref = some (source, id) := by
  cases taken with
  | @remove source id caller ref s present session same =>
      obtain old | evicted := List.mem_append.mp member
      · exact .inl old
      · unfold evictionBy at evicted
        split at evicted
        case h_1 reading rest =>
            rw [List.mem_singleton.mp evicted]
            obtain ⟨id', known⟩ := filed source ref present
            rw [identity_of_session session, Option.some.injEq, Prod.mk.injEq] at known
            refine .inr ⟨rfl, rfl, source, id, reading, rest, rfl, ?_⟩
            rw [identity_of_session session, known.1, same]
        case h_2 => cases evicted
  | _ => exact .inl member

theorem holdsUnevicted_thread {i : Nat} {k : Choice} {t t' : Task} {tab : UdpSessionTable}
    {new : List Task} (reached : machine.Reachable (start idleTimeout port now) p)
    (before : AllThreads HoldsUnevicted p) (found : p.threads[i]? = some t)
    (step : Step p.shared t k tab t' new) (apart : interrupts p (.thread i k) = false) :
    AllThreads HoldsUnevicted ⟨tab, p.threads.set i t' ++ new⟩ := by
  have own : program.step p.shared t k = some (tab, t', new) := step_iff.mpr step
  have reached' : machine.Reachable (start idleTimeout port now)
      ⟨tab, p.threads.set i t' ++ new⟩ :=
    reached.step (Program.machine_thread_iff.mpr ⟨t, tab, t', new, found, own, rfl⟩)
  have evicted : ∀ ev ∈ tab.history.evictions, _ := fun ev member =>
    step.evictions (identified reached).filed member
  refine before.thread ?_ ?_ ?_
  · intro ref holds ev member same
    obtain old | mapped := step.held holds
    · obtain earlier | ⟨-, none, -⟩ := evicted ev member
      · exact before.get found ref old ev earlier same
      · rw [none] at holds
        cases holds
    · exact not_mapped_of_removed reached' (same ▸ evicted_removed reached' member) mapped
  · intro u member
    obtain ⟨ref, rfl⟩ := step.spawned member
    exact nofun
  · -- A session that another task has got cannot be the one that the tick removes.
    intro u there unevicted ref holds ev member same
    obtain earlier | ⟨rfl, -, source, id, reading, rest, rfl, known⟩ := evicted ev member
    · exact unevicted ref holds ev earlier same
    · have interrupted : interrupts p (.thread i .go) = true := by
        simp only [interrupts, found, List.any_eq_true]
        exact ⟨u, there, by simp [holds, ← same, known]⟩
      rw [apart] at interrupted
      cases interrupted

theorem holdsUnevicted_env {e : Env} {tab : UdpSessionTable} {new : List Task}
    (before : AllThreads HoldsUnevicted p) (taken : p.shared.env e = some (tab, new)) :
    AllThreads HoldsUnevicted ⟨tab, p.threads ++ new⟩ := by
  refine before.env ?_ fun u _ unevicted => ?_
  · cases e <;> cases taken <;> simp [HoldsUnevicted, Task.held]
  · cases e <;> cases taken <;> exact unevicted

/-- Who sends a datagram has got the session. -/
theorem sendsUnevicted_of_holds {a : Action Choice Env} (holds : AllThreads HoldsUnevicted p) :
    SendsUnevicted p a := by
  intro q taken ref payload sent
  cases a with
  | thread i k =>
      obtain ⟨t, tab, t', new, found, own, rfl⟩ := Program.machine_thread_iff.mp taken
      cases step_iff.mp own with
      | send =>
          cases List.append_cancel_left sent
          exact holds.get found ref rfl
      | _ => simp at sent
  | env e =>
      obtain ⟨tab, new, own, rfl⟩ := Program.machine_env_iff.mp taken
      cases e <;> cases own <;> simp at sent

/-- If no tick removes a session between the look-up of a call and its send, no datagram is
sent on an evicted session. -/
theorem sendsUnevicted_of_apart {as : List (Action Choice Env)}
    (apart : machine.Along (fun p a => interrupts p a = false) (start idleTimeout port now) as) :
    machine.Along SendsUnevicted (start idleTimeout port now) as := by
  have holds : machine.Along (fun p _ => machine.Reachable (start idleTimeout port now) p ∧
      AllThreads HoldsUnevicted p) (start idleTimeout port now) as := by
    refine Machine.Along.invariant (P := fun p =>
      machine.Reachable (start idleTimeout port now) p ∧ AllThreads HoldsUnevicted p) ?_
      ⟨.refl _, nofun⟩ apart
    rintro p a q ⟨reached, before⟩ apart taken
    refine ⟨reached.step taken, ?_⟩
    cases a with
    | thread i k =>
        obtain ⟨t, tab, t', new, found, own, rfl⟩ := Program.machine_thread_iff.mp taken
        exact holdsUnevicted_thread reached before found (step_iff.mp own) apart
    | env e =>
        obtain ⟨tab, new, own, rfl⟩ := Program.machine_env_iff.mp taken
        exact holdsUnevicted_env before own
  exact holds.mono fun p a before => sendsUnevicted_of_holds before.2

/-- As long as nobody stores a fresh epoch in a session that a pending tick has listed,
cleanup evicts idle sessions only; if moreover epochs never go backwards, these have not been
touched at all in the meantime. As long as no tick comes to a session on its list between the
look-up of a call and its send, no datagram goes out on an evicted session. -/
theorem cleanup_evicts_idle {as : List (Action Choice Env)}
    (complete : machine.run (start idleTimeout port now) as = some p)
    (few : p.shared.history.created < u64Size)
    (kept : machine.Along (fun p a => revives p a = false) (start idleTimeout port now) as)
    (apart : machine.Along (fun p a => interrupts p a = false) (start idleTimeout port now) as) :
    (∀ ev ∈ p.shared.history.evictions,
      ev.lastActiveEpoch + p.shared.timeoutSeconds ≤ ev.now) ∧
    (machine.Along (fun p a => rewinds p a = false) (start idleTimeout port now) as →
      ∀ ev ∈ p.shared.history.evictions, ∀ epoch ∈ ev.touches,
        epoch + p.shared.timeoutSeconds ≤ ev.now) ∧
    machine.Along SendsUnevicted (start idleTimeout port now) as :=
  ⟨(evictsIdle_of_kept complete few kept).evicted, evicted_untouched complete few kept,
    sendsUnevicted_of_apart apart⟩

/-- A client forwards one datagram and is silent for a second; a tick lists its session. -/
def listing : List (Action Choice Env) :=
  let source : SocketAddr := .v4 0 4000
  [.env (.getOrCreate ⟨source, some [1]⟩)] ++ List.replicate 11 (.thread 0 .go) ++
    [.env (.advance 1), .env .cleanupLoop] ++
    [.thread 2 .go, .thread 2 .go, .thread 2 (.visit source), .thread 2 .go]

/-- The tick goes on and evicts the session. -/
def silent : List (Action Choice Env) := listing ++ List.replicate 4 (.thread 2 .go)

/-- The client's next datagram touches the session first. The session is evicted all
the same, and then the datagram goes out on it. -/
def revived : List (Action Choice Env) :=
  listing ++ [.env (.getOrCreate ⟨.v4 0 4000, some [2]⟩)] ++ List.replicate 3 (.thread 3 .go) ++
    List.replicate 4 (.thread 2 .go) ++ [.thread 3 .go]

theorem silent_accepted : (machine.run (start (.fromSecs 1) 4000 100) silent).isSome := by decide

theorem revived_accepted : (machine.run (start (.fromSecs 1) 4000 100) revived).isSome := by decide

theorem cleanup_evicts_silent :
    let p := (machine.run (start (.fromSecs 1) 4000 100) silent).get silent_accepted
    (∀ ev ∈ p.shared.history.evictions,
      ev.lastActiveEpoch + p.shared.timeoutSeconds ≤ ev.now) ∧
    (machine.Along (fun p a => rewinds p a = false) (start (.fromSecs 1) 4000 100) silent →
      ∀ ev ∈ p.shared.history.evictions, ∀ epoch ∈ ev.touches,
        epoch + p.shared.timeoutSeconds ≤ ev.now) ∧
    machine.Along SendsUnevicted (start (.fromSecs 1) 4000 100) silent := by
  have complete := (Option.some_get silent_accepted).symm
  exact cleanup_evicts_idle complete (by decide)
    ((Machine.count_eq_zero_iff complete).mp (by decide))
    ((Machine.count_eq_zero_iff complete).mp (by decide))

theorem cleanup_evicts_revived :
    ∃ p, machine.Reachable (start (.fromSecs 1) 4000 100) p ∧
      ∃ ev ∈ p.shared.history.evictions, ev.now < ev.lastActiveEpoch + p.shared.timeoutSeconds ∧
        p.shared.history.sent = [(ev.ref, [1]), (ev.ref, [2])] ∧ p.shared.sessions.entries = [] :=
  ⟨_, Machine.reachable_get revived_accepted, by decide⟩

end RangePorter.UdpSessionTable
