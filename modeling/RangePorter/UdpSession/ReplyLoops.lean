import RangePorter.UdpSession.Forwarding

/-!
# Sessions and their reply loops

A session in the map is looked after: its reply loop runs, or the call that inserted the
session is about to spawn it, or the loop has ended and its task is just about to take the
session out of the map. Conversely a loop that runs has its session in the map, or the
session's token is cancelled or about to be. So no session stays in the map without anybody
to read its replies, and no loop goes on for a session that is gone.
-/

namespace RangePorter.UdpSessionTable

open Interleaving

variable {tab tab' : UdpSessionTable} {t t' : Task} {k : Choice} {new : List Task}
  {idleTimeout : Duration} {port now : Nat} {p : Pool UdpSessionTable Task}

/-- The task will spawn the session's reply loop, runs it, or removes the session at its
end. -/
def Tends (ref : SessionRef) (source : SocketAddr) (id : Nat) : Task → Prop
  | .getOrCreate _ (.flowOpen own) | .getOrCreate _ (.spawn own) => own = ref
  | .replyLoop own | .touch own _ .replyLoop => own = ref
  | .removeIf source' id' .replyLoop => source' = source ∧ id' = id
  | _ => False

/-- As long as the session stays in the map, who tends it goes on to do so or has spawned
the loop that does. -/
theorem Step.tends {ref : SessionRef} {source : SocketAddr} {id : Nat}
    (taken : Step tab t k tab' t' new) (tends : Tends ref source id t)
    (known : tab.identity ref = some (source, id))
    (mapped : tab'.sessions.lookup source = some ref) :
    Tends ref source id t' ∨ ∃ u ∈ new, Tends ref source id u := by
  cases taken with
  | flowOpen => exact .inl tends
  | spawn => exact .inr ⟨_, List.mem_singleton_self _, tends⟩
  | replied => exact .inl tends
  | @touchNow _ caller =>
      cases caller with
      | replyLoop => exact .inl tends
      | _ => cases tends
  | @touchStore _ _ caller =>
      cases caller with
      | replyLoop => exact .inl tends
      | _ => cases tends
  | replyEnds session =>
      cases tends
      rw [identity_of_session session] at known
      cases known
      exact .inl ⟨rfl, rfl⟩
  | @removeAbsent _ _ caller absent =>
      cases caller with
      | replyLoop =>
          obtain ⟨rfl, rfl⟩ := tends
          rw [absent] at mapped
          cases mapped
      | _ => cases tends
  | @removeOther _ _ caller ref' s present session other =>
      cases caller with
      | replyLoop =>
          obtain ⟨rfl, rfl⟩ := tends
          rw [present] at mapped
          cases mapped
          rw [identity_of_session session] at known
          cases known
          exact absurd rfl other
      | _ => cases tends
  | @remove _ _ caller =>
      cases caller with
      | replyLoop =>
          obtain ⟨rfl, rfl⟩ := tends
          rw [UdpSessionTable.remove, AList.lookup_erase] at mapped
          cases mapped
      | _ => cases tends
  | _ => cases tends

/-- A session gets into the map through the entry only. -/
theorem Step.lookup_eq (taken : Step tab t k tab' t' new) {source : SocketAddr}
    {ref : SessionRef} (mapped : tab'.sessions.lookup source = some ref) :
    tab.sessions.lookup source = some ref ∨
      ∃ call, call.source = source ∧ t' = .getOrCreate call (.flowOpen ref) := by
  cases taken with
  | @entryVacant call own =>
      by_cases same : source = call.source
      · subst same
        rw [insert, AList.lookup_insert, Option.some.injEq] at mapped
        exact .inr ⟨call, rfl, by rw [mapped]⟩
      · rw [insert, AList.lookup_insert_ne same] at mapped
        exact .inl mapped
  | @remove other =>
      by_cases same : source = other
      · subst same
        rw [UdpSessionTable.remove, AList.lookup_erase] at mapped
        cases mapped
      · rw [UdpSessionTable.remove, AList.lookup_erase_ne same] at mapped
        exact .inl mapped
  | _ => exact .inl mapped

/-- Every session in the map has a task that tends it. -/
def AllTended (p : Pool UdpSessionTable Task) : Prop :=
  ∀ source ref id, p.shared.sessions.lookup source = some ref →
    p.shared.identity ref = some (source, id) → ∃ t ∈ p.threads, Tends ref source id t

theorem AllTended.thread (before : AllTended p) (filed : p.shared.Filed) {i : Nat}
    (found : p.threads[i]? = some t) (taken : Step p.shared t k tab' t' new) :
    AllTended ⟨tab', p.threads.set i t' ++ new⟩ := by
  have bound := (List.getElem?_eq_some_iff.mp found).1
  have own : t' ∈ p.threads.set i t' ++ new :=
    List.mem_append_left _ (List.mem_set bound t')
  intro source ref id mapped known
  obtain earlier | ⟨call, rfl, rfl⟩ := taken.lookup_eq mapped
  · obtain ⟨id', known'⟩ := filed source ref earlier
    obtain rfl : id' = id := by
      have still := taken.identity known'
      rw [known] at still
      cases still
      rfl
    obtain ⟨u, member, tends⟩ := before source ref id' earlier known'
    obtain ⟨j, there⟩ := List.mem_iff_getElem?.mp member
    by_cases same : j = i
    · subst same
      cases found.symm.trans there
      obtain goes | ⟨v, fresh, goes⟩ := taken.tends tends known' mapped
      · exact ⟨t', own, goes⟩
      · exact ⟨v, List.mem_append_right _ fresh, goes⟩
    · exact ⟨u, List.mem_of_getElem? (lookup_other there same), tends⟩
  · exact ⟨_, own, rfl⟩

theorem allTended (reached : machine.Reachable (start idleTimeout port now) p) :
    AllTended p := by
  refine Program.reachable_induction (J := AllTended) reached ?_ ?_ ?_
  · intro source ref id mapped
    simp [start, new] at mapped
  · intro p i k t tab t' new reached before found taken
    exact before.thread (identified reached).filed found (step_iff.mp taken)
  · intro p e tab new _ before taken source ref id mapped known
    rw [env_identity taken] at known
    obtain ⟨u, member, tends⟩ := before source ref id
      (by cases e <;> cases taken <;> exact mapped) known
    exact ⟨u, List.mem_append_left _ member, tends⟩

/-! ### Loops without a session -/

theorem lookup_of_mapped {ref : SessionRef} (filed : ref ∈ mapped tab) :
    ∃ source, tab.sessions.lookup source = some ref := by
  obtain ⟨e, member, rfl⟩ := List.mem_map.mp filed
  exact ⟨e.1, Option.mem_def.mp (AList.mem_lookup_iff.mpr member)⟩

/-- The session of a loop that runs was inserted. -/
theorem inserted_of_loop (reached : machine.Reachable (start idleTimeout port now) p) {i : Nat}
    {ref : SessionRef} (found : p.threads[i]? = some t) (loop : t.loopOf = some ref) :
    0 < p.shared.history.inserted.count ref := by
  have running := le_weight (loops ref) found
  have spawned := loops_le_spawned reached ref
  have owed := spawned_add_owes reached (· == ref)
  have opened := opened_add_owes reached (· == ref)
  have one : loops ref t = 1 := by simp [loops, loop]
  simp only [List.count] at spawned ⊢
  omega

/-- Whom the map serves, somebody reads for, and the other way round. -/
structure RepliesServed (p : Pool UdpSessionTable Task) : Prop where
  tended : ∀ source ref, p.shared.sessions.lookup source = some ref →
    ∃ id, p.shared.identity ref = some (source, id) ∧ ∃ t ∈ p.threads, Tends ref source id t
  /-- No loop outlives its session unnoticed. -/
  stopped : ∀ t ∈ p.threads, ∀ ref, t.loopOf = some ref →
    (∃ source, p.shared.sessions.lookup source = some ref) ∨
      (∃ s, p.shared.heap[ref]? = some s ∧ s.shutdown = true) ∨
      ∃ u ∈ p.threads, u.stage = .closing ref .cancel
  one_loop : ∀ (i j : Nat) t u ref, p.threads[i]? = some t → p.threads[j]? = some u →
    t.loopOf = some ref → u.loopOf = some ref → i = j

theorem replies_served (reached : machine.Reachable (start idleTimeout port now) p) :
    RepliesServed p where
  tended := by
    intro source ref found
    obtain ⟨id, known⟩ := (identified reached).filed source ref found
    exact ⟨id, known, allTended reached source ref id found known⟩
  stopped := by
    intro t member ref loop
    obtain ⟨i, found⟩ := List.mem_iff_getElem?.mp member
    have inserted := inserted_of_loop reached found loop
    have filed := mapped_add_removed reached (· == ref)
    have cancelled := shutdown_add_owesCancel reached ref
    simp only [List.count] at inserted cancelled
    by_cases kept : 0 < (mapped p.shared).countP (· == ref)
    · exact .inl (lookup_of_mapped (List.count_pos_iff.mp kept))
    · by_cases set : flagged UdpSession.shutdown p.shared.heap ref = 0
      · -- Then some task owes the cancellation.
        have owed : weight (owesCancel (· == ref)) p.threads ≠ 0 := by omega
        obtain ⟨u, there, owes⟩ : ∃ u ∈ p.threads, owesCancel (· == ref) u ≠ 0 := by
          by_contra none
          refine owed (weight_eq_zero_iff.mpr fun u there => ?_)
          by_contra owes
          exact none ⟨u, there, owes⟩
        refine .inr (.inr ⟨u, there, ?_⟩)
        rw [owesCancel] at owes
        split at owes
        case h_1 ref' stage =>
            have same : ref' = ref := by simpa using owes
            rw [stage, same]
        case h_2 => exact absurd rfl owes
      · obtain ⟨s, session, shutdown⟩ : ∃ s, p.shared.heap[ref]? = some s ∧ s.shutdown = true := by
          have positive : (p.shared.heap[ref]?.any UdpSession.shutdown).toNat ≠ 0 := set
          simpa [Option.any_eq_true] using positive
        exact .inr (.inl ⟨s, session, shutdown⟩)
  one_loop := by
    intro i j t u ref first second loop loop'
    exact loop_unique reached first second loop loop'

/-- A session whose loop has read an error and is about to remove it. -/
def loopEnding : List (Action Choice Env) :=
  .env (.getOrCreate ⟨.v4 0 4000, none⟩) :: List.replicate 7 (.thread 0 .go) ++ [.thread 1 .exit]

theorem loopEnding_accepted :
    (machine.run (start (.fromSecs 60) 4000 100) loopEnding).isSome := by
  decide

theorem replies_served_loopEnding :
    RepliesServed ((machine.run (start (.fromSecs 60) 4000 100) loopEnding).get
      loopEnding_accepted) :=
  replies_served (Machine.reachable_get loopEnding_accepted)

end RangePorter.UdpSessionTable
