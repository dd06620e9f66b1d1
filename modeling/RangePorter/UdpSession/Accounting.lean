import RangePorter.UdpSession.Identity

/-!
# Books kept over the tasks of a session table

Each law below equates two entries of the history, up to the tasks that are
between the two events: a session that is inserted but not yet recorded as open
is held by exactly one task that still owes the record, and so on. The laws are
indexed by a predicate on sessions. Taken at one session they say "exactly once";
taken at all sessions they relate the totals.
-/

namespace RangePorter.UdpSessionTable

open Interleaving

section Weights

variable (q : SessionRef → Bool)

/-- The task has allocated such a session and is about to try the entry. -/
def atEntry (t : Task) : Nat :=
  match t.stage with
  | .creating (.entry own) => if q own then 1 else 0
  | _ => 0

/-- The task has inserted such a session and still has to record the flow. -/
def owesFlowOpen (t : Task) : Nat :=
  match t.stage with
  | .creating (.flowOpen own) => if q own then 1 else 0
  | _ => 0

/-- The task has recorded the flow and still has to spawn the reply task. -/
def owesSpawn (t : Task) : Nat :=
  match t.stage with
  | .creating (.spawn own) => if q own then 1 else 0
  | _ => 0

/-- The task has removed such a session, and its token is not yet cancelled. -/
def owesCancel (t : Task) : Nat :=
  match t.stage with
  | .closing ref .cancel => if q ref then 1 else 0
  | _ => 0

/-- The task has removed such a session, and it is not yet marked as closed. -/
def owesMark (t : Task) : Nat :=
  match t.stage with
  | .closing ref .cancel => if q ref then 1 else 0
  | .closing ref .markClosed => if q ref then 1 else 0
  | _ => 0

/-- The task has removed such a session and still has to record the close. -/
def owesFlowClose (t : Task) : Nat :=
  match t.stage with
  | .closing ref _ => if q ref then 1 else 0
  | _ => 0

variable {q} {ref : SessionRef} {t : Task}

theorem owesFlowOpen_eq_zero (past : t.stage ≠ .creating (.flowOpen ref)) :
    owesFlowOpen (· == ref) t = 0 := by
  unfold owesFlowOpen
  split
  · next own stage =>
      have other : own ≠ ref := fun same => past (same ▸ stage)
      simp [other]
  · rfl

theorem owesSpawn_eq_zero (past : t.stage ≠ .creating (.spawn ref)) :
    owesSpawn (· == ref) t = 0 := by
  unfold owesSpawn
  split
  · next own stage =>
      have other : own ≠ ref := fun same => past (same ▸ stage)
      simp [other]
  · rfl

theorem owesFlowClose_eq_zero (past : ∀ next, t.stage ≠ .closing ref next) :
    owesFlowClose (· == ref) t = 0 := by
  unfold owesFlowClose
  split
  · next own next stage =>
      have other : own ≠ ref := fun same => past next (same ▸ stage)
      simp [other]
  · rfl

/-- Who owes the cancellation also owes the close. -/
theorem owesCancel_le (q : SessionRef → Bool) (t : Task) : owesCancel q t ≤ owesFlowClose q t := by
  unfold owesCancel owesFlowClose
  cases t.stage with
  | closing ref next => cases next <;> simp
  | _ => simp

end Weights

variable {idleTimeout port now : Nat} {p : Pool UdpSessionTable Task}

/-! ### The entries of the map -/

/-- The sessions in the map. -/
def mapped (tab : UdpSessionTable) : List SessionRef := tab.sessions.entries.map fun e => e.2

theorem countP_mapped_insert {tab : UdpSessionTable} {source : SocketAddr}
    (vacant : tab.sessions.lookup source = none) (ref : SessionRef) (q : SessionRef → Bool) :
    (mapped (tab.insert source ref)).countP q =
      (mapped tab).countP q + if q ref then 1 else 0 := by
  simp only [mapped, insert, AList.entries_insert_of_notMem (AList.lookup_eq_none.mp vacant),
    List.map_cons, List.countP_cons]

theorem countP_mapped_remove {tab : UdpSessionTable} {source : SocketAddr} {ref : SessionRef}
    (present : tab.sessions.lookup source = some ref) (s : UdpSession) (caller : RemoveCaller)
    (q : SessionRef → Bool) :
    (mapped tab).countP q =
      (mapped (tab.remove source ref s caller)).countP q + if q ref then 1 else 0 := by
  have member : source ∈ tab.sessions.entries.keys :=
    AList.lookup_isSome.mp (by rw [present]; rfl)
  obtain ⟨ref', before, after, absent, split, erased⟩ := List.exists_of_kerase member
  have same : ref' = ref := by
    have lookup : tab.sessions.entries.dlookup source = some ref := present
    rw [split, List.dlookup_append] at lookup
    simpa [List.dlookup_eq_none.mpr absent] using lookup
  subst same
  have erased' : (tab.sessions.erase source).entries = before ++ after := erased
  simp only [mapped, remove, erased', split, List.map_append, List.map_cons,
    List.countP_append, List.countP_cons]
  omega

/-- A session in the map has been inserted and not removed, and conversely. -/
theorem mapped_add_removed (reached : machine.Reachable (start idleTimeout port now) p)
    (q : SessionRef → Bool) :
    (mapped p.shared).countP q + (p.shared.history.removed.map Prod.fst).countP q =
      p.shared.history.inserted.countP q := by
  have balance : InBalance
      (fun tab => (mapped tab).countP q + (tab.history.removed.map Prod.fst).countP q)
      (fun tab => tab.history.inserted.countP q) (fun _ => 0) (fun _ => 0) p := by
    refine .of_reachable reached (by simp [InBalance, start, new, History.empty, mapped]) ?_ ?_
    · intro p i k t tab t' spawned _ _ _ taken
      cases step_iff.mp taken with
      | entryVacant vacant =>
          simp only [countP_mapped_insert vacant]
          simp [List.countP_append, List.countP_cons]
          omega
      | @remove _ _ caller ref s present =>
          simp only [countP_mapped_remove present s caller]
          simp [List.countP_append, List.countP_cons]
          omega
      | _ => simp [mapped]
    · intro p e tab spawned _ taken
      cases e <;> cases taken <;> simp [mapped]
  simpa [InBalance] using balance

/-! ### Each event once -/

/-- Only the task that allocated a session tries to insert it. -/
theorem inserted_add_atEntry_le (reached : machine.Reachable (start idleTimeout port now) p)
    (ref : SessionRef) :
    p.shared.history.inserted.count ref + weight (atEntry (· == ref)) p.threads ≤
      (List.range p.shared.heap.length).count ref := by
  refine Bounded.of_reachable (f := fun tab => tab.history.inserted.count ref)
    (g := fun tab => (List.range tab.heap.length).count ref) reached
    (by simp [Bounded, start, new, History.empty]) ?_ ?_
  · intro p i k t tab t' spawned _ _ _ taken
    cases step_iff.mp taken with
    | new =>
        simp [atEntry, List.range_succ, List.count_append, List.count_singleton]
        omega
    | entryVacant => simp [atEntry, List.count_append, List.count_singleton]
    | _ => simp [atEntry]
  · intro p e tab spawned _ taken
    cases e <;> cases taken <;> simp [atEntry]

theorem inserted_count_le_one (reached : machine.Reachable (start idleTimeout port now) p)
    (ref : SessionRef) : p.shared.history.inserted.count ref ≤ 1 := by
  have tried := inserted_add_atEntry_le reached ref
  have once := List.nodup_iff_count_le_one.mp (List.nodup_range (n := p.shared.heap.length)) ref
  omega

theorem mem_mapped {tab : UdpSessionTable} {source : SocketAddr} {ref : SessionRef}
    (found : tab.sessions.lookup source = some ref) : ref ∈ mapped tab :=
  List.mem_map_of_mem (f := fun e => e.2) (AList.mem_lookup_iff.mp found)

/-- The session was taken out of the map. -/
def Removed (tab : UdpSessionTable) (ref : SessionRef) : Prop :=
  ref ∈ tab.history.removed.map Prod.fst

/-- A removed session is in the map under no source. -/
theorem not_mapped_of_removed (reached : machine.Reachable (start idleTimeout port now) p)
    {ref : SessionRef} (removed : p.shared.Removed ref) : ref ∉ mapped p.shared := by
  have filed := mapped_add_removed reached (· == ref)
  have once := inserted_count_le_one reached ref
  have positive := List.count_pos_iff.mpr removed
  rw [← List.count_eq_zero]
  simp only [List.count] at once positive ⊢
  omega

/-- Every inserted session has its flow recorded as open, or one task owes the
record. -/
theorem opened_add_owes (reached : machine.Reachable (start idleTimeout port now) p)
    (q : SessionRef → Bool) :
    p.shared.history.opened.countP q + weight (owesFlowOpen q) p.threads =
      p.shared.history.inserted.countP q := by
  have balance : InBalance (fun tab => tab.history.opened.countP q)
      (fun tab => tab.history.inserted.countP q) (owesFlowOpen q) (fun _ => 0) p := by
    refine .of_reachable reached (by simp [InBalance, start, new, History.empty]) ?_ ?_
    · intro p i k t tab t' spawned _ _ _ taken
      cases step_iff.mp taken with
      | entryVacant =>
          simp [owesFlowOpen, List.countP_append, List.countP_cons]
          omega
      | flowOpen => simp [owesFlowOpen, List.countP_append, List.countP_cons]
      | _ => simp [owesFlowOpen]
    · intro p e tab spawned _ taken
      cases e <;> cases taken <;> simp [owesFlowOpen]
  simpa [InBalance] using balance

/-- Every recorded flow has its reply task, or one task still has to spawn it. -/
theorem spawned_add_owes (reached : machine.Reachable (start idleTimeout port now) p)
    (q : SessionRef → Bool) :
    p.shared.history.spawned.countP q + weight (owesSpawn q) p.threads =
      p.shared.history.opened.countP q := by
  have balance : InBalance (fun tab => tab.history.spawned.countP q)
      (fun tab => tab.history.opened.countP q) (owesSpawn q) (fun _ => 0) p := by
    refine .of_reachable reached (by simp [InBalance, start, new, History.empty]) ?_ ?_
    · intro p i k t tab t' spawned _ _ _ taken
      cases step_iff.mp taken with
      | flowOpen =>
          simp [owesSpawn, List.countP_append, List.countP_cons]
          omega
      | spawn => simp [owesSpawn, List.countP_append, List.countP_cons]
      | _ => simp [owesSpawn]
    · intro p e tab spawned _ taken
      cases e <;> cases taken <;> simp [owesSpawn]
  simpa [InBalance] using balance

/-! ### The end of a session -/

theorem removed_count_le_one (reached : machine.Reachable (start idleTimeout port now) p)
    (ref : SessionRef) : (p.shared.history.removed.map Prod.fst).count ref ≤ 1 := by
  have once := inserted_count_le_one reached ref
  have filed := mapped_add_removed reached (· == ref)
  simp only [List.count] at once ⊢
  omega

/-- Whether a session exists and has a flag set. -/
def flagged (flag : UdpSession → Bool) (heap : List UdpSession) (ref : SessionRef) : Nat :=
  (heap[ref]?.any flag).toNat

theorem flagged_append {flag : UdpSession → Bool} {s : UdpSession} (clear : flag s = false)
    (heap : List UdpSession) (ref : SessionRef) :
    flagged flag (heap ++ [s]) ref = flagged flag heap ref := by
  unfold flagged
  rcases Nat.lt_trichotomy ref heap.length with low | rfl | high
  · rw [List.getElem?_append_left low]
  · simp [clear]
  · rw [List.getElem?_eq_none (by simp; omega), List.getElem?_eq_none (by omega)]

theorem flagged_modify_other {flag : UdpSession → Bool} {f : UdpSession → UdpSession}
    (keeps : ∀ s, flag (f s) = flag s) (heap : List UdpSession) (ref ref' : SessionRef) :
    flagged flag (heap.modify ref' f) ref = flagged flag heap ref := by
  unfold flagged
  rw [List.getElem?_modify]
  cases heap[ref]? with
  | none => rfl
  | some s => by_cases same : ref' = ref <;> simp [same, keeps]

theorem flagged_modify {flag : UdpSession → Bool} {f : UdpSession → UdpSession}
    (sets : ∀ s, flag (f s) = true) {heap : List UdpSession} {ref' : SessionRef} {s : UdpSession}
    (session : heap[ref']? = some s) (ref : SessionRef) :
    flagged flag (heap.modify ref' f) ref =
      if ref' = ref then 1 else flagged flag heap ref := by
  unfold flagged
  rw [List.getElem?_modify]
  by_cases same : ref' = ref
  · subst same
    simp [session, sets]
  · simp [same]

section

variable (heap : List UdpSession) (ref ref' : SessionRef) (source : SocketAddr)

@[simp] theorem closed_new (id upstream epoch : Nat) :
    flagged UdpSession.closed (heap ++ [.new id source upstream epoch]) ref =
      flagged UdpSession.closed heap ref := flagged_append rfl heap ref

@[simp] theorem shutdown_new (id upstream epoch : Nat) :
    flagged UdpSession.shutdown (heap ++ [.new id source upstream epoch]) ref =
      flagged UdpSession.shutdown heap ref := flagged_append rfl heap ref

@[simp] theorem closed_touch (epoch : Nat) :
    flagged UdpSession.closed (heap.modify ref' fun s => s.touch epoch) ref =
      flagged UdpSession.closed heap ref :=
  flagged_modify_other (fun s => s.touch_closed epoch) heap ref ref'

@[simp] theorem shutdown_touch (epoch : Nat) :
    flagged UdpSession.shutdown (heap.modify ref' fun s => s.touch epoch) ref =
      flagged UdpSession.shutdown heap ref :=
  flagged_modify_other (fun s => s.touch_shutdown epoch) heap ref ref'

@[simp] theorem closed_cancel :
    flagged UdpSession.closed (heap.modify ref' UdpSession.cancel) ref =
      flagged UdpSession.closed heap ref :=
  flagged_modify_other UdpSession.cancel_closed heap ref ref'

@[simp] theorem shutdown_markClosed :
    flagged UdpSession.shutdown (heap.modify ref' fun s => s.markClosed.2) ref =
      flagged UdpSession.shutdown heap ref :=
  flagged_modify_other UdpSession.markClosed_shutdown heap ref ref'

end

/-- A removed session is marked as closed, or one task owes the mark. The mark
never comes second: that would take two removals. -/
theorem closed_add_owesMark (reached : machine.Reachable (start idleTimeout port now) p)
    (ref : SessionRef) :
    flagged UdpSession.closed p.shared.heap ref + weight (owesMark (· == ref)) p.threads =
      (p.shared.history.removed.map Prod.fst).count ref := by
  have balance : InBalance (fun tab => flagged UdpSession.closed tab.heap ref)
      (fun tab => (tab.history.removed.map Prod.fst).count ref)
      (owesMark (· == ref)) (fun _ => 0) p := by
    refine .of_reachable reached (by simp [InBalance, start, new, History.empty, flagged]) ?_ ?_
    · intro p i k t tab t' spawned reached before found taken
      have once := removed_count_le_one reached ref
      have owed := le_weight (owesMark (· == ref)) found
      simp only [InBalance, weight_zero] at before
      cases step_iff.mp taken with
      | remove =>
          simp [owesMark, List.count_append, List.count_singleton]
          omega
      | @markFirst ref' id caller s session first =>
          have clear : ref' = ref → flagged UdpSession.closed p.shared.heap ref = 0 := by
            rintro rfl
            simp [flagged, session, first]
          simp only [markClosed, flagged_modify (fun s => s.markClosed_closed) session]
          by_cases same : ref' = ref
          · simp [owesMark, same, clear same]
          · simp [owesMark, same]
      | @markAgain ref' id caller s session again =>
          have same : ref' ≠ ref := by
            rintro rfl
            simp [flagged, session, again, owesMark] at before owed
            omega
          simp only [markClosed, flagged_modify (fun s => s.markClosed_closed) session]
          simp [owesMark, same]
      | _ => simp [owesMark]
    · intro p e tab spawned _ taken
      cases e <;> cases taken <;> simp [owesMark]
  simpa [InBalance] using balance

/-- The token of a removed session is cancelled, or one task owes the cancellation. -/
theorem shutdown_add_owesCancel (reached : machine.Reachable (start idleTimeout port now) p)
    (ref : SessionRef) :
    flagged UdpSession.shutdown p.shared.heap ref + weight (owesCancel (· == ref)) p.threads =
      (p.shared.history.removed.map Prod.fst).count ref := by
  have balance : InBalance (fun tab => flagged UdpSession.shutdown tab.heap ref)
      (fun tab => (tab.history.removed.map Prod.fst).count ref)
      (owesCancel (· == ref)) (fun _ => 0) p := by
    refine .of_reachable reached (by simp [InBalance, start, new, History.empty, flagged]) ?_ ?_
    · intro p i k t tab t' spawned reached before found taken
      have once := removed_count_le_one reached ref
      have owed := le_weight (owesCancel (· == ref)) found
      simp only [InBalance, weight_zero] at before
      cases step_iff.mp taken with
      | remove =>
          simp [owesCancel, List.count_append, List.count_singleton]
          omega
      | @cancel ref' id caller =>
          obtain ⟨source, known⟩ := (identified reached).knows.get found
          obtain ⟨s, session, -, -⟩ := session_of_identity known
          simp only [cancel, flagged_modify (fun s => s.cancel_shutdown) session]
          by_cases same : ref' = ref
          · simp [owesCancel, same] at owed ⊢
            omega
          · simp [owesCancel, same]
      | _ => simp [owesCancel]
    · intro p e tab spawned _ taken
      cases e <;> cases taken <;> simp [owesCancel]
  simpa [InBalance] using balance

/-- Every removed session has one close recorded, or one task owes the record. -/
theorem closes_add_owes (reached : machine.Reachable (start idleTimeout port now) p)
    (q : SessionRef → Bool) :
    (p.shared.history.closes.map Prod.fst).countP q + weight (owesFlowClose q) p.threads =
      (p.shared.history.removed.map Prod.fst).countP q := by
  have balance : InBalance (fun tab => (tab.history.closes.map Prod.fst).countP q)
      (fun tab => (tab.history.removed.map Prod.fst).countP q)
      (owesFlowClose q) (fun _ => 0) p := by
    refine .of_reachable reached (by simp [InBalance, start, new, History.empty]) ?_ ?_
    · intro p i k t tab t' spawned reached _ found taken
      cases step_iff.mp taken with
      | remove =>
          simp [owesFlowClose, List.countP_append, List.countP_cons]
          omega
      | flowClose => simp [owesFlowClose, List.countP_append, List.countP_cons]
      | @markAgain ref _ _ _ session again =>
          have once := removed_count_le_one reached ref
          have marked := closed_add_owesMark reached ref
          have owed := le_weight (owesMark (· == ref)) found
          simp [flagged, session, again, owesMark] at marked owed
          omega
      | _ => simp [owesFlowClose]
    · intro p e tab spawned _ taken
      cases e <;> cases taken <;> simp [owesFlowClose]
  simpa [InBalance] using balance

end RangePorter.UdpSessionTable
