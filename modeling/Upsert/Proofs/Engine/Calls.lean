import Upsert.Proofs.Key.Checker

namespace Upsert

open Reconciliation (reconcile)

abbrev Query := String × List Value

abbrev Answer := Except DbError (List Row)

variable {σ : Type}

/-- An executor that has a state of its own, with a log of what it receives. -/
def Executor.logging (answer : Query → StateM σ Answer) : Executor (StateM (σ × List Query)) where
  query sql params := fun (s, log) ↦
    let (a, s) := (answer (sql, params)).run s
    (a, s, log ++ [(sql, params)])
  note _ := pure ()

inductive Call
  | execute (b : Batch)
  | upsert (row : Row) (target : ConflictTarget) (action : Action)
  | upsertKey (row : Row) (target : ConflictTarget) (action : Action)
  | insertOrIgnore (rows : List Row) (target : Option ConflictTarget)

inductive Reply
  | outcomes (result : Except UpsertError (List Outcome))
  | row (result : Except UpsertError (Option Row))
  | key (result : Except UpsertError (Option (List Value)))

namespace Call

variable (t : Target)

def batch : Call → Batch
  | .execute b => b
  | .upsert row target action => { rows := [row], conflictTarget := some target, action, returnFullRow := true }
  | .upsertKey row target action => { rows := [row], conflictTarget := some target, action }
  | .insertOrIgnore rows target => { rows, conflictTarget := target, action := .nothing }

def reply (result : Except UpsertError (List Outcome)) : Call → Reply
  | .execute _ | .insertOrIgnore _ _ => .outcomes result
  | .upsert _ _ _ => .row (result.map fun outcomes ↦ outcomes.head?.bind Outcome.row?)
  | .upsertKey _ _ _ =>
    .key ((result.map fun outcomes ↦ outcomes.head?.bind Outcome.row?).map fun row? ↦
      row?.map fun row ↦ t.primaryKey.map row.get)

def run {m : Type → Type} [Monad m] (u : Upserter m) : Call → m Reply
  | .execute b => .outcomes <$> u.execute b
  | .upsert row target action => .row <$> u.upsert row target action
  | .upsertKey row target action => .key <$> u.upsertKey row target action
  | .insertOrIgnore rows target => .outcomes <$> u.insertOrIgnore rows target

def query? (c : Call) : Option Query :=
  if c.batch.rows.isEmpty then none else (t.prepare c.batch).toOption.map fun st ↦ (st.sql, st.params)

/-- What the call replies by the answer to its statement; there is no answer where nothing is sent. -/
inductive Settles (c : Call) : Option Answer → Reply → Prop
  | empty (h : c.batch.rows = []) : Settles c none (c.reply t (.ok []))
  | rejected {e : UpsertError} (h : c.batch.rows ≠ []) (hp : t.prepare c.batch = .error e) :
    Settles c none (c.reply t (.error e))
  | failed {st : Statement} (e : DbError) (hp : t.prepare c.batch = .ok st) :
    Settles c (some (.error e)) (c.reply t (.error (.database e)))
  | answered {st : Statement} (returned : List Row) (hp : t.prepare c.batch = .ok st) :
    Settles c (some (.ok returned)) (c.reply t (reconcile st.keySources c.batch.rows returned))

end Call

theorem Call.run_eq {m : Type → Type} [Monad m] [LawfulMonad m] (u : Upserter m) (c : Call) :
    c.run u = (c.reply u.target ·) <$> u.execute c.batch := by
  cases c <;> simp [run, batch, reply, Upserter.upsert, Upserter.upsertKey, Upserter.single, Upserter.insertOrIgnore]

section

variable {t : Target} {answer : Query → StateM σ Answer} {s s' : σ} {b : Batch} {st : Statement}

theorem run_query {sql : String} {params : List Value} {a : Answer} (ha : (answer (sql, params)).run s = (a, s'))
    (log : List Query) :
    StateT.run (m := Id) ((Executor.logging answer).query sql params) (s, log) =
      pure (a, s', log ++ [(sql, params)]) := by
  change (let (a, s) := (answer (sql, params)).run s; (a, s, log ++ [(sql, params)])) = _
  rw [ha]
  rfl

theorem note_eq (e : Event) : (Executor.logging answer).note e = pure () := rfl

theorem execute_of_nil (h : b.rows = []) (s : σ) (log : List Query) :
    (Upserter.execute ⟨.logging answer, t⟩ b).run (s, log) = (.ok [], s, log) := by
  rw [Upserter.execute, h]
  rfl

theorem execute_of_rejected {e : UpsertError} (h : b.rows ≠ []) (hp : t.prepare b = .error e) (s : σ)
    (log : List Query) : (Upserter.execute ⟨.logging answer, t⟩ b).run (s, log) = (.error e, s, log) := by
  rw [Upserter.execute, if_neg (by simpa using h), hp]
  rfl

theorem execute_of_failed {e : DbError} (hp : t.prepare b = .ok st)
    (ha : (answer (st.sql, st.params)).run s = (.error e, s')) (log : List Query) :
    (Upserter.execute ⟨.logging answer, t⟩ b).run (s, log) =
      (.error (.database e), s', log ++ [(st.sql, st.params)]) := by
  rw [Upserter.execute, if_neg (by simpa using Target.rows_ne_nil_of_prepare hp), hp]
  simp only [note_eq, pure_bind, StateT.run_bind, run_query ha]
  rfl

theorem execute_of_answered {returned : List Row} (hp : t.prepare b = .ok st)
    (ha : (answer (st.sql, st.params)).run s = (.ok returned, s')) (log : List Query) :
    (Upserter.execute ⟨.logging answer, t⟩ b).run (s, log) =
      (reconcile st.keySources b.rows returned, s', log ++ [(st.sql, st.params)]) := by
  rw [Upserter.execute, if_neg (by simpa using Target.rows_ne_nil_of_prepare hp), hp]
  simp only [note_eq, pure_bind, StateT.run_bind, run_query ha]
  cases reconcile st.keySources b.rows returned <;> rfl

namespace Call

variable {c : Call}

theorem run_of_execute {result : Except UpsertError (List Outcome)} {x y : σ × List Query}
    (h : (Upserter.execute ⟨.logging answer, t⟩ c.batch).run x = (result, y)) :
    (c.run ⟨.logging answer, t⟩).run x = (c.reply t result, y) := by
  have h : StateT.run (m := Id) (Upserter.execute ⟨.logging answer, t⟩ c.batch) x = pure (result, y) := h
  rw [run_eq, StateT.run_map, h]
  rfl

/-- A reply hangs on the batch of the call and the answer to its statement, and on nothing else. -/
theorem Settles.unique {a : Option Answer} {r r' : Reply} (h : c.Settles t a r) (h' : c.Settles t a r') : r = r' := by
  cases h with
  | empty h =>
    cases h' with
    | empty _ => rfl
    | rejected hn _ => exact absurd h hn
  | rejected hn hp =>
    cases h' with
    | empty h => exact absurd h hn
    | rejected _ hp' =>
      cases hp.symm.trans hp'
      rfl
  | failed e hp =>
    cases h' with
    | failed _ _ => rfl
  | answered returned hp =>
    cases h' with
    | answered _ hp' =>
      cases hp.symm.trans hp'
      rfl

theorem run_cases (t : Target) (answer : Query → StateM σ Answer) (c : Call) (s : σ) :
    (c.query? t = none ∧ ∃ r, c.Settles t none r ∧
      ∀ log, (c.run ⟨.logging answer, t⟩).run (s, log) = (r, s, log)) ∨
    ∃ q a s' r, c.query? t = some q ∧ (answer q).run s = (a, s') ∧ c.Settles t (some a) r ∧
      ∀ log, (c.run ⟨.logging answer, t⟩).run (s, log) = (r, s', log ++ [q]) := by
  by_cases h : c.batch.rows = []
  · left
    refine ⟨by simp [query?, h], _, .empty h, ?_⟩
    intro log
    exact run_of_execute (execute_of_nil h s log)
  · cases hp : t.prepare c.batch with
    | error e =>
      left
      refine ⟨by simp [query?, hp, Except.toOption], _, .rejected h hp, ?_⟩
      intro log
      exact run_of_execute (execute_of_rejected h hp s log)
    | ok st =>
      right
      have hq : c.query? t = some (st.sql, st.params) := by simp [query?, h, hp, Except.toOption]
      cases ha : (answer (st.sql, st.params)).run s with
      | mk a s' =>
        cases a with
        | error e =>
          refine ⟨_, _, s', _, hq, ha, .failed e hp, ?_⟩
          intro log
          exact run_of_execute (execute_of_failed hp ha log)
        | ok returned =>
          refine ⟨_, _, s', _, hq, ha, .answered returned hp, ?_⟩
          intro log
          exact run_of_execute (execute_of_answered hp ha log)

end Call

end

theorem run_mapM_cons {τ α β : Type} {f : α → StateM τ β} {x : α} {xs : List α} {y : β} {ys : List β} {s₀ s₁ s₂ : τ}
    (h : (f x).run s₀ = (y, s₁)) (hs : (xs.mapM f).run s₁ = (ys, s₂)) :
    ((x :: xs).mapM f).run s₀ = (y :: ys, s₂) := by
  have h : StateT.run (m := Id) (f x) s₀ = pure (y, s₁) := h
  have hs : StateT.run (m := Id) (xs.mapM f) s₁ = pure (ys, s₂) := hs
  simp only [List.mapM_cons, StateT.run_bind, h, hs, pure_bind]
  rfl

theorem exists_exchanges (t : Target) (answer : Query → StateM σ Answer) (calls : List Call) (s : σ)
    (log : List Query) : ∃ (exchanges : List (Option Answer × Reply)) (s' : σ),
      (calls.mapM (Call.run ⟨.logging answer, t⟩)).run (s, log) =
        (exchanges.map Prod.snd, s', log ++ calls.filterMap (Call.query? t)) ∧
      ((calls.filterMap (Call.query? t)).mapM answer).run s = (exchanges.filterMap Prod.fst, s') ∧
      List.Forall₂ (fun c x ↦ c.Settles t x.1 x.2) calls exchanges := by
  induction calls generalizing s log with
  | nil =>
    refine ⟨[], s, ?_, rfl, .nil⟩
    rw [List.filterMap_nil, List.append_nil]
    rfl
  | cons c calls ih =>
    rcases Call.run_cases t answer c s with ⟨hq, r, hc, hr⟩ | ⟨q, a, s₁, r, hq, ha, hc, hr⟩
    · obtain ⟨exchanges, s', hrun, hanswers, hsettles⟩ := ih s log
      have hsent : (c :: calls).filterMap (Call.query? t) = calls.filterMap (Call.query? t) :=
        List.filterMap_cons_none hq
      rw [hsent]
      exact ⟨(none, r) :: exchanges, s', run_mapM_cons (hr log) hrun, hanswers, .cons hc hsettles⟩
    · obtain ⟨exchanges, s', hrun, hanswers, hsettles⟩ := ih s₁ (log ++ [q])
      have hsent : (c :: calls).filterMap (Call.query? t) = q :: calls.filterMap (Call.query? t) :=
        List.filterMap_cons_some hq
      rw [hsent]
      refine ⟨(some a, r) :: exchanges, s', ?_, run_mapM_cons ha hanswers, .cons hc hsettles⟩
      rw [← List.append_cons] at hrun
      exact run_mapM_cons (hr log) hrun

/-- One statement is sent for each batch that can be prepared, in the order of the calls, and each call is settled by
the answer to its own. -/
theorem one_statement_each (t : Target) (answer : Query → StateM σ Answer) (calls : List Call) (s : σ)
    (log : List Query) :
    (∃ (exchanges : List (Option Answer × Reply)) (s' : σ),
      (calls.mapM (Call.run ⟨.logging answer, t⟩)).run (s, log) =
        (exchanges.map Prod.snd, s', log ++ calls.filterMap (Call.query? t)) ∧
      ((calls.filterMap (Call.query? t)).mapM answer).run s = (exchanges.filterMap Prod.fst, s') ∧
      List.Forall₂ (fun c x ↦ c.Settles t x.1 x.2) calls exchanges) ∧
    ∀ (c : Call) (a : Option Answer) (r r' : Reply), c.Settles t a r → c.Settles t a r' → r = r' :=
  ⟨exists_exchanges t answer calls s log, fun _ _ _ _ ↦ Call.Settles.unique⟩

end Upsert
