import GraphExport.Job.QueryExport
import GraphExport.Proofs.Crew.Alone
import GraphExport.Proofs.Job.Deeds
import GraphExport.Proofs.Job.Rows

/-!
# GraphExport.Proofs.Job.QueryDeeds

A query job of one worker. What the worker does for a query follows from the query's answers alone,
and the job does it for one query after the other.

* `Delivery.rows`, `Delivery.fails`: what a query delivers before it fails, and whether it fails.
* `QueryExport.deeds`: what is done for a query.
* `QueryExport.does_attempt`: a worker that takes a query does that, or the file system stops it.
* `QueryExport.left?_work`: so what a job leaves is what its deeds leave.
-/

namespace GraphExport

/-! ## Answers -/

namespace Delivery

/-- The rows of a query up to the first answer that is none. -/
def rows (d : Delivery Answer) : List Row :=
  go d.items
where
  go : List Answer → List Row
    | .row r :: rest => r :: go rest
    | _ => []

/-- The query ends with a failure, or it has an answer that is no row. -/
def fails (d : Delivery Answer) : Bool :=
  d.failure.isSome || d.items.any fun
    | .row _ => false
    | .value _ => true

/-- If the query fails, it is not for the disk. Nor does a query fail for want of a handle, which is
how a worker is told to wait. -/
def FailsSoftly (d : Delivery Answer) : Prop :=
  ∀ f, d.failure = some f → f.cause ≠ .io ∧ f.cause ≠ .handlesBusy

theorem failsSoftly_of_none {d : Delivery Answer} (h : d.failure = none) : d.FailsSoftly := by
  intro f hf
  rw [h] at hf
  cases hf

theorem rows_map (rows : List Row) : (⟨rows.map .row, none⟩ : Delivery Answer).rows = rows := by
  induction rows with
  | nil => rfl
  | cons r rest ih =>
    have hrest : rows.go (rest.map .row) = rest := ih
    rw [rows, List.map_cons, rows.go, hrest]

theorem fails_map (rows : List Row) : (⟨rows.map .row, none⟩ : Delivery Answer).fails = false := by
  simp [fails]

variable {σ : Type} {step : Answer → σ → Except Failure Unit × σ}

/-- How a feed of answers ends, if an answer that is no row is refused. -/
inductive Fed (d : Delivery Answer) (step : Answer → σ → Except Failure Unit × σ) (s : σ) :
    Except Failure Nat × σ → Prop where
  /-- The step failed on a row. -/
  | stopped {f : Failure} {s' : σ}
      (hfed : GraphExport.feed (fun r => step (.row r)) d.rows s = (.error f, s')) :
      Fed d step s (.error f, s')
  /-- All rows were taken, and then the query failed. -/
  | failed {f : Failure} {s' s'' : σ}
      (hfed : GraphExport.feed (fun r => step (.row r)) d.rows s = (.ok (), s'))
      (hfails : d.fails = true)
      (hend : (d.failure = some f ∧ s'' = s') ∨ ∃ v, step (.value v) s' = (.error f, s'')) :
      Fed d step s (.error f, s'')
  | done {s' : σ} (hfed : GraphExport.feed (fun r => step (.row r)) d.rows s = (.ok (), s'))
      (hfails : d.fails = false) : Fed d step s (.ok d.items.length, s')

theorem feed_answers (hvalue : ∀ v s, ∃ f s', step (.value v) s = (.error f, s'))
    (items : List Answer) (s : σ) :
    (∃ f s', GraphExport.feed (fun r => step (.row r)) (rows.go items) s = (.error f, s') ∧
        GraphExport.feed step items s = (.error f, s')) ∨
      ∃ s', GraphExport.feed (fun r => step (.row r)) (rows.go items) s = (.ok (), s') ∧
        (((⟨items, none⟩ : Delivery Answer).fails = false ∧
            GraphExport.feed step items s = (.ok (), s')) ∨
          (⟨items, none⟩ : Delivery Answer).fails = true ∧
            ∃ v f s'', step (.value v) s' = (.error f, s'') ∧
              GraphExport.feed step items s = (.error f, s'')) := by
  induction items generalizing s with
  | nil => exact .inr ⟨s, rfl, .inl ⟨rfl, rfl⟩⟩
  | cons a rest ih =>
    cases a with
    | value v =>
      obtain ⟨f, s', hstep⟩ := hvalue v s
      exact .inr ⟨s, rfl, .inr ⟨rfl, v, f, s', hstep, feed_cons_error hstep⟩⟩
    | row r =>
      rcases hstep : step (.row r) s with ⟨result, s₁⟩
      rw [rows.go]
      cases result with
      | error f =>
        exact .inl ⟨f, s₁, feed_cons_error hstep, feed_cons_error hstep⟩
      | ok _ =>
        rw [show GraphExport.feed (fun r => step (.row r)) (r :: rows.go rest) s =
          GraphExport.feed (fun r => step (.row r)) (rows.go rest) s₁ from feed_cons_ok hstep,
          feed_cons_ok hstep]
        exact ih s₁

theorem fed (hvalue : ∀ v s, ∃ f s', step (.value v) s = (.error f, s')) (d : Delivery Answer)
    (s : σ) : d.Fed step s (d.feed step s) := by
  have hfails : ∀ b, (⟨d.items, none⟩ : Delivery Answer).fails = b →
      d.fails = (d.failure.isSome || b) := by
    rintro b rfl
    rfl
  rcases feed_answers hvalue d.items s with ⟨f, s', hrows, hitems⟩ | ⟨s', hrows, hend⟩
  · rw [feed, hitems]
    exact .stopped hrows
  · rcases hend with ⟨hnone, hitems⟩ | ⟨hsome, v, f, s'', hstep, hitems⟩
    · rw [feed, hitems]
      cases hfailure : d.failure with
      | none => exact .done hrows (by rw [hfails _ hnone, hfailure]; rfl)
      | some f => exact .failed hrows (by rw [hfails _ hnone, hfailure]; rfl) (.inl ⟨hfailure, rfl⟩)
    · rw [feed, hitems]
      exact .failed hrows (by rw [hfails _ hsome, Bool.or_true]) (.inr ⟨v, hstep⟩)

end Delivery

/-! ## Queries -/

namespace QueryExport

variable {client : Client} {c : Config} {structured : Bool}

/-- What is done for a row. -/
def rowDeeds (c : Config) (structured : Bool) (name : String) (row : Row) : List Deed :=
  if structured then (filters c).deeds (.ofRow row)
  else [.row .results (.single name) (.columns (row.columns true)) (row.columns true)]

/-- The columns that the files start with after the rows of a query were looked at. -/
def seedDeeds (c : Config) (structured : Bool) (name : String) (rows : List Row) : List Deed :=
  if structured then
    let schema := rows.foldl (fun g row => scanElement (filters c) false (.ofRow row) g)
      GraphSchema.empty
    [.seed .nodes schema.nodes, .seed .edges schema.edges]
  else
    [.seed .results (rows.foldl (fun c row => c.update (.single name) (row.columns true) true) ∅)]

/-- What is done for a query. Of one that fails in the first of two passes nothing is written. -/
def deeds (client : Client) (c : Config) (structured : Bool) (q : NamedQuery) : List Deed :=
  let answers := client.answers q.query
  let written := answers.rows.flatMap (rowDeeds c structured q.name)
  if c.twoPass then
    if answers.fails then [.abandon] else seedDeeds c structured q.name answers.rows ++ written
  else written ++ if answers.fails then [.abandon] else []

/-- What a station does with an answer. -/
def answerStep (c : Config) (structured : Bool) (name : String) (a : Answer) (s : Station) :
    Except Failure Unit × Station :=
  if structured then s.tick.putRow (filters c) a else s.tick.fileRow name true a

theorem writeRows_eq (client : Client) (c : Config) (structured : Bool) (q : NamedQuery)
    (s : Station) : writeRows client c structured q s =
      (client.answers q.query).feed (answerStep c structured q.name) s := by
  cases structured <;> rfl

theorem answerStep_value (c : Config) (structured : Bool) (name : String) (v : Json)
    (s : Station) : answerStep c structured name (.value v) s =
      (.error (Cause.unexpectedRow v.kindName), s.tick) := by
  cases structured <;> rfl

theorem output_mem_kinds (kind : ElementKind) : kind.output ∈ kinds true := by
  cases kind <;> decide

variable {s s' : Station} {more : List Deed}

theorem does_answerStep (name : String) (row : Row) (h : s.Sound (kinds structured)) :
    s.Does (kinds structured) (rowDeeds c structured name row)
      (answerStep c structured name (.row row) s) := by
  have htick := h.tick
  cases structured with
  | true => exact .of_tick (htick.put (filters c) (.ofRow row) fun _ => output_mem_kinds _)
  | false => exact .of_tick (htick.fileRow (by decide) name row)

/-- What a worker does with a query, if only the failures that stop it count. -/
def attemptStep (client : Client) (c : Config) (structured : Bool) (number : Nat) (q : NamedQuery)
    (s : Station) : Except Failure Unit × Station :=
  ((attempt client c structured number q s).1.map fun _ => (),
    (attempt client c structured number q s).2)

/-- The rows of a query are written in their order. -/
theorem does_writeRows {q : NamedQuery} (hsoft : (client.answers q.query).FailsSoftly)
    (h : s.Sound (kinds structured)) :
    let written := (client.answers q.query).rows.flatMap (rowDeeds c structured q.name)
    (∃ f s', writeRows client c structured q s = (.error f, s') ∧
        s.Does (kinds structured) written (.error f, s')) ∨
      ∃ s', s.Does (kinds structured) written (.ok (), s') ∧
        (((client.answers q.query).fails = false ∧
            ∃ count, writeRows client c structured q s = (.ok count, s')) ∨
          (client.answers q.query).fails = true ∧
            ∃ f s'', writeRows client c structured q s = (.error f, s'') ∧
              (f.cause ≠ .io ∧ f.cause ≠ .handlesBusy) ∧ (s'' = s' ∨ s'' = s'.tick)) := by
  intro written
  have hdoes := Station.does_feed (l := (client.answers q.query).rows)
    (fun row _ s => does_answerStep (c := c) q.name row) h
  have hfed := Delivery.fed
    (fun v s => ⟨_, _, answerStep_value c structured q.name v s⟩) (client.answers q.query) s
  rw [← writeRows_eq] at hfed
  rcases hwrite : writeRows client c structured q s with ⟨result, s''⟩
  rw [hwrite] at hfed
  cases hfed with
  | stopped hrows =>
    rw [hrows] at hdoes
    exact .inl ⟨_, _, rfl, hdoes⟩
  | @failed f s' _ hrows hfails hend =>
    rw [hrows] at hdoes
    refine .inr ⟨s', hdoes, .inr ⟨hfails, f, s'', rfl, ?_⟩⟩
    rcases hend with ⟨hfailure, rfl⟩ | ⟨v, hvalue⟩
    · exact ⟨hsoft _ hfailure, .inl rfl⟩
    · rw [answerStep_value] at hvalue
      cases hvalue
      exact ⟨⟨nofun, nofun⟩, .inr rfl⟩
  | done hrows hfails =>
    rw [hrows] at hdoes
    exact .inr ⟨_, hdoes, .inl ⟨hfails, _, rfl⟩⟩

/-- The pass for the schema alone ends as the query does, and leaves the columns that it found. -/
theorem does_seed {q : NamedQuery} (hsoft : (client.answers q.query).FailsSoftly)
    (h : s.Sound (kinds structured)) :
    ((client.answers q.query).fails = true ∧
        ∃ f, seed client c structured q s.pool = (.error f, s.pool) ∧
          f.cause ≠ .io ∧ f.cause ≠ .handlesBusy) ∨
      (client.answers q.query).fails = false ∧
        ∃ pool, seed client c structured q s.pool = (.ok (), pool) ∧
          s.Does (kinds structured) (seedDeeds c structured q.name (client.answers q.query).rows)
            (.ok (), { s with pool }) := by
  -- However the rows are recorded, no row is refused.
  have hscan : ∀ {σ : Type} {step : Answer → σ → Except Failure Unit × σ} {next : Row → σ → σ},
      (∀ r s, step (.row r) s = (.ok (), next r s)) →
      (∀ v s, step (.value v) s = (.error (Cause.unexpectedRow v.kindName), s)) → ∀ s,
      ((client.answers q.query).fails = true ∧ ∃ f s', (client.answers q.query).feed step s =
          (.error f, s') ∧ f.cause ≠ .io ∧ f.cause ≠ .handlesBusy) ∨
        ((client.answers q.query).fails = false ∧ ∃ count, (client.answers q.query).feed step s =
          (.ok count, (client.answers q.query).rows.foldl (fun s r => next r s) s)) := by
    intro σ step next hrow hvalue s
    have hfed := Delivery.fed (fun v s => ⟨_, _, hvalue v s⟩) (client.answers q.query) s
    have hrows : GraphExport.feed (fun r => step (.row r)) (client.answers q.query).rows s = _ :=
      feed_total hrow _ s
    rcases hfeed : (client.answers q.query).feed step s with ⟨result, s''⟩
    rw [hfeed] at hfed
    cases hfed with
    | stopped hstopped =>
      rw [hrows] at hstopped
      cases hstopped
    | failed _ hfails hend =>
      refine .inl ⟨hfails, _, _, rfl, ?_⟩
      rcases hend with ⟨hfailure, -⟩ | ⟨v, hstep⟩
      · exact hsoft _ hfailure
      · rw [hvalue] at hstep
        cases hstep
        exact ⟨nofun, nofun⟩
    | done hdone hfails =>
      rw [hrows] at hdone
      cases hdone
      exact .inr ⟨hfails, _, rfl⟩
  unfold seed seedDeeds
  cases structured with
  | true =>
    rcases @hscan _ (scanRow (filters c) false) _ (fun _ _ => rfl) (fun _ _ => rfl)
      GraphSchema.empty with ⟨hfails, f, schema, hfeed, hcause⟩ | ⟨hfails, count, hfeed⟩
    · exact .inl ⟨hfails, f, by simp only [if_true, hfeed], hcause⟩
    · refine .inr ⟨hfails, _, by simp only [if_true, hfeed]; rfl, ?_⟩
      have hnodes := h.seedWith .nodes
      exact (hnodes _).append ((hnodes _).sound.seedWith .edges _)
  | false =>
    rcases @hscan _ (scanFiledRow q.name true) _ (fun _ _ => rfl) (fun _ _ => rfl)
      ∅ with ⟨hfails, f, schema, hfeed, hcause⟩ | ⟨hfails, count, hfeed⟩
    · exact .inl ⟨hfails, f, by simp [hfeed], hcause⟩
    · exact .inr ⟨hfails, _, by simp [hfeed], h.seedWith .results _⟩

/-- A failure that is not for the disk costs the query at hand. -/
theorem attemptStep_soft {number : Nat} {q : NamedQuery} {f : Failure}
    (h : execute client c structured q s = (.error f, s'))
    (hsoft : f.cause ≠ .io ∧ f.cause ≠ .handlesBusy) :
    attemptStep client c structured number q s = (.ok (), s'.tally Stats.abandon) := by
  have hfatal : f.isFatal = false := by simpa [Failure.isFatal] using hsoft.1
  simp only [attemptStep, attempt, h, hfatal, Bool.false_eq_true, if_false, if_neg hsoft.2]
  rfl

theorem attemptStep_ok {number count : Nat} {q : NamedQuery}
    (h : execute client c structured q s = (.ok count, s')) :
    attemptStep client c structured number q s = (.ok (), s') := by
  simp only [attemptStep, attempt, h]
  rfl

theorem attemptStep_io {q : NamedQuery} {f : Failure} (number : Nat)
    (h : execute client c structured q s = (.error f, s')) (hio : f.cause = .io) :
    ∃ g, attemptStep client c structured number q s = (.error g, s') ∧ g.cause = .io := by
  have hfatal : f.isFatal = true := by simp [Failure.isFatal, hio]
  refine ⟨f.within (taskContext number ("query " ++ q.name)), ?_, hio⟩
  simp only [attemptStep, attempt, h, hfatal, if_true]
  rfl

/-- A worker that writes the rows of a query and then counts the query, if it failed. -/
theorem does_written {q : NamedQuery} (hsoft : (client.answers q.query).FailsSoftly) (number : Nat)
    (hexecute : execute client c structured q s = writeRows client c structured q s')
    (hs : s.Does (kinds structured) more (.ok (), s')) :
    s.Does (kinds structured) (more ++ ((client.answers q.query).rows.flatMap
        (rowDeeds c structured q.name) ++
          if (client.answers q.query).fails then [.abandon] else []))
      (attemptStep client c structured number q s) := by
  rcases does_writeRows (c := c) hsoft hs.sound with
    ⟨f, s₁, hwrite, hdoes⟩ |
      ⟨s₁, hdoes, ⟨hfails, count, hwrite⟩ | ⟨hfails, f, s₂, hwrite, hcause, hs₂⟩⟩
  · have hio := hdoes.onlyIo f rfl
    obtain ⟨g, hattempt, hg⟩ := attemptStep_io number (hexecute.trans hwrite) hio
    rw [hattempt]
    exact hs.append ((hdoes.append_error _).of_io hg)
  · rw [attemptStep_ok (hexecute.trans hwrite), hfails]
    simpa using hs.append hdoes
  · rw [attemptStep_soft (hexecute.trans hwrite) hcause, hfails]
    have habandon : s₁.Does (kinds structured) [.abandon] (.ok (), s₂.tally Stats.abandon) := by
      rcases hs₂ with rfl | rfl
      · exact hdoes.sound.abandon
      · exact .of_tick hdoes.sound.tick.abandon
    exact hs.append (hdoes.append habandon)

/-- A worker that takes a query does what there is to be done for it, or the file system stops
it. -/
theorem does_attempt {q : NamedQuery} (hsoft : (client.answers q.query).FailsSoftly) (number : Nat)
    (h : s.Sound (kinds structured)) :
    s.Does (kinds structured) (deeds client c structured q)
      (attemptStep client c structured number q s) := by
  unfold deeds
  cases hpass : c.twoPass with
  | false =>
    have hexecute : execute client c structured q s = writeRows client c structured q s := by
      simp [execute, hpass]
    exact does_written hsoft number hexecute (.nil h)
  | true =>
    rcases does_seed (c := c) hsoft h with
      ⟨hfails, f, hseed, hcause⟩ | ⟨hfails, pool, hseed, hdoes⟩
    · have hexecute : execute client c structured q s = (.error f, s) := by
        simp [execute, hpass, hseed]
      rw [attemptStep_soft hexecute hcause]
      simp only [if_true, hfails]
      exact h.abandon
    · have hexecute : execute client c structured q s =
          writeRows client c structured q { s with pool } := by
        simp [execute, hpass, hseed]
      have := does_written hsoft number hexecute hdoes
      simpa [hfails] using this

/-! ## The queue -/

theorem progress_answerStep (name : String) (a : Answer) (s : Station) :
    (answerStep c structured name a s).2.shared.progress = s.shared.progress.tick := by
  cases a with
  | value v => rw [answerStep_value]; rfl
  | row r =>
    cases structured with
    | true => exact Station.progress_put (filters c) (.ofRow r) s.tick
    | false =>
      simp only [answerStep, Bool.false_eq_true, if_false, Station.fileRow, Answer.asRow,
        Station.record]
      rcases s.tick.pool.writeColumns .results (.single name) (r.columns true) s.tick.shared.disk
        with ⟨result, pool, disk⟩
      cases result <;> rfl

/-- No query puts up the flag. -/
theorem halted_attemptStep (client : Client) (c : Config) (structured : Bool) (number : Nat)
    (q : NamedQuery) (s : Station) :
    (attemptStep client c structured number q s).2.shared.progress.halted =
      s.shared.progress.halted := by
  have hwrite : ∀ s : Station, (writeRows client c structured q s).2.shared.progress.halted =
      s.shared.progress.halted := by
    intro s
    rw [writeRows_eq, Delivery.feed_snd]
    refine feed_keeps (P := fun t : Station => t.shared.progress.halted = s.shared.progress.halted)
      (fun a t ht => ?_) _ rfl
    rw [progress_answerStep]
    exact ht
  have hexecute : (execute client c structured q s).2.shared.progress.halted =
      s.shared.progress.halted := by
    unfold execute
    split
    · split
      · rfl
      · exact hwrite _
    · exact hwrite s
  simp only [attemptStep, attempt]
  rcases hrun : execute client c structured q s with ⟨result, s'⟩
  rw [hrun] at hexecute
  cases result with
  | ok count => exact hexecute
  | error f =>
    dsimp only
    split
    · exact hexecute
    · split
      · exact hexecute
      · exact hexecute

theorem perform_query (client : Client) (c : Config) (structured : Bool) (number : Nat)
    (q : NamedQuery) (pool : Pool) (shared : Shared) :
    (duty client c structured).perform number q pool shared =
      ((attempt client c structured number q ⟨pool, shared⟩).1,
        (attemptStep client c structured number q ⟨pool, shared⟩).2.pool,
        (attemptStep client c structured number q ⟨pool, shared⟩).2.shared) := rfl

/-- The run of a worker by itself is one feed of the queue. -/
theorem run_queue (queue : List NamedQuery) {n : Nat} (hn : queue.length ≤ n) (pool : Pool)
    {shared : Shared} (hh : shared.progress.halted = false) (number : Nat) :
    Worker.EndsWith (feed (attemptStep client c structured number) queue ⟨pool, shared⟩)
      (Worker.run (duty client c structured) (Worker.stepsFor n) ⟨number, pool, .testing⟩
        ⟨queue, shared⟩) := by
  induction queue generalizing n pool shared with
  | nil =>
    have hclaim : (duty client c structured).claim (⟨[], shared⟩ : Floor (List NamedQuery)).supply =
      (none, []) := rfl
    rw [feed_nil, show Worker.stepsFor n = 4 * n + 2 + 2 by simp only [Worker.stepsFor]; omega,
      Worker.run_runsOut (s := ⟨[], shared⟩) (w := ⟨number, pool, .testing⟩) rfl hh hclaim]
    exact ⟨rfl, _, rfl⟩
  | cons q rest ih =>
    obtain ⟨n, rfl⟩ : ∃ m, n = m + 1 :=
      ⟨n - 1, by simp only [List.length_cons] at hn; omega⟩
    have hclaim : (duty client c structured).claim
        (⟨q :: rest, shared⟩ : Floor (List NamedQuery)).supply = (some q, rest) := rfl
    have hperform := perform_query client c structured number q pool shared
    have hhalted := halted_attemptStep client c structured number q ⟨pool, shared⟩
    rcases hstep : attemptStep client c structured number q ⟨pool, shared⟩ with ⟨result, s⟩
    rw [hstep] at hperform hhalted
    rw [show Worker.stepsFor (n + 1) = Worker.stepsFor n + 1 + 3 by
      simp only [Worker.stepsFor]; omega]
    have hresult : (attempt client c structured number q ⟨pool, shared⟩).1.map (fun _ => ()) =
        result := congrArg Prod.fst hstep
    cases hattempt : (attempt client c structured number q ⟨pool, shared⟩).1 with
    | error f =>
      rw [hattempt] at hperform hresult
      obtain rfl : .error f = result := hresult
      rw [feed_cons_error hstep]
      by_cases hf : f.cause = .handlesBusy
      · exact .inl hf
      · refine .inr ?_
        rw [Worker.run_fails (s := ⟨q :: rest, shared⟩) (w := ⟨number, pool, .testing⟩) rfl hh
          hclaim hperform hf]
        exact ⟨f, rfl, rfl⟩
    | ok count =>
      rw [hattempt] at hperform hresult
      obtain rfl : .ok () = result := hresult
      rw [feed_cons_ok hstep, Worker.run_round (s := ⟨q :: rest, shared⟩)
        (w := ⟨number, pool, .testing⟩) rfl hh hclaim hperform]
      exact ih (by simp only [List.length_cons] at hn; omega) s.pool (hhalted.trans hh)

/-! ## The job -/

theorem queue_unsplit (client : Client) (c : Config) (groups : List NamedQueries)
    (cache : PlanCache) : queue client c false groups cache =
      .ok (groups.flatMap NamedQueries.flat) := by
  induction groups generalizing cache with
  | nil => rfl
  | cons group groups ih =>
    simp only [queue, Bool.false_eq_true, if_false, ih]
    rfl

/-- The desk at which a job begins. -/
def startDesk (c : Config) (structured : Bool) (dir : Path) (t : FileTree) : Desk :=
  ⟨Pool.ledger { dir, format := c.format, kinds := kinds structured } ⟨t, 0, { max := 0 }⟩, {}⟩

/-- All that is done for a list of queries. -/
def allDeeds (client : Client) (c : Config) (structured : Bool) (queries : List NamedQuery) :
    List Deed :=
  queries.flatMap (deeds client c structured)

/-- The crew at the start of a job. -/
def startCrew (c : Config) (structured : Bool) (queries : List NamedQuery) (dir : Path)
    (t : FileTree) : Crew (List NamedQuery) NamedQuery Pool (PerKind Fragments) :=
  Crew.start c.workers { dir, format := c.format, kinds := kinds structured } queries
    { disk := ⟨t, 0, { max := c.maxHandles }⟩ }

/-- A worker by itself does all that there is to be done, or the file system stops it. -/
theorem drain_alone {queries : List NamedQuery}
    (hsoft : ∀ q ∈ queries, (client.answers q.query).FailsSoftly) (hworkers : c.workers = 1)
    (structured : Bool) (dir : Path) (t : FileTree) :
    let k := (startDesk c structured dir t).takeAll (allDeeds client c structured queries)
    let crew := (startCrew c structured queries dir t).finish (duty client c structured)
      queries.length
    (∃ f, crew.results = .error f ∧ f.cause = .io ∧ k.1.isOk = false) ∨
      (crew.results = .ok [k.2.ledger.fragments] ∧ k.1 = .ok () ∧
        crew.floor.shared.disk.tree = k.2.ledger.tree ∧ crew.floor.shared.stats = k.2.stats) := by
  intro k crew
  let shared : Shared := { disk := ⟨t, 0, { max := c.maxHandles }⟩ }
  have hclosed : shared.disk.budget.openCount = 0 := rfl
  have hdoes := Station.does_feed
    (fun q hq s hs => does_attempt (c := c) (hsoft q hq) 0 hs)
    (Station.sound_new dir c.format (kinds structured) hclosed)
  have hrun : Worker.EndsWith (feed (attemptStep client c structured 0) queries ⟨_, shared⟩) _ :=
    run_queue queries (Nat.le_refl _) { dir, format := c.format, kinds := kinds structured } rfl 0
  have hcrew : crew = (Crew.start 1 { dir, format := c.format, kinds := kinds structured } queries
      shared).finish (duty client c structured) queries.length := by
    simp only [crew, startCrew, hworkers, shared]
  obtain ⟨hfails, hends⟩ := Crew.ends_alone hrun hdoes.onlyIo
  rw [← hcrew] at hfails hends
  rcases hdoes.takeAll_cases with ⟨s, heq, htake⟩ | ⟨f, g, s, heq, htake⟩
  · obtain ⟨hresults, progress, hshared⟩ := hends (by rw [heq])
    rw [heq] at hresults hshared
    have hk : k = (.ok (), s.desk) := htake
    rw [hk]
    refine .inr ⟨?_, rfl, congrArg (·.disk.tree) hshared, congrArg (·.stats) hshared⟩
    rw [hresults, Pool.fragments_close]
    rfl
  · obtain ⟨g', hresults, hio⟩ := hfails f (by rw [heq])
    have hk : k = (.error g, s.desk) := htake
    rw [hk]
    exact .inl ⟨g', hresults, hio, rfl⟩

theorem reconcileKinds_onlyIo (format : Format) (left : List (PerKind Fragments)) (t : FileTree) :
    OnlyIo (reconcileKinds format left t).1 := by
  have hkind := fun kind context fragments t =>
    reconcileKind_onlyIo format kind context fragments t
  unfold reconcileKinds
  split
  · rename_i f t₁ hnodes
    exact onlyIo_error (hkind _ _ _ _ f (congrArg Prod.fst hnodes))
  · split
    · rename_i f t₁ hedges
      exact onlyIo_error (hkind _ _ _ _ f (congrArg Prod.fst hedges))
    · split
      · rename_i f t₁ hresults
        exact onlyIo_error (hkind _ _ _ _ f (congrArg Prod.fst hresults))
      · exact onlyIo_ok _

/-- What a job leaves at the end if its deeds are done. -/
def closing (c : Config) (dir : Path) (done : Except Failure Unit × Desk) :
    Option (GraphSchema × Stats × FileTree) :=
  match done with
  | (.error _, _) => none
  | (.ok _, k) =>
    match reconcileKinds c.format [k.ledger.fragments] k.ledger.tree with
    | (.error _, _) => none
    | (.ok schema, t) =>
      match Job.writeArtifacts dir schema k.stats t with
      | (.error _, _) => none
      | (.ok _, t) => some (schema, k.stats, t)

/-- All that a worker by itself leaves follows from its deeds. -/
theorem left?_work {groups : List NamedQueries}
    (hsoft : ∀ q ∈ groups.flatMap NamedQueries.flat, (client.answers q.query).FailsSoftly)
    (hworkers : c.workers = 1) (structured : Bool) (dir : Path) (t : FileTree) :
    OnlyIo (work client c groups structured false [] dir t).1 ∧
      Job.left? (work client c groups structured false [] dir t) =
        closing c dir ((startDesk c structured dir t).takeAll
          (allDeeds client c structured (groups.flatMap NamedQueries.flat))) := by
  have hdrain : drain client c dir structured [] (groups.flatMap NamedQueries.flat)
      ⟨t, 0, { max := c.maxHandles }⟩ =
      (((startCrew c structured (groups.flatMap NamedQueries.flat) dir t).finish
          (duty client c structured) (groups.flatMap NamedQueries.flat).length).results,
        ((startCrew c structured (groups.flatMap NamedQueries.flat) dir t).finish
          (duty client c structured) (groups.flatMap NamedQueries.flat).length).floor.shared) := rfl
  unfold work
  simp only [queue_unsplit, hdrain]
  rcases drain_alone hsoft hworkers structured dir t with ⟨f, hresults, hio, hdone⟩ |
      ⟨hresults, hdone, htree, hstats⟩
  · rw [hresults]
    rcases hk : (startDesk c structured dir t).takeAll (allDeeds client c structured
      (groups.flatMap NamedQueries.flat)) with ⟨result, k⟩
    rw [hk] at hdone
    cases result with
    | ok _ => cases hdone
    | error g => exact ⟨onlyIo_error hio, rfl⟩
  · rcases hk : (startDesk c structured dir t).takeAll (allDeeds client c structured
      (groups.flatMap NamedQueries.flat)) with ⟨result, k⟩
    rw [hk] at hresults hdone htree hstats
    obtain rfl : result = .ok () := hdone
    have hkinds := reconcileKinds_onlyIo c.format [k.ledger.fragments] k.ledger.tree
    simp only [hresults, closing]
    rw [htree, hstats]
    rcases hreconcile : reconcileKinds c.format [k.ledger.fragments] k.ledger.tree with
      ⟨result, t₁⟩
    rw [hreconcile] at hkinds
    cases result with
    | error f => exact ⟨onlyIo_error (hkinds f rfl), rfl⟩
    | ok schema =>
      have hartifacts := Job.writeArtifacts_onlyIo dir schema k.stats t₁
      simp only
      rcases hwrite : Job.writeArtifacts dir schema k.stats t₁ with ⟨result, t₂⟩
      rw [hwrite] at hartifacts
      cases result with
      | error f => exact ⟨onlyIo_error (hartifacts f rfl), rfl⟩
      | ok _ =>
        refine ⟨onlyIo_ok _, ?_⟩
        simp only [Job.left?, Shared.summary, hstats]

/-- So it is of a job in its output directory. -/
theorem left?_run {groups : List NamedQueries}
    (hsoft : ∀ q ∈ groups.flatMap NamedQueries.flat, (client.answers q.query).FailsSoftly)
    (hworkers : c.workers = 1) (hvalid : c.validateForQueries structured = .ok ()) (t : FileTree) :
    OnlyIo (run client c groups structured false t).1 ∧
      Job.left? (run client c groups structured false t) =
        (t.openWay c.dir).bind fun way =>
          (closing c c.dir.home ((startDesk c structured c.dir.home
            (way.2.view way.1 c.dir.home)).takeAll (allDeeds client c structured
              (groups.flatMap NamedQueries.flat)))).map fun left =>
            (left.1, left.2.1, way.2.withView way.1 c.dir.home left.2.2) := by
  have hwork := left?_work hsoft hworkers structured
  have hrun : run client c groups structured false t =
      Job.inOutput c.dir t (work client c groups structured false []) := by
    simp only [run, runWith, hvalid]
  rw [hrun, Job.left?_inOutput]
  refine ⟨Job.inOutput_onlyIo fun home view => (hwork home view).1, ?_⟩
  simp only [(hwork _ _).2]

end QueryExport

end GraphExport
