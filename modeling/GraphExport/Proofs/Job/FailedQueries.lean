import GraphExport.Proofs.Job.QueryDeeds

/-!
# GraphExport.Proofs.Job.FailedQueries

A query that fails costs itself and nothing else.

* `Desk.takeAll_forgiven`: deeds do to the files what they do without the queries that are given up
  among them.
* `QueryExport.takes_each`: a worker by itself takes every query once.
* `QueryExport.failed_query_costs_itself`: a job with queries that fail leaves what the job leaves
  in which these deliver their rows and end well, or, in two passes, the job without them.
-/

namespace GraphExport

/-! ## Deeds without the queries that are given up -/

def Deed.isAbandon : Deed → Bool
  | .abandon => true
  | _ => false

/-- The statistics but for the queries that were given up. -/
def Stats.forgiven (s : Stats) : Stats := { s with abandoned := 0 }

namespace Desk

variable {deeds : List Deed} {k k' : Desk}

def forgiven (k : Desk) : Desk := { k with stats := k.stats.forgiven }

theorem take_forgiven {d : Deed} (hd : d.isAbandon = false) (k : Desk) :
    take d k.forgiven = ((take d k).1, (take d k).2.forgiven) := by
  cases d with
  | seed kind schemas => rfl
  | row kind label item properties =>
    simp only [take]
    rw [show k.forgiven.ledger = k.ledger from rfl]
    rcases k.ledger.act (.write kind label item) with ⟨result, ledger⟩
    cases result <;> rfl
  | skip => rfl
  | abandon => cases hd

/-- Deeds do to the files what they do without the queries that are given up among them. -/
theorem takeAll_forgiven (deeds : List Deed) (k : Desk) :
    takeAll (deeds.filter fun d => !d.isAbandon) k.forgiven =
      ((takeAll deeds k).1, (takeAll deeds k).2.forgiven) := by
  induction deeds generalizing k with
  | nil => rfl
  | cons d rest ih =>
    cases hd : d.isAbandon with
    | true =>
      obtain rfl : d = .abandon := by cases d <;> first | rfl | cases hd
      rw [List.filter_cons_of_neg (by simp [hd])]
      exact ih { k with stats := k.stats.abandon }
    | false =>
      have htake := take_forgiven hd k
      rw [List.filter_cons_of_pos (by simp [hd])]
      unfold takeAll
      rcases hstep : take d k with ⟨result, k₁⟩
      rw [hstep] at htake
      cases result with
      | error f => rw [feed_cons_error hstep, feed_cons_error htake]
      | ok _ =>
        rw [feed_cons_ok hstep, feed_cons_ok htake]
        exact ih k₁

theorem abandoned_take {d : Deed} (h : take d k = (.ok (), k')) :
    k'.stats.abandoned = k.stats.abandoned + if d.isAbandon then 1 else 0 := by
  cases d with
  | seed kind schemas =>
    cases h
    rfl
  | row kind label item properties =>
    simp only [take] at h
    split at h
    · cases h
    · cases h
      rfl
  | skip =>
    cases h
    rfl
  | abandon =>
    cases h
    rfl

/-- Every query that is given up is counted. -/
theorem abandoned_takeAll (h : takeAll deeds k = (.ok (), k')) :
    k'.stats.abandoned = k.stats.abandoned + deeds.countP Deed.isAbandon := by
  induction deeds generalizing k with
  | nil =>
    cases h
    rfl
  | cons d rest ih =>
    unfold takeAll at h
    rcases hstep : take d k with ⟨result, k₁⟩
    cases result with
    | error f =>
      rw [feed_cons_error hstep] at h
      cases h
    | ok _ =>
      rw [feed_cons_ok hstep] at h
      rw [ih h, abandoned_take hstep, List.countP_cons]
      omega

end Desk

/-! ## The jobs to compare with -/

/-- The client whose queries all end well, after the rows that they deliver before they fail. -/
def Client.sparing (client : Client) : Client :=
  { client with answers := fun query => { items := (client.answers query).rows.map .row } }

/-- The queries of a group that do not fail. -/
def NamedQueries.succeeding (client : Client) (g : NamedQueries) : NamedQueries :=
  { g with queries := g.queries.filter fun query => !(client.answers query).fails }

namespace QueryExport

variable {client : Client} {c : Config} {structured : Bool}

theorem isAbandon_rowDeeds (c : Config) (structured : Bool) (name : String) (row : Row) :
    ∀ d ∈ rowDeeds c structured name row, d.isAbandon = false := by
  intro d hd
  cases structured with
  | false =>
    obtain rfl := List.mem_singleton.1 hd
    rfl
  | true =>
    simp only [rowDeeds, if_true, KindFilters.deeds] at hd
    split at hd
    · cases hd
    · obtain rfl := List.mem_singleton.1 hd
      rfl
    · obtain rfl := List.mem_singleton.1 hd
      rfl

theorem isAbandon_seedDeeds (c : Config) (structured : Bool) (name : String) (rows : List Row) :
    ∀ d ∈ seedDeeds c structured name rows, d.isAbandon = false := by
  intro d hd
  cases structured with
  | false =>
    obtain rfl := List.mem_singleton.1 hd
    rfl
  | true =>
    rcases List.mem_cons.1 hd with rfl | hd
    · rfl
    · obtain rfl := List.mem_singleton.1 hd
      rfl

/-- Deeds that give up no query, and then perhaps one. -/
theorem filter_append_abandon {deeds : List Deed} (h : ∀ d ∈ deeds, d.isAbandon = false)
    (fails : Bool) :
    (deeds ++ if fails then [Deed.abandon] else []).filter (fun d => !d.isAbandon) = deeds := by
  rw [List.filter_append, List.filter_eq_self.2 fun d hd => by rw [h d hd]; rfl]
  cases fails <;> simp [Deed.isAbandon]

theorem countP_append_abandon {deeds : List Deed} (h : ∀ d ∈ deeds, d.isAbandon = false)
    (fails : Bool) : (deeds ++ if fails then [Deed.abandon] else []).countP Deed.isAbandon =
      if fails then 1 else 0 := by
  have hnone : deeds.countP Deed.isAbandon = 0 :=
    List.countP_eq_zero.2 fun d hd => by rw [h d hd]; decide
  rw [List.countP_append, hnone]
  cases fails <;> rfl

/-- Every query is given up once if it fails, and in one pass what it wrote before stays, in two
passes nothing. -/
theorem deeds_eq (client : Client) (c : Config) (structured : Bool) (q : NamedQuery) :
    ∃ rest, (∀ d ∈ rest, d.isAbandon = false) ∧
      deeds client c structured q =
        rest ++ (if (client.answers q.query).fails then [.abandon] else []) ∧
      (c.twoPass = false → rest = deeds client.sparing c structured q) ∧
      (c.twoPass = true →
        rest = if (client.answers q.query).fails then [] else deeds client c structured q) := by
  have hwritten : ∀ d ∈ (client.answers q.query).rows.flatMap (rowDeeds c structured q.name),
      d.isAbandon = false := by
    intro d hd
    obtain ⟨row, -, hd⟩ := List.mem_flatMap.1 hd
    exact isAbandon_rowDeeds c structured q.name row d hd
  cases hpass : c.twoPass with
  | false =>
    have hsparing : deeds client.sparing c structured q =
        (client.answers q.query).rows.flatMap (rowDeeds c structured q.name) := by
      simp only [deeds, hpass, Client.sparing, Delivery.rows_map, Delivery.fails_map,
        Bool.false_eq_true, if_false, List.append_nil]
    refine ⟨_, hwritten, by simp [deeds, hpass], fun _ => hsparing.symm, nofun⟩
  | true =>
    cases hfails : (client.answers q.query).fails with
    | true => exact ⟨[], nofun, by simp [deeds, hpass, hfails], nofun, fun _ => rfl⟩
    | false =>
      refine ⟨deeds client c structured q, fun d hd => ?_, by simp, nofun, fun _ => rfl⟩
      simp only [deeds, hpass, hfails, if_true, Bool.false_eq_true, if_false,
        List.mem_append] at hd
      exact hd.elim (isAbandon_seedDeeds c structured q.name _ d) (hwritten d)

theorem countP_allDeeds (client : Client) (c : Config) (structured : Bool)
    (queries : List NamedQuery) : (allDeeds client c structured queries).countP Deed.isAbandon =
      queries.countP fun q => (client.answers q.query).fails := by
  induction queries with
  | nil => rfl
  | cons q rest ih =>
    obtain ⟨deeds, hdeeds, heq, -, -⟩ := deeds_eq client c structured q
    rw [allDeeds, List.flatMap_cons, List.countP_append, ← allDeeds, ih, List.countP_cons, heq,
      countP_append_abandon hdeeds, Nat.add_comm]

/-- In one pass the queries write what they write where they do not fail any more. -/
theorem filter_allDeeds_one_pass (hpass : c.twoPass = false) (queries : List NamedQuery) :
    (allDeeds client c structured queries).filter (fun d => !d.isAbandon) =
      allDeeds client.sparing c structured queries := by
  induction queries with
  | nil => rfl
  | cons q rest ih =>
    obtain ⟨deeds, hdeeds, heq, hsparing, -⟩ := deeds_eq client c structured q
    rw [allDeeds, List.flatMap_cons, List.filter_append, ← allDeeds, ih, heq,
      filter_append_abandon hdeeds, hsparing hpass]
    rfl

/-- In two passes a query that fails writes nothing. -/
theorem filter_allDeeds_two_pass (hpass : c.twoPass = true) (queries : List NamedQuery) :
    (allDeeds client c structured queries).filter (fun d => !d.isAbandon) =
      allDeeds client c structured
        (queries.filter fun q => !(client.answers q.query).fails) := by
  induction queries with
  | nil => rfl
  | cons q rest ih =>
    obtain ⟨deeds, hdeeds, heq, -, hrest⟩ := deeds_eq client c structured q
    rw [allDeeds, List.flatMap_cons, List.filter_append, ← allDeeds, ih, heq,
      filter_append_abandon hdeeds, hrest hpass, List.filter_cons]
    cases (client.answers q.query).fails <;> rfl

theorem flat_succeeding (client : Client) (groups : List NamedQueries) :
    (groups.map (·.succeeding client)).flatMap NamedQueries.flat =
      (groups.flatMap NamedQueries.flat).filter fun q => !(client.answers q.query).fails := by
  rw [List.flatMap_map, List.filter_flatMap]
  refine List.flatMap_congr fun g _ => ?_
  simp only [NamedQueries.flat, NamedQueries.succeeding, List.filter_map]
  rfl

/-! ## What the job leaves -/

/-- No file tells of the queries that were given up. -/
theorem closing_forgiven (c : Config) (dir : Path) (done : Except Failure Unit × Desk) :
    closing c dir (done.1, done.2.forgiven) =
      (closing c dir done).map fun left => (left.1, left.2.1.forgiven, left.2.2) := by
  obtain ⟨result, k⟩ := done
  cases result with
  | error f => rfl
  | ok _ =>
    have hartifacts : ∀ schema t, Job.writeArtifacts dir schema k.forgiven.stats t =
        Job.writeArtifacts dir schema k.stats t := fun _ _ => rfl
    simp only [closing, hartifacts]
    rw [show k.forgiven.ledger = k.ledger from rfl]
    rcases reconcileKinds c.format [k.ledger.fragments] k.ledger.tree with ⟨result, t₁⟩
    cases result with
    | error f => rfl
    | ok schema =>
      simp only
      rcases Job.writeArtifacts dir schema k.stats t₁ with ⟨result, t₂⟩
      cases result <;> rfl

theorem closing_eq_some {dir : Path} {done : Except Failure Unit × Desk} {schema : GraphSchema}
    {stats : Stats} {t : FileTree} (h : closing c dir done = some (schema, stats, t)) :
    done.1 = .ok () ∧ stats = done.2.stats := by
  obtain ⟨result, k⟩ := done
  cases result with
  | error f => cases h
  | ok _ =>
    simp only [closing] at h
    split at h
    · cases h
    · split at h
      · cases h
      · cases h
        exact ⟨rfl, rfl⟩

/-! ## Every query once -/

/-- The query that a worker has taken and not yet done. -/
def held (w : Worker NamedQuery Pool (PerKind Fragments)) : List NamedQuery :=
  match w.stage with
  | .working q => [q]
  | _ => []

/-- One worker has done the first queries, in their order, and it leaves only after the last. -/
structure Drained (queries done : List NamedQuery)
    (crew : Crew (List NamedQuery) NamedQuery Pool (PerKind Fragments)) : Prop where
  worker : ∃ w, crew.workers = [w] ∧ done ++ held w ++ crew.floor.supply = queries ∧
    ∀ r, w.stage = .stopped (.ok r) → crew.floor.supply = []
  halted : crew.floor.shared.progress.halted = true → crew.floor.supply = []

theorem claim_eq (queries : List NamedQuery) :
    (duty client c structured).claim queries = (queries.head?, queries.tail) := by
  cases queries <;> rfl

/-- The worker goes on, and no query is lost. -/
theorem Drained.advance {queries done : List NamedQuery}
    {w w' : Worker NamedQuery Pool (PerKind Fragments)} {s s' : Floor (List NamedQuery)}
    (h : Drained queries done ⟨[w], s⟩) (next : Option NamedQuery)
    (hqueries : next.toList ++ held w' ++ s'.supply = held w ++ s.supply)
    (hleft : ∀ r, w'.stage = .stopped (.ok r) → s'.supply = [])
    (hhalted : s'.shared.progress.halted = true → s'.supply = []) :
    Drained queries (done ++ next.toList) ⟨[w'], s'⟩ := by
  obtain ⟨v, hv, hall, -⟩ := h.worker
  obtain rfl := List.singleton_inj.1 hv
  refine ⟨⟨w', rfl, ?_, hleft⟩, hhalted⟩
  rw [← hall, List.append_assoc, List.append_assoc, ← List.append_assoc next.toList, hqueries,
    List.append_assoc]

theorem drained_move {queries done : List NamedQuery}
    {crew : Crew (List NamedQuery) NamedQuery Pool (PerKind Fragments)} {i : Nat}
    {w w' : Worker NamedQuery Pool (PerKind Fragments)} {s' : Floor (List NamedQuery)}
    (h : Drained queries done crew) (hw : crew.workers[i]? = some w)
    (hmove : w.Move (duty client c structured) crew.floor w' s') :
    Drained queries (done ++ (w.next? (duty client c structured) crew.floor).toList)
      ⟨crew.workers.set i w', s'⟩ := by
  obtain ⟨v, hworkers, -, hleft⟩ := h.worker
  have hhalted := h.halted
  obtain ⟨workers, s⟩ := crew
  obtain rfl : workers = [v] := hworkers
  obtain ⟨rfl, rfl⟩ : i = 0 ∧ v = w := by
    cases i with
    | zero => exact ⟨rfl, Option.some.inj hw⟩
    | succ i => cases hw
  have hperform : ∀ {q result own shared},
      (duty client c structured).perform v.number q v.own s.shared = (result, own, shared) →
        shared.progress.halted = true → s.supply = [] := by
    intro q result own shared hq hflag
    rw [perform_query] at hq
    obtain ⟨-, hq⟩ := Prod.mk.inj hq
    obtain ⟨-, rfl⟩ := Prod.mk.inj hq
    rw [halted_attemptStep client c structured v.number q ⟨v.own, s.shared⟩] at hflag
    exact hhalted hflag
  cases hmove with
  | leaves hstage hflag =>
    exact h.advance _ (by simp [held, Worker.next?, Worker.stop, hstage])
      (fun _ _ => hhalted hflag) hhalted
  | goesOn hstage =>
    exact h.advance _ (by simp [held, Worker.next?, hstage]) (fun _ h => by cases h) hhalted
  | @runsOut supply hstage hclaim =>
    obtain ⟨hhead, rfl⟩ := Prod.mk.inj ((claim_eq s.supply).symm.trans hclaim)
    have hempty : s.supply = [] := List.head?_eq_none_iff.1 hhead
    have hrest : s.supply.tail = [] := by rw [hempty, List.tail_nil]
    exact h.advance _
      (by simp [held, Worker.next?, hstage, hempty, Floor.halt, Worker.stop])
      (fun _ _ => hrest) fun _ => hrest
  | @takes q supply hstage hclaim =>
    obtain ⟨hhead, rfl⟩ := Prod.mk.inj ((claim_eq s.supply).symm.trans hclaim)
    obtain ⟨rest, hsupply⟩ := List.head?_eq_some_iff.1 hhead
    refine h.advance _ (by simp [held, Worker.next?, hstage, hsupply]) (fun _ h => by cases h)
      fun hflag => ?_
    rw [hhalted hflag, List.tail_nil]
  | @does q count own shared hstage hdoes =>
    exact h.advance _ (by simp [held, Worker.next?, hstage, hdoes]) (fun _ h => by cases h)
      (hperform hdoes)
  | @waits q f own shared hstage hwaits hf =>
    exact h.advance _ (by simp [Worker.next?, hstage, hwaits, hf]) hleft hhalted
  | @fails q f own shared hstage hfails hf =>
    exact h.advance _ (by simp [held, Worker.next?, hstage, hfails, hf, Worker.stop])
      (fun _ h => by cases h) fun hflag => hperform hfails hflag
  | @checks q count hstage =>
    exact h.advance _ (by simp [held, Worker.next?, hstage, duty]) (fun _ h => by cases h) hhalted
  | rests hstage =>
    exact h.advance _ (by simp [Worker.next?, hstage]) hleft hhalted

/-- A worker by itself takes every query once, in their order, if it ends well. -/
theorem takes_each {queries : List NamedQuery} {dir : Path} {t : FileTree}
    {left : List (PerKind Fragments)} (hworkers : c.workers = 1)
    (hresults : ((startCrew c structured queries dir t).finish (duty client c structured)
      queries.length).results = .ok left) :
    ∃ turns, (startCrew c structured queries dir t).finish (duty client c structured)
        queries.length = (startCrew c structured queries dir t).play (duty client c structured)
          turns ∧
      (startCrew c structured queries dir t).done (duty client c structured) turns = queries := by
  obtain ⟨turns, hplay⟩ := Crew.exists_finish_eq_play (d := duty client c structured)
    queries.length (startCrew c structured queries dir t)
  have hstart : Drained queries [] (startCrew c structured queries dir t) := by
    refine ⟨⟨⟨0, { dir, format := c.format, kinds := kinds structured }, .testing⟩, ?_, rfl, nofun⟩,
      nofun⟩
    simp only [startCrew, hworkers]
    rfl
  have hend : Drained queries _ ((startCrew c structured queries dir t).play
      (duty client c structured) turns) :=
    Crew.play_records (fun _ _ _ _ _ _ h hw hmove => drained_move h hw hmove) turns hstart
  rw [← hplay, List.nil_append] at hend
  obtain ⟨w, hw, hqueries, hempty⟩ := hend.worker
  obtain ⟨r, hstage⟩ := Crew.stopped_of_results hresults w
    (by rw [hw]; exact List.mem_singleton_self w)
  refine ⟨turns, hplay, ?_⟩
  simpa [held, hstage, hempty r hstage] using hqueries

/-- A job that does the same deeds but for giving up queries leaves the same. -/
theorem left?_forgiven {client' : Client} {groups groups' : List NamedQueries}
    (hsoft : ∀ q ∈ groups.flatMap NamedQueries.flat, (client.answers q.query).FailsSoftly)
    (hsoft' : ∀ q ∈ groups'.flatMap NamedQueries.flat, (client'.answers q.query).FailsSoftly)
    (hworkers : c.workers = 1) (hvalid : c.validateForQueries structured = .ok ())
    (hdeeds : (allDeeds client c structured (groups.flatMap NamedQueries.flat)).filter
      (fun d => !d.isAbandon) =
        allDeeds client' c structured (groups'.flatMap NamedQueries.flat)) (t : FileTree) :
    Job.left? (run client' c groups' structured false t) =
      (Job.left? (run client c groups structured false t)).map fun left =>
        (left.1, left.2.1.forgiven, left.2.2) := by
  rw [(left?_run hsoft hworkers hvalid t).2, (left?_run hsoft' hworkers hvalid t).2,
    Option.map_bind]
  refine congrArg _ (funext fun way => ?_)
  have htake := Desk.takeAll_forgiven (allDeeds client c structured
    (groups.flatMap NamedQueries.flat)) (startDesk c structured c.dir.home
      (way.2.view way.1 c.dir.home))
  rw [hdeeds] at htake
  have hstart : ∀ dir t, (startDesk c structured dir t).forgiven = startDesk c structured dir t :=
    fun _ _ => rfl
  rw [hstart] at htake
  rw [htake, closing_forgiven, Function.comp_apply, Option.map_map, Option.map_map]
  rfl

/-- A query that fails costs itself and nothing else. If no file operation fails, one worker takes
every query once and counts those that fail as abandoned. In one pass the job leaves what it leaves
where these deliver the rows before their failure and end well; in two passes it leaves what it
leaves without them. -/
theorem failed_query_costs_itself {groups : List NamedQueries} {t : FileTree}
    (hsoft : ∀ q ∈ groups.flatMap NamedQueries.flat, (client.answers q.query).FailsSoftly)
    (hworkers : c.workers = 1) (hvalid : c.validateForQueries structured = .ok ())
    (hfiles : ∀ f, (run client c groups structured false t).1 = .error f → f.cause ≠ .io) :
    let queries := groups.flatMap NamedQueries.flat
    ∃ summary t' place t₁, run client c groups structured false t = (.ok summary, t') ∧
      t.openWay c.dir = some (place, t₁) ∧
      (let crew := startCrew c structured queries c.dir.home (t₁.view place c.dir.home)
        ∃ turns, crew.finish (duty client c structured) queries.length =
            crew.play (duty client c structured) turns ∧
          crew.done (duty client c structured) turns = queries) ∧
      summary.stats.abandoned = queries.countP (fun q => (client.answers q.query).fails) ∧
      (c.twoPass = false → ∃ other,
        run client.sparing c groups structured false t = (.ok other, t') ∧
          other.schema = summary.schema ∧ other.stats = summary.stats.forgiven) ∧
      (c.twoPass = true → ∃ other,
        run client c (groups.map (·.succeeding client)) structured false t = (.ok other, t') ∧
          other.schema = summary.schema ∧ other.stats = summary.stats.forgiven) := by
  intro queries
  obtain ⟨hio, hleft⟩ := left?_run hsoft hworkers hvalid t
  rcases hrun : run client c groups structured false t with ⟨result, t'⟩
  rw [hrun] at hio hleft hfiles
  cases result with
  | error f => exact absurd (hio f rfl) (hfiles f rfl)
  | ok summary =>
    obtain ⟨⟨place, t₁⟩, hway, hclosing⟩ := Option.bind_eq_some_iff.1 hleft.symm
    obtain ⟨⟨schema, stats, inside⟩, hclosing, heq⟩ := Option.map_eq_some_iff.1 hclosing
    have hstats : stats = summary.stats := congrArg (fun left => left.2.1) heq
    obtain ⟨hdone, hdesk⟩ := closing_eq_some hclosing
    -- The desk tells of the queries that were given up, the crew of those that were taken.
    have hcount := Desk.abandoned_takeAll (Prod.ext hdone rfl)
    rw [← hdesk, hstats, countP_allDeeds] at hcount
    rcases drain_alone hsoft hworkers structured c.dir.home (t₁.view place c.dir.home) with
      ⟨f, -, -, hfails⟩ | ⟨hresults, -⟩
    · rw [hdone] at hfails
      cases hfails
    have hother : ∀ {client' : Client} {groups' : List NamedQueries},
        (∀ q ∈ groups'.flatMap NamedQueries.flat, (client'.answers q.query).FailsSoftly) →
        (allDeeds client c structured queries).filter (fun d => !d.isAbandon) =
          allDeeds client' c structured (groups'.flatMap NamedQueries.flat) →
        ∃ other, run client' c groups' structured false t = (.ok other, t') ∧
          other.schema = summary.schema ∧ other.stats = summary.stats.forgiven := by
      intro client' groups' hsoft' hdeeds
      have hsame := left?_forgiven hsoft hsoft' hworkers hvalid hdeeds t
      rw [hrun] at hsame
      obtain ⟨maxOpenFiles, hother⟩ := Job.left?_eq_some.1 hsame
      exact ⟨_, hother, rfl, rfl⟩
    refine ⟨summary, t', place, t₁, rfl, hway, takes_each hworkers hresults,
      hcount.trans (Nat.zero_add _), fun hpass => ?_, fun hpass => ?_⟩
    · exact hother (fun _ _ _ => nofun) (filter_allDeeds_one_pass hpass _)
    · refine hother (fun q hq => hsoft q ?_) ?_
      · rw [flat_succeeding] at hq
        exact List.mem_of_mem_filter hq
      · rw [flat_succeeding, filter_allDeeds_two_pass hpass]

/-- One query that ends well, and one that fails after its first row. -/
def brokenAnswers : List (String × List Answer) :=
  [("whole", [.row (.ofList [(.property "p", .str "x")])]),
    ("broken", [.row (.ofList [(.property "q", .str "y")]), .value .null])]

/-- The row before the failure stays in its file, and the failure is counted. -/
theorem failed_query_costs_itself_broken_answers :
    let client := Client.scripted none [] [] brokenAnswers
    let c : Config := { dir := ⟨.ofNames [], ["out"]⟩, workers := 1 }
    let groups : List NamedQueries := [⟨"a", ["whole", "broken"]⟩]
    ∃ summary t', run client c groups false false ∅ = (.ok summary, t') ∧
      t'.read? (.ofNames ["out", "results", "a-1.csv"]) = some "p,q\nx,\n,y\n" ∧
      summary.stats.abandoned = 1 ∧
      ∃ other, run client.sparing c groups false false ∅ = (.ok other, t') ∧
        other.schema = summary.schema ∧ other.stats = summary.stats.forgiven := by
  intro client c groups
  have hok : (run client c groups false false ∅).1.toOption.isSome = true := by decide +kernel
  have htext : (run client c groups false false ∅).2.read?
      (.ofNames ["out", "results", "a-1.csv"]) = some "p,q\nx,\n,y\n" := by decide +kernel
  have hnone : ∀ q ∈ groups.flatMap NamedQueries.flat,
      (client.answers q.query).failure = none := by decide
  obtain ⟨summary, t', -, -, hrun, -, -, habandoned, hsparing, -⟩ :=
    failed_query_costs_itself (fun q hq => Delivery.failsSoftly_of_none (hnone q hq)) rfl rfl
      fun f hf => by
      rw [hf] at hok
      cases hok
  rw [hrun] at htext
  exact ⟨summary, t', hrun, htext, habandoned.trans (by decide), hsparing rfl⟩

end QueryExport

end GraphExport
