import GraphExport.Proofs.Job.FullDeeds
import GraphExport.Proofs.Job.QueryDeeds
import GraphExport.Proofs.Output.Apart
import GraphExport.Proofs.Output.InLine

/-!
# GraphExport.Proofs.Job.Phases

One pool for all kinds of elements, or a pool for each. A query job brings the files of both kinds
in line at the end; a full export does so with the files of the nodes before it begins with the
edges. It makes no difference, since what is done for one kind has no place in common with what is
done for another.

* `Desk.takeAll_only`: the deeds of a kind are the same in a pool of its own.
* `Desk.confined_takeAll`: they read and change no place that has to do with another kind.
* `QueryExport.closing_phases`: so the deeds of the nodes and then those of the edges leave what two
  phases leave.
-/

namespace GraphExport

/-- The deed is not done for another kind. -/
def Deed.IsOf (kind : OutputKind) : Deed → Prop
  | .seed k _ => k = kind
  | .row k _ _ _ => k = kind
  | .skip => True
  | .abandon => True

namespace Desk

/-- The files of one kind, in a pool of their own. -/
def only (k : Desk) (kind : OutputKind) : Desk := { k with ledger := k.ledger.only kind }

/-- What is found and kept, and the tree by itself. -/
def parted {α : Type} (outcome : α × Desk) : (α × Desk) × FileTree :=
  ((outcome.1, outcome.2.onTree ∅), outcome.2.ledger.tree)

variable {kind other : OutputKind} {deeds : List Deed} {k : Desk} {d : Deed}

/-! ## A pool of its own -/

theorem take_only (hd : d.IsOf kind) (hkind : kind ∈ k.ledger.kinds) :
    take d (k.only kind) = ((take d k).1, (take d k).2.only kind) := by
  cases d with
  | seed _ schemas =>
    obtain rfl := hd
    simp only [take, only, Ledger.seed_only]
  | row _ label item properties =>
    obtain rfl := hd
    simp only [take, only, Ledger.write_only hkind]
    rcases k.ledger.act (.write _ label item) with ⟨_ | _, L⟩ <;> rfl
  | skip => rfl
  | abandon => rfl

/-- The deeds of a kind are the same in a pool of its own. -/
theorem takeAll_only (hdeeds : ∀ d ∈ deeds, d.IsOf kind) (hkind : kind ∈ k.ledger.kinds) :
    (k.only kind).takeAll deeds = ((k.takeAll deeds).1, (k.takeAll deeds).2.only kind) :=
  feed_image (P := fun k : Desk => kind ∈ k.ledger.kinds) (g := fun k : Desk => k.only kind)
    (fun d hd k hk => ⟨take_only (hdeeds d hd) hk, by rwa [(settings_take d k).1]⟩) hkind

/-- The deeds of a kind leave the files of another kind as they are. -/
theorem sameOf_takeAll (hne : other ≠ kind) (hdeeds : ∀ d ∈ deeds, d.IsOf kind) (k : Desk) :
    k.ledger.SameOf other (k.takeAll deeds).2.ledger := by
  refine feed_keeps_of_mem (P := fun k' : Desk => k.ledger.SameOf other k'.ledger)
    (fun d hd k' h => ?_) (.refl _)
  cases d with
  | seed _ schemas =>
    obtain rfl := hdeeds _ hd
    exact h.trans (.seed hne k'.ledger schemas)
  | row _ label item properties =>
    obtain rfl := hdeeds _ hd
    rw [ledger_take_row]
    exact h.trans (.write hne k'.ledger label item)
  | skip => exact h
  | abandon => exact h

/-! ## The places of the deeds -/

/-- The desk after a row, which counts if it was written. -/
def recorded (k : Desk) (kind : OutputKind) (label : Label) (properties : PropertyMap) :
    Except Failure Unit × Ledger → Except Failure Unit × Desk
  | (.error f, ledger) => (.error f, { k with ledger })
  | (.ok _, ledger) => (.ok (), ⟨ledger, k.stats.record kind label properties⟩)

theorem confined_take (hd : d.IsOf kind) (h : k.ledger.Housed kind) :
    Confined (kind.Reaches k.ledger.dir) fun t => parted (take d (k.onTree t)) := by
  cases d with
  | seed _ schemas => exact .pure (Except.ok (), (take (.seed _ schemas) k).2.onTree ∅)
  | row kind' label item properties =>
    obtain rfl := hd
    refine ((Ledger.confined_write h label item).map (k.recorded kind' label properties)).congr
      fun t => ?_
    simp only [take, onTree, Ledger.parted, parted]
    rcases (k.ledger.onTree t).act (.write kind' label item) with ⟨_ | _, L⟩ <;> rfl
  | skip => exact .pure (Except.ok (), (take .skip k).2.onTree ∅)
  | abandon => exact .pure (Except.ok (), (take .abandon k).2.onTree ∅)

theorem housed_take (hd : d.IsOf kind) (h : k.ledger.Housed kind) :
    (take d k).2.ledger.Housed kind := by
  cases d with
  | seed _ schemas => exact h
  | row _ label item properties =>
    obtain rfl := hd
    rw [ledger_take_row]
    exact Ledger.housed_act h label item
  | skip => exact h
  | abandon => exact h

/-- The deeds of a kind read and change no place that has to do with another kind. -/
theorem confined_takeAll (hdeeds : ∀ d ∈ deeds, d.IsOf kind) (h : k.ledger.Housed kind) :
    Confined (kind.Reaches k.ledger.dir) fun t => parted ((k.onTree t).takeAll deeds) := by
  induction deeds generalizing k with
  | nil => exact .pure (Except.ok (), k.onTree ∅)
  | cons d rest ih =>
    have hd := hdeeds d List.mem_cons_self
    refine ((confined_take hd h).bind
      (fun found => Confined.onward (fun _ t => parted ((found.2.onTree t).takeAll rest))
        (fun f => (.error f, found.2)) found.1)
      fun t => Confined.onward_of fun _ _ => ?_).congr fun t => ?_
    · have hhoused : (take d (k.onTree t)).2.ledger.Housed kind := housed_take hd h
      have hdir := (settings_take d (k.onTree t)).2.1
      have hrest := ih (k := (take d (k.onTree t)).2.onTree ∅)
        (fun d hd => hdeeds d (List.mem_cons_of_mem _ hd)) hhoused
      rwa [show ((take d (k.onTree t)).2.onTree ∅).ledger.dir = k.ledger.dir from hdir] at hrest
    · dsimp only [parted]
      rw [takeAll, feed]
      rcases take d (k.onTree t) with ⟨_ | _, k'⟩ <;> rfl

end Desk

/-! ## One phase after the other -/

theorem Desk.filed_takeAll {base : Ledger} {log : PoolLog} {k : Desk} (h : k.ledger.Filed base log)
    (deeds : List Deed) : ∃ log, (k.takeAll deeds).2.ledger.Filed base log := by
  refine feed_keeps (P := fun k : Desk => ∃ log, k.ledger.Filed base log) (fun d k h => ?_) deeds
    ⟨log, h⟩
  obtain ⟨log, h⟩ := h
  cases d with
  | seed kind schemas => exact ⟨_, h.act (a := .seed kind schemas) rfl⟩
  | row kind label item properties =>
    rw [ledger_take_row]
    exact ⟨_, h.act (a := .write kind label item) rfl⟩
  | skip => exact ⟨log, h⟩
  | abandon => exact ⟨log, h⟩

namespace Desk

variable {kind other : OutputKind} {deeds : List Deed} {k : Desk}

/-- Files of a ledger are brought in line at their places. -/
theorem confined_reconcile {base : Ledger} {log : PoolLog} (h : k.ledger.Filed base log)
    (format : Format) (kind : OutputKind) : Confined (kind.Houses k.ledger.dir)
      (reconcile format kind (.ofFragments [k.ledger.fragments.get kind])) := by
  refine GraphExport.confined_reconcile format fun job hjob => ?_
  obtain ⟨label, canonical, file⟩ := job
  exact h.housed kind label file (h.mem_jobs.1 hjob).1

/-- The files of a kind may be brought in line before the deeds of another kind or after them. -/
theorem inLine_takeAll {base : Ledger} {log : PoolLog} (hfiled : k.ledger.Filed base log)
    (hne : kind ≠ other) (hdeeds : ∀ d ∈ deeds, d.IsOf other) (format : Format) :
    (k.inLine format kind).map (fun left => (left.1, left.2.takeAll deeds)) =
      ((k.takeAll deeds).2.inLine format kind).map
        fun left => (left.1, ((k.takeAll deeds).1, left.2)) := by
  obtain ⟨hfound, hdone, htree⟩ := (confined_reconcile hfiled format kind).comm
    (confined_takeAll hdeeds (hfiled.housed other))
    (fun p hp hother => OutputKind.apart_of_ne hne.symm hother hp) k.ledger.tree
  unfold inLine
  rw [(sameOf_takeAll hne hdeeds k).fragments]
  generalize reconcile format kind (.ofFragments [k.ledger.fragments.get kind]) = align
    at hfound hdone htree ⊢
  simp only [parted, show k.onTree k.ledger.tree = k from rfl] at hfound hdone htree
  rcases halign : align k.ledger.tree with ⟨found, t⟩
  rw [halign] at hfound hdone htree
  rcases hlate : align (k.takeAll deeds).2.ledger.tree with ⟨found', t'⟩
  rw [hlate] at hfound htree
  obtain rfl : found' = found := hfound
  cases found' with
  | error f => rfl
  | ok schemas =>
    obtain ⟨hresult, hrest⟩ := Prod.mk.inj hdone
    have hleft : (takeAll deeds (k.onTree t)).2 = (takeAll deeds k).2.onTree t' :=
      (congrArg (onTree · (takeAll deeds (k.onTree t)).2.ledger.tree) hrest).trans
        (congrArg (onTree (takeAll deeds k).2) htree.symm)
    exact congrArg (fun taken => some (schemas, taken)) (Prod.ext hresult hleft)

theorem inLine_eq_some {format : Format} {left : Collection × Desk}
    (h : k.inLine format kind = some left) : ∃ t, left.2 = k.onTree t := by
  unfold inLine at h
  split at h
  · cases h
  · rename_i schemas t _
    exact ⟨t, congrArg Prod.snd (Option.some.inj h).symm⟩

/-- A phase is what is done for a kind, and then its files are brought in line. -/
theorem phase_only (kind : ElementKind) (hdeeds : ∀ d ∈ deeds, d.IsOf kind.output)
    (hkind : kind.output ∈ k.ledger.kinds) {idle : Desk}
    (hidle : idle.anew [kind.output] = k.only kind.output) (format : Format) :
    FullExport.phase format kind deeds idle =
      match k.takeAll deeds with
      | (.error _, _) => none
      | (.ok _, k) => (k.inLine format kind.output).map fun left => (left.1, left.2.anew []) := by
  unfold FullExport.phase
  rw [hidle, takeAll_only hdeeds hkind]
  rcases k.takeAll deeds with ⟨_ | _, k'⟩
  · rfl
  · simp only [inLine, only, Ledger.fragments_only]
    rw [show (k'.ledger.only kind.output).tree = k'.ledger.tree from rfl]
    rcases reconcile format kind.output (.ofFragments [k'.ledger.fragments.get kind.output])
      k'.ledger.tree with ⟨_ | _, t⟩ <;> rfl

end Desk

namespace QueryExport

variable {c : Config} {dir : Path} {nodes edges : List Deed}

/-- At the end the files of one kind are brought in line after those of the other. -/
theorem closing_inLine {k : Desk} (hresults : k.ledger.files.results = ∅) :
    closing c dir (.ok (), k) = (k.inLine c.format .nodes).bind fun ns =>
      (ns.2.inLine c.format .edges).bind fun es =>
        Job.finish dir ⟨ns.1, es.1, ∅⟩ es.2.stats es.2.ledger.tree := by
  have hnone : k.ledger.fragments.results = ∅ := by
    simp only [Ledger.fragments, PerKind.map, hresults]
    rfl
  have hnodes : k.ledger.fragments.nodes = k.ledger.fragments.get .nodes := rfl
  unfold closing reconcileKinds
  simp only [List.map_cons, List.map_nil, hnone, reconcileKind_none, hnodes]
  rw [Desk.inLine, Job.reconcileKind]
  rcases reconcile c.format .nodes (.ofFragments [k.ledger.fragments.get .nodes]) k.ledger.tree with
    ⟨_ | ns, t⟩
  · rfl
  · have hedges : k.ledger.fragments.edges = (k.onTree t).ledger.fragments.get .edges := rfl
    have htree : t = (k.onTree t).ledger.tree := rfl
    simp only [within, Except.mapError, Option.bind_some, Job.reconcileKind]
    rw [Desk.inLine, hedges, ← htree]
    rcases reconcile c.format .edges (.ofFragments [(k.onTree t).ledger.fragments.get .edges]) t
      with ⟨_ | es, t'⟩ <;> rfl

/-- The files of the nodes may be brought in line before the deeds of the edges. -/
theorem closing_edges {k : Desk} {base : Ledger} {log : PoolLog} (hfiled : k.ledger.Filed base log)
    (hkinds : .edges ∈ k.ledger.kinds) (hseeds : k.ledger.seeds.edges = ∅)
    (hfiles : k.ledger.files.edges = ∅) (hresults : k.ledger.files.results = ∅)
    (hedges : ∀ d ∈ edges, d.IsOf .edges) :
    closing c dir (k.takeAll edges) = (k.inLine c.format .nodes).bind fun ns =>
      (FullExport.phase c.format .edges edges (ns.2.anew [])).bind fun es =>
        Job.finish dir ⟨ns.1, es.1, ∅⟩ es.2.stats es.2.ledger.tree := by
  have hswap :=
    Desk.inLine_takeAll hfiled (show OutputKind.nodes ≠ .edges by decide) hedges c.format
  have hnone : (k.takeAll edges).2.ledger.files.results = ∅ :=
    (Desk.sameOf_takeAll (show OutputKind.results ≠ .edges by decide) hedges k).files.trans hresults
  rcases hdone : k.takeAll edges with ⟨result, k₂⟩
  rw [hdone] at hswap hnone
  dsimp only at hswap hnone
  cases hline : k.inLine c.format .nodes with
  | none =>
    rw [hline] at hswap
    cases result with
    | error f => rfl
    | ok _ =>
      rw [closing_inLine hnone, show k₂.inLine c.format .nodes = none by simpa using hswap.symm]
      rfl
  | some ns =>
    obtain ⟨t, hmoved⟩ := Desk.inLine_eq_some hline
    have hidle : (ns.2.anew []).anew [.edges] = ns.2.only .edges := by
      simp only [hmoved, Desk.anew, Desk.only, Ledger.only, Desk.onTree, Ledger.onTree, PerKind.get,
        hseeds, hfiles]
      rfl
    rw [hline, Option.map_some] at hswap
    rw [Option.bind_some, Desk.phase_only .edges hedges (by rw [hmoved]; exact hkinds) hidle]
    cases hlate : k₂.inLine c.format .nodes with
    | none =>
      rw [hlate] at hswap
      cases hswap
    | some late =>
      rw [hlate, Option.map_some, Option.some.injEq, Prod.mk.injEq] at hswap
      rw [hswap.2]
      cases result with
      | error f => rfl
      | ok _ =>
        rw [closing_inLine hnone, hlate, Option.bind_some, hswap.1, Option.bind_map]
        rfl

/-- The deeds of the nodes and then those of the edges leave what two phases leave. -/
theorem closing_phases (hnodes : ∀ d ∈ nodes, d.IsOf .nodes) (hedges : ∀ d ∈ edges, d.IsOf .edges)
    (t : FileTree) (budget : HandleBudget) :
    closing c dir ((startDesk c true dir t).takeAll (nodes ++ edges)) =
      (FullExport.phase c.format .nodes nodes
        (Shared.desk dir c.format { disk := ⟨t, 0, budget⟩ })).bind fun ns =>
          (FullExport.phase c.format .edges edges ns.2).bind fun es =>
            Job.finish dir ⟨ns.1, es.1, ∅⟩ es.2.stats es.2.ledger.tree := by
  have hidle : (Shared.desk dir c.format { disk := ⟨t, 0, budget⟩ }).anew [.nodes] =
      (startDesk c true dir t).only .nodes := rfl
  have hkinds := (Desk.settings_takeAll nodes (startDesk c true dir t)).1
  have hothers : ∀ other ≠ OutputKind.nodes, Ledger.SameOf other _ _ := fun _ hne =>
    Desk.sameOf_takeAll hne hnodes (startDesk c true dir t)
  obtain ⟨log, hfiled⟩ := Desk.filed_takeAll (k := startDesk c true dir t)
    (Pool.filed_new dir c.format (kinds true) ⟨t, 0, { max := 0 }⟩) nodes
  rw [Desk.phase_only .nodes hnodes List.mem_cons_self hidle]
  rcases htake : (startDesk c true dir t).takeAll nodes with ⟨result, k⟩
  rw [htake] at hkinds hothers hfiled
  cases result with
  | error f =>
    rw [Desk.takeAll_append_error htake]
    rfl
  | ok _ =>
    have hedge := hothers .edges (by decide)
    have hresult := hothers .results (by decide)
    rw [Desk.takeAll_append_ok htake, closing_edges hfiled (hkinds ▸ output_mem_kinds .edges)
      hedge.seeds hedge.files hresult.files hedges, Option.bind_map]
    rfl

end QueryExport

end GraphExport
