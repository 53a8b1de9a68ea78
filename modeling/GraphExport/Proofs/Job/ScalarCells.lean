import GraphExport.Proofs.Job.Scribes
import GraphExport.Proofs.Output.FinalRows
import GraphExport.Proofs.Output.ListCells

/-!
# GraphExport.Proofs.Job.ScalarCells

Strings by themselves in files of elements. The cell of a value is made when its row is written, and
the rewrite copies it. Whether the column has lists shows only when all files were written.

* `Book.cellOf_str`: a string takes its cell as it is.
* `Scribes.Kept.final_rows`: the rows that are read off a file once all files are in line.
* `Scribes.string_cells_split`: a string is read back as the only one of its cell if and only if it
  holds no separator.
-/

namespace GraphExport

/-- A string takes its cell as it is. The one exception is a name in the namespace of tokens, which
makes no column by itself. -/
theorem Book.cellOf_str {b : Book} {r : WrittenRow} (hr : r ∈ b.rows) {name value : String}
    (hvalue : r.properties.get? name = some (.str value)) :
    r.cellOf b.schema name = value ∨ (LabelSchema.isTokenName name = true ∧
      name ∉ b.schema.names ∧ r.cellOf b.schema name = "") := by
  unfold WrittenRow.cellOf
  by_cases hname : name ∈ b.schema.names
  · left
    rw [if_pos hname, hvalue]
    rfl
  · right
    refine ⟨?_, hname, if_neg hname⟩
    rw [Book.mem_names_schema, not_or] at hname
    have hnull : (Json.str value).isNull = false := rfl
    by_contra htoken
    rw [Bool.not_eq_true] at htoken
    exact hname.2 ⟨r, hr, .str value, hvalue, by simp [LabelSchema.isRecorded, hnull, htoken]⟩

namespace Scribes

variable {n : Nat} {dir : Path} {kinds : List OutputKind} {base : FileTree} {shelves : Nat → Shelf}
  {log : SharedLog n} {s : Scribes n} {kind : OutputKind} {label : Label} {schemas : Collection}
  {tree : FileTree}

/-- The rows that are read off the file of a pool once the files of all pools are in line. -/
theorem Kept.final_rows (h : s.Kept dir kinds base shelves log) (hkind : kind ≠ .results)
    (hreconcile : reconcile .csv kind (.ofFragments (s.fragments kind)) s.disk.tree =
      (.ok schemas, tree)) {i : Fin n} (hitems : (log.of i).items kind label ≠ []) :
    ∃ (b : Book) (w : LabelWriter) (canonical : LabelSchema) (text : String)
        (extra rows : List (List String)),
      b.kind = kind ∧ b.label = label ∧ w.schema = b.schema ∧
      Item.AllRows kind label ((log.of i).items kind label) b.rows ∧
      (s.pools i).writer? kind label = some w ∧ schemas.get? label = some canonical ∧
      tree.read? w.path = some text ∧
      Csv.records text.toList = csvHeader kind label canonical :: (extra ++ rows) ∧
      (w.schema.OneLine → extra = []) ∧
      rows.map (·.drop (structuralColumns kind label).length) =
        b.rows.map fun r => canonical.names.map (r.cellOf b.schema) := by
  have hall := h.rows i kind label
  cases hsheet : shelves i kind label with
  | none =>
    rw [Shelf.rows, hsheet] at hall
    exact absurd (List.forall₂_nil_right_iff.1 hall) hitems
  | some sheet =>
    obtain ⟨rfl, rfl, -⟩ := h.shelved.placed hsheet
    obtain ⟨w, hw⟩ := (h.holds i).sheet hsheet
    obtain ⟨-, -, sheet', hsheet', hwrites⟩ := (h.holds i).writer hw
    rw [hsheet] at hsheet'
    obtain rfl := Option.some.inj hsheet'
    obtain ⟨canonical, hcanonical, hnames, hfile⟩ := (h.reconciled hreconcile).file hsheet
    obtain ⟨extra, rows, hread, hextra, hcells⟩ :=
      Book.exists_final_rows (h.shelved.fits hsheet) hkind hnames
    rw [Shelf.rows, hsheet] at hall
    refine ⟨sheet.book, w, canonical, _, extra, rows, rfl, rfl, hwrites.schema, hall, hw,
      hcanonical, ?_, hread, fun hone => hextra fun name hname => hone name ?_, hcells⟩
    · rw [hwrites.path]
      exact FileTree.read?_eq_some.2 hfile
    · rw [hwrites.schema]
      exact sheet.book.names_prefix_schema.subset hname

/-- Strings by themselves in files of elements that pools have written in any order and however it
went, and that were brought in line with each other then. The rows of the elements come in the order
in which they were written, and a string without backslashes is its own cell in every column. Where
cells are read as lists it is cut at its separators, so that it is read as the one string that it is
if and only if it has none. -/
theorem string_cells_split (dir : Path) (kinds : List OutputKind) (d : Disk)
    {acts : List (Fin n × PoolAct)} (hsuits : ∀ a ∈ acts, a.2.Suits)
    (hplay : play acts (start n dir kinds d) = (log, s)) (hkind : kind ≠ .results)
    (hreconcile : reconcile .csv kind (.ofFragments (s.fragments kind)) s.disk.tree =
      (.ok schemas, tree)) (i : Fin n) (hitems : (log.of i).items kind label ≠ []) :
    ∃ w canonical text extra rows,
      (s.pools i).writer? kind label = some w ∧ schemas.get? label = some canonical ∧
      tree.read? w.path = some text ∧
      Csv.records text.toList = csvHeader kind label canonical :: (extra ++ rows) ∧
      (w.schema.OneLine → extra = []) ∧ rows.length = ((log.of i).items kind label).length ∧
      ∀ {k j : Nat} {e : Element} {m : PropertyMap} {name value : String},
        ((log.of i).items kind label)[k]? = some (.element e) → e.properties = .ok m →
        canonical.names[j]? = some name → m.get? name = some (.str value) →
        '\\' ∉ value.toList →
        ∃ row cell, rows[k]? = some row ∧
          row[(structuralColumns kind label).length + j]? = some cell ∧
          ((cell = value ∧ splitCell cell = Text.pieces ';' value ∧
              (splitCell cell = [value] ↔ ';' ∉ value.toList)) ∨
            (LabelSchema.isTokenName name = true ∧ name ∉ w.schema.names ∧ cell = "")) := by
  obtain ⟨shelves, hkept⟩ := (kept_start n dir kinds d).play acts hsuits hplay
  rw [List.nil_append] at hkept
  obtain ⟨b, w, canonical, text, extra, rows, rfl, rfl, hschema, hall, hw, hcanonical, htext, hread,
    hextra, hcells⟩ := hkept.final_rows hkind hreconcile hitems
  have hlength : rows.length = b.rows.length := by simpa using congrArg List.length hcells
  refine ⟨w, canonical, text, extra, rows, hw, hcanonical, htext, hread, hextra,
    hlength.trans hall.length_eq.symm, fun {k j e m name value} hitem hm hname hvalue hplain => ?_⟩
  -- The row of the element, and the record that was read for it.
  obtain ⟨r, hr, hrow⟩ := Item.row_of_getElem? hall hitem
  have hproperties := (WrittenRow.ofElement_ok.1 hrow).2
  rw [hm] at hproperties
  obtain rfl := Except.ok.inj hproperties
  have hrecord := congrArg (·[k]?) hcells
  simp only [List.getElem?_map, hr, Option.map_some, Option.map_eq_some_iff] at hrecord
  obtain ⟨row, hrow, hdrop⟩ := hrecord
  refine ⟨row, r.cellOf b.schema name, hrow, ?_, ?_⟩
  · rw [← List.getElem?_drop, hdrop, List.getElem?_map, hname]
    rfl
  · rcases Book.cellOf_str (List.mem_of_getElem? hr) hvalue with hcell | ⟨htoken, hno, hcell⟩
    · rw [hcell]
      exact .inl ⟨rfl, splitCell_of_unmarked hplain, splitCell_eq_singleton hplain⟩
    · exact .inr ⟨htoken, hschema ▸ hno, hcell⟩

/-- A list that one pool has written makes two strings of the one that another pool had written. -/
theorem string_cells_split_two_pools :
    let node (id : String) (v : Json) : Element :=
      .node { id, tags := ["t"], properties := .ofList [("p", v)] }
    let write (e : Element) : PoolAct := .write .nodes (.single "t") (.element e)
    let first := write (node "1" (.str "y;z"))
    let second := write (node "2" (.strings ["x"]))
    ∃ (log : SharedLog 2) (s : Scribes 2) (schemas : Collection) (tree : FileTree)
        (w : LabelWriter) (text : String) (row : List String),
      play [(0, first), (1, second)] (start 2 (.ofNames ["out"]) [.nodes] ⟨∅, 0, { max := 2 }⟩) =
        (log, s) ∧
      reconcile .csv .nodes (.ofFragments (s.fragments .nodes)) s.disk.tree = (.ok schemas, tree) ∧
      (s.pools 0).writer? .nodes (.single "t") = some w ∧ tree.read? w.path = some text ∧
      Csv.records text.toList = [["~id", "~label", "p:String[]"], row] ∧
      row[2]? = some "y;z" ∧ splitCell "y;z" = ["y", "z"] := by
  intro node write first second
  let scribes := start 2 (.ofNames ["out"]) [.nodes] ⟨∅, 0, { max := 2 }⟩
  have hdone : (scribes.step 0 first).1 = .ok () := by decide +kernel
  have hcolumns : (((play [(0, first), (1, second)] scribes).2.pools 0).writer? .nodes
      (.single "t")).map (·.schema.names) = some ["p"] := by decide +kernel
  have hheader : ((reconcile .csv .nodes
      (.ofFragments ((play [(0, first), (1, second)] scribes).2.fragments .nodes))
        (play [(0, first), (1, second)] scribes).2.disk.tree).1.map fun schemas =>
          (schemas.get? (.single "t")).map fun canonical =>
            (canonical.names, csvHeader .nodes (.single "t") canonical)) =
      .ok (some (["p"], ["~id", "~label", "p:String[]"])) := by decide +kernel
  rcases hplay : play [(0, first), (1, second)] scribes with ⟨log, s⟩
  have hlog : log =
      [(0, first, .ok ()), (1, second, ((scribes.step 0 first).2.step 1 second).1)] := by
    rw [play_cons, play_cons, hdone] at hplay
    exact (Prod.mk.inj hplay).1.symm
  have hitems : (log.of 0).items .nodes (.single "t") = [.element (node "1" (.str "y;z"))] := by
    rw [hlog]
    simp [SharedLog.of, PoolLog.items, first, write]
  rw [hplay] at hcolumns hheader
  rcases hreconcile : reconcile .csv .nodes (.ofFragments (s.fragments .nodes)) s.disk.tree with
    ⟨_ | schemas, tree⟩
  · rw [hreconcile] at hheader
    cases hheader
  rw [hreconcile] at hheader
  have hsuits : ∀ a ∈ [((0 : Fin 2), first), (1, second)], a.2.Suits := by
    intro a ha
    rcases List.mem_pair.1 ha with rfl | rfl <;> exact OutputKind.noConfusion
  obtain ⟨w, canonical, text, extra, rows, hw, hcanonical, htext, hread, hextra, hlength, hcells⟩ :=
    string_cells_split (.ofNames ["out"]) [.nodes] ⟨∅, 0, { max := 2 }⟩ hsuits hplay (by decide)
      hreconcile 0 (show (log.of 0).items .nodes (.single "t") ≠ [] by rw [hitems]; simp)
  rw [hw, Option.map_some, Option.some.injEq] at hcolumns
  simp only [Except.map, hcanonical, Option.map_some, Except.ok.injEq, Option.some.injEq,
    Prod.mk.injEq] at hheader
  obtain ⟨hnames, htitles⟩ := hheader
  have hone : w.schema.OneLine := by
    intro name hname
    rw [hcolumns] at hname
    rw [List.mem_singleton.1 hname]
    decide
  rw [hitems] at hlength hcells
  obtain ⟨row, rfl⟩ := List.length_eq_one_iff.1 hlength
  have hvalue : (SortedMap.ofList [("p", Json.str "y;z")] : PropertyMap).get? "p" =
      some (.str "y;z") := rfl
  have hname : canonical.names[0]? = some "p" := by rw [hnames]; rfl
  obtain ⟨_, cell, hrow, hcell, ⟨rfl, hsplit, -⟩ | ⟨htoken, -⟩⟩ :=
    hcells (k := 0) (j := 0) rfl rfl hname hvalue (by decide)
  · obtain rfl := Option.some.inj hrow
    rw [hextra hone, htitles, List.nil_append] at hread
    exact ⟨log, s, schemas, tree, w, text, row, rfl, hreconcile, hw, htext, hread, hcell,
      hsplit.trans (by decide)⟩
  · exact absurd htoken (by decide)

end Scribes

end GraphExport
