import GraphExport.Job.FullExport
import GraphExport.Proofs.Files

/-!
# GraphExport.Proofs.Job.Output

The files of a job as those outside see them. A job works in a view of its output directory, and
what it leaves there takes the place of what was in that directory.

* `FileTree.get?_view`, `FileTree.get?_withView`: a view and what is put back, path by path.
* `FileTree.file_openWay`: making a way changes no file.
* `Job.inOutput_ok`: what a job has done inside is done in the directory, and nowhere else.
-/

namespace GraphExport

namespace Path

@[simp] theorem climb_join (p q : Path) : (p.join q).climb = q.climb ++ p.climb := rfl

theorem join_inj {p q r : Path} (h : p.join q = p.join r) : q = r := by
  have := congrArg climb h
  rw [climb_join, climb_join, List.append_left_inj] at this
  exact ext_climb this

/-- What is below a directory is reached from it by some names. -/
theorem below?_eq_some {dir p q : Path} :
    dir.below? p = some q ↔ p = dir.join q ∧ q.climb ≠ [] := by
  unfold below?
  have hd := dir.depth_eq
  have hp := p.depth_eq
  constructor
  · intro h
    split at h
    · rename_i hbelow
      simp only [Bool.and_eq_true, decide_eq_true_eq] at hbelow
      obtain rfl := Option.some.inj h
      refine ⟨ext_climb ?_, ?_⟩
      · rw [climb_join, ← hbelow.2, List.take_append_drop]
      · rw [Ne, List.take_eq_nil_iff, not_or]
        refine ⟨by omega, fun hnil => ?_⟩
        rw [hnil, List.length_nil] at hp
        omega
    · cases h
  · rintro ⟨rfl, hq⟩
    have hlength := List.length_pos_iff.2 hq
    rw [climb_join, List.length_append] at hp
    have hdepth : (dir.join q).depth - dir.depth = q.climb.length := by omega
    rw [if_pos]
    · refine congrArg some (ext_climb ?_)
      show List.take _ _ = _
      rw [hdepth, climb_join, List.take_left]
    · rw [hdepth, climb_join, List.drop_left]
      simp only [Bool.and_eq_true, decide_eq_true_eq]
      exact ⟨by omega, trivial⟩

theorem below?_eq_none {dir p : Path} (h : ∀ q, q.climb ≠ [] → p ≠ dir.join q) :
    dir.below? p = none := by
  cases hb : dir.below? p with
  | none => rfl
  | some q =>
    obtain ⟨hp, hq⟩ := below?_eq_some.1 hb
    exact absurd hp (h q hq)

end Path

namespace FileTree

/-! ## Views -/

/-- An entry below a directory, with the path that it has when the directory is known as `home`. -/
def renamed (dir home : Path) (e : Path × Entry) : Option (Path × Entry) :=
  (dir.below? e.1).map fun q => (home.join q, e.2)

theorem renamed_eq_some {dir home : Path} {a b : Path × Entry} :
    renamed dir home a = some b ↔
      ∃ r, r.climb ≠ [] ∧ a.1 = dir.join r ∧ b = (home.join r, a.2) := by
  rw [renamed, Option.map_eq_some_iff]
  constructor
  · rintro ⟨r, hr, rfl⟩
    obtain ⟨ha, hne⟩ := Path.below?_eq_some.1 hr
    exact ⟨r, hne, ha, rfl⟩
  · rintro ⟨r, hne, ha, rfl⟩
    exact ⟨r, Path.below?_eq_some.2 ⟨ha, hne⟩, rfl⟩

theorem view_eq (t : FileTree) (dir home : Path) :
    t.view dir home = .ofList ((home, .directory) :: t.entries.filterMap (renamed dir home)) := rfl

theorem nodup_renamed (t : FileTree) (dir home : Path) :
    (((home, Entry.directory) :: t.entries.filterMap (renamed dir home)).map (·.1)).Nodup := by
  rw [List.map_cons, List.nodup_cons]
  constructor
  · intro hin
    obtain ⟨b, hb, heq⟩ := List.mem_map.1 hin
    obtain ⟨a, -, ha⟩ := List.mem_filterMap.1 hb
    obtain ⟨r, hr, -, rfl⟩ := renamed_eq_some.1 ha
    have := congrArg Path.climb heq
    rw [Path.climb_join] at this
    exact hr (List.append_left_eq_self.1 this)
  · rw [List.nodup_iff_pairwise_ne, List.pairwise_map, List.pairwise_filterMap]
    have hentries := t.increasing.nodup_keys
    rw [List.nodup_iff_pairwise_ne, List.pairwise_map] at hentries
    refine hentries.imp fun {a b} hne x hx y hy heq => hne ?_
    obtain ⟨r, -, ha, rfl⟩ := renamed_eq_some.1 hx
    obtain ⟨r', -, hb, rfl⟩ := renamed_eq_some.1 hy
    rw [ha, hb, Path.join_inj heq]

theorem get?_view (t : FileTree) (dir home : Path) {q : Path} (hq : q.climb ≠ []) :
    (t.view dir home).get? (home.join q) = t.get? (dir.join q) := by
  have hkeys : (((home, Entry.directory) ::
      t.entries.filterMap (renamed dir home)).reverse.map (·.1)).Nodup := by
    rw [List.map_reverse]
    exact (List.reverse_perm _).nodup_iff.2 (nodup_renamed t dir home)
  apply Option.ext
  intro e
  rw [view_eq, SortedMap.get?_ofList, lookup_eq_some_iff hkeys, List.mem_reverse, List.mem_cons]
  constructor
  · rintro (heq | hin)
    · have := congrArg (fun e => e.1.climb) heq
      simp only [Path.climb_join] at this
      exact absurd (List.append_left_eq_self.1 this) hq
    · obtain ⟨a, hmem, ha⟩ := List.mem_filterMap.1 hin
      obtain ⟨r, -, hpath, heq⟩ := renamed_eq_some.1 ha
      rw [Prod.mk.injEq] at heq
      rw [Path.join_inj heq.1, ← hpath, heq.2]
      exact SortedMap.mem_entries.1 hmem
  · intro hget
    exact .inr (List.mem_filterMap.2
      ⟨_, SortedMap.mem_entries.2 hget, renamed_eq_some.2 ⟨q, hq, rfl, rfl⟩⟩)

def putBack (dir home : Path) (t : FileTree) (e : Path × Entry) : FileTree :=
  match home.below? e.1 with
  | some q => t.insert (dir.join q) e.2
  | none => t

theorem withView_eq (t : FileTree) (dir home : Path) (inside : FileTree) :
    t.withView dir home inside = inside.entries.foldl (putBack dir home) (t.clear dir) := rfl

theorem get?_putBack {dir home : Path} {entries : List (Path × Entry)}
    (hkeys : (entries.map (·.1)).Nodup) (t : FileTree) {q : Path} (hq : q.climb ≠ []) :
    (entries.foldl (putBack dir home) t).get? (dir.join q) =
      (entries.lookup (home.join q)).or (t.get? (dir.join q)) := by
  induction entries generalizing t with
  | nil => rfl
  | cons e rest ih =>
    obtain ⟨p, e⟩ := e
    rw [List.map_cons, List.nodup_cons] at hkeys
    rw [List.foldl_cons, ih hkeys.2, lookup_cons_eq]
    by_cases hp : home.join q = p
    · subst hp
      have hrest : rest.lookup (home.join q) = none := by
        rw [List.lookup_eq_none_iff]
        intro e' he'
        rw [bne_iff_ne]
        intro heq
        exact hkeys.1 (heq ▸ List.mem_map_of_mem (f := (·.1)) he')
      rw [if_pos rfl, hrest, putBack, Path.below?_eq_some.2 ⟨rfl, hq⟩]
      simp
    · rw [if_neg hp]
      congr 1
      unfold putBack
      split
      · rename_i r hr
        obtain ⟨rfl, -⟩ := Path.below?_eq_some.1 hr
        rw [SortedMap.get?_insert_of_ne]
        intro heq
        exact hp (by rw [Path.join_inj heq])
      · rfl

theorem get?_putBack_of_not_below {dir home p : Path} (hp : ∀ q, q.climb ≠ [] → p ≠ dir.join q)
    (entries : List (Path × Entry)) (t : FileTree) :
    (entries.foldl (putBack dir home) t).get? p = t.get? p := by
  induction entries generalizing t with
  | nil => rfl
  | cons e rest ih =>
    rw [List.foldl_cons, ih]
    unfold putBack
    split
    · rename_i q hq
      exact SortedMap.get?_insert_of_ne _ (hp q (Path.below?_eq_some.1 hq).2) _
    · rfl

/-- What is below a directory goes when the directory is cleared. -/
theorem get?_clear (t : FileTree) (dir : Path) {q : Path} (hq : q.climb ≠ []) :
    (t.clear dir).get? (dir.join q) = none := by
  rw [clear, SortedMap.get?_filter, Path.below?_eq_some.2 ⟨rfl, hq⟩]
  cases t.get? (dir.join q) <;> rfl

theorem get?_clear_of_not_below (t : FileTree) {dir p : Path}
    (hp : ∀ q, q.climb ≠ [] → p ≠ dir.join q) : (t.clear dir).get? p = t.get? p := by
  rw [clear, SortedMap.get?_filter, Path.below?_eq_none hp]
  cases t.get? p <;> rfl

theorem get?_withView (t : FileTree) (dir home : Path) (inside : FileTree) {q : Path}
    (hq : q.climb ≠ []) :
    (t.withView dir home inside).get? (dir.join q) = inside.get? (home.join q) := by
  rw [withView_eq, get?_putBack inside.increasing.nodup_keys _ hq, get?_clear t dir hq,
    Option.or_none]
  rfl

theorem get?_withView_of_not_below (t : FileTree) {dir home p : Path} (inside : FileTree)
    (hp : ∀ q, q.climb ≠ [] → p ≠ dir.join q) :
    (t.withView dir home inside).get? p = t.get? p := by
  rw [withView_eq, get?_putBack_of_not_below hp, get?_clear_of_not_below t hp]

/-! ## Ways -/

theorem file_insert_directory {t : FileTree} {p : Path} (h : t.get? p = none) (q : Path)
    (content : String) :
    (t.insert p .directory).get? q = some (.file content) ↔ t.get? q = some (.file content) := by
  rw [SortedMap.get?_insert]
  split
  · rename_i hq
    rw [hq, h]
    simp
  · exact Iff.rfl

theorem file_passOn {moves : List String} {state : FileTree × Path} {t : FileTree} {p : Path}
    (h : moves.foldlM passOn state = some (t, p)) (q : Path) (content : String) :
    t.get? q = some (.file content) ↔ state.1.get? q = some (.file content) := by
  induction moves generalizing state with
  | nil =>
    cases h
    exact Iff.rfl
  | cons move rest ih =>
    rw [List.foldlM_cons] at h
    obtain ⟨next, hnext, hrest⟩ := Option.bind_eq_some_iff.1 h
    rw [ih hrest]
    obtain ⟨t₀, p₀⟩ := state
    simp only [passOn] at hnext
    split at hnext
    · cases hnext
      exact Iff.rfl
    · split at hnext
      · cases hnext
        exact Iff.rfl
      · cases hnext
      · rename_i hnone
        split at hnext
        · cases hnext
          exact file_insert_directory hnone q content
        · cases hnext

theorem file_openWay {t t' : FileTree} {r : Route} {p : Path} (h : t.openWay r = some (p, t'))
    (q : Path) (content : String) :
    t'.get? q = some (.file content) ↔ t.get? q = some (.file content) := by
  unfold openWay at h
  obtain ⟨_, -, h⟩ := Option.bind_eq_some_iff.1 h
  obtain ⟨⟨t₁, p₁⟩, hpass, h⟩ := Option.bind_eq_some_iff.1 h
  rw [← file_passOn hpass q content]
  simp only at h
  split at h
  · cases h
    exact Iff.rfl
  · unfold makeDirectory at h
    simp only at h
    split at h
    · split at h
      · split at h
        · cases h
        · rename_i hcontains
          cases h
          refine file_insert_directory ?_ q content
          rw [SortedMap.contains, Bool.not_eq_true, Option.isSome_eq_false_iff,
            Option.isNone_iff_eq_none] at hcontains
          exact hcontains
      · cases h
    · cases h

end FileTree

/-- What a job has done inside is done in the directory, and nowhere else. -/
theorem Job.inOutput_ok {α : Type} {dir : Route} {t t' : FileTree}
    {job : Path → FileTree → Except Failure α × FileTree} {a : α}
    (h : Job.inOutput dir t job = (.ok a, t')) :
    ∃ (place : Path) (t₁ view inside : FileTree), t.openWay dir = some (place, t₁) ∧
      job dir.home view = (.ok a, inside) ∧
      (∀ q, q.climb ≠ [] → view.read? (dir.home.join q) = t.read? (place.join q)) ∧
      (∀ q, q.climb ≠ [] → t'.read? (place.join q) = inside.read? (dir.home.join q)) ∧
      ∀ p, (∀ q, q.climb ≠ [] → p ≠ place.join q) → t'.read? p = t.read? p := by
  unfold Job.inOutput at h
  split at h
  · cases h
  · rename_i place t₁ hway
    rcases hjob : job dir.home (t₁.view place dir.home) with ⟨result, inside⟩
    rw [hjob] at h
    cases h
    have hread : ∀ p, t₁.read? p = t.read? p :=
      fun _ => FileTree.read?_congr_files fun _ => FileTree.file_openWay hway _ _
    refine ⟨place, t₁, t₁.view place dir.home, inside, hway, hjob, fun q hq => ?_, fun q hq => ?_,
      fun p hp => ?_⟩
    · rw [← hread]
      exact FileTree.read?_congr (FileTree.get?_view t₁ place dir.home hq)
    · exact FileTree.read?_congr (FileTree.get?_withView t₁ place dir.home inside hq)
    · rw [← hread]
      exact FileTree.read?_congr (FileTree.get?_withView_of_not_below t₁ inside hp)

end GraphExport
