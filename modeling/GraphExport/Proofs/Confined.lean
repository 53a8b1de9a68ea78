import GraphExport.Failure
import GraphExport.Proofs.Files

/-!
# GraphExport.Proofs.Confined

Steps that read and change a file tree at some places only. Two of them that have no place in common
may be done in either order.

* `Confined`: what a step finds and leaves at its places depends on these alone, and all else stays.
* `Confined.comm`: two steps at different places may be done in either order.
* `Confined.bind`, `Confined.read`, `Confined.write`: steps are put together from reads and writes
  at their places; `Confined.makeFile` and the like are the operations of a file tree.
-/

namespace GraphExport

namespace FileTree

/-- Two trees have the same at some places. -/
def AgreeOn (places : Path → Prop) (t t' : FileTree) : Prop := ∀ p, places p → t.get? p = t'.get? p

theorem AgreeOn.insert {places : Path → Prop} {t t' : FileTree} (h : AgreeOn places t t')
    (p : Path) (e : Entry) : AgreeOn places (t.insert p e) (t'.insert p e) := by
  intro q hq
  rw [SortedMap.get?_insert, SortedMap.get?_insert, h q hq]

theorem AgreeOn.erase {places : Path → Prop} {t t' : FileTree} (h : AgreeOn places t t')
    (p : Path) : AgreeOn places (t.erase p) (t'.erase p) := by
  intro q hq
  rw [SortedMap.get?_erase, SortedMap.get?_erase, h q hq]

end FileTree

/-- A step that reads and changes a tree at some places only. -/
structure Confined {α : Type} (places : Path → Prop) (step : FileTree → α × FileTree) : Prop where
  frame : ∀ t p, ¬ places p → (step t).2.get? p = t.get? p
  result : ∀ {t t'}, FileTree.AgreeOn places t t' → (step t).1 = (step t').1
  effect : ∀ {t t'}, FileTree.AgreeOn places t t' →
    FileTree.AgreeOn places (step t).2 (step t').2

namespace Confined

variable {α β : Type} {places others : Path → Prop} {p q : Path}

/-- Two steps that have no place in common may be done in either order. -/
theorem comm {f : FileTree → α × FileTree} {g : FileTree → β × FileTree} (hf : Confined places f)
    (hg : Confined others g) (hapart : ∀ p, places p → ¬ others p) (t : FileTree) :
    (f (g t).2).1 = (f t).1 ∧ (g (f t).2).1 = (g t).1 ∧ (f (g t).2).2 = (g (f t).2).2 := by
  have hleft : FileTree.AgreeOn places (g t).2 t := fun p hp => hg.frame t p (hapart p hp)
  have hright : FileTree.AgreeOn others (f t).2 t :=
    fun p hp => hf.frame t p fun hp' => hapart p hp' hp
  refine ⟨hf.result hleft, hg.result hright, SortedMap.ext_get? fun p => ?_⟩
  by_cases hp : places p
  · rw [hf.effect hleft p hp, hg.frame _ p (hapart p hp)]
  · rw [hf.frame _ p hp]
    by_cases hq : others p
    · exact (hg.effect hright p hq).symm
    · rw [hg.frame _ p hq, hg.frame _ p hq, hf.frame _ p hp]

/-! ## Steps put together -/

theorem pure (a : α) : Confined places fun t => (a, t) :=
  ⟨fun _ _ _ => rfl, fun _ => rfl, fun h => h⟩

/-- What comes second may depend on the result of what comes first. -/
theorem bind {first : FileTree → α × FileTree} (hfirst : Confined places first)
    (next : α → FileTree → β × FileTree) (hnext : ∀ t, Confined places (next (first t).1)) :
    Confined places fun t => next (first t).1 (first t).2 where
  frame t p hp := by rw [(hnext t).frame _ p hp, hfirst.frame t p hp]
  result {t t'} h := by
    rw [hfirst.result h]
    exact (hnext t').result (hfirst.effect h)
  effect {t t'} h := by
    rw [hfirst.result h]
    exact (hnext t').effect (hfirst.effect h)

theorem congr {step step' : FileTree → α × FileTree} (h : Confined places step)
    (heq : ∀ t, step' t = step t) : Confined places step' :=
  funext heq ▸ h

theorem map {step : FileTree → α × FileTree} (h : Confined places step) (g : α → β) :
    Confined places fun t => (g (step t).1, (step t).2) :=
  h.bind (fun a t => (g a, t)) fun _ => .pure _

/-- What is done next, unless there was a failure. -/
def onward (next : α → FileTree → β × FileTree) (failed : Failure → β) :
    Except Failure α → FileTree → β × FileTree
  | .ok a, t => next a t
  | .error f, t => (failed f, t)

theorem onward_of {next : α → FileTree → β × FileTree} {failed : Failure → β}
    {found : Except Failure α} (h : ∀ a, found = .ok a → Confined places (next a)) :
    Confined places (onward next failed found) := by
  cases found with
  | ok a => exact h a rfl
  | error f => exact .pure (failed f)

/-- What is done may depend on what is at a place. -/
theorem read {step : FileTree → α × FileTree} (hp : places p)
    (h : ∀ e, ∃ next, Confined places next ∧ ∀ t : FileTree, t.get? p = e → step t = next t) :
    Confined places step where
  frame t := by
    obtain ⟨next, hnext, heq⟩ := h (t.get? p)
    rw [heq t rfl]
    exact hnext.frame t
  result {t t'} hagree := by
    obtain ⟨next, hnext, heq⟩ := h (t.get? p)
    rw [heq t rfl, heq t' (hagree p hp).symm]
    exact hnext.result hagree
  effect {t t'} hagree := by
    obtain ⟨next, hnext, heq⟩ := h (t.get? p)
    rw [heq t rfl, heq t' (hagree p hp).symm]
    exact hnext.effect hagree

/-- A change at the places, before something else is done. -/
theorem write {next : FileTree → α × FileTree} {change : FileTree → FileTree}
    (hframe : ∀ t q, ¬ places q → (change t).get? q = t.get? q)
    (heffect : ∀ {t t'}, FileTree.AgreeOn places t t' →
      FileTree.AgreeOn places (change t) (change t'))
    (h : Confined places next) : Confined places fun t => next (change t) where
  frame t q hq := by rw [h.frame _ q hq, hframe t q hq]
  result heq := h.result (heffect heq)
  effect heq := h.effect (heffect heq)

/-! ## The operations of a file tree -/

section Operations

variable {refused next : FileTree → α × FileTree}

theorem append (hp : places p) (text : String) (h : Confined places next) :
    Confined places fun t => next (t.append p text) := by
  refine h.write (fun t q hq => FileTree.get?_append_of_ne ?_ text) fun {t t'} heq => ?_
  · rintro rfl
    exact hq hp
  · unfold FileTree.append
    rw [heq p hp]
    split
    · exact heq.insert p _
    · exact heq

/-- A change that may be refused, before something else is done. -/
theorem attempt {change : FileTree → Option FileTree}
    (hframe : ∀ {t u}, change t = some u → ∀ q, ¬ places q → u.get? q = t.get? q)
    (heffect : ∀ {t t'}, FileTree.AgreeOn places t t' →
      Option.Rel (FileTree.AgreeOn places) (change t) (change t'))
    (hrefused : Confined places refused) (hnext : Confined places next) :
    Confined places fun t =>
      match change t with
      | none => refused t
      | some u => next u where
  frame t q hq := by
    cases hchange : change t with
    | none => exact hrefused.frame t q hq
    | some u => rw [← hframe hchange q hq]; exact hnext.frame u q hq
  result {t t'} heq := by
    have hrel := heffect heq
    revert hrel
    generalize change t = u, change t' = u'
    rintro (hsame | _)
    · exact hnext.result hsame
    · exact hrefused.result heq
  effect {t t'} heq := by
    have hrel := heffect heq
    revert hrel
    generalize change t = u, change t' = u'
    rintro (hsame | _)
    · exact hnext.effect hsame
    · exact hrefused.effect heq

theorem makeFile (hparent : places p.parent) (hp : places p) (hrefused : Confined places refused)
    (hnext : Confined places next) : Confined places fun t =>
      match t.makeFile p with
      | none => refused t
      | some t => next t := by
  refine .attempt (fun hmade q hq => ?_) (fun {t t'} heq => ?_) hrefused hnext
  · obtain ⟨rfl, -⟩ := FileTree.makeFile_eq_some hmade
    refine SortedMap.get?_insert_of_ne _ ?_ _
    rintro rfl
    exact hq hp
  · unfold FileTree.makeFile
    rw [FileTree.isDirectory_congr (heq _ hparent), FileTree.isDirectory_congr (heq p hp)]
    split
    · exact .some (heq.insert p _)
    · exact .none

theorem makeDirectories (hp : ∀ q ∈ p.ancestors, places q) (hrefused : Confined places refused)
    (hnext : Confined places next) : Confined places fun t =>
      match t.makeDirectories p with
      | none => refused t
      | some t => next t := by
  refine .attempt (fun hmade q hq => ?_) (fun {t t'} heq => ?_) hrefused hnext
  · unfold FileTree.makeDirectories at hmade
    split at hmade
    · cases hmade
    · cases hmade
      rw [FileTree.get?_insert_directories, if_neg fun hmem => hq (hp q hmem)]
  · have hfiles : p.ancestors.any t.isFile = p.ancestors.any t'.isFile := by
      rw [Bool.eq_iff_iff, List.any_eq_true, List.any_eq_true]
      exact exists_congr fun q => and_congr_right fun hq => by
        rw [FileTree.isFile_congr (heq q (hp q hq))]
    unfold FileTree.makeDirectories
    rw [hfiles]
    split
    · exact .none
    · refine .some fun q hq => ?_
      rw [FileTree.get?_insert_directories, FileTree.get?_insert_directories, heq q hq]

theorem moveFile (hp : places p) (hq : places q) (hrefused : Confined places refused)
    (hnext : Confined places next) : Confined places fun t =>
      match t.moveFile p q with
      | none => refused t
      | some t => next t := by
  refine .attempt (fun hmoved r hr => ?_) (fun {t t'} heq => ?_) hrefused hnext
  · obtain ⟨content, -, -, rfl⟩ := FileTree.moveFile_eq_some hmoved
    rw [SortedMap.get?_insert_of_ne _ (by rintro rfl; exact hr hq), SortedMap.get?_erase,
      if_neg (by rintro rfl; exact hr hp)]
  · unfold FileTree.moveFile
    rw [heq p hp, FileTree.isDirectory_congr (heq q hq)]
    split
    · split
      · exact .none
      · exact .some ((heq.erase p).insert q _)
    · exact .none

end Operations

end Confined

end GraphExport
