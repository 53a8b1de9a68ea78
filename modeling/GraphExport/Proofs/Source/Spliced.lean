import GraphExport.Job.NamedQueries
import GraphExport.Proofs.Text.Cut
import GraphExport.Proofs.Text.Number

/-!
# GraphExport.Proofs.Source.Spliced

A window put into the text of a traversal, as the first step after the source step, is read back as
that window, and nothing else of the traversal changes.

* `cutSteps_window`: the step written for a window is read as `range` with the two bounds.
* `parse?_spliced`: so is the traversal as a whole.
-/

namespace GraphExport

namespace Text

theorem dropWhile_eq_self {p : Char → Bool} {s : List Char} (h : ∀ c ∈ s, p c = false) :
    s.dropWhile p = s := by
  cases s with
  | nil => rfl
  | cons c s => simp [h c List.mem_cons_self]

theorem stripBy_eq_self {p : Char → Bool} {s : List Char} (h : ∀ c ∈ s, p c = false) :
    stripBy p s = s := by
  rw [stripBy, dropWhile_eq_self h, dropWhile_eq_self fun c hc => h c (List.mem_reverse.1 hc),
    List.reverse_reverse]

theorem stripBy_cons {p : Char → Bool} {c : Char} (hc : p c = true) (s : List Char) :
    stripBy p (c :: s) = stripBy p s := by
  rw [stripBy, List.dropWhile_cons_of_pos hc, ← stripBy]

/-- The characters of a number are neither blanks nor quotes nor marks of the dialect. -/
theorem of_mem_toString {i : Int} {c : Char} (h : c ∈ (toString i).toList) :
    isBlank c = false ∧ c ≠ '\'' ∧ c ≠ '"' ∧ c ≠ ',' ∧ c ≠ '(' ∧ c ≠ ')' := by
  rcases mem_toString h with hc | rfl
  · have hbounds : 48 ≤ c.toNat ∧ c.toNat ≤ 57 := by
      simp only [Char.isDigit, Bool.and_eq_true, decide_eq_true_eq] at hc
      exact ⟨UInt32.le_iff_toNat_le.1 hc.1, UInt32.le_iff_toNat_le.1 hc.2⟩
    refine ⟨?_, ?_, ?_, ?_, ?_, ?_⟩
    · simp only [isBlank, Bool.or_eq_false_iff, Bool.and_eq_false_iff, decide_eq_false_iff_not,
        beq_eq_false_iff_ne]
      omega
    all_goals
      rintro rfl
      exact absurd hc (by decide)
  · decide

end Text

namespace Traversal

/-! ## The source step -/

theorem cutSource_append {s rest : List Char} {kind : ElementKind}
    (h : cutSource s = some (kind, rest)) :
    ∃ source, s = source ++ rest ∧ ∀ x, cutSource (source ++ x) = some (kind, x) := by
  have hblank : ∀ c ∈ s.takeWhile Text.isBlank, Text.isBlank c = true :=
    List.all_eq_true.1 List.all_takeWhile
  have hg : Text.isBlank 'g' = false := by decide
  -- Both steps differ in one letter only.
  have hcut : ∀ {letter : Char} {tail : List Char},
      s.dropWhile Text.isBlank = 'g' :: '.' :: letter :: '(' :: ')' :: tail →
        let source := s.takeWhile Text.isBlank ++ ['g', '.', letter, '(', ')']
        s = source ++ tail ∧ ∀ x, (source ++ x).dropWhile Text.isBlank =
          'g' :: '.' :: letter :: '(' :: ')' :: x := by
    intro letter tail htail
    have hs : s = s.takeWhile Text.isBlank ++ s.dropWhile Text.isBlank :=
      List.takeWhile_append_dropWhile.symm
    rw [htail] at hs
    refine ⟨by rw [List.append_assoc]; exact hs, fun x => ?_⟩
    rw [List.append_assoc, List.dropWhile_append_of_pos hblank]
    exact List.dropWhile_cons_of_neg (by simp [hg])
  unfold cutSource at h
  split at h
  · rename_i tail htail
    cases h
    refine ⟨_, (hcut htail).1, fun x => ?_⟩
    rw [cutSource, (hcut htail).2 x]
    rfl
  · rename_i tail htail
    cases h
    refine ⟨_, (hcut htail).1, fun x => ?_⟩
    rw [cutSource, (hcut htail).2 x]
    rfl
  · cases h

/-! ## The step of a window -/

theorem takeWhile_append_stop {p : Char → Bool} {s : List Char} {stop : Char}
    (h : ∀ c ∈ s, p c = true) (hstop : p stop = false) (rest : List Char) :
    (s ++ stop :: rest).takeWhile p = s ∧ (s ++ stop :: rest).dropWhile p = stop :: rest := by
  constructor
  · rw [List.takeWhile_append_of_pos h, List.takeWhile_cons_of_neg (by simp [hstop]),
      List.append_nil]
  · rw [List.dropWhile_append_of_pos h, List.dropWhile_cons_of_neg (by simp [hstop])]

theorem cutStep_append {name args : List Char} (hname : '(' ∉ name)
    (hargs : '(' ∉ args ∧ ')' ∉ args) (rest : List Char) :
    cutStep ('.' :: (name ++ '(' :: (args ++ ')' :: rest))) = some (name, args, rest) := by
  have hn : ∀ c ∈ name, (c != '(') = true := by
    intro c hc
    exact bne_iff_ne.2 fun h => hname (h ▸ hc)
  have ha : ∀ c ∈ args, (c != '(' && c != ')') = true := by
    intro c hc
    exact Bool.and_eq_true_iff.2
      ⟨bne_iff_ne.2 fun h => hargs.1 (h ▸ hc), bne_iff_ne.2 fun h => hargs.2 (h ▸ hc)⟩
  obtain ⟨htake, hdrop⟩ := takeWhile_append_stop hn (show ('(' != '(') = false by decide)
    (args ++ ')' :: rest)
  obtain ⟨htake', hdrop'⟩ :=
    takeWhile_append_stop ha (show (')' != '(' && ')' != ')') = false by decide) rest
  simp only [cutStep, htake, hdrop, htake', hdrop']

theorem arguments_bounds (a b : Int) :
    arguments ((toString a).toList ++ ',' :: ' ' :: (toString b).toList) =
      [toString a, toString b] := by
  have hcomma : ∀ i : Int, ',' ∉ (toString i).toList := fun i h =>
    absurd rfl (Text.of_mem_toString h).2.2.2.1
  have hcomma' : ',' ∉ ' ' :: (toString b).toList := by
    rw [List.mem_cons, not_or]
    exact ⟨by decide, hcomma b⟩
  have hstrip : ∀ i : Int, Text.stripBy (fun c => c = '\'' || c = '"')
      (Text.stripBy Text.isBlank (toString i).toList) = (toString i).toList := by
    intro i
    rw [Text.stripBy_eq_self fun c hc => (Text.of_mem_toString hc).1, Text.stripBy_eq_self]
    intro c hc
    obtain ⟨-, hsingle, hdouble, -⟩ := Text.of_mem_toString hc
    simp [hsingle, hdouble]
  have hne : ∀ i : Int, (toString i != "") = true := fun i =>
    bne_iff_ne.2 (Text.toString_ne_empty i)
  rw [arguments, Text.cutAt_append (hcomma a), Text.cutAt_of_not_mem hcomma']
  simp only [List.map_cons, List.map_nil, hstrip, String.ofList_toList,
    Text.stripBy_cons (show Text.isBlank ' ' = true by decide)]
  rw [List.filter_eq_self]
  intro x hx
  rcases List.mem_cons.1 hx with rfl | hx
  · exact hne a
  · rw [List.mem_singleton.1 hx]
    exact hne b

theorem cutSteps_of_cutStep {s name args rest : List Char}
    (h : cutStep s = some (name, args, rest)) :
    cutSteps s =
      ((String.ofList name, arguments args) :: (cutSteps rest).1, (cutSteps rest).2) := by
  rw [cutSteps]
  split
  · rename_i hnone
    rw [h] at hnone
    cases hnone
  · rename_i hsome
    rw [h] at hsome
    cases hsome
    rfl

theorem cutSteps_of_none {s : List Char} (h : cutStep s = none) : cutSteps s = ([], s) := by
  rw [cutSteps]
  split
  · rfl
  · rename_i hsome
    rw [h] at hsome
    cases hsome

theorem cutSteps_window (w : Window) (rest : List Char) :
    cutSteps ('.' :: (w.text.toList ++ rest)) =
      (("range", [toString w.start, toString w.stop]) :: (cutSteps rest).1, (cutSteps rest).2) := by
  have hparen : ∀ c ∈ (toString w.start).toList ++ ',' :: ' ' :: (toString w.stop).toList,
      c ≠ '(' ∧ c ≠ ')' := by
    intro c hc
    rcases List.mem_append.1 hc with hc | hc
    · exact (Text.of_mem_toString hc).2.2.2.2
    · rcases List.mem_cons.1 hc with rfl | hc
      · decide
      · rcases List.mem_cons.1 hc with rfl | hc
        · decide
        · exact (Text.of_mem_toString hc).2.2.2.2
  have htext : w.text.toList ++ rest = "range".toList ++ '(' ::
      (((toString w.start).toList ++ ',' :: ' ' :: (toString w.stop).toList) ++ ')' :: rest) := by
    have hopen : ("range(" : String).toList = "range".toList ++ ['('] := by decide
    have hbetween : (", " : String).toList = [',', ' '] := by decide
    have hclose : (")" : String).toList = [')'] := by decide
    simp [Window.text, hopen, hbetween, hclose]
  have hstep := cutStep_append (show '(' ∉ "range".toList by decide)
    ⟨fun h => (hparen _ h).1 rfl, fun h => (hparen _ h).2 rfl⟩ rest
  rw [htext, cutSteps_of_cutStep hstep, arguments_bounds]
  rfl

/-! ## The traversal -/

theorem meaning?_range {a b : Int} (ha : minWord ≤ a ∧ a ≤ maxWord)
    (hb : minWord ≤ b ∧ b ≤ maxWord) :
    meaning? "range" [toString a, toString b] = some (.narrow (.range ⟨a, b⟩)) := by
  simp only [meaning?, Text.signedWord?_toString ha, Text.signedWord?_toString hb]

/-- A query is its source step and the rest, and the source step is one also before other steps. -/
theorem cutQuery_append {query source rest : String} {kind : ElementKind}
    (h : cutQuery query = some (kind, source, rest)) :
    query = source ++ rest ∧
      ∀ x, cutSource (source.toList ++ x) = some (kind, x) := by
  unfold cutQuery at h
  split at h
  · cases h
  · rename_i kind' tail htail
    cases h
    obtain ⟨head, hhead, hcut⟩ := cutSource_append htail
    have htake : query.toList.take (query.toList.length - tail.length) = head := by
      rw [hhead]
      simp
    rw [htake]
    refine ⟨?_, fun x => ?_⟩
    · rw [← String.ofList_append, ← hhead, String.ofList_toList]
    · rw [String.toList_ofList]
      exact hcut x

theorem cutQuery_of_parse? {query : String} {t : Traversal} (h : parse? query = some t) :
    ∃ source rest, cutQuery query = some (t.kind, source, rest) := by
  unfold parse? at h
  split at h
  · cases h
  · rename_i kind tail htail
    dsimp only at h
    split at h
    · obtain ⟨⟨steps, projection⟩, -, rfl⟩ := Option.map_eq_some_iff.1 h
      rw [cutQuery, htail]
      exact ⟨_, _, rfl⟩
    · cases h

theorem parse?_eq_of_cut {query : String} {kind : ElementKind} {rest : List Char}
    (h : cutSource query.toList = some (kind, rest)) :
    parse? query =
      if isEnd (cutSteps rest).2 then
        (ofSteps? (cutSteps rest).1).map fun (steps, projection) => { kind, steps, projection }
      else none := by
  simp only [parse?, h]

theorem parse?_spliced {query source rest : String} {kind : ElementKind} {t : Traversal}
    (hcut : cutQuery query = some (kind, source, rest)) (hparse : parse? query = some t)
    {w : Window} (hstart : minWord ≤ w.start ∧ w.start ≤ maxWord)
    (hstop : minWord ≤ w.stop ∧ w.stop ≤ maxWord) :
    parse? (source ++ "." ++ w.text ++ rest) = some { t with steps := .range w :: t.steps } := by
  obtain ⟨rfl, hsource⟩ := cutQuery_append hcut
  have hdot : ("." : String).toList = ['.'] := by decide
  have hlist : (source ++ "." ++ w.text ++ rest).toList =
      source.toList ++ '.' :: (w.text.toList ++ rest.toList) := by
    simp [hdot]
  have hold : cutSource (source ++ rest).toList = some (kind, rest.toList) := by
    rw [String.toList_append]
    exact hsource _
  rw [parse?_eq_of_cut hold] at hparse
  rw [parse?_eq_of_cut (by rw [hlist]; exact hsource _), cutSteps_window]
  split at hparse
  · rename_i hend
    obtain ⟨⟨steps, projection⟩, hsteps, rfl⟩ := Option.map_eq_some_iff.1 hparse
    rw [if_pos hend]
    simp only [ofSteps?, meaning?_range hstart hstop, hsteps, Option.map_some]
  · cases hparse

end Traversal

end GraphExport
