import GraphExport.Source.Client

/-!
# GraphExport.Proofs.Source.Feed

What a step keeps or counts, over all that a delivery hands to it.

* `feed_keeps`, `feed_keeps_of_mem`: what every step keeps holds at the end, also after a failure.
* `feed_ok_keeps`: the same for a feed that ends well, with the items that the step has taken.
* `Delivery.feed_cases`: a feed ends well after all items, or with a failure.
-/

namespace GraphExport

variable {α σ : Type} {step : α → σ → Except Failure Unit × σ}

@[simp] theorem feed_nil (s : σ) : feed step [] s = (.ok (), s) := rfl

theorem feed_cons_ok {a : α} {rest : List α} {s s' : σ} (h : step a s = (.ok (), s')) :
    feed step (a :: rest) s = feed step rest s' := by
  simp [feed, h]

theorem feed_cons_error {a : α} {rest : List α} {s s' : σ} {f : Failure}
    (h : step a s = (.error f, s')) : feed step (a :: rest) s = (.error f, s') := by
  simp [feed, h]

/-- What follows is taken only if nothing failed before. -/
theorem feed_append (step : α → σ → Except Failure Unit × σ) (l more : List α) (s : σ) :
    feed step (l ++ more) s =
      match feed step l s with
      | (.ok _, s') => feed step more s'
      | (.error f, s') => (.error f, s') := by
  induction l generalizing s with
  | nil => rfl
  | cons a rest ih =>
    rcases hs : step a s with ⟨result, t⟩
    cases result with
    | ok _ => rw [List.cons_append, feed_cons_ok hs, feed_cons_ok hs, ih]
    | error f => rw [List.cons_append, feed_cons_error hs, feed_cons_error hs]

theorem feed_append_ok {l : List α} {s s' : σ} (h : feed step l s = (.ok (), s')) (more : List α) :
    feed step (l ++ more) s = feed step more s' := by
  rw [feed_append, h]

theorem feed_append_error {l : List α} {s s' : σ} {f : Failure}
    (h : feed step l s = (.error f, s')) (more : List α) :
    feed step (l ++ more) s = (.error f, s') := by
  rw [feed_append, h]

theorem feed_keeps_of_mem {P : σ → Prop} {l : List α}
    (hstep : ∀ a ∈ l, ∀ s, P s → P (step a s).2) {s : σ} (h : P s) : P (feed step l s).2 := by
  induction l generalizing s with
  | nil => exact h
  | cons a rest ih =>
    have ha := hstep a List.mem_cons_self s h
    rcases hs : step a s with ⟨result, s'⟩
    rw [hs] at ha
    cases result with
    | ok _ =>
      rw [feed_cons_ok hs]
      exact ih (fun b hb => hstep b (List.mem_cons_of_mem _ hb)) ha
    | error f => rw [feed_cons_error hs]; exact ha

theorem feed_keeps {P : σ → Prop} (hstep : ∀ a s, P s → P (step a s).2) (l : List α) {s : σ}
    (h : P s) : P (feed step l s).2 :=
  feed_keeps_of_mem (fun a _ => hstep a) h

/-- A feed that ends well has taken every item through the step. -/
theorem feed_ok_keeps {P : List α → σ → Prop}
    (hstep : ∀ a done s s', P done s → step a s = (.ok (), s') → P (done ++ [a]) s') (l : List α)
    {done : List α} {s s' : σ} (h : P done s) (hfeed : feed step l s = (.ok (), s')) :
    P (done ++ l) s' := by
  induction l generalizing done s with
  | nil =>
    cases hfeed
    simpa using h
  | cons a rest ih =>
    rcases hs : step a s with ⟨result, t⟩
    cases result with
    | ok _ =>
      rw [feed_cons_ok hs] at hfeed
      have := ih (hstep a done s t h hs) hfeed
      rwa [List.append_assoc] at this
    | error f =>
      rw [feed_cons_error hs] at hfeed
      cases hfeed

/-- A step that does to the images of states what another one does to the states. -/
theorem feed_image {τ : Type} {step' : α → τ → Except Failure Unit × τ} {g : σ → τ} {l : List α}
    {P : σ → Prop} (hstep : ∀ a ∈ l, ∀ s, P s →
      step' a (g s) = ((step a s).1, g (step a s).2) ∧ P (step a s).2) {s : σ} (h : P s) :
    feed step' l (g s) = ((feed step l s).1, g (feed step l s).2) := by
  induction l generalizing s with
  | nil => rfl
  | cons a rest ih =>
    obtain ⟨ha, hkeeps⟩ := hstep a List.mem_cons_self s h
    rcases hs : step a s with ⟨result, s'⟩
    rw [hs] at ha hkeeps
    cases result with
    | ok _ =>
      rw [feed_cons_ok hs, feed_cons_ok ha]
      exact ih (fun b hb => hstep b (List.mem_cons_of_mem _ hb)) hkeeps
    | error f => rw [feed_cons_error hs, feed_cons_error ha]

/-- A step that never fails takes all items. -/
theorem feed_total {next : α → σ → σ} (hstep : ∀ a s, step a s = (.ok (), next a s)) (l : List α)
    (s : σ) : feed step l s = (.ok (), l.foldl (fun s a => next a s) s) := by
  induction l generalizing s with
  | nil => rfl
  | cons a rest ih => rw [feed_cons_ok (hstep a s), ih, List.foldl_cons]

/-- How a delivery ends if nothing fails that is done with its items. -/
def Delivery.outcome (d : Delivery α) : Except Failure Nat :=
  match d.failure with
  | some f => .error f
  | none => .ok d.items.length

theorem Delivery.outcome_ok {d : Delivery α} {count : Nat} (h : d.outcome = .ok count) :
    count = d.items.length := by
  unfold outcome at h
  split at h
  · cases h
  · exact (Except.ok.inj h).symm

theorem Delivery.feed_of_ok {d : Delivery α} {s s' : σ}
    (h : GraphExport.feed step d.items s = (.ok (), s')) : d.feed step s = (d.outcome, s') := by
  unfold feed outcome
  rw [h]
  cases d.failure <;> rfl

/-- A feed of a delivery ends well, after all its items, or with a failure. -/
theorem Delivery.feed_cases (d : Delivery α) (step : α → σ → Except Failure Unit × σ) (s : σ) :
    (∃ s', d.feed step s = (.ok d.items.length, s') ∧ GraphExport.feed step d.items s = (.ok (), s')
        ∧ d.failure = none) ∨
      ∃ f, d.feed step s = (.error f, (GraphExport.feed step d.items s).2) := by
  rcases hs : GraphExport.feed step d.items s with ⟨result, s'⟩
  cases result with
  | error f => exact .inr ⟨f, by simp [feed, hs]⟩
  | ok _ =>
    cases hf : d.failure with
    | none => exact .inl ⟨s', by simp [feed, hs, hf], rfl, rfl⟩
    | some f => exact .inr ⟨f, by simp [feed, hs, hf]⟩

end GraphExport
