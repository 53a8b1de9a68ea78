import GraphExport.Job.Station

/-!
# GraphExport.Proofs.Source.Recorded

The label and the properties by which an element is recorded in a schema, and those under which it
is written to a file.

* `KindFilters.scanned?`: what a scan records. `scanElement_eq`: the scan records that and nothing
  else.
* `KindFilters.exported?`: what an export writes. `KindFilters.exported?_eq`: it is what a scan
  records, but that an element without an id is passed over, and so is an edge without its ends.
-/

namespace GraphExport

/-- The element has an id, and an edge has both ends. -/
def Element.isPlaced (e : Element) : Bool :=
  e.id.isOk && (e.kind = .nodes || e.source.isOk && e.target.isOk)

namespace KindFilters

/-- The label and the properties by which a scan records an element. -/
def scanned? (filters : KindFilters) (e : Element) : Option (Label × PropertyMap) :=
  match filters.get e.kind with
  | none => none
  | some filter =>
    match filter.labelOf e, e.properties with
    | .ok label, .ok properties =>
      if filter.accepts label then some (label, properties) else none
    | _, _ => none

/-- The label and the properties under which an export writes an element. -/
def exported? (filters : KindFilters) (e : Element) : Option (Label × PropertyMap) :=
  match classify filters e with
  | .ok (.write label properties) => some (label, properties)
  | _ => none

variable {filters : KindFilters} {e : Element} {row : Label × PropertyMap}

theorem exported?_eq_some {label : Label} {properties : PropertyMap} :
    filters.exported? e = some (label, properties) ↔
      classify filters e = .ok (.write label properties) := by
  unfold exported?
  rcases classify filters e with f | verdict
  · simp
  · cases verdict <;> simp

/-- An export passes over what has no id or no ends. Else it writes what a scan records. -/
theorem exported?_eq (filters : KindFilters) (e : Element) :
    filters.exported? e = if e.isPlaced then filters.scanned? e else none := by
  unfold exported? classify scanned? Element.isPlaced
  cases filters.get e.kind with
  | none => simp
  | some filter =>
    dsimp only
    cases filter.labelOf e with
    | error f => simp
    | ok label =>
      dsimp only
      cases haccepts : filter.accepts label with
      | false => cases e.properties <;> simp [haccepts]
      | true =>
        cases e.id with
        | error f => simp [bind, Except.bind, Except.isOk, Except.toBool]
        | ok id =>
          cases e.kind with
          | nodes =>
            cases e.properties <;> simp [bind, Except.bind, Except.isOk, Except.toBool, haccepts]
          | edges =>
            cases e.source <;> cases e.target <;> cases e.properties <;>
              simp [bind, Except.bind, Except.isOk, Except.toBool, haccepts]

theorem scanned?_of_exported? (h : filters.exported? e = some row) :
    filters.scanned? e = some row := by
  rw [exported?_eq] at h
  split at h
  · exact h
  · cases h

theorem properties_of_scanned? {label : Label} {properties : PropertyMap}
    (h : filters.scanned? e = some (label, properties)) : e.properties = .ok properties := by
  unfold scanned? at h
  split at h
  · cases h
  · split at h
    · rename_i hproperties
      split at h
      · rw [hproperties, (Prod.mk.inj (Option.some.inj h)).2]
      · cases h
    · cases h

/-- One filter is for elements of its kind. -/
theorem kind_of_scanned? {filter : LabelFilter} (h : (single filter).scanned? e = some row) :
    e.kind = filter.kind := by
  unfold scanned? single get at h
  cases hkind : e.kind <;> cases hfilter : filter.kind <;> simp_all

end KindFilters

/-- A scan records what there is to record of an element, and nothing else. -/
theorem scanElement_eq (filters : KindFilters) (allowTokens : Bool) (e : Element)
    (g : GraphSchema) : scanElement filters allowTokens e g =
      match filters.scanned? e with
      | some (label, properties) =>
        g.modify e.kind.output fun c => c.update label properties allowTokens
      | none => g := by
  unfold scanElement KindFilters.scanned?
  cases filters.get e.kind with
  | none => rfl
  | some filter =>
    dsimp only
    cases filter.labelOf e with
    | error f => rfl
    | ok label =>
      cases e.properties with
      | error f => rfl
      | ok properties =>
        dsimp only
        cases filter.accepts label <;> rfl

end GraphExport
